import FingerprintBridge.Tls.Reader
import FingerprintBridge.Lib.Text

/-!
# `src/fingerprint.rs`: the ClientHello

`parseHello` keeps of a hello what is compared: GREASE values are made one, and of some
extensions nothing is kept but their place.
-/

namespace Tls

open Reader

def MAX_HELLO : Nat := 256 * 1024

def grease (n : UInt16) : Bool := (n &&& 0x0f0f) == 0x0a0a && (n >>> 8) == (n &&& 255)

def normalize (n : UInt16) : UInt16 := if grease n then 0x0a0a else n

/-- `sha2::Sha256::digest` and `hex::encode`, which `hex::decode` inverts. -/
structure DigestCrates where
  sha256 : Bytes → Bytes
  hexEncode : Bytes → Str
  hexEncode_inj : Function.Injective hexEncode

/-- `hex::decode` as well. -/
structure HexCrate extends DigestCrates where
  hexDecode : Str → Option Bytes
  decode_encode : ∀ b, hexDecode (hexEncode b) = some b

def pairs : Bytes → List UInt16
  | a :: b :: c => fromBeBytes a b :: pairs c
  | _ => []

def words (b : Bytes) : Res (List UInt16) := do
  ensure (b.length % 2 = 0) "odd u16 vector"
  return (pairs b).map normalize

structure TlsHello where
  legacyVersion : UInt16
  ciphers : List UInt16
  extensions : List UInt16 := []
  compression : Bytes
  groups : List UInt16 := []
  pointFormats : Bytes := []
  signatureAlgorithms : List UInt16 := []
  signatureAlgorithmsCert : List UInt16 := []
  supportedVersions : List UInt16 := []
  alpn : List Str := []
  keyShareGroups : List UInt16 := []
  keyShareLengths : List Nat := []
  certCompression : List UInt16 := []
  pskModes : Bytes := []
  sniPresent : Bool := false
  otherExtensions : List (UInt16 × Str) := []
deriving DecidableEq, Repr

/-! ## Bodies of extensions -/

/-- An entry of `server_name`. -/
def nameEntry (present : Bool) (kind : UInt8) (name : Bytes) : Res Bool :=
  if kind = 0 then do
    ensure (name ≠ []) "empty SNI"
    return true
  else return present

def serverName (present : Bool) (raw : Bytes) : Res Bool := run (do
  let names ← v16
  let present ← run (untilEnd (fun present => do
    let kind ← u8
    let name ← v16
    nameEntry present kind name) present) names
  done
  return present) raw

/-- `words(v.v16()?)?`, and nothing after it. -/
def wordList16 (raw : Bytes) : Res (List UInt16) := run (do
  let ws ← words (← v16)
  done
  return ws) raw

/-- `words(v.v8()?)?`, and nothing after it. -/
def wordList8 (raw : Bytes) : Res (List UInt16) := run (do
  let ws ← words (← v8)
  done
  return ws) raw

/-- `v.v8()?`, and nothing after it. -/
def octets8 (raw : Bytes) : Res Bytes := run (do
  let b ← v8
  done
  return b) raw

def certAlgorithms (raw : Bytes) : Res (List UInt16) := run (do
  let ws ← words (← v16)
  ensure (ws ≠ []) "empty certificate signature algorithms"
  done
  return ws) raw

section
variable (D : DigestCrates)

def digest (b : Bytes) : Str := D.hexEncode (D.sha256 b)

def protocol (alpn : List Str) (p : Bytes) : Res (List Str) := do
  ensure (p ≠ []) "empty ALPN"
  return alpn ++ [D.hexEncode p]

def protocols (alpn : List Str) (raw : Bytes) : Res (List Str) := run (do
  let protocols ← v16
  done
  run (untilEnd (fun alpn => do
    let p ← v8
    protocol D alpn p) alpn) protocols) raw

def keyShare (shares : List UInt16 × List Nat) (group : UInt16) (key : Bytes) :
    Res (List UInt16 × List Nat) :=
  .ok (shares.1 ++ [normalize group], shares.2 ++ [key.length])

def keyShares (shares : List UInt16 × List Nat) (raw : Bytes) : Res (List UInt16 × List Nat) :=
  run (do
    let entries ← v16
    done
    run (untilEnd (fun shares => do
      let group ← u16
      let key ← v16
      keyShare shares group key) shares) entries) raw

/-- The SNI value, padding, session secrets, binders, tickets and ECH ciphertext are
exempt. -/
def exempt (id : UInt16) : Bool := id = 21 || id = 35 || id = 41 || id = 44 || id = 65037

/-- What an extension that is not GREASE adds to the hello. -/
def addExtension (hello : TlsHello) (id : UInt16) (raw : Bytes) : Res TlsHello :=
  if id = 0 then do
    return { hello with sniPresent := ← serverName hello.sniPresent raw }
  else if id = 10 then do
    return { hello with groups := ← wordList16 raw }
  else if id = 11 then do
    return { hello with pointFormats := ← octets8 raw }
  else if id = 13 then do
    return { hello with signatureAlgorithms := ← wordList16 raw }
  else if id = 50 then do
    let ws ← certAlgorithms raw
    return { hello with
      signatureAlgorithmsCert := ws
      otherExtensions := hello.otherExtensions ++ [(id, digest D raw)] }
  else if id = 16 then do
    return { hello with alpn := ← protocols D hello.alpn raw }
  else if id = 27 then do
    return { hello with certCompression := ← wordList8 raw }
  else if id = 43 then do
    return { hello with supportedVersions := ← wordList8 raw }
  else if id = 45 then do
    return { hello with pskModes := ← octets8 raw }
  else if id = 51 then do
    let shares ← keyShares (hello.keyShareGroups, hello.keyShareLengths) raw
    return { hello with keyShareGroups := shares.1, keyShareLengths := shares.2 }
  else if exempt id then return hello
  else return { hello with otherExtensions := hello.otherExtensions ++ [(id, digest D raw)] }

/-- The hello so far, with the ids seen. -/
def extension (state : List UInt16 × TlsHello) (id : UInt16) (raw : Bytes) :
    Res (List UInt16 × TlsHello) := do
  let (seen, hello) := state
  ensure (id ∉ seen) "duplicate TLS extension"
  let hello := { hello with extensions := hello.extensions ++ [normalize id] }
  if grease id then return (id :: seen, hello)
  else return (id :: seen, ← addExtension D hello id raw)

def extensions (hello : TlsHello) (b : Bytes) : Res TlsHello := do
  let state ← run (untilEnd (fun state => do
    let id ← u16
    let raw ← v16
    extension D state id raw) ([], hello)) b
  return state.2

def parseHello (bytes : Bytes) : Res TlsHello := run (do
  let legacyVersion ← u16
  let _ ← take 32
  let _ ← v8
  let ciphers ← words (← v16)
  ensure (ciphers ≠ []) "empty ciphers"
  let compression ← v8
  let hello : TlsHello := { legacyVersion, ciphers, compression }
  if (← rest) = [] then return hello
  else do
    let ext ← v16
    done
    extensions D hello ext) bytes

end

/-! ## Digests to run the model with -/

def hexDigit (n : Nat) : Char := "0123456789abcdef".toList.getD n '0'

/-- Two lower-case digits for an octet. -/
def lowerHex (b : Bytes) : Str :=
  b.flatMap fun c => [hexDigit (c.toNat / 16), hexDigit (c.toNat % 16)]

theorem hexDigit_inj : ∀ m < 16, ∀ n < 16, hexDigit m = hexDigit n → m = n := by decide

theorem lowerHex_inj : Function.Injective lowerHex := by
  intro a b h
  induction a generalizing b with
  | nil =>
    cases b with
    | nil => rfl
    | cons d b => cases h
  | cons c a ih =>
    cases b with
    | nil => cases h
    | cons d b =>
      have hc := c.toNat_lt
      have hd := d.toNat_lt
      simp only [lowerHex, List.flatMap_cons, List.cons_append, List.nil_append, List.cons.injEq] at h
      obtain ⟨h1, h2, htail⟩ := h
      have hhi := hexDigit_inj _ (by omega) _ (by omega) h1
      have hlo := hexDigit_inj _ (by omega) _ (by omega) h2
      obtain rfl : c = d := UInt8.toNat_inj.1 (by omega)
      rw [ih htail]

def hexValue (c : Char) : Option Nat := "0123456789abcdef".toList.findIdx? (· = c)

/-- The octets of an even number of digits. -/
def unhex : Str → Option Bytes
  | [] => some []
  | [_] => none
  | c :: d :: s => do
    let hi ← hexValue c
    let lo ← hexValue d
    return UInt8.ofNat (16 * hi + lo) :: (← unhex s)

theorem hexValue_hexDigit : ∀ n < 16, hexValue (hexDigit n) = some n := by decide

theorem unhex_lowerHex (b : Bytes) : unhex (lowerHex b) = some b := by
  induction b with
  | nil => rfl
  | cons c b ih =>
    have hc := c.toNat_lt
    show unhex (hexDigit (c.toNat / 16) :: hexDigit (c.toNat % 16) :: lowerHex b) = _
    rw [unhex, hexValue_hexDigit _ (by omega), hexValue_hexDigit _ (by omega), ih]
    show some (UInt8.ofNat (16 * (c.toNat / 16) + c.toNat % 16) :: b) = _
    rw [Nat.div_add_mod, UInt8.ofNat_toNat]

/-- SHA-256 of nothing. -/
def emptyDigest : Bytes :=
  [0xe3, 0xb0, 0xc4, 0x42, 0x98, 0xfc, 0x1c, 0x14, 0x9a, 0xfb, 0xf4, 0xc8, 0x99, 0x6f, 0xb9, 0x24,
    0x27, 0xae, 0x41, 0xe4, 0x64, 0x9b, 0x93, 0x4c, 0xa4, 0x95, 0x99, 0x1b, 0x78, 0x52, 0xb8, 0x55]

/-- Right on the empty body, the only one that is digested in what follows. -/
def sampleDigests : DigestCrates where
  sha256 b := if b = [] then emptyDigest else b
  hexEncode := lowerHex
  hexEncode_inj := lowerHex_inj

def sampleHex : HexCrate where
  toDigestCrates := sampleDigests
  hexDecode := unhex
  decode_encode := unhex_lowerHex

end Tls
