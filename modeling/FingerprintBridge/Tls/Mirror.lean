import FingerprintBridge.Lib.Written
import FingerprintBridge.Tls.Evidence
import FingerprintBridge.Tls.ExtensionOrder
import FingerprintBridge.Fingerprint.Evidence

/-!
# `src/tls.rs`: the mirrored hello

`mirror` sets up the outbound connection from what the client offered.  What it cannot
set up it has to name, and `mirror_accounts` says that it does: of every list of the hello
it hands on the known entries in the client's order and names the others, so that no
limitation is named only if the lists were handed on whole.

The TLS library is a parameter: `answer` is its refusal of a call after the calls made
before, `none` if it obeys.  `cfg!(feature = "patched-tls")` is an argument.
-/

namespace Tls

open Written

inductive SslVersion where
  | TLS1_2
  | TLS1_3
deriving DecidableEq, Repr

inductive SslOption where
  | NO_TICKET
  | NO_RENEGOTIATION
  | NO_PSK_DHE_KE
deriving DecidableEq, Repr

inductive Compressor where
  | zlib
  | brotli
  | zstd
deriving DecidableEq, Repr

inductive KeyShare where
  | P256
  | P384
  | P521
  | X25519
  | X25519_MLKEM768
  | X25519_KYBER768_DRAFT00
  | FFDHE2048
  | FFDHE3072
deriving DecidableEq, Repr

/-- The calls into `btls` and into the patched library. -/
inductive Call where
  | builder
  | setCaFile (path : Str)
  | setMinProtoVersion (version : SslVersion)
  | setMaxProtoVersion (version : SslVersion)
  | setPreserveTls13CipherList (on : Bool)
  | setStrictCipherList (names : Str)
  | setGreaseEnabled (on : Bool)
  | setCurvesList (names : Str)
  | setVerifyAlgorithmPrefs (ids : List UInt16)
  | setAlpnProtos (protocols : Bytes)
  | enableOcspStapling
  | enableSignedCertTimestamps
  | setOptions (option : SslOption)
  | addCertificateCompressionAlgorithm (compressor : Compressor)
  | setExtensionPermutation (ids : List UInt16)
  | configure
  | intoSsl (host : Str)
  | setBridgeProfile (ciphers : List UInt16) (padding : Bool)
  | setBridgeEncryptThenMac (enabled : Bool)
  | setBridgeStatusRequestV2 (enabled : Bool)
  | setBridgeEcPointFormats (formats : Bytes)
  | setBridgeCertVerifyAlgorithmPrefs (ids : List UInt16)
  | set1ClientKeyShares (groups : List UInt16)
  | setClientKeyShares (shares : List KeyShare)
  | setEnableEchGrease (on : Bool)
deriving DecidableEq, Repr

/-- The algorithm that a call adds. -/
def Call.compression : Call → Option Compressor
  | .addCertificateCompressionAlgorithm c => some c
  | _ => none

structure Backend where
  /-- `SslCipher::from_value` and `name` -/
  cipherName : UInt16 → Option Str
  answer : List Call → Call → Option String
  /-- `crypto_char2::register` -/
  char2 : Bool
  /-- `crypto_x448::register` -/
  x448 : Bool
  /-- `crypto_ed448::register` -/
  ed448 : Bool

/-- What `mirror` leaves, in order: the calls it made, the limitations it pushed. -/
inductive Entry where
  | call (c : Call)
  | limitation (text : Str)
deriving DecidableEq, Repr

abbrev Log := List Entry

def callsOf (log : Log) : List Call :=
  log.filterMap fun | .call c => some c | .limitation _ => none

def limitationsOf (log : Log) : List Str :=
  log.filterMap fun | .call _ => none | .limitation text => some text

/-! ## Tables -/

/-- A name under `#[cfg(feature = "patched-tls")]`. -/
def added (patched : Bool) (name : String) : Option Str :=
  if patched then some name.toList else none

def group (patched : Bool) (id : UInt16) : Option Str :=
  match id.toNat with
  | 10 => added patched "sect283r1"
  | 23 => some "P-256".toList
  | 24 => some "P-384".toList
  | 25 => some "P-521".toList
  | 29 => some "X25519".toList
  | 30 => added patched "X448"
  | 4588 => some "X25519MLKEM768".toList
  | 4587 => added patched "SecP256r1MLKEM768"
  | 4589 => added patched "SecP384r1MLKEM1024"
  | 25497 => some "X25519Kyber768Draft00".toList
  | 256 => some "ffdhe2048".toList
  | 257 => some "ffdhe3072".toList
  | 258 => added patched "ffdhe4096"
  | 259 => added patched "ffdhe6144"
  | 260 => added patched "ffdhe8192"
  | _ => none

def share (id : UInt16) : Option KeyShare :=
  match id.toNat with
  | 23 => some .P256
  | 24 => some .P384
  | 25 => some .P521
  | 29 => some .X25519
  | 4588 => some .X25519_MLKEM768
  | 25497 => some .X25519_KYBER768_DRAFT00
  | 256 => some .FFDHE2048
  | 257 => some .FFDHE3072
  | _ => none

def SIGNATURES (patched : Bool) : List UInt16 :=
  let added : List UInt16 → List UInt16 := fun ids => if patched then ids else []
  added [0x0202, 0x0302, 0x0402, 0x0502, 0x0602] ++ [0x0201, 0x0203] ++ added [0x0301, 0x0303] ++
    [0x0401, 0x0501, 0x0601, 0x0403, 0x0503, 0x0603, 0x0804, 0x0805, 0x0806, 0x0807] ++
    added [0x0808, 0x0809, 0x080a, 0x080b, 0x081a, 0x081b, 0x081c, 0x0904, 0x0905, 0x0906]

def KNOWN (patched : Bool) : List UInt16 :=
  let added : List UInt16 → List UInt16 := fun ids => if patched then ids else []
  [0, 5, 10, 11, 13, 16] ++ added [17] ++ [18, 21] ++ added [22] ++
    [23, 27, 28, 34, 35, 41, 42, 43, 44, 45, 47] ++ added [50] ++ [51, 17513, 17613, 65037, 65281]

/-! ## The code -/

section
variable (D : HexCrate) (B : Backend) (patched : Bool)

/-- A call that ends with `?`. -/
def Backend.call (c : Call) : Act Log Unit := do
  match B.answer (callsOf (← get)) c with
  | none => write (.call c)
  | some e => throw (.err e)

/-- A call of the patched library and the check of its result. -/
def Backend.bridge (c : Call) (msg : String) : Act Log Unit := do
  ensure (B.answer (callsOf (← get)) c = none) msg
  write (.call c)

/-- A call that cannot fail. -/
def tell (c : Call) : Act Log Unit := write (.call c)

def limitation (text : Str) : Act Log Unit := write (.limitation text)

/-- `format!("unsupported {what} {n}")` -/
def unsupported (what : String) (n : Nat) : Str :=
  "unsupported ".toList ++ what.toList ++ ' ' :: decimal n

/-- The loops over ciphers, groups and signature algorithms. -/
def sift {β : Type} (skip : UInt16 → Bool) (keep : UInt16 → Option β) (what : String) :
    List β → List UInt16 → Act Log (List β)
  | kept, [] => pure kept
  | kept, id :: ids =>
    if skip id then sift skip keep what kept ids
    else match keep id with
      | some k => sift skip keep what (kept ++ [k]) ids
      | none => do
        limitation (unsupported what id.toNat)
        sift skip keep what kept ids

/-- The loops that only name what is not known. -/
def name {γ : Type} (bad : γ → Bool) (toNat : γ → Nat) (what : String) (ids : List γ) :
    Act Log Unit :=
  ids.forM fun id => provided (bad id) (limitation (unsupported what (toNat id)))

def cipherSkip (id : UInt16) : Bool := grease id || id == 0xff

def listed (table : List UInt16) (id : UInt16) : Option UInt16 :=
  if table.contains id then some id else none

def h2 : Bytes := ascii "h2"

def http11 : Bytes := ascii "http/1.1"

/-- The loop over the protocols; the text of the first error is that of `hex`. -/
def alpnWire : Bytes → List Str → Res Bytes
  | alpn, [] => .ok alpn
  | alpn, p :: ps => do
    let p ← okOr (D.hexDecode p) "invalid hex"
    ensure (p = h2 ∨ p = http11) "unsupported ALPN"
    alpnWire (alpn ++ UInt8.ofNat p.length :: p) ps

def compressor (id : UInt16) : Option Compressor :=
  match id.toNat with
  | 1 => some .zlib
  | 2 => some .brotli
  | 3 => some .zstd
  | _ => none

/-- A pass of the loop over the compression algorithms. -/
def certCompression (id : UInt16) : Act Log Unit :=
  match compressor id with
  | some c => B.call (.addCertificateCompressionAlgorithm c)
  | none => limitation (unsupported "certificate compression" id.toNat)

def onlyTls13 (hello : TlsHello) : Bool :=
  hello.supportedVersions.contains 0x0304 &&
    !hello.supportedVersions.any fun version => !grease version && decide (version < 0x0304)

/-- `Some(..).join(":")` of the names. -/
def joined (names : List Str) : Str := [':'].intercalate names

/-- The ciphers handed to the patched library. -/
def profile (hello : TlsHello) : List UInt16 :=
  hello.ciphers.filter fun id => grease id || id == 0xff || (B.cipherName id).isSome

/-- The part of `mirror` up to `b.build()`. -/
def mirrorBuilder (hello : TlsHello) (ca : Option Str) : Act Log (List UInt16) := do
  provided patched (ensure (B.char2 = true) "binary-field EC provider registration failed")
  provided patched (ensure (B.x448 = true) "X448 provider registration failed")
  provided patched (ensure (B.ed448 = true) "Ed448 provider registration failed")
  B.call .builder
  ca.toList.forM fun ca => B.call (.setCaFile ca)
  B.call (.setMinProtoVersion (if onlyTls13 hello then .TLS1_3 else .TLS1_2))
  provided (!hello.supportedVersions.contains 0x0304) (B.call (.setMaxProtoVersion .TLS1_2))
  let ciphers ← sift cipherSkip B.cipherName "cipher" [] hello.ciphers
  ensure (!ciphers.isEmpty) "no supported client cipher suites"
  tell (.setPreserveTls13CipherList true)
  B.call (.setStrictCipherList (joined ciphers))
  tell (.setGreaseEnabled ((hello.ciphers ++ hello.extensions).any grease))
  let groups ← sift grease (group patched) "group" [] hello.groups
  provided (!groups.isEmpty) (B.call (.setCurvesList (joined groups)))
  let signatures ← sift grease (listed (SIGNATURES patched)) "signature algorithm" []
    hello.signatureAlgorithms
  provided (!signatures.isEmpty) (B.call (.setVerifyAlgorithmPrefs signatures))
  let certificateSignatures ← sift grease (listed (SIGNATURES patched))
    "certificate signature algorithm" [] (if patched then hello.signatureAlgorithmsCert else [])
  let alpn ← alpnWire D [] hello.alpn
  provided (!alpn.isEmpty) (B.call (.setAlpnProtos alpn))
  provided (hello.extensions.contains 5) (tell .enableOcspStapling)
  provided (hello.extensions.contains 18) (tell .enableSignedCertTimestamps)
  provided (!hello.extensions.contains 35) (tell (.setOptions .NO_TICKET))
  provided (!hello.extensions.contains 65281) (tell (.setOptions .NO_RENEGOTIATION))
  provided (!hello.extensions.contains 45) (tell (.setOptions .NO_PSK_DHE_KE))
  provided (!patched && hello.ciphers.contains 0xff) <|
    limitation "renegotiation SCSV cannot be emitted by this backend".toList
  hello.certCompression.forM (certCompression B)
  B.call (.setExtensionPermutation (extensionOrder id patched hello.extensions))
  name (fun id => !grease id && !(KNOWN patched).contains id) UInt16.toNat "extension"
    hello.extensions
  return certificateSignatures

/-- The block of the patched library. -/
def mirrorBridge (hello : TlsHello) (certificateSignatures : List UInt16) : Act Log Unit := do
  B.bridge (.setBridgeProfile (profile B hello) (hello.extensions.contains 21))
    "patched TLS profile rejected"
  B.bridge (.setBridgeEncryptThenMac (hello.extensions.contains 22))
    "patched encrypt-then-MAC profile rejected"
  B.bridge (.setBridgeStatusRequestV2 (hello.extensions.contains 17))
    "patched status_request_v2 profile rejected"
  let pointFormats := hello.pointFormats.filter (· ≤ 2)
  name (fun format => decide (2 < format)) UInt8.toNat "EC point format" hello.pointFormats
  provided (!pointFormats.isEmpty) <|
    B.bridge (.setBridgeEcPointFormats pointFormats) "patched EC point format profile rejected"
  provided (!certificateSignatures.isEmpty) <|
    B.bridge (.setBridgeCertVerifyAlgorithmPrefs certificateSignatures)
      "patched certificate signature profile rejected"

def mirrorShares (hello : TlsHello) : Act Log Unit :=
  if patched then do
    let shares := hello.keyShareGroups.filter fun id => (group patched id).isSome
    provided (!shares.isEmpty) (B.bridge (.set1ClientKeyShares shares) "patched TLS key shares rejected")
  else do
    let shares := hello.keyShareGroups.filterMap share
    provided (!shares.isEmpty) (B.call (.setClientKeyShares shares))

def mirrorAll (hello : TlsHello) (host : Str) (ca : Option Str) : Act Log Unit := do
  let certificateSignatures ← mirrorBuilder D B patched hello ca
  B.call .configure
  B.call (.intoSsl host)
  provided patched (mirrorBridge B hello certificateSignatures)
  mirrorShares B patched hello
  tell (.setEnableEchGrease (hello.extensions.contains 65037))
  provided (hello.extensions.contains 17513 || hello.extensions.contains 17613) <|
    limitation "ALPS not mirrored; compare extension diff".toList
  provided (hello.extensions.contains 41 || hello.extensions.contains 42) <|
    limitation "session resumption / 0-RTT not inherited".toList

/-- The calls that made the `Ssl`, and `limitations`. -/
def mirror (hello : TlsHello) (host : Str) (ca : Option Str) : Res (List Call × List Str) :=
  match mirrorAll D B patched hello host ca [] with
  | .ok _ log => .ok (callsOf log, limitationsOf log)
  | .error e _ => .error e

end

/-! ## What the loops leave -/

section
variable {D : HexCrate} {B : Backend} {patched : Bool}

/-- A backend that refuses nothing. -/
def Backend.Willing (B : Backend) : Prop := ∀ calls c, B.answer calls c = none

@[simp] theorem callsOf_append (l l' : Log) : callsOf (l ++ l') = callsOf l ++ callsOf l' :=
  List.filterMap_append

@[simp] theorem limitationsOf_append (l l' : Log) :
    limitationsOf (l ++ l') = limitationsOf l ++ limitationsOf l' := List.filterMap_append

@[simp] theorem callsOf_nil : callsOf [] = [] := rfl

@[simp] theorem limitationsOf_nil : limitationsOf [] = [] := rfl

@[simp] theorem callsOf_call (c : Call) : callsOf [.call c] = [c] := rfl

@[simp] theorem limitationsOf_call (c : Call) : limitationsOf [.call c] = [] := rfl

@[simp] theorem callsOf_limitation (text : Str) : callsOf [.limitation text] = [] := rfl

@[simp] theorem limitationsOf_limitation (text : Str) :
    limitationsOf [.limitation text] = [text] := rfl

@[simp] theorem callsOf_ite (c : Prop) [Decidable c] (l : Log) :
    callsOf (if c then l else []) = if c then callsOf l else [] := by
  split <;> rfl

@[simp] theorem limitationsOf_ite (c : Prop) [Decidable c] (l : Log) :
    limitationsOf (if c then l else []) = if c then limitationsOf l else [] := by
  split <;> rfl

theorem writes_call (c : Call) : Writes B.Willing (B.call c) True () [.call c] := by
  have hrun : ∀ w, B.call c w = match B.answer (callsOf w) c with
      | none => write (.call c) w
      | some e => .error (.err e) w := by
    intro w
    show (match B.answer (callsOf w) c with
      | none => write (.call c)
      | some e => throw (.err e) : Act Log Unit) w = _
    cases B.answer (callsOf w) c with
    | none => rfl
    | some e => rfl
  refine ⟨fun w u w' h => ?_, fun hw _ w => ?_, fun w w' h => ?_⟩
  · rw [hrun] at h
    cases ha : B.answer (callsOf w) c with
    | none =>
      rw [ha] at h
      exact (writes_write _ : Writes True _ _ _ _).only _ _ _ h
    | some e =>
      rw [ha] at h
      cases h
  · rw [hrun, hw]
    rfl
  · rw [hrun] at h
    cases ha : B.answer (callsOf w) c with
    | none =>
      rw [ha] at h
      cases h
    | some e =>
      rw [ha] at h
      cases h

theorem writes_bridge (c : Call) (msg : String) :
    Writes B.Willing (B.bridge c msg) True () [.call c] := by
  refine ⟨fun w u w' h => ?_, fun hw _ w => ?_, fun w w' h => ?_⟩
  · unfold Backend.bridge at h
    rw [Act.get_bind] at h
    have := ((writes_ensure _ msg).seq
      (writes_write (Entry.call c) : Writes True _ _ _ _)).only _ _ _ h
    exact ⟨trivial, rfl, this.2.2⟩
  · unfold Backend.bridge
    rw [Act.get_bind]
    exact ((writes_ensure _ msg).seq (writes_write _ : Writes True _ _ _ _)).ends trivial
      ⟨hw _ _, trivial⟩ w
  · unfold Backend.bridge at h
    rw [Act.get_bind] at h
    exact ((writes_ensure _ msg).seq (writes_write _ : Writes True _ _ _ _)).calm _ _ h

/-- The entries of a list that are handed on. -/
def kept {β : Type} (skip : UInt16 → Bool) (keep : UInt16 → Option β) (ids : List UInt16) :
    List β := ids.filterMap fun id => if skip id then none else keep id

/-- The entries that are only named. -/
def others {β : Type} (skip : UInt16 → Bool) (keep : UInt16 → Option β) (ids : List UInt16) :
    List UInt16 := ids.filter fun id => !skip id && (keep id).isNone

theorem writes_sift {β : Type} {kind : Prop} (skip : UInt16 → Bool) (keep : UInt16 → Option β)
    (what : String) (ids : List UInt16) (k : List β) :
    Writes kind (sift skip keep what k ids) True (k ++ kept skip keep ids)
      ((others skip keep ids).map fun id => .limitation (unsupported what id.toNat)) := by
  induction ids generalizing k with
  | nil =>
    rw [show k ++ kept skip keep [] = k from List.append_nil k]
    exact writes_pure k
  | cons id ids ih =>
    unfold sift
    by_cases hs : skip id = true
    · simpa [kept, others, hs] using ih k
    · rw [if_neg hs]
      cases hk : keep id with
      | some b => simpa [kept, others, hs, hk] using ih (k ++ [b])
      | none =>
        have := (writes_write (.limitation (unsupported what id.toNat)) : Writes kind _ _ _ _).seq
          (ih k)
        simpa [kept, others, hs, hk, limitation] using this

theorem writes_name {γ : Type} {kind : Prop} (bad : γ → Bool) (toNat : γ → Nat) (what : String)
    (ids : List γ) : Writes kind (name bad toNat what ids) True ()
      ((ids.filter bad).map fun id => .limitation (unsupported what (toNat id))) := by
  have hstep : ∀ id, Writes kind
      (provided (bad id) (limitation (unsupported what (toNat id)))) True ()
      (if bad id then [.limitation (unsupported what (toNat id))] else []) := fun id =>
    (writes_provided (writes_write _)).congr (by simp) rfl
  refine (writes_forM hstep ids).congr (by simp) ?_
  induction ids with
  | nil => rfl
  | cons id ids ih =>
    by_cases hb : bad id = true
    · simp [hb, ih]
    · simp [hb, ih]

/-- The protocols in the form of the wire. -/
def wire (D : HexCrate) (ps : List Str) : Bytes :=
  ps.flatMap fun p => match D.hexDecode p with
    | some b => UInt8.ofNat b.length :: b
    | none => []

def Spoken (D : HexCrate) (p : Str) : Prop := D.hexDecode p = some h2 ∨ D.hexDecode p = some http11

theorem alpnWire_ok (alpn : Bytes) (ps : List Str) (b : Bytes) :
    alpnWire D alpn ps = .ok b ↔ (∀ p ∈ ps, Spoken D p) ∧ b = alpn ++ wire D ps := by
  induction ps generalizing alpn with
  | nil => simp [alpnWire, wire, eq_comm]
  | cons p ps ih =>
    unfold alpnWire
    simp only [Res.bind_ok_iff, Res.okOr_ok_iff, Res.ensure_ok_iff, ih, List.forall_mem_cons, Spoken]
    constructor
    · rintro ⟨x, hx, -, hxs, hps, rfl⟩
      refine ⟨⟨?_, hps⟩, by simp [wire, hx]⟩
      rcases hxs with rfl | rfl
      · exact .inl hx
      · exact .inr hx
    · rintro ⟨⟨hx | hx, hps⟩, rfl⟩
      · exact ⟨_, hx, (), .inl rfl, hps, by simp [wire, hx]⟩
      · exact ⟨_, hx, (), .inr rfl, hps, by simp [wire, hx]⟩

theorem alpnWire_ne_panic (alpn : Bytes) (ps : List Str) :
    alpnWire D alpn ps ≠ .error .panic := by
  induction ps generalizing alpn with
  | nil => intro h; cases h
  | cons p ps ih =>
    refine Res.bind_ne_panic ?_ fun x _ => Res.bind_ne_panic (Res.ensure_ne_panic _ _) fun _ _ => ih _
    cases D.hexDecode p with
    | none => intro h; cases h
    | some x => intro h; cases h

theorem writes_alpnWire {kind : Prop} (ps : List Str) :
    Writes kind (liftM (alpnWire D [] ps) : Act Log Bytes) (∀ p ∈ ps, Spoken D p) (wire D ps) [] :=
  writes_lift (fun b h => by simpa using (alpnWire_ok [] ps b).1 h)
    (fun h => (alpnWire_ok [] ps _).2 ⟨h, rfl⟩) (alpnWire_ne_panic _ _)

def compressionEntry (id : UInt16) : Entry :=
  match compressor id with
  | some c => .call (.addCertificateCompressionAlgorithm c)
  | none => .limitation (unsupported "certificate compression" id.toNat)

theorem writes_certCompression (id : UInt16) :
    Writes B.Willing (certCompression B id) True () [compressionEntry id] := by
  unfold certCompression compressionEntry
  cases compressor id with
  | some c => exact writes_call _
  | none => exact writes_write _

/-! ## What `mirror` leaves -/

section
variable (D B patched)

/-- The names of the ciphers handed on. -/
def cipherNames (hello : TlsHello) : List Str := kept cipherSkip B.cipherName hello.ciphers

def groupNames (hello : TlsHello) : List Str := kept grease (group patched) hello.groups

def signatures (ids : List UInt16) : List UInt16 := kept grease (listed (SIGNATURES patched)) ids

/-- The list of `signature_algorithms_cert`, which only the patched library is given. -/
def certOffers (hello : TlsHello) : List UInt16 :=
  if patched then hello.signatureAlgorithmsCert else []

/-- What the hello and the registrations have to be. -/
def Mirrorable (hello : TlsHello) : Prop :=
  (patched = true → B.char2 = true ∧ B.x448 = true ∧ B.ed448 = true) ∧
    (!(cipherNames B hello).isEmpty) = true ∧ ∀ p ∈ hello.alpn, Spoken D p

def builderCalls (hello : TlsHello) (ca : Option Str) : List Call :=
  .builder :: ca.toList.map .setCaFile ++
    [.setMinProtoVersion (if onlyTls13 hello then .TLS1_3 else .TLS1_2)] ++
    (if !hello.supportedVersions.contains 0x0304 then [.setMaxProtoVersion .TLS1_2] else []) ++
    [.setPreserveTls13CipherList true, .setStrictCipherList (joined (cipherNames B hello)),
      .setGreaseEnabled ((hello.ciphers ++ hello.extensions).any grease)] ++
    (if !(groupNames patched hello).isEmpty then
      [.setCurvesList (joined (groupNames patched hello))] else []) ++
    (if !(signatures patched hello.signatureAlgorithms).isEmpty then
      [.setVerifyAlgorithmPrefs (signatures patched hello.signatureAlgorithms)] else []) ++
    (if !(wire D hello.alpn).isEmpty then [.setAlpnProtos (wire D hello.alpn)] else []) ++
    (if hello.extensions.contains 5 then [.enableOcspStapling] else []) ++
    (if hello.extensions.contains 18 then [.enableSignedCertTimestamps] else []) ++
    (if !hello.extensions.contains 35 then [.setOptions .NO_TICKET] else []) ++
    (if !hello.extensions.contains 65281 then [.setOptions .NO_RENEGOTIATION] else []) ++
    (if !hello.extensions.contains 45 then [.setOptions .NO_PSK_DHE_KE] else []) ++
    (hello.certCompression.filterMap compressor).map .addCertificateCompressionAlgorithm ++
    [.setExtensionPermutation (extensionOrder id patched hello.extensions)]

def unknown (what : String) (ids : List UInt16) : List Str :=
  ids.map fun id => unsupported what id.toNat

def builderLimitations (hello : TlsHello) : List Str :=
  unknown "cipher" (others cipherSkip B.cipherName hello.ciphers) ++
    unknown "group" (others grease (group patched) hello.groups) ++
    unknown "signature algorithm"
      (others grease (listed (SIGNATURES patched)) hello.signatureAlgorithms) ++
    unknown "certificate signature algorithm"
      (others grease (listed (SIGNATURES patched)) (certOffers patched hello)) ++
    (if !patched && hello.ciphers.contains 0xff then
      ["renegotiation SCSV cannot be emitted by this backend".toList] else []) ++
    unknown "certificate compression"
      (others (fun _ => false) compressor hello.certCompression) ++
    unknown "extension" (others grease (listed (KNOWN patched)) hello.extensions)

def bridgeCalls (hello : TlsHello) : List Call :=
  let formats := hello.pointFormats.filter (· ≤ 2)
  let certificates := signatures patched (certOffers patched hello)
  [.setBridgeProfile (profile B hello) (hello.extensions.contains 21),
    .setBridgeEncryptThenMac (hello.extensions.contains 22),
    .setBridgeStatusRequestV2 (hello.extensions.contains 17)] ++
    (if !formats.isEmpty then [.setBridgeEcPointFormats formats] else []) ++
    (if !certificates.isEmpty then [.setBridgeCertVerifyAlgorithmPrefs certificates] else [])

def bridgeLimitations (hello : TlsHello) : List Str :=
  (hello.pointFormats.filter (2 < ·)).map fun format => unsupported "EC point format" format.toNat

def shareCalls (hello : TlsHello) : List Call :=
  let ids := hello.keyShareGroups.filter fun id => (group patched id).isSome
  let shares := hello.keyShareGroups.filterMap share
  (if patched then (if !ids.isEmpty then [.set1ClientKeyShares ids] else []) else []) ++
    (if !patched then (if !shares.isEmpty then [.setClientKeyShares shares] else []) else [])

def mirrorCalls (hello : TlsHello) (host : Str) (ca : Option Str) : List Call :=
  builderCalls D B patched hello ca ++ [.configure, .intoSsl host] ++
    (if patched then bridgeCalls B patched hello else []) ++ shareCalls patched hello ++
    [.setEnableEchGrease (hello.extensions.contains 65037)]

def mirrorLimitations (hello : TlsHello) : List Str :=
  builderLimitations B patched hello ++ (if patched then bridgeLimitations hello else []) ++
    (if hello.extensions.contains 17513 || hello.extensions.contains 17613 then
      ["ALPS not mirrored; compare extension diff".toList] else []) ++
    (if hello.extensions.contains 41 || hello.extensions.contains 42 then
      ["session resumption / 0-RTT not inherited".toList] else [])

end

@[simp] theorem callsOf_noted {γ : Type} (f : γ → Str) (l : List γ) :
    callsOf (l.map fun c => .limitation (f c)) = [] := by
  induction l with
  | nil => rfl
  | cons c l ih => exact ih

@[simp] theorem limitationsOf_noted {γ : Type} (f : γ → Str) (l : List γ) :
    limitationsOf (l.map fun c => .limitation (f c)) = l.map f := by
  induction l with
  | nil => rfl
  | cons c l ih => exact congrArg (f c :: ·) ih

@[simp] theorem callsOf_made {γ : Type} (f : γ → Call) (l : List γ) :
    callsOf (l.flatMap fun c => [.call (f c)]) = l.map f := by
  induction l with
  | nil => rfl
  | cons c l ih => exact congrArg (f c :: ·) ih

@[simp] theorem limitationsOf_made {γ : Type} (f : γ → Call) (l : List γ) :
    limitationsOf (l.flatMap fun c => [.call (f c)]) = [] := by
  induction l with
  | nil => rfl
  | cons c l ih => exact ih

@[simp] theorem callsOf_compression (ids : List UInt16) :
    callsOf (ids.flatMap fun id => [compressionEntry id]) =
      (ids.filterMap compressor).map .addCertificateCompressionAlgorithm := by
  induction ids with
  | nil => rfl
  | cons id ids ih =>
    rw [List.flatMap_cons, callsOf_append, ih, compressionEntry]
    cases hc : compressor id with
    | some c => simp [hc]
    | none => simp [hc]

@[simp] theorem limitationsOf_compression (ids : List UInt16) :
    limitationsOf (ids.flatMap fun id => [compressionEntry id]) =
      unknown "certificate compression" (others (fun _ => false) compressor ids) := by
  induction ids with
  | nil => rfl
  | cons id ids ih =>
    rw [List.flatMap_cons, limitationsOf_append, ih, compressionEntry]
    cases hc : compressor id with
    | some c => simp [hc, others, unknown]
    | none => simp [hc, others, unknown]

theorem others_listed (table : List UInt16) (skip : UInt16 → Bool) (ids : List UInt16) :
    others skip (listed table) ids = ids.filter fun id => !skip id && !table.contains id := by
  refine List.filter_congr fun id _ => ?_
  unfold listed
  by_cases h : id ∈ table
  · simp [h]
  · simp [h]

variable (D B patched) in
theorem writes_builder (hello : TlsHello) (ca : Option Str) : ∃ log,
    Writes B.Willing (mirrorBuilder D B patched hello ca) (Mirrorable D B patched hello)
      (signatures patched (certOffers patched hello)) log ∧
    callsOf log = builderCalls D B patched hello ca ∧
    limitationsOf log = builderLimitations B patched hello := by
  unfold mirrorBuilder
  refine Writes.like ((writes_provided (writes_ensure _ _)).seq <|
    (writes_provided (writes_ensure _ _)).seq <| (writes_provided (writes_ensure _ _)).seq <|
    (writes_call _).seq <| (writes_forM (fun c => writes_call _) _).seq <| (writes_call _).seq <|
    (writes_provided (writes_call _)).seq <| (writes_sift _ _ _ _ _).bind <|
    (writes_ensure _ _).seq <| (writes_write _).seq <| (writes_call _).seq <|
    (writes_write _).seq <| (writes_sift _ _ _ _ _).bind <|
    (writes_provided (writes_call _)).seq <| (writes_sift _ _ _ _ _).bind <|
    (writes_provided (writes_call _)).seq <| (writes_sift _ _ _ _ _).bind <|
    (writes_alpnWire _).bind <| (writes_provided (writes_call _)).seq <|
    (writes_provided (writes_write _)).seq <| (writes_provided (writes_write _)).seq <|
    (writes_provided (writes_write _)).seq <| (writes_provided (writes_write _)).seq <|
    (writes_provided (writes_write _)).seq <| (writes_provided (writes_write _)).seq <|
    (writes_forM writes_certCompression _).seq <| (writes_call _).seq <|
    (writes_name _ _ _ _).seq <| writes_pure _) ?_ ⟨?_, ?_⟩
  · unfold Mirrorable cipherNames
    simp only [List.nil_append, true_and, and_true, implies_true]
    constructor
    · rintro ⟨h1, h2, h3, h4, h5⟩
      exact ⟨fun h => ⟨h1 h, h2 h, h3 h⟩, h4, h5⟩
    · rintro ⟨h, h4, h5⟩
      exact ⟨fun hp => (h hp).1, fun hp => (h hp).2.1, fun hp => (h hp).2.2, h4, h5⟩
  · simp only [callsOf_append, callsOf_ite, callsOf_call, callsOf_limitation,
      callsOf_noted, callsOf_made, callsOf_compression, ite_self, List.nil_append, List.append_nil]
    simp only [builderCalls, cipherNames, groupNames, signatures, List.append_assoc,
      List.cons_append, List.nil_append]
    rfl
  · simp only [limitationsOf_append, limitationsOf_ite, limitationsOf_call,
      limitationsOf_limitation, limitationsOf_noted, limitationsOf_made, limitationsOf_compression,
      ite_self, List.nil_append, List.append_nil]
    simp only [builderLimitations, unknown, others_listed, certOffers, List.append_assoc]

variable (B patched) in
theorem writes_mirrorBridge (hello : TlsHello) : ∃ log,
    Writes B.Willing (mirrorBridge B hello (signatures patched (certOffers patched hello))) True ()
      log ∧ callsOf log = bridgeCalls B patched hello ∧
    limitationsOf log = bridgeLimitations hello := by
  unfold mirrorBridge
  refine Writes.like ((writes_bridge _ _).seq <| (writes_bridge _ _).seq <|
    (writes_bridge _ _).seq <| (writes_name _ _ _ _).seq <|
    (writes_provided (writes_bridge _ _)).seq <| writes_provided (writes_bridge _ _)) ?_ ⟨?_, ?_⟩
  · simp only [true_and, implies_true]
  · simp only [callsOf_append, callsOf_ite, callsOf_call, callsOf_noted, List.nil_append]
    simp only [bridgeCalls, List.cons_append, List.nil_append]
  · simp only [limitationsOf_append, limitationsOf_ite, limitationsOf_call, limitationsOf_noted,
      ite_self, List.nil_append, List.append_nil]
    rfl

variable (B patched) in
theorem writes_mirrorShares (hello : TlsHello) : ∃ log,
    Writes B.Willing (mirrorShares B patched hello) True () log ∧
    callsOf log = shareCalls patched hello ∧ limitationsOf log = [] := by
  unfold mirrorShares shareCalls
  cases patched with
  | true =>
    refine Writes.like (writes_provided (writes_bridge _ _)) (by simp) ⟨?_, ?_⟩
    · simp only [callsOf_ite, callsOf_call]
      exact (List.append_nil _).symm
    · simp only [limitationsOf_ite, limitationsOf_call, ite_self]
  | false =>
    refine Writes.like (writes_provided (writes_call _)) (by simp) ⟨?_, ?_⟩
    · simp only [callsOf_ite, callsOf_call]
      rfl
    · simp only [limitationsOf_ite, limitationsOf_call, ite_self]

variable (D B patched) in
theorem writes_mirrorAll (hello : TlsHello) (host : Str) (ca : Option Str) : ∃ log,
    Writes B.Willing (mirrorAll D B patched hello host ca) (Mirrorable D B patched hello) () log ∧
    callsOf log = mirrorCalls D B patched hello host ca ∧
    limitationsOf log = mirrorLimitations B patched hello := by
  obtain ⟨l, hl, hlc, hll⟩ := writes_builder D B patched hello ca
  obtain ⟨b, hb, hbc, hbl⟩ := writes_mirrorBridge B patched hello
  obtain ⟨s, hs, hsc, hsl⟩ := writes_mirrorShares B patched hello
  unfold mirrorAll
  refine Writes.like (hl.bind <| (writes_call _).seq <| (writes_call _).seq <|
    (writes_provided hb).seq <| hs.seq <| (writes_write _).seq <|
    (writes_provided (writes_write _)).seq <| writes_provided (writes_write _)) ?_ ⟨?_, ?_⟩
  · simp only [and_true, implies_true]
  · simp only [callsOf_append, callsOf_ite, callsOf_call, callsOf_limitation, ite_self, hlc, hbc,
      hsc, List.append_nil]
    simp only [mirrorCalls, List.append_assoc, List.cons_append, List.nil_append]
  · simp only [limitationsOf_append, limitationsOf_ite, limitationsOf_call,
      limitationsOf_limitation, hll, hbl, hsl, List.nil_append]
    simp only [mirrorLimitations, List.append_assoc]

variable (D B patched) in
/-- `mirror` ends well only for what it can mirror, and then has made these calls and named these
limitations; a willing backend is all it needs besides, and it never panics. -/
theorem mirror_ok_iff (hello : TlsHello) (host : Str) (ca : Option Str) :
    (∀ r, mirror D B patched hello host ca = .ok r → Mirrorable D B patched hello ∧
      r = (mirrorCalls D B patched hello host ca, mirrorLimitations B patched hello)) ∧
    (B.Willing → Mirrorable D B patched hello → ∃ r, mirror D B patched hello host ca = .ok r) ∧
    mirror D B patched hello host ca ≠ .error .panic := by
  obtain ⟨log, h, hc, hl⟩ := writes_mirrorAll D B patched hello host ca
  unfold mirror
  refine ⟨fun r hr => ?_, fun hw hm => ?_, fun hp => ?_⟩
  · cases hrun : mirrorAll D B patched hello host ca [] with
    | error e w =>
      rw [hrun] at hr
      cases hr
    | ok u w =>
      rw [hrun] at hr
      obtain ⟨hm, -, rfl⟩ := h.only _ _ _ hrun
      cases hr
      exact ⟨hm, Prod.ext hc hl⟩
  · rw [h.ends hw hm []]
    exact ⟨_, rfl⟩
  · cases hrun : mirrorAll D B patched hello host ca [] with
    | error e w =>
      rw [hrun] at hp
      cases hp
      exact h.calm _ _ hrun
    | ok u w =>
      rw [hrun] at hp
      cases hp

/-! ## Nothing is dropped in silence -/

/-- All entries that are not skipped are handed on. -/
def Complete {β : Type} (skip : UInt16 → Bool) (keep : UInt16 → Option β) (ids : List UInt16)
    (handed : List β) : Prop := (ids.filter fun id => !skip id).map keep = handed.map some

/-- Of the entries of `ids` that are not skipped, some are handed on, in order, and each of the
others is named. -/
structure Accounted {β : Type} (skip : UInt16 → Bool) (keep : UInt16 → Option β) (what : String)
    (ids : List UInt16) (handed : List β) (limitations : List Str) : Prop where
  ordered : ∃ offers : List UInt16, offers.Sublist ids ∧ (∀ id ∈ offers, skip id = false) ∧
    offers.map keep = handed.map some
  covered : ∀ id ∈ ids, skip id = false →
    (∃ b ∈ handed, keep id = some b) ∨ unsupported what id.toNat ∈ limitations
  whole : limitations = [] → Complete skip keep ids handed

section
variable {β : Type} {skip : UInt16 → Bool} {keep : UInt16 → Option β}

theorem kept_eq (ids : List UInt16) : kept skip keep ids =
    (ids.filter fun id => !skip id && (keep id).isSome).filterMap keep := by
  induction ids with
  | nil => rfl
  | cons id ids ih =>
    cases hs : skip id with
    | true => simpa [kept, hs] using ih
    | false =>
      cases hk : keep id with
      | none => simpa [kept, hs, hk] using ih
      | some b => simpa [kept, hs, hk] using ih

theorem map_filterMap_isSome {l : List UInt16} (h : ∀ id ∈ l, (keep id).isSome = true) :
    l.map keep = (l.filterMap keep).map some := by
  induction l with
  | nil => rfl
  | cons id l ih =>
    obtain ⟨hid, hl⟩ := List.forall_mem_cons.1 h
    obtain ⟨b, hb⟩ := Option.isSome_iff_exists.1 hid
    simp [hb, ih hl]

/-- Whole exactly when nothing is named. -/
theorem complete_iff (ids : List UInt16) :
    Complete skip keep ids (kept skip keep ids) ↔ others skip keep ids = [] := by
  unfold Complete
  induction ids with
  | nil => simp [kept, others]
  | cons id ids ih =>
    cases hs : skip id with
    | true => simpa [kept, others, hs] using ih
    | false =>
      cases hk : keep id with
      | none =>
        simp only [kept, others, hs, hk, List.filterMap_cons, List.filter_cons, Bool.not_false,
          Bool.true_and, if_true, List.map_cons, Option.isNone_none, reduceCtorEq, iff_false]
        intro h
        have hmem : (none : Option β) ∈ (kept skip keep ids).map some := by
          rw [show (kept skip keep ids).map some = _ from h.symm]
          exact List.mem_cons_self
        simp at hmem
      | some b => simpa [kept, others, hs, hk] using ih

theorem accounted (what : String) (ids : List UInt16) {limitations : List Str}
    (h : ∀ t ∈ unknown what (others skip keep ids), t ∈ limitations) :
    Accounted skip keep what ids (kept skip keep ids) limitations := by
  refine ⟨⟨ids.filter fun id => !skip id && (keep id).isSome, List.filter_sublist, fun id hid => ?_,
    ?_⟩, fun id hid hs => ?_, fun hnil => ?_⟩
  · simpa using (Bool.and_eq_true_iff.1 (List.mem_filter.1 hid).2).1
  · rw [kept_eq]
    exact map_filterMap_isSome fun id hid =>
      (Bool.and_eq_true_iff.1 (List.mem_filter.1 hid).2).2
  · cases hk : keep id with
    | some b => exact .inl ⟨b, List.mem_filterMap.2 ⟨id, hid, by simp [hs, hk]⟩, rfl⟩
    | none =>
      refine .inr (h _ (List.mem_map.2 ⟨id, List.mem_filter.2 ⟨hid, ?_⟩, rfl⟩))
      simp [hs, hk]
  · subst hnil
    have hnone : unknown what (others skip keep ids) = [] :=
      List.eq_nil_iff_forall_not_mem.2 fun t ht => List.not_mem_nil (h t ht)
    exact (complete_iff ids).2 (List.map_eq_nil_iff.1 hnone)

theorem others_nil_iff (ids : List UInt16) :
    others skip keep ids = [] ↔ ∀ id ∈ ids, skip id = true ∨ (keep id).isSome = true := by
  unfold others
  rw [List.filter_eq_nil_iff]
  refine forall₂_congr fun id _ => ?_
  cases skip id with
  | true => simp
  | false =>
    cases keep id with
    | none => simp
    | some b => simp

end

/-- Everything the client offers is known. -/
structure Known (B : Backend) (patched : Bool) (hello : TlsHello) : Prop where
  ciphers : ∀ id ∈ hello.ciphers, cipherSkip id = true ∨ (B.cipherName id).isSome = true
  groups : ∀ id ∈ hello.groups, grease id = true ∨ (group patched id).isSome = true
  signatures : ∀ id ∈ hello.signatureAlgorithms, grease id = true ∨ id ∈ SIGNATURES patched
  certificates : patched = true →
    ∀ id ∈ hello.signatureAlgorithmsCert, grease id = true ∨ id ∈ SIGNATURES patched
  scsv : patched = true ∨ 0xff ∉ hello.ciphers
  compression : ∀ id ∈ hello.certCompression, (compressor id).isSome = true
  extensions : ∀ id ∈ hello.extensions, grease id = true ∨ id ∈ KNOWN patched
  pointFormats : patched = true → ∀ format ∈ hello.pointFormats, format ≤ 2
  alps : 17513 ∉ hello.extensions ∧ 17613 ∉ hello.extensions
  resumption : 41 ∉ hello.extensions ∧ 42 ∉ hello.extensions

theorem listed_isSome (table : List UInt16) (id : UInt16) :
    (listed table id).isSome = true ↔ id ∈ table := by
  unfold listed
  by_cases h : id ∈ table
  · simp [h]
  · simp [h]

variable (B patched) in
theorem mirrorLimitations_nil_iff (hello : TlsHello) :
    mirrorLimitations B patched hello = [] ↔ Known B patched hello := by
  have hif : ∀ (c : Bool) (t : Str), (if c = true then [t] else []) = [] ↔ c = false := by
    intro c t
    cases c <;> simp
  have hformats : (if patched = true then bridgeLimitations hello else []) = [] ↔
      (patched = true → ∀ format ∈ hello.pointFormats, format ≤ 2) := by
    cases patched with
    | true => simp [bridgeLimitations, List.filter_eq_nil_iff]
    | false => simp
  have hcert : (∀ id ∈ certOffers patched hello, grease id = true ∨ id ∈ SIGNATURES patched) ↔
      (patched = true →
        ∀ id ∈ hello.signatureAlgorithmsCert, grease id = true ∨ id ∈ SIGNATURES patched) := by
    cases patched with
    | true => simp [certOffers]
    | false => simp [certOffers]
  unfold mirrorLimitations builderLimitations unknown
  rw [List.append_eq_nil_iff, List.append_eq_nil_iff, List.append_eq_nil_iff, hformats]
  simp only [List.append_eq_nil_iff, List.map_eq_nil_iff, others_nil_iff, listed_isSome, hif, hcert]
  constructor
  · rintro ⟨⟨⟨⟨⟨⟨⟨⟨⟨h1, h2⟩, h3⟩, h4⟩, h5⟩, h6⟩, h7⟩, h8⟩, h9⟩, h10⟩
    refine ⟨h1, h2, h3, h4, ?_, fun id hid => by simpa using h6 id hid, h7, h8, ?_, ?_⟩
    · cases patched with
      | true => exact .inl rfl
      | false => exact .inr (by simpa using h5)
    · simpa using h9
    · simpa using h10
  · intro h
    refine ⟨⟨⟨⟨⟨⟨⟨⟨⟨h.ciphers, h.groups⟩, h.signatures⟩, h.certificates⟩, ?_⟩,
      fun id hid => .inr (h.compression id hid)⟩, h.extensions⟩, h.pointFormats⟩, ?_⟩, ?_⟩
    · rcases h.scsv with hp | hs
      · simp [hp]
      · simp [hs]
    · simpa using h.alps
    · simpa using h.resumption

theorem share_group (id : UInt16) : (share id).isSome = (group false id).isSome := by
  unfold share group
  generalize id.toNat = n
  split
  case h_9 =>
    split
    all_goals first | rfl | contradiction
  all_goals rfl

theorem group_not_grease (patched : Bool) (id : UInt16) (h : (group patched id).isSome = true) :
    grease id = false := by
  have htable : ∀ n ∈ [10, 23, 24, 25, 29, 30, 4588, 4587, 4589, 25497, 256, 257, 258, 259, 260],
      grease (UInt16.ofNat n) = false := by
    decide
  have hid : UInt16.ofNat id.toNat = id := UInt16.ofNat_toNat
  unfold group at h
  generalize id.toNat = n at h hid
  rw [← hid]
  split at h
  case h_16 => cases h
  all_goals exact htable _ (by decide)

theorem filter_group (patched : Bool) (hello : TlsHello) (h : Known B patched hello)
    (hg : ∀ id ∈ hello.keyShareGroups, id ∈ hello.groups) :
    (hello.keyShareGroups.filter fun id => (group patched id).isSome) =
      hello.keyShareGroups.filter fun id => !grease id := by
  refine List.filter_congr fun id hid => ?_
  rcases h.groups id (hg id hid) with hs | hs
  · rw [hs]
    cases hk : (group patched id).isSome with
    | false => rfl
    | true => exact absurd (group_not_grease patched id hk) (by simp [hs])
  · rw [hs, group_not_grease patched id hs]
    rfl

section
variable (hello : TlsHello) (host : Str) (ca : Option Str)

theorem mem_strictCipherList (s : Str) :
    .setStrictCipherList s ∈ mirrorCalls D B patched hello host ca ↔
      s = joined (cipherNames B hello) := by
  simp [mirrorCalls, builderCalls, bridgeCalls, shareCalls]

theorem mem_curvesList (s : Str) : .setCurvesList s ∈ mirrorCalls D B patched hello host ca ↔
    groupNames patched hello ≠ [] ∧ s = joined (groupNames patched hello) := by
  simp [mirrorCalls, builderCalls, bridgeCalls, shareCalls]

theorem mem_verifyAlgorithmPrefs (l : List UInt16) :
    .setVerifyAlgorithmPrefs l ∈ mirrorCalls D B patched hello host ca ↔
      signatures patched hello.signatureAlgorithms ≠ [] ∧
        l = signatures patched hello.signatureAlgorithms := by
  simp [mirrorCalls, builderCalls, bridgeCalls, shareCalls]

theorem mem_certVerifyAlgorithmPrefs (l : List UInt16) :
    .setBridgeCertVerifyAlgorithmPrefs l ∈ mirrorCalls D B patched hello host ca ↔
      patched = true ∧ signatures patched (certOffers patched hello) ≠ [] ∧
        l = signatures patched (certOffers patched hello) := by
  simp [mirrorCalls, builderCalls, bridgeCalls, shareCalls]

/-- The algorithms are added in the client's order, each as often as it is offered. -/
theorem mirrorCalls_compressions :
    (mirrorCalls D B patched hello host ca).filterMap Call.compression =
      hello.certCompression.filterMap compressor := by
  simp [mirrorCalls, builderCalls, bridgeCalls, shareCalls, Call.compression, List.filterMap_cons,
    apply_ite (List.filterMap Call.compression), List.filterMap_map, Function.comp_def]

theorem mem_bridgeProfile (l : List UInt16) (padding : Bool) :
    .setBridgeProfile l padding ∈ mirrorCalls D B patched hello host ca ↔
      patched = true ∧ l = profile B hello ∧ padding = hello.extensions.contains 21 := by
  simp [mirrorCalls, builderCalls, bridgeCalls, shareCalls]

theorem mem_set1ClientKeyShares (l : List UInt16) :
    .set1ClientKeyShares l ∈ mirrorCalls D B patched hello host ca ↔ patched = true ∧
      (hello.keyShareGroups.filter fun id => (group patched id).isSome) ≠ [] ∧
      l = hello.keyShareGroups.filter fun id => (group patched id).isSome := by
  have hmem : ∀ ids : List UInt16,
      (Call.set1ClientKeyShares l ∈ if !ids.isEmpty then [Call.set1ClientKeyShares ids] else []) ↔
        ids ≠ [] ∧ l = ids := fun ids => by simp
  simp only [mirrorCalls, builderCalls, bridgeCalls, shareCalls, List.mem_append,
    List.mem_ite_nil_right, hmem]
  simp

theorem mem_clientKeyShares (l : List KeyShare) :
    .setClientKeyShares l ∈ mirrorCalls D B patched hello host ca ↔ patched = false ∧
      hello.keyShareGroups.filterMap share ≠ [] ∧ l = hello.keyShareGroups.filterMap share := by
  have hmem : ∀ shares : List KeyShare,
      (Call.setClientKeyShares l ∈ if !shares.isEmpty then [Call.setClientKeyShares shares] else [])
        ↔ shares ≠ [] ∧ l = shares := fun shares => by simp
  simp only [mirrorCalls, builderCalls, bridgeCalls, shareCalls, List.mem_append,
    List.mem_ite_nil_right, hmem]
  simp

theorem profile_whole (h : Known B patched hello) : profile B hello = hello.ciphers := by
  refine List.filter_eq_self.2 fun id hid => ?_
  rcases h.ciphers id hid with hs | hs
  · rw [show (grease id || id == 0xff) = true from hs]
    rfl
  · rw [hs, Bool.or_true]

theorem shares_whole (h : Known B false hello)
    (hg : ∀ id ∈ hello.keyShareGroups, id ∈ hello.groups) :
    Complete grease share hello.keyShareGroups (hello.keyShareGroups.filterMap share) := by
  have hkept : hello.keyShareGroups.filterMap share = kept grease share hello.keyShareGroups := by
    refine List.filterMap_congr fun id _ => ?_
    by_cases hs : grease id = true
    · rw [if_pos hs]
      cases hk : share id with
      | none => rfl
      | some k =>
        have := group_not_grease false id (by rw [← share_group, hk]; rfl)
        simp [hs] at this
    · rw [if_neg hs]
  rw [hkept, complete_iff, others_nil_iff]
  intro id hid
  rw [share_group]
  exact h.groups id (hg id hid)

end

end

/-- A library that has one suite and obeys. -/
def sampleBackend : Backend where
  cipherName id := if id = 0x1301 then some "TLS_AES_128_GCM_SHA256".toList else none
  answer _ _ := none
  char2 := true
  x448 := true
  ed448 := true

/-- A hello with GREASE, `TLS_FALLBACK_SCSV` and a group that is not known. -/
def sampleOffer : TlsHello where
  legacyVersion := 0x0303
  ciphers := [0x0a0a, 0x1301, 0x5600]
  extensions := [43, 10, 13, 51]
  compression := [0]
  groups := [0x0a0a, 29, 41]
  signatureAlgorithms := [0x0403]
  supportedVersions := [0x0304]
  keyShareGroups := [0x0a0a, 29]
  certCompression := [2, 1]

section
variable {D : DigestCrates}

theorem addAll_untouched (es : List (UInt16 × Bytes)) {seen seen' : List UInt16}
    {h h' : TlsHello} (hrun : es.foldlM (fun state e => extension D state e.1 e.2) (seen, h) =
      .ok (seen', h')) : ∀ id ∉ es.map Prod.fst, slot h' id = slot h id := by
  induction es generalizing seen h with
  | nil =>
    cases hrun
    exact fun id _ => rfl
  | cons e es ih =>
    intro id hid
    rw [List.map_cons, List.mem_cons, not_or] at hid
    rw [List.foldlM_cons] at hrun
    obtain ⟨⟨seen1, h1⟩, hstep, hrest⟩ := (Res.bind_ok_iff _ _ _).1 hrun
    exact (ih hrest id hid.2).trans ((extension_frame hstep).2 id hid.1)

/-- The protocols of a hello that has the extension. -/
theorem alpn_of_extension {l : Layout} {hello : TlsHello} {seen : List UInt16}
    (hadd : addAll D l.start l.extensions = .ok (seen, hello)) {raw : Bytes}
    (hmem : (16, raw) ∈ l.extensions) :
    ∃ ps : List Bytes, hello.alpn = ps.map D.hexEncode ∧ (∀ p ∈ ps, p.length < 256) ∧
      raw = vec16 (ps.flatMap vec8) := by
  have hg : grease 16 = false := by decide
  have hfresh : ∀ id ∉ ([] : List UInt16), slot l.start id = slot blank id := fun id _ => rfl
  obtain ⟨k, k', hk, hput, hslot⟩ := addAll_slot _ hfresh hadd (16, raw) hmem hg
  have hk0 : k.alpn = [] := Slot.names.inj hk
  have hslot' : hello.alpn = k'.alpn := Slot.names.inj hslot
  have hadded : Added D k raw 16 k' := hput
  generalize hid : (16 : UInt16) = id at hadded
  cases hadded with
  | alpn ns hns =>
    rw [hk0] at hns
    obtain ⟨ps, hshort, -, hraw, -, hps⟩ := (protocols_ok_iff D _ _ _).1 hns
    exact ⟨ps, hslot'.trans hps, hshort, hraw⟩
  | exempt _ hread =>
    subst hid
    exact absurd (show (16 : UInt16) ∈ read by decide) hread
  | other _ hread =>
    subst hid
    exact absurd (show (16 : UInt16) ∈ read by decide) hread
  | _ => exact absurd hid (by decide)

/-- The protocols that a hello offers, and the octets they came in. -/
theorem alpn_of_wire {b : Bytes} {hello : TlsHello} {l : Layout} (hb : parseHello D b = .ok hello)
    (hl : IsHello b l) : ∃ ps : List Bytes, hello.alpn = ps.map D.hexEncode ∧
      (∀ p ∈ ps, p.length < 256) ∧
      (∀ raw, (16, raw) ∈ l.extensions → raw = vec16 (ps.flatMap vec8)) ∧
      (16 ∉ l.extensions.map Prod.fst → ps = []) := by
  obtain ⟨l0, hl0, -, seen, hadd⟩ := (parseHello_ok_iff D b hello).1 hb
  obtain rfl := hl.unique hl0
  by_cases h16 : (16 : UInt16) ∈ l.extensions.map Prod.fst
  · obtain ⟨⟨id, raw⟩, hmem, hid⟩ := List.mem_map.1 h16
    obtain rfl : id = 16 := hid
    obtain ⟨ps, hps, hshort, -⟩ := alpn_of_extension hadd hmem
    refine ⟨ps, hps, hshort, fun raw' hmem' => ?_, fun h0 => absurd h16 h0⟩
    obtain ⟨ps', hps', -, hraw'⟩ := alpn_of_extension hadd hmem'
    rwa [D.hexEncode_inj.list_map (hps.symm.trans hps')]
  · have hslot := addAll_untouched _ hadd 16 h16
    refine ⟨[], Slot.names.inj hslot, fun p hp => absurd hp List.not_mem_nil, fun raw hmem => ?_,
      fun _ => rfl⟩
    exact absurd (List.mem_map.2 ⟨_, hmem, rfl⟩) h16

end

section
variable {D : HexCrate} {B : Backend} {patched : Bool}

theorem mem_alpnProtos (hello : TlsHello) (host : Str) (ca : Option Str) (w : Bytes) :
    .setAlpnProtos w ∈ mirrorCalls D B patched hello host ca ↔
      wire D hello.alpn ≠ [] ∧ w = wire D hello.alpn := by
  simp [mirrorCalls, builderCalls, bridgeCalls, shareCalls]

theorem wire_encoded (ps : List Bytes) : wire D (ps.map D.hexEncode) = ps.flatMap vec8 := by
  unfold wire
  rw [List.flatMap_map]
  refine List.flatMap_congr fun p _ => ?_
  rw [D.decode_encode]
  rfl

theorem spoken_encoded (p : Bytes) : Spoken D (D.hexEncode p) ↔ p = h2 ∨ p = http11 := by
  unfold Spoken
  rw [D.decode_encode, Option.some_inj, Option.some_inj]

theorem spoken_all {hello : TlsHello} {ps : List Bytes} (hps : hello.alpn = ps.map D.hexEncode) :
    (∀ p ∈ hello.alpn, Spoken D p) ↔ ∀ p ∈ ps, p = h2 ∨ p = http11 := by
  rw [hps, List.forall_mem_map]
  exact forall₂_congr fun p _ => spoken_encoded p

/-- What the backend is told of the protocols. -/
theorem told_protocols {hello : TlsHello} {ps : List Bytes}
    (hps : hello.alpn = ps.map D.hexEncode) {host : Str} {ca : Option Str} {calls : List Call}
    {limitations : List Str} (h : mirror D B patched hello host ca = .ok (calls, limitations)) :
    (∀ p ∈ ps, p = h2 ∨ p = http11) ∧
      ∀ w, .setAlpnProtos w ∈ calls ↔ ps ≠ [] ∧ w = ps.flatMap vec8 := by
  obtain ⟨⟨-, -, hall⟩, heq⟩ := (mirror_ok_iff _ _ _ hello host ca).1 _ h
  obtain ⟨rfl, -⟩ := Prod.mk.inj heq
  refine ⟨(spoken_all hps).1 hall, fun w => ?_⟩
  rw [mem_alpnProtos, hps, wire_encoded]
  refine and_congr_left fun _ => not_congr ?_
  cases ps with
  | nil => simp
  | cons p ps => simp [vec8]

end

/-- **The client's protocols.**  The backend is given the very octets of the client's list, if
there is one, and nothing but `h2` and `http/1.1` gets there: a hello off the wire is mirrored
exactly if it has a known cipher and offers no other protocol. -/
theorem mirror_protocols (D : HexCrate) (B : Backend) (patched : Bool) {b : Bytes}
    {hello : TlsHello} {l : Layout} (hb : parseHello D.toDigestCrates b = .ok hello)
    (hl : IsHello b l) (host : Str) (ca : Option Str) : ∃ ps : List Bytes,
      (∀ p ∈ ps, p.length < 256) ∧
      (∀ raw, (16, raw) ∈ l.extensions → raw = vec16 (ps.flatMap vec8)) ∧
      (16 ∉ l.extensions.map Prod.fst → ps = []) ∧
      (∀ calls limitations, mirror D B patched hello host ca = .ok (calls, limitations) →
        (∀ p ∈ ps, p = h2 ∨ p = http11) ∧
        ∀ w, .setAlpnProtos w ∈ calls ↔ ps ≠ [] ∧ w = ps.flatMap vec8) ∧
      (B.Willing → (patched = true → B.char2 = true ∧ B.x448 = true ∧ B.ed448 = true) →
        ((∃ r, mirror D B patched hello host ca = .ok r) ↔
          (∃ id ∈ hello.ciphers, cipherSkip id = false ∧ (B.cipherName id).isSome = true) ∧
            ∀ p ∈ ps, p = h2 ∨ p = http11)) ∧
      mirror D B patched hello host ca ≠ .error .panic := by
  obtain ⟨ps, hps, hshort, hraw, hnone⟩ := alpn_of_wire hb hl
  obtain ⟨honly, hends, hcalm⟩ := mirror_ok_iff D B patched hello host ca
  have hspoken := spoken_all hps
  have hnames : (!(cipherNames B hello).isEmpty) = true ↔
      ∃ id ∈ hello.ciphers, cipherSkip id = false ∧ (B.cipherName id).isSome = true := by
    rw [Bool.not_eq_true', List.isEmpty_eq_false_iff_exists_mem]
    unfold cipherNames kept
    simp only [List.mem_filterMap, Option.isSome_iff_exists]
    constructor
    · rintro ⟨name, id, hid, hk⟩
      cases hs : cipherSkip id with
      | true => simp [hs] at hk
      | false => exact ⟨id, hid, hs, name, by simpa [hs] using hk⟩
    · rintro ⟨id, hid, hs, name, hk⟩
      exact ⟨name, id, hid, by simpa [hs] using hk⟩
  refine ⟨ps, hshort, hraw, hnone, fun calls limitations h => told_protocols hps h, fun hw hreg => ?_,
    hcalm⟩
  constructor
  · rintro ⟨r, hr⟩
    obtain ⟨⟨-, hne, hall⟩, -⟩ := honly r hr
    exact ⟨hnames.1 hne, hspoken.1 hall⟩
  · rintro ⟨hne, hall⟩
    exact hends hw ⟨hreg, hnames.2 hne, hspoken.2 hall⟩

/-- A hello that offers `h2`. -/
def h2Hello : Layout where
  version := 0x0303
  random := List.replicate 32 0
  session := []
  ciphers := [0x1301]
  compression := [0]
  block := some [(16, [0, 3, 2, 0x68, 0x32])]

theorem mirror_protocols_sample : ∃ ps : List Bytes, ps.flatMap vec8 = [2, 0x68, 0x32] ∧
    ∀ p ∈ ps, p = h2 ∨ p = http11 := by
  have hello : IsHello h2Hello.octets h2Hello := by
    refine ⟨rfl, rfl, by decide, by decide, by decide, ?_, by decide⟩
    simp [h2Hello, Layout.extensions, Fits16]
  have h : parseHello sampleHex.toDigestCrates h2Hello.octets = .ok
      { legacyVersion := 0x0303, ciphers := [0x1301], compression := [0],
        extensions := [16], alpn := ["6832".toList] } := by
    decide +kernel
  obtain ⟨ps, -, hraw, -, -, hiff, -⟩ :=
    mirror_protocols sampleHex sampleBackend true h hello "a.example".toList none
  have hps : vec16 [2, 0x68, 0x32] = vec16 (ps.flatMap vec8) :=
    hraw [0, 3, 2, 0x68, 0x32] (by decide)
  have hends := (mirror_ok_iff sampleHex sampleBackend true
    { legacyVersion := 0x0303, ciphers := [0x1301], compression := [0], extensions := [16],
      alpn := ["6832".toList] } "a.example".toList none).2.1 (fun _ _ => rfl)
    ⟨fun _ => ⟨rfl, rfl, rfl⟩, by decide, fun p hp => ?_⟩
  · exact ⟨ps, (List.append_inj_right hps rfl).symm,
      ((hiff (fun _ _ => rfl) fun _ => ⟨rfl, rfl, rfl⟩).1 hends).2⟩
  · obtain rfl := List.mem_singleton.1 hp
    exact .inl (by decide +kernel)

end Tls
