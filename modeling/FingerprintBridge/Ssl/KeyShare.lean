import FingerprintBridge.Lib.KeyExchange
import FingerprintBridge.Lib.Octets
import Mathlib.Data.Nat.Size

/-!
# `scripts/patches/bridge-ffdhe.patch`, `bridge-hybrid-groups.patch`: key shares

The groups that are added to `ssl_key_share.cc`: Diffie-Hellman in the five fields of
RFC 7919, and the NIST curves beside ML-KEM.  A failed call carries the alert that
`out_alert` is left with.  What the library computes is a parameter (`LibCrypto`, `MLKEM`).
-/

namespace Ssl

open KeyExchange

/-! ## The code -/

def SSL_AD_INTERNAL_ERROR : String := "internal_error"

def SSL_AD_ILLEGAL_PARAMETER : String := "illegal_parameter"

/-- A row of 64 hexadecimal digits after another. -/
def rows (l : List Nat) : Nat := l.foldl (fun p row => p * 2 ^ 256 + row) 0

def kFFDHE2048Prime : Nat := rows [
  0xFFFFFFFFFFFFFFFFADF85458A2BB4A9AAFDC5620273D3CF1D8B9C583CE2D3695,
  0xA9E13641146433FBCC939DCE249B3EF97D2FE363630C75D8F681B202AEC4617A,
  0xD3DF1ED5D5FD65612433F51F5F066ED0856365553DED1AF3B557135E7F57C935,
  0x984F0C70E0E68B77E2A689DAF3EFE8721DF158A136ADE73530ACCA4F483A797A,
  0xBC0AB182B324FB61D108A94BB2C8E3FBB96ADAB760D7F4681D4F42A3DE394DF4,
  0xAE56EDE76372BB190B07A7C8EE0A6D709E02FCE1CDF7E2ECC03404CD28342F61,
  0x9172FE9CE98583FF8E4F1232EEF28183C3FE3B1B4C6FAD733BB5FCBC2EC22005,
  0xC58EF1837D1683B2C6F34A26C1B2EFFA886B423861285C97FFFFFFFFFFFFFFFF]

def kFFDHE3072Prime : Nat := rows [
  0xFFFFFFFFFFFFFFFFADF85458A2BB4A9AAFDC5620273D3CF1D8B9C583CE2D3695,
  0xA9E13641146433FBCC939DCE249B3EF97D2FE363630C75D8F681B202AEC4617A,
  0xD3DF1ED5D5FD65612433F51F5F066ED0856365553DED1AF3B557135E7F57C935,
  0x984F0C70E0E68B77E2A689DAF3EFE8721DF158A136ADE73530ACCA4F483A797A,
  0xBC0AB182B324FB61D108A94BB2C8E3FBB96ADAB760D7F4681D4F42A3DE394DF4,
  0xAE56EDE76372BB190B07A7C8EE0A6D709E02FCE1CDF7E2ECC03404CD28342F61,
  0x9172FE9CE98583FF8E4F1232EEF28183C3FE3B1B4C6FAD733BB5FCBC2EC22005,
  0xC58EF1837D1683B2C6F34A26C1B2EFFA886B4238611FCFDCDE355B3B6519035B,
  0xBC34F4DEF99C023861B46FC9D6E6C9077AD91D2691F7F7EE598CB0FAC186D91C,
  0xAEFE130985139270B4130C93BC437944F4FD4452E2D74DD364F2E21E71F54BFF,
  0x5CAE82AB9C9DF69EE86D2BC522363A0DABC521979B0DEADA1DBF9A42D5C4484E,
  0x0ABCD06BFA53DDEF3C1B20EE3FD59D7C25E41D2B66C62E37FFFFFFFFFFFFFFFF]

def kFFDHE4096Prime : Nat := rows [
  0xFFFFFFFFFFFFFFFFADF85458A2BB4A9AAFDC5620273D3CF1D8B9C583CE2D3695,
  0xA9E13641146433FBCC939DCE249B3EF97D2FE363630C75D8F681B202AEC4617A,
  0xD3DF1ED5D5FD65612433F51F5F066ED0856365553DED1AF3B557135E7F57C935,
  0x984F0C70E0E68B77E2A689DAF3EFE8721DF158A136ADE73530ACCA4F483A797A,
  0xBC0AB182B324FB61D108A94BB2C8E3FBB96ADAB760D7F4681D4F42A3DE394DF4,
  0xAE56EDE76372BB190B07A7C8EE0A6D709E02FCE1CDF7E2ECC03404CD28342F61,
  0x9172FE9CE98583FF8E4F1232EEF28183C3FE3B1B4C6FAD733BB5FCBC2EC22005,
  0xC58EF1837D1683B2C6F34A26C1B2EFFA886B4238611FCFDCDE355B3B6519035B,
  0xBC34F4DEF99C023861B46FC9D6E6C9077AD91D2691F7F7EE598CB0FAC186D91C,
  0xAEFE130985139270B4130C93BC437944F4FD4452E2D74DD364F2E21E71F54BFF,
  0x5CAE82AB9C9DF69EE86D2BC522363A0DABC521979B0DEADA1DBF9A42D5C4484E,
  0x0ABCD06BFA53DDEF3C1B20EE3FD59D7C25E41D2B669E1EF16E6F52C3164DF4FB,
  0x7930E9E4E58857B6AC7D5F42D69F6D187763CF1D5503400487F55BA57E31CC7A,
  0x7135C886EFB4318AED6A1E012D9E6832A907600A918130C46DC778F971AD0038,
  0x092999A333CB8B7A1A1DB93D7140003C2A4ECEA9F98D0ACC0A8291CDCEC97DCF,
  0x8EC9B55A7F88A46B4DB5A851F44182E1C68A007E5E655F6AFFFFFFFFFFFFFFFF]

def kFFDHE6144Prime : Nat := rows [
  0xFFFFFFFFFFFFFFFFADF85458A2BB4A9AAFDC5620273D3CF1D8B9C583CE2D3695,
  0xA9E13641146433FBCC939DCE249B3EF97D2FE363630C75D8F681B202AEC4617A,
  0xD3DF1ED5D5FD65612433F51F5F066ED0856365553DED1AF3B557135E7F57C935,
  0x984F0C70E0E68B77E2A689DAF3EFE8721DF158A136ADE73530ACCA4F483A797A,
  0xBC0AB182B324FB61D108A94BB2C8E3FBB96ADAB760D7F4681D4F42A3DE394DF4,
  0xAE56EDE76372BB190B07A7C8EE0A6D709E02FCE1CDF7E2ECC03404CD28342F61,
  0x9172FE9CE98583FF8E4F1232EEF28183C3FE3B1B4C6FAD733BB5FCBC2EC22005,
  0xC58EF1837D1683B2C6F34A26C1B2EFFA886B4238611FCFDCDE355B3B6519035B,
  0xBC34F4DEF99C023861B46FC9D6E6C9077AD91D2691F7F7EE598CB0FAC186D91C,
  0xAEFE130985139270B4130C93BC437944F4FD4452E2D74DD364F2E21E71F54BFF,
  0x5CAE82AB9C9DF69EE86D2BC522363A0DABC521979B0DEADA1DBF9A42D5C4484E,
  0x0ABCD06BFA53DDEF3C1B20EE3FD59D7C25E41D2B669E1EF16E6F52C3164DF4FB,
  0x7930E9E4E58857B6AC7D5F42D69F6D187763CF1D5503400487F55BA57E31CC7A,
  0x7135C886EFB4318AED6A1E012D9E6832A907600A918130C46DC778F971AD0038,
  0x092999A333CB8B7A1A1DB93D7140003C2A4ECEA9F98D0ACC0A8291CDCEC97DCF,
  0x8EC9B55A7F88A46B4DB5A851F44182E1C68A007E5E0DD9020BFD64B645036C7A,
  0x4E677D2C38532A3A23BA4442CAF53EA63BB454329B7624C8917BDD64B1C0FD4C,
  0xB38E8C334C701C3ACDAD0657FCCFEC719B1F5C3E4E46041F388147FB4CFDB477,
  0xA52471F7A9A96910B855322EDB6340D8A00EF092350511E30ABEC1FFF9E3A26E,
  0x7FB29F8C183023C3587E38DA0077D9B4763E4E4B94B2BBC194C6651E77CAF992,
  0xEEAAC0232A281BF6B3A739C1226116820AE8DB5847A67CBEF9C9091B462D538C,
  0xD72B03746AE77F5E62292C311562A846505DC82DB854338AE49F5235C95B9117,
  0x8CCF2DD5CACEF403EC9D1810C6272B045B3B71F9DC6B80D63FDD4A8E9ADB1E69,
  0x62A69526D43161C1A41D570D7938DAD4A40E329CD0E40E65FFFFFFFFFFFFFFFF]

def kFFDHE8192Prime : Nat := rows [
  0xFFFFFFFFFFFFFFFFADF85458A2BB4A9AAFDC5620273D3CF1D8B9C583CE2D3695,
  0xA9E13641146433FBCC939DCE249B3EF97D2FE363630C75D8F681B202AEC4617A,
  0xD3DF1ED5D5FD65612433F51F5F066ED0856365553DED1AF3B557135E7F57C935,
  0x984F0C70E0E68B77E2A689DAF3EFE8721DF158A136ADE73530ACCA4F483A797A,
  0xBC0AB182B324FB61D108A94BB2C8E3FBB96ADAB760D7F4681D4F42A3DE394DF4,
  0xAE56EDE76372BB190B07A7C8EE0A6D709E02FCE1CDF7E2ECC03404CD28342F61,
  0x9172FE9CE98583FF8E4F1232EEF28183C3FE3B1B4C6FAD733BB5FCBC2EC22005,
  0xC58EF1837D1683B2C6F34A26C1B2EFFA886B4238611FCFDCDE355B3B6519035B,
  0xBC34F4DEF99C023861B46FC9D6E6C9077AD91D2691F7F7EE598CB0FAC186D91C,
  0xAEFE130985139270B4130C93BC437944F4FD4452E2D74DD364F2E21E71F54BFF,
  0x5CAE82AB9C9DF69EE86D2BC522363A0DABC521979B0DEADA1DBF9A42D5C4484E,
  0x0ABCD06BFA53DDEF3C1B20EE3FD59D7C25E41D2B669E1EF16E6F52C3164DF4FB,
  0x7930E9E4E58857B6AC7D5F42D69F6D187763CF1D5503400487F55BA57E31CC7A,
  0x7135C886EFB4318AED6A1E012D9E6832A907600A918130C46DC778F971AD0038,
  0x092999A333CB8B7A1A1DB93D7140003C2A4ECEA9F98D0ACC0A8291CDCEC97DCF,
  0x8EC9B55A7F88A46B4DB5A851F44182E1C68A007E5E0DD9020BFD64B645036C7A,
  0x4E677D2C38532A3A23BA4442CAF53EA63BB454329B7624C8917BDD64B1C0FD4C,
  0xB38E8C334C701C3ACDAD0657FCCFEC719B1F5C3E4E46041F388147FB4CFDB477,
  0xA52471F7A9A96910B855322EDB6340D8A00EF092350511E30ABEC1FFF9E3A26E,
  0x7FB29F8C183023C3587E38DA0077D9B4763E4E4B94B2BBC194C6651E77CAF992,
  0xEEAAC0232A281BF6B3A739C1226116820AE8DB5847A67CBEF9C9091B462D538C,
  0xD72B03746AE77F5E62292C311562A846505DC82DB854338AE49F5235C95B9117,
  0x8CCF2DD5CACEF403EC9D1810C6272B045B3B71F9DC6B80D63FDD4A8E9ADB1E69,
  0x62A69526D43161C1A41D570D7938DAD4A40E329CCFF46AAA36AD004CF600C838,
  0x1E425A31D951AE64FDB23FCEC9509D43687FEB69EDD1CC5E0B8CC3BDF64B10EF,
  0x86B63142A3AB8829555B2F747C932665CB2C0F1CC01BD70229388839D2AF05E4,
  0x54504AC78B7582822846C0BA35C35F5C59160CC046FD8251541FC68C9C86B022,
  0xBB7099876A460E7451A8A93109703FEE1C217E6C3826E52C51AA691E0E423CFC,
  0x99E9E31650C1217B624816CDAD9A95F9D5B8019488D9C0A0A1FE3075A577E231,
  0x83F81D4A3F2FA4571EFC8CE0BA8A4FE8B6855DFE72B0A66EDED2FBABFBE58A30,
  0xFAFABE1C5D71A87E2F741EF8C1FE86FEA6BBFDE530677F0D97D11D49F7A8443D,
  0x0822E506A9F4614E011E2A94838FF88CD68C8BB7C5C6424CFFFFFFFFFFFFFFFF]

/-- `DH`, with the private and the public key once they are made. -/
structure DH where
  p : Nat
  g : Nat
  key : Option (Nat × Nat) := none
deriving DecidableEq, Repr

def FFDHEParameters (groupId : UInt16) : Option DH :=
  match groupId with
  | 256 => some { p := kFFDHE2048Prime, g := 2 }
  | 257 => some { p := kFFDHE3072Prime, g := 2 }
  | 258 => some { p := kFFDHE4096Prime, g := 2 }
  | 259 => some { p := kFFDHE6144Prime, g := 2 }
  | 260 => some { p := kFFDHE8192Prime, g := 2 }
  | _ => none

/-- What is used of BoringSSL's `DH_*` and `BN_*`; `none` is a call that fails. -/
structure LibCrypto (ρ : Type) where
  /-- `DH_size` -/
  size : DH → Nat
  /-- `DH_generate_key`: the private and the public key -/
  generateKey : ρ → DH → Option (Nat × Nat)
  /-- `DH_check_pub_key`: the flags -/
  checkPubKey : DH → Nat → Option Nat
  /-- `DH_compute_key_padded`: what it writes -/
  computeKeyPadded : DH → Nat → Option Bytes
  /-- `BN_bn2cbb_padded` -/
  bn2cbbPadded : Nat → Nat → Option Bytes
  /-- `BN_bin2bn` -/
  bin2bn : Bytes → Option Nat

section
variable {ρ : Type} (L : LibCrypto ρ)

namespace FFDHEKeyShare

def Generate (groupId : UInt16) (draw : ρ) : Act (Option DH) Bytes := do
  set (FFDHEParameters groupId)
  let dh ← okOr (FFDHEParameters groupId) SSL_AD_INTERNAL_ERROR
  let key ← okOr (L.generateKey draw dh) SSL_AD_INTERNAL_ERROR
  let dh := { dh with key := some key }
  set (some dh)
  okOr (L.bn2cbbPadded (L.size dh) key.2) SSL_AD_INTERNAL_ERROR

def Decap (peer : Bytes) : Act (Option DH) Bytes := do
  let dh ← okOr (← get) SSL_AD_INTERNAL_ERROR
  ensure (peer.length = L.size dh) SSL_AD_ILLEGAL_PARAMETER
  let y ← okOr (L.bin2bn peer) SSL_AD_INTERNAL_ERROR
  let flags ← okOr (L.checkPubKey dh y) SSL_AD_INTERNAL_ERROR
  ensure (flags = 0) SSL_AD_ILLEGAL_PARAMETER
  let secret ← okOr (L.computeKeyPadded dh y) SSL_AD_INTERNAL_ERROR
  ensure (secret.length = L.size dh) SSL_AD_INTERNAL_ERROR
  return secret

end FFDHEKeyShare

def FFDHEKeyShare (groupId : UInt16) : Share ρ ρ (Option DH) :=
  twoWay none (FFDHEKeyShare.Generate L groupId) (FFDHEKeyShare.Decap L)

end

/-- `MLKEM768_*` or `MLKEM1024_*`: keys are made of a seed, secrets of coins. -/
structure MLKEM (Seed Coins Private Public : Type) where
  generateKey : Seed → Bytes × Private
  parsePublicKey : Bytes → Option (Public × Bytes)
  encap : Coins → Public → Bytes × Bytes
  decap : Private → Bytes → Option Bytes

def kECBytes (kP384 : Bool) : Nat := if kP384 then 97 else 65

/-- `MLKEM1024_PUBLIC_KEY_BYTES`, `MLKEM768_PUBLIC_KEY_BYTES` -/
def kPublicKeyBytes (kP384 : Bool) : Nat := if kP384 then 1568 else 1184

/-- `MLKEM1024_CIPHERTEXT_BYTES`, `MLKEM768_CIPHERTEXT_BYTES` -/
def kCiphertextBytes (kP384 : Bool) : Nat := if kP384 then 1568 else 1088

def MLKEM_SHARED_SECRET_BYTES : Nat := 32

section
variable {ρ ρ' σ Seed Coins Private Public : Type} (kP384 : Bool) (ec : Share ρ ρ' σ)
  (kem : MLKEM Seed Coins Private Public)

namespace NistMLKEMKeyShare

/-- On `ec_`. -/
def onEC {α : Type} (x : Act σ α) : Act (σ × Option Private) α := Act.zoom Prod.fst (fun e s => (e, s.2)) x

def Generate (draw : ρ × Seed) : Act (σ × Option Private) Bytes := do
  let (publicKey, privateKey) := kem.generateKey draw.2
  modify fun s => (s.1, some privateKey)
  let out ← onEC (ec.generate draw.1)
  return out ++ publicKey

def Encap (draw : ρ' × Coins) (peerKey : Bytes) : Act (σ × Option Private) (Bytes × Bytes) := do
  ensure (peerKey.length = kECBytes kP384 + kPublicKeyBytes kP384) SSL_AD_ILLEGAL_PARAMETER
  let (pub, encoded) ← okOr (kem.parsePublicKey (peerKey.drop (kECBytes kP384)))
    SSL_AD_ILLEGAL_PARAMETER
  ensure (encoded = []) SSL_AD_ILLEGAL_PARAMETER
  let (out, ecSecret) ← onEC (ec.encap draw.1 (peerKey.take (kECBytes kP384)))
  let (ciphertext, secret) := kem.encap draw.2 pub
  return (out ++ ciphertext, ecSecret ++ secret)

def Decap (ciphertext : Bytes) : Act (σ × Option Private) Bytes := do
  ensure (ciphertext.length = kECBytes kP384 + kCiphertextBytes kP384) SSL_AD_ILLEGAL_PARAMETER
  let ecSecret ← onEC (ec.decap (ciphertext.take (kECBytes kP384)))
  let privateKey ← okOr (← get).2 SSL_AD_INTERNAL_ERROR
  let secret ← okOr (kem.decap privateKey (ciphertext.drop (kECBytes kP384))) SSL_AD_INTERNAL_ERROR
  return ecSecret ++ secret

end NistMLKEMKeyShare

def NistMLKEMKeyShare : Share (ρ × Seed) (ρ' × Coins) (σ × Option Private) where
  fresh := (ec.fresh, none)
  generate := NistMLKEMKeyShare.Generate ec kem
  encap := NistMLKEMKeyShare.Encap kP384 ec kem
  decap := NistMLKEMKeyShare.Decap kP384 ec kem

end

/-! ## Diffie-Hellman -/

/-- The octets of a number. -/
def width (p : Nat) : Nat := (p.size + 7) / 8

theorem lt_width (p : Nat) : p < 256 ^ width p := by
  have hbits : p < 2 ^ p.size := Nat.lt_size_self p
  have hle : p.size ≤ 8 * width p := by
    unfold width
    omega
  calc p < 2 ^ p.size := hbits
    _ ≤ 2 ^ (8 * width p) := Nat.pow_le_pow_right (by decide) hle
    _ = 256 ^ width p := Nat.pow_mul 2 8 (width p)

theorem beValue_padded {p : Nat} (hp : 0 < p) (y : Nat) :
    beValue (beOctets (width p) (y % p)) = y % p := by
  rw [beValue_beOctets]
  exact Nat.mod_eq_of_lt ((Nat.mod_lt _ hp).trans (lt_width p))

/-- The library in the group of `p` and `g`, which it is given without an order.  A private key lies
below that of the squares, and a public key has no flag exactly if it is proper.  Of such a key the
secret is a power, kept back unless it is proper too. -/
structure LibCrypto.Lawful {ρ : Type} (L : LibCrypto ρ) (p g : Nat) : Prop where
  size : ∀ key, L.size ⟨p, g, key⟩ = width p
  generateKey : ∀ r x y, L.generateKey r ⟨p, g, none⟩ = some (x, y) →
    0 < x ∧ x < (p - 1) / 2 ∧ y = g ^ x % p
  checkPubKey : ∀ key y, ∃ flags, L.checkPubKey ⟨p, g, key⟩ y = some flags ∧
    (flags = 0 ↔ Proper p y)
  computeKeyPadded : ∀ x x' y, Proper p y → L.computeKeyPadded ⟨p, g, some (x, x')⟩ y =
    if Proper p (y ^ x % p) then some (beOctets (width p) (y ^ x % p)) else none
  bn2cbbPadded : ∀ n, n < 256 ^ width p → L.bn2cbbPadded (width p) n = some (beOctets (width p) n)
  bin2bn : ∀ b, L.bin2bn b = some (beValue b)

/-- What is needed of the primes here. -/
theorem three_lt_p {groupId : UInt16} {dh : DH} (h : FFDHEParameters groupId = some dh) :
    3 < dh.p ∧ dh.key = none := by
  unfold FFDHEParameters at h
  split at h
  all_goals cases h
  all_goals exact ⟨by decide +kernel, rfl⟩

section
variable {ρ : Type} {L : LibCrypto ρ} {groupId : UInt16} {dh : DH}

/-- The key of a share that was made with a private key. -/
def DH.with (dh : DH) (x : Nat) : DH := { dh with key := some (x, dh.g ^ x % dh.p) }

namespace FFDHEKeyShare

theorem generate_ok_iff (hL : L.Lawful dh.p dh.g) (hdh : FFDHEParameters groupId = some dh)
    {draw : ρ} {pub : Bytes} {k k₀ : Option DH} : Generate L groupId draw k₀ = .ok pub k ↔
      ∃ x, L.generateKey draw dh = some (x, dh.g ^ x % dh.p) ∧ 0 < x ∧ x < (dh.p - 1) / 2 ∧
        pub = beOctets (width dh.p) (dh.g ^ x % dh.p) ∧ k = some (dh.with x) := by
  obtain ⟨hp, hnone⟩ := three_lt_p hdh
  obtain ⟨p, g, key⟩ := dh
  obtain rfl : key = none := hnone
  have hpad : ∀ x, L.bn2cbbPadded (L.size (DH.with ⟨p, g, none⟩ x)) (g ^ x % p) =
      some (beOctets (width p) (g ^ x % p)) := fun x => by
    have hpos : 3 < p := hp
    rw [show L.size (DH.with ⟨p, g, none⟩ x) = width p from hL.size _]
    exact hL.bn2cbbPadded _ ((Nat.mod_lt _ (by omega)).trans (lt_width p))
  constructor
  · intro h
    obtain ⟨_, k₁, -, h⟩ := (Act.bind_ok_iff _ _ _ _ _).1 h
    obtain ⟨dh', hdh', h⟩ := (Act.liftM_bind_ok_iff _ _ _ _ _).1 h
    obtain rfl := Option.some.inj (hdh.symm.trans ((Res.okOr_ok_iff _ _ _).1 hdh'))
    obtain ⟨⟨x, y⟩, hkey, h⟩ := (Act.liftM_bind_ok_iff _ _ _ _ _).1 h
    have hkey := (Res.okOr_ok_iff _ _ _).1 hkey
    obtain ⟨hx, hlt, rfl⟩ := hL.generateKey _ _ _ hkey
    obtain ⟨_, k₂, hset, h⟩ := (Act.bind_ok_iff _ _ _ _ _).1 h
    obtain ⟨hout, rfl⟩ := (Act.liftM_ok_iff _ _ _ _).1 h
    cases hset
    have hout := (Res.okOr_ok_iff _ _ _).1 hout
    exact ⟨x, hkey, hx, hlt, Option.some.inj (hout.symm.trans (hpad x)), rfl⟩
  · rintro ⟨x, hkey, -, -, rfl, rfl⟩
    refine (Act.bind_ok_iff _ _ _ _ _).2 ⟨(), _, rfl, ?_⟩
    refine (Act.liftM_bind_ok_iff _ _ _ _ _).2 ⟨_, (Res.okOr_ok_iff _ _ _).2 hdh, ?_⟩
    refine (Act.liftM_bind_ok_iff _ _ _ _ _).2 ⟨_, (Res.okOr_ok_iff _ _ _).2 hkey, ?_⟩
    refine (Act.bind_ok_iff _ _ _ _ _).2 ⟨(), _, rfl, ?_⟩
    exact (Act.liftM_ok_iff _ _ _ _).2 ⟨(Res.okOr_ok_iff _ _ _).2 (hpad x), rfl⟩

/-- What becomes of a peer's public key. -/
theorem decap_eq (hL : L.Lawful dh.p dh.g) (x : Nat) (peer : Bytes) :
    Decap L peer (some (dh.with x)) =
      if peer.length = width dh.p ∧ Proper dh.p (beValue peer) then
        if Proper dh.p (beValue peer ^ x % dh.p) then
          .ok (beOctets (width dh.p) (beValue peer ^ x % dh.p)) (some (dh.with x))
        else .error (.err SSL_AD_INTERNAL_ERROR) (some (dh.with x))
      else .error (.err SSL_AD_ILLEGAL_PARAMETER) (some (dh.with x)) := by
  have hsize : L.size (dh.with x) = width dh.p := hL.size _
  obtain ⟨flags, hcheck, hflags⟩ := hL.checkPubKey (dh.with x).key (beValue peer)
  have hget : okOr (some (dh.with x)) SSL_AD_INTERNAL_ERROR = .ok (dh.with x) := rfl
  have hbin := (Res.okOr_ok_iff _ SSL_AD_INTERNAL_ERROR _).2 (hL.bin2bn peer)
  have hcheck : okOr (L.checkPubKey (dh.with x) (beValue peer)) SSL_AD_INTERNAL_ERROR = .ok flags :=
    (Res.okOr_ok_iff _ _ _).2 hcheck
  unfold Decap
  rw [Act.get_bind, hget, Act.liftM_ok_bind, hsize]
  by_cases hlen : peer.length = width dh.p
  case neg =>
    rw [if_neg fun h => hlen h.1]
    refine (Act.liftM_bind_error_iff _ _ _ _ _).2 (.inl ⟨?_, rfl⟩)
    exact (Res.ensure_error_iff _ _ _).2 ⟨hlen, rfl⟩
  rw [(Res.ensure_ok_iff _ _ ()).2 hlen, Act.liftM_ok_bind, hbin, Act.liftM_ok_bind]
  rw [hcheck, Act.liftM_ok_bind]
  by_cases hproper : Proper dh.p (beValue peer)
  case neg =>
    rw [if_neg fun h => hproper h.2]
    refine (Act.liftM_bind_error_iff _ _ _ _ _).2 (.inl ⟨?_, rfl⟩)
    exact (Res.ensure_error_iff _ _ _).2 ⟨fun h => hproper (hflags.1 h), rfl⟩
  rw [if_pos ⟨hlen, hproper⟩, (Res.ensure_ok_iff _ _ ()).2 (hflags.2 hproper), Act.liftM_ok_bind]
  have hcompute : L.computeKeyPadded (dh.with x) (beValue peer) = _ :=
    hL.computeKeyPadded x (dh.g ^ x % dh.p) (beValue peer) hproper
  rw [hcompute]
  by_cases hsecret : Proper dh.p (beValue peer ^ x % dh.p)
  · rw [if_pos hsecret, if_pos hsecret]
    refine (Act.liftM_bind_ok_iff _ _ _ _ _).2 ⟨_, (Res.okOr_ok_iff _ _ _).2 rfl, ?_⟩
    exact (Act.liftM_bind_ok_iff _ _ _ _ _).2
      ⟨(), (Res.ensure_ok_iff _ _ _).2 (beOctets_length _ _), rfl⟩
  · rw [if_neg hsecret, if_neg hsecret]
    rfl

/-- The two ends' view of one exchange: if the second end takes the first one's key, the first
one takes the second one's. -/
theorem decap_back (hL : L.Lawful dh.p dh.g) (hp : 3 < dh.p) (x x' : Nat) {secret : Bytes}
    {k : Option DH}
    (h : Decap L (beOctets (width dh.p) (dh.g ^ x % dh.p)) (some (dh.with x')) =
      .ok secret k) :
    Decap L (beOctets (width dh.p) (dh.g ^ x' % dh.p)) (some (dh.with x)) =
      .ok secret (some (dh.with x)) := by
  have hvalue := beValue_padded (show 0 < dh.p by omega)
  rw [decap_eq hL, hvalue, pow_comm_mod] at h
  rw [decap_eq hL, hvalue]
  split at h
  case isFalse => cases h
  split at h
  case isFalse => cases h
  next hsecret =>
    -- a secret that is proper comes of a key that is
    have hkey := hsecret.of_pow (by omega) (Nat.mod_lt _ (by omega))
    rw [if_pos ⟨beOctets_length _ _, hkey⟩, if_pos hsecret]
    cases h
    rfl

end FFDHEKeyShare

open FFDHEKeyShare in
/-- **RFC 7919.**  The keys of a group are as wide as its prime, and two shares of the group
agree whatever they draw.  A peer's key is answered with `illegal_parameter` exactly if it has
another width or is none of `2, …, p - 2`.  A secret is the peer's key to the power of the private
key, as wide as the prime and none of `0, 1, p - 1`; if the prime is a safe prime, every key that is
not answered so leads to one. -/
theorem ffdhe_agrees (L : LibCrypto ρ) {groupId : UInt16} {dh : DH}
    (hdh : FFDHEParameters groupId = some dh) (hL : L.Lawful dh.p dh.g) {draw : ρ} {pub : Bytes}
    {k : Option DH} (hgen : (FFDHEKeyShare L groupId).generate draw none = .ok pub k) :
    pub.length = width dh.p ∧
    (∀ draw', Agree (FFDHEKeyShare L groupId) (FFDHEKeyShare L groupId) draw draw') ∧
    (∀ peer, (FFDHEKeyShare L groupId).decap peer k = .error (.err SSL_AD_ILLEGAL_PARAMETER) k ↔
      peer.length ≠ width dh.p ∨ beValue peer ≤ 1 ∨ dh.p - 1 ≤ beValue peer) ∧
    ∃ x, beValue pub = dh.g ^ x % dh.p ∧
      (∀ peer secret k', (FFDHEKeyShare L groupId).decap peer k = .ok secret k' →
        secret.length = width dh.p ∧ beValue secret = beValue peer ^ x % dh.p ∧
        1 < beValue secret ∧ beValue secret < dh.p - 1) ∧
      (dh.p.Prime → ((dh.p - 1) / 2).Prime → ∀ peer, peer.length = width dh.p →
        1 < beValue peer → beValue peer < dh.p - 1 → ∃ secret,
          (FFDHEKeyShare L groupId).decap peer k = .ok secret k) := by
  obtain ⟨hp, -⟩ := three_lt_p hdh
  obtain ⟨x, -, hx, hlt, rfl, rfl⟩ := (generate_ok_iff hL hdh).1 hgen
  have hvalue := beValue_padded (show 0 < dh.p by omega)
  refine ⟨beOctets_length _ _, fun draw' => ?_, fun peer => ?_, x, hvalue _,
    fun peer secret k' h => ?_, fun hprime hsafe peer hlen hlow hhigh => ?_⟩
  · refine twoWay_agree fun pub₁ k₁ pub₂ k₂ secret k₃ h₁ h₂ h => ?_
    obtain ⟨x₁, -, -, -, rfl, rfl⟩ := (generate_ok_iff hL hdh).1 h₁
    obtain ⟨x₂, -, -, -, rfl, rfl⟩ := (generate_ok_iff hL hdh).1 h₂
    exact ⟨_, decap_back hL hp x₁ x₂ h⟩
  · show FFDHEKeyShare.Decap L peer (some (dh.with x)) = _ ↔ _
    have hbad : (peer.length ≠ width dh.p ∨ beValue peer ≤ 1 ∨ dh.p - 1 ≤ beValue peer) ↔
        ¬(peer.length = width dh.p ∧ Proper dh.p (beValue peer)) := by
      unfold Proper
      omega
    rw [decap_eq hL, hbad]
    by_cases hgood : peer.length = width dh.p ∧ Proper dh.p (beValue peer)
    · rw [if_pos hgood]
      refine iff_of_false (fun h => ?_) (fun h => h hgood)
      split at h
      · cases h
      · exact absurd h (by simp [SSL_AD_INTERNAL_ERROR, SSL_AD_ILLEGAL_PARAMETER])
    · rw [if_neg hgood]
      exact iff_of_true rfl hgood
  · have h : FFDHEKeyShare.Decap L peer (some (dh.with x)) = .ok secret k' := h
    rw [decap_eq hL] at h
    split at h
    case isFalse => cases h
    split at h
    case isFalse => cases h
    next hsecret =>
      cases h
      refine ⟨beOctets_length _ _, hvalue _, ?_⟩
      rw [hvalue]
      exact hsecret
  · have hkey : Proper dh.p (beValue peer) := ⟨hlow, hhigh⟩
    refine ⟨beOctets (width dh.p) (beValue peer ^ x % dh.p), ?_⟩
    show FFDHEKeyShare.Decap L peer (some (dh.with x)) = _
    rw [decap_eq hL, if_pos ⟨hlen, hkey⟩, if_pos (hkey.pow hprime hsafe hx hlt)]

end

/-- The library, with the number that it draws given. -/
def sampleLib : LibCrypto Nat where
  size dh := width dh.p
  generateKey r dh := if 0 < r ∧ r < (dh.p - 1) / 2 then some (r, dh.g ^ r % dh.p) else none
  checkPubKey dh y := some (if y ≤ 1 then 1 else if dh.p - 1 ≤ y then 2 else 0)
  computeKeyPadded dh y := do
    let (x, _) ← dh.key
    let secret := y ^ x % dh.p
    guard (Proper dh.p secret)
    return beOctets (width dh.p) secret
  bn2cbbPadded k n := if n < 256 ^ k then some (beOctets k n) else none
  bin2bn b := some (beValue b)

theorem sampleLib_lawful (p g : Nat) : sampleLib.Lawful p g where
  size key := rfl
  generateKey r x y h := by
    obtain ⟨hr, heq⟩ := Option.ite_none_right_eq_some.1 h
    obtain ⟨rfl, rfl⟩ := Prod.mk.inj (Option.some.inj heq)
    exact ⟨hr.1, hr.2, rfl⟩
  checkPubKey key y := by
    refine ⟨_, rfl, ?_⟩
    show (if y ≤ 1 then 1 else if p - 1 ≤ y then 2 else 0) = 0 ↔ 1 < y ∧ y < p - 1
    split
    · omega
    · split <;> omega
  computeKeyPadded x x' y hy := by
    by_cases hsecret : Proper p (y ^ x % p)
    · simp [sampleLib, hsecret]
    · simp [sampleLib, hsecret]
  bn2cbbPadded n h := if_pos h
  bin2bn b := rfl

def sampleGroup : DH := { p := kFFDHE2048Prime, g := 2 }

open FFDHEKeyShare in
/-- Private keys 3 and 5 in the field of 2048 bits. -/
theorem ffdhe_agrees_sample : ∃ ct secret k',
    (FFDHEKeyShare sampleLib 256).encap 5 (beOctets 256 8) none = .ok (ct, secret) k' ∧
    beValue secret = 2 ^ 15 ∧
    ∃ k'', (FFDHEKeyShare sampleLib 256).decap ct (some (sampleGroup.with 3)) = .ok secret k'' := by
  have hdh : FFDHEParameters 256 = some sampleGroup := rfl
  have hL := sampleLib_lawful sampleGroup.p sampleGroup.g
  have hwidth : width sampleGroup.p = 256 := by decide +kernel
  have hpub : sampleGroup.g ^ 3 % sampleGroup.p = 8 := by decide +kernel
  have hgen : Generate sampleLib 256 3 none = .ok _ _ := (generate_ok_iff hL hdh).2
    ⟨3, by decide +kernel, by decide, by decide +kernel, rfl, rfl⟩
  have hgen' : Generate sampleLib 256 5 none = .ok _ _ := (generate_ok_iff hL hdh).2
    ⟨5, by decide +kernel, by decide, by decide +kernel, rfl, rfl⟩
  rw [hwidth, hpub] at hgen
  have hdecap := decap_eq hL 5 (beOctets 256 8)
  rw [hwidth, if_pos (by decide +kernel), if_pos (by decide +kernel)] at hdecap
  have hencap : (FFDHEKeyShare sampleLib 256).encap 5 (beOctets 256 8) none = .ok _ _ :=
    twoWay_encap_ok.2 ⟨_, hgen', hdecap⟩
  refine ⟨_, _, _, hencap, by decide +kernel, ?_⟩
  exact (ffdhe_agrees sampleLib hdh hL hgen).2.1 5 _ _ _ _ _ hgen hencap

/-! ## A curve beside ML-KEM -/

section
variable {ρ ρ' σ Seed Coins Private Public : Type}

/-- The parts have the sizes that the code counts on. -/
structure Sized (kP384 : Bool) (ec : Share ρ ρ' σ) (kem : MLKEM Seed Coins Private Public) :
    Prop where
  ecPublic : ∀ r pub k, ec.generate r ec.fresh = .ok pub k → pub.length = kECBytes kP384
  ecCiphertext : ∀ r peer ct secret k, ec.encap r peer ec.fresh = .ok (ct, secret) k →
    ct.length = kECBytes kP384
  publicKey : ∀ seed, (kem.generateKey seed).1.length = kPublicKeyBytes kP384
  ciphertext : ∀ coins pub, (kem.encap coins pub).1.length = kCiphertextBytes kP384
  encapSecret : ∀ coins pub, (kem.encap coins pub).2.length = MLKEM_SHARED_SECRET_BYTES
  decapSecret : ∀ key ct secret, kem.decap key ct = some secret →
    secret.length = MLKEM_SHARED_SECRET_BYTES

variable {kP384 : Bool} {ec : Share ρ ρ' σ} {kem : MLKEM Seed Coins Private Public}

namespace NistMLKEMKeyShare

theorem onEC_ok_iff {α : Type} (x : Act σ α) (a : α) (s s' : σ × Option Private) :
    onEC x s = .ok a s' ↔ ∃ e, x s.1 = .ok a e ∧ s' = (e, s.2) := Act.zoom_ok_iff _ _ _ _ _ _

theorem hybrid_generate {draw : ρ × Seed} {pub : Bytes} {s k : σ × Option Private}
    (h : Generate ec kem draw s = .ok pub k) :
    ∃ ecPub e, ec.generate draw.1 s.1 = .ok ecPub e ∧ pub = ecPub ++ (kem.generateKey draw.2).1 ∧
      k = (e, some (kem.generateKey draw.2).2) := by
  obtain ⟨_, s₁, hset, h⟩ := (Act.bind_ok_iff _ _ _ _ _).1 h
  cases hset
  obtain ⟨ecPub, s₂, hec, h⟩ := (Act.bind_ok_iff _ _ _ _ _).1 h
  obtain ⟨e, hgen, rfl⟩ := (onEC_ok_iff _ _ _ _).1 hec
  obtain ⟨rfl, rfl⟩ := (Act.pure_ok_iff _ _ _ _).1 h
  exact ⟨ecPub, e, hgen, rfl, rfl⟩

theorem hybrid_encap {draw : ρ' × Coins} {peerKey ct secret : Bytes} {s k : σ × Option Private}
    (h : Encap kP384 ec kem draw peerKey s = .ok (ct, secret) k) :
    peerKey.length = kECBytes kP384 + kPublicKeyBytes kP384 ∧
    ∃ pub ecCt ecSecret e, kem.parsePublicKey (peerKey.drop (kECBytes kP384)) = some (pub, []) ∧
      ec.encap draw.1 (peerKey.take (kECBytes kP384)) s.1 = .ok (ecCt, ecSecret) e ∧
      ct = ecCt ++ (kem.encap draw.2 pub).1 ∧ secret = ecSecret ++ (kem.encap draw.2 pub).2 := by
  obtain ⟨_, hlen, h⟩ := (Act.liftM_bind_ok_iff _ _ _ _ _).1 h
  obtain ⟨⟨pub, encoded⟩, hparse, h⟩ := (Act.liftM_bind_ok_iff _ _ _ _ _).1 h
  obtain ⟨_, hrest, h⟩ := (Act.liftM_bind_ok_iff _ _ _ _ _).1 h
  obtain ⟨⟨ecCt, ecSecret⟩, s₁, hec, h⟩ := (Act.bind_ok_iff _ _ _ _ _).1 h
  obtain ⟨e, hencap, rfl⟩ := (onEC_ok_iff _ _ _ _).1 hec
  obtain ⟨heq, -⟩ := (Act.pure_ok_iff _ _ _ _).1 h
  obtain ⟨rfl, rfl⟩ := Prod.mk.inj heq
  obtain rfl := (Res.ensure_ok_iff _ _ _).1 hrest
  exact ⟨(Res.ensure_ok_iff _ _ _).1 hlen, pub, ecCt, ecSecret, e,
    (Res.okOr_ok_iff _ _ _).1 hparse, hencap, rfl, rfl⟩

theorem hybrid_decap_iff {ct secret : Bytes} {s k : σ × Option Private} :
    Decap kP384 ec kem ct s = .ok secret k ↔
    ct.length = kECBytes kP384 + kCiphertextBytes kP384 ∧
    ∃ ecSecret e key kemSecret, ec.decap (ct.take (kECBytes kP384)) s.1 = .ok ecSecret e ∧
      s.2 = some key ∧ kem.decap key (ct.drop (kECBytes kP384)) = some kemSecret ∧
      secret = ecSecret ++ kemSecret ∧ k = (e, s.2) := by
  constructor
  · intro h
    obtain ⟨_, hlen, h⟩ := (Act.liftM_bind_ok_iff _ _ _ _ _).1 h
    obtain ⟨ecSecret, s₁, hec, h⟩ := (Act.bind_ok_iff _ _ _ _ _).1 h
    obtain ⟨e, hdecap, rfl⟩ := (onEC_ok_iff _ _ _ _).1 hec
    rw [Act.get_bind] at h
    obtain ⟨key, hkey, h⟩ := (Act.liftM_bind_ok_iff _ _ _ _ _).1 h
    obtain ⟨kemSecret, hkem, h⟩ := (Act.liftM_bind_ok_iff _ _ _ _ _).1 h
    obtain ⟨rfl, rfl⟩ := (Act.pure_ok_iff _ _ _ _).1 h
    exact ⟨(Res.ensure_ok_iff _ _ _).1 hlen, ecSecret, e, key, kemSecret, hdecap,
      (Res.okOr_ok_iff _ _ _).1 hkey, (Res.okOr_ok_iff _ _ _).1 hkem, rfl, rfl⟩
  · rintro ⟨hlen, ecSecret, e, key, kemSecret, hdecap, hkey, hkem, rfl, rfl⟩
    refine (Act.liftM_bind_ok_iff _ _ _ _ _).2 ⟨(), (Res.ensure_ok_iff _ _ _).2 hlen, ?_⟩
    refine (Act.bind_ok_iff _ _ _ _ _).2 ⟨ecSecret, (e, s.2), ?_, ?_⟩
    · exact (onEC_ok_iff _ _ _ _).2 ⟨e, hdecap, rfl⟩
    rw [Act.get_bind]
    refine (Act.liftM_bind_ok_iff _ _ _ _ _).2 ⟨key, (Res.okOr_ok_iff _ _ _).2 hkey, ?_⟩
    exact (Act.liftM_bind_ok_iff _ _ _ _ _).2 ⟨kemSecret, (Res.okOr_ok_iff _ _ _).2 hkem, rfl⟩

theorem hybrid_decap_illegal {ct : Bytes} {s : σ × Option Private} :
    (∃ s', Decap kP384 ec kem ct s = .error (.err SSL_AD_ILLEGAL_PARAMETER) s') ↔
      ct.length ≠ kECBytes kP384 + kCiphertextBytes kP384 ∨
      ∃ e, ec.decap (ct.take (kECBytes kP384)) s.1 = .error (.err SSL_AD_ILLEGAL_PARAMETER) e := by
  have hokOr : ∀ {α : Type} (o : Option α), okOr o SSL_AD_INTERNAL_ERROR ≠
      .error (.err SSL_AD_ILLEGAL_PARAMETER) := by
    intro α o h
    unfold okOr at h
    split at h
    · cases h
    · exact absurd h (by simp [SSL_AD_INTERNAL_ERROR, SSL_AD_ILLEGAL_PARAMETER])
  constructor
  · rintro ⟨s', h⟩
    by_cases hlen : ct.length = kECBytes kP384 + kCiphertextBytes kP384
    · right
      rcases (Act.liftM_bind_error_iff _ _ _ _ _).1 h with ⟨h, -⟩ | ⟨_, -, h⟩
      · exact absurd hlen (Res.ensure_error_iff _ _ _ |>.1 h).1
      rcases (Act.bind_error_iff _ _ _ _ _).1 h with h | ⟨ecSecret, s₁, -, h⟩
      · obtain ⟨e, he, -⟩ := (Act.zoom_error_iff _ _ _ _ _ _).1 h
        exact ⟨e, he⟩
      rw [Act.get_bind] at h
      rcases (Act.liftM_bind_error_iff _ _ _ _ _).1 h with ⟨h, -⟩ | ⟨key, -, h⟩
      · exact absurd h (hokOr _)
      rcases (Act.liftM_bind_error_iff _ _ _ _ _).1 h with ⟨h, -⟩ | ⟨secret, -, h⟩
      · exact absurd h (hokOr _)
      · exact absurd h (Act.pure_ne_error _ _ _ _)
    · exact .inl hlen
  · intro h
    by_cases hlen : ct.length = kECBytes kP384 + kCiphertextBytes kP384
    · obtain ⟨e, he⟩ := h.resolve_left fun hne => hne hlen
      refine ⟨(e, s.2), (Act.liftM_bind_error_iff _ _ _ _ _).2
        (.inr ⟨(), (Res.ensure_ok_iff _ _ _).2 hlen, ?_⟩)⟩
      exact (Act.bind_error_iff _ _ _ _ _).2 (.inl ((Act.zoom_error_iff _ _ _ _ _ _).2 ⟨e, he, rfl⟩))
    · refine ⟨s, (Act.liftM_bind_error_iff _ _ _ _ _).2 (.inl ⟨?_, rfl⟩)⟩
      exact (Res.ensure_error_iff _ _ _).2 ⟨hlen, rfl⟩

end NistMLKEMKeyShare

open NistMLKEMKeyShare in
/-- **The hybrid is both.**  In an exchange that the second end takes, keys, ciphertexts and
secrets are the curve's parts followed by ML-KEM's, so the first end comes to the same secret
exactly if it does in both of the exchanges.  A ciphertext is answered with `illegal_parameter`
exactly if it has another length or if the curve's share says so. -/
theorem hybrid_agrees (kP384 : Bool) (ec : Share ρ ρ' σ) (kem : MLKEM Seed Coins Private Public)
    (hsized : Sized kP384 ec kem) (draw : ρ × Seed) (draw' : ρ' × Coins) {pub ct secret : Bytes}
    {k k' : σ × Option Private}
    (hgen : (NistMLKEMKeyShare kP384 ec kem).generate draw (ec.fresh, none) = .ok pub k)
    (hencap : (NistMLKEMKeyShare kP384 ec kem).encap draw' pub (ec.fresh, none) =
      .ok (ct, secret) k') :
    (∃ ecPub ecKey ecCt ecSecret e kemPub, ec.generate draw.1 ec.fresh = .ok ecPub ecKey ∧
      ec.encap draw'.1 ecPub ec.fresh = .ok (ecCt, ecSecret) e ∧
      kem.parsePublicKey (kem.generateKey draw.2).1 = some (kemPub, []) ∧
      pub = ecPub ++ (kem.generateKey draw.2).1 ∧ ct = ecCt ++ (kem.encap draw'.2 kemPub).1 ∧
      secret = ecSecret ++ (kem.encap draw'.2 kemPub).2 ∧
      ((∃ k'', (NistMLKEMKeyShare kP384 ec kem).decap ct k = .ok secret k'') ↔
        (∃ e', ec.decap ecCt ecKey = .ok ecSecret e') ∧
        kem.decap (kem.generateKey draw.2).2 (kem.encap draw'.2 kemPub).1 =
          some (kem.encap draw'.2 kemPub).2)) ∧
    ∀ ct' s, (∃ s', (NistMLKEMKeyShare kP384 ec kem).decap ct' s =
        .error (.err SSL_AD_ILLEGAL_PARAMETER) s') ↔
      ct'.length ≠ kECBytes kP384 + kCiphertextBytes kP384 ∨
      ∃ e, ec.decap (ct'.take (kECBytes kP384)) s.1 = .error (.err SSL_AD_ILLEGAL_PARAMETER) e := by
  refine ⟨?_, fun ct' s => hybrid_decap_illegal⟩
  obtain ⟨ecPub, ecKey, hec, rfl, rfl⟩ := hybrid_generate hgen
  have hpublen := hsized.ecPublic _ _ _ hec
  obtain ⟨-, kemPub, ecCt, ecSecret, e, hparse, hecEncap, rfl, rfl⟩ := hybrid_encap hencap
  rw [List.drop_left' hpublen] at hparse
  rw [List.take_left' hpublen] at hecEncap
  have hctlen := hsized.ecCiphertext _ _ _ _ _ hecEncap
  have htake : (ecCt ++ (kem.encap draw'.2 kemPub).1).take (kECBytes kP384) = ecCt :=
    List.take_left' hctlen
  have hdrop : (ecCt ++ (kem.encap draw'.2 kemPub).1).drop (kECBytes kP384) =
      (kem.encap draw'.2 kemPub).1 := List.drop_left' hctlen
  refine ⟨ecPub, ecKey, ecCt, ecSecret, e, kemPub, hec, hecEncap, hparse, rfl, rfl, rfl, ?_⟩
  have hlen : (ecCt ++ (kem.encap draw'.2 kemPub).1).length =
      kECBytes kP384 + kCiphertextBytes kP384 := by
    rw [List.length_append, hctlen, hsized.ciphertext]
  constructor
  · rintro ⟨k'', h⟩
    obtain ⟨-, ecSecret', e', key, kemSecret, hdecap, hkey, hkem, heq, -⟩ := hybrid_decap_iff.1 h
    rw [htake] at hdecap
    rw [hdrop] at hkem
    obtain rfl := Option.some.inj hkey
    -- the ML-KEM secrets have one length, so the concatenations are cut alike
    obtain ⟨rfl, rfl⟩ := List.append_inj' heq
      ((hsized.encapSecret _ _).trans (hsized.decapSecret _ _ _ hkem).symm)
    exact ⟨⟨e', hdecap⟩, hkem⟩
  · rintro ⟨⟨e', hdecap⟩, hkem⟩
    refine ⟨_, hybrid_decap_iff.2 ⟨hlen, ecSecret, e', _, _, ?_, rfl, ?_, rfl, rfl⟩⟩
    · rwa [htake]
    · rwa [hdrop]

end

/-- A curve's share with keys of 65 octets and secrets that are products. -/
def sampleCurve : Share UInt8 UInt8 UInt8 :=
  twoWay 0 (fun r => do set r; return List.replicate 65 r)
    fun peer => do return List.replicate 32 (peer.headD 0 * (← get))

def sampleKem : MLKEM UInt8 UInt8 UInt8 UInt8 where
  generateKey seed := (List.replicate 1184 seed, seed)
  parsePublicKey b := some (b.headD 0, b.drop 1184)
  encap coins pub := (List.replicate 1088 coins, List.replicate 32 (pub * coins))
  decap key ct := some (List.replicate 32 (ct.headD 0 * key))

theorem sampleSized : Sized false sampleCurve sampleKem where
  ecPublic r pub k h := by
    cases h
    exact List.length_replicate
  ecCiphertext r peer ct secret k h := by
    cases h
    exact List.length_replicate
  publicKey seed := List.length_replicate
  ciphertext coins pub := List.length_replicate
  encapSecret coins pub := List.length_replicate
  decapSecret key ct secret h := by
    cases h
    exact List.length_replicate

theorem hybrid_agrees_sample : ∃ pub ct secret k k' k'',
    (NistMLKEMKeyShare false sampleCurve sampleKem).generate (3, 5) (0, none) = .ok pub k ∧
    (NistMLKEMKeyShare false sampleCurve sampleKem).encap (7, 11) pub (0, none) =
      .ok (ct, secret) k' ∧
    secret = List.replicate 32 21 ++ List.replicate 32 55 ∧
    (NistMLKEMKeyShare false sampleCurve sampleKem).decap ct k = .ok secret k'' := by
  have hgen : (NistMLKEMKeyShare false sampleCurve sampleKem).generate (3, 5) (0, none) =
    .ok (List.replicate 65 3 ++ List.replicate 1184 5) (3, some 5) := rfl
  have hvalue : ((NistMLKEMKeyShare false sampleCurve sampleKem).encap (7, 11)
      (List.replicate 65 3 ++ List.replicate 1184 5)).value? (0, none) =
    some (List.replicate 65 7 ++ List.replicate 1088 11,
      List.replicate 32 21 ++ List.replicate 32 55) := by
    decide +kernel
  obtain ⟨k', hencap⟩ := (Act.value?_eq_some_iff _ _ _).1 hvalue
  obtain ⟨⟨_, _, _, _, _, kemPub, hec, hecEncap, hparse, -, -, -, hiff⟩, -⟩ :=
    hybrid_agrees false sampleCurve sampleKem sampleSized (3, 5) (7, 11) hgen hencap
  cases hec
  cases hecEncap
  obtain rfl : 5 = kemPub := (Prod.mk.inj (Option.some.inj hparse)).1
  obtain ⟨k'', h⟩ := hiff.2 ⟨⟨3, rfl⟩, rfl⟩
  exact ⟨_, _, _, _, k', k'', hgen, hencap, rfl, h⟩

end Ssl
