import FingerprintBridge.Lib.Octets
import FingerprintBridge.Ssl.KeyShare

/-!
# `src/crypto_x448.rs`, `scripts/patches/bridge-x448.patch`: X448

The function comes from Rust through a callback; the key share is BoringSSL's, which also
keeps the private key and hands it on between two ClientHellos.
-/

namespace Ssl

open KeyExchange

/-! ## The code -/

/-- The callback's result, and what it leaves in `out`; `crrl` is `crrl::x448::x448` of a point and
a scalar. -/
def x448 (crrl : Bytes → Bytes → Bytes) (privateKey peer : Bytes) : Bool × Bytes :=
  let secret := crrl peer privateKey
  if secret.foldl (fun acc byte => acc ||| byte) 0 = 0 then (false, List.replicate 56 0)
  else (true, secret)

/-- `SSL_BRIDGE_X448_CALLBACK` -/
abbrev X448Callback := Bytes → Bytes → Bool × Bytes

structure X448Members where
  privateKey : Bytes := List.replicate 56 0
  hasPrivateKey : Bool := false
deriving DecidableEq

namespace X448KeyShare

def kBasePoint : Bytes := 5 :: List.replicate 55 0

def kZero : Bytes := List.replicate 56 0

/-- The private key and the public key that the first call of the callback makes of it. -/
def keyPair (callback : Option X448Callback) (draw : Option { b : Bytes // b.length = 56 }) :
    Option (Bytes × Bytes) := do
  let callback ← callback
  let privateKey ← draw
  let (ok, publicKey) := callback privateKey kBasePoint
  guard (ok = true)
  return (privateKey, publicKey)

def Generate (callback : Option X448Callback) (draw : Option { b : Bytes // b.length = 56 }) :
    Act X448Members Bytes := do
  let pair := keyPair callback draw
  set (match pair with
    | none => ({ } : X448Members)
    | some (privateKey, _) => { privateKey := privateKey, hasPrivateKey := true })
  let (_, publicKey) ← okOr pair SSL_AD_INTERNAL_ERROR
  return publicKey

def Decap (callback : Option X448Callback) (peerKey : Bytes) : Act X448Members Bytes := do
  let s ← get
  ensure (s.hasPrivateKey = true) SSL_AD_INTERNAL_ERROR
  let callback ← okOr callback SSL_AD_INTERNAL_ERROR
  ensure (peerKey.length = 56) SSL_AD_ILLEGAL_PARAMETER
  let (ok, secret) := callback s.privateKey peerKey
  ensure (ok = true) SSL_AD_ILLEGAL_PARAMETER
  ensure (secret ≠ kZero) SSL_AD_ILLEGAL_PARAMETER
  return secret

def SerializePrivateKey : Act X448Members Bytes := do
  let s ← get
  ensure (s.hasPrivateKey = true) "no key"
  return s.privateKey

def DeserializePrivateKey (input : Bytes) : Act X448Members Unit := do
  ensure (input.length = 56) "length"
  set ({ privateKey := input, hasPrivateKey := true } : X448Members)

end X448KeyShare

def X448KeyShare (callback : Option X448Callback) :
    Share (Option { b : Bytes // b.length = 56 }) (Option { b : Bytes // b.length = 56 }) X448Members :=
  twoWay {} (X448KeyShare.Generate callback) (X448KeyShare.Decap callback)

/-! ## The proofs -/

/-- What RFC 7748 says of X448. -/
structure X448Function (crrl : Bytes → Bytes → Bytes) : Prop where
  length : ∀ u k, (crrl u k).length = 56
  agree : ∀ a b, crrl (crrl X448KeyShare.kBasePoint b) a = crrl (crrl X448KeyShare.kBasePoint a) b

section
variable {crrl : Bytes → Bytes → Bytes} (hcrrl : X448Function crrl)
include hcrrl

theorem x448_eq (privateKey peer : Bytes) : x448 crrl privateKey peer =
    if crrl peer privateKey = X448KeyShare.kZero then (false, X448KeyShare.kZero)
    else (true, crrl peer privateKey) := by
  have hzero := foldl_or_eq_zero_iff (crrl peer privateKey) 0
  rw [hcrrl.length] at hzero
  have hzero : List.foldl (fun acc byte => acc ||| byte) 0 (crrl peer privateKey) = 0 ↔
      crrl peer privateKey = X448KeyShare.kZero := hzero.trans (and_iff_right rfl)
  show (if _ then _ else _) = _
  by_cases h : crrl peer privateKey = X448KeyShare.kZero
  · rw [if_pos (hzero.2 h), if_pos h]
    rfl
  · rw [if_neg fun hfold => h (hzero.1 hfold), if_neg h]

namespace X448KeyShare

/-- A share that has a key answers for itself. -/
theorem decap_eq (key peerKey : Bytes) :
    Decap (some (x448 crrl)) peerKey { privateKey := key, hasPrivateKey := true } =
      if peerKey.length ≠ 56 ∨ crrl peerKey key = kZero then
        .error (.err SSL_AD_ILLEGAL_PARAMETER) { privateKey := key, hasPrivateKey := true }
      else .ok (crrl peerKey key) { privateKey := key, hasPrivateKey := true } := by
  show ((liftM (ensure (peerKey.length = 56) SSL_AD_ILLEGAL_PARAMETER) : Act _ Unit) >>= fun _ =>
    (liftM (ensure ((x448 crrl key peerKey).1 = true) SSL_AD_ILLEGAL_PARAMETER) : Act _ Unit) >>=
      fun _ => (liftM (ensure ((x448 crrl key peerKey).2 ≠ kZero) SSL_AD_ILLEGAL_PARAMETER) :
        Act _ Unit) >>= fun _ => pure (x448 crrl key peerKey).2) _ = _
  rw [x448_eq hcrrl]
  by_cases hlen : peerKey.length = 56
  · by_cases hzero : crrl peerKey key = kZero
    · rw [if_pos hzero, if_pos (.inr hzero)]
      refine (Act.liftM_bind_error_iff _ _ _ _ _).2 (.inr ⟨(), (Res.ensure_ok_iff _ _ _).2 hlen, ?_⟩)
      exact (Act.liftM_bind_error_iff _ _ _ _ _).2
        (.inl ⟨(Res.ensure_error_iff _ _ _).2 ⟨by decide, rfl⟩, rfl⟩)
    · rw [if_neg hzero, if_neg (by simp [hlen, hzero])]
      refine (Act.liftM_bind_ok_iff _ _ _ _ _).2 ⟨(), (Res.ensure_ok_iff _ _ _).2 hlen, ?_⟩
      refine (Act.liftM_bind_ok_iff _ _ _ _ _).2 ⟨(), (Res.ensure_ok_iff _ _ _).2 rfl, ?_⟩
      exact (Act.liftM_bind_ok_iff _ _ _ _ _).2 ⟨(), (Res.ensure_ok_iff _ _ _).2 hzero, rfl⟩
  · rw [if_pos (show peerKey.length ≠ 56 ∨ crrl peerKey key = kZero from .inl hlen)]
    exact (Act.liftM_bind_error_iff _ _ _ _ _).2
      (.inl ⟨(Res.ensure_error_iff _ _ _).2 ⟨hlen, rfl⟩, rfl⟩)

theorem keyPair_iff {draw : Option { b : Bytes // b.length = 56 }} {key pub : Bytes} :
    keyPair (some (x448 crrl)) draw = some (key, pub) ↔
      ∃ d, draw = some d ∧ key = d.1 ∧ pub = crrl kBasePoint key ∧ pub ≠ kZero := by
  cases draw with
  | none => simp [keyPair]
  | some d =>
    simp only [keyPair, Option.bind_eq_bind, Option.bind_some, Option.bind_eq_some_iff,
      Option.guard_eq_some', x448_eq hcrrl]
    by_cases hzero : crrl kBasePoint d.1 = kZero
    · rw [if_pos hzero]
      refine iff_of_false (fun ⟨_, h, _⟩ => Bool.false_ne_true h) ?_
      rintro ⟨_, heq, rfl, rfl, hne⟩
      obtain rfl := Option.some.inj heq
      exact hne hzero
    · rw [if_neg hzero]
      constructor
      · rintro ⟨-, -, heq⟩
        obtain ⟨rfl, rfl⟩ := Prod.mk.inj (Option.some.inj heq)
        exact ⟨d, rfl, rfl, rfl, hzero⟩
      · rintro ⟨_, heq, rfl, rfl, -⟩
        obtain rfl := Option.some.inj heq
        exact ⟨(), rfl, rfl⟩

theorem generate_iff {draw : Option { b : Bytes // b.length = 56 }} {s k : X448Members} {pub : Bytes} :
    Generate (some (x448 crrl)) draw s = .ok pub k ↔
      ∃ d, draw = some d ∧ pub = crrl kBasePoint d.1 ∧ pub ≠ kZero ∧
        k = { privateKey := d.1, hasPrivateKey := true } := by
  unfold Generate
  cases hpair : keyPair (some (x448 crrl)) draw with
  | none =>
    refine iff_of_false (fun h => by cases h) ?_
    rintro ⟨d, hd, hpub, hne, -⟩
    have := (keyPair_iff hcrrl).2 ⟨d, hd, rfl, hpub, hne⟩
    rw [hpair] at this
    cases this
  | some pair =>
    obtain ⟨key, pub'⟩ := pair
    obtain ⟨d, hd, rfl, rfl, hne⟩ := (keyPair_iff hcrrl).1 hpair
    constructor
    · intro h
      cases h
      exact ⟨d, hd, rfl, hne, rfl⟩
    · rintro ⟨d', hd', rfl, -, rfl⟩
      obtain rfl := Option.some.inj (hd.symm.trans hd')
      rfl

omit hcrrl in
/-- A call that fails leaves no key behind. -/
theorem generate_error {callback : Option X448Callback} {draw : Option { b : Bytes // b.length = 56 }}
    {s k : X448Members} {e : Fault} (h : Generate callback draw s = .error e k) : k = {} := by
  unfold Generate at h
  cases hpair : keyPair callback draw with
  | none =>
    rw [hpair] at h
    cases h
    rfl
  | some pair =>
    rw [hpair] at h
    cases h

end X448KeyShare

open X448KeyShare in
/-- **X448.**  Shares of the one callback agree.  A share that has made its key answers a peer with
`illegal_parameter` exactly if its key is not 56 octets long or leads to the zero secret, and else
with that secret, as does a share that takes over its serialized key.  A share that failed to make
one opens nothing. -/
theorem x448_agrees {draw : Option { b : Bytes // b.length = 56 }} {pub : Bytes} {k : X448Members}
    (hgen : (X448KeyShare (some (x448 crrl))).generate draw
      (X448KeyShare (some (x448 crrl))).fresh = .ok pub k) :
    (∀ draw', Agree (X448KeyShare (some (x448 crrl))) (X448KeyShare (some (x448 crrl))) draw draw') ∧
    (∃ key, draw = some key ∧ ∀ peerKey, (X448KeyShare (some (x448 crrl))).decap peerKey k =
      if peerKey.length ≠ 56 ∨ crrl peerKey key = kZero then
        .error (.err SSL_AD_ILLEGAL_PARAMETER) k
      else .ok (crrl peerKey key) k) ∧
    (∃ saved, SerializePrivateKey k = .ok saved k ∧
      ∀ s, DeserializePrivateKey saved s = .ok () k) ∧
    ∀ callback draw' s s' e, Generate callback draw' s = .error e s' →
      ∀ callback' peerKey, Decap callback' peerKey s' = .error (.err SSL_AD_INTERNAL_ERROR) s' := by
  obtain ⟨d, rfl, rfl, hne, rfl⟩ := (generate_iff hcrrl).1 hgen
  refine ⟨fun draw' => ?_, ⟨d, rfl, decap_eq hcrrl d.1⟩, ⟨d.1, rfl, fun s => ?_⟩,
    fun callback draw' s s' e h callback' peerKey => ?_⟩
  · refine twoWay_agree fun pub₁ k₁ pub₂ k₂ secret k₃ h₁ h₂ h => ?_
    obtain ⟨d₁, -, rfl, -, rfl⟩ := (generate_iff hcrrl).1 h₁
    obtain ⟨d₂, -, rfl, -, rfl⟩ := (generate_iff hcrrl).1 h₂
    rw [decap_eq hcrrl] at h
    split at h
    · cases h
    · next hgood =>
      obtain ⟨rfl, -⟩ := EStateM.Result.ok.inj h
      rw [not_or] at hgood
      refine ⟨{ privateKey := d₁.1, hasPrivateKey := true }, ?_⟩
      rw [decap_eq hcrrl, hcrrl.agree d₁.1 d₂.1, if_neg (not_or.2 ⟨?_, hgood.2⟩)]
      exact not_not.2 (hcrrl.length _ _)
  · show ((liftM (ensure (d.1.length = 56) "length") : Act X448Members Unit) >>= _) s = _
    exact (Act.liftM_bind_ok_iff _ _ _ _ _).2 ⟨(), (Res.ensure_ok_iff _ _ _).2 d.2, rfl⟩
  · rw [generate_error h]
    rfl

end

/-- Octet by octet, in place of the curve. -/
def sampleX448 (u k : Bytes) : Bytes :=
  (List.range 56).map fun i => u.getD i 0 * k.getD i 0

theorem sampleX448_getD (u k : Bytes) {i : Nat} (hi : i < 56) :
    (sampleX448 u k).getD i 0 = u.getD i 0 * k.getD i 0 := by
  unfold sampleX448
  rw [List.getD_eq_getElem?_getD, List.getElem?_map, List.getElem?_range hi]
  rfl

theorem sampleX448_function : X448Function sampleX448 where
  length u k := by simp [sampleX448]
  agree a b := by
    apply List.map_congr_left
    intro i hi
    have hlt := List.mem_range.1 hi
    show (sampleX448 _ b).getD i 0 * a.getD i 0 = (sampleX448 _ a).getD i 0 * b.getD i 0
    rw [sampleX448_getD _ _ hlt, sampleX448_getD _ _ hlt]
    ac_rfl

def sampleKey : { b : Bytes // b.length = 56 } := ⟨3 :: List.replicate 55 0, rfl⟩

theorem x448_agrees_sample : ∃ pub k,
    (X448KeyShare (some (x448 sampleX448))).generate (some sampleKey)
      (X448KeyShare (some (x448 sampleX448))).fresh = .ok pub k ∧
    (X448KeyShare (some (x448 sampleX448))).decap (5 :: List.replicate 55 1) k =
      .ok (15 :: List.replicate 55 0) k := by
  have hgen : (X448KeyShare (some (x448 sampleX448))).generate (some sampleKey)
      (X448KeyShare (some (x448 sampleX448))).fresh =
        .ok (15 :: List.replicate 55 0) ⟨sampleKey.1, true⟩ := by
    rfl
  obtain ⟨-, ⟨key, hkey, hdecap⟩, -⟩ := x448_agrees sampleX448_function hgen
  obtain rfl := Option.some.inj hkey
  refine ⟨_, _, hgen, ?_⟩
  rw [hdecap, if_neg (by decide +kernel)]
  rfl

end Ssl
