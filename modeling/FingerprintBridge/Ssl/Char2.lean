import FingerprintBridge.Lib.Octets
import FingerprintBridge.Ssl.KeyShare
import Mathlib.Data.List.GetD
import Mathlib.Data.ZMod.Basic
import Mathlib.GroupTheory.OrderOfElement

/-!
# `native/char2_provider.c`, `scripts/patches/bridge-char2.patch`: sect283r1

The key share of TLS 1.2 on the binary curve sect283r1.  OpenSSL makes and combines the
keys (`native/char2_provider.c`); `Char2KeyShare` holds a pointer to such a key.  A peer's
point is taken exactly if it is the one encoding of a point of the subgroup of prime order.
-/

namespace Ssl

open KeyExchange

/-! ## The code -/

/-- What is used of OpenSSL's `EC_GROUP` of sect283r1 and of `ECDH_compute_key`. -/
structure EC (P : Type) where
  degree : Nat
  order : Nat
  generator : P
  /-- `EC_KEY_check_key` of a private and a public key -/
  checkKey : Nat → P → Bool
  /-- `EC_POINT_point2oct`, compressed or not -/
  point2oct : Bool → P → Bytes
  oct2point : Bytes → Option P
  isOnCurve : P → Bool
  computeKey : P → Nat → Option Bytes

section
variable {P : Type} [AddCommGroup P] [DecidableEq P] (ec : EC P)

/-- A private key and the encoding of its public key. -/
def bridgeChar2Generate (draw : Option Nat) : Option (Nat × Bytes) := do
  let d ← draw
  let publicKey := d • ec.generator
  guard (ec.checkKey d publicKey = true)
  guard (ec.degree = 283)
  guard ((ec.point2oct false publicKey).length = 73)
  return (d, ec.point2oct false publicKey)

/-- `encoded_len == 73 && encoded[0] == 4` -/
def uncompressedForm (encoded : Bytes) : Prop := encoded.length = 73 ∧ encoded[0]? = some 4

/-- `encoded_len == 37 && (encoded[0] == 2 || encoded[0] == 3)` -/
def compressedForm (encoded : Bytes) : Prop :=
  encoded.length = 37 ∧ (encoded[0]? = some 2 ∨ encoded[0]? = some 3)

instance (encoded : Bytes) : Decidable (uncompressedForm encoded) :=
  inferInstanceAs (Decidable (_ ∧ _))

instance (encoded : Bytes) : Decidable (compressedForm encoded) :=
  inferInstanceAs (Decidable (_ ∧ _))

/-- What `bridge_char2_derive` computes before it writes. -/
def derivedSecret (d : Nat) (encoded : Bytes) : Option Bytes := do
  guard (compressedForm encoded ∨ uncompressedForm encoded)
  guard (encoded.getD 1 0 &&& 0xf8 = 0)
  guard (encoded.length = 73 → encoded.getD 37 0 &&& 0xf8 = 0)
  let peer ← ec.oct2point encoded
  guard (peer ≠ 0)
  guard (ec.isOnCurve peer = true)
  guard (ec.point2oct (decide (encoded.length = 37)) peer = encoded)
  guard (ec.order • peer = 0)
  let secret ← ec.computeKey peer d
  guard (secret.length = 36)
  guard (secret.foldl (· ||| ·) 0 ≠ 0)
  return secret

/-- The result, and what stands in `out` after the call. -/
def bridgeChar2Derive (d : Nat) (encoded : Bytes) : Bool × Bytes :=
  match derivedSecret ec d encoded with
  | none => (false, List.replicate 36 0)
  | some secret => (true, secret)

/-- The contexts that providers have allocated, by their addresses; freed ones are `none`. -/
abbrev Contexts (ι : Type) := List (Option (ι × Nat))

variable {ι : Type} [DecidableEq ι]

/-- What a provider reads behind a pointer.  A pointer to nothing, or to a context of another
provider, has no defined meaning. -/
def heldContext (callbacks : ι) (key : Nat) (memory : Contexts ι) : Res Nat :=
  match memory[key]? with
  | some (some context) => if context.1 = callbacks then .ok context.2 else .error .panic
  | _ => .error .panic

/-- `SSL_BRIDGE_CHAR2_CALLBACKS::generate` -/
def generateContext (callbacks : ι) (draw : Option Nat) : Act (Contexts ι) (Option (Nat × Bytes)) := do
  let memory ← get
  match bridgeChar2Generate ec draw with
  | none => return none
  | some (d, point) => do
    set (memory ++ [some (callbacks, d)])
    return some (memory.length, point)

/-- `SSL_BRIDGE_CHAR2_CALLBACKS::derive` -/
def deriveContext (callbacks : ι) (key : Nat) (peer : Bytes) : Act (Contexts ι) (Bool × Bytes) := do
  let memory ← get
  let d ← heldContext callbacks key memory
  return bridgeChar2Derive ec d peer

/-- `SSL_BRIDGE_CHAR2_CALLBACKS::free` -/
def freeContext (callbacks : ι) (key : Nat) : Act (Contexts ι) Unit := do
  let memory ← get
  let _ ← heldContext callbacks key memory
  set (memory.set key none)

/-- The members of a `Char2KeyShare`. -/
structure Char2Members (ι : Type) where
  callbacks : Option ι
  compressed : Bool
  key : Option Nat := none

namespace Char2KeyShare

/-- Calls a provider. -/
def provider {α : Type} (x : Act (Contexts ι) α) : Act (Char2Members ι × Contexts ι) α :=
  Act.zoom Prod.snd (fun memory s => (s.1, memory)) x

def Generate (draw : Option Nat) : Act (Char2Members ι × Contexts ι) Bytes := do
  let (share, _) ← get
  let callbacks ← okOr share.callbacks SSL_AD_INTERNAL_ERROR
  ensure (share.key = none) SSL_AD_INTERNAL_ERROR
  let made ← provider (generateContext ec callbacks draw)
  modify fun s => ({ s.1 with key := made.map Prod.fst }, s.2)
  let (_, point) ← okOr made SSL_AD_INTERNAL_ERROR
  return point

def Decap (peer : Bytes) : Act (Char2Members ι × Contexts ι) Bytes := do
  let (share, _) ← get
  let key ← okOr share.key SSL_AD_INTERNAL_ERROR
  let callbacks ← okOr share.callbacks SSL_AD_INTERNAL_ERROR
  ensure (uncompressedForm peer ∨ share.compressed = true ∧ compressedForm peer)
    SSL_AD_ILLEGAL_PARAMETER
  let (ok, candidate) ← provider (deriveContext ec callbacks key peer)
  ensure (ok = true) SSL_AD_ILLEGAL_PARAMETER
  return candidate

/-- The destructor. -/
def destroy : Act (Char2Members ι × Contexts ι) Unit := do
  let (share, _) ← get
  match share.key, share.callbacks with
  | none, _ => return
  | some key, some callbacks => provider (freeContext callbacks key)
  | some _, none => liftM (.error .panic : Res Unit)

end Char2KeyShare

/-- What the constructor has loaded is `callbacks`. -/
def Char2KeyShare (callbacks : Option ι) (compressed : Bool) (memory : Contexts ι) :
    Share (Option Nat) (Option Nat) (Char2Members ι × Contexts ι) :=
  twoWay ({ callbacks := callbacks, compressed := compressed }, memory) (Char2KeyShare.Generate ec)
    (Char2KeyShare.Decap ec)

end

/-! ## Points and their encodings -/

section
variable {P : Type} [AddCommGroup P]

/-- In a subgroup of prime order no proper multiple of a point vanishes. -/
theorem nsmul_ne_zero_of_prime {n d : Nat} (hn : n.Prime) {Q : P} (hQ : Q ≠ 0) (hnQ : n • Q = 0)
    (hd : 0 < d) (hlt : d < n) : d • Q ≠ 0 := by
  have : Fact n.Prime := ⟨hn⟩
  have horder : addOrderOf Q = n := addOrderOf_eq_prime hnQ hQ
  exact nsmul_ne_zero_of_lt_addOrderOf (by omega) (by omega)

/-- A point that a peer may send. -/
def EC.InSubgroup (ec : EC P) (Q : P) : Prop := Q ≠ 0 ∧ ec.order • Q = 0

/-- What the calls of OpenSSL give, where a point other than the neutral one has the coordinates
`x` and `y`.  The point with `x = 0` has order two. -/
structure EC.Lawful (ec : EC P) (x y : P → Bytes) : Prop where
  order_prime : ec.order.Prime
  order_odd : 2 < ec.order
  generator : ec.InSubgroup ec.generator
  checkKey : ∀ d Q, ec.checkKey d Q = true → 0 < d ∧ d < ec.order
  x_length : ∀ Q, (x Q).length = 36
  y_length : ∀ Q, (y Q).length = 36
  x_lt : ∀ Q, beValue (x Q) < 2 ^ 283
  y_lt : ∀ Q, beValue (y Q) < 2 ^ 283
  x_neg : ∀ Q, x (-Q) = x Q
  x_zero : ∀ Q, Q ≠ 0 → x Q = List.replicate 36 0 → 2 • Q = 0
  compressed : ∀ Q, Q ≠ 0 → ∃ lead, (lead = 2 ∨ lead = 3) ∧ ec.point2oct true Q = lead :: x Q
  uncompressed : ∀ Q, Q ≠ 0 → ec.point2oct false Q = 4 :: (x Q ++ y Q)
  oct2point : ∀ c Q, Q ≠ 0 → ec.oct2point (ec.point2oct c Q) = some Q
  onCurve : ∀ Q, ec.isOnCurve Q = true
  computeKey : ∀ Q d, d • Q ≠ 0 → ec.computeKey Q d = some (x (d • Q))
  computeKey_zero : ∀ Q d, d • Q = 0 → ec.computeKey Q d = none

variable {ec : EC P} {x y : P → Bytes}

theorem top_bits {b : Bytes} (hlen : b.length = 36) (hlt : beValue b < 2 ^ 283) :
    b.getD 0 0 &&& 0xf8 = 0 := by
  cases b with
  | nil => simp at hlen
  | cons c b =>
    show c &&& 0xf8 = 0
    have hb : b.length = 35 := by simpa using hlen
    have hc : c.toNat < 8 := by
      by_contra hge
      rw [beValue, hb] at hlt
      have : 8 * 256 ^ 35 ≤ c.toNat * 256 ^ 35 := Nat.mul_le_mul_right _ (by omega)
      omega
    apply UInt8.toNat_inj.1
    have hsmall : ∀ n < 8, n &&& 248 = 0 := by decide
    rw [UInt8.toNat_and]
    exact hsmall _ hc

variable (hec : ec.Lawful x y)
include hec

theorem EC.Lawful.compressed_form {Q : P} (hQ : Q ≠ 0) :
    compressedForm (ec.point2oct true Q) ∧ (ec.point2oct true Q).getD 1 0 &&& 0xf8 = 0 := by
  obtain ⟨lead, hlead, heq⟩ := hec.compressed Q hQ
  have hlen := hec.x_length Q
  rw [heq]
  refine ⟨⟨by simp [hlen], ?_⟩, top_bits hlen (hec.x_lt Q)⟩
  rcases hlead with rfl | rfl
  · exact .inl rfl
  · exact .inr rfl

theorem EC.Lawful.uncompressed_form {Q : P} (hQ : Q ≠ 0) :
    uncompressedForm (ec.point2oct false Q) ∧ (ec.point2oct false Q).getD 1 0 &&& 0xf8 = 0 ∧
      (ec.point2oct false Q).getD 37 0 &&& 0xf8 = 0 := by
  have hx := hec.x_length Q
  have hy := hec.y_length Q
  rw [hec.uncompressed Q hQ]
  refine ⟨⟨by simp [hx, hy], rfl⟩, ?_, ?_⟩
  · have := top_bits hx (hec.x_lt Q)
    rwa [List.getD_cons_succ, List.getD_append _ _ _ _ (by omega)]
  · have := top_bits hy (hec.y_lt Q)
    rwa [List.getD_cons_succ, List.getD_append_right _ _ _ _ (by omega), hx]

theorem EC.Lawful.x_ne_zero {Q : P} (hQ : ec.InSubgroup Q) : x Q ≠ List.replicate 36 0 := by
  intro h
  exact nsmul_ne_zero_of_prime hec.order_prime hQ.1 hQ.2 (by decide) hec.order_odd
    (hec.x_zero Q hQ.1 h)

theorem EC.Lawful.inSubgroup_nsmul {Q : P} (hQ : ec.InSubgroup Q) {d : Nat} (hd : 0 < d)
    (hlt : d < ec.order) : ec.InSubgroup (d • Q) := by
  refine ⟨nsmul_ne_zero_of_prime hec.order_prime hQ.1 hQ.2 hd hlt, ?_⟩
  rw [nsmul_left_comm, hQ.2, smul_zero]

variable [DecidableEq P]

/-- The provider's checks leave the encodings of the subgroup's points, and the last two of them
never fail. -/
theorem derivedSecret_iff {d : Nat} (hd : 0 < d) (hlt : d < ec.order) (encoded secret : Bytes) :
    derivedSecret ec d encoded = some secret ↔
      ∃ c Q, ec.InSubgroup Q ∧ encoded = ec.point2oct c Q ∧ secret = x (d • Q) := by
  simp only [derivedSecret, Option.bind_eq_bind, Option.bind_eq_some_iff, Option.guard_eq_some']
  constructor
  · rintro ⟨-, -, -, -, -, -, Q, -, -, hQ, -, -, -, hcanonical, -, hsubgroup, secret', hcompute, -, -, -,
      -, heq⟩
    obtain rfl := Option.some.inj heq
    have hmul := (hec.inSubgroup_nsmul ⟨hQ, hsubgroup⟩ hd hlt).1
    rw [hec.computeKey Q d hmul] at hcompute
    exact ⟨_, Q, ⟨hQ, hsubgroup⟩, hcanonical.symm, (Option.some.inj hcompute).symm⟩
  · rintro ⟨c, Q, hQ, rfl, rfl⟩
    have hmul := hec.inSubgroup_nsmul hQ hd hlt
    have hsecret : List.foldl (· ||| ·) 0 (x (d • Q)) ≠ 0 := by
      intro h
      have := ((foldl_or_eq_zero_iff _ _).1 h).2
      rw [hec.x_length] at this
      exact hec.x_ne_zero hmul this
    have hrest : ∃ secret', ec.computeKey Q d = some secret' ∧ ∃ u, secret'.length = 36 ∧
        ∃ u, List.foldl (· ||| ·) 0 secret' ≠ 0 ∧ some secret' = some (x (d • Q)) :=
      ⟨_, hec.computeKey Q d hmul.1, (), hec.x_length _, (), hsecret, rfl⟩
    cases c with
    | true =>
      obtain ⟨hform, htop⟩ := hec.compressed_form hQ.1
      refine ⟨(), .inl hform, (), htop, (), fun h => ?_, Q, hec.oct2point true Q hQ.1, (), hQ.1, (),
        hec.onCurve Q, (), ?_, (), hQ.2, hrest⟩
      · have := hform.1
        omega
      · rw [hform.1, decide_eq_true rfl]
    | false =>
      obtain ⟨hform, htop, htop'⟩ := hec.uncompressed_form hQ.1
      refine ⟨(), .inr hform, (), htop, (), fun _ => htop', Q, hec.oct2point false Q hQ.1, (), hQ.1,
        (), hec.onCurve Q, (), ?_, (), hQ.2, hrest⟩
      rw [hform.1]
      rfl

/-- The secret of a point, in whichever form it comes. -/
theorem bridgeChar2Derive_ok {d : Nat} (hd : 0 < d) (hlt : d < ec.order) (c : Bool) {Q : P}
    (hQ : ec.InSubgroup Q) : bridgeChar2Derive ec d (ec.point2oct c Q) = (true, x (d • Q)) := by
  unfold bridgeChar2Derive
  rw [(derivedSecret_iff hec hd hlt _ _).2 ⟨c, Q, hQ, rfl, rfl⟩]

end

/-! ## The key share -/

section
variable {P : Type} [AddCommGroup P] [DecidableEq P] {ec : EC P} {x y : P → Bytes}
  {ι : Type} [DecidableEq ι]

namespace Char2KeyShare

/-- The share has the private key `d`. -/
def Holds (s : Char2Members ι × Contexts ι) (d : Nat) : Prop :=
  ∃ callbacks key, s.1.callbacks = some callbacks ∧ s.1.key = some key ∧
    s.2[key]? = some (some (callbacks, d))

omit [DecidableEq ι] in
theorem provider_ok_iff {α : Type} (r : Act (Contexts ι) α) (a : α)
    (s s' : Char2Members ι × Contexts ι) :
    provider r s = .ok a s' ↔ ∃ memory, r s.2 = .ok a memory ∧ s' = (s.1, memory) :=
  Act.zoom_ok_iff _ _ _ _ _ _

theorem heldContext_of {callbacks : ι} {key d : Nat} {memory : Contexts ι}
    (h : memory[key]? = some (some (callbacks, d))) : heldContext callbacks key memory = .ok d := by
  unfold heldContext
  rw [h]
  exact if_pos rfl

theorem deriveContext_of_held {callbacks : ι} {key d : Nat} {memory : Contexts ι} (peer : Bytes)
    (h : memory[key]? = some (some (callbacks, d))) :
    deriveContext ec callbacks key peer memory = .ok (bridgeChar2Derive ec d peer) memory := by
  unfold deriveContext
  rw [Act.get_bind, heldContext_of h]
  rfl

variable (ec) in
/-- A share that has a key answers for itself. -/
theorem decap_eq {s : Char2Members ι × Contexts ι} {d : Nat} (hs : Holds s d) (peer : Bytes) :
    Decap ec peer s =
      if (uncompressedForm peer ∨ s.1.compressed = true ∧ compressedForm peer) ∧
          (bridgeChar2Derive ec d peer).1 = true then .ok (bridgeChar2Derive ec d peer).2 s
      else .error (.err SSL_AD_ILLEGAL_PARAMETER) s := by
  obtain ⟨⟨_, compressed, _⟩, memory⟩ := s
  obtain ⟨callbacks, key, rfl, rfl, hheld⟩ := hs
  have hderive : provider (deriveContext ec callbacks key peer)
      (⟨some callbacks, compressed, some key⟩, memory) =
        .ok (bridgeChar2Derive ec d peer) (⟨some callbacks, compressed, some key⟩, memory) :=
    (provider_ok_iff _ _ _ _).2 ⟨memory, deriveContext_of_held peer hheld, rfl⟩
  show ((liftM (ensure (uncompressedForm peer ∨ compressed = true ∧ compressedForm peer)
    SSL_AD_ILLEGAL_PARAMETER) : Act _ Unit) >>= fun _ =>
      provider (deriveContext ec callbacks key peer) >>= fun r =>
        (liftM (ensure (r.1 = true) SSL_AD_ILLEGAL_PARAMETER) : Act _ Unit) >>= fun _ => pure r.2) _ = _
  by_cases hform : uncompressedForm peer ∨ compressed = true ∧ compressedForm peer
  · by_cases hok : (bridgeChar2Derive ec d peer).1 = true
    · rw [if_pos ⟨hform, hok⟩]
      refine (Act.liftM_bind_ok_iff _ _ _ _ _).2 ⟨(), (Res.ensure_ok_iff _ _ _).2 hform, ?_⟩
      refine (Act.bind_ok_iff _ _ _ _ _).2 ⟨_, _, hderive, ?_⟩
      exact (Act.liftM_bind_ok_iff _ _ _ _ _).2 ⟨(), (Res.ensure_ok_iff _ _ _).2 hok, rfl⟩
    · rw [if_neg fun h => hok h.2]
      refine (Act.liftM_bind_error_iff _ _ _ _ _).2 (.inr ⟨(), (Res.ensure_ok_iff _ _ _).2 hform, ?_⟩)
      refine (Act.bind_error_iff _ _ _ _ _).2 (.inr ⟨_, _, hderive, ?_⟩)
      exact (Act.liftM_bind_error_iff _ _ _ _ _).2
        (.inl ⟨(Res.ensure_error_iff _ _ _).2 ⟨hok, rfl⟩, rfl⟩)
  · rw [if_neg fun h => hform h.1]
    exact (Act.liftM_bind_error_iff _ _ _ _ _).2
      (.inl ⟨(Res.ensure_error_iff _ _ _).2 ⟨hform, rfl⟩, rfl⟩)

/-- A point in a form that the share has agreed to read. -/
def Accepted (ec : EC P) (compressed : Bool) (peer : Bytes) : Prop :=
  ∃ c Q, (c = true → compressed = true) ∧ ec.InSubgroup Q ∧ peer = ec.point2oct c Q

variable (ec) in
omit [DecidableEq P] [DecidableEq ι] in
/-- A call of `Generate` changes nothing, or makes a context behind the others. -/
theorem generate_cases (draw : Option Nat) (s : Char2Members ι × Contexts ι) :
    (∃ msg, Generate ec draw s = .error (.err msg) s) ∨
    ∃ callbacks d, s.1.callbacks = some callbacks ∧ s.1.key = none ∧
      ec.checkKey d (d • ec.generator) = true ∧
      Generate ec draw s = .ok (ec.point2oct false (d • ec.generator))
        ({ s.1 with key := some s.2.length }, s.2 ++ [some (callbacks, d)]) := by
  obtain ⟨⟨callbacks, compressed, key⟩, memory⟩ := s
  cases callbacks with
  | none => exact .inl ⟨_, rfl⟩
  | some callbacks =>
    cases key with
    | some key => exact .inl ⟨_, rfl⟩
    | none =>
      have hcall : Generate ec draw (⟨some callbacks, compressed, none⟩, memory) =
          (provider (generateContext ec callbacks draw) >>= fun made =>
            modify (fun s => ({ s.1 with key := made.map Prod.fst }, s.2)) >>= fun _ =>
              (liftM (okOr made SSL_AD_INTERNAL_ERROR) : Act _ _) >>= fun r => pure r.2)
            (⟨some callbacks, compressed, none⟩, memory) := rfl
      rw [hcall]
      cases hgen : bridgeChar2Generate ec draw with
      | none =>
        refine .inl ⟨SSL_AD_INTERNAL_ERROR, ?_⟩
        have hmade : generateContext ec callbacks draw memory = .ok none memory := by
          rw [generateContext, Act.get_bind, hgen]
          rfl
        refine (Act.bind_error_iff _ _ _ _ _).2 (.inr ⟨_, _, (provider_ok_iff _ none
          (⟨some callbacks, compressed, none⟩, memory) _).2 ⟨memory, hmade, rfl⟩, rfl⟩)
      | some r =>
        have hmade : generateContext ec callbacks draw memory =
            .ok (some (memory.length, r.2)) (memory ++ [some (callbacks, r.1)]) := by
          rw [generateContext, Act.get_bind, hgen]
          rfl
        have hpair := hgen
        simp only [bridgeChar2Generate, Option.bind_eq_bind, Option.bind_eq_some_iff,
          Option.guard_eq_some'] at hpair
        obtain ⟨d, -, -, hcheck, -, -, -, -, heq⟩ := hpair
        obtain rfl := Option.some.inj heq
        refine .inr ⟨callbacks, d, rfl, rfl, hcheck, ?_⟩
        exact (Act.bind_ok_iff _ _ _ _ _).2 ⟨_, _, (provider_ok_iff _ _
          (⟨some callbacks, compressed, none⟩, memory) _).2 ⟨_, hmade, rfl⟩, rfl⟩

omit [DecidableEq P] [DecidableEq ι] in
theorem generate_ok {draw : Option Nat} {s k : Char2Members ι × Contexts ι} {pub : Bytes}
    (h : Generate ec draw s = .ok pub k) :
    ∃ callbacks d, s.1.callbacks = some callbacks ∧
      ec.checkKey d (d • ec.generator) = true ∧ pub = ec.point2oct false (d • ec.generator) ∧
      k = ({ s.1 with key := some s.2.length }, s.2 ++ [some (callbacks, d)]) := by
  rcases generate_cases ec draw s with ⟨msg, herr⟩ | ⟨callbacks, d, hcallbacks, -, hcheck, hok⟩
  · rw [herr] at h
    cases h
  · rw [hok] at h
    obtain ⟨rfl, rfl⟩ := EStateM.Result.ok.inj h
    exact ⟨callbacks, d, hcallbacks, hcheck, rfl, rfl⟩

variable (hec : ec.Lawful x y)
include hec

theorem decap_ok {s : Char2Members ι × Contexts ι} {d : Nat} (hs : Holds s d) (hd : 0 < d)
    (hlt : d < ec.order) {c : Bool} (hc : c = true → s.1.compressed = true) {Q : P}
    (hQ : ec.InSubgroup Q) : Decap ec (ec.point2oct c Q) s = .ok (x (d • Q)) s := by
  have hform : uncompressedForm (ec.point2oct c Q) ∨
      s.1.compressed = true ∧ compressedForm (ec.point2oct c Q) := by
    cases c with
    | true => exact .inr ⟨hc rfl, (hec.compressed_form hQ.1).1⟩
    | false => exact .inl (hec.uncompressed_form hQ.1).1
  have hderive := bridgeChar2Derive_ok hec hd hlt c hQ
  rw [decap_eq ec hs, hderive, if_pos ⟨hform, rfl⟩]

theorem decap_illegal_iff {s : Char2Members ι × Contexts ι} {d : Nat} (hs : Holds s d) (hd : 0 < d)
    (hlt : d < ec.order) (peer : Bytes) :
    Decap ec peer s = .error (.err SSL_AD_ILLEGAL_PARAMETER) s ↔
      ¬ Accepted ec s.1.compressed peer := by
  constructor
  · rintro h ⟨c, Q, hc, hQ, rfl⟩
    rw [decap_ok hec hs hd hlt hc hQ] at h
    cases h
  · intro hnot
    rw [decap_eq ec hs, if_neg]
    rintro ⟨hform, hok⟩
    unfold bridgeChar2Derive at hok
    cases hsecret : derivedSecret ec d peer with
    | none =>
      rw [hsecret] at hok
      cases hok
    | some secret =>
      obtain ⟨c, Q, hQ, rfl, -⟩ := (derivedSecret_iff hec hd hlt _ _).1 hsecret
      refine hnot ⟨c, Q, fun hc => ?_, hQ, rfl⟩
      subst hc
      rcases hform with hform | ⟨hcompressed, -⟩
      · have := hform.1
        have := (hec.compressed_form hQ.1).1.1
        omega
      · exact hcompressed

omit [DecidableEq P] [DecidableEq ι] in
/-- What has come of a call of `Generate`. -/
theorem generate_holds {draw : Option Nat} {s k : Char2Members ι × Contexts ι} {pub : Bytes}
    (h : Generate ec draw s = .ok pub k) :
    ∃ d, 0 < d ∧ d < ec.order ∧ Holds k d ∧ k.1.compressed = s.1.compressed ∧
      ec.InSubgroup (d • ec.generator) ∧ pub = ec.point2oct false (d • ec.generator) := by
  obtain ⟨callbacks, d, hcallbacks, hcheck, hpub, rfl⟩ := generate_ok h
  obtain ⟨hd, hlt⟩ := hec.checkKey _ _ hcheck
  refine ⟨d, hd, hlt, ⟨callbacks, s.2.length, hcallbacks, rfl, ?_⟩, rfl,
    hec.inSubgroup_nsmul hec.generator hd hlt, hpub⟩
  exact List.getElem?_concat_length

end Char2KeyShare

open Char2KeyShare in
/-- **One encoding for each point.**  A share that has made its key agrees with every other one.  It
answers a peer with `illegal_parameter` exactly if what it sends is not the encoding of a point of
the subgroup of prime order, compressed only if this was agreed to.  Else the secret is never zero
and neither depends on the form of the point nor on its sign. -/
theorem char2_agrees (hec : ec.Lawful x y) {callbacks : Option ι} {compressed : Bool}
    {memory : Contexts ι} {draw : Option Nat} {pub : Bytes} {k : Char2Members ι × Contexts ι}
    (hgen : (Char2KeyShare ec callbacks compressed memory).generate draw
      (Char2KeyShare ec callbacks compressed memory).fresh = .ok pub k) :
    (∀ (callbacks' : Option ι) compressed' memory' draw',
      Agree (Char2KeyShare ec callbacks compressed memory)
        (Char2KeyShare ec callbacks' compressed' memory') draw draw') ∧
    (∀ peer, (Char2KeyShare ec callbacks compressed memory).decap peer k =
        .error (.err SSL_AD_ILLEGAL_PARAMETER) k ↔
      ¬ ∃ c Q, (c = true → compressed = true) ∧ ec.InSubgroup Q ∧ peer = ec.point2oct c Q) ∧
    ∀ Q, ec.InSubgroup Q → ∃ secret, secret.length = 36 ∧ secret ≠ List.replicate 36 0 ∧
      ∀ c, (c = true → compressed = true) →
        (Char2KeyShare ec callbacks compressed memory).decap (ec.point2oct c Q) k = .ok secret k ∧
        (Char2KeyShare ec callbacks compressed memory).decap (ec.point2oct c (-Q)) k =
          .ok secret k := by
  obtain ⟨d, hd, hlt, hk, hcompressed, -, -⟩ := generate_holds hec hgen
  have hcompressed : k.1.compressed = compressed := hcompressed
  refine ⟨fun callbacks' compressed' memory' draw' => ?_, fun peer => ?_, fun Q hQ => ?_⟩
  · refine twoWay_agree fun pub₁ k₁ pub₂ k₂ secret k₃ h₁ h₂ h => ?_
    obtain ⟨d₁, hd₁, hlt₁, hk₁, -, hQ₁, rfl⟩ := generate_holds hec h₁
    obtain ⟨d₂, hd₂, hlt₂, hk₂, -, hQ₂, rfl⟩ := generate_holds hec h₂
    have hno : ∀ {b : Bool}, false = true → b = true := fun h => absurd h Bool.false_ne_true
    rw [decap_ok hec hk₂ hd₂ hlt₂ hno hQ₁] at h
    obtain ⟨rfl, -⟩ := EStateM.Result.ok.inj h
    refine ⟨k₁, ?_⟩
    rw [decap_ok hec hk₁ hd₁ hlt₁ hno hQ₂, nsmul_left_comm]
  · have h := decap_illegal_iff hec hk hd hlt peer
    rw [hcompressed] at h
    exact h
  · have hneg : ec.InSubgroup (-Q) := ⟨neg_ne_zero.2 hQ.1, by rw [smul_neg, hQ.2, neg_zero]⟩
    refine ⟨x (d • Q), hec.x_length _, hec.x_ne_zero (hec.inSubgroup_nsmul hQ hd hlt), fun c hc => ?_⟩
    have hc' : c = true → k.1.compressed = true := fun h => hcompressed ▸ hc h
    have h := decap_ok hec hk hd hlt hc' hneg
    rw [smul_neg, hec.x_neg] at h
    exact ⟨decap_ok hec hk hd hlt hc' hQ, h⟩

end

/-- A group of order six in place of the curve: 3 has order two, 2 and 4 have order three. -/
def sampleX (Q : ZMod 6) : Bytes :=
  List.replicate 35 0 ++ [if Q.val = 3 then 0 else UInt8.ofNat (min Q.val (6 - Q.val))]

def sampleY (Q : ZMod 6) : Bytes := List.replicate 35 0 ++ [UInt8.ofNat Q.val]

def samplePoint2oct (compressed : Bool) (Q : ZMod 6) : Bytes :=
  if compressed then (if Q.val < 4 then 2 else 3) :: sampleX Q else 4 :: (sampleX Q ++ sampleY Q)

def sampleCurveGroup : EC (ZMod 6) where
  degree := 283
  order := 3
  generator := 2
  checkKey d Q := 0 < d && d < 3 && Q == d • (2 : ZMod 6)
  point2oct := samplePoint2oct
  oct2point b := [1, 2, 3, 4, 5].find? fun Q => b == samplePoint2oct true Q || b == samplePoint2oct false Q
  isOnCurve _ := true
  computeKey Q d := if d • Q = 0 then none else some (sampleX (d • Q))

theorem sampleCurveGroup_lawful : sampleCurveGroup.Lawful sampleX sampleY where
  order_prime := Nat.prime_three
  order_odd := by decide
  generator := ⟨by decide +kernel, by decide +kernel⟩
  checkKey d Q h := by simp [sampleCurveGroup] at h; exact h.1
  x_length Q := by simp [sampleX]
  y_length Q := by simp [sampleY]
  x_lt := by decide +kernel
  y_lt := by decide +kernel
  x_neg := by decide +kernel
  x_zero := by decide +kernel
  compressed Q _ := ⟨_, by split <;> simp, rfl⟩
  uncompressed Q _ := rfl
  oct2point := by decide +kernel
  onCurve Q := rfl
  computeKey Q d h := if_neg h
  computeKey_zero Q d h := if_pos h

/-- The point 4 and its negative, in both forms. -/
theorem char2_agrees_sample : ∃ pub k secret,
    (Char2KeyShare sampleCurveGroup (some ()) true []).generate (some 2)
      (Char2KeyShare sampleCurveGroup (some ()) true []).fresh = .ok pub k ∧
    (∀ c, (Char2KeyShare sampleCurveGroup (some ()) true []).decap (samplePoint2oct c 4) k =
        .ok secret k ∧
      (Char2KeyShare sampleCurveGroup (some ()) true []).decap (samplePoint2oct c 2) k =
        .ok secret k) ∧
    (Char2KeyShare sampleCurveGroup (some ()) true []).decap (samplePoint2oct true 3) k =
      .error (.err SSL_AD_ILLEGAL_PARAMETER) k := by
  have hgen : (Char2KeyShare sampleCurveGroup (some ()) true []).generate (some 2)
      (Char2KeyShare sampleCurveGroup (some ()) true []).fresh =
        .ok (samplePoint2oct false 4) (⟨some (), true, some 0⟩, [some ((), 2)]) := by
    rfl
  obtain ⟨-, hillegal, hsecret⟩ := char2_agrees sampleCurveGroup_lawful hgen
  obtain ⟨secret, -, -, hboth⟩ := hsecret 4 ⟨by decide, by decide +kernel⟩
  refine ⟨_, _, secret, hgen, fun c => hboth c fun _ => rfl, (hillegal _).2 ?_⟩
  have hnone : ∀ c (Q : ZMod 6), Q ≠ 0 → 3 • Q = 0 → samplePoint2oct true 3 ≠ samplePoint2oct c Q := by
    decide +kernel
  rintro ⟨c, Q, -, ⟨hQ, hsubgroup⟩, heq⟩
  exact hnone c Q hQ hsubgroup heq

end Ssl
