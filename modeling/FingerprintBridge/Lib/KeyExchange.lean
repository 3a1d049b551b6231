import FingerprintBridge.Lib.Action
import Mathlib.Data.ZMod.Basic
import Mathlib.FieldTheory.Finite.Basic
import Mathlib.GroupTheory.OrderOfElement
import Mathlib.Tactic.LinearCombination
import Mathlib.Tactic.Ring

/-!
# Key exchange

A `Share` is an object that one end of a key exchange holds: it makes a public key, it
encapsulates a secret to a public key, or it opens what was encapsulated to its own.  Two
ends agree on their coins (`Agree`) if whatever the one encapsulates to the other's public
key the other opens to the same secret.
-/

namespace KeyExchange

/-- Keys are made of coins `ρ`, secrets are encapsulated with coins `ρ'`, and `σ` is what the
object holds. -/
structure Share (ρ ρ' σ : Type) where
  fresh : σ
  generate : ρ → Act σ Bytes
  encap : ρ' → Bytes → Act σ (Bytes × Bytes)
  decap : Bytes → Act σ Bytes

variable {ρ ρ' ρ₁ ρ₁' σ τ : Type}

def Agree (K : Share ρ ρ' σ) (K' : Share ρ₁ ρ₁' τ) (r : ρ) (r' : ρ₁') : Prop :=
  ∀ pub k ct secret k', K.generate r K.fresh = .ok pub k →
    K'.encap r' pub K'.fresh = .ok (ct, secret) k' → ∃ k'', K.decap ct k = .ok secret k''

/-- An exchange in which both ends do the same: to encapsulate is to make a key and to open what
has come with it. -/
def twoWay (fresh : σ) (generate : ρ → Act σ Bytes) (decap : Bytes → Act σ Bytes) : Share ρ ρ σ where
  fresh := fresh
  generate := generate
  encap r peer := do
    let out ← generate r
    let secret ← decap peer
    return (out, secret)
  decap := decap

theorem twoWay_encap_ok {fresh : σ} {generate : ρ → Act σ Bytes} {decap : Bytes → Act σ Bytes} {r : ρ}
    {peer ct secret : Bytes} {k k' : σ} :
    (twoWay fresh generate decap).encap r peer k = .ok (ct, secret) k' ↔
      ∃ k₁, generate r k = .ok ct k₁ ∧ decap peer k₁ = .ok secret k' := by
  show (generate r >>= fun out => decap peer >>= fun secret => pure (out, secret)) k = _ ↔ _
  simp only [Act.bind_ok_iff, Act.pure_ok_iff, Prod.mk.injEq]
  constructor
  · rintro ⟨_, k₁, hg, _, _, hd, ⟨rfl, rfl⟩, rfl⟩
    exact ⟨k₁, hg, hd⟩
  · rintro ⟨k₁, hg, hd⟩
    exact ⟨ct, k₁, hg, secret, k', hd, ⟨rfl, rfl⟩, rfl⟩

/-- Where what the one end makes of the other's key is what the other makes of its own, the ends
agree. -/
theorem twoWay_agree {fresh : σ} {generate : ρ → Act σ Bytes} {decap : Bytes → Act σ Bytes}
    {fresh' : τ} {generate' : ρ₁ → Act τ Bytes} {decap' : Bytes → Act τ Bytes} {r : ρ} {r' : ρ₁}
    (h : ∀ pub k pub' k' secret k₁, generate r fresh = .ok pub k → generate' r' fresh' = .ok pub' k' →
      decap' pub k' = .ok secret k₁ → ∃ k₂, decap pub' k = .ok secret k₂) :
    Agree (twoWay fresh generate decap) (twoWay fresh' generate' decap') r r' := by
  intro pub k ct secret k' hgen hencap
  obtain ⟨k₁, hgen', hdecap⟩ := twoWay_encap_ok.1 hencap
  exact h pub k ct k₁ secret k' hgen hgen' hdecap

/-! ## Powers modulo a prime -/

/-- One of `2, …, p - 2`. -/
def Proper (p y : Nat) : Prop := 1 < y ∧ y < p - 1

instance (p y : Nat) : Decidable (Proper p y) := inferInstanceAs (Decidable (_ ∧ _))

theorem pow_comm_mod (g p a b : Nat) : (g ^ a % p) ^ b % p = (g ^ b % p) ^ a % p := by
  rw [← Nat.pow_mod, ← Nat.pow_mod, ← Nat.pow_mul, ← Nat.pow_mul, Nat.mul_comm]

/-- The powers of `-1`. -/
theorem pred_pow_mod {p : Nat} (hp : 1 < p) (a : Nat) :
    (p - 1) ^ a % p = 1 ∨ (p - 1) ^ a % p = p - 1 := by
  induction a with
  | zero => exact .inl (Nat.mod_eq_of_lt hp)
  | succ a ih =>
    rw [Nat.pow_succ, Nat.mul_mod, Nat.mod_eq_of_lt (by omega : p - 1 < p)]
    rcases ih with h | h
    · right
      rw [h, Nat.one_mul, Nat.mod_eq_of_lt (by omega)]
    · left
      obtain ⟨q, rfl⟩ : ∃ q, p = q + 2 := ⟨p - 2, by omega⟩
      rw [h, show q + 2 - 1 = q + 1 from rfl,
        show (q + 1) * (q + 1) = 1 + (q + 2) * q by ring, Nat.add_mul_mod_self_left]
      exact Nat.mod_eq_of_lt (by omega)

/-- A value with a proper power is proper. -/
theorem Proper.of_pow {p y x : Nat} (hp : 1 < p) (hy : y < p) (h : Proper p (y ^ x % p)) :
    Proper p y := by
  obtain ⟨hlow, hhigh⟩ := h
  constructor
  · by_contra hsmall
    have hpow : y ^ x ≤ 1 := (Nat.pow_le_pow_left (by omega) x).trans (Nat.one_pow x).le
    have := Nat.mod_le (y ^ x) p
    omega
  · by_contra hlarge
    obtain rfl : y = p - 1 := by omega
    rcases pred_pow_mod hp x with h1 | h1
    · omega
    · omega

/-- The others are `0` and the roots of `1`. -/
theorem proper_iff {p y : Nat} (hp : p.Prime) (hy : y < p) :
    Proper p y ↔ (y : ZMod p) ≠ 0 ∧ (y : ZMod p) ^ 2 ≠ 1 := by
  constructor
  · rintro ⟨hlow, hhigh⟩
    refine ⟨fun h0 => ?_, fun h1 => ?_⟩
    · have := Nat.le_of_dvd (by omega) ((ZMod.natCast_eq_zero_iff y p).1 h0)
      omega
    · have hzero : (((y - 1) * (y + 1) : Nat) : ZMod p) = 0 := by
        rw [Nat.cast_mul, Nat.cast_sub hlow.le, Nat.cast_add, Nat.cast_one]
        linear_combination h1
      rcases hp.dvd_mul.1 ((ZMod.natCast_eq_zero_iff _ _).1 hzero) with h | h
      · have := Nat.le_of_dvd (by omega) h
        omega
      · have := Nat.le_of_dvd (by omega) h
        omega
  · rintro ⟨h0, h1⟩
    constructor
    · by_contra hsmall
      rcases Nat.le_one_iff_eq_zero_or_eq_one.1 (not_lt.1 hsmall) with rfl | rfl
      · exact h0 Nat.cast_zero
      · exact h1 (by simp)
    · by_contra hlarge
      obtain rfl : y = p - 1 := by omega
      refine h1 ?_
      rw [Nat.cast_sub hp.one_le, ZMod.natCast_self, Nat.cast_one]
      ring

/-- Modulo a safe prime the powers of a proper value are proper, below the order. -/
theorem Proper.pow {p x y : Nat} (hp : p.Prime) (hq : ((p - 1) / 2).Prime) (hx : 0 < x)
    (hlt : x < (p - 1) / 2) (hy : Proper p y) : Proper p (y ^ x % p) := by
  have : Fact p.Prime := ⟨hp⟩
  have hodd : p - 1 = 2 * ((p - 1) / 2) := by
    obtain ⟨k, hk⟩ := hp.odd_of_ne_two (by have := hq.two_le; omega)
    omega
  obtain ⟨h0, h1⟩ := (proper_iff hp (by have := hy.2; omega)).1 hy
  refine (proper_iff hp (Nat.mod_lt _ hp.pos)).2 ?_
  rw [ZMod.natCast_mod, Nat.cast_pow]
  refine ⟨pow_ne_zero x h0, fun hpow => h1 ?_⟩
  -- the order divides `2 * x` and `2 * ((p - 1) / 2)`, so it divides `2`
  rw [← pow_mul, Nat.mul_comm] at hpow
  have hcoprime : Nat.gcd x ((p - 1) / 2) = 1 := (Nat.coprime_of_lt_prime hx.ne' hlt hq).symm
  have hdvd := Nat.dvd_gcd (orderOf_dvd_of_pow_eq_one hpow)
    (hodd ▸ ZMod.orderOf_dvd_card_sub_one h0)
  rw [Nat.gcd_mul_left, hcoprime] at hdvd
  exact orderOf_dvd_iff_pow_eq_one.1 hdvd

end KeyExchange
