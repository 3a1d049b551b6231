import FingerprintBridge.Lib.Action
import Mathlib.Tactic.Ring

/-!
# Numbers as octets, the highest first
-/

/-- The last `k` octets of a number. -/
def beOctets : Nat → Nat → Bytes
  | 0, _ => []
  | k + 1, n => UInt8.ofNat (n / 256 ^ k) :: beOctets k n

/-- The number that octets stand for. -/
def beValue : Bytes → Nat
  | [] => 0
  | b :: rest => b.toNat * 256 ^ rest.length + beValue rest

@[simp] theorem beOctets_length (k n : Nat) : (beOctets k n).length = k := by
  induction k with
  | zero => rfl
  | succ k ih => rw [beOctets, List.length_cons, ih]

theorem beValue_lt (b : Bytes) : beValue b < 256 ^ b.length := by
  induction b with
  | nil => decide
  | cons b rest ih =>
    have hb := b.toNat_lt
    have hmul : b.toNat * 256 ^ rest.length ≤ 255 * 256 ^ rest.length :=
      Nat.mul_le_mul_right _ (by omega)
    rw [beValue, List.length_cons, Nat.pow_succ]
    omega

theorem beValue_beOctets (k n : Nat) : beValue (beOctets k n) = n % 256 ^ k := by
  induction k with
  | zero => rw [beOctets, beValue, Nat.pow_zero, Nat.mod_one]
  | succ k ih =>
    rw [beOctets, beValue, ih, beOctets_length, UInt8.toNat_ofNat', @Nat.mod_pow_succ n 256 k,
      Nat.add_comm, Nat.mul_comm]

theorem beValue_inj {a b : Bytes} (hlen : a.length = b.length) (h : beValue a = beValue b) : a = b := by
  induction a generalizing b with
  | nil => exact (List.length_eq_zero_iff.1 hlen.symm).symm
  | cons x a ih =>
    cases b with
    | nil => cases hlen
    | cons y b =>
      have hlen' : a.length = b.length := Nat.succ.inj hlen
      have ha := beValue_lt a
      have hb := beValue_lt b
      rw [beValue, beValue, hlen'] at h
      rw [hlen'] at ha
      -- the first octet is the quotient by the weight of its place
      have hpos : 0 < 256 ^ b.length := Nat.pow_pos (by decide)
      have hhead : x.toNat = y.toNat := by
        have := congrArg (· / 256 ^ b.length) h
        simp only [Nat.mul_comm _ (256 ^ b.length), Nat.mul_add_div hpos, Nat.div_eq_of_lt ha,
          Nat.div_eq_of_lt hb] at this
        exact this
      rw [hhead] at h
      rw [UInt8.toNat_inj.1 hhead, ih hlen' (Nat.add_left_cancel h)]

theorem beOctets_beValue (b : Bytes) : beOctets b.length (beValue b) = b := by
  refine beValue_inj (beOctets_length _ _) ?_
  rw [beValue_beOctets, Nat.mod_eq_of_lt (beValue_lt b)]

/-- Octets are all zero if and only if their disjunction is. -/
theorem foldl_or_eq_zero_iff (b : Bytes) (c : UInt8) :
    b.foldl (· ||| ·) c = 0 ↔ c = 0 ∧ b = List.replicate b.length 0 := by
  induction b generalizing c with
  | nil => simp
  | cons d b ih =>
    rw [List.foldl_cons, ih, UInt8.or_eq_zero_iff, List.length_cons, List.replicate_succ,
      List.cons.injEq, and_assoc]
