import FingerprintBridge.Lib.Parser
import Mathlib.Data.Nat.Bitwise

/-!
# Prefix codes over bits, packed into octets

`toBits w n` is the low `w` bits of `n`, most significant first.  A `PrefixCode`
assigns a bit string to every symbol so that no code is a prefix of another and
no code is a run of fewer than eight ones; a message is then the concatenation
of its codes, filled up to whole octets with ones (`decode_of_bits`).
-/

/-! ## Bits of a number -/

def toBits : (w n : Nat) → List Bool
  | 0, _ => []
  | w + 1, n => n.testBit w :: toBits w n

@[simp] theorem toBits_length (w n : Nat) : (toBits w n).length = w := by
  induction w with
  | zero => rfl
  | succ w ih => simp [toBits, ih]

/-- High bits, then low bits. -/
theorem toBits_add (a b n : Nat) : toBits (a + b) n = toBits a (n >>> b) ++ toBits b n := by
  induction a with
  | zero => simp [toBits]
  | succ a ih =>
    rw [Nat.add_right_comm, toBits, toBits, ih, Nat.testBit_shiftRight, Nat.add_comm b a]
    rfl

/-- Only the low `w` bits count. -/
theorem toBits_congr (w n m : Nat) (h : ∀ i, i < w → n.testBit i = m.testBit i) :
    toBits w n = toBits w m := by
  induction w with
  | zero => rfl
  | succ w ih => rw [toBits, toBits, h w (by omega), ih fun i hi => h i (by omega)]

theorem toBits_mod (w k n : Nat) (h : w ≤ k) : toBits w (n % 2 ^ k) = toBits w n := by
  apply toBits_congr
  intro i hi
  rw [Nat.testBit_mod_two_pow, decide_eq_true (by omega : i < k), Bool.true_and]

/-- Appending a `w`-bit code below the bits of `n`. -/
theorem toBits_shiftLeft_or (b w n c : Nat) (hc : c < 2 ^ w) :
    toBits (b + w) (n <<< w ||| c) = toBits b n ++ toBits w c := by
  rw [toBits_add]
  congr 1
  · apply toBits_congr
    intro i _
    rw [Nat.testBit_shiftRight, Nat.testBit_or, Nat.testBit_shiftLeft]
    rw [Nat.testBit_lt_two_pow (Nat.lt_of_lt_of_le hc (Nat.pow_le_pow_right (by omega) (by omega)))]
    simp
  · apply toBits_congr
    intro i hi
    rw [Nat.testBit_or, Nat.testBit_shiftLeft, decide_eq_false (by omega : ¬ i ≥ w), Bool.false_and,
      Bool.false_or]

theorem toBits_ones (w : Nat) : toBits w (2 ^ w - 1) = List.replicate w true := by
  have key : ∀ k, k ≤ w → toBits k (2 ^ w - 1) = List.replicate k true := by
    intro k
    induction k with
    | zero => intro _; rfl
    | succ k ih =>
      intro hk
      rw [toBits, Nat.testBit_two_pow_sub_one, decide_eq_true (by omega : k < w), ih (by omega),
        List.replicate_succ]
  exact key w (Nat.le_refl w)

theorem toBits_inj (w n m : Nat) (hn : n < 2 ^ w) (hm : m < 2 ^ w)
    (h : toBits w n = toBits w m) : n = m := by
  induction w generalizing n m with
  | zero => simp at hn hm; omega
  | succ w ih =>
    simp only [toBits, List.cons.injEq] at h
    apply Nat.eq_of_testBit_eq
    intro i
    rcases Nat.lt_trichotomy i w with hi | hi | hi
    · have hmod : n % 2 ^ w = m % 2 ^ w := by
        apply ih _ _ (Nat.mod_lt _ (Nat.two_pow_pos w)) (Nat.mod_lt _ (Nat.two_pow_pos w))
        rw [toBits_mod w w n (Nat.le_refl w), toBits_mod w w m (Nat.le_refl w)]
        exact h.2
      have := congrArg (fun x => x.testBit i) hmod
      simpa [Nat.testBit_mod_two_pow, hi] using this
    · subst hi
      exact h.1
    · have hp : 2 ^ (w + 1) ≤ 2 ^ i := Nat.pow_le_pow_right (by omega) (by omega)
      rw [Nat.testBit_lt_two_pow (by omega), Nat.testBit_lt_two_pow (by omega)]

/-- A `w`-bit number whose bits start a `v`-bit number is that number shifted. -/
theorem toBits_prefix (w n v m : Nat) (hn : n < 2 ^ w) (hm : m < 2 ^ v)
    (h : toBits w n <+: toBits v m) : w ≤ v ∧ m >>> (v - w) = n := by
  have hle : w ≤ v := by have := h.length_le; simpa using this
  refine ⟨hle, ?_⟩
  obtain ⟨d, rfl⟩ : ∃ d, v = w + d := ⟨v - w, by omega⟩
  rw [Nat.add_sub_cancel_left]
  rw [toBits_add] at h
  have he : toBits w n = toBits w (m >>> d) :=
    (List.prefix_of_prefix_length_le h (List.prefix_append _ _) (by simp)).eq_of_length (by simp)
  have hlt : m >>> d < 2 ^ w := by
    rw [Nat.shiftRight_eq_div_pow]
    exact Nat.div_lt_of_lt_mul (by rw [Nat.mul_comm, ← Nat.pow_add]; exact hm)
  exact (toBits_inj w n _ hn hlt he).symm

/-- The bits of an octet string. -/
def octetBits (b : Bytes) : List Bool := b.flatMap fun c => toBits 8 c.toNat

theorem octetBits_append (a b : Bytes) : octetBits (a ++ b) = octetBits a ++ octetBits b := by
  simp [octetBits]

theorem octetBits_singleton (n : Nat) : octetBits [UInt8.ofNat n] = toBits 8 n := by
  simp only [octetBits, List.flatMap_cons, List.flatMap_nil, List.append_nil, UInt8.toNat_ofNat']
  exact toBits_mod 8 8 n (Nat.le_refl 8)

/-! ## Tables of codes and widths -/

/-- The entry's code fits its width, which is not zero. -/
def entryFits (e : Nat × Nat) : Bool := decide (0 < e.2) && decide (e.1 < 2 ^ e.2)

/-- Neither entry's bits start the other's; in `Nat` primitives, for the kernel to run. -/
def entriesApart (d e : Nat × Nat) : Bool :=
  bif Nat.ble d.2 e.2 then !Nat.beq (e.1 >>> (e.2 - d.2)) d.1
  else !Nat.beq (d.1 >>> (d.2 - e.2)) e.1

def tableOk : List (Nat × Nat) → Bool
  | [] => true
  | e :: es => entryFits e && es.all (entriesApart e) && tableOk es

def entryBits (e : Nat × Nat) : List Bool := toBits e.2 e.1

theorem entriesApart_false (d e : Nat × Nat) (hd : entryFits d = true) (he : entryFits e = true)
    (h : entryBits d <+: entryBits e ∨ entryBits e <+: entryBits d) : entriesApart d e = false := by
  simp only [entryFits, Bool.and_eq_true, decide_eq_true_eq] at hd he
  unfold entriesApart
  rcases h with h | h
  · obtain ⟨h1, h2⟩ := toBits_prefix d.2 d.1 e.2 e.1 hd.2 he.2 h
    rw [Nat.ble_eq_true_of_le h1, cond_true, h2, Nat.beq_refl]
    rfl
  · obtain ⟨h1, h2⟩ := toBits_prefix e.2 e.1 d.2 d.1 he.2 hd.2 h
    by_cases hw : d.2 ≤ e.2
    · have hw' : d.2 = e.2 := by omega
      rw [hw', Nat.sub_self, Nat.shiftRight_zero] at h2
      rw [Nat.ble_eq_true_of_le hw, cond_true, hw', Nat.sub_self, Nat.shiftRight_zero, h2, Nat.beq_refl]
      rfl
    · rw [Bool.eq_false_iff.2 (fun hb => hw (Nat.le_of_ble_eq_true hb)), cond_false, h2, Nat.beq_refl]
      rfl

theorem tableOk_fits : ∀ (es : List (Nat × Nat)), tableOk es = true → ∀ e ∈ es, entryFits e = true := by
  intro es
  induction es with
  | nil => intro _ e he; cases he
  | cons d es ih =>
    intro h e he
    simp only [tableOk, Bool.and_eq_true] at h
    rcases List.mem_cons.1 he with rfl | he
    · exact h.1.1
    · exact ih h.2 e he

/-- In a checked table no entry's bits start another's. -/
theorem tableOk_prefixFree (es : List (Nat × Nat)) (h : tableOk es = true) :
    ∀ (i j : Nat) (hi : i < es.length) (hj : j < es.length),
      entryBits es[i] <+: entryBits es[j] → i = j := by
  induction es with
  | nil => intro i j hi; cases hi
  | cons e es ih =>
    have hfit := tableOk_fits _ h
    simp only [tableOk, Bool.and_eq_true, List.all_eq_true] at h
    have hapart : ∀ d ∈ es, ¬ (entryBits e <+: entryBits d ∨ entryBits d <+: entryBits e) := by
      intro d hd hp
      have h1 := entriesApart_false e d (hfit e List.mem_cons_self)
        (hfit d (List.mem_cons_of_mem _ hd)) hp
      rw [h.1.2 d hd] at h1
      cases h1
    intro i j hi hj hp
    cases i with
    | zero =>
      cases j with
      | zero => rfl
      | succ j => exact absurd (Or.inl hp) (hapart _ (List.getElem_mem (Nat.lt_of_succ_lt_succ hj)))
    | succ i =>
      cases j with
      | zero => exact absurd (Or.inr hp) (hapart _ (List.getElem_mem (Nat.lt_of_succ_lt_succ hi)))
      | succ j =>
        have := ih h.2 i j (Nat.lt_of_succ_lt_succ hi) (Nat.lt_of_succ_lt_succ hj) hp
        omega

/-! ## Prefix codes -/

structure PrefixCode (α : Type) where
  symbols : List α
  code : α → List Bool
  code_ne_nil : ∀ a ∈ symbols, code a ≠ []
  prefix_free : ∀ a ∈ symbols, ∀ b ∈ symbols, code a <+: code b → a = b
  not_padding : ∀ a ∈ symbols, ∀ n < 8, ¬ code a <+: List.replicate n true

namespace PrefixCode

variable {α : Type} (C : PrefixCode α)

/-- Read one code. -/
def symbol : Parser Bool α := fun bits =>
  match C.symbols.find? fun a => (C.code a).isPrefixOf bits with
  | some a => some (a, bits.drop (C.code a).length)
  | none => none

/-- Fewer than eight ones. -/
def isPadding (bits : List Bool) : Bool := decide (bits.length < 8) && bits.all id

def decodeFuel : Nat → List Bool → Option (List α)
  | 0, bits => if isPadding bits then some [] else none
  | n + 1, bits =>
    match C.symbol bits with
    | some (a, rest) => (decodeFuel n rest).map (a :: ·)
    | none => if isPadding bits then some [] else none

/-- Read codes from the octets of `b`; what is left over must be padding. -/
def decode (b : Bytes) : Option (List α) := C.decodeFuel (octetBits b).length (octetBits b)

theorem symbol_append (a : α) (ha : a ∈ C.symbols) (rest : List Bool) :
    C.symbol (C.code a ++ rest) = some (a, rest) := by
  unfold symbol
  cases h : C.symbols.find? fun a' => (C.code a').isPrefixOf (C.code a ++ rest) with
  | none =>
    have := List.find?_eq_none.1 h a ha
    simp at this
  | some a' =>
    have hp : (C.code a').isPrefixOf (C.code a ++ rest) = true := by
      have := List.find?_some h
      exact this
    rw [List.isPrefixOf_iff_prefix] at hp
    have hm := List.mem_of_find?_eq_some h
    have : a' = a := by
      rcases List.prefix_or_prefix_of_prefix hp (List.prefix_append _ _) with h1 | h1
      · exact C.prefix_free a' hm a ha h1
      · exact (C.prefix_free a ha a' hm h1).symm
    subst this
    simp

theorem symbol_padding (k : Nat) (hk : k < 8) : C.symbol (List.replicate k true) = none := by
  unfold symbol
  cases h : C.symbols.find? fun a => (C.code a).isPrefixOf (List.replicate k true) with
  | none => rfl
  | some a =>
    have hp : (C.code a).isPrefixOf (List.replicate k true) = true := by
      have := List.find?_some h
      exact this
    rw [List.isPrefixOf_iff_prefix] at hp
    exact absurd hp (C.not_padding a (List.mem_of_find?_eq_some h) k hk)

theorem isPadding_replicate (k : Nat) (hk : k < 8) : isPadding (List.replicate k true) = true := by
  simp [isPadding, hk]

/-- Decoding inverts encoding, with any fuel that covers the bits. -/
theorem decodeFuel_encode (k : Nat) (hk : k < 8) :
    ∀ (v : List α), (∀ a ∈ v, a ∈ C.symbols) → ∀ n, (v.flatMap C.code).length ≤ n →
      C.decodeFuel n (v.flatMap C.code ++ List.replicate k true) = some v := by
  intro v
  induction v with
  | nil =>
    intro _ n _
    rw [List.flatMap_nil, List.nil_append]
    cases n with
    | zero => simp only [decodeFuel, isPadding_replicate k hk, if_true]
    | succ n => simp only [decodeFuel, C.symbol_padding k hk, isPadding_replicate k hk, if_true]
  | cons a v ih =>
    intro hv n hn
    have ha := hv a List.mem_cons_self
    have hpos : 0 < (C.code a).length := List.length_pos_iff.2 (C.code_ne_nil a ha)
    rw [List.flatMap_cons, List.length_append] at hn
    obtain ⟨n, rfl⟩ : ∃ m, n = m + 1 := ⟨n - 1, by omega⟩
    rw [List.flatMap_cons, List.append_assoc]
    simp only [decodeFuel, C.symbol_append a ha]
    rw [ih (fun b hb => hv b (List.mem_cons_of_mem _ hb)) n (by omega)]
    rfl

/-- **Octets whose bits are a message's codes and then padding decode to the message.** -/
theorem decode_of_bits (b : Bytes) (v : List α) (k : Nat) (hk : k < 8)
    (hv : ∀ a ∈ v, a ∈ C.symbols)
    (h : octetBits b = v.flatMap C.code ++ List.replicate k true) : C.decode b = some v := by
  unfold decode
  rw [h]
  exact C.decodeFuel_encode k hk v hv _ (by simp)

end PrefixCode
