import FingerprintBridge.Lib.Action

/-!
# The dynamic table (RFC 7541 §2.3.2, §4)

A first-in, first-out list of headers, newest first, whose total size never
exceeds the current maximum.  Insertion and resizing both keep the longest
newest-first prefix that fits (`fit`): §4.3 and §4.4 evict from the end until
the rest fits, and an entry larger than the maximum leaves the table empty.
-/

abbrev Header := Bytes × Bytes

namespace Hpack

/-- §4.1. -/
def headerSize (h : Header) : Nat := h.1.length + h.2.length + 32

def tableSize : List Header → Nat
  | [] => 0
  | h :: es => headerSize h + tableSize es

/-- The longest prefix of total size at most `max`. -/
def fit : (max : Nat) → List Header → List Header
  | _, [] => []
  | max, h :: es => if headerSize h ≤ max then h :: fit (max - headerSize h) es else []

theorem tableSize_append (es fs : List Header) :
    tableSize (es ++ fs) = tableSize es + tableSize fs := by
  induction es with
  | nil => simp [tableSize]
  | cons h es ih => simp only [List.cons_append, tableSize, ih]; omega

theorem tableSize_fit_le (es : List Header) : ∀ max, tableSize (fit max es) ≤ max := by
  induction es with
  | nil => intro max; simp [fit, tableSize]
  | cons h es ih =>
    intro max
    unfold fit
    split
    · have := ih (max - headerSize h)
      simp only [tableSize]
      omega
    · simp [tableSize]

theorem fit_of_le (es : List Header) : ∀ max, tableSize es ≤ max → fit max es = es := by
  induction es with
  | nil => intro max _; rfl
  | cons h es ih =>
    intro max hm
    simp only [tableSize] at hm
    rw [fit, if_pos (by omega), ih _ (by omega)]

/-- **Eviction from the end.**  While the list is too large its last entry can go. -/
theorem fit_dropLast (es : List Header) (h : Header) (max : Nat)
    (hm : max < tableSize (es ++ [h])) : fit max (es ++ [h]) = fit max es := by
  induction es generalizing max with
  | nil =>
    simp only [List.nil_append, tableSize] at hm
    simp only [List.nil_append, fit]
    rw [if_neg (by omega)]
  | cons g es ih =>
    simp only [List.cons_append, tableSize] at hm
    simp only [List.cons_append, fit]
    split
    · rw [ih _ (by omega)]
    · rfl

/-! ## The table -/

structure DynamicTable where
  entries : List Header
  max : Nat
  fits : tableSize entries ≤ max

namespace DynamicTable

/-- Both ends start with an empty table of 4096 octets. -/
def init : DynamicTable := ⟨[], 4096, by simp [tableSize]⟩

/-- §4.4. -/
def insert (t : DynamicTable) (h : Header) : DynamicTable :=
  ⟨fit t.max (h :: t.entries), t.max, tableSize_fit_le _ _⟩

/-- §4.3. -/
def resize (t : DynamicTable) (n : Nat) : DynamicTable :=
  ⟨fit n t.entries, n, tableSize_fit_le _ _⟩

end DynamicTable

end Hpack
