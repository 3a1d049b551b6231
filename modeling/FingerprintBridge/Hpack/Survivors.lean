import FingerprintBridge.Hpack.DynamicTable

/-!
# What is left in a dynamic table (RFC 7541 §4.3, §4.4)

A table is determined by what was done to it: headers inserted, and new limits.  The newest
`k` headers have `Survived` if at every moment those of them that were there fitted the limit of
that moment; the table holds the most headers for which this is so (`replay_survivors`).

Events are listed with the latest first, as the entries are.
-/

namespace Hpack

inductive TableEvent where
  | insert (h : Header)
  | limit (n : Nat)
deriving DecidableEq, Repr

def inserted : List TableEvent → List Header
  | [] => []
  | .insert h :: events => h :: inserted events
  | .limit _ :: events => inserted events

/-- 4096 until a limit is set. -/
def limitOf : List TableEvent → Nat
  | [] => 4096
  | .insert _ :: events => limitOf events
  | .limit n :: _ => n

/-- After `earlier` those of the newest `k` headers that are in the table fit its limit. -/
structure Survived (events : List TableEvent) (k : Nat) : Prop where
  enough : k ≤ (inserted events).length
  fits : ∀ later earlier, events = later ++ earlier →
    tableSize ((inserted earlier).take (k - (inserted later).length)) ≤ limitOf earlier

/-- The table after the events. -/
def replay : List TableEvent → DynamicTable
  | [] => .init
  | .insert h :: events => (replay events).insert h
  | .limit n :: events => (replay events).resize n

theorem replay_max (events : List TableEvent) : (replay events).max = limitOf events := by
  induction events with
  | nil => rfl
  | cons event events ih =>
    cases event with
    | insert h => exact ih
    | limit n => rfl

/-! ## The longest prefix -/

theorem fit_take (es : List Header) : ∀ max, fit max es = es.take (fit max es).length := by
  induction es with
  | nil => intro max; rfl
  | cons h es ih =>
    intro max
    unfold fit
    by_cases hh : headerSize h ≤ max
    · rw [if_pos hh, List.length_cons, List.take_succ_cons, ← ih]
    · rw [if_neg hh]
      rfl

theorem length_fit_le (max : Nat) (es : List Header) : (fit max es).length ≤ es.length := by
  rw [fit_take es max, List.length_take]
  exact Nat.min_le_right _ _

/-- `fit` keeps the prefixes that are small enough, and only those. -/
theorem le_length_fit_iff (es : List Header) : ∀ (max k : Nat), k ≤ es.length →
    (k ≤ (fit max es).length ↔ tableSize (es.take k) ≤ max) := by
  induction es with
  | nil =>
    intro max k hk
    obtain rfl : k = 0 := by simpa using hk
    exact iff_of_true (Nat.zero_le _) (Nat.zero_le _)
  | cons h es ih =>
    intro max k hk
    cases k with
    | zero => exact iff_of_true (Nat.zero_le _) (Nat.zero_le _)
    | succ k =>
      rw [List.length_cons] at hk
      have hstep := ih (max - headerSize h) k (by omega)
      rw [List.take_succ_cons, tableSize, fit]
      by_cases hh : headerSize h ≤ max
      · rw [if_pos hh, List.length_cons]
        omega
      · rw [if_neg hh, List.length_nil]
        omega

/-! ## Survivors -/

theorem survived_nil (k : Nat) : Survived [] k ↔ k = 0 := by
  constructor
  · intro h
    simpa [inserted] using h.enough
  · rintro rfl
    refine ⟨Nat.le_refl 0, fun later earlier h => ?_⟩
    rw [Nat.zero_sub, List.take_zero]
    exact Nat.zero_le _

/-- The moment after the last event, and the moments before it. -/
theorem survived_cons (event : TableEvent) (events : List TableEvent) (k : Nat) :
    Survived (event :: events) k ↔ k ≤ (inserted (event :: events)).length ∧
      tableSize ((inserted (event :: events)).take k) ≤ limitOf (event :: events) ∧
      Survived events (k - (inserted [event]).length) := by
  have hcons : ∀ l, (inserted (event :: l)).length =
      (inserted [event]).length + (inserted l).length := by
    intro l
    cases event with
    | insert h => simp only [inserted, List.length_cons, List.length_nil]; omega
    | limit n => simp only [inserted, List.length_nil]; omega
  constructor
  · intro h
    have hlast := h.fits [] (event :: events) rfl
    have henough := h.enough
    rw [hcons] at henough
    refine ⟨h.enough, hlast, by omega, fun later earlier he => ?_⟩
    have := h.fits (event :: later) earlier (by rw [he]; rfl)
    rwa [hcons, ← Nat.sub_sub] at this
  · rintro ⟨henough, hlast, h⟩
    refine ⟨henough, fun later earlier he => ?_⟩
    cases later with
    | nil =>
      obtain rfl := he
      exact hlast
    | cons event' later =>
      simp only [List.cons_append, List.cons.injEq] at he
      obtain ⟨rfl, he⟩ := he
      rw [hcons, ← Nat.sub_sub]
      exact h.fits later earlier he

theorem survived_insert (h : Header) (events : List TableEvent) (k : Nat) :
    Survived (.insert h :: events) k ↔ k ≤ (inserted events).length + 1 ∧
      tableSize ((h :: inserted events).take k) ≤ limitOf events ∧ Survived events (k - 1) :=
  survived_cons (.insert h) events k

theorem survived_limit (n : Nat) (events : List TableEvent) (k : Nat) :
    Survived (.limit n :: events) k ↔
      tableSize ((inserted events).take k) ≤ n ∧ Survived events k := by
  rw [survived_cons]
  exact ⟨fun h => h.2, fun h => ⟨h.2.enough, h⟩⟩

/-- **The table holds the survivors.**  Its entries are the newest headers, as many of them as
have survived. -/
theorem replay_survivors (events : List TableEvent) :
    (replay events).entries = (inserted events).take (replay events).entries.length ∧
      ∀ k, Survived events k ↔ k ≤ (replay events).entries.length := by
  induction events with
  | nil => exact ⟨rfl, fun k => by rw [survived_nil]; exact Nat.le_zero.symm⟩
  | cons event events ih =>
    obtain ⟨htake, hsurvived⟩ := ih
    have hmax := replay_max events
    have hlen : (replay events).entries.length ≤ (inserted events).length := by
      rw [htake, List.length_take]
      exact Nat.min_le_right _ _
    cases event with
    | insert h =>
      have hle := length_fit_le (replay events).max (h :: (replay events).entries)
      rw [List.length_cons] at hle
      have hprefix : ∀ k, k ≤ (replay events).entries.length + 1 →
          (h :: (replay events).entries).take k = (h :: inserted events).take k := by
        intro k hk
        cases k with
        | zero => rfl
        | succ k =>
          rw [htake, List.take_succ_cons, List.take_succ_cons, List.take_take,
            Nat.min_eq_left (by omega)]
      refine ⟨?_, fun k => ?_⟩
      · show fit _ _ = (h :: inserted events).take (fit _ _).length
        rw [← hprefix _ hle]
        exact fit_take _ _
      · show _ ↔ k ≤ (fit (replay events).max (h :: (replay events).entries)).length
        rw [survived_insert, hsurvived]
        by_cases hk : k ≤ (replay events).entries.length + 1
        · rw [le_length_fit_iff _ _ k (by rw [List.length_cons]; exact hk), hprefix k hk, hmax]
          constructor
          · exact fun h => h.2.1
          · exact fun h => ⟨by omega, h, by omega⟩
        · exact iff_of_false (fun h => hk (by omega)) (fun h => hk (by omega))
    | limit n =>
      have hle := length_fit_le n (replay events).entries
      have hprefix : ∀ k, k ≤ (replay events).entries.length →
          (replay events).entries.take k = (inserted events).take k := by
        intro k hk
        rw [htake, List.take_take, Nat.min_eq_left (by omega)]
      refine ⟨?_, fun k => ?_⟩
      · show fit _ _ = (inserted events).take (fit _ _).length
        rw [← hprefix _ hle]
        exact fit_take _ _
      · show _ ↔ k ≤ (fit n (replay events).entries).length
        rw [survived_limit, hsurvived]
        by_cases hk : k ≤ (replay events).entries.length
        · rw [le_length_fit_iff _ _ k hk, hprefix k hk]
          exact ⟨fun h => h.1, fun h => ⟨h, hk⟩⟩
        · exact iff_of_false (fun h => hk h.2) (fun h => hk (by omega))

/-- An entry larger than the limit empties the table. -/
theorem insert_oversize (T : DynamicTable) (h : Header) (hh : T.max < headerSize h) :
    (T.insert h).entries = [] := by
  show fit T.max (h :: T.entries) = []
  rw [fit, if_neg (by omega)]

end Hpack
