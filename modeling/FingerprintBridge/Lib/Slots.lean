import Mathlib.Data.List.Nodup

/-!
# Slots with one owner each

Memory that is given out slot by slot: a new slot comes behind the others, and one that is
freed stays empty.  `Owned names slots` says that the names are those of the slots in use, and
that no slot is named twice.
-/

namespace Slots

variable {γ : Type} {names names' : List Nat} {slots : List (Option γ)}

structure Owned (names : List Nat) (slots : List (Option γ)) : Prop where
  nodup : names.Nodup
  mem_iff : ∀ name, name ∈ names ↔ ∃ c, slots[name]? = some (some c)

theorem owned_nil : Owned [] ([] : List (Option γ)) where
  nodup := List.nodup_nil
  mem_iff name := by simp

theorem Owned.perm (h : Owned names slots) (hp : names.Perm names') : Owned names' slots where
  nodup := hp.nodup_iff.1 h.nodup
  mem_iff name := hp.mem_iff.symm.trans (h.mem_iff name)

theorem Owned.lt_length (h : Owned names slots) {name : Nat} (hmem : name ∈ names) :
    name < slots.length := by
  obtain ⟨c, hc⟩ := (h.mem_iff name).1 hmem
  exact (List.getElem?_eq_some_iff.1 hc).1

/-- A new slot belongs to who asked for it. -/
theorem Owned.made (h : Owned names slots) (c : γ) :
    Owned (slots.length :: names) (slots ++ [some c]) where
  nodup := List.nodup_cons.2 ⟨fun hmem => absurd (h.lt_length hmem) (Nat.lt_irrefl _), h.nodup⟩
  mem_iff name := by
    rw [List.mem_cons, h.mem_iff]
    by_cases hlt : name < slots.length
    · rw [List.getElem?_append_left hlt]
      exact or_iff_right (Nat.ne_of_lt hlt)
    · rw [List.getElem?_eq_none (Nat.le_of_not_lt hlt), List.getElem?_append_right (by omega)]
      by_cases heq : name = slots.length
      · subst heq
        simp
      · rw [List.getElem?_eq_none (by rw [List.length_singleton]; omega)]
        simp [heq]

/-- A slot is freed by its owner. -/
theorem Owned.freed {name : Nat} (h : Owned (name :: names) slots) :
    Owned names (slots.set name none) where
  nodup := (List.nodup_cons.1 h.nodup).2
  mem_iff other := by
    have hnot := (List.nodup_cons.1 h.nodup).1
    by_cases heq : other = name
    · subst heq
      refine iff_of_false hnot ?_
      rintro ⟨c, hc⟩
      rw [List.getElem?_set_self (h.lt_length List.mem_cons_self)] at hc
      cases hc
    · rw [List.getElem?_set_ne (Ne.symm heq), ← h.mem_iff, List.mem_cons]
      exact (or_iff_right heq).symm

/-- Without owners nothing is left. -/
theorem Owned.all_freed (h : Owned [] slots) : ∀ c ∈ slots, c = none := by
  intro c hmem
  obtain ⟨name, hlt, rfl⟩ := List.mem_iff_getElem.1 hmem
  cases hslot : slots[name] with
  | none => rfl
  | some c =>
    have := (h.mem_iff name).2 ⟨c, by rw [List.getElem?_eq_getElem hlt, hslot]⟩
    exact absurd this List.not_mem_nil

end Slots
