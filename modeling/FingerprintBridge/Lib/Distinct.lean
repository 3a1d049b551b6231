import Mathlib.Data.List.Basic
import Mathlib.Data.List.Induction
import Mathlib.Data.List.Nodup

/-!
# Lists without their repetitions

`List.eraseDups` keeps every entry at its first place.  A loop that pushes what
it has not pushed yet computes it (`foldl_pushNew`).
-/

section

variable {α : Type} [DecidableEq α]

theorem eraseDups_concat (l : List α) (a : α) :
    (l ++ [a]).eraseDups = if a ∈ l then l.eraseDups else l.eraseDups ++ [a] := by
  rw [List.eraseDups_append]
  by_cases h : a ∈ l
  · rw [if_pos h]
    simp [List.removeAll, h]
  · rw [if_neg h]
    simp [List.removeAll, h, List.eraseDups_cons]

theorem eraseDups_nodup (l : List α) : l.eraseDups.Nodup := by
  induction l using List.reverseRecOn with
  | nil => exact List.nodup_nil
  | append_singleton l a ih =>
    rw [eraseDups_concat]
    by_cases h : a ∈ l
    · rw [if_pos h]
      exact ih
    · rw [if_neg h, ← List.concat_eq_append]
      exact ih.concat (by rwa [List.mem_eraseDups])

theorem eraseDups_of_nodup (l : List α) (hl : l.Nodup) : l.eraseDups = l := by
  induction l using List.reverseRecOn with
  | nil => rfl
  | append_singleton l a ih =>
    obtain ⟨hl, -, hd⟩ := List.nodup_append.1 hl
    have ha : a ∉ l := fun h => hd a h a List.mem_cons_self rfl
    rw [eraseDups_concat, if_neg ha, ih hl]

theorem eraseDups_filter (p : α → Bool) (l : List α) :
    (l.filter p).eraseDups = l.eraseDups.filter p := by
  induction l using List.reverseRecOn with
  | nil => rfl
  | append_singleton l a ih =>
    rw [List.filter_append, eraseDups_concat]
    by_cases hp : p a = true
    · rw [List.filter_cons_of_pos hp, List.filter_nil, eraseDups_concat, ih]
      by_cases h : a ∈ l
      · rw [if_pos h, if_pos (List.mem_filter.2 ⟨h, hp⟩)]
      · rw [if_neg h, if_neg fun h' => h (List.mem_filter.1 h').1, List.filter_append,
          List.filter_cons_of_pos hp, List.filter_nil]
    · rw [List.filter_cons_of_neg hp, List.filter_nil, List.append_nil, ih]
      by_cases h : a ∈ l
      · rw [if_pos h]
      · rw [if_neg h, List.filter_append, List.filter_cons_of_neg hp, List.filter_nil,
          List.append_nil]

/-- The entries come in the order of their first places. -/
theorem eraseDups_pairwise (l : List α) :
    l.eraseDups.Pairwise fun a b => l.idxOf a < l.idxOf b := by
  induction l using List.reverseRecOn with
  | nil => exact List.Pairwise.nil
  | append_singleton l a ih =>
    -- the places in `l` do not move
    have hplace : ∀ x, x ∈ l → (l ++ [a]).idxOf x = l.idxOf x := fun x hx =>
      List.idxOf_append_of_mem hx
    have hkeep : l.eraseDups.Pairwise fun x y => (l ++ [a]).idxOf x < (l ++ [a]).idxOf y := by
      refine ih.imp_of_mem fun {x y} hx hy h => ?_
      rwa [hplace x (List.mem_eraseDups.1 hx), hplace y (List.mem_eraseDups.1 hy)]
    rw [eraseDups_concat]
    by_cases h : a ∈ l
    · rwa [if_pos h]
    · rw [if_neg h, List.pairwise_append]
      refine ⟨hkeep, List.pairwise_singleton _ _, fun x hx y hy => ?_⟩
      have hx' := List.mem_eraseDups.1 hx
      obtain rfl := List.mem_singleton.1 hy
      rw [hplace x hx', List.idxOf_append_of_notMem h]
      exact Nat.lt_add_right _ (List.idxOf_lt_length_of_mem hx')

/-! ## The loop -/

def pushNew (order : List α) (a : α) : List α := if a ∈ order then order else order ++ [a]

theorem foldl_pushNew (l : List α) :
    ∀ m : List α, l.foldl pushNew m.eraseDups = (m ++ l).eraseDups := by
  induction l with
  | nil => intro m; rw [List.append_nil]; rfl
  | cons a l ih =>
    intro m
    have hstep : pushNew m.eraseDups a = (m ++ [a]).eraseDups := by
      rw [eraseDups_concat]
      simp only [pushNew, List.mem_eraseDups]
    rw [List.foldl_cons, hstep, ih, List.append_assoc, List.singleton_append]

end
