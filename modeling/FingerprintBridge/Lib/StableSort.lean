import Mathlib.Data.List.Perm.Basic
import Mathlib.Data.List.Sort

/-!
# Stable sorting by a key

Two lists have the same stable sort exactly when they have the same elements and
elements of one key come in the same order in both (`sortedBy_eq_iff`).  What is
left open is the order of different keys: with the keys in the same order too,
the lists are equal (`SameButOrder.eq`).
-/

section
variable {α κ : Type} (key : α → κ)

/-- The same elements, those of one key in the same order. -/
structure SameButOrder [DecidableEq κ] (l l' : List α) : Prop where
  perm : l.Perm l'
  order : ∀ k, l.filter (fun a => key a = k) = l'.filter fun a => key a = k

/-- The order of the keys and the order within each key are the whole order. -/
theorem eq_of_filter_key [DecidableEq κ] (l l' : List α) (hk : l.map key = l'.map key)
    (h : ∀ k, l.filter (fun a => key a = k) = l'.filter fun a => key a = k) : l = l' := by
  induction l generalizing l' with
  | nil =>
    cases l' with
    | nil => rfl
    | cons b l' => cases hk
  | cons a l ih =>
    cases l' with
    | nil => cases hk
    | cons b l' =>
      simp only [List.map_cons, List.cons.injEq] at hk
      obtain ⟨hab, hk⟩ := hk
      have hfirst := h (key a)
      rw [List.filter_cons_of_pos (by simp), List.filter_cons_of_pos (by simp [hab])] at hfirst
      obtain rfl : a = b := (List.cons.inj hfirst).1
      rw [ih l' hk]
      intro k
      have hrest := h k
      by_cases hak : key a = k
      · rw [List.filter_cons_of_pos (by simp [hak]), List.filter_cons_of_pos (by simp [hak])] at hrest
        exact (List.cons.inj hrest).2
      · rwa [List.filter_cons_of_neg (by simp [hak]),
          List.filter_cons_of_neg (by simp [hak])] at hrest

theorem SameButOrder.eq {key : α → κ} [DecidableEq κ] {l l' : List α}
    (h : SameButOrder key l l') (hk : l.map key = l'.map key) : l = l' :=
  eq_of_filter_key key l l' hk h.order

/-- It passes along a relation that is a function and respects the keys. -/
theorem SameButOrder.forall₂ {β μ : Type} {key : α → κ} {key' : β → μ} [DecidableEq κ]
    [DecidableEq μ] {R : α → β → Prop} (hR : Relator.RightUnique R) (g : μ → κ)
    (hg : ∀ a b, R a b → ∀ m, key a = g m ↔ key' b = m) {l l' : List α} {s s' : List β}
    (h : SameButOrder key l l') (hs : List.Forall₂ R l s) (hs' : List.Forall₂ R l' s') :
    SameButOrder key' s s' := by
  have hunique : ∀ {x y y'}, List.Forall₂ R x y → List.Forall₂ R x y' → y = y' :=
    List.right_unique_forall₂' hR
  refine ⟨?_, fun m => ?_⟩
  · obtain ⟨w, hw, hp⟩ := List.perm_comp_forall₂ h.perm hs'
    rwa [hunique hs hw]
  · have hfilter : ∀ {x y}, List.Forall₂ R x y → List.Forall₂ R
        (x.filter fun a => key a = g m) (y.filter fun b => key' b = m) := fun hxy =>
      List.rel_filter (fun a b hab => by simpa using hg a b hab m) hxy
    have h1 := hfilter hs
    rw [h.order (g m)] at h1
    exact hunique h1 (hfilter hs')

variable [LinearOrder κ]

/-- `l` in the order of its keys; elements of one key keep theirs. -/
def sortedBy (l : List α) : List α := l.insertionSort fun a b => key a ≤ key b

theorem sortedBy_perm (l : List α) : (sortedBy key l).Perm l := List.perm_insertionSort _ l

theorem sortedBy_pairwise (l : List α) : (sortedBy key l).Pairwise fun a b => key a ≤ key b :=
  have : Std.Total fun a b : α => key a ≤ key b := ⟨fun a b => le_total (key a) (key b)⟩
  have : IsTrans α fun a b => key a ≤ key b := ⟨fun _ _ _ => le_trans⟩
  List.pairwise_insertionSort _ l

/-- **Stability.** -/
theorem filter_sortedBy [DecidableEq κ] (k : κ) (l : List α) :
    (sortedBy key l).filter (fun a => key a = k) = l.filter fun a => key a = k := by
  have : Std.Total fun a b : α => key a ≤ key b := ⟨fun a b => le_total (key a) (key b)⟩
  have : IsTrans α fun a b => key a ≤ key b := ⟨fun _ _ _ => le_trans⟩
  -- those of one key are sorted as they stand, so the sort keeps them as a sublist
  have hone : (l.filter fun a => key a = k).Pairwise fun a b => key a ≤ key b := by
    refine List.pairwise_of_forall_mem_list fun a ha b hb => ?_
    rw [of_decide_eq_true (List.mem_filter.1 ha).2, of_decide_eq_true (List.mem_filter.1 hb).2]
  have hsub := (List.sublist_insertionSort hone List.filter_sublist).filter fun a => key a = k
  rw [List.filter_filter] at hsub
  simp only [Bool.and_self] at hsub
  exact (hsub.eq_of_length ((sortedBy_perm key l).filter _).length_eq.symm).symm

theorem map_sortedBy_eq {l l' : List α} (h : l.Perm l') :
    (sortedBy key l).map key = (sortedBy key l').map key := by
  have hsorted : ∀ x : List α, ((sortedBy key x).map key).Pairwise (· ≤ ·) := fun x =>
    List.pairwise_map.2 (sortedBy_pairwise key x)
  have hperm := ((sortedBy_perm key l).trans (h.trans (sortedBy_perm key l').symm)).map key
  exact hperm.eq_of_pairwise (fun a b _ _ => le_antisymm) (hsorted l) (hsorted l')

theorem sortedBy_eq_iff [DecidableEq κ] (l l' : List α) :
    sortedBy key l = sortedBy key l' ↔ SameButOrder key l l' := by
  constructor
  · intro h
    refine ⟨?_, fun k => ?_⟩
    · exact (sortedBy_perm key l).symm.trans (h ▸ sortedBy_perm key l')
    · rw [← filter_sortedBy, h, filter_sortedBy]
  · intro h
    apply eq_of_filter_key key _ _ (map_sortedBy_eq key h.perm)
    intro k
    rw [filter_sortedBy, filter_sortedBy, h.order]

end
