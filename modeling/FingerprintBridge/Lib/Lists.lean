import Mathlib.Data.List.Forall2

/-!
# Lists related element by element, lists taken apart

What `List.Forall₂` says of an element of one list, found by its place or by
membership; what the parts of a list cut by `splitOn` hold.
-/

variable {α β : Type} {R : α → β → Prop}

theorem forall₂_getElem? {es : List α} {fs : List β} (h : List.Forall₂ R es fs) :
    ∀ (i : Nat) (e : α), es[i]? = some e → ∃ f, fs[i]? = some f ∧ R e f := by
  induction h with
  | nil => exact fun i e he => by simp at he
  | cons hr _ ih =>
    intro i e he
    cases i with
    | zero =>
      simp only [List.getElem?_cons_zero, Option.some.injEq] at he
      subst he
      exact ⟨_, rfl, hr⟩
    | succ i => exact ih i e he

theorem forall₂_mem_right {es : List α} {fs : List β} (h : List.Forall₂ R es fs) :
    ∀ f ∈ fs, ∃ e ∈ es, R e f := by
  induction h with
  | nil => exact fun f hf => by cases hf
  | cons hr _ ih =>
    intro f hf
    rcases List.mem_cons.1 hf with rfl | hf
    · exact ⟨_, List.mem_cons_self, hr⟩
    · obtain ⟨e, he, hr'⟩ := ih f hf
      exact ⟨e, List.mem_cons_of_mem _ he, hr'⟩

theorem forall₂_map_eq {γ : Type} {f : α → γ} {g : β → γ} {es : List α} {fs : List β}
    (h : List.Forall₂ (fun a b => g b = f a) es fs) : fs.map g = es.map f := by
  induction h with
  | nil => rfl
  | cons hr _ ih => rw [List.map_cons, List.map_cons, ih, hr]

theorem forall₂_comp {γ : Type} {S : β → γ → Prop} {T : α → γ → Prop}
    (hT : ∀ a b c, R a b → S b c → T a c) {es : List α} {fs : List β} {gs : List γ}
    (h : List.Forall₂ R es fs) (h' : List.Forall₂ S fs gs) : List.Forall₂ T es gs := by
  induction h generalizing gs with
  | nil =>
    cases h'
    exact List.Forall₂.nil
  | cons hr _ ih =>
    cases h' with
    | cons hs h' => exact List.Forall₂.cons (hT _ _ _ hr hs) (ih h')

theorem mem_of_mem_splitOn {α : Type} [BEq α] [LawfulBEq α] (x : α) (l : List α) :
    ∀ part ∈ l.splitOn x, ∀ c ∈ part, c ∈ l := by
  induction l with
  | nil => simp
  | cons y l ih =>
    rw [List.splitOn_cons_eq_if_modifyHead]
    split
    · intro part hp c hc
      rcases List.mem_cons.1 hp with rfl | hp
      · cases hc
      · exact List.mem_cons_of_mem _ (ih part hp c hc)
    · cases hs : l.splitOn x with
      | nil => simp
      | cons first parts =>
        rw [hs] at ih
        intro part hp c hc
        rcases List.mem_cons.1 hp with rfl | hp
        · rcases List.mem_cons.1 hc with rfl | hc
          · exact List.mem_cons_self
          · exact List.mem_cons_of_mem _ (ih first List.mem_cons_self c hc)
        · exact List.mem_cons_of_mem _ (ih part (List.mem_cons_of_mem _ hp) c hc)

theorem not_mem_of_mem_splitOn {α : Type} [BEq α] [LawfulBEq α] (x : α) (l : List α) :
    ∀ part ∈ l.splitOn x, x ∉ part := by
  induction l with
  | nil => simp
  | cons y l ih =>
    rw [List.splitOn_cons_eq_if_modifyHead]
    split
    · intro part hp
      rcases List.mem_cons.1 hp with rfl | hp
      · simp
      · exact ih part hp
    · next hy =>
      cases hs : l.splitOn x with
      | nil => simp
      | cons first parts =>
        rw [hs] at ih
        intro part hp hx
        rcases List.mem_cons.1 hp with rfl | hp
        · rcases List.mem_cons.1 hx with rfl | hx
          · simp at hy
          · exact ih first List.mem_cons_self hx
        · exact ih part (List.mem_cons_of_mem _ hp) hx

/-! ## Octets cut into items -/

/-- `bytes` are the items `xs` one after the other, and `rest`; `P` holds of each with what
is after it. -/
inductive CutInto {ρ β : Type} (octets : ρ → List β) (P : ρ → List β → Prop) (rest : List β) :
    List β → List ρ → Prop where
  | nil : CutInto octets P rest rest []
  | cons (x : ρ) (bytes : List β) (xs : List ρ) (hx : P x bytes)
      (h : CutInto octets P rest bytes xs) : CutInto octets P rest (octets x ++ bytes) (x :: xs)

namespace CutInto

variable {ρ β : Type} {octets : ρ → List β} {P : ρ → List β → Prop} {rest bytes : List β}
  {xs : List ρ}

theorem eq (h : CutInto octets P rest bytes xs) : bytes = xs.flatMap octets ++ rest := by
  induction h with
  | nil => rfl
  | cons x bytes xs _ _ ih => rw [List.flatMap_cons, List.append_assoc, ← ih]

theorem mem (h : CutInto octets P rest bytes xs) : ∀ x ∈ xs, ∃ rest', P x rest' := by
  induction h with
  | nil => exact fun x hx => absurd hx List.not_mem_nil
  | cons x bytes xs hx _ ih => exact List.forall_mem_cons.2 ⟨⟨bytes, hx⟩, ih⟩

/-- One item more. -/
theorem snoc {x : ρ} (h : CutInto octets P (octets x ++ rest) bytes xs) (hx : P x rest) :
    CutInto octets P rest bytes (xs ++ [x]) := by
  induction h with
  | nil => exact .cons x rest [] hx .nil
  | cons y bytes ys hy _ ih => exact .cons y bytes (ys ++ [x]) hy ih

end CutInto

/-- The list on the right, cut where the one on the left is. -/
theorem zipWith_append_left {γ : Type} (f : α → β → γ) (x x' : List α) (y : List β) :
    List.zipWith f (x ++ x') y = List.zipWith f x y ++ List.zipWith f x' (y.drop x.length) := by
  induction x generalizing y with
  | nil => rfl
  | cons a x ih =>
    cases y with
    | nil => exact List.zipWith_nil_right.symm
    | cons b y => exact congrArg _ (ih y)

/-- The list on the left, cut where the one on the right is. -/
theorem zipWith_append_right {γ : Type} (f : α → β → γ) (x : List α) (y y' : List β) :
    List.zipWith f x (y ++ y') =
      List.zipWith f (x.take y.length) y ++ List.zipWith f (x.drop y.length) y' := by
  induction y generalizing x with
  | nil => simp
  | cons b y ih =>
    cases x with
    | nil => simp
    | cons a x => exact congrArg _ (ih x)

/-- What `mapM` gives, element by element. -/
theorem mapM_ok_iff {ε : Type} (f : α → Except ε β) (xs : List α) (ys : List β) :
    xs.mapM f = .ok ys ↔ List.Forall₂ (fun x y => f x = .ok y) xs ys := by
  induction xs generalizing ys with
  | nil =>
    rw [List.mapM_nil, List.forall₂_nil_left_iff]
    constructor
    · intro h
      exact (Except.ok.inj h).symm
    · rintro rfl
      rfl
  | cons x xs ih =>
    rw [List.mapM_cons, List.forall₂_cons_left_iff]
    constructor
    · intro h
      cases hx : f x with
      | error e =>
        rw [hx] at h
        cases h
      | ok y =>
        rw [hx] at h
        cases hxs : xs.mapM f with
        | error e =>
          rw [show (Except.ok y >>= fun y => xs.mapM f >>= fun ys => pure (y :: ys)) =
            xs.mapM f >>= fun ys => pure (y :: ys) from rfl, hxs] at h
          cases h
        | ok ys' =>
          rw [show (Except.ok y >>= fun y => xs.mapM f >>= fun ys => pure (y :: ys)) =
            xs.mapM f >>= fun ys => pure (y :: ys) from rfl, hxs] at h
          exact ⟨y, ys', rfl, (ih ys').1 hxs, (Except.ok.inj h).symm⟩
    · rintro ⟨y, ys', hx, hxs, rfl⟩
      rw [hx, (ih ys').2 hxs]
      rfl
