import Mathlib.Data.List.Basic

/-!
# Answers while the input arrives

A `check` returns nothing until it has seen enough.  It is stable if what it then
returns, or the error it fails with, is its answer whatever follows.  Asking after every
piece of the input is then the same as asking once, and so does not depend on the pieces.
-/

variable {ι ε α : Type}

/-- An answer of `check` is not changed by what follows. -/
def Stable (check : List ι → Except ε (Option α)) : Prop :=
  ∀ h x, check h ≠ .ok none → check (h ++ x) = check h

/-- An answer, or the next one where there is none. -/
def answerOr (answer next : Except ε (Option α)) : Except ε (Option α) :=
  match answer with
  | .ok none => next
  | .ok (some a) => .ok (some a)
  | .error e => .error e

@[simp] theorem answerOr_none (next : Except ε (Option α)) : answerOr (.ok none) next = next := rfl

theorem answerOr_of_ne {answer : Except ε (Option α)} (h : answer ≠ .ok none)
    (next : Except ε (Option α)) : answerOr answer next = answer := by
  match answer with
  | .ok none => exact (h rfl).elim
  | .ok (some a) => rfl
  | .error e => rfl

/-- Ask after every piece, up to the first answer. -/
def feed (check : List ι → Except ε (Option α)) :
    (seen : List ι) → List (List ι) → Except ε (Option α)
  | _, [] => .ok none
  | seen, piece :: pieces => answerOr (check (seen ++ piece)) (feed check (seen ++ piece) pieces)

variable {check : List ι → Except ε (Option α)}

theorem Stable.feed_eq (hs : Stable check) (seen : List ι) (pieces : List (List ι))
    (h : check seen = .ok none) : feed check seen pieces = check (seen ++ pieces.flatten) := by
  induction pieces generalizing seen with
  | nil =>
    rw [List.flatten_nil, List.append_nil]
    exact h.symm
  | cons piece pieces ih =>
    rw [List.flatten_cons, ← List.append_assoc]
    by_cases hpiece : check (seen ++ piece) = .ok none
    · rw [feed, hpiece, answerOr_none]
      exact ih _ hpiece
    · rw [hs (seen ++ piece) pieces.flatten hpiece, feed, answerOr_of_ne hpiece]
