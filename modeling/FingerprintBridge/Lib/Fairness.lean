import Mathlib.Data.List.Range

/-!
# Fair schedules

Where every step of a task either changes nothing or brings the system nearer to its end,
and there is always a task that does, the end is reached on every schedule that comes back
to every task (`Nearing.ends`).
-/

variable {σ τ : Type}

/-- The schedule comes back to every task. -/
def Fair (schedule : Nat → τ) : Prop := ∀ n t, ∃ k, n ≤ k ∧ schedule k = t

/-- The state after `n` steps. -/
def stateAt (step : σ → τ → σ) (s : σ) (schedule : Nat → τ) : Nat → σ
  | 0 => s
  | n + 1 => step (stateAt step s schedule n) (schedule n)

theorem stateAt_eq_foldl (step : σ → τ → σ) (s : σ) (schedule : Nat → τ) (n : Nat) :
    stateAt step s schedule n = ((List.range n).map schedule).foldl step s := by
  induction n with
  | zero => rfl
  | succ n ih =>
    rw [List.range_succ, List.map_append, List.foldl_append, ← ih]
    rfl

structure Nearing (step : σ → τ → σ) (inv done : σ → Prop) (work : σ → Nat) : Prop where
  keeps : ∀ s t, inv s → inv (step s t)
  nears : ∀ s t, inv s → ¬done s → step s t = s ∨ work (step s t) < work s
  goes : ∀ s, inv s → ¬done s → ∃ t, work (step s t) < work s

namespace Nearing

variable {step : σ → τ → σ} {inv done : σ → Prop} {work : σ → Nat} {s : σ} {schedule : Nat → τ}

theorem inv_stateAt (h : Nearing step inv done work) (hs : inv s) (n : Nat) :
    inv (stateAt step s schedule n) := by
  induction n with
  | zero => exact hs
  | succ n ih => exact h.keeps _ _ ih

/-- In `d` steps nothing has changed, or the end is nearer or reached. -/
theorem waits (h : Nearing step inv done work) (hs : inv s) (n d : Nat) :
    stateAt step s schedule (n + d) = stateAt step s schedule n ∨ ∃ k,
      done (stateAt step s schedule k) ∨
        work (stateAt step s schedule k) < work (stateAt step s schedule n) := by
  induction d with
  | zero => exact Or.inl rfl
  | succ d ih =>
    rcases ih with heq | hk
    · by_cases hdone : done (stateAt step s schedule (n + d))
      · exact Or.inr ⟨n + d, Or.inl hdone⟩
      · rcases h.nears _ (schedule (n + d)) (h.inv_stateAt hs _) hdone with hstep | hless
        · exact Or.inl (hstep.trans heq)
        · rw [heq] at hless
          refine Or.inr ⟨n + d + 1, Or.inr ?_⟩
          show work (step (stateAt step s schedule (n + d)) _) < _
          rw [heq]
          exact hless
    · exact Or.inr hk

theorem ends (h : Nearing step inv done work) (hfair : Fair schedule) (hs : inv s) :
    ∃ n, done (stateAt step s schedule n) := by
  have hall : ∀ w n, work (stateAt step s schedule n) ≤ w →
      ∃ k, done (stateAt step s schedule k) := by
    intro w
    induction w with
    | zero =>
      intro n hn
      by_contra hnever
      obtain ⟨t, ht⟩ := h.goes _ (h.inv_stateAt hs n) fun hdone => hnever ⟨n, hdone⟩
      omega
    | succ w ih =>
      intro n hn
      by_cases hdone : done (stateAt step s schedule n)
      · exact ⟨n, hdone⟩
      obtain ⟨t, ht⟩ := h.goes _ (h.inv_stateAt hs n) hdone
      obtain ⟨k, hk, rfl⟩ := hfair n t
      rcases h.waits hs n (k - n) with heq | ⟨j, hj | hj⟩
      · rw [Nat.add_sub_cancel' hk] at heq
        apply ih (k + 1)
        show work (step (stateAt step s schedule k) _) ≤ w
        rw [heq]
        omega
      · exact ⟨j, hj⟩
      · exact ih j (by omega)
  exact hall _ 0 (Nat.le_refl _)

end Nearing
