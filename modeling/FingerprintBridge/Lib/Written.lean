import FingerprintBridge.Lib.Action

/-!
# What a computation writes down

A computation whose state is a log and that only adds to it.  `Writes kind x ok a ws`
says of `x` that it ends well only if `ok`, with the value `a` and `ws` added, that on a
`kind` world `ok` is enough, and that it never panics.  Such facts compose like the
computations (`Writes.bind`), so that a long one is read off its parts.
-/

namespace Written

variable {ω α β : Type} {kind : Prop}

structure Writes (kind : Prop) (x : Act (List ω) α) (ok : Prop) (a : α) (ws : List ω) : Prop where
  only : ∀ w b w', x w = .ok b w' → ok ∧ b = a ∧ w' = w ++ ws
  ends : kind → ok → ∀ w, x w = .ok a (w ++ ws)
  calm : ∀ w w', x w ≠ .error .panic w'

def write (e : ω) : Act (List ω) Unit := modify (· ++ [e])

/-- `if c { x }` -/
def provided (c : Prop) [Decidable c] (x : Act (List ω) Unit) : Act (List ω) Unit :=
  if c then x else pure ()

variable {x : Act (List ω) α} {f : α → Act (List ω) β} {ok ok' : Prop} {a : α} {b : β}
  {ws ws' : List ω}

theorem Writes.congr (h : Writes kind x ok a ws) (hok : ok ↔ ok') (hws : ws = ws') :
    Writes kind x ok' a ws' := by
  subst hws
  rw [← propext hok]
  exact h

/-- What a log found on the way is to be like. -/
theorem Writes.like {P : List ω → Prop} (h : Writes kind x ok a ws) (hok : ok ↔ ok') (hws : P ws) :
    ∃ log, Writes kind x ok' a log ∧ P log := ⟨ws, h.congr hok rfl, hws⟩

theorem writes_pure (a : α) : Writes kind (pure a : Act (List ω) α) True a [] := by
  refine ⟨fun w b w' h => ?_, fun _ _ w => ?_, fun w w' h => ?_⟩
  · obtain ⟨rfl, rfl⟩ := (Act.pure_ok_iff _ _ _ _).1 h
    simp
  · rw [List.append_nil]
    rfl
  · cases h

theorem writes_write (e : ω) : Writes kind (write e) True () [e] := by
  refine ⟨fun w b w' h => ?_, fun _ _ w => rfl, fun w w' h => ?_⟩
  · cases h
    exact ⟨trivial, rfl, rfl⟩
  · cases h

theorem writes_lift {r : Res α} (h : ∀ b, r = .ok b → ok ∧ b = a) (hok : ok → r = .ok a)
    (hr : r ≠ .error .panic) : Writes kind (liftM r : Act (List ω) α) ok a [] := by
  refine ⟨fun w b w' hx => ?_, fun _ ho w => ?_, fun w w' hx => ?_⟩
  · obtain ⟨hb, rfl⟩ := (Act.liftM_ok_iff _ _ _ _).1 hx
    obtain ⟨ho, rfl⟩ := h b hb
    simp [ho]
  · rw [hok ho, List.append_nil]
    rfl
  · exact hr ((Act.liftM_error_iff _ _ _ _).1 hx).1

theorem writes_ensure (c : Prop) [Decidable c] (msg : String) :
    Writes kind (liftM (ensure c msg) : Act (List ω) Unit) c () [] := by
  refine writes_lift (fun u h => ⟨(Res.ensure_ok_iff _ _ _).1 h, rfl⟩) (fun h => ?_)
    (Res.ensure_ne_panic _ _)
  exact (Res.ensure_ok_iff _ _ _).2 h

/-- A computation after another. -/
theorem Writes.bind (hx : Writes kind x ok a ws) (hf : Writes kind (f a) ok' b ws') :
    Writes kind (x >>= f) (ok ∧ ok') b (ws ++ ws') := by
  refine ⟨fun w c w'' h => ?_, fun hk ho w => ?_, fun w w'' h => ?_⟩
  · obtain ⟨a', w', hx', hf'⟩ := (Act.bind_ok_iff _ _ _ _ _).1 h
    obtain ⟨ho, rfl, rfl⟩ := hx.only _ _ _ hx'
    obtain ⟨ho', rfl, rfl⟩ := hf.only _ _ _ hf'
    exact ⟨⟨ho, ho'⟩, rfl, List.append_assoc _ _ _⟩
  · rw [← List.append_assoc]
    exact (Act.bind_ok_iff _ _ _ _ _).2 ⟨a, _, hx.ends hk ho.1 w, hf.ends hk ho.2 _⟩
  · rcases (Act.bind_error_iff _ _ _ _ _).1 h with h | ⟨a', w', hx', hf'⟩
    · exact hx.calm _ _ h
    · obtain ⟨-, rfl, -⟩ := hx.only _ _ _ hx'
      exact hf.calm _ _ hf'

/-- A computation of which only the log is used. -/
theorem Writes.seq {x : Act (List ω) Unit} {y : Act (List ω) β} (hx : Writes kind x ok () ws)
    (hy : Writes kind y ok' b ws') :
    Writes kind (x >>= fun _ => y) (ok ∧ ok') b (ws ++ ws') := hx.bind hy

theorem writes_provided {x : Act (List ω) Unit} {c : Prop} [Decidable c]
    (hx : Writes kind x ok () ws) :
    Writes kind (provided c x) (c → ok) () (if c then ws else []) := by
  unfold provided
  by_cases hc : c
  · rw [if_pos hc, if_pos hc]
    exact hx.congr (by simp [hc]) rfl
  · rw [if_neg hc, if_neg hc]
    exact (writes_pure ()).congr (by simp [hc]) rfl

/-- A loop whose passes write each their own. -/
theorem writes_forM {γ : Type} {step : γ → Act (List ω) Unit} {good : γ → Prop} {out : γ → List ω}
    (h : ∀ c, Writes kind (step c) (good c) () (out c)) (l : List γ) :
    Writes kind (l.forM step) (∀ c ∈ l, good c) () (l.flatMap out) := by
  induction l with
  | nil => exact (writes_pure ()).congr (by simp) rfl
  | cons c l ih =>
    show Writes kind (step c >>= fun _ => l.forM step) _ _ _
    exact ((h c).seq ih).congr (by simp) (by simp)

end Written
