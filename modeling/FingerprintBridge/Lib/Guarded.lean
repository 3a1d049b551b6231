import FingerprintBridge.Lib.Written

/-!
# Events that need a reason

A computation writes events to a log, and a guard says which event may follow which log.
`Allowed G w` holds of a log all of whose events were allowed when they were written, so it
holds of every earlier log too: what is proved of a computation is proved of all its
moments, wherever it is cut short.  `Triple` is the Hoare triple that keeps it.
-/

namespace Guarded

open Written

variable {ω α β : Type} {G : List ω → ω → Prop}

def Allowed (G : List ω → ω → Prop) (w : List ω) : Prop :=
  ∀ pre e post, w = pre ++ e :: post → G pre e

theorem allowed_nil : Allowed G [] := by
  intro pre e post h
  cases pre <;> cases h

/-- At an earlier moment. -/
theorem Allowed.earlier {w w' : List ω} (h : Allowed G w') (hp : w <+: w') : Allowed G w := by
  obtain ⟨v, rfl⟩ := hp
  intro pre e post hw
  exact h pre e (post ++ v) (by rw [hw, List.append_assoc, List.cons_append])

theorem Allowed.push {w : List ω} {e : ω} (h : Allowed G w) (he : G w e) : Allowed G (w ++ [e]) := by
  intro pre e' post hw
  rcases List.append_eq_append_iff.1 hw with ⟨as, rfl, has⟩ | ⟨bs, rfl, hbs⟩
  · cases as with
    | nil =>
      obtain ⟨rfl, -⟩ := List.cons.inj has
      rwa [List.append_nil]
    | cons a as => simp at has
  · cases bs with
    | nil =>
      obtain ⟨rfl, -⟩ := List.cons.inj hbs
      rwa [List.append_nil] at he
    | cons b bs =>
      obtain ⟨rfl, -⟩ := List.cons.inj hbs
      exact h pre e' bs rfl

/-- From an allowed log of which `P` holds, `x` goes on with events that are allowed, also if it
fails in the end, and `Q` holds if it ends well. -/
def Triple (G : List ω → ω → Prop) (P : List ω → Prop) (x : Act (List ω) α)
    (Q : α → List ω → Prop) : Prop :=
  ∀ w, Allowed G w → P w → (∀ a w', x w = .ok a w' → Allowed G w' ∧ Q a w') ∧
    ∀ e w', x w = .error e w' → Allowed G w'

section
variable {P P' : List ω → Prop} {Q : α → List ω → Prop} {R : β → List ω → Prop}
  {x : Act (List ω) α} {f : α → Act (List ω) β}

theorem Triple.pre (h : Triple G P x Q) (hP : ∀ w, P' w → P w) : Triple G P' x Q :=
  fun w hw hp => h w hw (hP w hp)

theorem Triple.post {Q' : α → List ω → Prop} (h : Triple G P x Q)
    (hQ : ∀ a w, Q a w → Q' a w) : Triple G P x Q' := by
  intro w hw hp
  obtain ⟨hok, herr⟩ := h w hw hp
  exact ⟨fun a w' hx => ⟨(hok a w' hx).1, hQ a w' (hok a w' hx).2⟩, herr⟩

/-- What a computation leaves when it starts with an empty log, however it ends. -/
theorem Triple.final (h : Triple G P x Q) (hP : P []) : Allowed G (x.final []) := by
  obtain ⟨hok, herr⟩ := h [] allowed_nil hP
  unfold Act.final
  cases hx : x [] with
  | ok a w => exact (hok a w hx).1
  | error e w => exact herr e w hx

theorem triple_pure (a : α) (h : ∀ w, P w → Q a w) : Triple G P (pure a) Q := by
  intro w hw hp
  refine ⟨fun b w' hx => ?_, fun e w' hx => ?_⟩
  · obtain ⟨rfl, rfl⟩ := (Act.pure_ok_iff _ _ _ _).1 hx
    exact ⟨hw, h _ hp⟩
  · cases hx

theorem Triple.bind (hx : Triple G P x Q) (hf : ∀ a, Triple G (Q a) (f a) R) :
    Triple G P (x >>= f) R := by
  intro w hw hp
  obtain ⟨hok, herr⟩ := hx w hw hp
  refine ⟨fun b w'' h => ?_, fun e w'' h => ?_⟩
  · obtain ⟨a, w', ha, hb⟩ := (Act.bind_ok_iff _ _ _ _ _).1 h
    obtain ⟨hw', hq⟩ := hok a w' ha
    exact (hf a w' hw' hq).1 b w'' hb
  · rcases (Act.bind_error_iff _ _ _ _ _).1 h with h | ⟨a, w', ha, hb⟩
    · exact herr e w'' h
    · obtain ⟨hw', hq⟩ := hok a w' ha
      exact (hf a w' hw' hq).2 e w'' hb

/-- A computation that touches no log; what is known of its value is known from there on. -/
theorem triple_lift {r : Res α} (hf : ∀ a, r = .ok a → Triple G P (f a) R) :
    Triple G P ((liftM r : Act (List ω) α) >>= f) R := by
  intro w hw hp
  refine ⟨fun b w' h => ?_, fun e w' h => ?_⟩
  · obtain ⟨a, ha, hb⟩ := (Act.liftM_bind_ok_iff _ _ _ _ _).1 h
    exact (hf a ha w hw hp).1 b w' hb
  · rcases (Act.liftM_bind_error_iff _ _ _ _ _).1 h with ⟨-, rfl⟩ | ⟨a, ha, hb⟩
    · exact hw
    · exact (hf a ha w hw hp).2 e w' hb

/-- The same at the end. -/
theorem triple_last {r : Res α} (h : ∀ a, r = .ok a → ∀ w, P w → Q a w) :
    Triple G P (liftM r : Act (List ω) α) Q := by
  intro w hw hp
  refine ⟨fun a w' hx => ?_, fun e w' hx => ?_⟩
  · obtain ⟨ha, rfl⟩ := (Act.liftM_ok_iff _ _ _ _).1 hx
    exact ⟨hw, h a ha _ hp⟩
  · obtain ⟨-, rfl⟩ := (Act.liftM_error_iff _ _ _ _).1 hx
    exact hw

theorem triple_write (e : ω) (hG : ∀ w, P w → G w e) :
    Triple G P (write e) fun _ w' => ∃ w, P w ∧ w' = w ++ [e] := by
  intro w hw hp
  refine ⟨fun a w' h => ?_, fun e' w' h => ?_⟩
  · cases h
    exact ⟨hw.push (hG w hp), w, hp, rfl⟩
  · cases h

end

end Guarded
