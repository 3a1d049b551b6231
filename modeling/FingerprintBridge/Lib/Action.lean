import Mathlib.Algebra.Group.Nat.Defs
import Mathlib.Data.List.Basic

/-!
# Fallible and stateful computations

A call of a Rust function ends with a value, with an error passed up by `?`, or
with a panic; the last two are the `Fault`s.  `Res` is a pure such computation,
`Act σ` one that also changes a state `σ`.  The state reached when the fault
occurred is kept (core's `EStateM`), so a theorem can speak of what a failed
call leaves behind.

The lemmas below take a run apart at its binds (`bind_ok_iff`, `bind_error_iff`);
every proof about a modelled function goes through them.
-/

/-- How a call fails. -/
inductive Fault where
  | err (msg : String)
  | panic
deriving DecidableEq, Repr

abbrev Bytes := List UInt8

-- what is said of the members of a list is decided on the list, not on the whole type
instance (priority := high) decidableListMembers {α : Type} (p : α → Prop) [DecidablePred p]
    (l : List α) : Decidable (∀ a ∈ l, p a) := l.decidableBAll p

instance (priority := high) decidableOptionMember {α : Type} (p : α → Prop) [DecidablePred p]
    (o : Option α) : Decidable (∀ a, o = some a → p a) := o.decidableForallMem

abbrev Res := Except Fault

abbrev Act (σ : Type) := EStateM Fault σ

/-- `ensure!(c, msg)`. -/
def ensure (c : Prop) [Decidable c] (msg : String) : Res Unit :=
  if c then .ok () else .error (.err msg)

/-- `b[i]`. -/
def byteAt (b : Bytes) (i : Nat) : Res UInt8 :=
  match b[i]? with
  | some c => .ok c
  | none => .error .panic

/-- `&b[i..j]`. -/
def slice (b : Bytes) (i j : Nat) : Res Bytes :=
  if i ≤ j ∧ j ≤ b.length then .ok ((b.drop i).take (j - i)) else .error .panic

/-- `o.ok_or_else(|| msg)`. -/
def okOr {α : Type} (o : Option α) (msg : String) : Res α :=
  match o with
  | some a => .ok a
  | none => .error (.err msg)

/-- `a - b` on `usize`. -/
def checkedSub (a b : Nat) : Res Nat := if b ≤ a then .ok (a - b) else .error .panic

namespace Act

variable {σ τ α β : Type}

/-- A pure computation as one that leaves the state alone. -/
def lift (x : Res α) : Act σ α := fun s =>
  match x with
  | .ok a => .ok a s
  | .error e => .error e s

instance : MonadLift Res (Act σ) := ⟨lift⟩

/-- The value of a run that succeeds. -/
def value? (x : Act σ α) (s : σ) : Option α :=
  match x s with
  | .ok a _ => some a
  | .error _ _ => none

/-- The state that a run leaves, whether it fails or not. -/
def final (x : Act σ α) (s : σ) : σ :=
  match x s with
  | .ok _ s' => s'
  | .error _ s' => s'

/-- Run `m` on a part of the state. -/
def zoom (get : σ → τ) (set : τ → σ → σ) (m : Act τ α) : Act σ α := fun s =>
  match m (get s) with
  | .ok a t => .ok a (set t s)
  | .error e t => .error e (set t s)

end Act

/-! ## Pure computations -/

namespace Res

variable {α β : Type}

theorem bind_ok_iff (x : Res α) (f : α → Res β) (b : β) :
    (x >>= f) = .ok b ↔ ∃ a, x = .ok a ∧ f a = .ok b := by
  cases x with
  | ok a => simp [bind, Except.bind]
  | error e => simp [bind, Except.bind]

theorem bind_error_iff (x : Res α) (f : α → Res β) (e : Fault) :
    (x >>= f) = .error e ↔ x = .error e ∨ ∃ a, x = .ok a ∧ f a = .error e := by
  cases x with
  | ok a => simp [bind, Except.bind]
  | error e' => simp [bind, Except.bind]

theorem ensure_ok_iff (c : Prop) [Decidable c] (msg : String) (u : Unit) :
    ensure c msg = .ok u ↔ c := by
  unfold ensure
  split <;> simp_all

theorem ensure_error_iff (c : Prop) [Decidable c] (msg : String) (e : Fault) :
    ensure c msg = .error e ↔ ¬ c ∧ e = .err msg := by
  unfold ensure
  split
  · simp_all
  · simp_all [eq_comm]

theorem byteAt_ok_iff (b : Bytes) (i : Nat) (c : UInt8) : byteAt b i = .ok c ↔ b[i]? = some c := by
  unfold byteAt
  split <;> simp_all

theorem byteAt_of_lt (b : Bytes) (i : Nat) (h : i < b.length) : byteAt b i = .ok b[i] := by
  rw [byteAt_ok_iff, List.getElem?_eq_getElem h]

theorem byteAt_error (b : Bytes) (i : Nat) (e : Fault) (h : byteAt b i = .error e) : e = .panic := by
  unfold byteAt at h
  split at h
  · cases h
  · exact (Except.error.inj h).symm

theorem slice_ok (b c : Bytes) (i j : Nat) (h : slice b i j = .ok c) :
    c = (b.drop i).take (j - i) := by
  unfold slice at h
  split at h
  · exact (Except.ok.inj h).symm
  · cases h

theorem slice_error (b : Bytes) (i j : Nat) (e : Fault) (h : slice b i j = .error e) :
    e = .panic := by
  unfold slice at h
  split at h
  · cases h
  · exact (Except.error.inj h).symm

theorem slice_of_le (b : Bytes) (i j : Nat) (h : i ≤ j) (hj : j ≤ b.length) :
    slice b i j = .ok ((b.drop i).take (j - i)) := if_pos ⟨h, hj⟩

theorem slice_append (pre rest : Bytes) (i j : Nat) :
    slice (pre ++ rest) (pre.length + i) (pre.length + j) = slice rest i j := by
  unfold slice
  by_cases h : i ≤ j ∧ j ≤ rest.length
  · rw [if_pos h, if_pos (by rw [List.length_append]; omega), Nat.add_sub_add_left, List.drop_append,
      List.drop_eq_nil_of_le (Nat.le_add_right _ _), List.nil_append, Nat.add_sub_cancel_left]
  · rw [if_neg h, if_neg (by rw [List.length_append]; omega)]

/-- A part of what follows `pre`. -/
theorem slice_middle (pre part rest : Bytes) (i j : Nat) (hi : pre.length = i)
    (hj : i + part.length = j) : slice (pre ++ (part ++ rest)) i j = .ok part := by
  subst hi hj
  have h := slice_append pre (part ++ rest) 0 part.length
  rw [Nat.add_zero] at h
  rw [h, slice_of_le _ _ _ (Nat.zero_le _) (by rw [List.length_append]; omega), List.drop_zero,
    Nat.sub_zero, List.take_left]

theorem okOr_ok_iff (o : Option α) (msg : String) (a : α) : okOr o msg = .ok a ↔ o = some a := by
  unfold okOr
  split <;> simp

theorem checkedSub_ok (a b c : Nat) (h : checkedSub a b = .ok c) : c + b = a := by
  unfold checkedSub at h
  split at h
  · cases h
    omega
  · cases h

theorem checkedSub_of_le (a b : Nat) (h : b ≤ a) : checkedSub a b = .ok (a - b) := if_pos h

theorem bind_ne_panic {x : Res α} {f : α → Res β} (hx : x ≠ .error .panic)
    (hf : ∀ a, x = .ok a → f a ≠ .error .panic) : x >>= f ≠ .error .panic := by
  intro h
  rcases (bind_error_iff _ _ _).1 h with h | ⟨a, ha, h⟩
  · exact hx h
  · exact hf a ha h

theorem ensure_ne_panic (c : Prop) [Decidable c] (msg : String) : ensure c msg ≠ .error .panic := by
  intro h
  cases ((ensure_error_iff _ _ _).1 h).2

/-- Whatever makes `x` fail is one of these messages, and no panic. -/
def Errors (x : Res α) (msgs : List String) : Prop :=
  ∀ e, x = .error e → ∃ msg ∈ msgs, e = .err msg

section
variable {msgs : List String}

theorem errors_ok (a : α) : Errors (.ok a : Res α) msgs := fun _ h => nomatch h

theorem errors_error (msg : String) (h : msg ∈ msgs) : Errors (.error (.err msg) : Res α) msgs := by
  intro _ he
  cases he
  exact ⟨msg, h, rfl⟩

theorem errors_ensure (c : Prop) [Decidable c] (msg : String) (h : msg ∈ msgs) :
    Errors (ensure c msg) msgs :=
  fun _ he => ⟨msg, h, ((ensure_error_iff _ _ _).1 he).2⟩

theorem errors_byteAt (b : Bytes) (i : Nat) (h : i < b.length) : Errors (byteAt b i) msgs := by
  rw [byteAt_of_lt b i h]
  exact errors_ok _

theorem errors_slice (b : Bytes) (i j : Nat) (h : i ≤ j) (hj : j ≤ b.length) :
    Errors (slice b i j) msgs := by
  rw [slice_of_le b i j h hj]
  exact errors_ok _

theorem errors_okOr (o : Option α) (msg : String) (h : msg ∈ msgs) : Errors (okOr o msg) msgs := by
  cases o with
  | none => exact errors_error msg h
  | some a => exact errors_ok a

theorem errors_checkedSub (a b : Nat) (h : b ≤ a) : Errors (checkedSub a b) msgs := by
  rw [checkedSub_of_le a b h]
  exact errors_ok _

theorem errors_bind (x : Res α) (f : α → Res β) (hx : Errors x msgs)
    (hf : ∀ a, x = .ok a → Errors (f a) msgs) : Errors (x >>= f) msgs := by
  intro e h
  rcases (bind_error_iff _ _ _).1 h with h | ⟨a, ha, h⟩
  · exact hx e h
  · exact hf a ha e h

theorem Errors.mono {msgs' : List String} {x : Res α} (h : Errors x msgs)
    (hle : ∀ msg ∈ msgs, msg ∈ msgs') : Errors x msgs' := by
  intro e he
  obtain ⟨msg, hm, rfl⟩ := h e he
  exact ⟨msg, hle msg hm, rfl⟩

theorem Errors.ne_panic {x : Res α} (h : Errors x msgs) : x ≠ .error .panic := by
  intro he
  obtain ⟨msg, -, hm⟩ := h _ he
  cases hm

end

end Res

/-! ## Stateful computations -/

namespace Act

variable {σ τ α β : Type}

theorem bind_ok_iff (x : Act σ α) (f : α → Act σ β) (s s'' : σ) (b : β) :
    (x >>= f) s = .ok b s'' ↔ ∃ a s', x s = .ok a s' ∧ f a s' = .ok b s'' := by
  show EStateM.bind x f s = _ ↔ _
  unfold EStateM.bind
  cases h : x s with
  | ok a s' => simp
  | error e s' => simp

theorem bind_error_iff (x : Act σ α) (f : α → Act σ β) (s s'' : σ) (e : Fault) :
    (x >>= f) s = .error e s'' ↔
      x s = .error e s'' ∨ ∃ a s', x s = .ok a s' ∧ f a s' = .error e s'' := by
  show EStateM.bind x f s = _ ↔ _
  unfold EStateM.bind
  cases h : x s with
  | ok a s' => simp
  | error e s' => simp

theorem bind_congr_ok {x : Act σ α} {f g : α → Act σ β} {s : σ}
    (h : ∀ a s', x s = .ok a s' → f a s' = g a s') : (x >>= f) s = (x >>= g) s := by
  show EStateM.bind x f s = EStateM.bind x g s
  unfold EStateM.bind
  cases hx : x s with
  | ok a s' => exact h a s' hx
  | error e s' => rfl

theorem lift_ok_iff (x : Res α) (a : α) (s s' : σ) :
    (lift x : Act σ α) s = .ok a s' ↔ x = .ok a ∧ s = s' := by
  unfold lift
  cases x <;> simp

theorem lift_error_iff (x : Res α) (e : Fault) (s s' : σ) :
    (lift x : Act σ α) s = .error e s' ↔ x = .error e ∧ s = s' := by
  unfold lift
  cases x <;> simp

theorem liftM_ok_iff (x : Res α) (a : α) (s s' : σ) :
    (liftM x : Act σ α) s = .ok a s' ↔ x = .ok a ∧ s = s' := lift_ok_iff x a s s'

theorem liftM_error_iff (x : Res α) (e : Fault) (s s' : σ) :
    (liftM x : Act σ α) s = .error e s' ↔ x = .error e ∧ s = s' := lift_error_iff x e s s'

theorem liftM_bind_ok_iff (x : Res α) (f : α → Act σ β) (s s' : σ) (b : β) :
    ((liftM x : Act σ α) >>= f) s = .ok b s' ↔ ∃ a, x = .ok a ∧ f a s = .ok b s' := by
  rw [bind_ok_iff]
  simp only [liftM_ok_iff]
  exact ⟨fun ⟨a, _, ⟨hx, rfl⟩, h⟩ => ⟨a, hx, h⟩, fun ⟨a, hx, h⟩ => ⟨a, s, ⟨hx, rfl⟩, h⟩⟩

theorem liftM_bind_error_iff (x : Res α) (f : α → Act σ β) (s s' : σ) (e : Fault) :
    ((liftM x : Act σ α) >>= f) s = .error e s' ↔
      x = .error e ∧ s = s' ∨ ∃ a, x = .ok a ∧ f a s = .error e s' := by
  rw [bind_error_iff]
  simp only [liftM_ok_iff, liftM_error_iff]
  exact or_congr Iff.rfl
    ⟨fun ⟨a, _, ⟨hx, rfl⟩, h⟩ => ⟨a, hx, h⟩, fun ⟨a, hx, h⟩ => ⟨a, s, ⟨hx, rfl⟩, h⟩⟩

theorem liftM_ok_bind (a : α) (f : α → Act σ β) :
    ((liftM (Except.ok a : Res α) : Act σ α) >>= f) = f a := rfl

theorem get_bind (f : σ → Act σ β) (s : σ) : ((get : Act σ σ) >>= f) s = f s s := rfl

theorem pure_ok_iff (a b : α) (s s' : σ) :
    (pure a : Act σ α) s = .ok b s' ↔ b = a ∧ s' = s := by
  show EStateM.Result.ok a s = _ ↔ _
  simp [eq_comm]

theorem zoom_ok_iff (get : σ → τ) (set : τ → σ → σ) (x : Act τ α) (s s' : σ) (a : α) :
    zoom get set x s = .ok a s' ↔ ∃ t, x (get s) = .ok a t ∧ s' = set t s := by
  unfold zoom
  cases x (get s) with
  | ok b t => simp [eq_comm]
  | error e t => simp

theorem zoom_error_iff (get : σ → τ) (set : τ → σ → σ) (x : Act τ α) (s s' : σ) (e : Fault) :
    zoom get set x s = .error e s' ↔ ∃ t, x (get s) = .error e t ∧ s' = set t s := by
  unfold zoom
  cases x (get s) with
  | ok b t => simp
  | error e' t => simp [eq_comm]

theorem value?_eq_some_iff (x : Act σ α) (s : σ) (a : α) :
    x.value? s = some a ↔ ∃ s', x s = .ok a s' := by
  unfold value?
  cases x s with
  | ok b s' => simp
  | error e s' => simp

theorem final_bind_ok {x : Act σ α} {s s' : σ} {a : α} (h : x s = .ok a s') (f : α → Act σ β) :
    (x >>= f).final s = (f a).final s' := by
  show (match EStateM.bind x f s with | .ok _ t => t | .error _ t => t) = _
  unfold EStateM.bind
  rw [h]
  rfl

theorem final_error {x : Act σ α} {s s' : σ} {e : Fault} (h : x s = .error e s') :
    x.final s = s' := by
  unfold final
  rw [h]

theorem final_ok {x : Act σ α} {s s' : σ} {a : α} (h : x s = .ok a s') : x.final s = s' := by
  unfold final
  rw [h]

theorem final_liftM_bind_pure (x : Res α) (f : α → β) (s : σ) :
    ((liftM x : Act σ α) >>= fun a => pure (f a)).final s = s := by
  cases x with
  | ok a => rfl
  | error e => rfl

theorem pure_ne_error (a : α) (s s' : σ) (e : Fault) : (pure a : Act σ α) s ≠ .error e s' :=
  fun h => nomatch h

/-! ## Pre- and postconditions -/

/-- From a state in `I` the run ends in `I`; a value it returns satisfies `Q`, a
fault `E`. -/
def Triple (I : σ → Prop) (x : Act σ α) (Q : α → Prop) (E : Fault → Prop) : Prop :=
  ∀ s, I s → (∀ a s', x s = .ok a s' → Q a ∧ I s') ∧ ∀ e s', x s = .error e s' → E e ∧ I s'

section
variable {I : σ → Prop} {Q : α → Prop} {R : β → Prop} {E : Fault → Prop}

theorem triple_pure (a : α) (h : Q a) : Triple I (pure a) Q E := by
  intro s hs
  refine ⟨fun b s' hb => ?_, fun e s' he => (pure_ne_error _ _ _ _ he).elim⟩
  obtain ⟨rfl, rfl⟩ := (pure_ok_iff _ _ _ _).1 hb
  exact ⟨h, hs⟩

theorem triple_get : Triple I (get : Act σ σ) I E := by
  intro s hs
  refine ⟨fun a s' ha => ?_, fun e s' he => nomatch he⟩
  cases ha
  exact ⟨hs, hs⟩

theorem triple_set (t : σ) (ht : I t) : Triple I (set t : Act σ PUnit) (fun _ => True) E := by
  intro s _
  refine ⟨fun a s' ha => ?_, fun e s' he => nomatch he⟩
  cases ha
  exact ⟨trivial, ht⟩

theorem triple_lift (x : Res α) (h : ∀ e, x = .error e → E e) :
    Triple I (liftM x : Act σ α) (fun a => x = .ok a) E := by
  intro s hs
  refine ⟨fun a s' ha => ?_, fun e s' he => ?_⟩
  · obtain ⟨hx, rfl⟩ := (liftM_ok_iff _ _ _ _).1 ha
    exact ⟨hx, hs⟩
  · obtain ⟨hx, rfl⟩ := (liftM_error_iff _ _ _ _).1 he
    exact ⟨h e hx, hs⟩

theorem triple_ensure (c : Prop) [Decidable c] (msg : String) (h : ¬ c → E (.err msg)) :
    Triple I (liftM (ensure c msg) : Act σ Unit) (fun _ => c) E := by
  intro s hs
  obtain ⟨h1, h2⟩ := triple_lift (I := I) (E := E) (ensure c msg) (fun e he => by
    obtain ⟨hc, rfl⟩ := (Res.ensure_error_iff _ _ _).1 he
    exact h hc) s hs
  refine ⟨fun a s' ha => ?_, h2⟩
  obtain ⟨hc, hs'⟩ := h1 a s' ha
  exact ⟨(Res.ensure_ok_iff _ _ _).1 hc, hs'⟩

theorem triple_bind (x : Act σ α) (f : α → Act σ β) (hx : Triple I x Q E)
    (hf : ∀ a, Q a → Triple I (f a) R E) : Triple I (x >>= f) R E := by
  intro s hs
  obtain ⟨hok, herr⟩ := hx s hs
  refine ⟨fun b s'' hb => ?_, fun e s'' he => ?_⟩
  · obtain ⟨a, s', ha, hb⟩ := (bind_ok_iff _ _ _ _ _).1 hb
    obtain ⟨hq, hs'⟩ := hok a s' ha
    exact (hf a hq s' hs').1 b s'' hb
  · rcases (bind_error_iff _ _ _ _ _).1 he with he | ⟨a, s', ha, he⟩
    · exact herr e s'' he
    · obtain ⟨hq, hs'⟩ := hok a s' ha
      exact (hf a hq s' hs').2 e s'' he

theorem Triple.final {x : Act σ α} (h : Triple I x Q E) {s : σ} (hs : I s) : I (x.final s) := by
  unfold Act.final
  obtain ⟨hok, herr⟩ := h s hs
  split
  · next heq => exact (hok _ _ heq).2
  · next heq => exact (herr _ _ heq).2

theorem Triple.mono {Q' : α → Prop} {E' : Fault → Prop} (x : Act σ α) (hx : Triple I x Q E)
    (hq : ∀ a, Q a → Q' a) (he : ∀ e, E e → E' e) : Triple I x Q' E' := fun s hs =>
  ⟨fun a s' ha => ⟨hq a ((hx s hs).1 a s' ha).1, ((hx s hs).1 a s' ha).2⟩,
    fun e s' h => ⟨he e ((hx s hs).2 e s' h).1, ((hx s hs).2 e s' h).2⟩⟩

end

/-! ## Which runs panic -/

/-- A fault is a panic exactly if `bad`. -/
def PanicIf (bad : Prop) (e : Fault) : Prop := e = .panic ↔ bad

theorem panicIf_of_ne_panic (x : Res α) (h : x ≠ .error .panic) (e : Fault) (he : x = .error e) :
    PanicIf False e := iff_of_false (fun hp => h (hp ▸ he)) id

theorem triple_safe {I : σ → Prop} (x : Res α) (h : x ≠ .error .panic) :
    Triple I (liftM x : Act σ α) (fun a => x = .ok a) (PanicIf False) :=
  triple_lift x (panicIf_of_ne_panic x h)

theorem panicIf_err (bad : Prop) (msg : String) (h : ¬ bad) : PanicIf bad (.err msg) :=
  iff_of_false (fun h => nomatch h) h

theorem triple_check {I : σ → Prop} (c : Prop) [Decidable c] (msg : String) :
    Triple I (liftM (ensure c msg) : Act σ Unit) (fun _ => c) (PanicIf False) :=
  triple_ensure c msg fun _ => panicIf_err False msg id

theorem panicIf_congr {bad bad' : Prop} (h : bad ↔ bad') (e : Fault) (he : PanicIf bad e) :
    PanicIf bad' e := Iff.trans he h

end Act
