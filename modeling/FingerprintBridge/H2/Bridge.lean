import FingerprintBridge.H2.Forward

/-!
# `h2::bridge`: two directions and their limits

`c` are the limits of the origin, which `responses` stores and `requests` loads;
`s` are the client's, the other way round.  A task gives way only where it reads
or writes, and a pass of its loop touches the limits at one point in between: the
stores for a SETTINGS frame, or the two loads after a whole header group.  So the
passes of the two tasks interleave as wholes; a schedule is a list of directions.
The writes come last in a pass, and `output` is what they were handed: the task may wait
in them while the other one runs, and what goes out when is left to `World` (`H2.Race`).
-/

namespace H2

open HpackWire (HpackCrate HeaderRewriter)

/-! ## The system -/

/-- Where the `requests` task is. -/
inductive Phase where
  | preface
  | frames
  | done
deriving DecidableEq, Repr

structure Bridge (D : HpackCrate) where
  requests : Task D
  responses : Task D
  c : PeerLimits
  s : PeerLimits
  phase : Phase
  /-- how `bridge` returned -/
  ended : Option (Res Unit)

section
variable {D : HpackCrate} {U : UrlCrate}

namespace Bridge

/-- `client` and `origin` are the octets the two peers send. -/
def new (D : HpackCrate) (client origin : Bytes) : Bridge D :=
  { requests := Task.new D client .new, responses := Task.new D origin .new,
    c := .new, s := .new, phase := .preface, ended := none }

def task (b : Bridge D) (response : Bool) : Task D := if response then b.responses else b.requests

/-- `direction(cr, uw, &mapping, false, c.clone(), s.clone())` -/
def requestsStep (m : Mapping U) (b : Bridge D) : Bridge D :=
  match b.phase with
  | .preface =>
    match preface false b.requests with
    | .ok _ t => { b with requests := t, phase := .frames }
    | .error e t => { b with requests := t, ended := some (.error e) }
  | .frames =>
    match pass m false b.c { b.requests with other := b.s } with
    | .ok more t =>
      { b with requests := t, s := t.other, phase := if more then .frames else .done }
    | .error e t => { b with requests := t, s := t.other, ended := some (.error e) }
  | .done => b

/-- `direction(ur, cw, &mapping, true, s, c)`; the bridge ends with it. -/
def responsesStep (m : Mapping U) (b : Bridge D) : Bridge D :=
  match pass m true b.s { b.responses with other := b.c } with
  | .ok more t =>
    { b with responses := t, c := t.other, ended := if more then none else some (.ok ()) }
  | .error e t => { b with responses := t, c := t.other, ended := some (.error e) }

/-- `select!` polls one of the two tasks, which runs to the writes at the end of a pass. -/
def step (m : Mapping U) (b : Bridge D) (response : Bool) : Bridge D :=
  if b.ended.isSome then b
  else if response then b.responsesStep m
  else b.requestsStep m

def run (m : Mapping U) (b : Bridge D) (schedule : List Bool) : Bridge D :=
  schedule.foldl (step m) b

/-- The limits of the peer that a direction writes to. -/
def limits (b : Bridge D) (response : Bool) : PeerLimits := if response then b.s else b.c

/-- The task that is polled: it stores into the limits that the other one loads. -/
def loaded (b : Bridge D) (r : Bool) : Task D := { b.task r with other := b.limits (!r) }

/-- The bridge after a poll that left the task `t`. -/
def stored (b : Bridge D) (r : Bool) (t : Task D) : Bridge D :=
  if r then { b with responses := t, c := t.other } else { b with requests := t, s := t.other }

@[simp] theorem task_stored (b : Bridge D) (r : Bool) (t : Task D) : (b.stored r t).task r = t := by
  cases r <;> rfl

@[simp] theorem task_stored_not (b : Bridge D) (r : Bool) (t : Task D) :
    (b.stored r t).task (!r) = b.task (!r) := by
  cases r <;> rfl

@[simp] theorem limits_stored (b : Bridge D) (r : Bool) (t : Task D) :
    (b.stored r t).limits r = b.limits r := by
  cases r <;> rfl

@[simp] theorem limits_stored_not (b : Bridge D) (r : Bool) (t : Task D) :
    (b.stored r t).limits (!r) = t.other := by
  cases r <;> rfl

@[simp] theorem phase_stored (b : Bridge D) (r : Bool) (t : Task D) :
    (b.stored r t).phase = b.phase := by
  cases r <;> rfl

@[simp] theorem ended_stored (b : Bridge D) (r : Bool) (t : Task D) :
    (b.stored r t).ended = b.ended := by
  cases r <;> rfl

end Bridge

/-! ## What happened -/

inductive Event where
  | preface
  | forward (response : Bool) (item : Item) (out : List Frame)
  /-- the end of a stream or of the bridge -/
  | quiet

namespace Event

/-- The octets written in a direction. -/
def wrote (response : Bool) : Event → Bytes
  | preface => if response then [] else PREFACE
  | forward r _ out => if r = response then out.flatMap Frame.encode else []
  | quiet => []

/-- The octets read in a direction, as far as something was passed on for them. -/
def read (response : Bool) : Event → Bytes
  | preface => if response then [] else PREFACE
  | forward r x _ => if r = response then x.frames.flatMap Frame.encode else []
  | quiet => []

/-- The settings advertised by the peer that a direction reads from. -/
def settings (response : Bool) : Event → List (UInt16 × UInt32)
  | forward r x _ => if r = response then x.frames.flatMap advertised else []
  | _ => []

end Event

/-- The step from `b` to `b'` read and wrote what `e` says. -/
structure Did (b : Bridge D) (e : Event) (b' : Bridge D) : Prop where
  wrote : ∀ r, (b'.task r).output = (b.task r).output ++ e.wrote r
  read : b'.ended = none → ∀ r, (b.task r).input = e.read r ++ (b'.task r).input

/-- A run from `b` along a schedule, with a log of what happened. -/
inductive Run (m : Mapping U) (b : Bridge D) : List Bool → List Event → Bridge D → Prop where
  | nil : Run m b [] [] b
  | snoc {schedule : List Bool} {log : List Event} {b1 : Bridge D} (r : Bool) (e : Event) :
      Run m b schedule log b1 → Did b1 e (b1.step m r) →
      Run m b (schedule ++ [r]) (log ++ [e]) (b1.step m r)

/-! ## One step -/

/-- **What one step can do** while the bridge lives. -/
inductive Stepped (m : Mapping U) (b : Bridge D) : Bool → Bridge D → Prop where
  | preface (t : Task D) : b.phase = .preface → H2.preface false b.requests = .ok () t →
      Stepped m b false { b with requests := t, phase := .frames }
  | noPreface (e : Fault) (t : Task D) : b.phase = .preface →
      H2.preface false b.requests = .error e t →
      Stepped m b false { b with requests := t, ended := some (.error e) }
  | passed (r : Bool) (x : Item) (out : List Frame) (t : Task D) : (r = false → b.phase = .frames) →
      PassStep m r (b.limits r) (b.loaded r) x out t → Stepped m b r (b.stored r t)
  | failed (r : Bool) (e : Fault) (t : Task D) : (r = false → b.phase = .frames) →
      pass m r (b.limits r) (b.loaded r) = .error e t →
      Stepped m b r { b.stored r t with ended := some (.error e) }
  | eof : b.phase = .frames → b.requests.input = [] →
      Stepped m b false { b.stored false (b.loaded false) with phase := .done }
  | finished : b.responses.input = [] →
      Stepped m b true { b.stored true (b.loaded true) with ended := some (.ok ()) }
  | done : b.phase = .done → Stepped m b false b

theorem requestsStep_cases (m : Mapping U) (b : Bridge D) :
    Stepped m b false (b.requestsStep m) := by
  unfold Bridge.requestsStep
  cases hphase : b.phase with
  | preface =>
    simp only
    cases hp : preface false b.requests with
    | ok u t => exact .preface t hphase hp
    | error e t =>
      rw [← hphase]
      exact .noPreface e t hphase hp
  | frames =>
    simp only
    cases hp : pass m false b.c { b.requests with other := b.s } with
    | ok more t =>
      rcases pass_ok _ _ _ _ _ _ hp with ⟨rfl, hin, rfl⟩ | ⟨rfl, x, out, hstep⟩
      · exact .eof hphase hin
      · simp only [if_true]
        rw [← hphase]
        exact .passed false x out t (fun _ => hphase) hstep
    | error e t =>
      rw [← hphase]
      exact .failed false e t (fun _ => hphase) hp
  | done => exact .done hphase

theorem responsesStep_cases (m : Mapping U) (b : Bridge D) (hb : b.ended = none) :
    Stepped m b true (b.responsesStep m) := by
  have hr : true = false → b.phase = .frames := fun h => nomatch h
  unfold Bridge.responsesStep
  cases hp : pass m true b.s { b.responses with other := b.c } with
  | ok more t =>
    rcases pass_ok _ _ _ _ _ _ hp with ⟨rfl, hin, rfl⟩ | ⟨rfl, x, out, hstep⟩
    · exact .finished hin
    · simp only [if_true]
      rw [← hb]
      exact .passed true x out t hr hstep
  | error e t => exact .failed true e t hr hp

theorem step_cases (m : Mapping U) (b : Bridge D) (r : Bool) (hb : b.ended = none) :
    Stepped m b r (b.step m r) := by
  unfold Bridge.step
  rw [hb]
  cases r with
  | true => exact responsesStep_cases m b hb
  | false => exact requestsStep_cases m b

theorem step_of_ended (m : Mapping U) (b : Bridge D) (r : Bool) (res : Res Unit)
    (hb : b.ended = some res) : b.step m r = b := by
  unfold Bridge.step
  rw [hb]
  rfl

/-- The effect of a step on the system. -/
inductive Happened (m : Mapping U) (b : Bridge D) : Event → Bridge D → Prop where
  | preface {b' : Bridge D} : b.phase = .preface → b'.phase = .frames →
      (∀ r, b'.limits r = b.limits r) → (∀ r, (b'.task r).decoder = (b.task r).decoder) →
      Happened m b .preface b'
  | forward {b' : Bridge D} (r : Bool) (x : Item) (out : List Frame) :
      PassStep m r (b.limits r) (b.loaded r) x out (b'.task r) →
      (b'.task (!r)).decoder = (b.task (!r)).decoder → (r = false → b.phase = .frames) →
      b'.phase = b.phase → b'.limits r = b.limits r →
      b'.limits (!r) = applySettings (x.frames.flatMap advertised) (b.limits (!r)) →
      Happened m b (.forward r x out) b'
  | quiet {b' : Bridge D} : (b'.phase = .preface ↔ b.phase = .preface) →
      (b'.ended = none → (∀ r, b'.limits r = b.limits r) ∧
        ∀ r, (b'.task r).decoder = (b.task r).decoder) →
      Happened m b .quiet b'

/-- A fact about both directions holds of one and of the other. -/
theorem both_directions (r : Bool) {p : Bool → Prop} (h : p r) (h' : p (!r)) : ∀ r', p r' := by
  intro r'
  cases r <;> cases r' <;> assumption

theorem Stepped.did {m : Mapping U} {b b' : Bridge D} {r : Bool} (h : Stepped m b r b') :
    ∃ e, Did b e b' ∧ Happened m b e b' ∧ ∀ r' x out, e = .forward r' x out → r' = r := by
  -- a step that goes wrong
  have hquiet : ∀ b' : Bridge D, (∀ r, (b'.task r).output = (b.task r).output) →
      b'.ended ≠ none → (b'.phase = .preface ↔ b.phase = .preface) →
      ∃ e, Did b e b' ∧ Happened m b e b' ∧ ∀ r' x out, e = .forward r' x out → r' = r := by
    intro b' hout hended hphase
    refine ⟨.quiet, ⟨fun r => ?_, fun h => (hended h).elim⟩,
      .quiet hphase fun h => (hended h).elim, fun _ _ _ h => by cases h⟩
    rw [hout r]
    exact (List.append_nil _).symm
  cases h with
  | preface t hphase hp =>
    obtain ⟨h1, h2⟩ := preface_ok _ _ _ _ hp
    have hout : t.output = b.requests.output ++ PREFACE := by rw [h2]; rfl
    have hdec : t.decoder = b.requests.decoder := by rw [h2]
    refine ⟨.preface, ⟨both_directions false hout ?_, fun _ => both_directions false h1 rfl⟩,
      .preface hphase rfl (both_directions false rfl rfl) (both_directions false hdec rfl),
      fun _ _ _ h => by cases h⟩
    exact (List.append_nil _).symm
  | noPreface e t hphase hp =>
    refine hquiet _ (both_directions false ?_ rfl) (fun h => nomatch h) Iff.rfl
    exact preface_error _ _ _ _ hp
  | passed r x out t hframes hstep =>
    refine ⟨.forward r x out, ⟨both_directions r ?_ ?_, fun _ => both_directions r ?_ ?_⟩,
      .forward r x out (by rwa [Bridge.task_stored]) ?_ hframes (by simp) (by simp) ?_,
      fun _ _ _ h => by cases h; rfl⟩
    · rw [Bridge.task_stored, hstep.output, Event.wrote, if_pos rfl]
      rfl
    · rw [Bridge.task_stored_not, Event.wrote, if_neg (by cases r <;> decide), List.append_nil]
    · rw [Bridge.task_stored, Event.read, if_pos rfl]
      exact hstep.input
    · rw [Bridge.task_stored_not, Event.read, if_neg (by cases r <;> decide), List.nil_append]
    · rw [Bridge.task_stored_not]
    · rw [Bridge.limits_stored_not]
      exact hstep.other
  | failed r e t hframes hp =>
    refine hquiet _ (both_directions r ?_ ?_) (fun h => nomatch h) ?_
    · have hout := pass_error _ _ _ _ _ _ hp
      cases r <;> exact hout
    · cases r <;> rfl
    · cases r <;> exact Iff.rfl
  | eof hphase hin =>
    refine ⟨.quiet, ⟨both_directions false ?_ ?_, fun _ => both_directions false rfl rfl⟩,
      .quiet ?_ fun _ => ⟨both_directions false rfl rfl, both_directions false rfl rfl⟩,
      fun _ _ _ h => by cases h⟩
    · exact (List.append_nil _).symm
    · exact (List.append_nil _).symm
    · rw [hphase]
      exact iff_of_false (fun h => nomatch h) fun h => nomatch h
  | finished hin =>
    refine hquiet _ (both_directions true rfl rfl) (fun h => nomatch h) ?_
    exact Iff.rfl
  | done hphase =>
    exact ⟨.quiet, ⟨fun r => (List.append_nil _).symm, fun _ r => rfl⟩,
      .quiet Iff.rfl fun _ => ⟨fun _ => rfl, fun _ => rfl⟩, fun _ _ _ h => by cases h⟩

theorem step_did (m : Mapping U) (b : Bridge D) (r : Bool) :
    ∃ e, Did b e (b.step m r) ∧ Happened m b e (b.step m r) ∧
      ∀ r' x out, e = .forward r' x out → b.ended = none := by
  cases hb : b.ended with
  | some res =>
    rw [step_of_ended m b r res hb]
    exact ⟨.quiet, ⟨fun r => (List.append_nil _).symm, fun _ r => rfl⟩,
      .quiet Iff.rfl fun _ => ⟨fun _ => rfl, fun _ => rfl⟩, fun _ _ _ h => by cases h⟩
  | none =>
    obtain ⟨e, hdid, hh, -⟩ := (step_cases m b r hb).did
    exact ⟨e, hdid, hh, fun _ _ _ _ => rfl⟩

/-- The bridge does not come back to life. -/
theorem step_ended (m : Mapping U) (b : Bridge D) (r : Bool) (h : (b.step m r).ended = none) :
    b.ended = none := by
  cases hb : b.ended with
  | none => rfl
  | some res => rw [step_of_ended m b r res hb, hb] at h; exact h

/-- A step that fails writes nothing, in neither direction. -/
theorem step_failed (m : Mapping U) (b : Bridge D) (r : Bool) (e : Fault) (hb : b.ended = none)
    (h : (b.step m r).ended = some (.error e)) :
    ∀ r', ((b.step m r).task r').output = (b.task r').output := by
  have hs := step_cases m b r hb
  generalize b.step m r = b' at h hs
  cases hs with
  | preface t hphase hp => exact absurd (hb.symm.trans h) fun h => nomatch h
  | noPreface e' t hphase hp => exact both_directions false (preface_error _ _ _ _ hp) rfl
  | passed r x out t hframes hstep =>
    rw [Bridge.ended_stored, hb] at h
    cases h
  | failed r e' t hframes hp =>
    have hout := pass_error _ _ _ _ _ _ hp
    cases r with
    | true => exact both_directions true hout rfl
    | false => exact both_directions false hout rfl
  | eof hphase hin => exact both_directions false rfl rfl
  | finished hin => exact both_directions true rfl rfl
  | done hphase => exact fun r' => rfl

/-! ## Limits -/

/-- The value of a setting after `entries`: the last one with its id. -/
def lastSetting (id : UInt16) (initial : Nat) (entries : List (UInt16 × UInt32)) : Nat :=
  ((entries.filter (·.1 = id)).getLast?.map (·.2.toNat)).getD initial

theorem lastSetting_cons (id : UInt16) (initial : Nat) (e : UInt16 × UInt32)
    (entries : List (UInt16 × UInt32)) : lastSetting id initial (e :: entries) =
      lastSetting id (if e.1 = id then e.2.toNat else initial) entries := by
  unfold lastSetting
  rw [List.filter_cons]
  by_cases he : e.1 = id
  · rw [if_pos (by simpa using he), if_pos he, List.getLast?_cons]
    cases (entries.filter (·.1 = id)).getLast? with
    | none => rfl
    | some x => rfl
  · rw [if_neg (by simpa using he), if_neg he]

/-- The stores leave the last values. -/
theorem applySettings_eq (entries : List (UInt16 × UInt32)) : ∀ limits : PeerLimits,
    (applySettings entries limits).table = lastSetting 1 limits.table entries ∧
      (applySettings entries limits).frame = lastSetting 5 limits.frame entries := by
  induction entries with
  | nil => exact fun limits => ⟨rfl, rfl⟩
  | cons e entries ih =>
    intro limits
    obtain ⟨id, value⟩ := e
    rw [applySettings, lastSetting_cons, lastSetting_cons]
    obtain ⟨h1, h2⟩ := ih (if id = 1 then { limits with table := value.toNat }
      else if id = 5 then { limits with frame := value.toNat } else limits)
    rw [h1, h2]
    by_cases hid : id = 1
    · subst hid
      exact ⟨rfl, rfl⟩
    · rw [if_neg hid, if_neg hid]
      by_cases hid5 : id = 5
      · subst hid5
        exact ⟨rfl, rfl⟩
      · rw [if_neg hid5, if_neg hid5]
        exact ⟨rfl, rfl⟩

theorem applySettings_append (es fs : List (UInt16 × UInt32)) : ∀ limits : PeerLimits,
    applySettings (es ++ fs) limits = applySettings fs (applySettings es limits) := by
  induction es with
  | nil => exact fun _ => rfl
  | cons e es ih => exact fun limits => ih _

/-- The settings a log has seen from the peer that a direction reads from. -/
def settingsOf (response : Bool) (log : List Event) : List (UInt16 × UInt32) :=
  log.flatMap (Event.settings response)

theorem settingsOf_snoc (response : Bool) (log : List Event) (e : Event) :
    settingsOf response (log ++ [e]) = settingsOf response log ++ e.settings response := by
  unfold settingsOf
  rw [List.flatMap_append, List.flatMap_singleton]

/-- As long as the bridge lives its limits are what each peer advertised last. -/
def LimitsFollow (log : List Event) (b : Bridge D) : Prop :=
  b.ended = none → ∀ r, b.limits r = applySettings (settingsOf (!r) log) .new

theorem Happened.limits {m : Mapping U} {b b' : Bridge D} {e : Event} (h : Happened m b e b')
    (hb' : b'.ended = none) :
    ∀ r, b'.limits r = applySettings (e.settings (!r)) (b.limits r) := by
  cases h with
  | preface _ _ hl _ => exact hl
  | quiet _ hq => exact (hq hb').1
  | forward r x out hstep _ _ _ hsame hother =>
    refine both_directions r ?_ ?_
    · rw [hsame]
      cases r <;> rfl
    · rw [hother]
      cases r <;> rfl

/-- The frames of a group written to a peer keep to what it advertised. -/
structure Honours (r : Bool) (before : List Event) (out : List Frame) : Prop where
  frame : ∀ f ∈ out, f.kind = 1 ∨ f.kind = 9 →
    f.payload.length ≤ lastSetting 5 16384 (settingsOf (!r) before)
  table : ∀ first rest, out = first :: rest → first.kind = 1 →
    ∃ front padding fragment reps, Parts first front padding fragment ∧
      Parser.all Hpack.rep (fragment ++ rest.flatMap Frame.payload) = some reps ∧
      ∀ head n, .sizeUpdate head n ∈ reps →
        n ≤ min 65536 (lastSetting 1 4096 (settingsOf (!r) before))

theorem updatesOk_mem (limit : Nat) (reps : List Hpack.Rep) : ∀ fields,
    Hpack.updatesOk limit fields reps = true →
    ∀ head n, .sizeUpdate head n ∈ reps → n ≤ limit := by
  induction reps with
  | nil => exact fun _ _ head n hn => by cases hn
  | cons r reps ih =>
    intro fields h head n hn
    cases r with
    | indexed head' i =>
      rcases List.mem_cons.1 hn with hn | hn
      · cases hn
      · exact ih true h head n hn
    | literal mode head' name value =>
      rcases List.mem_cons.1 hn with hn | hn
      · cases hn
      · exact ih true h head n hn
    | sizeUpdate head' n' =>
      simp only [Hpack.updatesOk, Bool.and_eq_true, decide_eq_true_eq] at h
      rcases List.mem_cons.1 hn with hn | hn
      · cases hn
        exact h.1.2
      · exact ih fields h.2 head n hn

/-- A pass keeps to the limits it loads. -/
theorem PassStep.honours {m : Mapping U} {r : Bool} {limits : PeerLimits} {t t' : Task D} {x : Item}
    {out : List Frame} {before : List Event} (h : PassStep m r limits t x out t')
    (hl : limits = applySettings (settingsOf (!r) before) .new) : Honours r before out := by
  obtain ⟨htable, hframe⟩ := applySettings_eq (settingsOf (!r) before) .new
  rw [← hl] at htable hframe
  have hp := h.passed
  cases x with
  | single f =>
    obtain ⟨h1, -, h9, rfl, -⟩ := hp
    refine ⟨fun g hg hk => ?_, fun first rest he hk => ?_⟩
    · rw [List.mem_singleton.1 hg] at hk
      rcases hk with hk | hk
      · exact absurd hk h1
      · exact absurd hk h9
    · cases he
      exact absurd hk h1
  | group first rest =>
    obtain ⟨first', rest', rfl, hre⟩ := hp
    refine ⟨fun g hg _ => ?_, fun f fs he _ => ?_⟩
    · have := hre.length g hg
      rw [hframe] at this
      exact this
    · cases he
      obtain ⟨front, padding, fragment, fragment', -, hparts, hrw⟩ := hre.block
      obtain ⟨vs, ws, l', ht, -, hout, -⟩ := HpackWire.rewrite_ok _ _ _ hrw
      refine ⟨front, padding, fragment', ws, hparts, ?_, ?_⟩
      · rw [hout]
        exact Hpack.all_rep_octets _ ht.wellFormed.2
      · intro head n hn
        have := updatesOk_mem _ _ _ ht.updatesOk.2 head n hn
        rw [htable, Nat.min_comm] at this
        exact this

end

/-- What a run keeps: the limits follow the log, and every event so far honoured them. -/
structure RunInv {D : HpackCrate} (log : List Event) (b : Bridge D) : Prop where
  limits : LimitsFollow log b
  honoured : ∀ before r x out after, log = before ++ .forward r x out :: after →
    Honours r before out

theorem runInv_new (D : HpackCrate) (client origin : Bytes) :
    RunInv [] (Bridge.new D client origin) := by
  refine ⟨fun _ r => ?_, fun before r x out after h => ?_⟩
  · cases r <;> rfl
  · simp at h

theorem RunInv.step {D : HpackCrate} {U : UrlCrate} {m : Mapping U} {log : List Event}
    {b : Bridge D} (h : RunInv log b) (r : Bool) (e : Event) (hh : Happened m b e (b.step m r))
    (hlive : ∀ r' x out, e = .forward r' x out → b.ended = none) :
    RunInv (log ++ [e]) (b.step m r) := by
  refine ⟨fun hb' r' => ?_, fun before r' x out after heq => ?_⟩
  · have hb := step_ended m b r hb'
    rw [hh.limits hb' r', h.limits hb r', settingsOf_snoc, applySettings_append]
  · rcases List.eq_nil_or_concat after with rfl | ⟨after', last, rfl⟩
    · obtain ⟨rfl, he⟩ := List.append_inj' heq rfl
      obtain rfl : e = .forward r' x out := List.singleton_inj.1 he
      have hb := hlive r' x out rfl
      cases hh with
      | forward _ _ _ hstep _ _ _ _ _ => exact hstep.honours (h.limits hb r')
    · rw [List.concat_eq_append, ← List.cons_append, ← List.append_assoc] at heq
      exact h.honoured before r' x out after' (List.append_inj' heq rfl).1

/-- **Peer limits are honoured.**  On every schedule of the two tasks, each group
written keeps to the settings that the peer it goes to had advertised last, of
those processed before; the other peer's do not enter. -/
theorem bridge_honours_limits (D : HpackCrate) (U : UrlCrate) (m : Mapping U)
    (client origin : Bytes) (schedule : List Bool) :
    ∃ log, Run m (Bridge.new D client origin) schedule log
        ((Bridge.new D client origin).run m schedule) ∧
      ∀ before r x out after, log = before ++ .forward r x out :: after →
        Honours r before out := by
  suffices h : ∃ log, Run m (Bridge.new D client origin) schedule log
      ((Bridge.new D client origin).run m schedule) ∧
      RunInv log ((Bridge.new D client origin).run m schedule) by
    obtain ⟨log, hrun, hinv⟩ := h
    exact ⟨log, hrun, hinv.honoured⟩
  induction schedule using List.reverseRecOn with
  | nil => exact ⟨[], .nil, runInv_new D client origin⟩
  | append_singleton schedule r ih =>
    obtain ⟨log, hrun, hinv⟩ := ih
    have hsnoc : (Bridge.new D client origin).run m (schedule ++ [r]) =
        ((Bridge.new D client origin).run m schedule).step m r := by
      unfold Bridge.run
      rw [List.foldl_append]
      rfl
    obtain ⟨e, hdid, hh, hlive⟩ := step_did m ((Bridge.new D client origin).run m schedule) r
    rw [hsnoc]
    exact ⟨log ++ [e], .snoc r e hrun hdid, hinv.step r e hh hlive⟩

end H2
