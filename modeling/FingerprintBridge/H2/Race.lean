import FingerprintBridge.H2.Rejection
import Mathlib.Logic.Function.Basic
import Mathlib.Logic.Relation

/-!
# SETTINGS in flight

The bridge keeps to a SETTINGS frame from when it has read it, the peer it is for from
when it has received it, and the bridge does not wait for the acknowledgement.  A header
group may cross the frame on the way, so it may be rejected for a limit that its sender
had not heard of (`races_reject`), but for no other one (`limits_overtaken`).

A pass stores the limits before it writes the frame on, and may wait in the write while
the other task runs: what a pass hands to its writer goes out in steps of its own.
-/

namespace H2

open HpackWire (HpackCrate HeaderRewriter tableLimit boundedCrate)

/-! ## Values of a setting -/

theorem lastSetting_append (id : UInt16) (es fs : List (UInt16 × UInt32)) : ∀ i,
    lastSetting id i (es ++ fs) = lastSetting id (lastSetting id i es) fs := by
  induction es with
  | nil => exact fun i => rfl
  | cons e es ih =>
    intro i
    rw [List.cons_append, lastSetting_cons, lastSetting_cons, ih]

theorem lastSetting_le (id : UInt16) (bound : Nat) (es : List (UInt16 × UInt32))
    (h : ∀ v, (id, v) ∈ es → v.toNat ≤ bound) : ∀ i, i ≤ bound → lastSetting id i es ≤ bound := by
  induction es with
  | nil => exact fun i hi => hi
  | cons e es ih =>
    intro i hi
    rw [lastSetting_cons]
    refine ih (fun v hv => h v (List.mem_cons_of_mem _ hv)) _ ?_
    split
    · next he => exact h e.2 (he ▸ List.mem_cons_self)
    · exact hi

/-- A value that falls below `n` is set below `n`. -/
theorem lastSetting_lt (id : UInt16) (n : Nat) (es : List (UInt16 × UInt32)) : ∀ i, n ≤ i →
    lastSetting id i es < n → lastSetting id n es < n := by
  induction es with
  | nil => exact fun i hi h => absurd h (Nat.not_lt.2 hi)
  | cons e es ih =>
    intro i hi h
    rw [lastSetting_cons] at h ⊢
    by_cases he : e.1 = id
    · rw [if_pos he] at h ⊢
      exact h
    · rw [if_neg he] at h ⊢
      exact ih i hi h

def settingsIn (fs : List Frame) : List (UInt16 × UInt32) := fs.flatMap advertised

/-- Only SETTINGS frames count. -/
theorem settingsIn_filter (p : Frame → Bool) (hp : ∀ f : Frame, f.kind = 4 → p f = true)
    (fs : List Frame) : settingsIn (fs.filter p) = settingsIn fs := by
  induction fs with
  | nil => rfl
  | cons f fs ih =>
    unfold settingsIn at ih ⊢
    by_cases hf : p f = true
    · rw [List.filter_cons_of_pos hf, List.flatMap_cons, List.flatMap_cons, ih]
    · have hne : f.kind ≠ 4 := fun h4 => hf (hp f h4)
      rw [List.filter_cons_of_neg hf, List.flatMap_cons, advertised_of_ne f hne, ih, List.nil_append]

def isSettings (f : Frame) : Bool := f.kind = 4

theorem settingsIn_settings (fs : List Frame) : settingsIn (fs.filter isSettings) = settingsIn fs :=
  settingsIn_filter isSettings (fun _ h => decide_eq_true h) fs

/-! ## The peers -/

/-- A frame, and the frames that its sender had received when it sent it. -/
structure Sending where
  seen : List Frame
  frame : Frame

/-- One end of the connection. -/
structure Peer where
  /-- the frames sent, taken together in header groups -/
  sent : List (List Sending)
  /-- the frames of a group that is not whole yet -/
  started : List Sending
  received : List Frame

def Peer.new : Peer := { sent := [], started := [], received := [] }

/-- The bridge between its peers: `peer r` sends what direction `r` reads. -/
structure World (D : HpackCrate) where
  bridge : Bridge D
  /-- the octets that the writer of a direction has taken, of those the passes handed to it -/
  written : Bool → Bytes
  peer : Bool → Peer

/-- The frame keeps to the limits that its sender has received, and advertises no table
above 65536. -/
structure Obeys (p : Sending) : Prop where
  wellFormed : p.frame.WellFormed
  frame : p.frame.payload.length ≤ lastSetting 5 16384 (settingsIn p.seen)
  advertised : ∀ v, (1, v) ∈ advertised p.frame → v.toNat ≤ 65536

/-- The frames `s` are one item; its size updates were allowed when a frame of it was sent. -/
def Whole (s : List Sending) : Prop :=
  ∃ x reps, x.frames = s.map Sending.frame ∧ IsItem x ∧ HasBlock x reps ∧
    ∀ head n, .sizeUpdate head n ∈ reps → ∃ p ∈ s, n ≤ lastSetting 1 4096 (settingsIn p.seen)

def octets (s : List Sending) : Bytes := (s.map Sending.frame).flatMap Frame.encode

/-! ## Steps of the world -/

section
variable {D : HpackCrate} {U : UrlCrate}

namespace Bridge

/-- Octets arrive that direction `r` reads. -/
def arrive (b : Bridge D) (r : Bool) (octets : Bytes) : Bridge D :=
  if r then { b with responses := { b.responses with input := b.responses.input ++ octets } }
  else { b with requests := { b.requests with input := b.requests.input ++ octets } }

@[simp] theorem input_arrive (b : Bridge D) (r : Bool) (o : Bytes) :
    ((b.arrive r o).task r).input = (b.task r).input ++ o := by
  cases r <;> rfl

@[simp] theorem input_arrive_not (b : Bridge D) (r : Bool) (o : Bytes) :
    ((b.arrive r o).task (!r)).input = (b.task (!r)).input := by
  cases r <;> rfl

@[simp] theorem output_arrive (b : Bridge D) (r r' : Bool) (o : Bytes) :
    ((b.arrive r o).task r').output = (b.task r').output := by
  cases r <;> cases r' <;> rfl

@[simp] theorem limits_arrive (b : Bridge D) (r r' : Bool) (o : Bytes) :
    (b.arrive r o).limits r' = b.limits r' := by
  cases r <;> rfl

@[simp] theorem phase_arrive (b : Bridge D) (r : Bool) (o : Bytes) :
    (b.arrive r o).phase = b.phase := by
  cases r <;> rfl

@[simp] theorem ended_arrive (b : Bridge D) (r : Bool) (o : Bytes) :
    (b.arrive r o).ended = b.ended := by
  cases r <;> rfl

end Bridge

namespace World

/-- The client's preface is on the way. -/
def start (D : HpackCrate) : World D :=
  { bridge := Bridge.new D PREFACE [], written := fun _ => [], peer := fun _ => .new }

def setPeer (w : World D) (r : Bool) (p : Peer) : World D :=
  { w with peer := Function.update w.peer r p }

/-- The peer sends a frame. -/
def send (w : World D) (r : Bool) (f : Frame) : World D :=
  w.setPeer r { w.peer r with
    started := (w.peer r).started ++ [{ seen := (w.peer r).received, frame := f }] }

@[simp] theorem started_send (w : World D) (r : Bool) (f : Frame) :
    ((w.send r f).peer r).started =
      (w.peer r).started ++ [{ seen := (w.peer r).received, frame := f }] := by
  cases r <;> rfl

/-- What the peer started is an item.  A pass acts on whole items, so they arrive whole. -/
def whole (w : World D) (r : Bool) : World D :=
  { w with
    bridge := w.bridge.arrive r (octets (w.peer r).started)
    peer := Function.update w.peer r { w.peer r with
      sent := (w.peer r).sent ++ [(w.peer r).started], started := [] } }

@[simp] theorem sent_whole (w : World D) (r : Bool) :
    ((w.whole r).peer r).sent = (w.peer r).sent ++ [(w.peer r).started] := by
  cases r <;> rfl

@[simp] theorem sent_whole_not (w : World D) (r : Bool) :
    ((w.whole r).peer (!r)).sent = (w.peer (!r)).sent := by
  cases r <;> rfl

def receive (w : World D) (r : Bool) (f : Frame) : World D :=
  w.setPeer r { w.peer r with received := (w.peer r).received ++ [f] }

/-- The writer of direction `r` takes octets. -/
def write (w : World D) (r : Bool) (octets : Bytes) : World D :=
  { w with written := Function.update w.written r (w.written r ++ octets) }

/-- It takes all that is left. -/
def drain (w : World D) (r : Bool) : World D :=
  w.write r ((w.bridge.task r).output.drop (w.written r).length)

/-- A task runs, to where it has handed the frames of a pass to its writer.  Where nothing is
left to read, this is the end of the stream. -/
def poll (m : Mapping U) (w : World D) (r : Bool) : World D :=
  { w with bridge := w.bridge.step m r }

end World

/-- One step of a peer or of the bridge. -/
inductive WorldStep (m : Mapping U) (w : World D) : World D → Prop where
  | send (r : Bool) (f : Frame) : Obeys { seen := (w.peer r).received, frame := f } →
      WorldStep m w (w.send r f)
  | whole (r : Bool) : Whole (w.peer r).started → WorldStep m w (w.whole r)
  /-- the next frame of what the other direction has written -/
  | receive (r : Bool) (f : Frame) : f.WellFormed →
      opening (!r) ++ ((w.peer r).received ++ [f]).flatMap Frame.encode <+: w.written (!r) →
      WorldStep m w (w.receive r f)
  /-- `.write(&mut w).await`, or a part of it; the end of the bridge drops both tasks -/
  | write (r : Bool) (octets : Bytes) : w.bridge.ended = none →
      w.written r ++ octets <+: (w.bridge.task r).output → WorldStep m w (w.write r octets)
  /-- the next pass, when the writes of the last one are through -/
  | poll (r : Bool) : w.written r = (w.bridge.task r).output → WorldStep m w (w.poll m r)

/-- The worlds that the peers and the bridge can get to, whoever steps when. -/
def Reaches (m : Mapping U) (w : World D) : Prop :=
  Relation.ReflTransGen (WorldStep m) (World.start D) w

/-! ## What the directions carry -/

/-- What a direction has handed to its writer is the frames `fs`, behind the preface. -/
def Wrote (b : Bridge D) (r : Bool) (fs : List Frame) : Prop :=
  (∀ f ∈ fs, f.WellFormed) ∧
    if r = false ∧ b.phase = .preface then (b.task r).output = [] ∧ fs = []
    else (b.task r).output = opening r ++ fs.flatMap Frame.encode

/-- The preface, until it is read. -/
def unread (b : Bridge D) (r : Bool) : Bytes :=
  if r = false ∧ b.phase = .preface then PREFACE else []

theorem past_preface {b : Bridge D} {r : Bool} (h : r = false → b.phase = .frames) :
    ¬ (r = false ∧ b.phase = .preface) := by
  rintro ⟨h1, h2⟩
  rw [h h1] at h2
  cases h2

theorem Wrote.congr {b b' : Bridge D} {r : Bool} {fs : List Frame} (h : Wrote b r fs)
    (hout : (b'.task r).output = (b.task r).output)
    (hphase : r = false → (b'.phase = .preface ↔ b.phase = .preface)) : Wrote b' r fs := by
  obtain ⟨hf, h⟩ := h
  refine ⟨hf, ?_⟩
  cases r with
  | true =>
    rw [hout]
    exact h
  | false =>
    simpa only [hout, hphase rfl] using h

theorem encode_beginning (gs : List Frame) : ∀ fs : List Frame, (∀ g ∈ gs, g.WellFormed) →
    (∀ f ∈ fs, f.WellFormed) → gs.flatMap Frame.encode <+: fs.flatMap Frame.encode → gs <+: fs := by
  induction gs with
  | nil => exact fun fs _ _ _ => List.nil_prefix
  | cons g gs ih =>
    intro fs hg hf h
    obtain ⟨tail, h⟩ := h
    cases fs with
    | nil =>
      rw [List.flatMap_cons, List.append_assoc] at h
      exact (Frame.encode_ne_nil g (List.append_eq_nil_iff.1 h).1).elim
    | cons f fs =>
      rw [List.flatMap_cons, List.flatMap_cons, List.append_assoc] at h
      obtain ⟨rfl, hrest⟩ :=
        encode_append_inj g f (hg g List.mem_cons_self) (hf f List.mem_cons_self) _ _ h
      refine (List.prefix_cons_inj g).2 (ih fs ?_ ?_ ⟨tail, hrest⟩)
      · exact fun x hx => hg x (List.mem_cons_of_mem _ hx)
      · exact fun x hx => hf x (List.mem_cons_of_mem _ hx)

/-- Who reads frames off the output reads those handed over. -/
theorem Wrote.beginning {b : Bridge D} {r : Bool} {fs gs : List Frame} (h : Wrote b r fs)
    (hg : ∀ g ∈ gs, g.WellFormed)
    (hp : opening r ++ gs.flatMap Frame.encode <+: (b.task r).output) : gs <+: fs := by
  obtain ⟨hf, h⟩ := h
  split at h
  · next hc =>
    obtain ⟨rfl, -⟩ := hc
    rw [h.1] at hp
    exact absurd (List.prefix_nil.1 hp) fun h => nomatch (List.append_eq_nil_iff.1 h).1
  · rw [h] at hp
    exact encode_beginning gs fs hg hf ((List.prefix_append_right_inj _).1 hp)

/-- The frames that are no part of a header group are passed on as they are. -/
theorem Passed.kept {m : Mapping U} {r : Bool} {limits : PeerLimits} {st st' : HeaderRewriter D}
    {x : Item} {out : List Frame} (h : Passed m r limits st x out st') (p : Frame → Bool)
    (hp : ∀ f : Frame, f.kind = 1 ∨ f.kind = 9 → p f = false) :
    out.filter p = x.frames.filter p := by
  have hgroup : ∀ {first : Frame} {rest : List Frame} {front padding fragment : Bytes},
      IsGroup first rest → Parts first front padding fragment →
      (first :: rest).filter p = [] := by
    intro first rest front padding fragment hg hparts
    refine List.filter_eq_nil_iff.2 fun f hf => ?_
    rw [Bool.not_eq_true]
    rcases List.mem_cons.1 hf with rfl | hf
    · exact hp f (Or.inl hparts.kind)
    · exact hp f (Or.inr (hg.continuation f hf).1)
  cases x with
  | single f =>
    obtain ⟨-, -, -, rfl, -⟩ := h
    rfl
  | group first rest =>
    obtain ⟨first', rest', rfl, hre⟩ := h
    obtain ⟨_, _, _, _, hparts, hparts', -⟩ := hre.block
    exact (hgroup hre.wrote hparts').trans (hgroup hre.read hparts).symm

/-- The frames a pass hands on advertise what those it read do. -/
theorem PassStep.settings {m : Mapping U} {r : Bool} {limits : PeerLimits} {t t' : Task D} {x : Item}
    {out : List Frame} (h : PassStep m r limits t x out t') :
    out.filter isSettings = x.frames.filter isSettings := by
  refine h.passed.kept isSettings fun f hf => decide_eq_false ?_
  rcases hf with hf | hf
  · rw [hf]
    decide
  · rw [hf]
    decide

theorem PassStep.isItem {m : Mapping U} {r : Bool} {limits : PeerLimits} {t t' : Task D} {x : Item}
    {out : List Frame} (h : PassStep m r limits t x out t') : IsItem x := by
  have hp := h.passed
  cases x with
  | single f => exact hp.1
  | group first rest =>
    obtain ⟨first', rest', -, hre⟩ := hp
    obtain ⟨_, _, _, _, hparts, -⟩ := hre.block
    exact ⟨hparts.kind, hre.read⟩

/-- Who reads what direction `r` hands to its writer, `fs`, has received `received` of it; the
other direction keeps to the SETTINGS among all of it. -/
structure Told (b : Bridge D) (r : Bool) (fs received : List Frame) : Prop where
  wrote : Wrote b r fs
  received : received <+: fs
  tables : ∀ v, (1, v) ∈ settingsIn fs → v.toNat ≤ 65536
  limits : b.ended = none → b.limits (!r) = applySettings (settingsIn fs) .new

/-- Direction `r` has read the frames `fs`, those of the first of the items `sent`; the octets of
the other ones are left. -/
def HasRead (b : Bridge D) (r : Bool) (sent : List (List Sending)) (fs : List Frame) : Prop :=
  ∃ read waiting, sent = read ++ waiting ∧ fs = read.flatten.map Sending.frame ∧
    (b.task r).input = unread b r ++ waiting.flatMap octets

/-- The state of direction `r` between a sender that sent the items `sent` and a receiver
that received `received`: the SETTINGS frames it handed on are those it has read. -/
def Carries (b : Bridge D) (r : Bool) (sent : List (List Sending)) (received : List Frame) : Prop :=
  ∃ fs, Told b r fs received ∧ (b.ended = none →
    ∃ read, HasRead b r sent read ∧ fs.filter isSettings = read.filter isSettings)

/-- What a peer has sent is legal. -/
structure Legal (p : Peer) : Prop where
  whole : ∀ s ∈ p.sent, Whole s
  sent : ∀ s ∈ p.sent, ∀ q ∈ s, Obeys q ∧ q.seen <+: p.received
  started : ∀ q ∈ p.started, Obeys q ∧ q.seen <+: p.received

/-! ## A pass of the bridge -/

/-- A step of one direction leaves the other one as it was. -/
theorem Stepped.other {m : Mapping U} {b b' : Bridge D} {r : Bool} (h : Stepped m b r b') :
    b'.task (!r) = b.task (!r) ∧ b'.limits r = b.limits r ∧ (r = true → b'.phase = b.phase) := by
  cases h with
  | preface t _ _ => exact ⟨rfl, rfl, fun h => nomatch h⟩
  | noPreface e t _ _ => exact ⟨rfl, rfl, fun h => nomatch h⟩
  | passed r x out t _ _ => exact ⟨by simp, by simp, fun _ => by simp⟩
  | failed r e t _ _ =>
    cases r with
    | true => exact ⟨rfl, rfl, fun _ => rfl⟩
    | false => exact ⟨rfl, rfl, fun _ => rfl⟩
  | eof _ _ => exact ⟨rfl, rfl, fun h => nomatch h⟩
  | finished _ => exact ⟨rfl, rfl, fun _ => rfl⟩
  | done _ => exact ⟨rfl, rfl, fun _ => rfl⟩

theorem HasRead.congr {b b' : Bridge D} {r : Bool} {sent : List (List Sending)} {fs : List Frame}
    (h : HasRead b r sent fs) (hin : (b'.task r).input = (b.task r).input)
    (hphase : r = false → (b'.phase = .preface ↔ b.phase = .preface)) : HasRead b' r sent fs := by
  obtain ⟨read, waiting, hsent, hfs, h⟩ := h
  refine ⟨read, waiting, hsent, hfs, ?_⟩
  rw [hin, h]
  cases r with
  | true => rfl
  | false => simp only [unread, hphase rfl]

/-- A direction of a bridge that lives still carries what it did, if it did nothing. -/
theorem Carries.congr {b b' : Bridge D} {r : Bool} {sent : List (List Sending)}
    {received : List Frame} (h : Carries b r sent received) (htask : b'.task r = b.task r)
    (hlimits : b'.ended = none → b'.limits (!r) = b.limits (!r))
    (hphase : r = false → (b'.phase = .preface ↔ b.phase = .preface))
    (hended : b'.ended = none → b.ended = none) : Carries b' r sent received := by
  obtain ⟨fs, ht, hreads⟩ := h
  refine ⟨fs, ⟨ht.wrote.congr (by rw [htask]) hphase, ht.received, ht.tables, fun hb => ?_⟩,
    fun hb => ?_⟩
  · rw [hlimits hb]
    exact ht.limits (hended hb)
  · obtain ⟨read, hread, hsame⟩ := hreads (hended hb)
    exact ⟨read, hread.congr (by rw [htask]) hphase, hsame⟩

/-- What waits to be read begins with the item that is read. -/
theorem reads_item {sent waiting : List (List Sending)} (hsuffix : waiting <:+ sent)
    (hwhole : ∀ s ∈ sent, Whole s ∧ ∀ q ∈ s, Obeys q) (x : Item) (hx : IsItem x)
    (hw : ∀ f ∈ x.frames, f.WellFormed) (tail : Bytes)
    (h : waiting.flatMap octets = x.frames.flatMap Frame.encode ++ tail) :
    ∃ s rest, waiting = s :: rest ∧ s ∈ sent ∧ s.map Sending.frame = x.frames ∧
      tail = rest.flatMap octets := by
  cases waiting with
  | nil =>
    exact (x.encode_ne_nil (List.append_eq_nil_iff.1 h.symm).1).elim
  | cons s rest =>
    have hs : s ∈ sent := hsuffix.subset List.mem_cons_self
    obtain ⟨⟨y, reps, hy, hitem, -, -⟩, hobeys⟩ := hwhole s hs
    have hwy : ∀ f ∈ y.frames, f.WellFormed := fun f hf => by
      rw [hy] at hf
      obtain ⟨q, hq, rfl⟩ := List.mem_map.1 hf
      exact (hobeys q hq).wellFormed
    rw [List.flatMap_cons, octets, ← hy] at h
    obtain ⟨rfl, htail⟩ := hitem.unique hx hwy hw _ _ h
    exact ⟨s, rest, rfl, hs, hy.symm, htail.symm⟩

theorem Carries.polled {m : Mapping U} {b b' : Bridge D} {r : Bool} {sent : List (List Sending)}
    {received : List Frame} (h : Carries b r sent received) (hb : b.ended = none)
    (hwhole : ∀ s ∈ sent, Whole s ∧ ∀ q ∈ s, Obeys q) (hs : Stepped m b r b') :
    Carries b' r sent received := by
  obtain ⟨fs, ht, hreads⟩ := h
  obtain ⟨_, ⟨read, waiting, hsent, rfl, hin⟩, hsame⟩ := hreads hb
  have hlive := ht.limits hb
  -- a direction that writes nothing and ends the bridge
  have hends : ∀ b' : Bridge D, (b'.task r).output = (b.task r).output → b'.ended ≠ none →
      b'.phase = b.phase → Carries b' r sent received := by
    intro b' hout hended hphase
    exact ⟨fs, ⟨ht.wrote.congr hout (fun _ => by rw [hphase]), ht.received, ht.tables,
      fun h => (hended h).elim⟩, fun h => (hended h).elim⟩
  cases hs with
  | preface t hphase hp =>
    obtain ⟨h1, h2⟩ := preface_ok _ _ _ _ hp
    obtain ⟨-, hw⟩ := ht.wrote
    rw [if_pos ⟨rfl, hphase⟩] at hw
    obtain ⟨hout, rfl⟩ := hw
    refine ⟨[], ⟨⟨fun f hf => (by cases hf), ?_⟩, ht.received, ht.tables, fun _ => hlive⟩, fun _ =>
      ⟨_, ⟨read, waiting, hsent, rfl, ?_⟩, hsame⟩⟩
    · rw [if_neg fun h => nomatch h.2]
      have ho : b.requests.output = [] := hout
      show t.output = _
      rw [h2, ho]
      rfl
    · have hin' : b.requests.input = unread b false ++ waiting.flatMap octets := hin
      rw [h1, unread, if_pos ⟨rfl, hphase⟩] at hin'
      exact List.append_cancel_left hin'
  | noPreface e t hphase hp =>
    exact hends _ (preface_error _ _ _ _ hp) (fun h => nomatch h) rfl
  | passed r x out t hframes hstep =>
    have hphase := past_preface hframes
    have hin' : (b.task r).input = x.frames.flatMap Frame.encode ++ t.input := hstep.input
    rw [hin, unread, if_neg hphase, List.nil_append] at hin'
    obtain ⟨s, rest, rfl, hmem, hframe, htail⟩ :=
      reads_item ⟨read, hsent.symm⟩ hwhole x hstep.isItem hstep.read t.input hin'
    obtain ⟨hf, hw⟩ := ht.wrote
    rw [if_neg hphase] at hw
    have hset : settingsIn (fs ++ out) = settingsIn fs ++ settingsIn x.frames := by
      rw [← settingsIn_settings x.frames, ← hstep.settings, settingsIn_settings]
      exact List.flatMap_append
    refine ⟨fs ++ out, ⟨⟨?_, ?_⟩, ht.received.trans (List.prefix_append _ _), ?_, fun _ => ?_⟩,
      fun _ => ⟨_, ⟨read ++ [s], rest, ?_, rfl, ?_⟩, ?_⟩⟩
    · intro f hfm
      rcases List.mem_append.1 hfm with hfm | hfm
      · exact hf f hfm
      · exact hstep.wrote f hfm
    · rw [Bridge.phase_stored, if_neg hphase, Bridge.task_stored, hstep.output, List.flatMap_append,
        ← List.append_assoc, ← hw]
      rfl
    · intro v hv
      rw [hset] at hv
      rcases List.mem_append.1 hv with hv | hv
      · exact ht.tables v hv
      · obtain ⟨f, hfm, hadv⟩ := List.mem_flatMap.1 hv
        rw [← hframe] at hfm
        obtain ⟨q, hq, rfl⟩ := List.mem_map.1 hfm
        exact ((hwhole s hmem).2 q hq).advertised v hadv
    · rw [Bridge.limits_stored_not, hstep.other, hset, applySettings_append, ← hlive]
      rfl
    · rw [hsent, List.append_assoc]
      rfl
    · rw [Bridge.task_stored, htail, unread, Bridge.phase_stored, if_neg hphase]
      rfl
    · rw [List.filter_append, hsame, hstep.settings, ← hframe, List.flatten_append,
        List.map_append, List.filter_append, List.flatten_singleton]
  | failed r e t hframes hp =>
    have hout : t.output = (b.loaded r).output := pass_error _ _ _ _ _ _ hp
    refine hends _ ?_ (fun h => nomatch h) ?_
    · cases r <;> exact hout
    · cases r <;> rfl
  | eof hphase hend =>
    refine ⟨fs, ⟨ht.wrote.congr rfl (fun _ => ?_), ht.received, ht.tables, fun _ => hlive⟩,
      fun _ => ⟨_, ⟨read, waiting, hsent, rfl, ?_⟩, hsame⟩⟩
    · rw [hphase]
      exact iff_of_false (fun h => nomatch h) fun h => nomatch h
    · rw [unread, if_neg fun h => by rw [hphase] at h; cases h.2] at hin
      exact hin
  | finished hend => exact hends _ rfl (fun h => nomatch h) rfl
  | done hphase => exact ⟨fs, ht, hreads⟩

/-! ## Why the bridge fails -/

/-- The fault is about a limit that the frame `p` of the item `s` kept to when it was sent,
and that it does not keep to after the SETTINGS frames `later`. -/
def Overtaken (s : List Sending) (p : Sending) (later : List Frame) (e : Fault) : Prop :=
  (e = frameLimit ∧ p.frame.payload.length ≤ lastSetting 5 16384 (settingsIn p.seen) ∧
    lastSetting 5 p.frame.payload.length (settingsIn later) < p.frame.payload.length) ∨
  (e = tableLimit ∧ ∃ x reps head n, x.frames = s.map Sending.frame ∧ HasBlock x reps ∧
    .sizeUpdate head n ∈ reps ∧ n ≤ lastSetting 1 4096 (settingsIn p.seen) ∧
    lastSetting 1 n (settingsIn later) < n)

/-- A preface fails for no limit. -/
theorem preface_unrelated (st st' : Task D) (e : Fault) (h : preface false st = .error e st') :
    Unrelated e := by
  unfold preface at h
  rw [if_neg Bool.false_ne_true] at h
  simp only [Act.bind_error_iff, Act.liftM_error_iff] at h
  rcases h with h | ⟨input, st1, -, h | ⟨_, st2, -, ⟨h, -⟩ | ⟨_, _, -, h⟩⟩⟩
  · cases h
  · unfold readPreface at h
    split at h
    · cases h
    · cases h
      exact Or.inr ⟨_, by decide, rfl⟩
  · exact unrelated_of_ensure (by decide) e h
  · cases h

/-- A pass that fails had something to read. -/
theorem pass_error_input (m : Mapping U) (response : Bool) (limits : PeerLimits) (st st' : Task D)
    (e : Fault) (h : pass m response limits st = .error e st') : st.input ≠ [] := by
  intro hin
  have hread : readFrame st = .ok none st := by
    unfold readFrame
    rw [hin]
    rfl
  unfold pass at h
  rcases (Act.bind_error_iff _ _ _ _ _).1 h with h | ⟨frame, st1, hr, h⟩
  · rw [hread] at h
    cases h
  · rw [hread] at hr
    cases hr
    exact (Act.pure_ne_error _ _ _ _ h).elim

/-- **A rejected item was overtaken.**  The limits are those of all that was handed on to the
sender, of which it had received a part when it sent the item. -/
theorem overtaken_of_blames {s : List Sending} {received written : List Frame} {e : Fault}
    {x : Item} {reps : List Hpack.Rep} (hx : x.frames = s.map Sending.frame)
    (hblock : HasBlock x reps) (hs : ∀ q ∈ s, Obeys q ∧ q.seen <+: received)
    (hupdates : ∀ head n, .sizeUpdate head n ∈ reps →
      ∃ q ∈ s, n ≤ lastSetting 1 4096 (settingsIn q.seen))
    (hreceived : received <+: written)
    (htables : ∀ v, (1, v) ∈ settingsIn written → v.toNat ≤ 65536)
    (he : e = frameLimit ∨ e = tableLimit)
    (h : Blames (applySettings (settingsIn written) .new) x.frames reps e) :
    ∃ p ∈ s, ∃ later, written.filter isSettings = p.seen.filter isSettings ++ later ∧
      Overtaken s p later e := by
  obtain ⟨htable, hframe⟩ := applySettings_eq (settingsIn written) .new
  have hsplit : ∀ q ∈ s, ∃ later, written.filter isSettings = q.seen.filter isSettings ++ later ∧
      settingsIn written = settingsIn q.seen ++ settingsIn later := by
    intro q hq
    obtain ⟨later, rfl⟩ := (hs q hq).2.trans hreceived
    refine ⟨later.filter isSettings, List.filter_append _ _, ?_⟩
    rw [settingsIn_settings]
    exact List.flatMap_append
  rcases h with h | ⟨he', f, hf, hlt⟩ | ⟨he', head, n, hn, hlt⟩
  · rcases he with he | he
    · exact absurd he h.ne.1
    · exact absurd he h.ne.2
  · rw [hx] at hf
    obtain ⟨q, hq, rfl⟩ := List.mem_map.1 hf
    obtain ⟨later, hwritten, hset⟩ := hsplit q hq
    have hlegal := (hs q hq).1.frame
    rw [hframe, hset, lastSetting_append] at hlt
    exact ⟨q, hq, later, hwritten, Or.inl ⟨he', hlegal, lastSetting_lt _ _ _ _ hlegal hlt⟩⟩
  · obtain ⟨q, hq, hlegal⟩ := hupdates head n hn
    obtain ⟨later, hwritten, hset⟩ := hsplit q hq
    -- no table is advertised above what the rewriter allows anyway
    have hbound : lastSetting 1 4096 (settingsIn q.seen) ≤ 65536 := by
      refine lastSetting_le 1 65536 _ (fun v hv => htables v ?_) _ (by decide)
      rw [hset]
      exact List.mem_append_left _ hv
    have hlt' : (applySettings (settingsIn written) .new).table < n := by omega
    rw [htable, hset, lastSetting_append] at hlt'
    exact ⟨q, hq, later, hwritten,
      Or.inr ⟨he', x, reps, head, n, hx, hblock, hn, hlegal, lastSetting_lt _ _ _ _ hlegal hlt'⟩⟩

/-- A step that fails is for no limit, or the item it read is to blame. -/
theorem Stepped.blames {m : Mapping U} {b b' : Bridge D} {r : Bool} (hs : Stepped m b r b')
    (hb : b.ended = none) {sent : List (List Sending)} {received : List Frame}
    (h : Carries b r sent received) (hwhole : ∀ s ∈ sent, Whole s ∧ ∀ q ∈ s, Obeys q) (e : Fault)
    (he : b'.ended = some (.error e)) :
    Unrelated e ∨ ∃ s ∈ sent, ∃ x reps, x.frames = s.map Sending.frame ∧ HasBlock x reps ∧
      (∀ head n, .sizeUpdate head n ∈ reps →
        ∃ q ∈ s, n ≤ lastSetting 1 4096 (settingsIn q.seen)) ∧
      Blames (b.limits r) x.frames reps e := by
  cases hs with
  | preface t _ _ => exact absurd (hb.symm.trans he) fun h => nomatch h
  | noPreface e' t _ hp =>
    cases he
    exact Or.inl (preface_unrelated _ _ _ hp)
  | passed r x out t _ _ =>
    rw [Bridge.ended_stored, hb] at he
    cases he
  | failed r e' t hframes hp =>
    cases he
    obtain ⟨fs, -, hreads⟩ := h
    obtain ⟨_, ⟨read, waiting, hsent, -, hin⟩, -⟩ := hreads hb
    have hphase := past_preface hframes
    rw [unread, if_neg hphase, List.nil_append] at hin
    have hin' : (b.loaded r).input = waiting.flatMap octets := hin
    cases waiting with
    | nil => exact (pass_error_input _ _ _ _ _ _ hp hin').elim
    | cons s rest =>
      have hmem : s ∈ sent := hsent ▸ List.mem_append_right _ List.mem_cons_self
      obtain ⟨⟨x, reps, hx, hitem, hblock, hupdates⟩, hobeys⟩ := hwhole s hmem
      rw [List.flatMap_cons, octets, ← hx] at hin'
      refine Or.inr ⟨s, hmem, x, reps, hx, hblock, hupdates,
        pass_rejects m r _ x reps _ hitem (fun f hf => ?_) hblock _ _ e hin' hp⟩
      rw [hx] at hf
      obtain ⟨q, hq, rfl⟩ := List.mem_map.1 hf
      exact (hobeys q hq).wellFormed
  | eof _ _ => exact absurd (hb.symm.trans he) fun h => nomatch h
  | finished _ => cases he
  | done _ => exact absurd (hb.symm.trans he) fun h => nomatch h

/-! ## Every world -/

/-- If the bridge has failed for a limit, an item was overtaken by SETTINGS frames `later` that
the other direction had read, after those which the sender of the item had received. -/
def Blamed (w : World D) : Prop :=
  ∀ e, w.bridge.ended = some (.error e) → e = frameLimit ∨ e = tableLimit →
    ∃ r, ∃ s ∈ (w.peer r).sent, ∃ p ∈ s, ∃ read later,
      HasRead w.bridge (!r) (w.peer (!r)).sent read ∧
      read.filter isSettings = p.seen.filter isSettings ++ later ∧ Overtaken s p later e

structure WorldInv (w : World D) : Prop where
  legal : ∀ r, Legal (w.peer r)
  carries : ∀ r, Carries w.bridge r (w.peer r).sent (w.peer (!r)).received
  written : ∀ r, w.written r <+: (w.bridge.task r).output
  blamed : Blamed w

theorem worldInv_start (D : HpackCrate) : WorldInv (World.start D) := by
  refine ⟨fun r => ?_, fun r => ?_, fun r => List.nil_prefix, fun e he => nomatch he⟩
  · exact ⟨fun s hs => (by cases hs), fun s hs => (by cases hs), fun q hq => (by cases hq)⟩
  · have hnil : ∀ f ∈ ([] : List Frame), f.WellFormed := fun f hf => by cases hf
    refine ⟨[], ⟨⟨hnil, ?_⟩, List.nil_prefix, fun v hv => (by cases hv), fun _ => ?_⟩, fun _ =>
      ⟨[], ⟨[], [], rfl, rfl, ?_⟩, rfl⟩⟩
    · cases r with
      | true => rfl
      | false => exact ⟨rfl, rfl⟩
    · cases r <;> rfl
    · cases r <;> rfl

/-- What is of one direction is changed. -/
theorem update_both {α : Type} (peer : Bool → α) (r : Bool) (p : α) {q : Bool → α → Prop}
    (h : q r p) (h' : ∀ r', q r' (peer r')) : ∀ r', q r' (Function.update peer r p r') := by
  refine both_directions r ?_ ?_
  · rw [Function.update_self]
    exact h
  · rw [Function.update_of_ne (by cases r <;> decide)]
    exact h' _

theorem Blamed.congr {w w' : World D} (h : Blamed w) (hended : w'.bridge.ended = w.bridge.ended)
    (hsent : ∀ r, ∀ s ∈ (w.peer r).sent, s ∈ (w'.peer r).sent)
    (hread : ∀ r fs, HasRead w.bridge r (w.peer r).sent fs →
      HasRead w'.bridge r (w'.peer r).sent fs) : Blamed w' := by
  intro e he hl
  rw [hended] at he
  obtain ⟨r, s, hs, p, hp, read, later, hr, hlater, ho⟩ := h e he hl
  exact ⟨r, s, hsent r s hs, p, hp, read, later, hread _ _ hr, hlater, ho⟩

theorem WorldInv.send {w : World D} (h : WorldInv w) (r : Bool) (f : Frame)
    (hf : Obeys { seen := (w.peer r).received, frame := f }) : WorldInv (w.send r f) := by
  have hsent : ∀ r', ((w.send r f).peer r').sent = (w.peer r').sent :=
    update_both (q := fun r' (p : Peer) => p.sent = (w.peer r').sent) _ _ _ rfl fun _ => rfl
  have hreceived : ∀ r', ((w.send r f).peer r').received = (w.peer r').received :=
    update_both (q := fun r' (p : Peer) => p.received = (w.peer r').received) _ _ _ rfl fun _ => rfl
  refine ⟨update_both _ _ _ ⟨(h.legal r).whole, (h.legal r).sent, fun q hq => ?_⟩ h.legal,
    fun r' => ?_, h.written, h.blamed.congr rfl (fun r' s hs => by rwa [hsent]) fun r' fs hr => ?_⟩
  · rcases List.mem_append.1 hq with hq | hq
    · exact (h.legal r).started q hq
    · rw [List.mem_singleton.1 hq]
      exact ⟨hf, List.prefix_refl _⟩
  · rw [hsent, hreceived]
    exact h.carries r'
  · rw [hsent]
    exact hr

/-- What arrives waits to be read. -/
theorem HasRead.whole {w : World D} (r : Bool) : ∀ r' fs, HasRead w.bridge r' (w.peer r').sent fs →
    HasRead (w.whole r).bridge r' ((w.whole r).peer r').sent fs := by
  refine both_directions r ?_ ?_
  · rintro fs ⟨read, waiting, hsent, hfs, hin⟩
    refine ⟨read, waiting ++ [(w.peer r).started], ?_, hfs, ?_⟩
    · rw [World.sent_whole, hsent, List.append_assoc]
    · rw [World.whole, Bridge.input_arrive, hin, List.flatMap_append, List.flatMap_singleton,
        List.append_assoc, unread, unread, Bridge.phase_arrive]
  · intro fs h
    rw [World.sent_whole_not]
    exact h.congr (Bridge.input_arrive_not _ _ _) fun _ => by rw [World.whole, Bridge.phase_arrive]

theorem WorldInv.whole {w : World D} (h : WorldInv w) (r : Bool) (hw : Whole (w.peer r).started) :
    WorldInv (w.whole r) := by
  have hreceived : ∀ r', ((w.whole r).peer r').received = (w.peer r').received :=
    update_both (q := fun r' (p : Peer) => p.received = (w.peer r').received) _ _ _ rfl fun _ => rfl
  have hsent : ∀ r', (w.peer r').sent <+: ((w.whole r).peer r').sent :=
    update_both (q := fun r' (p : Peer) => (w.peer r').sent <+: p.sent) _ _ _ (List.prefix_append _ _)
      fun _ => List.prefix_refl _
  refine ⟨update_both _ _ _ ⟨fun s hs => ?_, fun s hs => ?_, fun q hq => (by cases hq)⟩ h.legal,
    fun r' => ?_, fun r' => ?_, h.blamed.congr (Bridge.ended_arrive _ _ _)
      (fun r' s hs => (hsent r').subset hs) (HasRead.whole r)⟩
  · rcases List.mem_append.1 hs with hs | hs
    · exact (h.legal r).whole s hs
    · rw [List.mem_singleton.1 hs]
      exact hw
  · rcases List.mem_append.1 hs with hs | hs
    · exact (h.legal r).sent s hs
    · rw [List.mem_singleton.1 hs]
      exact (h.legal r).started
  · obtain ⟨fs, ht, hreads⟩ := h.carries r'
    rw [hreceived]
    have hwrote : Wrote (w.whole r).bridge r' fs :=
      ht.wrote.congr (Bridge.output_arrive _ _ _ _) fun _ => by rw [World.whole, Bridge.phase_arrive]
    refine ⟨fs, ⟨hwrote, ht.received, ht.tables, fun hb => ?_⟩, fun hb => ?_⟩
    · rw [World.whole, Bridge.limits_arrive]
      rw [World.whole, Bridge.ended_arrive] at hb
      exact ht.limits hb
    · rw [World.whole, Bridge.ended_arrive] at hb
      obtain ⟨read, hread, hsame⟩ := hreads hb
      exact ⟨read, HasRead.whole r r' read hread, hsame⟩
  · rw [World.whole, Bridge.output_arrive]
    exact h.written r'

theorem WorldInv.receive {w : World D} (h : WorldInv w) (r : Bool) (f : Frame) (hf : f.WellFormed)
    (hp : opening (!r) ++ ((w.peer r).received ++ [f]).flatMap Frame.encode <+: w.written (!r)) :
    WorldInv (w.receive r f) := by
  have hsent : ∀ r', ((w.receive r f).peer r').sent = (w.peer r').sent :=
    update_both (q := fun r' (p : Peer) => p.sent = (w.peer r').sent) _ _ _ rfl fun _ => rfl
  have hmore : ∀ q : Sending, Obeys q ∧ q.seen <+: (w.peer r).received →
      Obeys q ∧ q.seen <+: (w.peer r).received ++ [f] :=
    fun q hq => ⟨hq.1, hq.2.trans (List.prefix_append _ _)⟩
  refine ⟨update_both _ _ _ ⟨(h.legal r).whole, fun s hs q hq => hmore q ((h.legal r).sent s hs q hq),
      fun q hq => hmore q ((h.legal r).started q hq)⟩ h.legal,
    fun r' => ?_, h.written, h.blamed.congr rfl (fun r' s hs => by rwa [hsent]) fun r' fs hr => ?_⟩
  · -- the receiver of direction `!r` is the peer `r`
    have hold : ∀ r', Carries w.bridge (!r') (w.peer (!r')).sent (w.peer r').received := fun r' => by
      have := h.carries (!r')
      rwa [Bool.not_not] at this
    have hnew : ∀ r', Carries w.bridge (!r') (w.peer (!r')).sent ((w.receive r f).peer r').received := by
      refine update_both (q := fun r' (p : Peer) =>
        Carries w.bridge (!r') (w.peer (!r')).sent p.received) _ _ _ ?_ hold
      obtain ⟨fs, ht, hreads⟩ := hold r
      refine ⟨fs, ⟨ht.wrote, ?_, ht.tables, ht.limits⟩, hreads⟩
      refine ht.wrote.beginning (fun g hg => ?_) (hp.trans (h.written (!r)))
      rcases List.mem_append.1 hg with hg | hg
      · exact ht.wrote.1 g (ht.received.subset hg)
      · rw [List.mem_singleton.1 hg]
        exact hf
    have := hnew (!r')
    rw [hsent]
    rwa [Bool.not_not] at this
  · rw [hsent]
    exact hr

theorem WorldInv.write {w : World D} (h : WorldInv w) (r : Bool) (octets : Bytes)
    (hp : w.written r ++ octets <+: (w.bridge.task r).output) : WorldInv (w.write r octets) :=
  ⟨h.legal, h.carries,
    update_both (q := fun r' o => o <+: (w.bridge.task r').output) _ _ _ hp h.written, h.blamed⟩

theorem WorldInv.poll {m : Mapping U} {w : World D} (h : WorldInv w) (r : Bool) :
    WorldInv (w.poll m r) := by
  cases hb : w.bridge.ended with
  | some res =>
    rw [World.poll, step_of_ended m w.bridge r res hb]
    exact h
  | none =>
    have hs := step_cases m w.bridge r hb
    obtain ⟨htask, hlimits, hphase⟩ := hs.other
    have hwhole : ∀ s ∈ (w.peer r).sent, Whole s ∧ ∀ q ∈ s, Obeys q := fun s hs =>
      ⟨(h.legal r).whole s hs, fun q hq => ((h.legal r).sent s hs q hq).1⟩
    refine ⟨h.legal, both_directions r ((h.carries r).polled hb hwhole hs) ?_, fun r' => ?_, ?_⟩
    · refine (h.carries (!r)).congr htask (fun _ => ?_) (fun hr => ?_) fun _ => hb
      · rw [Bool.not_not]
        exact hlimits
      · rw [World.poll, hphase (by simpa using hr)]
    · obtain ⟨e, hdid, -⟩ := hs.did
      exact (h.written r').trans ⟨_, (hdid.wrote r').symm⟩
    · intro e he hl
      obtain ⟨fs, ht, hreads⟩ := h.carries (!r)
      obtain ⟨read, hread, hsame⟩ := hreads hb
      obtain ⟨-, hr, htables, hlim⟩ := ht
      rw [Bool.not_not] at hr hlim
      rcases hs.blames hb (h.carries r) hwhole e he with hu | ⟨s, hmem, x, reps, hx, hb', hup, hbl⟩
      · rcases hl with rfl | rfl
        · exact (hu.ne.1 rfl).elim
        · exact (hu.ne.2 rfl).elim
      · rw [hlim hb] at hbl
        obtain ⟨p, hp, later, hlater, ho⟩ :=
          overtaken_of_blames hx hb' ((h.legal r).sent s hmem) hup hr htables hl hbl
        refine ⟨r, s, hmem, p, hp, read, later, hread.congr ?_ fun hr => ?_, hsame ▸ hlater, ho⟩
        · rw [World.poll, htask]
        · rw [World.poll, hphase (by simpa using hr)]

theorem WorldInv.step {m : Mapping U} {w w' : World D} (h : WorldInv w) (hs : WorldStep m w w') :
    WorldInv w' := by
  cases hs with
  | send r f hf => exact h.send r f hf
  | whole r hw => exact h.whole r hw
  | receive r f hf hp => exact h.receive r f hf hp
  | write r octets _ hp => exact h.write r octets hp
  | poll r _ => exact h.poll r

theorem Reaches.inv {m : Mapping U} {w : World D} (h : Reaches m w) : WorldInv w := by
  induction h with
  | refl => exact worldInv_start D
  | tail _ hs ih => exact ih.step hs

/-- The writer can take all that it was handed. -/
theorem Reaches.drain {m : Mapping U} {w : World D} (h : Reaches m w) (r : Bool)
    (hb : w.bridge.ended = none) : Reaches m (w.drain r) := by
  obtain ⟨rest, hrest⟩ := h.inv.written r
  refine Relation.ReflTransGen.tail h (.write r _ hb ⟨[], ?_⟩)
  rw [List.append_nil, ← hrest, List.drop_left]

/-- A peer with no group under way sends an item of one frame. -/
theorem Reaches.deliver {m : Mapping U} {w : World D} (h : Reaches m w) (r : Bool) (f : Frame)
    (hstarted : (w.peer r).started = [])
    (hf : Obeys { seen := (w.peer r).received, frame := f })
    (hw : Whole [{ seen := (w.peer r).received, frame := f }]) : Reaches m ((w.send r f).whole r) := by
  refine (Relation.ReflTransGen.tail h (.send r f hf)).tail (.whole r ?_)
  rw [World.started_send, hstarted]
  exact hw

/-- A peer that has received nothing keeps to the initial limits. -/
theorem obeys_initial (f : Frame) (hlen : f.payload.length ≤ 16384)
    (hadv : (advertised f).all (·.2.toNat ≤ 65536) = true) : Obeys { seen := [], frame := f } := by
  refine ⟨?_, hlen, fun v hv => by simpa using List.all_eq_true.1 hadv _ hv⟩
  show f.payload.length < 2 ^ 24
  omega

theorem whole_single (p : Sending) (h : p.frame.kind ≠ 1) : Whole [p] :=
  ⟨.single p.frame, [], rfl, h, rfl, fun head n hn => (by cases hn)⟩

/-- A header block in one frame, with no size update above the initial limit. -/
theorem whole_headers {f : Frame} (hitem : IsItem (.group f []))
    (hparts : headerParts f = .ok ([], [], f.payload))
    (hblock : (Parser.all Hpack.rep f.payload).map (Hpack.updatesOk 4096 false) = some true) :
    Whole [{ seen := [], frame := f }] := by
  obtain ⟨reps, hreps, hupdates⟩ := Option.map_eq_some_iff.1 hblock
  refine ⟨.group f [], reps, rfl, hitem,
    ⟨[], [], f.payload, headerParts_ok _ _ _ _ hparts, by simpa using hreps⟩, fun head n hn => ?_⟩
  exact ⟨_, List.mem_singleton_self _, updatesOk_mem 4096 reps false hupdates head n hn⟩

end

def noSettings : Frame := { kind := 4, flags := 0, stream := 0, payload := [] }

/-- `SETTINGS_HEADER_TABLE_SIZE` is 0. -/
def noTable : Frame := { kind := 4, flags := 0, stream := 0, payload := [0, 1, 0, 0, 0, 0] }

/-- A request whose block begins with a size update to 4096. -/
def sizedRequest : Frame :=
  { kind := 1, flags := 5, stream := 1,
    payload := [0x3f, 0xe1, 0x1f, 0x82, 0x87, 0x84, 0x41, 0x0b] ++ ascii "b.test:8443" }

/-- The client's preface has gone through. -/
def prefaced : World boundedCrate := ((World.start boundedCrate).poll sampleMapping false).drain false

theorem prefaced_reached : Reaches sampleMapping prefaced :=
  Reaches.drain (.tail .refl (.poll false rfl)) false (by decide +kernel)

/-- The client has opened with SETTINGS; the bridge has read those of the origin and waits to write
them on, when it reads a request that the client sent before. -/
def race : World boundedCrate :=
  let opened := (((prefaced.send false noSettings).whole false).poll sampleMapping false).drain false
  let told := ((opened.send true noTable).whole true).poll sampleMapping true
  ((told.send false sizedRequest).whole false).poll sampleMapping false

/-- Nothing has been written to the client. -/
example : race.written true = [] ∧ (race.bridge.task true).output = noTable.encode := by
  decide +kernel

theorem race_reached : Reaches sampleMapping race := by
  have h1 := Reaches.deliver prefaced_reached false noSettings rfl
    (obeys_initial _ (by decide) (by decide)) (whole_single _ (by decide))
  have h2 := Reaches.drain (h1.tail (.poll false (by decide +kernel))) false (by decide +kernel)
  have h3 := (Reaches.deliver h2 true noTable rfl (obeys_initial _ (by decide) (by decide))
    (whole_single _ (by decide))).tail (.poll true rfl)
  exact (Reaches.deliver h3 false sizedRequest rfl (obeys_initial _ (by decide) (by decide))
    (whole_headers ⟨rfl, fun f hf => (by cases hf), by decide⟩ (by decide) (by decide +kernel))).tail
    (.poll false (by decide +kernel))

theorem race_ended : race.bridge.ended = some (.error tableLimit) := by
  decide +kernel

end H2
