import FingerprintBridge.H2.Race
import FingerprintBridge.Lib.Relay

/-!
# The two channels

To its peers the bridge is a channel in each direction.  What goes through it are messages:
frames as they are, and header lists, of which it maps the values.  In every world the
receiver has got the first messages of the sender, none lost, none twice and in order
(`channel_conveys`), although the frames of a header list and the octets of its block are
other ones on either side.
-/

namespace H2

open HpackWire Hpack

/-! ## Messages -/

/-- What an item is to who decodes it. -/
inductive Message where
  | frame (f : Frame)
  /-- the flags with END_HEADERS; the priority, the padding, and the headers -/
  | headers (stream : UInt32) (flags : UInt8) (front padding : Bytes) (fields : List Header)

/-- The item as a message, and the decoder's table after it. -/
def message (T : DynamicTable) : Item → Option (Message × DynamicTable)
  | .single f => some (.frame f, T)
  | .group first rest =>
    match headerParts first with
    | .ok (front, padding, fragment) =>
      (decodeBlock rfc7541 65536 T (fragment ++ rest.flatMap Frame.payload)).map fun r =>
        (.headers first.stream (first.flags ||| 4) front padding r.1, r.2)
    | .error _ => none

def messages : DynamicTable → List Item → Option (List Message × DynamicTable)
  | T, [] => some ([], T)
  | T, x :: xs =>
    match message T x with
    | none => none
    | some (u, T) => (messages T xs).map fun r => (u :: r.1, r.2)

/-- A decoder that starts with an empty table reads the items as the messages. -/
def Means (xs : List Item) (us : List Message) : Prop :=
  ∃ T, messages .init xs = some (us, T)

/-- A message as the bridge passes it on. -/
def MappedMessage {U : UrlCrate} (m : Mapping U) (response : Bool) : Message → Message → Prop
  | .frame f, .frame f' => f' = f
  | .headers stream flags front padding fields, .headers stream' flags' front' padding' fields' =>
    stream' = stream ∧ flags' = flags ∧ front' = front ∧ padding' = padding ∧
      List.Forall₂ (IsMapped m response) fields fields'
  | _, _ => False

theorem messages_snoc (xs : List Item) (x : Item) (u : Message) (T1 T2 : DynamicTable)
    (hx : message T1 x = some (u, T2)) : ∀ (T : DynamicTable) (us : List Message),
      messages T xs = some (us, T1) → messages T (xs ++ [x]) = some (us ++ [u], T2) := by
  induction xs with
  | nil =>
    intro T us h
    obtain ⟨rfl, rfl⟩ := Prod.mk.inj (Option.some.inj h)
    rw [List.nil_append, messages, hx]
    rfl
  | cons y xs ih =>
    intro T us h
    rw [messages] at h
    rw [List.cons_append, messages]
    cases hy : message T y with
    | none =>
      rw [hy] at h
      cases h
    | some r =>
      rw [hy] at h
      obtain ⟨⟨us', T'⟩, hrest, he⟩ := Option.map_eq_some_iff.1 h
      obtain ⟨rfl, rfl⟩ := Prod.mk.inj he
      simp only [ih r.2 us' hrest, Option.map_some, List.cons_append]

section
variable {D : HpackCrate} {U : UrlCrate} {m : Mapping U} {table : D.Decoder → DynamicTable}

/-! ## Passes -/

/-- Passes that read `xs` and wrote `ys`, each with the limits of its time, from a fresh
rewriter to `st`. -/
inductive Conveyed (m : Mapping U) (r : Bool) : List Item → List Item → HeaderRewriter D → Prop where
  | nil : Conveyed m r [] [] (HeaderRewriter.new D)
  | snoc {xs ys : List Item} {st st' : HeaderRewriter D} (limits : PeerLimits) (x y : Item) :
      Conveyed m r xs ys st → IsItem y → Passed m r limits st x y.frames st' →
      Conveyed m r (xs ++ [x]) (ys ++ [y]) st'

/-- What a pass writes is an item. -/
theorem PassStep.written {r : Bool} {limits : PeerLimits} {t t' : Task D} {x : Item}
    {out : List Frame} (h : PassStep m r limits t x out t') : ∃ y, IsItem y ∧ y.frames = out := by
  have hp := h.passed
  have hx := h.isItem
  cases x with
  | single f =>
    obtain ⟨-, -, -, rfl, -⟩ := hp
    exact ⟨.single f, hx, rfl⟩
  | group first rest =>
    obtain ⟨first', rest', rfl, hre⟩ := hp
    obtain ⟨_, _, _, _, -, hparts, -⟩ := hre.block
    exact ⟨.group first' rest', ⟨hparts.kind, hre.wrote⟩, rfl⟩

/-- Both ends decode a block, and the receiver the mapped headers. -/
theorem rewrite_means (hD : D.Correct table) {block out : Bytes} {r : Bool} {limit : Nat}
    {st st' : HeaderRewriter D} (R : DynamicTable) (ha : Agrees st.outbound R)
    (h : rewrite block m r limit st = .ok out st') :
    ∃ hs hs' R', decodeBlock rfc7541 65536 (table st.inbound) block = some (hs, table st'.inbound) ∧
      decodeBlock rfc7541 65536 R out = some (hs', R') ∧ List.Forall₂ (IsMapped m r) hs hs' ∧
      Agrees st'.outbound R' := by
  obtain ⟨vs, ws, l', ht, hblock, hout, -⟩ := rewrite_ok _ _ _ h
  obtain ⟨hu1, hu2⟩ := ht.updatesOk
  obtain ⟨hv1, hv2⟩ := ht.wellFormed
  obtain ⟨R', hreceived, ha'⟩ := ht.receiver hD R ha
  have hlim := Nat.min_le_right limit 65536
  refine ⟨_, _, R', ?_, ?_, ht.mapped, ha'⟩
  · rw [hblock,
      decodeBlock_octets _ _ _ _ hv1 (updatesOk_mono _ _ hlim _ _ hu1)]
    exact ht.sender hD
  · rw [hout, decodeBlock_octets _ _ _ _ hv2 (updatesOk_mono _ _ hlim _ _ hu2)]
    exact hreceived

/-- One pass: the sender's message, mapped. -/
theorem Passed.means (hD : D.Correct table) {r : Bool} {limits : PeerLimits}
    {st st' : HeaderRewriter D} {x y : Item} (h : Passed m r limits st x y.frames st')
    (hy : IsItem y) (R : DynamicTable) (ha : Agrees st.outbound R) :
    ∃ u v R', message (table st.inbound) x = some (u, table st'.inbound) ∧
      message R y = some (v, R') ∧ MappedMessage m r u v ∧ Agrees st'.outbound R' := by
  cases x with
  | single f =>
    obtain ⟨hk, -, -, hout, rfl⟩ := h
    cases y with
    | single g =>
      obtain rfl : g = f := List.singleton_inj.1 hout
      exact ⟨.frame g, .frame g, R, rfl, rfl, rfl, ha⟩
    | group g rest =>
      obtain ⟨rfl, -⟩ := List.cons.inj hout
      exact absurd hy.1 hk
  | group first rest =>
    obtain ⟨first', rest', hout, hre⟩ := h
    obtain ⟨front, padding, fragment, fragment', hparts, hparts', hrw⟩ := hre.block
    cases y with
    | single g =>
      obtain ⟨rfl, -⟩ := List.cons.inj hout
      exact absurd hparts'.kind hy
    | group g gs =>
      obtain ⟨rfl, rfl⟩ := List.cons.inj hout
      obtain ⟨hs, hs', R', h1, h2, hmapped, ha'⟩ := rewrite_means hD R ha hrw
      refine ⟨.headers first.stream (first.flags ||| 4) front padding hs,
        .headers g.stream (g.flags ||| 4) front padding hs', R', ?_, ?_,
        ⟨hre.stream, hre.flags, rfl, rfl, hmapped⟩, ha'⟩
      · rw [message, hparts.headerParts]
        simp only [h1, Option.map_some]
      · rw [message, hparts'.headerParts]
        simp only [h2, Option.map_some]

theorem Conveyed.means (hD : D.Correct table) {r : Bool} {xs ys : List Item}
    {st : HeaderRewriter D} (h : Conveyed m r xs ys st) :
    ∃ us vs R, messages .init xs = some (us, table st.inbound) ∧
      messages .init ys = some (vs, R) ∧ List.Forall₂ (MappedMessage m r) us vs ∧
      Agrees st.outbound R := by
  induction h with
  | nil =>
    refine ⟨[], [], .init, ?_, rfl, List.Forall₂.nil, agrees_new⟩
    rw [show table (HeaderRewriter.new D).inbound = .init from hD.new]
    rfl
  | snoc limits x y _ hy hp ih =>
    obtain ⟨us, vs, R, h1, h2, hf, ha⟩ := ih
    obtain ⟨u, v, R', hu, hv, hmapped, ha'⟩ := hp.means hD hy R ha
    exact ⟨us ++ [u], vs ++ [v], R', messages_snoc _ _ _ _ _ hu _ _ h1,
      messages_snoc _ _ _ _ _ hv _ _ h2,
      List.rel_append hf (List.Forall₂.cons hmapped List.Forall₂.nil), ha'⟩

/-! ## A channel of a world -/

/-- The items that direction `r` has passed on are the first of those sent, the receiver
has got a part of what was handed on for them, and the others are still to be read. -/
def Conveys (m : Mapping U) (b : Bridge D) (r : Bool) (sent : List (List Sending))
    (received : List Frame) : Prop :=
  ∃ xs ys st read waiting, Conveyed m r xs ys st ∧ (b.ended = none → (b.task r).decoder = st) ∧
    Wrote b r (ys.flatMap Item.frames) ∧ received <+: ys.flatMap Item.frames ∧
    sent = read ++ waiting ∧ read.map (List.map Sending.frame) = xs.map Item.frames ∧
    (b.ended = none → (b.task r).input = unread b r ++ waiting.flatMap octets)

theorem conveys_start (r : Bool) : Conveys m (World.start D).bridge r [] [] := by
  refine ⟨[], [], _, [], [], .nil, fun _ => ?_, ⟨fun f hf => (by cases hf), ?_⟩, List.nil_prefix,
    rfl, rfl, fun _ => ?_⟩
  · cases r <;> rfl
  · cases r with
    | true => rfl
    | false => exact ⟨rfl, rfl⟩
  · cases r <;> rfl

/-- A bridge whose direction `r` did nothing. -/
theorem Conveys.congr {b b' : Bridge D} {r : Bool} {sent : List (List Sending)}
    {received : List Frame} (h : Conveys m b r sent received)
    (hout : (b'.task r).output = (b.task r).output)
    (hphase : r = false → (b'.phase = .preface ↔ b.phase = .preface))
    (hlives : b'.ended = none → b.ended = none ∧ (b'.task r).input = (b.task r).input ∧
      (b'.task r).decoder = (b.task r).decoder) : Conveys m b' r sent received := by
  obtain ⟨xs, ys, st, read, waiting, hc, hdec, hw, hr, hsent, hread, hin⟩ := h
  refine ⟨xs, ys, st, read, waiting, hc, fun hb => ?_, hw.congr hout hphase, hr, hsent, hread,
    fun hb => ?_⟩
  · obtain ⟨hb, -, hsame⟩ := hlives hb
    rw [hsame, hdec hb]
  · obtain ⟨hb, hsame, -⟩ := hlives hb
    rw [hsame, hin hb]
    cases r with
    | true => rfl
    | false => simp only [unread, hphase rfl]

theorem Conveys.polled {b b' : Bridge D} {r : Bool} {sent : List (List Sending)}
    {received : List Frame} (h : Conveys m b r sent received) (hb : b.ended = none)
    (hwhole : ∀ s ∈ sent, Whole s ∧ ∀ q ∈ s, Obeys q) (hs : Stepped m b r b') :
    Conveys m b' r sent received := by
  -- a direction that writes nothing and ends the bridge
  have hends : ∀ b' : Bridge D, (b'.task r).output = (b.task r).output → b'.ended ≠ none →
      b'.phase = b.phase → Conveys m b' r sent received := fun b' hout hended hphase =>
    h.congr hout (fun _ => by rw [hphase]) fun h => (hended h).elim
  obtain ⟨xs, ys, st, read, waiting, hc, hdec, hw, hr, hsent, hread, hin⟩ := h
  have hin := hin hb
  have hdec := hdec hb
  cases hs with
  | preface t hphase hp =>
    obtain ⟨h1, h2⟩ := preface_ok _ _ _ _ hp
    obtain ⟨hf, hw⟩ := hw
    rw [if_pos ⟨rfl, hphase⟩] at hw
    obtain ⟨hout, hys⟩ := hw
    refine ⟨xs, ys, st, read, waiting, hc, fun _ => ?_, ⟨hf, ?_⟩, hr, hsent, hread, fun _ => ?_⟩
    · show t.decoder = st
      rw [h2]
      exact hdec
    · rw [if_neg fun h => by cases h.2]
      have ho : b.requests.output = [] := hout
      show t.output = opening false ++ (ys.flatMap Item.frames).flatMap Frame.encode
      rw [hys, h2, ho]
      rfl
    · have hin' : b.requests.input = unread b false ++ waiting.flatMap octets := hin
      rw [h1, unread, if_pos ⟨rfl, hphase⟩] at hin'
      exact List.append_cancel_left hin'
  | noPreface e t hphase hp => exact hends _ (preface_error _ _ _ _ hp) (fun h => by cases h) rfl
  | passed r x out t hframes hstep =>
    have hphase := past_preface hframes
    have hin' : (b.task r).input = x.frames.flatMap Frame.encode ++ t.input := hstep.input
    rw [hin, unread, if_neg hphase, List.nil_append] at hin'
    have hsuffix : waiting <:+ sent := ⟨read, hsent.symm⟩
    obtain ⟨s, rest, rfl, hmem, hframe, htail⟩ :=
      reads_item hsuffix hwhole x hstep.isItem hstep.read t.input hin'
    obtain ⟨y, hy, hyframes⟩ := hstep.written
    have hpassed : Passed m r (b.limits r) st x y.frames t.decoder := by
      rw [← hdec, hyframes]
      exact hstep.passed
    have hflat : (ys ++ [y]).flatMap Item.frames = ys.flatMap Item.frames ++ out := by
      rw [List.flatMap_append, List.flatMap_singleton, hyframes]
    obtain ⟨hf, hw⟩ := hw
    rw [if_neg hphase] at hw
    refine ⟨xs ++ [x], ys ++ [y], t.decoder, read ++ [s], rest, hc.snoc _ x y hy hpassed,
      fun _ => by rw [Bridge.task_stored], ⟨?_, ?_⟩, ?_, ?_, ?_, fun _ => ?_⟩
    · intro f hfm
      rw [hflat] at hfm
      rcases List.mem_append.1 hfm with hfm | hfm
      · exact hf f hfm
      · exact hstep.wrote f hfm
    · rw [Bridge.phase_stored, if_neg hphase, Bridge.task_stored, hstep.output, hflat,
        List.flatMap_append, ← List.append_assoc, ← hw]
      rfl
    · rw [hflat]
      exact hr.trans (List.prefix_append _ _)
    · rw [hsent, List.append_assoc]
      rfl
    · rw [List.map_append, List.map_append, hread, List.map_singleton, List.map_singleton, hframe]
    · rw [Bridge.task_stored, htail, unread, Bridge.phase_stored, if_neg hphase]
      rfl
  | failed r e t hframes hp =>
    have hout : t.output = (b.loaded r).output := pass_error _ _ _ _ _ _ hp
    refine hends _ ?_ (fun h => by cases h) ?_
    · cases r <;> exact hout
    · cases r <;> rfl
  | eof hphase hend =>
    rw [unread, if_neg fun h => by rw [hphase] at h; cases h.2] at hin
    refine ⟨xs, ys, st, read, waiting, hc, fun _ => hdec, hw.congr rfl (fun _ => ?_), hr, hsent,
      hread, fun _ => hin⟩
    rw [hphase]
    exact iff_of_false (fun h => by cases h) fun h => by cases h
  | finished hend => exact hends _ rfl (fun h => by cases h) rfl
  | done hphase => exact ⟨xs, ys, st, read, waiting, hc, fun _ => hdec, hw, hr, hsent, hread,
      fun _ => hin⟩

/-! ## Every world -/

/-- Each direction conveys what one peer sends to the other. -/
def BothConvey (m : Mapping U) (w : World D) : Prop :=
  ∀ r, Conveys m w.bridge r (w.peer r).sent (w.peer (!r)).received

theorem BothConvey.send {w : World D} (h : BothConvey m w) (r : Bool) (f : Frame) :
    BothConvey m (w.send r f) := by
  have hsent : ∀ r', ((w.send r f).peer r').sent = (w.peer r').sent :=
    update_both (q := fun r' (p : Peer) => p.sent = (w.peer r').sent) _ _ _ rfl fun _ => rfl
  have hreceived : ∀ r', ((w.send r f).peer r').received = (w.peer r').received :=
    update_both (q := fun r' (p : Peer) => p.received = (w.peer r').received) _ _ _ rfl fun _ => rfl
  intro r'
  rw [hsent, hreceived]
  exact h r'

theorem BothConvey.whole {w : World D} (h : BothConvey m w) (r : Bool) :
    BothConvey m (w.whole r) := by
  have hreceived : ∀ r', ((w.whole r).peer r').received = (w.peer r').received :=
    update_both (q := fun r' (p : Peer) => p.received = (w.peer r').received) _ _ _ rfl fun _ => rfl
  have hended : (w.whole r).bridge.ended = w.bridge.ended := Bridge.ended_arrive _ _ _
  have hphase : (w.whole r).bridge.phase = w.bridge.phase := Bridge.phase_arrive _ _ _
  refine both_directions r ?_ ?_
  · -- what the peer started is the last to wait
    obtain ⟨xs, ys, st, read, waiting, hc, hdec, hw, hr, hsent, hread, hin⟩ := h r
    rw [hreceived]
    refine ⟨xs, ys, st, read, waiting ++ [(w.peer r).started], hc, fun hb => ?_,
      hw.congr (Bridge.output_arrive _ _ _ _) (fun _ => by rw [hphase]), hr, ?_, hread, fun hb => ?_⟩
    · rw [← hdec (hended ▸ hb)]
      cases r <;> rfl
    · rw [World.sent_whole, hsent, List.append_assoc]
    · rw [World.whole, Bridge.input_arrive, hin (hended ▸ hb), List.flatMap_append,
        List.flatMap_singleton, List.append_assoc, unread, unread, Bridge.phase_arrive]
  · rw [World.sent_whole_not, hreceived]
    refine (h (!r)).congr (Bridge.output_arrive _ _ _ _) (fun _ => by rw [hphase]) fun hb =>
      ⟨hended ▸ hb, Bridge.input_arrive_not _ _ _, ?_⟩
    cases r <;> rfl

theorem BothConvey.receive {w : World D} (h : BothConvey m w) (r : Bool) (f : Frame)
    (hf : f.WellFormed) (hp : opening (!r) ++ ((w.peer r).received ++ [f]).flatMap Frame.encode <+:
      (w.bridge.task (!r)).output) : BothConvey m (w.receive r f) := by
  have hsent : ∀ r', ((w.receive r f).peer r').sent = (w.peer r').sent :=
    update_both (q := fun r' (p : Peer) => p.sent = (w.peer r').sent) _ _ _ rfl fun _ => rfl
  have hnew : ∀ r', Conveys m w.bridge (!r') (w.peer (!r')).sent ((w.receive r f).peer r').received := by
    refine update_both
      (q := fun r' (p : Peer) => Conveys m w.bridge (!r') (w.peer (!r')).sent p.received)
      _ _ _ ?_ fun r' => ?_
    · obtain ⟨xs, ys, st, read, waiting, hc, hdec, hw, hr, hsent, hread, hin⟩ := h (!r)
      rw [Bool.not_not] at hr
      refine ⟨xs, ys, st, read, waiting, hc, hdec, hw, hw.beginning (fun g hg => ?_) hp, hsent, hread,
        hin⟩
      rcases List.mem_append.1 hg with hg | hg
      · exact hw.1 g (hr.subset hg)
      · rw [List.mem_singleton.1 hg]
        exact hf
    · have := h (!r')
      rwa [Bool.not_not] at this
  intro r'
  have := hnew (!r')
  rw [Bool.not_not] at this
  rw [hsent]
  exact this

theorem BothConvey.poll {w : World D} (h : BothConvey m w) (hinv : WorldInv w) (r : Bool) :
    BothConvey m (w.poll m r) := by
  cases hb : w.bridge.ended with
  | some res =>
    rw [World.poll, step_of_ended m w.bridge r res hb]
    exact h
  | none =>
    have hs := step_cases m w.bridge r hb
    have hwhole : ∀ s ∈ (w.peer r).sent, Whole s ∧ ∀ q ∈ s, Obeys q := fun s hs =>
      ⟨(hinv.legal r).whole s hs, fun q hq => ((hinv.legal r).sent s hs q hq).1⟩
    obtain ⟨htask, -, hphase⟩ := hs.other
    refine both_directions r ((h r).polled hb hwhole hs) ?_
    refine (h (!r)).congr ?_ (fun hr => ?_) fun _ => ⟨hb, ?_, ?_⟩
    · rw [World.poll, htask]
    · rw [World.poll, hphase (by simpa using hr)]
    · rw [World.poll, htask]
    · rw [World.poll, htask]

theorem Reaches.conveys {w : World D} (h : Reaches m w) : BothConvey m w := by
  induction h with
  | refl => exact conveys_start
  | tail hreach hs ih =>
    cases hs with
    | send r f hf => exact ih.send r f
    | whole r hw => exact ih.whole r
    | receive r f hf hp =>
      exact ih.receive r f hf (hp.trans ((Reaches.inv hreach).written (!r)))
    | write r octets _ _ => exact ih
    | poll r _ => exact ih.poll (Reaches.inv hreach) r

/-- The bridge lives, and nothing is on the way from the peer `r` to the other one. -/
structure Quiet (w : World D) (r : Bool) : Prop where
  lives : w.bridge.ended = none
  begun : r = false → w.bridge.phase ≠ .preface
  read : (w.bridge.task r).input = []
  got : (w.bridge.task r).output = opening r ++ (w.peer (!r)).received.flatMap Frame.encode

/-- The peer `r` sent the items `xs` first, which mean `us`; for these the bridge handed on the
items `ys`, which mean `vs`, and the other peer received a part of that, or all. -/
structure Delivers (m : Mapping U) (w : World D) (r : Bool) (xs ys : List Item)
    (us vs : List Message) : Prop where
  sent : xs.map Item.frames <+: (w.peer r).sent.map (List.map Sending.frame)
  wrote : Wrote w.bridge r (ys.flatMap Item.frames)
  received : (w.peer (!r)).received <+: ys.flatMap Item.frames
  means : Means xs us
  means' : Means ys vs
  mapped : List.Forall₂ (MappedMessage m r) us vs
  whole : Quiet w r → xs.map Item.frames = (w.peer r).sent.map (List.map Sending.frame) ∧
    (w.peer (!r)).received = ys.flatMap Item.frames

/-- Where no octet waits, no item does. -/
theorem nothing_waits {waiting : List (List Sending)} (hwhole : ∀ s ∈ waiting, Whole s)
    (h : waiting.flatMap octets = []) : waiting = [] := by
  cases waiting with
  | nil => rfl
  | cons s rest =>
    obtain ⟨x, reps, hx, -⟩ := hwhole s List.mem_cons_self
    rw [List.flatMap_cons, octets, ← hx] at h
    exact (x.encode_ne_nil (List.append_eq_nil_iff.1 h).1).elim

/-- What was read last is what was sent last, and what was received last is what was handed on
last. -/
theorem Reaches.quiet {w : World D} (h : Reaches m w) {r : Bool} (hq : Quiet w r)
    {read waiting : List (List Sending)} {out : List Frame} (hw : Wrote w.bridge r out)
    (hr : (w.peer (!r)).received <+: out) (hsent : (w.peer r).sent = read ++ waiting)
    (hin : w.bridge.ended = none →
      (w.bridge.task r).input = unread w.bridge r ++ waiting.flatMap octets) :
    waiting = [] ∧ (w.peer (!r)).received = out := by
  have hphase : ¬(r = false ∧ w.bridge.phase = .preface) := fun h => hq.begun h.1 h.2
  constructor
  · have hin := hin hq.lives
    rw [hq.read, unread, if_neg hphase, List.nil_append] at hin
    exact nothing_waits (fun s hs => (h.inv.legal r).whole s
      (hsent ▸ List.mem_append_right _ hs)) hin.symm
  · have hout := hw.2
    rw [if_neg hphase, hq.got] at hout
    have hall := encode_beginning _ _ hw.1 (fun f hf => hw.1 f (hr.subset hf))
      (List.append_cancel_left hout ▸ List.prefix_refl _)
    exact hr.eq_of_length (Nat.le_antisymm hr.length_le hall.length_le)

end

/-- **The bridge is two channels.**  The peers and the bridge take their steps in any order.
In every world the messages that a peer receives are the first of those that the other one
sent, with the values of headers mapped; and if nothing is on the way, they are all. -/
theorem channel_conveys {D : HpackCrate} {table : D.Decoder → DynamicTable} (hD : D.Correct table)
    {U : UrlCrate} (m : Mapping U) (w : World D) (h : Reaches m w) (r : Bool) :
    ∃ xs ys us vs, Delivers m w r xs ys us vs := by
  obtain ⟨xs, ys, st, read, waiting, hc, -, hw, hr, hsent, hread, hin⟩ := h.conveys r
  obtain ⟨us, vs, R, hus, hvs, hmapped, -⟩ := hc.means hD
  refine ⟨xs, ys, us, vs, ?_, hw, hr, ⟨_, hus⟩, ⟨R, hvs⟩, hmapped, fun hq => ?_⟩
  · rw [hsent, List.map_append, hread]
    exact List.prefix_append _ _
  · obtain ⟨rfl, hall⟩ := h.quiet hq hw hr hsent hin
    rw [hsent, List.append_nil, hread]
    exact ⟨rfl, hall⟩

/-- `GET https://b.test:8443/` in one HEADERS frame. -/
def plainRequest : Frame :=
  { kind := 1, flags := 5, stream := 1, payload := sampleRequest }

/-- The same for the origin. -/
def plainForwarded : Frame :=
  { kind := 1, flags := 5, stream := 1, payload := sampleForwarded }

/-- The client has asked, and the origin has heard. -/
def asked : World boundedCrate :=
  ((((prefaced.send false plainRequest).whole false).poll sampleMapping false).drain
    false).receive true plainForwarded

theorem asked_reached : Reaches sampleMapping asked := by
  have h1 := (Reaches.deliver prefaced_reached false plainRequest rfl
    (obeys_initial _ (by decide) (by decide))
    (whole_headers ⟨rfl, fun f hf => (by cases hf), by decide⟩ (by decide) (by decide +kernel))).tail
    (.poll false (by decide +kernel))
  refine Relation.ReflTransGen.tail (Reaches.drain h1 false (by decide +kernel))
    (.receive true plainForwarded ?_ ?_)
  · show plainForwarded.payload.length < 2 ^ 24
    decide
  · decide +kernel

theorem channel_conveys_asked :
    ∃ xs ys us vs, Delivers sampleMapping asked false xs ys us vs :=
  channel_conveys boundedCrate_correct sampleMapping asked asked_reached false

end H2
