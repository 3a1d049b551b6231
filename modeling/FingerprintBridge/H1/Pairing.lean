import FingerprintBridge.H1.Exchange
import FingerprintBridge.H1.Confinement
import FingerprintBridge.Lib.Fairness

/-!
# Replies and requests

Where the client sends requests that pass and the origin answers them in order, no step
fails, and on every fair schedule the client is sent the mapped replies, all and in order.
-/

namespace H1

section
variable {U : UrlCrate} (m : Mapping U)

/-! ## What is still to come -/

/-- `ws` are the requests that the task has not taken the head of. -/
def RequestsAhead : Requesting → Bytes → List Message → Prop
  | .idle, bytes, ws => bytes = octetsOf ws
  | .sending _ x, bytes, ws => ∃ p, bytes = p ++ octetsOf ws ∧ IsBody MAX_HEAD p (octetsOf ws) x.kind
  | .forwarding x, bytes, ws => ∃ p, bytes = p ++ octetsOf ws ∧ IsBody MAX_HEAD p (octetsOf ws) x.kind
  | .done, _, ws => ws = []

/-- `xs` are the responses that the task has not forwarded, `ys` the same mapped; `channel`
are the flags it has not received. -/
def ResponsesAhead : Responding → Bytes → (channel flags : List Bool) → (xs ys : List Message) → Prop
  | .waiting, bytes, channel, flags, xs, _ => bytes = octetsOf xs ∧ Answers channel flags xs
  | .serving isHead, bytes, channel, flags, xs, _ =>
    bytes = octetsOf xs ∧ Answers (isHead :: channel) flags xs
  | .forwarding isHead next x, bytes, channel, flags, xs, ys => ∃ p xs' ys' status,
    xs = x.message p :: xs' ∧ ys = x.mapped p :: ys' ∧ bytes = p ++ octetsOf xs' ∧
      statusCode x.head = .ok status ∧ next = nextOf status (x.message p) ∧
      Answers (isHead :: channel) flags xs
  | .done, _, _, _, xs, _ => xs = []

/-- The client sends `ws`, all of which pass; the origin answers them with `xs`, and `ys`
are the same mapped. -/
structure Exchange (ws : List Message) (flags : List Bool) (xs ys : List Message) : Prop where
  requests : IsStream MAX_HEAD false [] (List.replicate ws.length false) ws
  accepted : ∀ x ∈ ws, ∃ y, Accepted m x y
  responses : IsStream MAX_HEAD true [] flags xs
  upgrades : ∀ x ∈ xs, statusCode x.head ≠ .ok 101
  rewritten : List.Forall₂ (Rewritten m true) xs ys

theorem octetsOf_cons (x : Message) (xs : List Message) :
    octetsOf (x :: xs) = x.head ++ (x.payload ++ octetsOf xs) :=
  List.append_assoc x.head x.payload (octetsOf xs)

def flagsOf (ws : List Message) : List Bool := ws.map fun x => isHeadRequest x.head

/-- What was written and what is still to come are `ys`. -/
structure Ahead (b : Bridge) (ys : List Message) (ws : List Message) (flags : List Bool)
    (xs ys' : List Message) : Prop where
  exchange : Exchange m ws flags xs ys'
  requests : RequestsAhead b.requesting b.requests.reader.flatten ws
  responses : ResponsesAhead b.responding b.responses.reader.flatten
    (b.queue ++ b.requesting.unsent ++ flagsOf ws) flags xs ys'
  passed : b.requesting.Ok m
  written : ∃ before, b.responses.output = octetsOf before ∧ ys = before ++ ys'

variable {m} {b : Bridge} {ys ws xs ys' : List Message} {flags : List Bool}

theorem Exchange.tail {x : Message} (h : Exchange m (x :: ws) flags xs ys) :
    Exchange m ws flags xs ys := by
  obtain ⟨hreq, hacc, hresp, hup, hrw⟩ := h
  cases hreq with
  | cons _ _ _ _ _ hws => exact ⟨hws, fun y hy => hacc y (List.mem_cons_of_mem _ hy), hresp, hup, hrw⟩

/-- A task before the next request finds one that passes, or the end. -/
theorem Exchange.accepts (h : Exchange m ws flags xs ys) (st : Conn)
    (hst : st.reader.flatten = octetsOf ws) : ∃ r st', acceptRequest m st = .ok r st' := by
  cases ws with
  | nil =>
    obtain ⟨st', hrun, -⟩ := (reads_acceptRequest m _).complete st none [] [] rfl
      ⟨rfl, Or.inl ⟨rfl, hst, rfl⟩⟩
    exact ⟨none, st', hrun⟩
  | cons x ws =>
    obtain ⟨y, ⟨method, hc⟩, -⟩ := h.accepted x List.mem_cons_self
    have hreq := h.requests
    cases hreq with
    | cons _ _ _ _ hx _ =>
      have hhead : RequestHead m (isHeadRequest x.head) ⟨x.head, x.kind, y.head⟩ :=
        ⟨hx.isSection, hx.length, ⟨method, hc⟩, rfl⟩
      obtain ⟨st', hrun, -⟩ := (reads_acceptRequest m _).complete st _ [] _ rfl
        ⟨rfl, Or.inr ⟨_, _, rfl, hhead, hst.trans (octetsOf_cons x ws)⟩⟩
      exact ⟨_, st', hrun⟩

/-- The head that is read next is that of the next request. -/
theorem Exchange.head_request {x : Message} {isHead : Bool} {t : Checked} {rest : Bytes}
    (h : Exchange m (x :: ws) flags xs ys) (ht : RequestHead m isHead t)
    (hb : octetsOf (x :: ws) = t.head ++ rest) :
    t.head = x.head ∧ t.kind = x.kind ∧ rest = x.payload ++ octetsOf ws ∧
      IsBody MAX_HEAD x.payload (octetsOf ws) x.kind := by
  have hreq := h.requests
  cases hreq with
  | cons _ _ _ _ hx _ =>
    have hcut : x.head ++ (x.payload ++ octetsOf ws) = t.head ++ rest := by
      rw [← hb, octetsOf_cons]
    obtain ⟨hhead, hrest⟩ := hx.isSection.append_inj ht.isSection hcut
    obtain ⟨method, hc⟩ := ht.checked
    obtain ⟨-, hk, -⟩ := (checkRequest_ok_iff m _ _ _ _).1 hc
    rw [← hhead, hx.framing] at hk
    have hbody := hx.isBody
    rw [List.append_nil] at hbody
    exact ⟨hhead.symm, (Except.ok.inj hk).symm, hrest.symm, hbody⟩

/-- The request task goes on. -/
theorem Ahead.requestsStep (h : Ahead m b ys ws flags xs ys') (hlive : b.ended = none) :
    (∃ ws', Ahead m (b.requestsStep m) ys ws' flags xs ys') ∧ (b.requestsStep m).ended = none := by
  obtain ⟨hex, hreq, hresp, hok, hout⟩ := h
  have hstep := requestsStep_cases m b
  generalize b.requestsStep m = b' at hstep
  cases hstep with
  | closed c hidle hb hc _ =>
    rw [hidle] at hreq hresp
    obtain rfl : ws = [] := hex.requests.eq_nil (hreq.symm.trans hb)
    exact ⟨⟨[], hex, rfl, hresp, trivial, hout⟩, hlive⟩
  | accepted c isHead t hidle ht hb _ =>
    rw [hidle] at hreq hresp
    cases ws with
    | nil =>
      have hnil := hb.symm.trans hreq
      exact absurd (List.append_eq_nil_iff.1 hnil).1 ht.isSection.ne_nil
    | cons x ws =>
      obtain ⟨hhead, hkind, hrest, hbody⟩ := hex.head_request ht (hreq.symm.trans hb)
      refine ⟨⟨ws, hex.tail, ⟨x.payload, hrest, hkind ▸ hbody⟩, ?_, ht, hout⟩, hlive⟩
      rw [ht.isHead, hhead]
      simpa [Requesting.unsent, flagsOf] using hresp
  | rejected c e hidle hfail _ =>
    rw [hidle] at hreq
    obtain ⟨r, st, hrun⟩ := hex.accepts b.requests hreq
    rw [hrun] at hfail
    cases hfail
  | sent isHead t hsending _ =>
    rw [hsending] at hreq hresp hok
    refine ⟨⟨ws, hex, hreq, ?_, ⟨isHead, hok⟩, hout⟩, hlive⟩
    simpa [Requesting.unsent] using hresp
  | full isHead t _ _ => exact ⟨⟨ws, hex, hreq, hresp, hok, hout⟩, hlive⟩
  | forwarded c t p hforwarding hp hb _ =>
    rw [hforwarding] at hreq hresp
    obtain ⟨p', hb', hp'⟩ := hreq
    obtain rfl := hp.unique hp' (hb.symm.trans hb')
    refine ⟨⟨ws, hex, ?_, hresp, trivial, hout⟩, hlive⟩
    exact List.append_cancel_left (hb.symm.trans hb')
  | broken c e t w hforwarding hfail _ _ =>
    rw [hforwarding] at hreq
    obtain ⟨p, hb, hp⟩ := hreq
    obtain ⟨st, hrun, -⟩ := (reads_forward t _).complete b.requests () _ _ rfl ⟨p, rfl, hb, hp⟩
    rw [hrun] at hfail
    cases hfail
  | finished hdone => exact ⟨⟨ws, hex, hreq, hresp, hok, hout⟩, hlive⟩

/-- The head that is read next is that of the next response. -/
theorem Exchange.head_response {x y : Message} {isHead flag : Bool} {status : Nat} {t : Checked}
    {rest : Bytes} (h : Exchange m ws (flag :: flags) (x :: xs) (y :: ys))
    (ht : ResponseHead m isHead status t) (hb : octetsOf (x :: xs) = t.head ++ rest)
    (hflag : ∀ status', statusCode x.head = .ok status' → flag = noBody isHead status') :
    x = t.message x.payload ∧ y = t.mapped x.payload ∧ rest = x.payload ++ octetsOf xs := by
  have hresp := h.responses
  have hrw := h.rewritten
  obtain ⟨head, kind, payload⟩ := x
  obtain ⟨head', kind', payload'⟩ := y
  obtain ⟨thead, tkind, trewritten⟩ := t
  cases hresp with
  | cons _ _ _ _ hx _ =>
    cases hrw with
    | cons hxy _ =>
      rw [octetsOf_cons] at hb
      obtain ⟨hhead, hrest⟩ := hx.isSection.append_inj ht.isSection hb
      obtain rfl : head = thead := hhead
      obtain ⟨hmap, hkind, hpayload⟩ := hxy
      have hk := ht.framing
      rw [← hflag status ht.hstatus, hx.framing] at hk
      have hm := ht.rewritten
      rw [hmap] at hm
      obtain rfl : kind = tkind := Except.ok.inj hk
      obtain rfl : head' = trewritten := Except.ok.inj hm
      obtain rfl : kind' = kind := hkind
      obtain rfl : payload' = payload := hpayload
      exact ⟨rfl, rfl, hrest.symm⟩

/-- What is left to answer after a response that goes on with `next`. -/
def AnswersAfter (isHead : Bool) (channel : List Bool) : Next → List Bool → List Message → Prop
  | .interim, flags, xs => Answers (isHead :: channel) flags xs
  | .final, flags, xs => Answers channel flags xs
  | .eof, flags, xs => flags = [] ∧ xs = []

/-- A request that is to be answered is answered by a response. -/
theorem Answers.uncons {isHead : Bool} {channel flags : List Bool} {xs : List Message}
    (h : Answers (isHead :: channel) flags xs) : ∃ status flags' x xs',
      flags = noBody isHead status :: flags' ∧ xs = x :: xs' ∧ statusCode x.head = .ok status ∧
        AnswersAfter isHead channel (nextOf status x) flags' xs' := by
  cases h with
  | eof _ _ status x hstatus hnext => exact ⟨status, [], x, [], rfl, rfl, hstatus, hnext ▸ ⟨rfl, rfl⟩⟩
  | interim _ _ status x flags' xs' hstatus hnext h =>
    exact ⟨status, flags', x, xs', rfl, rfl, hstatus, hnext ▸ h⟩
  | final _ _ status x flags' xs' hstatus hnext h =>
    exact ⟨status, flags', x, xs', rfl, rfl, hstatus, hnext ▸ h⟩

theorem Exchange.tail_response {x y : Message} {flag : Bool}
    (h : Exchange m ws (flag :: flags) (x :: xs) (y :: ys)) : Exchange m ws flags xs ys := by
  obtain ⟨hreq, hacc, hresp, hup, hrw⟩ := h
  cases hresp with
  | cons _ _ _ _ _ hxs =>
    cases hrw with
    | cons _ hys => exact ⟨hreq, hacc, hxs, fun z hz => hup z (List.mem_cons_of_mem _ hz), hys⟩

theorem Exchange.body {t : Checked} {p : Bytes} (h : Exchange m ws flags (t.message p :: xs) ys) :
    IsBody MAX_HEAD p (octetsOf xs) t.kind := by
  have hresp := h.responses
  cases hresp with
  | cons _ _ _ _ hx _ =>
    have hbody := hx.isBody
    rwa [List.append_nil] at hbody

/-- A task before the next response finds one that passes. -/
theorem Exchange.accepts_response {isHead : Bool} {channel : List Bool}
    (h : Exchange m ws flags xs ys) (hans : Answers (isHead :: channel) flags xs) (st : Conn)
    (hst : st.reader.flatten = octetsOf xs) : ∃ r st', acceptResponse m isHead st = .ok r st' := by
  obtain ⟨status, flags', x, xs', rfl, rfl, hstatus, -⟩ := hans.uncons
  obtain ⟨-, -, hresp, hup, hrw⟩ := h
  cases hresp with
  | cons _ _ _ _ hx _ =>
    cases hrw with
    | @cons _ y _ _ hxy _ =>
      have h101 : status ≠ 101 := fun h0 => hup x List.mem_cons_self (by rw [hstatus, h0])
      have hhead : ResponseHead m isHead status ⟨x.head, x.kind, y.head⟩ :=
        ⟨hx.isSection, hx.length, hstatus, h101, hx.framing, hxy.1⟩
      obtain ⟨st', hrun, -⟩ := (reads_acceptResponse m isHead _).complete st _ [] _ rfl
        ⟨rfl, status, _, rfl, hhead, hst.trans (octetsOf_cons x xs')⟩
      exact ⟨_, st', hrun⟩

/-- The response task goes on, or has forwarded everything. -/
theorem Ahead.responsesStep (h : Ahead m b ys ws flags xs ys') (hlive : b.ended = none) :
    (∃ flags' xs' ys'', Ahead m (b.responsesStep m) ys ws flags' xs' ys'') ∧
      ∀ e, (b.responsesStep m).ended ≠ some (.error e) := by
  obtain ⟨hex, hreq, hresp, hok, hout⟩ := h
  have hnone : ∀ e, b.ended ≠ some (.error e) := fun e he => by rw [hlive] at he; cases he
  have hstep := responsesStep_cases m b
  generalize b.responsesStep m = b' at hstep
  cases hstep with
  | received isHead queue hwaiting hq =>
    rw [hwaiting, hq] at hresp
    exact ⟨⟨flags, xs, ys', hex, hreq, hresp, hok, hout⟩, hnone⟩
  | closed hwaiting hq hdone =>
    rw [hwaiting, hq, hdone] at hresp
    rw [hdone] at hreq
    obtain rfl : ws = [] := hreq
    have hans : Answers [] flags xs := hresp.2
    have hxs : xs = [] := by
      cases hans
      rfl
    exact ⟨⟨flags, xs, ys', hex, by rw [hdone]; rfl, hxs, hok, hout⟩, fun e he => by cases he⟩
  | empty _ _ _ => exact ⟨⟨flags, xs, ys', hex, hreq, hresp, hok, hout⟩, hnone⟩
  | accepted c isHead status t hserving ht hb hc =>
    rw [hserving] at hresp
    obtain ⟨hbytes, hans⟩ := hresp
    obtain ⟨before, hwritten, hys⟩ := hout
    obtain ⟨status', flags', x, xs', rfl, rfl, hstatus, -⟩ := hans.uncons
    have hrw := hex.rewritten
    cases hrw with
    | @cons _ y _ ys'' _ _ =>
      obtain ⟨hx, hy, hrest⟩ := hex.head_response ht (hbytes.symm.trans hb) fun status'' h0 => by
        rw [Except.ok.inj (hstatus.symm.trans h0)]
      refine ⟨⟨_, _, _, hex, hreq, ⟨x.payload, xs', ys'', status, ?_, ?_, hrest, ht.hstatus, rfl, hans⟩,
        hok, before, hc.trans hwritten, hys⟩, hnone⟩
      · rw [← hx]
      · rw [← hy]
  | rejected c e isHead hserving hfail _ =>
    rw [hserving] at hresp
    obtain ⟨r, st, hrun⟩ := hex.accepts_response hresp.2 b.responses hresp.1
    rw [hrun] at hfail
    cases hfail
  | forwarded c isHead next t p hforwarding hp hb hc =>
    rw [hforwarding] at hresp
    obtain ⟨p', xs', ys'', status, rfl, rfl, hb', hstatus, rfl, hans⟩ := hresp
    obtain rfl := hp.unique hex.body (hb.symm.trans hb')
    have hrest : c.reader.flatten = octetsOf xs' := List.append_cancel_left (hb.symm.trans hb')
    obtain ⟨status', flags', x, xs'', rfl, hxs, hstatus', hafter⟩ := hans.uncons
    obtain ⟨rfl, rfl⟩ := List.cons.inj hxs
    obtain rfl : status = status' := Except.ok.inj (hstatus.symm.trans hstatus')
    obtain ⟨before, hwritten, hys⟩ := hout
    have hwritten' : c.output = octetsOf (before ++ [t.mapped p]) ∧
        ys = (before ++ [t.mapped p]) ++ ys'' := by
      refine ⟨?_, by rw [hys, List.append_assoc]; rfl⟩
      rw [hc, hwritten, octetsOf, octetsOf, List.flatMap_append, List.flatMap_singleton]
      rfl
    generalize nextOf status (t.message p) = next at hafter ⊢
    refine ⟨⟨flags', xs', ys'', hex.tail_response, hreq, ?_, hok, _, hwritten'⟩, ?_⟩
    · cases next with
      | interim => exact ⟨hrest, hafter⟩
      | final => exact ⟨hrest, hafter⟩
      | eof => exact hafter.2
    · intro e he
      split at he
      · cases he
      · exact hnone e he
  | broken c e isHead next t w hforwarding hfail _ _ =>
    rw [hforwarding] at hresp
    obtain ⟨p, xs', ys'', status, rfl, rfl, hb, -⟩ := hresp
    obtain ⟨st, hrun, -⟩ := (reads_forward t _).complete b.responses () _ _ rfl
      ⟨p, rfl, hb, hex.body⟩
    rw [hrun] at hfail
    cases hfail
  | finished _ => exact ⟨⟨flags, xs, ys', hex, hreq, hresp, hok, hout⟩, hnone⟩

/-! ## Every step is nearer to the end -/

def Requesting.rank : Requesting → Nat
  | .idle => 1
  | .sending _ _ => 4
  | .forwarding _ => 2
  | .done => 0

def Responding.rank : Responding → Nat
  | .waiting => 1
  | .serving _ => 1
  | .forwarding _ _ _ => 2
  | .done => 0

def Bridge.work (b : Bridge) : Nat :=
  3 * (b.requests.reader.flatten.length + b.responses.reader.flatten.length) +
    b.requesting.rank + b.queue.length + b.responding.rank

theorem RequestsStep.nears {b' : Bridge} (h : RequestsStep m b b') :
    b' = b ∧ (b.requesting = .done ∨ CAPACITY ≤ b.queue.length) ∨
      (∃ e, b'.ended = some (.error e)) ∨ b'.work < b.work := by
  cases h with
  | closed c hreq hb hc _ =>
    refine Or.inr (Or.inr ?_)
    simp only [Bridge.work, hreq, hb, hc, Requesting.rank]
    omega
  | accepted c isHead x hreq hx hb _ =>
    have hlen := hx.isSection.length
    refine Or.inr (Or.inr ?_)
    simp only [Bridge.work, hreq, hb, Requesting.rank, List.length_append]
    omega
  | rejected c e _ _ _ => exact Or.inr (Or.inl ⟨e, rfl⟩)
  | sent isHead x hreq _ =>
    refine Or.inr (Or.inr ?_)
    simp only [Bridge.work, hreq, Requesting.rank, List.length_append, List.length_singleton]
    omega
  | full isHead x _ hroom => exact Or.inl ⟨rfl, Or.inr (Nat.le_of_not_lt hroom)⟩
  | forwarded c x p hreq _ hb _ =>
    refine Or.inr (Or.inr ?_)
    simp only [Bridge.work, hreq, hb, Requesting.rank, List.length_append]
    omega
  | broken c e x w _ _ _ _ => exact Or.inr (Or.inl ⟨e, rfl⟩)
  | finished hreq => exact Or.inl ⟨rfl, Or.inl hreq⟩

theorem Next.rank_after (isHead : Bool) (next : Next) : (next.after isHead).rank ≤ 1 := by
  cases next <;> simp [Next.after, Responding.rank]

theorem ResponsesStep.nears {b' : Bridge} (h : ResponsesStep m b b') :
    b' = b ∧ (b.responding = .done ∨ b.queue = [] ∧ b.requesting ≠ .done) ∨
      (∃ e, b'.ended = some (.error e)) ∨ b'.work < b.work := by
  cases h with
  | received isHead queue hresp hq =>
    refine Or.inr (Or.inr ?_)
    simp only [Bridge.work, hresp, hq, Responding.rank, List.length_cons]
    omega
  | closed hresp _ _ =>
    refine Or.inr (Or.inr ?_)
    simp only [Bridge.work, hresp, Responding.rank]
    omega
  | empty _ hq hreq => exact Or.inl ⟨rfl, Or.inr ⟨hq, hreq⟩⟩
  | accepted c isHead status x hresp hx hb _ =>
    have hlen := hx.isSection.length
    refine Or.inr (Or.inr ?_)
    simp only [Bridge.work, hresp, hb, Responding.rank, List.length_append]
    omega
  | rejected c e isHead _ _ _ => exact Or.inr (Or.inl ⟨e, rfl⟩)
  | forwarded c isHead next x p hresp _ hb _ =>
    have hrank := next.rank_after isHead
    have hrank' : b.responding.rank = 2 := by rw [hresp]; rfl
    refine Or.inr (Or.inr ?_)
    simp only [Bridge.work, hb, List.length_append]
    omega
  | broken c e isHead next x w _ _ _ _ => exact Or.inr (Or.inl ⟨e, rfl⟩)
  | finished hresp => exact Or.inl ⟨rfl, Or.inl hresp⟩

/-! ## Every schedule -/

/-- The bridge has returned exactly if the response task is at its end. -/
def Bridge.Closed (b : Bridge) : Prop := b.responding = .done ↔ b.ended = some (.ok ())

theorem RequestsStep.closed_iff {b' : Bridge} (h : RequestsStep m b b') (hlive : b.ended = none)
    (hb : b.Closed) : b'.Closed := by
  cases h with
  | rejected c e _ _ _ | broken c e _ _ _ _ _ _ =>
    constructor
    · intro hdone
      have hend := hb.1 hdone
      rw [hlive] at hend
      cases hend
    · intro hend
      cases hend
  | _ => exact hb

theorem ResponsesStep.closed_iff {b' : Bridge} (h : ResponsesStep m b b') (hlive : b.ended = none)
    (hb : b.Closed) : b'.Closed := by
  have hdone : b.responding ≠ .done := fun h0 => by
    have hend := hb.1 h0
    rw [hlive] at hend
    cases hend
  have hopen : b.ended ≠ some (.ok ()) := fun h0 => by
    rw [hlive] at h0
    cases h0
  cases h with
  | received isHead queue _ _ => exact ⟨(fun h0 => nomatch h0), fun h0 => absurd h0 hopen⟩
  | closed _ _ _ => exact ⟨fun _ => rfl, fun _ => rfl⟩
  | empty _ _ _ => exact hb
  | accepted c isHead status x _ _ _ _ =>
    exact ⟨(fun h0 => nomatch h0), fun h0 => absurd h0 hopen⟩
  | rejected c e _ _ _ _ => exact ⟨fun h0 => absurd h0 hdone, fun h0 => by cases h0⟩
  | forwarded c isHead next x p _ _ _ _ =>
    cases next with
    | eof => exact ⟨fun _ => rfl, fun _ => rfl⟩
    | interim => exact ⟨(fun h0 => nomatch h0), fun h0 => absurd h0 hopen⟩
    | final => exact ⟨(fun h0 => nomatch h0), fun h0 => absurd h0 hopen⟩
  | broken c e _ _ _ _ _ _ _ _ => exact ⟨fun h0 => absurd h0 hdone, fun h0 => by cases h0⟩
  | finished h0 => exact absurd h0 hdone

variable (m)

/-- What holds on every schedule of an exchange. -/
structure Going (ys : List Message) (b : Bridge) : Prop where
  ahead : ∃ ws flags xs ys', Ahead m b ys ws flags xs ys'
  noError : ∀ e, b.ended ≠ some (.error e)
  closed : b.Closed

theorem Going.step (h : Going m ys b) (r : Bool) : Going m ys (b.step m r) := by
  by_cases hlive : b.ended = none
  · obtain ⟨⟨ws, flags, xs, ys', ha⟩, -, hclosed⟩ := h
    rw [b.step_live m hlive]
    cases r with
    | true =>
      obtain ⟨⟨flags', xs', ys'', ha'⟩, hend⟩ := ha.responsesStep hlive
      exact ⟨⟨ws, flags', xs', ys'', ha'⟩, hend, (responsesStep_cases m b).closed_iff hlive hclosed⟩
    | false =>
      obtain ⟨⟨ws', ha'⟩, hend⟩ := ha.requestsStep hlive
      refine ⟨⟨ws', flags, xs, ys', ha'⟩, fun e he => ?_,
        (requestsStep_cases m b).closed_iff hlive hclosed⟩
      rw [if_neg Bool.false_ne_true, hend] at he
      cases he
  · rw [b.step_ended m (Option.isSome_iff_ne_none.2 hlive)]
    exact h

theorem Going.run (h : Going m ys b) (schedule : List Bool) : Going m ys (b.run m schedule) := by
  induction schedule generalizing b with
  | nil => exact h
  | cons r schedule ih => exact ih (h.step m r)

/-- At any time the client was sent the first of the mapped replies, in the end all. -/
theorem Going.written (h : Going m ys b) : (∃ n, b.responses.output = octetsOf (ys.take n)) ∧
    (b.ended = some (.ok ()) → b.responses.output = octetsOf ys) := by
  obtain ⟨⟨ws, flags, xs, ys', ha⟩, -, hclosed⟩ := h
  obtain ⟨before, hout, rfl⟩ := ha.written
  refine ⟨⟨before.length, by rw [List.take_left, hout]⟩, fun hend => ?_⟩
  have hresp := ha.responses
  rw [hclosed.2 hend] at hresp
  obtain rfl : xs = [] := hresp
  have hys := ha.exchange.rewritten
  cases hys
  rw [hout, List.append_nil]

/-- There is always a task to be taken. -/
theorem nearing_going : Nearing (Bridge.step m) (Going m ys) (fun b => b.ended ≠ none)
    Bridge.work where
  keeps b r h := h.step m r
  nears b r h hlive := by
    rw [not_not] at hlive
    have hend := (h.step m r).noError
    rw [b.step_live m hlive] at hend ⊢
    cases r with
    | true =>
      rcases (responsesStep_cases m b).nears with ⟨heq, -⟩ | ⟨e, he⟩ | hless
      · exact Or.inl heq
      · exact absurd he (hend e)
      · exact Or.inr hless
    | false =>
      rcases (requestsStep_cases m b).nears with ⟨heq, -⟩ | ⟨e, he⟩ | hless
      · exact Or.inl heq
      · exact absurd he (hend e)
      · exact Or.inr hless
  goes b h hlive := by
    rw [not_not] at hlive
    have hend := fun r => (h.step m r).noError
    simp only [b.step_live m hlive] at hend ⊢
    rcases (responsesStep_cases m b).nears with ⟨-, hdone | ⟨hq, hreq⟩⟩ | ⟨e, he⟩ | hless
    · have hover := h.closed.1 hdone
      rw [hlive] at hover
      cases hover
    · -- the response task waits: the request task does not
      refine ⟨false, ?_⟩
      rcases (requestsStep_cases m b).nears with ⟨-, hdone | hfull⟩ | ⟨e, he⟩ | hless
      · exact absurd hdone hreq
      · rw [hq] at hfull
        exact absurd hfull (by decide)
      · exact absurd he (hend false e)
      · exact hless
    · exact absurd he (hend true e)
    · exact ⟨true, hless⟩

theorem Exchange.going {client origin : List Bytes} (h : Exchange m ws flags xs ys)
    (hclient : client.flatten = octetsOf ws) (horigin : origin.flatten = octetsOf xs)
    (hans : Answers (flagsOf ws) flags xs) : Going m ys (Bridge.new client origin) where
  ahead := ⟨ws, flags, xs, ys, h, hclient, ⟨horigin, hans⟩, trivial, [], rfl, rfl⟩
  noError := fun _ he => nomatch he
  closed := ⟨(fun h0 => nomatch h0), fun h0 => nomatch h0⟩

end

/-- **Response pairing under pipelining.**  Whatever the peers send and however the tasks
are scheduled, every reply is framed with the flag of the request it answers, the head of
which was accepted, and an interim one has no body.  Where the client's requests pass and
the origin answers them in order, no schedule fails, the client is sent the first of the
mapped replies at any time, and all of them in the end, which comes on every fair schedule. -/
theorem responses_paired {U : UrlCrate} (m : Mapping U) (client origin : List Bytes) :
    (∀ schedule, ∃ qs received rs,
      Outcome m client origin ((Bridge.new client origin).run m schedule) qs received rs ∧
        ∀ r ∈ rs, r.interim = true → r.message.kind = .empty ∧ r.message.payload = []) ∧
    ∀ ws flags xs ys, client.flatten = octetsOf ws → origin.flatten = octetsOf xs →
      Exchange m ws flags xs ys → Answers (flagsOf ws) flags xs →
        (∀ schedule,
          (∀ e, ((Bridge.new client origin).run m schedule).ended ≠ some (.error e)) ∧
          (∃ n, ((Bridge.new client origin).run m schedule).responses.output =
            octetsOf (ys.take n)) ∧
          (((Bridge.new client origin).run m schedule).ended = some (.ok ()) →
            ((Bridge.new client origin).run m schedule).responses.output = octetsOf ys)) ∧
        ∀ schedule, Fair schedule → ∃ n,
          ((Bridge.new client origin).run m ((List.range n).map schedule)).ended = some (.ok ()) := by
  refine ⟨fun schedule => ?_, fun ws flags xs ys hclient horigin hex hans => ?_⟩
  · obtain ⟨qs, received, rs, h⟩ := run_outcome m client origin schedule
    refine ⟨qs, received, rs, h, fun r hr hi => ?_⟩
    obtain ⟨rest, hreply⟩ := h.reply m r hr
    exact hreply.interim m hi
  · have hgoing := hex.going m hclient horigin hans
    refine ⟨fun schedule => ?_, fun schedule hfair => ?_⟩
    · have hrun := hgoing.run m schedule
      exact ⟨hrun.noError, hrun.written m⟩
    · obtain ⟨n, hn⟩ := (nearing_going m).ends hfair hgoing
      rw [stateAt_eq_foldl] at hn
      refine ⟨n, ?_⟩
      have hrun := (hgoing.run m ((List.range n).map schedule)).noError
      match hend : ((Bridge.new client origin).run m ((List.range n).map schedule)).ended with
      | none => exact absurd hend hn
      | some (.ok ()) => rfl
      | some (.error e) => exact absurd hend (hrun e)

/-- A request and one to `HEAD`. -/
def pipelined : List Message :=
  [⟨sectionOf [ascii "GET / HTTP/1.1", ascii "Host: b.test:8443"], .empty, []⟩,
    ⟨sectionOf [ascii "HEAD / HTTP/1.1", ascii "Host: b.test:8443"], .empty, []⟩]

/-- An interim response, one of two octets, and one to `HEAD` that has none. -/
def answers : List Message :=
  [⟨sectionOf [ascii "HTTP/1.1 100 Continue"], .empty, []⟩,
    ⟨sectionOf [ascii "HTTP/1.1 200 OK", ascii "Content-Length: 2"], .length 2, ascii "ok"⟩,
    ⟨sectionOf [ascii "HTTP/1.1 200 OK", ascii "Content-Length: 2"], .empty, []⟩]

theorem exchange_sample : Exchange sampleMapping pipelined [true, false, true] answers answers := by
  have section1 : ∀ a, Lines [a] → IsSection (sectionOf [a]) := fun a h => ⟨_, h, rfl⟩
  have section2 : ∀ a b, Lines [a, b] → IsSection (sectionOf [a, b]) := fun a b h => ⟨_, h, rfl⟩
  have lines : ∀ cs : List Bytes, (∀ c ∈ cs, c ≠ [] ∧ 10 ∉ c) → Lines cs := fun cs h => h
  refine ⟨?_, ?_, ?_, ?_, ?_⟩
  · refine .cons _ _ _ _ ⟨section2 _ _ (lines _ (by decide)), by decide, by decide +kernel, rfl⟩ ?_
    exact .cons _ _ _ _ ⟨section2 _ _ (lines _ (by decide)), by decide, by decide +kernel, rfl⟩ .nil
  · refine List.forall_mem_cons.2 ⟨?_, List.forall_mem_cons.2 ⟨?_, fun x hx => nomatch hx⟩⟩
    · refine ⟨⟨sectionOf [ascii "GET / HTTP/1.1", ascii "Host: a.test:9443"], .empty, []⟩,
        ⟨"GET".toList, by decide +kernel⟩, rfl, rfl⟩
    · refine ⟨⟨sectionOf [ascii "HEAD / HTTP/1.1", ascii "Host: a.test:9443"], .empty, []⟩,
        ⟨"HEAD".toList, by decide +kernel⟩, rfl, rfl⟩
  · refine .cons _ _ _ _ ⟨section1 _ (lines _ (by decide)), by decide, by decide +kernel, rfl⟩ ?_
    refine .cons _ _ _ _ ⟨section2 _ _ (lines _ (by decide)), by decide, by decide +kernel, rfl⟩ ?_
    exact .cons _ _ _ _ ⟨section2 _ _ (lines _ (by decide)), by decide, by decide +kernel, rfl⟩ .nil
  · decide +kernel
  · refine .cons ⟨by decide +kernel, rfl, rfl⟩ (.cons ⟨by decide +kernel, rfl, rfl⟩
      (.cons ⟨by decide +kernel, rfl, rfl⟩ .nil))

/-- Each task in turn. -/
theorem responses_paired_sample : ∃ n,
    ((Bridge.new [octetsOf pipelined] [octetsOf answers]).run sampleMapping
      ((List.range n).map fun k => k % 2 = 0)).ended = some (.ok ()) ∧
    ((Bridge.new [octetsOf pipelined] [octetsOf answers]).run sampleMapping
      ((List.range n).map fun k => k % 2 = 0)).responses.output = octetsOf answers := by
  have hfair : Fair fun k : Nat => decide (k % 2 = 0) := by
    intro n t
    cases t with
    | true => exact ⟨2 * n, by omega, by simp⟩
    | false => exact ⟨2 * n + 1, by omega, by simp⟩
  have hans : Answers (flagsOf pipelined) [true, false, true] answers := by
    rw [show flagsOf pipelined = [false, true] by decide +kernel]
    refine .interim false [true] 100 _ _ _ (by decide +kernel) (by decide) ?_
    refine .final false [true] 200 _ _ _ (by decide +kernel) (by decide) ?_
    exact .final true [] 200 _ _ _ (by decide +kernel) (by decide) .nil
  obtain ⟨hall, hend⟩ := (responses_paired sampleMapping [octetsOf pipelined] [octetsOf answers]).2
    pipelined [true, false, true] answers answers (by simp) (by simp) exchange_sample hans
  obtain ⟨n, hn⟩ := hend _ hfair
  exact ⟨n, hn, (hall _).2.2 hn⟩

end H1
