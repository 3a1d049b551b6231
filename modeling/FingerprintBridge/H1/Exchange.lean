import FingerprintBridge.H1.Bridge
import FingerprintBridge.Lib.Lists

/-!
# What the tasks have exchanged

On every schedule the requests and the replies are those of the two streams, whole and in
order, and each reply was framed with the flag of the request it answers (`Exchanged`).  A
step that fails leaves it so, except that the task may have forwarded the beginning of
one more message, the head of which had passed (`Broken`).
-/

namespace H1

structure Request where
  isHead : Bool
  message : Message
  mapped : Message
deriving DecidableEq, Repr

/-- A response, and the flag it was framed with. -/
structure Reply where
  isHead : Bool
  status : Nat
  message : Message
  mapped : Message
deriving DecidableEq, Repr

def Request.octets (q : Request) : Bytes := q.message.octets

def Reply.octets (r : Reply) : Bytes := r.message.octets

def Reply.interim (r : Reply) : Bool := 100 ≤ r.status && r.status < 200

/-- How many requests are answered. -/
def finals (rs : List Reply) : Nat := rs.countP fun r => !r.interim

/-- The `k`-th final reply, and the interim ones before it, are framed with the `k`-th flag. -/
def Paired (flags : List Bool) (rs : List Reply) : Prop :=
  ∀ before r after, rs = before ++ r :: after → flags[finals before]? = some r.isHead

theorem Paired.snoc {flags : List Bool} {rs : List Reply} {r : Reply} (h : Paired flags rs)
    (hr : flags[finals rs]? = some r.isHead) : Paired flags (rs ++ [r]) := by
  intro before r' after heq
  rcases List.eq_nil_or_concat after with rfl | ⟨after', r'', rfl⟩
  · obtain ⟨rfl, hr'⟩ := List.append_inj' heq rfl
    cases hr'
    exact hr
  · rw [List.concat_eq_append, ← List.cons_append, ← List.append_assoc] at heq
    exact h before r' after' (List.append_inj' heq rfl).1

theorem Paired.mono {flags more : List Bool} {rs : List Reply} (h : Paired flags rs) :
    Paired (flags ++ more) rs := by
  intro before r after heq
  have hget := h before r after heq
  have hlt := (List.getElem?_eq_some_iff.1 hget).1
  rw [List.getElem?_append_left hlt]
  exact hget

namespace Requesting

def current : Requesting → List Checked
  | .sending _ x => [x]
  | .forwarding x => [x]
  | _ => []

/-- The flag that is still to be sent. -/
def unsent : Requesting → List Bool
  | .sending isHead _ => [isHead]
  | _ => []

end Requesting

def Responding.current : Responding → List Checked
  | .forwarding _ _ x => [x]
  | _ => []

section
variable {U : UrlCrate} (m : Mapping U)

/-- A request that was read with `rest` after it, and forwarded. -/
structure RequestOf (q : Request) (rest : Bytes) : Prop where
  isMessage : IsMessage MAX_HEAD false false q.message rest
  accepted : Accepted m q.message q.mapped
  isHead : q.isHead = isHeadRequest q.message.head

/-- A response that was read with `rest` after it, and forwarded. -/
structure ReplyOf (r : Reply) (rest : Bytes) : Prop where
  hstatus : statusCode r.message.head = .ok r.status
  isMessage : IsMessage MAX_HEAD true (noBody r.isHead r.status) r.message rest
  rewritten : Rewritten m true r.message r.mapped

/-- An interim response has no body. -/
theorem ReplyOf.interim {r : Reply} {rest : Bytes} (h : ReplyOf m r rest)
    (hr : r.interim = true) : r.message.kind = .empty ∧ r.message.payload = [] := by
  have hno : noBody r.isHead r.status = true := by
    unfold Reply.interim at hr
    unfold noBody
    rw [hr, Bool.or_true]
    rfl
  have hkind : r.message.kind = .empty := by
    have hk := h.isMessage.framing
    rw [hno] at hk
    unfold framing at hk
    obtain ⟨acc, -, hk⟩ := (Res.bind_ok_iff _ _ _).1 hk
    obtain ⟨_, -, hk⟩ := (Res.bind_ok_iff _ _ _).1 hk
    exact (Except.ok.inj hk).symm
  have hbody := h.isMessage.isBody
  rw [hkind] at hbody
  exact ⟨hkind, hbody⟩

def Requesting.Ok : Requesting → Prop
  | .sending isHead x => RequestHead m isHead x
  | .forwarding x => ∃ isHead, RequestHead m isHead x
  | _ => True

/-- Where the task is after `n` final replies, with these flags received. -/
def Responding.Ok : Responding → (received : List Bool) → (n : Nat) → Prop
  | .waiting, received, n => received.length = n
  | .serving isHead, received, n => received.length = n + 1 ∧ received[n]? = some isHead
  | .forwarding isHead next x, received, n => received.length = n + 1 ∧ received[n]? = some isHead ∧
      ∃ status, ResponseHead m isHead status x ∧ next = nextOf status ⟨x.head, x.kind, []⟩
  | .done, _, _ => True

/-- The requests `qs` and the replies `rs` were read and forwarded, and nothing else was. -/
structure Exchanged (client origin : List Bytes) (b : Bridge) (qs : List Request)
    (received : List Bool) (rs : List Reply) : Prop where
  requests : CutInto Request.octets (RequestOf m)
    (b.requesting.current.flatMap Checked.head ++ b.requests.reader.flatten) client.flatten qs
  requesting : b.requesting.Ok m
  flags : qs.map Request.isHead ++ b.requesting.current.map (fun x => isHeadRequest x.head) =
    received ++ b.queue ++ b.requesting.unsent
  forwarded : b.requests.output = octetsOf (qs.map Request.mapped)
  replies : CutInto Reply.octets (ReplyOf m)
    (b.responding.current.flatMap Checked.head ++ b.responses.reader.flatten) origin.flatten rs
  responding : b.responding.Ok m received (finals rs)
  replied : b.responses.output = octetsOf (rs.map Reply.mapped)
  paired : Paired received rs

theorem exchanged_new (client origin : List Bytes) :
    Exchanged m client origin (Bridge.new client origin) [] [] [] where
  requests := .nil
  requesting := trivial
  flags := rfl
  forwarded := rfl
  replies := .nil
  responding := rfl
  replied := rfl
  paired := fun before r after h => by simp at h

/-! ## One step -/

/-- The task is before a head that it has not accepted. -/
def Bridge.atHead (b : Bridge) (response : Bool) : Prop :=
  if response then ∃ isHead, b.responding = .serving isHead else b.requesting = .idle

def Bridge.current (b : Bridge) (response : Bool) : List Checked :=
  if response then b.responding.current else b.requesting.current

/-- The task failed: at a head, having written nothing, or in the body of a message the
head of which had passed. -/
structure Broken (b b' : Bridge) (response : Bool) : Prop where
  other : b'.task (!response) = b.task (!response)
  written : (b.atHead response ∧ (b'.task response).output = (b.task response).output) ∨
    ∃ x w, b.current response = [x] ∧ w <+: (b.task response).reader.flatten ∧
      (b'.task response).output = (b.task response).output ++ (x.rewritten ++ w)

theorem requestOf_checked {isHead : Bool} {x : Checked} {p rest : Bytes} (hx : RequestHead m isHead x)
    (hp : IsBody MAX_HEAD p rest x.kind) :
    RequestOf m ⟨isHeadRequest x.head, x.message p, x.mapped p⟩ rest := by
  obtain ⟨method, hc⟩ := hx.checked
  refine ⟨⟨hx.isSection, hx.length, ?_, hp⟩, ⟨⟨method, hc⟩, rfl, rfl⟩, rfl⟩
  exact ((checkRequest_ok_iff m _ _ _ _).1 hc).2.1

theorem replyOf_checked {isHead : Bool} {status : Nat} {x : Checked} {p rest : Bytes}
    (hx : ResponseHead m isHead status x) (hp : IsBody MAX_HEAD p rest x.kind) :
    ReplyOf m ⟨isHead, status, x.message p, x.mapped p⟩ rest :=
  ⟨hx.hstatus, ⟨hx.isSection, hx.length, hx.framing, hp⟩, hx.rewritten, rfl, rfl⟩

variable {client origin : List Bytes} {b : Bridge} {qs : List Request} {received : List Bool}
  {rs : List Reply}

/-- A step of the request task. -/
theorem Exchanged.requestsStep (h : Exchanged m client origin b qs received rs)
    (hlive : b.ended = none) :
    (∃ qs', Exchanged m client origin (b.requestsStep m) qs' received rs ∧
        (b.requestsStep m).ended = none) ∨
      ∃ e, (b.requestsStep m).ended = some (.error e) ∧ Broken b (b.requestsStep m) false := by
  obtain ⟨hrequests, hok, hflags, hforwarded, hreplies, hresponding, hreplied, hpaired⟩ := h
  have hstep := requestsStep_cases m b
  generalize b.requestsStep m = b' at hstep
  cases hstep with
  | closed c hreq hb hc hout =>
    rw [hreq] at hrequests hflags
    refine Or.inl ⟨qs, ⟨?_, trivial, hflags, hout.trans hforwarded, hreplies, hresponding, hreplied,
      hpaired⟩, hlive⟩
    show CutInto _ _ c.reader.flatten _ _
    rw [hc, ← hb]
    exact hrequests
  | accepted c isHead x hreq hx hb hout =>
    rw [hreq] at hrequests hflags
    refine Or.inl ⟨qs, ⟨?_, hx, ?_, hout.trans hforwarded, hreplies, hresponding, hreplied,
      hpaired⟩, hlive⟩
    · show CutInto _ _ ([x].flatMap Checked.head ++ c.reader.flatten) _ _
      rw [List.flatMap_singleton, ← hb]
      exact hrequests
    · simp only [Requesting.current, Requesting.unsent, List.map_nil, List.append_nil] at hflags ⊢
      rw [hflags, hx.isHead]
      rfl
  | rejected c e hreq hfail hout => exact Or.inr ⟨e, rfl, rfl, Or.inl ⟨hreq, hout⟩⟩
  | sent isHead x hreq hroom =>
    rw [hreq] at hrequests hok hflags
    refine Or.inl ⟨qs, ⟨hrequests, ⟨_, hok⟩, ?_, hforwarded, hreplies, hresponding, hreplied,
      hpaired⟩, hlive⟩
    rw [List.append_assoc] at hflags
    simp only [Requesting.unsent, List.append_nil]
    exact hflags
  | full isHead x hreq hroom =>
    exact Or.inl ⟨qs, ⟨hrequests, hok, hflags, hforwarded, hreplies, hresponding, hreplied, hpaired⟩,
      hlive⟩
  | forwarded c x p hreq hp hb hout =>
    rw [hreq] at hrequests hok hflags
    obtain ⟨isHead, hx⟩ := hok
    refine Or.inl ⟨qs ++ [⟨isHeadRequest x.head, x.message p, x.mapped p⟩],
      ⟨?_, trivial, ?_, ?_, hreplies, hresponding, hreplied, hpaired⟩, hlive⟩
    · refine CutInto.snoc ?_ (requestOf_checked m hx hp)
      show CutInto _ _ ((x.head ++ p) ++ c.reader.flatten) _ _
      rw [List.append_assoc, ← hb]
      simpa only [Requesting.current, List.flatMap_singleton] using hrequests
    · simpa [Requesting.current, Requesting.unsent] using hflags
    · rw [hout, hforwarded]
      simp [octetsOf, Message.octets, Checked.mapped]
  | broken c e x w hreq hfail hw hout =>
    refine Or.inr ⟨e, rfl, rfl, Or.inr ⟨x, w, ?_, hw, hout⟩⟩
    show b.requesting.current = [x]
    rw [hreq]
    rfl
  | finished hreq =>
    exact Or.inl ⟨qs, ⟨hrequests, hok, hflags, hforwarded, hreplies, hresponding, hreplied, hpaired⟩,
      hlive⟩

theorem finals_snoc (rs : List Reply) (r : Reply) :
    finals (rs ++ [r]) = finals rs + if r.interim then 0 else 1 := by
  unfold finals
  rw [List.countP_append]
  cases hr : r.interim <;> simp [hr]

theorem responding_ok_after {isHead : Bool} {status : Nat} {next : Next} {x : Checked} {p : Bytes}
    (hlen : received.length = finals rs + 1) (hget : received[finals rs]? = some isHead)
    (hnext : next = nextOf status ⟨x.head, x.kind, []⟩) :
    (next.after isHead).Ok m received
      (finals (rs ++ [⟨isHead, status, x.message p, x.mapped p⟩])) := by
  rw [finals_snoc]
  unfold nextOf at hnext
  split at hnext
  · subst hnext
    trivial
  · split at hnext
    · next hi =>
      subst hnext
      simp only [Reply.interim, hi, decide_true, Bool.and_self, if_true]
      exact ⟨hlen, hget⟩
    · next hi =>
      subst hnext
      rw [if_neg (by simpa [Reply.interim] using hi)]
      exact hlen

/-- A step of the response task. -/
theorem Exchanged.responsesStep (h : Exchanged m client origin b qs received rs)
    (hlive : b.ended = none) :
    (∃ received' rs', Exchanged m client origin (b.responsesStep m) qs received' rs' ∧
        ∀ e, (b.responsesStep m).ended ≠ some (.error e)) ∨
      ∃ e, (b.responsesStep m).ended = some (.error e) ∧ Broken b (b.responsesStep m) true := by
  obtain ⟨hrequests, hok, hflags, hforwarded, hreplies, hresponding, hreplied, hpaired⟩ := h
  have hstep := responsesStep_cases m b
  generalize b.responsesStep m = b' at hstep
  have hnone : ∀ e, b.ended ≠ some (.error e) := fun e he => by rw [hlive] at he; cases he
  cases hstep with
  | received isHead queue hresp hq =>
    rw [hresp] at hreplies hresponding
    refine Or.inl ⟨received ++ [isHead], rs, ⟨hrequests, hok, ?_, hforwarded, hreplies, ?_, hreplied,
      hpaired.mono⟩, hnone⟩
    · rw [hq] at hflags
      simpa using hflags
    · have hlen : received.length = finals rs := hresponding
      refine ⟨by rw [List.length_append, hlen]; rfl, ?_⟩
      rw [← hlen, List.getElem?_concat_length]
  | closed hresp hq hreq =>
    rw [hresp] at hreplies
    exact Or.inl ⟨received, rs, ⟨hrequests, hok, hflags, hforwarded, hreplies, trivial, hreplied,
      hpaired⟩, fun e he => by cases he⟩
  | empty hresp hq hreq =>
    exact Or.inl ⟨received, rs, ⟨hrequests, hok, hflags, hforwarded, hreplies, hresponding, hreplied,
      hpaired⟩, hnone⟩
  | accepted c isHead status x hresp hx hb hout =>
    rw [hresp] at hreplies hresponding
    refine Or.inl ⟨received, rs, ⟨hrequests, hok, hflags, hforwarded, ?_,
      ⟨hresponding.1, hresponding.2, status, hx, rfl⟩, hout.trans hreplied, hpaired⟩, hnone⟩
    show CutInto _ _ ([x].flatMap Checked.head ++ c.reader.flatten) _ _
    rw [List.flatMap_singleton, ← hb]
    exact hreplies
  | rejected c e isHead hresp hfail hout => exact Or.inr ⟨e, rfl, rfl, Or.inl ⟨⟨isHead, hresp⟩, hout⟩⟩
  | forwarded c isHead next x p hresp hp hb hout =>
    rw [hresp] at hreplies hresponding
    obtain ⟨hlen, hget, status, hx, hnext⟩ := hresponding
    refine Or.inl ⟨received, rs ++ [⟨isHead, status, x.message p, x.mapped p⟩], ⟨hrequests, hok,
      hflags, hforwarded, ?_, ?_, ?_, hpaired.snoc hget⟩, ?_⟩
    · have hcut : CutInto Reply.octets (ReplyOf m) ((x.head ++ p) ++ c.reader.flatten)
          origin.flatten rs := by
        rw [List.append_assoc, ← hb]
        simpa only [Responding.current, List.flatMap_singleton] using hreplies
      have hsnoc := hcut.snoc (replyOf_checked m hx hp)
      cases next <;> exact hsnoc
    · exact responding_ok_after m hlen hget hnext
    · rw [hout, hreplied]
      simp [octetsOf, Message.octets, Checked.mapped]
    · intro e he
      split at he
      · cases he
      · exact hnone e he
  | broken c e isHead next x w hresp hfail hw hout =>
    refine Or.inr ⟨e, rfl, rfl, Or.inr ⟨x, w, ?_, hw, hout⟩⟩
    show b.responding.current = [x]
    rw [hresp]
    rfl
  | finished hresp =>
    exact Or.inl ⟨received, rs, ⟨hrequests, hok, hflags, hforwarded, hreplies, hresponding, hreplied,
      hpaired⟩, hnone⟩

/-! ## Every schedule -/

theorem Bridge.step_ended {r : Bool} (h : b.ended.isSome = true) : b.step m r = b := if_pos h

theorem Bridge.step_live (hlive : b.ended = none) (r : Bool) :
    b.step m r = if r then b.responsesStep m else b.requestsStep m :=
  if_neg (by rw [hlive]; exact Bool.false_ne_true)

theorem Bridge.run_ended (h : b.ended.isSome = true) (schedule : List Bool) :
    b.run m schedule = b := by
  induction schedule with
  | nil => rfl
  | cons r schedule ih =>
    show (b.step m r).run m schedule = b
    rw [b.step_ended m h, ih]

theorem Exchanged.step (h : Exchanged m client origin b qs received rs) (hlive : b.ended = none)
    (r : Bool) :
    (∃ qs' received' rs', Exchanged m client origin (b.step m r) qs' received' rs' ∧
        ∀ e, (b.step m r).ended ≠ some (.error e)) ∨
      ∃ e, (b.step m r).ended = some (.error e) ∧ Broken b (b.step m r) r := by
  rw [b.step_live m hlive]
  cases r with
  | true =>
    rcases h.responsesStep m hlive with ⟨received', rs', h', hend⟩ | hbroken
    · exact Or.inl ⟨qs, received', rs', h', hend⟩
    · exact Or.inr hbroken
  | false =>
    rw [if_neg Bool.false_ne_true]
    rcases h.requestsStep m hlive with ⟨qs', h', hend⟩ | hbroken
    · exact Or.inl ⟨qs', received, rs, h', fun e he => by rw [hend] at he; cases he⟩
    · exact Or.inr hbroken

/-- What became of the two streams: they were exchanged, or that and one step that failed. -/
inductive Outcome (client origin : List Bytes) (b : Bridge) (qs : List Request)
    (received : List Bool) (rs : List Reply) : Prop where
  | exchanged (h : Exchanged m client origin b qs received rs)
      (hend : ∀ e, b.ended ≠ some (.error e))
  | broken (before : Bridge) (r : Bool) (e : Fault)
      (h : Exchanged m client origin before qs received rs) (hlive : before.ended = none)
      (hstep : b = before.step m r) (hend : b.ended = some (.error e)) (hbroken : Broken before b r)

/-- Every reply was read as such. -/
theorem Outcome.reply (h : Outcome m client origin b qs received rs) :
    ∀ r ∈ rs, ∃ rest, ReplyOf m r rest := by
  cases h with
  | exchanged h _ => exact h.replies.mem
  | broken before r e h _ _ _ _ => exact h.replies.mem

theorem Exchanged.run (h : Exchanged m client origin b qs received rs)
    (hend : ∀ e, b.ended ≠ some (.error e)) (schedule : List Bool) :
    ∃ qs' received' rs', Outcome m client origin (b.run m schedule) qs' received' rs' := by
  induction schedule generalizing b qs received rs with
  | nil => exact ⟨qs, received, rs, .exchanged h hend⟩
  | cons r schedule ih =>
    show ∃ qs' received' rs', Outcome m client origin ((b.step m r).run m schedule) qs' received' rs'
    by_cases hlive : b.ended = none
    · rcases h.step m hlive r with ⟨qs', received', rs', h', hend'⟩ | ⟨e, he, hbroken⟩
      · exact ih h' hend'
      · rw [Bridge.run_ended m (by rw [he]; rfl)]
        exact ⟨qs, received, rs, .broken b r e h hlive rfl he hbroken⟩
    · have hsome : b.ended.isSome = true := Option.isSome_iff_ne_none.2 hlive
      rw [b.step_ended m hsome]
      exact ih h hend

theorem run_outcome (client origin : List Bytes) (schedule : List Bool) :
    ∃ qs received rs, Outcome m client origin ((Bridge.new client origin).run m schedule)
      qs received rs :=
  (exchanged_new m client origin).run m (fun e he => by cases he) schedule

/-- While the bridge has not returned, no step has failed. -/
theorem run_exchanged (client origin : List Bytes) (schedule : List Bool)
    (hlive : ((Bridge.new client origin).run m schedule).ended = none) :
    ∃ qs received rs,
      Exchanged m client origin ((Bridge.new client origin).run m schedule) qs received rs := by
  obtain ⟨qs, received, rs, h⟩ := run_outcome m client origin schedule
  cases h with
  | exchanged h _ => exact ⟨qs, received, rs, h⟩
  | broken before r e _ _ _ hend _ =>
    rw [hlive] at hend
    cases hend

/-! ## A head that is rejected -/

/-- A task that failed with `e` at a head: the messages before it are whole, and all that was
written is what was made of them. -/
inductive Rejected (client origin : List Bytes) (b : Bridge) (e : Fault) : Bool → Prop where
  | request (qs : List Request) (c : Conn) (hidle : b.requesting = .idle)
      (hcut : CutInto Request.octets (RequestOf m) b.requests.reader.flatten client.flatten qs)
      (hfail : acceptRequest m b.requests = .error e c)
      (hout : (b.step m false).requests.output = octetsOf (qs.map Request.mapped)) :
      Rejected client origin b e false
  | response (isHead : Bool) (rs : List Reply) (c : Conn) (hserving : b.responding = .serving isHead)
      (hcut : CutInto Reply.octets (ReplyOf m) b.responses.reader.flatten origin.flatten rs)
      (hfail : acceptResponse m isHead b.responses = .error e c)
      (hout : (b.step m true).responses.output = octetsOf (rs.map Reply.mapped)) :
      Rejected client origin b e true

theorem requestsStep_rejects {e : Fault} (hreq : b.requesting = .idle) (hlive : b.ended = none)
    (hend : (b.requestsStep m).ended = some (.error e)) :
    ∃ c, acceptRequest m b.requests = .error e c := by
  unfold Bridge.requestsStep at hend
  simp only [hreq] at hend
  split at hend
  · rw [hlive] at hend
    cases hend
  · rw [hlive] at hend
    cases hend
  · next e' c hrun =>
    cases hend
    exact ⟨c, hrun⟩

theorem responsesStep_rejects {e : Fault} {isHead : Bool} (hresp : b.responding = .serving isHead)
    (hlive : b.ended = none) (hend : (b.responsesStep m).ended = some (.error e)) :
    ∃ c, acceptResponse m isHead b.responses = .error e c := by
  unfold Bridge.responsesStep at hend
  simp only [hresp] at hend
  split at hend
  · rw [hlive] at hend
    cases hend
  · next e' c hrun =>
    cases hend
    exact ⟨c, hrun⟩

/-- A task that failed in the body of `x`, the head of which had passed. -/
def FailedIn (b : Bridge) (r : Bool) (x : Checked) : Prop :=
  b.current r = [x] ∧ ∃ w, w <+: (b.task r).reader.flatten ∧
    ((b.step m r).task r).output = (b.task r).output ++ (x.rewritten ++ w)

/-- A step fails at a head or in a body. -/
theorem Exchanged.fails (h : Exchanged m client origin b qs received rs) (hlive : b.ended = none)
    {r : Bool} {e : Fault} (hend : (b.step m r).ended = some (.error e)) :
    Rejected m client origin b e r ∨ ∃ x, FailedIn m b r x := by
  rcases h.step m hlive r with ⟨qs', received', rs', -, hno⟩ | ⟨e', -, hbroken⟩
  · exact absurd hend (hno e)
  rcases hbroken.written with ⟨hat, hout⟩ | ⟨x, w, hx, hw, hout⟩
  · left
    cases r with
    | false =>
      have hidle : b.requesting = .idle := hat
      rw [b.step_live m hlive] at hend
      obtain ⟨c, hfail⟩ := requestsStep_rejects m hidle hlive hend
      have hcut := h.requests
      rw [hidle] at hcut
      exact .request qs c hidle hcut hfail (hout.trans h.forwarded)
    | true =>
      obtain ⟨isHead, hserving⟩ : ∃ isHead, b.responding = .serving isHead := hat
      rw [b.step_live m hlive] at hend
      obtain ⟨c, hfail⟩ := responsesStep_rejects m hserving hlive hend
      have hcut := h.replies
      rw [hserving] at hcut
      exact .response isHead rs c hserving hcut hfail (hout.trans h.replied)
  · exact Or.inr ⟨x, hx, w, hw, hout⟩

end

end H1
