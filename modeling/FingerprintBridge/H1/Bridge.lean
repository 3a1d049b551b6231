import FingerprintBridge.H1.Forward
import Mathlib.Logic.Relation

/-!
# `h1::bridge`: two loops and a channel

The loops share nothing but the channel of `HEAD` flags.  A step takes a task from one
point to the next: from before a head to a head that passed the checks, through the
channel, and on to the end of the body.  Its reads and writes in between touch nothing of
the other task; a bridge that returns there has written a beginning of what the step writes.
A schedule is a list of tasks, and on every one of them each task does passes of its loop
(`run_follows`).
-/

namespace H1

/-! ## The system -/

/-- `tokio::sync::mpsc::channel::<bool>(32)` -/
def CAPACITY : Nat := 32

/-- A head that passed the checks, the framing, and the head to forward. -/
structure Checked where
  head : Bytes
  kind : Body
  rewritten : Bytes
deriving DecidableEq, Repr

def Checked.message (x : Checked) (payload : Bytes) : Message := ⟨x.head, x.kind, payload⟩

def Checked.mapped (x : Checked) (payload : Bytes) : Message := ⟨x.rewritten, x.kind, payload⟩

/-- Where the `requests` task is: before a head, before `tx.send`, after it, or at the end
with `tx` dropped. -/
inductive Requesting where
  | idle
  | sending (isHead : Bool) (x : Checked)
  | forwarding (x : Checked)
  | done
deriving DecidableEq, Repr

/-- Where the `responses` task is: before `rx.recv`, before a head, after it, or at the end. -/
inductive Responding where
  | waiting
  | serving (isHead : Bool)
  | forwarding (isHead : Bool) (next : Next) (x : Checked)
  | done
deriving DecidableEq, Repr

structure Bridge where
  requests : Conn
  responses : Conn
  requesting : Requesting
  responding : Responding
  queue : List Bool
  /-- how `bridge` returned -/
  ended : Option (Res Unit)

section
variable {U : UrlCrate} (m : Mapping U)

/-- A pass of the request loop up to `tx.send`. -/
def acceptRequest : Act Conn (Option (Bool × Checked)) := do
  let h ← head MAX_HEAD
  if h = [] then return none
  else do
    let (method, kind, rewritten) ← checkRequest m h
    return some (method = "HEAD".toList, ⟨h, kind, rewritten⟩)

/-- A pass of the response loop up to the first octet written. -/
def acceptResponse (isHead : Bool) : Act Conn (Next × Checked) := do
  let h ← head MAX_HEAD
  let (next, kind, rewritten) ← checkResponse m isHead h
  return (next, ⟨h, kind, rewritten⟩)

def forward (x : Checked) : Act Conn Unit := do
  write x.rewritten
  body MAX_HEAD x.kind

namespace Bridge

/-- `client` and `origin` are the pieces the two peers send. -/
def new (client origin : List Bytes) : Bridge :=
  { requests := { reader := client, output := [], channel := [] }
    responses := { reader := origin, output := [], channel := [] }
    requesting := .idle, responding := .waiting, queue := [], ended := none }

def requestsStep (b : Bridge) : Bridge :=
  match b.requesting with
  | .idle =>
    match acceptRequest m b.requests with
    | .ok none c => { b with requests := c, requesting := .done }
    | .ok (some (isHead, x)) c => { b with requests := c, requesting := .sending isHead x }
    | .error e c => { b with requests := c, ended := some (.error e) }
  | .sending isHead x =>
    -- `send` waits while the channel is full
    if b.queue.length < CAPACITY then
      { b with queue := b.queue ++ [isHead], requesting := .forwarding x }
    else b
  | .forwarding x =>
    match forward x b.requests with
    | .ok () c => { b with requests := c, requesting := .idle }
    | .error e c => { b with requests := c, ended := some (.error e) }
  | .done => b

def responsesStep (b : Bridge) : Bridge :=
  match b.responding with
  | .waiting =>
    match b.queue with
    | isHead :: queue => { b with queue := queue, responding := .serving isHead }
    | [] =>
      -- `recv` waits while the sender lives
      if b.requesting = .done then { b with responding := .done, ended := some (.ok ()) } else b
  | .serving isHead =>
    match acceptResponse m isHead b.responses with
    | .ok (next, x) c => { b with responses := c, responding := .forwarding isHead next x }
    | .error e c => { b with responses := c, ended := some (.error e) }
  | .forwarding isHead next x =>
    match forward x b.responses with
    | .ok () c =>
      match next with
      | .interim => { b with responses := c, responding := .serving isHead }
      | .final => { b with responses := c, responding := .waiting }
      | .eof => { b with responses := c, responding := .done, ended := some (.ok ()) }
    | .error e c => { b with responses := c, ended := some (.error e) }
  | .done => b

/-- `select!` polls one of the two tasks; it returns with `responses`, or with an error of
`requests`. -/
def step (b : Bridge) (response : Bool) : Bridge :=
  if b.ended.isSome then b
  else if response then b.responsesStep m
  else b.requestsStep m

def run (b : Bridge) (schedule : List Bool) : Bridge := schedule.foldl (step m) b

def task (b : Bridge) (response : Bool) : Conn := if response then b.responses else b.requests

end Bridge

/-! ## A pass in two parts -/

theorem request_eq (accepts : Nat → Bool) : request m accepts = (do
    match ← acceptRequest m with
    | none => return false
    | some (isHead, x) => do
      send accepts isHead
      forward x
      return true) := by
  unfold request acceptRequest forward
  simp only [bind_assoc]
  congr 1
  funext h
  split
  · rfl
  · simp only [bind_assoc, pure_bind]

theorem response_eq (isHead : Bool) : response m isHead = (do
    let (next, x) ← acceptResponse m isHead
    forward x
    return next) := by
  unfold response acceptResponse forward
  simp only [bind_assoc, pure_bind]

def isHeadRequest (h : Bytes) : Bool :=
  match requestLine h with
  | .ok method => method = "HEAD".toList
  | .error _ => false

/-- A request head that passes the checks. -/
structure RequestHead (isHead : Bool) (x : Checked) : Prop where
  isSection : IsSection x.head
  length : x.head.length ≤ MAX_HEAD
  checked : ∃ method, checkRequest m x.head = .ok (method, x.kind, x.rewritten)
  isHead : isHead = isHeadRequest x.head

/-- A response head that passes the checks, to a request that was `isHead`. -/
structure ResponseHead (isHead : Bool) (status : Nat) (x : Checked) : Prop where
  isSection : IsSection x.head
  length : x.head.length ≤ MAX_HEAD
  hstatus : statusCode x.head = .ok status
  ne : status ≠ 101
  framing : framing x.head true (noBody isHead status) = .ok x.kind
  rewritten : m.h1Head x.head true = .ok x.rewritten

theorem isHeadRequest_eq {h h' : Bytes} {method : Str} {kind : Body}
    (hc : checkRequest m h = .ok (method, kind, h')) :
    decide (method = "HEAD".toList) = isHeadRequest h := by
  unfold isHeadRequest
  rw [((checkRequest_ok_iff m _ _ _ _).1 hc).1]

theorem reads_acceptRequest (bytes : Bytes) :
    Reads (acceptRequest m) bytes
      (fun r w rest => w = [] ∧ ((r = none ∧ bytes = [] ∧ rest = []) ∨
        ∃ isHead x, r = some (isHead, x) ∧ RequestHead m isHead x ∧ bytes = x.head ++ rest))
      (· = []) := by
  refine Reads.congr (x := acceptRequest m)
    (reads_bind_silent (reads_head MAX_HEAD bytes) fun h rest hh =>
      reads_ite (fun _ => reads_pure _) fun _ => reads_lift_bind rfl fun r hr => reads_pure _)
    fun r w rest => ?_
  constructor
  · rintro ⟨h, rest1, hh, ⟨rfl, rfl, rfl, rfl⟩ | ⟨hne, ⟨method, kind, h'⟩, hc, rfl, rfl, rfl⟩⟩
    · rcases hh with ⟨-, -, hb, hr⟩ | ⟨s, hs, h0, -⟩
      · exact ⟨rfl, Or.inl ⟨rfl, hb, hr⟩⟩
      · exact (hs.ne_nil h0.symm).elim
    · rcases hh with ⟨-, h0, -⟩ | ⟨s, hs, rfl, hlen, hb⟩
      · exact (hne h0).elim
      · exact ⟨rfl, Or.inr ⟨_, _, rfl, ⟨hs, hlen, ⟨method, hc⟩, isHeadRequest_eq m hc⟩, hb⟩⟩
  · rintro ⟨rfl, ⟨rfl, rfl, rfl⟩ | ⟨isHead, x, rfl, hx, rfl⟩⟩
    · exact ⟨[], [], Or.inl ⟨rfl, rfl, rfl, rfl⟩, Or.inl ⟨rfl, rfl, rfl, rfl⟩⟩
    · obtain ⟨method, hc⟩ := hx.checked
      refine ⟨x.head, rest, Or.inr ⟨x.head, hx.isSection, rfl, hx.length, rfl⟩, Or.inr ?_⟩
      refine ⟨hx.isSection.ne_nil, _, hc, ?_, rfl, rfl⟩
      rw [hx.isHead, ← isHeadRequest_eq m hc]

theorem reads_acceptResponse (isHead : Bool) (bytes : Bytes) :
    Reads (acceptResponse m isHead) bytes
      (fun r w rest => w = [] ∧ ∃ status x, r = (nextOf status ⟨x.head, x.kind, []⟩, x) ∧
        ResponseHead m isHead status x ∧ bytes = x.head ++ rest) (· = []) := by
  refine Reads.congr (x := acceptResponse m isHead)
    (reads_bind_silent (reads_head MAX_HEAD bytes) fun h rest hh =>
      reads_lift_bind rfl fun r hr => reads_pure _)
    fun r w rest => ?_
  constructor
  · rintro ⟨h, rest1, hh, ⟨next, kind, h'⟩, hc, rfl, rfl, rfl⟩
    obtain ⟨status, hne, hstatus, h101, hk, hrw, rfl⟩ := (checkResponse_ok_iff m _ _ _ _ _).1 hc
    rcases hh with ⟨-, h0, -⟩ | ⟨s, hs, rfl, hlen, hb⟩
    · exact (hne h0).elim
    · exact ⟨rfl, status, ⟨_, kind, h'⟩, rfl, ⟨hs, hlen, hstatus, h101, hk, hrw⟩, hb⟩
  · rintro ⟨rfl, status, x, rfl, hx, rfl⟩
    refine ⟨x.head, rest, Or.inr ⟨x.head, hx.isSection, rfl, hx.length, rfl⟩,
      (_, x.kind, x.rewritten), ?_, rfl, rfl, rfl⟩
    exact (checkResponse_ok_iff m _ _ _ _ _).2
      ⟨status, hx.isSection.ne_nil, hx.hstatus, hx.ne, hx.framing, hx.rewritten, rfl⟩

theorem reads_forward (x : Checked) (bytes : Bytes) :
    Reads (forward x) bytes
      (fun _ w rest => ∃ p, w = x.rewritten ++ p ∧ bytes = p ++ rest ∧ IsBody MAX_HEAD p rest x.kind)
      (fun w => ∃ p, w = x.rewritten ++ p ∧ p <+: bytes) := by
  have hfault : ∀ w, w <+: bytes → ∃ p, x.rewritten ++ w = x.rewritten ++ p ∧ p <+: bytes :=
    fun w hw => ⟨w, rfl, hw⟩
  exact reads_write_bind ((reads_body MAX_HEAD x.kind bytes).mono hfault)

/-! ## What a step can do -/

/-- What the request task does in a step. -/
inductive RequestsStep (b : Bridge) : Bridge → Prop where
  | closed (c : Conn) (hreq : b.requesting = .idle) (hb : b.requests.reader.flatten = [])
      (hc : c.reader.flatten = []) (hout : c.output = b.requests.output) :
      RequestsStep b { b with requests := c, requesting := .done }
  | accepted (c : Conn) (isHead : Bool) (x : Checked) (hreq : b.requesting = .idle)
      (hx : RequestHead m isHead x) (hb : b.requests.reader.flatten = x.head ++ c.reader.flatten)
      (hout : c.output = b.requests.output) :
      RequestsStep b { b with requests := c, requesting := .sending isHead x }
  | rejected (c : Conn) (e : Fault) (hreq : b.requesting = .idle)
      (hfail : acceptRequest m b.requests = .error e c) (hout : c.output = b.requests.output) :
      RequestsStep b { b with requests := c, ended := some (.error e) }
  | sent (isHead : Bool) (x : Checked) (hreq : b.requesting = .sending isHead x)
      (hroom : b.queue.length < CAPACITY) :
      RequestsStep b { b with queue := b.queue ++ [isHead], requesting := .forwarding x }
  | full (isHead : Bool) (x : Checked) (hreq : b.requesting = .sending isHead x)
      (hroom : ¬b.queue.length < CAPACITY) : RequestsStep b b
  | forwarded (c : Conn) (x : Checked) (p : Bytes) (hreq : b.requesting = .forwarding x)
      (hp : IsBody MAX_HEAD p c.reader.flatten x.kind)
      (hb : b.requests.reader.flatten = p ++ c.reader.flatten)
      (hout : c.output = b.requests.output ++ (x.rewritten ++ p)) :
      RequestsStep b { b with requests := c, requesting := .idle }
  | broken (c : Conn) (e : Fault) (x : Checked) (w : Bytes) (hreq : b.requesting = .forwarding x)
      (hfail : forward x b.requests = .error e c) (hw : w <+: b.requests.reader.flatten)
      (hout : c.output = b.requests.output ++ (x.rewritten ++ w)) :
      RequestsStep b { b with requests := c, ended := some (.error e) }
  | finished (hreq : b.requesting = .done) : RequestsStep b b

theorem requestsStep_cases (b : Bridge) : RequestsStep m b (b.requestsStep m) := by
  cases hreq : b.requesting with
  | idle =>
    cases hrun : acceptRequest m b.requests with
    | ok r c =>
      obtain ⟨w, rest, ⟨rfl, hread⟩, hrest, hout, -⟩ :=
        (reads_acceptRequest m _).sound _ _ _ rfl hrun
      rw [List.append_nil] at hout
      rcases hread with ⟨rfl, hb, hr⟩ | ⟨isHead, x, rfl, hx, hb⟩
      · rw [show b.requestsStep m = { b with requests := c, requesting := .done } by
          simp only [Bridge.requestsStep, hreq, hrun]]
        exact .closed c hreq hb (hrest.trans hr) hout
      · rw [show b.requestsStep m = { b with requests := c, requesting := .sending isHead x } by
          simp only [Bridge.requestsStep, hreq, hrun]]
        exact .accepted c isHead x hreq hx (by rw [hrest, hb]) hout
    | error e c =>
      obtain ⟨w, rfl, hout, -⟩ := (reads_acceptRequest m _).fault _ _ _ rfl hrun
      rw [show b.requestsStep m = { b with requests := c, ended := some (.error e) } by
        simp only [Bridge.requestsStep, hreq, hrun]]
      exact .rejected c e hreq hrun (by rw [hout, List.append_nil])
  | sending isHead x =>
    by_cases hroom : b.queue.length < CAPACITY
    · rw [show b.requestsStep m =
          { b with queue := b.queue ++ [isHead], requesting := .forwarding x } by
        simp only [Bridge.requestsStep, hreq, if_pos hroom]]
      exact .sent isHead x hreq hroom
    · rw [show b.requestsStep m = b by simp only [Bridge.requestsStep, hreq, if_neg hroom]]
      exact .full isHead x hreq hroom
  | forwarding x =>
    cases hrun : forward x b.requests with
    | ok u c =>
      obtain ⟨w, rest, ⟨p, rfl, hb, hp⟩, rfl, hout, -⟩ := (reads_forward x _).sound _ _ _ rfl hrun
      rw [show b.requestsStep m = { b with requests := c, requesting := .idle } by
        simp only [Bridge.requestsStep, hreq, hrun]]
      exact .forwarded c x p hreq hp hb hout
    | error e c =>
      obtain ⟨w, ⟨p, rfl, hp⟩, hout, -⟩ := (reads_forward x _).fault _ _ _ rfl hrun
      rw [show b.requestsStep m = { b with requests := c, ended := some (.error e) } by
        simp only [Bridge.requestsStep, hreq, hrun]]
      exact .broken c e x p hreq hrun hp hout
  | done =>
    rw [show b.requestsStep m = b by simp only [Bridge.requestsStep, hreq]]
    exact .finished hreq

/-- Where the response task goes after a response. -/
def Next.after (isHead : Bool) : Next → Responding
  | .interim => .serving isHead
  | .final => .waiting
  | .eof => .done

/-- What the response task does in a step. -/
inductive ResponsesStep (b : Bridge) : Bridge → Prop where
  | received (isHead : Bool) (queue : List Bool) (hresp : b.responding = .waiting)
      (hq : b.queue = isHead :: queue) :
      ResponsesStep b { b with queue := queue, responding := .serving isHead }
  | closed (hresp : b.responding = .waiting) (hq : b.queue = []) (hreq : b.requesting = .done) :
      ResponsesStep b { b with responding := .done, ended := some (.ok ()) }
  | empty (hresp : b.responding = .waiting) (hq : b.queue = []) (hreq : b.requesting ≠ .done) :
      ResponsesStep b b
  | accepted (c : Conn) (isHead : Bool) (status : Nat) (x : Checked)
      (hresp : b.responding = .serving isHead) (hx : ResponseHead m isHead status x)
      (hb : b.responses.reader.flatten = x.head ++ c.reader.flatten)
      (hout : c.output = b.responses.output) : ResponsesStep b { b with
        responses := c, responding := .forwarding isHead (nextOf status ⟨x.head, x.kind, []⟩) x }
  | rejected (c : Conn) (e : Fault) (isHead : Bool) (hresp : b.responding = .serving isHead)
      (hfail : acceptResponse m isHead b.responses = .error e c)
      (hout : c.output = b.responses.output) :
      ResponsesStep b { b with responses := c, ended := some (.error e) }
  | forwarded (c : Conn) (isHead : Bool) (next : Next) (x : Checked) (p : Bytes)
      (hresp : b.responding = .forwarding isHead next x)
      (hp : IsBody MAX_HEAD p c.reader.flatten x.kind)
      (hb : b.responses.reader.flatten = p ++ c.reader.flatten)
      (hout : c.output = b.responses.output ++ (x.rewritten ++ p)) : ResponsesStep b { b with
        responses := c, responding := next.after isHead
        ended := if next = .eof then some (.ok ()) else b.ended }
  | broken (c : Conn) (e : Fault) (isHead : Bool) (next : Next) (x : Checked) (w : Bytes)
      (hresp : b.responding = .forwarding isHead next x)
      (hfail : forward x b.responses = .error e c) (hw : w <+: b.responses.reader.flatten)
      (hout : c.output = b.responses.output ++ (x.rewritten ++ w)) :
      ResponsesStep b { b with responses := c, ended := some (.error e) }
  | finished (hresp : b.responding = .done) : ResponsesStep b b

theorem responsesStep_cases (b : Bridge) : ResponsesStep m b (b.responsesStep m) := by
  cases hresp : b.responding with
  | waiting =>
    cases hq : b.queue with
    | nil =>
      by_cases hreq : b.requesting = .done
      · rw [show b.responsesStep m = { b with responding := .done, ended := some (.ok ()) } by
          simp only [Bridge.responsesStep, hresp, hq, if_pos hreq]]
        exact .closed hresp hq hreq
      · rw [show b.responsesStep m = b by
          simp only [Bridge.responsesStep, hresp, hq, if_neg hreq]]
        exact .empty hresp hq hreq
    | cons isHead queue =>
      rw [show b.responsesStep m = { b with queue := queue, responding := .serving isHead } by
        simp only [Bridge.responsesStep, hresp, hq]]
      exact .received isHead queue hresp hq
  | serving isHead =>
    cases hrun : acceptResponse m isHead b.responses with
    | ok r c =>
      obtain ⟨w, rest, ⟨rfl, status, x, rfl, hx, hb⟩, rfl, hout, -⟩ :=
        (reads_acceptResponse m isHead _).sound _ _ _ rfl hrun
      rw [show b.responsesStep m = { b with
          responses := c, responding := .forwarding isHead (nextOf status ⟨x.head, x.kind, []⟩) x } by
        simp only [Bridge.responsesStep, hresp, hrun]]
      exact .accepted c isHead status x hresp hx hb (by rw [hout, List.append_nil])
    | error e c =>
      obtain ⟨w, rfl, hout, -⟩ := (reads_acceptResponse m isHead _).fault _ _ _ rfl hrun
      rw [show b.responsesStep m = { b with responses := c, ended := some (.error e) } by
        simp only [Bridge.responsesStep, hresp, hrun]]
      exact .rejected c e isHead hresp hrun (by rw [hout, List.append_nil])
  | forwarding isHead next x =>
    cases hrun : forward x b.responses with
    | ok u c =>
      obtain ⟨w, rest, ⟨p, rfl, hb, hp⟩, rfl, hout, -⟩ := (reads_forward x _).sound _ _ _ rfl hrun
      rw [show b.responsesStep m = { b with
          responses := c, responding := next.after isHead
          ended := if next = .eof then some (.ok ()) else b.ended } by
        cases next <;> simp [Bridge.responsesStep, hresp, hrun, Next.after]]
      exact .forwarded c isHead next x p hresp hp hb hout
    | error e c =>
      obtain ⟨w, ⟨p, rfl, hp⟩, hout, -⟩ := (reads_forward x _).fault _ _ _ rfl hrun
      rw [show b.responsesStep m = { b with responses := c, ended := some (.error e) } by
        simp only [Bridge.responsesStep, hresp, hrun]]
      exact .broken c e isHead next x p hresp hrun hp hout
  | done =>
    rw [show b.responsesStep m = b by simp only [Bridge.responsesStep, hresp]]
    exact .finished hresp

/-! ## The tasks and the loops -/

/-- The two are at one point of their stream and have written the same. -/
structure Level (c d : Conn) : Prop where
  left : c.reader.flatten = d.reader.flatten
  output : c.output = d.output

/-- Where the task is in the pass of the loop that begins with `c`. -/
def Requesting.In (c d : Conn) : Requesting → Prop
  | .idle => Level c d
  | .sending isHead x => ∃ c', acceptRequest m c = .ok (some (isHead, x)) c' ∧ Level c' d
  | .forwarding x => ∃ isHead c', acceptRequest m c = .ok (some (isHead, x)) c' ∧ Level c' d
  | .done => ∃ c', request m (fun _ => true) c = .ok false c' ∧ Level c' d

def Responding.In (c d : Conn) : Responding → Prop
  | .forwarding isHead next x => ∃ c', acceptResponse m isHead c = .ok (next, x) c' ∧ Level c' d
  | _ => Level c d

/-- A pass of the request loop. -/
def RequestPass (c c' : Conn) : Prop := request m (fun _ => true) c = .ok true c'

/-- A pass of the response loop. -/
def ResponsePass (c c' : Conn) : Prop := ∃ isHead next, response m isHead c = .ok next c'

/-- Each task is in a pass of its loop, and has done some before. -/
structure Follows (start b : Bridge) : Prop where
  requests : ∃ c, Relation.ReflTransGen (RequestPass m) start.requests c ∧
    b.requesting.In m c b.requests
  responses : ∃ c, Relation.ReflTransGen (ResponsePass m) start.responses c ∧
    b.responding.In m c b.responses

variable {m} in
theorem RequestsStep.follows {start b b' : Bridge} (hstep : RequestsStep m b b')
    (hgood : ∀ e, b'.ended ≠ some (.error e)) (h : Follows m start b) : Follows m start b' := by
  obtain ⟨⟨c, hc, hin⟩, hresponses⟩ := h
  cases hstep with
  | closed d hreq hb hd hout =>
    rw [hreq] at hin
    obtain ⟨c', hrun, hleft, hwrote, -⟩ := (reads_acceptRequest m _).complete c none [] []
      (hin.left.trans hb) ⟨rfl, .inl ⟨rfl, rfl, rfl⟩⟩
    refine ⟨⟨c, hc, c', ?_, hleft.trans hd.symm, ?_⟩, hresponses⟩
    · rw [request_eq]
      exact (Act.bind_ok_iff _ _ _ _ _).2 ⟨none, c', hrun, rfl⟩
    · rw [hwrote, hout, hin.output, List.append_nil]
  | accepted d isHead x hreq hx hb hout =>
    rw [hreq] at hin
    obtain ⟨c', hrun, hleft, hwrote, -⟩ := (reads_acceptRequest m _).complete c (some (isHead, x)) []
      d.reader.flatten (hin.left.trans hb) ⟨rfl, .inr ⟨isHead, x, rfl, hx, rfl⟩⟩
    refine ⟨⟨c, hc, c', hrun, hleft, ?_⟩, hresponses⟩
    rw [hwrote, hout, hin.output, List.append_nil]
  | rejected d e => exact absurd rfl (hgood e)
  | sent isHead x hreq hroom =>
    rw [hreq] at hin
    exact ⟨⟨c, hc, isHead, hin⟩, hresponses⟩
  | full => exact ⟨⟨c, hc, hin⟩, hresponses⟩
  | forwarded d x p hreq hp hb hout =>
    rw [hreq] at hin
    obtain ⟨isHead, c', hrun, hlevel⟩ := hin
    obtain ⟨c'', hforward, hleft, hwrote, -⟩ := (reads_forward x _).complete
      { c' with channel := c'.channel ++ [isHead] } () (x.rewritten ++ p) d.reader.flatten
      (hlevel.left.trans hb) ⟨p, rfl, rfl, hp⟩
    refine ⟨⟨c'', hc.tail ?_, hleft, ?_⟩, hresponses⟩
    · show request m _ c = _
      rw [request_eq]
      refine (Act.bind_ok_iff _ _ _ _ _).2 ⟨some (isHead, x), c', hrun, ?_⟩
      refine (Act.bind_ok_iff _ _ _ _ _).2 ⟨(), { c' with channel := c'.channel ++ [isHead] }, rfl, ?_⟩
      exact (Act.bind_ok_iff _ _ _ _ _).2 ⟨(), c'', hforward, rfl⟩
    · rw [hwrote, hout, hlevel.output]
  | broken d e => exact absurd rfl (hgood e)
  | finished => exact ⟨⟨c, hc, hin⟩, hresponses⟩

variable {m} in
theorem ResponsesStep.follows {start b b' : Bridge} (hstep : ResponsesStep m b b')
    (hgood : ∀ e, b'.ended ≠ some (.error e)) (h : Follows m start b) : Follows m start b' := by
  obtain ⟨hrequests, c, hc, hin⟩ := h
  cases hstep with
  | received isHead queue hresp =>
    rw [hresp] at hin
    exact ⟨hrequests, c, hc, hin⟩
  | closed hresp =>
    rw [hresp] at hin
    exact ⟨hrequests, c, hc, hin⟩
  | empty => exact ⟨hrequests, c, hc, hin⟩
  | accepted d isHead status x hresp hx hb hout =>
    rw [hresp] at hin
    obtain ⟨c', hrun, hleft, hwrote, -⟩ := (reads_acceptResponse m isHead _).complete c
      (nextOf status ⟨x.head, x.kind, []⟩, x) [] d.reader.flatten (hin.left.trans hb)
      ⟨rfl, status, x, rfl, hx, rfl⟩
    refine ⟨hrequests, c, hc, c', hrun, hleft, ?_⟩
    rw [hwrote, hout, hin.output, List.append_nil]
  | rejected d e => exact absurd rfl (hgood e)
  | forwarded d isHead next x p hresp hp hb hout =>
    rw [hresp] at hin
    obtain ⟨c', hrun, hlevel⟩ := hin
    obtain ⟨c'', hforward, hleft, hwrote, -⟩ := (reads_forward x _).complete c' () (x.rewritten ++ p)
      d.reader.flatten (hlevel.left.trans hb) ⟨p, rfl, rfl, hp⟩
    have hlevel'' : Level c'' d := ⟨hleft, by rw [hwrote, hout, hlevel.output]⟩
    refine ⟨hrequests, c'', hc.tail ⟨isHead, next, ?_⟩, ?_⟩
    · rw [response_eq]
      refine (Act.bind_ok_iff _ _ _ _ _).2 ⟨(next, x), c', hrun, ?_⟩
      exact (Act.bind_ok_iff _ _ _ _ _).2 ⟨(), c'', hforward, rfl⟩
    · cases next <;> exact hlevel''
  | broken d e => exact absurd rfl (hgood e)
  | finished => exact ⟨hrequests, c, hc, hin⟩

/-- **The bridge runs the two loops.**  On every schedule, as long as no task has failed, each of
them is in a pass of its loop, after whole passes that began where the task did. -/
theorem run_follows (client origin : List Bytes) (schedule : List Bool)
    (hgood : ∀ e, ((Bridge.new client origin).run m schedule).ended ≠ some (.error e)) :
    Follows m (Bridge.new client origin) ((Bridge.new client origin).run m schedule) := by
  induction schedule using List.reverseRecOn with
  | nil => exact ⟨⟨_, .refl, rfl, rfl⟩, _, .refl, rfl, rfl⟩
  | append_singleton schedule r ih =>
    unfold Bridge.run at hgood ih ⊢
    rw [List.foldl_append, List.foldl_cons, List.foldl_nil] at hgood ⊢
    unfold Bridge.step at hgood ⊢
    split at hgood
    case isTrue hended =>
      rw [if_pos hended]
      exact ih hgood
    case isFalse hlive =>
      rw [if_neg hlive]
      have h := ih fun e he => hlive (he ▸ rfl)
      split at hgood
      case isTrue hr =>
        rw [if_pos hr]
        exact (responsesStep_cases m _).follows hgood h
      case isFalse hr =>
        rw [if_neg hr]
        exact (requestsStep_cases m _).follows hgood h

end

end H1
