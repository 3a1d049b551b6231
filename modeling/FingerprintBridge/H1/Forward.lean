import FingerprintBridge.H1.Reading
import FingerprintBridge.H1.Framing

/-!
# Messages forwarded over HTTP/1.1

A stream is read as messages by `head`, `framing` and `body` (`messages`).  Both
loops of `bridge` forward what they read message by message, the head mapped and the
body as it is, and what they wrote is read as the same messages again.
-/

namespace H1

structure Message where
  head : Bytes
  kind : Body
  payload : Bytes
deriving DecidableEq, Repr

def Message.octets (x : Message) : Bytes := x.head ++ x.payload

/-! ## Reading a stream as messages -/

/-- Run `x` and return what it writes. -/
def captured (x : Act Conn Unit) : Act Conn Bytes := fun st =>
  match x { st with output := [] } with
  | .ok () st' => .ok st'.output { st' with output := st.output }
  | .error e st' => .error e { st' with output := st.output }

/-- A message by the parsers of the bridge, or nothing at the end of the stream. -/
def message (maxHead : Nat) (response noBody : Bool) : Act Conn (Option Message) := do
  let h ← head maxHead
  if h = [] then return none
  else do
    let kind ← framing h response noBody
    let payload ← captured (body maxHead kind)
    return some { head := h, kind := kind, payload := payload }

/-- A message for every flag, or as many as there are. -/
def messages (maxHead : Nat) (response : Bool) : (flags : List Bool) → Act Conn (List Message)
  | [] => return []
  | noBody :: flags => do
    match ← message maxHead response noBody with
    | none => return []
    | some x => do
      let xs ← messages maxHead response flags
      return x :: xs

/-- `x` is a message, with `rest` after it. -/
structure IsMessage (maxHead : Nat) (response noBody : Bool) (x : Message) (rest : Bytes) :
    Prop where
  isSection : IsSection x.head
  length : x.head.length ≤ maxHead
  framing : framing x.head response noBody = .ok x.kind
  isBody : IsBody maxHead x.payload rest x.kind

theorem reads_captured {x : Act Conn Unit} {bytes : Bytes} {P : Unit → Bytes → Bytes → Prop}
    {E : Bytes → Prop} (h : Reads x bytes P E) :
    Reads (captured x) bytes (fun p w rest => w = [] ∧ P () p rest) (· = []) := by
  refine ⟨fun st p st' hst hx => ?_, fun st p w rest hst hp => ?_, fun st e st' hst hx => ?_⟩
  · unfold captured at hx
    split at hx
    · next st1 hrun =>
      cases hx
      obtain ⟨w, rest, hp, hrest, hout, hch⟩ := h.sound { st with output := [] } () st1 hst hrun
      have : st1.output = w := hout
      exact ⟨[], rest, ⟨rfl, by rwa [this]⟩, hrest, (List.append_nil _).symm, hch⟩
    · cases hx
  · obtain ⟨rfl, hp⟩ := hp
    obtain ⟨st1, hrun, hrest, hout, hch⟩ := h.complete { st with output := [] } () p rest hst hp
    have : st1.output = p := hout
    refine ⟨{ st1 with output := st.output }, ?_, hrest, (List.append_nil _).symm, hch⟩
    unfold captured
    rw [hrun, ← this]
  · unfold captured at hx
    split at hx
    · cases hx
    · next e' st1 hrun =>
      cases hx
      obtain ⟨w, -, -, hch⟩ := h.fault { st with output := [] } _ st1 hst hrun
      exact ⟨[], rfl, (List.append_nil _).symm, hch⟩

theorem reads_message (maxHead : Nat) (response noBody : Bool) (bytes : Bytes) :
    Reads (message maxHead response noBody) bytes
      (fun r w rest => w = [] ∧ ((r = none ∧ bytes = [] ∧ rest = []) ∨
        ∃ x, r = some x ∧ IsMessage maxHead response noBody x rest ∧ bytes = x.octets ++ rest))
      (· = []) := by
  refine Reads.congr (x := message maxHead response noBody)
    (reads_bind_silent (reads_head maxHead bytes) fun h rest hh =>
      reads_ite (fun _ => reads_pure _) fun _ => reads_lift_bind rfl fun kind hk =>
        reads_bind_silent (reads_captured (reads_body maxHead kind rest)) fun p rest hp =>
          reads_pure _)
    fun r w rest => ?_
  constructor
  · rintro ⟨h, r1, hh, ⟨rfl, rfl, rfl, rfl⟩ | ⟨hne, kind, hk, p, r2, ⟨rfl, hb⟩, rfl, rfl, rfl⟩⟩
    · rcases hh with ⟨-, -, rfl, rfl⟩ | ⟨s, hs, h0, -⟩
      · exact ⟨rfl, Or.inl ⟨rfl, rfl, rfl⟩⟩
      · exact (hs.ne_nil h0.symm).elim
    · rcases hh with ⟨-, h0, -⟩ | ⟨s, hs, rfl, hlen, rfl⟩
      · exact (hne h0).elim
      · exact ⟨rfl, Or.inr ⟨_, rfl, ⟨hs, hlen, hk, hb⟩, by simp [Message.octets]⟩⟩
  · rintro ⟨rfl, ⟨rfl, rfl, rfl⟩ | ⟨x, rfl, hx, rfl⟩⟩
    · exact ⟨[], [], Or.inl ⟨rfl, rfl, rfl, rfl⟩, Or.inl ⟨rfl, rfl, rfl, rfl⟩⟩
    · refine ⟨x.head, x.payload ++ rest, Or.inr ⟨x.head, hx.isSection, rfl, hx.length, ?_⟩, ?_⟩
      · exact List.append_assoc _ _ _
      · exact Or.inr ⟨hx.isSection.ne_nil, x.kind, hx.framing, x.payload, rest, ⟨rfl, hx.isBody⟩,
          rfl, rfl, rfl⟩

/-! ## Streams -/

def octetsOf (xs : List Message) : Bytes := xs.flatMap Message.octets

/-- The messages `xs`, one for each flag, with `rest` after them. -/
inductive IsStream (maxHead : Nat) (response : Bool) (rest : Bytes) :
    List Bool → List Message → Prop where
  | nil : IsStream maxHead response rest [] []
  | cons (noBody : Bool) (flags : List Bool) (x : Message) (xs : List Message)
      (hx : IsMessage maxHead response noBody x (octetsOf xs ++ rest))
      (hxs : IsStream maxHead response rest flags xs) :
      IsStream maxHead response rest (noBody :: flags) (x :: xs)

theorem IsStream.append {maxHead : Nat} {response : Bool} {rest : Bytes} {flags flags' : List Bool}
    {xs xs' : List Message} (h : IsStream maxHead response (octetsOf xs' ++ rest) flags xs)
    (h' : IsStream maxHead response rest flags' xs') :
    IsStream maxHead response rest (flags ++ flags') (xs ++ xs') := by
  induction h with
  | nil => exact h'
  | cons noBody flags x xs hx _ ih =>
    refine .cons noBody _ x (xs ++ xs') ?_ ih
    rw [octetsOf, List.flatMap_append, List.append_assoc]
    exact hx

/-- A message has octets. -/
theorem IsStream.eq_nil {maxHead : Nat} {response : Bool} {rest : Bytes} {flags : List Bool}
    {xs : List Message} (h : IsStream maxHead response rest flags xs) (h0 : octetsOf xs = []) :
    xs = [] := by
  cases h with
  | nil => rfl
  | cons noBody flags x xs hx _ =>
    rw [octetsOf, List.flatMap_cons, List.append_eq_nil_iff] at h0
    exact (hx.isSection.ne_nil (List.append_eq_nil_iff.1 h0.1).1).elim

/-- `bytes`, in whatever pieces they come, are read as `xs`, and `rest` is left. -/
def ReadAs (maxHead : Nat) (response : Bool) (flags : List Bool) (bytes : Bytes)
    (xs : List Message) (rest : Bytes) : Prop :=
  ∀ st : Conn, st.reader.flatten = bytes →
    ∃ st', messages maxHead response flags st = .ok xs st' ∧ st'.reader.flatten = rest

/-- More flags than messages do no harm at the end of the stream. -/
theorem IsStream.readAs {maxHead : Nat} {response : Bool} {rest : Bytes} {flags : List Bool}
    {xs : List Message} (h : IsStream maxHead response rest flags xs) (extra : List Bool)
    (hextra : extra = [] ∨ rest = []) :
    ReadAs maxHead response (flags ++ extra) (octetsOf xs ++ rest) xs rest := by
  induction h with
  | nil =>
    intro st hst
    cases extra with
    | nil => exact ⟨st, rfl, hst⟩
    | cons noBody extra =>
      obtain rfl : rest = [] := by simpa using hextra
      obtain ⟨st', hrun, hrest, -⟩ := (reads_message maxHead response noBody _).complete st none []
        [] hst ⟨rfl, Or.inl ⟨rfl, rfl, rfl⟩⟩
      refine ⟨st', ?_, hrest⟩
      exact (Act.bind_ok_iff _ _ _ _ _).2 ⟨none, st', hrun, rfl⟩
  | cons noBody flags x xs hx _ ih =>
    intro st hst
    have hst' : st.reader.flatten = x.octets ++ (octetsOf xs ++ rest) := by
      rw [hst, octetsOf, List.flatMap_cons, List.append_assoc]
      rfl
    obtain ⟨st', hrun, hrest, -⟩ := (reads_message maxHead response noBody _).complete st (some x)
      [] _ rfl ⟨rfl, Or.inr ⟨x, rfl, hx, hst'⟩⟩
    obtain ⟨st'', hrun', hrest'⟩ := ih st' hrest
    refine ⟨st'', ?_, hrest'⟩
    refine (Act.bind_ok_iff _ _ _ _ _).2 ⟨some x, st', hrun, ?_⟩
    exact (Act.bind_ok_iff _ _ _ _ _).2 ⟨xs, st'', hrun', rfl⟩

/-! ## Mapped messages -/

section
variable {U : UrlCrate} (m : Mapping U)

/-- `y` is the message `x` with its head mapped. -/
def Rewritten (response : Bool) (x y : Message) : Prop :=
  m.h1Head x.head response = .ok y.head ∧ y.kind = x.kind ∧ y.payload = x.payload

theorem isChunked_of_length {maxHead maxHead' : Nat} {p : Bytes} (h : IsChunked maxHead p)
    (hle : p.length ≤ maxHead') : IsChunked maxHead' p := by
  induction h with
  | last l s hl hs _ =>
    rw [List.length_append] at hle
    exact .last l s hl hs (by omega)
  | chunk c p hc _ ih =>
    rw [List.length_append] at hle
    exact .chunk c p hc (ih (by omega))

/-- The mapped message is read as a message again, with the same framing. -/
theorem IsMessage.rewritten {maxHead maxHead' : Nat} {response noBody : Bool} {x y : Message}
    {rest rest' : Bytes} (h : IsMessage maxHead response noBody x rest)
    (hy : Rewritten m response x y) (hrest : x.kind = .untilEof → rest' = [])
    (hle : y.octets.length ≤ maxHead') : IsMessage maxHead' response noBody y rest' := by
  obtain ⟨hhead, hkind, hpayload⟩ := hy
  obtain ⟨cs, hcs, hx⟩ := h.isSection
  rw [hx] at hhead
  obtain ⟨first, fs, fs', rfl, hfs, hyhead, -⟩ := (m.h1Head_ok_iff response cs hcs _).1 hhead
  obtain ⟨hfirst, hfs0⟩ := (lines_cons _ _).1 hcs
  unfold Message.octets at hle
  rw [List.length_append] at hle
  refine ⟨?_, by omega, ?_, ?_⟩
  · exact ⟨first :: fs', (lines_cons _ _).2 ⟨hfirst, m.forall₂_fieldTo_lines response hfs hfs0⟩,
      hyhead⟩
  · rw [hyhead, framing_mapped m response noBody hfs hcs, ← hx, h.framing, hkind]
  · have hb := h.isBody
    rw [hkind, hpayload]
    rw [hpayload] at hle
    cases hk : x.kind with
    | empty =>
      rw [hk] at hb
      exact hb
    | length n =>
      rw [hk] at hb
      exact hb
    | chunked =>
      rw [hk] at hb
      exact isChunked_of_length hb (by omega)
    | untilEof =>
      exact hrest hk

/-- What was written is read as the mapped messages, up to its end. -/
theorem IsStream.rewritten {maxHead maxHead' : Nat} {response : Bool} {rest : Bytes}
    {flags : List Bool} {xs ys : List Message} (h : IsStream maxHead response rest flags xs)
    (hys : List.Forall₂ (Rewritten m response) xs ys) (hle : (octetsOf ys).length ≤ maxHead') :
    IsStream maxHead' response [] flags ys := by
  induction h generalizing ys with
  | nil =>
    cases hys
    exact .nil
  | cons noBody flags x xs hx hxs ih =>
    cases hys with
    | @cons _ y _ ys hy hys =>
      rw [octetsOf, List.flatMap_cons, List.length_append] at hle
      refine .cons noBody flags y ys (hx.rewritten m hy ?_ (by omega)) (ih hys ?_)
      · intro hk
        have hb := hx.isBody
        rw [hk] at hb
        obtain rfl := hxs.eq_nil (List.append_eq_nil_iff.1 hb).1
        cases hys
        rfl
      · unfold octetsOf
        omega

/-! ## The request loop -/

/-- What the request loop makes of a message: the checks pass, and give the framing and
the head of `y`. -/
def Accepted (x y : Message) : Prop :=
  (∃ method, checkRequest m x.head = .ok (method, x.kind, y.head)) ∧ y.kind = x.kind ∧
    y.payload = x.payload

theorem Accepted.rewritten {x y : Message} (h : Accepted m x y) : Rewritten m false x y := by
  obtain ⟨⟨method, hc⟩, hk, hp⟩ := h
  exact ⟨((checkRequest_ok_iff m _ _ _ _).1 hc).2.2, hk, hp⟩

/-- The request `x` was read from what `st` had to come, and `y` was written. -/
structure Passed (x y : Message) (st st' : Conn) : Prop where
  isMessage : IsMessage MAX_HEAD false false x st'.reader.flatten
  came : st.reader.flatten = x.octets ++ st'.reader.flatten
  accepted : Accepted m x y
  written : st'.output = st.output ++ y.octets

theorem send_ok (accepts : Nat → Bool) (isHead : Bool) (st st' : Conn)
    (h : send accepts isHead st = .ok () st') : st'.reader = st.reader ∧ st'.output = st.output := by
  unfold send at h
  split at h
  · cases h
    exact ⟨rfl, rfl⟩
  · cases h

theorem send_error (accepts : Nat → Bool) (isHead : Bool) (st st' : Conn) (e : Fault)
    (h : send accepts isHead st = .error e st') : st' = st := by
  unfold send at h
  split at h
  · cases h
  · cases h
    rfl

theorem request_ok (accepts : Nat → Bool) (st st' : Conn) (more : Bool)
    (h : request m accepts st = .ok more st') :
    (more = false ∧ st.reader.flatten = [] ∧ st'.reader.flatten = [] ∧ st'.output = st.output) ∨
      (more = true ∧ ∃ x y, Passed m x y st st') := by
  unfold request at h
  obtain ⟨hd, st1, hhead, h⟩ := (Act.bind_ok_iff _ _ _ _ _).1 h
  obtain ⟨w, rest, ⟨rfl, hread⟩, hrest, hout, -⟩ :=
    (reads_head MAX_HEAD _).sound st hd st1 rfl hhead
  rw [List.append_nil] at hout
  split at h
  · next h0 =>
    obtain ⟨rfl, rfl⟩ := (Act.pure_ok_iff _ _ _ _).1 h
    rcases hread with ⟨-, -, hb, hr⟩ | ⟨s, hs, rfl, -⟩
    · exact Or.inl ⟨rfl, hb, by rw [hrest, hr], hout⟩
    · exact (hs.ne_nil h0).elim
  · next hne =>
    obtain ⟨⟨method, kind, rewritten⟩, st2, hc, h⟩ := (Act.bind_ok_iff _ _ _ _ _).1 h
    obtain ⟨hcheck, rfl⟩ := (Act.liftM_ok_iff _ _ _ _).1 hc
    obtain ⟨_, st3, hsend, h⟩ := (Act.bind_ok_iff _ _ _ _ _).1 h
    obtain ⟨hr3, ho3⟩ := send_ok _ _ _ _ hsend
    obtain ⟨_, st4, hw, h⟩ := (Act.bind_ok_iff _ _ _ _ _).1 h
    cases hw
    obtain ⟨_, st5, hbody, h⟩ := (Act.bind_ok_iff _ _ _ _ _).1 h
    obtain ⟨rfl, rfl⟩ := (Act.pure_ok_iff _ _ _ _).1 h
    obtain ⟨p, rest', ⟨hb, hib⟩, rfl, ho5, -⟩ :=
      (reads_body MAX_HEAD kind rest).sound _ () st' (by rw [← hrest, ← hr3]) hbody
    obtain ⟨-, hk, -⟩ := (checkRequest_ok_iff m _ _ _ _).1 hcheck
    rcases hread with ⟨-, h0, -⟩ | ⟨s, hs, rfl, hlen, hbytes⟩
    · exact (hne h0).elim
    · refine Or.inr ⟨rfl, ⟨_, kind, p⟩, ⟨rewritten, kind, p⟩, ⟨hs, hlen, hk, hib⟩, ?_,
        ⟨⟨method, hcheck⟩, rfl, rfl⟩, ?_⟩
      · rw [hbytes, hb, Message.octets, List.append_assoc]
      · rw [ho5, ho3, hout, Message.octets, List.append_assoc]

/-- Every pass reads a message, so the loop ends at the end of the stream. -/
theorem requestLoop_ok (accepts : Nat → Bool) (fuel : Nat) (st st' : Conn)
    (hfuel : st.reader.flatten.length < fuel) (h : requestLoop m accepts fuel st = .ok () st') :
    ∃ xs ys, IsStream MAX_HEAD false [] (List.replicate xs.length false) xs ∧
      st.reader.flatten = octetsOf xs ∧ st'.reader.flatten = [] ∧
      List.Forall₂ (Accepted m) xs ys ∧ st'.output = st.output ++ octetsOf ys := by
  induction fuel generalizing st with
  | zero => omega
  | succ fuel ih =>
    unfold requestLoop at h
    obtain ⟨more, st1, hrun, h⟩ := (Act.bind_ok_iff _ _ _ _ _).1 h
    rcases request_ok m accepts st st1 more hrun with ⟨rfl, hb, hr, ho⟩ | ⟨rfl, x, y, hp⟩
    · obtain ⟨-, rfl⟩ := (Act.pure_ok_iff _ _ _ _).1 h
      exact ⟨[], [], .nil, hb, hr, .nil, by rw [ho]; exact (List.append_nil _).symm⟩
    · have hlen : st1.reader.flatten.length < fuel := by
        have := hp.isMessage.isSection.length
        have hcame := congrArg List.length hp.came
        rw [Message.octets, List.length_append, List.length_append] at hcame
        omega
      obtain ⟨xs, ys, hxs, hcame, hend, hys, hout⟩ := ih st1 hlen h
      refine ⟨x :: xs, y :: ys, .cons false _ x xs ?_ hxs, ?_, hend, .cons hp.accepted hys, ?_⟩
      · rw [List.append_nil, ← hcame]
        exact hp.isMessage
      · rw [hp.came, hcame]
        rfl
      · rw [hout, hp.written, List.append_assoc]
        rfl

/-! ## The response loop -/

/-- A response to a request that was `isHead`, read and written. -/
structure Replied (isHead : Bool) (status : Nat) (x y : Message) (st st' : Conn) : Prop where
  hstatus : statusCode x.head = .ok status
  isMessage : IsMessage MAX_HEAD true (noBody isHead status) x st'.reader.flatten
  came : st.reader.flatten = x.octets ++ st'.reader.flatten
  rewritten : Rewritten m true x y
  written : st'.output = st.output ++ y.octets
  channel : st'.channel = st.channel

/-- How the loop goes on after the response `x`. -/
def nextOf (status : Nat) (x : Message) : Next :=
  if x.kind = .untilEof then .eof else if 100 ≤ status ∧ status < 200 then .interim else .final

theorem checkResponse_ok_iff (isHead : Bool) (h : Bytes) (next : Next) (kind : Body) (h' : Bytes) :
    checkResponse m isHead h = .ok (next, kind, h') ↔
      ∃ status, h ≠ [] ∧ statusCode h = .ok status ∧ status ≠ 101 ∧
        framing h true (noBody isHead status) = .ok kind ∧ m.h1Head h true = .ok h' ∧
        next = nextOf status ⟨h, kind, []⟩ := by
  unfold checkResponse
  simp only [Res.bind_ok_iff, Res.ensure_ok_iff]
  constructor
  · rintro ⟨_, hne, status, hstatus, _, h101, kind', hk, rewritten, hh, hc⟩
    cases hc
    exact ⟨status, hne, hstatus, h101, hk, hh, rfl⟩
  · rintro ⟨status, hne, hstatus, h101, hk, hh, rfl⟩
    exact ⟨(), hne, status, hstatus, (), h101, kind, hk, h', hh, rfl⟩

theorem response_ok (isHead : Bool) (st st' : Conn) (next : Next)
    (h : response m isHead st = .ok next st') :
    ∃ status x y, Replied m isHead status x y st st' ∧ next = nextOf status x := by
  unfold response at h
  obtain ⟨hd, st1, hhead, h⟩ := (Act.bind_ok_iff _ _ _ _ _).1 h
  obtain ⟨w, rest, ⟨rfl, hread⟩, hrest, hout, hch⟩ :=
    (reads_head MAX_HEAD _).sound st hd st1 rfl hhead
  rw [List.append_nil] at hout
  obtain ⟨⟨next', kind, rewritten⟩, st2, hc, h⟩ := (Act.bind_ok_iff _ _ _ _ _).1 h
  obtain ⟨hcheck, rfl⟩ := (Act.liftM_ok_iff _ _ _ _).1 hc
  obtain ⟨status, hne, hstatus, -, hk, hh, rfl⟩ :=
    (checkResponse_ok_iff m isHead hd next' kind rewritten).1 hcheck
  obtain ⟨_, st3, hw, h⟩ := (Act.bind_ok_iff _ _ _ _ _).1 h
  cases hw
  obtain ⟨_, st4, hbody, h⟩ := (Act.bind_ok_iff _ _ _ _ _).1 h
  obtain ⟨rfl, rfl⟩ := (Act.pure_ok_iff _ _ _ _).1 h
  obtain ⟨p, rest', ⟨hb, hib⟩, rfl, ho4, hch4⟩ :=
    (reads_body MAX_HEAD kind rest).sound { st1 with output := st1.output ++ rewritten } () st'
      hrest hbody
  rcases hread with ⟨-, h0, -⟩ | ⟨s, hs, rfl, hlen, hbytes⟩
  · exact (hne h0).elim
  · refine ⟨status, ⟨_, kind, p⟩, ⟨rewritten, kind, p⟩, ⟨hstatus, ⟨hs, hlen, hk, hib⟩, ?_,
      ⟨hh, rfl, rfl⟩, ?_, hch4.trans hch⟩, rfl⟩
    · rw [hbytes, hb, Message.octets, List.append_assoc]
    · rw [ho4, hout, Message.octets, List.append_assoc]

/-- The responses `xs` to the requests with these `HEAD` flags: interim ones and a final
one to each, unless one is ended by the stream. -/
inductive Answers : (channel : List Bool) → (flags : List Bool) → List Message → Prop where
  | nil : Answers [] [] []
  | eof (isHead : Bool) (channel : List Bool) (status : Nat) (x : Message)
      (hstatus : statusCode x.head = .ok status) (hnext : nextOf status x = .eof) :
      Answers (isHead :: channel) [noBody isHead status] [x]
  | interim (isHead : Bool) (channel : List Bool) (status : Nat) (x : Message)
      (flags : List Bool) (xs : List Message)
      (hstatus : statusCode x.head = .ok status) (hnext : nextOf status x = .interim)
      (h : Answers (isHead :: channel) flags xs) :
      Answers (isHead :: channel) (noBody isHead status :: flags) (x :: xs)
  | final (isHead : Bool) (channel : List Bool) (status : Nat) (x : Message)
      (flags : List Bool) (xs : List Message)
      (hstatus : statusCode x.head = .ok status) (hnext : nextOf status x = .final)
      (h : Answers channel flags xs) :
      Answers (isHead :: channel) (noBody isHead status :: flags) (x :: xs)

/-- What a part of the response loop read and wrote. -/
structure Responded (flags : List Bool) (xs ys : List Message) (st st' : Conn) : Prop where
  isStream : IsStream MAX_HEAD true st'.reader.flatten flags xs
  came : st.reader.flatten = octetsOf xs ++ st'.reader.flatten
  rewritten : List.Forall₂ (Rewritten m true) xs ys
  written : st'.output = st.output ++ octetsOf ys

theorem Responded.nil (st st' : Conn) (hr : st'.reader = st.reader) (ho : st'.output = st.output) :
    Responded m [] [] [] st st' :=
  ⟨.nil, by rw [hr]; rfl, .nil, by rw [ho]; exact (List.append_nil _).symm⟩

theorem Replied.cons {isHead : Bool} {status : Nat} {x y : Message} {flags : List Bool}
    {xs ys : List Message} {st st' st'' : Conn} (h : Replied m isHead status x y st st')
    (h' : Responded m flags xs ys st' st'') :
    Responded m (noBody isHead status :: flags) (x :: xs) (y :: ys) st st'' := by
  refine ⟨.cons _ _ x xs ?_ h'.isStream, ?_, .cons h.rewritten h'.rewritten, ?_⟩
  · rw [← h'.came]
    exact h.isMessage
  · rw [h.came, h'.came, octetsOf, octetsOf, List.flatMap_cons, List.append_assoc]
  · rw [h'.written, h.written, octetsOf, octetsOf, List.flatMap_cons, List.append_assoc]

theorem Responded.append {flags flags' : List Bool} {xs xs' ys ys' : List Message}
    {st st' st'' : Conn} (h : Responded m flags xs ys st st')
    (h' : Responded m flags' xs' ys' st' st'') :
    Responded m (flags ++ flags') (xs ++ xs') (ys ++ ys') st st'' := by
  refine ⟨IsStream.append ?_ h'.isStream, ?_, List.rel_append h.rewritten h'.rewritten, ?_⟩
  · rw [← h'.came]
    exact h.isStream
  · rw [h.came, h'.came, octetsOf, octetsOf, octetsOf, List.flatMap_append, List.append_assoc]
  · rw [h'.written, h.written, octetsOf, octetsOf, octetsOf, List.flatMap_append, List.append_assoc]

/-- The responses to one request: what answers the requests after it answers the rest. -/
theorem responsesTo_ok (isHead : Bool) (fuel : Nat) (st st' : Conn) (more : Bool)
    (hfuel : st.reader.flatten.length < fuel)
    (h : responsesTo m isHead fuel st = .ok more st') :
    ∃ flags xs ys, Responded m flags xs ys st st' ∧ st'.channel = st.channel ∧
      (more = true → ∀ channel flags' xs', Answers channel flags' xs' →
        Answers (isHead :: channel) (flags ++ flags') (xs ++ xs')) ∧
      (more = false → ∀ channel, Answers (isHead :: channel) flags xs) := by
  induction fuel generalizing st with
  | zero => omega
  | succ fuel ih =>
    unfold responsesTo at h
    obtain ⟨next, st1, hrun, h⟩ := (Act.bind_ok_iff _ _ _ _ _).1 h
    obtain ⟨status, x, y, hp, hnext⟩ := response_ok m isHead st st1 next hrun
    have hone := hp.cons m (Responded.nil m st1 st1 rfl rfl)
    cases next with
    | interim =>
      have hlen : st1.reader.flatten.length < fuel := by
        have := hp.isMessage.isSection.length
        have hcame := congrArg List.length hp.came
        rw [Message.octets, List.length_append, List.length_append] at hcame
        omega
      obtain ⟨flags, xs, ys, hr, hch, hmore, hend⟩ := ih st1 hlen h
      refine ⟨_, _, _, hp.cons m hr, hch.trans hp.channel, ?_, ?_⟩
      · intro ht channel flags' xs' ha
        exact .interim isHead channel status x _ _ hp.hstatus hnext.symm (hmore ht channel _ _ ha)
      · intro hf channel
        exact .interim isHead channel status x _ _ hp.hstatus hnext.symm (hend hf channel)
    | final =>
      obtain ⟨rfl, rfl⟩ := (Act.pure_ok_iff _ _ _ _).1 h
      refine ⟨_, _, _, hone, hp.channel, ?_, fun hf => nomatch hf⟩
      intro _ channel flags' xs' ha
      exact .final isHead channel status x _ _ hp.hstatus hnext.symm ha
    | eof =>
      obtain ⟨rfl, rfl⟩ := (Act.pure_ok_iff _ _ _ _).1 h
      refine ⟨_, _, _, hone, hp.channel, (fun ht => nomatch ht), fun _ channel => ?_⟩
      exact .eof isHead channel status x hp.hstatus hnext.symm

theorem responseLoop_ok (fuel : Nat) (st st' : Conn) (hfuel : st.channel.length < fuel)
    (h : responseLoop m fuel st = .ok () st') :
    ∃ flags xs ys, Responded m flags xs ys st st' ∧ Answers st.channel flags xs := by
  induction fuel generalizing st with
  | zero => omega
  | succ fuel ih =>
    unfold responseLoop at h
    obtain ⟨flag, st1, hrecv, h⟩ := (Act.bind_ok_iff _ _ _ _ _).1 h
    unfold receive at hrecv
    cases hch : st.channel with
    | nil =>
      simp only [hch] at hrecv
      cases hrecv
      obtain ⟨-, rfl⟩ := (Act.pure_ok_iff _ _ _ _).1 h
      exact ⟨[], [], [], Responded.nil m st' st' rfl rfl, .nil⟩
    | cons isHead channel =>
      simp only [hch] at hrecv
      cases hrecv
      obtain ⟨reader, st2, hg, h⟩ := (Act.bind_ok_iff _ _ _ _ _).1 h
      cases hg
      obtain ⟨more, st3, hrun, h⟩ := (Act.bind_ok_iff _ _ _ _ _).1 h
      obtain ⟨flags, xs, ys, hr, hch3, hmore, hend⟩ :=
        responsesTo_ok m isHead _ _ st3 more (Nat.lt_succ_self _) hrun
      have hr' : Responded m flags xs ys st st3 := ⟨hr.isStream, hr.came, hr.rewritten, hr.written⟩
      split at h
      · next ht =>
        have hlen : st3.channel.length < fuel := by
          rw [hch3]
          rw [hch, List.length_cons] at hfuel
          exact Nat.lt_of_succ_lt_succ hfuel
        obtain ⟨flags', xs', ys', hrest, ha⟩ := ih st3 hlen h
        rw [hch3] at ha
        exact ⟨_, _, _, hr'.append m hrest, hmore ht channel _ _ ha⟩
      · next hf =>
        obtain ⟨-, rfl⟩ := (Act.pure_ok_iff _ _ _ _).1 h
        exact ⟨flags, xs, ys, hr', hend (by simpa using hf) channel⟩

/-! ## The theorem -/

/-- `xs` is what `st` had to come, up to what `st'` has, read by the parsers of the
bridge; `ys` are the same messages with their heads mapped; their octets were written,
and are read as `ys` by the same parsers, in whatever pieces and with any flags after
those of the messages. -/
structure Transparent (response : Bool) (flags : List Bool) (xs ys : List Message)
    (st st' : Conn) : Prop where
  read : ReadAs MAX_HEAD response flags st.reader.flatten xs st'.reader.flatten
  came : st.reader.flatten = octetsOf xs ++ st'.reader.flatten
  rewritten : List.Forall₂ (Rewritten m response) xs ys
  written : st'.output = st.output ++ octetsOf ys
  again : ∀ maxHead extra, (octetsOf ys).length ≤ maxHead →
    ReadAs maxHead response (flags ++ extra) (octetsOf ys) ys []

theorem Transparent.of_stream {response : Bool} {flags : List Bool} {xs ys : List Message}
    {st st' : Conn} (h : IsStream MAX_HEAD response st'.reader.flatten flags xs)
    (came : st.reader.flatten = octetsOf xs ++ st'.reader.flatten)
    (rewritten : List.Forall₂ (Rewritten m response) xs ys)
    (written : st'.output = st.output ++ octetsOf ys) : Transparent m response flags xs ys st st' := by
  refine ⟨?_, came, rewritten, written, fun maxHead extra hle => ?_⟩
  · have := h.readAs [] (Or.inl rfl)
    rwa [List.append_nil, ← came] at this
  · have := (h.rewritten m rewritten hle).readAs extra (Or.inr rfl)
    rwa [List.append_nil] at this

/-- **HTTP/1.1 streams are transparent.**  A request loop that ends without an error has
read its stream to the end. -/
theorem bridge_transparent (m : Mapping U) :
    (∀ accepts st st', requests m accepts st = .ok () st' →
      st'.reader.flatten = [] ∧
        ∃ xs ys, Transparent m false (List.replicate xs.length false) xs ys st st') ∧
    ∀ st st', responses m st = .ok () st' →
      ∃ flags xs ys, Answers st.channel flags xs ∧ Transparent m true flags xs ys st st' := by
  refine ⟨fun accepts st st' h => ?_, fun st st' h => ?_⟩
  · obtain ⟨reader, st1, hg, h⟩ := (Act.bind_ok_iff _ _ _ _ _).1 h
    cases hg
    obtain ⟨xs, ys, hxs, hcame, hend, hys, hout⟩ :=
      requestLoop_ok m accepts _ st st' (Nat.lt_succ_self _) h
    rw [← hend] at hxs
    refine ⟨hend, xs, ys, Transparent.of_stream m hxs ?_ ?_ hout⟩
    · rw [hcame, hend, List.append_nil]
    · exact hys.imp fun x y hxy => hxy.rewritten m
  · obtain ⟨flags, xs, ys, hr, ha⟩ := responseLoop_ok m _ st st' (Nat.lt_succ_self _) h
    exact ⟨flags, xs, ys, ha, Transparent.of_stream m hr.isStream hr.came hr.rewritten hr.written⟩

end

/-- A chunked request and one without a body, cut in the middle of a field and of the
body. -/
def sampleRequests : Conn :=
  { reader := [ascii "POST / HTTP/1.1\r\nHost: b.te",
      ascii "st:8443\r\nTransfer-Encoding: chunked\r\n\r\n3;x=1\r\na",
      ascii "bc\r\n0\r\nT: 1\r\n\r\nGET / HTTP/1.1\r\nhost:b.test:8443\r\n\r\n"],
    output := [], channel := [] }

/-- An interim response, one of two octets, and one to `HEAD` that has none. -/
def sampleResponses : Conn :=
  { reader := [ascii "HTTP/1.1 100 Continue\r\n\r\nHTTP/1.1 200 OK\r\nContent-Le",
      ascii "ngth: 2\r\n\r\nokHTTP/1.1 200 OK\r\nContent-Length: 2\r\n\r\n"],
    output := [], channel := [false, true] }

theorem bridge_transparent_sample :
    (∃ st', requests sampleMapping (fun _ => true) sampleRequests = .ok () st' ∧
      st'.reader.flatten = [] ∧ ∃ xs ys, Transparent sampleMapping false
        (List.replicate xs.length false) xs ys sampleRequests st') ∧
    ∃ st', responses sampleMapping sampleResponses = .ok () st' ∧
      ∃ flags xs ys, Answers [false, true] flags xs ∧
        Transparent sampleMapping true flags xs ys sampleResponses st' := by
  obtain ⟨st1, h1⟩ := (Act.value?_eq_some_iff (requests sampleMapping fun _ => true)
    sampleRequests ()).1 (by decide +kernel)
  obtain ⟨st2, h2⟩ := (Act.value?_eq_some_iff (responses sampleMapping) sampleResponses ()).1
    (by decide +kernel)
  exact ⟨⟨st1, h1, (bridge_transparent sampleMapping).1 _ _ st1 h1⟩,
    st2, h2, (bridge_transparent sampleMapping).2 _ st2 h2⟩

end H1
