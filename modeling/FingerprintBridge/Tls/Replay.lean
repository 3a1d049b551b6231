import FingerprintBridge.Tls.Records

/-!
# `read_hello` and `Replay` of `src/transport.rs`

`readHello` takes records off the stream until they hold a hello, and `Replay` hands the
octets taken to the next reader before it goes on with the stream.  Nothing is lost at the
seam, however the stream arrives and whatever buffers it is read into (`replay_lossless`).
-/

namespace Tls

/-! ## Reading the hello -/

/-- `read_exact` on the pieces in which the stream arrives: what was read and what is left
(an empty piece is no end of stream). -/
def readExact : Nat → List Bytes → Res (Bytes × List Bytes)
  | 0, pieces => .ok ([], pieces)
  | _ + 1, [] => .error (.err "early eof")
  | n + 1, piece :: pieces =>
    if piece.length ≤ n + 1 then do
      let (b, pieces) ← readExact (n + 1 - piece.length) pieces
      return (piece ++ b, pieces)
    else .ok (piece.take (n + 1), piece.drop (n + 1) :: pieces)

section
variable (D : DigestCrates)

/-- The `loop`; a pass takes at least five octets, so more `fuel` than the stream has is
never used up. -/
def readHelloLoop : (fuel : Nat) → (bytes : Bytes) → List Bytes →
    Res ((Bytes × TlsHello) × List Bytes)
  | 0, _, _ => .error (.err "early eof")
  | fuel + 1, bytes, pieces => do
    let (h, pieces) ← readExact 5 pieces
    ensure ((← byteAt h 0) = 22) "expected TLS handshake"
    let n := (fromBeBytes (← byteAt h 3) (← byteAt h 4)).toNat
    ensure (n ≤ 18432 ∧ bytes.length + n + 5 ≤ MAX_HELLO) "ClientHello too large"
    let (payload, pieces) ← readExact n pieces
    let bytes := bytes ++ h ++ payload
    match ← clientHello D bytes with
    | some hello => return ((bytes, hello), pieces)
    | none => readHelloLoop fuel bytes pieces

def readHello (pieces : List Bytes) : Res ((Bytes × TlsHello) × List Bytes) :=
  readHelloLoop D (pieces.flatten.length + 1) [] pieces

end

/-! ## Replaying it -/

/-- `ReadBuf`. -/
structure ReadBuf where
  filled : Bytes
  capacity : Nat
  fits : filled.length ≤ capacity
deriving DecidableEq, Repr

def ReadBuf.remaining (b : ReadBuf) : Nat := b.capacity - b.filled.length

def ReadBuf.putSlice (b : ReadBuf) (octets : Bytes) : Res ReadBuf :=
  if h : octets.length ≤ b.remaining then
    .ok { b with
      filled := b.filled ++ octets
      fits := by
        have := b.fits
        unfold ReadBuf.remaining at h
        rw [List.length_append]
        omega }
  else .error .panic

/-- `Poll<io::Result<()>>`. -/
inductive Poll where
  | pending
  | failed
  | ready
deriving DecidableEq, Repr

/-- What the stream under the replay does when it is asked: with `ready n` it has `n + 1`
octets at hand, or all that are left. -/
inductive Answer where
  | pending
  | failed
  | ready (n : Nat)
deriving DecidableEq, Repr

/-- `inner` is what the stream has yet to deliver (`prefix` is a keyword of Lean). -/
structure Replay where
  inner : Bytes
  front : Bytes
  position : Nat
deriving DecidableEq, Repr

namespace Replay

def new (inner front : Bytes) : Replay := { inner, front, position := 0 }

def pollInner (r : Replay) (answer : Answer) (b : ReadBuf) : Res (Poll × ReadBuf × Replay) :=
  match answer with
  | .pending => .ok (.pending, b, r)
  | .failed => .ok (.failed, b, r)
  | .ready n => do
    let k := min (n + 1) b.remaining
    let b ← b.putSlice (r.inner.take k)
    return (.ready, b, { r with inner := r.inner.drop k })

def pollRead (r : Replay) (answer : Answer) (b : ReadBuf) : Res (Poll × ReadBuf × Replay) :=
  if r.position < r.front.length then do
    let left ← checkedSub r.front.length r.position
    let n := min b.remaining left
    let octets ← slice r.front r.position (r.position + n)
    let b ← b.putSlice octets
    return (.ready, b, { r with position := r.position + n })
  else r.pollInner answer b

/-- A read: the buffer, and what the stream would answer. -/
structure Read where
  buffer : ReadBuf
  answer : Answer

/-- A read that was made. -/
structure Call where
  read : Read
  poll : Poll
  after : ReadBuf

/-- The octets it put in the buffer. -/
def Call.octets (c : Call) : Bytes := c.after.filled.drop c.read.buffer.filled.length

def polls (r : Replay) : List Read → Res (List Call × Replay)
  | [] => .ok ([], r)
  | read :: reads => do
    let (poll, after, r) ← r.pollRead read.answer read.buffer
    let (calls, r) ← r.polls reads
    return ({ read, poll, after } :: calls, r)

end Replay

/-! ## What was taken -/

theorem readExact_ok (pieces : List Bytes) : ∀ (n : Nat) (b : Bytes) (rest : List Bytes),
    readExact n pieces = .ok (b, rest) → b.length = n ∧ b ++ rest.flatten = pieces.flatten := by
  induction pieces with
  | nil =>
    intro n b rest h
    cases n with
    | zero =>
      cases h
      exact ⟨rfl, rfl⟩
    | succ n => cases h
  | cons piece pieces ih =>
    intro n b rest h
    cases n with
    | zero =>
      cases h
      exact ⟨rfl, rfl⟩
    | succ n =>
      rw [readExact] at h
      split at h
      · next hle =>
        obtain ⟨⟨b', rest'⟩, h1, h⟩ := (Res.bind_ok_iff _ _ _).1 h
        cases h
        obtain ⟨hlen, hflat⟩ := ih _ _ _ h1
        refine ⟨?_, ?_⟩
        · rw [List.length_append]
          omega
        · rw [List.append_assoc, hflat, List.flatten_cons]
      · next hlt =>
        cases h
        refine ⟨?_, ?_⟩
        · rw [List.length_take]
          omega
        · rw [List.flatten_cons, ← List.append_assoc, List.take_append_drop, List.flatten_cons]

variable {D : DigestCrates}

/-- A header and its payload are the record. -/
theorem record_of_header (h payload : Bytes) (n0 n1 : UInt8) (hlen : h.length = 5)
    (h0 : h[0]? = some 22) (h3 : h[3]? = some n0) (h4 : h[4]? = some n1)
    (hpay : payload.length = (fromBeBytes n0 n1).toNat) (hsize : payload.length ≤ 18432) :
    ∃ r : Record, r.encode = h ++ payload := by
  match h, hlen with
  | [kind, v0, v1, m0, m1], _ =>
    cases h0
    cases h3
    cases h4
    refine ⟨⟨v0, v1, payload, hsize⟩, ?_⟩
    unfold Record.encode vec16
    rw [hpay, UInt16.ofNat_toNat, be16_fromBeBytes]
    rfl

/-- `prefix` holds a hello, and what is short of its last record holds none. -/
structure HelloRecords (D : DigestCrates) (octets : Bytes) (hello : TlsHello) (rs : List Record) :
    Prop where
  whole : octets = encodeAll rs
  found : clientHello D octets = .ok (some hello)
  first : ∀ k < rs.length, clientHello D (encodeAll (rs.take k)) = .ok none

theorem readHelloLoop_ok (fuel : Nat) : ∀ (rs : List Record) (pieces rest : List Bytes)
    (octets : Bytes) (hello : TlsHello),
    (∀ k ≤ rs.length, clientHello D (encodeAll (rs.take k)) = .ok none) →
    readHelloLoop D fuel (encodeAll rs) pieces = .ok ((octets, hello), rest) →
    octets ++ rest.flatten = encodeAll rs ++ pieces.flatten ∧
      ∃ rs', HelloRecords D octets hello rs' := by
  induction fuel with
  | zero =>
    intro rs pieces rest octets hello _ h
    cases h
  | succ fuel ih =>
    intro rs pieces rest octets hello hnone h
    unfold readHelloLoop at h
    obtain ⟨⟨hd, pieces1⟩, h1, h⟩ := (Res.bind_ok_iff _ _ _).1 h
    obtain ⟨b0, hb0, h⟩ := (Res.bind_ok_iff _ _ _).1 h
    obtain ⟨_, hkind, h⟩ := (Res.bind_ok_iff _ _ _).1 h
    obtain ⟨n0, hn0, h⟩ := (Res.bind_ok_iff _ _ _).1 h
    obtain ⟨n1, hn1, h⟩ := (Res.bind_ok_iff _ _ _).1 h
    obtain ⟨_, hsize, h⟩ := (Res.bind_ok_iff _ _ _).1 h
    obtain ⟨⟨payload, pieces2⟩, h2, h⟩ := (Res.bind_ok_iff _ _ _).1 h
    obtain ⟨answer, hanswer, h⟩ := (Res.bind_ok_iff _ _ _).1 h
    rw [Res.ensure_ok_iff] at hkind hsize
    rw [Res.byteAt_ok_iff] at hb0 hn0 hn1
    obtain ⟨hlen, hflat⟩ := readExact_ok _ _ _ _ h1
    obtain ⟨hlen2, hflat2⟩ := readExact_ok _ _ _ _ h2
    obtain ⟨r, hr⟩ := record_of_header hd payload n0 n1 hlen (hkind ▸ hb0) hn0 hn1 hlen2
      (hlen2 ▸ hsize.1)
    -- the record that was read follows those before it
    have hmore : encodeAll rs ++ hd ++ payload = encodeAll (rs ++ [r]) := by
      unfold encodeAll
      rw [List.flatMap_append, List.flatMap_singleton, hr, List.append_assoc]
    have hstream : encodeAll (rs ++ [r]) ++ pieces2.flatten = encodeAll rs ++ pieces.flatten := by
      rw [← hmore, ← hflat, ← hflat2]
      simp only [List.append_assoc]
    simp only [hmore] at hanswer h
    have hfirst : ∀ k < (rs ++ [r]).length,
        clientHello D (encodeAll ((rs ++ [r]).take k)) = .ok none := by
      intro k hk
      rw [List.length_append, List.length_singleton] at hk
      rw [List.take_append_of_le_length (by omega)]
      exact hnone k (by omega)
    cases answer with
    | some found =>
      cases h
      exact ⟨hstream, rs ++ [r], rfl, hanswer, hfirst⟩
    | none =>
      obtain ⟨heq, hrs⟩ := ih (rs ++ [r]) pieces2 rest octets hello (fun k hk => by
        rcases Nat.lt_or_eq_of_le hk with hk | rfl
        · exact hfirst k hk
        · rwa [List.take_length]) h
      exact ⟨heq.trans hstream, hrs⟩

/-- `read_hello` takes whole records, up to the one that completes the hello. -/
theorem readHello_ok (pieces rest : List Bytes) (octets : Bytes) (hello : TlsHello)
    (h : readHello D pieces = .ok ((octets, hello), rest)) :
    octets ++ rest.flatten = pieces.flatten ∧ ∃ rs, HelloRecords D octets hello rs := by
  refine readHelloLoop_ok _ [] pieces rest octets hello (fun k hk => ?_) h
  rw [List.take_nil]
  rfl

/-! ## What is handed on -/

namespace Replay

/-- What is still to be handed on. -/
def unread (r : Replay) : Bytes := r.front.drop r.position ++ r.inner

theorem putSlice_of_le (b : ReadBuf) (octets : Bytes) (h : octets.length ≤ b.remaining) :
    ∃ b', b.putSlice octets = .ok b' ∧ b'.filled = b.filled ++ octets ∧ b'.capacity = b.capacity := by
  unfold ReadBuf.putSlice
  rw [dif_pos h]
  exact ⟨_, rfl, rfl, rfl⟩

/-- `c` reads the next of the octets `unread`: it keeps what the buffer has, waits or
fails only with the stream under it, and puts nothing into a buffer with room only if
nothing is left. -/
structure Call.Next (c : Call) (unread : Bytes) : Prop where
  appended : c.after.filled = c.read.buffer.filled ++ c.octets
  capacity : c.after.capacity = c.read.buffer.capacity
  ordered : c.octets <+: unread
  pending : c.poll = .pending → c.read.answer = .pending ∧ c.octets = []
  failed : c.poll = .failed → c.read.answer = .failed ∧ c.octets = []
  ended : c.poll = .ready → c.octets = [] → c.read.buffer.remaining = 0 ∨ unread = []

/-- What a call that was ready put into the buffer. -/
theorem Call.next_ready (read : Read) {after : ReadBuf} {octets unread : Bytes}
    (hfilled : after.filled = read.buffer.filled ++ octets)
    (hcap : after.capacity = read.buffer.capacity) (hord : octets <+: unread)
    (hend : octets = [] → read.buffer.remaining = 0 ∨ unread = []) :
    Call.Next ⟨read, .ready, after⟩ unread ∧ Call.octets ⟨read, .ready, after⟩ = octets := by
  have hoct : Call.octets ⟨read, .ready, after⟩ = octets := by
    unfold Call.octets
    rw [hfilled, List.drop_left]
  refine ⟨⟨?_, hcap, ?_, nofun, nofun, fun _ h0 => ?_⟩, hoct⟩
  · rw [hoct, hfilled]
  · rwa [hoct]
  · rw [hoct] at h0
    exact hend h0

/-- What a call that was not ready left as it was. -/
theorem Call.next_same (read : Read) (poll : Poll) (unread : Bytes)
    (hp : poll = .pending → read.answer = .pending) (hf : poll = .failed → read.answer = .failed)
    (hr : poll ≠ .ready) :
    Call.Next ⟨read, poll, read.buffer⟩ unread ∧ Call.octets ⟨read, poll, read.buffer⟩ = [] := by
  have hoct : Call.octets ⟨read, poll, read.buffer⟩ = [] := List.drop_length
  refine ⟨⟨?_, rfl, ?_, fun h => ⟨hp h, hoct⟩, fun h => ⟨hf h, hoct⟩, fun h => (hr h).elim⟩, hoct⟩
  · rw [hoct, List.append_nil]
  · rw [hoct]
    exact List.nil_prefix

/-- What is asked of one read of `r`. -/
def Delivered (r : Replay) (read : Read) (result : Res (Poll × ReadBuf × Replay)) : Prop :=
  ∃ poll after r', result = .ok (poll, after, r') ∧ r'.position ≤ r'.front.length ∧
    Call.Next ⟨read, poll, after⟩ r.unread ∧
    Call.octets ⟨read, poll, after⟩ ++ r'.unread = r.unread

/-- A read from what was taken. -/
theorem pollRead_front (r : Replay) (hr : r.position < r.front.length) (read : Read) :
    r.Delivered read (r.pollRead read.answer read.buffer) := by
  obtain ⟨buffer, answer⟩ := read
  obtain ⟨inner, front, position⟩ := r
  simp only at hr ⊢
  obtain ⟨k, hk⟩ : ∃ k, min buffer.remaining (front.length - position) = k := ⟨_, rfl⟩
  have hlen : ((front.drop position).take k).length = k := by
    rw [List.length_take, List.length_drop]
    omega
  obtain ⟨after, hput, hfilled, hcap⟩ :=
    putSlice_of_le buffer ((front.drop position).take k) (by omega)
  refine ⟨.ready, after, ⟨inner, front, position + k⟩, ?_, ?_, ?_⟩
  · unfold pollRead
    simp only [if_pos hr, Res.checkedSub_of_le _ _ hr.le]
    show (do
      let octets ← slice front position (position + min buffer.remaining (front.length - position))
      let b ← buffer.putSlice octets
      return (_, b, _)) = _
    rw [hk, Res.slice_of_le _ _ _ (by omega) (by omega), Nat.add_sub_cancel_left]
    show (do
      let b ← buffer.putSlice ((front.drop position).take k)
      return (_, b, _)) = _
    rw [hput]
    rfl
  · show position + k ≤ front.length
    omega
  · have hcut : (front.drop position).take k ++ unread ⟨inner, front, position + k⟩ =
        unread ⟨inner, front, position⟩ := by
      show _ ++ (front.drop (position + k) ++ inner) = front.drop position ++ inner
      rw [← List.drop_drop, ← List.append_assoc, List.take_append_drop]
    obtain ⟨hnext, hoct⟩ := Call.next_ready ⟨buffer, answer⟩ hfilled hcap ⟨_, hcut⟩
      fun h0 => by
        rw [h0, List.length_nil] at hlen
        left
        show buffer.remaining = 0
        omega
    rw [hoct]
    exact ⟨hnext, hcut⟩

/-- A read from the stream, when all that was taken has been handed on. -/
theorem pollInner_next (r : Replay) (hr : r.position = r.front.length) (read : Read) :
    r.Delivered read (r.pollInner read.answer read.buffer) := by
  obtain ⟨buffer, answer⟩ := read
  obtain ⟨inner, front, position⟩ := r
  simp only at hr ⊢
  have hle : position ≤ front.length := hr.le
  have hdone : front.drop position = [] := List.drop_eq_nil_of_le hr.ge
  have hunread : unread ⟨inner, front, position⟩ = inner := by
    show front.drop position ++ inner = inner
    rw [hdone, List.nil_append]
  cases answer with
  | pending =>
    obtain ⟨hnext, hoct⟩ := Call.next_same ⟨buffer, .pending⟩ .pending
      (unread ⟨inner, front, position⟩) (fun _ => rfl) nofun nofun
    exact ⟨_, _, _, rfl, hle, hnext, by rw [hoct, List.nil_append]⟩
  | failed =>
    obtain ⟨hnext, hoct⟩ := Call.next_same ⟨buffer, .failed⟩ .failed
      (unread ⟨inner, front, position⟩) nofun (fun _ => rfl) nofun
    exact ⟨_, _, _, rfl, hle, hnext, by rw [hoct, List.nil_append]⟩
  | ready n =>
    obtain ⟨k, hk⟩ : ∃ k, min (n + 1) buffer.remaining = k := ⟨_, rfl⟩
    obtain ⟨after, hput, hfilled, hcap⟩ := putSlice_of_le buffer (inner.take k) (by
      rw [List.length_take]
      omega)
    have hcut : inner.take k ++ unread ⟨inner.drop k, front, position⟩ =
        unread ⟨inner, front, position⟩ := by
      rw [hunread]
      show _ ++ (front.drop position ++ inner.drop k) = inner
      rw [hdone, List.nil_append, List.take_append_drop]
    refine ⟨.ready, after, ⟨inner.drop k, front, position⟩, ?_, hle, ?_⟩
    · unfold pollInner
      simp only [hk, hput]
      rfl
    · obtain ⟨hnext, hoct⟩ := Call.next_ready ⟨buffer, .ready n⟩ hfilled hcap ⟨_, hcut⟩
        fun h0 => by
          rw [hunread]
          rcases List.take_eq_nil_iff.1 h0 with hk0 | hnil
          · left
            show buffer.remaining = 0
            omega
          · exact Or.inr hnil
      rw [hoct]
      exact ⟨hnext, hcut⟩

/-- One read. -/
theorem pollRead_next (r : Replay) (hr : r.position ≤ r.front.length) (read : Read) :
    r.Delivered read (r.pollRead read.answer read.buffer) := by
  by_cases hpos : r.position < r.front.length
  · exact pollRead_front r hpos read
  · have heq : r.pollRead read.answer read.buffer = r.pollInner read.answer read.buffer := by
      unfold pollRead
      rw [if_neg hpos]
    rw [heq]
    exact pollInner_next r (by omega) read

/-- The reads of a run, each from where the one before it stopped. -/
inductive Served : List Call → (unread rest : Bytes) → Prop
  | nil (unread : Bytes) : Served [] unread unread
  | cons {c : Call} {calls : List Call} {unread rest : Bytes} :
      c.Next (c.octets ++ unread) → Served calls unread rest →
      Served (c :: calls) (c.octets ++ unread) rest

/-- A run of reads. -/
theorem polls_served (reads : List Read) : ∀ (r : Replay), r.position ≤ r.front.length →
    ∃ calls r', r.polls reads = .ok (calls, r') ∧ calls.map Call.read = reads ∧
      Served calls r.unread r'.unread := by
  induction reads with
  | nil => exact fun r _ => ⟨[], r, rfl, rfl, .nil _⟩
  | cons read reads ih =>
    intro r hr
    obtain ⟨poll, after, r1, hone, hr1, hnext, hcut⟩ := r.pollRead_next hr read
    obtain ⟨calls, r', hrun, hreads, hserved⟩ := ih r1 hr1
    refine ⟨⟨read, poll, after⟩ :: calls, r', ?_, ?_, ?_⟩
    · unfold polls
      rw [hone]
      show (do
        let (calls, r) ← r1.polls reads
        return (({ read, poll, after } : Call) :: calls, r)) = _
      rw [hrun]
      rfl
    · rw [List.map_cons, hreads]
    · rw [← hcut] at hnext ⊢
      exact .cons hnext hserved

theorem Served.eq {calls : List Call} {unread rest : Bytes} (h : Served calls unread rest) :
    calls.flatMap Call.octets ++ rest = unread := by
  induction h with
  | nil _ => rfl
  | cons _ _ ih => rw [List.flatMap_cons, List.append_assoc, ih]

/-- A read of a run is of what the ones before it left. -/
theorem Served.next {calls : List Call} {unread rest : Bytes} (h : Served calls unread rest)
    (before after : List Call) (c : Call) (hc : calls = before ++ c :: after) :
    ∃ left, before.flatMap Call.octets ++ left = unread ∧ c.Next left := by
  induction h generalizing before with
  | nil _ => cases before <;> cases hc
  | @cons d calls unread rest hnext _ ih =>
    cases before with
    | nil =>
      obtain ⟨rfl, -⟩ := List.cons.inj hc
      exact ⟨_, rfl, hnext⟩
    | cons e before =>
      obtain ⟨rfl, htail⟩ := List.cons.inj hc
      obtain ⟨left, hleft, hn⟩ := ih before htail
      exact ⟨left, by rw [List.flatMap_cons, List.append_assoc, hleft], hn⟩

end Replay

/-- The reads of `calls` deliver `stream`, from its beginning and without a gap. -/
structure Delivers (calls : List Replay.Call) (stream : Bytes) : Prop where
  ordered : calls.flatMap Replay.Call.octets <+: stream
  next : ∀ before c after, calls = before ++ c :: after →
    ∃ left, before.flatMap Replay.Call.octets ++ left = stream ∧ c.Next left

/-- **Handshake replay is lossless.** -/
theorem replay_lossless (D : DigestCrates) (pieces rest : List Bytes) (octets : Bytes)
    (hello : TlsHello) (h : readHello D pieces = .ok ((octets, hello), rest)) :
    octets ++ rest.flatten = pieces.flatten ∧ (∃ rs, HelloRecords D octets hello rs) ∧
      ∀ reads, ∃ calls r, (Replay.new rest.flatten octets).polls reads = .ok (calls, r) ∧
        calls.map Replay.Call.read = reads ∧ Delivers calls (octets ++ rest.flatten) ∧
        calls.flatMap Replay.Call.octets ++ r.unread = octets ++ rest.flatten := by
  obtain ⟨hstream, hrs⟩ := readHello_ok pieces rest octets hello h
  refine ⟨hstream, hrs, fun reads => ?_⟩
  obtain ⟨calls, r, hrun, hreads, hserved⟩ :=
    Replay.polls_served reads (Replay.new rest.flatten octets) (Nat.zero_le _)
  have heq : calls.flatMap Replay.Call.octets ++ r.unread = octets ++ rest.flatten := hserved.eq
  exact ⟨calls, r, hrun, hreads, ⟨⟨_, heq⟩, fun before c after hc => hserved.next before after c hc⟩,
    heq⟩

/-- A hello in two records. -/
def helloRecords : List Record :=
  [⟨3, 1, [1, 0, 0, 41, 3, 3], by decide⟩,
    ⟨3, 1, List.replicate 32 7 ++ [0, 0, 2, 0x13, 0x01, 1, 0], by decide⟩]

/-- It arrives cut elsewhere, with the beginning of another record. -/
theorem replay_lossless_sample : encodeAll helloRecords ++ [23, 3, 3] =
    List.flatten [(encodeAll helloRecords).take 7, (encodeAll helloRecords).drop 7 ++ [23], [3, 3]] :=
  (replay_lossless sampleDigests _ [[23], [3, 3]] (encodeAll helloRecords)
    { legacyVersion := 0x0303, ciphers := [0x1301], compression := [0] } (by decide +kernel)).1

end Tls
