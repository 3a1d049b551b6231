import FingerprintBridge.H2.Frame

/-!
# `src/h2.rs`: one direction of the frame bridge

`direction` copies frames, except that it rewrites the header block of each
HEADERS frame and its CONTINUATIONs and spreads the result over frames again
(`reframe`).  Its limits are the other task's to store: `loads i` is what the
`i`-th pass of the loop reads, and `other` is where this one stores.

Reads and writes are on whole octet sequences: how a transport splits them does not matter to
`read_exact` and `write_all`, and an I/O error only ends the run.
-/

namespace H2

open HpackWire (HpackCrate HeaderRewriter)

def PREFACE : Bytes := ascii "PRI * HTTP/2.0\r\n\r\nSM\r\n\r\n"

/-! ## SETTINGS -/

/-- `chunks_exact(6)`. -/
def settingsEntries : Bytes → List (UInt16 × UInt32)
  | b0 :: b1 :: b2 :: b3 :: b4 :: b5 :: b =>
    (UInt16.ofNat (b0.toNat * 256 + b1.toNat), fromBeBytes b2 b3 b4 b5) :: settingsEntries b
  | _ => []

def settings (frame : Frame) : Res (List (UInt16 × UInt32)) := do
  ensure (frame.kind = 4 ∧ frame.stream = 0) "invalid SETTINGS"
  if frame.flags &&& 1 ≠ 0 then do
    ensure (frame.payload = []) "SETTINGS ACK payload"
    return []
  else do
    ensure (frame.payload.length % 6 = 0) "malformed SETTINGS"
    return settingsEntries frame.payload

structure PeerLimits where
  table : Nat
  frame : Nat
deriving DecidableEq, Repr

def PeerLimits.new : PeerLimits := { table := 4096, frame := 16384 }

/-- The store for one entry of a SETTINGS frame. -/
def storeSetting (id : UInt16) (value : UInt32) : Act PeerLimits Unit :=
  if id = 1 then modify fun limits => { limits with table := value.toNat }
  else if id = 5 then do
    ensure (16384 ≤ value.toNat ∧ value.toNat ≤ 0xffffff) "invalid SETTINGS_MAX_FRAME_SIZE"
    modify fun limits => { limits with frame := value.toNat }
  else pure ()

def storeSettings : List (UInt16 × UInt32) → Act PeerLimits Unit
  | [] => pure ()
  | (id, value) :: entries => do
    storeSetting id value
    storeSettings entries

/-! ## Header groups -/

def isPadded (flags : UInt8) : Bool := flags &&& 8 ≠ 0

def hasPriority (flags : UInt8) : Bool := flags &&& 32 ≠ 0

def endsHeaders (flags : UInt8) : Bool := flags &&& 4 ≠ 0

def padLength (frame : Frame) : Res Nat :=
  if isPadded frame.flags then do
    ensure (frame.payload ≠ []) "missing pad length"
    return (← byteAt frame.payload 0).toNat
  else .ok 0

/-- The pad length and the priority, the padding, and the fragment between them. -/
def headerParts (frame : Frame) : Res (Bytes × Bytes × Bytes) := do
  ensure (frame.kind = 1 ∧ frame.stream &&& 0x7fffffff ≠ 0) "invalid HEADERS"
  let b := frame.payload
  let pad ← padLength frame
  let start := (if isPadded frame.flags then 1 else 0) + if hasPriority frame.flags then 5 else 0
  ensure (start + pad ≤ b.length) "bad HEADERS padding/priority"
  return (b.take start, b.drop (b.length - pad), (b.take (b.length - pad)).drop start)

/-- The loop of `reframe` from the `i`-th original frame on: the frames pushed, and `pos`. -/
def reframeLoop (first : Frame) (front padding encoded : Bytes) (maxFrame : Nat) :
    (i : Nat) → List Frame → (pos : Nat) → Res (List Frame × Nat)
  | _, [], pos => .ok ([], pos)
  | i, frame :: original, pos => do
    ensure (frame.payload.length ≤ maxFrame) "header frame exceeds peer limit"
    ensure (i = 0 ∨ frame.kind = 9 ∧ frame.stream = first.stream) "invalid CONTINUATION"
    let overhead := if i = 0 then front.length + padding.length else 0
    let cap ← checkedSub (if original = [] then maxFrame else frame.payload.length) overhead
    let n := min cap (encoded.length - pos)
    let chunk ← slice encoded pos (pos + n)
    let payload := if i = 0 then front ++ chunk ++ padding else chunk
    let (out, pos) ← reframeLoop first front padding encoded maxFrame (i + 1) original (pos + n)
    return ({ frame with flags := frame.flags &&& ~~~4, payload := payload } :: out, pos)

/-- `chunks(max)`. -/
def chunks (max : Nat) (b : Bytes) : List Bytes :=
  if h : b = [] ∨ max = 0 then [] else b.take max :: chunks max (b.drop max)
termination_by b.length
decreasing_by
  have := List.length_pos_iff.2 (not_or.1 h).1
  rw [List.length_drop]
  omega

/-- `out.last_mut().unwrap().flags |= 4` -/
def markLast : List Frame → Res (List Frame)
  | [] => .error .panic
  | [f] => .ok [{ f with flags := f.flags ||| 4 }]
  | f :: fs => do return f :: (← markLast fs)

/-- Retain original fragments; only the last fragment absorbs a length change. -/
def reframe (original : List Frame) (encoded : Bytes) (maxFrame : Nat) : Res (List Frame) := do
  ensure (16384 ≤ maxFrame ∧ maxFrame ≤ 0xffffff) "invalid frame limit"
  match original with
  | [] => .error (.err "missing HEADERS")
  | first :: _ => do
    let (front, padding, _) ← headerParts first
    let (out, pos) ← reframeLoop first front padding encoded maxFrame 0 original 0
    let more := (chunks maxFrame (encoded.drop pos)).map fun chunk =>
      { kind := 9, flags := 0, stream := first.stream, payload := chunk }
    markLast (out ++ more)

/-! ## The task -/

/-- What the reader has left, what the writer was given, and the state of `direction`. -/
structure Task (D : HpackCrate) where
  input : Bytes
  output : Bytes
  decoder : HeaderRewriter D
  other : PeerLimits

section
variable {D : HpackCrate} {U : UrlCrate}

def readFrame : Act (Task D) (Option Frame) := fun st =>
  match Frame.read st.input with
  | .ok (some (frame, rest)) => .ok (some frame) { st with input := rest }
  | .ok none => .ok none st
  | .error e => .error e st

def writeAll (b : Bytes) : Act (Task D) Unit := modify fun st => { st with output := st.output ++ b }

def writeFrame (frame : Frame) : Act (Task D) Unit := do
  let b ← frame.write
  writeAll b

def writeFrames : List Frame → Act (Task D) Unit
  | [] => pure ()
  | frame :: frames => do
    writeFrame frame
    writeFrames frames

def readPreface : Act (Task D) Unit := fun st =>
  if 24 ≤ st.input.length then .ok () { st with input := st.input.drop 24 }
  else .error (.err "early eof") st

def getInput : Act (Task D) Bytes := fun st => .ok st.input st

/-- `original[0]` -/
def firstFrame : List Frame → Res Frame
  | [] => .error .panic
  | first :: _ => .ok first

/-- The next frame of a group whose block so far is `block`. -/
def nextContinuation (block : Bytes) (original : List Frame) : Act (Task D) Frame := do
  let frame ← readFrame
  let next ← okOr frame "truncated CONTINUATION"
  let first ← firstFrame original
  ensure (next.kind = 9 ∧ next.stream = first.stream) "interleaved CONTINUATION"
  ensure (block.length + next.payload.length ≤ Frame.MAX_BLOCK) "header block too large"
  return next

/-- `while flags & 4 == 0`: the block and the frames of the group; `room` more
frames may follow. -/
def gather : (room : Nat) → (flags : UInt8) → (block : Bytes) → (original : List Frame) →
    Act (Task D) (Bytes × List Frame)
  | 0, flags, block, original =>
    if endsHeaders flags then pure (block, original)
    else do
      let _ ← nextContinuation block original
      throw (.err "too many CONTINUATION frames")
  | room + 1, flags, block, original =>
    if endsHeaders flags then pure (block, original)
    else do
      let next ← nextContinuation block original
      gather room next.flags (block ++ next.payload) (original ++ [next])

def onDecoder {α : Type} : Act (HeaderRewriter D) α → Act (Task D) α :=
  Act.zoom Task.decoder fun decoder st => { st with decoder := decoder }

def onOther {α : Type} : Act PeerLimits α → Act (Task D) α :=
  Act.zoom Task.other fun other st => { st with other := other }

/-- A SETTINGS frame. -/
def settingsFrame (frame : Frame) : Act (Task D) Unit := do
  let entries ← settings frame
  onOther (storeSettings entries)
  writeFrame frame

/-- A HEADERS frame and its CONTINUATIONs. -/
def headersFrame (m : Mapping U) (response : Bool) (limits : PeerLimits) (frame : Frame) :
    Act (Task D) Unit := do
  let (_, _, fragment) ← headerParts frame
  let (block, original) ← gather 1023 frame.flags fragment [frame]
  let encoded ← onDecoder (HpackWire.rewrite block m response limits.table)
  let frames ← reframe original encoded limits.frame
  writeFrames frames

def handle (m : Mapping U) (response : Bool) (limits : PeerLimits) (frame : Frame) :
    Act (Task D) Unit :=
  if frame.kind = 4 then settingsFrame frame
  else if frame.kind = 1 then headersFrame m response limits frame
  else if frame.kind = 5 then throw (.err "HTTP/2 server push unsupported")
  else if frame.kind = 9 then throw (.err "unexpected CONTINUATION")
  else writeFrame frame

/-- One pass of the loop: whether there was a frame. -/
def pass (m : Mapping U) (response : Bool) (limits : PeerLimits) : Act (Task D) Bool := do
  let frame ← readFrame
  match frame with
  | none => return false
  | some frame => do
    handle m response limits frame
    return true

/-- `while let Some(frame)`.  Every pass reads an octet, so `fuel` is never used up
when it exceeds the length of the input. -/
def directionLoop (m : Mapping U) (response : Bool) (loads : Nat → PeerLimits) :
    (fuel i : Nat) → Act (Task D) Unit
  | 0, _ => pure ()
  | fuel + 1, i => do
    if ← pass m response (loads i) then directionLoop m response loads fuel (i + 1)
    else pure ()

/-- The client's preface, `if !response`. -/
def preface (response : Bool) : Act (Task D) Unit :=
  if response then pure ()
  else do
    let input ← getInput
    readPreface
    ensure (input.take 24 = PREFACE) "invalid HTTP/2 preface"
    writeAll (input.take 24)

def direction (m : Mapping U) (response : Bool) (loads : Nat → PeerLimits) : Act (Task D) Unit := do
  preface response
  let input ← getInput
  directionLoop m response loads (input.length + 1) 0

def Task.new (D : HpackCrate) (input : Bytes) (other : PeerLimits) : Task D :=
  { input := input, output := [], decoder := HeaderRewriter.new D, other := other }

end

end H2
