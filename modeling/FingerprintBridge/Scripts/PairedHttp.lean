import FingerprintBridge.H2.Direction
import FingerprintBridge.Lib.Separated
import FingerprintBridge.Scripts.OrderPolicy

/-!
# `scripts/paired_http.py`: the two sides of one connection

The lab captures what a client sent to the bridge and what the bridge sent to the origin, and
brings both into a normal form: mapped values are mapped once more, and of a header block that
grows or shrinks the length of its last frame does not count.  `compare` passes if the forms are
equal.

The `hpack` package is the parameter of `order_policy.py`, and a Python exception is an error,
whatever its class.
-/

namespace PairedHttp

open OrderPolicy (HpackModule Kind bitsOf kindOf)
open Tls (lowerHex)

/-! ## The mapping -/

/-- The value is `old`, or goes on behind it with a path, a query or a fragment. -/
def isAt (old value : Bytes) : Bool :=
  value == old || (old.isPrefixOf value &&
    (value.drop old.length).head?.any fun c => c = 47 || c = 63 || c = 35)

def mapped (name value publicAuthority upstream : Bytes) : Bytes :=
  if (name = ascii "host" ∨ name = ascii ":authority") ∧ value = publicAuthority then upstream
  else if name = ascii "origin" ∨ name = ascii "referer" then
    (([ascii "https://", ascii "//"].find? fun front => isAt (front ++ publicAuthority) value).map
      fun front => front ++ upstream ++ value.drop (front ++ publicAuthority).length).getD value
  else value

/-! ## Representations -/

/-- The integer at `position`, and where it ends; it may be longer than it need be. -/
def integer (data : Bytes) (position bits : Nat) : Res (Nat × Nat) := do
  let byte ← byteAt data position
  OrderPolicy.integerValue data byte (2 ^ bits - 1) position

structure Literal where
  huffman : Bool
  wire : Str
deriving DecidableEq, Repr

def string (data : Bytes) (position : Nat) : Res (Literal × Nat) := do
  let byte ← byteAt data position
  let (size, start) ← integer data position 7
  ensure (start + size ≤ data.length) "truncated HPACK string"
  let octets ← slice data position (start + size)
  return ({ huffman := byte &&& 128 ≠ 0, wire := lowerHex octets }, start + size)

/-- `token["value"]` -/
inductive ValueToken where
  | wire (huffman : Bool) (wire : Str)
  | mapped (huffman : Bool) (mapped : Str)
deriving DecidableEq, Repr

structure Token where
  kind : Kind
  index : Nat
  name : Option Literal := none
  value : Option ValueToken := none
deriving DecidableEq, Repr

section
variable (publicAuthority upstream : Bytes)

/-- The field is one of those that are mapped, and its value one that was or is to be. -/
def permitted (name value : Bytes) : Bool :=
  (name = ascii "host" ∨ name = ascii ":authority" ∨ name = ascii "origin" ∨
      name = ascii "referer") ∧
    (mapped name value publicAuthority upstream ≠ value ∨
      mapped name value upstream publicAuthority ≠ value)

def valueToken (name value : Bytes) (literal : Literal) : ValueToken :=
  if permitted publicAuthority upstream name value then
    .mapped literal.huffman (lowerHex (mapped name value publicAuthority upstream))
  else .wire literal.huffman literal.wire

/-- `if not index` -/
def nameLiteral (block : Bytes) (index position : Nat) : Res (Option Literal × Nat) :=
  if index = 0 then do
    let (name, position) ← string block position
    return (some name, position)
  else .ok (none, position)

/-- The locals of `representations`. -/
structure Locals where
  tokens : List Token := []
  position : Nat := 0
  field : Nat := 0

/-- One pass of the loop. -/
def representation (block : Bytes) (headers : List Header) (l : Locals) : Res Locals := do
  let byte ← byteAt block l.position
  let (index, position) ← integer block l.position (bitsOf byte)
  if kindOf byte = .tableSize then
    return { l with tokens := l.tokens ++ [{ kind := kindOf byte, index }], position }
  else do
    let header ← okOr headers[l.field]? "list index out of range"
    if kindOf byte = .indexed then
      return { tokens := l.tokens ++ [{ kind := kindOf byte, index }], position, field := l.field + 1 }
    else do
      let (name, position) ← nameLiteral block index position
      let (literal, position) ← string block position
      let value := valueToken publicAuthority upstream header.1 header.2 literal
      return { tokens := l.tokens ++ [{ kind := kindOf byte, index, name, value := some value }]
               position, field := l.field + 1 }

/-- `while position < len(block)`; every pass reads an octet. -/
def representationLoop (block : Bytes) (headers : List Header) : (fuel : Nat) → Locals → Res Locals
  | 0, l => .ok l
  | fuel + 1, l =>
    if l.position < block.length then do
      let l ← representation publicAuthority upstream block headers l
      representationLoop block headers fuel l
    else .ok l

def representations (block : Bytes) (headers : List Header) : Res (List Token) := do
  let l ← representationLoop publicAuthority upstream block headers block.length {}
  ensure (l.field = headers.length) "HPACK field count"
  return l.tokens

/-! ## The normal form of HTTP/1.1 -/

def fieldForm (line : Bytes) : Res Bytes := do
  let colon ← okOr (line.findIdx? (· = 58)) ""
  let name := line.take colon
  let raw := line.drop (colon + 1)
  let value := raw.dropWhile isOwsByte
  return name ++ [58] ++ raw.take (raw.length - value.length) ++
    mapped (asciiLower name) value publicAuthority upstream

def headForm (head : Bytes) : Res Str :=
  match splitSeq crlf head with
  | [] => .error .panic
  | first :: lines => do
    ensure ((ascii "GET ").isPrefixOf first = true) "paired lab only accepts bodyless GET"
    let lines ← lines.mapM (fieldForm publicAuthority upstream)
    return lowerHex (crlf.intercalate (first :: lines))

/-- The heads, in hexadecimal. -/
def headForms (data : Bytes) : Res (List Str) := do
  ensure ((crlf ++ crlf).isSuffixOf data = true) "truncated HTTP/1 headers"
  let heads ← (splitSeq (crlf ++ crlf) (data.take (data.length - 4))).mapM
    (headForm publicAuthority upstream)
  ensure (heads.length = 2) "missing HTTP/1 request"
  return heads

/-! ## The normal form of HTTP/2 -/

structure Control where
  kind : UInt8
  flags : UInt8
  stream : UInt32
  payload : Str
deriving DecidableEq, Repr

structure Layout where
  type : UInt8
  flags : UInt8
  length : Int
  prefixHex : Str
  paddingHex : Str
deriving DecidableEq, Repr

structure RequestForm where
  stream : UInt32
  headers : List (Str × Str)
  representations : List Token
  frames : List Layout
deriving DecidableEq, Repr

/-- The lists that a dictionary holds; an entry that is not there is empty. -/
def entry {α : Type} (d : List (UInt32 × List α)) (stream : UInt32) : List α :=
  (d.lookup stream).getD []

/-- `d.pop(stream)` -/
def without {α : Type} (d : List (UInt32 × List α)) (stream : UInt32) : List (UInt32 × List α) :=
  d.filter (·.1 ≠ stream)

/-- `d.setdefault(stream, []).extend(items)` -/
def extended {α : Type} (d : List (UInt32 × List α)) (stream : UInt32) (items : List α) :
    List (UInt32 × List α) :=
  (stream, entry d stream ++ items) :: without d stream

/-- The locals of `normalize`; the frames are read beforehand. -/
structure Capture (H : HpackModule) where
  decoder : H.Decoder
  controls : List Control := []
  requests : List RequestForm := []
  blocks : List (UInt32 × Bytes) := []
  layouts : List (UInt32 × List Layout) := []

/-- `layout[-1]["length"] -= len(block)` -/
def lastShorter (layout : List Layout) (size : Nat) : List Layout :=
  layout.dropLast ++ (layout.getLast?.map fun last => { last with length := last.length - size }).toList

variable {H : HpackModule}

/-- `if flags & 4` -/
def request (c : Capture H) (stream : UInt32) : Res (Capture H) := do
  let block := entry c.blocks stream
  let (headers, decoder) ← okOr (H.decode c.decoder block) "HPACKError"
  let tokens ← representations publicAuthority upstream block headers
  return { c with
    decoder
    requests := c.requests ++ [{
      stream
      headers := headers.map fun h =>
        (lowerHex h.1, lowerHex (mapped h.1 h.2 publicAuthority upstream))
      representations := tokens
      frames := lastShorter (entry c.layouts stream) block.length }]
    blocks := without c.blocks stream
    layouts := without c.layouts stream }

def paddingOf (frame : H2.Frame) : Res Nat :=
  if frame.kind = 1 ∧ H2.isPadded frame.flags then do
    return (← byteAt frame.payload 0).toNat
  else .ok 0

def prefixOf (frame : H2.Frame) : Nat :=
  if frame.kind = 1 then
    (if H2.isPadded frame.flags then 1 else 0) + if H2.hasPriority frame.flags then 5 else 0
  else 0

def headerFrame (c : Capture H) (frame : H2.Frame) : Res (Capture H) := do
  let size := frame.payload.length
  let padding ← paddingOf frame
  ensure (prefixOf frame + padding ≤ size) ""
  let fragment := (frame.payload.take (size - padding)).drop (prefixOf frame)
  let layout : Layout := {
    type := frame.kind
    flags := frame.flags
    length := size
    prefixHex := lowerHex (frame.payload.take (prefixOf frame))
    paddingHex := if padding ≠ 0 then lowerHex (frame.payload.drop (size - padding)) else [] }
  let c := { c with
    blocks := extended c.blocks frame.stream fragment
    layouts := extended c.layouts frame.stream [layout] }
  if H2.endsHeaders frame.flags then request publicAuthority upstream c frame.stream else return c

/-- One pass of the loop. -/
def frameStep (c : Capture H) (frame : H2.Frame) : Res (Capture H) :=
  let c := if (frame.kind = 4 ∨ frame.kind = 2 ∨ frame.kind = 8) ∧
      ¬ (frame.kind = 4 ∧ frame.flags &&& 1 ≠ 0) then
    { c with controls := c.controls ++
        [⟨frame.kind, frame.flags, frame.stream, lowerHex frame.payload⟩] }
  else c
  if frame.kind ≠ 1 ∧ frame.kind ≠ 9 then do
    ensure (frame.kind ≠ 0) "unexpected request body"
    return c
  else headerFrame publicAuthority upstream c frame

variable (H) in
def frameForms (data : Bytes) : Res (Capture H) := do
  ensure (H2.PREFACE.isPrefixOf data = true) "missing HTTP/2 preface"
  let frames ← okOr (Parser.all H2.Frame.parse (data.drop H2.PREFACE.length)) "truncated frame"
  let c ← frames.foldlM (frameStep publicAuthority upstream) { decoder := H.new }
  ensure (c.blocks = [] ∧ c.requests.length = 2) "incomplete HTTP/2 requests"
  return c

/-! ## The comparison -/

inductive Normal where
  | http1 (requests : List Str)
  | h2 (controls : List Control) (requests : List RequestForm)
deriving DecidableEq, Repr

variable (H) in
def normalize (data : Bytes) (protocol : String) : Res Normal :=
  if protocol = "http/1.1" then do
    return .http1 (← headForms publicAuthority upstream data)
  else do
    ensure (protocol = "h2") "missing HTTP/2 preface"
    let c ← frameForms publicAuthority upstream H data
    return .h2 c.controls c.requests

end

/-- One side of the connection. -/
structure Side where
  truncated : Bool := false
  bytes : Bytes

structure Document where
  protocol : String
  inbound : Side
  outbound : Side

structure Verdict where
  pass : Bool
  inbound : Normal
  outbound : Normal
deriving DecidableEq, Repr

def compare (H : HpackModule) (document : Document) (publicAuthority upstream : Str) :
    Res Verdict := do
  ensure (document.inbound.truncated = false ∧ document.outbound.truncated = false)
    "truncated HTTP capture"
  let left ← normalize (utf8 publicAuthority) (utf8 upstream) H document.inbound.bytes
    document.protocol
  let right ← normalize (utf8 publicAuthority) (utf8 upstream) H document.outbound.bytes
    document.protocol
  return { pass := left = right, inbound := left, outbound := right }

end PairedHttp
