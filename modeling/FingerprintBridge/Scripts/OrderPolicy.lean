import FingerprintBridge.Hpack.DynamicTable
import FingerprintBridge.Lib.Json
import FingerprintBridge.Lib.StableSort
import FingerprintBridge.Lib.Text
import FingerprintBridge.Tls.Hello

/-!
# `scripts/order_policy.py`: the order form of a captured HTTP/2 connection

The lab compares a connection through the bridge with a direct one, and allows
the headers of a request to stand in another order.  `http_order_form` replaces
each header block by a form without that order.  `HpackOrderProof.block` walks
the block and notes of each field its kind, its literals and what it refers to:
a dynamic index becomes the tag of the insertion it points at, and the fields
are sorted by name.

The `hpack` package and SHA-256 are parameters.  A Python exception is an error,
whatever its class.
-/

namespace OrderPolicy

/-- `hpack.Decoder`; `decode` is called with `raw=True` and returns octets. -/
structure HpackModule where
  Decoder : Type
  new : Decoder
  decode : Decoder → Bytes → Option (List Header × Decoder)
  /-- `header_table.dynamic_entries`, newest first -/
  dynamicEntries : Decoder → List Header

/-! ## `bytes.fromhex` -/

def isSpace (c : Char) : Bool := c = ' ' || (9 ≤ c.toNat && c.toNat ≤ 13)

/-- A hexadecimal digit, in either case. -/
def digitValue (c : Char) : Option Nat :=
  if '0' ≤ c ∧ c ≤ '9' then some (c.toNat - '0'.toNat)
  else if 'a' ≤ c ∧ c ≤ 'f' then some (c.toNat - 'a'.toNat + 10)
  else if 'A' ≤ c ∧ c ≤ 'F' then some (c.toNat - 'A'.toNat + 10)
  else none

/-- Whitespace may stand between the octets. -/
def fromhex : Str → Option Bytes
  | [] => some []
  | c :: s =>
    if isSpace c then fromhex s
    else match s with
      | [] => none
      | d :: s => do
        let hi ← digitValue c
        let lo ← digitValue d
        return UInt8.ofNat (16 * hi + lo) :: (← fromhex s)

/-! ## Integers and strings -/

/-- `while True`: the octets after a full prefix. -/
def integerLoop (data : Bytes) (value position shift : Nat) : Res (Nat × Nat) :=
  if shift ≤ 56 then do
    let byte ← byteAt data position
    let value := value + (byte &&& 127).toNat <<< shift
    if byte &&& 128 = 0 then return (value, position + 1)
    else integerLoop data value (position + 1) (shift + 7)
  else .error (.err "oversized HPACK integer")
termination_by 63 - shift

/-- `while remaining >= 128` -/
def encodedLoop (remaining : Nat) : Bytes :=
  if 128 ≤ remaining then UInt8.ofNat (remaining &&& 127 ||| 128) :: encodedLoop (remaining >>> 7)
  else [UInt8.ofNat remaining]
termination_by remaining
decreasing_by rw [Nat.shiftRight_eq_div_pow]; omega

/-- `encoded`: the shortest form of an integer. -/
def encoded (high : UInt8) (value mask : Nat) : Bytes :=
  (high ||| UInt8.ofNat (min value mask)) ::
    if mask ≤ value then encodedLoop (value - mask) else []

/-- The value of the integer whose first octet is `byte`, and where it ends. -/
def integerValue (data : Bytes) (byte : UInt8) (mask position : Nat) : Res (Nat × Nat) :=
  if byte.toNat &&& mask = mask then integerLoop data mask (position + 1) 0
  else .ok (byte.toNat &&& mask, position + 1)

/-- The integer at `position`, and where it ends. -/
def integer (data : Bytes) (position bits : Nat) : Res (Nat × Nat) := do
  let mask := 2 ^ bits - 1
  let byte ← byteAt data position
  let high := byte &&& ~~~UInt8.ofNat mask
  let (value, stop) ← integerValue data byte mask position
  let octets ← slice data position stop
  ensure (octets = encoded high value mask) "nonminimal HPACK integer is not order variance"
  return (value, stop)

/-- A string literal in hexadecimal: its Huffman flag, its length and its octets. -/
def string (data : Bytes) (position : Nat) : Res (Str × Nat) := do
  let (size, start) ← integer data position 7
  ensure (start + size ≤ data.length) "truncated HPACK string"
  return (Tls.lowerHex (← slice data position (start + size)), start + size)

/-! ## The form of a block -/

inductive Kind where
  | indexed
  | incremental
  | tableSize
  | never
  | without
deriving DecidableEq, Repr

/-- An insertion: the header, and how often it had been inserted. -/
structure Tag where
  name : Str
  value : Str
  generation : Nat
deriving DecidableEq, Repr

inductive Reference where
  | index (i : Nat)
  | tag (t : Tag)
deriving DecidableEq, Repr

structure Token where
  kind : Kind
  reference : Reference
  nameWire : Option Str
  valueWire : Option Str
  name : Str
  value : Str
deriving DecidableEq, Repr

structure BlockForm where
  tableUpdates : List Nat
  fields : List Token
deriving DecidableEq, Repr

/-- `self.tags` and `self.generations`, a `Counter`. -/
structure Insertions where
  tags : List Tag
  generations : Str × Str → Nat

structure HpackOrderProof (H : HpackModule) extends Insertions where
  decoder : H.Decoder
  validator : H.Decoder

def bitsOf (byte : UInt8) : Nat :=
  if byte &&& 128 ≠ 0 then 7 else if byte &&& 64 ≠ 0 then 6 else if byte &&& 32 ≠ 0 then 5 else 4

def kindOf (byte : UInt8) : Kind :=
  if bitsOf byte = 7 then .indexed
  else if bitsOf byte = 6 then .incremental
  else if bitsOf byte = 5 then .tableSize
  else if byte &&& 16 ≠ 0 then .never
  else .without

/-- `self.tags[index - 62] if index > 61 else index` -/
def referenceOf (tags : List Tag) (index : Nat) : Res Reference :=
  if 61 < index then do return .tag (← okOr tags[index - 62]? "list index out of range")
  else .ok (.index index)

/-- The literals of a field, and where they end. -/
def literals (block : Bytes) (kind : Kind) (index position : Nat) :
    Res (Option Str × Option Str × Nat) :=
  if kind = .indexed then .ok (none, none, position)
  else if index = 0 then do
    let (name, position) ← string block position
    let (value, position) ← string block position
    return (some name, some value, position)
  else do
    let (value, position) ← string block position
    return (none, some value, position)

/-- `assert len(part) == 1`, and the one header. -/
def single : List Header → Res Header
  | [h] => .ok h
  | _ => .error (.err "")

/-- `if kind == "incremental"`: the insertion gets its tag. -/
def Insertions.remember (s : Insertions) (kind : Kind) (name value : Str) : Insertions :=
  if kind = .incremental then
    let generation := s.generations (name, value) + 1
    { generations := Function.update s.generations (name, value) generation
      tags := ⟨name, value, generation⟩ :: s.tags }
  else s

/-- `self.tags[:n]` -/
def Insertions.keep (s : Insertions) (n : Nat) : Insertions := { s with tags := s.tags.take n }

section
variable {H : HpackModule}

namespace HpackOrderProof

def new (H : HpackModule) : HpackOrderProof H :=
  { decoder := H.new, validator := H.new, tags := [], generations := fun _ => 0 }

/-- The insertions become `ins`, less those the decoder has evicted. -/
def settle (s : HpackOrderProof H) (ins : Insertions) : HpackOrderProof H :=
  { s with toInsertions := ins.keep (H.dynamicEntries s.decoder).length }

/-- `self.decoder.decode(part, raw=True)` -/
def decodePart (s : HpackOrderProof H) (part : Bytes) : Res (List Header × HpackOrderProof H) := do
  let (headers, decoder) ← okOr (H.decode s.decoder part) "HPACKError"
  return (headers, { s with decoder := decoder })

end HpackOrderProof

/-- `self`, and the locals of `block`. -/
structure Locals (H : HpackModule) where
  proof : HpackOrderProof H
  fields : List Token := []
  updates : List Nat := []
  position : Nat := 0

/-- One pass of the loop. -/
def blockPart (block : Bytes) (l : Locals H) : Res (Locals H) := do
  let start := l.position
  let byte ← byteAt block start
  let (index, position) ← integer block start (bitsOf byte)
  let kind := kindOf byte
  if kind = .tableSize then
    let (_, proof) ← l.proof.decodePart (← slice block start position)
    ensure (l.fields = []) "late HPACK table-size update"
    return { l with
      proof := proof.settle proof.toInsertions
      updates := l.updates ++ [index]
      position }
  else
    let reference ← referenceOf l.proof.tags index
    let (nameWire, valueWire, position) ← literals block kind index position
    let (part, proof) ← l.proof.decodePart (← slice block start position)
    let (name, value) ← single part
    let (name, value) := (Tls.lowerHex name, Tls.lowerHex value)
    let token := { kind, reference, nameWire, valueWire, name, value }
    return { l with
      proof := proof.settle (proof.remember kind name value)
      fields := l.fields ++ [token]
      position }

/-- `while position < len(block)`.  Every pass reads an octet, so `fuel = block.length`
is never used up before the block is (`blockLoop_ok`). -/
def blockLoop (block : Bytes) : (fuel : Nat) → Locals H → Res (Locals H)
  | 0, l => .ok l
  | fuel + 1, l =>
    if l.position < block.length then do blockLoop block fuel (← blockPart block l) else .ok l

def HpackOrderProof.block (s : HpackOrderProof H) (block : Bytes) (headers : List (Str × Str)) :
    Res (BlockForm × HpackOrderProof H) := do
  ensure (block ≠ [] ∧ block.length ≤ 1 <<< 20) "missing or oversized HPACK block"
  let (decoded, validator) ← okOr (H.decode s.validator block) "HPACKError"
  let expected := headers.map fun h => (utf8 h.1, utf8 h.2)
  ensure (decoded = expected) "HPACK bytes do not encode the captured headers"
  let l ← blockLoop block block.length { proof := { s with validator } }
  ensure (H.dynamicEntries l.proof.decoder = H.dynamicEntries l.proof.validator) ""
  return ({ tableUpdates := l.updates, fields := sortedBy Token.name l.fields }, l.proof)

end

/-! ## The form of a capture -/

variable {ν : Type}

/-- A frame of a header block; `others` are the members nothing here reads. -/
structure HeaderFrame (ν : Type) where
  type : Nat
  flags : Nat
  length : Int
  prefixHex : Option Str
  paddingHex : Option Str
  others : Json ν
deriving DecidableEq

structure Request (ν : Type) where
  hpackBlock : Str
  hpackSha256 : Str
  headers : List (Str × Str)
  headerFrames : List (HeaderFrame ν)
  others : Json ν

structure Http (ν : Type) where
  protocol : String
  requests : List (Request ν)
  others : Json ν

/-- A request without `hpack_block` and `hpack_sha256`, and with `hpack_order_proof`. -/
structure RequestForm (ν : Type) where
  hpackOrderProof : BlockForm
  headers : List (Str × Str)
  headerFrames : List (HeaderFrame ν)
  others : Json ν
deriving DecidableEq

structure OrderForm (ν : Type) where
  protocol : String
  requests : List (RequestForm ν)
  others : Json ν
deriving DecidableEq

/-- `len(bytes.fromhex(frame.get(key, "")))` -/
def hexLength (member : Option Str) : Res Nat := do
  return (← okOr (fromhex (member.getD [])) "non-hexadecimal number").length

/-- How much of a block the frame carries. -/
def fragmentLength (frame : HeaderFrame ν) : Res Int := do
  return frame.length - (← hexLength frame.prefixHex) - (← hexLength frame.paddingHex)

/-- The frames of a block of `size` octets, in which only the length of the last may differ
by the size. -/
def framesForm (frames : List (HeaderFrame ν)) (size : Nat) : Res (List (HeaderFrame ν)) := do
  ensure (frames.head?.any (·.type = 1)) ""
  ensure (∀ frame ∈ frames.tail, frame.type = 9) ""
  ensure (∀ frame ∈ frames.dropLast, frame.flags &&& 4 = 0) ""
  ensure (∀ frame ∈ frames.getLast?, frame.flags &&& 4 ≠ 0) ""
  let lengths ← frames.mapM fragmentLength
  ensure ((∀ n ∈ lengths, 0 ≤ n) ∧ lengths.foldl (· + ·) (0 : Int) = size) "inconsistent frame/block lengths"
  return frames.dropLast ++
    (frames.getLast?.map fun frame => { frame with length := frame.length - size }).toList

section
variable {H : HpackModule} (sha256 : Bytes → Bytes)

/-- One pass of `for request in output["requests"]`. -/
def requestForm (proof : HpackOrderProof H) (request : Request ν) :
    Res (RequestForm ν × HpackOrderProof H) := do
  let block ← okOr (fromhex request.hpackBlock) "non-hexadecimal number"
  ensure (request.hpackSha256 = Tls.lowerHex (sha256 block)) "HPACK digest mismatch"
  let (form, proof) ← proof.block block request.headers
  let frames ← framesForm request.headerFrames block.length
  return ({ hpackOrderProof := form, headers := sortedBy Prod.fst request.headers,
            headerFrames := frames, others := request.others }, proof)

def requestForms (proof : HpackOrderProof H) : List (Request ν) → Res (List (RequestForm ν))
  | [] => .ok []
  | request :: requests => do
    let (form, proof) ← requestForm sha256 proof request
    return form :: (← requestForms proof requests)

variable (H) in
def httpOrderForm (http : Http ν) : Res (OrderForm ν) := do
  ensure (http.protocol = "h2") "HTTP/1 order is not included in this allowance"
  ensure (http.requests.length = 2) "missing/reordered request evidence"
  let requests ← requestForms sha256 (HpackOrderProof.new H) http.requests
  return { protocol := http.protocol, requests := requests, others := http.others }

end

end OrderPolicy
