import FingerprintBridge.Hpack.Representation
import FingerprintBridge.Rewrite.Mapping
import FingerprintBridge.Wire.HuffmanCodes

/-!
# `src/hpack_wire.rs`: rewriting header blocks representation by representation

`HeaderRewriter.rewrite` walks a header block, decodes each representation with
the inbound decoder, maps the value, and writes a representation that means the
mapped header to a receiver whose dynamic table is `outbound`.  The two tables
can evict different entries when a mapped value has another length.

`hpack::Decoder` is a parameter, the `HpackCrate`, and with it the static table,
which `static_table` gets from that decoder; what more is assumed of it is stated
where it is used.
-/

namespace HpackWire

def MAX_BLOCK : Nat := 1024 * 1024

/-! ## Integers and strings -/

/-- The loop of `integer`, at `p`, with `n` read so far. -/
def integerLoop (b : Bytes) (p n shift : Nat) : Res (Nat × Nat) :=
  if h : p < b.length ∧ shift ≤ 28 then
    let c := b.get ⟨p, h.1⟩
    let d := (c &&& 127).toNat <<< shift
    -- `checked_add` on a 64-bit `usize`
    if n + d < 2 ^ 64 then
      if c &&& 128 = 0 then .ok (n + d, p + 1) else integerLoop b (p + 1) (n + d) (shift + 7)
    else .error (.err "HPACK overflow")
  else .error (.err "invalid HPACK integer")
termination_by 35 - shift

/-- The integer at `p`, and where it ends. -/
def integer (b : Bytes) (p bits : Nat) : Res (Nat × Nat) := do
  ensure (p < b.length) "truncated HPACK integer"
  let c ← byteAt b p
  let mask := 2 ^ bits - 1
  let n := c.toNat &&& mask
  if n < mask then return (n, p + 1) else integerLoop b (p + 1) n 0

/-- Where the string literal at `p` ends. -/
def skipString (b : Bytes) (p : Nat) : Res Nat := do
  let (n, p) ← integer b p 7
  ensure (n ≤ b.length - p) "truncated HPACK string"
  return p + n

def putIntLoop (n : Nat) : Bytes :=
  if 128 ≤ n then ((UInt8.ofNat n &&& 127) ||| 128) :: putIntLoop (n >>> 7) else [UInt8.ofNat n]
termination_by n
decreasing_by rw [Nat.shiftRight_eq_div_pow]; omega

/-- What `put_int` appends; `lead` are the bits above the prefix. -/
def putInt (n : Nat) (lead : UInt8) (bits : Nat) : Bytes :=
  let max := 2 ^ bits - 1
  if n < max then [lead ||| UInt8.ofNat n]
  else (lead ||| UInt8.ofNat max) :: putIntLoop (n - max)

/-- `while bits >= 8`: the full octets of `buffer`, and the bits left. -/
def drain (buffer : Nat) : Nat → Bytes × Nat
  | bits + 8 =>
    let r := drain buffer bits
    (UInt8.ofNat (buffer >>> bits) :: r.1, r.2)
  | bits => ([], bits)

/-- The octets pushed for the codes of `value`, starting with `bits` pending bits in `buffer`. -/
def encodeLoop : (value : Bytes) → (buffer bits : Nat) → Bytes
  | [], buffer, bits =>
    if bits ≠ 0 then [UInt8.ofNat (buffer <<< (8 - bits)) ||| UInt8.ofNat (0xff >>> bits)] else []
  | c :: value, buffer, bits =>
    let (code, width) := huffmanEntry c
    let buffer := (buffer <<< width ||| code) % 2 ^ 64
    let (octets, bits) := drain buffer (bits + width)
    octets ++ encodeLoop value buffer bits

/-- What `put_string` appends. -/
def putString (value : Bytes) (huffman : Bool) : Bytes :=
  if huffman then
    let encoded := encodeLoop value 0 0
    putInt encoded.length 0x80 7 ++ encoded
  else putInt value.length 0 7 ++ value

/-! ## The outbound table -/

/-- `hpack::Decoder`.  A new one decodes the index of every static entry, `indexed`. -/
structure HpackCrate where
  Decoder : Type
  new : Decoder
  decode : Bytes → Act Decoder (List Header)
  indexed : ∀ i : Fin 61,
    ((Act.value? (decode [0x80 ||| UInt8.ofNat (i.val + 1)]) new).bind List.head?).isSome = true

/-- What the decoder of `D` has for the indices 1 to 61, each from a new decoder:
`.unwrap().remove(0)`. -/
def HpackCrate.staticTable (D : HpackCrate) : List Header :=
  (List.finRange 61).map fun i : Fin 61 =>
    ((Act.value? (D.decode [0x80 ||| UInt8.ofNat (i.val + 1)]) D.new).bind List.head?).get
      (D.indexed i)

/-- The outbound table; its static part is that of `D`. -/
structure Table (D : HpackCrate) where
  entries : List Header
  size : Nat
  limit : Nat
deriving DecidableEq, Repr

namespace Table

variable {D : HpackCrate}

def get (t : Table D) (index : Nat) : Option Header :=
  if index = 0 then none
  else if index ≤ 61 then D.staticTable[index - 1]?
  else t.entries[index - 62]?

/-- `matches`: the name, and the value if one is asked for. -/
def hit (name : Bytes) (value : Option Bytes) (h : Header) : Bool :=
  h.1 == name && (match value with | none => true | some v => h.2 == v)

/-- The preferred slot if it matches, else the first slot that does, else 0. -/
def find (t : Table D) (preferred : Nat) (name : Bytes) (value : Option Bytes) : Nat :=
  if (t.get preferred).any (hit name value) then preferred
  else match (D.staticTable ++ t.entries).findIdx? (hit name value) with
    | some i => i + 1
    | none => 0

/-- `while size > limit`, popping from the end: the entries come oldest first.
An empty table here, or a size that would wrap, is a panic. -/
def evictLoop (limit : Nat) : List Header → Nat → Res (List Header × Nat)
  | [], size => if limit < size then .error .panic else .ok ([], size)
  | (n, v) :: rest, size =>
    if limit < size then
      if n.length + v.length + 32 ≤ size then
        evictLoop limit rest (size - (n.length + v.length + 32))
      else .error .panic
    else .ok ((n, v) :: rest, size)

def evict (t : Table D) : Res (Table D) := do
  let (oldest, size) ← evictLoop t.limit t.entries.reverse t.size
  return { t with entries := oldest.reverse, size := size }

def insert (t : Table D) (h : Header) : Res (Table D) :=
  evict { t with size := t.size + (h.1.length + h.2.length + 32), entries := h :: t.entries }

end Table

/-! ## The rewriter -/

structure HeaderRewriter (D : HpackCrate) where
  inbound : D.Decoder
  outbound : Table D

def HeaderRewriter.new (D : HpackCrate) : HeaderRewriter D :=
  { inbound := D.new, outbound := { entries := [], size := 0, limit := 4096 } }

/-- The locals of `rewrite`. -/
structure Locals where
  out : Bytes := []
  p : Nat := 0
  total : Nat := 0
  authority : Nat := 0
  fields : Bool := false
  regular : Bool := false
  method : Bool := false
deriving DecidableEq, Repr

section
variable {D : HpackCrate} {U : UrlCrate}

/-- `self.inbound.decode(..)`, its error wrapped. -/
def decodeInbound (b : Bytes) : Act (HeaderRewriter D) (List Header) := fun st =>
  match D.decode b st.inbound with
  | .ok hs d => .ok hs { st with inbound := d }
  | .error (.err e) d => .error (.err ("HPACK decode: " ++ e)) { st with inbound := d }
  | .error .panic d => .error .panic { st with inbound := d }

/-- An update of `self.outbound`. -/
def updateOutbound (f : Table D → Res (Table D)) : Act (HeaderRewriter D) Unit := fun st =>
  match f st.outbound with
  | .ok t => .ok () { st with outbound := t }
  | .error e => .error e st

def getOutbound : Act (HeaderRewriter D) (Table D) := fun st => .ok st.outbound st

/-- A dynamic table size update, whose first octet is at `l.p`. -/
def tableUpdate (block : Bytes) (limit : Nat) (l : Locals) : Act (HeaderRewriter D) Locals := do
  ensure (l.fields = false) "HPACK table update after fields"
  let (n, p) ← integer block l.p 5
  ensure (n ≤ min limit 65536) "HPACK table exceeds advertised/configured limit"
  let octets ← slice block l.p p
  let _ ← decodeInbound octets
  updateOutbound fun t => Table.evict { t with limit := n }
  return { l with p := p, out := l.out ++ octets }

/-- `c.is_ascii_uppercase() || c <= 32 || c == 127` -/
def isBadNameByte (c : UInt8) : Bool :=
  (65 ≤ c.toNat && c.toNat ≤ 90) || c.toNat ≤ 32 || c.toNat = 127

/-- CR, LF or NUL. -/
def isBadValueByte (c : UInt8) : Bool := c = 13 || c = 10 || c = 0

/-- The checks on a decoded field, and the flags it leaves. -/
def checkField (l : Locals) (name value : Bytes) : Res Locals := do
  ensure (name ≠ [] ∧ name.any isBadNameByte = false) "invalid HTTP/2 name"
  ensure (value.any isBadValueByte = false) "invalid HTTP/2 value"
  let pseudo := name.head? = some 58
  ensure (pseudo → l.regular = false) "pseudo-header after regular header"
  ensure (name = ascii ":method" → value ≠ ascii "CONNECT") "HTTP/2 CONNECT unsupported"
  return { l with
    regular := if pseudo then l.regular else true
    method := if name = ascii ":method" then true else l.method
    authority := if name = ascii ":authority" then l.authority + 1 else l.authority }

/-! ### One field -/

/-- `c & 0x80 != 0` -/
def isIndexed (c : UInt8) : Bool := c &&& 0x80 ≠ 0

/-- `!indexed && c & 0x40 != 0` -/
def isIncremental (c : UInt8) : Bool := !isIndexed c && c &&& 0x40 ≠ 0

def fieldBits (c : UInt8) : Nat := if isIndexed c then 7 else if isIncremental c then 6 else 4

/-- Where the parts of a field lie in the block, its first octet and its prefix integer. -/
structure FieldSpan where
  c : UInt8
  index : Nat
  start : Nat
  nameStart : Nat
  valueStart : Nat
  stop : Nat

def skipStringIf (cond : Bool) (b : Bytes) (p : Nat) : Res Nat :=
  if cond then skipString b p else .ok p

def scanField (block : Bytes) (c : UInt8) (start : Nat) : Res FieldSpan := do
  let (index, nameStart) ← integer block start (fieldBits c)
  let valueStart ← skipStringIf (!isIndexed c && index == 0) block nameStart
  let stop ← skipStringIf (!isIndexed c) block valueStart
  return { c, index, start, nameStart, valueStart, stop }

/-- `headers.len() == 1`, and the one header. -/
def onlyHeader : List Header → Res Header
  | [h] => .ok h
  | _ => .error (.err "invalid HPACK field")

/-- What is written for an indexed field; `raw` are its octets. -/
def emitIndexed (t : Table D) (raw : Bytes) (index : Nat) (name mapped : Bytes) : Bytes :=
  let target := t.find index name (some mapped)
  if target = index then raw
  else if target ≠ 0 then putInt target 0x80 7
  else
    -- a longer mapped value may have evicted this entry only at the receiver;
    -- no new, unrequested table entry is added
    let target := t.find 0 name none
    putInt target 0 4 ++ (if target = 0 then putString name false else []) ++ putString mapped false

/-- The prefix integer and the name written for a literal. -/
def emitLiteralName (t : Table D) (block : Bytes) (s : FieldSpan) (name : Bytes) : Res Bytes :=
  let target := if s.index = 0 then 0 else t.find s.index name none
  if target = s.index then slice block s.start s.valueStart
  else
    let front := putInt target (s.c &&& if isIncremental s.c then 0xc0 else 0xf0) (fieldBits s.c)
    if target = 0 then
      if s.index = 0 then do return front ++ (← slice block s.nameStart s.valueStart)
      else .ok (front ++ putString name false)
    else .ok front

/-- The value written for a literal. -/
def emitLiteralValue (block : Bytes) (s : FieldSpan) (value mapped : Bytes) : Res Bytes :=
  if mapped = value then slice block s.valueStart s.stop
  else do return putString mapped ((← byteAt block s.valueStart) &&& 0x80 ≠ 0)

def emit (t : Table D) (block raw : Bytes) (s : FieldSpan) (name value mapped : Bytes) : Res Bytes :=
  if isIndexed s.c then .ok (emitIndexed t raw s.index name mapped)
  else do
    let front ← emitLiteralName t block s name
    let back ← emitLiteralValue block s value mapped
    return front ++ back

/-- `if incremental`: the mapped header enters the outbound table. -/
def remember (c : UInt8) (h : Header) (t : Table D) : Res (Table D) :=
  if isIncremental c then t.insert h else .ok t

/-- An indexed field or a literal, whose first octet `c` is at `l.p`. -/
def field (block : Bytes) (m : Mapping U) (response : Bool) (c : UInt8) (l : Locals) :
    Act (HeaderRewriter D) Locals := do
  let s ← scanField block c l.p
  let raw ← slice block s.start s.stop
  let headers ← decodeInbound raw
  let (name, value) ← onlyHeader headers
  let l' ← checkField { l with fields := true } name value
  let mapped ← m.value name value response
  let total := l.total + (name.length + max mapped.length value.length + 32)
  ensure (total ≤ MAX_BLOCK) "decoded headers too large"
  let t ← getOutbound
  let piece ← emit t block raw s name value mapped
  updateOutbound (remember c (name, mapped))
  return { l' with p := s.stop, total := total, out := l.out ++ piece }

/-- One pass of the loop. -/
def rewriteOne (block : Bytes) (m : Mapping U) (response : Bool) (limit : Nat) (l : Locals) :
    Act (HeaderRewriter D) Locals := do
  let c ← byteAt block l.p
  if c &&& 0xe0 = 0x20 then tableUpdate block limit l
  else do
    let l ← field block m response c l
    ensure (l.out.length ≤ MAX_BLOCK) "rewritten header block too large"
    return l

/-- `while p < block.len()`.  Every pass reads an octet, so `fuel = block.length`
is never used up before the block is (`rewriteLoop_done`). -/
def rewriteLoop (block : Bytes) (m : Mapping U) (response : Bool) (limit : Nat) :
    (fuel : Nat) → Locals → Act (HeaderRewriter D) Locals
  | 0, l => pure l
  | fuel + 1, l =>
    if l.p < block.length then do
      let l ← rewriteOne block m response limit l
      rewriteLoop block m response limit fuel l
    else pure l

def rewrite (block : Bytes) (m : Mapping U) (response : Bool) (limit : Nat) :
    Act (HeaderRewriter D) Bytes := do
  ensure (block.length ≤ MAX_BLOCK) "header block too large"
  let l ← rewriteLoop block m response limit block.length {}
  ensure (response = false ∧ l.method = true → l.authority = 1) "exactly one :authority required"
  return l.out

end

/-! ## A decoder to run the model with -/

/-- RFC 7541, Appendix A. -/
def appendixA : List Header :=
  [(":authority", ""), (":method", "GET"), (":method", "POST"), (":path", "/"),
   (":path", "/index.html"), (":scheme", "http"), (":scheme", "https"), (":status", "200"),
   (":status", "204"), (":status", "206"), (":status", "304"), (":status", "400"),
   (":status", "404"), (":status", "500"), ("accept-charset", ""),
   ("accept-encoding", "gzip, deflate"), ("accept-language", ""), ("accept-ranges", ""),
   ("accept", ""), ("access-control-allow-origin", ""), ("age", ""), ("allow", ""),
   ("authorization", ""), ("cache-control", ""), ("content-disposition", ""),
   ("content-encoding", ""), ("content-language", ""), ("content-length", ""),
   ("content-location", ""), ("content-range", ""), ("content-type", ""), ("cookie", ""),
   ("date", ""), ("etag", ""), ("expect", ""), ("expires", ""), ("from", ""), ("host", ""),
   ("if-match", ""), ("if-modified-since", ""), ("if-none-match", ""), ("if-range", ""),
   ("if-unmodified-since", ""), ("last-modified", ""), ("link", ""), ("location", ""),
   ("max-forwards", ""), ("proxy-authenticate", ""), ("proxy-authorization", ""), ("range", ""),
   ("referer", ""), ("refresh", ""), ("retry-after", ""), ("server", ""), ("set-cookie", ""),
   ("strict-transport-security", ""), ("transfer-encoding", ""), ("user-agent", ""), ("vary", ""),
   ("via", ""), ("www-authenticate", "")].map fun e => (ascii e.1, ascii e.2)

/-- RFC 7541 with its two appendices. -/
def rfc7541 : Hpack.Codebook := ⟨appendixA, huffmanCode⟩

/-- The octets of the prefix integer, and of the lengths of the strings. -/
def integerLengths : Hpack.Rep → List Nat
  | .indexed head _ => [head.length]
  | .sizeUpdate head _ => [head.length]
  | .literal _ head name value =>
    [head.length, value.octets.length - value.payload.length] ++
      match name with
      | .index _ => []
      | .text s => [s.octets.length - s.payload.length]

def isSizeUpdate : Hpack.Rep → Bool
  | .sizeUpdate _ _ => true
  | _ => false

/-- The decoder of RFC 7541 with the limits of `hpack` 0.3.0: integers of at most
five octets, and no result for a longer one in a size update. -/
def boundedDecode (b : Bytes) : Act Hpack.DynamicTable (List Header) := fun t =>
  match Parser.all Hpack.rep b with
  | none => .error (.err "NotEnoughOctets") t
  | some rs =>
    if rs.any fun r => (integerLengths r).any (5 < ·) then
      .error (if rs.any isSizeUpdate then .panic else .err "TooManyOctets") t
    else match Hpack.decodeReps rfc7541 t rs with
      | some (hs, t') => .ok hs t'
      | none => .error (.err "HeaderIndexOutOfBounds") t

def boundedCrate : HpackCrate where
  Decoder := Hpack.DynamicTable
  new := .init
  decode := boundedDecode
  indexed := by decide +kernel

end HpackWire
