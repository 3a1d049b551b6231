import FingerprintBridge.Lib.Buffered
import FingerprintBridge.Rewrite.Facts

/-!
# `src/h1.rs`: lines, heads, framing and bodies

The client or the server is read piece by piece, as `fill_buf` gives them.  A read
or a write that fails only ends the run and is left out.

`MAX_HEAD` is a parameter of what reads with it, so that a second reading can do
without the limit.
-/

namespace H1

def MAX_HEAD : Nat := 64 * 1024

/-- What a message loop works on.  `channel` are the flags sent to the other task,
or those still to come from it. -/
abbrev Conn := Duplex (List Bool)

/-! ## Lines -/

/-- `r.consume(n)`, with `n` at most the length of the current piece. -/
def consume (n : Nat) : List Bytes → List Bytes
  | [] => []
  | b :: reader => b.drop n :: reader

/-- The loop of `line`: piece after piece, up to and including the first LF. -/
def lineLoop (limit : Nat) : (out : Bytes) → List Bytes → Res (Bytes × List Bytes)
  | out, [] => do
    ensure (out = []) "truncated line"
    return (out, [])
  | out, b :: reader =>
    match b.findIdx? (· = 10) with
    | none => do
      ensure (out.length + b.length ≤ limit) "line limit exceeded"
      lineLoop limit (out ++ b) reader
    | some i => do
      let n := i + 1
      ensure (out.length + n ≤ limit) "line limit exceeded"
      let out := out ++ b.take n
      ensure ((crlf).isSuffixOf out = true) "bare LF unsupported"
      return (out, consume n (b :: reader))

def line (limit : Nat) : Act Conn Bytes := fun st =>
  match lineLoop limit [] st.reader with
  | .ok (l, reader) => .ok l { st with reader := reader }
  | .error e => .error e st

/-! ## Heads -/

/-- The loop of `head`.  Every line has two octets at least, so `fuel` is never used
up when it exceeds `maxHead`. -/
def headLoop (maxHead : Nat) : (fuel : Nat) → (out : Bytes) → Act Conn Bytes
  | 0, out => pure out
  | fuel + 1, out => do
    let room ← checkedSub maxHead out.length
    let l ← line room
    if l = [] then do
      ensure (out = []) "truncated head"
      return out
    else if l = crlf then return out ++ l
    else headLoop maxHead fuel (out ++ l)

def head (maxHead : Nat) : Act Conn Bytes := headLoop maxHead (maxHead + 1) []

/-! ## Framing -/

inductive Body where
  | empty
  | length (n : Nat)
  | chunked
  | untilEof
deriving DecidableEq, Repr

/-- The number that ASCII digits denote. -/
def decimal (s : Str) : Nat := s.foldl (fun n c => 10 * n + (c.toNat - 48)) 0

/-- `value.parse::<u64>()`, of ASCII digits. -/
def parseU64 (value : Str) : Res Nat := do
  let n := decimal value
  ensure (n < 2 ^ 64) "number too large to fit in target type"
  return n

/-- The locals `length` and `te`. -/
structure Lengths where
  length : Option Nat
  te : Option Str
deriving DecidableEq, Repr

def isFramingName (name : Bytes) : Bool :=
  eqIgnoreCase name (ascii "content-length") || eqIgnoreCase name (ascii "transfer-encoding") ||
    eqIgnoreCase name (ascii "upgrade")

def contentLength (acc : Lengths) (name : Bytes) (value : Str) : Res Lengths :=
  if eqIgnoreCase name (ascii "content-length") then do
    ensure (acc.length = none ∧ value ≠ [] ∧ value.all Char.isDigit = true)
      "ambiguous Content-Length"
    return { acc with length := some (← parseU64 value) }
  else .ok acc

def transferEncoding (acc : Lengths) (name : Bytes) (value : Str) : Res Lengths :=
  if eqIgnoreCase name (ascii "transfer-encoding") then do
    ensure (acc.te = none) "duplicate Transfer-Encoding"
    return { acc with te := some (strLower value) }
  else .ok acc

/-- One line of the loop, a field if it has a colon. -/
def framingLine (acc : Lengths) (line : Bytes) : Res Lengths :=
  match line.findIdx? (· = 58) with
  | none => .ok acc
  | some p =>
    let name := line.take p
    if isFramingName name then do
      let s ← fromUtf8 (line.drop (p + 1))
      let value := trim isWhitespace s
      let acc ← contentLength acc name value
      let acc ← transferEncoding acc name value
      ensure (eqIgnoreCase name (ascii "upgrade") = false) "HTTP upgrade is unsupported"
      return acc
    else .ok acc

def framingLines : (acc : Lengths) → List Bytes → Res Lengths
  | acc, [] => .ok acc
  | acc, line :: lines => do
    let acc ← framingLine acc line
    framingLines acc lines

/-- The body the fields announce. -/
def bodyKind (acc : Lengths) (response noBody : Bool) : Res Body := do
  ensure (acc.length = none ∨ acc.te = none) "CL+TE is rejected"
  if noBody then return .empty
  else match acc.te with
    | some te => do
      ensure (te = "chunked".toList) "unsupported transfer coding"
      return .chunked
    | none => match acc.length with
      | some n => return .length n
      | none => return if response then .untilEof else .empty

def framing (head : Bytes) (response noBody : Bool) : Res Body := do
  let acc ← framingLines { length := none, te := none } ((head.splitOn 10).drop 1)
  bodyKind acc response noBody

/-! ## Bodies -/

/-- The next `n` octets, or all there are, and the pieces after them. -/
def takeOctets : (n : Nat) → List Bytes → Bytes × List Bytes
  | _, [] => ([], [])
  | n, b :: reader =>
    if n ≤ b.length then (b.take n, b.drop n :: reader)
    else
      let r := takeOctets (n - b.length) reader
      (b ++ r.1, r.2)

/-- Copy `n` octets; what there is is written also when it is too little. -/
def exact (n : Nat) : Act Conn Unit := fun st =>
  let r := takeOctets n st.reader
  let st := { st with reader := r.2, output := st.output ++ r.1 }
  if r.1.length = n then .ok () st else .error (.err "truncated body") st

/-- `read_exact` of two octets. -/
def readTwo : Act Conn Bytes := fun st =>
  let r := takeOctets 2 st.reader
  if r.1.length = 2 then .ok r.1 { st with reader := r.2 } else .error (.err "early eof") st

def isHexDigit (c : UInt8) : Bool :=
  (48 ≤ c.toNat && c.toNat ≤ 57) || (65 ≤ c.toNat && c.toNat ≤ 70) ||
  (97 ≤ c.toNat && c.toNat ≤ 102)

def hexValue (c : UInt8) : Nat :=
  if c.toNat ≤ 57 then c.toNat - 48 else if c.toNat ≤ 70 then c.toNat - 55 else c.toNat - 87

/-- The size in a chunk line, up to an extension or the line end. -/
def chunkSize (l : Bytes) : Res Nat := do
  let size := l.takeWhile fun c => c ≠ 59 && c ≠ 13
  ensure (size ≠ [] ∧ size.all isHexDigit = true) "invalid chunk size"
  let n := size.foldl (fun n c => 16 * n + hexValue c) 0
  ensure (n < 2 ^ 64) "number too large to fit in target type"
  return n

/-- The trailer after the last chunk, `total` octets of which were read. -/
def trailer (maxHead : Nat) : (fuel : Nat) → (total : Nat) → Act Conn Unit
  | 0, _ => pure ()
  | fuel + 1, total => do
    let room ← checkedSub maxHead total
    let l ← line room
    ensure (l ≠ []) "truncated trailer"
    write l
    if l = crlf then pure () else trailer maxHead fuel (total + l.length)

/-- One chunk: its line, and unless it is the last its octets and their end.  Whether
there is another. -/
def chunk : Act Conn Bool := do
  let l ← line 8192
  ensure (l ≠ []) "truncated chunk"
  let n ← chunkSize l
  write l
  if n = 0 then return false
  else do
    exact n
    let stop ← readTwo
    ensure (stop = crlf) "invalid chunk terminator"
    write stop
    return true

/-- The chunks and the trailer.  A chunk has three octets at least, so `fuel` is never
used up when it exceeds the octets to come. -/
def chunks (maxHead : Nat) : (fuel : Nat) → Act Conn Unit
  | 0 => pure ()
  | fuel + 1 => do
    if ← chunk then chunks maxHead fuel
    else trailer maxHead (maxHead + 1) 0

/-- `copy` to the end of the stream. -/
def copyAll : Act Conn Unit :=
  modify fun st => { st with reader := [], output := st.output ++ st.reader.flatten }

def body (maxHead : Nat) : Body → Act Conn Unit
  | .empty => pure ()
  | .length n => exact n
  | .untilEof => copyAll
  | .chunked => do
    let reader ← getReader
    chunks maxHead (reader.flatten.length + 1)

/-! ## The loops of `bridge` -/

section
variable {U : UrlCrate} (m : Mapping U)

/-- The method, if the request line is one the bridge takes. -/
def requestLine (h : Bytes) : Res Str :=
  match h.splitOn 10 with
  | [] => .error .panic
  | first :: _ => do
    let s ← fromUtf8 first
    match (trimEnd isWhitespace s).splitOn ' ' with
    | [method, target, version] => do
      ensure (version = "HTTP/1.1".toList) "only HTTP/1.1 origin-form supported"
      ensure (method ≠ "CONNECT".toList ∧ (target.head? = some '/' ∨ target = "*".toList))
        "unsupported request target"
      return method
    | _ => .error (.err "only HTTP/1.1 origin-form supported")

/-- `tx.send(..)`; `accepts` says whether the other task still listens. -/
def send (accepts : Nat → Bool) (isHead : Bool) : Act Conn Unit := fun st =>
  if accepts st.channel.length then .ok () { st with channel := st.channel ++ [isHead] }
  else .error (.err "response direction closed") st

/-- The checks on a request, and the head to forward. -/
def checkRequest (h : Bytes) : Res (Str × Body × Bytes) := do
  let method ← requestLine h
  let kind ← framing h false false
  let rewritten ← m.h1Head h false
  return (method, kind, rewritten)

/-- One pass of the request loop: whether there was a request. -/
def request (accepts : Nat → Bool) : Act Conn Bool := do
  let h ← head MAX_HEAD
  if h = [] then return false
  else do
    let (method, kind, rewritten) ← checkRequest m h
    send accepts (method = "HEAD".toList)
    write rewritten
    body MAX_HEAD kind
    return true

/-- A pass reads two octets at least. -/
def requestLoop (accepts : Nat → Bool) : (fuel : Nat) → Act Conn Unit
  | 0 => pure ()
  | fuel + 1 => do
    if ← request m accepts then requestLoop accepts fuel else pure ()

def requests (accepts : Nat → Bool) : Act Conn Unit := do
  let reader ← getReader
  requestLoop m accepts (reader.flatten.length + 1)

/-- The status code: the second of the space-separated words of the status line. -/
def statusCode (h : Bytes) : Res Nat :=
  match h.splitOn 10 with
  | [] => .error .panic
  | first :: _ => do
    let s ← fromUtf8 first
    let word ← okOr ((s.splitOn ' ')[1]?) "invalid status"
    -- `parse::<u16>()` takes an optional plus sign
    let digits := if word.head? = some '+' then word.drop 1 else word
    ensure (digits ≠ [] ∧ digits.all Char.isDigit = true) "invalid digit found in string"
    let n := decimal digits
    ensure (n < 2 ^ 16) "number too large to fit in target type"
    return n

/-- What the status says of a response to a request that was `isHead`. -/
def noBody (isHead : Bool) (status : Nat) : Bool :=
  isHead || (100 ≤ status && status < 200) || status = 204 || status = 304

/-- How the loop goes on after a response. -/
inductive Next where
  | interim
  | final
  | eof
deriving DecidableEq, Repr

/-- The checks on a response, and the head to forward. -/
def checkResponse (isHead : Bool) (h : Bytes) : Res (Next × Body × Bytes) := do
  ensure (h ≠ []) "upstream closed before response"
  let status ← statusCode h
  ensure (status ≠ 101) "upgrade unsupported"
  let kind ← framing h true (noBody isHead status)
  let rewritten ← m.h1Head h true
  let next := if kind = .untilEof then .eof
    else if 100 ≤ status ∧ status < 200 then .interim else .final
  return (next, kind, rewritten)

/-- One response. -/
def response (isHead : Bool) : Act Conn Next := do
  let h ← head MAX_HEAD
  let (next, kind, rewritten) ← checkResponse m isHead h
  write rewritten
  body MAX_HEAD kind
  return next

/-- The responses to one request, interim ones first: whether the loop goes on. -/
def responsesTo (isHead : Bool) : (fuel : Nat) → Act Conn Bool
  | 0 => pure false
  | fuel + 1 => do
    match ← response m isHead with
    | .interim => responsesTo isHead fuel
    | .final => pure true
    | .eof => pure false

/-- `rx.recv()` -/
def receive : Act Conn (Option Bool) := fun st =>
  match st.channel with
  | [] => .ok none st
  | isHead :: channel => .ok (some isHead) { st with channel := channel }

/-- The response loop; `fuel` is the number of flags to come. -/
def responseLoop : (fuel : Nat) → Act Conn Unit
  | 0 => pure ()
  | fuel + 1 => do
    match ← receive with
    | none => pure ()
    | some isHead => do
      let reader ← getReader
      if ← responsesTo m isHead (reader.flatten.length + 1) then responseLoop fuel else pure ()

def responses : Act Conn Unit := fun st => responseLoop m (st.channel.length + 1) st

end

end H1
