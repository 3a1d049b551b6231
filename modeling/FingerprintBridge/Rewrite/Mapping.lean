import FingerprintBridge.Lib.Text
import FingerprintBridge.Lib.Lines

/-!
# `src/rewrite.rs`: mapping selected field values

A `Mapping` translates between the public authority B and the upstream
authority A.  Only a few field values change (`Mapping.value`); an HTTP/1.1 head
is rewritten line by line (`Mapping.h1Head`), its spelling, order and white
space kept.

`url::Url::parse` is a parameter, the `UrlCrate`, with what the code relies on.
-/

/-! ## The `url` crate -/

/-- What `authority` asks a parsed URL for. -/
structure Url where
  hostStr : Option Str
  portOrKnownDefault : Option UInt16
deriving DecidableEq, Repr

/-- `url::Url::parse`, with the facts of the WHATWG URL standard used here: an
`https` URL has a known port and cannot have an empty host, and a serialized
host has no control character and no blank. -/
structure UrlCrate where
  parse : Str → Option Url
  known_port : ∀ s u, parse ("https://".toList ++ s) = some u → u.portOrKnownDefault.isSome
  empty_host : parse "https:///".toList = none
  host_printable : ∀ s u h, parse s = some u → u.hostStr = some h →
    ∀ c ∈ h, 32 < c.toNat ∧ c.toNat ≠ 127

section
variable (U : UrlCrate)

def unwrap {α : Type} : Option α → Res α
  | some a => .ok a
  | none => .error .panic

def authority (s : Str) : Res (Str × UInt16) := do
  ensure (s.all (fun c => c.toNat < 128)
      && !s.any (fun c => c.toNat ≤ 32 || c.toNat = 127)
      && !s.any (fun c => c = '/' || c = '?' || c = '#' || c = '@'))
    "invalid authority"
  match U.parse ("https://".toList ++ s ++ ['/']) with
  | none => .error (.err "invalid URL")
  | some u => do
    ensure u.hostStr.isSome "missing host"
    let host ← unwrap u.hostStr
    let port ← unwrap u.portOrKnownDefault
    return (strLower host, port)

/-- The two authorities as configured, and as `authority` reads them; `new` is
the only constructor (`public` is a keyword of Lean). -/
structure Mapping where
  publicAuthority : Str
  upstream : Str
  publicHost : Str
  upstreamHost : Str
  publicPort : UInt16
  upstreamPort : UInt16
  public_ok : authority U publicAuthority = .ok (publicHost, publicPort)
  upstream_ok : authority U upstream = .ok (upstreamHost, upstreamPort)

end

namespace Mapping

variable {U : UrlCrate}

def new (U : UrlCrate) (publicAuthority upstream : Str) : Res (Mapping U) :=
  match hp : authority U publicAuthority with
  | .error e => .error e
  | .ok (publicHost, publicPort) =>
    match hu : authority U upstream with
    | .error e => .error e
    | .ok (upstreamHost, upstreamPort) =>
      .ok { publicAuthority, upstream, publicHost, upstreamHost, publicPort, upstreamPort,
            public_ok := hp, upstream_ok := hu }

variable (m : Mapping U)

/-- `authority(s).is_ok_and(|x| x == expected)`. -/
def denotes (U : UrlCrate) (s : Str) (expected : Str × UInt16) : Res Bool :=
  match authority U s with
  | .ok x => .ok (x == expected)
  | .error (.err _) => .ok false
  | .error .panic => .error .panic

def isPublic (s : Str) : Res Bool := denotes U s (m.publicHost, m.publicPort)

/-- Where the authority begins: after `https://` or `//`. -/
def urlBegin (s : Str) : Option Nat :=
  if "https://".toList.isPrefixOf s then some 8
  else if "//".toList.isPrefixOf s then some 2
  else none

def isUrlDelimiter (c : Char) : Bool := c = '/' || c = '?' || c = '#'

def mapUrl (s : Str) (response : Bool) : Res Str :=
  match urlBegin s with
  | none => .ok s
  | some start => do
    let stop := match (s.drop start).findIdx? isUrlDelimiter with
      | some n => start + n
      | none => s.length
    let expected := if response then (m.upstreamHost, m.upstreamPort)
      else (m.publicHost, m.publicPort)
    if ← denotes U ((s.drop start).take (stop - start)) expected then
      return s.take start ++ (if response then m.publicAuthority else m.upstream) ++ s.drop stop
    else return s

/-- One `;`-separated attribute of a `Set-Cookie` value. -/
def cookieAttribute (part : Str) : Str :=
  match part.findIdx? (· = '=') with
  | none => part
  | some eq =>
    if strEqIgnoreCase (trim isWhitespace (part.take eq)) "domain".toList then
      let raw := part.drop (eq + 1)
      let v := trim isWhitespace raw
      if strEqIgnoreCase (trimStart (· = '.') v) m.upstreamHost then
        let ws := raw.length - (trimStart isWhitespace raw).length
        let tail := (trimEnd isWhitespace raw).length
        part.take (eq + 1) ++ raw.take ws ++ (if v.head? = some '.' then ['.'] else []) ++
          m.publicHost ++ raw.drop tail
      else part
    else part

/-- Only cookie attributes change, never the first `name=value` pair. -/
def setCookie (trimmed : Str) : Str :=
  match trimmed.splitOn ';' with
  | [] => []
  | first :: parts => first ++ parts.flatMap fun part => ';' :: m.cookieAttribute part

/-- The fields whose values are mapped, by direction. -/
def relevant (lower : Bytes) (response : Bool) : Bool :=
  if response then lower == ascii "set-cookie" || lower == ascii "location"
  else lower == ascii "host" || lower == ascii ":authority" || lower == ascii "origin" ||
    lower == ascii "referer"

def mapTrimmed (lower : Bytes) (trimmed : Str) (response : Bool) : Res Str :=
  if lower == ascii "host" || lower == ascii ":authority" then do
    let ok ← m.isPublic trimmed
    ensure (ok = true) "authority does not match configured B"
    return m.upstream
  else if lower == ascii "origin" || lower == ascii "referer" || lower == ascii "location" then
    m.mapUrl trimmed response
  else if lower == ascii "set-cookie" then .ok (m.setCookie trimmed)
  else .error .panic

def value (name value : Bytes) (response : Bool) : Res Bytes :=
  let lower := asciiLower name
  if !relevant lower response then .ok value
  else do
    let s ← fromUtf8 value
    let leading := s.length - (trimStart isOws s).length
    let stop := (trimEnd isOws s).length
    ensure (leading ≤ stop) "empty mapped header"
    let mapped ← m.mapTrimmed lower ((s.drop leading).take (stop - leading)) response
    return utf8 (s.take leading ++ mapped ++ s.drop stop)

/-! ## HTTP/1.1 heads -/

/-- `c.is_ascii_alphanumeric()`, or one of the marks an RFC 9110 token may have. -/
def isTokenByte (c : UInt8) : Bool :=
  (48 ≤ c.toNat && c.toNat ≤ 57) || (65 ≤ c.toNat && c.toNat ≤ 90) ||
  (97 ≤ c.toNat && c.toNat ≤ 122) ||
  [33, 35, 36, 37, 38, 39, 42, 43, 45, 46, 94, 95, 96, 124, 126].contains c.toNat

/-- A field line, without its line end. -/
def h1Field (line : Bytes) (response : Bool) : Res Bytes := do
  ensure (line.head? ≠ some 32 ∧ line.head? ≠ some 9) "obs-fold unsupported"
  match line.findIdx? (· = 58) with
  | none => .error (.err "invalid header")
  | some colon => do
    let name := line.take colon
    ensure (name ≠ [] ∧ name.all isTokenByte = true) "invalid header name"
    let v ← m.value name (line.drop (colon + 1)) response
    return line.take (colon + 1) ++ v ++ crlf

/-- The name of a field line is `Host`. -/
def isHostLine (line : Bytes) : Bool :=
  match line.findIdx? (· = 58) with
  | none => false
  | some colon => eqIgnoreCase (line.take colon) (ascii "host")

/-- The lines after the first: what is written for them, and the `Host` fields seen. -/
def h1Lines (response : Bool) : List Bytes → Res (Bytes × Nat)
  | [] => .ok ([], 0)
  | line :: lines =>
    if line = [] then .ok ([], 0)
    else do
      ensure (line.getLast? = some 13) "bare LF"
      let line := line.dropLast
      if line = [] then return (crlf, 0)
      else do
        let out ← m.h1Field line response
        let (rest, hosts) ← h1Lines response lines
        return (out ++ rest, (if isHostLine line then 1 else 0) + hosts)

/-- Changes only selected field values. -/
def h1Head (head : Bytes) (response : Bool) : Res Bytes := do
  ensure ((crlf ++ crlf).isSuffixOf head = true) "invalid HTTP head"
  match head.splitOn 10 with
  | [] => .error .panic
  | first :: lines => do
    let (out, hosts) ← m.h1Lines response lines
    ensure (response = true ∨ hosts = 1) "exactly one Host is required"
    return first ++ [10] ++ out

end Mapping

/-! ## A crate to run the model with -/

/-- Lower-case dotted names with an optional port; everything else is refused. -/
def parseDotted (s : Str) : Option Url :=
  let auth := (s.drop 8).takeWhile (· ≠ '/')
  let host := auth.takeWhile (· ≠ ':')
  let digits := auth.drop (host.length + 1)
  let port := digits.foldl (fun n c => 10 * n + (c.toNat - 48)) 0
  if "https://".toList.isPrefixOf s ∧ host ≠ [] ∧ host.all (fun c => c.isLower || c = '.') ∧
      digits.all Char.isDigit ∧ port < 65536 then
    some { hostStr := some host,
           portOrKnownDefault := some (if digits = [] then 443 else UInt16.ofNat port) }
  else none

def dottedCrate : UrlCrate where
  parse := parseDotted
  known_port := by
    intro s u h
    unfold parseDotted at h
    simp only at h
    split at h
    · cases h; rfl
    · cases h
  empty_host := by decide
  host_printable := by
    intro s u host h hh c hc
    unfold parseDotted at h
    simp only at h
    split at h
    · next hp =>
      cases h
      cases hh
      have hl := List.all_eq_true.1 hp.2.2.1 c hc
      rw [Bool.or_eq_true, decide_eq_true_eq] at hl
      rcases hl with hl | rfl
      · have := isLower_range c hl
        omega
      · decide
    · cases h

/-- B is `b.test:8443`, A is `a.test:9443`. -/
def sampleMapping : Mapping dottedCrate where
  publicAuthority := "b.test:8443".toList
  upstream := "a.test:9443".toList
  publicHost := "b.test".toList
  upstreamHost := "a.test".toList
  publicPort := 8443
  upstreamPort := 9443
  public_ok := by decide
  upstream_ok := by decide
