import FingerprintBridge.Fingerprint.Evidence
import FingerprintBridge.Lib.Guarded
import FingerprintBridge.Rewrite.Mapping
import FingerprintBridge.Serve.Capture
import FingerprintBridge.Tls.Mirror

/-!
# `src/main.rs`: a connection

`handle_connection` reads the client's hello, opens the mirrored connection to the origin,
compares the two hellos and only then answers the client.  What the rest of the world does
is a parameter (`Outside`), what the bridge does is a log of events.  Both timeouts drop
the computation where it waits, so that what they leave is an earlier moment of the log;
`connection_gated` speaks of all of them.
-/

namespace Serve

open Tls Written

/-! ## The code -/

/-- The options of `serve` that a connection reads. -/
structure Config (Addr : Type) where
  ca : Option Str := none
  connect : Option Addr := none
  reports : Option Str := none
  httpEvidence : Bool := false
  strictTls : Bool := false
  tcpMss : Option UInt32 := none
  ttl : Option UInt32 := none

/-- The members of `report` that are not constant. -/
structure TlsReport where
  comparison : Fingerprint.Report Nat
  limitations : List Str
deriving DecidableEq

structure HttpEvidence where
  protocol : Bytes
  inbound : HttpCapture
  outbound : HttpCapture
deriving DecidableEq, Repr

/-- What the client is answered with. -/
structure Server where
  version : UInt16
  protocol : Bytes
deriving DecidableEq, Repr

inductive Event (Addr : Type) where
  | lookup (host : Str) (port : UInt16)
  | connect (addr : Addr) (mss ttl : Option UInt32)
  /-- the origin's socket has taken these octets -/
  | sent (octets : Bytes)
  /-- a file of its own, by directory and name -/
  | created (dir name : Str) (hello : Evidence)
  | reported (dir name : Str) (report : TlsReport)
  /-- the handshake with the client begins -/
  | accept (server : Server)
  /-- `h1::bridge` or `h2::bridge` begins -/
  | bridge (protocol : Bytes)
  /-- `write_private_evidence` -/
  | unfinished (dir name : Str) (evidence : HttpEvidence)
  | renamed (dir name name' : Str)

/-- What the TLS library does with a connection that is set up by these calls. -/
structure Dial where
  writes : List Write
  result : Res Unit
  /-- `selected_alpn_protocol` -/
  alpn : Option Bytes
  /-- `version2` -/
  version : Option UInt16

structure Outside (Addr : Type) where
  /-- what comes from the client -/
  pieces : List Bytes
  backend : Backend
  /-- `lookup_host` -/
  lookup : Str → UInt16 → Res (List Addr)
  /-- `transport::connect` -/
  connect : Addr → Res Unit
  dial : List Call → Dial
  /-- the opening and writing of a file -/
  file : Str → Str → Res Unit
  /-- the server's certificates and keys -/
  certificate : Res Unit
  /-- `accept` -/
  accept : Server → Res Unit
  /-- what the bridge reads of the client and writes to the origin, and how it ends -/
  session : Bytes → List TapCall × List TapCall × Res Unit

section
variable {Addr : Type} {U : UrlCrate} (C : EvidenceCrates) (patched : Bool)
  (o : Outside Addr) (cfg : Config Addr) (m : Mapping U) (id : Str)

abbrev Trace (Addr : Type) := List (Event Addr)

/-- `upstream_host.trim_matches(['[', ']'])` -/
def host : Str := trim (fun c => c == '[' || c == ']') m.upstreamHost

/-- `format!("{id}.{suffix}.json")` -/
def fileName (suffix : String) : Str := id ++ '.' :: suffix.toList ++ ".json".toList

/-- `with_extension("partial")` -/
def partialName (suffix : String) : Str := id ++ '.' :: suffix.toList ++ ".partial".toList

/-- The writes of the handshake, through the tap. -/
def dialed (D : DigestCrates) : Capture → List Write → Act (Trace Addr) Capture
  | c, [] => pure c
  | c, w :: ws => do
    write (.sent w.accepted)
    let c ← Tls.pollWrite D c w
    dialed D c ws

def address : Act (Trace Addr) Addr :=
  match cfg.connect with
  | some addr => pure addr
  | none => do
    write (.lookup (host m) m.upstreamPort)
    let found ← o.lookup (host m) m.upstreamPort
    okOr found.head? "no upstream address"

/-- The files of `--reports`. -/
def saveReports (dir : Str) (a b : Evidence) (report : TlsReport) : Act (Trace Addr) Unit := do
  o.file dir (fileName id "inbound")
  write (.created dir (fileName id "inbound") a)
  o.file dir (fileName id "outbound")
  write (.created dir (fileName id "outbound") b)
  o.file dir (fileName id "report")
  write (.reported dir (fileName id "report") report)

/-- `tls::server_builder`: the one version that is spoken. -/
def serverBuilder (version : UInt16) : Res UInt16 := do
  ensure (version = 0x0303 ∨ version = 0x0304) "unsupported negotiated origin TLS version"
  return version

/-- `setup`; the result is `selected`. -/
def setup : Act (Trace Addr) Bytes := do
  let ((_, hello), _) ← readHello C.toDigestCrates o.pieces
  let (calls, limitations) ← mirror C.toHexCrate o.backend patched hello (host m) cfg.ca
  let addr ← address o cfg m
  write (.connect addr cfg.tcpMss cfg.ttl)
  o.connect addr
  let dial := o.dial calls
  let capture ← dialed C.toDigestCrates {} dial.writes
  dial.result
  let outgoing ← okOr (← clientHello C.toDigestCrates capture.bytes)
    "outbound ClientHello not captured"
  let a ← hello.evidence C
  let b ← outgoing.evidence C
  let comparison ← Fingerprint.compare a.document b.document ["tls".toList]
  cfg.reports.toList.forM fun dir => saveReports o id dir a b ⟨comparison, limitations⟩
  ensure (cfg.strictTls = false ∨ comparison.pass = true)
    "strict TLS comparison failed; no HTTP forwarded"
  let selected := dial.alpn.getD http11
  ensure (selected = h2 ∨ selected = http11) "unsupported upstream ALPN"
  let version ← okOr dial.version "missing negotiated origin TLS version"
  let version ← serverBuilder version
  o.certificate
  write (.accept ⟨version, selected⟩)
  o.accept ⟨version, selected⟩
  return selected

def writePrivateEvidence (dir : Str) (evidence : HttpEvidence) : Act (Trace Addr) Unit := do
  o.file dir (partialName id "http")
  write (.unfinished dir (partialName id "http") evidence)
  o.file dir (fileName id "http")
  write (.renamed dir (partialName id "http") (fileName id "http"))

def handleConnection : Act (Trace Addr) Unit := do
  let selected ← setup C patched o cfg m id
  write (.bridge selected)
  let (reads, writes, result) := o.session selected
  if cfg.httpEvidence then do
    let inbound ← (reads.foldlM (tap true) {} : Res HttpCapture)
    let outbound ← (writes.foldlM (tap false) {} : Res HttpCapture)
    let dir ← okOr cfg.reports "reports required"
    writePrivateEvidence o id dir ⟨selected, inbound, outbound⟩
    result
  else result

end

/-! ## What comes before what -/

section
variable {Addr : Type} {U : UrlCrate} (C : EvidenceCrates) (patched : Bool)
  (o : Outside Addr) (cfg : Config Addr) (m : Mapping U) (id : Str)

/-- The octets that the origin's socket has taken. -/
def sentOctets (w : Trace Addr) : Bytes :=
  w.flatMap fun | .sent b => b | _ => []

/-- The client's hello is read, and the mirrored connection can be set up. -/
def Opened (hello : TlsHello) (calls : List Call) (limitations : List Str) : Prop :=
  ∃ front rest, readHello C.toDigestCrates o.pieces = .ok ((front, hello), rest) ∧
    mirror C.toHexCrate o.backend patched hello (host m) cfg.ca = .ok (calls, limitations)

/-- The origin has been sent a hello, and its handshake has ended well. -/
def Answered (calls : List Call) (outgoing : TlsHello) (w : Trace Addr) : Prop :=
  clientHello C.toDigestCrates ((sentOctets w).take MAX_HELLO) = .ok (some outgoing) ∧
    (o.dial calls).result = .ok ()

/-- The report that is true of the two hellos. -/
def Truthful (hello outgoing : TlsHello) (limitations : List Str) (report : TlsReport) : Prop :=
  (report.comparison.pass = true ↔ hello = outgoing) ∧ report.limitations = limitations

/-- What must have happened before an event. -/
def Reason (w : Trace Addr) : Event Addr → Prop
  | .lookup _ _ | .connect _ _ _ | .sent _ =>
    ∃ hello calls limitations, Opened C patched o cfg m hello calls limitations
  | .created dir name e => ∃ hello calls limitations outgoing,
    Opened C patched o cfg m hello calls limitations ∧ Answered C o calls outgoing w ∧
    cfg.reports = some dir ∧ (name = fileName id "inbound" ∧ e.fields = hello ∨
      name = fileName id "outbound" ∧ e.fields = outgoing)
  | .reported dir name report => ∃ hello calls limitations outgoing,
    Opened C patched o cfg m hello calls limitations ∧ Answered C o calls outgoing w ∧
    cfg.reports = some dir ∧ name = fileName id "report" ∧
    Truthful hello outgoing limitations report
  | .accept server => ∃ hello calls limitations outgoing,
    Opened C patched o cfg m hello calls limitations ∧ Answered C o calls outgoing w ∧
    (∀ dir, cfg.reports = some dir → ∃ report, Truthful hello outgoing limitations report ∧
      .reported dir (fileName id "report") report ∈ w) ∧
    (cfg.strictTls = true → hello = outgoing) ∧
    server.protocol = (o.dial calls).alpn.getD http11 ∧
    (server.protocol = h2 ∨ server.protocol = http11) ∧
    (o.dial calls).version = some server.version ∧
    (server.version = 0x0303 ∨ server.version = 0x0304)
  | .bridge protocol => ∃ server, .accept server ∈ w ∧ server.protocol = protocol ∧
    o.accept server = .ok ()
  | .unfinished dir name e => cfg.httpEvidence = true ∧ cfg.reports = some dir ∧
    name = partialName id "http" ∧ .bridge e.protocol ∈ w ∧
    e.inbound = captured (passed true (o.session e.protocol).1) ∧
    e.outbound = captured (passed false (o.session e.protocol).2.1)
  | .renamed dir name name' => name' = fileName id "http" ∧
    ∃ e, .unfinished dir name e ∈ w

end

section
variable {Addr : Type} {U : UrlCrate} {C : EvidenceCrates} {patched : Bool}
  {o : Outside Addr} {cfg : Config Addr} {m : Mapping U} {id : Str}

open Guarded

@[simp] theorem sentOctets_append (w w' : Trace Addr) :
    sentOctets (w ++ w') = sentOctets w ++ sentOctets w' := List.flatMap_append

@[simp] theorem sentOctets_sent (b : Bytes) : sentOctets ([.sent b] : Trace Addr) = b :=
  List.append_nil b

/-- After an event that sends nothing. -/
theorem answered_push {calls : List Call} {outgoing : TlsHello} {w : Trace Addr} {e : Event Addr}
    (h : Answered C o calls outgoing w) (he : sentOctets [e] = []) :
    Answered C o calls outgoing (w ++ [e]) := by
  unfold Answered at h ⊢
  rwa [sentOctets_append, he, List.append_nil]

/-- The tap sees all that the socket takes. -/
theorem triple_dialed {hello : TlsHello} {calls : List Call} {limitations : List Str}
    (hopen : Opened C patched o cfg m hello calls limitations) (ws : List Write) (c : Capture) :
    Triple (Reason C patched o cfg m id)
      (fun w => Kept C.toDigestCrates (sentOctets w) c) (dialed C.toDigestCrates c ws)
      (fun c' w => Kept C.toDigestCrates (sentOctets w) c') := by
  induction ws generalizing c with
  | nil => exact triple_pure c fun w h => h
  | cons x ws ih =>
    refine Triple.bind (triple_write _ fun w _ => ⟨hello, calls, limitations, hopen⟩) fun _ => ?_
    refine triple_lift fun c' hc' => (ih c').pre ?_
    rintro _ ⟨w, hw, rfl⟩
    obtain ⟨c'', hrun, hkept⟩ := hw.pollWrite x
    rw [hrun] at hc'
    cases hc'
    rwa [sentOctets_append, sentOctets_sent]

theorem triple_address {hello : TlsHello} {calls : List Call} {limitations : List Str}
    (hopen : Opened C patched o cfg m hello calls limitations) :
    Triple (Reason C patched o cfg m id) (fun w => sentOctets w = []) (address o cfg m)
      (fun _ w => sentOctets w = []) := by
  unfold address
  cases cfg.connect with
  | some addr => exact triple_pure addr fun w h => h
  | none =>
    refine Triple.bind (triple_write _ fun w _ => ⟨hello, calls, limitations, hopen⟩) fun _ => ?_
    refine triple_lift fun found _ => triple_last fun addr _ => ?_
    rintro _ ⟨w, hw, rfl⟩
    rw [sentOctets_append, hw]
    rfl

theorem truthful_of_compare {hello outgoing : TlsHello} {a b : Evidence}
    (ha : hello.evidence C = .ok a) (hb : outgoing.evidence C = .ok b)
    {comparison : Fingerprint.Report Nat} (limitations : List Str)
    (hc : Fingerprint.compare a.document b.document ["tls".toList] = .ok comparison) :
    a.fields = hello ∧ b.fields = outgoing ∧
      Truthful hello outgoing limitations ⟨comparison, limitations⟩ := by
  obtain ⟨e, he, hfields, -⟩ := hello.evidence_ok (C := C)
  obtain ⟨e', he', hfields', -⟩ := outgoing.evidence_ok (C := C)
  obtain rfl := Except.ok.inj (ha.symm.trans he)
  obtain rfl := Except.ok.inj (hb.symm.trans he')
  refine ⟨hfields, hfields', ?_, rfl⟩
  have hpass : Fingerprint.Passes a.document b.document ["tls".toList] ↔ comparison.pass = true :=
    ⟨fun ⟨r, hr, hp⟩ => Except.ok.inj (hr.symm.trans hc) ▸ hp, fun hp => ⟨_, hc, hp⟩⟩
  rw [← hpass, Evidence.passes_iff]
  constructor
  · rintro rfl
    exact hfields.symm.trans hfields'
  · rintro rfl
    exact Except.ok.inj (ha.symm.trans hb)

theorem triple_saveReports {hello outgoing : TlsHello} {calls : List Call}
    {limitations : List Str} (hopen : Opened C patched o cfg m hello calls limitations)
    {dir : Str} (hdir : cfg.reports = some dir) {a b : Evidence} (ha : a.fields = hello)
    (hb : b.fields = outgoing) {report : TlsReport}
    (hreport : Truthful hello outgoing limitations report) :
    Triple (Reason C patched o cfg m id) (Answered C o calls outgoing)
      (saveReports o id dir a b report) (fun _ w => Answered C o calls outgoing w ∧
        .reported dir (fileName id "report") report ∈ w) := by
  unfold saveReports
  refine triple_lift fun _ _ => Triple.bind (triple_write _ fun w hw => ?_) fun _ => ?_
  · exact ⟨hello, calls, limitations, outgoing, hopen, hw, hdir, .inl ⟨rfl, ha⟩⟩
  refine triple_lift fun _ _ => Triple.bind (triple_write _ ?_) fun _ => ?_
  · rintro _ ⟨w, hw, rfl⟩
    exact ⟨hello, calls, limitations, outgoing, hopen, answered_push hw rfl, hdir, .inr ⟨rfl, hb⟩⟩
  refine triple_lift fun _ _ => (triple_write _ ?_).post ?_
  · rintro _ ⟨_, ⟨w, hw, rfl⟩, rfl⟩
    exact ⟨hello, calls, limitations, outgoing, hopen, answered_push (answered_push hw rfl) rfl,
      hdir, rfl, hreport⟩
  · rintro _ _ ⟨_, ⟨_, ⟨w, hw, rfl⟩, rfl⟩, rfl⟩
    exact ⟨answered_push (answered_push (answered_push hw rfl) rfl) rfl,
      List.mem_append_right _ List.mem_cons_self⟩

/-- What is so when the client has been answered. -/
def Accepted (o : Outside Addr) (selected : Bytes) (w : Trace Addr) : Prop :=
  ∃ server, .accept server ∈ w ∧ server.protocol = selected ∧ o.accept server = .ok ()

theorem triple_setup : Triple (Reason C patched o cfg m id) (fun w => sentOctets w = [])
    (setup C patched o cfg m id) (Accepted o) := by
  unfold setup
  refine triple_lift fun ⟨⟨front, hello⟩, rest⟩ hread => ?_
  refine triple_lift fun ⟨calls, limitations⟩ hmirror => ?_
  have hopen : Opened C patched o cfg m hello calls limitations := ⟨front, rest, hread, hmirror⟩
  refine Triple.bind (triple_address hopen) fun addr => ?_
  refine Triple.bind (triple_write _ fun w _ => ⟨hello, calls, limitations, hopen⟩) fun _ => ?_
  refine triple_lift fun _ _ => ?_
  refine Triple.bind ((triple_dialed hopen _ {}).pre ?_) fun capture => ?_
  · rintro _ ⟨w, hw, rfl⟩
    rw [sentOctets_append, hw]
    exact .all (show 0 < MAX_HELLO by decide)
  refine triple_lift fun _ hresult => triple_lift fun found hfound => ?_
  refine triple_lift fun outgoing hout => ?_
  have hanswered : ∀ w : Trace Addr, Kept C.toDigestCrates (sentOctets w) capture →
      Answered C o calls outgoing w := by
    intro w hw
    refine ⟨?_, hresult⟩
    rw [← hw.answer, hfound, (Res.okOr_ok_iff _ _ _).1 hout]
  refine triple_lift fun a ha => triple_lift fun b hb => triple_lift fun comparison hc => ?_
  obtain ⟨hfields, hfields', htrue⟩ := truthful_of_compare ha hb limitations hc
  have hsaved : Triple (Reason C patched o cfg m id)
      (fun w => Kept C.toDigestCrates (sentOctets w) capture)
      (cfg.reports.toList.forM fun dir => saveReports o id dir a b ⟨comparison, limitations⟩)
      (fun _ w => Answered C o calls outgoing w ∧ ∀ dir, cfg.reports = some dir →
        ∃ report, Truthful hello outgoing limitations report ∧
          .reported dir (fileName id "report") report ∈ w) := by
    cases hr : cfg.reports with
    | none => exact triple_pure () fun w hw => ⟨hanswered w hw, fun dir h => by cases h⟩
    | some dir =>
      refine Triple.bind ((triple_saveReports hopen hr hfields hfields' htrue).pre hanswered)
        fun _ => triple_pure () fun w hw => ⟨hw.1, fun dir' h => ?_⟩
      cases h
      exact ⟨_, htrue, hw.2⟩
  refine Triple.bind hsaved fun _ => ?_
  refine triple_lift fun _ hstrict => triple_lift fun _ halpn => ?_
  refine triple_lift fun version hversion => triple_lift fun version' hserver => ?_
  have hserved : version' = version ∧ (version = 0x0303 ∨ version = 0x0304) := by
    obtain ⟨_, h, hv⟩ := (Res.bind_ok_iff _ _ _).1 hserver
    exact ⟨(Except.ok.inj hv).symm, (Res.ensure_ok_iff _ _ _).1 h⟩
  obtain ⟨rfl, hversions⟩ := hserved
  refine triple_lift fun _ _ => Triple.bind (triple_write _ fun w hw => ?_) fun _ => ?_
  · refine ⟨hello, calls, limitations, outgoing, hopen, hw.1, hw.2, fun hs => ?_, rfl,
      (Res.ensure_ok_iff _ _ _).1 halpn, (Res.okOr_ok_iff _ _ _).1 hversion, hversions⟩
    rcases (Res.ensure_ok_iff _ _ _).1 hstrict with hno | hpass
    · rw [hno] at hs
      cases hs
    · exact htrue.1.1 hpass
  · refine triple_lift fun _ haccept => triple_pure _ ?_
    rintro _ ⟨w, hw, rfl⟩
    exact ⟨_, List.mem_append_right _ List.mem_cons_self, rfl, haccept⟩

theorem triple_handleConnection : Triple (Reason C patched o cfg m id) (fun w => sentOctets w = [])
    (handleConnection C patched o cfg m id) (fun _ _ => True) := by
  unfold handleConnection
  refine Triple.bind triple_setup fun selected => ?_
  refine Triple.bind (triple_write _ fun w hw => hw) fun _ => ?_
  have hbridge : ∀ w : Trace Addr, (∃ w0, Accepted o selected w0 ∧ w = w0 ++ [.bridge selected]) →
      .bridge selected ∈ w := by
    rintro _ ⟨w, -, rfl⟩
    exact List.mem_append_right _ List.mem_cons_self
  rcases hsession : o.session selected with ⟨reads, writes, result⟩
  dsimp only
  by_cases hevidence : cfg.httpEvidence = true
  · rw [if_pos hevidence]
    refine triple_lift fun inbound hin => triple_lift fun outbound hout => ?_
    rw [capture_exact] at hin hout
    refine triple_lift fun dir hdir => Triple.bind (Q := fun _ _ => True) ?_ fun _ => ?_
    · unfold writePrivateEvidence
      refine triple_lift fun _ _ => Triple.bind (triple_write _ fun w hw => ?_) fun _ => ?_
      · exact ⟨hevidence, (Res.okOr_ok_iff _ _ _).1 hdir, rfl, hbridge w hw,
          by rw [hsession]; exact (Except.ok.inj hin).symm,
          by rw [hsession]; exact (Except.ok.inj hout).symm⟩
      · refine triple_lift fun _ _ => (triple_write _ ?_).post fun _ _ _ => trivial
        rintro _ ⟨w, hw, rfl⟩
        exact ⟨rfl, _, List.mem_append_right _ List.mem_cons_self⟩
    · exact triple_last fun _ _ _ _ => trivial
  · rw [if_neg hevidence]
    exact triple_last fun _ _ _ _ => trivial

variable (C patched o cfg m id) in
theorem handleConnection_allowed :
    Allowed (Reason C patched o cfg m id) ((handleConnection C patched o cfg m id).final []) :=
  triple_handleConnection.final rfl

end

/-- **No answer before the comparison.**  At every moment of a connection, wherever it fails or is
dropped, each event so far had its reason: nothing is sent before the client's hello is read and
mirrored, the reports are true of the hello that was read and of the one that the origin's socket
took, and the client is answered only after the origin's handshake and the reports, with the
origin's version and protocol, and in strict mode only if the two hellos show the same.  So in
strict mode what is bridged went out under the client's own hello. -/
theorem connection_gated {Addr : Type} {U : UrlCrate} (C : EvidenceCrates) (patched : Bool)
    (o : Outside Addr) (cfg : Config Addr) (m : Mapping U) (id : Str) (n : Nat) :
    Guarded.Allowed (Reason C patched o cfg m id)
      (((handleConnection C patched o cfg m id).final []).take n) ∧
    (cfg.strictTls = true → ∀ protocol,
      .bridge protocol ∈ ((handleConnection C patched o cfg m id).final []).take n →
      ∃ hello calls limitations, Opened C patched o cfg m hello calls limitations ∧
        ∃ before, before <+: ((handleConnection C patched o cfg m id).final []).take n ∧
          clientHello C.toDigestCrates ((sentOctets before).take MAX_HELLO) = .ok (some hello)) := by
  have hmoment := (handleConnection_allowed C patched o cfg m id).earlier (List.take_prefix n _)
  refine ⟨hmoment, fun hstrict protocol hbridge => ?_⟩
  obtain ⟨pre, post, hpre⟩ := List.append_of_mem hbridge
  obtain ⟨server, haccept, -, -⟩ := hmoment pre _ post hpre
  obtain ⟨before, between, rfl⟩ := List.append_of_mem haccept
  rw [List.append_assoc] at hpre
  obtain ⟨hello, calls, limitations, outgoing, hopen, ⟨hsent, -⟩, -, hsame, -⟩ :=
    hmoment before (.accept server) (between ++ .bridge protocol :: post) hpre
  obtain rfl := hsame hstrict
  exact ⟨hello, calls, limitations, hopen, before, ⟨_, hpre.symm⟩, hsent⟩

theorem lowerHex_length (b : Bytes) : (lowerHex b).length = 2 * b.length := by
  induction b with
  | nil => rfl
  | cons c b ih =>
    rw [lowerHex, List.flatMap_cons, List.length_append]
    show 2 + (lowerHex b).length = 2 * (b.length + 1)
    omega

/-- One digest for all. -/
def sampleCrates : EvidenceCrates where
  toHexCrate := { sampleHex with sha256 := fun _ => emptyDigest }
  md5 _ := []
  sha256_length _ := rfl
  hexEncode_length := lowerHex_length

/-- The record of a hello that offers one cipher. -/
def sampleRecord (cipher : UInt8) : Bytes :=
  [22, 3, 1, 0, 45, 1, 0, 0, 41, 3, 3] ++ List.replicate 32 0 ++ [0, 0, 2, 0x13, cipher, 1, 0]

/-- A client that offers one cipher, and a library that sends another hello in two writes. -/
def sampleOutside (cipher : UInt8) : Outside Unit where
  pieces := [sampleRecord 1]
  backend := sampleBackend
  lookup _ _ := .ok [()]
  connect _ := .ok ()
  dial _ :=
    { writes := [⟨sampleRecord cipher, .accepted 7 (show 7 ≤ 50 by decide)⟩,
        ⟨(sampleRecord cipher).drop 7, .accepted 43 (show 43 ≤ 43 by decide)⟩]
      result := .ok ()
      alpn := some h2
      version := some 0x0304 }
  file _ _ := .ok ()
  certificate := .ok ()
  accept _ := .ok ()
  session _ := ([], [], .ok ())

/-- In strict mode a library that sends the client's hello is bridged, and another is not. -/
example : ((handleConnection sampleCrates true (sampleOutside 1) { strictTls := true }
      sampleMapping []).final []).length = 6 ∧
    ((handleConnection sampleCrates true (sampleOutside 2) { strictTls := true }
      sampleMapping []).final []).length = 4 := by
  decide +kernel

end Serve
