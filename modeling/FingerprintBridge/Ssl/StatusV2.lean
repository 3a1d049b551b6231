import FingerprintBridge.Lib.Octets
import FingerprintBridge.Lib.Parser

/-!
# `scripts/patches/bridge-status-request-v2.patch`: OCSP for the whole chain

A server that takes up `status_request_v2` has to staple a response for each certificate
below the root it is verified to, and each has to be good.  The parts of the patch that run
in the client are put together in the order in which a handshake comes to them
(`statusHandshake`).
-/

namespace Ssl

/-! ## The code -/

def TLSEXT_STATUSTYPE_ocsp : UInt8 := 1

def TLSEXT_STATUSTYPE_ocsp_multi : UInt8 := 2

def SSL3_MT_CERTIFICATE_STATUS : UInt8 := 22

def SSL_AD_DECODE_ERROR : String := "decode_error"

def SSL_AD_BAD_CERTIFICATE_STATUS_RESPONSE : String := "bad_certificate_status_response"

/-- An extension's function returns false and leaves `out_alert` as it was. -/
def alertUntouched : String := "the extension is not taken"

/-- What is read and written of `SSL_HANDSHAKE` and its session. -/
structure StatusState where
  /-- `ssl_protocol_version` -/
  version : UInt16
  /-- `ssl_cipher_uses_certificate_auth` of the new cipher -/
  certificateAuth : Bool
  certificateStatusExpected : Bool := false
  certificateStatusV2Expected : Bool := false
  bridgeStatusV2Responses : List Bytes := []
  ocspResponse : Option Bytes := none

/-- `SSL_HANDSHAKE::SSL_HANDSHAKE` -/
def StatusState.new (version : UInt16) (certificateAuth : Bool) : StatusState where
  version := version
  certificateAuth := certificateAuth

/-- `CBS_get_u24_length_prefixed` -/
def getU24LengthPrefixed : Parser UInt8 Bytes := do
  let length ← Parser.takeN 3
  Parser.takeN (beValue length)

/-- A response of the list, which may not be empty. -/
def getResponse : Parser UInt8 Bytes := do
  let response ← getU24LengthPrefixed
  if response = [] then failure else return response

/-- The two extensions of a ServerHello are taken alike: empty, with a cipher that uses
certificates, and only one of them. -/
def takeStatus (refused : StatusState → Bool) (expect : StatusState → StatusState)
    (contents : Option Bytes) : Act StatusState Unit := do
  let hs ← get
  match contents with
  | none => return
  | some contents =>
    ensure (refused hs = false ∧ contents = [] ∧ hs.certificateAuth = true ∧
      hs.certificateStatusExpected = false) alertUntouched
    set (expect hs)

/-- `above` is what the lines above the hunk refuse. -/
def extOcspParseServerhello (above : StatusState → Bool) : Option Bytes → Act StatusState Unit :=
  takeStatus above fun hs => { hs with certificateStatusExpected := true }

def extOcspV2ParseServerhello : Option Bytes → Act StatusState Unit :=
  takeStatus (fun hs => 0x0304 ≤ hs.version) fun hs =>
    { hs with certificateStatusExpected := true, certificateStatusV2Expected := true }

/-- The message that comes after the certificates; the result says if it is used up. -/
def readCertificateStatus (type : UInt8) (body : Bytes) : Act StatusState Bool := do
  let hs ← get
  if type ≠ SSL3_MT_CERTIFICATE_STATUS then do
    ensure (hs.certificateStatusV2Expected = false) SSL_AD_BAD_CERTIFICATE_STATUS_RESPONSE
    return false
  else do
    let (statusType, certificateStatus) ← okOr (Parser.item body) SSL_AD_DECODE_ERROR
    if hs.certificateStatusV2Expected then do
      ensure (statusType = TLSEXT_STATUSTYPE_ocsp_multi) SSL_AD_DECODE_ERROR
      let (responses, rest) ← okOr (getU24LengthPrefixed certificateStatus) SSL_AD_DECODE_ERROR
      ensure (responses ≠ [] ∧ rest = []) SSL_AD_DECODE_ERROR
      let found ← okOr (Parser.all getResponse responses) SSL_AD_DECODE_ERROR
      set { hs with bridgeStatusV2Responses := hs.bridgeStatusV2Responses ++ found }
      return true
    else do
      ensure (statusType = TLSEXT_STATUSTYPE_ocsp) SSL_AD_DECODE_ERROR
      let (response, rest) ← okOr (getU24LengthPrefixed certificateStatus) SSL_AD_DECODE_ERROR
      ensure (response ≠ [] ∧ rest = []) SSL_AD_DECODE_ERROR
      set { hs with ocspResponse := some response }
      return true

inductive OCSPRevocationStatus where
  | GOOD
  | REVOKED
  | UNKNOWN
deriving DecidableEq, Repr

/-- `OCSPVerifyResult::ResponseStatus`, of which one value matters. -/
inductive ResponseStatus where
  | PROVIDED
  | other
deriving DecidableEq, Repr

/-- `CheckOCSP` of a response, a certificate and its issuer, at a time. -/
abbrev CheckOCSP := Bytes → Bytes → Bytes → Int → OCSPRevocationStatus × ResponseStatus

/-- The pass of the loop for one response. -/
def responseValid (checkOCSP : CheckOCSP) (now : Int) (responses chain : List Bytes) (i : Nat) :
    Bool :=
  match responses[i]?, chain[i]?, chain[i + 1]? with
  | some response, some certificate, some issuer =>
    checkOCSP response certificate issuer now == (.GOOD, .PROVIDED)
  | _, _, _ => false

/-- After the path builder, which has answered `verifyRet` and found a chain. -/
def verifyCertChain (checkOCSP : CheckOCSP) (verifyRet : Int) (verifiedChain : Option (List Bytes))
    (now : Int) : Act StatusState Unit := do
  let hs ← get
  if hs.certificateStatusV2Expected then
    let responses := hs.bridgeStatusV2Responses
    let valid := verifiedChain.any fun chain =>
      0 < verifyRet && 0 < responses.length && responses.length < chain.length &&
        (List.range responses.length).all (responseValid checkOCSP now responses chain)
    ensure (valid = true) SSL_AD_BAD_CERTIFICATE_STATUS_RESPONSE
  else return

/-- The two extensions of a ServerHello, in the order in which they are scanned. -/
inductive StatusExt where
  | statusRequest (contents : Option Bytes)
  | statusRequestV2 (contents : Option Bytes)

def StatusExt.parse (above : StatusState → Bool) : StatusExt → Act StatusState Unit
  | .statusRequest contents => extOcspParseServerhello above contents
  | .statusRequestV2 contents => extOcspV2ParseServerhello contents

/-- What a full handshake does of all this, and not a resumed one; `message` comes after the
server's certificates. -/
def statusHandshake (above : StatusState → Bool) (checkOCSP : CheckOCSP) (exts : List StatusExt)
    (message : UInt8 × Bytes) (verifyRet : Int) (verifiedChain : Option (List Bytes)) (now : Int) :
    Act StatusState Unit := do
  exts.forM (StatusExt.parse above)
  let hs ← get
  if hs.certificateStatusExpected then do
    let _ ← readCertificateStatus message.1 message.2
    verifyCertChain checkOCSP verifyRet verifiedChain now
  else verifyCertChain checkOCSP verifyRet verifiedChain now

/-! ## The message -/

/-- An entry after its length. -/
def u24 (b : Bytes) : Bytes := beOctets 3 b.length ++ b

theorem getU24_iff (b r rest : Bytes) :
    getU24LengthPrefixed b = some (r, rest) ↔ r.length < 2 ^ 24 ∧ b = u24 r ++ rest := by
  unfold getU24LengthPrefixed u24
  rw [Parser.bind_some_iff]
  constructor
  · rintro ⟨l, mid, h1, h2⟩
    obtain ⟨hl, rfl⟩ := (Parser.takeN_some_iff _ _ _ _).1 h1
    obtain ⟨hr, rfl⟩ := (Parser.takeN_some_iff _ _ _ _).1 h2
    have hlt := beValue_lt l
    rw [hl] at hlt
    have hoctets := beOctets_beValue l
    rw [hl] at hoctets
    refine ⟨by omega, ?_⟩
    rw [hr, hoctets, List.append_assoc]
  · rintro ⟨hlen, rfl⟩
    refine ⟨beOctets 3 r.length, r ++ rest, ?_, ?_⟩
    · exact (Parser.takeN_some_iff _ _ _ _).2 ⟨beOctets_length _ _, List.append_assoc _ _ _⟩
    · refine (Parser.takeN_some_iff _ _ _ _).2 ⟨?_, rfl⟩
      rw [beValue_beOctets, Nat.mod_eq_of_lt (by omega)]

/-- A response that a list may hold. -/
def Staple (r : Bytes) : Prop := r ≠ [] ∧ r.length < 2 ^ 24

theorem getResponse_iff (b r rest : Bytes) :
    getResponse b = some (r, rest) ↔ Staple r ∧ b = u24 r ++ rest := by
  unfold getResponse Staple
  rw [Parser.bind_some_iff]
  constructor
  · rintro ⟨a, mid, h1, h2⟩
    obtain ⟨hlen, rfl⟩ := (getU24_iff _ _ _).1 h1
    by_cases ha : a = []
    · rw [if_pos ha] at h2
      cases h2
    · rw [if_neg ha] at h2
      obtain ⟨rfl, rfl⟩ := (Parser.pure_some_iff _ _ _ _).1 h2
      exact ⟨⟨ha, hlen⟩, rfl⟩
  · rintro ⟨⟨hne, hlen⟩, rfl⟩
    refine ⟨r, rest, (getU24_iff _ _ _).2 ⟨hlen, rfl⟩, ?_⟩
    rw [if_neg hne]
    exact (Parser.pure_some_iff _ _ _ _).2 ⟨rfl, rfl⟩

theorem productive_getResponse : Parser.Productive getResponse := by
  intro b r rest h
  obtain ⟨-, rfl⟩ := (getResponse_iff _ _ _).1 h
  rw [u24, List.length_append, List.length_append, beOctets_length]
  omega

theorem all_getResponse_iff (b : Bytes) (rs : List Bytes) :
    Parser.all getResponse b = some rs ↔ (∀ r ∈ rs, Staple r) ∧ b = rs.flatMap u24 :=
  Parser.all_some_iff _ productive_getResponse getResponse_iff b rs

/-! ## The extensions -/

namespace StatusExt

def contents : StatusExt → Option Bytes
  | .statusRequest contents => contents
  | .statusRequestV2 contents => contents

/-- The extension is taken. -/
def flag : StatusExt → StatusState → StatusState
  | .statusRequest _, hs => { hs with certificateStatusExpected := true }
  | .statusRequestV2 _, hs =>
    { hs with certificateStatusExpected := true, certificateStatusV2Expected := true }

def refused (above : StatusState → Bool) : StatusExt → StatusState → Bool
  | .statusRequest _ => above
  | .statusRequestV2 _ => fun hs => 0x0304 ≤ hs.version

variable (above : StatusState → Bool)

/-- A handshake in which the extension may be taken up. -/
def Allowed (e : StatusExt) (hs : StatusState) : Prop :=
  e.refused above hs = false ∧ hs.certificateAuth = true

theorem takeStatus_ok_iff (refused : StatusState → Bool) (expect : StatusState → StatusState)
    (contents : Option Bytes) (hs hs' : StatusState) :
    takeStatus refused expect contents hs = .ok () hs' ↔ contents = none ∧ hs' = hs ∨
      contents = some [] ∧ (refused hs = false ∧ hs.certificateAuth = true) ∧
        hs.certificateStatusExpected = false ∧ hs' = expect hs := by
  unfold takeStatus
  rw [Act.get_bind]
  cases contents with
  | none => simp [Act.pure_ok_iff]
  | some contents =>
    simp only [Act.liftM_bind_ok_iff, Res.ensure_ok_iff]
    constructor
    · rintro ⟨_, ⟨hv, rfl, hauth, hexp⟩, hset⟩
      cases hset
      exact .inr ⟨rfl, ⟨hv, hauth⟩, hexp, rfl⟩
    · rintro (⟨h, -⟩ | ⟨h, ⟨hv, hauth⟩, hexp, rfl⟩)
      · cases h
      · exact ⟨(), ⟨hv, Option.some.inj h, hauth, hexp⟩, rfl⟩

theorem parse_ok_iff (e : StatusExt) (hs hs' : StatusState) : e.parse above hs = .ok () hs' ↔
    e.contents = none ∧ hs' = hs ∨
    e.contents = some [] ∧ e.Allowed above hs ∧ hs.certificateStatusExpected = false ∧
      hs' = e.flag hs := by
  cases e with
  | statusRequest contents => exact takeStatus_ok_iff _ _ _ _ _
  | statusRequestV2 contents => exact takeStatus_ok_iff _ _ _ _ _

theorem flag_expected (e : StatusExt) (hs : StatusState) :
    (e.flag hs).certificateStatusExpected = true := by
  cases e <;> rfl

/-- Those of the extensions that the server has sent. -/
def taken (exts : List StatusExt) : List StatusExt := exts.filter fun e => e.contents.isSome

theorem taken_cons (e : StatusExt) (exts : List StatusExt) :
    taken (e :: exts) = if e.contents.isSome then e :: taken exts else taken exts := List.filter_cons

/-- After one extension has been taken, no other is. -/
theorem scan_taken (exts : List StatusExt) (hs hs' : StatusState)
    (hexp : hs.certificateStatusExpected = true) :
    exts.forM (parse above) hs = .ok () hs' ↔ taken exts = [] ∧ hs' = hs := by
  induction exts with
  | nil =>
    show (pure () : Act StatusState Unit) hs = _ ↔ _
    rw [Act.pure_ok_iff]
    simp [taken]
  | cons e exts ih =>
    show (parse above e >>= fun _ => exts.forM (parse above)) hs = _ ↔ _
    rw [Act.bind_ok_iff, taken_cons]
    cases hc : e.contents with
    | none =>
      simp only [Option.isSome_none, Bool.false_eq_true, if_false]
      rw [← ih]
      constructor
      · rintro ⟨_, s₁, h1, h2⟩
        rcases (parse_ok_iff _ _ _ _).1 h1 with ⟨-, rfl⟩ | ⟨-, -, hno, -⟩
        · exact h2
        · rw [hexp] at hno
          cases hno
      · exact fun h => ⟨(), hs, (parse_ok_iff _ _ _ _).2 (.inl ⟨hc, rfl⟩), h⟩
    | some contents =>
      simp only [Option.isSome_some, if_true]
      refine iff_of_false ?_ (by simp)
      rintro ⟨_, s₁, h1, -⟩
      rcases (parse_ok_iff _ _ _ _).1 h1 with ⟨h, -⟩ | ⟨-, -, hno, -⟩
      · rw [hc] at h
        cases h
      · rw [hexp] at hno
        cases hno

/-- A scan takes nothing, or one empty extension. -/
theorem scan_ok_iff (exts : List StatusExt) (hs hs' : StatusState)
    (hexp : hs.certificateStatusExpected = false) : exts.forM (parse above) hs = .ok () hs' ↔
      taken exts = [] ∧ hs' = hs ∨
      ∃ e, taken exts = [e] ∧ e.contents = some [] ∧ e.Allowed above hs ∧ hs' = e.flag hs := by
  induction exts with
  | nil =>
    show (pure () : Act StatusState Unit) hs = _ ↔ _
    rw [Act.pure_ok_iff]
    simp [taken]
  | cons e exts ih =>
    show (parse above e >>= fun _ => exts.forM (parse above)) hs = _ ↔ _
    rw [Act.bind_ok_iff, taken_cons]
    cases hc : e.contents with
    | none =>
      simp only [Option.isSome_none, Bool.false_eq_true, if_false]
      rw [← ih]
      constructor
      · rintro ⟨_, s₁, h1, h2⟩
        rcases (parse_ok_iff _ _ _ _).1 h1 with ⟨-, rfl⟩ | ⟨h, -⟩
        · exact h2
        · rw [hc] at h
          cases h
      · exact fun h => ⟨(), hs, (parse_ok_iff _ _ _ _).2 (.inl ⟨hc, rfl⟩), h⟩
    | some contents =>
      simp only [Option.isSome_some, if_true]
      constructor
      · rintro ⟨_, s₁, h1, h2⟩
        rcases (parse_ok_iff _ _ _ _).1 h1 with ⟨h, -⟩ | ⟨h, hst, -, rfl⟩
        · rw [hc] at h
          cases h
        · obtain ⟨hnil, rfl⟩ := (scan_taken _ _ _ _ (flag_expected _ _)).1 h2
          exact .inr ⟨e, by rw [hnil], h, hst, rfl⟩
      · rintro (⟨h, -⟩ | ⟨e', h, hc', hst, rfl⟩)
        · cases h
        · obtain ⟨rfl, hnil⟩ := List.cons.inj h
          exact ⟨(), e.flag hs, (parse_ok_iff _ _ _ _).2 (.inr ⟨hc', hst, hexp, rfl⟩),
            (scan_taken _ _ _ _ (flag_expected _ _)).2 ⟨hnil, rfl⟩⟩

end StatusExt

/-! ## The proofs -/

/-- Every certificate but the last, of as many as there are responses, has a good one. -/
def Stapled (checkOCSP : CheckOCSP) (now : Int) (responses chain : List Bytes) : Prop :=
  responses.length < chain.length ∧ ∀ i response certificate issuer,
    responses[i]? = some response → chain[i]? = some certificate → chain[i + 1]? = some issuer →
    checkOCSP response certificate issuer now = (.GOOD, .PROVIDED)

theorem all_responseValid_iff {checkOCSP : CheckOCSP} {now : Int} {responses chain : List Bytes}
    (hlen : responses.length < chain.length) :
    (List.range responses.length).all (responseValid checkOCSP now responses chain) = true ↔
      Stapled checkOCSP now responses chain := by
  rw [List.all_eq_true]
  constructor
  · intro h
    refine ⟨hlen, fun i response certificate issuer hr hc hi => ?_⟩
    have hlt := (List.getElem?_eq_some_iff.1 hr).1
    have := h i (List.mem_range.2 hlt)
    unfold responseValid at this
    rw [hr, hc, hi] at this
    exact beq_iff_eq.1 this
  · rintro ⟨-, h⟩ i hi
    have hlt := List.mem_range.1 hi
    have hr := List.getElem?_eq_getElem hlt
    have hc := List.getElem?_eq_getElem (hlt.trans hlen)
    have hs := List.getElem?_eq_getElem (Nat.lt_of_le_of_lt hlt hlen)
    unfold responseValid
    rw [hr, hc, hs]
    exact beq_iff_eq.2 (h i _ _ _ hr hc hs)

/-- What has come before the message when the whole chain is to be stapled. -/
def expecting (version : UInt16) (certificateAuth : Bool) : StatusState where
  version := version
  certificateAuth := certificateAuth
  certificateStatusExpected := true
  certificateStatusV2Expected := true

theorem expecting_expected (version : UInt16) (certificateAuth : Bool) :
    (expecting version certificateAuth).certificateStatusExpected = true := rfl

theorem read_expecting_iff (version : UInt16) (certificateAuth : Bool) (type : UInt8) (body : Bytes)
    (used : Bool) (hs' : StatusState) :
    readCertificateStatus type body (expecting version certificateAuth) = .ok used hs' ↔
      ∃ responses : List Bytes, type = SSL3_MT_CERTIFICATE_STATUS ∧
        body = TLSEXT_STATUSTYPE_ocsp_multi :: u24 (responses.flatMap u24) ∧ responses ≠ [] ∧
        (∀ r ∈ responses, Staple r) ∧ (responses.flatMap u24).length < 2 ^ 24 ∧ used = true ∧
        hs' = { expecting version certificateAuth with bridgeStatusV2Responses := responses } := by
  unfold readCertificateStatus
  rw [Act.get_bind]
  by_cases htype : type = SSL3_MT_CERTIFICATE_STATUS
  · rw [if_neg (not_not.2 htype)]
    have hv2 : (expecting version certificateAuth).certificateStatusV2Expected = true := rfl
    simp only [hv2, if_true, Act.liftM_bind_ok_iff, Res.okOr_ok_iff, Res.ensure_ok_iff,
      all_getResponse_iff]
    constructor
    · rintro ⟨⟨statusType, rest⟩, hitem, _, rfl, ⟨responses, left⟩, hlist, _, ⟨hne, rfl⟩, found,
        ⟨hgood, rfl⟩, hset⟩
      obtain rfl := (Parser.item_some_iff _ _ _).1 hitem
      obtain ⟨hlen, rfl⟩ := (getU24_iff _ _ _).1 hlist
      cases hset
      refine ⟨found, htype, by rw [List.append_nil], ?_, hgood, hlen, rfl, rfl⟩
      rintro rfl
      exact hne rfl
    · rintro ⟨responses, -, rfl, hne, hgood, hlen, rfl, rfl⟩
      refine ⟨(_, u24 (responses.flatMap u24)), (Parser.item_some_iff _ _ _).2 rfl, (), rfl,
        (responses.flatMap u24, []), (getU24_iff _ _ _).2 ⟨hlen, by rw [List.append_nil]⟩, (),
        ⟨?_, rfl⟩, responses, ⟨hgood, rfl⟩, rfl⟩
      intro hnil
      obtain ⟨r, hr⟩ := List.exists_mem_of_ne_nil _ hne
      have := List.flatMap_eq_nil_iff.1 hnil r hr
      rw [u24, List.append_eq_nil_iff] at this
      exact (hgood r hr).1 this.2
  · rw [if_pos htype]
    refine iff_of_false (fun h => ?_) fun ⟨_, h, _⟩ => htype h
    obtain ⟨_, h, -⟩ := (Act.liftM_bind_ok_iff _ _ _ _ _).1 h
    exact absurd ((Res.ensure_ok_iff _ _ _).1 h) (by simp [expecting])

theorem verify_expecting_iff {checkOCSP : CheckOCSP} {verifyRet : Int}
    {verifiedChain : Option (List Bytes)} {now : Int} {hs hs' : StatusState}
    (hv2 : hs.certificateStatusV2Expected = true) (hne : hs.bridgeStatusV2Responses ≠ []) :
    verifyCertChain checkOCSP verifyRet verifiedChain now hs = .ok () hs' ↔
      hs' = hs ∧ 0 < verifyRet ∧ ∃ chain, verifiedChain = some chain ∧
        Stapled checkOCSP now hs.bridgeStatusV2Responses chain := by
  unfold verifyCertChain
  rw [Act.get_bind, if_pos hv2, Act.liftM_ok_iff, Res.ensure_ok_iff]
  have hpos : 0 < hs.bridgeStatusV2Responses.length := List.length_pos_iff.2 hne
  cases verifiedChain with
  | none => simp
  | some chain =>
    simp only [Option.any_some, Bool.and_eq_true, decide_eq_true_eq, Option.some.injEq,
      exists_eq_left']
    constructor
    · rintro ⟨⟨⟨⟨hret, -⟩, hlen⟩, hall⟩, rfl⟩
      exact ⟨rfl, hret, (all_responseValid_iff hlen).1 hall⟩
    · rintro ⟨rfl, hret, hst⟩
      exact ⟨⟨⟨⟨hret, hpos⟩, hst.1⟩, (all_responseValid_iff hst.1).2 hst⟩, rfl⟩

theorem mem_taken {exts : List StatusExt} {e : StatusExt} :
    e ∈ StatusExt.taken exts ↔ e ∈ exts ∧ e.contents.isSome = true := List.mem_filter

/-- A handshake that expects no list goes on whatever the responses are. -/
theorem verify_unexpected {checkOCSP : CheckOCSP} {verifyRet : Int}
    {verifiedChain : Option (List Bytes)} {now : Int} {hs : StatusState}
    (hv2 : hs.certificateStatusV2Expected = false) :
    verifyCertChain checkOCSP verifyRet verifiedChain now hs = .ok () hs := by
  unfold verifyCertChain
  rw [Act.get_bind, if_neg (by simp [hv2])]
  rfl

theorem read_unexpected {type : UInt8} {body : Bytes} {hs hs' : StatusState} {used : Bool}
    (hv2 : hs.certificateStatusV2Expected = false)
    (h : readCertificateStatus type body hs = .ok used hs') :
    hs'.certificateStatusV2Expected = false := by
  unfold readCertificateStatus at h
  rw [Act.get_bind] at h
  by_cases htype : type = SSL3_MT_CERTIFICATE_STATUS
  · rw [if_neg (not_not.2 htype)] at h
    simp only [hv2, Bool.false_eq_true, if_false, Act.liftM_bind_ok_iff] at h
    obtain ⟨_, -, _, -, _, -, _, -, hset⟩ := h
    cases hset
    rfl
  · rw [if_pos htype] at h
    obtain ⟨_, -, hpure⟩ := (Act.liftM_bind_ok_iff _ _ _ _ _).1 h
    obtain ⟨-, rfl⟩ := (Act.pure_ok_iff _ _ _ _).1 hpure
    exact hv2

section
variable {above : StatusState → Bool} {exts : List StatusExt} {version : UInt16}
  {certificateAuth : Bool}

theorem refused_v2_iff (contents : Option Bytes) (hs : StatusState) :
    (StatusExt.statusRequestV2 contents).refused above hs = false ↔ hs.version < 0x0304 := by
  show decide (0x0304 ≤ hs.version) = false ↔ _
  rw [decide_eq_false_iff_not, UInt16.not_le]

/-- A ServerHello with the extension is scanned exactly if it has no other of the two. -/
theorem scan_v2_iff {contents : Bytes} (hmem : .statusRequestV2 (some contents) ∈ exts)
    (hs : StatusState) :
    exts.forM (StatusExt.parse above) (.new version certificateAuth) = .ok () hs ↔
      StatusExt.taken exts = [.statusRequestV2 (some [])] ∧ version < 0x0304 ∧
        certificateAuth = true ∧ hs = expecting version certificateAuth := by
  have htaken := mem_taken.2 ⟨hmem, rfl⟩
  rw [StatusExt.scan_ok_iff above exts _ hs rfl]
  constructor
  · rintro (⟨hnil, -⟩ | ⟨e, hsingle, hcontents, ⟨hversion, hauth⟩, rfl⟩)
    · rw [hnil] at htaken
      exact absurd htaken List.not_mem_nil
    · rw [hsingle, List.mem_singleton] at htaken
      subst htaken
      obtain rfl := Option.some.inj hcontents
      exact ⟨hsingle, (refused_v2_iff _ _).1 hversion, hauth, rfl⟩
  · rintro ⟨hsingle, hversion, hauth, rfl⟩
    exact .inr ⟨_, hsingle, rfl, ⟨(refused_v2_iff _ _).2 hversion, hauth⟩, rfl⟩

/-- Without the extension no list is expected. -/
theorem scan_no_v2 (hmem : ∀ contents, .statusRequestV2 (some contents) ∉ exts) {hs : StatusState}
    (h : exts.forM (StatusExt.parse above) (.new version certificateAuth) = .ok () hs) :
    hs.certificateStatusV2Expected = false := by
  rcases (StatusExt.scan_ok_iff above exts _ hs rfl).1 h with ⟨-, rfl⟩ | ⟨e, hsingle, hcontents, -, rfl⟩
  · rfl
  · cases e with
    | statusRequest => rfl
    | statusRequestV2 contents =>
      obtain rfl : contents = some [] := hcontents
      have hin : .statusRequestV2 (some []) ∈ StatusExt.taken exts := by
        rw [hsingle]
        exact List.mem_singleton_self _
      exact absurd (mem_taken.1 hin).1 (hmem [])

end

/-- **No stapling by half.**  If a server takes up `status_request_v2`, its handshake gets by
exactly if it sends this extension alone and empty, before TLS 1.3 and with a cipher that uses
certificates, and then a list of responses in the one encoding it has, of which each is good for
the certificate of its place and the issuer after it, on a chain that was verified and that is
longer than the list.  If it does not, neither the responses nor the chain are looked at. -/
theorem status_v2_enforced (above : StatusState → Bool) (checkOCSP : CheckOCSP) (version : UInt16)
    (certificateAuth : Bool) (exts : List StatusExt) (message : UInt8 × Bytes) (verifyRet : Int)
    (verifiedChain : Option (List Bytes)) (now : Int) :
    (∀ contents, .statusRequestV2 (some contents) ∈ exts →
      ((∃ hs', statusHandshake above checkOCSP exts message verifyRet verifiedChain now
          (.new version certificateAuth) = .ok () hs') ↔
        StatusExt.taken exts = [.statusRequestV2 (some [])] ∧ version < 0x0304 ∧
        certificateAuth = true ∧ ∃ responses chain : List Bytes,
          message = (SSL3_MT_CERTIFICATE_STATUS,
            TLSEXT_STATUSTYPE_ocsp_multi :: u24 (responses.flatMap u24)) ∧
          responses ≠ [] ∧ (∀ r ∈ responses, Staple r) ∧
          (responses.flatMap u24).length < 2 ^ 24 ∧ 0 < verifyRet ∧ verifiedChain = some chain ∧
          Stapled checkOCSP now responses chain)) ∧
    ((∀ contents, .statusRequestV2 (some contents) ∉ exts) →
      ∀ (checkOCSP' : CheckOCSP) verifyRet' verifiedChain' now',
        statusHandshake above checkOCSP' exts message verifyRet' verifiedChain' now'
          (.new version certificateAuth) =
        statusHandshake above checkOCSP exts message verifyRet verifiedChain now
          (.new version certificateAuth)) := by
  obtain ⟨type, body⟩ := message
  constructor
  · intro contents hmem
    unfold statusHandshake
    constructor
    · rintro ⟨hs', h⟩
      obtain ⟨_, hs, hscan, hrest⟩ := (Act.bind_ok_iff _ _ _ _ _).1 h
      obtain ⟨hsingle, hversion, hauth, rfl⟩ := (scan_v2_iff hmem hs).1 hscan
      rw [Act.get_bind, if_pos (expecting_expected _ _), Act.bind_ok_iff] at hrest
      obtain ⟨used, hs₁, hread, hverify⟩ := hrest
      obtain ⟨responses, rfl, rfl, hne, hstaples, hlen, -, rfl⟩ :=
        (read_expecting_iff _ _ _ _ _ _).1 hread
      obtain ⟨-, hret, chain, rfl, hstapled⟩ := (verify_expecting_iff rfl hne).1 hverify
      exact ⟨hsingle, hversion, hauth, responses, chain, rfl, hne, hstaples, hlen, hret, rfl,
        hstapled⟩
    · rintro ⟨hsingle, hversion, hauth, responses, chain, hmessage, hne, hstaples, hlen, hret, rfl,
        hstapled⟩
      obtain ⟨rfl, rfl⟩ := Prod.mk.inj hmessage
      refine ⟨{ expecting version certificateAuth with bridgeStatusV2Responses := responses },
        (Act.bind_ok_iff _ _ _ _ _).2
          ⟨(), _, (scan_v2_iff hmem _).2 ⟨hsingle, hversion, hauth, rfl⟩, ?_⟩⟩
      rw [Act.get_bind, if_pos (expecting_expected _ _), Act.bind_ok_iff]
      exact ⟨true, _, (read_expecting_iff _ _ _ _ _ _).2
          ⟨responses, rfl, rfl, hne, hstaples, hlen, rfl, rfl⟩,
        (verify_expecting_iff rfl hne).2 ⟨rfl, hret, chain, rfl, hstapled⟩⟩
  · intro hmem checkOCSP' verifyRet' verifiedChain' now'
    unfold statusHandshake
    refine Act.bind_congr_ok fun _ hs hscan => ?_
    have hv2 := scan_no_v2 hmem hscan
    rw [Act.get_bind, Act.get_bind]
    by_cases hexp : hs.certificateStatusExpected = true
    · rw [if_pos hexp, if_pos hexp]
      refine Act.bind_congr_ok fun _ hs' hread => ?_
      have hv2' := read_unexpected hv2 hread
      rw [verify_unexpected hv2', verify_unexpected hv2']
    · rw [if_neg hexp, if_neg hexp, verify_unexpected hv2, verify_unexpected hv2]

/-- A response for the leaf and the one above it; swapped; none; and under the old extension. -/
example : let checkOCSP : CheckOCSP := fun response certificate _ _ =>
      if response = certificate then (.GOOD, .PROVIDED) else (.UNKNOWN, .other)
    let run := fun exts message =>
      (statusHandshake (fun _ => false) checkOCSP exts message 1 (some [[1], [2], [3]]) 0).value?
        (.new 0x0303 true)
    run [.statusRequestV2 (some [])] (22, [2, 0, 0, 8, 0, 0, 1, 1, 0, 0, 1, 2]) = some () ∧
      run [.statusRequestV2 (some [])] (22, [2, 0, 0, 8, 0, 0, 1, 2, 0, 0, 1, 1]) = none ∧
      run [.statusRequestV2 (some [])] (14, []) = none ∧
      run [.statusRequest (some [])] (22, [1, 0, 0, 1, 1]) = some () := by
  decide +kernel

end Ssl
