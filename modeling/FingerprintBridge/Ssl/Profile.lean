import FingerprintBridge.Tls.Mirror

/-!
# `scripts/patches/bridge-tls.patch`: the profile of the outbound hello

The patched library is given the client's cipher list and writes it in that order, with a
GREASE value of its own and without the suites it cannot use.  `emitted_ciphers` says what
becomes of the client's list between the two wires.  The check of the server's choice is
from `bridge-ccm.patch`.
-/

namespace Ssl

open Tls (grease normalize)

/-! ## The code -/

def EMPTY_RENEGOTIATION_INFO_SCSV : UInt16 := 0x00ff

/-- What is asked of an `SSL_CIPHER`. -/
structure Suite where
  algorithmMkey : UInt32
  algorithmAuth : UInt32
  minVersion : UInt16
  maxVersion : UInt16
deriving DecidableEq, Repr

/-- `ssl->config`, with the protocol ids of the lists. -/
structure Config where
  ciphers : List UInt16
  tls13CipherList : Option (List UInt16)
  preserveTls13CipherList : Bool := false
  bridgeCipherOrder : List UInt16 := []
  bridgePadding : Int := -1
  bridgeScsvSent : Bool := false
deriving DecidableEq, Repr

/-- What the handshake has settled before the hello is written. -/
structure Handshake where
  /-- `type == ssl_client_hello_inner` -/
  inner : Bool
  initialHandshakeComplete : Bool
  maskK : UInt32
  maskA : UInt32
  minVersion : UInt16
  maxVersion : UInt16
  /-- `ssl_get_grease_value(hs, ssl_grease_cipher)` -/
  greaseCipher : UInt16
deriving DecidableEq, Repr

def enabled (config : Config) (id : UInt16) : Bool :=
  config.ciphers.contains id || (config.tls13CipherList.getD []).contains id

/-- `SSL_set_bridge_profile`; the result 0 is `none`. -/
def setBridgeProfile (config : Option Config) (initialHandshakeComplete : Bool)
    (ciphers : List UInt16) (padding : Int) : Option Config :=
  match config with
  | none => none
  | some config =>
    if initialHandshakeComplete || ciphers.length == 0 || decide (ciphers.length > 512) ||
        (padding != 0 && padding != 1) then none
    else if ciphers.all fun id =>
        id == EMPTY_RENEGOTIATION_INFO_SCSV || grease id || enabled config id then
      some { config with bridgeCipherOrder := ciphers, bridgePadding := padding }
    else none

/-- The locals of the loop. -/
structure Emission where
  ids : List UInt16 := []
  bridgeScsvSent : Bool := false
  anyEnabled : Bool := false
deriving DecidableEq, Repr

section
variable (lookup : UInt16 → Option Suite) (hs : Handshake)

/-- Neither masked nor out of the range of versions. -/
def usable (id : UInt16) : Bool :=
  match lookup id with
  | none => false
  | some cipher => cipher.algorithmMkey &&& hs.maskK == 0 && cipher.algorithmAuth &&& hs.maskA == 0 &&
      decide (cipher.minVersion ≤ hs.maxVersion) && decide (hs.minVersion ≤ cipher.maxVersion)

def emit (e : Emission) (id : UInt16) : Emission :=
  if id == EMPTY_RENEGOTIATION_INFO_SCSV then
    { e with ids := e.ids ++ [id], bridgeScsvSent := true }
  else if grease id then { e with ids := e.ids ++ [hs.greaseCipher] }
  else if usable lookup hs id then { e with ids := e.ids ++ [id], anyEnabled := true }
  else e

inductive Written where
  /-- The library's own list. -/
  | backend
  | error (reason : String)
  | list (ids : List UInt16) (bridgeScsvSent : Bool)
deriving DecidableEq, Repr

/-- The cipher list of a client hello. -/
def writeCiphers (config : Config) : Written :=
  if config.bridgeCipherOrder.isEmpty then .backend
  else if hs.inner || hs.initialHandshakeComplete then .error "UNSUPPORTED_PROTOCOL"
  else
    let e := config.bridgeCipherOrder.foldl (emit lookup hs) {}
    if e.anyEnabled then .list e.ids e.bridgeScsvSent else .error "NO_CIPHERS_AVAILABLE"

end

/-- The padding of the hello, where `heuristic` is the length the library would choose; 0 for
no extension. -/
def paddingLen (config : Config) (usedHelloRetryRequest : Bool) (heuristic : Nat) : Nat :=
  if config.bridgePadding != 0 && !usedHelloRetryRequest then
    if config.bridgePadding == 1 && heuristic == 0 then 1 else heuristic
  else 0

/-- Whether an extension of the server's hello is taken, by `sent` its own bit. -/
def serverMaySend (sent : UInt16 → Bool) (bridgeScsvSent initialHandshakeComplete : Bool)
    (type : UInt16) : Bool :=
  let signaledRi := type == 65281 && bridgeScsvSent && !initialHandshakeComplete
  sent type || signaledRi

/-- Whether the server's choice in TLS 1.3 is taken; `meetsPolicy` is
`ssl_tls13_cipher_meets_policy`. -/
def serverMaySelect (lookup : UInt16 → Option Suite) (meetsPolicy : UInt16 → Bool) (config : Config)
    (version : UInt16) (id : UInt16) : Bool :=
  let offered :=
    if !config.bridgeCipherOrder.isEmpty then config.bridgeCipherOrder.any (· == id)
    else if config.preserveTls13CipherList && !(config.tls13CipherList.getD []).isEmpty then
      (config.tls13CipherList.getD []).any (· == id)
    else id == 0x1301 || id == 0x1302 || id == 0x1303
  offered && match lookup id with
    | none => false
    | some cipher => decide (cipher.minVersion ≤ version) && decide (version ≤ cipher.maxVersion) &&
        meetsPolicy id

/-! ## What is written -/

section
variable {lookup : UInt16 → Option Suite} {hs : Handshake}

/-- What stays of a list. -/
def stays (lookup : UInt16 → Option Suite) (hs : Handshake) (id : UInt16) : Bool :=
  id == EMPTY_RENEGOTIATION_INFO_SCSV || grease id || usable lookup hs id

def put (hs : Handshake) (id : UInt16) : UInt16 := if grease id then hs.greaseCipher else id

theorem grease_scsv : grease EMPTY_RENEGOTIATION_INFO_SCSV = false := by decide

theorem emit_fold (order : List UInt16) (e : Emission) :
    order.foldl (emit lookup hs) e =
      { ids := e.ids ++ (order.filter (stays lookup hs)).map (put hs)
        bridgeScsvSent := e.bridgeScsvSent || order.contains EMPTY_RENEGOTIATION_INFO_SCSV
        anyEnabled := e.anyEnabled || order.any fun id =>
          id != EMPTY_RENEGOTIATION_INFO_SCSV && !grease id && usable lookup hs id } := by
  induction order generalizing e with
  | nil => simp
  | cons id order ih =>
    rw [List.foldl_cons, ih]
    unfold emit
    by_cases hid : id = EMPTY_RENEGOTIATION_INFO_SCSV
    · subst hid
      simp [stays, put, grease_scsv]
    · by_cases hg : grease id = true
      · simp [stays, put, hid, hg, Ne.symm hid]
      · by_cases hu : usable lookup hs id = true
        · simp [stays, put, hid, hg, hu, Ne.symm hid]
        · simp [stays, hid, hg, hu, Ne.symm hid]

/-- What a call that succeeds has set. -/
theorem setBridgeProfile_some {config : Option Config} {done : Bool} {order : List UInt16}
    {padding : Int} {config' : Config}
    (h : setBridgeProfile config done order padding = some config') :
    order ≠ [] ∧ (padding = 0 ∨ padding = 1) ∧ config'.bridgeCipherOrder = order ∧
      config'.bridgePadding = padding := by
  unfold setBridgeProfile at h
  split at h
  · cases h
  · split at h
    · cases h
    next hc =>
      split at h
      · cases h
        simp only [Bool.or_eq_true, not_or, Bool.and_eq_true, not_and] at hc
        refine ⟨fun h0 => hc.1.1.2 (by rw [h0]; rfl), ?_, rfl, rfl⟩
        by_cases hp : padding = 0
        · exact .inl hp
        · exact .inr (by simpa [hp] using hc.2)
      · cases h

/-- What a list that is written looks like. -/
theorem writeCiphers_list {config : Config} {ids : List UInt16} {scsv : Bool}
    (h : writeCiphers lookup hs config = .list ids scsv) :
    hs.inner = false ∧ hs.initialHandshakeComplete = false ∧
      ids = (config.bridgeCipherOrder.filter (stays lookup hs)).map (put hs) ∧
      scsv = config.bridgeCipherOrder.contains EMPTY_RENEGOTIATION_INFO_SCSV := by
  unfold writeCiphers at h
  split at h
  · cases h
  · split at h
    · cases h
    next hc =>
      simp only [Bool.or_eq_true, not_or, Bool.not_eq_true] at hc
      rw [emit_fold] at h
      dsimp only at h
      split at h
      · cases h
        exact ⟨hc.1, hc.2, rfl, by simp⟩
      · cases h

/-- GREASE is put for GREASE, so that the evidence does not show which. -/
theorem normalize_put (hg : grease hs.greaseCipher = true) (id : UInt16) :
    normalize (put hs id) = normalize id := by
  unfold put
  by_cases h : grease id = true
  · rw [if_pos h, Tls.normalize_grease hg, Tls.normalize_grease h]
  · rw [if_neg h]

end

section
variable {D : Tls.DigestCrates}

/-- The ciphers of a hello off the wire. -/
theorem ciphers_of_wire {b : Bytes} {hello : Tls.TlsHello} {l : Tls.Layout}
    (hb : Tls.parseHello D b = .ok hello) (hl : Tls.IsHello b l) :
    hello.ciphers = l.ciphers.map normalize := by
  obtain ⟨l0, hl0, -, seen, hadd⟩ := (Tls.parseHello_ok_iff D b hello).1 hb
  obtain rfl := hl.unique hl0
  exact (Tls.addAll_start _ hadd).2.1

theorem normalize_normalize (n : UInt16) : normalize (normalize n) = normalize n := by
  by_cases h : grease n = true
  · rw [Tls.normalize_grease h]
    decide
  · have hn := Bool.eq_false_iff.2 h
    rw [Tls.normalize_ungrease hn, Tls.normalize_ungrease hn]

end

/-- What becomes of the list that `mirror` hands to the library. -/
theorem written_profile {B : Tls.Backend} {hello : Tls.TlsHello} {lookup : UInt16 → Option Suite}
    {hs : Handshake} (hg : grease hs.greaseCipher = true)
    (hnorm : hello.ciphers.map normalize = hello.ciphers) :
    (((Tls.profile B hello).filter (stays lookup hs)).map (put hs)).map normalize =
      hello.ciphers.filter fun id => Tls.cipherSkip id ||
        (B.cipherName id).isSome && usable lookup hs id := by
  have hfilter : (Tls.profile B hello).filter (stays lookup hs) = hello.ciphers.filter fun id =>
      Tls.cipherSkip id || (B.cipherName id).isSome && usable lookup hs id := by
    unfold Tls.profile
    rw [List.filter_filter]
    refine List.filter_congr fun id _ => ?_
    unfold stays Tls.cipherSkip EMPTY_RENEGOTIATION_INFO_SCSV
    cases grease id <;> cases id == 0xff <;> simp [Bool.and_comm]
  rw [hfilter, List.map_map]
  refine (List.map_congr_left fun id hid => ?_).trans (List.map_id _)
  have hfix := List.map_inj_left.1 (hnorm.trans (List.map_id _).symm) id (List.mem_filter.1 hid).1
  exact (normalize_put hg id).trans hfix

/-- **The client's list on the other wire.**  The list written for the origin shows, but for the
choice of the GREASE value, the client's own list without the suites that the library does not
know or cannot use in this handshake.  So the outbound hello shows the client's list exactly if
there are none of these.  The signalling value is sent exactly if the client sent it, and then the
origin may answer it, and there is padding exactly if the client's hello had padding. -/
theorem emitted_ciphers (D : Tls.HexCrate) (B : Tls.Backend) {b : Bytes} {hello : Tls.TlsHello}
    {l : Tls.Layout} (hb : Tls.parseHello D.toDigestCrates b = .ok hello) (hl : Tls.IsHello b l)
    (host : Str) (ca : Option Str) {calls : List Tls.Call} {limitations : List Str}
    (hm : Tls.mirror D B true hello host ca = .ok (calls, limitations))
    {order : List UInt16} {padding : Bool} (hcall : .setBridgeProfile order padding ∈ calls)
    {config config' : Config}
    (hset : setBridgeProfile (some config) false order (if padding then 1 else 0) = some config')
    (lookup : UInt16 → Option Suite) (hs : Handshake) (hg : grease hs.greaseCipher = true)
    {ids : List UInt16} {scsv : Bool} (hw : writeCiphers lookup hs config' = .list ids scsv) :
    (∀ b' hello' l', Tls.parseHello D.toDigestCrates b' = .ok hello' → Tls.IsHello b' l' →
      l'.ciphers = ids →
      hello'.ciphers = hello.ciphers.filter (fun id => Tls.cipherSkip id ||
        (B.cipherName id).isSome && usable lookup hs id) ∧
      (hello'.ciphers = hello.ciphers ↔ ∀ id ∈ hello.ciphers, Tls.cipherSkip id = false →
        (B.cipherName id).isSome = true ∧ usable lookup hs id = true)) ∧
    (scsv = true ↔ 0xff ∈ hello.ciphers) ∧
    (∀ sent : UInt16 → Bool, sent 65281 = false →
      (serverMaySend sent scsv false 65281 = true ↔ 0xff ∈ hello.ciphers)) ∧
    ∀ heuristic, paddingLen config' false heuristic ≠ 0 ↔ 21 ∈ hello.extensions := by
  obtain ⟨-, heq⟩ := (Tls.mirror_ok_iff D B true hello host ca).1 _ hm
  obtain ⟨rfl, -⟩ := Prod.mk.inj heq
  obtain ⟨-, rfl, rfl⟩ := (Tls.mem_bridgeProfile hello host ca _ _).1 hcall
  obtain ⟨-, -, horder, hpadding⟩ := setBridgeProfile_some hset
  obtain ⟨-, -, rfl, rfl⟩ := writeCiphers_list hw
  rw [horder]
  have hnorm : hello.ciphers.map normalize = hello.ciphers := by
    rw [ciphers_of_wire hb hl, List.map_map]
    exact List.map_congr_left fun id _ => normalize_normalize id
  have hscsv : ((Tls.profile B hello).contains EMPTY_RENEGOTIATION_INFO_SCSV = true) ↔
      0xff ∈ hello.ciphers := by
    rw [List.contains_iff_mem]
    simp [Tls.profile, EMPTY_RENEGOTIATION_INFO_SCSV]
  refine ⟨fun b' hello' l' hb' hl' hids => ?_, hscsv, fun sent hsent => ?_, fun heuristic => ?_⟩
  · have hlist : hello'.ciphers = _ := (ciphers_of_wire hb' hl').trans
      ((congrArg (List.map normalize) hids).trans (written_profile hg hnorm))
    refine ⟨hlist, ?_⟩
    rw [hlist, List.filter_eq_self]
    refine forall₂_congr fun id _ => ?_
    cases Tls.cipherSkip id <;> simp
  · simp only [serverMaySend, hsent, Bool.false_or, beq_self_eq_true, Bool.true_and,
      Bool.not_false, Bool.and_true]
    exact hscsv
  · unfold paddingLen
    rw [hpadding]
    by_cases h21 : (21 : UInt16) ∈ hello.extensions
    · by_cases hh : heuristic = 0
      · simp [h21, hh]
      · simp [h21, hh]
    · simp [h21]

/-- A suite of TLS 1.3 and one of TLS 1.2. -/
def sampleSuites (id : UInt16) : Option Suite :=
  if id = 0x1301 then some ⟨0, 0, 0x0304, 0x0304⟩
  else if id = 0x1303 then some ⟨0, 0, 0x0304, 0x0304⟩
  else if id = 0xc02f then some ⟨2, 1, 0x0303, 0x0303⟩
  else none

/-- TLS 1.3 only. -/
def sampleHandshake : Handshake where
  inner := false
  initialHandshakeComplete := false
  maskK := 0
  maskA := 0
  minVersion := 0x0304
  maxVersion := 0x0304
  greaseCipher := 0x5a5a

def samplePeer : Tls.Backend := { Tls.sampleBackend with
  cipherName := fun id =>
    if id = 0x1301 then some "TLS_AES_128_GCM_SHA256".toList
    else if id = 0xc02f then some "ECDHE-RSA-AES128-GCM-SHA256".toList
    else none }

/-- The suites are enabled; `order` is the profile. -/
def sampleConfig (order : List UInt16) (padding : Int) : Config where
  ciphers := [0x1301, 0xc02f]
  tls13CipherList := none
  bridgeCipherOrder := order
  bridgePadding := padding

/-- A hello with these ciphers and no extension. -/
def plainHello (ciphers : List UInt16) : Tls.Layout where
  version := 0x0303
  random := List.replicate 32 0
  session := []
  ciphers := ciphers
  compression := [0]
  block := none

/-- What the bridge reads of it. -/
def plainFields (ciphers : List UInt16) : Tls.TlsHello where
  legacyVersion := 0x0303
  ciphers := ciphers
  compression := [0]

theorem plainHello_octets (ciphers : List UInt16) (h : ciphers.length < 32768) :
    Tls.IsHello (plainHello ciphers).octets (plainHello ciphers) := by
  refine ⟨rfl, rfl, by simp [plainHello], ?_, by simp [plainHello], ?_, ?_⟩
  · rw [Tls.flatMap_be16_length]
    show 2 * ciphers.length < 65536
    omega
  · simp [plainHello, Tls.Layout.extensions]
  · simp [plainHello, Tls.Layout.extensions]

/-- The suite of TLS 1.2 is left out and the GREASE value is another. -/
theorem emitted_ciphers_sample :
    writeCiphers sampleSuites sampleHandshake
      (sampleConfig [0x0a0a, 0x1301, 0xc02f] 0) = .list [0x5a5a, 0x1301] false ∧
    ¬(∀ id ∈ ([0x0a0a, 0x1301, 0xc02f] : List UInt16), Tls.cipherSkip id = false →
      (samplePeer.cipherName id).isSome = true ∧
        usable sampleSuites sampleHandshake id = true) := by
  have hb : Tls.parseHello Tls.sampleHex.toDigestCrates (plainHello [0x1a1a, 0x1301, 0xc02f]).octets
      = .ok (plainFields [0x0a0a, 0x1301, 0xc02f]) := by
    decide +kernel
  have hb' : Tls.parseHello Tls.sampleHex.toDigestCrates (plainHello [0x5a5a, 0x1301]).octets
      = .ok (plainFields [0x0a0a, 0x1301]) := by
    decide +kernel
  have hw : writeCiphers sampleSuites sampleHandshake
      (sampleConfig [0x0a0a, 0x1301, 0xc02f] 0) = .list [0x5a5a, 0x1301] false := by
    decide +kernel
  obtain ⟨⟨calls, limitations⟩, hm⟩ := (Tls.mirror_ok_iff Tls.sampleHex samplePeer true
    (plainFields [0x0a0a, 0x1301, 0xc02f]) "a.example".toList none).2.1 (fun _ _ => rfl)
    ⟨fun _ => ⟨rfl, rfl, rfl⟩, by decide, fun p hp => absurd hp List.not_mem_nil⟩
  have hcall : Tls.Call.setBridgeProfile [0x0a0a, 0x1301, 0xc02f] false ∈ calls := by
    obtain ⟨-, heq⟩ := (Tls.mirror_ok_iff Tls.sampleHex samplePeer true _ _ none).1 _ hm
    rw [(Prod.mk.inj heq).1]
    decide +kernel
  have hiff := ((emitted_ciphers Tls.sampleHex samplePeer hb (plainHello_octets _ (by decide)) _ none
    hm hcall (show setBridgeProfile (some (sampleConfig [] (-1))) _ _ _ = _ by decide +kernel)
    sampleSuites sampleHandshake (by decide) hw).1 _ _ _ hb'
    (plainHello_octets _ (by decide)) rfl).2
  exact ⟨hw, fun h => absurd (hiff.2 h) (by decide)⟩

/-- **The server's choice.**  Once the library has written a profile's list, the suites that it
lets the server choose in TLS 1.3 are those of this very list that fit the version: none that it
only knows, and none that it left out.  The suites of this version are masked by nothing. -/
theorem selected_offered {config config' : Config} {order : List UInt16} {padding : Int}
    (hset : setBridgeProfile (some config) false order padding = some config')
    {lookup : UInt16 → Option Suite} {hs : Handshake} (hg : grease hs.greaseCipher = true)
    {ids : List UInt16} {scsv : Bool} (hw : writeCiphers lookup hs config' = .list ids scsv)
    (hsignal : ∀ id, grease id = true ∨ id = EMPTY_RENEGOTIATION_INFO_SCSV → lookup id = none)
    {version : UInt16} (hmin : hs.minVersion ≤ version) (hmax : version ≤ hs.maxVersion)
    (hgeneric : ∀ id cipher, lookup id = some cipher → cipher.minVersion ≤ version →
      version ≤ cipher.maxVersion →
      cipher.algorithmMkey &&& hs.maskK = 0 ∧ cipher.algorithmAuth &&& hs.maskA = 0)
    (meetsPolicy : UInt16 → Bool) (id : UInt16) :
    serverMaySelect lookup meetsPolicy config' version id = true ↔
      id ∈ ids ∧ meetsPolicy id = true ∧ ∃ cipher, lookup id = some cipher ∧
        cipher.minVersion ≤ version ∧ version ≤ cipher.maxVersion := by
  obtain ⟨hne, -, horder, -⟩ := setBridgeProfile_some hset
  obtain ⟨-, -, rfl, -⟩ := writeCiphers_list hw
  rw [horder]
  have hsome : (!config'.bridgeCipherOrder.isEmpty) = true := by
    rw [horder]
    simpa using hne
  have hmem : ∀ cipher, lookup id = some cipher → cipher.minVersion ≤ version →
      version ≤ cipher.maxVersion →
      (id ∈ order ↔ id ∈ (order.filter (stays lookup hs)).map (put hs)) := by
    intro cipher hc hlo hhi
    have hng : grease id = false := by
      cases h : grease id with
      | false => rfl
      | true => rw [hsignal id (.inl h)] at hc; cases hc
    constructor
    · intro hid
      have hu : usable lookup hs id = true := by
        obtain ⟨hk, ha⟩ := hgeneric id cipher hc hlo hhi
        have h1 : cipher.minVersion ≤ hs.maxVersion := UInt16.le_trans hlo hmax
        have h2 : hs.minVersion ≤ cipher.maxVersion := UInt16.le_trans hmin hhi
        simp [usable, hc, hk, ha, h1, h2]
      refine List.mem_map.2 ⟨id, List.mem_filter.2 ⟨hid, ?_⟩, ?_⟩
      · simp [stays, hu]
      · simp [put, hng]
    · intro hid
      obtain ⟨id', hid', hput⟩ := List.mem_map.1 hid
      unfold put at hput
      split at hput
      · rw [← hput, hg] at hng
        cases hng
      · exact hput ▸ (List.mem_filter.1 hid').1
  unfold serverMaySelect
  rw [if_pos hsome, horder]
  cases hc : lookup id with
  | none => simp
  | some cipher =>
    simp only [Bool.and_eq_true, List.any_eq_true, beq_iff_eq, exists_eq_right, decide_eq_true_eq,
      Option.some.injEq, exists_eq_left']
    constructor
    · rintro ⟨hid, ⟨hlo, hhi⟩, hp⟩
      exact ⟨(hmem cipher hc hlo hhi).1 hid, hp, hlo, hhi⟩
    · rintro ⟨hid, hp, hlo, hhi⟩
      exact ⟨(hmem cipher hc hlo hhi).2 hid, ⟨hlo, hhi⟩, hp⟩

/-- One suite of the profile is left out, and one is not in it. -/
theorem selected_offered_sample :
    writeCiphers sampleSuites sampleHandshake (sampleConfig [0x1301, 0xc02f] 1) =
      .list [0x1301] false ∧
    serverMaySelect sampleSuites (fun _ => true) (sampleConfig [0x1301, 0xc02f] 1) 0x0304 0x1301 =
      true ∧
    ∀ id ∈ ([0xc02f, 0x1303] : List UInt16),
      serverMaySelect sampleSuites (fun _ => true) (sampleConfig [0x1301, 0xc02f] 1) 0x0304 id =
        false := by
  have hset : setBridgeProfile (some (sampleConfig [] (-1))) false [0x1301, 0xc02f] 1 =
      some (sampleConfig [0x1301, 0xc02f] 1) := by
    decide +kernel
  have hw : writeCiphers sampleSuites sampleHandshake (sampleConfig [0x1301, 0xc02f] 1) =
      .list [0x1301] false := by
    decide +kernel
  have hsignal : ∀ id, grease id = true ∨ id = EMPTY_RENEGOTIATION_INFO_SCSV →
      sampleSuites id = none := by
    intro id hid
    unfold sampleSuites
    rw [if_neg, if_neg, if_neg]
    all_goals
      rintro rfl
      exact absurd hid (by decide)
  have hgeneric : ∀ id cipher, sampleSuites id = some cipher → cipher.minVersion ≤ 0x0304 →
      (0x0304 : UInt16) ≤ cipher.maxVersion →
      cipher.algorithmMkey &&& sampleHandshake.maskK = 0 ∧
        cipher.algorithmAuth &&& sampleHandshake.maskA = 0 :=
    fun _ cipher _ _ _ => ⟨UInt32.and_zero, UInt32.and_zero⟩
  have hiff := selected_offered hset (by decide) hw hsignal (by decide) (by decide) hgeneric
    (fun _ => true)
  refine ⟨hw, (hiff 0x1301).2 ⟨by decide, rfl, _, rfl, by decide, by decide⟩, fun id hid => ?_⟩
  -- neither is in the list that was written
  refine Bool.eq_false_iff.2 fun h => absurd ((hiff id).1 h).1 ?_
  revert id
  decide

end Ssl
