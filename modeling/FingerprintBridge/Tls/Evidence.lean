import FingerprintBridge.Tls.Layout
import Mathlib.Data.List.Forall2

/-!
# What is compared of a ClientHello

Two hellos have the same `TlsHello` exactly if they agree on what the comparison is meant
to see (`Agree`).  What a hello holds for an extension (`slot`) is put there by that
extension alone, and shows what its body shows.
-/

namespace Tls

open Reader

/-! ## What is to be seen -/

/-- What a body shows. -/
inductive View where
  | hostName (present : Bool)
  | values (ws : List UInt16)
  | shares (entries : List (UInt16 × Nat))
  | whole (body : Bytes)
  | exempt
deriving DecidableEq, Repr

/-- The extensions that are not seen whole, but for the exempt ones. -/
def decoded : List UInt16 := [0, 10, 13, 27, 43, 51]

/-- The body of the extension `id` shows this. -/
inductive Shows : UInt16 → Bytes → View → Prop where
  | serverName (names : List (UInt8 × Bytes)) (hfit : ∀ n ∈ names, Fits16 n)
      (hlen : (names.flatMap nameOctets).length < 65536) :
      Shows 0 (vec16 (names.flatMap nameOctets)) (.hostName (names.any fun n => n.1 = 0))
  | values16 (id : UInt16) (xs : List UInt16) (hid : id = 10 ∨ id = 13)
      (hlen : (xs.flatMap be16).length < 65536) :
      Shows id (vec16 (xs.flatMap be16)) (.values (xs.map normalize))
  | values8 (id : UInt16) (xs : List UInt16) (hid : id = 27 ∨ id = 43)
      (hlen : (xs.flatMap be16).length < 256) :
      Shows id (vec8 (xs.flatMap be16)) (.values (xs.map normalize))
  | keyShare (es : List (UInt16 × Bytes)) (hfit : ∀ e ∈ es, Fits16 e)
      (hlen : (es.flatMap entryOctets).length < 65536) :
      Shows 51 (vec16 (es.flatMap entryOctets)) (.shares (es.map fun e => (normalize e.1, e.2.length)))
  | exempt (id : UInt16) (body : Bytes) (hid : exempt id = true) : Shows id body .exempt
  | whole (id : UInt16) (body : Bytes) (hid : id ∉ decoded) (hex : Tls.exempt id = false) :
      Shows id body (.whole body)

/-- Two hellos agree on all that is compared. -/
structure Agree (l l' : Layout) : Prop where
  version : l.version = l'.version
  compression : l.compression = l'.compression
  ciphers : l.ciphers.map normalize = l'.ciphers.map normalize
  ids : (l.extensions.map fun e => normalize e.1) = l'.extensions.map fun e => normalize e.1
  bodies : ∀ id body body', grease id = false → (id, body) ∈ l.extensions →
    (id, body') ∈ l'.extensions → ∃ v, Shows id body v ∧ Shows id body' v

/-- SHA-256 does not collide on the bodies compared. -/
def NoCollision (D : DigestCrates) (l l' : Layout) : Prop :=
  ∀ id body body', (id, body) ∈ l.extensions → (id, body') ∈ l'.extensions →
    D.sha256 body = D.sha256 body' → body = body'

/-! ## What is held -/

/-- What a hello holds for an extension. -/
inductive Slot where
  | present (b : Bool)
  | words (ws : List UInt16)
  | octets (b : Bytes)
  | names (ns : List Str)
  | shares (groups : List UInt16) (lengths : List Nat)
  | cert (ws : List UInt16) (digests : List (UInt16 × Str))
  | digests (ds : List (UInt16 × Str))
  | nothing
deriving DecidableEq, Repr

def slot (h : TlsHello) (id : UInt16) : Slot :=
  if id = 0 then .present h.sniPresent
  else if id = 10 then .words h.groups
  else if id = 11 then .octets h.pointFormats
  else if id = 13 then .words h.signatureAlgorithms
  else if id = 50 then .cert h.signatureAlgorithmsCert (h.otherExtensions.filter fun e => e.1 = id)
  else if id = 16 then .names h.alpn
  else if id = 27 then .words h.certCompression
  else if id = 43 then .words h.supportedVersions
  else if id = 45 then .octets h.pskModes
  else if id = 51 then .shares h.keyShareGroups h.keyShareLengths
  else if exempt id then .nothing
  else .digests (h.otherExtensions.filter fun e => e.1 = id)

/-- What the extensions do not touch. -/
def SameStart (h h' : TlsHello) : Prop :=
  h'.legacyVersion = h.legacyVersion ∧ h'.ciphers = h.ciphers ∧ h'.compression = h.compression ∧
    h'.extensions = h.extensions

/-- The extensions whose bodies are read. -/
def read : List UInt16 := [0, 10, 11, 13, 50, 16, 27, 43, 45, 51]

section
variable {D : DigestCrates}

/-- What adding an extension can do. -/
inductive Added (D : DigestCrates) (h : TlsHello) (raw : Bytes) : UInt16 → TlsHello → Prop where
  | serverName (p : Bool) (hp : serverName h.sniPresent raw = .ok p) :
      Added D h raw 0 { h with sniPresent := p }
  | groups (ws : List UInt16) (hws : wordList16 raw = .ok ws) :
      Added D h raw 10 { h with groups := ws }
  | pointFormats (b : Bytes) (hb : octets8 raw = .ok b) :
      Added D h raw 11 { h with pointFormats := b }
  | signatureAlgorithms (ws : List UInt16) (hws : wordList16 raw = .ok ws) :
      Added D h raw 13 { h with signatureAlgorithms := ws }
  | signatureAlgorithmsCert (ws : List UInt16) (hws : certAlgorithms raw = .ok ws) :
      Added D h raw 50 { h with
        signatureAlgorithmsCert := ws
        otherExtensions := h.otherExtensions ++ [(50, digest D raw)] }
  | alpn (ns : List Str) (hns : protocols D h.alpn raw = .ok ns) :
      Added D h raw 16 { h with alpn := ns }
  | certCompression (ws : List UInt16) (hws : wordList8 raw = .ok ws) :
      Added D h raw 27 { h with certCompression := ws }
  | supportedVersions (ws : List UInt16) (hws : wordList8 raw = .ok ws) :
      Added D h raw 43 { h with supportedVersions := ws }
  | pskModes (b : Bytes) (hb : octets8 raw = .ok b) :
      Added D h raw 45 { h with pskModes := b }
  | keyShare (shares : List UInt16 × List Nat)
      (hs : keyShares (h.keyShareGroups, h.keyShareLengths) raw = .ok shares) :
      Added D h raw 51 { h with keyShareGroups := shares.1, keyShareLengths := shares.2 }
  | exempt (id : UInt16) (hid : id ∉ read) (hex : exempt id = true) : Added D h raw id h
  | other (id : UInt16) (hid : id ∉ read) (hex : Tls.exempt id = false) :
      Added D h raw id { h with otherExtensions := h.otherExtensions ++ [(id, digest D raw)] }

theorem addExtension_added {h h' : TlsHello} {id : UInt16} {raw : Bytes}
    (hadd : addExtension D h id raw = .ok h') : Added D h raw id h' := by
  unfold addExtension at hadd
  by_cases h0 : id = 0
  · rw [if_pos h0] at hadd
    obtain ⟨r, hr, he⟩ := (Res.bind_ok_iff _ _ _).1 hadd
    cases he
    exact h0 ▸ .serverName r hr
  rw [if_neg h0] at hadd
  by_cases h10 : id = 10
  · rw [if_pos h10] at hadd
    obtain ⟨r, hr, he⟩ := (Res.bind_ok_iff _ _ _).1 hadd
    cases he
    exact h10 ▸ .groups r hr
  rw [if_neg h10] at hadd
  by_cases h11 : id = 11
  · rw [if_pos h11] at hadd
    obtain ⟨r, hr, he⟩ := (Res.bind_ok_iff _ _ _).1 hadd
    cases he
    exact h11 ▸ .pointFormats r hr
  rw [if_neg h11] at hadd
  by_cases h13 : id = 13
  · rw [if_pos h13] at hadd
    obtain ⟨r, hr, he⟩ := (Res.bind_ok_iff _ _ _).1 hadd
    cases he
    exact h13 ▸ .signatureAlgorithms r hr
  rw [if_neg h13] at hadd
  by_cases h50 : id = 50
  · rw [if_pos h50] at hadd
    obtain ⟨r, hr, he⟩ := (Res.bind_ok_iff _ _ _).1 hadd
    cases he
    subst h50
    exact .signatureAlgorithmsCert r hr
  rw [if_neg h50] at hadd
  by_cases h16 : id = 16
  · rw [if_pos h16] at hadd
    obtain ⟨r, hr, he⟩ := (Res.bind_ok_iff _ _ _).1 hadd
    cases he
    exact h16 ▸ .alpn r hr
  rw [if_neg h16] at hadd
  by_cases h27 : id = 27
  · rw [if_pos h27] at hadd
    obtain ⟨r, hr, he⟩ := (Res.bind_ok_iff _ _ _).1 hadd
    cases he
    exact h27 ▸ .certCompression r hr
  rw [if_neg h27] at hadd
  by_cases h43 : id = 43
  · rw [if_pos h43] at hadd
    obtain ⟨r, hr, he⟩ := (Res.bind_ok_iff _ _ _).1 hadd
    cases he
    exact h43 ▸ .supportedVersions r hr
  rw [if_neg h43] at hadd
  by_cases h45 : id = 45
  · rw [if_pos h45] at hadd
    obtain ⟨r, hr, he⟩ := (Res.bind_ok_iff _ _ _).1 hadd
    cases he
    exact h45 ▸ .pskModes r hr
  rw [if_neg h45] at hadd
  by_cases h51 : id = 51
  · rw [if_pos h51] at hadd
    obtain ⟨r, hr, he⟩ := (Res.bind_ok_iff _ _ _).1 hadd
    cases he
    exact h51 ▸ .keyShare r hr
  rw [if_neg h51] at hadd
  have hread : id ∉ read := by
    simp only [read, List.mem_cons, List.not_mem_nil, not_or, or_false]
    exact ⟨h0, h10, h11, h13, h50, h16, h27, h43, h45, h51⟩
  by_cases hex : exempt id = true
  · rw [if_pos hex] at hadd
    cases hadd
    exact .exempt id hread hex
  · rw [if_neg hex] at hadd
    cases hadd
    exact .other id hread (Bool.eq_false_iff.2 hex)

/-- An extension touches its own slot only. -/
theorem Added.frame {h h' : TlsHello} {id : UInt16} {raw : Bytes} (hadd : Added D h raw id h') :
    SameStart h h' ∧ ∀ id', id' ≠ id → slot h' id' = slot h id' := by
  cases hadd with
  | serverName | groups | pointFormats | signatureAlgorithms | alpn | certCompression
  | supportedVersions | pskModes | keyShare =>
    exact ⟨⟨rfl, rfl, rfl, rfl⟩, fun id' hne => by simp only [slot, hne, if_false]⟩
  | signatureAlgorithmsCert =>
    exact ⟨⟨rfl, rfl, rfl, rfl⟩, fun id' hne => by simp [slot, hne, Ne.symm hne]⟩
  | exempt => exact ⟨⟨rfl, rfl, rfl, rfl⟩, fun id' hne => rfl⟩
  | other => exact ⟨⟨rfl, rfl, rfl, rfl⟩, fun id' hne => by simp [slot, Ne.symm hne]⟩

end

/-! ## What a body that is taken shows -/

theorem shows_serverName {present p : Bool} {raw : Bytes} (hp : serverName present raw = .ok p) :
    ∃ q, p = (present || q) ∧ ∀ v, Shows 0 raw v ↔ v = .hostName q := by
  obtain ⟨names, hfit, hlen, rfl, -, rfl⟩ := (serverName_ok_iff present p raw).1 hp
  refine ⟨_, rfl, fun v => ⟨fun hv => ?_, fun hv => ?_⟩⟩
  · generalize hraw : vec16 (names.flatMap nameOctets) = raw at hv
    cases hv with
    | serverName names' hfit' hlen' =>
      have hvec : vec16 (names.flatMap nameOctets) ++ [] = vec16 (names'.flatMap nameOctets) ++ [] := by
        rw [hraw]
      obtain ⟨hnames, -⟩ := parses_v16.inj ⟨hlen, rfl⟩ ⟨hlen', rfl⟩ hvec
      rw [parses_name.flatMap_inj (fun n => List.cons_ne_nil _ _) names names' hfit hfit' hnames]
    | values16 _ xs hid => exact absurd hid (by decide)
    | values8 _ xs hid => exact absurd hid (by decide)
    | exempt _ _ hid => exact absurd hid (by decide)
    | whole _ _ hid => exact absurd hid (by decide)
  · rw [hv]
    exact .serverName names hfit hlen

theorem shows_wordList16 {id : UInt16} (hid : id = 10 ∨ id = 13) {ws : List UInt16} {raw : Bytes}
    (hws : wordList16 raw = .ok ws) (v : View) : Shows id raw v ↔ v = .values ws := by
  constructor
  · intro hv
    cases hv with
    | values16 _ xs _ hlen =>
      have hxs := (wordList16_ok_iff _ _).2 ⟨xs, hlen, rfl, rfl⟩
      rw [Except.ok.inj (hxs.symm.trans hws)]
    | serverName => exact absurd hid (by decide)
    | values8 _ xs hid' => rcases hid with rfl | rfl <;> exact absurd hid' (by decide)
    | keyShare => exact absurd hid (by decide)
    | exempt _ _ hid' => rcases hid with rfl | rfl <;> exact absurd hid' (by decide)
    | whole _ _ hid' => rcases hid with rfl | rfl <;> exact absurd hid' (by decide)
  · rintro rfl
    obtain ⟨xs, hlen, rfl, rfl⟩ := (wordList16_ok_iff _ _).1 hws
    exact .values16 id xs hid hlen

theorem shows_wordList8 {id : UInt16} (hid : id = 27 ∨ id = 43) {ws : List UInt16} {raw : Bytes}
    (hws : wordList8 raw = .ok ws) (v : View) : Shows id raw v ↔ v = .values ws := by
  constructor
  · intro hv
    cases hv with
    | values8 _ xs _ hlen =>
      have hxs := (wordList8_ok_iff _ _).2 ⟨xs, hlen, rfl, rfl⟩
      rw [Except.ok.inj (hxs.symm.trans hws)]
    | serverName => exact absurd hid (by decide)
    | values16 _ xs hid' => rcases hid with rfl | rfl <;> exact absurd hid' (by decide)
    | keyShare => exact absurd hid (by decide)
    | exempt _ _ hid' => rcases hid with rfl | rfl <;> exact absurd hid' (by decide)
    | whole _ _ hid' => rcases hid with rfl | rfl <;> exact absurd hid' (by decide)
  · rintro rfl
    obtain ⟨xs, hlen, rfl, rfl⟩ := (wordList8_ok_iff _ _).1 hws
    exact .values8 id xs hid hlen

theorem shows_keyShares {shares shares' : List UInt16 × List Nat} {raw : Bytes}
    (hs : keyShares shares raw = .ok shares') :
    ∃ es : List (UInt16 × Nat), shares' = (shares.1 ++ es.map Prod.fst, shares.2 ++ es.map Prod.snd) ∧
      ∀ v, Shows 51 raw v ↔ v = .shares es := by
  obtain ⟨es, hfit, hlen, rfl, rfl⟩ := (keyShares_ok_iff shares shares' raw).1 hs
  refine ⟨es.map fun e => (normalize e.1, e.2.length), ?_, fun v => ⟨fun hv => ?_, fun hv => ?_⟩⟩
  · rw [List.map_map, List.map_map]
    rfl
  · generalize hraw : vec16 (es.flatMap entryOctets) = raw at hv
    cases hv with
    | keyShare es' hfit' hlen' =>
      have hvec : vec16 (es.flatMap entryOctets) ++ [] = vec16 (es'.flatMap entryOctets) ++ [] := by
        rw [hraw]
      obtain ⟨hes, -⟩ := parses_v16.inj ⟨hlen, rfl⟩ ⟨hlen', rfl⟩ hvec
      rw [parses_entry.flatMap_inj (fun e => List.cons_ne_nil _ _) es es' hfit hfit' hes]
    | values16 _ xs hid => exact absurd hid (by decide)
    | values8 _ xs hid => exact absurd hid (by decide)
    | exempt _ _ hid => exact absurd hid (by decide)
    | whole _ _ hid => exact absurd hid (by decide)
  · rw [hv]
    exact .keyShare es hfit hlen

theorem shows_whole {id : UInt16} (hid : id ∉ decoded) (hex : exempt id = false) (raw : Bytes)
    (v : View) : Shows id raw v ↔ v = .whole raw := by
  constructor
  · intro hv
    cases hv with
    | whole => rfl
    | serverName => exact absurd hid (by decide)
    | values16 _ xs hid' => rcases hid' with rfl | rfl <;> exact absurd hid (by decide)
    | values8 _ xs hid' => rcases hid' with rfl | rfl <;> exact absurd hid (by decide)
    | keyShare => exact absurd hid (by decide)
    | exempt _ _ hid' => rw [hex] at hid'; cases hid'
  · rintro rfl
    exact .whole id raw hid hex

theorem not_mem_decoded {id : UInt16} (hid : id ∉ read) : id ∉ decoded := by
  intro h
  apply hid
  simp only [decoded, List.mem_cons, List.not_mem_nil, or_false] at h
  simp only [read, List.mem_cons, List.not_mem_nil, or_false]
  tauto

section
variable {D : DigestCrates}

/-- Bodies that show the same do the same. -/
theorem addExtension_congr {h k k' : TlsHello} {id : UInt16} {raw raw' : Bytes} {v : View}
    (hk : addExtension D h id raw = .ok k) (hk' : addExtension D h id raw' = .ok k')
    (hv : Shows id raw v) (hv' : Shows id raw' v) : k = k' := by
  by_cases hwhole : id ∉ decoded ∧ exempt id = false
  · -- the bodies are the same, and the rest is a function of them
    have hr := (shows_whole hwhole.1 hwhole.2 raw v).1 hv
    have hr' := (shows_whole hwhole.1 hwhole.2 raw' v).1 hv'
    obtain rfl := View.whole.inj (hr.symm.trans hr')
    exact Except.ok.inj (hk.symm.trans hk')
  have hadd := addExtension_added hk
  have hadd' := addExtension_added hk'
  clear hk hk'
  cases hadd with
  | serverName p hp =>
    cases hadd' with
    | serverName p' hp' =>
      obtain ⟨q, rfl, hq⟩ := shows_serverName hp
      obtain ⟨q', rfl, hq'⟩ := shows_serverName hp'
      rw [View.hostName.inj (((hq v).1 hv).symm.trans ((hq' v).1 hv'))]
    | exempt _ hid | other _ hid => exact absurd hid (by decide)
  | groups ws hws =>
    cases hadd' with
    | groups ws' hws' =>
      have he := (shows_wordList16 (by decide) hws v).1 hv
      rw [View.values.inj (he.symm.trans ((shows_wordList16 (by decide) hws' v).1 hv'))]
    | exempt _ hid | other _ hid => exact absurd hid (by decide)
  | signatureAlgorithms ws hws =>
    cases hadd' with
    | signatureAlgorithms ws' hws' =>
      have he := (shows_wordList16 (by decide) hws v).1 hv
      rw [View.values.inj (he.symm.trans ((shows_wordList16 (by decide) hws' v).1 hv'))]
    | exempt _ hid | other _ hid => exact absurd hid (by decide)
  | certCompression ws hws =>
    cases hadd' with
    | certCompression ws' hws' =>
      have he := (shows_wordList8 (by decide) hws v).1 hv
      rw [View.values.inj (he.symm.trans ((shows_wordList8 (by decide) hws' v).1 hv'))]
    | exempt _ hid | other _ hid => exact absurd hid (by decide)
  | supportedVersions ws hws =>
    cases hadd' with
    | supportedVersions ws' hws' =>
      have he := (shows_wordList8 (by decide) hws v).1 hv
      rw [View.values.inj (he.symm.trans ((shows_wordList8 (by decide) hws' v).1 hv'))]
    | exempt _ hid | other _ hid => exact absurd hid (by decide)
  | keyShare shares hs =>
    cases hadd' with
    | keyShare shares' hs' =>
      obtain ⟨es, rfl, hes⟩ := shows_keyShares hs
      obtain ⟨es', rfl, hes'⟩ := shows_keyShares hs'
      rw [View.shares.inj (((hes v).1 hv).symm.trans ((hes' v).1 hv'))]
    | exempt _ hid | other _ hid => exact absurd hid (by decide)
  | pointFormats | signatureAlgorithmsCert | alpn | pskModes =>
    exact absurd ⟨by decide, by decide⟩ hwhole
  | exempt _ hid hex =>
    cases hadd' with
    | exempt => rfl
    | other _ _ hex' => exact absurd (hex.symm.trans hex') (by decide)
    | _ => exact absurd hid (by decide)
  | other _ hid hex => exact absurd ⟨not_mem_decoded hid, hex⟩ hwhole

/-- The hello that holds nothing yet. -/
def blank : TlsHello := { legacyVersion := 0, ciphers := [], compression := [] }

theorem slot_other {id : UInt16} (hid : id ∉ read) (hex : exempt id = false) (h : TlsHello) :
    slot h id = .digests (h.otherExtensions.filter fun e => e.1 = id) := by
  simp only [read, List.mem_cons, List.not_mem_nil, or_false, not_or] at hid
  obtain ⟨h0, h10, h11, h13, h50, h16, h27, h43, h45, h51⟩ := hid
  unfold slot
  rw [if_neg h0, if_neg h10, if_neg h11, if_neg h13, if_neg h50, if_neg h16, if_neg h27, if_neg h43,
    if_neg h45, if_neg h51, hex]
  rfl

/-- The digest last added is the only one under its id. -/
theorem digest_of_filter {os os' : List (UInt16 × Str)} {id : UInt16} {d d' : Str}
    (hos : (os.filter fun e => e.1 = id) = []) (hos' : (os'.filter fun e => e.1 = id) = [])
    (heq : ((os ++ [(id, d)]).filter fun e => e.1 = id) =
      (os' ++ [(id, d')]).filter fun e => e.1 = id) : d = d' := by
  rw [List.filter_append, List.filter_append, hos, hos'] at heq
  simpa using heq

/-- Bodies that leave the same do show the same, unless their digests collide. -/
theorem Added.reflects {h h' k k' : TlsHello} {id : UInt16} {raw raw' : Bytes}
    (hk : Added D h raw id k) (hk' : Added D h' raw' id k') (hh : slot h id = slot blank id)
    (hh' : slot h' id = slot blank id) (heq : slot k id = slot k' id)
    (hcol : D.sha256 raw = D.sha256 raw' → raw = raw') :
    ∃ v, Shows id raw v ∧ Shows id raw' v := by
  have hwhole : raw = raw' → id ∉ decoded → Tls.exempt id = false →
      ∃ v, Shows id raw v ∧ Shows id raw' v := by
    rintro rfl hid hex
    exact ⟨_, .whole id raw hid hex, .whole id raw hid hex⟩
  have hdigest : digest D raw = digest D raw' → raw = raw' := fun h => hcol (D.hexEncode_inj h)
  cases hk with
  | serverName p hp =>
    cases hk' with
    | serverName p' hp' =>
      obtain ⟨q, rfl, hq⟩ := shows_serverName hp
      obtain ⟨q', rfl, hq'⟩ := shows_serverName hp'
      rw [Slot.present.inj hh, Slot.present.inj hh'] at heq
      exact ⟨_, (hq _).2 rfl, (hq' _).2 (congrArg _ (Slot.present.inj heq))⟩
    | exempt _ hid | other _ hid => exact absurd hid (by decide)
  | groups ws hws =>
    cases hk' with
    | groups ws' hws' =>
      obtain rfl : ws = ws' := Slot.words.inj heq
      exact ⟨_, (shows_wordList16 (by decide) hws _).2 rfl, (shows_wordList16 (by decide) hws' _).2 rfl⟩
    | exempt _ hid | other _ hid => exact absurd hid (by decide)
  | signatureAlgorithms ws hws =>
    cases hk' with
    | signatureAlgorithms ws' hws' =>
      obtain rfl : ws = ws' := Slot.words.inj heq
      exact ⟨_, (shows_wordList16 (by decide) hws _).2 rfl, (shows_wordList16 (by decide) hws' _).2 rfl⟩
    | exempt _ hid | other _ hid => exact absurd hid (by decide)
  | certCompression ws hws =>
    cases hk' with
    | certCompression ws' hws' =>
      obtain rfl : ws = ws' := Slot.words.inj heq
      exact ⟨_, (shows_wordList8 (by decide) hws _).2 rfl, (shows_wordList8 (by decide) hws' _).2 rfl⟩
    | exempt _ hid | other _ hid => exact absurd hid (by decide)
  | supportedVersions ws hws =>
    cases hk' with
    | supportedVersions ws' hws' =>
      obtain rfl : ws = ws' := Slot.words.inj heq
      exact ⟨_, (shows_wordList8 (by decide) hws _).2 rfl, (shows_wordList8 (by decide) hws' _).2 rfl⟩
    | exempt _ hid | other _ hid => exact absurd hid (by decide)
  | keyShare shares hs =>
    cases hk' with
    | keyShare shares' hs' =>
      obtain ⟨es, rfl, hes⟩ := shows_keyShares hs
      obtain ⟨es', rfl, hes'⟩ := shows_keyShares hs'
      obtain ⟨hg, hl⟩ := Slot.shares.inj hh
      obtain ⟨hg', hl'⟩ := Slot.shares.inj hh'
      obtain ⟨h1, h2⟩ := Slot.shares.inj heq
      rw [hg, hg'] at h1
      rw [hl, hl'] at h2
      obtain rfl : es = es' := (List.zip_of_prod rfl rfl).trans (List.zip_of_prod h1.symm h2.symm).symm
      exact ⟨_, (hes _).2 rfl, (hes' _).2 rfl⟩
    | exempt _ hid | other _ hid => exact absurd hid (by decide)
  | pointFormats b hb =>
    cases hk' with
    | pointFormats b' hb' =>
      obtain rfl : b = b' := Slot.octets.inj heq
      have hraw := ((octets8_ok_iff _ _).1 hb).2.trans ((octets8_ok_iff _ _).1 hb').2.symm
      exact hwhole hraw (by decide) (by decide)
    | exempt _ hid | other _ hid => exact absurd hid (by decide)
  | pskModes b hb =>
    cases hk' with
    | pskModes b' hb' =>
      obtain rfl : b = b' := Slot.octets.inj heq
      have hraw := ((octets8_ok_iff _ _).1 hb).2.trans ((octets8_ok_iff _ _).1 hb').2.symm
      exact hwhole hraw (by decide) (by decide)
    | exempt _ hid | other _ hid => exact absurd hid (by decide)
  | alpn ns hns =>
    cases hk' with
    | alpn ns' hns' =>
      obtain ⟨ps, -, -, rfl, -, rfl⟩ := (protocols_ok_iff D _ _ _).1 hns
      obtain ⟨ps', -, -, rfl, -, rfl⟩ := (protocols_ok_iff D _ _ _).1 hns'
      have hps := Slot.names.inj heq
      rw [Slot.names.inj hh, Slot.names.inj hh'] at hps
      obtain rfl := D.hexEncode_inj.list_map hps
      exact hwhole rfl (by decide) (by decide)
    | exempt _ hid | other _ hid => exact absurd hid (by decide)
  | signatureAlgorithmsCert ws hws =>
    cases hk' with
    | signatureAlgorithmsCert ws' hws' =>
      obtain ⟨-, hd⟩ := Slot.cert.inj hh
      obtain ⟨-, hd'⟩ := Slot.cert.inj hh'
      obtain ⟨-, he⟩ := Slot.cert.inj heq
      exact hwhole (hdigest (digest_of_filter hd hd' he)) (by decide) (by decide)
    | exempt _ hid | other _ hid => exact absurd hid (by decide)
  | exempt _ hid hex => exact ⟨.exempt, .exempt id raw hex, .exempt id raw' hex⟩
  | other _ hid hex =>
    cases hk' with
    | exempt _ _ hex' => exact absurd (hex.symm.trans hex') (by decide)
    | other =>
      rw [slot_other hid hex] at heq hh hh'
      rw [slot_other hid hex] at heq hh hh'
      have hraw := digest_of_filter (Slot.digests.inj hh) (Slot.digests.inj hh') (Slot.digests.inj heq)
      exact hwhole (hdigest hraw) (not_mem_decoded hid) hex
    | _ => exact absurd hid (by decide)

/-! ## All extensions, one after the other -/

/-- An extension with an id of its own. -/
theorem extension_ok_iff (seen seen' : List UInt16) (h h' : TlsHello) (id : UInt16) (raw : Bytes) :
    extension D (seen, h) id raw = .ok (seen', h') ↔ id ∉ seen ∧ seen' = id :: seen ∧
      if grease id then h' = { h with extensions := h.extensions ++ [normalize id] }
      else addExtension D { h with extensions := h.extensions ++ [normalize id] } id raw = .ok h' := by
  unfold extension
  simp only [Res.bind_ok_iff, Res.ensure_ok_iff]
  cases hg : grease id with
  | true =>
    constructor
    · rintro ⟨_, hid, hr⟩
      cases hr
      exact ⟨hid, rfl, rfl⟩
    · rintro ⟨hid, rfl, rfl⟩
      exact ⟨(), hid, rfl⟩
  | false =>
    constructor
    · rintro ⟨_, hid, hr⟩
      obtain ⟨k, hk, he⟩ := (Res.bind_ok_iff _ _ _).1 hr
      cases he
      exact ⟨hid, rfl, hk⟩
    · rintro ⟨hid, rfl, hk⟩
      exact ⟨(), hid, (Res.bind_ok_iff _ _ _).2 ⟨h', hk, rfl⟩⟩

/-- What one extension leaves as it was. -/
theorem extension_frame {seen seen' : List UInt16} {h h' : TlsHello} {id : UInt16} {raw : Bytes}
    (hstep : extension D (seen, h) id raw = .ok (seen', h')) :
    SameStart { h with extensions := h.extensions ++ [normalize id] } h' ∧
      ∀ id', id' ≠ id → slot h' id' = slot h id' := by
  obtain ⟨-, -, hadd⟩ := (extension_ok_iff _ _ _ _ _ _).1 hstep
  split at hadd
  · subst hadd
    exact ⟨⟨rfl, rfl, rfl, rfl⟩, fun id' _ => rfl⟩
  · exact (addExtension_added hadd).frame

theorem addAll_start (es : List (UInt16 × Bytes)) {seen seen' : List UInt16} {h h' : TlsHello}
    (hrun : es.foldlM (fun state e => extension D state e.1 e.2) (seen, h) = .ok (seen', h')) :
    SameStart { h with extensions := h.extensions ++ es.map fun e => normalize e.1 } h' := by
  induction es generalizing seen h with
  | nil =>
    cases hrun
    exact ⟨rfl, rfl, rfl, (List.append_nil _).symm⟩
  | cons e es ih =>
    rw [List.foldlM_cons] at hrun
    obtain ⟨⟨seen1, h1⟩, hstep, hrest⟩ := (Res.bind_ok_iff _ _ _).1 hrun
    obtain ⟨⟨hversion, hciphers, hcompression, hids⟩, -⟩ := extension_frame hstep
    obtain ⟨hversion', hciphers', hcompression', hids'⟩ := ih hrest
    refine ⟨hversion'.trans hversion, hciphers'.trans hciphers, hcompression'.trans hcompression, ?_⟩
    rw [hids']
    show h1.extensions ++ _ = _
    rw [hids, List.map_cons, List.append_assoc]
    rfl

/-- What is held for an id that was seen stays. -/
theorem addAll_kept (es : List (UInt16 × Bytes)) {seen seen' : List UInt16} {h h' : TlsHello}
    (hrun : es.foldlM (fun state e => extension D state e.1 e.2) (seen, h) = .ok (seen', h')) :
    ∀ id ∈ seen, slot h' id = slot h id := by
  induction es generalizing seen h with
  | nil =>
    cases hrun
    exact fun id _ => rfl
  | cons e es ih =>
    intro id hid
    rw [List.foldlM_cons] at hrun
    obtain ⟨⟨seen1, h1⟩, hstep, hrest⟩ := (Res.bind_ok_iff _ _ _).1 hrun
    obtain ⟨hnew, rfl, -⟩ := (extension_ok_iff _ _ _ _ _ _).1 hstep
    have hne : id ≠ e.1 := fun h0 => hnew (h0 ▸ hid)
    exact (ih hrest id (List.mem_cons_of_mem _ hid)).trans ((extension_frame hstep).2 id hne)

/-- What is held in the end for an extension is what it put there, where nothing was. -/
theorem addAll_slot (es : List (UInt16 × Bytes)) {seen seen' : List UInt16} {h h' : TlsHello}
    (hfresh : ∀ id ∉ seen, slot h id = slot blank id)
    (hrun : es.foldlM (fun state e => extension D state e.1 e.2) (seen, h) = .ok (seen', h')) :
    ∀ e ∈ es, grease e.1 = false → ∃ k k', slot k e.1 = slot blank e.1 ∧ Added D k e.2 e.1 k' ∧
      slot h' e.1 = slot k' e.1 := by
  induction es generalizing seen h with
  | nil => exact fun e he => absurd he List.not_mem_nil
  | cons e es ih =>
    rw [List.foldlM_cons] at hrun
    obtain ⟨⟨seen1, h1⟩, hstep, hrest⟩ := (Res.bind_ok_iff _ _ _).1 hrun
    obtain ⟨hnew, rfl, hadd⟩ := (extension_ok_iff _ _ _ _ _ _).1 hstep
    have hfresh1 : ∀ id ∉ e.1 :: seen, slot h1 id = slot blank id := by
      intro id hid
      obtain ⟨hne, hid⟩ := not_or.1 fun h0 => hid (List.mem_cons.2 h0)
      exact ((extension_frame hstep).2 id hne).trans (hfresh id hid)
    refine List.forall_mem_cons.2 ⟨fun hg => ?_, ih hfresh1 hrest⟩
    rw [hg] at hadd
    exact ⟨{ h with extensions := h.extensions ++ [normalize e.1] }, h1, hfresh e.1 hnew,
      addExtension_added hadd, addAll_kept es hrest e.1 List.mem_cons_self⟩

end

/-! ## GREASE -/

theorem normalize_grease {n : UInt16} (hn : grease n = true) : normalize n = 0x0a0a := by
  unfold normalize
  rw [hn]
  rfl

theorem normalize_ungrease {n : UInt16} (hn : grease n = false) : normalize n = n := by
  unfold normalize
  rw [hn]
  rfl

theorem eq_of_normalize {m n : UInt16} (hm : grease m = false) (h : normalize m = normalize n) :
    m = n := by
  rw [normalize_ungrease hm] at h
  cases hn : grease n with
  | true =>
    rw [normalize_grease hn] at h
    subst h
    exact absurd hm (by decide)
  | false => rw [h, normalize_ungrease hn]

section
variable {D : DigestCrates}

/-- Two extensions that leave the same. -/
def Alike (e e' : UInt16 × Bytes) : Prop :=
  normalize e.1 = normalize e'.1 ∧
    (grease e.1 = false → ∃ v, Shows e.1 e.2 v ∧ Shows e.1 e'.2 v)

theorem extension_congr {seen seen' s s' : List UInt16} {h k k' : TlsHello} {e e' : UInt16 × Bytes}
    (halike : Alike e e') (hk : extension D (seen, h) e.1 e.2 = .ok (s, k))
    (hk' : extension D (seen', h) e'.1 e'.2 = .ok (s', k')) : k = k' := by
  obtain ⟨hids, hshows⟩ := halike
  obtain ⟨-, -, hadd⟩ := (extension_ok_iff _ _ _ _ _ _).1 hk
  obtain ⟨-, -, hadd'⟩ := (extension_ok_iff _ _ _ _ _ _).1 hk'
  cases hg : grease e.1 with
  | true =>
    have hg' : grease e'.1 = true := by
      by_contra hg'
      obtain h0 := eq_of_normalize (Bool.eq_false_iff.2 hg') hids.symm
      exact hg' (h0 ▸ hg)
    rw [hg] at hadd
    rw [hg'] at hadd'
    rw [show k = _ from hadd, show k' = _ from hadd', hids]
  | false =>
    obtain ⟨v, hv, hv'⟩ := hshows hg
    have hid := eq_of_normalize hg hids
    rw [← hid, hg] at hadd'
    rw [hg] at hadd
    exact addExtension_congr hadd hadd' hv hv'

/-- Extensions that are alike one by one leave the same. -/
theorem addAll_congr {es es' : List (UInt16 × Bytes)} (halike : List.Forall₂ Alike es es')
    {seen seen' s s' : List UInt16} {h k k' : TlsHello}
    (hk : es.foldlM (fun state e => extension D state e.1 e.2) (seen, h) = .ok (s, k))
    (hk' : es'.foldlM (fun state e => extension D state e.1 e.2) (seen', h) = .ok (s', k')) :
    k = k' := by
  induction halike generalizing seen seen' h with
  | nil =>
    cases hk
    cases hk'
    rfl
  | cons he _ ih =>
    rw [List.foldlM_cons] at hk hk'
    obtain ⟨⟨seen1, h1⟩, hstep, hrest⟩ := (Res.bind_ok_iff _ _ _).1 hk
    obtain ⟨⟨seen1', h1'⟩, hstep', hrest'⟩ := (Res.bind_ok_iff _ _ _).1 hk'
    obtain rfl := extension_congr he hstep hstep'
    exact ih hrest hrest'

theorem Agree.alike {l l' : Layout} (h : Agree l l') :
    List.Forall₂ Alike l.extensions l'.extensions := by
  have hids : List.Forall₂ (fun e e' : UInt16 × Bytes => normalize e.1 = normalize e'.1)
      l.extensions l'.extensions := by
    rw [← List.forall₂_map_right_iff, ← List.forall₂_map_left_iff, List.forall₂_eq_eq_eq]
    exact h.ids
  obtain ⟨hlen, hids⟩ := List.forall₂_iff_zip.1 hids
  refine List.forall₂_iff_zip.2 ⟨hlen, fun {e e'} hmem => ⟨hids hmem, fun hg => ?_⟩⟩
  obtain ⟨he, he'⟩ := List.of_mem_zip hmem
  have hid := eq_of_normalize hg (hids hmem)
  exact h.bodies e.1 e.2 e'.2 hg he (by rw [hid]; exact he')

/-- **The evidence in a ClientHello.**  Two hellos that the parser takes give the same
result exactly if they agree on what is compared. -/
theorem same_evidence_iff {b b' : Bytes} {h h' : TlsHello} (hb : parseHello D b = .ok h)
    (hb' : parseHello D b' = .ok h') :
    (∃ l, IsHello b l) ∧ (∃ l', IsHello b' l') ∧
      ∀ l l', IsHello b l → IsHello b' l' → NoCollision D l l' → (h = h' ↔ Agree l l') := by
  obtain ⟨l0, hl0, -, seen, hadd⟩ := (parseHello_ok_iff D b h).1 hb
  obtain ⟨l0', hl0', -, seen', hadd'⟩ := (parseHello_ok_iff D b' h').1 hb'
  refine ⟨⟨l0, hl0⟩, ⟨l0', hl0'⟩, fun l l' hl hl' hcol => ?_⟩
  obtain rfl := hl.unique hl0
  obtain rfl := hl'.unique hl0'
  constructor
  · rintro rfl
    obtain ⟨hversion, hciphers, hcompression, hids⟩ := addAll_start _ hadd
    obtain ⟨hversion', hciphers', hcompression', hids'⟩ := addAll_start _ hadd'
    refine ⟨hversion.symm.trans hversion', hcompression.symm.trans hcompression',
      hciphers.symm.trans hciphers', hids.symm.trans hids', ?_⟩
    intro id body body' hg hmem hmem'
    have hfresh : ∀ l : Layout, ∀ id ∉ ([] : List UInt16), slot l.start id = slot blank id :=
      fun l id _ => rfl
    obtain ⟨k, k1, hk, hput, hslot⟩ := addAll_slot _ (hfresh l) hadd (id, body) hmem hg
    obtain ⟨k', k1', hk', hput', hslot'⟩ := addAll_slot _ (hfresh l') hadd' (id, body') hmem' hg
    exact hput.reflects hput' hk hk' (hslot.symm.trans hslot') (hcol id body body' hmem hmem')
  · intro hagree
    have hstart : l.start = l'.start := by
      unfold Layout.start
      rw [hagree.version, hagree.ciphers, hagree.compression]
    unfold addAll at hadd hadd'
    rw [← hstart] at hadd'
    exact addAll_congr hagree.alike hadd hadd'

end

/-- A hello with a GREASE cipher, a GREASE extension, a group and `extended_master_secret`. -/
def greased (cipher id : UInt16) : Layout where
  version := 0x0303
  random := List.replicate 32 0
  session := []
  ciphers := [cipher, 0x1301]
  compression := [0]
  block := some [(id, []), (10, [0, 2, 0, 29]), (23, [])]

/-- The choice of the GREASE values is not seen. -/
theorem same_evidence_greased :
    parseHello sampleDigests (greased 0x1a1a 0x2a2a).octets =
      parseHello sampleDigests (greased 0xfafa 0x3a3a).octets ∧
    Agree (greased 0x1a1a 0x2a2a) (greased 0xfafa 0x3a3a) := by
  have hello : ∀ cipher id, IsHello (greased cipher id).octets (greased cipher id) := by
    intro cipher id
    refine ⟨rfl, rfl, by simp [greased], ?_, by simp [greased], ?_, ?_⟩
    · rw [flatMap_be16_length]
      show 4 < 65536
      decide
    · simp [greased, Layout.extensions, Fits16]
    · show 16 < 65536
      decide
  have h1 : parseHello sampleDigests (greased 0x1a1a 0x2a2a).octets = .ok
      { legacyVersion := 0x0303, ciphers := [0x0a0a, 0x1301], compression := [0],
        extensions := [0x0a0a, 10, 23], groups := [29],
        otherExtensions := [(23, lowerHex emptyDigest)] } := by
    decide +kernel
  have h2 : parseHello sampleDigests (greased 0xfafa 0x3a3a).octets = .ok
      { legacyVersion := 0x0303, ciphers := [0x0a0a, 0x1301], compression := [0],
        extensions := [0x0a0a, 10, 23], groups := [29],
        otherExtensions := [(23, lowerHex emptyDigest)] } := by
    decide +kernel
  refine ⟨h1.trans h2.symm, ((same_evidence_iff h1 h2).2.2 _ _ (hello _ _) (hello _ _) ?_).1 rfl⟩
  intro id body body' hmem hmem' _
  simp only [greased, Layout.extensions, Option.getD_some, List.mem_cons, Prod.mk.injEq,
    List.not_mem_nil, or_false] at hmem hmem'
  rcases hmem with ⟨rfl, rfl⟩ | ⟨rfl, rfl⟩ | ⟨rfl, rfl⟩ <;> simp at hmem' <;> simp [hmem']

end Tls
