import FingerprintBridge.Fingerprint.Compare
import FingerprintBridge.Fingerprint.Ja4
import Mathlib.Data.List.Forall2

/-!
# `src/fingerprint.rs`: JA3 and the evidence

What the bridge writes of a hello is an object of the same shape for every hello, so that
`compare` finds every difference between two of them: it passes exactly for equal hellos
(`evidence_compared`).  JA3 alone knows less, and `ja3String_eq_iff` says what.
-/

namespace Json

variable {ν : Type}

theorem get_members {ms : List (Str × Json ν)} {h : (ms.map Prod.fst).Pairwise (· < ·)} {k : Str}
    {x : Json ν} (hmem : (k, x) ∈ ms) : (members ms h).get k = some x := by
  obtain ⟨i, hi, heq⟩ := List.mem_iff_getElem.1 hmem
  refine get_eq_some.2 ⟨⟨i, by rwa [List.length_map]⟩, ?_, ?_⟩
  · simp [heq]
  · simp [heq]

theorem ofList_inj {xs ys : List (Json ν)} (h : ofList xs = ofList ys) : xs = ys := by
  unfold ofList at h
  injection h with hlen hget
  refine List.ext_get hlen fun i hx hy => ?_
  have key : ∀ (n m : Nat) (f : Fin n → Json ν) (g : Fin m → Json ν), n = m → HEq f g →
      ∀ (hn : i < n) (hm : i < m), f ⟨i, hn⟩ = g ⟨i, hm⟩ := by
    rintro n m f g rfl hfg hn hm
    rw [eq_of_heq hfg]
  exact key _ _ _ _ hlen hget hx hy

/-- An array of values encoded alike. -/
def list {α : Type} (f : α → Json ν) (xs : List α) : Json ν := ofList (xs.map f)

theorem list_inj {α : Type} {f : α → Json ν} (hf : Function.Injective f) {xs ys : List α}
    (h : list f xs = list f ys) : xs = ys := hf.list_map (ofList_inj h)

end Json

namespace Fingerprint

open Json

variable {ν : Type}

/-- Objects of one shape, member by member. -/
theorem not_apparent_member {ms ms' : List (Str × Json ν)}
    {h : (ms.map Prod.fst).Pairwise (· < ·)} {h' : (ms'.map Prod.fst).Pairwise (· < ·)}
    (hab : ¬Apparent (members ms h) (members ms' h')) (hkeys : ms.map Prod.fst = ms'.map Prod.fst)
    (i : Nat) {p q : Str × Json ν} (hp : ms[i]? = some p) (hq : ms'[i]? = some q) :
    ¬Apparent p.2 q.2 := by
  have hk : p.1 = q.1 := by
    have := congrArg (·[i]?) hkeys
    simpa [hp, hq] using this
  intro hpq
  refine hab (.within p.1 (get_members (List.mem_of_getElem? hp)) ?_ hpq)
  rw [hk]
  exact get_members (List.mem_of_getElem? hq)

/-- Values that are no objects. -/
theorem eq_of_not_apparent {a b : Json ν} (ha : a.isObject = false) (h : ¬Apparent a b) : a = b := by
  by_contra hne
  refine h (.value ?_ hne)
  rw [ha]
  exact fun hab => absurd hab.1 Bool.false_ne_true

end Fingerprint

namespace Tls

open Json Fingerprint

/-! ## The code -/

/-- `n.to_string()` -/
def decimal (n : Nat) : Str := Nat.toDigits 10 n

/-- `list` of `ja3_string` -/
def ja3List (xs : List UInt16) : Str :=
  ['-'].intercalate ((filtered xs).map fun n => decimal n.toNat)

/-- The other crates, and `format!("{:x}", md5::compute(..))`; digests of SHA-256 have 32
octets, and an octet has two digits. -/
structure EvidenceCrates extends HexCrate where
  md5 : Bytes → Str
  sha256_length : ∀ b, (sha256 b).length = 32
  hexEncode_length : ∀ b, (hexEncode b).length = 2 * b.length

theorem helloKeys_increasing : (["alpn", "cert_compression", "ciphers", "compression", "extensions",
    "groups", "key_share_groups", "key_share_lengths", "legacy_version", "other_extensions",
    "point_formats", "psk_modes", "signature_algorithms", "signature_algorithms_cert", "sni_present",
    "supported_versions"].map String.toList).Pairwise (· < ·) := by
  decide +kernel

theorem evidenceKeys_increasing :
    (["fields", "ja3", "ja3_string", "ja4"].map String.toList).Pairwise (· < ·) := by
  decide +kernel

theorem layers_increasing : (["http", "tcp", "tls"].map String.toList).Pairwise (· < ·) := by
  decide +kernel

namespace TlsHello

def ja3String (hello : TlsHello) : Str :=
  [','].intercalate [decimal hello.legacyVersion.toNat, ja3List hello.ciphers,
    ja3List hello.extensions, ja3List hello.groups, ja3List (hello.pointFormats.map UInt8.toUInt16)]

/-- `Serialize`; the keys of an object of `serde_json` are in order. -/
def toJson (hello : TlsHello) : Json Nat :=
  let words : List UInt16 → Json Nat := list fun n => .number n.toNat
  let octets : Bytes → Json Nat := list fun n => .number n.toNat
  .members [
    ("alpn".toList, list .string hello.alpn),
    ("cert_compression".toList, words hello.certCompression),
    ("ciphers".toList, words hello.ciphers),
    ("compression".toList, octets hello.compression),
    ("extensions".toList, words hello.extensions),
    ("groups".toList, words hello.groups),
    ("key_share_groups".toList, words hello.keyShareGroups),
    ("key_share_lengths".toList, list .number hello.keyShareLengths),
    ("legacy_version".toList, .number hello.legacyVersion.toNat),
    ("other_extensions".toList,
      list (fun e => ofList [.number e.1.toNat, .string e.2]) hello.otherExtensions),
    ("point_formats".toList, octets hello.pointFormats),
    ("psk_modes".toList, octets hello.pskModes),
    ("signature_algorithms".toList, words hello.signatureAlgorithms),
    ("signature_algorithms_cert".toList, words hello.signatureAlgorithmsCert),
    ("sni_present".toList, .bool hello.sniPresent),
    ("supported_versions".toList, words hello.supportedVersions)] helloKeys_increasing

def ja3 (C : EvidenceCrates) (hello : TlsHello) : Str := C.md5 (utf8 hello.ja3String)

end TlsHello

/-- The object of `evidence`. -/
structure Evidence where
  ja3 : Str
  ja3String : Str
  ja4 : Str
  fields : TlsHello
deriving DecidableEq, Repr

def TlsHello.evidence (C : EvidenceCrates) (hello : TlsHello) : Res Evidence := do
  return {
    ja3 := hello.ja3 C
    ja3String := hello.ja3String
    ja4 := ← hello.ja4 C.toHexCrate
    fields := hello }

def Evidence.toJson (e : Evidence) : Json Nat :=
  .members [
    ("fields".toList, e.fields.toJson),
    ("ja3".toList, .string e.ja3),
    ("ja3_string".toList, .string e.ja3String),
    ("ja4".toList, .string e.ja4)] evidenceKeys_increasing

/-- `json!({"tls": .., "http": null, "tcp": null})` -/
def Evidence.document (e : Evidence) : Json Nat :=
  .members [("http".toList, .null), ("tcp".toList, .null), ("tls".toList, e.toJson)]
    layers_increasing

/-! ## The text of JA3 -/

theorem decimal_inj {m n : Nat} (h : decimal m = decimal n) : m = n := by
  have := congrArg (Nat.ofDigitChars 10 · 0) h
  simpa [decimal, Nat.ofDigitChars_ten_toDigits] using this

theorem not_mem_decimal (n : Nat) (c : Char) (hc : c.isDigit = false) : c ∉ decimal n := by
  intro hmem
  have := Nat.isDigit_of_mem_toDigits (by decide) (by decide) hmem
  rw [hc] at this
  cases this

theorem decimal_ne_nil (n : Nat) : decimal n ≠ [] := Nat.toDigits_ne_nil

theorem mem_intercalate {c d : Char} {ss : List Str} (h : c ∈ [d].intercalate ss) :
    c = d ∨ ∃ s ∈ ss, c ∈ s := by
  induction ss with
  | nil => exact absurd h List.not_mem_nil
  | cons s ss ih =>
    cases ss with
    | nil =>
      rw [List.intercalate_singleton] at h
      exact Or.inr ⟨s, List.mem_cons_self, h⟩
    | cons t ss =>
      rw [List.intercalate_cons_cons] at h
      rcases List.mem_append.1 h with h | h
      · rcases List.mem_append.1 h with h | h
        · exact Or.inr ⟨s, List.mem_cons_self, h⟩
        · exact Or.inl (List.mem_singleton.1 h)
      · rcases ih h with h | ⟨u, hu, hc⟩
        · exact Or.inl h
        · exact Or.inr ⟨u, List.mem_cons_of_mem _ hu, hc⟩

theorem comma_not_mem_ja3List (xs : List UInt16) : ',' ∉ ja3List xs := by
  intro h
  rcases mem_intercalate h with h | ⟨s, hs, hc⟩
  · exact absurd h (by decide)
  · obtain ⟨n, -, rfl⟩ := List.mem_map.1 hs
    exact not_mem_decimal _ _ (by decide) hc

/-- The text of a list is its members without GREASE. -/
theorem ja3List_inj {xs ys : List UInt16} (h : ja3List xs = ja3List ys) :
    filtered xs = filtered ys := by
  have hsplit : ∀ zs : List UInt16, filtered zs ≠ [] →
      (ja3List zs).splitOn '-' = (filtered zs).map fun n => decimal n.toNat := by
    intro zs hz
    refine List.splitOn_intercalate '-' (fun s hs => ?_) (mt List.map_eq_nil_iff.1 hz)
    obtain ⟨n, -, rfl⟩ := List.mem_map.1 hs
    exact not_mem_decimal _ _ (by decide)
  have hempty : ∀ zs : List UInt16, ja3List zs = [] → filtered zs = [] := by
    intro zs hz
    by_contra hne
    have := hsplit zs hne
    rw [hz] at this
    cases hf : filtered zs with
    | nil => exact hne hf
    | cons n ns =>
      rw [hf, List.map_cons] at this
      exact decimal_ne_nil _ (List.cons.inj this).1.symm
  by_cases hx : filtered xs = []
  · have hnil : ja3List xs = [] := by
      rw [ja3List, hx]
      rfl
    rw [hx, hempty ys (h ▸ hnil)]
  · by_cases hy : filtered ys = []
    · have hnil : ja3List ys = [] := by
        rw [ja3List, hy]
        rfl
      exact (hx (hempty xs (h.trans hnil))).elim
    · have hmap := hsplit xs hx
      rw [h, hsplit ys hy] at hmap
      have hinj : Function.Injective fun n : UInt16 => decimal n.toNat := fun _ _ hmn =>
        UInt16.toNat_inj.1 (decimal_inj hmn)
      exact (hinj.list_map hmap).symm

/-- An octet is no GREASE value. -/
theorem filtered_octets (b : Bytes) :
    filtered (b.map UInt8.toUInt16) = b.map UInt8.toUInt16 := by
  have hsmall : ∀ n < 256, grease (UInt16.ofNat n) = false := by decide +kernel
  have hall : ∀ c : UInt8, grease c.toUInt16 = false := fun c => by
    rw [show c.toUInt16 = UInt16.ofNat c.toNat by simp]
    exact hsmall _ c.toNat_lt
  refine List.filter_eq_self.2 fun n hn => ?_
  obtain ⟨c, -, rfl⟩ := List.mem_map.1 hn
  rw [hall c]
  rfl

/-- The text of JA3 keeps the version, the point formats, and the ciphers,
extensions and groups that are not GREASE, each list with its order and length. -/
theorem ja3String_eq_iff (h h' : TlsHello) : h.ja3String = h'.ja3String ↔
    h.legacyVersion = h'.legacyVersion ∧ filtered h.ciphers = filtered h'.ciphers ∧
      filtered h.extensions = filtered h'.extensions ∧ filtered h.groups = filtered h'.groups ∧
      h.pointFormats = h'.pointFormats := by
  have hlist : ∀ xs ys : List UInt16, ja3List xs = ja3List ys ↔ filtered xs = filtered ys :=
    fun xs ys => ⟨ja3List_inj, fun heq => by rw [ja3List, heq, ja3List]⟩
  have hsplit : ∀ g : TlsHello, g.ja3String.splitOn ',' = [decimal g.legacyVersion.toNat,
      ja3List g.ciphers, ja3List g.extensions, ja3List g.groups,
      ja3List (g.pointFormats.map UInt8.toUInt16)] := by
    intro g
    refine List.splitOn_intercalate ',' (fun s hs => ?_) (fun hnil => nomatch hnil)
    simp only [List.mem_cons, List.not_mem_nil, or_false] at hs
    rcases hs with rfl | rfl | rfl | rfl | rfl
    · exact not_mem_decimal _ _ (by decide)
    all_goals exact comma_not_mem_ja3List _
  have hoctets : Function.Injective UInt8.toUInt16 := fun a b hab => by
    have := congrArg UInt16.toNat hab
    rwa [UInt8.toNat_toUInt16, UInt8.toNat_toUInt16, UInt8.toNat_inj] at this
  constructor
  · intro heq
    have hparts := hsplit h
    rw [heq, hsplit h'] at hparts
    simp only [List.cons.injEq, and_true, hlist, filtered_octets] at hparts
    obtain ⟨h1, h2, h3, h4, h5⟩ := hparts
    exact ⟨UInt16.toNat_inj.1 (decimal_inj h1.symm), h2.symm, h3.symm, h4.symm,
      hoctets.list_map h5.symm⟩
  · rintro ⟨h1, h2, h3, h4, h5⟩
    unfold TlsHello.ja3String
    rw [h1, (hlist _ _).2 h2, (hlist _ _).2 h3, (hlist _ _).2 h4, h5]

/-! ## What is compared -/

theorem words_inj : Function.Injective fun n : UInt16 => (Json.number n.toNat : Json Nat) :=
  fun _ _ h => UInt16.toNat_inj.1 (Json.number.inj h)

theorem octets_inj : Function.Injective fun n : UInt8 => (Json.number n.toNat : Json Nat) :=
  fun _ _ h => UInt8.toNat_inj.1 (Json.number.inj h)

theorem digests_inj : Function.Injective fun e : UInt16 × Str =>
    (ofList [.number e.1.toNat, .string e.2] : Json Nat) := by
  intro e e' h
  have := ofList_inj h
  simp only [List.cons.injEq, Json.number.injEq, Json.string.injEq, and_true] at this
  exact Prod.ext (UInt16.toNat_inj.1 this.1) this.2

/-- Two hellos whose objects do not differ are one. -/
theorem TlsHello.toJson_apparent {h h' : TlsHello} (hab : ¬Apparent h.toJson h'.toJson) : h = h' := by
  have hmember : ∀ (i : Nat) {p q : Str × Json Nat}, _ → _ → ¬Apparent p.2 q.2 :=
    not_apparent_member hab rfl
  have hwords : ∀ {xs ys : List UInt16}, ¬Apparent (list (fun n => .number n.toNat) xs : Json Nat)
      (list (fun n => .number n.toNat) ys) → xs = ys := fun hxy =>
    list_inj words_inj (eq_of_not_apparent rfl hxy)
  have hoctets : ∀ {xs ys : Bytes}, ¬Apparent (list (fun n => .number n.toNat) xs : Json Nat)
      (list (fun n => .number n.toNat) ys) → xs = ys := fun hxy =>
    list_inj octets_inj (eq_of_not_apparent rfl hxy)
  obtain ⟨version, ciphers, extensions, compression, groups, formats, signatures, signaturesCert,
    versions, alpn, shares, lengths, certCompression, modes, sni, others⟩ := h
  obtain ⟨version', ciphers', extensions', compression', groups', formats', signatures',
    signaturesCert', versions', alpn', shares', lengths', certCompression', modes', sni', others'⟩ := h'
  obtain rfl : alpn = alpn' :=
    list_inj (fun _ _ => Json.string.inj) (eq_of_not_apparent rfl (hmember 0 rfl rfl))
  obtain rfl : certCompression = certCompression' := hwords (hmember 1 rfl rfl)
  obtain rfl : ciphers = ciphers' := hwords (hmember 2 rfl rfl)
  obtain rfl : compression = compression' := hoctets (hmember 3 rfl rfl)
  obtain rfl : extensions = extensions' := hwords (hmember 4 rfl rfl)
  obtain rfl : groups = groups' := hwords (hmember 5 rfl rfl)
  obtain rfl : shares = shares' := hwords (hmember 6 rfl rfl)
  obtain rfl : lengths = lengths' :=
    list_inj (fun _ _ => Json.number.inj) (eq_of_not_apparent rfl (hmember 7 rfl rfl))
  obtain rfl : version = version' := words_inj (eq_of_not_apparent rfl (hmember 8 rfl rfl))
  obtain rfl : others = others' := list_inj digests_inj (eq_of_not_apparent rfl (hmember 9 rfl rfl))
  obtain rfl : formats = formats' := hoctets (hmember 10 rfl rfl)
  obtain rfl : modes = modes' := hoctets (hmember 11 rfl rfl)
  obtain rfl : signatures = signatures' := hwords (hmember 12 rfl rfl)
  obtain rfl : signaturesCert = signaturesCert' := hwords (hmember 13 rfl rfl)
  obtain rfl : sni = sni' := Json.bool.inj (eq_of_not_apparent rfl (hmember 14 rfl rfl))
  obtain rfl : versions = versions' := hwords (hmember 15 rfl rfl)
  rfl

theorem Evidence.toJson_apparent {e e' : Evidence} (hab : ¬Apparent e.toJson e'.toJson) : e = e' := by
  have hmember : ∀ (i : Nat) {p q : Str × Json Nat}, _ → _ → ¬Apparent p.2 q.2 :=
    not_apparent_member hab rfl
  obtain ⟨ja3, text, ja4, fields⟩ := e
  obtain ⟨ja3', text', ja4', fields'⟩ := e'
  obtain rfl : fields = fields' := TlsHello.toJson_apparent (hmember 0 rfl rfl)
  obtain rfl : ja3 = ja3' := Json.string.inj (eq_of_not_apparent rfl (hmember 1 rfl rfl))
  obtain rfl : text = text' := Json.string.inj (eq_of_not_apparent rfl (hmember 2 rfl rfl))
  obtain rfl : ja4 = ja4' := Json.string.inj (eq_of_not_apparent rfl (hmember 3 rfl rfl))
  rfl

/-- The layer `compare` is asked for. -/
theorem Evidence.holds (e : Evidence) (x : Json Nat) :
    Holds e.document "tls".toList x ↔ x = e.toJson := by
  have hget : e.document.get "tls".toList = some e.toJson :=
    get_members (List.mem_cons_of_mem _ (List.mem_cons_of_mem _ List.mem_cons_self))
  have hobject : e.toJson ≠ emptyObject := fun h => by cases h
  unfold Holds
  rw [hget, Option.some.injEq]
  constructor
  · exact fun h => h.1.symm
  · rintro rfl
    exact ⟨rfl, (fun h => by cases h), (fun h => by cases h), hobject⟩

theorem Evidence.passes_iff (e e' : Evidence) :
    Passes e.document e'.document ["tls".toList] ↔ e = e' := by
  rw [Fingerprint.passes_iff]
  constructor
  · rintro ⟨-, h⟩
    obtain ⟨x, y, hx, hy, hxy⟩ := h _ List.mem_cons_self
    rw [(e.holds x).1 hx, (e'.holds y).1 hy] at hxy
    exact toJson_apparent hxy
  · rintro rfl
    refine ⟨(fun h => nomatch h), fun layer hlayer => ?_⟩
    obtain rfl := List.mem_singleton.1 hlayer
    exact ⟨_, _, (e.holds _).2 rfl, (e.holds _).2 rfl, not_apparent_self _⟩

/-! ## Evidence of every hello -/

section
variable (C : EvidenceCrates)

theorem hash_ok (s : Str) : ∃ t, hash C.toHexCrate s = .ok t := by
  unfold hash
  split
  · exact ⟨_, rfl⟩
  · have hlen : (digest C.toDigestCrates (utf8 s)).length = 64 := by
      unfold digest
      rw [C.hexEncode_length, C.sha256_length]
    unfold sliceStr
    rw [if_pos ⟨Nat.zero_le _, by omega⟩]
    exact ⟨_, rfl⟩

theorem alpnText_ok (alpn : List Str) : ∃ t, alpnText C.toHexCrate alpn = .ok t := by
  unfold alpnText
  split
  · exact ⟨_, rfl⟩
  · next s hs =>
    -- a protocol that is not empty has a first and a last octet
    have hne : s ≠ [] := by
      have := (Option.filter_eq_some_iff.1 hs).2
      simpa using this
    obtain ⟨a, b, rfl⟩ := List.exists_cons_of_ne_nil hne
    have hlen := C.hexEncode_length (a :: b)
    rw [List.length_cons] at hlen
    obtain ⟨z, hz⟩ : ∃ z, byteAt (a :: b) b.length = .ok z :=
      ⟨_, (Res.byteAt_ok_iff _ _ _).2 (List.getElem?_eq_getElem (by simp))⟩
    have ha : byteAt (a :: b) 0 = .ok a := (Res.byteAt_ok_iff _ _ _).2 rfl
    have hsub : checkedSub (a :: b).length 1 = .ok b.length := Res.checkedSub_of_le _ _ (by simp)
    have hslice : ∀ i j, i ≤ j → j ≤ (C.hexEncode (a :: b)).length → ∃ t,
        sliceStr (C.hexEncode (a :: b)) i j = .ok t := fun i j hi hj => by
      unfold sliceStr
      rw [if_pos ⟨hi, hj⟩]
      exact ⟨_, rfl⟩
    obtain ⟨t, ht⟩ := hslice 0 1 (by omega) (by omega)
    have hlast : checkedSub (C.hexEncode (a :: b)).length 1 =
        .ok ((C.hexEncode (a :: b)).length - 1) := Res.checkedSub_of_le _ _ (by omega)
    obtain ⟨u, hu⟩ := hslice ((C.hexEncode (a :: b)).length - 1) _ (by omega) (Nat.le_refl _)
    simp only [ha, hsub, hz, ht, hlast, hu, bind, Except.bind]
    split
    · exact ⟨_, rfl⟩
    · exact ⟨_, rfl⟩

theorem TlsHello.ja4_ok (h : TlsHello) : ∃ s, h.ja4 C.toHexCrate = .ok s := by
  obtain ⟨t, ht⟩ := alpnText_ok C h.alpn
  obtain ⟨c, hc⟩ := hash_ok C (hexList h.sortedCiphers)
  obtain ⟨x, hx⟩ := hash_ok C h.extensionText
  unfold ja4 front
  rw [ht, hc, hx]
  exact ⟨_, rfl⟩

theorem TlsHello.evidence_ok (h : TlsHello) : ∃ e, h.evidence C = .ok e ∧ e.fields = h ∧
    e.ja3 = h.ja3 C ∧ e.ja3String = h.ja3String ∧ h.ja4 C.toHexCrate = .ok e.ja4 := by
  obtain ⟨s, hs⟩ := h.ja4_ok C
  refine ⟨⟨h.ja3 C, h.ja3String, s, h⟩, ?_, rfl, rfl, rfl, hs⟩
  unfold evidence
  rw [hs]
  rfl

end

/-- **The evidence says all of a hello.**  It is written of every hello, and `compare` passes on
two exactly if the hellos are one, so that no difference in it is hidden; of JA3 alone this
holds up to GREASE, and for five fields. -/
theorem evidence_compared (C : EvidenceCrates) (h h' : TlsHello) :
    ∃ e e', h.evidence C = .ok e ∧ h'.evidence C = .ok e' ∧
      (Passes e.document e'.document ["tls".toList] ↔ h = h') ∧
      (e.ja3String = e'.ja3String ↔
        h.legacyVersion = h'.legacyVersion ∧ filtered h.ciphers = filtered h'.ciphers ∧
          filtered h.extensions = filtered h'.extensions ∧ filtered h.groups = filtered h'.groups ∧
          h.pointFormats = h'.pointFormats) := by
  obtain ⟨e, he, hfields, -, htext, -⟩ := h.evidence_ok C
  obtain ⟨e', he', hfields', -, htext', -⟩ := h'.evidence_ok C
  refine ⟨e, e', he, he', ?_, ?_⟩
  · rw [Evidence.passes_iff]
    constructor
    · rintro rfl
      rw [← hfields, hfields']
    · rintro rfl
      rw [he] at he'
      exact Except.ok.inj he'
  · rw [htext, htext']
    exact ja3String_eq_iff h h'

end Tls
