import FingerprintBridge.Rewrite.Authority
import FingerprintBridge.Rewrite.Whitespace
import FingerprintBridge.Rewrite.Head

/-!
# Cookie attributes

`setCookie` maps a value attribute by attribute.  A `Domain` that names the upstream
host gets the public host in its place, after the dot it had (`DomainCut`).  Mapping
once more changes an attribute again only if it had no dot and the public host is the
upstream host with dots before it.
-/

/-- Facts of the WHATWG URL standard about the host of an `https` URL. -/
structure HttpsHosts (U : UrlCrate) : Prop where
  ascii : ∀ s u host, U.parse ("https://".toList ++ s) = some u → u.hostStr = some host →
    ∀ c ∈ host, c.toNat < 128
  not_empty : ∀ s u host, U.parse ("https://".toList ++ s) = some u → u.hostStr = some host →
    host ≠ []

theorem isWhitespace_of_printable (c : Char) (h : 32 < c.toNat) (h' : c.toNat < 128) :
    isWhitespace c = false := by
  unfold isWhitespace
  simp only [Bool.or_eq_false_iff, Bool.and_eq_false_iff, decide_eq_false_iff_not]
  omega

theorem dottedCrate_hosts : HttpsHosts dottedCrate := by
  have hp : ∀ s u host, parseDotted s = some u → u.hostStr = some host →
      host ≠ [] ∧ ∀ c ∈ host, c.toNat < 128 := by
    intro s u host h hh
    unfold parseDotted at h
    simp only at h
    split at h
    · next hc =>
      cases h
      cases hh
      refine ⟨hc.2.1, fun c hm => ?_⟩
      have hl := List.all_eq_true.1 hc.2.2.1 c hm
      rw [Bool.or_eq_true, decide_eq_true_eq] at hl
      rcases hl with hl | rfl
      · have := isLower_range c hl
        omega
      · decide
    · cases h
  exact ⟨fun s u host h hh => (hp _ u host h hh).2, fun s u host h hh => (hp _ u host h hh).1⟩

/-- The host that `authority` reads. -/
theorem HttpsHosts.authority {U : UrlCrate} (hU : HttpsHosts U) {s host : Str} {port : UInt16}
    (h : authority U s = .ok (host, port)) :
    host ≠ [] ∧ ∀ c ∈ host, isWhitespace c = false := by
  obtain ⟨-, u, host', hu, hh, hl, -⟩ := (authority_ok_iff s _).1 h
  rw [List.append_assoc] at hu
  obtain rfl : strLower host' = host := hl
  constructor
  · intro h0
    exact hU.not_empty _ u host' hu hh (List.map_eq_nil_iff.1 h0)
  · intro c hc
    obtain ⟨d, hd, rfl⟩ := List.mem_map.1 hc
    have hascii := hU.ascii _ u host' hu hh d hd
    have hprintable := (U.host_printable _ u host' hu hh d hd).1
    refine isWhitespace_of_printable _ (toLower_printable d hprintable) ?_
    rw [toLower_toNat]
    split
    · omega
    · exact hascii

namespace Mapping

variable {U : UrlCrate} (m : Mapping U)

/-! ## One attribute -/

/-- An attribute `Domain=v`, with white space around `v`. -/
structure DomainCut (part key ws v tail : Str) : Prop where
  cut : part = key ++ '=' :: (ws ++ v ++ tail)
  key_plain : '=' ∉ key
  domain : strEqIgnoreCase (trim isWhitespace key) "domain".toList = true
  padded : Padded isWhitespace ws v tail

/-- `v` names the upstream host, perhaps with dots before it. -/
def namesUpstream (v : Str) : Bool := strEqIgnoreCase (trimStart (· = '.') v) m.upstreamHost

/-- The dot that is kept. -/
def dotOf (v : Str) : Str := if v.head? = some '.' then ['.'] else []

theorem cookieAttribute_domain {key raw : Str} (hkey : '=' ∉ key)
    (hd : strEqIgnoreCase (trim isWhitespace key) "domain".toList = true) :
    m.cookieAttribute (key ++ '=' :: raw) =
      if m.namesUpstream (trim isWhitespace raw) then
        key ++ '=' :: (raw.take (raw.length - (trimStart isWhitespace raw).length) ++
          (dotOf (trim isWhitespace raw) ++ m.publicHost) ++
          raw.drop (trimEnd isWhitespace raw).length)
      else key ++ '=' :: raw := by
  unfold cookieAttribute
  rw [findIdx?_append_cons '=' key raw hkey]
  simp only [List.take_left, hd, take_through, drop_through, if_true]
  unfold namesUpstream dotOf
  split
  · simp
  · rfl

theorem cookieAttribute_cut {part key ws v tail : Str} (h : DomainCut part key ws v tail) :
    m.cookieAttribute part = if m.namesUpstream v then
      key ++ '=' :: (ws ++ (dotOf v ++ m.publicHost) ++ tail) else part := by
  obtain ⟨hws, htail⟩ := h.padded.offsets
  have hfirst : (ws ++ v ++ tail).take ws.length = ws := by
    rw [List.append_assoc, List.take_left]
  have hlast : (ws ++ v ++ tail).drop (ws.length + v.length) = tail := by
    rw [← List.length_append, List.drop_left]
  rw [h.cut, m.cookieAttribute_domain h.key_plain h.domain, h.padded.trim_eq, hws, htail, hfirst,
    hlast]

/-- Any other attribute is left alone. -/
theorem exists_domainCut (part : Str) (hne : m.upstreamHost ≠ [])
    (h : m.cookieAttribute part ≠ part) :
    ∃ key ws v tail, DomainCut part key ws v tail ∧ m.namesUpstream v = true := by
  have hblank : m.namesUpstream [] = false := by
    unfold namesUpstream strEqIgnoreCase
    rw [beq_eq_false_iff_ne]
    exact fun h0 => hne (List.map_eq_nil_iff.1 h0.symm)
  cases hfind : part.findIdx? (· = '=') with
  | none =>
    unfold cookieAttribute at h
    rw [hfind] at h
    exact (h rfl).elim
  | some eq =>
    obtain ⟨key, raw, rfl, hkey, rfl⟩ := findIdx?_split '=' part eq hfind
    by_cases hd : strEqIgnoreCase (trim isWhitespace key) "domain".toList = true
    · rcases exists_padded isWhitespace raw with ⟨ws, v, tail, rfl, hp⟩ | ⟨-, hall⟩
      · have hcut : DomainCut _ key ws v tail := ⟨rfl, hkey, hd, hp⟩
        refine ⟨key, ws, v, tail, hcut, ?_⟩
        by_contra hn
        rw [m.cookieAttribute_cut hcut, if_neg hn] at h
        exact h rfl
      · have htrim : trim isWhitespace raw = [] := by
          unfold trim trimStart
          rw [List.dropWhile_eq_nil_iff.2 hall]
          rfl
        rw [m.cookieAttribute_domain hkey hd, htrim, hblank] at h
        exact (h rfl).elim
    · unfold cookieAttribute at h
      rw [hfind] at h
      simp only [List.take_left, hd] at h
      exact (h rfl).elim

/-- The public host is the upstream host with dots before it. -/
def DottedPublic : Prop := m.publicHost.head? = some '.' ∧ m.namesUpstream m.publicHost = true

/-- The new attribute, cut. -/
theorem DomainCut.mapped {part key ws v tail : Str} (hU : HttpsHosts U)
    (h : DomainCut part key ws v tail) :
    DomainCut (key ++ '=' :: (ws ++ (dotOf v ++ m.publicHost) ++ tail)) key ws
      (dotOf v ++ m.publicHost) tail := by
  obtain ⟨hne, hplain⟩ := hU.authority m.public_ok
  refine ⟨rfl, h.key_plain, h.domain, h.padded.before, h.padded.after, fun c hc => ?_, fun c hc => ?_,
    fun h0 => (hne (List.append_eq_nil_iff.1 h0).2).elim⟩
  · rcases List.mem_append.1 (List.mem_of_head? hc) with hc | hc
    · unfold dotOf at hc
      split at hc
      · rw [List.mem_singleton.1 hc]
        decide
      · cases hc
    · exact hplain c hc
  · rw [List.getLast?_append_of_ne_nil _ hne] at hc
    exact hplain c (List.mem_of_getLast? hc)

theorem namesUpstream_dotOf (v : Str) :
    m.namesUpstream (dotOf v ++ m.publicHost) = m.namesUpstream m.publicHost := by
  unfold namesUpstream dotOf
  split
  · rfl
  · rfl

/-- An attribute that was changed is changed again only by a second dot. -/
theorem cookieAttribute_again {part key ws v tail : Str} (hU : HttpsHosts U)
    (h : DomainCut part key ws v tail) (hv : m.namesUpstream v = true) :
    m.cookieAttribute (m.cookieAttribute part) = m.cookieAttribute part ↔
      ¬ (m.DottedPublic ∧ v.head? ≠ some '.') := by
  rw [m.cookieAttribute_cut h, if_pos hv, m.cookieAttribute_cut (h.mapped m hU), m.namesUpstream_dotOf]
  unfold DottedPublic
  by_cases hp : m.namesUpstream m.publicHost = true
  · rw [if_pos hp, List.append_cancel_left_eq, List.cons.injEq, List.append_cancel_right_eq,
      List.append_cancel_left_eq, List.append_cancel_right_eq]
    unfold dotOf
    by_cases hdot : v.head? = some '.'
    · simp [hdot]
    · rw [if_neg hdot, List.nil_append]
      by_cases hpd : m.publicHost.head? = some '.'
      · simp [hdot, hpd, hp]
      · simp [hpd]
  · rw [if_neg hp]
    simp [hp]

/-! ## All attributes -/

/-- The attributes of a cookie: what follows the first `;`. -/
def attributes (s : Str) : List Str := (s.splitOn ';').tail

theorem intercalate_cons (x : Char) (first : Str) (parts : List Str) :
    [x].intercalate (first :: parts) = first ++ parts.flatMap fun part => x :: part := by
  induction parts generalizing first with
  | nil => simp
  | cons part parts ih =>
    rw [List.intercalate_cons_cons, ih, List.flatMap_cons, List.append_assoc]
    rfl

theorem exists_splitOn (s : Str) : ∃ first, s.splitOn ';' = first :: attributes s := by
  cases h : s.splitOn ';' with
  | nil => exact (List.splitOn_ne_nil _ _ h).elim
  | cons first parts =>
    refine ⟨first, ?_⟩
    unfold attributes
    rw [h]
    rfl

theorem setCookie_eq (s : Str) {first : Str} (h : s.splitOn ';' = first :: attributes s) :
    m.setCookie s = [';'].intercalate (first :: (attributes s).map m.cookieAttribute) := by
  unfold setCookie
  rw [h, intercalate_cons, List.flatMap_map]

/-- No attribute gets a `;`. -/
theorem cookieAttribute_semicolon (hsemi : ';' ∉ m.publicHost) (hne : m.upstreamHost ≠ [])
    (part : Str) (h : ';' ∉ part) : ';' ∉ m.cookieAttribute part := by
  by_cases hsame : m.cookieAttribute part = part
  · rwa [hsame]
  · obtain ⟨key, ws, v, tail, hcut, hv⟩ := m.exists_domainCut part hne hsame
    rw [m.cookieAttribute_cut hcut, if_pos hv]
    rw [hcut.cut] at h
    have hdot : ';' ∉ dotOf v := by
      unfold dotOf
      split
      · decide
      · exact List.not_mem_nil
    simp only [List.mem_append, List.mem_cons, not_or] at h ⊢
    exact ⟨h.1, h.2.1, ⟨h.2.2.1.1, hdot, hsemi⟩, h.2.2.2⟩

/-- The new value has the new attributes. -/
theorem setCookie_splitOn (hsemi : ';' ∉ m.publicHost) (hne : m.upstreamHost ≠ []) (s : Str)
    {first : Str} (h : s.splitOn ';' = first :: attributes s) :
    (m.setCookie s).splitOn ';' = first :: (attributes s).map m.cookieAttribute := by
  have hparts := not_mem_of_mem_splitOn ';' s
  rw [h] at hparts
  rw [m.setCookie_eq s h]
  refine List.splitOn_intercalate ';' (fun part hp => ?_) (List.cons_ne_nil _ _)
  rcases List.mem_cons.1 hp with rfl | hp
  · exact hparts part List.mem_cons_self
  · obtain ⟨old, hold, rfl⟩ := List.mem_map.1 hp
    exact m.cookieAttribute_semicolon hsemi hne old (hparts old (List.mem_cons_of_mem _ hold))

/-- Mapping a value once more is mapping its new attributes once more. -/
theorem setCookie_again (hsemi : ';' ∉ m.publicHost) (hne : m.upstreamHost ≠ []) (s : Str) :
    m.setCookie (m.setCookie s) = m.setCookie s ↔
      ∀ part ∈ attributes s, m.cookieAttribute (m.cookieAttribute part) = m.cookieAttribute part := by
  obtain ⟨first, hs⟩ := exists_splitOn s
  have hnew := m.setCookie_splitOn hsemi hne s hs
  have hattr : attributes (m.setCookie s) = (attributes s).map m.cookieAttribute := by
    unfold attributes at hnew ⊢
    rw [hnew]
    rfl
  have hsecond : (m.setCookie s).splitOn ';' = first :: attributes (m.setCookie s) := by
    rw [hnew, hattr]
  have hagain := m.setCookie_splitOn hsemi hne (m.setCookie s) hsecond
  rw [hattr] at hagain
  have hsplit : m.setCookie (m.setCookie s) = m.setCookie s ↔
      (m.setCookie (m.setCookie s)).splitOn ';' = (m.setCookie s).splitOn ';' := by
    have join : ∀ t : Str, [';'].intercalate (t.splitOn ';') = t :=
      fun t => List.intercalate_splitOn ';'
    refine ⟨fun h => congrArg _ h, fun h => ?_⟩
    rw [← join (m.setCookie (m.setCookie s)), h, join]
  rw [hsplit, hagain, hnew, List.cons.injEq, List.map_map]
  refine ⟨fun h part hp => ?_, fun h => ⟨rfl, List.map_congr_left h⟩⟩
  exact List.map_inj_left.1 h.2 part hp

/-- The attributes with the upstream host and no dot. -/
def UndottedDomain (s : Str) : Prop :=
  ∃ part ∈ attributes s, ∃ key ws v tail, DomainCut part key ws v tail ∧
    v.head? ≠ some '.' ∧ m.namesUpstream v = true

/-- A value that was mapped is changed again only where an attribute gets a second dot. -/
theorem setCookie_again_iff (hU : HttpsHosts U) (hsemi : ';' ∉ m.publicHost) (s : Str) :
    m.setCookie (m.setCookie s) = m.setCookie s ↔ ¬ (m.DottedPublic ∧ m.UndottedDomain s) := by
  have hne := (hU.authority m.upstream_ok).1
  rw [m.setCookie_again hsemi hne]
  constructor
  · rintro h ⟨hp, part, hpart, key, ws, v, tail, hcut, hdot, hv⟩
    exact (m.cookieAttribute_again hU hcut hv).1 (h part hpart) ⟨hp, hdot⟩
  · intro h part hpart
    by_cases hsame : m.cookieAttribute part = part
    · rw [hsame, hsame]
    · obtain ⟨key, ws, v, tail, hcut, hv⟩ := m.exists_domainCut part hne hsame
      refine (m.cookieAttribute_again hU hcut hv).2 fun hp => h ⟨hp.1, part, hpart, ?_⟩
      exact ⟨key, ws, v, tail, hcut, hp.2, hv⟩

/-! ## The ends of a value -/

theorem setCookie_head (s : Str) : (m.setCookie s).head? = s.head? := by
  obtain ⟨first, hs⟩ := exists_splitOn s
  rw [m.setCookie_eq s hs]
  have hjoin : [';'].intercalate (s.splitOn ';') = s := List.intercalate_splitOn ';'
  conv_rhs => rw [← hjoin, hs]
  rw [intercalate_cons, intercalate_cons]
  cases first with
  | cons c first => rfl
  | nil =>
    cases attributes s with
    | nil => rfl
    | cons part parts => rfl

/-- The last character of an attribute is the old one or one of the public host. -/
theorem cookieAttribute_last (hU : HttpsHosts U) (part : Str) (c : Char)
    (h : (';' :: m.cookieAttribute part).getLast? = some c) :
    (';' :: part).getLast? = some c ∨ 32 < c.toNat := by
  by_cases hsame : m.cookieAttribute part = part
  · rw [hsame] at h
    exact Or.inl h
  · obtain ⟨key, ws, v, tail, hcut, hv⟩ := m.exists_domainCut part (hU.authority m.upstream_ok).1 hsame
    have hne := (hU.authority m.public_ok).1
    have hlast : ∀ {x t : Str}, t ≠ [] →
        (';' :: (key ++ '=' :: (ws ++ x ++ t))).getLast? = t.getLast? := by
      intro x t ht
      have := List.getLast?_append_of_ne_nil (';' :: (key ++ '=' :: (ws ++ x))) ht
      simpa using this
    rw [m.cookieAttribute_cut hcut, if_pos hv] at h
    by_cases ht : tail = []
    · right
      rw [ht, List.append_nil, ← List.append_assoc, hlast hne] at h
      exact m.publicHost_printable c (List.mem_of_getLast? h)
    · left
      rw [hlast ht] at h
      rw [hcut.cut, hlast ht]
      exact h

theorem setCookie_last (hU : HttpsHosts U) (s : Str) (c : Char)
    (h : (m.setCookie s).getLast? = some c) : s.getLast? = some c ∨ 32 < c.toNat := by
  obtain ⟨first, hs⟩ := exists_splitOn s
  have hold : s = first ++ (attributes s).flatMap fun part => ';' :: part := by
    rw [← intercalate_cons, ← hs, List.intercalate_splitOn]
  rw [m.setCookie_eq s hs, intercalate_cons] at h
  rcases List.eq_nil_or_concat (attributes s) with hnil | ⟨parts, part, hsnoc⟩
  · rw [hnil] at h hold
    rw [hold]
    exact Or.inl h
  · rw [hsnoc] at h hold
    rw [hold]
    simp only [List.concat_eq_append, List.map_append, List.map_cons, List.map_nil,
      List.flatMap_append, List.flatMap_singleton, ← List.append_assoc] at h ⊢
    rw [List.getLast?_append_of_ne_nil _ (List.cons_ne_nil _ _)] at h ⊢
    exact m.cookieAttribute_last hU part c h

end Mapping
