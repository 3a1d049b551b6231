import FingerprintBridge.Rewrite.Cookie

/-!
# What becomes of a `Set-Cookie` value

Split at `;`, the value keeps its parts, and the first as it was.  A `Domain` that is
the upstream host, with or without a dot before it, gets the public host in its place
(`AttributeFramed`).  `trim_start_matches('.')` takes every dot away and one is put
back: a name after two dots is another domain, and is taken for the upstream host.
-/

theorem Padded.unique {p : Char → Bool} {pre t post pre' t' post' : Str}
    (h : Padded p pre t post) (h' : Padded p pre' t' post')
    (heq : pre ++ t ++ post = pre' ++ t' ++ post') : pre = pre' ∧ t = t' ∧ post = post' := by
  obtain ⟨hstart, -⟩ := h.offsets
  obtain ⟨hstart', -⟩ := h'.offsets
  have htrim := h.trim_eq
  rw [heq, h'.trim_eq] at htrim
  subst htrim
  rw [heq, hstart'] at hstart
  rw [List.append_assoc, List.append_assoc] at heq
  obtain ⟨hpre, hrest⟩ := List.append_inj heq hstart.symm
  exact ⟨hpre, rfl, List.append_cancel_left hrest⟩

theorem Padded.snoc {p : Char → Bool} {pre t post more : Str} (h : Padded p pre t post)
    (hmore : ∀ c ∈ more, p c = true) (hne : t ≠ []) : Padded p pre t (post ++ more) :=
  ⟨h.before, fun c hc => (List.mem_append.1 hc).elim (h.after c) (hmore c), h.first, h.last,
    fun h0 => (hne h0).elim⟩

/-- A letter in another case is no dot. -/
theorem toLower_dot (c : Char) : c.toLower = '.' ↔ c = '.' := by
  constructor
  · intro h
    rcases toLower_range c with hsame | hupper
    · rw [← hsame, h]
    · have hn := toLower_toNat c
      rw [if_pos hupper, h] at hn
      have hdot : ('.' : Char).toNat = 46 := rfl
      omega
  · rintro rfl
    rfl

theorem strEqIgnoreCase_dot {s t : Str} (h : strEqIgnoreCase s t = true) :
    s.head? = some '.' ↔ t.head? = some '.' := by
  have hlow : ∀ r : Str, (strLower r).head? = some '.' ↔ r.head? = some '.' := by
    intro r
    cases r with
    | nil => exact Iff.rfl
    | cons c r =>
      show some c.toLower = some '.' ↔ some c = some '.'
      rw [Option.some.injEq, Option.some.injEq, toLower_dot]
  have heq : strLower s = strLower t := beq_iff_eq.1 h
  rw [← hlow s, heq, hlow t]

/-- Two dots name another domain: RFC 6265 drops one. -/
def TwoDots (v : Str) : Prop := ['.', '.'] <+: v

instance TwoDots.decidable (v : Str) : Decidable (TwoDots v) :=
  inferInstanceAs (Decidable (['.', '.'] <+: v))

theorem twoDots_cons (c : Char) (v : Str) : TwoDots (c :: v) ↔ c = '.' ∧ v.head? = some '.' := by
  unfold TwoDots
  cases v with
  | nil => simp
  | cons d v =>
    rw [List.cons_prefix_cons, List.cons_prefix_cons, List.head?_cons, Option.some.injEq]
    exact ⟨fun h => ⟨h.1.symm, h.2.1.symm⟩, fun h => ⟨h.1.symm, h.2.symm, List.nil_prefix⟩⟩

namespace Mapping

variable {U : UrlCrate} (m : Mapping U)

theorem DomainCut.unique {part key ws v tail key' ws' v' tail' : Str}
    (h : DomainCut part key ws v tail) (h' : DomainCut part key' ws' v' tail') :
    key = key' ∧ ws = ws' ∧ v = v' ∧ tail = tail' := by
  have hcut := h.cut.symm.trans h'.cut
  obtain ⟨hkey, hraw⟩ := append_cons_inj '=' _ _ _ _ h.key_plain h'.key_plain hcut
  exact ⟨hkey, h.padded.unique h'.padded hraw⟩

/-! ## One attribute -/

/-- `part` is a `Domain` for A: its host, with at most one dot before it. -/
structure UpstreamDomain (part key ws dot host tail : Str) : Prop where
  cut : DomainCut part key ws (dot ++ host) tail
  dot_one : dot = [] ∨ dot = ['.']
  same_domain : ¬ TwoDots (dot ++ host)
  upstream : strEqIgnoreCase host m.upstreamHost = true

/-- What an attribute becomes: of a `Domain` for A only the host changes. -/
structure AttributeFramed (part new : Str) : Prop where
  upstream : ∀ {key ws dot host tail}, m.UpstreamDomain part key ws dot host tail →
    new = key ++ '=' :: (ws ++ (dot ++ m.publicHost) ++ tail)
  other : (¬ ∃ key ws dot host tail, m.UpstreamDomain part key ws dot host tail) → new = part

/-- More dots than one are before the upstream host. -/
def DropsDots (v : Str) : Prop :=
  TwoDots v ∧ m.namesUpstream v = true ∧ v ≠ '.' :: m.publicHost

/-- The upstream host itself begins with a dot, and is not found once that is gone. -/
def MissesDotted (v : Str) : Prop :=
  ¬ TwoDots v ∧ m.upstreamHost.head? = some '.' ∧ strEqIgnoreCase v m.upstreamHost = true ∧
    v ≠ m.publicHost

/-- A `Domain` that is taken for A and is not, or is for A and not taken for it. -/
def Misdirected (part : Str) : Prop :=
  ∃ key ws v tail, DomainCut part key ws v tail ∧ (m.DropsDots v ∨ m.MissesDotted v)

theorem dotOf_append_trimStart (v : Str) (h : ¬ TwoDots v) : dotOf v ++ trimStart (· = '.') v = v := by
  unfold dotOf trimStart
  cases v with
  | nil => rfl
  | cons c v =>
    rw [twoDots_cons] at h
    by_cases hc : c = '.'
    · subst hc
      have hv : v.dropWhile (· = '.') = v := by
        cases v with
        | nil => rfl
        | cons d v =>
          refine List.dropWhile_cons_of_neg ?_
          simpa using h
      simp [hv]
    · simp [hc]

theorem dotOf_one (v : Str) : dotOf v = [] ∨ dotOf v = ['.'] := by
  unfold dotOf
  split
  · exact Or.inr rfl
  · exact Or.inl rfl

theorem trimStart_dot_head (v : Str) : (trimStart (· = '.') v).head? ≠ some '.' := by
  intro h
  have := List.head?_dropWhile_not (· = '.') v
  unfold trimStart at h
  rw [h] at this
  simp at this

/-- One dot, or none, in front of what begins with no dot. -/
theorem dot_cut {dot host : Str} (hdot : dot = [] ∨ dot = ['.']) (hhost : host.head? ≠ some '.') :
    dotOf (dot ++ host) = dot ∧ trimStart (· = '.') (dot ++ host) = host := by
  have hplain : host.dropWhile (· = '.') = host := by
    cases host with
    | nil => rfl
    | cons c host => exact List.dropWhile_cons_of_neg (by simpa using hhost)
  rcases hdot with rfl | rfl
  · refine ⟨?_, hplain⟩
    unfold dotOf
    rw [List.nil_append, if_neg hhost]
  · refine ⟨rfl, ?_⟩
    unfold trimStart
    rw [List.singleton_append, List.dropWhile_cons_of_pos (by simp), hplain]

/-- With no dot before the upstream host, a `Domain` is for A where it is taken for it. -/
theorem upstreamDomain_iff {part key ws v tail : Str} (hcut : DomainCut part key ws v tail)
    (hv : ¬ TwoDots v) (hH : m.upstreamHost.head? ≠ some '.') :
    m.namesUpstream v = true ↔
      ∃ key ws dot host tail, m.UpstreamDomain part key ws dot host tail := by
  constructor
  · intro hn
    refine ⟨key, ws, dotOf v, trimStart (· = '.') v, tail, ?_, dotOf_one v, ?_, hn⟩
    · rwa [dotOf_append_trimStart v hv]
    · rwa [dotOf_append_trimStart v hv]
  · rintro ⟨key', ws', dot, host, tail', h⟩
    obtain ⟨-, -, rfl, -⟩ := hcut.unique h.cut
    have hhost : host.head? ≠ some '.' := mt (strEqIgnoreCase_dot h.upstream).1 hH
    unfold namesUpstream
    rw [(dot_cut h.dot_one hhost).2]
    exact h.upstream

/-- A name after two dots: left as it is unless the dots are dropped. -/
theorem attributeFramed_twoDots {part key ws v tail : Str} (hcut : DomainCut part key ws v tail)
    (hv : TwoDots v) : m.AttributeFramed part (m.cookieAttribute part) ↔ ¬ m.DropsDots v := by
  have hnone : ¬ ∃ key ws dot host tail, m.UpstreamDomain part key ws dot host tail := by
    rintro ⟨key', ws', dot, host, tail', h⟩
    obtain ⟨-, -, rfl, -⟩ := hcut.unique h.cut
    exact h.same_domain hv
  have hdot : dotOf v = ['.'] := by
    obtain ⟨rest, rfl⟩ := hv
    rfl
  have hsame : key ++ '=' :: (ws ++ (dotOf v ++ m.publicHost) ++ tail) = part ↔
      v = '.' :: m.publicHost := by
    rw [hcut.cut, List.append_cancel_left_eq, List.cons.injEq, List.append_cancel_right_eq,
      List.append_cancel_left_eq, hdot]
    exact ⟨fun h => h.2.symm, fun h => ⟨rfl, h.symm⟩⟩
  unfold DropsDots
  rw [m.cookieAttribute_cut hcut]
  constructor
  · rintro hf ⟨-, hn, hne⟩
    have := hf.other hnone
    rw [if_pos hn, hsame] at this
    exact hne this
  · intro hd
    refine ⟨fun h => (hnone ⟨_, _, _, _, _, h⟩).elim, fun _ => ?_⟩
    by_cases hn : m.namesUpstream v = true
    · rw [if_pos hn, hsame]
      by_contra hne
      exact hd ⟨hv, hn, hne⟩
    · rw [if_neg hn]

/-- An upstream host that begins with a dot is never found. -/
theorem namesUpstream_dotted (v : Str) (hH : m.upstreamHost.head? = some '.') :
    m.namesUpstream v = false := by
  cases hn : m.namesUpstream v with
  | false => rfl
  | true => exact (trimStart_dot_head v ((strEqIgnoreCase_dot hn).2 hH)).elim

theorem attributeFramed_dotted {part key ws v tail : Str} (hcut : DomainCut part key ws v tail)
    (hv : ¬ TwoDots v) (hH : m.upstreamHost.head? = some '.') :
    m.AttributeFramed part (m.cookieAttribute part) ↔ ¬ m.MissesDotted v := by
  have hnew : m.cookieAttribute part = part := by
    rw [m.cookieAttribute_cut hcut, m.namesUpstream_dotted v hH]
    rfl
  -- a dot before a host that begins with one would be two
  have hnodot : ∀ {key ws dot host tail}, m.UpstreamDomain part key ws dot host tail →
      dot = [] ∧ host = v := by
    intro key' ws' dot host tail' h
    obtain ⟨-, -, rfl, -⟩ := hcut.unique h.cut
    rcases h.dot_one with rfl | rfl
    · exact ⟨rfl, rfl⟩
    · exact (hv ((twoDots_cons _ _).2 ⟨rfl, (strEqIgnoreCase_dot h.upstream).2 hH⟩)).elim
  unfold MissesDotted
  rw [hnew]
  constructor
  · rintro hf ⟨-, -, hup, hne⟩
    have hdom : m.UpstreamDomain part key ws [] v tail := ⟨hcut, Or.inl rfl, hv, hup⟩
    have hnew := hf.upstream hdom
    rw [hcut.cut, List.append_cancel_left_eq, List.cons.injEq, List.append_cancel_right_eq,
      List.append_cancel_left_eq] at hnew
    exact hne hnew.2
  · intro hm
    refine ⟨fun {key' ws' dot host tail'} h => ?_, fun _ => rfl⟩
    obtain ⟨rfl, rfl⟩ := hnodot h
    have hhost : host = m.publicHost := by
      by_contra hne
      exact hm ⟨hv, hH, h.upstream, hne⟩
    rw [h.cut.cut, List.nil_append, List.nil_append, ← hhost]

theorem attributeFramed_plain {part key ws v tail : Str} (hcut : DomainCut part key ws v tail)
    (hv : ¬ TwoDots v) (hH : m.upstreamHost.head? ≠ some '.') :
    m.AttributeFramed part (m.cookieAttribute part) := by
  rw [m.cookieAttribute_cut hcut]
  constructor
  · intro key' ws' dot host tail' h
    have hn := (m.upstreamDomain_iff hcut hv hH).2 ⟨_, _, _, _, _, h⟩
    obtain ⟨rfl, rfl, rfl, rfl⟩ := hcut.unique h.cut
    have hhost : host.head? ≠ some '.' := mt (strEqIgnoreCase_dot h.upstream).1 hH
    rw [if_pos hn, (dot_cut h.dot_one hhost).1]
  · intro hnone
    rw [if_neg (mt (m.upstreamDomain_iff hcut hv hH).1 hnone)]

/-- **One attribute.**  It becomes what it should unless it is misdirected. -/
theorem attributeFramed_iff (hne : m.upstreamHost ≠ []) (part : Str) :
    m.AttributeFramed part (m.cookieAttribute part) ↔ ¬ m.Misdirected part := by
  by_cases hcut : ∃ key ws v tail, DomainCut part key ws v tail
  · obtain ⟨key, ws, v, tail, hcut⟩ := hcut
    have hmis : m.Misdirected part ↔ m.DropsDots v ∨ m.MissesDotted v := by
      constructor
      · rintro ⟨key', ws', v', tail', hcut', h⟩
        obtain ⟨-, -, rfl, -⟩ := hcut.unique hcut'
        exact h
      · exact fun h => ⟨key, ws, v, tail, hcut, h⟩
    rw [hmis]
    by_cases hv : TwoDots v
    · rw [m.attributeFramed_twoDots hcut hv]
      exact not_congr ⟨Or.inl, fun h => h.elim id fun hm => (hm.1 hv).elim⟩
    · have hdrop : ¬ m.DropsDots v := fun h => hv h.1
      by_cases hH : m.upstreamHost.head? = some '.'
      · rw [m.attributeFramed_dotted hcut hv hH]
        exact not_congr ⟨Or.inr, fun h => h.elim (fun hd => (hdrop hd).elim) id⟩
      · refine iff_of_true (m.attributeFramed_plain hcut hv hH) ?_
        rintro (hd | hm)
        · exact hdrop hd
        · exact hH hm.2.1
  · have hnew : m.cookieAttribute part = part := by
      by_contra hchanged
      obtain ⟨key, ws, v, tail, h, -⟩ := m.exists_domainCut part hne hchanged
      exact hcut ⟨key, ws, v, tail, h⟩
    rw [hnew]
    refine iff_of_true ⟨fun h => (hcut ⟨_, _, _, _, h.cut⟩).elim, fun _ => rfl⟩ ?_
    rintro ⟨key, ws, v, tail, h, -⟩
    exact hcut ⟨key, ws, v, tail, h⟩

/-! ## The whole value -/

theorem isOws_white (c : Char) (h : isOws c = true) : isWhitespace c = true ∧ c ≠ '=' ∧ c ≠ ';' := by
  unfold isOws at h
  rw [Bool.or_eq_true, decide_eq_true_eq, decide_eq_true_eq] at h
  rcases h with rfl | rfl
  · decide
  · decide

/-- What holds a value with blanks after it holds it without. -/
theorem DomainCut.before_blanks {part post key ws v tail : Str}
    (h : DomainCut (part ++ post) key ws v tail) (hpost : ∀ c ∈ post, isOws c = true) (hv : v ≠ []) :
    ∃ key ws tail, DomainCut part key ws v tail := by
  have hplain : '=' ∉ post := fun h => (isOws_white _ (hpost _ h)).2.1 rfl
  have hmem : '=' ∈ part := by
    have hall : '=' ∈ part ++ post := by
      rw [h.cut]
      exact List.mem_append_right _ List.mem_cons_self
    exact (List.mem_append.1 hall).elim id fun h => (hplain h).elim
  obtain ⟨key', raw, rfl, hkey'⟩ := List.eq_append_cons_of_mem hmem
  have hcut := h.cut
  rw [List.append_assoc, List.cons_append] at hcut
  obtain ⟨rfl, hraw⟩ := append_cons_inj '=' _ _ _ _ hkey' h.key_plain hcut
  have htrim : trim isWhitespace raw = v := by
    rw [← h.padded.trim_eq, ← hraw]
    exact (strip_append_right isWhitespace raw post fun c hc => (isOws_white c (hpost c hc)).1).symm
  rcases exists_padded isWhitespace raw with ⟨pre, t, after, rfl, hp⟩ | ⟨-, hblank⟩
  · rw [hp.trim_eq] at htrim
    subst htrim
    exact ⟨key', pre, after, rfl, hkey', h.domain, hp⟩
  · refine (hv ?_).elim
    rw [← htrim]
    unfold trim trimStart
    rw [List.dropWhile_eq_nil_iff.2 hblank]
    rfl

/-- Blanks after an attribute stay after it. -/
theorem cookieAttribute_blanks (hne : m.upstreamHost ≠ []) (part : Str) {post : Str}
    (hpost : ∀ c ∈ post, isOws c = true) :
    m.cookieAttribute (part ++ post) = m.cookieAttribute part ++ post := by
  have hnamed : ∀ {v}, m.namesUpstream v = true → v ≠ [] := by
    rintro v hn rfl
    exact hne (List.map_eq_nil_iff.1 (beq_iff_eq.1 hn).symm)
  by_cases hcut : ∃ key ws v tail, DomainCut part key ws v tail ∧ v ≠ []
  · obtain ⟨key, ws, v, tail, hcut, hv⟩ := hcut
    have hcut' : DomainCut (part ++ post) key ws v (tail ++ post) := by
      refine ⟨?_, hcut.key_plain, hcut.domain,
        hcut.padded.snoc (fun c hc => (isOws_white c (hpost c hc)).1) hv⟩
      rw [hcut.cut, List.append_assoc, List.cons_append, List.append_assoc (ws ++ v)]
    rw [m.cookieAttribute_cut hcut, m.cookieAttribute_cut hcut']
    split
    · rw [← List.append_assoc _ tail post, List.append_assoc key, List.cons_append]
    · rfl
  · have hpart : m.cookieAttribute part = part := by
      by_contra hchanged
      obtain ⟨key, ws, v, tail, h, hn⟩ := m.exists_domainCut part hne hchanged
      exact hcut ⟨key, ws, v, tail, h, hnamed hn⟩
    rw [hpart]
    by_contra hchanged
    obtain ⟨key, ws, v, tail, h, hn⟩ := m.exists_domainCut (part ++ post) hne hchanged
    obtain ⟨key', ws', tail', h'⟩ := h.before_blanks hpost (hnamed hn)
    exact hcut ⟨key', ws', v, tail', h', hnamed hn⟩

/-- `setCookie` of a value that is given by its parts. -/
theorem setCookie_parts (first : Str) (parts : List Str)
    (h : ∀ part ∈ first :: parts, ';' ∉ part) :
    m.setCookie (first ++ parts.flatMap fun part => ';' :: part) =
      first ++ parts.flatMap fun part => ';' :: m.cookieAttribute part := by
  have hcut : (first ++ parts.flatMap fun part => ';' :: part).splitOn ';' = first :: parts := by
    rw [← intercalate_cons]
    exact List.splitOn_intercalate ';' h (List.cons_ne_nil _ _)
  unfold setCookie
  rw [hcut]

/-- Blanks around a value stay around it. -/
theorem setCookie_blanks (hne : m.upstreamHost ≠ []) (t : Str) {pre post : Str}
    (hpre : ∀ c ∈ pre, isOws c = true) (hpost : ∀ c ∈ post, isOws c = true) :
    m.setCookie (pre ++ t ++ post) = pre ++ m.setCookie t ++ post := by
  have hplain : ∀ w : Str, (∀ c ∈ w, isOws c = true) → ';' ∉ w :=
    fun w hw h => (isOws_white _ (hw _ h)).2.2 rfl
  obtain ⟨first, ht⟩ := exists_splitOn t
  have hparts := not_mem_of_mem_splitOn ';' t
  rw [ht] at hparts
  have hfirst : ';' ∉ pre ++ first :=
    List.not_mem_append (hplain pre hpre) (hparts first List.mem_cons_self)
  have hjoin : t = first ++ (attributes t).flatMap fun part => ';' :: part := by
    rw [← intercalate_cons, ← ht, List.intercalate_splitOn]
  generalize attributes t = parts at hparts hjoin
  subst hjoin
  rw [m.setCookie_parts first parts hparts]
  rcases List.eq_nil_or_concat parts with rfl | ⟨parts, part, rfl⟩
  · have hnew := m.setCookie_parts (pre ++ first ++ post) [] fun w hw => by
      rw [List.mem_singleton.1 hw]
      exact List.not_mem_append hfirst (hplain post hpost)
    simpa using hnew
  · have hnew := m.setCookie_parts (pre ++ first) (parts ++ [part ++ post]) fun w hw => by
      rw [List.mem_cons, List.mem_append, List.mem_singleton] at hw
      rcases hw with rfl | hw | rfl
      · exact hfirst
      · exact hparts w (by simp [hw])
      · exact List.not_mem_append (hparts part (by simp)) (hplain post hpost)
    simp only [List.flatMap_append, List.flatMap_singleton, m.cookieAttribute_blanks hne _ hpost]
      at hnew
    simpa only [List.concat_eq_append, List.flatMap_append, List.flatMap_singleton,
      List.append_assoc, List.cons_append] using hnew

/-- **Framing of a value**: the parts between its `;`, the first of which is kept. -/
structure CookieFramed (old new : List Str) : Prop where
  length : new.length = old.length
  first : new.head? = old.head?
  attributes : List.Forall₂ m.AttributeFramed old.tail new.tail

theorem setCookie_framed_iff (hne : m.upstreamHost ≠ []) (hsemi : ';' ∉ m.publicHost) (s : Str) :
    m.CookieFramed (s.splitOn ';') ((m.setCookie s).splitOn ';') ↔
      ∀ part ∈ attributes s, ¬ m.Misdirected part := by
  obtain ⟨first, hs⟩ := exists_splitOn s
  have hnew := m.setCookie_splitOn hsemi hne s hs
  have hattr : List.Forall₂ m.AttributeFramed (attributes s) ((attributes s).map m.cookieAttribute) ↔
      ∀ part ∈ attributes s, ¬ m.Misdirected part := by
    rw [List.forall₂_map_right_iff, List.forall₂_same]
    exact forall₂_congr fun part _ => m.attributeFramed_iff hne part
  rw [← hattr, hnew]
  conv_lhs => rw [hs]
  exact ⟨fun h => h.attributes, fun h => ⟨by simp, rfl, h⟩⟩

/-- `value` maps a `Set-Cookie` whole, blanks and all. -/
theorem value_setCookie (hne : m.upstreamHost ≠ []) (name : Bytes) (s : Str) (out : Bytes)
    (hname : asciiLower name = ascii "set-cookie")
    (h : m.value name (utf8 s) true = .ok out) : out = utf8 (m.setCookie s) := by
  have hr : relevant (asciiLower name) true = true := by
    rw [hname]
    decide
  obtain ⟨pre, t, post, t', hs, hp, hmap, rfl⟩ := (m.value_ok_iff name _ out true hr).1 h
  obtain rfl := utf8_inj _ _ hs
  rw [m.setCookie_blanks hne t hp.before hp.after]
  rw [hname] at hmap
  unfold mapTrimmed at hmap
  rw [if_neg (by decide), if_neg (by decide), if_pos (by decide)] at hmap
  cases hmap
  rfl

/-- **`Set-Cookie` framing.**  An accepted value keeps its parts and changes the host of
the `Domain` attributes for A only, exactly if no attribute is misdirected. -/
theorem value_framed_iff (hU : HttpsHosts U) (hsemi : ';' ∉ m.publicHost) (name : Bytes) (s : Str)
    (out : Bytes) (hname : asciiLower name = ascii "set-cookie")
    (h : m.value name (utf8 s) true = .ok out) :
    (∃ s', out = utf8 s' ∧ m.CookieFramed (s.splitOn ';') (s'.splitOn ';')) ↔
      ∀ part ∈ (s.splitOn ';').tail, ¬ m.Misdirected part := by
  have hne := (hU.authority m.upstream_ok).1
  obtain rfl := m.value_setCookie hne name s out hname h
  refine Iff.trans ?_ (m.setCookie_framed_iff hne hsemi s)
  constructor
  · rintro ⟨s', hs', hf⟩
    rwa [utf8_inj _ _ hs']
  · exact fun hf => ⟨_, rfl, hf⟩

/-- Only what has two dots goes astray, unless the upstream host begins with one. -/
theorem Misdirected.dots {part : Str} (hH : m.upstreamHost.head? ≠ some '.')
    (h : m.Misdirected part) : ['.', '.'] <:+: part := by
  obtain ⟨key, ws, v, tail, hcut, hd | hm⟩ := h
  · obtain ⟨rest, rfl⟩ := hd.1
    refine ⟨key ++ '=' :: ws, rest ++ tail, ?_⟩
    rw [hcut.cut]
    simp
  · exact (hH hm.2.1).elim

/-- A cookie whose value looks like an attribute. -/
theorem value_framed_sample : ∃ s',
    utf8 " sid=Domain=a.test; domain = .b.test ; Path=/ ".toList = utf8 s' ∧
      sampleMapping.CookieFramed
        (" sid=Domain=a.test; domain = .A.test ; Path=/ ".toList.splitOn ';') (s'.splitOn ';') := by
  refine (sampleMapping.value_framed_iff dottedCrate_hosts (by decide) (ascii "Set-Cookie") _ _
    (by decide) (by decide +kernel)).2 fun part hp h => ?_
  have hdots : ∀ part ∈ (" sid=Domain=a.test; domain = .A.test ; Path=/ ".toList.splitOn ';').tail,
      ¬ ['.', '.'] <:+: part := by decide +kernel
  exact hdots part hp (h.dots sampleMapping (by decide))

/-- A domain that is not the upstream host becomes the public one. -/
theorem cookie_two_dots :
    sampleMapping.value (ascii "Set-Cookie") (utf8 "id=1; Domain=..a.test".toList) true =
      .ok (utf8 "id=1; Domain=.b.test".toList) ∧
    ¬ ∃ s', utf8 "id=1; Domain=.b.test".toList = utf8 s' ∧
      sampleMapping.CookieFramed ("id=1; Domain=..a.test".toList.splitOn ';') (s'.splitOn ';') := by
  refine ⟨by decide +kernel, ?_⟩
  rintro ⟨s', hs', hf⟩
  obtain rfl := utf8_inj _ _ hs'
  have hattr := hf.attributes
  rw [show ("id=1; Domain=..a.test".toList.splitOn ';').tail = [" Domain=..a.test".toList] from by
      decide +kernel,
    show ("id=1; Domain=.b.test".toList.splitOn ';').tail = [" Domain=.b.test".toList] from by
      decide +kernel, List.forall₂_cons] at hattr
  have hcut : DomainCut " Domain=..a.test".toList " Domain".toList [] "..a.test".toList [] :=
    ⟨by decide, by decide, by decide, by decide, by decide, by decide, by decide, by decide⟩
  have hsame := hattr.1.other fun ⟨_, _, _, _, _, h⟩ => by
    obtain ⟨-, -, hv, -⟩ := hcut.unique h.cut
    exact h.same_domain (hv ▸ by decide)
  exact absurd hsame (by decide)

end Mapping
