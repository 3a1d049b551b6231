import FingerprintBridge.Rewrite.Cookie

/-!
# Navigation through the bridge

A `Location` is mapped in the response and comes back as a `Referer` or `Origin`: the
two mappings undo each other.  Mapping once more in the same direction changes
nothing, but for a cookie's `Domain` where the public host is the upstream host with
dots before it.
-/

namespace Mapping

variable {U : UrlCrate} (m : Mapping U)

/-! ## URLs -/

/-- `Location` in responses, `Origin` and `Referer` in requests. -/
def isUrlField (name : Bytes) (response : Bool) : Bool :=
  if response then asciiLower name == ascii "location"
  else asciiLower name == ascii "origin" || asciiLower name == ascii "referer"

theorem mapTrimmed_url (name : Bytes) (t : Str) (response : Bool)
    (hn : isUrlField name response = true) :
    relevant (asciiLower name) response = true ∧
      m.mapTrimmed (asciiLower name) t response = m.mapUrl t response := by
  unfold isUrlField at hn
  cases response with
  | false =>
    rw [if_neg Bool.false_ne_true, Bool.or_eq_true, beq_iff_eq, beq_iff_eq] at hn
    rcases hn with hn | hn
    · rw [hn]
      exact ⟨rfl, rfl⟩
    · rw [hn]
      exact ⟨rfl, rfl⟩
  | true =>
    rw [if_pos rfl, beq_iff_eq] at hn
    rw [hn]
    exact ⟨rfl, rfl⟩

/-- What is put in the place of an authority is itself read as that origin. -/
theorem authority_other (response : Bool) :
    authority U (m.other (!response)) = .ok (m.expected response) := by
  cases response with
  | false => exact m.public_ok
  | true => exact m.upstream_ok

theorem other_plain (response : Bool) : PlainAuthority (m.other response) := by
  have h := m.authority_other (!response)
  rw [Bool.not_not] at h
  exact ((authority_ok_iff _ _).1 h).1

/-- The rest of a URL after its authority. -/
def UrlRest (rest : Str) : Prop := ∀ c, rest.head? = some c → isUrlDelimiter c = true

theorem cut_other {pre rest : Str} (response : Bool)
    (hpre : pre = "https://".toList ∨ pre = "//".toList) (hrest : UrlRest rest) :
    UrlCut (pre ++ m.other response ++ rest) pre (m.other response) rest := by
  refine ⟨rfl, hpre, fun c hc => ?_, hrest⟩
  obtain ⟨h1, h2, h3, -⟩ := (m.other_plain response).2 c hc
  simp [isUrlDelimiter, h1, h2, h3]

/-- A URL with the one configured authority is mapped to the one with the other. -/
theorem mapUrl_other {pre rest : Str} (response : Bool)
    (hpre : pre = "https://".toList ∨ pre = "//".toList) (hrest : UrlRest rest) :
    m.mapUrl (pre ++ m.other (!response) ++ rest) response =
      .ok (pre ++ m.other response ++ rest) :=
  (m.mapUrl_ok_iff _ _ response).2
    (Or.inl ⟨pre, _, rest, ⟨m.cut_other (!response) hpre hrest, m.authority_other response⟩, rfl⟩)

theorem mapUrl_idem (s t : Str) (response : Bool) (h : m.mapUrl s response = .ok t) :
    m.mapUrl t response = .ok t := by
  rcases (m.mapUrl_ok_iff s t response).1 h with ⟨pre, piece, rest, hm, rfl⟩ | ⟨-, rfl⟩
  · have hcut := m.cut_other response hm.begins hm.rest_delimited
    rw [m.mapUrl_cut response hcut]
    by_cases hd : authority U (m.other response) = .ok (m.expected response)
    · rw [(denotes_true_iff _ _).2 hd]
      rfl
    · rw [denotes_false _ _ hd]
      rfl
  · exact h

theorem begins_head {pre t : Str} (h : pre = "https://".toList ∨ pre = "//".toList) :
    (pre ++ t).head? = pre.head? ∧ ∀ c ∈ pre, 32 < c.toNat := by
  rcases h with rfl | rfl
  · exact ⟨rfl, by decide⟩
  · exact ⟨rfl, by decide⟩

/-- A mapped URL begins and ends as the first or with a printable character. -/
theorem mapUrl_ends (s t : Str) (response : Bool) (h : m.mapUrl s response = .ok t) :
    t.head? = s.head? ∧
      ∀ c, t.getLast? = some c → s.getLast? = some c ∨ 32 < c.toNat := by
  rcases (m.mapUrl_ok_iff s t response).1 h with ⟨pre, piece, rest, hm, rfl⟩ | ⟨-, rfl⟩
  · refine ⟨?_, fun c hc => ?_⟩
    · rw [hm.cut, List.append_assoc, List.append_assoc, (begins_head hm.begins).1,
        (begins_head hm.begins).1]
    · by_cases hrest : rest = []
      · right
        rw [hrest, List.append_nil] at hc
        rcases List.mem_append.1 (List.mem_of_getLast? hc) with hc | hc
        · exact (begins_head (t := []) hm.begins).2 c hc
        · exact ((m.other_plain response).1 c hc).2.1
      · left
        rw [List.getLast?_append_of_ne_nil _ hrest] at hc
        rw [hm.cut, List.getLast?_append_of_ne_nil _ hrest]
        exact hc
  · exact ⟨rfl, fun c hc => Or.inl hc⟩

/-! ## Values -/

/-- Mapping a value once more is mapping once more what stands between its blanks. -/
theorem value_again_iff {pre t t' post : Str} (name : Bytes) (response : Bool)
    (hr : relevant (asciiLower name) response = true) (h : Padded isOws pre t post)
    (hhead : t'.head? = t.head?)
    (hlast : ∀ c, t'.getLast? = some c → t.getLast? = some c ∨ 32 < c.toNat) :
    m.value name (utf8 (pre ++ t' ++ post)) response = .ok (utf8 (pre ++ t' ++ post)) ↔
      m.mapTrimmed (asciiLower name) t' response = .ok t' := by
  have hp : Padded isOws pre t' post := by
    refine h.replace (fun c hc => Or.inl (hhead ▸ hc)) (fun c hc => ?_) fun h0 => ?_
    · exact (hlast c hc).imp_right (isOws_of_printable c)
    · rw [h0] at hhead
      exact List.head?_eq_none_iff.1 hhead.symm
  rw [m.value_padded name response hr hp, Res.bind_ok_iff]
  constructor
  · rintro ⟨mapped, hm, he⟩
    have hs := utf8_inj _ _ (Except.ok.inj he)
    rwa [List.append_cancel_left (List.append_cancel_right hs)] at hm
  · intro hm
    exact ⟨t', hm, rfl⟩

/-- A URL, with the blanks at its end. -/
theorem padded_url {pre auth rest : Str} (hpre : pre = "https://".toList ∨ pre = "//".toList)
    (hauth : ∀ c ∈ auth, 32 < c.toNat) :
    Padded isOws [] (pre ++ auth ++ rest.rdropWhile isOws) (rest.rtakeWhile isOws) := by
  have hprintable := (begins_head (t := []) hpre).2
  have hne : pre ≠ [] := by rcases hpre with rfl | rfl <;> exact List.cons_ne_nil _ _
  refine ⟨by simp, fun c hc => List.mem_rtakeWhile_imp hc, fun c hc => ?_, fun c hc => ?_, fun h0 => ?_⟩
  · rw [List.append_assoc, (begins_head hpre).1] at hc
    exact isOws_of_printable c (hprintable c (List.mem_of_head? hc))
  · by_cases hrest : rest.rdropWhile isOws = []
    · rw [hrest, List.append_nil] at hc
      rcases List.mem_append.1 (List.mem_of_getLast? hc) with hc | hc
      · exact isOws_of_printable c (hprintable c hc)
      · exact isOws_of_printable c (hauth c hc)
    · rw [List.getLast?_append_of_ne_nil _ hrest, List.getLast?_eq_some_getLast hrest,
        Option.some.injEq] at hc
      have := List.rdropWhile_last_not isOws rest hrest
      rwa [hc, Bool.not_eq_true] at this
  · exact (hne (List.append_eq_nil_iff.1 (List.append_eq_nil_iff.1 h0).1).1).elim

/-- The one configured authority is mapped to the other. -/
theorem value_other {pre rest : Str} (name : Bytes) (response : Bool)
    (hn : isUrlField name response = true)
    (hpre : pre = "https://".toList ∨ pre = "//".toList) (hrest : UrlRest rest) :
    m.value name (utf8 (pre ++ m.other (!response) ++ rest)) response =
      .ok (utf8 (pre ++ m.other response ++ rest)) := by
  obtain ⟨hr, hmap⟩ :=
    m.mapTrimmed_url name (pre ++ m.other (!response) ++ rest.rdropWhile isOws) response hn
  have hshort : UrlRest (rest.rdropWhile isOws) := by
    intro c hc
    obtain ⟨blanks, hb⟩ := List.rdropWhile_prefix isOws rest
    refine hrest c ?_
    rw [← hb, List.head?_append, hc]
    rfl
  have hp : Padded isOws [] (pre ++ m.other (!response) ++ rest.rdropWhile isOws)
      (rest.rtakeWhile isOws) :=
    padded_url hpre fun c hc => ((m.other_plain (!response)).1 c hc).2.1
  have hjoin : ∀ x : Str, [] ++ (x ++ rest.rdropWhile isOws) ++ rest.rtakeWhile isOws = x ++ rest := by
    intro x
    rw [List.nil_append, List.append_assoc, List.rdropWhile_append_rtakeWhile]
  have hval := m.value_padded name response hr hp
  rw [hjoin, hmap, m.mapUrl_other response hpre hshort] at hval
  rw [hval]
  exact congrArg (fun s => Except.ok (utf8 s)) (hjoin _)

/-- A `Location` in a response, sent back as a `Referer` or `Origin`, is what it was, and
the other way round. -/
def RoundTrip : Prop :=
  ∀ pre rest location back, pre = "https://".toList ∨ pre = "//".toList → UrlRest rest →
    isUrlField location true = true → isUrlField back false = true →
    (∃ v, m.value location (utf8 (pre ++ m.upstream ++ rest)) true = .ok v ∧
      m.value back v false = .ok (utf8 (pre ++ m.upstream ++ rest))) ∧
    ∃ v, m.value back (utf8 (pre ++ m.publicAuthority ++ rest)) false = .ok v ∧
      m.value location v true = .ok (utf8 (pre ++ m.publicAuthority ++ rest))

/-- A mapped value is not changed by being mapped once more. -/
def Idempotent (name v : Bytes) (response : Bool) : Prop :=
  ∀ v', m.value name v response = .ok v' → m.value name v' response = .ok v'

theorem roundTrip : m.RoundTrip := by
  intro pre rest location back hpre hrest hl hb
  exact ⟨⟨_, m.value_other location true hl hpre hrest, m.value_other back false hb hpre hrest⟩,
    ⟨_, m.value_other back false hb hpre hrest, m.value_other location true hl hpre hrest⟩⟩

theorem url_idempotent (name v : Bytes) (response : Bool) (hn : isUrlField name response = true) :
    m.Idempotent name v response := by
  intro v' h
  have hr := (m.mapTrimmed_url name [] response hn).1
  obtain ⟨pre, t, post, t', rfl, hp, ht', rfl⟩ := (m.value_ok_iff name v v' response hr).1 h
  rw [(m.mapTrimmed_url name t response hn).2] at ht'
  obtain ⟨hhead, hlast⟩ := m.mapUrl_ends t t' response ht'
  rw [m.value_again_iff name response hr hp hhead hlast, (m.mapTrimmed_url name t' response hn).2]
  exact m.mapUrl_idem t t' response ht'

/-- The value names the upstream host in an attribute, without a dot. -/
def NamesUndotted (v : Bytes) : Prop := ∃ s, v = utf8 s ∧ m.UndottedDomain (trim isOws s)

theorem mapTrimmed_cookie (t : Str) :
    m.mapTrimmed (ascii "set-cookie") t true = .ok (m.setCookie t) := rfl

theorem cookie_idempotent_iff (hU : HttpsHosts U) (hsemi : ';' ∉ m.publicHost) (name v v' : Bytes)
    (hn : asciiLower name = ascii "set-cookie") (h : m.value name v true = .ok v') :
    m.value name v' true = .ok v' ↔ ¬ (m.DottedPublic ∧ m.NamesUndotted v) := by
  have hr : relevant (asciiLower name) true = true := by
    rw [hn]
    rfl
  obtain ⟨pre, t, post, t', rfl, hp, ht', rfl⟩ := (m.value_ok_iff name v v' true hr).1 h
  rw [hn, m.mapTrimmed_cookie] at ht'
  obtain rfl : m.setCookie t = t' := Except.ok.inj ht'
  rw [m.value_again_iff name true hr hp (m.setCookie_head t) (m.setCookie_last hU t), hn,
    m.mapTrimmed_cookie, Except.ok.injEq, m.setCookie_again_iff hU hsemi]
  have hnames : m.NamesUndotted (utf8 (pre ++ t ++ post)) ↔ m.UndottedDomain t := by
    constructor
    · rintro ⟨s, hs, hd⟩
      rwa [← utf8_inj _ _ hs, hp.trim_eq] at hd
    · intro hd
      exact ⟨_, rfl, by rwa [hp.trim_eq]⟩
  rw [hnames]

/-- **Navigation.**  The mappings of both directions undo each other, and each leaves
alone what it has mapped, but for the second dot of a cookie's domain. -/
theorem navigation (hU : HttpsHosts U) (hsemi : ';' ∉ m.publicHost) :
    m.RoundTrip ∧
      (∀ name v response, isUrlField name response = true → m.Idempotent name v response) ∧
      ∀ name v v', asciiLower name = ascii "set-cookie" → m.value name v true = .ok v' →
        (m.value name v' true = .ok v' ↔ ¬ (m.DottedPublic ∧ m.NamesUndotted v)) :=
  ⟨m.roundTrip, m.url_idempotent, m.cookie_idempotent_iff hU hsemi⟩

theorem navigation_sample : sampleMapping.RoundTrip ∧
    (∀ name v response, isUrlField name response = true → sampleMapping.Idempotent name v response) ∧
    sampleMapping.value (ascii "Set-Cookie") (ascii "id=1; Domain=b.test") true =
      .ok (ascii "id=1; Domain=b.test") := by
  obtain ⟨hround, hurl, hcookie⟩ := sampleMapping.navigation dottedCrate_hosts (by decide)
  refine ⟨hround, hurl, (hcookie (ascii "Set-Cookie") (ascii "id=1; Domain=a.test") _ (by decide)
    (by decide +kernel)).2 fun h => absurd h.1.1 (by decide)⟩

/-- B is `.b.test`, A is `b.test`. -/
def dottedMapping : Mapping dottedCrate where
  publicAuthority := ".b.test".toList
  upstream := "b.test".toList
  publicHost := ".b.test".toList
  upstreamHost := "b.test".toList
  publicPort := 443
  upstreamPort := 443
  public_ok := by decide
  upstream_ok := by decide

theorem cookie_dotted_twice : ';' ∉ dottedMapping.publicHost ∧ ';' ∉ dottedMapping.upstreamHost ∧
    ¬ dottedMapping.Idempotent (ascii "Set-Cookie") (ascii "id=1; Domain=b.test") true := by
  refine ⟨by decide, by decide, fun h => ?_⟩
  have hagain := h (ascii "id=1; Domain=.b.test") (by decide +kernel)
  revert hagain
  decide +kernel

end Mapping
