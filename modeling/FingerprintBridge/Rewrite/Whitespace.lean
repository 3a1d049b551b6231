import FingerprintBridge.Rewrite.Facts

/-!
# Blanks around a value

`value` maps what stands between the blanks of a value and puts the blanks back.  Its
two offsets cross where nothing stands between them: such a value is refused, while the
empty one is mapped.
-/

/-- `v` neither begins nor ends with a blank or tab. -/
def Trimmed (v : Bytes) : Prop :=
  (∀ b, v.head? = some b → isOwsByte b = false) ∧ ∀ b, v.getLast? = some b → isOwsByte b = false

/-- Octets that are blanks or tabs are a text of these. -/
theorem exists_ows (w : Bytes) (h : ∀ b ∈ w, isOwsByte b = true) :
    ∃ s, w = utf8 s ∧ ∀ c ∈ s, isOws c = true := by
  have hchar : ∀ b, isOwsByte b = true → ∃ c, isOws c = true ∧ String.utf8EncodeChar c = [b] := by
    intro b hb
    unfold isOwsByte at hb
    simp only [Bool.or_eq_true, decide_eq_true_eq] at hb
    rcases hb with rfl | rfl
    · exact ⟨' ', by decide, by decide⟩
    · exact ⟨'\t', by decide, by decide⟩
  induction w with
  | nil => exact ⟨[], rfl, fun c hc => nomatch hc⟩
  | cons b w ih =>
    obtain ⟨s, rfl, hs⟩ := ih fun a ha => h a (List.mem_cons_of_mem _ ha)
    obtain ⟨c, hc, hb⟩ := hchar b (h b List.mem_cons_self)
    refine ⟨c :: s, ?_, fun d hd => ?_⟩
    · show b :: utf8 s = String.utf8EncodeChar c ++ utf8 s
      rw [hb]
      rfl
    · rcases List.mem_cons.1 hd with rfl | hd
      · exact hc
      · exact hs d hd

/-- A trimmed value between blanks is a text exactly if it is one itself. -/
theorem utf8_padded (pre post s : Str) (v : Bytes) (hpre : ∀ c ∈ pre, isOws c = true)
    (hpost : ∀ c ∈ post, isOws c = true) (hv : Trimmed v)
    (h : utf8 s = utf8 pre ++ v ++ utf8 post) :
    ∃ t, v = utf8 t ∧ s = pre ++ t ++ post := by
  have hows : ∀ w : Str, (∀ c ∈ w, isOws c = true) → ∀ b ∈ utf8 w, isOwsByte b = true := by
    intro w hw b hb
    obtain ⟨c, hc, hb⟩ := List.mem_flatMap.1 hb
    rw [isOwsByte_of_mem c b hb]
    exact hw c hc
  have hstrip := strip_eq isOwsByte (utf8 pre) v (utf8 post) (hows pre hpre) (hows post hpost) hv.1 hv.2
  rw [← h, strip_utf8] at hstrip
  refine ⟨trim isOws s, hstrip.symm, utf8_inj _ _ ?_⟩
  rw [h, utf8_append, utf8_append, hstrip]

/-- A trimmed text has trimmed octets. -/
theorem Trimmed.text {t : Str} (h : Trimmed (utf8 t)) :
    (∀ c, t.head? = some c → isOws c = false) ∧ ∀ c, t.getLast? = some c → isOws c = false := by
  have htrim : utf8 (trim isOws t) = utf8 t := by
    rw [← strip_utf8]
    have := strip_eq isOwsByte [] (utf8 t) [] (by simp) (by simp) h.1 h.2
    rwa [List.nil_append, List.append_nil] at this
  have ht : strip isOws t = t := utf8_inj _ _ htrim
  constructor
  · intro c hc
    rw [← ht] at hc
    exact strip_head isOws t c hc
  · intro c hc
    rw [← ht] at hc
    exact strip_last isOws t c hc

namespace Mapping

variable {U : UrlCrate} (m : Mapping U)

/-- `value` of a text, with the offsets of what stands between its blanks. -/
theorem value_utf8 (name : Bytes) (s : Str) (response : Bool) (leading stop : Nat)
    (hr : relevant (asciiLower name) response = true)
    (hl : s.length - (trimStart isOws s).length = leading) (hs : (trimEnd isOws s).length = stop) :
    m.value name (utf8 s) response = (do
      ensure (leading ≤ stop) "empty mapped header"
      let mapped ← m.mapTrimmed (asciiLower name) ((s.drop leading).take (stop - leading)) response
      return utf8 (s.take leading ++ mapped ++ s.drop stop)) := by
  subst hl hs
  unfold value
  simp only [hr, Bool.not_true, Bool.false_eq_true, if_false, fromUtf8_utf8]
  rfl

/-- What stands between the blanks is mapped. -/
theorem value_padded (name : Bytes) {pre t post : Str} (response : Bool)
    (hr : relevant (asciiLower name) response = true) (h : Padded isOws pre t post) :
    m.value name (utf8 (pre ++ t ++ post)) response = (do
      let mapped ← m.mapTrimmed (asciiLower name) t response
      return utf8 (pre ++ mapped ++ post)) := by
  obtain ⟨hleading, hstop⟩ := h.offsets
  have htake : ((pre ++ t ++ post).drop pre.length).take t.length = t := by
    rw [List.append_assoc, List.drop_left, List.take_left]
  have hdrop : (pre ++ t ++ post).drop (pre.length + t.length) = post := by
    rw [← List.length_append, List.drop_left]
  have hfirst : (pre ++ t ++ post).take pre.length = pre := by
    rw [List.append_assoc, List.take_left]
  rw [m.value_utf8 name _ response _ _ hr hleading hstop, Nat.add_sub_cancel_left, htake, hdrop,
    hfirst, ensure, if_pos (by omega)]
  rfl

/-- Where the blanks meet the value is refused. -/
theorem value_blank (name : Bytes) (s : Str) (response : Bool)
    (hr : relevant (asciiLower name) response = true) (hs : ∀ c ∈ s, isOws c = true)
    (hne : s ≠ []) : m.value name (utf8 s) response = .error (.err "empty mapped header") := by
  have hstart : trimStart isOws s = [] := List.dropWhile_eq_nil_iff.2 hs
  have hend : trimEnd isOws s = [] := List.rdropWhile_eq_nil_iff.2 hs
  have hpos := List.length_pos_iff.2 hne
  rw [m.value_utf8 name s response s.length 0 hr (by rw [hstart]; rfl) (by rw [hend]; rfl), ensure,
    if_neg (by omega)]
  rfl

/-- **What `value` does** to a field that is mapped. -/
theorem value_ok_iff (name v v' : Bytes) (response : Bool)
    (hr : relevant (asciiLower name) response = true) :
    m.value name v response = .ok v' ↔
      ∃ pre t post t', v = utf8 (pre ++ t ++ post) ∧ Padded isOws pre t post ∧
        m.mapTrimmed (asciiLower name) t response = .ok t' ∧ v' = utf8 (pre ++ t' ++ post) := by
  constructor
  · intro h
    have htext : ∃ s, v = utf8 s := by
      unfold value at h
      simp only [hr, Bool.not_true, Bool.false_eq_true, if_false] at h
      obtain ⟨s, hs, -⟩ := (Res.bind_ok_iff _ _ _).1 h
      exact ⟨s, (fromUtf8_ok_iff v s).1 hs⟩
    obtain ⟨s, rfl⟩ := htext
    rcases exists_padded isOws s with ⟨pre, t, post, rfl, hp⟩ | ⟨hne, hblank⟩
    · rw [m.value_padded name response hr hp] at h
      obtain ⟨t', ht', h⟩ := (Res.bind_ok_iff _ _ _).1 h
      cases h
      exact ⟨pre, t, post, t', rfl, hp, ht', rfl⟩
    · rw [m.value_blank name s response hr hblank hne] at h
      cases h
  · rintro ⟨pre, t, post, t', rfl, hp, ht', rfl⟩
    rw [m.value_padded name response hr hp, ht']
    rfl

/-- Blanks around `v` make no difference but that they are kept. -/
def OwsIrrelevant (name v : Bytes) (response : Bool) (w₁ w₂ : Bytes) : Prop :=
  ∀ r, m.value name (w₁ ++ v ++ w₂) response = .ok r ↔
    ∃ r', m.value name v response = .ok r' ∧ r = w₁ ++ r' ++ w₂

/-- A field that is mapped, and may be empty, has nothing but blanks. -/
def OnlyBlanks (name v : Bytes) (response : Bool) (w₁ w₂ : Bytes) : Prop :=
  v = [] ∧ w₁ ++ w₂ ≠ [] ∧ relevant (asciiLower name) response = true ∧
    asciiLower name ≠ ascii "host" ∧ asciiLower name ≠ ascii ":authority"

/-- An empty value of a mapped field is mapped, but for an authority. -/
theorem value_empty (name : Bytes) (response : Bool)
    (hr : relevant (asciiLower name) response = true) :
    m.value name [] response = .ok [] ↔
      asciiLower name ≠ ascii "host" ∧ asciiLower name ≠ ascii ":authority" := by
  have hp : Padded isOws [] [] [] := ⟨by simp, by simp, by simp, by simp, fun _ => rfl⟩
  have hval := m.value_padded name response hr hp
  rw [show utf8 ([] ++ [] ++ []) = [] from rfl] at hval
  rw [hval, Res.bind_ok_iff]
  constructor
  · rintro ⟨mapped, hm, -⟩
    unfold mapTrimmed at hm
    split at hm
    · rw [m.isPublic_nil] at hm
      cases hm
    · next h =>
      simp only [Bool.or_eq_true, beq_iff_eq, not_or] at h
      exact h
  · rintro ⟨h1, h2⟩
    refine ⟨[], ?_, rfl⟩
    unfold relevant at hr
    unfold mapTrimmed
    simp only [beq_iff_eq, h1, h2, Bool.or_eq_true, or_self, if_false]
    cases response
    · simp only [Bool.false_eq_true, if_false, Bool.or_eq_true, beq_iff_eq, h1, h2, false_or] at hr
      rcases hr with hr | hr
      · rw [if_pos (Or.inl (Or.inl hr))]
        rfl
      · rw [if_pos (Or.inl (Or.inr hr))]
        rfl
    · simp only [if_true, Bool.or_eq_true, beq_iff_eq] at hr
      rcases hr with hr | hr
      · rw [hr, if_neg (by decide), if_pos rfl]
        rfl
      · rw [if_pos (Or.inr hr)]
        rfl

theorem OnlyBlanks.not_irrelevant {name v w₁ w₂ : Bytes} {response : Bool}
    (h1 : ∀ b ∈ w₁, isOwsByte b = true) (h2 : ∀ b ∈ w₂, isOwsByte b = true)
    (h : OnlyBlanks name v response w₁ w₂) : ¬ m.OwsIrrelevant name v response w₁ w₂ := by
  obtain ⟨rfl, hne, hr, hn⟩ := h
  intro hows
  have hok := (hows _).2 ⟨[], (m.value_empty name response hr).2 hn, rfl⟩
  obtain ⟨s, hs, hblank⟩ := exists_ows (w₁ ++ w₂) fun b hb => (List.mem_append.1 hb).elim (h1 b) (h2 b)
  rw [List.append_nil, hs, m.value_blank name s response hr hblank] at hok
  · cases hok
  · rintro rfl
    exact hne hs

/-- A field that is not mapped. -/
theorem irrelevant_ows (name v w₁ w₂ : Bytes) (response : Bool)
    (hr : relevant (asciiLower name) response = false) : m.OwsIrrelevant name v response w₁ w₂ := by
  intro r
  rw [m.value_irrelevant _ _ _ hr, m.value_irrelevant _ _ _ hr]
  constructor
  · intro h
    cases h
    exact ⟨v, rfl, rfl⟩
  · rintro ⟨r', hr', rfl⟩
    cases hr'
    rfl

/-- A text that the blanks do not meet in. -/
theorem padded_ows (name : Bytes) {pre t post : Str} (response : Bool)
    (hr : relevant (asciiLower name) response = true) (hp : Padded isOws pre t post) :
    m.OwsIrrelevant name (utf8 t) response (utf8 pre) (utf8 post) := by
  have hbare := m.value_padded name response hr hp.bare
  rw [List.append_nil, List.nil_append] at hbare
  intro r
  rw [hbare, ← utf8_append, ← utf8_append, m.value_padded name response hr hp]
  simp only [Res.bind_ok_iff]
  constructor
  · rintro ⟨mapped, hm, h⟩
    cases h
    exact ⟨_, ⟨mapped, hm, rfl⟩, by simp only [utf8_append, List.nil_append, List.append_nil]⟩
  · rintro ⟨_, ⟨mapped, hm, h⟩, rfl⟩
    cases h
    refine ⟨mapped, hm, ?_⟩
    show Except.ok (utf8 (pre ++ mapped ++ post)) = _
    simp only [utf8_append, List.nil_append, List.append_nil]

/-- **Blanks around a value.**  They are kept and make no difference, but for a value
that has nothing else. -/
theorem value_ows_iff (name v w₁ w₂ : Bytes) (response : Bool)
    (h1 : ∀ b ∈ w₁, isOwsByte b = true) (h2 : ∀ b ∈ w₂, isOwsByte b = true) (hv : Trimmed v) :
    m.OwsIrrelevant name v response w₁ w₂ ↔ ¬ OnlyBlanks name v response w₁ w₂ := by
  refine ⟨fun hows hblank => hblank.not_irrelevant m h1 h2 hows, fun hblank => ?_⟩
  cases hr : relevant (asciiLower name) response with
  | false => exact m.irrelevant_ows name v w₁ w₂ response hr
  | true =>
    obtain ⟨pre, rfl, hpre⟩ := exists_ows w₁ h1
    obtain ⟨post, rfl, hpost⟩ := exists_ows w₂ h2
    by_cases htext : ∃ t, v = utf8 t ∧ (t = [] → pre ++ post = [])
    · obtain ⟨t, rfl, hne⟩ := htext
      exact m.padded_ows name response hr ⟨hpre, hpost, hv.text.1, hv.text.2, hne⟩
    · -- neither succeeds: `v` is no text, or an authority that is empty
      intro r
      constructor
      · intro h
        obtain ⟨pre', t', post', -, hs, -⟩ := (m.value_ok_iff name _ r response hr).1 h
        obtain ⟨t, rfl, -⟩ := utf8_padded pre post (pre' ++ t' ++ post') v hpre hpost hv hs.symm
        simp only [not_exists, not_and, Classical.not_imp] at htext
        obtain ⟨rfl, hne⟩ := htext t rfl
        rw [← utf8_append, ← utf8_append, m.value_blank name _ response hr] at h
        · cases h
        · simpa [or_imp, forall_and] using ⟨hpre, hpost⟩
        · rwa [List.append_nil]
      · rintro ⟨r', h, -⟩
        obtain ⟨pre', t', post', -, rfl, -⟩ := (m.value_ok_iff name v r' response hr).1 h
        generalize pre' ++ t' ++ post' = t at *
        simp only [not_exists, not_and, Classical.not_imp] at htext
        obtain ⟨rfl, hne⟩ := htext t rfl
        obtain rfl := m.value_nil name r' response h
        have hn := (m.value_empty name response hr).1 h
        refine (hblank ⟨rfl, fun h0 => hne ?_, hr, hn⟩).elim
        rwa [← utf8_append, utf8_nil_iff] at h0

/-- `Origin` is mapped between its blanks. -/
theorem value_ows_origin : sampleMapping.OwsIrrelevant (ascii "Origin") (ascii "https://b.test:8443")
    false (ascii " ") (ascii "\t ") :=
  (sampleMapping.value_ows_iff (ascii "Origin") (ascii "https://b.test:8443") (ascii " ")
    (ascii "\t ") false (by decide) (by decide) ⟨by simp [ascii]; decide, by decide⟩).2
    fun h => absurd h.1 (by decide)

/-- `Location` may be empty, but not a blank. -/
theorem value_ows_blank : ¬ sampleMapping.OwsIrrelevant (ascii "location") [] true (ascii " ") [] :=
  OnlyBlanks.not_irrelevant sampleMapping (by decide) (by decide)
    ⟨rfl, by decide, by decide, by decide, by decide⟩

end Mapping
