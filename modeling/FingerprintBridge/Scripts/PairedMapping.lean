import FingerprintBridge.Rewrite.Navigation
import FingerprintBridge.Scripts.PairedHttp

/-!
# The lab's mapping and the bridge's

The lab looks for the public authority octet by octet, where the bridge asks what a value denotes.
So the bridge maps more than the lab does; but what the bridge wrote the lab leaves as it is
(`settled`), unless both authorities are the same text.
-/

/-- A text whose octets begin with those of an ASCII text begins with it. -/
theorem utf8_front (a s : Str) (rest : Bytes) (ha : ∀ c ∈ a, c.toNat < 128)
    (h : utf8 s = utf8 a ++ rest) : ∃ t, s = a ++ t ∧ rest = utf8 t := by
  induction a generalizing s with
  | nil => exact ⟨s, rfl, h.symm⟩
  | cons c a ih =>
    obtain ⟨hc, htail⟩ := List.forall_mem_cons.1 ha
    have hcons : utf8 (c :: a) = UInt8.ofNat c.toNat :: utf8 a := by
      show String.utf8EncodeChar c ++ utf8 a = _
      rw [utf8EncodeChar_ascii c hc]
      rfl
    have hc' : (UInt8.ofNat c.toNat).toNat = c.toNat := by
      rw [UInt8.toNat_ofNat']
      omega
    rw [hcons, List.cons_append] at h
    obtain ⟨d, hd, hmem⟩ := utf8_head s (UInt8.ofNat c.toNat) (by rw [h]; rfl)
    have hdc : d.toNat = c.toNat := by
      rw [mem_utf8EncodeChar d _ hmem (by omega), hc']
    obtain rfl : d = c := by rw [char_eq_of_toNat d _ hdc, Char.ofNat_toNat]
    obtain ⟨t, rfl⟩ := List.head?_eq_some_iff.1 hd
    have hrest : utf8 t = utf8 a ++ rest := by
      have hcons' : utf8 (d :: t) = UInt8.ofNat d.toNat :: utf8 t := by
        show String.utf8EncodeChar d ++ utf8 t = _
        rw [utf8EncodeChar_ascii d hc]
        rfl
      rw [hcons'] at h
      exact (List.cons.inj h).2
    obtain ⟨t', rfl, ht'⟩ := ih t htail hrest
    exact ⟨t', rfl, ht'⟩

namespace PairedHttp

/-! ## What the lab maps -/

def IsFront (front : Bytes) : Prop := front = ascii "https://" ∨ front = ascii "//"

/-- A path, a query or a fragment, or nothing. -/
def IsRest (rest : Bytes) : Prop := ∀ b, rest.head? = some b → b = 47 ∨ b = 63 ∨ b = 35

/-- `value` has the authority `a` where the lab looks for it, and `value'` has `b` there. -/
inductive Remaps (a b name : Bytes) : (value value' : Bytes) → Prop where
  | authority (hname : name = ascii "host" ∨ name = ascii ":authority") : Remaps a b name a b
  | url (front rest : Bytes) (hname : name = ascii "origin" ∨ name = ascii "referer")
      (hfront : IsFront front) (hrest : IsRest rest) :
      Remaps a b name (front ++ a ++ rest) (front ++ b ++ rest)

theorem Remaps.symm {a b name value value' : Bytes} (h : Remaps a b name value value') :
    Remaps b a name value' value := by
  cases h with
  | authority hname => exact .authority hname
  | url front rest hname hfront hrest => exact .url front rest hname hfront hrest

theorem isAt_iff (old value : Bytes) :
    isAt old value = true ↔ ∃ rest, IsRest rest ∧ value = old ++ rest := by
  unfold isAt
  rw [Bool.or_eq_true, beq_iff_eq, Bool.and_eq_true, List.isPrefixOf_iff_prefix]
  constructor
  · rintro (rfl | ⟨⟨rest, rfl⟩, hhead⟩)
    · exact ⟨[], by simp [IsRest], (List.append_nil _).symm⟩
    · rw [List.drop_left] at hhead
      refine ⟨rest, fun b hb => ?_, rfl⟩
      rw [hb, Option.any_some] at hhead
      simpa [or_assoc] using hhead
  · rintro ⟨rest, hrest, rfl⟩
    cases rest with
    | nil => exact Or.inl (List.append_nil _)
    | cons b rest =>
      refine Or.inr ⟨List.prefix_append _ _, ?_⟩
      rw [List.drop_left, List.head?_cons, Option.any_some]
      simpa [or_assoc] using hrest b rfl

theorem url_names {name : Bytes} (h : name = ascii "origin" ∨ name = ascii "referer") :
    ¬ (name = ascii "host" ∨ name = ascii ":authority") := by
  rcases h with rfl | rfl
  · decide
  · decide

/-- The front that the lab finds. -/
theorem find_front {front a rest : Bytes} (hfront : IsFront front) (hrest : IsRest rest) :
    [ascii "https://", ascii "//"].find? (fun front' => isAt (front' ++ a) (front ++ a ++ rest)) =
      some front := by
  have hat : isAt (front ++ a) (front ++ a ++ rest) = true := (isAt_iff _ _).2 ⟨rest, hrest, rfl⟩
  rcases hfront with rfl | rfl
  · rw [List.find?_cons, hat]
  · have hno : isAt (ascii "https://" ++ a) (ascii "//" ++ a ++ rest) = false := by
      refine Bool.eq_false_iff.2 fun hyes => ?_
      obtain ⟨rest', -, heq⟩ := (isAt_iff _ _).1 hyes
      cases congrArg List.head? heq
    rw [List.find?_cons, hno, List.find?_cons, hat]

theorem Remaps.mapped {a b name value value' : Bytes} (h : Remaps a b name value value') :
    mapped name value a b = value' := by
  unfold PairedHttp.mapped
  cases h with
  | authority hname => rw [if_pos ⟨hname, rfl⟩]
  | url front rest hname hfront hrest =>
    rw [if_neg fun hc => url_names hname hc.1, if_pos hname, find_front hfront hrest,
      Option.map_some, Option.getD_some, List.drop_left]

/-- **What the lab's mapping does.** -/
theorem mapped_cases (name value a b : Bytes) :
    Remaps a b name value (mapped name value a b) ∨
      (mapped name value a b = value ∧ ∀ value', ¬ Remaps a b name value value') := by
  by_cases hr : ∃ value', Remaps a b name value value'
  · obtain ⟨value', hr⟩ := hr
    rw [hr.mapped]
    exact Or.inl hr
  · refine Or.inr ⟨?_, fun value' hv => hr ⟨value', hv⟩⟩
    unfold PairedHttp.mapped
    by_cases hauth : (name = ascii "host" ∨ name = ascii ":authority") ∧ value = a
    · obtain ⟨hname, rfl⟩ := hauth
      exact (hr ⟨b, .authority hname⟩).elim
    · rw [if_neg hauth]
      by_cases hname : name = ascii "origin" ∨ name = ascii "referer"
      · have hnone : [ascii "https://", ascii "//"].find? (fun front => isAt (front ++ a) value) =
            none := by
          refine List.find?_eq_none.2 fun front hfront hat => ?_
          obtain ⟨rest, hrest, rfl⟩ := (isAt_iff _ _).1 hat
          exact hr ⟨_, .url front rest hname (by simpa [IsFront] using hfront) hrest⟩
        rw [if_pos hname, hnone]
        rfl
      · rw [if_neg hname]

theorem mapped_eq_iff {name value a b : Bytes} :
    mapped name value a b = value ↔ ∀ value', Remaps a b name value value' → value' = value := by
  constructor
  · intro h value' hr
    rw [← hr.mapped, h]
  · intro h
    rcases mapped_cases name value a b with hr | ⟨heq, -⟩
    · exact h _ hr
    · exact heq

/-! ## What the bridge wrote -/

section
variable {U : UrlCrate} (m : Mapping U)

/-- The lab's mapping, of what the bridge forwards. -/
def toUpstream (name value : Bytes) : Bytes :=
  mapped name value (utf8 m.publicAuthority) (utf8 m.upstream)

/-- Blanks before a URL stay there. -/
theorem value_public {blanks front rest : Str} (name : Bytes)
    (hn : Mapping.isUrlField name false = true) (hblanks : ∀ c ∈ blanks, isOws c = true)
    (hfront : front = "https://".toList ∨ front = "//".toList) (hrest : Mapping.UrlRest rest) :
    m.value name (utf8 (blanks ++ (front ++ m.publicAuthority ++ rest))) false =
      .ok (utf8 (blanks ++ (front ++ m.upstream ++ rest))) := by
  have hshort : Mapping.UrlRest (rest.rdropWhile isOws) := by
    intro c hc
    obtain ⟨post, hpost⟩ := List.rdropWhile_prefix isOws rest
    refine hrest c ?_
    rw [← hpost, List.head?_append, hc]
    rfl
  obtain ⟨hr, hmap⟩ :=
    m.mapTrimmed_url name (front ++ m.publicAuthority ++ rest.rdropWhile isOws) false hn
  have hp : Padded isOws blanks (front ++ m.publicAuthority ++ rest.rdropWhile isOws)
      (rest.rtakeWhile isOws) := by
    have hbare : Padded isOws [] (front ++ m.publicAuthority ++ rest.rdropWhile isOws)
        (rest.rtakeWhile isOws) := Mapping.padded_url hfront m.publicAuthority_printable
    refine ⟨hblanks, hbare.after, hbare.first, hbare.last, fun h0 => ?_⟩
    rcases hfront with rfl | rfl
    · cases h0
    · cases h0
  have hjoin : ∀ x : Str,
      blanks ++ (x ++ rest.rdropWhile isOws) ++ rest.rtakeWhile isOws = blanks ++ (x ++ rest) := by
    intro x
    rw [List.append_assoc, List.append_assoc, List.rdropWhile_append_rtakeWhile]
  have hval := m.value_padded name false hr hp
  rw [hjoin, hmap] at hval
  rw [hval, show front ++ m.publicAuthority ++ rest.rdropWhile isOws =
    front ++ m.other (!false) ++ rest.rdropWhile isOws from rfl, m.mapUrl_other false hfront hshort]
  exact congrArg (fun s => Except.ok (utf8 s)) (hjoin _)

theorem authority_ascii {s : Str} {origin : Str × UInt16} (h : authority U s = .ok origin) :
    ∀ c ∈ s, c.toNat < 128 :=
  fun c hc => (((authority_ok_iff s origin).1 h).1.1 c hc).1

theorem isFront_text {front : Bytes} (h : IsFront front) :
    ∃ text, front = utf8 text ∧ (∀ c ∈ text, c.toNat < 128) ∧
      (text = "https://".toList ∨ text = "//".toList) := by
  rcases h with rfl | rfl
  · exact ⟨"https://".toList, by decide, by decide, Or.inl rfl⟩
  · exact ⟨"//".toList, by decide, by decide, Or.inr rfl⟩

theorem isRest_text {text : Str} (h : IsRest (utf8 text)) : Mapping.UrlRest text := by
  intro c hc
  obtain ⟨text, rfl⟩ := List.head?_eq_some_iff.1 hc
  have hcons : utf8 (c :: text) = String.utf8EncodeChar c ++ utf8 text := rfl
  have hhead : ∃ b, (utf8 (c :: text)).head? = some b := by
    rw [hcons, List.head?_append_of_ne_nil _ String.utf8EncodeChar_ne_nil]
    exact ⟨_, List.head?_eq_some_head String.utf8EncodeChar_ne_nil⟩
  obtain ⟨b, hb⟩ := hhead
  obtain ⟨c', hc', hmem⟩ := utf8_head _ b hb
  obtain rfl := Option.some.inj hc'
  rcases h b hb with rfl | rfl | rfl
  · rw [char_eq_of_toNat c _ (mem_utf8EncodeChar c 47 hmem (by decide))]
    rfl
  · rw [char_eq_of_toNat c _ (mem_utf8EncodeChar c 63 hmem (by decide))]
    rfl
  · rw [char_eq_of_toNat c _ (mem_utf8EncodeChar c 35 hmem (by decide))]
    rfl

theorem utf8_unpadded {s : Str} (h : ∀ c ∈ s, 32 < c.toNat) :
    (∀ b, (utf8 s).head? = some b → isOwsByte b = false) ∧
      ∀ b, (utf8 s).getLast? = some b → isOwsByte b = false := by
  refine ⟨fun b hb => ?_, fun b hb => ?_⟩
  · obtain ⟨c, hc, hmem⟩ := utf8_head s b hb
    rw [isOwsByte_of_mem c b hmem, isOws_of_printable c (h c (List.mem_of_head? hc))]
  · obtain ⟨c, hc, hmem⟩ := utf8_last s b hb
    rw [isOwsByte_of_mem c b hmem, isOws_of_printable c (h c (List.mem_of_getLast? hc))]

/-- **What the bridge wrote** has the public authority behind its blanks only where the upstream
is the same text. -/
theorem settled {name v blanks value value' : Bytes}
    (h : m.value name v false = .ok (blanks ++ value))
    (hblanks : ∀ b ∈ blanks, isOwsByte b = true)
    (hr : Remaps (utf8 m.publicAuthority) (utf8 m.upstream) (asciiLower name) value value') :
    value' = value := by
  cases hr with
  | authority hname =>
    have hn : Mapping.isAuthorityName name = true := by
      simpa [Mapping.isAuthorityName] using hname
    have hstrip := m.value_authority name v _ hn h
    obtain ⟨hfirst, hlast⟩ := utf8_unpadded m.publicAuthority_printable
    rw [← List.append_nil (blanks ++ utf8 m.publicAuthority),
      strip_eq isOwsByte blanks _ [] hblanks (by simp) hfirst hlast] at hstrip
    exact hstrip.symm
  | url front rest hname hfront hrest =>
    have hn : Mapping.isUrlField name false = true := by
      simpa [Mapping.isUrlField] using hname
    have hagain := m.url_idempotent name v false hn _ h
    have hrel := (m.mapTrimmed_url name [] false hn).1
    obtain ⟨_, _, _, _, hw, -⟩ := (m.value_ok_iff name _ _ false hrel).1 hagain
    -- the octets as texts
    obtain ⟨blanks, rfl, hblank⟩ := exists_ows blanks hblanks
    obtain ⟨front, rfl, hascii, hfront'⟩ := isFront_text hfront
    have hlead : ∀ c ∈ blanks ++ front ++ m.publicAuthority, c.toNat < 128 := by
      intro c hc
      rcases List.mem_append.1 hc with hc | hc
      · rcases List.mem_append.1 hc with hc | hc
        · have := hblank c hc
          unfold isOws at this
          simp only [Bool.or_eq_true, decide_eq_true_eq] at this
          rcases this with rfl | rfl
          · decide
          · decide
        · exact hascii c hc
      · exact authority_ascii m.public_ok c hc
    have hjoin : utf8 blanks ++ (utf8 front ++ utf8 m.publicAuthority ++ rest) =
        utf8 (blanks ++ front ++ m.publicAuthority) ++ rest := by
      rw [utf8_append, utf8_append]
      simp only [List.append_assoc]
    rw [hjoin] at hw
    obtain ⟨text, -, rfl⟩ := utf8_front _ _ _ hlead hw.symm
    have hvalue := value_public m name hn hblank hfront' (isRest_text hrest)
    have hjoin' : ∀ a : Str, utf8 (blanks ++ (front ++ a ++ text)) =
        utf8 blanks ++ (utf8 front ++ utf8 a ++ utf8 text) := by
      intro a
      simp only [utf8_append]
    rw [hjoin', hjoin', hagain] at hvalue
    exact (List.append_cancel_left (Except.ok.inj hvalue)).symm

end

end PairedHttp
