import FingerprintBridge.H1.Reading
import FingerprintBridge.H1.Framing

/-!
# Heads as a strict recipient reads them

`framing` decides on a value that `str::trim` stripped of all white space; a strict
recipient strips blanks and tabs only.  The two agree on a forwarded head exactly if
no value has other white space at an end (`framing_strict_iff`).
-/

namespace H1

/-! ## A strict recipient -/

/-- The lines after the first, without their ends, up to the empty one. -/
def fieldLines (h : Bytes) : List Bytes :=
  (((h.splitOn 10).drop 1).map List.dropLast).takeWhile (· ≠ [])

def fieldValue (name line : Bytes) : Option Bytes :=
  match line.findIdx? (· = 58) with
  | none => none
  | some p => if eqIgnoreCase (line.take p) name then some (line.drop (p + 1)) else none

/-- The values of the fields of this name, in whatever letter case. -/
def valuesOf (name : Bytes) (lines : List Bytes) : List Bytes := lines.filterMap (fieldValue name)

def isDigitByte (b : UInt8) : Bool := 48 ≤ b.toNat && b.toNat ≤ 57

/-- The number that ASCII digits denote. -/
def denoted (digits : Bytes) : Nat := digits.foldl (fun n b => 10 * n + (b.toNat - 48)) 0

def strictLength (v : Bytes) : Option Body :=
  let digits := strip isOwsByte v
  if digits ≠ [] ∧ digits.all isDigitByte = true then some (.length (denoted digits)) else none

def strictCoding (v : Bytes) : Option Body :=
  if asciiLower (strip isOwsByte v) = ascii "chunked" then some .chunked else none

/-- The body of a request by RFC 9112, blanks and tabs being the only white space, and
nothing but one length or one `chunked` coding being taken. -/
def strictBody (h : Bytes) : Option Body :=
  match valuesOf (ascii "content-length") (fieldLines h),
    valuesOf (ascii "transfer-encoding") (fieldLines h) with
  | [], [] => some .empty
  | [v], [] => strictLength v
  | [], [v] => strictCoding v
  | _, _ => none

/-- The value still begins or ends with white space when blanks and tabs are stripped. -/
def Padded (v : Bytes) : Prop :=
  ∃ s c, v = utf8 s ∧ isWhitespace c = true ∧
    ((trim isOws s).head? = some c ∨ (trim isOws s).getLast? = some c)

/-- The values that decide the framing. -/
def framingValues (h : Bytes) : List Bytes :=
  valuesOf (ascii "content-length") (fieldLines h) ++
    valuesOf (ascii "transfer-encoding") (fieldLines h)

/-! ## Fields of a section -/

theorem fieldLines_section (first : Bytes) (fs : List Bytes) (hcs : Lines (first :: fs)) :
    fieldLines (sectionOf (first :: fs)) = fs := by
  have hfs := ((lines_cons _ _).1 hcs).2
  unfold fieldLines
  rw [splitOn_sectionOf _ fun c hc => (hcs c hc).2, List.map_cons, List.cons_append, List.drop_one,
    List.tail_cons, List.map_append, List.map_map]
  have hmap : fs.map (List.dropLast ∘ (· ++ [13])) = fs := by
    rw [show (List.dropLast ∘ (· ++ [13])) = (id : Bytes → Bytes) from
      funext fun c => List.dropLast_concat, List.map_id]
  rw [hmap, List.takeWhile_append_of_pos]
  · simp
  · intro c hc
    simpa using (hfs c hc).1

theorem fieldValue_field (name name' v : Bytes) (h : 58 ∉ name') :
    fieldValue name (name' ++ 58 :: v) = if eqIgnoreCase name' name then some v else none := by
  unfold fieldValue
  rw [findIdx?_append_cons 58 name' v h]
  simp only [List.take_left, drop_through]

theorem fieldValue_other (name line : Bytes) (h : 58 ∉ line) : fieldValue name line = none := by
  unfold fieldValue
  rw [(findIdx?_eq_none 58 line).2 h]

section
variable {U : UrlCrate} (m : Mapping U)

/-- The values that decide the framing are not mapped. -/
theorem valuesOf_mapped (name : Bytes) (hname : ∀ name', eqIgnoreCase name' name = true →
    isFramingName name' = true) (response : Bool) {fs fs' : List Bytes}
    (h : List.Forall₂ (m.FieldTo response) fs fs') : valuesOf name fs' = valuesOf name fs := by
  induction h with
  | nil => rfl
  | cons hc _ ih =>
    obtain ⟨name', v, v', htok, rfl, hv, rfl⟩ := hc
    unfold valuesOf at ih ⊢
    rw [List.filterMap_cons, List.filterMap_cons, fieldValue_field _ _ _ htok.colon,
      fieldValue_field _ _ _ htok.colon, ih]
    by_cases hn : eqIgnoreCase name' name = true
    · rw [m.value_irrelevant name' v response
        (relevant_of_isFramingName name' response (hname name' hn))] at hv
      cases hv
      rfl
    · rw [if_neg hn, if_neg hn]

end

/-! ## What `framing` accepts -/

/-- At most one value, which sets an option that was not set. -/
def Once {α : Type} (P : Bytes → α → Prop) (before after : Option α) (vs : List Bytes) : Prop :=
  (vs = [] ∧ after = before) ∨ ∃ v a, vs = [v] ∧ P v a ∧ before = none ∧ after = some a

theorem Once.cons {α : Type} {P : Bytes → α → Prop} {before mid after : Option α} {v : Bytes}
    {vs : List Bytes} {a : α} (hp : P v a) (hb : before = none) (hm : mid = some a)
    (h : Once P mid after vs) : Once P before after (v :: vs) := by
  rcases h with ⟨rfl, rfl⟩ | ⟨_, _, -, -, h0, -⟩
  · exact Or.inr ⟨v, a, rfl, hp, hb, hm⟩
  · rw [hm] at h0
    cases h0

/-- A length `framing` takes. -/
def IsLength (v : Bytes) (n : Nat) : Prop :=
  ∃ s, v = utf8 s ∧ trim isWhitespace s ≠ [] ∧ (trim isWhitespace s).all Char.isDigit = true ∧
    n = decimal (trim isWhitespace s)

def IsCoding (v : Bytes) (te : Str) : Prop :=
  ∃ s, v = utf8 s ∧ te = strLower (trim isWhitespace s)

theorem isFramingName_length (name : Bytes)
    (h : eqIgnoreCase name (ascii "content-length") = true) : isFramingName name = true := by
  simp [isFramingName, h]

theorem isFramingName_coding (name : Bytes)
    (h : eqIgnoreCase name (ascii "transfer-encoding") = true) : isFramingName name = true := by
  simp [isFramingName, h]

theorem contentLength_ok (acc acc' : Lengths) (name : Bytes) (value : Str)
    (h : contentLength acc name value = .ok acc') :
    (if eqIgnoreCase name (ascii "content-length") then acc.length = none ∧ value ≠ [] ∧
        value.all Char.isDigit = true ∧ acc'.length = some (decimal value)
      else acc'.length = acc.length) ∧ acc'.te = acc.te := by
  unfold contentLength at h
  split at h
  · next hn =>
    obtain ⟨_, hc, h⟩ := (Res.bind_ok_iff _ _ _).1 h
    obtain ⟨h0, hne, hall⟩ := (Res.ensure_ok_iff _ _ _).1 hc
    obtain ⟨n, hp, h⟩ := (Res.bind_ok_iff _ _ _).1 h
    obtain ⟨_, -, hp⟩ := (Res.bind_ok_iff _ _ _).1 hp
    cases hp
    cases h
    rw [if_pos hn]
    exact ⟨⟨h0, hne, hall, rfl⟩, rfl⟩
  · next hn =>
    cases h
    rw [if_neg hn]
    exact ⟨rfl, rfl⟩

theorem transferEncoding_ok (acc acc' : Lengths) (name : Bytes) (value : Str)
    (h : transferEncoding acc name value = .ok acc') :
    (if eqIgnoreCase name (ascii "transfer-encoding") then
        acc.te = none ∧ acc'.te = some (strLower value)
      else acc'.te = acc.te) ∧ acc'.length = acc.length := by
  unfold transferEncoding at h
  split at h
  · next hn =>
    obtain ⟨_, hc, h⟩ := (Res.bind_ok_iff _ _ _).1 h
    cases h
    rw [if_pos hn]
    exact ⟨⟨(Res.ensure_ok_iff _ _ _).1 hc, rfl⟩, rfl⟩
  · next hn =>
    cases h
    rw [if_neg hn]
    exact ⟨rfl, rfl⟩

/-- One field. -/
theorem framingLine_ok (acc acc' : Lengths) (name v : Bytes) (hname : 58 ∉ name)
    (h : framingLine acc (name ++ 58 :: (v ++ [13])) = .ok acc') :
    (if eqIgnoreCase name (ascii "content-length") then
        ∃ n, IsLength v n ∧ acc.length = none ∧ acc'.length = some n
      else acc'.length = acc.length) ∧
    (if eqIgnoreCase name (ascii "transfer-encoding") then
        ∃ te, IsCoding v te ∧ acc.te = none ∧ acc'.te = some te
      else acc'.te = acc.te) := by
  rw [framingLine_field acc name _ hname] at h
  split at h
  · unfold framingField at h
    obtain ⟨s', hs', hr⟩ := (Res.bind_ok_iff _ _ _).1 h
    obtain ⟨s, rfl, rfl⟩ := utf8_snoc s' v 13 (by decide) ((fromUtf8_ok_iff _ _).1 hs').symm
    have htrim : trim isWhitespace (s ++ [Char.ofNat (13 : UInt8).toNat]) = trim isWhitespace s :=
      strip_append_right isWhitespace s _ (by decide)
    obtain ⟨acc1, hcl, hr⟩ := (Res.bind_ok_iff _ _ _).1 hr
    obtain ⟨acc2, hte, hr⟩ := (Res.bind_ok_iff _ _ _).1 hr
    obtain ⟨_, -, hr⟩ := (Res.bind_ok_iff _ _ _).1 hr
    obtain rfl : acc2 = acc' := Except.ok.inj hr
    rw [htrim] at hcl hte
    obtain ⟨hl1, ht1⟩ := contentLength_ok _ _ _ _ hcl
    obtain ⟨ht2, hl2⟩ := transferEncoding_ok _ _ _ _ hte
    rw [hl2, ← ht1]
    refine ⟨?_, ?_⟩
    · by_cases hn : eqIgnoreCase name (ascii "content-length") = true
      · rw [if_pos hn] at hl1 ⊢
        obtain ⟨h0, hne, hall, hset⟩ := hl1
        exact ⟨_, ⟨s, rfl, hne, hall, rfl⟩, h0, hset⟩
      · rw [if_neg hn] at hl1 ⊢
        exact hl1
    · by_cases hn : eqIgnoreCase name (ascii "transfer-encoding") = true
      · rw [if_pos hn] at ht2 ⊢
        obtain ⟨h0, hset⟩ := ht2
        exact ⟨_, ⟨s, rfl, rfl⟩, h0, hset⟩
      · rw [if_neg hn] at ht2 ⊢
        exact ht2
  · next hn =>
    cases h
    rw [if_neg fun hc => hn (isFramingName_length name hc),
      if_neg fun hc => hn (isFramingName_coding name hc)]
    exact ⟨rfl, rfl⟩

/-- The fields of a head: at most one of each kind. -/
theorem framingLines_ok (fs : List Bytes) (acc acc' : Lengths)
    (h : framingLines acc (fs.map (· ++ [13])) = .ok acc') :
    Once IsLength acc.length acc'.length (valuesOf (ascii "content-length") fs) ∧
      Once IsCoding acc.te acc'.te (valuesOf (ascii "transfer-encoding") fs) := by
  induction fs generalizing acc with
  | nil =>
    cases h
    exact ⟨Or.inl ⟨rfl, rfl⟩, Or.inl ⟨rfl, rfl⟩⟩
  | cons c fs ih =>
    obtain ⟨acc1, h1, h⟩ := (Res.bind_ok_iff _ _ _).1 h
    obtain ⟨hcl, hte⟩ := ih acc1 h
    unfold valuesOf at hcl hte ⊢
    rw [List.filterMap_cons, List.filterMap_cons]
    by_cases hcolon : (58 : UInt8) ∈ c
    · obtain ⟨p, hp⟩ := Option.ne_none_iff_exists'.1 fun h0 => (findIdx?_eq_none 58 c).1 h0 hcolon
      obtain ⟨name, v, rfl, hname, -⟩ := findIdx?_split 58 c p hp
      beta_reduce at h1
      rw [List.append_assoc, List.cons_append] at h1
      obtain ⟨h1cl, h1te⟩ := framingLine_ok acc acc1 name v hname h1
      rw [fieldValue_field _ _ _ hname, fieldValue_field _ _ _ hname]
      refine ⟨?_, ?_⟩
      · by_cases hn : eqIgnoreCase name (ascii "content-length") = true
        · rw [if_pos hn] at h1cl ⊢
          obtain ⟨n, hlen, hb, hm⟩ := h1cl
          exact Once.cons hlen hb hm hcl
        · rw [if_neg hn] at h1cl ⊢
          rwa [h1cl] at hcl
      · by_cases hn : eqIgnoreCase name (ascii "transfer-encoding") = true
        · rw [if_pos hn] at h1te ⊢
          obtain ⟨te, hcod, hb, hm⟩ := h1te
          exact Once.cons hcod hb hm hte
        · rw [if_neg hn] at h1te ⊢
          rwa [h1te] at hte
    · rw [fieldValue_other _ c hcolon, fieldValue_other _ c hcolon]
      have h13 : (58 : UInt8) ∉ c ++ [13] := by simp [hcolon]
      rw [framingLine_other acc _ h13] at h1
      cases h1
      exact ⟨hcl, hte⟩

/-! ## Where the two agree -/

theorem isWhitespace_of_isOws (c : Char) (h : isOws c = true) : isWhitespace c = true := by
  unfold isOws at h
  simp only [Bool.or_eq_true, decide_eq_true_eq] at h
  rcases h with rfl | rfl
  · decide
  · decide

theorem isWhitespace_of_range (c : Char) (h : 48 ≤ c.toNat) (h' : c.toNat ≤ 122) :
    isWhitespace c = false := by
  unfold isWhitespace
  simp only [Bool.or_eq_false_iff, Bool.and_eq_false_iff, decide_eq_false_iff_not]
  omega

/-- What `str::trim` takes beyond blanks and tabs. -/
theorem padded_iff (s : Str) : Padded (utf8 s) ↔ trim isWhitespace s ≠ trim isOws s := by
  constructor
  · rintro ⟨s', c, hs, hc, hend⟩ heq
    obtain rfl := utf8_inj _ _ hs
    rw [← heq] at hend
    rcases hend with hend | hend
    · rw [strip_head isWhitespace s c hend] at hc
      cases hc
    · rw [strip_last isWhitespace s c hend] at hc
      cases hc
  · intro hne
    by_contra hpad
    obtain ⟨pre, post, hs, hpre, hpost⟩ := strip_cut isOws s
    have hends : ∀ c, (trim isOws s).head? = some c ∨ (trim isOws s).getLast? = some c →
        isWhitespace c = false := by
      intro c hend
      cases hc : isWhitespace c with
      | false => rfl
      | true => exact (hpad ⟨s, c, rfl, hc, hend⟩).elim
    apply hne
    show strip isWhitespace s = strip isOws s
    conv_lhs => rw [hs]
    exact strip_eq isWhitespace _ _ _ (fun c hc => isWhitespace_of_isOws c (hpre c hc))
      (fun c hc => isWhitespace_of_isOws c (hpost c hc)) (fun c hc => hends c (Or.inl hc))
      (fun c hc => hends c (Or.inr hc))

/-- A value whose octets, stripped of blanks, are all digits or letters is not padded. -/
theorem not_padded (s : Str) (h : ∀ b ∈ utf8 (trim isOws s), 48 ≤ b.toNat ∧ b.toNat ≤ 122) :
    ¬ Padded (utf8 s) := by
  rintro ⟨s', c, hs, hc, hend⟩
  obtain rfl := utf8_inj _ _ hs
  have hmem : c ∈ trim isOws s := hend.elim List.mem_of_head? List.mem_of_getLast?
  obtain ⟨h1, h2⟩ := range_of_octets _ 48 122 (by decide) h c hmem
  rw [isWhitespace_of_range c h1 h2] at hc
  cases hc

theorem denoted_ascii (t : Str) (h : ∀ c ∈ t, c.toNat < 128) :
    denoted (t.map fun c => UInt8.ofNat c.toNat) = decimal t := by
  unfold denoted decimal
  rw [List.foldl_map]
  refine List.foldl_ext _ _ _ fun n c hc => ?_
  rw [UInt8.toNat_ofNat', Nat.mod_eq_of_lt (Nat.lt_trans (h c hc) (by decide))]

theorem strictLength_iff (v : Bytes) (n : Nat) (h : IsLength v n) :
    strictLength v = some (.length n) ↔ ¬ Padded v := by
  obtain ⟨s, rfl, hne, hall, rfl⟩ := h
  have hdigit : ∀ c ∈ trim isWhitespace s, 48 ≤ c.toNat ∧ c.toNat ≤ 57 := by
    intro c hc
    have hd := List.all_eq_true.1 hall c hc
    simp only [Char.isDigit, Bool.and_eq_true, decide_eq_true_eq] at hd
    exact ⟨hd.1, hd.2⟩
  unfold strictLength
  rw [strip_utf8]
  constructor
  · intro h
    simp only at h
    split at h
    · next hd =>
      refine not_padded s fun b hb => ?_
      have := List.all_eq_true.1 hd.2 b hb
      simp only [isDigitByte, Bool.and_eq_true, decide_eq_true_eq] at this
      omega
    · cases h
  · intro hpad
    have heq : trim isWhitespace s = trim isOws s := not_not.1 fun hne => hpad ((padded_iff s).2 hne)
    rw [← heq]
    have hascii : ∀ c ∈ trim isWhitespace s, c.toNat < 128 := fun c hc => by
      have := hdigit c hc
      omega
    have hd : utf8 (trim isWhitespace s) ≠ [] ∧
        (utf8 (trim isWhitespace s)).all isDigitByte = true := by
      refine ⟨fun h0 => hne ((utf8_nil_iff _).1 h0), List.all_eq_true.2 fun b hb => ?_⟩
      rw [utf8_ascii _ hascii] at hb
      obtain ⟨c, hc, rfl⟩ := List.mem_map.1 hb
      have := hdigit c hc
      simp only [isDigitByte, Bool.and_eq_true, decide_eq_true_eq, UInt8.toNat_ofNat']
      omega
    simp only
    rw [if_pos hd, utf8_ascii _ hascii, denoted_ascii _ hascii]

theorem chunked_octet : ∀ n < 256, byteLower (UInt8.ofNat n) ∈ ascii "chunked" →
    48 ≤ n ∧ n ≤ 122 := by
  decide +kernel

theorem strictCoding_iff (v : Bytes) (h : IsCoding v "chunked".toList) :
    strictCoding v = some .chunked ↔ ¬ Padded v := by
  obtain ⟨s, rfl, hlow⟩ := h
  unfold strictCoding
  rw [strip_utf8]
  constructor
  · intro h
    split at h
    · next hc =>
      refine not_padded s fun b hb => ?_
      have hlower : byteLower b ∈ ascii "chunked" := by
        rw [← hc]
        exact List.mem_map_of_mem hb
      have := chunked_octet b.toNat b.toNat_lt
      rw [UInt8.ofNat_toNat] at this
      exact this hlower
    · cases h
  · intro hpad
    have heq : trim isWhitespace s = trim isOws s := not_not.1 fun hne => hpad ((padded_iff s).2 hne)
    have hascii : ∀ c ∈ trim isWhitespace s, c.toNat < 128 := by
      intro c hc
      have hmem : c.toLower ∈ "chunked".toList := by
        rw [hlow]
        exact List.mem_map_of_mem hc
      rcases toLower_range c with he | hr
      · rw [he] at hmem
        have : ∀ d ∈ "chunked".toList, d.toNat < 128 := by decide
        exact this c hmem
      · omega
    rw [← heq, asciiLower_utf8 _ hascii, ← hlow]
    rfl

theorem strictBody_iff (h : Bytes) (first : Bytes) (fs : List Bytes) (hcs : Lines (first :: fs))
    (hh : h = sectionOf (first :: fs)) (kind : Body) (hk : framing h false false = .ok kind) :
    strictBody h = some kind ↔ ¬ ∃ v ∈ framingValues h, Padded v := by
  subst hh
  rw [framing_section first fs hcs] at hk
  obtain ⟨acc, hlines, hk⟩ := (Res.bind_ok_iff _ _ _).1 hk
  obtain ⟨hcl, hte⟩ := framingLines_ok fs _ acc hlines
  unfold bodyKind at hk
  obtain ⟨_, hnot, hk⟩ := (Res.bind_ok_iff _ _ _).1 hk
  have hnot := (Res.ensure_ok_iff _ _ _).1 hnot
  unfold strictBody framingValues
  rw [fieldLines_section first fs hcs]
  rcases hcl with ⟨hcl, hl⟩ | ⟨v, n, hcl, hlen, -, hl⟩
  · rcases hte with ⟨hte, ht⟩ | ⟨v, te, hte, hcod, -, ht⟩
    · rw [hcl, hte]
      simp only [hl, ht] at hk
      cases hk
      simp
    · rw [hcl, hte]
      simp only [ht] at hk
      obtain ⟨_, hch, hk⟩ := (Res.bind_ok_iff _ _ _).1 hk
      obtain rfl := (Res.ensure_ok_iff _ _ _).1 hch
      cases hk
      simpa using strictCoding_iff v hcod
  · rcases hte with ⟨hte, ht⟩ | ⟨v, te, hte, hcod, -, ht⟩
    · rw [hcl, hte]
      simp only [hl, ht] at hk
      cases hk
      simpa using strictLength_iff v n hlen
    · rw [hl, ht] at hnot
      simp at hnot

section
variable {U : UrlCrate} (m : Mapping U)

/-- What `head` returned and `h1Head` mapped is a section, mapped field by field. -/
theorem mapped_section (maxHead : Nat) (st st' : Conn) (h h' : Bytes) (response : Bool)
    (hread : head maxHead st = .ok h st') (hh : m.h1Head h response = .ok h') :
    ∃ first fs fs', Lines (first :: fs) ∧ h = sectionOf (first :: fs) ∧
      List.Forall₂ (m.FieldTo response) fs fs' ∧ h' = sectionOf (first :: fs') ∧
      (response = true ∨ fs.countP Mapping.isHostLine = 1) := by
  obtain ⟨w, rest, ⟨-, hr⟩, -⟩ := (reads_head maxHead _).sound st h st' rfl hread
  rcases hr with ⟨-, rfl, -⟩ | ⟨_, ⟨cs, hcs, rfl⟩, rfl, -⟩
  · have hnil : m.h1Head [] response = .error (.err "invalid HTTP head") := rfl
    rw [hnil] at hh
    cases hh
  · rw [List.nil_append] at hh ⊢
    obtain ⟨first, fs, fs', rfl, hfs, rfl, hhost⟩ := (m.h1Head_ok_iff response cs hcs h').1 hh
    exact ⟨first, fs, fs', hcs, rfl, hfs, rfl, hhost⟩

/-- **When the framing is a strict recipient's.**  A request whose head passes `framing`
and `h1Head` is forwarded with a head from which a strict recipient derives the same
body, exactly if no length and no coding has white space at an end that is neither blank
nor tab. -/
theorem framing_strict_iff (st st' : Conn) (h h' : Bytes) (kind : Body)
    (hread : head MAX_HEAD st = .ok h st') (hk : framing h false false = .ok kind)
    (hh : m.h1Head h false = .ok h') :
    strictBody h' = some kind ↔ ¬ ∃ v ∈ framingValues h, Padded v := by
  obtain ⟨first, fs, fs', hcs, rfl, hfs, rfl, -⟩ := mapped_section m MAX_HEAD st st' h h' false hread hh
  obtain ⟨hfirst, hlines⟩ := (lines_cons _ _).1 hcs
  have hcs' : Lines (first :: fs') :=
    (lines_cons _ _).2 ⟨hfirst, m.forall₂_fieldTo_lines false hfs hlines⟩
  have hsame : strictBody (sectionOf (first :: fs')) = strictBody (sectionOf (first :: fs)) := by
    unfold strictBody
    rw [fieldLines_section first fs hcs, fieldLines_section first fs' hcs',
      valuesOf_mapped m _ isFramingName_length false hfs,
      valuesOf_mapped m _ isFramingName_coding false hfs]
  rw [hsame]
  exact strictBody_iff _ first fs hcs rfl kind hk

end

/-- A vertical tab before the length. -/
def paddedHead : Bytes :=
  ascii "POST / HTTP/1.1\r\nHost: b.test:8443\r\nContent-Length: \x0b5\r\n\r\n"

def paddedRequest : Conn :=
  { reader := [paddedHead ++ ascii "hello"], output := [], channel := [] }

theorem framing_not_strict : ∃ st' st'' h', head MAX_HEAD paddedRequest = .ok paddedHead st' ∧
    requests sampleMapping (fun _ => true) paddedRequest = .ok () st'' ∧
    framing paddedHead false false = .ok (.length 5) ∧
    sampleMapping.h1Head paddedHead false = .ok h' ∧ strictBody h' = none := by
  obtain ⟨st', hread⟩ := (Act.value?_eq_some_iff (head MAX_HEAD) paddedRequest paddedHead).1
    (by decide +kernel)
  obtain ⟨st'', hrun⟩ := (Act.value?_eq_some_iff (requests sampleMapping fun _ => true)
    paddedRequest ()).1 (by decide +kernel)
  exact ⟨st', st'', ascii "POST / HTTP/1.1\r\nHost: a.test:9443\r\nContent-Length: \x0b5\r\n\r\n",
    hread, hrun, by decide +kernel, by decide +kernel, by decide +kernel⟩

/-- Blanks and a tab do no harm. -/
def blankHead : Bytes :=
  ascii "POST / HTTP/1.1\r\nHost: b.test:8443\r\ncontent-length: \t05 \r\n\r\n"

def blankForwarded : Bytes :=
  ascii "POST / HTTP/1.1\r\nHost: a.test:9443\r\ncontent-length: \t05 \r\n\r\n"

theorem framing_strict_iff_sample : sampleMapping.h1Head blankHead false = .ok blankForwarded ∧
    strictBody blankForwarded = some (.length 5) ∧
    ¬ ∃ v ∈ framingValues blankHead, Padded v := by
  obtain ⟨st', hread⟩ := (Act.value?_eq_some_iff (head MAX_HEAD)
    { reader := [blankHead], output := [], channel := [] } blankHead).1 (by decide +kernel)
  have hh : sampleMapping.h1Head blankHead false = .ok blankForwarded := by decide +kernel
  have hstrict : strictBody blankForwarded = some (.length 5) := by decide +kernel
  exact ⟨hh, hstrict, (framing_strict_iff sampleMapping _ st' blankHead _ (.length 5) hread
    (by decide +kernel) hh).1 hstrict⟩

end H1
