import FingerprintBridge.Lib.Action

/-!
# Lines that end in CRLF

A section (of header or trailer fields) is a run of lines and an empty line.
`sectionOf` writes it from the lines without their ends, `splitOn 10` takes it
apart again, and a section is never the beginning of another one.
-/

def crlf : Bytes := [13, 10]

/-! ## The first place of an octet -/

section
variable {α : Type} [DecidableEq α]

theorem findIdx?_split (x : α) (l : List α) (i : Nat) (h : l.findIdx? (· = x) = some i) :
    ∃ a c, l = a ++ x :: c ∧ x ∉ a ∧ a.length = i := by
  induction l generalizing i with
  | nil => cases h
  | cons y l ih =>
    rw [List.findIdx?_cons] at h
    by_cases hy : y = x
    · simp only [hy, decide_true, if_true, Option.some.injEq] at h
      exact ⟨[], l, by rw [hy]; rfl, by simp, h⟩
    · simp only [hy, decide_false, Bool.false_eq_true, if_false, Option.map_eq_some_iff] at h
      obtain ⟨j, hj, rfl⟩ := h
      obtain ⟨a, c, rfl, ha, rfl⟩ := ih j hj
      exact ⟨y :: a, c, rfl, by simp [ha, Ne.symm hy], rfl⟩

theorem findIdx?_append_cons (x : α) (a c : List α) (h : x ∉ a) :
    (a ++ x :: c).findIdx? (· = x) = some a.length := by
  induction a with
  | nil => simp [List.findIdx?_cons]
  | cons y a ih =>
    obtain ⟨hy, ha⟩ := not_or.1 (fun hm => h (List.mem_cons.2 hm))
    have hyx : ¬ y = x := fun e => hy e.symm
    simp [List.findIdx?_cons, hyx, ih ha]

theorem findIdx?_eq_none (x : α) (l : List α) :
    l.findIdx? (· = x) = none ↔ x ∉ l := by
  rw [List.findIdx?_eq_none_iff]
  constructor
  · intro h hx
    simpa using h x hx
  · intro h y hy
    have : y ≠ x := fun e => h (e ▸ hy)
    simpa using this

omit [DecidableEq α] in
theorem take_through (x : α) (a c : List α) : (a ++ x :: c).take (a.length + 1) = a ++ [x] := by
  rw [List.take_length_add_append]
  rfl

omit [DecidableEq α] in
theorem drop_through (x : α) (a c : List α) : (a ++ x :: c).drop (a.length + 1) = c := by
  rw [List.drop_length_add_append]
  rfl

/-- What stands before the first `x` is determined. -/
theorem append_cons_inj (x : α) (a b c d : List α) (ha : x ∉ a) (hb : x ∉ b)
    (h : a ++ x :: c = b ++ x :: d) : a = b ∧ c = d := by
  have hl : a.length = b.length := by
    have h1 := findIdx?_append_cons x a c ha
    rw [h, findIdx?_append_cons x b d hb] at h1
    exact (Option.some.inj h1).symm
  obtain ⟨hab, hcd⟩ := List.append_inj h hl
  exact ⟨hab, (List.cons.inj hcd).2⟩

end

/-! ## Lines -/

def IsLine (l : Bytes) : Prop := ∃ c, 10 ∉ c ∧ l = c ++ crlf

theorem IsLine.length {l : Bytes} (h : IsLine l) : 2 ≤ l.length := by
  obtain ⟨c, -, rfl⟩ := h
  rw [List.length_append]
  exact Nat.le_add_left _ _

theorem IsLine.ne_nil {l : Bytes} (h : IsLine l) : l ≠ [] := by
  intro e
  have := h.length
  rw [e] at this
  cases this

theorem isLine_crlf : IsLine crlf := ⟨[], by simp, rfl⟩

/-- A line is not the beginning of another one. -/
theorem IsLine.append_inj {l l' r r' : Bytes} (h : IsLine l) (h' : IsLine l')
    (e : l ++ r = l' ++ r') : l = l' ∧ r = r' := by
  obtain ⟨c, hc, rfl⟩ := h
  obtain ⟨d, hd, rfl⟩ := h'
  have hc' : (10 : UInt8) ∉ c ++ [13] := by simp [hc]
  have hd' : (10 : UInt8) ∉ d ++ [13] := by simp [hd]
  have e' : (c ++ [13]) ++ 10 :: r = (d ++ [13]) ++ 10 :: r' := by
    simpa [crlf] using e
  obtain ⟨e1, e2⟩ := append_cons_inj 10 _ _ _ _ hc' hd' e'
  refine ⟨?_, e2⟩
  show c ++ crlf = d ++ crlf
  rw [List.append_cancel_right e1]

/-! ## Sections -/

def sectionOf : List Bytes → Bytes
  | [] => crlf
  | c :: cs => c ++ crlf ++ sectionOf cs

/-- What stands on the lines of a section. -/
def Lines (cs : List Bytes) : Prop := ∀ c ∈ cs, c ≠ [] ∧ 10 ∉ c

theorem lines_nil : Lines [] := fun _ h => nomatch h

theorem lines_cons (c : Bytes) (cs : List Bytes) :
    Lines (c :: cs) ↔ (c ≠ [] ∧ 10 ∉ c) ∧ Lines cs := by
  simp [Lines]

theorem sectionOf_length (cs : List Bytes) : 2 ≤ (sectionOf cs).length := by
  cases cs with
  | nil => exact Nat.le_refl 2
  | cons c cs =>
    simp only [sectionOf, List.length_append, crlf, List.length_cons, List.length_nil]
    omega

/-- The lines still have the CR that `splitOn 10` does not know of. -/
theorem splitOn_sectionOf (cs : List Bytes) (h : ∀ c ∈ cs, 10 ∉ c) :
    (sectionOf cs).splitOn 10 = cs.map (· ++ [13]) ++ [[13], []] := by
  induction cs with
  | nil => decide
  | cons c cs ih =>
    have hc : (10 : UInt8) ∉ c ++ [13] := by simp [h c List.mem_cons_self]
    have e : sectionOf (c :: cs) = (c ++ [13]) ++ 10 :: sectionOf cs := by simp [sectionOf, crlf]
    rw [e, List.splitOn_append_cons_self_of_not_mem hc,
      ih fun d hd => h d (List.mem_cons_of_mem _ hd)]
    rfl

theorem sectionOf_suffix (c : Bytes) (cs : List Bytes) :
    (crlf ++ crlf).isSuffixOf (sectionOf (c :: cs)) = true := by
  rw [List.isSuffixOf_iff_suffix]
  induction cs generalizing c with
  | nil => exact ⟨c, by simp [sectionOf]⟩
  | cons d cs ih => exact (ih d).trans ⟨c ++ crlf, by simp [sectionOf]⟩

/-- A section is not the beginning of another one. -/
theorem sectionOf_append_inj (cs ds : List Bytes) (hc : Lines cs) (hd : Lines ds)
    (r r' : Bytes) (e : sectionOf cs ++ r = sectionOf ds ++ r') : cs = ds ∧ r = r' := by
  induction cs generalizing ds with
  | nil =>
    cases ds with
    | nil => exact ⟨rfl, List.append_cancel_left e⟩
    | cons d ds =>
      obtain ⟨⟨hd1, hd2⟩, -⟩ := (lines_cons _ _).1 hd
      have e' : crlf ++ r = (d ++ crlf) ++ (sectionOf ds ++ r') := by
        simpa [sectionOf] using e
      have hl := (isLine_crlf.append_inj ⟨d, hd2, rfl⟩ e').1
      have : d = [] := by simpa using hl.symm
      exact (hd1 this).elim
  | cons c cs ih =>
    obtain ⟨⟨hc1, hc2⟩, hcs⟩ := (lines_cons _ _).1 hc
    cases ds with
    | nil =>
      have e' : (c ++ crlf) ++ (sectionOf cs ++ r) = crlf ++ r' := by
        simpa [sectionOf] using e
      have hl := (IsLine.append_inj ⟨c, hc2, rfl⟩ isLine_crlf e').1
      have : c = [] := by simpa using hl
      exact (hc1 this).elim
    | cons d ds =>
      obtain ⟨⟨hd1, hd2⟩, hds⟩ := (lines_cons _ _).1 hd
      have e' : (c ++ crlf) ++ (sectionOf cs ++ r) = (d ++ crlf) ++ (sectionOf ds ++ r') := by
        simpa [sectionOf] using e
      obtain ⟨hl, e'⟩ := IsLine.append_inj ⟨c, hc2, rfl⟩ ⟨d, hd2, rfl⟩ e'
      obtain ⟨rfl, rfl⟩ := ih ds hcs hds e'
      exact ⟨by rw [List.append_cancel_right hl], rfl⟩

def IsSection (s : Bytes) : Prop := ∃ cs, Lines cs ∧ s = sectionOf cs

theorem isSection_crlf : IsSection crlf := ⟨[], lines_nil, rfl⟩

theorem IsSection.length {s : Bytes} (h : IsSection s) : 2 ≤ s.length := by
  obtain ⟨cs, -, rfl⟩ := h
  exact sectionOf_length cs

theorem IsSection.ne_nil {s : Bytes} (h : IsSection s) : s ≠ [] := by
  intro e
  have := h.length
  rw [e] at this
  cases this

theorem IsSection.cons {l s : Bytes} (hl : IsLine l) (hne : l ≠ crlf) (hs : IsSection s) :
    IsSection (l ++ s) := by
  obtain ⟨c, hc, rfl⟩ := hl
  obtain ⟨cs, hcs, rfl⟩ := hs
  exact ⟨c :: cs, (lines_cons _ _).2 ⟨⟨fun e => hne (by rw [e]; rfl), hc⟩, hcs⟩, rfl⟩

theorem IsSection.append_inj {s s' r r' : Bytes} (h : IsSection s) (h' : IsSection s')
    (he : s ++ r = s' ++ r') : s = s' ∧ r = r' := by
  obtain ⟨cs, hcs, rfl⟩ := h
  obtain ⟨ds, hds, rfl⟩ := h'
  obtain ⟨rfl, hr⟩ := sectionOf_append_inj cs ds hcs hds r r' he
  exact ⟨rfl, hr⟩

/-- A section is read line by line. -/
theorem IsSection.cases {s : Bytes} (h : IsSection s) :
    s = crlf ∨ ∃ l s', IsLine l ∧ l ≠ crlf ∧ IsSection s' ∧ s = l ++ s' := by
  obtain ⟨cs, hcs, rfl⟩ := h
  cases cs with
  | nil => exact Or.inl rfl
  | cons c cs =>
    obtain ⟨⟨hne, hc⟩, hcs⟩ := (lines_cons _ _).1 hcs
    exact Or.inr ⟨c ++ crlf, sectionOf cs, ⟨c, hc, rfl⟩, by simpa using hne, ⟨cs, hcs, rfl⟩, rfl⟩
