import FingerprintBridge.H1.Reading

/-!
# The grammar of chunked bodies

`body` takes every chunked body by the grammar, and no other, but for one slip: it ends
a size at the first CR, and a line at the first LF, so that a CR may stand in an
extension, after a size or in a trailer line (`StrayCr`).
-/

namespace H1

/-! ## The grammar -/

/-- The number that hex digits denote. -/
def hexadecimal (digits : Bytes) : Nat := digits.foldl (fun n c => 16 * n + hexValue c) 0

/-- Hex digits for the size `n`, and perhaps an extension. -/
def IsSize (n : Nat) (c : Bytes) : Prop :=
  ∃ digits ext, c = digits ++ ext ∧ digits ≠ [] ∧ digits.all isHexDigit = true ∧
    hexadecimal digits = n ∧ (ext = [] ∨ ∃ e, ext = 59 :: e) ∧ 13 ∉ ext ∧ 10 ∉ ext

/-- A chunked body by the grammar, with the sizes and their lines, the last one
included, and the trailer lines. -/
inductive ChunkedBody : List (Nat × Bytes) → List Bytes → Bytes → Prop where
  | last (c : Bytes) (trailers : List Bytes) (hc : IsSize 0 c)
      (ht : ∀ t ∈ trailers, t ≠ [] ∧ 13 ∉ t ∧ 10 ∉ t) :
      ChunkedBody [(0, c)] trailers (c ++ crlf ++ sectionOf trailers)
  | chunk (c data : Bytes) (sizes : List (Nat × Bytes)) (trailers : List Bytes) (p : Bytes)
      (hc : IsSize data.length c) (hd : data ≠ []) (hp : ChunkedBody sizes trailers p) :
      ChunkedBody ((data.length, c) :: sizes) trailers (c ++ crlf ++ (data ++ crlf) ++ p)

/-- The limits on the size lines, the sizes and the trailer. -/
def WithinLimits (sizes : List (Nat × Bytes)) (trailers : List Bytes) : Prop :=
  (∀ s ∈ sizes, s.1 < 2 ^ 64 ∧ (s.2 ++ crlf).length ≤ 8192) ∧
    (sectionOf trailers).length ≤ MAX_HEAD

/-! ## What the loop takes -/

/-- A chunked body as the loop takes it, with what stands on its size and trailer lines. -/
inductive Taken : List Bytes → Bytes → Prop where
  | last (c : Bytes) (ts : List Bytes) (hc : IsLast (c ++ crlf)) (h10 : 10 ∉ c) (ht : Lines ts)
      (hlen : (sectionOf ts).length ≤ MAX_HEAD) : Taken (c :: ts) (c ++ crlf ++ sectionOf ts)
  | chunk (c data : Bytes) (cs : List Bytes) (p : Bytes) (h10 : 10 ∉ c)
      (hlen : (c ++ crlf).length ≤ 8192) (hc : chunkSize (c ++ crlf) = .ok data.length)
      (hd : data ≠ []) (hp : Taken cs p) :
      Taken (c :: cs) (c ++ crlf ++ (data ++ crlf) ++ p)

/-- The stream begins with a body that the loop takes, and on one of its size or trailer
lines stands a CR. -/
def StrayCr (bytes : Bytes) : Prop :=
  ∃ cs w rest, bytes = w ++ rest ∧ Taken cs w ∧ ∃ c ∈ cs, 13 ∈ c

theorem isChunked_iff (w : Bytes) : IsChunked MAX_HEAD w ↔ ∃ cs, Taken cs w := by
  constructor
  · intro h
    induction h with
    | last l s hl hs hlen =>
      obtain ⟨c, h10, rfl⟩ := hl.1
      obtain ⟨ts, ht, rfl⟩ := hs
      exact ⟨c :: ts, .last c ts hl h10 ht hlen⟩
    | chunk k p hk _ ih =>
      obtain ⟨cs, hcs⟩ := ih
      obtain ⟨l, data, ⟨c, h10, rfl⟩, hlen, hc, hd, rfl⟩ := hk
      exact ⟨c :: cs, by
        have := Taken.chunk c data cs p h10 hlen hc hd hcs
        rwa [List.append_assoc (c ++ crlf)] at this ⊢⟩
  · rintro ⟨cs, h⟩
    induction h with
    | last c ts hc h10 ht hlen => exact .last _ _ hc ⟨ts, ht, rfl⟩ hlen
    | chunk c data cs p h10 hlen hc hd _ ih =>
      exact .chunk _ p ⟨_, data, ⟨c, h10, rfl⟩, hlen, hc, hd, by rw [List.append_assoc]⟩ ih

/-! ## Size lines -/

/-- The size ends where the extension or the line end begins. -/
theorem takeWhile_size (digits ext : Bytes) (hd : 59 ∉ digits ∧ 13 ∉ digits)
    (he : ext = [] ∨ ∃ e, ext = 59 :: e) :
    (digits ++ ext ++ crlf).takeWhile (fun c => c ≠ 59 && c ≠ 13) = digits := by
  have hstop : (ext ++ crlf).takeWhile (fun c => c ≠ 59 && c ≠ 13) = [] := by
    rcases he with rfl | ⟨e, rfl⟩ <;> rfl
  rw [List.append_assoc, List.takeWhile_append_of_pos, hstop, List.append_nil]
  intro b hb
  have h1 : b ≠ 59 := fun e => hd.1 (e ▸ hb)
  have h2 : b ≠ 13 := fun e => hd.2 (e ▸ hb)
  simp [h1, h2]

theorem isHexDigit_not_mem {digits : Bytes} (h : digits.all isHexDigit = true) (b : UInt8)
    (hb : isHexDigit b = false) : b ∉ digits := by
  intro hm
  rw [List.all_eq_true.1 h b hm] at hb
  cases hb

theorem chunkSize_ok_iff (l : Bytes) (n : Nat) : chunkSize l = .ok n ↔
    ∃ digits, l.takeWhile (fun c => c ≠ 59 && c ≠ 13) = digits ∧ digits ≠ [] ∧
      digits.all isHexDigit = true ∧ hexadecimal digits = n ∧ n < 2 ^ 64 := by
  unfold chunkSize
  simp only [Res.bind_ok_iff, Res.ensure_ok_iff]
  constructor
  · rintro ⟨_, ⟨hne, hall⟩, _, hlt, hn⟩
    cases hn
    exact ⟨_, rfl, hne, hall, rfl, hlt⟩
  · rintro ⟨digits, rfl, hne, hall, rfl, hlt⟩
    exact ⟨(), ⟨hne, hall⟩, (), hlt, rfl⟩

/-- A line without a stray CR has a size exactly if it is by the grammar. -/
theorem chunkSize_iff (c : Bytes) (n : Nat) (h10 : 10 ∉ c) (h13 : 13 ∉ c) :
    chunkSize (c ++ crlf) = .ok n ↔ IsSize n c ∧ n < 2 ^ 64 := by
  rw [chunkSize_ok_iff]
  constructor
  · rintro ⟨digits, rfl, hne, hall, hn, hlt⟩
    suffices h : ∃ a ext, c = a ++ ext ∧ 59 ∉ a ∧ (ext = [] ∨ ∃ e, ext = 59 :: e) by
      obtain ⟨a, ext, rfl, ha, he⟩ := h
      rw [takeWhile_size a ext ⟨ha, fun h => h13 (List.mem_append_left _ h)⟩ he] at hne hall hn
      exact ⟨⟨a, ext, rfl, hne, hall, hn, he, fun h => h13 (List.mem_append_right _ h),
        fun h => h10 (List.mem_append_right _ h)⟩, hlt⟩
    by_cases h59 : 59 ∈ c
    · obtain ⟨a, e, rfl, ha⟩ := List.eq_append_cons_of_mem h59
      exact ⟨a, 59 :: e, rfl, ha, Or.inr ⟨e, rfl⟩⟩
    · exact ⟨c, [], (List.append_nil c).symm, h59, Or.inl rfl⟩
  · rintro ⟨⟨digits, ext, rfl, hne, hall, rfl, he, -, -⟩, hlt⟩
    refine ⟨digits, takeWhile_size digits ext ⟨?_, ?_⟩ he, hne, hall, rfl, hlt⟩
    · exact isHexDigit_not_mem hall 59 (by decide)
    · exact isHexDigit_not_mem hall 13 (by decide)

theorem IsSize.not_mem {n : Nat} {c : Bytes} (h : IsSize n c) : 13 ∉ c ∧ 10 ∉ c := by
  obtain ⟨digits, ext, rfl, -, hall, -, -, h13, h10⟩ := h
  refine ⟨fun h => ?_, fun h => ?_⟩
  · rcases List.mem_append.1 h with h | h
    · exact isHexDigit_not_mem hall 13 (by decide) h
    · exact h13 h
  · rcases List.mem_append.1 h with h | h
    · exact isHexDigit_not_mem hall 10 (by decide) h
    · exact h10 h

/-- A line has one size. -/
theorem IsSize.eq {n k : Nat} {c : Bytes} (h : IsSize n c) (hk : chunkSize (c ++ crlf) = .ok k) :
    n = k := by
  obtain ⟨digits, ext, rfl, hne, hall, rfl, he, -, -⟩ := h
  obtain ⟨digits', htake, -, -, rfl, -⟩ := (chunkSize_ok_iff _ _).1 hk
  rw [takeWhile_size digits ext ⟨?_, ?_⟩ he] at htake
  · rw [htake]
  · exact isHexDigit_not_mem hall 59 (by decide)
  · exact isHexDigit_not_mem hall 13 (by decide)

/-! ## Both grammars -/

/-- A body by the grammar, within the limits, is taken. -/
theorem ChunkedBody.taken {sizes : List (Nat × Bytes)} {trailers : List Bytes} {w : Bytes}
    (h : ChunkedBody sizes trailers w) (hw : WithinLimits sizes trailers) : ∃ cs, Taken cs w := by
  induction h with
  | last c trailers hc ht =>
    obtain ⟨hsizes, hlen⟩ := hw
    obtain ⟨hn, hline⟩ := hsizes _ List.mem_cons_self
    obtain ⟨h13, h10⟩ := hc.not_mem
    refine ⟨c :: trailers, .last c trailers ⟨⟨c, h10, rfl⟩, hline, ?_⟩ h10 ?_ hlen⟩
    · exact (chunkSize_iff c 0 h10 h13).2 ⟨hc, hn⟩
    · exact fun t htm => ⟨(ht t htm).1, (ht t htm).2.2⟩
  | chunk c data sizes trailers p hc hd _ ih =>
    obtain ⟨hsizes, hlen⟩ := hw
    obtain ⟨hn, hline⟩ := hsizes _ List.mem_cons_self
    obtain ⟨h13, h10⟩ := hc.not_mem
    obtain ⟨cs, hcs⟩ := ih ⟨fun s hs => hsizes s (List.mem_cons_of_mem _ hs), hlen⟩
    exact ⟨c :: cs, .chunk c data cs p h10 hline ((chunkSize_iff c _ h10 h13).2 ⟨hc, hn⟩) hd hcs⟩

/-- What is taken without a stray CR is by the grammar. -/
theorem Taken.chunkedBody {cs : List Bytes} {w : Bytes} (h : Taken cs w) (h13 : ∀ c ∈ cs, 13 ∉ c) :
    ∃ sizes trailers, ChunkedBody sizes trailers w := by
  induction h with
  | last c ts hc h10 ht hlen =>
    have hsize := ((chunkSize_iff c 0 h10 (h13 c List.mem_cons_self)).1 hc.2.2).1
    refine ⟨_, ts, .last c ts hsize fun t htm => ⟨(ht t htm).1, ?_, (ht t htm).2⟩⟩
    exact h13 t (List.mem_cons_of_mem _ htm)
  | chunk c data cs p h10 hlen hc hd _ ih =>
    have hsize := ((chunkSize_iff c _ h10 (h13 c List.mem_cons_self)).1 hc).1
    obtain ⟨sizes, trailers, hp⟩ := ih fun d hdm => h13 d (List.mem_cons_of_mem _ hdm)
    exact ⟨_, trailers, .chunk c data sizes trailers p hsize hd hp⟩

/-- The lines of a body by the grammar are those taken, so none has a stray CR. -/
theorem ChunkedBody.not_mem {sizes : List (Nat × Bytes)} {trailers : List Bytes} {w : Bytes}
    (h : ChunkedBody sizes trailers w) : ∀ {cs : List Bytes}, Taken cs w → ∀ c ∈ cs, 13 ∉ c := by
  induction h with
  | last c trailers hc ht =>
    intro cs htaken d hdm
    generalize hw : c ++ crlf ++ sectionOf trailers = w at htaken
    obtain ⟨h13, h10⟩ := hc.not_mem
    have htl : Lines trailers := fun t htm => ⟨(ht t htm).1, (ht t htm).2.2⟩
    cases htaken with
    | last c' ts hc' h10' ht' hlen =>
      obtain ⟨hl, hs⟩ := IsLine.append_inj ⟨c, h10, rfl⟩ ⟨c', h10', rfl⟩ hw
      obtain rfl := List.append_cancel_right hl
      obtain ⟨rfl, -⟩ := sectionOf_append_inj trailers ts htl ht' [] [] (by rw [hs])
      rcases List.mem_cons.1 hdm with rfl | hdm
      · exact h13
      · exact (ht d hdm).2.1
    | chunk c' data cs p h10' hlen hc' hd hp =>
      rw [List.append_assoc (c' ++ crlf)] at hw
      obtain ⟨hl, -⟩ := IsLine.append_inj ⟨c, h10, rfl⟩ ⟨c', h10', rfl⟩ hw
      obtain rfl := List.append_cancel_right hl
      exact (hd (List.length_eq_zero_iff.1 (hc.eq hc').symm)).elim
  | chunk c data sizes trailers p hc hd _ ih =>
    intro cs htaken d hdm
    generalize hw : c ++ crlf ++ (data ++ crlf) ++ p = w at htaken
    rw [List.append_assoc (c ++ crlf)] at hw
    obtain ⟨h13, h10⟩ := hc.not_mem
    cases htaken with
    | last c' ts hc' h10' ht' hlen =>
      obtain ⟨hl, -⟩ := IsLine.append_inj ⟨c, h10, rfl⟩ ⟨c', h10', rfl⟩ hw
      obtain rfl := List.append_cancel_right hl
      exact (hd (List.length_eq_zero_iff.1 (hc.eq hc'.2.2))).elim
    | chunk c' data' cs p' h10' hlen hc' hd' hp =>
      rw [List.append_assoc (c' ++ crlf)] at hw
      obtain ⟨hl, hrest⟩ := IsLine.append_inj ⟨c, h10, rfl⟩ ⟨c', h10', rfl⟩ hw
      obtain rfl := List.append_cancel_right hl
      rw [List.append_assoc, List.append_assoc] at hrest
      obtain ⟨-, hp'⟩ := List.append_inj hrest (hc.eq hc')
      obtain rfl := List.append_cancel_left hp'
      rcases List.mem_cons.1 hdm with rfl | hdm
      · exact h13
      · exact ih hp d hdm

/-! ## The theorem -/

/-- What `body` copies for `Body::Chunked` is a chunked body by the grammar, and every such body
within the limits is copied. -/
def ChunkedStrict (st : Conn) : Prop :=
  (∀ st', body MAX_HEAD .chunked st = .ok () st' →
    ∃ sizes trailers w, ChunkedBody sizes trailers w ∧
      st.reader.flatten = w ++ st'.reader.flatten ∧ st'.output = st.output ++ w) ∧
  ∀ sizes trailers w rest, ChunkedBody sizes trailers w → WithinLimits sizes trailers →
    st.reader.flatten = w ++ rest →
    ∃ st', body MAX_HEAD .chunked st = .ok () st' ∧ st'.reader.flatten = rest ∧
      st'.output = st.output ++ w

/-- A body that is taken is copied. -/
theorem Taken.copied {cs : List Bytes} {w rest : Bytes} (h : Taken cs w) (st : Conn)
    (hst : st.reader.flatten = w ++ rest) :
    ∃ st', body MAX_HEAD .chunked st = .ok () st' ∧ st'.reader.flatten = rest ∧
      st'.output = st.output ++ w := by
  obtain ⟨st', hrun, hrest, hout, -⟩ := (reads_body MAX_HEAD .chunked _).complete st () w rest hst
    ⟨rfl, (isChunked_iff w).2 ⟨cs, h⟩⟩
  exact ⟨st', hrun, hrest, hout⟩

/-- With a stray CR the body copied is not by the grammar. -/
theorem StrayCr.not_strict {st : Conn} (h : StrayCr st.reader.flatten) : ¬ ChunkedStrict st := by
  obtain ⟨cs, w, rest, hst, htaken, c, hc, h13⟩ := h
  rintro ⟨hsound, -⟩
  obtain ⟨st', hrun, hrest, hout⟩ := htaken.copied st hst
  obtain ⟨sizes, trailers, w', hbody, -, hout'⟩ := hsound st' hrun
  obtain rfl : w = w' := List.append_cancel_left (hout.symm.trans hout')
  exact hbody.not_mem htaken c hc h13

/-- **The grammar of chunked bodies.**  Only a CR within a size or trailer line is let
pass against it. -/
theorem chunked_strict_iff (st : Conn) : ChunkedStrict st ↔ ¬ StrayCr st.reader.flatten := by
  refine ⟨fun h hstray => hstray.not_strict h, fun h => ⟨fun st' hrun => ?_, ?_⟩⟩
  · obtain ⟨w, rest, ⟨hst, hw⟩, hrest, hout, -⟩ :=
      (reads_body MAX_HEAD .chunked _).sound st () st' rfl hrun
    obtain ⟨cs, hcs⟩ := (isChunked_iff w).1 hw
    obtain ⟨sizes, trailers, hbody⟩ := hcs.chunkedBody fun c hc h13 =>
      h ⟨cs, w, rest, hst, hcs, c, hc, h13⟩
    exact ⟨sizes, trailers, w, hbody, by rw [hst, hrest], hout⟩
  · intro sizes trailers w rest hbody hlimits hst
    obtain ⟨cs, hcs⟩ := hbody.taken hlimits
    exact hcs.copied st hst

/-- A CR in the extension of the first chunk: who ends lines there reads another chunk. -/
def strayExtension : Conn :=
  { reader := [ascii "3;a\rb\r\nabc\r\n0\r\n\r\n"], output := [], channel := [] }

theorem chunked_not_strict : ¬ ChunkedStrict strayExtension := by
  refine StrayCr.not_strict ⟨[ascii "3;a\rb", ascii "0"], strayExtension.reader.flatten, [],
    (List.append_nil _).symm, ?_, ascii "3;a\rb", List.mem_cons_self, by decide⟩
  have hlast : Taken [ascii "0"] (ascii "0" ++ crlf ++ sectionOf []) :=
    .last (ascii "0") [] ⟨⟨ascii "0", by decide, rfl⟩, by decide, by decide⟩ (by decide)
      lines_nil (by decide)
  exact .chunk (ascii "3;a\rb") (ascii "abc") _ _ (by decide) (by decide) (by decide) (by decide)
    hlast

end H1
