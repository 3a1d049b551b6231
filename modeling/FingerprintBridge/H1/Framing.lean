import FingerprintBridge.H1.Message
import FingerprintBridge.Rewrite.Head

/-!
# Framing, field by field

`framing` looks at the lines of a head after the first.  What it sees of a field it
knows is never mapped, so a mapped head has the framing of the head.
-/

namespace H1

/-- What `framing` does with a field it knows. -/
def framingField (acc : Lengths) (name v : Bytes) : Res Lengths := do
  let s ← fromUtf8 v
  let value := trim isWhitespace s
  let acc ← contentLength acc name value
  let acc ← transferEncoding acc name value
  ensure (eqIgnoreCase name (ascii "upgrade") = false) "HTTP upgrade is unsupported"
  return acc

theorem framingLine_field (acc : Lengths) (name v : Bytes) (h : 58 ∉ name) :
    framingLine acc (name ++ 58 :: v) =
      if isFramingName name then framingField acc name v else .ok acc := by
  unfold framingLine
  rw [findIdx?_append_cons 58 name v h]
  simp only [List.take_left, drop_through]
  rfl

theorem framingLine_other (acc : Lengths) (line : Bytes) (h : 58 ∉ line) :
    framingLine acc line = .ok acc := by
  unfold framingLine
  rw [(findIdx?_eq_none 58 line).2 h]

theorem framingLines_append (acc : Lengths) (ls ls' : List Bytes) :
    framingLines acc (ls ++ ls') = (framingLines acc ls >>= fun acc => framingLines acc ls') := by
  induction ls generalizing acc with
  | nil => rfl
  | cons l ls ih =>
    show (framingLine acc l >>= fun acc => framingLines acc (ls ++ ls')) = _
    simp only [ih, framingLines, bind_assoc]

/-- The empty line and what follows it have no field. -/
theorem framingLines_stop (acc : Lengths) : framingLines acc [[13], []] = .ok acc := rfl

theorem framing_section (first : Bytes) (fs : List Bytes) (hcs : Lines (first :: fs))
    (response noBody : Bool) :
    framing (sectionOf (first :: fs)) response noBody =
      (framingLines { length := none, te := none } (fs.map (· ++ [13])) >>= fun acc =>
        bodyKind acc response noBody) := by
  unfold framing
  rw [splitOn_sectionOf _ fun c hc => (hcs c hc).2, List.map_cons, List.cons_append, List.drop_one,
    List.tail_cons, framingLines_append]
  simp only [framingLines_stop, bind_assoc]
  rfl

/-- The fields that decide the framing are not mapped. -/
theorem relevant_of_isFramingName (name : Bytes) (response : Bool) (h : isFramingName name = true) :
    Mapping.relevant (asciiLower name) response = false := by
  unfold isFramingName eqIgnoreCase at h
  simp only [Bool.or_eq_true, beq_iff_eq] at h
  rcases h with (h | h) | h
  all_goals
    rw [h]
    cases response <;> decide

section
variable {U : UrlCrate} (m : Mapping U)

theorem framingLine_mapped (acc : Lengths) (response : Bool) {c c' : Bytes}
    (h : m.FieldTo response c c') : framingLine acc (c' ++ [13]) = framingLine acc (c ++ [13]) := by
  obtain ⟨name, v, v', htok, rfl, hv, rfl⟩ := h
  simp only [List.append_assoc, List.cons_append]
  rw [framingLine_field acc name _ htok.colon, framingLine_field acc name _ htok.colon]
  split
  · next hn =>
    rw [m.value_irrelevant name v response (relevant_of_isFramingName name response hn)] at hv
    cases hv
    rfl
  · rfl

theorem framingLines_mapped (response : Bool) {fs fs' : List Bytes}
    (h : List.Forall₂ (m.FieldTo response) fs fs') (acc : Lengths) :
    framingLines acc (fs'.map (· ++ [13])) = framingLines acc (fs.map (· ++ [13])) := by
  induction h generalizing acc with
  | nil => rfl
  | cons hc _ ih =>
    simp only [List.map_cons, framingLines, framingLine_mapped m acc response hc, ih]

/-- **Rewriting a head keeps its framing.** -/
theorem framing_mapped (response noBody : Bool) {first : Bytes} {fs fs' : List Bytes}
    (h : List.Forall₂ (m.FieldTo response) fs fs') (hcs : Lines (first :: fs)) :
    framing (sectionOf (first :: fs')) response noBody =
      framing (sectionOf (first :: fs)) response noBody := by
  obtain ⟨hfirst, hfs⟩ := (lines_cons _ _).1 hcs
  have hcs' : Lines (first :: fs') :=
    (lines_cons _ _).2 ⟨hfirst, m.forall₂_fieldTo_lines response h hfs⟩
  rw [framing_section first fs hcs, framing_section first fs' hcs',
    framingLines_mapped m response h]

/-! ## The checks on a request -/

theorem checkRequest_ok_iff (h : Bytes) (method : Str) (kind : Body) (h' : Bytes) :
    checkRequest m h = .ok (method, kind, h') ↔
      requestLine h = .ok method ∧ framing h false false = .ok kind ∧
        m.h1Head h false = .ok h' := by
  unfold checkRequest
  constructor
  · intro hc
    obtain ⟨method', hl, hc⟩ := (Res.bind_ok_iff _ _ _).1 hc
    obtain ⟨kind', hk, hc⟩ := (Res.bind_ok_iff _ _ _).1 hc
    obtain ⟨h'', hh, hc⟩ := (Res.bind_ok_iff _ _ _).1 hc
    cases hc
    exact ⟨hl, hk, hh⟩
  · rintro ⟨hl, hk, hh⟩
    refine (Res.bind_ok_iff _ _ _).2 ⟨method, hl, (Res.bind_ok_iff _ _ _).2 ⟨kind, hk, ?_⟩⟩
    exact (Res.bind_ok_iff _ _ _).2 ⟨h', hh, rfl⟩

end

end H1
