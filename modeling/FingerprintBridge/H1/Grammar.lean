import FingerprintBridge.H1.Strict

/-!
# The grammar of forwarded request heads

Four functions look at a request head, each cutting it at other octets.  What they
let pass is a well-formed head, but for four kinds of slips (`Loose`).
-/

namespace H1

/-- No CR, LF or NUL. -/
def Clean (v : Bytes) : Prop := 13 ∉ v ∧ 10 ∉ v ∧ 0 ∉ v

/-- `method SP target SP HTTP/1.1`. -/
def requestLineOf (method target : Bytes) : Bytes :=
  method ++ 32 :: (target ++ 32 :: ascii "HTTP/1.1")

/-- `name:value`. -/
def fieldOf (f : Bytes × Bytes) : Bytes := f.1 ++ 58 :: f.2

/-- A request head by the grammar. -/
def IsRequestHead (h : Bytes) : Prop :=
  ∃ (method target : Bytes) (fields : List (Bytes × Bytes)),
    h = requestLineOf method target ++ crlf ++
      fields.flatMap (fieldOf · ++ crlf) ++ crlf ∧
    Mapping.IsToken method ∧ method ≠ ascii "CONNECT" ∧
    (target.head? = some 47 ∨ (target = [42] ∧ method = ascii "OPTIONS")) ∧
    Clean (requestLineOf method target) ∧
    ∀ f ∈ fields, Mapping.IsToken f.1 ∧ Clean f.2

/-! ## What the bridge lets pass -/

/-- The first line of a head, without its end. -/
def firstLine (h : Bytes) : Bytes := (h.takeWhile (· ≠ 10)).dropLast

/-- The octets before the first blank. -/
def methodOf (line : Bytes) : Bytes := line.takeWhile (· ≠ 32)

/-- The octets between the first blank and the next. -/
def targetOf (line : Bytes) : Bytes := ((line.dropWhile (· ≠ 32)).drop 1).takeWhile (· ≠ 32)

/-- What the checks leave out: white space after the version, which `trim_end` takes;
the octets of the method; the method that goes with `*`; CR and NUL in a line. -/
inductive Loose (h : Bytes) : Prop where
  | version (s : Str) (c : Char) (hs : firstLine h = utf8 s) (hc : s.getLast? = some c)
      (hw : isWhitespace c = true)
  | method (hm : ¬ Mapping.IsToken (methodOf (firstLine h)))
  | asterisk (ht : targetOf (firstLine h) = [42])
      (hm : methodOf (firstLine h) ≠ ascii "OPTIONS")
  | control (l : Bytes) (hl : l ∈ firstLine h :: fieldLines h) (hc : 13 ∈ l ∨ 0 ∈ l)

theorem firstLine_section (first : Bytes) (fs : List Bytes) (h : 10 ∉ first) :
    firstLine (sectionOf (first :: fs)) = first := by
  have hsec : sectionOf (first :: fs) = (first ++ [13]) ++ 10 :: sectionOf fs := by
    simp [sectionOf, crlf]
  unfold firstLine
  rw [hsec, List.takeWhile_append_of_pos]
  · simp
  · intro b hb
    have : b ≠ 10 := by
      rintro rfl
      rcases List.mem_append.1 hb with hb | hb
      · exact h hb
      · exact absurd hb (by decide)
    simpa using this

theorem sectionOf_eq (cs : List Bytes) : sectionOf cs = cs.flatMap (· ++ crlf) ++ crlf := by
  induction cs with
  | nil => rfl
  | cons c cs ih =>
    show c ++ crlf ++ sectionOf cs = _
    rw [ih, List.flatMap_cons, List.append_assoc, List.append_assoc, List.append_assoc]

theorem takeWhile_append_cons (x : UInt8) (a c : Bytes) (h : x ∉ a) :
    (a ++ x :: c).takeWhile (· ≠ x) = a := by
  rw [List.takeWhile_append_of_pos]
  · simp
  · intro b hb
    have : b ≠ x := fun e => h (e ▸ hb)
    simpa using this

theorem methodOf_requestLine (method target : Bytes) (h : 32 ∉ method) :
    methodOf (requestLineOf method target) = method := takeWhile_append_cons 32 _ _ h

theorem targetOf_requestLine (method target : Bytes) (h : 32 ∉ method) :
    targetOf (requestLineOf method target) =
      (target ++ 32 :: ascii "HTTP/1.1").takeWhile (· ≠ 32) := by
  unfold targetOf requestLineOf
  rw [List.dropWhile_append_of_pos]
  · simp
  · intro b hb
    have : b ≠ 32 := fun e => h (e ▸ hb)
    simpa using this

theorem IsToken.not_mem {name : Bytes} (h : Mapping.IsToken name) (b : UInt8) (hb : b.toNat ≤ 32) :
    b ∉ name := by
  intro hm
  have := (Mapping.isTokenByte_range b (h.2 b hm)).1
  omega

/-- The lines of a head by the grammar. -/
theorem IsRequestHead.lines {h : Bytes} (hh : IsRequestHead h) :
    ∃ (method target : Bytes) (fields : List (Bytes × Bytes)),
      h = sectionOf (requestLineOf method target :: fields.map fieldOf) ∧
      Lines (requestLineOf method target :: fields.map fieldOf) ∧ Mapping.IsToken method ∧
      (target.head? = some 47 ∨ (target = [42] ∧ method = ascii "OPTIONS")) ∧
      Clean (requestLineOf method target) ∧ ∀ f ∈ fields, Mapping.IsToken f.1 ∧ Clean f.2 := by
  obtain ⟨method, target, fields, rfl, hm, -, ht, hc, hf⟩ := hh
  refine ⟨method, target, fields, ?_, ?_, hm, ht, hc, hf⟩
  · rw [sectionOf_eq, List.flatMap_cons, List.flatMap_map]
  · refine (lines_cons _ _).2 ⟨⟨by simp [requestLineOf], hc.2.1⟩, fun c hcm => ?_⟩
    obtain ⟨f, hfm, rfl⟩ := List.mem_map.1 hcm
    obtain ⟨htok, hclean⟩ := hf f hfm
    refine ⟨by simp [fieldOf], fun h10 => ?_⟩
    rcases List.mem_append.1 h10 with h10 | h10
    · exact IsToken.not_mem htok 10 (by decide) h10
    · rcases List.mem_cons.1 h10 with h10 | h10
      · exact absurd h10 (by decide)
      · exact hclean.2.1 h10

/-- A head by the grammar shows none of the slips. -/
theorem IsRequestHead.not_loose {h : Bytes} (hh : IsRequestHead h) : ¬ Loose h := by
  obtain ⟨method, target, fields, rfl, hlines, hm, ht, hclean, hf⟩ := hh.lines
  have h32 := IsToken.not_mem hm 32 (by decide)
  have hfirst := firstLine_section (requestLineOf method target)
    (fields.map fieldOf) hclean.2.1
  intro hl
  cases hl with
  | version s c hs hc hw =>
    rw [hfirst] at hs
    have hlast : (utf8 s).getLast? = some 49 := by
      have hver : ascii "HTTP/1.1" = ascii "HTTP/1." ++ [49] := by decide
      have hline : requestLineOf method target =
          (method ++ 32 :: (target ++ 32 :: ascii "HTTP/1.")) ++ [49] := by
        rw [requestLineOf, hver]
        simp
      rw [← hs, hline, List.getLast?_concat]
    obtain ⟨c', hc', hmem⟩ := utf8_last s 49 hlast
    rw [hc] at hc'
    cases hc'
    have := mem_utf8EncodeChar c 49 hmem (by decide)
    rw [isWhitespace_of_range c (by rw [this]; decide) (by rw [this]; decide)] at hw
    cases hw
  | method hm' =>
    rw [hfirst, methodOf_requestLine _ _ h32] at hm'
    exact hm' hm
  | asterisk ht' hm' =>
    rw [hfirst, methodOf_requestLine _ _ h32] at hm'
    rw [hfirst, targetOf_requestLine _ _ h32] at ht'
    rcases ht with ht | ⟨-, hopt⟩
    · obtain ⟨t, rfl⟩ : ∃ t, target = 47 :: t := by
        cases target with
        | nil => cases ht
        | cons b t =>
          cases ht
          exact ⟨t, rfl⟩
      rw [List.cons_append, List.takeWhile_cons_of_pos (by decide)] at ht'
      cases ht'
    · exact hm' hopt
  | control l hl hc =>
    rw [hfirst, fieldLines_section _ _ hlines] at hl
    rcases List.mem_cons.1 hl with rfl | hl
    · exact hc.elim hclean.1 hclean.2.2
    · obtain ⟨f, hfm, rfl⟩ := List.mem_map.1 hl
      obtain ⟨htok, hcl⟩ := hf f hfm
      have hout : ∀ b : UInt8, b.toNat ≤ 32 → b ∉ f.2 → b ∉ fieldOf f := by
        intro b hb h2 hmem
        rcases List.mem_append.1 hmem with hmem | hmem
        · exact IsToken.not_mem htok b hb hmem
        · rcases List.mem_cons.1 hmem with rfl | hmem
          · exact absurd hb (by decide)
          · exact h2 hmem
      exact hc.elim (hout 13 (by decide) hcl.1) (hout 0 (by decide) hcl.2.2)

/-- The words of the request line, as the bridge reads them. -/
theorem requestLine_ok (first : Bytes) (fs : List Bytes) (hcs : Lines (first :: fs)) (method : Str)
    (h : requestLine (sectionOf (first :: fs)) = .ok method) :
    ∃ s target, first = utf8 s ∧
      trimEnd isWhitespace s = method ++ ' ' :: (target ++ ' ' :: "HTTP/1.1".toList) ∧
      ' ' ∉ method ∧ ' ' ∉ target ∧ method ≠ "CONNECT".toList ∧
      (target.head? = some '/' ∨ target = "*".toList) := by
  unfold requestLine at h
  rw [splitOn_sectionOf _ fun c hc => (hcs c hc).2, List.map_cons, List.cons_append] at h
  obtain ⟨s', hs', hr⟩ := (Res.bind_ok_iff _ _ _).1 h
  obtain ⟨s, rfl, hfirst⟩ := utf8_snoc s' first 13 (by decide) ((fromUtf8_ok_iff _ _).1 hs').symm
  have htrim : trimEnd isWhitespace (s ++ [Char.ofNat (13 : UInt8).toNat]) = trimEnd isWhitespace s :=
    List.rdropWhile_concat_pos _ _ _ (by decide)
  rw [htrim] at hr
  split at hr
  · next method' target version hsplit =>
    obtain ⟨_, hv, hr⟩ := (Res.bind_ok_iff _ _ _).1 hr
    obtain ⟨_, ht, hr⟩ := (Res.bind_ok_iff _ _ _).1 hr
    cases hr
    obtain rfl := (Res.ensure_ok_iff _ _ _).1 hv
    obtain ⟨hconnect, htarget⟩ := (Res.ensure_ok_iff _ _ _).1 ht
    have hnot := not_mem_of_mem_splitOn ' ' (trimEnd isWhitespace s)
    rw [hsplit] at hnot
    refine ⟨s, target, hfirst, ?_, hnot _ (by simp), hnot _ (by simp), hconnect, htarget⟩
    have hjoin : [' '].intercalate ((trimEnd isWhitespace s).splitOn ' ') = trimEnd isWhitespace s :=
      List.intercalate_splitOn ' '
    rw [← hjoin, hsplit]
    simp [List.intercalate_cons_cons]
  · cases hr

theorem trimEnd_eq_self (s : Str) (h : ∀ c, s.getLast? = some c → isWhitespace c = false) :
    trimEnd isWhitespace s = s := by
  refine List.rdropWhile_eq_self_iff.2 fun hne => ?_
  rw [h _ (List.getLast?_eq_some_getLast hne)]
  exact Bool.false_ne_true

theorem utf8_requestLine (method target : Str) :
    utf8 (method ++ ' ' :: (target ++ ' ' :: "HTTP/1.1".toList)) =
      requestLineOf (utf8 method) (utf8 target) := by
  have hcons : ∀ t : Str, utf8 (' ' :: t) = 32 :: utf8 t := fun t => rfl
  rw [utf8_append, hcons, utf8_append, hcons]
  rfl

section
variable {U : UrlCrate} (m : Mapping U)

/-- The fields that `h1Head` took. -/
theorem fields_of_mapped {fs fs' : List Bytes} (h : List.Forall₂ (m.FieldTo false) fs fs') :
    ∃ fields : List (Bytes × Bytes), fs = fields.map fieldOf ∧
      ∀ f ∈ fields, Mapping.IsToken f.1 ∧ fieldOf f ∈ fs := by
  induction h with
  | nil => exact ⟨[], rfl, fun f hf => nomatch hf⟩
  | cons hc _ ih =>
    obtain ⟨name, v, v', htok, rfl, -, -⟩ := hc
    obtain ⟨fields, rfl, hf⟩ := ih
    refine ⟨(name, v) :: fields, rfl, fun f hfm => ?_⟩
    rcases List.mem_cons.1 hfm with rfl | hfm
    · exact ⟨htok, List.mem_cons_self⟩
    · exact ⟨(hf f hfm).1, List.mem_cons_of_mem _ (hf f hfm).2⟩

/-- **Which forwarded heads are well formed**: those with none of the slips. -/
theorem forwarded_wellFormed_iff (st st' : Conn) (h : Bytes) (r : Str × Body × Bytes)
    (hread : head MAX_HEAD st = .ok h st') (hc : checkRequest m h = .ok r) :
    IsRequestHead h ↔ ¬ Loose h := by
  refine ⟨fun hh => hh.not_loose, fun hl => ?_⟩
  obtain ⟨method, kind, h'⟩ := r
  obtain ⟨hline, -, hh⟩ := (checkRequest_ok_iff m _ _ _ _).1 hc
  obtain ⟨first, fs, fs', hcs, rfl, hfs, -, -⟩ := mapped_section m MAX_HEAD st st' h h' false hread hh
  obtain ⟨⟨-, h10⟩, hlines⟩ := (lines_cons _ _).1 hcs
  obtain ⟨s, target, rfl, htrim, hm32, ht32, hconnect, htarget⟩ :=
    requestLine_ok first fs hcs method hline
  have hfirst := firstLine_section (utf8 s) fs h10
  -- nothing stands after the version
  have hself : trimEnd isWhitespace s = s := by
    refine trimEnd_eq_self s fun c hlast => ?_
    cases hw : isWhitespace c with
    | false => rfl
    | true => exact (hl (.version s c hfirst hlast hw)).elim
  rw [hself] at htrim
  have hreq : utf8 s = requestLineOf (utf8 method) (utf8 target) := by
    rw [htrim, utf8_requestLine]
  have hnot : ∀ t : Str, ' ' ∉ t → (32 : UInt8) ∉ utf8 t := by
    intro t ht hm
    obtain ⟨c, hc, hcb⟩ := (mem_utf8_iff t 32 (by decide)).1 hm
    rw [char_eq_of_toNat c _ hcb] at hc
    exact ht hc
  have hmethod : methodOf (firstLine (sectionOf (utf8 s :: fs))) = utf8 method := by
    rw [hfirst, hreq, methodOf_requestLine _ _ (hnot method hm32)]
  have htargetOf : targetOf (firstLine (sectionOf (utf8 s :: fs))) = utf8 target := by
    rw [hfirst, hreq, targetOf_requestLine _ _ (hnot method hm32)]
    exact takeWhile_append_cons 32 _ _ (hnot target ht32)
  have hclean : ∀ l ∈ utf8 s :: fs, Clean l := by
    intro l hlm
    have hmem : l ∈ firstLine (sectionOf (utf8 s :: fs)) :: fieldLines (sectionOf (utf8 s :: fs)) := by
      rw [hfirst, fieldLines_section _ _ hcs]
      exact hlm
    exact ⟨fun h13 => hl (.control l hmem (Or.inl h13)), (hcs l hlm).2,
      fun h0 => hl (.control l hmem (Or.inr h0))⟩
  obtain ⟨fields, rfl, hf⟩ := fields_of_mapped m hfs
  refine ⟨utf8 method, utf8 target, fields, ?_, ?_, ?_, ?_, ?_, fun f hfm => ?_⟩
  · rw [sectionOf_eq, List.flatMap_cons, List.flatMap_map, hreq]
  · rw [← hmethod]
    exact not_not.1 fun hm => hl (.method hm)
  · exact fun he => hconnect (utf8_inj _ _ he)
  · rcases htarget with htarget | rfl
    · cases target with
      | nil => cases htarget
      | cons c t =>
        cases htarget
        exact Or.inl rfl
    · refine Or.inr ⟨rfl, ?_⟩
      rw [← hmethod]
      exact not_not.1 fun hm => hl (.asterisk htargetOf hm)
  · rw [← hreq]
    exact hclean _ List.mem_cons_self
  · obtain ⟨htok, hfm'⟩ := hf f hfm
    obtain ⟨h13, h10', h0⟩ := hclean _ (List.mem_cons_of_mem _ hfm')
    have hin : ∀ b, b ∈ f.2 → b ∈ fieldOf f := fun b hb =>
      List.mem_append_right _ (List.mem_cons_of_mem _ hb)
    exact ⟨htok, fun h => h13 (hin _ h), fun h => h10' (hin _ h), fun h => h0 (hin _ h)⟩

end

/-- A field value with a CR in the middle. -/
def looseHead : Bytes := ascii "GET / HTTP/1.1\r\nHost: b.test:8443\r\nX: a\rY: b\r\n\r\n"

def looseRequest : Conn := { reader := [looseHead], output := [], channel := [] }

theorem forwarded_not_wellFormed : ∃ st' st'', head MAX_HEAD looseRequest = .ok looseHead st' ∧
    requests sampleMapping (fun _ => true) looseRequest = .ok () st'' ∧
    (∃ r, checkRequest sampleMapping looseHead = .ok r) ∧ ¬ IsRequestHead looseHead := by
  obtain ⟨st', hread⟩ := (Act.value?_eq_some_iff (head MAX_HEAD) looseRequest looseHead).1
    (by decide +kernel)
  obtain ⟨st'', hrun⟩ := (Act.value?_eq_some_iff (requests sampleMapping fun _ => true)
    looseRequest ()).1 (by decide +kernel)
  have hcheck : checkRequest sampleMapping looseHead = .ok ("GET".toList, .empty,
      ascii "GET / HTTP/1.1\r\nHost: a.test:9443\r\nX: a\rY: b\r\n\r\n") := by
    decide +kernel
  have hfield : ascii "X: a\rY: b" ∈ firstLine looseHead :: fieldLines looseHead := by
    decide +kernel
  exact ⟨st', st'', hread, hrun, ⟨_, hcheck⟩,
    fun hh => hh.not_loose (.control _ hfield (Or.inl (by decide)))⟩

def asteriskHead : Bytes := ascii "OPTIONS * HTTP/1.1\r\nHost:b.test:8443\r\n\r\n"

theorem forwarded_wellFormed_iff_sample : IsRequestHead asteriskHead ↔ ¬ Loose asteriskHead := by
  obtain ⟨st', hread⟩ := (Act.value?_eq_some_iff (head MAX_HEAD)
    { reader := [asteriskHead], output := [], channel := [] } asteriskHead).1 (by decide +kernel)
  have hcheck : checkRequest sampleMapping asteriskHead = .ok ("OPTIONS".toList, .empty,
      ascii "OPTIONS * HTTP/1.1\r\nHost:a.test:9443\r\n\r\n") := by
    decide +kernel
  exact forwarded_wellFormed_iff sampleMapping _ st' asteriskHead _ hread hcheck

end H1
