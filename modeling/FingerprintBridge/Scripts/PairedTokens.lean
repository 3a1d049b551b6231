import FingerprintBridge.Scripts.PairedBlocks
import FingerprintBridge.Wire.Transparency

/-!
# The lab's comparison of header blocks

The tokens of the block that the bridge read and of the block that it wrote are the same exactly if
the bridge kept what stands before the values and mapped the literals as the lab does.
-/

namespace PairedHttp

open Hpack (Rep NameRef StringLit DynamicTable)
open HpackWire (HpackCrate HeaderRewriter Visit Table Agrees Trace FieldStep FieldOk rfc7541 written
  litString)
open Tls (lowerHex lowerHex_inj)

/-! ## Values -/

/-- A name that the bridge takes in HTTP/2 has no capitals. -/
theorem asciiLower_name {l : HpackWire.Locals} {name value : Bytes} (h : FieldOk l name value) :
    asciiLower name = name := by
  have hlow : ∀ c ∈ name, byteLower c = c := by
    intro c hc
    have hbad := List.any_eq_false.1 h.name_ok.2 c hc
    unfold HpackWire.isBadNameByte at hbad
    unfold byteLower
    simp only [Bool.or_eq_true, Bool.and_eq_true, decide_eq_true_eq, not_or] at hbad
    rw [if_neg (by simpa using hbad.1.1)]
  unfold asciiLower
  nth_rewrite 2 [← List.map_id name]
  exact List.map_congr_left hlow

theorem Remaps.permitted {a b name value value' : Bytes} (h : Remaps a b name value value') :
    name = ascii "host" ∨ name = ascii ":authority" ∨ name = ascii "origin" ∨
      name = ascii "referer" := by
  cases h with
  | authority hname =>
    rcases hname with h | h
    · exact Or.inl h
    · exact Or.inr (Or.inl h)
  | url _ _ hname _ _ => exact Or.inr (Or.inr hname)

theorem permitted_of_remaps {a b name value value' : Bytes} (h : Remaps a b name value value')
    (hne : value' ≠ value) :
    permitted a b name value = true ∧ permitted a b name value' = true := by
  unfold PairedHttp.permitted
  have hback := h.symm.mapped
  refine ⟨decide_eq_true ⟨h.permitted, Or.inl ?_⟩, decide_eq_true ⟨h.permitted, Or.inr ?_⟩⟩
  · rw [h.mapped]
    exact hne
  · rw [hback]
    exact hne.symm

theorem valid_inj {s s' : StringLit} (h : s.Valid) (h' : s'.Valid) (heq : s.octets = s'.octets) :
    s = s' := by
  have hread := h []
  rw [heq, h' []] at hread
  exact (Prod.mk.inj (Option.some.inj hread)).1.symm

section
variable {U : UrlCrate} (m : Mapping U)

/-- The bridge maps the header as the lab does. -/
def HeaderAlike (h : Header) : Prop := m.value h.1 h.2 false = .ok (toUpstream m h.1 h.2)

/-- What the bridge wrote the lab leaves as it is. -/
theorem toUpstream_written {name value w : Bytes} (hname : asciiLower name = name)
    (hm : m.value name value false = .ok w) : toUpstream m name w = w := by
  have hwritten : m.value name value false = .ok ([] ++ w) := hm
  exact mapped_eq_iff.2 fun value' hr => settled m hwritten (by simp) (hname.symm ▸ hr)

/-- The tokens of the value that the bridge read, and of the one it wrote. -/
theorem valueToken_written {name value w : Bytes} {v : StringLit} (hname : asciiLower name = name)
    (hm : m.value name value false = .ok w) (hv : v.text rfc7541 = some value) (hvalid : v.Valid) :
    valueToken (utf8 m.publicAuthority) (utf8 m.upstream) name value (literalOf v) =
        valueToken (utf8 m.publicAuthority) (utf8 m.upstream) name w
          (literalOf (if w = value then v else litString w v.huffman)) ↔
      m.value name value false = .ok (toUpstream m name value) := by
  have hset := toUpstream_written m hname hm
  by_cases hsame : w = value
  · subst hsame
    rw [if_pos rfl, hset]
    exact iff_of_true rfl hm
  · have halike : m.value name value false = .ok (toUpstream m name value) ↔
        toUpstream m name value = w := by
      rw [hm]
      exact ⟨fun h => (Except.ok.inj h).symm, fun h => congrArg Except.ok h.symm⟩
    rw [if_neg hsame, halike]
    constructor
    · intro heq
      unfold valueToken at heq
      by_cases hp : permitted (utf8 m.publicAuthority) (utf8 m.upstream) name value = true
      · rw [if_pos hp] at heq
        by_cases hq : permitted (utf8 m.publicAuthority) (utf8 m.upstream) name w = true
        · rw [if_pos hq] at heq
          exact (lowerHex_inj (ValueToken.mapped.inj heq).2).trans hset
        · rw [if_neg hq] at heq
          cases heq
      · rw [if_neg hp] at heq
        by_cases hq : permitted (utf8 m.publicAuthority) (utf8 m.upstream) name w = true
        · rw [if_pos hq] at heq
          cases heq
        · -- the same octets are one text
          rw [if_neg hq] at heq
          have hoctets := lowerHex_inj (ValueToken.wire.inj heq).2
          have hlit := valid_inj hvalid (HpackWire.litString_valid w v.huffman) hoctets
          have htext := HpackWire.litString_text w v.huffman
          rw [← hlit, hv] at htext
          exact absurd (Option.some.inj htext).symm hsame
    · intro heq
      have hr : Remaps (utf8 m.publicAuthority) (utf8 m.upstream) name value w := by
        rcases mapped_cases name value (utf8 m.publicAuthority) (utf8 m.upstream) with hr | ⟨h, -⟩
        · rw [← heq]
          exact hr
        · exact absurd (heq.symm.trans h) hsame
      obtain ⟨hp, hq⟩ := permitted_of_remaps hr hsame
      rw [valueToken, if_pos hp, valueToken, if_pos hq, hr.mapped]
      rw [show mapped name w (utf8 m.publicAuthority) (utf8 m.upstream) = w from hset]
      rfl

/-! ## Representations -/

/-- `w` is of the kind of `r`, with its index and its literal name. -/
def SameFront : (r w : Rep) → Prop
  | .indexed _ i, .indexed _ i' => i' = i
  | .literal mode _ name _, .literal mode' _ name' _ =>
    mode' = mode ∧ indexOf name' = indexOf name ∧ textOf name' = textOf name
  | .sizeUpdate _ n, .sizeUpdate _ n' => n' = n
  | _, _ => False

theorem token_eq_iff (publicAuthority upstream : Bytes) (r w : Rep) (h h' : Header) :
    token publicAuthority upstream r h = token publicAuthority upstream w h' ↔
      SameFront r w ∧ (token publicAuthority upstream r h).value =
        (token publicAuthority upstream w h').value := by
  constructor
  · intro heq
    refine ⟨?_, congrArg Token.value heq⟩
    have hkind := congrArg Token.kind heq
    have hindex := congrArg Token.index heq
    have hname := congrArg Token.name heq
    cases r with
    | indexed head i =>
      cases w with
      | indexed head' i' => exact hindex.symm
      | literal mode head' nm v => cases mode <;> cases hkind
      | sizeUpdate head' n => cases hkind
    | literal mode head nm v =>
      cases w with
      | indexed head' i' => cases mode <;> cases hkind
      | literal mode' head' nm' v' =>
        exact ⟨(OrderPolicy.literalKind_inj _ _ hkind).symm, hindex.symm, hname.symm⟩
      | sizeUpdate head' n => cases mode <;> cases hkind
    | sizeUpdate head n =>
      cases w with
      | indexed head' i' => cases hkind
      | literal mode head' nm v => cases mode <;> cases hkind
      | sizeUpdate head' n' => exact hindex.symm
  · rintro ⟨hfront, hvalue⟩
    cases r with
    | indexed head i =>
      cases w with
      | indexed head' i' =>
        cases hfront
        rfl
      | literal _ _ _ _ => cases hfront
      | sizeUpdate _ _ => cases hfront
    | literal mode head nm v =>
      cases w with
      | indexed _ _ => cases hfront
      | literal mode' head' nm' v' =>
        obtain ⟨rfl, hindex, hname⟩ := hfront
        unfold token at hvalue ⊢
        simp only at hvalue ⊢
        rw [hindex, hname, hvalue]
      | sizeUpdate _ _ => cases hfront
    | sizeUpdate head n =>
      cases w with
      | indexed _ _ => cases hfront
      | literal _ _ _ _ => cases hfront
      | sizeUpdate head' n' =>
        cases hfront
        rfl

def isLiteral : Rep → Bool
  | .literal _ _ _ _ => true
  | _ => false

/-- The bridge maps the values of literals as the lab does. -/
def LabMaps (r : Rep) (hs : List Header) : Prop := isLiteral r = true → ∀ h ∈ hs, HeaderAlike m h

/-- A literal is written as a literal. -/
theorem written_literal {D : HpackCrate} (t : Table D) (mode : Hpack.Indexing) (head : Bytes)
    (nm : NameRef) (v : StringLit) (h : Header) (w : Bytes) :
    ∃ head' nm', written t (.literal mode head nm v) h w =
      .literal mode head' nm' (if w = h.2 then v else litString w v.huffman) := by
  cases nm with
  | text s => exact ⟨head, .text s, rfl⟩
  | index i =>
    unfold written
    simp only
    by_cases hi : t.find i h.1 none = i
    · rw [if_pos hi]
      exact ⟨_, _, rfl⟩
    · rw [if_neg hi]
      exact ⟨_, _, rfl⟩

theorem written_field {D : HpackCrate} (t : Table D) (r : Rep) (h : Header) (w : Bytes)
    (hr : HpackWire.isSizeUpdate r = false) : HpackWire.isSizeUpdate (written t r h w) = false := by
  cases r with
  | sizeUpdate head n => cases hr
  | indexed head i =>
    unfold written
    simp only
    by_cases h1 : t.find i h.1 (some w) = i
    · rw [if_pos h1]
      rfl
    · rw [if_neg h1]
      by_cases h2 : t.find i h.1 (some w) ≠ 0
      · rw [if_pos h2]
        rfl
      · rw [if_neg h2]
        rfl
  | literal mode head nm v =>
    obtain ⟨head', nm', hw⟩ := written_literal t mode head nm v h w
    rw [hw]
    rfl

theorem token_written {D : HpackCrate} (t : Table D) {S S' : DynamicTable} {r : Rep} {h : Header}
    {w : Bytes} (hwf : r.WellFormed) (hr : r.apply rfc7541 S = some ([h], S'))
    (hm : m.value h.1 h.2 false = .ok w) (hname : asciiLower h.1 = h.1) :
    token (utf8 m.publicAuthority) (utf8 m.upstream) r h =
        token (utf8 m.publicAuthority) (utf8 m.upstream) (written t r h w) (h.1, w) ↔
      SameFront r (written t r h w) ∧ LabMaps m r [h] := by
  rw [token_eq_iff]
  refine and_congr_right fun hfront => ?_
  cases r with
  | sizeUpdate head n => cases hr
  | indexed head i =>
    refine iff_of_true ?_ fun hl => by cases hl
    cases hw : written t (.indexed head i) h w with
    | indexed head' i' => rfl
    | literal _ _ _ _ =>
      rw [hw] at hfront
      cases hfront
    | sizeUpdate _ _ =>
      rw [hw] at hfront
      cases hfront
  | literal mode head nm v =>
    obtain ⟨head', nm', hw⟩ := written_literal t mode head nm v h w
    obtain ⟨i, -, -, hvalid⟩ := hwf
    obtain ⟨g, -, htext, hg, -⟩ := Rep.apply_literal _ _ _ _ _ _ _ _ hr
    obtain rfl : h = g := List.singleton_inj.1 hg
    have hvalue := valueToken_written m hname hm htext hvalid
    rw [hw]
    constructor
    · intro heq _ h' hh'
      obtain rfl := List.mem_singleton.1 hh'
      exact hvalue.1 (Option.some.inj heq)
    · intro hl
      exact congrArg some (hvalue.2 (hl rfl h (List.mem_singleton.2 rfl)))

/-! ## Blocks -/

theorem read_update {publicAuthority upstream head : Bytes} {n : Nat} {rs : List Rep}
    {hs : List Header} {ts : List Token}
    (h : Read publicAuthority upstream (.sizeUpdate head n :: rs) hs ts) :
    ∃ ts', ts = { kind := .tableSize, index := n } :: ts' ∧ Read publicAuthority upstream rs hs ts' := by
  cases h with
  | update _ _ h => exact ⟨_, rfl, h⟩
  | field _ hno _ => cases hno

theorem read_field {publicAuthority upstream : Bytes} {r : Rep} {g : Header} {rs : List Rep}
    {hs : List Header} {ts : List Token} (hr : HpackWire.isSizeUpdate r = false)
    (h : Read publicAuthority upstream (r :: rs) (g :: hs) ts) :
    ∃ ts', ts = token publicAuthority upstream r g :: ts' ∧
      Read publicAuthority upstream rs hs ts' := by
  cases h with
  | update _ _ _ => cases hr
  | field _ _ h => exact ⟨_, rfl, h⟩

variable {D : HpackCrate} {block : Bytes} {limit : Nat} {table : D.Decoder → DynamicTable}

variable {m} in
theorem trace_tokens {l l' : HpackWire.Locals} {st st' : HeaderRewriter D} {vs : List Visit}
    {ws : List Rep} (hD : D.Correct table) (ht : Trace block m false limit l st vs ws l' st') :
    ∀ ts ts', Read (utf8 m.publicAuthority) (utf8 m.upstream) (vs.map Visit.rep)
        (vs.flatMap Visit.sent) ts →
      Read (utf8 m.publicAuthority) (utf8 m.upstream) ws (vs.flatMap Visit.received) ts' →
      (ts = ts' ↔ List.Forall₂ SameFront (vs.map Visit.rep) ws ∧
        ∀ v ∈ vs, LabMaps m v.rep v.sent) := by
  induction ht with
  | nil l st =>
    intro ts ts' h h'
    cases h
    cases h'
    exact iff_of_true rfl ⟨.nil, by simp⟩
  | @cons l l1 l' st st1 st' v vs ws hstep _ ih =>
    intro ts ts' h h'
    have hs := hstep.sender hD
    rw [List.map_cons, List.flatMap_cons] at h
    rw [List.flatMap_cons] at h'
    rw [List.map_cons, List.forall₂_cons, List.forall_mem_cons]
    cases v with
    | update head n =>
      obtain ⟨ts, rfl, hread⟩ := read_update h
      obtain ⟨ts', rfl, hread'⟩ := read_update h'
      rw [List.cons_eq_cons, ih ts ts' hread hread', and_iff_right rfl]
      have hfront : SameFront (Visit.rep (.update head n)) (Visit.out st.outbound (.update head n)) :=
        rfl
      have hlab : LabMaps m (Visit.rep (.update head n)) (Visit.sent (.update head n)) := by
        intro hl
        cases hl
      rw [and_iff_right hfront, and_iff_right hlab]
    | field r g w =>
      have hno := FieldStep.notUpdate hstep
      obtain ⟨ts, rfl, hread⟩ := read_field hno h
      obtain ⟨ts', rfl, hread'⟩ := read_field (written_field st.outbound r g w hno) h'
      have htoken := token_written m st.outbound (FieldStep.wellFormed hstep) hs
        (FieldStep.mapped_eq hstep) (asciiLower_name (FieldStep.checked hstep))
      rw [List.cons_eq_cons, ih ts ts' hread hread', htoken, and_and_and_comm]
      rfl

/-- A block is cut into representations in one way only. -/
theorem reps_unique {rs rs' : List Rep} (h : ∀ r ∈ rs, r.Valid) (h' : ∀ r ∈ rs', r.Valid)
    (heq : rs.flatMap Rep.octets = rs'.flatMap Rep.octets) : rs = rs' := by
  have hall := Hpack.all_rep_octets rs h
  rw [heq, Hpack.all_rep_octets rs' h'] at hall
  exact (Option.some.inj hall).symm

/-- The trace of a call, and what the lab finds of it. -/
structure Traced (block : Bytes) (limit : Nat) (st : HeaderRewriter D) (R : DynamicTable)
    (out : Bytes) (st' : HeaderRewriter D) (R' : DynamicTable) (vs : List Visit) (ws : List Rep)
    (l' : HpackWire.Locals) : Prop where
  trace : Trace block m false limit {} st vs ws l' st'
  read : Parser.all Hpack.rep block = some (vs.map Visit.rep)
  written : Parser.all Hpack.rep out = some ws
  received : Hpack.decodeReps rfc7541 R ws = some (vs.flatMap Visit.received, R')
  agrees : Agrees st'.outbound R'
  found : ∀ ts ts', representations (utf8 m.publicAuthority) (utf8 m.upstream) block
      (vs.flatMap Visit.sent) = .ok ts →
    representations (utf8 m.publicAuthority) (utf8 m.upstream) out
      (vs.flatMap Visit.received) = .ok ts' →
    (ts = ts' ↔ List.Forall₂ SameFront (vs.map Visit.rep) ws ∧
      ∀ v ∈ vs, LabMaps m v.rep v.sent)

variable {m} in
theorem rewrite_traced (hD : D.Correct table) (st st' : HeaderRewriter D) (out : Bytes)
    (R : DynamicTable) (ha : Agrees st.outbound R)
    (h : HpackWire.rewrite block m false limit st = .ok out st') :
    ∃ R' vs ws l', Traced m block limit st R out st' R' vs ws l' := by
  obtain ⟨vs, ws, l', ht, hblock, hout, -⟩ := HpackWire.rewrite_ok _ _ _ h
  obtain ⟨hv, hw⟩ := ht.wellFormed
  obtain ⟨R', hreceiver, ha'⟩ := ht.receiver hD R ha
  refine ⟨R', vs, ws, l', ht, ?_, ?_, hreceiver, ha', fun ts ts' hr hr' => ?_⟩
  · rw [hblock]
    exact Hpack.all_rep_octets _ hv
  · rw [hout]
    exact Hpack.all_rep_octets _ hw
  · obtain ⟨rs, hrs, hb, hread⟩ := representations_ok _ _ _ _ _ hr
    obtain ⟨rs', hrs', hb', hread'⟩ := representations_ok _ _ _ _ _ hr'
    obtain rfl : rs = vs.map Visit.rep :=
      reps_unique (fun r hr => (hrs r hr).valid) hv (hb.symm.trans hblock)
    obtain rfl : rs' = ws := reps_unique (fun r hr => (hrs' r hr).valid) hw (hb'.symm.trans hout)
    exact trace_tokens hD ht ts ts' hread hread'

end

def sampleHeaders (authority : Bytes) : List Header :=
  [(ascii ":method", ascii "GET"), (ascii ":scheme", ascii "https"), (ascii ":path", ascii "/"),
    (ascii ":authority", authority)]

/-- The first block of the sample, and what is written for it. -/
example : representations (ascii "b.test:8443") (ascii "a.test:9443") HpackWire.sampleRequest
    (sampleHeaders (ascii "b.test:8443")) =
      representations (ascii "b.test:8443") (ascii "a.test:9443") HpackWire.sampleForwarded
        (sampleHeaders (ascii "a.test:9443")) ∧
    (representations (ascii "b.test:8443") (ascii "a.test:9443") HpackWire.sampleRequest
      (sampleHeaders (ascii "b.test:8443"))).map List.length = .ok 4 := by decide +kernel

end PairedHttp
