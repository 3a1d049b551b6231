import FingerprintBridge.Wire.Trace

/-!
# HPACK transparency

A rewriter sits between a sender's encoder and a receiver's decoder.  Fed the
blocks it returns, the receiver decodes the sender's headers with mapped values,
although the two dynamic tables drift apart.

The simulation relates three tables: the inbound decoder's is the sender's, and
`outbound` is the receiver's (`Agrees`).  `Step.sender` and `Step.receiver` say
that one representation keeps both; `Trace` and `Run` carry them through a block
and through a sequence of blocks.
-/

namespace HpackWire

open Hpack

/-- `hpack::Decoder` decodes as RFC 7541 has it; `table` is its dynamic table.
It may refuse what the RFC allows, such as an over-long integer. -/
structure HpackCrate.Correct (D : HpackCrate) (table : D.Decoder → DynamicTable) : Prop where
  new : table D.new = .init
  decode : ∀ b d hs d', D.decode b d = .ok hs d' →
    decodeOctets rfc7541 (table d) b = some (hs, table d')

/-- What RFC 7541 makes of the index of a static entry. -/
theorem decodeOctets_static : ∀ i : Fin 61,
    (decodeOctets rfc7541 .init [0x80 ||| UInt8.ofNat (i.val + 1)]).bind (fun r => r.1.head?) =
      appendixA[i.val]? := by
  decide +kernel

/-- Every static entry was decoded. -/
theorem HpackCrate.staticTable_getElem (D : HpackCrate) (i : Nat) (hi : i < D.staticTable.length) :
    ∃ hs d, D.decode [0x80 ||| UInt8.ofNat (i + 1)] D.new = .ok hs d ∧
      hs.head? = some D.staticTable[i] := by
  have hlt : i < 61 := by rwa [Table.staticTable_length] at hi
  obtain ⟨hs, hv, hh⟩ := Option.bind_eq_some_iff.1 (Option.some_get (D.indexed ⟨i, hlt⟩)).symm
  obtain ⟨d, hd⟩ := (Act.value?_eq_some_iff _ _ _).1 hv
  refine ⟨hs, d, hd, ?_⟩
  rw [hh]
  simp [HpackCrate.staticTable]

/-- The static table of a decoder of RFC 7541 is Appendix A. -/
theorem HpackCrate.Correct.static {D : HpackCrate} {table : D.Decoder → DynamicTable}
    (hD : D.Correct table) : D.staticTable = appendixA := by
  have hlen : D.staticTable.length = appendixA.length := Table.staticTable_length D
  refine List.ext_getElem hlen fun i hi hi' => ?_
  obtain ⟨hs, d, hd, hh⟩ := D.staticTable_getElem i hi
  have hdec := hD.decode _ _ _ _ hd
  have hrfc := decodeOctets_static ⟨i, hi'⟩
  rw [hD.new] at hdec
  rw [hdec, List.getElem?_eq_getElem hi'] at hrfc
  exact Option.some.inj (hh.symm.trans hrfc)

/-! ## The sender's table -/

section
variable {D : HpackCrate} {U : UrlCrate} {block : Bytes} {m : Mapping U} {response : Bool}
  {limit : Nat} {table : D.Decoder → DynamicTable}

/-- The sender's decoder takes the representation as the inbound one did. -/
theorem Step.sender {l l' : Locals} {st st' : HeaderRewriter D} {v : Visit} (hD : D.Correct table)
    (h : Step block m response limit l st v l' st') :
    v.rep.apply rfc7541 (table st.inbound) = some (v.sent, table st'.inbound) := by
  have hv := h.wellFormed.valid
  rw [← decodeOctets_rep rfc7541 _ _ hv]
  cases v with
  | update head n =>
    obtain ⟨hs, hd⟩ := UpdateStep.decoded h
    have hdec := hD.decode _ _ _ _ hd
    -- a size update yields no header, whatever the crate's list was called
    have happ : decodeOctets rfc7541 (table st.inbound) head =
        some ([], (table st.inbound).resize n) :=
      decodeOctets_rep rfc7541 (table st.inbound) (.sizeUpdate head n) hv
    have hnil : hs = [] := by
      rw [hdec] at happ
      exact congrArg Prod.fst (Option.some.inj happ)
    subst hnil
    exact hdec
  | field r hd mapped => exact hD.decode _ _ _ _ (FieldStep.decoded h)

/-! ## The receiver's table -/

/-- A name written by index or in full resolves to the name. -/
theorem resolve_nameOrIndex {D : HpackCrate} (hs : D.staticTable = appendixA) (t : Table D)
    (T : DynamicTable) (ha : Agrees t T) (preferred : Nat) (name : Bytes) :
    (nameOrIndex (t.find preferred name none) name).resolve rfc7541 T = some name := by
  unfold nameOrIndex
  split
  · exact litString_text name false
  · next hne =>
    obtain ⟨g, hg, hh⟩ := t.find_get preferred name none hne
    show (lookup rfc7541 T _).map Prod.fst = _
    rw [← Table.get_eq_lookup hs t T ha, hg, Option.map_some, (Table.hit_none name g).1 hh]

/-- An index found for a name and a value looks up that header. -/
theorem lookup_find {D : HpackCrate} (hs : D.staticTable = appendixA) (t : Table D)
    (T : DynamicTable) (ha : Agrees t T) (preferred : Nat) (name value : Bytes)
    (hne : t.find preferred name (some value) ≠ 0) :
    lookup rfc7541 T (t.find preferred name (some value)) = some (name, value) := by
  obtain ⟨g, hg, hh⟩ := t.find_get preferred name (some value) hne
  rw [← Table.get_eq_lookup hs t T ha, hg, (Table.hit_some name value g).1 hh]

/-- The value written is the mapped one, copied or encoded again. -/
theorem text_written (v : StringLit) (value mapped : Bytes) (hv : v.text rfc7541 = some value) :
    (if mapped = value then v else litString mapped v.huffman).text rfc7541 = some mapped := by
  split
  · next he => rw [hv, he]
  · exact litString_text mapped v.huffman

/-- **What is written means the mapped header.**  `S` is the sender's table, from
which `r` yields `h`; `T` is the receiver's. -/
theorem written_apply {D : HpackCrate} (hs : D.staticTable = appendixA) (t : Table D)
    (S S' T : DynamicTable) (ha : Agrees t T) (r : Rep) (h : Header)
    (mapped : Bytes) (hw : r.WellFormed) (hr : r.apply rfc7541 S = some ([h], S')) :
    (written t r h mapped).apply rfc7541 T =
      some ([(h.1, mapped)], if isIncrementalRep r then T.insert (h.1, mapped) else T) := by
  cases r with
  | sizeUpdate head n => simp [Rep.apply] at hr
  | indexed head i =>
    have hi : i ≠ 0 := by
      rintro rfl
      simp [Rep.apply, lookup] at hr
    unfold written
    simp only
    split
    · next he =>
      have := lookup_find hs t T ha i h.1 mapped (by rw [he]; exact hi)
      rw [he] at this
      simp [Rep.apply, this, isIncrementalRep]
    · split
      · next hne =>
        simp [Rep.apply, lookup_find hs t T ha i h.1 mapped hne, isIncrementalRep]
      · have hn := resolve_nameOrIndex hs t T ha 0 h.1
        have hm : (litString mapped false).text rfc7541 = some mapped := litString_text mapped false
        simp [Rep.apply, hn, hm, isIncrementalRep]
  | literal mode head nm v =>
    obtain ⟨i, -, hf, -⟩ := hw
    -- what the sender's table gave for the name and the value
    obtain ⟨g, hn, hv, he, -⟩ := Rep.apply_literal _ _ _ _ _ _ _ _ hr
    obtain rfl : h = g := List.singleton_inj.1 he
    have hval := text_written v h.2 mapped hv
    have hinc : (if mode = .incremental then T.insert (h.1, mapped) else T) =
        if isIncrementalRep (.literal mode head nm v) then T.insert (h.1, mapped) else T := by
      cases mode <;> rfl
    rw [← hinc]
    unfold written
    cases nm with
    | text s =>
      have hs : (NameRef.text s).resolve rfc7541 T = some h.1 := hn
      simp only [Rep.apply, hs, hval]
    | index j =>
      have hj : j ≠ 0 := by rw [hf.1]; exact hf.2
      simp only
      split
      · next he =>
        have hs : (NameRef.index j).resolve rfc7541 T = some h.1 := by
          have := resolve_nameOrIndex hs t T ha j h.1
          rwa [he, nameOrIndex, if_neg hj] at this
        simp only [Rep.apply, hs, hval]
      · simp only [Rep.apply, resolve_nameOrIndex hs t T ha j h.1, hval]

/-- The receiver decodes what was written to the mapped header, and keeps up with `outbound`. -/
theorem Step.receiver {l l' : Locals} {st st' : HeaderRewriter D} {v : Visit} {T : DynamicTable}
    (hD : D.Correct table) (h : Step block m response limit l st v l' st')
    (ha : Agrees st.outbound T) :
    ∃ T', (v.out st.outbound).apply rfc7541 T = some (v.received, T') ∧ Agrees st'.outbound T' := by
  have hsent := h.sender hD
  cases v with
  | update head n =>
    obtain ⟨t', h1, h2⟩ := st.outbound.resize_eq T ha n
    rw [UpdateStep.outbound h] at h1
    cases h1
    exact ⟨T.resize n, rfl, h2⟩
  | field r hd mapped =>
    refine ⟨_, written_apply hD.static st.outbound _ _ T ha r hd mapped (FieldStep.wellFormed h)
      hsent, ?_⟩
    have ho := FieldStep.outbound h
    split at ho
    · next hi =>
      obtain ⟨t', h1, h2⟩ := st.outbound.insert_eq T ha (hd.1, mapped)
      rw [ho] at h1
      cases h1
      rw [if_pos hi]
      exact h2
    · next hi =>
      rw [if_neg hi, ← Except.ok.inj ho]
      exact ha

/-! ## A block -/

theorem decodeReps_cons (K : Codebook) (t t1 t' : DynamicTable) (r : Rep) (rs : List Rep)
    (hs hs' : List Header) (h1 : r.apply K t = some (hs, t1))
    (h2 : decodeReps K t1 rs = some (hs', t')) :
    decodeReps K t (r :: rs) = some (hs ++ hs', t') := by
  rw [decodeReps, h1]
  simp only
  rw [h2]
  rfl

theorem Trace.sender {l l' : Locals} {st st' : HeaderRewriter D} {vs : List Visit} {ws : List Rep}
    (hD : D.Correct table) (h : Trace block m response limit l st vs ws l' st') :
    decodeReps rfc7541 (table st.inbound) (vs.map Visit.rep) =
      some (vs.flatMap Visit.sent, table st'.inbound) := by
  induction h with
  | nil l st => rfl
  | cons hs _ ih => exact decodeReps_cons _ _ _ _ _ _ _ _ (hs.sender hD) ih

theorem Trace.receiver {l l' : Locals} {st st' : HeaderRewriter D} {vs : List Visit} {ws : List Rep}
    (hD : D.Correct table) (h : Trace block m response limit l st vs ws l' st') :
    ∀ T, Agrees st.outbound T → ∃ T', decodeReps rfc7541 T ws =
      some (vs.flatMap Visit.received, T') ∧ Agrees st'.outbound T' := by
  induction h with
  | nil l st => exact fun T ha => ⟨T, rfl, ha⟩
  | cons hs _ ih =>
    intro T ha
    obtain ⟨T1, h1, ha1⟩ := hs.receiver hD ha
    obtain ⟨T', h2, ha'⟩ := ih T1 ha1
    exact ⟨T', decodeReps_cons _ _ _ _ _ _ _ _ h1 h2, ha'⟩

/-- Size updates come first and are bounded, in what was read and in what was written. -/
theorem Trace.updatesOk {l l' : Locals} {st st' : HeaderRewriter D} {vs : List Visit}
    {ws : List Rep} (h : Trace block m response limit l st vs ws l' st') :
    Hpack.updatesOk (min limit 65536) l.fields (vs.map Visit.rep) = true ∧
      Hpack.updatesOk (min limit 65536) l.fields ws = true := by
  induction h with
  | nil l st => exact ⟨rfl, rfl⟩
  | @cons l l1 l' st st1 st' v vs ws hs _ ih =>
    cases v with
    | update head n =>
      have hf : l1.fields = l.fields := by rw [UpdateStep.locals hs]
      rw [hf] at ih
      simp only [List.map_cons, Visit.rep, Visit.out, Hpack.updatesOk, UpdateStep.early hs,
        decide_eq_true (UpdateStep.bound hs), Bool.not_false, Bool.and_self, Bool.true_and]
      rwa [UpdateStep.early hs] at ih
    | field r hd mapped =>
      have hf : l1.fields = true := by rw [FieldStep.locals hs]; rfl
      rw [hf] at ih
      have hu := FieldStep.notUpdate hs
      cases r with
      | sizeUpdate head n => cases hu
      | indexed head i =>
        refine ⟨ih.1, ?_⟩
        simp only [Visit.out, written]
        split
        · exact ih.2
        · split
          · exact ih.2
          · exact ih.2
      | literal mode head nm v =>
        refine ⟨ih.1, ?_⟩
        cases nm with
        | text s => exact ih.2
        | index i =>
          simp only [Visit.out, written]
          split
          · exact ih.2
          · exact ih.2

theorem updatesOk_mono (limit limit' : Nat) (hl : limit ≤ limit') (rs : List Rep) :
    ∀ fields, Hpack.updatesOk limit fields rs = true → Hpack.updatesOk limit' fields rs = true := by
  induction rs with
  | nil => exact fun _ _ => rfl
  | cons r rs ih =>
    intro fields h
    cases r with
    | indexed head i => exact ih _ h
    | literal mode head nm v => exact ih _ h
    | sizeUpdate head n =>
      simp only [Hpack.updatesOk, Bool.and_eq_true, decide_eq_true_eq] at h ⊢
      exact ⟨⟨h.1.1, by omega⟩, ih _ h.2⟩

/-- `h'` is `h` with its value mapped. -/
def IsMapped (m : Mapping U) (response : Bool) (h h' : Header) : Prop :=
  h'.1 = h.1 ∧ m.value h.1 h.2 response = .ok h'.2

theorem Trace.mapped {l l' : Locals} {st st' : HeaderRewriter D} {vs : List Visit} {ws : List Rep}
    (h : Trace block m response limit l st vs ws l' st') :
    List.Forall₂ (IsMapped m response) (vs.flatMap Visit.sent) (vs.flatMap Visit.received) := by
  induction h with
  | nil l st => exact List.Forall₂.nil
  | @cons l l1 l' st st1 st' v vs ws hs _ ih =>
    cases v with
    | update head n => exact ih
    | field r hd mapped => exact List.Forall₂.cons ⟨rfl, FieldStep.mapped_eq hs⟩ ih

/-- **One block.**  Sender and receiver decode it, within the limit, to the same
headers with mapped values, and `outbound` follows the receiver's table. -/
theorem rewrite_transparent (hD : D.Correct table) (st st' : HeaderRewriter D) (out : Bytes)
    (T : DynamicTable) (ha : Agrees st.outbound T)
    (h : rewrite block m response limit st = .ok out st') :
    ∃ hs hs' T', decodeBlock rfc7541 limit (table st.inbound) block = some (hs, table st'.inbound) ∧
      decodeBlock rfc7541 limit T out = some (hs', T') ∧
      List.Forall₂ (IsMapped m response) hs hs' ∧ Agrees st'.outbound T' := by
  obtain ⟨vs, ws, l', ht, hblock, hout, -⟩ := rewrite_ok _ _ _ h
  obtain ⟨hu1, hu2⟩ := ht.updatesOk
  obtain ⟨hv1, hv2⟩ := ht.wellFormed
  obtain ⟨T', h2, ha'⟩ := ht.receiver hD T ha
  have hlim := Nat.min_le_left limit 65536
  refine ⟨_, _, T', ?_, ?_, ht.mapped, ha'⟩
  · rw [hblock, decodeBlock_octets _ _ _ _ hv1 (updatesOk_mono _ _ hlim _ _ hu1)]
    exact ht.sender hD
  · rw [hout, decodeBlock_octets _ _ _ _ hv2 (updatesOk_mono _ _ hlim _ _ hu2)]
    exact h2

end

/-! ## A sequence of blocks -/

/-- A successful call of `rewrite`: its block and limit, what it returned, and
`outbound` after it. -/
structure Call (D : HpackCrate) where
  block : Bytes
  limit : Nat
  out : Bytes
  outbound : Table D
deriving DecidableEq, Repr

/-- Calls of one rewriter, one after the other, as long as they succeed. -/
def rewriteAll {D : HpackCrate} {U : UrlCrate} (m : Mapping U) (response : Bool) :
    List (Bytes × Nat) → Act (HeaderRewriter D) (List (Call D))
  | [] => pure []
  | (block, limit) :: blocks => do
    let out ← rewrite block m response limit
    let t ← getOutbound
    let cs ← rewriteAll m response blocks
    return ⟨block, limit, out, t⟩ :: cs

theorem rewriteAll_cons_ok {D : HpackCrate} {U : UrlCrate} (m : Mapping U) (response : Bool)
    (block : Bytes) (limit : Nat) (blocks : List (Bytes × Nat)) (st st' : HeaderRewriter D)
    (cs : List (Call D)) (h : rewriteAll m response ((block, limit) :: blocks) st = .ok cs st') :
    ∃ out st1 cs', rewrite block m response limit st = .ok out st1 ∧
      rewriteAll m response blocks st1 = .ok cs' st' ∧
      cs = ⟨block, limit, out, st1.outbound⟩ :: cs' := by
  unfold rewriteAll at h
  simp only [Act.bind_ok_iff] at h
  obtain ⟨out, st1, h1, t, st2, h2, cs', st3, h3, h4⟩ := h
  obtain ⟨rfl, rfl⟩ := getOutbound_ok _ _ _ h2
  obtain ⟨rfl, rfl⟩ := (Act.pure_ok_iff _ _ _ _).1 h4
  exact ⟨out, st1, cs', h1, h3, rfl⟩

/-- With the sender's table `S` and the receiver's `R` before the calls: block by
block both decode, the headers are the mapped ones, and `outbound` is the
receiver's table. -/
def Transparent {D : HpackCrate} {U : UrlCrate} (m : Mapping U) (response : Bool) :
    (S R : DynamicTable) → List (Call D) → Prop
  | _, _, [] => True
  | S, R, c :: cs => ∃ hs hs' S' R', decodeBlock rfc7541 c.limit S c.block = some (hs, S') ∧
      decodeBlock rfc7541 c.limit R c.out = some (hs', R') ∧
      List.Forall₂ (IsMapped m response) hs hs' ∧ Agrees c.outbound R' ∧
      Transparent m response S' R' cs

section
variable {D : HpackCrate} {U : UrlCrate} {m : Mapping U} {response : Bool}
  {table : D.Decoder → DynamicTable}

theorem rewriteAll_transparent (hD : D.Correct table) (blocks : List (Bytes × Nat)) :
    ∀ (st st' : HeaderRewriter D) (cs : List (Call D)) (R : DynamicTable),
      Agrees st.outbound R → rewriteAll m response blocks st = .ok cs st' →
      Transparent m response (table st.inbound) R cs := by
  induction blocks with
  | nil =>
    intro st st' cs R _ h
    obtain ⟨rfl, rfl⟩ := (Act.pure_ok_iff _ _ _ _).1 h
    trivial
  | cons b blocks ih =>
    intro st st' cs R ha h
    obtain ⟨block, limit⟩ := b
    obtain ⟨out, st1, cs', hc, hrest, rfl⟩ := rewriteAll_cons_ok _ _ _ _ _ _ _ _ h
    obtain ⟨hs, hs', R', h1, h2, h3, h4⟩ := rewrite_transparent hD _ _ _ R ha hc
    exact ⟨hs, hs', _, R', h1, h2, h3, h4, ih st1 st' cs' R' h4 hrest⟩

end

/-! ## The sample decoder -/

theorem boundedCrate_correct : boundedCrate.Correct id := by
  refine ⟨rfl, fun b d hs d' h => ?_⟩
  change boundedDecode b d = .ok hs d' at h
  unfold boundedDecode at h
  unfold decodeOctets
  split at h
  · cases h
  · next rs hrs =>
    rw [hrs]
    split at h
    · cases h
    · split at h
      · next hs1 t1 hdec =>
        cases h
        exact hdec
      · cases h

/-- `GET https://b.test:8443/`, the authority entering the dynamic table. -/
def sampleRequest : Bytes := [0x82, 0x87, 0x84, 0x41, 0x0b] ++ ascii "b.test:8443"

/-- The same request again, the authority now by its index. -/
def sampleRepeat : Bytes := [0x82, 0x87, 0x84, 0xbe]

/-- What `rewrite` makes of `sampleRequest` under `sampleMapping`. -/
def sampleForwarded : Bytes := [0x82, 0x87, 0x84, 0x41, 0x0b] ++ ascii "a.test:9443"

/-- The outbound table after it. -/
def sampleTable : Table boundedCrate :=
  { entries := [(ascii ":authority", ascii "a.test:9443")], size := 53, limit := 4096 }

def sampleCalls : List (Call boundedCrate) :=
  [⟨sampleRequest, 4096, sampleForwarded, sampleTable⟩, ⟨sampleRepeat, 4096, sampleRepeat, sampleTable⟩]

theorem rewriteAll_sample : ∃ st, rewriteAll sampleMapping false
    [(sampleRequest, 4096), (sampleRepeat, 4096)] (HeaderRewriter.new boundedCrate) =
      .ok sampleCalls st :=
  (Act.value?_eq_some_iff _ _ _).1 (by decide +kernel)

/-! ## The theorem -/

/-- **HPACK transparency**, from a fresh rewriter and two fresh decoders. -/
theorem rewriter_transparent (D : HpackCrate) (table : D.Decoder → DynamicTable)
    (hD : D.Correct table) (U : UrlCrate) (m : Mapping U) (response : Bool)
    (blocks : List (Bytes × Nat)) (cs : List (Call D)) (st : HeaderRewriter D)
    (h : rewriteAll m response blocks (HeaderRewriter.new D) = .ok cs st) :
    Transparent m response .init .init cs := by
  have := rewriteAll_transparent hD blocks _ _ _ .init agrees_new h
  rwa [show table (HeaderRewriter.new D).inbound = .init from hD.new] at this

theorem rewriter_transparent_sample : Transparent sampleMapping false .init .init sampleCalls :=
  let ⟨st, h⟩ := rewriteAll_sample
  rewriter_transparent boundedCrate id boundedCrate_correct _ _ _ _ _ st h

end HpackWire
