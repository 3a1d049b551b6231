import FingerprintBridge.Lib.Lists
import FingerprintBridge.Wire.Transparency

/-!
# Fingerprint preservation

As long as no header enters the dynamic table with a value of another length,
the two tables evict the same slots, and slot by slot the receiver's header is
the sender's with its value mapped (`Lockstep`).  Then every index the sender
uses is good for the receiver, and each representation is written in the
sender's own form (`SameForm`).
-/

namespace HpackWire

open Hpack

/-! ## Static entries -/

section
variable {U : UrlCrate} (m : Mapping U)

/-- The static entries whose names matter have no value. -/
theorem staticTable_relevant : ∀ h ∈ appendixA, ∀ response,
    Mapping.relevant (asciiLower h.1) response = true → h.2 = [] := by
  decide +kernel

/-- **The mapping leaves a static entry alone**, when it accepts it. -/
theorem staticTable_mapped (h : Header) (hh : h ∈ appendixA) (response : Bool) (v : Bytes)
    (hv : m.value h.1 h.2 response = .ok v) : v = h.2 := by
  cases hr : Mapping.relevant (asciiLower h.1) response with
  | false =>
    rw [m.value_irrelevant _ _ response hr] at hv
    cases hv
    rfl
  | true =>
    have he := staticTable_relevant h hh response hr
    rw [he] at hv ⊢
    exact m.value_nil _ _ response hv

end

/-! ## Corresponding tables -/

/-- `h'` is `h` with its value mapped, and as long as it. -/
def IsMappedSame {U : UrlCrate} (m : Mapping U) (response : Bool) (h h' : Header) : Prop :=
  IsMapped m response h h' ∧ h'.2.length = h.2.length

/-- Slot by slot the receiver's table is the sender's with mapped values. -/
structure Lockstep {U : UrlCrate} (m : Mapping U) (response : Bool) (S T : DynamicTable) :
    Prop where
  entries : List.Forall₂ (IsMappedSame m response) S.entries T.entries
  max : T.max = S.max

theorem lockstep_init {U : UrlCrate} (m : Mapping U) (response : Bool) :
    Lockstep m response .init .init := ⟨List.Forall₂.nil, rfl⟩

/-- Headers of the same sizes are evicted alike. -/
theorem fit_forall₂ (R : Header → Header → Prop)
    (hsize : ∀ h h', R h h' → headerSize h' = headerSize h) (es fs : List Header)
    (h : List.Forall₂ R es fs) : ∀ n, List.Forall₂ R (fit n es) (fit n fs) := by
  induction h with
  | nil => exact fun n => List.Forall₂.nil
  | @cons e f es fs hef _ ih =>
    intro n
    unfold fit
    rw [hsize e f hef]
    by_cases hn : headerSize e ≤ n
    · rw [if_pos hn, if_pos hn]
      exact List.Forall₂.cons hef (ih _)
    · rw [if_neg hn, if_neg hn]
      exact List.Forall₂.nil

section
variable {U : UrlCrate} {m : Mapping U} {response : Bool}

theorem IsMappedSame.size (h h' : Header) (hm : IsMappedSame m response h h') :
    headerSize h' = headerSize h := by
  unfold headerSize
  rw [hm.1.1, hm.2]

theorem Lockstep.insert {S T : DynamicTable} (hl : Lockstep m response S T) (h h' : Header)
    (hm : IsMappedSame m response h h') : Lockstep m response (S.insert h) (T.insert h') := by
  refine ⟨?_, hl.max⟩
  show List.Forall₂ _ (fit S.max (h :: S.entries)) (fit T.max (h' :: T.entries))
  rw [hl.max]
  exact fit_forall₂ _ IsMappedSame.size _ _ (List.Forall₂.cons hm hl.entries) _

theorem Lockstep.resize {S T : DynamicTable} (hl : Lockstep m response S T) (n : Nat) :
    Lockstep m response (S.resize n) (T.resize n) :=
  ⟨fit_forall₂ _ IsMappedSame.size _ _ hl.entries _, rfl⟩

/-- What the sender looks up by an index the receiver looks up mapped. -/
theorem Lockstep.lookup {S T : DynamicTable} (hl : Lockstep m response S T) (i : Nat) (h : Header)
    (hi : lookup rfc7541 S i = some h) :
    ∃ h', lookup rfc7541 T i = some h' ∧ h'.1 = h.1 ∧
      ∀ v, m.value h.1 h.2 response = .ok v → h'.2 = v := by
  have hlen : appendixA.length = 61 := rfl
  unfold Hpack.lookup at hi ⊢
  change (if i = 0 then none else (appendixA ++ S.entries)[i - 1]?) = some h at hi
  show ∃ h', (if i = 0 then none else (appendixA ++ T.entries)[i - 1]?) = some h' ∧ _
  split at hi
  · cases hi
  · next h0 =>
    rw [if_neg h0]
    by_cases h61 : i ≤ 61
    · rw [List.getElem?_append_left (by omega)] at hi ⊢
      refine ⟨h, hi, rfl, fun v hv => ?_⟩
      exact (staticTable_mapped m h (List.mem_of_getElem? hi) response v hv).symm
    · rw [List.getElem?_append_right (by omega)] at hi ⊢
      obtain ⟨h', hf, hm⟩ := forall₂_getElem? hl.entries _ _ hi
      refine ⟨h', hf, hm.1.1, fun v hv => ?_⟩
      have := hm.1.2
      rw [hv] at this
      exact (Except.ok.inj this).symm

end

/-! ## The form of a representation -/

/-- `w` has the form of `r`, which yields the headers `hs`: the same kind, prefix
integer and literal name, the same Huffman flag on the value, and the same octets
for a value that is not changed. -/
def SameForm {U : UrlCrate} (m : Mapping U) (response : Bool) (hs : List Header) : (r w : Rep) → Prop
  | .indexed head i, .indexed head' i' => head' = head ∧ i' = i
  | .literal mode head name v, .literal mode' head' name' v' =>
    mode' = mode ∧ head' = head ∧ name' = name ∧ v'.huffman = v.huffman ∧
      ∀ h ∈ hs, m.value h.1 h.2 response = .ok h.2 → v' = v
  | .sizeUpdate head n, .sizeUpdate head' n' => head' = head ∧ n' = n
  | _, _ => False

section
variable {D : HpackCrate} {U : UrlCrate} {m : Mapping U} {response : Bool}
  (hs : D.staticTable = appendixA)
include hs

theorem find_lockstep (t : Table D) (S T : DynamicTable) (ha : Agrees t T)
    (hl : Lockstep m response S T) (i : Nat) (h : Header) (hi : lookup rfc7541 S i = some h) :
    t.find i h.1 none = i ∧
      ∀ mapped, m.value h.1 h.2 response = .ok mapped → t.find i h.1 (some mapped) = i := by
  obtain ⟨h', hh, hn, hv⟩ := hl.lookup i h hi
  rw [← Table.get_eq_lookup hs t T ha] at hh
  refine ⟨t.find_preferred i _ _ h' hh ((Table.hit_none _ _).2 hn), fun mapped hm => ?_⟩
  exact t.find_preferred i _ _ h' hh ((Table.hit_some _ _ _).2 (Prod.ext hn (hv mapped hm)))

/-- Between corresponding tables a representation keeps its index: only the value
of a literal may be written anew. -/
theorem written_lockstep (t : Table D) (S S' T : DynamicTable) (ha : Agrees t T)
    (hl : Lockstep m response S T) (r : Rep) (h : Header) (mapped : Bytes)
    (hr : r.apply rfc7541 S = some ([h], S')) (hm : m.value h.1 h.2 response = .ok mapped) :
    written t r h mapped = match r with
      | .indexed head i => .indexed head i
      | .sizeUpdate head n => .sizeUpdate head n
      | .literal mode head nm v =>
        .literal mode head nm (if mapped = h.2 then v else litString mapped v.huffman) := by
  cases r with
  | sizeUpdate head n => rfl
  | indexed head i =>
    obtain ⟨g, hi, hg, -⟩ := Rep.apply_indexed _ _ _ _ _ _ hr
    obtain rfl : h = g := List.singleton_inj.1 hg
    unfold written
    simp only
    rw [if_pos ((find_lockstep hs t S T ha hl i h hi).2 mapped hm)]
  | literal mode head nm v =>
    cases nm with
    | text s => rfl
    | index i =>
      -- the slot has the name of `h`, not always its value
      obtain ⟨e, hn, -, he, -⟩ := Rep.apply_literal _ _ _ _ _ _ _ _ hr
      obtain rfl : h = e := List.singleton_inj.1 he
      obtain ⟨g, hg, hgn⟩ := Option.map_eq_some_iff.1 hn
      have := (find_lockstep hs t S T ha hl i g hg).1
      rw [hgn] at this
      unfold written
      simp only
      rw [if_pos this]

theorem written_sameForm (t : Table D) (S S' T : DynamicTable) (ha : Agrees t T)
    (hl : Lockstep m response S T) (r : Rep) (h : Header) (mapped : Bytes)
    (hr : r.apply rfc7541 S = some ([h], S')) (hm : m.value h.1 h.2 response = .ok mapped) :
    SameForm m response [h] r (written t r h mapped) := by
  rw [written_lockstep hs t S S' T ha hl r h mapped hr hm]
  cases r with
  | sizeUpdate head n => exact ⟨rfl, rfl⟩
  | indexed head i => exact ⟨rfl, rfl⟩
  | literal mode head nm v =>
    refine ⟨rfl, rfl, rfl, ?_, fun h' hh hsame => ?_⟩
    · split
      · rfl
      · rfl
    · rw [List.mem_singleton.1 hh, hm] at hsame
      rw [if_pos (Except.ok.inj hsame)]

theorem written_unchanged (t : Table D) (S S' T : DynamicTable) (ha : Agrees t T)
    (hl : Lockstep m response S T) (r : Rep) (h : Header)
    (hr : r.apply rfc7541 S = some ([h], S')) (hm : m.value h.1 h.2 response = .ok h.2) :
    written t r h h.2 = r := by
  rw [written_lockstep hs t S S' T ha hl r h h.2 hr hm]
  cases r with
  | sizeUpdate head n => rfl
  | indexed head i => rfl
  | literal mode head nm v => simp only [if_true]

end

/-! ## Blocks as a decoder sees them -/

/-- The representations of a block, each with the headers it yields. -/
def annotate (K : Codebook) : DynamicTable → List Rep → List (Rep × List Header)
  | _, [] => []
  | t, r :: rs =>
    match r.apply K t with
    | none => []
    | some (hs, t') => (r, hs) :: annotate K t' rs

/-- The same for blocks one after the other. -/
def annotateBlocks (K : Codebook) : DynamicTable → List Bytes → List (List (Rep × List Header))
  | _, [] => []
  | t, b :: bs =>
    match Parser.all rep b with
    | none => []
    | some rs => annotate K t rs ::
      match decodeReps K t rs with
      | none => []
      | some (_, t') => annotateBlocks K t' bs

/-- A header that `x` inserts into the dynamic table is as long when mapped. -/
def KeepsLength {U : UrlCrate} (m : Mapping U) (response : Bool) (x : Rep × List Header) : Prop :=
  isIncrementalRep x.1 = true → ∀ h ∈ x.2, ∀ v, m.value h.1 h.2 response = .ok v →
    v.length = h.2.length

instance {U : UrlCrate} (m : Mapping U) (response : Bool) (x : Rep × List Header) :
    Decidable (KeepsLength m response x) :=
  decidable_of_iff (isIncrementalRep x.1 = true → ∀ h ∈ x.2,
      (match m.value h.1 h.2 response with
        | .ok v => decide (v.length = h.2.length)
        | .error _ => true) = true) <| by
    unfold KeepsLength
    refine forall_congr' fun _ => forall_congr' fun h => forall_congr' fun _ => ?_
    cases m.value h.1 h.2 response with
    | ok v => simp
    | error e => simp

/-- The mapping changes no header that `x` yields. -/
def KeepsValue {U : UrlCrate} (m : Mapping U) (response : Bool) (x : Rep × List Header) : Prop :=
  ∀ h ∈ x.2, m.value h.1 h.2 response = .ok h.2

theorem KeepsValue.keepsLength {U : UrlCrate} {m : Mapping U} {response : Bool}
    (x : Rep × List Header) (hx : KeepsValue m response x) : KeepsLength m response x := by
  intro _ h hh v hv
  rw [hx h hh] at hv
  rw [← Except.ok.inj hv]

section
variable {D : HpackCrate} {U : UrlCrate} {block : Bytes} {m : Mapping U} {response : Bool}
  {limit : Nat} {table : D.Decoder → DynamicTable}

/-! ## One representation -/

theorem Step.sameForm {l l' : Locals} {st st' : HeaderRewriter D} {v : Visit} {T : DynamicTable}
    (hD : D.Correct table) (h : Step block m response limit l st v l' st')
    (ha : Agrees st.outbound T) (hl : Lockstep m response (table st.inbound) T) :
    SameForm m response v.sent v.rep (v.out st.outbound) ∧
      (KeepsValue m response (v.rep, v.sent) → v.out st.outbound = v.rep) := by
  have hs := h.sender hD
  cases v with
  | update head n => exact ⟨⟨rfl, rfl⟩, fun _ => rfl⟩
  | field r hd mapped =>
    have hm := FieldStep.mapped_eq h
    refine ⟨written_sameForm hD.static _ _ _ T ha hl r hd mapped hs hm, fun hk => ?_⟩
    have hsame := hk hd (List.mem_singleton.2 rfl)
    have he : mapped = hd.2 := by
      rw [hm] at hsame
      exact Except.ok.inj hsame
    subst he
    exact written_unchanged hD.static _ _ _ T ha hl r hd hs hm

/-- The tables still correspond after it. -/
theorem Step.lockstep {l l' : Locals} {st st' : HeaderRewriter D} {v : Visit} {T : DynamicTable}
    (hD : D.Correct table) (h : Step block m response limit l st v l' st')
    (ha : Agrees st.outbound T) (hl : Lockstep m response (table st.inbound) T)
    (hk : KeepsLength m response (v.rep, v.sent)) :
    ∃ T', Agrees st'.outbound T' ∧ Lockstep m response (table st'.inbound) T' := by
  have hs := h.sender hD
  obtain ⟨T', hr, ha'⟩ := h.receiver hD ha
  refine ⟨T', ha', ?_⟩
  cases v with
  | update head n =>
    change some ([], (table st.inbound).resize n) = _ at hs
    change some ([], T.resize n) = _ at hr
    rw [← (Prod.mk.inj (Option.some.inj hs)).2, ← (Prod.mk.inj (Option.some.inj hr)).2]
    exact hl.resize n
  | field r hd mapped =>
    have hm := FieldStep.mapped_eq h
    have hrec := written_apply hD.static st.outbound _ _ T ha r hd mapped (FieldStep.wellFormed h) hs
    change (written st.outbound r hd mapped).apply rfc7541 T = _ at hr
    rw [hrec] at hr
    rw [← (Prod.mk.inj (Option.some.inj hr)).2]
    cases r with
    | sizeUpdate head n => cases FieldStep.notUpdate h
    | indexed head i =>
      obtain ⟨g, -, -, hS⟩ := Rep.apply_indexed _ _ _ _ _ _ hs
      rw [hS]
      exact hl
    | literal mode head nm v =>
      obtain ⟨g, -, -, he, hS⟩ := Rep.apply_literal _ _ _ _ _ _ _ _ hs
      obtain rfl : hd = g := List.singleton_inj.1 he
      rw [hS]
      cases mode with
      | incremental =>
        exact hl.insert hd (hd.1, mapped)
          ⟨⟨rfl, hm⟩, hk rfl hd (List.mem_singleton.2 rfl) mapped hm⟩
      | without => exact hl
      | never => exact hl

/-! ## A block -/

theorem Trace.annotate {l l' : Locals} {st st' : HeaderRewriter D} {vs : List Visit}
    {ws : List Rep} (hD : D.Correct table) (h : Trace block m response limit l st vs ws l' st') :
    HpackWire.annotate rfc7541 (table st.inbound) (vs.map Visit.rep) =
      vs.map fun v => (v.rep, v.sent) := by
  induction h with
  | nil l st => rfl
  | cons hs _ ih =>
    rw [List.map_cons, HpackWire.annotate, hs.sender hD]
    simp only
    rw [ih]
    rfl

theorem Trace.lockstep {l l' : Locals} {st st' : HeaderRewriter D} {vs : List Visit}
    {ws : List Rep} (hD : D.Correct table) (h : Trace block m response limit l st vs ws l' st') :
    (∀ v ∈ vs, KeepsLength m response (v.rep, v.sent)) → ∀ T, Agrees st.outbound T →
      Lockstep m response (table st.inbound) T →
      List.Forall₂ (fun v w => SameForm m response v.sent v.rep w ∧
        (KeepsValue m response (v.rep, v.sent) → w = v.rep)) vs ws ∧
      ∃ T', Agrees st'.outbound T' ∧ Lockstep m response (table st'.inbound) T' := by
  induction h with
  | nil l st => exact fun _ T ha hl => ⟨List.Forall₂.nil, T, ha, hl⟩
  | cons hs _ ih =>
    intro hk T ha hl
    obtain ⟨T1, ha1, hl1⟩ := hs.lockstep hD ha hl (hk _ List.mem_cons_self)
    obtain ⟨hf, hT⟩ := ih (fun v hv => hk v (List.mem_cons_of_mem _ hv)) T1 ha1 hl1
    exact ⟨List.Forall₂.cons (hs.sameForm hD ha hl) hf, hT⟩

/-- The representations `xs` of the block of a call, and those of what it returned. -/
def LikeBlock (m : Mapping U) (response : Bool) (xs : List (Rep × List Header)) (c : Call D) : Prop :=
  Parser.all rep c.block = some (xs.map Prod.fst) ∧
    ∃ ws, Parser.all rep c.out = some ws ∧
      List.Forall₂ (fun x w => SameForm m response x.2 x.1 w) xs ws

theorem rewrite_lockstep (hD : D.Correct table) (st st' : HeaderRewriter D) (out : Bytes)
    (T : DynamicTable) (ha : Agrees st.outbound T) (hl : Lockstep m response (table st.inbound) T)
    (h : rewrite block m response limit st = .ok out st') :
    ∃ rs hs, Parser.all rep block = some rs ∧
      decodeReps rfc7541 (table st.inbound) rs = some (hs, table st'.inbound) ∧
      ((∀ x ∈ annotate rfc7541 (table st.inbound) rs, KeepsLength m response x) →
        (LikeBlock m response (annotate rfc7541 (table st.inbound) rs)
            ⟨block, limit, out, st'.outbound⟩ ∧
          ∃ T', Agrees st'.outbound T' ∧ Lockstep m response (table st'.inbound) T') ∧
        ((∀ x ∈ annotate rfc7541 (table st.inbound) rs, KeepsValue m response x) → out = block)) := by
  obtain ⟨vs, ws, l', ht, hblock, hout, -⟩ := rewrite_ok _ _ _ h
  obtain ⟨hv1, hv2⟩ := ht.wellFormed
  have hall : Parser.all rep block = some (vs.map Visit.rep) := by
    rw [hblock]
    exact all_rep_octets _ hv1
  refine ⟨vs.map Visit.rep, vs.flatMap Visit.sent, hall, ht.sender hD, fun hk => ?_⟩
  rw [ht.annotate hD] at hk ⊢
  have hkv : ∀ v ∈ vs, KeepsLength m response (v.rep, v.sent) := fun v hv =>
    hk _ (List.mem_map_of_mem hv)
  obtain ⟨hf, hT⟩ := ht.lockstep hD hkv T ha hl
  refine ⟨⟨⟨?_, ws, ?_, ?_⟩, hT⟩, fun hsame => ?_⟩
  · rw [List.map_map]
    exact hall
  · show Parser.all rep out = _
    rw [hout]
    exact all_rep_octets _ hv2
  · exact List.forall₂_map_left_iff.2 (hf.imp fun v w hw => hw.1)
  · have he : ws = vs.map Visit.rep := by
      clear ht hblock hout hv1 hv2 hall hk hkv hT
      induction hf with
      | nil => rfl
      | @cons v w vs ws hvw _ ih =>
        rw [List.map_cons, hvw.2 (hsame _ (List.mem_map_of_mem List.mem_cons_self)),
          ih fun x hx => hsame x (by
            obtain ⟨u, hu, rfl⟩ := List.mem_map.1 hx
            exact List.mem_map_of_mem (List.mem_cons_of_mem _ hu))]
    rw [hout, he, hblock]

/-! ## A sequence of blocks -/

theorem rewriteAll_lockstep (hD : D.Correct table) (blocks : List (Bytes × Nat)) :
    ∀ (st st' : HeaderRewriter D) (cs : List (Call D)) (T : DynamicTable),
      Agrees st.outbound T → Lockstep m response (table st.inbound) T →
      rewriteAll m response blocks st = .ok cs st' →
      (∀ xs ∈ annotateBlocks rfc7541 (table st.inbound) (blocks.map Prod.fst),
        ∀ x ∈ xs, KeepsLength m response x) →
      List.Forall₂ (LikeBlock m response)
        (annotateBlocks rfc7541 (table st.inbound) (blocks.map Prod.fst)) cs ∧
      ((∀ xs ∈ annotateBlocks rfc7541 (table st.inbound) (blocks.map Prod.fst),
        ∀ x ∈ xs, KeepsValue m response x) → ∀ c ∈ cs, c.out = c.block) := by
  induction blocks with
  | nil =>
    intro st st' cs T _ _ h _
    obtain ⟨rfl, rfl⟩ := (Act.pure_ok_iff _ _ _ _).1 h
    exact ⟨List.Forall₂.nil, fun _ c hc => by cases hc⟩
  | cons b blocks ih =>
    intro st st' cs T ha hl h hk
    obtain ⟨block, limit⟩ := b
    obtain ⟨out, st1, cs', hc, hrest, rfl⟩ := rewriteAll_cons_ok _ _ _ _ _ _ _ _ h
    obtain ⟨rs, hs, hall, hdec, hstep⟩ := rewrite_lockstep hD st st1 out T ha hl hc
    have hblocks : annotateBlocks rfc7541 (table st.inbound) (((block, limit) :: blocks).map Prod.fst)
        = annotate rfc7541 (table st.inbound) rs ::
          annotateBlocks rfc7541 (table st1.inbound) (blocks.map Prod.fst) := by
      rw [List.map_cons, annotateBlocks, hall]
      simp only [hdec]
    rw [hblocks] at hk ⊢
    obtain ⟨⟨hlike, T1, ha1, hl1⟩, hsame⟩ := hstep (hk _ List.mem_cons_self)
    obtain ⟨hf, hu⟩ := ih st1 st' cs' T1 ha1 hl1 hrest fun xs hx => hk xs (List.mem_cons_of_mem _ hx)
    refine ⟨List.Forall₂.cons hlike hf, fun hkeep c hc => ?_⟩
    rcases List.mem_cons.1 hc with rfl | hc
    · exact hsame (hkeep _ List.mem_cons_self)
    · exact hu (fun xs hx => hkeep xs (List.mem_cons_of_mem _ hx)) c hc

end

/-- **Fingerprint preservation.**  When no inserted header changes length, block by
block each representation keeps its form; when nothing is mapped, each block is
returned as it is. -/
theorem rewriter_lockstep (D : HpackCrate) (table : D.Decoder → DynamicTable)
    (hD : D.Correct table) (U : UrlCrate) (m : Mapping U) (response : Bool)
    (blocks : List (Bytes × Nat)) (cs : List (Call D)) (st : HeaderRewriter D)
    (h : rewriteAll m response blocks (HeaderRewriter.new D) = .ok cs st) :
    ((∀ xs ∈ annotateBlocks rfc7541 .init (blocks.map Prod.fst), ∀ x ∈ xs,
        KeepsLength m response x) →
      List.Forall₂ (LikeBlock m response)
        (annotateBlocks rfc7541 .init (blocks.map Prod.fst)) cs) ∧
    ((∀ xs ∈ annotateBlocks rfc7541 .init (blocks.map Prod.fst), ∀ x ∈ xs,
        KeepsValue m response x) → ∀ c ∈ cs, c.out = c.block) := by
  have hnew : table (HeaderRewriter.new D).inbound = .init := hD.new
  have hl : Lockstep m response (table (HeaderRewriter.new D).inbound) .init :=
    hnew ▸ lockstep_init m response
  have hrun := rewriteAll_lockstep hD blocks _ _ _ .init agrees_new hl h
  rw [hnew] at hrun
  refine ⟨fun hk => (hrun hk).1, fun hkeep => ?_⟩
  exact (hrun fun xs hx x hxx => (hkeep xs hx x hxx).keepsLength).2 hkeep

theorem rewriter_lockstep_sample : List.Forall₂ (LikeBlock sampleMapping false)
    (annotateBlocks rfc7541 .init [sampleRequest, sampleRepeat]) sampleCalls :=
  let ⟨st, h⟩ := rewriteAll_sample
  (rewriter_lockstep boundedCrate id boundedCrate_correct _ _ _ _ _ st h).1 (by decide +kernel)

end HpackWire
