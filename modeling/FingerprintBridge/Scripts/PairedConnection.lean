import FingerprintBridge.H2.Forward
import FingerprintBridge.Scripts.PairedFrames
import FingerprintBridge.Scripts.PairedHeads
import FingerprintBridge.Scripts.PairedTokens

/-!
# The lab's check of HTTP/2

The frames that the bridge read and those that it wrote, brought into the lab's form.  Single frames
pass as they are; the lab does not notice what was done to a header group exactly if its frames
kept their lengths but for the last one, its representations what stands before the values, and its
headers were mapped as the lab maps them.
-/

namespace PairedHttp

open H2 (Frame Item IsGroup Parts Regrouped Forwarded Task Stream PeerLimits PREFACE)
open Hpack (Rep DynamicTable)
open HpackWire (HpackCrate HeaderRewriter Visit Agrees Trace FieldStep rfc7541)
open OrderPolicy (HpackModule)
open Tls (lowerHex_inj)

section
variable {U : UrlCrate} (m : Mapping U) {D : HpackCrate} {table : D.Decoder → DynamicTable}
  {H : HpackModule} {held : H.Decoder → DynamicTable}

/-! ## Headers -/

theorem headerForm_eq_iff {h : Header} {w : Bytes} (hname : asciiLower h.1 = h.1)
    (hm : m.value h.1 h.2 false = .ok w) :
    headerForm (utf8 m.publicAuthority) (utf8 m.upstream) h =
        headerForm (utf8 m.publicAuthority) (utf8 m.upstream) (h.1, w) ↔ HeaderAlike m h := by
  have hset := toUpstream_written m hname hm
  unfold headerForm HeaderAlike
  rw [Prod.mk.injEq, and_iff_right rfl, lowerHex_inj.eq_iff, hm]
  show toUpstream m h.1 h.2 = toUpstream m h.1 w ↔ _
  rw [hset]
  exact ⟨fun heq => congrArg Except.ok heq.symm, fun heq => (Except.ok.inj heq).symm⟩

variable {m} in
theorem trace_headers {block : Bytes} {limit : Nat} {l l' : HpackWire.Locals}
    {st st' : HeaderRewriter D} {vs : List Visit} {ws : List Rep}
    (ht : Trace block m false limit l st vs ws l' st') :
    (vs.flatMap Visit.sent).map (headerForm (utf8 m.publicAuthority) (utf8 m.upstream)) =
        (vs.flatMap Visit.received).map (headerForm (utf8 m.publicAuthority) (utf8 m.upstream)) ↔
      ∀ h ∈ vs.flatMap Visit.sent, HeaderAlike m h := by
  induction ht with
  | nil l st => exact iff_of_true rfl (by simp)
  | @cons l l1 l' st st1 st' v vs ws hstep _ ih =>
    rw [List.flatMap_cons, List.flatMap_cons]
    cases v with
    | update head n => exact ih
    | field r g w =>
      have hform := headerForm_eq_iff m (asciiLower_name (FieldStep.checked hstep))
        (FieldStep.mapped_eq hstep)
      show (g :: vs.flatMap Visit.sent).map _ = ((g.1, w) :: vs.flatMap Visit.received).map _ ↔
        ∀ h ∈ g :: vs.flatMap Visit.sent, HeaderAlike m h
      rw [List.map_cons, List.map_cons, List.cons_eq_cons, hform, ih, List.forall_mem_cons]

/-! ## Header groups -/

/-- A header group as it was read and as it was written, with the representations of the two blocks
and the headers of the first. -/
structure Exchanged where
  original : List Frame
  forwarded : List Frame
  read : List Rep
  written : List Rep
  headers : List Header

/-- What the lab takes for the same. -/
structure Exchanged.Unnoticed (x : Exchanged) : Prop where
  layout : SameLayout x.original x.forwarded
  fronts : List.Forall₂ SameFront x.read x.written
  headers : ∀ h ∈ x.headers, HeaderAlike m h

/-- The block that a group carries. -/
def IsBlock (group : List Frame) (block : Bytes) : Prop :=
  ∃ first rest front padding fragment, group = first :: rest ∧ Parts first front padding fragment ∧
    block = fragment ++ rest.flatMap Frame.payload

/-- With the sender's table `S` and the receiver's `R` before the group, `S'` and `R'` after it. -/
structure Exchanged.Decoded (S R : DynamicTable) (x : Exchanged) (S' R' : DynamicTable) : Prop where
  read : ∃ block, IsBlock x.original block ∧ Parser.all Hpack.rep block = some x.read ∧
    Hpack.decodeReps rfc7541 S x.read = some (x.headers, S')
  written : ∃ block headers, IsBlock x.forwarded block ∧
    Parser.all Hpack.rep block = some x.written ∧
    Hpack.decodeReps rfc7541 R x.written = some (headers, R')

/-- The groups among what was read and what was written for it. -/
inductive Exchange : (S R : DynamicTable) → List Item → List (List Frame) → List Exchanged →
    Prop where
  | nil (S R : DynamicTable) : Exchange S R [] [] []
  | single {S R : DynamicTable} (frame : Frame) {xs : List Item} {outs : List (List Frame)}
      {gs : List Exchanged} : frame.kind ≠ 1 → frame.kind ≠ 9 →
      Exchange S R xs outs gs → Exchange S R (.single frame :: xs) ([frame] :: outs) gs
  | group {S R S' R' : DynamicTable} (x : Exchanged) {first : Frame} {rest : List Frame}
      {xs : List Item} {outs : List (List Frame)} {gs : List Exchanged} :
      x.original = first :: rest → x.Decoded S R S' R' → Exchange S' R' xs outs gs →
      Exchange S R (.group first rest :: xs) (x.forwarded :: outs) (x :: gs)

/-- The lab is between groups, and its decoder holds the table `S`. -/
structure Between (held : H.Decoder → DynamicTable) (c : Capture H) (S : DynamicTable) : Prop where
  decoder : held c.decoder = S
  blocks : c.blocks = []
  layouts : c.layouts = []

/-- The lab notes `q` of a group, and the table is `S` then. -/
structure Noted (held : H.Decoder → DynamicTable) (c d : Capture H) (q : RequestForm)
    (S : DynamicTable) : Prop where
  between : Between held d S
  controls : d.controls = c.controls
  requests : d.requests = c.requests ++ [q]

theorem lengths_block {first : Frame} {rest : List Frame} {front padding fragment : Bytes}
    (h : Parts first front padding fragment) :
    lengthsOf (first :: rest) =
      front.length + padding.length + (fragment ++ rest.flatMap Frame.payload).length := by
  unfold lengthsOf
  rw [List.map_cons, List.sum_cons, h.payload, List.length_append, List.length_append,
    List.length_append, List.length_flatMap]
  omega

/-- What the lab notes of a group that decodes. -/
theorem group_noted (hH : H.Conforms held) (publicAuthority upstream : Bytes) {c d : Capture H}
    {S S' : DynamicTable} {first : Frame} {rest : List Frame} {front padding fragment : Bytes}
    {rs : List Rep} {hs : List Header} (hc : Between held c S) (hg : IsGroup first rest)
    (hp : Parts first front padding fragment)
    (hread : Parser.all Hpack.rep (fragment ++ rest.flatMap Frame.payload) = some rs)
    (hdec : Hpack.decodeReps rfc7541 S rs = some (hs, S'))
    (h : (first :: rest).foldlM (frameStep publicAuthority upstream) c = .ok d) :
    ∃ ts, representations publicAuthority upstream (fragment ++ rest.flatMap Frame.payload) hs =
        .ok ts ∧
      Noted held c d (formOf publicAuthority upstream first.stream hs ts
        (layoutsOf front padding (first :: rest))
        (fragment ++ rest.flatMap Frame.payload).length) S' := by
  rw [fold_group publicAuthority upstream c hg hp hc.blocks hc.layouts] at h
  obtain ⟨headers, decoder, ts, hheaders, htokens, rfl⟩ :=
    request_ok publicAuthority upstream c d _ _ _ hc.blocks hc.layouts h
  have hconforms := hH.decode _ _ _ _ hheaders
  rw [hc.decoder, Hpack.decodeOctets, hread, Option.bind_some, hdec] at hconforms
  obtain ⟨rfl, rfl⟩ := Prod.mk.inj (Option.some.inj hconforms)
  exact ⟨ts, htokens, ⟨rfl, hc.blocks, hc.layouts⟩, rfl, rfl⟩

variable {m} in
/-- One group: the lab's notes are the same exactly if it was forwarded unnoticed. -/
theorem group_seen (hD : D.Correct table) (hH : H.Conforms held) {limits : PeerLimits}
    {st st' : HeaderRewriter D} {R : DynamicTable} (ha : Agrees st.outbound R) {first first' : Frame}
    {rest rest' : List Frame} (h : Regrouped m false limits st first rest first' rest' st') :
    ∃ (x : Exchanged) (R' : DynamicTable), x.original = first :: rest ∧ x.forwarded = first' :: rest' ∧
      x.Decoded (table st.inbound) R (table st'.inbound) R' ∧ Agrees st'.outbound R' ∧
      ∀ c c' d d' : Capture H, Between held c (table st.inbound) → Between held c' R →
        (first :: rest).foldlM (frameStep (utf8 m.publicAuthority) (utf8 m.upstream)) c = .ok d →
        (first' :: rest').foldlM (frameStep (utf8 m.publicAuthority) (utf8 m.upstream)) c' = .ok d' →
        ∃ q q', Noted held c d q (table st'.inbound) ∧ Noted held c' d' q' R' ∧
          (q = q' ↔ x.Unnoticed m) := by
  obtain ⟨front, padding, fragment, fragment', hp, hp', hrewrite⟩ := h.block
  obtain ⟨R', vs, ws, l', ht⟩ := rewrite_traced hD st st' _ R ha hrewrite
  have hsender := ht.trace.sender hD
  refine ⟨⟨first :: rest, first' :: rest', vs.map Visit.rep, ws, vs.flatMap Visit.sent⟩, R', rfl, rfl,
    ⟨⟨_, ⟨first, rest, front, padding, fragment, rfl, hp, rfl⟩, ht.read, hsender⟩,
      ⟨_, _, ⟨first', rest', front, padding, fragment', rfl, hp', rfl⟩, ht.written, ht.received⟩⟩,
    ht.agrees, fun c c' d d' hc hc' hfold hfold' => ?_⟩
  obtain ⟨ts, htokens, hnoted⟩ := group_noted hH _ _ hc h.read hp ht.read hsender hfold
  obtain ⟨ts', htokens', hnoted'⟩ := group_noted hH _ _ hc' h.wrote hp' ht.written ht.received hfold'
  refine ⟨_, _, hnoted, hnoted', ?_⟩
  have htoken := ht.found ts ts' htokens htokens'
  have hheader := trace_headers ht.trace
  have hlayout := group_layout front padding first first' rest rest'
    (fragment ++ rest.flatMap Frame.payload).length
    (fragment' ++ rest'.flatMap Frame.payload).length (hp'.kind.trans hp.kind.symm)
    (fun f hf => (h.read.continuation f hf).1) (fun f hf => (h.wrote.continuation f hf).1)
    (by rw [lengths_block hp, lengths_block hp']; omega)
  rw [formOf, formOf, RequestForm.mk.injEq, hheader, htoken, hlayout]
  constructor
  · rintro ⟨-, hheaders, ⟨hfronts, -⟩, hsame⟩
    exact ⟨hsame, hfronts, hheaders⟩
  · rintro ⟨hsame, hfronts, hheaders⟩
    refine ⟨h.stream.symm, hheaders, ⟨hfronts, fun v hv _ g hg => ?_⟩, hsame⟩
    exact hheaders g (List.mem_flatMap.2 ⟨v, hv, hg⟩)

/-! ## A whole stream -/

variable {m} in
theorem forwarded_seen (hD : D.Correct table) (hH : H.Conforms held) (loads : Nat → PeerLimits)
    (xs : List Item) : ∀ (i : Nat) (st : HeaderRewriter D) (outs : List (List Frame))
      (R : DynamicTable), Agrees st.outbound R → Forwarded m false loads i st xs outs →
      ∃ gs, Exchange (table st.inbound) R xs outs gs ∧
        ∀ c c' d d' : Capture H, Between held c (table st.inbound) → Between held c' R →
          (xs.flatMap Item.frames).foldlM
            (frameStep (utf8 m.publicAuthority) (utf8 m.upstream)) c = .ok d →
          outs.flatten.foldlM (frameStep (utf8 m.publicAuthority) (utf8 m.upstream)) c' = .ok d' →
          ∃ ks qs qs', d.controls = c.controls ++ ks ∧ d'.controls = c'.controls ++ ks ∧
            d.requests = c.requests ++ qs ∧ d'.requests = c'.requests ++ qs' ∧
            (qs = qs' ↔ ∀ x ∈ gs, x.Unnoticed m) := by
  induction xs with
  | nil =>
    intro i st outs R _ h
    cases outs with
    | cons out outs => exact h.elim
    | nil =>
      refine ⟨[], .nil _ _, fun c c' d d' _ _ hfold hfold' => ?_⟩
      obtain rfl := Except.ok.inj hfold
      obtain rfl := Except.ok.inj hfold'
      exact ⟨[], [], [], by simp⟩
  | cons x xs ih =>
    intro i st outs R ha h
    cases outs with
    | nil => exact h.elim
    | cons out outs =>
      obtain ⟨st1, hpassed, hrest⟩ := h
      cases x with
      | single frame =>
        obtain ⟨h1, -, h9, rfl, rfl⟩ := hpassed
        obtain ⟨gs, hex, hseen⟩ := ih (i + 1) st1 outs R ha hrest
        refine ⟨gs, .single frame h1 h9 hex, fun c c' d d' hc hc' hfold hfold' => ?_⟩
        rw [List.flatMap_cons, Item.frames, List.singleton_append, List.foldlM_cons] at hfold
        rw [List.flatten_cons, List.singleton_append, List.foldlM_cons] at hfold'
        obtain ⟨c1, hc1, hfold⟩ := (Res.bind_ok_iff _ _ _).1 hfold
        obtain ⟨c1', hc1', hfold'⟩ := (Res.bind_ok_iff _ _ _).1 hfold'
        have hnoted := frameStep_single _ _ _ _ _ h1 h9 hc1
        have hnoted' := frameStep_single _ _ _ _ _ h1 h9 hc1'
        have hb : Between held c1 (table st1.inbound) := by
          rw [hnoted]
          exact ⟨hc.decoder, hc.blocks, hc.layouts⟩
        have hb' : Between held c1' R := by
          rw [hnoted']
          exact ⟨hc'.decoder, hc'.blocks, hc'.layouts⟩
        obtain ⟨ks, qs, qs', hk, hk', hq, hq', hsame⟩ := hseen c1 c1' d d' hb hb' hfold hfold'
        refine ⟨noted frame ++ ks, qs, qs', ?_, ?_, ?_, ?_, hsame⟩
        · rw [hk, hnoted, List.append_assoc]
        · rw [hk', hnoted', List.append_assoc]
        · rw [hq, hnoted]
        · rw [hq', hnoted']
      | group first rest =>
        obtain ⟨first', rest', rfl, hgroup⟩ := hpassed
        obtain ⟨x, R', horiginal, hforwarded, hdecoded, ha', hone⟩ := group_seen hD hH ha hgroup
        obtain ⟨gs, hex, hseen⟩ := ih (i + 1) st1 outs R' ha' hrest
        refine ⟨x :: gs, hforwarded ▸ .group x horiginal hdecoded hex,
          fun c c' d d' hc hc' hfold hfold' => ?_⟩
        rw [List.flatMap_cons, Item.frames, List.foldlM_append] at hfold
        rw [List.flatten_cons, List.foldlM_append] at hfold'
        obtain ⟨c1, hc1, hfold⟩ := (Res.bind_ok_iff _ _ _).1 hfold
        obtain ⟨c1', hc1', hfold'⟩ := (Res.bind_ok_iff _ _ _).1 hfold'
        obtain ⟨q, q', hnoted, hnoted', hsame⟩ := hone c c' c1 c1' hc hc' hc1 hc1'
        obtain ⟨ks, qs, qs', hk, hk', hq, hq', hsames⟩ :=
          hseen c1 c1' d d' hnoted.between hnoted'.between hfold hfold'
        refine ⟨ks, q :: qs, q' :: qs', ?_, ?_, ?_, ?_, ?_⟩
        · rw [hk, hnoted.controls]
        · rw [hk', hnoted'.controls]
        · rw [hq, hnoted.requests, List.append_assoc]
          rfl
        · rw [hq', hnoted'.requests, List.append_assoc]
          rfl
        · rw [List.cons_eq_cons, hsame, hsames, List.forall_mem_cons]

theorem frameForms_ok {publicAuthority upstream b : Bytes} {fs : List Frame} {d : Capture H}
    (hb : Parser.all Frame.parse b = some fs)
    (h : frameForms publicAuthority upstream H (PREFACE ++ b) = .ok d) :
    fs.foldlM (frameStep publicAuthority upstream) { decoder := H.new } = .ok d := by
  unfold frameForms at h
  rw [List.drop_left, hb] at h
  obtain ⟨_, -, h⟩ := (Res.bind_ok_iff _ _ _).1 h
  obtain ⟨frames, hframes, h⟩ := (Res.bind_ok_iff _ _ _).1 h
  obtain rfl := Option.some.inj ((Res.okOr_ok_iff _ _ _).1 hframes)
  obtain ⟨c, hc, h⟩ := (Res.bind_ok_iff _ _ _).1 h
  obtain ⟨_, -, h⟩ := (Res.bind_ok_iff _ _ _).1 h
  obtain rfl := Except.ok.inj h
  exact hc

theorem compare_h2 {input output : Bytes} {publicAuthority upstream : Str} {v : Verdict}
    (h : compare H (document "h2" input output) publicAuthority upstream = .ok v) :
    ∃ left right, frameForms (utf8 publicAuthority) (utf8 upstream) H input = .ok left ∧
      frameForms (utf8 publicAuthority) (utf8 upstream) H output = .ok right ∧
      (v.pass = true ↔ left.controls = right.controls ∧ left.requests = right.requests) := by
  have hno : ¬ "h2" = "http/1.1" := by decide
  unfold compare normalize document at h
  rw [if_neg hno, if_neg hno] at h
  obtain ⟨_, -, h⟩ := (Res.bind_ok_iff _ _ _).1 h
  obtain ⟨_, hl, h⟩ := (Res.bind_ok_iff _ _ _).1 h
  obtain ⟨_, -, hl⟩ := (Res.bind_ok_iff _ _ _).1 hl
  obtain ⟨left, hleft, hl⟩ := (Res.bind_ok_iff _ _ _).1 hl
  obtain rfl := Except.ok.inj hl
  obtain ⟨_, hr, h⟩ := (Res.bind_ok_iff _ _ _).1 h
  obtain ⟨_, -, hr⟩ := (Res.bind_ok_iff _ _ _).1 hr
  obtain ⟨right, hright, hr⟩ := (Res.bind_ok_iff _ _ _).1 hr
  obtain rfl := Except.ok.inj hr
  refine ⟨left, right, hleft, hright, ?_⟩
  rw [← Except.ok.inj h]
  simp

/-- **The lab's check of HTTP/2.**  A direction that ends without an error has read frames and
written frames for them; whenever the lab comes to a verdict on the two, it passes them exactly if
every header group was forwarded in a way that it does not notice. -/
theorem paired_connection (hD : D.Correct table) (hH : H.Conforms held) (loads : Nat → PeerLimits)
    (input : Bytes) (other : PeerLimits) (st : Task D)
    (h : H2.direction m false loads (Task.new D input other) = .ok () st) :
    ∃ xs outs gs b b', input = PREFACE ++ b ∧ st.output = PREFACE ++ b' ∧
      Stream b (xs.flatMap Item.frames) ∧ Stream b' outs.flatten ∧ Exchange .init .init xs outs gs ∧
      ∀ v, compare H (document "h2" input st.output) m.publicAuthority m.upstream = .ok v →
        (v.pass = true ↔ ∀ x ∈ gs, x.Unnoticed m) := by
  unfold H2.direction at h
  obtain ⟨_, st1, hpre, h⟩ := (Act.bind_ok_iff _ _ _ _ _).1 h
  obtain ⟨b, st2, hin, h⟩ := (Act.bind_ok_iff _ _ _ _ _).1 h
  cases hin
  obtain ⟨hinput, hst⟩ := H2.preface_ok _ _ _ _ hpre
  have hout : st1.output = PREFACE := by rw [hst]; rfl
  have hdec : st1.decoder = HeaderRewriter.new D := by rw [hst]; rfl
  obtain ⟨xs, outs, h1, h2, h3, h4, h5⟩ :=
    H2.directionLoop_ok m false loads _ 0 _ _ _ (Nat.lt_succ_self _) h
  have hnew : table (HeaderRewriter.new D).inbound = .init := hD.new
  rw [hdec] at h3
  obtain ⟨gs, hex, hseen⟩ := forwarded_seen hD hH loads xs 0 _ outs .init HpackWire.agrees_new h3
  rw [hnew] at hex hseen
  have hread : Stream st1.input (xs.flatMap Item.frames) := h1 ▸ H2.stream_of_wellFormed _ h4
  have hwrote := H2.stream_of_wellFormed _ h5
  rw [hout] at h2
  refine ⟨xs, outs, gs, st1.input, _, hinput, h2, hread, hwrote, hex, fun v hv => ?_⟩
  rw [show input = PREFACE ++ st1.input from hinput, h2] at hv
  obtain ⟨left, right, hleft, hright, hpass⟩ := compare_h2 hv
  obtain ⟨ks, qs, qs', hk, hk', hq, hq', hsame⟩ := hseen { decoder := H.new } { decoder := H.new }
    left right ⟨hH.new, rfl, rfl⟩ ⟨hH.new, rfl, rfl⟩ (frameForms_ok hread.parsed hleft)
    (frameForms_ok hwrote.parsed hright)
  rw [hpass, hk, hk', hq, hq', and_iff_right rfl]
  exact hsame

end

/-- The stream of a SETTINGS frame and a request, and another request in one frame. -/
def sampleConnection : Bytes :=
  H2.sampleStream ++
    Frame.encode { kind := 1, flags := 5, stream := 3, payload := HpackWire.sampleRepeat }

/-- The lab passes it. -/
example : (compare OrderPolicy.rfcHpack (document "h2" sampleConnection
    (Act.final (H2.direction sampleMapping false fun _ => .new)
      (Task.new HpackWire.boundedCrate sampleConnection .new)).output)
    sampleMapping.publicAuthority sampleMapping.upstream).map Verdict.pass = .ok true := by
  decide +kernel

theorem paired_connection_sample : ∃ st : Task HpackWire.boundedCrate,
    H2.direction sampleMapping false (fun _ => .new)
      (Task.new HpackWire.boundedCrate sampleConnection .new) = .ok () st ∧
    ∃ xs outs gs b b', sampleConnection = PREFACE ++ b ∧ st.output = PREFACE ++ b' ∧
      Stream b (xs.flatMap Item.frames) ∧ Stream b' outs.flatten ∧ Exchange .init .init xs outs gs ∧
      ∀ v, compare OrderPolicy.rfcHpack (document "h2" sampleConnection st.output)
          sampleMapping.publicAuthority sampleMapping.upstream = .ok v →
        (v.pass = true ↔ ∀ x ∈ gs, x.Unnoticed sampleMapping) := by
  obtain ⟨st, h⟩ := (Act.value?_eq_some_iff (H2.direction sampleMapping false fun _ => .new)
    (Task.new HpackWire.boundedCrate sampleConnection .new) ()).1 (by decide +kernel)
  exact ⟨st, h, paired_connection sampleMapping HpackWire.boundedCrate_correct
    OrderPolicy.rfcHpack_conforms (fun _ => .new) sampleConnection .new st h⟩

end PairedHttp
