import FingerprintBridge.Lib.Lists
import FingerprintBridge.Scripts.OrderProof

/-!
# Equal order forms differ in the order of the headers only

A block is a run of passes from the insertions before it, and the form of the
block lists what the run notes, but for the order of the fields.  Given that
order too, the notes give back the representations (`Run.det`), and with them
the insertions after the block: two captures of one form stay together from
request to request as long as their headers come in the same order.
-/

namespace OrderPolicy

open Hpack (Rep DynamicTable)
open HpackWire (Span rfc7541)
open Tls (lowerHex lowerHex_inj)

/-! ## Runs -/

/-- The passes over `rs` note `ns` and lead from `v` to `v'`. -/
inductive Run : Tracker → List Rep → List Note → Tracker → Prop
  | nil (v : Tracker) : Run v [] [] v
  | cons {v v' v'' : Tracker} {r : Rep} {rs : List Rep} {n : Note} {ns : List Note} :
      Notes v r n v' → Run v' rs ns v'' → Run v (r :: rs) (n :: ns) v''

/-- The headers of a block, and how each was written. -/
def sentBy : DynamicTable → List Rep → Option (List (Header × WireForm) × DynamicTable)
  | t, [] => some ([], t)
  | t, r :: rs => do
    let (headers, t) ← r.apply rfc7541 t
    let (xs, t) ← sentBy t rs
    return (headers.map (fun h => (h, wireForm r)) ++ xs, t)

theorem decodeReps_sentBy (rs : List Rep) : ∀ t xs t', sentBy t rs = some (xs, t') →
    Hpack.decodeReps rfc7541 t rs = some (xs.map Prod.fst, t') := by
  induction rs with
  | nil =>
    intro t xs t' h
    obtain ⟨rfl, rfl⟩ := Prod.mk.inj (Option.some.inj h)
    rfl
  | cons r rs ih =>
    intro t xs t' h
    unfold sentBy at h
    obtain ⟨⟨headers, t₁⟩, h1, h⟩ := Option.bind_eq_some_iff.1 h
    obtain ⟨⟨ys, t₂⟩, h2, h⟩ := Option.bind_eq_some_iff.1 h
    obtain ⟨rfl, rfl⟩ := Prod.mk.inj (Option.some.inj h)
    simp [Hpack.decodeReps, h1, ih _ _ _ h2, Function.comp_def]

namespace Run
variable {v v' : Tracker} {rs : List Rep} {ns : List Note}

theorem wellFormed (h : Run v rs ns v') : ∀ r ∈ rs, r.WellFormed := by
  induction h with
  | nil v => simp
  | cons hn _ ih =>
    intro r hr
    rcases List.mem_cons.1 hr with rfl | hr
    · exact hn.wellFormed
    · exact ih r hr

theorem apart (h : Run v rs ns v') (hv : Tracker.Apart v.toInsertions) :
    Tracker.Apart v'.toInsertions := by
  induction h with
  | nil v => exact hv
  | cons hn _ ih => exact ih (hn.apart hv)

/-- **The notes of a run say what was read.** -/
theorem det {v₁ v₂ : Tracker} {rs₁ rs₂ : List Rep} (h₁ : Run v rs₁ ns v₁) (h₂ : Run v rs₂ ns v₂)
    (hv : Tracker.Apart v.toInsertions) : rs₁ = rs₂ ∧ v₁ = v₂ := by
  induction h₁ generalizing rs₂ with
  | nil v =>
    cases h₂
    exact ⟨rfl, rfl⟩
  | cons hn _ ih =>
    cases h₂ with
    | cons hn' h₂ =>
      obtain ⟨rfl, rfl⟩ := hn.det hv hn'
      obtain ⟨rfl, rfl⟩ := ih h₂ (hn.apart hv)
      exact ⟨rfl, rfl⟩

/-- The tokens of a run describe the headers it sends. -/
theorem sent (h : Run v rs ns v') :
    ∃ xs, sentBy v.table rs = some (xs, v'.table) ∧
      List.Forall₂ Describes (ns.filterMap Note.field?) xs := by
  induction h with
  | nil v => exact ⟨[], rfl, .nil⟩
  | @cons v v' v'' r rs n ns hn _ ih =>
    obtain ⟨headers, ha, hd⟩ := hn.apply
    obtain ⟨xs, hx, hxs⟩ := ih
    refine ⟨headers.map (fun h => (h, wireForm r)) ++ xs, by simp [sentBy, ha, hx], ?_⟩
    have hcons : (n :: ns).filterMap Note.field? = n.field?.toList ++ ns.filterMap Note.field? := by
      cases n <;> rfl
    rw [hcons]
    exact List.rel_append hd hxs

end Run

/-! ## A block -/

section
variable {H : HpackModule} {table : H.Decoder → DynamicTable} (hH : H.Conforms table)
include hH

theorem blockLoop_ok (block : Bytes) (fuel : Nat) : ∀ l l' : Locals H,
    blockLoop block fuel l = .ok l' → l.position ≤ block.length →
      block.length ≤ l.position + fuel →
      ∃ rs ns, Span block l.position block.length (rs.flatMap Rep.octets) ∧
        Run (l.proof.tracker table) rs ns (l'.proof.tracker table) ∧ l'.notes = l.notes ++ ns ∧
        l'.proof.validator = l.proof.validator := by
  have hdone : ∀ l : Locals H, l.position = block.length →
      Span block l.position block.length (([] : List Rep).flatMap Rep.octets) := fun l hl =>
    hl ▸ Span.nil block _ (le_of_eq hl)
  induction fuel with
  | zero =>
    intro l l' h hle hfuel
    cases h
    exact ⟨[], [], hdone l (by omega), .nil _, by simp, rfl⟩
  | succ fuel ih =>
    intro l l' h hle hfuel
    unfold blockLoop at h
    by_cases hlt : l.position < block.length
    · rw [if_pos hlt] at h
      obtain ⟨l₁, h1, h⟩ := (Res.bind_ok_iff _ _ _).1 h
      obtain ⟨r, n, hp⟩ := blockPart_ok hH block l l₁ h1
      have hpos := List.length_pos_of_ne_nil (HpackWire.octets_ne_nil r hp.notes.wellFormed)
      have hstop := hp.span.stop
      obtain ⟨rs, ns, hs, hrun, hnotes, hval⟩ := ih l₁ l' h hp.span.bound (by omega)
      refine ⟨r :: rs, n :: ns, hp.span.append hs, .cons hp.notes hrun, ?_, hval.trans hp.validator⟩
      rw [hnotes, hp.noted, List.append_assoc]
      rfl
    · rw [if_neg hlt] at h
      cases h
      exact ⟨[], [], hdone l (by omega), .nil _, by simp, rfl⟩

end

/-- The octets of the captured headers. -/
def Request.octets {ν : Type} (request : Request ν) : List Header :=
  request.headers.map fun h => (utf8 h.1, utf8 h.2)

/-- What an accepted block is: `rs`, read from `v` to `v'`, with the tokens `fields`. -/
structure Accepted (v : Tracker) (block : Bytes) (headers : List Header) (form : BlockForm)
    (rs : List Rep) (fields : List Token) (v' : Tracker) : Prop where
  octets : block = rs.flatMap Rep.octets
  run : Run v rs (form.tableUpdates.map .update ++ fields.map .field) v'
  sorted : form.fields = sortedBy Token.name fields
  decoded : Hpack.decodeReps rfc7541 v.table rs = some (headers, v'.table)

/-- **A block.** -/
theorem block_ok {H : HpackModule} {table : H.Decoder → DynamicTable} (hH : H.Conforms table)
    (s s' : HpackOrderProof H) (block : Bytes) (headers : List (Str × Str)) (form : BlockForm)
    (hsync : table s.validator = table s.decoder) (h : s.block block headers = .ok (form, s')) :
    table s'.validator = table s'.decoder ∧ ∃ rs fields, Accepted (s.tracker table) block
      (headers.map fun h => (utf8 h.1, utf8 h.2)) form rs fields (s'.tracker table) := by
  unfold HpackOrderProof.block at h
  obtain ⟨_, -, h⟩ := (Res.bind_ok_iff _ _ _).1 h
  obtain ⟨⟨decoded, validator⟩, h2, h⟩ := (Res.bind_ok_iff _ _ _).1 h
  obtain ⟨_, h3, h⟩ := (Res.bind_ok_iff _ _ _).1 h
  obtain ⟨l, h4, h⟩ := (Res.bind_ok_iff _ _ _).1 h
  obtain ⟨_, -, h⟩ := (Res.bind_ok_iff _ _ _).1 h
  cases h
  have hv := hH.decode _ _ _ _ ((Res.okOr_ok_iff _ _ _).1 h2)
  obtain rfl := (Res.ensure_ok_iff _ _ _).1 h3
  obtain ⟨rs, ns, hs, hrun, hnotes, hval⟩ := blockLoop_ok hH block _ _ _ h4 (Nat.zero_le _)
    (Nat.le_add_left _ _)
  have hblock : block = rs.flatMap Rep.octets := by
    have := hs.drop
    simpa using this
  -- both decoders read the same representations, from the same table
  obtain ⟨xs, hx, -⟩ := hrun.sent
  have hreps := decodeReps_sentBy rs _ _ _ hx
  rw [Hpack.decodeOctets, hblock,
    Hpack.all_rep_octets rs fun r hr => (hrun.wellFormed r hr).valid, Option.bind_some, hsync] at hv
  have hboth := hv.symm.trans hreps
  obtain ⟨-, htable⟩ := Prod.mk.inj (Option.some.inj hboth)
  have hl : l.notes = ns := hnotes
  refine ⟨?_, rs, l.fields, hblock, ?_, rfl, ?_⟩
  · rw [hval]
    exact htable
  · rw [← hl] at hrun
    exact hrun
  · exact hv.trans (congrArg (fun t => some (_, t)) htable)

namespace Accepted
variable {v v' : Tracker} {block : Bytes} {headers : List Header} {form : BlockForm}
  {rs : List Rep} {fields : List Token}

theorem sent (h : Accepted v block headers form rs fields v') :
    ∃ xs, sentBy v.table rs = some (xs, v'.table) ∧ List.Forall₂ Describes fields xs ∧
      xs.map Prod.fst = headers := by
  obtain ⟨xs, hx, hd⟩ := h.run.sent
  have hnotes : (form.tableUpdates.map Note.update ++ fields.map Note.field).filterMap
      Note.field? = fields := by
    simp [List.filterMap_map, Function.comp_def, Note.field?]
  rw [hnotes] at hd
  have hreps := decodeReps_sentBy rs _ _ _ hx
  rw [h.decoded] at hreps
  exact ⟨xs, hx, hd, (Prod.mk.inj (Option.some.inj hreps)).1.symm⟩

theorem names (h : Accepted v block headers form rs fields v') :
    fields.map Token.name = headers.map fun g => lowerHex g.1 := by
  obtain ⟨xs, -, hd, rfl⟩ := h.sent
  rw [List.map_map]
  exact forall₂_map_eq (hd.flip.imp fun _ _ hx => hx.name)

/-- **The form and the order of the headers give back the block.** -/
theorem det {block' : Bytes} {rs' : List Rep} {fields' : List Token} {v'' : Tracker}
    (h : Accepted v block headers form rs fields v')
    (h' : Accepted v block' headers form rs' fields' v'')
    (hv : Tracker.Apart v.toInsertions) : block = block' ∧ v' = v'' := by
  have hsame := (sortedBy_eq_iff Token.name fields fields').1 (h.sorted.symm.trans h'.sorted)
  obtain rfl := hsame.eq (h.names.trans h'.names.symm)
  obtain ⟨rfl, rfl⟩ := h.run.det h'.run hv
  exact ⟨h.octets.trans h'.octets.symm, rfl⟩

end Accepted

/-- What one form describes is the same but for the order. -/
theorem sameButOrder_described {fields fields' : List Token} {xs xs' : List (Header × WireForm)}
    (hf : sortedBy Token.name fields = sortedBy Token.name fields')
    (h : List.Forall₂ Describes fields xs) (h' : List.Forall₂ Describes fields' xs') :
    SameButOrder (fun x => x.1.1) xs xs' := by
  refine SameButOrder.forall₂ Describes.rightUnique lowerHex (fun token x hd name => ?_)
    ((sortedBy_eq_iff Token.name fields fields').1 hf) h h'
  rw [hd.name]
  exact lowerHex_inj.eq_iff

/-! ## A connection -/

section
variable {ν : Type}

/-- The blocks of the requests, each in the context of those before it. -/
def blocksOf (requests : List (Request ν)) : Option (List Bytes) :=
  requests.mapM fun request => fromhex request.hpackBlock

/-- The headers of blocks, and how each was written, for a receiver whose table is `t`. -/
def sentIn : DynamicTable → List Bytes → Option (List (List (Header × WireForm)))
  | _, [] => some []
  | t, block :: blocks => do
    let rs ← Parser.all Hpack.rep block
    let (xs, t) ← sentBy t rs
    return xs :: (← sentIn t blocks)

/-- The requests were accepted, from the insertions in `v` on, with these forms. -/
inductive Forms : Tracker → List (Request ν) → List (RequestForm ν) → Prop
  | nil (v : Tracker) : Forms v [] []
  | cons {v v' : Tracker} {request : Request ν} {requests : List (Request ν)}
      {form : RequestForm ν} {forms : List (RequestForm ν)} {block : Bytes} {rs : List Rep}
      {fields : List Token} :
      fromhex request.hpackBlock = some block →
      form.headers = sortedBy Prod.fst request.headers →
      Accepted v block request.octets form.hpackOrderProof rs fields v' →
      Forms v' requests forms → Forms v (request :: requests) (form :: forms)

theorem requestForms_ok {H : HpackModule} {table : H.Decoder → DynamicTable}
    (hH : H.Conforms table) (sha256 : Bytes → Bytes) (requests : List (Request ν)) :
    ∀ (s : HpackOrderProof H) forms, table s.validator = table s.decoder →
      requestForms sha256 s requests = .ok forms → Forms (s.tracker table) requests forms := by
  induction requests with
  | nil =>
    intro s forms hsync h
    cases h
    exact .nil _
  | cons request requests ih =>
    intro s forms hsync h
    unfold requestForms at h
    obtain ⟨⟨form, s'⟩, h1, h⟩ := (Res.bind_ok_iff _ _ _).1 h
    obtain ⟨rest, h2, h⟩ := (Res.bind_ok_iff _ _ _).1 h
    cases h
    unfold requestForm at h1
    obtain ⟨block, h3, h1⟩ := (Res.bind_ok_iff _ _ _).1 h1
    obtain ⟨_, -, h1⟩ := (Res.bind_ok_iff _ _ _).1 h1
    obtain ⟨⟨blockForm, s₁⟩, h4, h1⟩ := (Res.bind_ok_iff _ _ _).1 h1
    obtain ⟨frames, -, h1⟩ := (Res.bind_ok_iff _ _ _).1 h1
    cases h1
    obtain ⟨hsync', rs, fields, hacc⟩ := block_ok hH s s' block request.headers blockForm hsync h4
    exact .cons ((Res.okOr_ok_iff _ _ _).1 h3) rfl hacc (ih s' rest hsync' h2)

namespace Forms
variable {v v' : Tracker} {requests requests' : List (Request ν)} {forms : List (RequestForm ν)}

/-- Requests of one form, whose headers come in one order, were sent in the same octets. -/
theorem blocks_eq (h : Forms v requests forms) (h' : Forms v requests' forms)
    (hv : Tracker.Apart v.toInsertions)
    (hs : requests.map Request.headers = requests'.map Request.headers) :
    blocksOf requests = blocksOf requests' := by
  induction h generalizing requests' with
  | nil v =>
    cases h'
    rfl
  | cons hb hh hacc _ ih =>
    cases h' with
    | cons hb' hh' hacc' h' =>
      simp only [List.map_cons, List.cons.injEq] at hs
      rw [Request.octets, ← hs.1] at hacc'
      obtain ⟨rfl, rfl⟩ := hacc.det hacc' hv
      have hrest := ih h' (hacc.run.apart hv) hs.2
      unfold blocksOf at hrest ⊢
      rw [List.mapM_cons, List.mapM_cons, hb, hb', hrest]

theorem headers_same (h : Forms v requests forms) (h' : Forms v' requests' forms) :
    List.Forall₂ (fun r r' => SameButOrder Prod.fst r.headers r'.headers) requests requests' := by
  induction h generalizing v' requests' with
  | nil v =>
    cases h'
    exact .nil
  | cons hb hh hacc _ ih =>
    cases h' with
    | cons hb' hh' hacc' h' =>
      exact .cons ((sortedBy_eq_iff Prod.fst _ _).1 (hh.symm.trans hh')) (ih h')

/-- What the requests sent: their captured headers, as the forms describe them. -/
theorem sent (h : Forms v requests forms) :
    ∃ blocks sent, blocksOf requests = some blocks ∧ sentIn v.table blocks = some sent ∧
      sent.map (List.map Prod.fst) = requests.map Request.octets ∧
      List.Forall₂ (fun form xs => ∃ fields, form.hpackOrderProof.fields =
        sortedBy Token.name fields ∧ List.Forall₂ Describes fields xs) forms sent := by
  induction h with
  | nil v => exact ⟨[], [], rfl, rfl, rfl, .nil⟩
  | @cons v v' request requests form forms block rs fields hb hh hacc _ ih =>
    obtain ⟨blocks, sent, h1, h2, h3, h4⟩ := ih
    obtain ⟨xs, hx, hd, hfst⟩ := hacc.sent
    have hall := Hpack.all_rep_octets rs fun r hr => (hacc.run.wellFormed r hr).valid
    rw [← hacc.octets] at hall
    refine ⟨block :: blocks, xs :: sent, ?_, ?_, ?_, .cons ⟨fields, hacc.sorted, hd⟩ h4⟩
    · unfold blocksOf at h1 ⊢
      rw [List.mapM_cons, hb, h1]
      rfl
    · simp [sentIn, hall, hx, h2]
    · rw [List.map_cons, List.map_cons, hfst, h3]

end Forms

/-! ## The allowance -/

/-- Blocks for a receiver that has an empty table. -/
def Http.sent (http : Http ν) : Option (List (List (Header × WireForm))) :=
  (blocksOf http.requests).bind (sentIn .init)

theorem httpOrderForm_ok {H : HpackModule} {table : H.Decoder → DynamicTable}
    (hH : H.Conforms table) (sha256 : Bytes → Bytes) (http : Http ν) (form : OrderForm ν)
    (h : httpOrderForm H sha256 http = .ok form) : Forms .init http.requests form.requests := by
  unfold httpOrderForm at h
  obtain ⟨_, -, h⟩ := (Res.bind_ok_iff _ _ _).1 h
  obtain ⟨_, -, h⟩ := (Res.bind_ok_iff _ _ _).1 h
  obtain ⟨forms, h3, h⟩ := (Res.bind_ok_iff _ _ _).1 h
  cases h
  have hforms := requestForms_ok hH sha256 http.requests _ forms rfl h3
  have hinit : (HpackOrderProof.new H).tracker table = .init := by
    unfold HpackOrderProof.new HpackOrderProof.tracker Tracker.init
    rw [hH.new]
  rwa [hinit] at hforms

/-- **The allowance waives the order of the headers only.**  Captures of one order form whose
requests list their headers in the same order were sent in the same octets.  In any two of
one form, corresponding requests have the same headers, those of one name in the same order,
and each was sent in the same kind of representation, with the same literals. -/
theorem order_form_waives_order (H : HpackModule) (table : H.Decoder → DynamicTable)
    (hH : H.Conforms table) (sha256 : Bytes → Bytes) (http http' : Http ν) (form : OrderForm ν)
    (h : httpOrderForm H sha256 http = .ok form)
    (h' : httpOrderForm H sha256 http' = .ok form) :
    (http.requests.map Request.headers = http'.requests.map Request.headers →
      ∃ blocks, blocksOf http.requests = some blocks ∧ blocksOf http'.requests = some blocks) ∧
    List.Forall₂ (fun r r' => SameButOrder Prod.fst r.headers r'.headers)
      http.requests http'.requests ∧
    ∃ sent sent', http.sent = some sent ∧ http'.sent = some sent' ∧
      sent.map (List.map Prod.fst) = http.requests.map Request.octets ∧
      sent'.map (List.map Prod.fst) = http'.requests.map Request.octets ∧
      List.Forall₂ (SameButOrder fun x => x.1.1) sent sent' := by
  have hf := httpOrderForm_ok hH sha256 http form h
  have hf' := httpOrderForm_ok hH sha256 http' form h'
  obtain ⟨blocks, sent, hb, hs, hfst, hd⟩ := hf.sent
  obtain ⟨blocks', sent', hb', hs', hfst', hd'⟩ := hf'.sent
  refine ⟨fun horder => ?_, hf.headers_same hf', sent, sent', ?_, ?_, hfst, hfst', ?_⟩
  · have hsame := hf.blocks_eq hf' ⟨List.nodup_nil, fun _ hmem => nomatch hmem⟩ horder
    exact ⟨blocks, hb, hsame.symm.trans hb⟩
  · rw [Http.sent, hb]
    exact hs
  · rw [Http.sent, hb']
    exact hs'
  · refine forall₂_comp (fun xs form xs' hx hx' => ?_) hd.flip hd'
    obtain ⟨fields, hsorted, hdesc⟩ := hx
    obtain ⟨fields', hsorted', hdesc'⟩ := hx'
    exact sameButOrder_described (hsorted.symm.trans hsorted') hdesc hdesc'

end

/-! ## Two captures of one form -/

/-- RFC 7541, without the rules on table size updates. -/
def rfcHpack : HpackModule where
  Decoder := DynamicTable
  new := .init
  decode t b := Hpack.decodeOctets rfc7541 t b
  dynamicEntries t := t.entries

theorem rfcHpack_conforms : rfcHpack.Conforms id := ⟨rfl, fun _ _ _ _ h => h, fun _ => rfl⟩

/-- Blocks and their digests, in hexadecimal. -/
def sampleDigests : List (String × String) :=
  [("824001780161", "b8efde2b91e28e1d38b95e1b273a3a5615eb1cbe80447ce3ce42a0a62f9b2eff"),
   ("400178016182", "a8053003e10bd0f3b98b20cfcfa6674b93b75326e199a460c8ed9f1417ba893e"),
   ("be", "478508483cbb05defd7dcdac355dadf06282a6f2e14342cccba99e840202f943")]

/-- Right on the blocks above. -/
def sampleSha256 (b : Bytes) : Bytes :=
  ((sampleDigests.find? fun d => fromhex d.1.toList = some b).bind fun d =>
    fromhex d.2.toList).getD []

/-- A block in one frame. -/
def sampleFrame (length : Int) : HeaderFrame Nat :=
  { type := 1, flags := 5, length := length, prefixHex := some [], paddingHex := some [],
    others := Json.emptyObject }

def sampleRequest (block : String) (headers : List (String × String)) : Request Nat where
  hpackBlock := block.toList
  hpackSha256 := ((sampleDigests.lookup block).getD "").toList
  headers := headers.map fun h => (h.1.toList, h.2.toList)
  headerFrames := [sampleFrame (block.length / 2 : Nat)]
  others := Json.emptyObject

def sampleHttp (block : String) (headers : List (String × String)) : Http Nat where
  protocol := "h2"
  requests := [sampleRequest block headers, sampleRequest "be" [("x", "a")]]
  others := Json.emptyObject

def sampleDirect : Http Nat := sampleHttp "824001780161" [(":method", "GET"), ("x", "a")]

def sampleReordered : Http Nat := sampleHttp "400178016182" [("x", "a"), (":method", "GET")]

def sampleToken (kind : Kind) (reference : Reference) (wire : Option (String × String))
    (name value : String) : Token where
  kind := kind
  reference := reference
  nameWire := wire.map fun w => w.1.toList
  valueWire := wire.map fun w => w.2.toList
  name := name.toList
  value := value.toList

/-- The second request refers to the insertion of the first. -/
def sampleForm : OrderForm Nat where
  protocol := "h2"
  requests := [
    { hpackOrderProof := {
        tableUpdates := []
        fields := [
          sampleToken .indexed (.index 2) none "3a6d6574686f64" "474554",
          sampleToken .incremental (.index 0) (some ("0178", "0161")) "78" "61"] }
      headers := [(":method".toList, "GET".toList), ("x".toList, "a".toList)]
      headerFrames := [sampleFrame 0]
      others := Json.emptyObject },
    { hpackOrderProof := {
        tableUpdates := []
        fields := [sampleToken .indexed (.tag ⟨"78".toList, "61".toList, 1⟩) none "78" "61"] }
      headers := [("x".toList, "a".toList)]
      headerFrames := [sampleFrame 0]
      others := Json.emptyObject }]
  others := Json.emptyObject

theorem order_form_waives_order_sample :
    blocksOf sampleDirect.requests ≠ blocksOf sampleReordered.requests ∧
    List.Forall₂ (fun r r' => SameButOrder Prod.fst r.headers r'.headers)
      sampleDirect.requests sampleReordered.requests ∧
    ∃ sent sent', sampleDirect.sent = some sent ∧ sampleReordered.sent = some sent' ∧
      List.Forall₂ (SameButOrder fun x => x.1.1) sent sent' := by
  obtain ⟨-, hheaders, sent, sent', hs, hs', -, -, hsame⟩ :=
    order_form_waives_order rfcHpack id rfcHpack_conforms sampleSha256 sampleDirect sampleReordered
      sampleForm (by decide +kernel) (by decide +kernel)
  exact ⟨by decide +kernel, hheaders, sent, sent', hs, hs', hsame⟩

end OrderPolicy
