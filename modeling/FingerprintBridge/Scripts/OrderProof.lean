import FingerprintBridge.Scripts.OrderPolicy
import FingerprintBridge.Wire.Trace

/-!
# What `HpackOrderProof.block` has read

Every pass of the loop reads one representation of RFC 7541, in its shortest form,
and notes a table size or a field (`blockPart_ok`).  A field's token says which
representation it was, for a reader that knows the insertions so far (`Notes.det`):
the tags are distinct, so a tag is one index.
-/

namespace OrderPolicy

open Hpack (Rep NameRef StringLit Indexing DynamicTable)
open HpackWire (Span putInt rfc7541)
open Tls (lowerHex lowerHex_inj)

/-- The package decodes as RFC 7541 says, as far as it decodes, and `table` is the dynamic
table it holds. -/
structure HpackModule.Conforms (H : HpackModule) (table : H.Decoder → DynamicTable) : Prop where
  new : table H.new = .init
  decode : ∀ d b headers d', H.decode d b = some (headers, d') →
    Hpack.decodeOctets rfc7541 (table d) b = some (headers, table d')
  dynamicEntries : ∀ d, H.dynamicEntries d = (table d).entries

/-! ## Integers and strings -/

theorem encodedLoop_eq (n : Nat) : encodedLoop n = HpackWire.putIntLoop n := by
  induction n using Nat.strongRecOn with
  | ind n ih =>
    rw [encodedLoop, HpackWire.putIntLoop]
    split
    · next h =>
      have hlt : n >>> 7 < n := by
        rw [Nat.shiftRight_eq_div_pow]
        omega
      rw [ih _ hlt, UInt8.ofNat_or, UInt8.ofNat_and]
      rfl
    · rfl

/-- The two writers of an integer agree. -/
theorem encoded_eq (high : UInt8) (value bits : Nat) :
    encoded high value (2 ^ bits - 1) = putInt value high bits := by
  unfold encoded putInt
  by_cases h : value < 2 ^ bits - 1
  · rw [if_pos h, if_neg (by omega), Nat.min_eq_left (by omega)]
  · rw [if_neg h, if_pos (by omega), Nat.min_eq_right (by omega), encodedLoop_eq]

/-- An accepted integer is written in its shortest form. -/
theorem integer_ok (data : Bytes) (p bits value p' : Nat)
    (h : integer data p bits = .ok (value, p')) :
    ∃ c, byteAt data p = .ok c ∧
      Span data p p' (putInt value (c &&& ~~~UInt8.ofNat (2 ^ bits - 1)) bits) := by
  unfold integer at h
  obtain ⟨c, h1, h⟩ := (Res.bind_ok_iff _ _ _).1 h
  obtain ⟨⟨v, stop⟩, -, h⟩ := (Res.bind_ok_iff _ _ _).1 h
  obtain ⟨octets, h3, h⟩ := (Res.bind_ok_iff _ _ _).1 h
  obtain ⟨_, h4, h⟩ := (Res.bind_ok_iff _ _ _).1 h
  cases h
  have he := (Res.ensure_ok_iff _ _ _).1 h4
  rw [encoded_eq] at he
  exact ⟨c, h1, he ▸ Span.of_slice h3⟩

/-- 130 in three octets, where two do. -/
example : integer [0x7f, 0x83, 0x00] 0 7 =
    .error (.err "nonminimal HPACK integer is not order variance") := by decide +kernel

/-- The bits above the prefix that mark a kind, as a number. -/
def Kind.lead : Kind → Nat
  | .indexed => 128
  | .incremental => 64
  | .tableSize => 32
  | .never => 16
  | .without => 0

/-- How wide its prefix integer is. -/
def Kind.bits : Kind → Nat
  | .indexed => 7
  | .incremental => 6
  | .tableSize => 5
  | .never => 4
  | .without => 4

theorem octet_kind (c : UInt8) :
    bitsOf c = (kindOf c).bits ∧
      c &&& ~~~UInt8.ofNat (2 ^ bitsOf c - 1) = UInt8.ofNat (kindOf c).lead :=
  HpackWire.forall_octet (fun c => bitsOf c = (kindOf c).bits ∧
    c &&& ~~~UInt8.ofNat (2 ^ bitsOf c - 1) = UInt8.ofNat (kindOf c).lead) (by decide +kernel) c

/-- The prefix integer of a representation, with the bits of its kind above it. -/
theorem integer_kind (data : Bytes) (p value p' : Nat) (c : UInt8) (hc : byteAt data p = .ok c)
    (h : integer data p (bitsOf c) = .ok (value, p')) :
    Span data p p' (putInt value (UInt8.ofNat (kindOf c).lead) (kindOf c).bits) := by
  obtain ⟨c', hc', hs⟩ := integer_ok _ _ _ _ _ h
  obtain rfl : c' = c := by
    rw [hc] at hc'
    exact (Except.ok.inj hc').symm
  obtain ⟨hbits, hlead⟩ := octet_kind c'
  rw [hlead, hbits] at hs
  exact hs

theorem octet_string (c : UInt8) : (c &&& ~~~UInt8.ofNat (2 ^ 7 - 1)).toNat % 2 ^ 7 = 0 :=
  HpackWire.forall_octet (fun c => (c &&& ~~~UInt8.ofNat (2 ^ 7 - 1)).toNat % 2 ^ 7 = 0)
    (by decide +kernel) c

/-- An accepted string is a literal of the RFC, kept whole. -/
theorem string_ok (data : Bytes) (p p' : Nat) (wire : Str)
    (h : string data p = .ok (wire, p')) :
    ∃ s : StringLit, Span data p p' s.octets ∧ s.Valid ∧ wire = lowerHex s.octets := by
  unfold string at h
  obtain ⟨⟨size, start⟩, h1, h⟩ := (Res.bind_ok_iff _ _ _).1 h
  obtain ⟨_, h2, h⟩ := (Res.bind_ok_iff _ _ _).1 h
  obtain ⟨octets, h3, h⟩ := (Res.bind_ok_iff _ _ _).1 h
  have hle : start + size ≤ data.length := (Res.ensure_ok_iff _ _ _).1 h2
  cases h
  obtain ⟨c, -, hs⟩ := integer_ok _ _ _ _ _ h1
  obtain ⟨c', enc, he, -, hi⟩ := HpackWire.putInt_spec size _ 7 (octet_string c) (by omega)
  rw [he] at hs
  obtain ⟨s, hspan, hvalid⟩ := hs.stringLit hi hle
  have heq : octets = s.octets := Except.ok.inj (h3.symm.trans hspan.slice_eq)
  exact ⟨s, hspan, hvalid, by rw [heq]⟩

/-! ## How a representation is written -/

/-- A representation without its indices. -/
inductive WireForm where
  | indexed
  | literal (mode : Indexing) (name : Option StringLit) (value : StringLit)
  | sizeUpdate
deriving DecidableEq, Repr

def nameLiteral : NameRef → Option StringLit
  | .index _ => none
  | .text s => some s

def wireForm : Rep → WireForm
  | .indexed _ _ => .indexed
  | .literal mode _ name value => .literal mode (nameLiteral name) value
  | .sizeUpdate _ _ => .sizeUpdate

def literalKind : Indexing → Kind
  | .incremental => .incremental
  | .never => .never
  | .without => .without

namespace WireForm

def kind : WireForm → Kind
  | .indexed => .indexed
  | .literal mode _ _ => literalKind mode
  | .sizeUpdate => .tableSize

def nameWire : WireForm → Option Str
  | .literal _ name _ => name.map fun s => lowerHex s.octets
  | _ => none

def valueWire : WireForm → Option Str
  | .literal _ _ value => some (lowerHex value.octets)
  | _ => none

/-- Its literals are what their octets are read as. -/
def Valid : WireForm → Prop
  | .literal _ name value => (∀ s ∈ name, s.Valid) ∧ value.Valid
  | _ => True

end WireForm

theorem literalKind_inj (m m' : Indexing) (h : literalKind m = literalKind m') : m = m' := by
  cases m <;> cases m' <;> first | rfl | cases h

/-- A literal is determined by its octets. -/
theorem stringLit_ext {s s' : StringLit} (hs : s.Valid) (hs' : s'.Valid)
    (h : lowerHex s.octets = lowerHex s'.octets) : s = s' := by
  have h1 := hs []
  rw [lowerHex_inj h, hs' []] at h1
  simpa using h1.symm

/-- Kind and literals determine the form. -/
theorem wireForm_ext {w w' : WireForm} (hw : w.Valid) (hw' : w'.Valid) (hk : w.kind = w'.kind)
    (hn : w.nameWire = w'.nameWire) (hv : w.valueWire = w'.valueWire) : w = w' := by
  cases w with
  | indexed =>
    cases w' with
    | indexed => rfl
    | literal mode name value => cases hv
    | sizeUpdate => cases hk
  | sizeUpdate =>
    cases w' with
    | indexed => cases hk
    | literal mode name value => cases hv
    | sizeUpdate => rfl
  | literal mode name value =>
    cases w' with
    | indexed => cases hv
    | sizeUpdate => cases hv
    | literal mode' name' value' =>
      obtain rfl := literalKind_inj _ _ hk
      obtain rfl := stringLit_ext hw.2 hw'.2 (Option.some.inj hv)
      have hname : name = name' := by
        cases name with
        | none =>
          cases name' with
          | none => rfl
          | some s' => cases hn
        | some s =>
          cases name' with
          | none => cases hn
          | some s' => rw [stringLit_ext (hw.1 s rfl) (hw'.1 s' rfl) (Option.some.inj hn)]
      rw [hname]

/-- `r` is a field representation with prefix integer `i`, in its shortest form. -/
def Shortest (i : Nat) : Rep → Prop
  | .indexed head j => head = putInt i 0x80 7 ∧ j = i
  | .literal mode head name value =>
    head = putInt i (UInt8.ofNat mode.lead) mode.bits ∧ name.Follows i ∧ value.Valid
  | .sizeUpdate _ _ => False

theorem Shortest.wellFormed {r : Rep} {i : Nat} (h : Shortest i r) : r.WellFormed := by
  cases r with
  | indexed head j =>
    obtain ⟨rfl, rfl⟩ := h
    exact HpackWire.isHead_putInt 128 7 _ (by decide) (by omega) (by omega)
  | literal mode head name value =>
    obtain ⟨rfl, hf, hv⟩ := h
    exact ⟨i, HpackWire.isHead_putInt_literal mode i, hf, hv⟩
  | sizeUpdate head n => exact h.elim

theorem Shortest.valid {r : Rep} {i : Nat} (h : Shortest i r) : (wireForm r).Valid := by
  cases r with
  | indexed head j => trivial
  | literal mode head name value =>
    refine ⟨fun s hs => ?_, h.2.2⟩
    cases name with
    | index j => cases hs
    | text s' =>
      obtain rfl := Option.some.inj hs
      exact h.2.1.2
  | sizeUpdate head n => exact h.elim

/-- Index and form determine the representation. -/
theorem Shortest.inj {r r' : Rep} {i : Nat} (h : Shortest i r) (h' : Shortest i r')
    (hw : wireForm r = wireForm r') : r = r' := by
  cases r with
  | sizeUpdate head n => exact h.elim
  | indexed head j =>
    cases r' with
    | sizeUpdate head' n => exact h'.elim
    | literal mode head' name value => cases hw
    | indexed head' j' => rw [h.1, h.2, h'.1, h'.2]
  | literal mode head name value =>
    cases r' with
    | sizeUpdate head' n => exact h'.elim
    | indexed head' j' => cases hw
    | literal mode' head' name' value' =>
      obtain ⟨rfl, hname, rfl⟩ := WireForm.literal.inj hw
      obtain ⟨rfl, hf, -⟩ := h
      obtain ⟨rfl, hf', -⟩ := h'
      have heq : name = name' := by
        cases name with
        | index j =>
          cases name' with
          | index j' => rw [hf.1, hf'.1]
          | text s' => cases hname
        | text s =>
          cases name' with
          | index j' => cases hname
          | text s' => rw [Option.some.inj hname]
      rw [heq]

/-! ## What a pass notes -/

/-- The insertions, beside the dynamic table they were made into. -/
structure Tracker extends Insertions where
  table : DynamicTable

namespace Tracker

def init : Tracker := { tags := [], generations := fun _ => 0, table := .init }

def settle (ins : Insertions) (t : DynamicTable) : Tracker :=
  { ins.keep t.entries.length with table := t }

/-- No two insertions have one tag, and the next generation is new. -/
structure Apart (ins : Insertions) : Prop where
  nodup : ins.tags.Nodup
  counted : ∀ tag ∈ ins.tags, tag.generation ≤ ins.generations (tag.name, tag.value)

end Tracker

/-- What a pass adds to the form of its block. -/
inductive Note where
  | update (n : Nat)
  | field (token : Token)
deriving DecidableEq, Repr

def Note.field? : Note → Option Token
  | .update _ => none
  | .field token => some token

/-- The token of the header `h` in the representation `r`. -/
def tokenOf (r : Rep) (h : Header) (reference : Reference) : Token :=
  { kind := (wireForm r).kind
    reference := reference
    nameWire := (wireForm r).nameWire
    valueWire := (wireForm r).valueWire
    name := lowerHex h.1
    value := lowerHex h.2 }

/-- A pass that reads `r` notes `n` and leaves the insertions at `v'`. -/
def Notes (v : Tracker) (r : Rep) (n : Note) (v' : Tracker) : Prop :=
  match n with
  | .update k =>
    r = .sizeUpdate (putInt k 0x20 5) k ∧ v' = .settle v.toInsertions (v.table.resize k)
  | .field token => ∃ i h t reference,
    Shortest i r ∧ r.apply rfc7541 v.table = some ([h], t) ∧
      referenceOf v.tags i = .ok reference ∧ token = tokenOf r h reference ∧
      v' = .settle (v.remember token.kind token.name token.value) t

/-- A reference is one index, when no two insertions have one tag. -/
theorem referenceOf_inj {tags : List Tag} (hn : tags.Nodup) {i j : Nat} {reference : Reference}
    (hi : referenceOf tags i = .ok reference) (hj : referenceOf tags j = .ok reference) :
    i = j := by
  have htag : ∀ {k reference}, referenceOf tags k = .ok reference →
      (k ≤ 61 ∧ reference = .index k) ∨
        (61 < k ∧ ∃ t, tags[k - 62]? = some t ∧ reference = .tag t) := by
    intro k reference h
    unfold referenceOf at h
    by_cases hk : 61 < k
    · rw [if_pos hk] at h
      obtain ⟨t, ht, h⟩ := (Res.bind_ok_iff _ _ _).1 h
      exact .inr ⟨hk, t, (Res.okOr_ok_iff _ _ _).1 ht, (Except.ok.inj h).symm⟩
    · rw [if_neg hk] at h
      exact .inl ⟨by omega, (Except.ok.inj h).symm⟩
  obtain ⟨-, rfl⟩ | ⟨hi61, t, ht, rfl⟩ := htag hi
  · obtain ⟨-, he⟩ | ⟨-, t', -, he⟩ := htag hj
    · exact Reference.index.inj he
    · cases he
  · obtain ⟨-, he⟩ | ⟨hj61, t', ht', he⟩ := htag hj
    · cases he
    · obtain rfl := Reference.tag.inj he
      obtain ⟨hlt, he1⟩ := List.getElem?_eq_some_iff.1 ht
      obtain ⟨hlt', he2⟩ := List.getElem?_eq_some_iff.1 ht'
      have := (List.Nodup.getElem_inj_iff hn).1 (he1.trans he2.symm)
      omega

/-- **A note says what was read.** -/
theorem Notes.det {v v₁ v₂ : Tracker} {r₁ r₂ : Rep} {n : Note}
    (hv : Tracker.Apart v.toInsertions) (h₁ : Notes v r₁ n v₁) (h₂ : Notes v r₂ n v₂) :
    r₁ = r₂ ∧ v₁ = v₂ := by
  cases n with
  | update k => exact ⟨h₁.1.trans h₂.1.symm, h₁.2.trans h₂.2.symm⟩
  | field token =>
    obtain ⟨i, h, t, reference, hs, ha, hr, rfl, rfl⟩ := h₁
    obtain ⟨i', h', t', reference', hs', ha', hr', he, rfl⟩ := h₂
    obtain ⟨hkind, rfl, hname, hvalue, -, -⟩ := Token.mk.inj he
    obtain rfl := referenceOf_inj hv.nodup hr hr'
    obtain rfl := hs.inj hs' (wireForm_ext hs.valid hs'.valid hkind hname hvalue)
    rw [ha] at ha'
    simp only [Option.some.injEq, Prod.mk.injEq, List.cons.injEq, and_true] at ha'
    obtain ⟨rfl, rfl⟩ := ha'
    exact ⟨rfl, rfl⟩

theorem Tracker.Apart.remember {ins : Insertions} (h : Tracker.Apart ins) (kind : Kind)
    (name value : Str) : Tracker.Apart (ins.remember kind name value) := by
  unfold Insertions.remember
  split
  · refine ⟨List.nodup_cons.2 ⟨fun hmem => ?_, h.nodup⟩, fun tag hmem => ?_⟩
    · have := h.counted _ hmem
      simp only at this
      omega
    · rcases List.mem_cons.1 hmem with rfl | hmem
      · simp
      · have hle := h.counted tag hmem
        by_cases hk : (tag.name, tag.value) = (name, value)
        · simp only [hk, Function.update_self]
          rw [hk] at hle
          omega
        · simpa only [Function.update_of_ne hk] using hle
  · exact h

theorem Tracker.Apart.keep {ins : Insertions} (h : Tracker.Apart ins) (n : Nat) :
    Tracker.Apart (ins.keep n) :=
  ⟨h.nodup.sublist (List.take_sublist _ _), fun tag hmem => h.counted tag (List.mem_of_mem_take hmem)⟩

theorem Notes.apart {v v' : Tracker} {r : Rep} {n : Note} (h : Notes v r n v')
    (hv : Tracker.Apart v.toInsertions) : Tracker.Apart v'.toInsertions := by
  cases n with
  | update k =>
    obtain ⟨-, rfl⟩ := h
    exact hv.keep _
  | field token =>
    obtain ⟨i, g, t, reference, -, -, -, -, rfl⟩ := h
    exact (hv.remember _ _ _).keep _

theorem Notes.wellFormed {v v' : Tracker} {r : Rep} {n : Note} (h : Notes v r n v') :
    r.WellFormed := by
  cases n with
  | update k =>
    obtain ⟨rfl, -⟩ := h
    exact HpackWire.isHead_putInt 32 5 k (by decide) (by omega) (by omega)
  | field token =>
    obtain ⟨i, g, t, reference, hs, -⟩ := h
    exact hs.wellFormed

/-- The token tells the header and how it was written. -/
structure Describes (token : Token) (x : Header × WireForm) : Prop where
  valid : x.2.Valid
  kind : token.kind = x.2.kind
  nameWire : token.nameWire = x.2.nameWire
  valueWire : token.valueWire = x.2.valueWire
  name : token.name = lowerHex x.1.1
  value : token.value = lowerHex x.1.2

theorem Describes.rightUnique : Relator.RightUnique Describes := by
  intro token x y hx hy
  have hform : x.2 = y.2 := wireForm_ext hx.valid hy.valid (hx.kind.symm.trans hy.kind)
    (hx.nameWire.symm.trans hy.nameWire) (hx.valueWire.symm.trans hy.valueWire)
  have hname := lowerHex_inj (hx.name.symm.trans hy.name)
  have hvalue := lowerHex_inj (hx.value.symm.trans hy.value)
  exact Prod.ext (Prod.ext hname hvalue) hform

/-- What the representation means, from its note. -/
theorem Notes.apply {v v' : Tracker} {r : Rep} {n : Note} (h : Notes v r n v') :
    ∃ headers, r.apply rfc7541 v.table = some (headers, v'.table) ∧
      List.Forall₂ Describes n.field?.toList (headers.map fun g => (g, wireForm r)) := by
  cases n with
  | update k =>
    obtain ⟨rfl, rfl⟩ := h
    exact ⟨[], rfl, .nil⟩
  | field token =>
    obtain ⟨i, g, t, reference, hs, ha, -, rfl, rfl⟩ := h
    exact ⟨[g], ha, .cons ⟨hs.valid, rfl, rfl, rfl, rfl, rfl⟩ .nil⟩

/-! ## One pass -/

theorem literalKind_spec (kind : Kind) (h1 : kind ≠ .indexed) (h2 : kind ≠ .tableSize) :
    ∃ mode, kind = literalKind mode ∧ kind.lead = mode.lead ∧ kind.bits = mode.bits := by
  cases kind with
  | indexed => exact absurd rfl h1
  | tableSize => exact absurd rfl h2
  | incremental => exact ⟨.incremental, rfl, rfl, rfl⟩
  | never => exact ⟨.never, rfl, rfl, rfl⟩
  | without => exact ⟨.without, rfl, rfl, rfl⟩

theorem single_ok (headers : List Header) (g : Header) (h : single headers = .ok g) :
    headers = [g] := by
  unfold single at h
  split at h
  · next g' => rw [Except.ok.inj h]
  · cases h

/-- A prefix integer and its literals are a field representation. -/
theorem literals_ok (block : Bytes) (kind : Kind) (index start p stop : Nat)
    (nameWire valueWire : Option Str) (hk : kind ≠ .tableSize)
    (hs : Span block start p (putInt index (UInt8.ofNat kind.lead) kind.bits))
    (h : literals block kind index p = .ok (nameWire, valueWire, stop)) :
    ∃ r, Shortest index r ∧ Span block start stop r.octets ∧ kind = (wireForm r).kind ∧
      nameWire = (wireForm r).nameWire ∧ valueWire = (wireForm r).valueWire := by
  unfold literals at h
  by_cases hi : kind = .indexed
  · rw [if_pos hi] at h
    cases h
    subst hi
    exact ⟨.indexed (putInt index 0x80 7) index, ⟨rfl, rfl⟩, hs, rfl, rfl, rfl⟩
  · rw [if_neg hi] at h
    obtain ⟨mode, rfl, hlead, hbits⟩ := literalKind_spec kind hi hk
    rw [hlead, hbits] at hs
    by_cases h0 : index = 0
    · rw [if_pos h0] at h
      obtain ⟨⟨name, q⟩, h1, h⟩ := (Res.bind_ok_iff _ _ _).1 h
      obtain ⟨⟨value, q'⟩, h2, h⟩ := (Res.bind_ok_iff _ _ _).1 h
      cases h
      obtain ⟨n, hn, hnv, rfl⟩ := string_ok _ _ _ _ h1
      obtain ⟨v, hv, hvv, rfl⟩ := string_ok _ _ _ _ h2
      exact ⟨.literal mode _ (.text n) v, ⟨rfl, ⟨h0, hnv⟩, hvv⟩, (hs.append hn).append hv,
        rfl, rfl, rfl⟩
    · rw [if_neg h0] at h
      obtain ⟨⟨value, q⟩, h1, h⟩ := (Res.bind_ok_iff _ _ _).1 h
      cases h
      obtain ⟨v, hv, hvv, rfl⟩ := string_ok _ _ _ _ h1
      refine ⟨.literal mode _ (.index index) v, ⟨rfl, ⟨rfl, h0⟩, hvv⟩, ?_, rfl, rfl, rfl⟩
      simpa [Rep.octets, NameRef.octets] using hs.append hv

section
variable {H : HpackModule} {table : H.Decoder → DynamicTable} (hH : H.Conforms table)

/-- The state of the proof, with the table of the package's decoder. -/
def HpackOrderProof.tracker (table : H.Decoder → DynamicTable) (s : HpackOrderProof H) : Tracker :=
  { s.toInsertions with table := table s.decoder }

def Locals.notes (l : Locals H) : List Note := l.updates.map .update ++ l.fields.map .field

/-- A pass from `l` to `l'` has read `r` and noted `n`. -/
structure Passed (table : H.Decoder → DynamicTable) (block : Bytes) (l l' : Locals H) (r : Rep)
    (n : Note) : Prop where
  span : Span block l.position l'.position r.octets
  notes : Notes (l.proof.tracker table) r n (l'.proof.tracker table)
  noted : l'.notes = l.notes ++ [n]
  validator : l'.proof.validator = l.proof.validator

include hH

theorem tracker_settle (s : HpackOrderProof H) (ins : Insertions) :
    (s.settle ins).tracker table = .settle ins (table s.decoder) := by
  unfold HpackOrderProof.settle HpackOrderProof.tracker Tracker.settle
  rw [hH.dynamicEntries]

theorem decodePart_ok (s s' : HpackOrderProof H) (r : Rep) (headers : List Header)
    (hr : r.WellFormed) (h : s.decodePart r.octets = .ok (headers, s')) :
    r.apply rfc7541 (table s.decoder) = some (headers, table s'.decoder) ∧
      s'.toInsertions = s.toInsertions ∧ s'.validator = s.validator := by
  unfold HpackOrderProof.decodePart at h
  obtain ⟨⟨hs, d⟩, h1, h⟩ := (Res.bind_ok_iff _ _ _).1 h
  cases h
  have hd := hH.decode _ _ _ _ ((Res.okOr_ok_iff _ _ _).1 h1)
  rw [Hpack.decodeOctets_rep rfc7541 _ r hr.valid] at hd
  exact ⟨hd, rfl, rfl⟩

/-- **One pass.** -/
theorem blockPart_ok (block : Bytes) (l l' : Locals H) (h : blockPart block l = .ok l') :
    ∃ r n, Passed table block l l' r n := by
  unfold blockPart at h
  obtain ⟨c, h1, h⟩ := (Res.bind_ok_iff _ _ _).1 h
  obtain ⟨⟨index, p⟩, h2, h⟩ := (Res.bind_ok_iff _ _ _).1 h
  have hs := integer_kind block _ index p c h1 h2
  by_cases hk : kindOf c = .tableSize
  · simp only [if_pos hk] at h
    rw [hk] at hs
    obtain ⟨part, h3, h⟩ := (Res.bind_ok_iff _ _ _).1 h
    obtain ⟨⟨headers, s⟩, h4, h⟩ := (Res.bind_ok_iff _ _ _).1 h
    obtain ⟨_, h5, h⟩ := (Res.bind_ok_iff _ _ _).1 h
    have hfields : l.fields = [] := (Res.ensure_ok_iff _ _ _).1 h5
    cases h
    have hwell : (Rep.sizeUpdate (putInt index 0x20 5) index).WellFormed :=
      HpackWire.isHead_putInt 32 5 index (by decide) (by omega) (by omega)
    obtain rfl := Except.ok.inj (h3.symm.trans hs.slice_eq)
    obtain ⟨ha, hins, hval⟩ := decodePart_ok hH l.proof s _ headers hwell h4
    obtain ⟨-, ht⟩ := Prod.mk.inj (Option.some.inj ha)
    refine ⟨.sizeUpdate (putInt index 0x20 5) index, .update index, hs, ⟨rfl, ?_⟩, ?_, hval⟩
    · rw [tracker_settle hH, ← ht, hins]
      rfl
    · simp [Locals.notes, hfields]
  · simp only [if_neg hk] at h
    obtain ⟨reference, h3, h⟩ := (Res.bind_ok_iff _ _ _).1 h
    obtain ⟨⟨nameWire, valueWire, stop⟩, h4, h⟩ := (Res.bind_ok_iff _ _ _).1 h
    obtain ⟨part, h5, h⟩ := (Res.bind_ok_iff _ _ _).1 h
    obtain ⟨⟨headers, s⟩, h6, h⟩ := (Res.bind_ok_iff _ _ _).1 h
    obtain ⟨g, h7, h⟩ := (Res.bind_ok_iff _ _ _).1 h
    cases h
    obtain ⟨r, hr, hspan, hkind, rfl, rfl⟩ := literals_ok block _ index _ p stop _ _ hk hs h4
    obtain rfl := Except.ok.inj (h5.symm.trans hspan.slice_eq)
    obtain ⟨ha, hins, hval⟩ := decodePart_ok hH l.proof s r headers hr.wellFormed h6
    obtain rfl := single_ok headers g h7
    refine ⟨r, .field (tokenOf r g reference), hspan,
      ⟨index, g, table s.decoder, reference, hr, ha, h3, rfl, ?_⟩, ?_, hval⟩
    · rw [tracker_settle hH, hins, hkind]
      rfl
    · simp [Locals.notes, tokenOf, hkind]

end

end OrderPolicy
