import FingerprintBridge.Hpack.DynamicTable
import FingerprintBridge.Lib.PrefixCode

/-!
# Representations and header blocks (RFC 7541 §5, §6)

A header block is a sequence of representations.  `rep` reads one of them and
keeps the octets it was sent as; `Rep.apply` is what it means to a decoder: the
header it yields, if any, and the dynamic table afterwards.  The static table
and the Huffman code are those of a `Codebook`.

A decoder may bound the integers it accepts (§5.1); this one does not.
-/

namespace Hpack

structure Codebook where
  static : List Header
  huffman : PrefixCode UInt8

/-! ## Integers and strings -/

/-- The octets after a full prefix, least significant first. -/
def continuation : Bytes → Option (Nat × Bytes)
  | [] => none
  | c :: rest =>
    if c.toNat < 128 then some (c.toNat, rest)
    else (continuation rest).map fun r => (c.toNat - 128 + 128 * r.1, r.2)

/-- §5.1, the first octet `c` already read. -/
def integer (bits : Nat) (c : UInt8) : Parser UInt8 Nat := fun b =>
  if c.toNat % 2 ^ bits < 2 ^ bits - 1 then some (c.toNat % 2 ^ bits, b)
  else (continuation b).map fun r => (2 ^ bits - 1 + r.1, r.2)

/-- A string literal: all its octets, and the payload after the length. -/
structure StringLit where
  octets : Bytes
  payload : Bytes
  huffman : Bool
deriving DecidableEq, Repr

/-- §5.2. -/
def stringLit : Parser UInt8 StringLit := do
  let c ← Parser.item
  let (more, n) ← Parser.consumed (integer 7 c)
  let payload ← Parser.takeN n
  return { octets := c :: more ++ payload, payload := payload, huffman := decide (128 ≤ c.toNat) }

def StringLit.text (K : Codebook) (s : StringLit) : Option Bytes :=
  if s.huffman then K.huffman.decode s.payload else some s.payload

/-! ## Representations -/

inductive Indexing where
  | incremental
  | without
  | never
deriving DecidableEq, Repr

inductive NameRef where
  | index (i : Nat)
  | text (s : StringLit)
deriving DecidableEq, Repr

/-- One representation; `head` are the octets of its prefix integer. -/
inductive Rep where
  | indexed (head : Bytes) (index : Nat)
  | literal (mode : Indexing) (head : Bytes) (name : NameRef) (value : StringLit)
  | sizeUpdate (head : Bytes) (max : Nat)
deriving DecidableEq, Repr

def NameRef.octets : NameRef → Bytes
  | .index _ => []
  | .text s => s.octets

def Rep.octets : Rep → Bytes
  | .indexed head _ => head
  | .literal _ head name value => head ++ name.octets ++ value.octets
  | .sizeUpdate head _ => head

def nameRef (i : Nat) : Parser UInt8 NameRef :=
  if i = 0 then do return .text (← stringLit) else pure (.index i)

def literal (mode : Indexing) (bits : Nat) (c : UInt8) : Parser UInt8 Rep := do
  let (more, i) ← Parser.consumed (integer bits c)
  let name ← nameRef i
  let value ← stringLit
  return .literal mode (c :: more) name value

/-- The kind is in the leading bits of the first octet. -/
def repFrom (c : UInt8) : Parser UInt8 Rep :=
  if 128 ≤ c.toNat then do
    let (more, i) ← Parser.consumed (integer 7 c)
    return .indexed (c :: more) i
  else if 64 ≤ c.toNat then literal .incremental 6 c
  else if 32 ≤ c.toNat then do
    let (more, n) ← Parser.consumed (integer 5 c)
    return .sizeUpdate (c :: more) n
  else if 16 ≤ c.toNat then literal .never 4 c
  else literal .without 4 c

def rep : Parser UInt8 Rep := do
  let c ← Parser.item
  repFrom c

/-! ## Meaning -/

/-- §2.3.3: index 0 is not used. -/
def lookup (K : Codebook) (t : DynamicTable) (i : Nat) : Option Header :=
  if i = 0 then none else (K.static ++ t.entries)[i - 1]?

def NameRef.resolve (K : Codebook) (t : DynamicTable) : NameRef → Option Bytes
  | .index i => (lookup K t i).map Prod.fst
  | .text s => s.text K

def Rep.apply (K : Codebook) (t : DynamicTable) : Rep → Option (List Header × DynamicTable)
  | .indexed _ i => (lookup K t i).map fun h => ([h], t)
  | .literal mode _ name value =>
    match name.resolve K t, value.text K with
    | some n, some v => some ([(n, v)], if mode = .incremental then t.insert (n, v) else t)
    | _, _ => none
  | .sizeUpdate _ n => some ([], t.resize n)

theorem Rep.apply_indexed (K : Codebook) (t t' : DynamicTable) (head : Bytes) (i : Nat)
    (hs : List Header) (h : (Rep.indexed head i).apply K t = some (hs, t')) :
    ∃ g, lookup K t i = some g ∧ hs = [g] ∧ t' = t := by
  change (lookup K t i).map (fun g => ([g], t)) = some (hs, t') at h
  obtain ⟨g, hg, he⟩ := Option.map_eq_some_iff.1 h
  cases he
  exact ⟨g, hg, rfl, rfl⟩

theorem Rep.apply_literal (K : Codebook) (t t' : DynamicTable) (mode : Indexing) (head : Bytes)
    (name : NameRef) (value : StringLit) (hs : List Header)
    (h : (Rep.literal mode head name value).apply K t = some (hs, t')) :
    ∃ g : Header, name.resolve K t = some g.1 ∧ value.text K = some g.2 ∧ hs = [g] ∧
      t' = if mode = .incremental then t.insert g else t := by
  simp only [Rep.apply] at h
  split at h
  · next n v hn hv =>
    simp only [Option.some.injEq, Prod.mk.injEq] at h
    exact ⟨(n, v), hn, hv, h.1.symm, h.2.symm⟩
  · cases h

def decodeReps (K : Codebook) : DynamicTable → List Rep → Option (List Header × DynamicTable)
  | t, [] => some ([], t)
  | t, r :: rs =>
    match r.apply K t with
    | none => none
    | some (hs, t') => (decodeReps K t' rs).map fun d => (hs ++ d.1, d.2)

/-- The octets of a piece of a block, without the rules on table size updates. -/
def decodeOctets (K : Codebook) (t : DynamicTable) (b : Bytes) :
    Option (List Header × DynamicTable) :=
  (Parser.all rep b).bind (decodeReps K t)

/-- §4.2, §6.3: size updates come first and stay within the protocol's limit. -/
def updatesOk (limit : Nat) : (fields : Bool) → List Rep → Bool
  | _, [] => true
  | fields, .sizeUpdate _ n :: rs => !fields && decide (n ≤ limit) && updatesOk limit fields rs
  | _, .indexed _ _ :: rs => updatesOk limit true rs
  | _, .literal _ _ _ _ :: rs => updatesOk limit true rs

/-- A whole header block. -/
def decodeBlock (K : Codebook) (limit : Nat) (t : DynamicTable) (b : Bytes) :
    Option (List Header × DynamicTable) :=
  match Parser.all rep b with
  | none => none
  | some rs => if updatesOk limit false rs then decodeReps K t rs else none

/-! ## Octets decide -/

theorem continuation_append :
    ∀ (b : Bytes) (v : Nat) (rest : Bytes), continuation b = some (v, rest) →
      ∃ enc, b = enc ++ rest ∧ ∀ c, continuation (enc ++ c) = some (v, c) := by
  intro b
  induction b with
  | nil => intro v rest h; cases h
  | cons c b ih =>
    intro v rest h
    unfold continuation at h
    split at h
    · next hc =>
      simp only [Option.some.injEq, Prod.mk.injEq] at h
      obtain ⟨rfl, rfl⟩ := h
      exact ⟨[c], rfl, fun d => by simp [continuation, hc]⟩
    · next hc =>
      cases hr : continuation b with
      | none => rw [hr] at h; cases h
      | some r =>
        obtain ⟨v', rest'⟩ := r
        rw [hr] at h
        simp only [Option.map_some, Option.some.injEq, Prod.mk.injEq] at h
        obtain ⟨rfl, rfl⟩ := h
        obtain ⟨e, rfl, k⟩ := ih v' rest' hr
        exact ⟨c :: e, rfl, fun d => by simp [continuation, hc, k]⟩

theorem delimited_integer (bits : Nat) (c : UInt8) : Parser.Delimited (integer bits c) := by
  intro b v rest h
  unfold integer at h
  split at h
  · next hc =>
    simp only [Option.some.injEq, Prod.mk.injEq] at h
    obtain ⟨rfl, rfl⟩ := h
    exact ⟨[], rfl, fun d => by simp [integer, hc]⟩
  · next hc =>
    cases hr : continuation b with
    | none => rw [hr] at h; cases h
    | some r =>
      obtain ⟨v', rest'⟩ := r
      rw [hr] at h
      simp only [Option.map_some, Option.some.injEq, Prod.mk.injEq] at h
      obtain ⟨rfl, rfl⟩ := h
      obtain ⟨e, rfl, k⟩ := continuation_append _ _ _ hr
      exact ⟨e, rfl, fun d => by simp [integer, hc, k]⟩

open Parser in
theorem delimited_stringLit : Delimited stringLit :=
  delimited_bind _ _ delimited_item fun _ =>
    delimited_bind _ _ (delimited_consumed _ (delimited_integer _ _)) fun _ =>
      delimited_bind _ _ (delimited_takeN _) fun _ => delimited_pure _

open Parser in
theorem delimited_nameRef (i : Nat) : Delimited (nameRef i) := by
  unfold nameRef
  split
  · exact delimited_bind _ _ delimited_stringLit fun _ => delimited_pure _
  · exact delimited_pure _

open Parser in
theorem delimited_literal (mode : Indexing) (bits : Nat) (c : UInt8) :
    Delimited (literal mode bits c) :=
  delimited_bind _ _ (delimited_consumed _ (delimited_integer _ _)) fun _ =>
    delimited_bind _ _ (delimited_nameRef _) fun _ =>
      delimited_bind _ _ delimited_stringLit fun _ => delimited_pure _

open Parser in
theorem delimited_repFrom (c : UInt8) : Delimited (repFrom c) := by
  have hint : ∀ bits (f : Bytes × Nat → Rep),
      Delimited (consumed (integer bits c) >>= fun x => pure (f x)) := fun bits f =>
    delimited_bind _ _ (delimited_consumed _ (delimited_integer _ _)) fun _ => delimited_pure _
  unfold repFrom
  split
  · exact hint 7 fun x => .indexed (c :: x.1) x.2
  · split
    · exact delimited_literal _ _ _
    · split
      · exact hint 5 fun x => .sizeUpdate (c :: x.1) x.2
      · split
        · exact delimited_literal _ _ _
        · exact delimited_literal _ _ _

theorem delimited_rep : Parser.Delimited rep :=
  Parser.delimited_bind _ _ Parser.delimited_item delimited_repFrom

theorem productive_rep : Parser.Productive rep :=
  Parser.productive_bind_item _ delimited_repFrom

/-! ## Building representations -/

/-- `s` is what its octets are read as, whatever follows. -/
def StringLit.Valid (s : StringLit) : Prop := ∀ d, stringLit (s.octets ++ d) = some (s, d)

/-- The Huffman flag of a literal is the top bit of its first octet. -/
theorem StringLit.Valid.head (s : StringLit) (h : s.Valid) :
    ∃ c e, s.octets = c :: e ∧ s.huffman = decide (128 ≤ c.toNat) := by
  have h0 := h []
  rw [List.append_nil] at h0
  unfold stringLit at h0
  obtain ⟨c, b1, h1, h0⟩ := (Parser.bind_some_iff _ _ _ _ _).1 h0
  obtain ⟨⟨more, n⟩, b2, -, h0⟩ := (Parser.bind_some_iff _ _ _ _ _).1 h0
  obtain ⟨payload, b3, -, h0⟩ := (Parser.bind_some_iff _ _ _ _ _).1 h0
  obtain ⟨rfl, -⟩ := (Parser.pure_some_iff _ _ _ _).1 h0
  exact ⟨c, more ++ payload, rfl, rfl⟩

/-- `r` is what its octets are read as, whatever follows. -/
def Rep.Valid (r : Rep) : Prop := ∀ d, rep (r.octets ++ d) = some (r, d)

/-- `nm` is the name after a prefix integer `i`. -/
def NameRef.Follows (nm : NameRef) (i : Nat) : Prop :=
  match nm with
  | .index j => j = i ∧ i ≠ 0
  | .text s => i = 0 ∧ s.Valid

/-- The bits that mark the kind of a literal, as a number. -/
def Indexing.lead : Indexing → Nat
  | .incremental => 64
  | .never => 16
  | .without => 0

/-- How wide its prefix integer is. -/
def Indexing.bits : Indexing → Nat
  | .incremental => 6
  | .never => 4
  | .without => 4

/-- The prefix integer `i` of width `bits`, with `lead` above it, is `head`. -/
def IsHead (lead bits i : Nat) (head : Bytes) : Prop :=
  ∃ c enc, head = c :: enc ∧ lead ≤ c.toNat ∧ c.toNat < lead + 2 ^ bits ∧
    ∀ d, integer bits c (enc ++ d) = some (i, d)

/-- The parts of `r` are as its kind has them. -/
def Rep.WellFormed : Rep → Prop
  | .indexed head i => IsHead 128 7 i head
  | .sizeUpdate head n => IsHead 32 5 n head
  | .literal mode head nm v =>
    ∃ i, IsHead mode.lead mode.bits i head ∧ nm.Follows i ∧ v.Valid

/-- The first octet of a literal tells its kind. -/
theorem repFrom_literal (mode : Indexing) (c : UInt8) (h1 : mode.lead ≤ c.toNat)
    (h2 : c.toNat < mode.lead + 2 ^ mode.bits) : repFrom c = literal mode mode.bits c := by
  unfold repFrom
  cases mode with
  | incremental =>
    simp only [Indexing.lead, Indexing.bits] at h1 h2
    rw [if_neg (by omega), if_pos h1]
    rfl
  | never =>
    simp only [Indexing.lead, Indexing.bits] at h1 h2
    rw [if_neg (by omega), if_neg (by omega), if_neg (by omega), if_pos h1]
    rfl
  | without =>
    simp only [Indexing.lead, Indexing.bits] at h1 h2
    rw [if_neg (by omega), if_neg (by omega), if_neg (by omega), if_neg (by omega)]
    rfl

theorem nameRef_follows (nm : NameRef) (i : Nat) (h : nm.Follows i) (d : Bytes) :
    nameRef i (nm.octets ++ d) = some (nm, d) := by
  unfold nameRef
  cases nm with
  | index j =>
    obtain ⟨rfl, hne⟩ := h
    rw [if_neg hne]
    rfl
  | text s =>
    rw [if_pos h.1, Parser.bind_some_iff]
    exact ⟨s, d, h.2 d, rfl⟩

theorem Rep.WellFormed.valid (r : Rep) (h : r.WellFormed) : r.Valid := by
  intro d
  unfold rep
  rw [Parser.bind_some_iff]
  cases r with
  | indexed head i =>
    obtain ⟨c, enc, rfl, h1, -, h3⟩ := h
    refine ⟨c, enc ++ d, rfl, ?_⟩
    rw [repFrom, if_pos h1, Parser.bind_some_iff]
    exact ⟨(enc, i), d, (Parser.consumed_some_iff _ (delimited_integer 7 c) _ _ _ _).2 ⟨h3 d, rfl⟩,
      rfl⟩
  | sizeUpdate head n =>
    obtain ⟨c, enc, rfl, h1, h2, h3⟩ := h
    refine ⟨c, enc ++ d, rfl, ?_⟩
    rw [repFrom, if_neg (by omega), if_neg (by omega), if_pos h1, Parser.bind_some_iff]
    exact ⟨(enc, n), d, (Parser.consumed_some_iff _ (delimited_integer 5 c) _ _ _ _).2 ⟨h3 d, rfl⟩,
      rfl⟩
  | literal mode head nm v =>
    obtain ⟨i, ⟨c, enc, rfl, h1, h2, h3⟩, hn, hv⟩ := h
    refine ⟨c, enc ++ (nm.octets ++ (v.octets ++ d)), by simp [Rep.octets, Parser.item], ?_⟩
    rw [repFrom_literal mode c h1 h2, Hpack.literal, Parser.bind_some_iff]
    refine ⟨(enc, i), nm.octets ++ (v.octets ++ d),
      (Parser.consumed_some_iff _ (delimited_integer _ c) _ _ _ _).2 ⟨h3 _, rfl⟩, ?_⟩
    simp only
    rw [Parser.bind_some_iff]
    refine ⟨nm, v.octets ++ d, nameRef_follows nm i hn _, ?_⟩
    rw [Parser.bind_some_iff]
    exact ⟨v, d, hv d, rfl⟩

/-! ## Decoding piece by piece -/

theorem all_rep_octets (rs : List Rep) (h : ∀ r ∈ rs, r.Valid) :
    Parser.all rep (rs.flatMap Rep.octets) = some rs :=
  Parser.all_flatMap rep delimited_rep productive_rep Rep.octets rs fun r hr => by
    have := h r hr []
    rwa [List.append_nil] at this

/-- The octets of one representation decode as it applies. -/
theorem decodeOctets_rep (K : Codebook) (t : DynamicTable) (r : Rep) (h : r.Valid) :
    decodeOctets K t r.octets = r.apply K t := by
  have := all_rep_octets [r] fun r' hr => by rw [List.mem_singleton.1 hr]; exact h
  rw [List.flatMap_cons, List.flatMap_nil, List.append_nil] at this
  unfold decodeOctets
  rw [this, Option.bind_some, decodeReps]
  cases r.apply K t with
  | none => rfl
  | some d => simp [decodeReps]

/-- A block of representations is decoded one after the other. -/
theorem decodeBlock_octets (K : Codebook) (limit : Nat) (t : DynamicTable) (rs : List Rep)
    (h : ∀ r ∈ rs, r.Valid) (hu : updatesOk limit false rs = true) :
    decodeBlock K limit t (rs.flatMap Rep.octets) = decodeReps K t rs := by
  unfold decodeBlock
  rw [all_rep_octets rs h]
  simp only [hu, if_true]

end Hpack
