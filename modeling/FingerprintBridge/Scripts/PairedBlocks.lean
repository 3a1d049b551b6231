import FingerprintBridge.Scripts.OrderProof
import FingerprintBridge.Scripts.PairedMapping

/-!
# The lab's reading of header blocks

`representations` goes through a block as RFC 7541 has it, though an integer may be longer than it
need be: a token says of a representation its kind, its index and its literals, but for a value that
is mapped (`representations_ok`).
-/

namespace PairedHttp

open Hpack (Rep NameRef StringLit Indexing DynamicTable)
open HpackWire (Span)
open OrderPolicy (Kind bitsOf kindOf literalKind)
open Tls (lowerHex)

/-! ## Integers and strings -/

theorem span_byteAt {data : Bytes} {p : Nat} {c : UInt8} (h : byteAt data p = .ok c) :
    Span data p (p + 1) [c] := by
  rw [Res.byteAt_ok_iff] at h
  obtain ⟨hlt, rfl⟩ := List.getElem?_eq_some_iff.1 h
  exact Span.octet data p hlt

/-- The loop reads a continuation. -/
theorem integerLoop_reads (data : Bytes) (value p shift : Nat) : ∀ v p',
    OrderPolicy.integerLoop data value p shift = .ok (v, p') →
      ∃ enc w, Span data p p' enc ∧ v = value + w * 2 ^ shift ∧
        ∀ d, Hpack.continuation (enc ++ d) = some (w, d) := by
  fun_induction OrderPolicy.integerLoop data value p shift with
  | case1 value p shift hle ih =>
    intro v p' h
    obtain ⟨c, hc, h⟩ := (Res.bind_ok_iff _ _ _).1 h
    have hs := span_byteAt hc
    have hlt := c.toNat_lt
    by_cases hz : c &&& 128 = 0
    · rw [if_pos hz] at h
      obtain ⟨rfl, rfl⟩ := Prod.mk.inj (Except.ok.inj h)
      have hz' := (HpackWire.octet_high_iff c).1 hz
      refine ⟨[c], c.toNat, hs, ?_, fun d => ?_⟩
      · rw [HpackWire.octet_low, Nat.mod_eq_of_lt hz', Nat.shiftLeft_eq]
      · simp [Hpack.continuation, hz']
    · rw [if_neg hz] at h
      have hz' : ¬ c.toNat < 128 := fun h' => hz ((HpackWire.octet_high_iff c).2 h')
      obtain ⟨enc, w, h1, rfl, h3⟩ := ih c v p' h
      refine ⟨c :: enc, c.toNat - 128 + 128 * w, hs.append h1, ?_, fun d => ?_⟩
      · rw [HpackWire.octet_low, Nat.shiftLeft_eq, Nat.pow_add,
          show c.toNat % 128 = c.toNat - 128 by omega, Nat.add_mul, Nat.add_assoc]
        congr 2
        rw [Nat.mul_comm (2 ^ shift), ← Nat.mul_assoc, Nat.mul_comm w]
      · simp only [List.cons_append, Hpack.continuation, if_neg hz', h3, Option.map_some]
  | case2 value p shift hle =>
    intro v p' h
    cases h

/-- An integer is its first octet and what the RFC's reader reads after it. -/
theorem integer_reads (data : Bytes) (p bits v p' : Nat) (h : integer data p bits = .ok (v, p')) :
    ∃ c enc, byteAt data p = .ok c ∧ Span data p p' (c :: enc) ∧
      ∀ d, Hpack.integer bits c (enc ++ d) = some (v, d) := by
  unfold integer at h
  obtain ⟨c, hc, h⟩ := (Res.bind_ok_iff _ _ _).1 h
  have hs := span_byteAt hc
  have hpos := Nat.two_pow_pos bits
  have hmod : c.toNat % 2 ^ bits < 2 ^ bits := Nat.mod_lt _ hpos
  unfold OrderPolicy.integerValue at h
  rw [Nat.and_two_pow_sub_one_eq_mod] at h
  by_cases hfull : c.toNat % 2 ^ bits = 2 ^ bits - 1
  · rw [if_pos hfull] at h
    obtain ⟨enc, w, hspan, rfl, hread⟩ := integerLoop_reads _ _ _ _ _ _ h
    refine ⟨c, enc, hc, hs.append hspan, fun d => ?_⟩
    rw [Hpack.integer, if_neg (by omega), hread, Option.map_some, Nat.pow_zero, Nat.mul_one]
  · rw [if_neg hfull] at h
    obtain ⟨rfl, rfl⟩ := Prod.mk.inj (Except.ok.inj h)
    refine ⟨c, [], hc, hs, fun d => ?_⟩
    rw [Hpack.integer, if_pos (by omega), List.nil_append]

def literalOf (s : StringLit) : Literal := { huffman := s.huffman, wire := lowerHex s.octets }

theorem string_reads (data : Bytes) (p p' : Nat) (literal : Literal)
    (h : string data p = .ok (literal, p')) :
    ∃ s : StringLit, Span data p p' s.octets ∧ s.Valid ∧ literal = literalOf s := by
  unfold string at h
  obtain ⟨byte, hbyte, h⟩ := (Res.bind_ok_iff _ _ _).1 h
  obtain ⟨⟨size, start⟩, h1, h⟩ := (Res.bind_ok_iff _ _ _).1 h
  obtain ⟨_, h2, h⟩ := (Res.bind_ok_iff _ _ _).1 h
  obtain ⟨octets, h3, h⟩ := (Res.bind_ok_iff _ _ _).1 h
  obtain ⟨rfl, rfl⟩ := Prod.mk.inj (Except.ok.inj h)
  have hle : start + size ≤ data.length := (Res.ensure_ok_iff _ _ _).1 h2
  obtain ⟨c, enc, hc, hs, hi⟩ := integer_reads _ _ _ _ _ h1
  obtain ⟨s, hspan, hvalid⟩ := hs.stringLit hi hle
  have heq : octets = s.octets := Except.ok.inj (h3.symm.trans hspan.slice_eq)
  obtain ⟨c', e, hhead, hhuffman⟩ := hvalid.head
  rw [hhead] at hspan
  obtain rfl : byte = c' := Except.ok.inj (hbyte.symm.trans hspan.byteAt_eq)
  refine ⟨s, by rw [hhead]; exact hspan, hvalid, ?_⟩
  rw [literalOf, hhuffman, heq]
  congr 1
  rw [decide_eq_decide, Ne, HpackWire.octet_high_iff]
  omega

/-! ## Tokens -/

def indexOf : NameRef → Nat
  | .index i => i
  | .text _ => 0

def textOf : NameRef → Option Literal
  | .index _ => none
  | .text s => some (literalOf s)

section
variable (publicAuthority upstream : Bytes)

/-- The token of a representation that stands for `h`, if for any. -/
def token (r : Rep) (h : Header) : Token :=
  match r with
  | .indexed _ i => { kind := .indexed, index := i }
  | .literal mode _ name value =>
    { kind := literalKind mode
      index := indexOf name
      name := textOf name
      value := some (valueToken publicAuthority upstream h.1 h.2 (literalOf value)) }
  | .sizeUpdate _ n => { kind := .tableSize, index := n }

/-- Representations, the headers they stand for, and their tokens. -/
inductive Read : List Rep → List Header → List Token → Prop where
  | nil : Read [] [] []
  | update (head : Bytes) (n : Nat) {rs : List Rep} {hs : List Header} {ts : List Token} :
      Read rs hs ts →
      Read (.sizeUpdate head n :: rs) hs ({ kind := .tableSize, index := n } :: ts)
  | field {r : Rep} (h : Header) {rs : List Rep} {hs : List Header} {ts : List Token} :
      HpackWire.isSizeUpdate r = false → Read rs hs ts →
      Read (r :: rs) (h :: hs) (token publicAuthority upstream r h :: ts)

/-! ## One pass -/

theorem octet_range (c : UInt8) : bitsOf c = (kindOf c).bits ∧ (kindOf c).lead ≤ c.toNat ∧
    c.toNat < (kindOf c).lead + 2 ^ (kindOf c).bits :=
  HpackWire.forall_octet (fun c => bitsOf c = (kindOf c).bits ∧ (kindOf c).lead ≤ c.toNat ∧
    c.toNat < (kindOf c).lead + 2 ^ (kindOf c).bits) (by decide +kernel) c

theorem nameLiteral_reads (block : Bytes) (index p p' : Nat) (name : Option Literal)
    (hp : p ≤ block.length) (h : nameLiteral block index p = .ok (name, p')) :
    ∃ nm : NameRef, nm.Follows index ∧ Span block p p' nm.octets ∧ name = textOf nm ∧
      indexOf nm = index := by
  unfold nameLiteral at h
  by_cases h0 : index = 0
  · rw [if_pos h0] at h
    obtain ⟨⟨literal, q⟩, hlit, h⟩ := (Res.bind_ok_iff _ _ _).1 h
    obtain ⟨rfl, rfl⟩ := Prod.mk.inj (Except.ok.inj h)
    obtain ⟨s, hs, hvalid, rfl⟩ := string_reads _ _ _ _ hlit
    exact ⟨.text s, ⟨h0, hvalid⟩, hs, rfl, h0.symm⟩
  · rw [if_neg h0] at h
    obtain ⟨rfl, rfl⟩ := Prod.mk.inj (Except.ok.inj h)
    exact ⟨.index index, ⟨rfl, h0⟩, Span.nil block p hp, rfl, rfl⟩

/-- A pass from `l` to `l'` has read `r`. -/
structure Passed (block : Bytes) (headers : List Header) (l l' : Locals) (r : Rep) : Prop where
  wellFormed : r.WellFormed
  span : Span block l.position l'.position r.octets
  told : (∃ head n, r = .sizeUpdate head n ∧ l'.field = l.field ∧
      l'.tokens = l.tokens ++ [{ kind := .tableSize, index := n }]) ∨
    ∃ h, HpackWire.isSizeUpdate r = false ∧ headers[l.field]? = some h ∧ l'.field = l.field + 1 ∧
      l'.tokens = l.tokens ++ [token publicAuthority upstream r h]

theorem representation_ok (block : Bytes) (headers : List Header) (l l' : Locals)
    (h : representation publicAuthority upstream block headers l = .ok l') :
    ∃ r, Passed publicAuthority upstream block headers l l' r := by
  unfold representation at h
  obtain ⟨c, hc, h⟩ := (Res.bind_ok_iff _ _ _).1 h
  obtain ⟨⟨index, q⟩, hint, h⟩ := (Res.bind_ok_iff _ _ _).1 h
  obtain ⟨c', enc, hc', hs, hi⟩ := integer_reads _ _ _ _ _ hint
  obtain rfl : c = c' := Except.ok.inj (hc.symm.trans hc')
  obtain ⟨hbits, hlo, hhi⟩ := octet_range c
  rw [hbits] at hi
  have hhead : Hpack.IsHead (kindOf c).lead (kindOf c).bits index (c :: enc) :=
    ⟨c, enc, rfl, hlo, hhi, hi⟩
  dsimp only at h
  by_cases hu : kindOf c = .tableSize
  · rw [if_pos hu] at h
    obtain rfl := Except.ok.inj h
    rw [hu] at hhead
    exact ⟨.sizeUpdate (c :: enc) index, hhead, hs, Or.inl ⟨_, _, rfl, rfl, by rw [hu]⟩⟩
  · rw [if_neg hu] at h
    obtain ⟨g, hg, h⟩ := (Res.bind_ok_iff _ _ _).1 h
    have hg := (Res.okOr_ok_iff _ _ _).1 hg
    by_cases hx : kindOf c = .indexed
    · rw [if_pos hx] at h
      obtain rfl := Except.ok.inj h
      rw [hx] at hhead
      exact ⟨.indexed (c :: enc) index, hhead, hs, Or.inr ⟨g, rfl, hg, rfl, by rw [hx]; rfl⟩⟩
    · rw [if_neg hx] at h
      obtain ⟨⟨name, q₁⟩, hname, h⟩ := (Res.bind_ok_iff _ _ _).1 h
      obtain ⟨⟨literal, q₂⟩, hlit, h⟩ := (Res.bind_ok_iff _ _ _).1 h
      obtain rfl := Except.ok.inj h
      obtain ⟨mode, hmode, hlead, hwidth⟩ := OrderPolicy.literalKind_spec _ hx hu
      obtain ⟨nm, hf, hn, rfl, hindex⟩ := nameLiteral_reads _ _ _ _ _ hs.bound hname
      obtain ⟨v, hv, hvalid, rfl⟩ := string_reads _ _ _ _ hlit
      rw [hlead, hwidth] at hhead
      refine ⟨.literal mode (c :: enc) nm v, ⟨index, hhead, hf, hvalid⟩, (hs.append hn).append hv,
        Or.inr ⟨g, rfl, hg, rfl, ?_⟩⟩
      rw [token, hindex, hmode]

/-! ## A whole block -/

theorem representationLoop_ok (block : Bytes) (headers : List Header) (fuel : Nat) :
    ∀ l l', l.position ≤ block.length → block.length ≤ l.position + fuel →
      representationLoop publicAuthority upstream block headers fuel l = .ok l' →
      ∃ rs hs ts, (∀ r ∈ rs, r.WellFormed) ∧ block.drop l.position = rs.flatMap Rep.octets ∧
        Read publicAuthority upstream rs hs ts ∧ l'.tokens = l.tokens ++ ts ∧
        l'.field = l.field + hs.length ∧ headers.drop l.field = hs ++ headers.drop l'.field := by
  have hdone : ∀ l : Locals, block.length ≤ l.position →
      ∃ rs hs ts, (∀ r ∈ rs, r.WellFormed) ∧ block.drop l.position = rs.flatMap Rep.octets ∧
        Read publicAuthority upstream rs hs ts ∧ l.tokens = l.tokens ++ ts ∧
        l.field = l.field + hs.length ∧ headers.drop l.field = hs ++ headers.drop l.field := by
    intro l hl
    exact ⟨[], [], [], by simp, List.drop_eq_nil_of_le hl, .nil, (List.append_nil _).symm, rfl, rfl⟩
  induction fuel with
  | zero =>
    intro l l' hp hf h
    obtain rfl := Except.ok.inj h
    exact hdone l hf
  | succ fuel ih =>
    intro l l' hp hf h
    unfold representationLoop at h
    by_cases hlt : l.position < block.length
    · rw [if_pos hlt] at h
      obtain ⟨l₁, h1, h⟩ := (Res.bind_ok_iff _ _ _).1 h
      obtain ⟨r, hr⟩ := representation_ok publicAuthority upstream block headers l l₁ h1
      have hne := List.length_pos_iff.2 (HpackWire.octets_ne_nil r hr.wellFormed)
      have hstop := hr.span.stop
      obtain ⟨rs, hs, ts, hwf, hdrop, hread, htokens, hfield, hheaders⟩ :=
        ih l₁ l' hr.span.bound (by omega) h
      have hoctets : block.drop l.position = (r :: rs).flatMap Rep.octets := by
        rw [hr.span.drop, hdrop, List.flatMap_cons]
      have hall : ∀ r' ∈ r :: rs, r'.WellFormed := List.forall_mem_cons.2 ⟨hr.wellFormed, hwf⟩
      rcases hr.told with ⟨head, n, rfl, hsame, ht⟩ | ⟨g, hno, hg, hnext, ht⟩
      · refine ⟨_ :: rs, hs, _ :: ts, hall, hoctets, .update head n hread, ?_, ?_, ?_⟩
        · rw [htokens, ht, List.append_assoc]
          rfl
        · rw [hfield, hsame]
        · rw [← hsame]
          exact hheaders
      · refine ⟨r :: rs, g :: hs, _ :: ts, hall, hoctets, .field g hno hread, ?_, ?_, ?_⟩
        · rw [htokens, ht, List.append_assoc]
          rfl
        · rw [hfield, hnext, List.length_cons]
          omega
        · rw [hnext] at hheaders
          obtain ⟨hlt, rfl⟩ := List.getElem?_eq_some_iff.1 hg
          rw [List.drop_eq_getElem_cons hlt, hheaders]
          rfl
    · rw [if_neg hlt] at h
      obtain rfl := Except.ok.inj h
      exact hdone l (by omega)

/-- **What `representations` has read.** -/
theorem representations_ok (block : Bytes) (headers : List Header) (ts : List Token)
    (h : representations publicAuthority upstream block headers = .ok ts) :
    ∃ rs, (∀ r ∈ rs, r.WellFormed) ∧ block = rs.flatMap Rep.octets ∧
      Read publicAuthority upstream rs headers ts := by
  unfold representations at h
  obtain ⟨l, hloop, h⟩ := (Res.bind_ok_iff _ _ _).1 h
  obtain ⟨_, hfield, h⟩ := (Res.bind_ok_iff _ _ _).1 h
  obtain rfl := Except.ok.inj h
  have hfield := (Res.ensure_ok_iff _ _ _).1 hfield
  obtain ⟨rs, hs, ts, hwf, hdrop, hread, htokens, hlen, hheaders⟩ :=
    representationLoop_ok publicAuthority upstream block headers block.length {} l (Nat.zero_le _)
      (by simp) hloop
  rw [hfield, List.drop_length, List.append_nil] at hheaders
  change headers = hs at hheaders
  subst hheaders
  rw [htokens]
  exact ⟨rs, hwf, hdrop, hread⟩

end

end PairedHttp
