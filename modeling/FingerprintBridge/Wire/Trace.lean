import FingerprintBridge.Rewrite.Facts
import FingerprintBridge.Wire.Codec
import FingerprintBridge.Wire.OutboundTable

/-!
# What the rewriter does, representation by representation

`written t r h mapped` is the representation written for `r`, which decodes to
the header `h`, against the outbound table `t`.  Every successful pass of the
loop either copies a table size update or writes `written` (`rewriteOne_ok`), so a
successful call is a `Trace` of such visits; everything proved about `rewrite`
is an induction over one.
-/

namespace HpackWire

open Hpack

/-! ## The representation written -/

/-- A name by index, or in full when there is none. -/
def nameOrIndex (target : Nat) (name : Bytes) : NameRef :=
  if target = 0 then .text (litString name false) else .index target

def written {D : HpackCrate} (t : Table D) (r : Rep) (h : Header) (mapped : Bytes) : Rep :=
  match r with
  | .sizeUpdate head n => .sizeUpdate head n
  | .indexed head i =>
    let target := t.find i h.1 (some mapped)
    if target = i then .indexed head i
    else if target ≠ 0 then .indexed (putInt target 0x80 7) target
    else
      let target := t.find 0 h.1 none
      .literal .without (putInt target 0 4) (nameOrIndex target h.1) (litString mapped false)
  | .literal mode head name v =>
    let value := if mapped = h.2 then v else litString mapped v.huffman
    match name with
    | .text s => .literal mode head (.text s) value
    | .index i =>
      let target := t.find i h.1 none
      if target = i then .literal mode head (.index i) value
      else .literal mode (putInt target (UInt8.ofNat mode.lead) mode.bits)
        (nameOrIndex target h.1) value

theorem litString_valid (value : Bytes) (huffman : Bool) : (litString value huffman).Valid :=
  fun d => stringLit_putString value huffman d

theorem nameOrIndex_follows (target : Nat) (name : Bytes) :
    (nameOrIndex target name).Follows target := by
  unfold nameOrIndex
  split
  · next h => exact ⟨h, litString_valid name false⟩
  · next h => exact ⟨rfl, h⟩

theorem nameOrIndex_octets (target : Nat) (name : Bytes) :
    (nameOrIndex target name).octets = if target = 0 then putString name false else [] := by
  unfold nameOrIndex
  split <;> rfl

theorem isHead_putInt (lead bits i : Nat) (hl : lead % 2 ^ bits = 0) (hlt : lead < 256)
    (hb : bits ≤ 8) : IsHead lead bits i (putInt i (UInt8.ofNat lead) bits) := by
  have he : (UInt8.ofNat lead).toNat = lead := by
    rw [UInt8.toNat_ofNat']
    omega
  obtain ⟨c, enc, h1, h2, h3⟩ := putInt_spec i (UInt8.ofNat lead) bits (by rw [he]; exact hl) hb
  have hpos := Nat.two_pow_pos bits
  exact ⟨c, enc, h1, by omega, by omega, h3⟩

theorem isHead_putInt_literal (mode : Indexing) (i : Nat) :
    IsHead mode.lead mode.bits i (putInt i (UInt8.ofNat mode.lead) mode.bits) := by
  cases mode with
  | incremental => exact isHead_putInt 64 6 i (by decide) (by omega) (by omega)
  | never => exact isHead_putInt 16 4 i (by decide) (by omega) (by omega)
  | without => exact isHead_putInt 0 4 i (by decide) (by omega) (by omega)

theorem written_wellFormed {D : HpackCrate} (t : Table D) (r : Rep) (h : Header) (mapped : Bytes)
    (hr : r.WellFormed) : (written t r h mapped).WellFormed := by
  have hvalue : ∀ v : StringLit, v.Valid →
      (if mapped = h.2 then v else litString mapped v.huffman).Valid := by
    intro v hv
    split
    · exact hv
    · exact litString_valid _ _
  cases r with
  | sizeUpdate head n => exact hr
  | indexed head i =>
    unfold written
    simp only
    split
    · exact hr
    · split
      · exact isHead_putInt 128 7 _ (by decide) (by omega) (by omega)
      · exact ⟨_, isHead_putInt_literal .without _, nameOrIndex_follows _ _, litString_valid _ _⟩
  | literal mode head nm v =>
    obtain ⟨i, h1, hn, hv⟩ := hr
    cases nm with
    | text s => exact ⟨i, h1, hn, hvalue v hv⟩
    | index j =>
      unfold written
      simp only
      split
      · exact ⟨i, h1, hn, hvalue v hv⟩
      · exact ⟨_, isHead_putInt_literal mode _, nameOrIndex_follows _ _, hvalue v hv⟩

/-! ## Scanning a field -/

theorem octet_indexed_iff (c : UInt8) : isIndexed c = true ↔ 128 ≤ c.toNat :=
  forall_octet (fun c => isIndexed c = true ↔ 128 ≤ c.toNat) (by decide +kernel) c

theorem octet_update_iff (c : UInt8) : c &&& 0xe0 = 0x20 ↔ 32 ≤ c.toNat ∧ c.toNat < 64 :=
  forall_octet (fun c => c &&& 0xe0 = 0x20 ↔ 32 ≤ c.toNat ∧ c.toNat < 64) (by decide +kernel) c

/-- The kind of literal a first octet announces. -/
def modeOf (c : UInt8) : Indexing :=
  if isIncremental c then .incremental else if 16 ≤ c.toNat then .never else .without

/-- The octet's bits above the prefix are those `emitLiteralName` keeps. -/
theorem octet_lead (c : UInt8) (hi : isIndexed c = false) (hu : ¬ c &&& 0xe0 = 0x20) :
    c &&& (if isIncremental c then 0xc0 else 0xf0) = UInt8.ofNat (modeOf c).lead ∧
      fieldBits c = (modeOf c).bits ∧ (modeOf c).lead ≤ c.toNat ∧
      c.toNat < (modeOf c).lead + 2 ^ (modeOf c).bits := by
  revert hi hu
  exact forall_octet (fun c => isIndexed c = false → ¬ c &&& 0xe0 = 0x20 →
    c &&& (if isIncremental c then 0xc0 else 0xf0) = UInt8.ofNat (modeOf c).lead ∧
      fieldBits c = (modeOf c).bits ∧ (modeOf c).lead ≤ c.toNat ∧
      c.toNat < (modeOf c).lead + 2 ^ (modeOf c).bits) (by decide +kernel) c

/-- `s` spans the field `r` of the block. -/
structure Scanned (block : Bytes) (s : FieldSpan) (r : Rep) : Prop where
  wellFormed : r.WellFormed
  span : Span block s.start s.stop r.octets
  parts : match r with
    | .indexed _ i => isIndexed s.c = true ∧ i = s.index
    | .literal mode head nm v => isIndexed s.c = false ∧ mode = modeOf s.c ∧
        nm.Follows s.index ∧ Span block s.start s.nameStart head ∧
        Span block s.nameStart s.valueStart nm.octets ∧ Span block s.valueStart s.stop v.octets ∧
        v.Valid ∧ ¬ s.c &&& 0xe0 = 0x20
    | .sizeUpdate _ _ => False

theorem skipStringIf_name (b : Bytes) (i p p' : Nat) (hp : p ≤ b.length)
    (h : skipStringIf (i == 0) b p = .ok p') :
    ∃ nm : NameRef, nm.Follows i ∧ Span b p p' nm.octets := by
  unfold skipStringIf at h
  split at h
  · next hi =>
    obtain ⟨s, h1, h2⟩ := skipString_spec _ _ _ h
    exact ⟨.text s, ⟨by simpa using hi, h2⟩, h1⟩
  · next hi =>
    cases h
    exact ⟨.index i, ⟨rfl, by simpa using hi⟩, Span.nil b p hp⟩

/-- **A scanned field is a representation.** -/
theorem scanField_spec (block : Bytes) (c : UInt8) (start : Nat) (s : FieldSpan)
    (hc : byteAt block start = .ok c) (hu : ¬ c &&& 0xe0 = 0x20)
    (h : scanField block c start = .ok s) :
    s.c = c ∧ s.start = start ∧ ∃ r, Scanned block s r := by
  unfold scanField at h
  obtain ⟨⟨index, nameStart⟩, h1, h⟩ := (Res.bind_ok_iff _ _ _).1 h
  obtain ⟨valueStart, h2, h⟩ := (Res.bind_ok_iff _ _ _).1 h
  obtain ⟨stop, h3, h⟩ := (Res.bind_ok_iff _ _ _).1 h
  cases h
  obtain ⟨c', enc, hs, -, hi⟩ := integer_spec _ _ _ _ _ h1
  have hcc : c' = c := by
    have := hs.byteAt_eq
    rw [hc] at this
    cases this
    rfl
  subst hcc
  refine ⟨rfl, rfl, ?_⟩
  cases hx : isIndexed c' with
  | true =>
    simp only [hx, Bool.not_true, Bool.false_and, skipStringIf, Bool.false_eq_true, if_false] at h2 h3
    cases h2
    cases h3
    have hbits : fieldBits c' = 7 := by rw [fieldBits, if_pos hx]
    have h128 := (octet_indexed_iff c').1 hx
    have hlt := c'.toNat_lt
    exact ⟨.indexed (c' :: enc) index, ⟨c', enc, rfl, h128, by omega, hbits ▸ hi⟩, hs, hx, rfl⟩
  | false =>
    simp only [hx, Bool.not_false, Bool.true_and, skipStringIf, if_true] at h2 h3
    obtain ⟨hl1, hl2, hl3, hl4⟩ := octet_lead c' hx hu
    obtain ⟨nm, hf, hn⟩ := skipStringIf_name block index nameStart valueStart hs.bound h2
    obtain ⟨v, hv, hvalid⟩ := skipString_spec _ _ _ h3
    exact ⟨.literal (modeOf c') (c' :: enc) nm v,
      ⟨index, ⟨c', enc, rfl, hl3, hl4, hl2 ▸ hi⟩, hf, hvalid⟩, (hs.append hn).append hv,
      hx, rfl, hf, hs, hn, hv, hvalid, hu⟩

/-! ## Emitting a field -/

theorem emitIndexed_eq {D : HpackCrate} (t : Table D) (head : Bytes) (i : Nat) (h : Header)
    (mapped : Bytes) :
    emitIndexed t head i h.1 mapped = (written t (.indexed head i) h mapped).octets := by
  unfold emitIndexed written
  simp only
  split
  · rfl
  · split
    · rfl
    · rw [Rep.octets, nameOrIndex_octets]
      rfl

theorem emitLiteralName_eq {D : HpackCrate} (t : Table D) (block : Bytes) (s : FieldSpan)
    (head : Bytes) (nm : NameRef) (name : Bytes) (hx : isIndexed s.c = false) (hu : ¬ s.c &&& 0xe0 = 0x20)
    (hf : nm.Follows s.index) (hh : Span block s.start s.nameStart head)
    (hn : Span block s.nameStart s.valueStart nm.octets) :
    emitLiteralName t block s name = .ok (match nm with
      | .text _ => head ++ nm.octets
      | .index i =>
        if t.find i name none = i then head ++ nm.octets
        else putInt (t.find i name none) (UInt8.ofNat (modeOf s.c).lead) (modeOf s.c).bits ++
          (nameOrIndex (t.find i name none) name).octets) := by
  obtain ⟨hl1, hl2, -, -⟩ := octet_lead s.c hx hu
  unfold emitLiteralName
  cases nm with
  | text sl =>
    simp only [hf.1, if_true]
    exact (hh.append hn).slice_eq
  | index i =>
    obtain ⟨rfl, hne⟩ := hf
    simp only [if_neg hne, hl1, hl2, nameOrIndex_octets]
    split
    · exact (hh.append hn).slice_eq
    · split
      · rfl
      · rw [List.append_nil]

theorem emitLiteralValue_eq (block : Bytes) (s : FieldSpan) (v : StringLit) (value mapped : Bytes)
    (hv : Span block s.valueStart s.stop v.octets) (hvalid : v.Valid) :
    emitLiteralValue block s value mapped =
      .ok (if mapped = value then v else litString mapped v.huffman).octets := by
  unfold emitLiteralValue
  split
  · exact hv.slice_eq
  · obtain ⟨c, e, h1, h2⟩ := hvalid.head
    rw [h1] at hv
    rw [hv.byteAt_eq, h2]
    have hc : (decide (c &&& 0x80 ≠ 0)) = decide (128 ≤ c.toNat) := by
      rw [decide_eq_decide, Ne, octet_high_iff]
      omega
    show Except.ok (putString mapped (decide (c &&& 0x80 ≠ 0))) = _
    rw [hc]
    rfl

/-- **What is emitted is the representation `written`.** -/
theorem emit_eq {D : HpackCrate} (t : Table D) (block : Bytes) (s : FieldSpan) (r : Rep)
    (h : Header) (mapped : Bytes) (hs : Scanned block s r) :
    emit t block r.octets s h.1 h.2 mapped = .ok (written t r h mapped).octets := by
  have hp := hs.parts
  unfold emit
  cases r with
  | sizeUpdate head n => exact hp.elim
  | indexed head i =>
    obtain ⟨hx, rfl⟩ := hp
    rw [if_pos hx]
    exact congrArg _ (emitIndexed_eq t head s.index h mapped)
  | literal mode head nm v =>
    obtain ⟨hx, rfl, hf, hh, hn, hv, hvalid, hu⟩ := hp
    rw [if_neg (by rw [hx]; exact Bool.false_ne_true),
      emitLiteralName_eq t block s head nm h.1 hx hu hf hh hn,
      emitLiteralValue_eq block s v h.2 mapped hv hvalid]
    cases nm with
    | text sl => rfl
    | index i =>
      simp only [written]
      split
      · rfl
      · rfl

/-! ## One pass -/

/-- What the pass found: a table size update, or a field and its mapped value. -/
inductive Visit where
  | update (head : Bytes) (n : Nat)
  | field (r : Rep) (h : Header) (mapped : Bytes)

namespace Visit

def rep : Visit → Rep
  | .update head n => .sizeUpdate head n
  | .field r _ _ => r

/-- The header the sender's decoder yields. -/
def sent : Visit → List Header
  | .update _ _ => []
  | .field _ h _ => [h]

/-- The header the receiver is to decode. -/
def received : Visit → List Header
  | .update _ _ => []
  | .field _ h mapped => [(h.1, mapped)]

/-- The representation written. -/
def out {D : HpackCrate} (t : Table D) : Visit → Rep
  | .update head n => .sizeUpdate head n
  | .field r h mapped => written t r h mapped

end Visit

def isIncrementalRep : Rep → Bool
  | .literal .incremental _ _ _ => true
  | _ => false

/-- What `checkField` demands. -/
structure FieldOk (l : Locals) (name value : Bytes) : Prop where
  name_ok : name ≠ [] ∧ name.any isBadNameByte = false
  value_ok : value.any isBadValueByte = false
  order : name.head? = some 58 → l.regular = false
  not_connect : name = ascii ":method" → value ≠ ascii "CONNECT"

/-- The flags it leaves. -/
def markField (l : Locals) (name : Bytes) : Locals :=
  { l with
    regular := if name.head? = some 58 then l.regular else true
    method := if name = ascii ":method" then true else l.method
    authority := if name = ascii ":authority" then l.authority + 1 else l.authority }

theorem checkField_ok (l l' : Locals) (name value : Bytes) (h : checkField l name value = .ok l') :
    FieldOk l name value ∧ l' = markField l name := by
  unfold checkField at h
  obtain ⟨_, h1, h⟩ := (Res.bind_ok_iff _ _ _).1 h
  obtain ⟨_, h2, h⟩ := (Res.bind_ok_iff _ _ _).1 h
  obtain ⟨_, h3, h⟩ := (Res.bind_ok_iff _ _ _).1 h
  obtain ⟨_, h4, h⟩ := (Res.bind_ok_iff _ _ _).1 h
  rw [Res.ensure_ok_iff] at h1 h2 h3 h4
  cases h
  exact ⟨⟨h1, h2, h3, h4⟩, rfl⟩

section
variable {D : HpackCrate} {U : UrlCrate} (block : Bytes) (m : Mapping U) (response : Bool)
  (limit : Nat)

/-- A pass that copied a table size update. -/
structure UpdateStep (l : Locals) (st : HeaderRewriter D) (head : Bytes) (n : Nat) (l' : Locals)
    (st' : HeaderRewriter D) : Prop where
  isHead : IsHead 32 5 n head
  length : head.length ≤ 6
  span : Span block l.p l'.p head
  early : l.fields = false
  bound : n ≤ min limit 65536
  decoded : ∃ hs, D.decode head st.inbound = .ok hs st'.inbound
  outbound : Table.evict { st.outbound with limit := n } = .ok st'.outbound
  locals : l' = { l with p := l'.p, out := l.out ++ head }

/-- A pass that wrote a field. -/
structure FieldStep (l : Locals) (st : HeaderRewriter D) (r : Rep) (h : Header) (mapped : Bytes)
    (l' : Locals) (st' : HeaderRewriter D) : Prop where
  wellFormed : r.WellFormed
  notUpdate : isSizeUpdate r = false
  span : Span block l.p l'.p r.octets
  decoded : D.decode r.octets st.inbound = .ok [h] st'.inbound
  checked : FieldOk l h.1 h.2
  mapped_eq : m.value h.1 h.2 response = .ok mapped
  total : l.total + (h.1.length + max mapped.length h.2.length + 32) ≤ MAX_BLOCK
  outbound : (if isIncrementalRep r then st.outbound.insert (h.1, mapped) else .ok st.outbound) =
    .ok st'.outbound
  locals : l' = { markField { l with fields := true } h.1 with
    p := l'.p
    total := l.total + (h.1.length + max mapped.length h.2.length + 32)
    out := l.out ++ (written st.outbound r h mapped).octets }
  room : l'.out.length ≤ MAX_BLOCK

def Step (l : Locals) (st : HeaderRewriter D) : Visit → Locals → HeaderRewriter D → Prop
  | .update head n => UpdateStep block limit l st head n
  | .field r h mapped => FieldStep block m response l st r h mapped

end

section
variable {D : HpackCrate} {U : UrlCrate} {block : Bytes} {m : Mapping U} {response : Bool}
  {limit : Nat}

theorem decodeInbound_ok (b : Bytes) (st st' : HeaderRewriter D) (hs : List Header)
    (h : decodeInbound b st = .ok hs st') :
    D.decode b st.inbound = .ok hs st'.inbound ∧ st'.outbound = st.outbound := by
  unfold decodeInbound at h
  split at h
  · next d hd =>
    cases h
    exact ⟨hd, rfl⟩
  · cases h
  · cases h

theorem decodeInbound_of_decode (b : Bytes) (st : HeaderRewriter D) (hs : List Header)
    (d : D.Decoder) (h : D.decode b st.inbound = .ok hs d) :
    decodeInbound b st = .ok hs { st with inbound := d } := by
  unfold decodeInbound
  rw [h]

theorem getOutbound_ok (st st' : HeaderRewriter D) (t : Table D) (h : getOutbound st = .ok t st') :
    t = st.outbound ∧ st = st' := by
  cases h
  exact ⟨rfl, rfl⟩

theorem updateOutbound_ok (f : Table D → Res (Table D)) (st st' : HeaderRewriter D) (u : Unit)
    (h : updateOutbound f st = .ok u st') :
    f st.outbound = .ok st'.outbound ∧ st'.inbound = st.inbound := by
  unfold updateOutbound at h
  split at h
  · next t ht =>
    cases h
    exact ⟨ht, rfl⟩
  · cases h

/-- What a size update that is accepted consists of. -/
theorem tableUpdate_run (l l' : Locals) (st st' : HeaderRewriter D)
    (h : tableUpdate block limit l st = .ok l' st') :
    ∃ n octets hs, integer block l.p 5 = .ok (n, l'.p) ∧ slice block l.p l'.p = .ok octets ∧
      l.fields = false ∧ n ≤ min limit 65536 ∧ D.decode octets st.inbound = .ok hs st'.inbound ∧
      Table.evict { st.outbound with limit := n } = .ok st'.outbound ∧
      l' = { l with p := l'.p, out := l.out ++ octets } := by
  unfold tableUpdate at h
  obtain ⟨_, hearly, h⟩ := (Act.liftM_bind_ok_iff _ _ _ _ _).1 h
  obtain ⟨⟨n, p⟩, hint, h⟩ := (Act.liftM_bind_ok_iff _ _ _ _ _).1 h
  obtain ⟨_, hle, h⟩ := (Act.liftM_bind_ok_iff _ _ _ _ _).1 h
  obtain ⟨octets, hslice, h⟩ := (Act.liftM_bind_ok_iff _ _ _ _ _).1 h
  obtain ⟨hs, st₁, hdecode, h⟩ := (Act.bind_ok_iff _ _ _ _ _).1 h
  obtain ⟨_, st₂, hupdate, h⟩ := (Act.bind_ok_iff _ _ _ _ _).1 h
  obtain ⟨rfl, rfl⟩ := (Act.pure_ok_iff _ _ _ _).1 h
  obtain ⟨hd, hout⟩ := decodeInbound_ok _ _ _ _ hdecode
  obtain ⟨hevict, hin⟩ := updateOutbound_ok _ _ _ _ hupdate
  rw [hout] at hevict
  exact ⟨n, octets, hs, hint, hslice, (Res.ensure_ok_iff _ _ _).1 hearly,
    (Res.ensure_ok_iff _ _ _).1 hle, by rw [hin]; exact hd, hevict, rfl⟩

theorem tableUpdate_ok (l l' : Locals) (st st' : HeaderRewriter D) (c : UInt8)
    (hc : byteAt block l.p = .ok c) (hu : c &&& 0xe0 = 0x20)
    (h : tableUpdate block limit l st = .ok l' st') :
    ∃ head n, UpdateStep block limit l st head n l' st' := by
  obtain ⟨n, octets, hs, hint, hslice, hearly, hle, hdecode, hevict, hl⟩ :=
    tableUpdate_run l l' st st' h
  obtain ⟨c', enc, hspan, hlen, henc⟩ := integer_spec _ _ _ _ _ hint
  have hcc : c' = c := by
    have := hspan.byteAt_eq
    rw [hc] at this
    cases this
    rfl
  subst hcc
  have ho : octets = c' :: enc := by
    have := hspan.slice_eq
    rw [hslice] at this
    cases this
    rfl
  subst ho
  obtain ⟨hlo, hhi⟩ := (octet_update_iff c').1 hu
  exact ⟨c' :: enc, n, ⟨c', enc, rfl, hlo, by omega, henc⟩, by simp; omega, hspan, hearly, hle,
    ⟨hs, hdecode⟩, hevict, hl⟩

theorem onlyHeader_ok (hs : List Header) (h : Header) (he : onlyHeader hs = .ok h) : hs = [h] := by
  unfold onlyHeader at he
  split at he
  · cases he; rfl
  · cases he

theorem Scanned.not_update {s : FieldSpan} {r : Rep} (h : Scanned block s r) :
    isSizeUpdate r = false := by
  have := h.parts
  cases r with
  | sizeUpdate head n => exact this.elim
  | indexed head i => rfl
  | literal mode head nm v => rfl

theorem Scanned.incremental {s : FieldSpan} {r : Rep} (h : Scanned block s r) :
    isIncremental s.c = isIncrementalRep r := by
  have hp := h.parts
  cases r with
  | sizeUpdate head n => exact hp.elim
  | indexed head i => simp [isIncremental, hp.1, isIncrementalRep]
  | literal mode head nm v =>
    obtain ⟨-, rfl, -⟩ := hp
    unfold modeOf
    cases hx : isIncremental s.c with
    | true => rfl
    | false =>
      by_cases h16 : 16 ≤ s.c.toNat
      · simp [h16, isIncrementalRep]
      · simp [h16, isIncrementalRep]

/-- What a field that is accepted consists of. -/
theorem field_run (l l' : Locals) (st st' : HeaderRewriter D) (c : UInt8)
    (h : field block m response c l st = .ok l' st') :
    ∃ s raw hd mapped piece, scanField block c l.p = .ok s ∧ slice block s.start s.stop = .ok raw ∧
      D.decode raw st.inbound = .ok [hd] st'.inbound ∧ FieldOk l hd.1 hd.2 ∧
      m.value hd.1 hd.2 response = .ok mapped ∧
      l.total + (hd.1.length + max mapped.length hd.2.length + 32) ≤ MAX_BLOCK ∧
      emit st.outbound block raw s hd.1 hd.2 mapped = .ok piece ∧
      remember c (hd.1, mapped) st.outbound = .ok st'.outbound ∧
      l' = { markField { l with fields := true } hd.1 with
        p := s.stop
        total := l.total + (hd.1.length + max mapped.length hd.2.length + 32)
        out := l.out ++ piece } := by
  unfold field at h
  obtain ⟨s, hscan, h⟩ := (Act.liftM_bind_ok_iff _ _ _ _ _).1 h
  obtain ⟨raw, hraw, h⟩ := (Act.liftM_bind_ok_iff _ _ _ _ _).1 h
  obtain ⟨headers, st₁, hdecode, h⟩ := (Act.bind_ok_iff _ _ _ _ _).1 h
  obtain ⟨hd, honly, h⟩ := (Act.liftM_bind_ok_iff _ _ _ _ _).1 h
  obtain ⟨l₁, hcheck, h⟩ := (Act.liftM_bind_ok_iff _ _ _ _ _).1 h
  obtain ⟨mapped, hmapped, h⟩ := (Act.liftM_bind_ok_iff _ _ _ _ _).1 h
  obtain ⟨_, htotal, h⟩ := (Act.liftM_bind_ok_iff _ _ _ _ _).1 h
  obtain ⟨t, st₂, hget, h⟩ := (Act.bind_ok_iff _ _ _ _ _).1 h
  obtain ⟨rfl, rfl⟩ := getOutbound_ok _ _ _ hget
  obtain ⟨piece, hemit, h⟩ := (Act.liftM_bind_ok_iff _ _ _ _ _).1 h
  obtain ⟨_, st₃, hupdate, h⟩ := (Act.bind_ok_iff _ _ _ _ _).1 h
  obtain ⟨rfl, rfl⟩ := (Act.pure_ok_iff _ _ _ _).1 h
  obtain rfl := onlyHeader_ok _ _ honly
  obtain ⟨hd', hout⟩ := decodeInbound_ok _ _ _ _ hdecode
  obtain ⟨hremember, hin⟩ := updateOutbound_ok _ _ _ _ hupdate
  obtain ⟨hok, rfl⟩ := checkField_ok _ _ _ _ hcheck
  rw [hout] at hremember hemit
  exact ⟨s, raw, hd, mapped, piece, hscan, hraw, by rw [hin]; exact hd',
    ⟨hok.name_ok, hok.value_ok, hok.order, hok.not_connect⟩, hmapped,
    (Res.ensure_ok_iff _ _ _).1 htotal, hemit, hremember, rfl⟩

theorem field_ok (l l' : Locals) (st st' : HeaderRewriter D) (c : UInt8)
    (hc : byteAt block l.p = .ok c) (hu : ¬ c &&& 0xe0 = 0x20)
    (h : field block m response c l st = .ok l' st') (hroom : l'.out.length ≤ MAX_BLOCK) :
    ∃ r hd mapped, FieldStep block m response l st r hd mapped l' st' := by
  obtain ⟨s, raw, hd, mapped, piece, hscan, hslice, hdecode, hok, hmapped, htotal, hemit, hremember,
    rfl⟩ := field_run l l' st st' c h
  obtain ⟨rfl, hstart, r, hr⟩ := scanField_spec _ _ _ _ hc hu hscan
  have hraw : raw = r.octets := by
    rw [hr.span.slice_eq] at hslice
    cases hslice
    rfl
  subst hraw
  have hpiece : piece = (written st.outbound r hd mapped).octets := by
    rw [emit_eq _ _ _ _ hd mapped hr] at hemit
    cases hemit
    rfl
  refine ⟨r, hd, mapped, hr.wellFormed, hr.not_update, hstart ▸ hr.span, hdecode, hok, hmapped,
    htotal, ?_, ?_, hroom⟩
  · rw [← hr.incremental]
    exact hremember
  · rw [hpiece]

/-- **What one pass can do.** -/
theorem rewriteOne_ok (l l' : Locals) (st st' : HeaderRewriter D)
    (h : rewriteOne block m response limit l st = .ok l' st') :
    ∃ v, Step block m response limit l st v l' st' := by
  unfold rewriteOne at h
  obtain ⟨c, st1, h0, hrest⟩ := (Act.bind_ok_iff _ _ _ _ _).1 h
  obtain ⟨h1, rfl⟩ := (Act.liftM_ok_iff _ _ _ _).1 h0
  split at hrest
  · next hu =>
    obtain ⟨head, n, hs⟩ := tableUpdate_ok _ _ _ _ _ h1 hu hrest
    exact ⟨.update head n, hs⟩
  · next hu =>
    simp only [Act.bind_ok_iff, Act.liftM_ok_iff] at hrest
    obtain ⟨l1, st2, h2, _, _, ⟨h3, rfl⟩, h4⟩ := hrest
    obtain ⟨rfl, rfl⟩ := (Act.pure_ok_iff _ _ _ _).1 h4
    rw [Res.ensure_ok_iff] at h3
    obtain ⟨r, hd, mapped, hs⟩ := field_ok _ _ _ _ _ h1 hu h2 h3
    exact ⟨.field r hd mapped, hs⟩

end

/-! ## A whole call -/

/-- The visits of a run of the loop, and the representations it wrote. -/
inductive Trace {D : HpackCrate} {U : UrlCrate} (block : Bytes) (m : Mapping U) (response : Bool)
    (limit : Nat) :
    Locals → HeaderRewriter D → List Visit → List Rep → Locals → HeaderRewriter D → Prop where
  | nil (l : Locals) (st : HeaderRewriter D) : Trace block m response limit l st [] [] l st
  | cons {l l1 l' : Locals} {st st1 st' : HeaderRewriter D} {v : Visit} {vs : List Visit}
      {ws : List Rep} : Step block m response limit l st v l1 st1 →
      Trace block m response limit l1 st1 vs ws l' st' →
      Trace block m response limit l st (v :: vs) (v.out st.outbound :: ws) l' st'

section
variable {D : HpackCrate} {U : UrlCrate} {block : Bytes} {m : Mapping U} {response : Bool}
  {limit : Nat}

theorem Step.span {l l' : Locals} {st st' : HeaderRewriter D} {v : Visit}
    (h : Step block m response limit l st v l' st') : Span block l.p l'.p v.rep.octets := by
  cases v with
  | update head n => exact UpdateStep.span h
  | field r hd mapped => exact FieldStep.span h

theorem Step.wellFormed {l l' : Locals} {st st' : HeaderRewriter D} {v : Visit}
    (h : Step block m response limit l st v l' st') : v.rep.WellFormed := by
  cases v with
  | update head n => exact UpdateStep.isHead h
  | field r hd mapped => exact FieldStep.wellFormed h

theorem Step.wrote {l l' : Locals} {st st' : HeaderRewriter D} {v : Visit}
    (h : Step block m response limit l st v l' st') :
    l'.out = l.out ++ (v.out st.outbound).octets := by
  cases v with
  | update head n => rw [UpdateStep.locals h]; rfl
  | field r hd mapped => rw [FieldStep.locals h]; rfl

theorem Step.out_wellFormed {l l' : Locals} {st st' : HeaderRewriter D} {v : Visit}
    (h : Step block m response limit l st v l' st') : (v.out st.outbound).WellFormed := by
  cases v with
  | update head n => exact UpdateStep.isHead h
  | field r hd mapped => exact written_wellFormed _ _ _ _ (FieldStep.wellFormed h)

theorem octets_ne_nil (r : Rep) (h : r.WellFormed) : r.octets ≠ [] := by
  cases r with
  | indexed head i =>
    obtain ⟨c, enc, rfl, -⟩ := h
    exact fun h => nomatch h
  | sizeUpdate head n =>
    obtain ⟨c, enc, rfl, -⟩ := h
    exact fun h => nomatch h
  | literal mode head nm v =>
    obtain ⟨i, ⟨c, enc, rfl, -⟩, -⟩ := h
    exact fun h => nomatch h

/-- A pass moves on. -/
theorem Step.advance {l l' : Locals} {st st' : HeaderRewriter D} {v : Visit}
    (h : Step block m response limit l st v l' st') : l.p < l'.p ∧ l'.p ≤ block.length := by
  have hs := h.span
  have := List.length_pos_iff.2 (octets_ne_nil _ h.wellFormed)
  exact ⟨by have := hs.stop; omega, hs.bound⟩

/-- The fuel outlasts the block. -/
theorem rewriteLoop_ok : ∀ (fuel : Nat) (l l' : Locals) (st st' : HeaderRewriter D),
    l.p ≤ block.length → block.length ≤ l.p + fuel →
    rewriteLoop block m response limit fuel l st = .ok l' st' →
    ∃ vs ws, Trace block m response limit l st vs ws l' st' ∧ l'.p = block.length := by
  intro fuel
  induction fuel with
  | zero =>
    intro l l' st st' hp hf h
    obtain ⟨rfl, rfl⟩ := (Act.pure_ok_iff _ _ _ _).1 h
    exact ⟨[], [], Trace.nil _ _, by omega⟩
  | succ fuel ih =>
    intro l l' st st' hp hf h
    unfold rewriteLoop at h
    split at h
    · obtain ⟨l1, st1, h1, h2⟩ := (Act.bind_ok_iff _ _ _ _ _).1 h
      obtain ⟨v, hv⟩ := rewriteOne_ok _ _ _ _ h1
      obtain ⟨ha, hb⟩ := hv.advance
      obtain ⟨vs, ws, ht, he⟩ := ih l1 l' st1 st' hb (by omega) h2
      exact ⟨v :: vs, _ :: ws, Trace.cons hv ht, he⟩
    · obtain ⟨rfl, rfl⟩ := (Act.pure_ok_iff _ _ _ _).1 h
      exact ⟨[], [], Trace.nil _ _, by omega⟩

theorem Trace.read {l l' : Locals} {st st' : HeaderRewriter D} {vs : List Visit} {ws : List Rep}
    (h : Trace block m response limit l st vs ws l' st') :
    block.drop l.p = (vs.map Visit.rep).flatMap Rep.octets ++ block.drop l'.p := by
  induction h with
  | nil l st => rfl
  | cons hs _ ih => rw [hs.span.drop, ih, List.map_cons, List.flatMap_cons, List.append_assoc]

theorem Trace.wrote {l l' : Locals} {st st' : HeaderRewriter D} {vs : List Visit} {ws : List Rep}
    (h : Trace block m response limit l st vs ws l' st') :
    l'.out = l.out ++ ws.flatMap Rep.octets := by
  induction h with
  | nil l st => simp
  | cons hs _ ih => rw [ih, hs.wrote, List.flatMap_cons, List.append_assoc]

theorem Trace.wellFormed {l l' : Locals} {st st' : HeaderRewriter D} {vs : List Visit}
    {ws : List Rep} (h : Trace block m response limit l st vs ws l' st') :
    (∀ r ∈ vs.map Visit.rep, r.Valid) ∧ ∀ r ∈ ws, r.Valid := by
  induction h with
  | nil l st => exact ⟨fun r hr => by simp at hr, fun r hr => by simp at hr⟩
  | cons hs _ ih =>
    refine ⟨fun r hr => ?_, fun r hr => ?_⟩
    · rcases List.mem_cons.1 hr with rfl | hr
      · exact hs.wellFormed.valid
      · exact ih.1 r hr
    · rcases List.mem_cons.1 hr with rfl | hr
      · exact hs.out_wellFormed.valid
      · exact ih.2 r hr

/-- **A successful call** is a trace over the whole block. -/
theorem rewrite_ok (st st' : HeaderRewriter D) (out : Bytes)
    (h : rewrite block m response limit st = .ok out st') :
    ∃ vs ws l', Trace block m response limit {} st vs ws l' st' ∧
      block = (vs.map Visit.rep).flatMap Rep.octets ∧ out = ws.flatMap Rep.octets ∧
      (response = false ∧ l'.method = true → l'.authority = 1) := by
  unfold rewrite at h
  simp only [Act.bind_ok_iff, Act.liftM_ok_iff] at h
  obtain ⟨_, _, ⟨-, rfl⟩, l', st1, h2, _, _, ⟨h3, rfl⟩, h4⟩ := h
  rw [Res.ensure_ok_iff] at h3
  obtain ⟨rfl, rfl⟩ := (Act.pure_ok_iff _ _ _ _).1 h4
  obtain ⟨vs, ws, ht, he⟩ := rewriteLoop_ok block.length {} l' st st' (Nat.zero_le _) (by simp) h2
  refine ⟨vs, ws, l', ht, ?_, ?_, h3⟩
  · have := ht.read
    rw [he, List.drop_length, List.append_nil] at this
    exact this
  · have := ht.wrote
    rwa [List.nil_append] at this

end

end HpackWire
