import FingerprintBridge.Wire.Trace

/-!
# Huffman strings (RFC 7541 §5.2)

`putString` writes a payload whose bits are the codes of the octets and fewer than
eight ones.  The table with its end-of-string code is a prefix code, so nothing else
can be read from these bits.  `Encoder` are the locals of the loop between two octets.
-/

namespace HpackWire

open Hpack

/-! ## The table as a prefix code -/

/-- The entry of a symbol: an octet, or 256 for the end of the string. -/
def symbolEntry (s : Nat) : Nat × Nat := HUFFMAN_CODE_TABLE.getD s (0, 0)

theorem symbolEntry_eq (s : Nat) (hs : s < 257) :
    symbolEntry s = HUFFMAN_CODE_TABLE.get ⟨s, by rw [huffmanTable_length]; exact hs⟩ :=
  List.getD_eq_getElem _ _ _

theorem symbolEntry_octet (c : UInt8) : symbolEntry c.toNat = huffmanEntry c :=
  symbolEntry_eq c.toNat (by have := c.toNat_lt; omega)

theorem symbolEntry_apart (s t : Nat) (hs : s < 257) (ht : t < 257)
    (h : entryBits (symbolEntry s) <+: entryBits (symbolEntry t)) : s = t := by
  rw [symbolEntry_eq s hs, symbolEntry_eq t ht] at h
  exact tableOk_prefixFree _ huffmanTable_ok s t _ _ h

theorem symbolEntry_eos : entryBits (symbolEntry 256) = List.replicate 30 true := by
  rw [symbolEntry_eq 256 (by omega)]
  exact huffmanTable_eos

theorem symbolEntry_not_padding (s n : Nat) (hs : s < 257) (hn : n < 8) :
    ¬ entryBits (symbolEntry s) <+: List.replicate n true := by
  intro h
  by_cases h256 : s = 256
  · rw [h256, symbolEntry_eos] at h
    have := h.length_le
    simp only [List.length_replicate] at this
    omega
  · have hc : symbolEntry s = huffmanEntry (UInt8.ofNat s) := by
      rw [← symbolEntry_octet, UInt8.toNat_ofNat', Nat.mod_eq_of_lt (by omega)]
    rw [hc] at h
    exact huffmanEntry_not_padding _ n hn h

theorem mem_symbols (s : Nat) : s ∈ 256 :: huffmanCode.symbols.map UInt8.toNat ↔ s < 257 := by
  rw [List.mem_cons, List.mem_map]
  constructor
  · rintro (rfl | ⟨c, -, rfl⟩)
    · omega
    · have := c.toNat_lt
      omega
  · intro hs
    by_cases h : s = 256
    · exact Or.inl h
    · refine Or.inr ⟨UInt8.ofNat s, mem_huffmanCode_symbols _, ?_⟩
      rw [UInt8.toNat_ofNat', Nat.mod_eq_of_lt (by omega)]

/-- The code of all symbols, the end of the string among them. -/
def symbolCode : PrefixCode Nat where
  symbols := 256 :: huffmanCode.symbols.map UInt8.toNat
  code s := entryBits (symbolEntry s)
  code_ne_nil := by
    intro s hs h
    refine symbolEntry_not_padding s 0 ((mem_symbols s).1 hs) (by omega) ?_
    rw [h]
    exact List.nil_prefix
  prefix_free := fun s hs t ht h =>
    symbolEntry_apart s t ((mem_symbols s).1 hs) ((mem_symbols t).1 ht) h
  not_padding := fun s hs n hn => symbolEntry_not_padding s n ((mem_symbols s).1 hs) hn

theorem symbolCode_octet (c : UInt8) : symbolCode.code c.toNat = huffmanCode.code c := by
  show entryBits (symbolEntry c.toNat) = entryBits (huffmanEntry c)
  rw [symbolEntry_octet]

theorem symbolCode_octets (v : Bytes) :
    (v.map UInt8.toNat).flatMap symbolCode.code = v.flatMap huffmanCode.code := by
  rw [List.flatMap_map]
  congr 1
  funext c
  exact symbolCode_octet c

theorem octet_symbols (v : Bytes) : ∀ s ∈ v.map UInt8.toNat, s < 257 := by
  intro s hs
  obtain ⟨c, -, rfl⟩ := List.mem_map.1 hs
  have := c.toNat_lt
  omega

/-- The bits of the payload, and how they can be read. -/
theorem encodeLoop_symbols (v : Bytes) :
    ∃ k, k < 8 ∧ octetBits (encodeLoop v 0 0) =
      (v.map UInt8.toNat).flatMap symbolCode.code ++ List.replicate k true := by
  obtain ⟨k, hk, h⟩ := encodeLoop_bits v 0 0 (by omega)
  refine ⟨k, hk, ?_⟩
  rw [h, symbolCode_octets]
  rfl

theorem decode_symbols (b : Bytes) (w : List Nat) (k : Nat) (hw : ∀ s ∈ w, s < 257) (hk : k < 8)
    (h : octetBits b = w.flatMap symbolCode.code ++ List.replicate k true) :
    symbolCode.decode b = some w :=
  symbolCode.decode_of_bits b w k hk (fun s hs => (mem_symbols s).2 (hw s hs)) h

/-! ## The accumulator -/

/-- The locals of the loop: the octets pushed, and the pending bits in `buffer`. -/
structure Encoder where
  encoded : Bytes
  buffer : Nat
  bits : Nat

namespace Encoder

def start : Encoder := ⟨[], 0, 0⟩

/-- `(buffer << width) | u64::from(code)` -/
def shifted (e : Encoder) (c : UInt8) : Nat :=
  (e.buffer <<< (huffmanEntry c).2 ||| (huffmanEntry c).1) % 2 ^ 64

/-- One pass of the loop. -/
def push (e : Encoder) (c : UInt8) : Encoder :=
  let r := drain (e.shifted c) (e.bits + (huffmanEntry c).2)
  ⟨e.encoded ++ r.1, e.shifted c, r.2⟩

/-- The bits written and the bits pending. -/
def written (e : Encoder) : List Bool := octetBits e.encoded ++ toBits e.bits e.buffer

theorem encodeLoop_push (e : Encoder) (c : UInt8) (value : Bytes) :
    e.encoded ++ encodeLoop (c :: value) e.buffer e.bits =
      (e.push c).encoded ++ encodeLoop value (e.push c).buffer (e.push c).bits := by
  simp only [encodeLoop, push, shifted, List.append_assoc]

/-- The octets read so far leave the loop in the encoder's state. -/
theorem encodeLoop_foldl (read : Bytes) : ∀ (e : Encoder) (rest : Bytes),
    e.encoded ++ encodeLoop (read ++ rest) e.buffer e.bits =
      (read.foldl push e).encoded ++
        encodeLoop rest (read.foldl push e).buffer (read.foldl push e).bits := by
  induction read with
  | nil => exact fun e rest => rfl
  | cons c read ih =>
    intro e rest
    rw [List.cons_append, encodeLoop_push, ih (e.push c) rest, List.foldl_cons]

/-- The pending bits and the next code fit the accumulator together. -/
theorem shifted_bits (e : Encoder) (he : e.bits < 8) (c : UInt8) :
    toBits (e.bits + (huffmanEntry c).2) (e.shifted c) =
      toBits e.bits e.buffer ++ huffmanCode.code c := by
  have hw := huffmanEntry_width c
  unfold shifted
  rw [toBits_mod _ 64 _ (by omega), toBits_shiftLeft_or _ _ _ _ (huffmanEntry_lt c)]
  rfl

theorem push_written (e : Encoder) (he : e.bits < 8) (c : UInt8) :
    (e.push c).bits < 8 ∧ (e.push c).written = e.written ++ huffmanCode.code c := by
  obtain ⟨h1, h2⟩ := drain_spec (e.shifted c) (e.bits + (huffmanEntry c).2)
  rw [shifted_bits e he c] at h1
  refine ⟨h2, ?_⟩
  simp only [written, push]
  rw [octetBits_append, List.append_assoc, h1, List.append_assoc]

theorem foldl_written (read : Bytes) : ∀ e : Encoder, e.bits < 8 →
    (read.foldl push e).bits < 8 ∧
      (read.foldl push e).written = e.written ++ read.flatMap huffmanCode.code := by
  induction read with
  | nil => exact fun e he => ⟨he, by simp⟩
  | cons c read ih =>
    intro e he
    obtain ⟨h1, h2⟩ := push_written e he c
    obtain ⟨h3, h4⟩ := ih (e.push c) h1
    rw [List.foldl_cons, List.flatMap_cons]
    exact ⟨h3, by rw [h4, h2, List.append_assoc]⟩

end Encoder

/-- **Huffman strings round-trip.**  `putString` announces the length of its payload with the
Huffman bit set; the payload is the codes of the value and then fewer than eight ones, which read
as the value and as no other symbols.  Between any two octets the accumulator and the octets
pushed hold every bit of the codes read, and the next code fits beside the pending bits. -/
theorem putString_huffman (v : Bytes) :
    ∃ payload, putString v true = putInt payload.length 0x80 7 ++ payload ∧
      IsHead 128 7 payload.length (putInt payload.length 0x80 7) ∧
      (∀ d, stringLit (putString v true ++ d) =
        some ({ octets := putString v true, payload := payload, huffman := true }, d)) ∧
      symbolCode.decode payload = some (v.map UInt8.toNat) ∧
      (∃ k, k < 8 ∧ octetBits payload =
        (v.map UInt8.toNat).flatMap symbolCode.code ++ List.replicate k true) ∧
      (∀ w k, (∀ s ∈ w, s < 257) → k < 8 →
        octetBits payload = w.flatMap symbolCode.code ++ List.replicate k true →
        w = v.map UInt8.toNat) ∧
      ∀ read rest, v = read ++ rest → ∃ e : Encoder, e = read.foldl Encoder.push Encoder.start ∧
        payload = e.encoded ++ encodeLoop rest e.buffer e.bits ∧ e.bits < 8 ∧
        e.written = (read.map UInt8.toNat).flatMap symbolCode.code ∧
        ∀ c, e.bits + (huffmanEntry c).2 < 64 ∧
          toBits (e.bits + (huffmanEntry c).2) (e.shifted c) =
            toBits e.bits e.buffer ++ symbolCode.code c.toNat := by
  obtain ⟨k, hk, hbits⟩ := encodeLoop_symbols v
  have hdecode := decode_symbols _ _ k (octet_symbols v) hk hbits
  refine ⟨encodeLoop v 0 0, rfl, isHead_putInt 128 7 _ (by decide) (by omega) (by omega),
    fun d => stringLit_putString v true d, hdecode, ⟨k, hk, hbits⟩, fun w j hw hj h => ?_,
    fun read rest hv => ⟨_, rfl, ?_, ?_, ?_, fun c => ⟨?_, ?_⟩⟩⟩
  · have := decode_symbols _ w j hw hj h
    rw [hdecode] at this
    exact (Option.some.inj this).symm
  · have := Encoder.encodeLoop_foldl read Encoder.start rest
    rw [← hv] at this
    exact this
  · exact (Encoder.foldl_written read Encoder.start (by decide)).1
  · rw [symbolCode_octets]
    exact (Encoder.foldl_written read Encoder.start (by decide)).2
  · have h8 := (Encoder.foldl_written read Encoder.start (by decide)).1
    have hw := huffmanEntry_width c
    omega
  · rw [symbolCode_octet]
    exact Encoder.shifted_bits _ (Encoder.foldl_written read Encoder.start (by decide)).1 c

end HpackWire
