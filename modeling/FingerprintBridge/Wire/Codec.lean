import FingerprintBridge.Wire.HpackWire

/-!
# The wire codec agrees with RFC 7541

`integer` and `skipString` delimit what the RFC's readers read, and `putInt` and
`putString` write what those readers return.
-/

namespace HpackWire

/-- A decidable property of octets, checked on all of them. -/
theorem forall_octet (P : UInt8 → Prop) (h : ∀ n < 256, P (UInt8.ofNat n)) (c : UInt8) : P c := by
  have := h c.toNat c.toNat_lt
  rwa [UInt8.ofNat_toNat] at this

theorem octet_low (c : UInt8) : (c &&& 127).toNat = c.toNat % 128 :=
  forall_octet (fun c => (c &&& 127).toNat = c.toNat % 128) (by decide +kernel) c

theorem octet_high_iff (c : UInt8) : c &&& 128 = 0 ↔ c.toNat < 128 :=
  forall_octet (fun c => c &&& 128 = 0 ↔ c.toNat < 128) (by decide +kernel) c

/-! ## Spans of a block -/

/-- `enc` are the octets of `b` from `p` to `p'`. -/
structure Span (b : Bytes) (p p' : Nat) (enc : Bytes) : Prop where
  drop : b.drop p = enc ++ b.drop p'
  stop : p' = p + enc.length
  bound : p' ≤ b.length

theorem Span.nil (b : Bytes) (p : Nat) (h : p ≤ b.length) : Span b p p [] := ⟨rfl, rfl, h⟩

theorem Span.octet (b : Bytes) (p : Nat) (h : p < b.length) : Span b p (p + 1) [b.get ⟨p, h⟩] :=
  ⟨List.drop_eq_getElem_cons h, rfl, h⟩

theorem Span.append {b : Bytes} {p q r : Nat} {e f : Bytes} (h1 : Span b p q e)
    (h2 : Span b q r f) : Span b p r (e ++ f) := by
  refine ⟨?_, ?_, h2.bound⟩
  · rw [h1.drop, h2.drop, List.append_assoc]
  · rw [h2.stop, h1.stop, List.length_append]
    omega

theorem Span.slice_eq {b : Bytes} {p q : Nat} {e : Bytes} (h : Span b p q e) :
    slice b p q = .ok e := by
  rw [Res.slice_of_le b p q (by have := h.stop; omega) h.bound, h.drop]
  congr 1
  exact List.take_left' (by have := h.stop; omega)

theorem Span.of_slice {b : Bytes} {p q : Nat} {e : Bytes} (h : slice b p q = .ok e) :
    Span b p q e := by
  unfold slice at h
  split at h
  · next hle =>
    obtain rfl := Except.ok.inj h
    refine ⟨?_, by simp; omega, hle.2⟩
    conv => lhs; rw [← List.take_append_drop (q - p) (b.drop p), List.drop_drop]
    rw [show p + (q - p) = q by omega]
  · cases h

theorem Span.byteAt_eq {b : Bytes} {p q : Nat} {c : UInt8} {e : Bytes} (h : Span b p q (c :: e)) :
    byteAt b p = .ok c := by
  rw [Res.byteAt_ok_iff]
  have := congrArg (fun l => l[0]?) h.drop
  simpa using this

/-! ## Reading integers -/

/-- The loop reads a continuation, at most five octets of it. -/
theorem integerLoop_spec (b : Bytes) (p n shift : Nat) :
    ∀ v p', integerLoop b p n shift = .ok (v, p') →
      ∃ enc w, Span b p p' enc ∧ enc ≠ [] ∧ 7 * enc.length + shift ≤ 35 ∧ v = n + w * 2 ^ shift ∧
        ∀ d, Hpack.continuation (enc ++ d) = some (w, d) := by
  fun_induction integerLoop b p n shift with
  | case1 p n shift hc c d hlt hz =>
    intro v p' h
    simp only [Except.ok.injEq, Prod.mk.injEq] at h
    obtain ⟨rfl, rfl⟩ := h
    have hz' := (octet_high_iff c).1 hz
    refine ⟨[c], c.toNat, Span.octet b p hc.1, by simp, by simp; omega, ?_, ?_⟩
    · show n + (c &&& 127).toNat <<< shift = _
      rw [octet_low, Nat.mod_eq_of_lt hz', Nat.shiftLeft_eq]
    · intro d'
      simp [Hpack.continuation, hz']
  | case2 p n shift hc c d hlt hz ih =>
    intro v p' h
    have hz' : ¬ c.toNat < 128 := fun h' => hz ((octet_high_iff c).2 h')
    have hc256 := c.toNat_lt
    obtain ⟨enc, w, h1, h2, h3, h4, h5⟩ := ih v p' h
    refine ⟨c :: enc, c.toNat - 128 + 128 * w, (Span.octet b p hc.1).append h1, by simp,
      by simp; omega, ?_, ?_⟩
    · rw [h4]
      show n + (c &&& 127).toNat <<< shift + _ = _
      rw [octet_low, Nat.shiftLeft_eq, Nat.pow_add, show c.toNat % 128 = c.toNat - 128 by omega,
        Nat.add_mul, Nat.add_assoc]
      congr 2
      rw [Nat.mul_comm (2 ^ shift), ← Nat.mul_assoc, Nat.mul_comm w]
    · intro d'
      simp only [List.cons_append, Hpack.continuation, if_neg hz', h5, Option.map_some]
  | case3 p n shift hc c d hlt => intro v p' h; cases h
  | case4 p n shift hc => intro v p' h; cases h

/-- An integer is its first octet and what the RFC's reader reads after it. -/
theorem integer_spec (b : Bytes) (p bits v p' : Nat) (h : integer b p bits = .ok (v, p')) :
    ∃ c enc, Span b p p' (c :: enc) ∧ enc.length ≤ 5 ∧
      ∀ d, Hpack.integer bits c (enc ++ d) = some (v, d) := by
  unfold integer at h
  obtain ⟨_, h1, h⟩ := (Res.bind_ok_iff _ _ _).1 h
  obtain ⟨c, h2, h⟩ := (Res.bind_ok_iff _ _ _).1 h
  have hp : p < b.length := (Res.ensure_ok_iff _ _ _).1 h1
  rw [Res.byteAt_of_lt b p hp, Except.ok.injEq] at h2
  simp only [Nat.and_two_pow_sub_one_eq_mod] at h
  have hs : Span b p (p + 1) [c] := h2 ▸ Span.octet b p hp
  split at h
  · next hlt =>
    cases h
    exact ⟨c, [], hs, by simp, fun d => by simp [Hpack.integer, hlt]⟩
  · next hlt =>
    obtain ⟨enc, w, h3, -, h4, h5, h6⟩ := integerLoop_spec _ _ _ _ v p' h
    refine ⟨c, enc, hs.append h3, by omega, fun d => ?_⟩
    have hmod : c.toNat % 2 ^ bits < 2 ^ bits := Nat.mod_lt _ (Nat.two_pow_pos bits)
    simp only [Hpack.integer, if_neg hlt, h6, Option.map_some, Option.some.injEq, Prod.mk.injEq,
      and_true]
    rw [h5]
    simp
    omega

/-! ## Reading strings -/

/-- A length and as many octets are a string literal of the RFC. -/
theorem Span.stringLit {b : Bytes} {p q n : Nat} {c : UInt8} {enc : Bytes}
    (hs : Span b p q (c :: enc)) (hi : ∀ d, Hpack.integer 7 c (enc ++ d) = some (n, d))
    (hn : q + n ≤ b.length) : ∃ s : Hpack.StringLit, Span b p (q + n) s.octets ∧ s.Valid := by
  have hp : Span b q (q + n) ((b.drop q).take n) := by
    refine ⟨?_, by simp; omega, hn⟩
    rw [← List.drop_drop, List.take_append_drop]
  have hlen : ((b.drop q).take n).length = n := by simp; omega
  refine ⟨{ octets := c :: enc ++ (b.drop q).take n, payload := (b.drop q).take n,
            huffman := decide (128 ≤ c.toNat) }, hs.append hp, fun d => ?_⟩
  show Hpack.stringLit (c :: enc ++ (b.drop q).take n ++ d) = _
  unfold Hpack.stringLit
  rw [Parser.bind_some_iff]
  refine ⟨c, enc ++ ((b.drop q).take n ++ d), by simp [Parser.item], ?_⟩
  rw [Parser.bind_some_iff]
  refine ⟨(enc, n), (b.drop q).take n ++ d, ?_, ?_⟩
  · rw [Parser.consumed_some_iff _ (Hpack.delimited_integer 7 c)]
    exact ⟨hi _, rfl⟩
  · simp only
    rw [Parser.bind_some_iff]
    exact ⟨_, d, (Parser.takeN_some_iff _ _ _ _).2 ⟨hlen, rfl⟩, rfl⟩

/-- A skipped string is one. -/
theorem skipString_spec (b : Bytes) (p p' : Nat) (h : skipString b p = .ok p') :
    ∃ s : Hpack.StringLit, Span b p p' s.octets ∧ s.Valid := by
  unfold skipString at h
  obtain ⟨⟨n, q⟩, h1, h⟩ := (Res.bind_ok_iff _ _ _).1 h
  obtain ⟨_, h2, h⟩ := (Res.bind_ok_iff _ _ _).1 h
  have hn : n ≤ b.length - q := (Res.ensure_ok_iff _ _ _).1 h2
  cases h
  obtain ⟨c, enc, hs, -, hi⟩ := integer_spec _ _ _ _ _ h1
  have hq := hs.bound
  exact hs.stringLit hi (by omega)

/-! ## Writing integers -/

theorem octet_more (n : Nat) : ((UInt8.ofNat n &&& 127) ||| 128).toNat = n % 128 + 128 := by
  have h := forall_octet (fun c => ((c &&& 127) ||| 128).toNat = c.toNat % 128 + 128)
    (by decide +kernel) (UInt8.ofNat n)
  rw [h, UInt8.toNat_ofNat']
  omega

/-- What the loop writes reads back as a continuation. -/
theorem continuation_putIntLoop (n : Nat) (d : Bytes) :
    Hpack.continuation (putIntLoop n ++ d) = some (n, d) := by
  fun_induction putIntLoop n with
  | case1 n h ih =>
    have hm := octet_more n
    have hn : n >>> 7 = n / 128 := Nat.shiftRight_eq_div_pow n 7
    have hge : ¬ ((UInt8.ofNat n &&& 127) ||| 128).toNat < 128 := by omega
    rw [List.cons_append, Hpack.continuation, if_neg hge, ih, hm, hn]
    simp only [Option.map_some, Option.some.injEq, Prod.mk.injEq, and_true]
    omega
  | case2 n h =>
    have hn : (UInt8.ofNat n).toNat = n := by
      rw [UInt8.toNat_ofNat']
      omega
    simp only [List.cons_append, List.nil_append, Hpack.continuation, hn]
    rw [if_pos (by omega)]

/-- Bits below a lead are added to it. -/
theorem lead_or (lead : UInt8) (bits k : Nat) (hl : lead.toNat % 2 ^ bits = 0) (hb : bits ≤ 8)
    (hk : k < 2 ^ bits) : (lead ||| UInt8.ofNat k).toNat = lead.toNat + k := by
  have h256 : 2 ^ bits ≤ 2 ^ 8 := Nat.pow_le_pow_right (by omega) hb
  rw [UInt8.toNat_or, UInt8.toNat_ofNat', Nat.mod_eq_of_lt (by omega : k < 2 ^ 8)]
  have hd := Nat.div_add_mod lead.toNat (2 ^ bits)
  rw [hl, Nat.add_zero] at hd
  rw [← hd]
  exact (Nat.two_pow_add_eq_or_of_lt hk _).symm

/-- What `putInt` writes, the RFC's reader reads. -/
theorem putInt_spec (n : Nat) (lead : UInt8) (bits : Nat) (hl : lead.toNat % 2 ^ bits = 0)
    (hb : bits ≤ 8) :
    ∃ c enc, putInt n lead bits = c :: enc ∧ c.toNat = lead.toNat + min n (2 ^ bits - 1) ∧
      ∀ d, Hpack.integer bits c (enc ++ d) = some (n, d) := by
  have hpos := Nat.two_pow_pos bits
  have hmod : ∀ k, k < 2 ^ bits → (lead.toNat + k) % 2 ^ bits = k := by
    intro k hk
    rw [Nat.add_mod, hl, Nat.zero_add, Nat.mod_mod, Nat.mod_eq_of_lt hk]
  unfold putInt
  simp only
  split
  · next h =>
    refine ⟨_, [], rfl, ?_, fun d => ?_⟩
    · rw [lead_or lead bits n hl hb (by omega), Nat.min_eq_left (by omega)]
    · simp only [Hpack.integer, lead_or lead bits n hl hb (by omega), hmod n (by omega), if_pos h,
        List.nil_append]
  · next h =>
    refine ⟨_, _, rfl, ?_, fun d => ?_⟩
    · rw [lead_or lead bits _ hl hb (by omega), Nat.min_eq_right (by omega)]
    · simp only [Hpack.integer, lead_or lead bits _ hl hb (by omega : 2 ^ bits - 1 < 2 ^ bits),
        hmod _ (by omega : 2 ^ bits - 1 < 2 ^ bits), if_neg (Nat.lt_irrefl _),
        continuation_putIntLoop, Option.map_some]
      simp only [Option.some.injEq, Prod.mk.injEq, and_true]
      omega

/-! ## Writing strings -/

theorem drain_spec (buffer bits : Nat) :
    octetBits (drain buffer bits).1 ++ toBits (drain buffer bits).2 buffer = toBits bits buffer ∧
      (drain buffer bits).2 < 8 := by
  fun_induction drain buffer bits with
  | case1 bits r ih =>
    refine ⟨?_, ih.2⟩
    have he : octetBits (UInt8.ofNat (buffer >>> bits) :: r.1) =
        octetBits [UInt8.ofNat (buffer >>> bits)] ++ octetBits r.1 := octetBits_append [_] r.1
    show octetBits (UInt8.ofNat (buffer >>> bits) :: r.1) ++ toBits r.2 buffer =
      toBits (bits + 8) buffer
    rw [he, octetBits_singleton, List.append_assoc, ih.1, Nat.add_comm bits 8, toBits_add]
  | case2 bits h =>
    have hlt : bits < 8 := by
      by_cases hb : 8 ≤ bits
      · exact absurd (by omega) (h (bits - 8))
      · omega
    exact ⟨rfl, hlt⟩

theorem low_ones : ∀ bits, bits < 8 → 0xff >>> bits = 2 ^ (8 - bits) - 1 := by decide

/-- The last octet: the pending bits, and ones. -/
theorem octetBits_last (buffer bits : Nat) (hb : bits < 8) :
    octetBits [UInt8.ofNat (buffer <<< (8 - bits)) ||| UInt8.ofNat (0xff >>> bits)] =
      toBits bits buffer ++ List.replicate (8 - bits) true := by
  rw [← UInt8.ofNat_or, octetBits_singleton, low_ones bits hb]
  have hpos := Nat.two_pow_pos (8 - bits)
  have h := toBits_shiftLeft_or bits (8 - bits) buffer (2 ^ (8 - bits) - 1) (by omega)
  rw [show bits + (8 - bits) = 8 by omega, toBits_ones] at h
  exact h

/-- The accumulator keeps the pending bits: what is written is they, the codes, and padding. -/
theorem encodeLoop_bits : ∀ (value : Bytes) (buffer bits : Nat), bits < 8 →
    ∃ k, k < 8 ∧ octetBits (encodeLoop value buffer bits) =
      toBits bits buffer ++ value.flatMap huffmanCode.code ++ List.replicate k true := by
  intro value
  induction value with
  | nil =>
    intro buffer bits hb
    unfold encodeLoop
    split
    · next hne =>
      exact ⟨8 - bits, by omega, by rw [octetBits_last buffer bits hb]; simp⟩
    · next he =>
      have : bits = 0 := by omega
      subst this
      exact ⟨0, by omega, rfl⟩
  | cons c value ih =>
    intro buffer bits hb
    have hw := huffmanEntry_width c
    have hc := huffmanEntry_lt c
    simp only [encodeLoop]
    -- the pending bits and the code are fewer than 64, so the shift loses none of them
    obtain ⟨h1, h2⟩ := drain_spec ((buffer <<< (huffmanEntry c).2 ||| (huffmanEntry c).1) % 2 ^ 64)
      (bits + (huffmanEntry c).2)
    rw [toBits_mod (bits + (huffmanEntry c).2) 64 _ (by omega), toBits_shiftLeft_or _ _ _ _ hc] at h1
    obtain ⟨k, hk, he⟩ := ih _ _ h2
    refine ⟨k, hk, ?_⟩
    have hcode : huffmanCode.code c = toBits (huffmanEntry c).2 (huffmanEntry c).1 := rfl
    rw [octetBits_append, he, List.flatMap_cons, hcode, ← List.append_assoc, ← List.append_assoc,
      h1, List.append_assoc (toBits bits buffer)]

theorem decode_encodeLoop (value : Bytes) :
    huffmanCode.decode (encodeLoop value 0 0) = some value := by
  obtain ⟨k, hk, h⟩ := encodeLoop_bits value 0 0 (by omega)
  exact huffmanCode.decode_of_bits _ _ k hk (fun c _ => mem_huffmanCode_symbols c) h

/-- A length and a payload are a string literal. -/
theorem stringLit_putInt (payload : Bytes) (lead : UInt8) (hl : lead.toNat % 2 ^ 7 = 0) (d : Bytes) :
    Hpack.stringLit (putInt payload.length lead 7 ++ payload ++ d) =
      some ({ octets := putInt payload.length lead 7 ++ payload, payload := payload,
              huffman := decide (128 ≤ lead.toNat) }, d) := by
  obtain ⟨c, enc, h1, h2, h3⟩ := putInt_spec payload.length lead 7 hl (by omega)
  have hc : decide (128 ≤ c.toNat) = decide (128 ≤ lead.toNat) := by
    have := c.toNat_lt
    rw [h2]
    congr 1
    rw [eq_iff_iff]
    omega
  rw [h1]
  unfold Hpack.stringLit
  rw [Parser.bind_some_iff]
  refine ⟨c, enc ++ (payload ++ d), by simp [Parser.item], ?_⟩
  rw [Parser.bind_some_iff]
  refine ⟨(enc, payload.length), payload ++ d, ?_, ?_⟩
  · rw [Parser.consumed_some_iff _ (Hpack.delimited_integer 7 c)]
    exact ⟨h3 _, rfl⟩
  · simp only
    rw [Parser.bind_some_iff]
    refine ⟨payload, d, Parser.takeN_append payload d, ?_⟩
    rw [hc]
    rfl

/-- The literal `putString` writes. -/
def litString (value : Bytes) (huffman : Bool) : Hpack.StringLit :=
  { octets := putString value huffman
    payload := if huffman then encodeLoop value 0 0 else value
    huffman := huffman }

theorem litString_text (value : Bytes) (huffman : Bool) :
    (litString value huffman).text rfc7541 = some value := by
  cases huffman with
  | false => rfl
  | true => exact decode_encodeLoop value

/-- **Strings round-trip.**  `putString` writes a literal, and by `litString_text` it means
the value. -/
theorem stringLit_putString (value : Bytes) (huffman : Bool) (d : Bytes) :
    Hpack.stringLit (putString value huffman ++ d) = some (litString value huffman, d) := by
  cases huffman with
  | false => exact stringLit_putInt value 0 (by decide) d
  | true => exact stringLit_putInt (encodeLoop value 0 0) 0x80 (by decide) d

end HpackWire
