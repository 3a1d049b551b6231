import FingerprintBridge.Wire.Panics

/-!
# The prefix integers (RFC 7541 §5.1)

`putInt` writes the shortest encoding, and `integer` reads it back.  `integer` reads
nothing but encodings, all of them whole, and its sum stays far below 64 bits.
-/

namespace HpackWire

open Hpack

/-! ## The shortest encoding -/

theorem putIntLoop_length (k : Nat) : ∀ n, n < 128 ^ (k + 1) → (putIntLoop n).length ≤ k + 1 := by
  induction k with
  | zero =>
    intro n hn
    rw [putIntLoop, if_neg (by omega)]
    exact Nat.le_refl 1
  | succ k ih =>
    intro n hn
    rw [putIntLoop]
    by_cases h : 128 ≤ n
    · have hdiv : n >>> 7 < 128 ^ (k + 1) := by
        rw [Nat.shiftRight_eq_div_pow]
        exact (Nat.div_lt_iff_lt_mul (by decide)).2 (by rwa [Nat.pow_succ] at hn)
      rw [if_pos h, List.length_cons]
      have := ih _ hdiv
      omega
    · rw [if_neg h, List.length_singleton]
      omega

theorem continuation_ne_nil {e : Bytes} {r : Nat × Bytes} (h : continuation e = some r) :
    e ≠ [] := by
  intro he
  subst he
  cases h

/-- No continuation of `n` is shorter than the one written, and none other is as short. -/
theorem putIntLoop_shortest (e : Bytes) : ∀ n, continuation e = some (n, []) →
    (putIntLoop n).length ≤ e.length ∧ (e.length = (putIntLoop n).length → e = putIntLoop n) := by
  induction e with
  | nil => intro n h; cases h
  | cons c e ih =>
    intro n h
    have hc256 := c.toNat_lt
    unfold continuation at h
    by_cases hc : c.toNat < 128
    · rw [if_pos hc] at h
      simp only [Option.some.injEq, Prod.mk.injEq] at h
      obtain ⟨rfl, rfl⟩ := h
      rw [putIntLoop, if_neg (by omega), UInt8.ofNat_toNat]
      exact ⟨Nat.le_refl 1, fun _ => rfl⟩
    · rw [if_neg hc] at h
      obtain ⟨⟨w, r⟩, hw, he⟩ := Option.map_eq_some_iff.1 h
      simp only [Prod.mk.injEq] at he
      obtain ⟨hn, rfl⟩ := he
      obtain ⟨hlen, heq⟩ := ih w hw
      have hpos : 0 < e.length := List.length_pos_iff.2 (continuation_ne_nil hw)
      rw [putIntLoop]
      by_cases hge : 128 ≤ n
      · have hdiv : n >>> 7 = w := by
          rw [Nat.shiftRight_eq_div_pow]
          omega
        have hoctet : (UInt8.ofNat n &&& 127) ||| 128 = c := by
          apply UInt8.toNat_inj.1
          rw [octet_more]
          omega
        rw [if_pos hge, hdiv, hoctet, List.length_cons, List.length_cons]
        exact ⟨by omega, fun hl => by rw [heq (by omega)]⟩
      · rw [if_neg hge, List.length_singleton, List.length_cons]
        exact ⟨by omega, fun hl => by omega⟩

theorem putInt_shortest (n : Nat) (lead : UInt8) (bits : Nat) (hl : lead.toNat % 2 ^ bits = 0)
    (hb : bits ≤ 8) (head : Bytes) (h : IsHead lead.toNat bits n head) :
    (putInt n lead bits).length ≤ head.length ∧
      (head.length = (putInt n lead bits).length → head = putInt n lead bits) := by
  obtain ⟨c, enc, rfl, hlo, hhi, hread⟩ := h
  have hpos := Nat.two_pow_pos bits
  have hc : c.toNat = lead.toNat + c.toNat % 2 ^ bits := by
    have hsub : (c.toNat - lead.toNat) % 2 ^ bits = c.toNat - lead.toNat :=
      Nat.mod_eq_of_lt (by omega)
    have hsum : (lead.toNat + (c.toNat - lead.toNat)) % 2 ^ bits = c.toNat - lead.toNat := by
      rw [Nat.add_mod, hl, Nat.zero_add, Nat.mod_mod, hsub]
    rw [show lead.toNat + (c.toNat - lead.toNat) = c.toNat by omega] at hsum
    omega
  -- the first octet is the lead and what the prefix holds
  have hfirst : lead ||| UInt8.ofNat (c.toNat % 2 ^ bits) = c := by
    apply UInt8.toNat_inj.1
    rw [lead_or lead bits _ hl hb (Nat.mod_lt _ hpos), ← hc]
  have hmod := Nat.mod_lt c.toNat hpos
  have hread0 := hread []
  rw [List.append_nil] at hread0
  unfold Hpack.integer at hread0
  unfold putInt
  by_cases hlt : c.toNat % 2 ^ bits < 2 ^ bits - 1
  · rw [if_pos hlt] at hread0
    simp only [Option.some.injEq, Prod.mk.injEq] at hread0
    obtain ⟨rfl, rfl⟩ := hread0
    simp only [if_pos hlt]
    rw [hfirst]
    exact ⟨Nat.le_refl 1, fun _ => rfl⟩
  · rw [if_neg hlt] at hread0
    obtain ⟨⟨v, r⟩, hv, he⟩ := Option.map_eq_some_iff.1 hread0
    simp only [Prod.mk.injEq] at he
    obtain ⟨rfl, rfl⟩ := he
    obtain ⟨hlen, heq⟩ := putIntLoop_shortest enc v hv
    rw [show c.toNat % 2 ^ bits = 2 ^ bits - 1 by omega] at hfirst
    simp only [if_neg (show ¬ 2 ^ bits - 1 + v < 2 ^ bits - 1 by omega), hfirst,
      Nat.add_sub_cancel_left, List.length_cons]
    exact ⟨by omega, fun h' => by rw [heq (by omega)]⟩

/-! ## Reading it back -/

theorem isHead_putInt_octet (n : Nat) (lead : UInt8) (bits : Nat)
    (hl : lead.toNat % 2 ^ bits = 0) (hb : bits ≤ 8) :
    IsHead lead.toNat bits n (putInt n lead bits) := by
  have := isHead_putInt lead.toNat bits n hl lead.toNat_lt hb
  rwa [UInt8.ofNat_toNat] at this

theorem putInt_length (n : Nat) (lead : UInt8) (bits : Nat) (hn : n < 2 ^ bits - 1 + 2 ^ 35) :
    (putInt n lead bits).length ≤ 6 := by
  unfold putInt
  simp only
  by_cases hlt : n < 2 ^ bits - 1
  · rw [if_pos hlt, List.length_singleton]
    omega
  · rw [if_neg hlt, List.length_cons]
    have := putIntLoop_length 4 (n - (2 ^ bits - 1)) (by omega)
    omega

theorem integer_putInt (n : Nat) (lead : UInt8) (bits : Nat) (hb : bits ≤ 8)
    (hn : n < 2 ^ bits - 1 + 2 ^ 35) (hl : lead.toNat % 2 ^ bits = 0) (before after : Bytes) :
    integer (before ++ putInt n lead bits ++ after) before.length bits =
      .ok (n, before.length + (putInt n lead bits).length) := by
  have h256 : 2 ^ bits ≤ 2 ^ 8 := Nat.pow_le_pow_right (by omega) hb
  refine integer_of_isHead _ _ lead.toNat bits n _ after (isHead_putInt_octet n lead bits hl hb) ?_
    (putInt_length n lead bits hn) (by omega)
  rw [List.append_assoc, List.drop_left]

/-! ## The passes of the loop -/

/-- `integer` on `b` at `p` comes to the test of its loop with `n` read up to `q`. -/
inductive IntegerPass (b : Bytes) (p bits : Nat) : (q n shift : Nat) → Prop where
  | first (c : UInt8) : byteAt b p = .ok c → c.toNat &&& (2 ^ bits - 1) = 2 ^ bits - 1 →
      IntegerPass b p bits (p + 1) (2 ^ bits - 1) 0
  | next (q n shift : Nat) (c : UInt8) : IntegerPass b p bits q n shift → shift ≤ 28 →
      byteAt b q = .ok c → c &&& 128 ≠ 0 →
      IntegerPass b p bits (q + 1) (n + (c &&& 127).toNat <<< shift) (shift + 7)

theorem shifted_lt (c : UInt8) (shift : Nat) :
    (c &&& 127).toNat <<< shift + 2 ^ shift ≤ 2 ^ (shift + 7) := by
  have hlt : (c &&& 127).toNat < 128 := by
    rw [octet_low]
    omega
  have hmul : ((c &&& 127).toNat + 1) * 2 ^ shift ≤ 128 * 2 ^ shift :=
    Nat.mul_le_mul_right _ hlt
  rw [Nat.shiftLeft_eq, Nat.pow_add, Nat.mul_comm (2 ^ shift)]
  rw [Nat.add_mul, Nat.one_mul] at hmul
  exact hmul

/-- What is read so far takes no more bits than were read. -/
theorem IntegerPass.lt {b : Bytes} {p bits q n shift : Nat} (h : IntegerPass b p bits q n shift) :
    n < 2 ^ bits - 1 + 2 ^ shift := by
  induction h with
  | first c hc hfull => omega
  | next q n shift c h hs hc hmore ih =>
    have := shifted_lt c shift
    omega

/-- The shift keeps all seven bits and the sum fits, whatever octet comes next. -/
theorem IntegerPass.fits {b : Bytes} {p bits q n shift : Nat} (h : IntegerPass b p bits q n shift)
    (hb : bits ≤ 8) (hs : shift ≤ 28) (c : UInt8) :
    (c &&& 127).toNat <<< shift < 2 ^ 35 ∧ n + (c &&& 127).toNat <<< shift < 2 ^ 64 := by
  have h256 : 2 ^ bits ≤ 2 ^ 8 := Nat.pow_le_pow_right (by omega) hb
  have hpow : 2 ^ (shift + 7) ≤ 2 ^ 35 := Nat.pow_le_pow_right (by omega) (by omega)
  have hpos := Nat.two_pow_pos shift
  have hn := h.lt
  have hd := shifted_lt c shift
  omega

/-- Every pass is one of the loop. -/
theorem IntegerPass.loop {b : Bytes} {p bits q n shift : Nat} (h : IntegerPass b p bits q n shift)
    (hb : bits ≤ 8) : integer b p bits = integerLoop b q n shift := by
  induction h with
  | first c hc hfull =>
    obtain ⟨hp, -⟩ := List.getElem?_eq_some_iff.1 ((Res.byteAt_ok_iff _ _ _).1 hc)
    unfold integer
    rw [ensure, if_pos hp, hc]
    show (if c.toNat &&& (2 ^ bits - 1) < 2 ^ bits - 1 then _ else _) = _
    rw [hfull, if_neg (Nat.lt_irrefl _)]
  | next q n shift c h hs hc hmore ih =>
    obtain ⟨hq, hget⟩ := List.getElem?_eq_some_iff.1 ((Res.byteAt_ok_iff _ _ _).1 hc)
    obtain ⟨-, hsum⟩ := h.fits hb hs c
    rw [ih]
    conv => lhs; rw [integerLoop]
    rw [dif_pos ⟨hq, hs⟩]
    simp only [List.get_eq_getElem, hget]
    rw [if_pos hsum, if_neg hmore]

theorem integerLoop_no_overflow (b : Bytes) (p bits : Nat) (hb : bits ≤ 8) (q n shift : Nat) :
    IntegerPass b p bits q n shift →
      integerLoop b q n shift ≠ .error (.err "HPACK overflow") := by
  fun_induction integerLoop b q n shift with
  | case1 q n shift hc c d hlt hz =>
    intro h he
    cases he
  | case2 q n shift hc c d hlt hz ih =>
    exact fun h => ih (h.next q n shift c hc.2 (Res.byteAt_of_lt b q hc.1) hz)
  | case3 q n shift hc c d hlt => exact fun h => absurd (h.fits hb hc.2 c).2 hlt
  | case4 q n shift hc =>
    intro h he
    simp only [Except.error.injEq, Fault.err.injEq, String.reduceEq] at he

theorem integer_no_overflow (b : Bytes) (p bits : Nat) (hb : bits ≤ 8) :
    integer b p bits ≠ .error (.err "HPACK overflow") := by
  intro he
  have hrun := he
  unfold integer at he
  rcases (Res.bind_error_iff _ _ _).1 he with he | ⟨_, hp, he⟩
  · have := ((Res.ensure_error_iff _ _ _).1 he).2
    simp only [Fault.err.injEq, String.reduceEq] at this
  have hp := (Res.ensure_ok_iff _ _ _).1 hp
  rw [Res.byteAt_of_lt b p hp] at he
  change (if _ then _ else _) = _ at he
  split at he
  · cases he
  · next hfull =>
    have hle : (b[p].toNat &&& (2 ^ bits - 1)) ≤ 2 ^ bits - 1 := Nat.and_le_right
    have h : IntegerPass b p bits (p + 1) (2 ^ bits - 1) 0 :=
      .first b[p] (Res.byteAt_of_lt b p hp) (by omega)
    rw [h.loop hb] at hrun
    exact integerLoop_no_overflow b p bits hb _ _ _ h hrun

theorem integerLoop_lt (b : Bytes) (q n shift v p' : Nat) :
    integerLoop b q n shift = .ok (v, p') → v < 2 ^ 64 := by
  fun_induction integerLoop b q n shift with
  | case1 q n shift hc c d hlt hz =>
    intro h
    cases h
    exact hlt
  | case2 q n shift hc c d hlt hz ih => exact ih
  | case3 q n shift hc c d hlt =>
    intro h
    cases h
  | case4 q n shift hc =>
    intro h
    cases h

theorem integer_lt (b : Bytes) (p bits v p' : Nat) (hb : bits ≤ 8)
    (h : integer b p bits = .ok (v, p')) : v < 2 ^ 64 := by
  have h256 : 2 ^ bits ≤ 2 ^ 8 := Nat.pow_le_pow_right (by omega) hb
  unfold integer at h
  obtain ⟨_, -, h⟩ := (Res.bind_ok_iff _ _ _).1 h
  obtain ⟨c, -, h⟩ := (Res.bind_ok_iff _ _ _).1 h
  simp only at h
  split at h
  · cases h
    omega
  · exact integerLoop_lt b _ _ _ v p' h

/-! ## Truncated encodings -/

/-- What `integer` returns is the value of the octets it passed. -/
theorem integer_slice (b : Bytes) (p bits v p' : Nat) (h : integer b p bits = .ok (v, p')) :
    ∃ c more, slice b p p' = .ok (c :: more) ∧
      ∀ d, Hpack.integer bits c (more ++ d) = some (v, d) := by
  obtain ⟨c, enc, hspan, -, hread⟩ := integer_spec b p bits v p' h
  exact ⟨c, enc, hspan.slice_eq, hread⟩

theorem integer_truncated (before : Bytes) (lead bits n : Nat) (head t : Bytes)
    (h : IsHead lead bits n head) (ht : t <+: head) (hne : t ≠ head) :
    ∃ e ∈ scanErrors, integer (before ++ t) before.length bits = .error (.err e) := by
  cases hr : integer (before ++ t) before.length bits with
  | error e =>
    obtain ⟨msg, hm, he⟩ := integer_errors _ _ _ e hr
    exact ⟨msg, hm, by rw [he]⟩
  | ok r =>
    exfalso
    obtain ⟨v, p'⟩ := r
    obtain ⟨c, enc, hspan, -, hread⟩ := integer_spec _ _ _ _ _ hr
    obtain ⟨c', enc', rfl, -, -, hread'⟩ := h
    obtain ⟨u, hu⟩ := ht
    have hd := hspan.drop
    rw [List.drop_left, List.cons_append] at hd
    rw [hd, List.cons_append, List.cons.injEq] at hu
    obtain ⟨rfl, hu⟩ := hu
    -- both readings leave the same rest, so nothing is missing
    have h1 := hread' []
    rw [← hu, List.append_nil, List.append_assoc, hread] at h1
    simp only [Option.some.injEq, Prod.mk.injEq, List.append_eq_nil_iff] at h1
    rw [h1.2.2, List.append_nil] at hu
    exact hne (by rw [hd, hu])

/-- **The integer codec.**  `integer` reads back what `putInt` writes, wherever it stands, and
`putInt` writes the one shortest encoding.  What `integer` returns is the value of the octets it
passes; no pass shifts a bit out or carries beyond 64 bits; and a truncated encoding is refused. -/
theorem integer_codec (bits : Nat) (hb : bits ≤ 8) :
    (∀ (n : Nat) (lead : UInt8) (before after : Bytes), n < 2 ^ bits - 1 + 2 ^ 35 →
      lead.toNat % 2 ^ bits = 0 →
      integer (before ++ putInt n lead bits ++ after) before.length bits =
        .ok (n, before.length + (putInt n lead bits).length)) ∧
      (∀ (n : Nat) (lead : UInt8), lead.toNat % 2 ^ bits = 0 →
        IsHead lead.toNat bits n (putInt n lead bits) ∧
          ∀ head, IsHead lead.toNat bits n head →
            (putInt n lead bits).length ≤ head.length ∧
              (head.length = (putInt n lead bits).length → head = putInt n lead bits)) ∧
      (∀ (b : Bytes) (p v p' : Nat), integer b p bits = .ok (v, p') →
        v < 2 ^ 64 ∧ ∃ c more, slice b p p' = .ok (c :: more) ∧
          ∀ d, Hpack.integer bits c (more ++ d) = some (v, d)) ∧
      (∀ (b : Bytes) (p : Nat), integer b p bits ≠ .error (.err "HPACK overflow") ∧
        ∀ q n shift c, IntegerPass b p bits q n shift → shift ≤ 28 → byteAt b q = .ok c →
          integer b p bits = integerLoop b q n shift ∧
            (c &&& 127).toNat <<< shift < 2 ^ 64 ∧ n + (c &&& 127).toNat <<< shift < 2 ^ 64) ∧
      ∀ (before : Bytes) (lead n : Nat) (head t : Bytes), IsHead lead bits n head →
        t <+: head → t ≠ head →
        ∃ e, integer (before ++ t) before.length bits = .error (.err e) := by
  refine ⟨fun n lead before after hn hl => integer_putInt n lead bits hb hn hl before after,
    fun n lead hl => ⟨isHead_putInt_octet n lead bits hl hb, putInt_shortest n lead bits hl hb⟩,
    fun b p v p' h => ⟨integer_lt b p bits v p' hb h, integer_slice b p bits v p' h⟩,
    fun b p => ⟨integer_no_overflow b p bits hb, fun q n shift c h hs hc => ?_⟩,
    fun before lead n head t h ht hne => ?_⟩
  · have hfits := h.fits hb hs c
    exact ⟨h.loop hb, by omega, hfits.2⟩
  · obtain ⟨e, -, he⟩ := integer_truncated before lead bits n head t h ht hne
    exact ⟨e, he⟩

theorem integer_codec_index :
    putInt 1337 0x80 7 = [0xff, 0xba, 0x09] ∧
      integer ([0xff] ++ putInt 1337 0x80 7 ++ [1]) 1 7 =
        .ok (1337, 1 + (putInt 1337 0x80 7).length) :=
  ⟨by decide +kernel,
    (integer_codec 7 (by decide)).1 1337 0x80 [0xff] [1] (by decide) (by decide)⟩

end HpackWire
