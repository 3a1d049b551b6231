import FingerprintBridge.Ssl.Ghash

/-!
# `scripts/patches/bridge-aria.patch`: counter mode and the tag

For any block function in place of ARIA, octets go through counter mode and into the tag in
the same way wherever the calls cut them (`ariaCtr_spec`, `ariaGcmTag_eq`).
-/

namespace AriaGcm

/-! ## The code -/

def incrementCounter (counter : Block) : Block where
  octets := counter.octets.take 12 ++
    beOctets 4 (UInt32.ofNat (beValue (counter.octets.drop 12)) + 1).toNat
  length_eq := by
    rw [List.length_append, List.length_take, beOctets_length, counter.length_eq]
    rfl

/-- `encrypted` lists the counter blocks encrypted so far, for the statements below; the code
does not read it. -/
structure CtrState where
  counter : Block
  stream : Block := .zero
  used : Nat
  used_le : used ≤ 16 := by decide
  encrypted : List Block := []

/-- The next block of key stream, when the last one is used up. -/
def refill (ariaEncrypt : Block → Block) (state : CtrState) : CtrState :=
  if state.used = 16 then
    { counter := incrementCounter state.counter
      stream := ariaEncrypt (incrementCounter state.counter)
      used := 0
      encrypted := state.encrypted ++ [incrementCounter state.counter] }
  else state

theorem refill_used_lt (ariaEncrypt : Block → Block) (state : CtrState) :
    (refill ariaEncrypt state).used < 16 := by
  unfold refill
  split
  · exact (by decide : 0 < 16)
  · next hne => exact Nat.lt_of_le_of_ne state.used_le hne

def ariaCtr (ariaEncrypt : Block → Block) (state : CtrState) (src : Bytes) : Bytes × CtrState :=
  if _hlen : 0 < src.length then
    let refilled := refill ariaEncrypt state
    let take := room refilled.used src.length
    let out := List.zipWith (· ^^^ ·) (src.take take) (refilled.stream.octets.drop refilled.used)
    let rest := ariaCtr ariaEncrypt
      { refilled with
        used := refilled.used + (src.take take).length
        used_le := room_fits refilled.used_le src } (src.drop take)
    (out ++ rest.1, rest.2)
  else ([], state)
termination_by src.length
decreasing_by
  have hpos := room_pos (refill_used_lt ariaEncrypt state) _hlen
  rw [List.length_drop]
  omega

/-- `uint8_t j0[16] = {0}; memcpy(j0, nonce, 12); j0[15] = 1` -/
def j0 (nonce : Bytes) : Block :=
  (Block.zero.write 0 (nonce.take 12) (by
    rw [List.length_take]
    omega)).write 15 [1] (by decide)

def ctrStart (nonce : Bytes) : CtrState where
  counter := j0 nonce
  used := 16

def lengthBlock (adLen ciphertextLen : Nat) : Block where
  octets := beOctets 8 (UInt64.ofNat adLen <<< 3).toNat ++
    beOctets 8 (UInt64.ofNat ciphertextLen <<< 3).toNat
  length_eq := by rw [List.length_append, beOctets_length, beOctets_length]

def ariaGcmTag (ariaEncrypt : Block → Block) (h : Block) (nonce ad ciphertext extra : Bytes) :
    Option Block :=
  if ad.length > 2 ^ 61 ∨ ciphertext.length > 2 ^ 36 - 32 ∨
      extra.length > (2 ^ 36 - 32) - ciphertext.length then none
  else
    let state := ghashUpdate h .zero ad
    let state := ghashPad h state
    let state := ghashUpdate h state ciphertext
    let state := ghashUpdate h state extra
    let state := ghashPad h state
    let y := ghashBlock h state.y (lengthBlock ad.length (ciphertext.length + extra.length))
    some ((ariaEncrypt (j0 nonce)).xor y)

/-- `aead_aria_gcm_ctx`, with the encryption under its key; `tagLen` is that of the
`EVP_AEAD_CTX`. -/
structure AriaGcmCtx where
  ariaEncrypt : Block → Block
  h : Block
  minNextNonce : UInt64
  tagLen : Nat
  h_eq : h = ariaEncrypt .zero
  tagLen_eq : tagLen = 16

/-- A context before its first record. -/
def AriaGcmCtx.fresh (ariaEncrypt : Block → Block) : AriaGcmCtx where
  ariaEncrypt
  h := ariaEncrypt .zero
  minNextNonce := 0
  tagLen := 16
  h_eq := rfl
  tagLen_eq := rfl

/-- `aead_aria_gcm_init`, for a cipher with keys of `keyLen` octets; `ariaSetEncryptKey` gives
the encryption under a key. -/
def aeadAriaGcmInit (ariaSetEncryptKey : Bytes → Option (Block → Block)) (keyLen : Nat)
    (key : Bytes) (requestedTagLen : Nat) : Res AriaGcmCtx := do
  ensure (key.length = keyLen) "BAD_KEY_LENGTH"
  ensure (requestedTagLen = 0 ∨ requestedTagLen = 16) "UNSUPPORTED_TAG_SIZE"
  let ariaEncrypt ← okOr (ariaSetEncryptKey key) "BAD_KEY_LENGTH"
  return .fresh ariaEncrypt

/-- What a call writes to: the context and the buffers of the caller. -/
structure Memory where
  ctx : AriaGcmCtx
  out : Bytes
  outTag : Bytes
  outTagLen : Nat

/-- `memcpy(buf + off, src, ...)` -/
def writeAt (buf : Bytes) (off : Nat) (src : Bytes) : Res Bytes :=
  if off + src.length ≤ buf.length then .ok (buf.take off ++ src ++ buf.drop (off + src.length))
  else .error .panic

def SIZE_MAX : Nat := 2 ^ 64 - 1

/-- `CRYPTO_load_u64_be(nonce + 4)` -/
def counterValue (nonce : Bytes) : UInt64 := UInt64.ofNat (beValue ((nonce.drop 4).take 8))

/-- The checks of `aead_aria_gcm_seal_scatter`, and the counter it then takes. -/
def sealChecks (maxOutTagLen : Nat) (nonce input extraIn : Bytes) : Act Memory Unit := do
  let m ← get
  ensure (nonce.length = 12) "UNSUPPORTED_NONCE_SIZE"
  ensure (extraIn.length ≤ maxOutTagLen ∧ m.ctx.tagLen ≤ maxOutTagLen - extraIn.length)
    "BUFFER_TOO_SMALL"
  ensure (extraIn.length ≤ SIZE_MAX - input.length ∧
    input.length + extraIn.length ≤ 2 ^ 36 - 32) "TOO_LARGE"
  let counter := counterValue nonce
  ensure (counter ≠ UInt64.ofNat (2 ^ 64 - 1) ∧ m.ctx.minNextNonce ≤ counter) "INVALID_NONCE"
  set { m with ctx := { m.ctx with minNextNonce := counter + 1 } }

/-- What follows the checks. -/
def encryptScatter (nonce input extraIn ad : Bytes) : Act Memory Unit := do
  let m ← get
  let body := ariaCtr m.ctx.ariaEncrypt (ctrStart nonce) input
  set { m with out := ← writeAt m.out 0 body.1 }
  let m ← get
  let extra := ariaCtr m.ctx.ariaEncrypt body.2 extraIn
  set { m with outTag := ← writeAt m.outTag 0 extra.1 }
  let m ← get
  let tag ← okOr (ariaGcmTag m.ctx.ariaEncrypt m.ctx.h nonce ad (m.out.take input.length)
    (m.outTag.take extraIn.length)) "TOO_LARGE"
  let outTag ← writeAt m.outTag extraIn.length tag.octets
  set { m with outTag, outTagLen := extraIn.length + tag.octets.length }

/-- `aead_aria_gcm_seal_scatter` -/
def sealScatter (maxOutTagLen : Nat) (nonce input extraIn ad : Bytes) : Act Memory Unit := do
  sealChecks maxOutTagLen nonce input extraIn
  encryptScatter nonce input extraIn ad

/-- `aead_aria_gcm_open_gather` -/
def openGather (nonce input inTag ad : Bytes) : Act Memory Unit := do
  let m ← get
  ensure (nonce.length = 12 ∧ inTag.length = 16) "BAD_DECRYPT"
  let expected ← okOr (ariaGcmTag m.ctx.ariaEncrypt m.ctx.h nonce ad input []) "BAD_DECRYPT"
  ensure (expected.octets = inTag) "BAD_DECRYPT"
  let plain := ariaCtr m.ctx.ariaEncrypt (ctrStart nonce) input
  set { m with out := ← writeAt m.out 0 plain.1 }

/-! ## Counter mode -/

section
variable (ariaEncrypt : Block → Block) (start : Block)

/-- The `i`-th counter block after `start`. -/
def counterAt (i : Nat) : Block := incrementCounter^[i] start

theorem counterAt_succ (i : Nat) : counterAt start (i + 1) = incrementCounter (counterAt start i) :=
  Function.iterate_succ_apply' _ _ _

def blocksFor (n : Nat) : Nat := (n + 15) / 16

/-- The counter blocks encrypted for `n` octets. -/
def countersFor (n : Nat) : List Block :=
  (List.range (blocksFor n)).map fun i => counterAt start (i + 1)

/-- `k` blocks of key stream. -/
def keyStream (k : Nat) : Bytes :=
  (List.range k).flatMap fun i => (ariaEncrypt (counterAt start (i + 1))).octets

theorem keyStream_succ (k : Nat) : keyStream ariaEncrypt start (k + 1) =
    keyStream ariaEncrypt start k ++ (ariaEncrypt (counterAt start (k + 1))).octets := by
  rw [keyStream, List.range_succ, List.flatMap_append, List.flatMap_singleton]
  rfl

@[simp] theorem keyStream_length (k : Nat) : (keyStream ariaEncrypt start k).length = 16 * k := by
  induction k with
  | zero => rfl
  | succ k ih => rw [keyStream_succ, List.length_append, ih, Block.length_eq, Nat.mul_succ]

/-- From the `k`-th block on. -/
theorem keyStream_drop {k m : Nat} (h : k < m) : (keyStream ariaEncrypt start m).drop (16 * k) =
    (ariaEncrypt (counterAt start (k + 1))).octets ++
      (keyStream ariaEncrypt start m).drop (16 * (k + 1)) := by
  induction m with
  | zero => cases h
  | succ m ih =>
    rw [keyStream_succ]
    rcases Nat.lt_succ_iff_lt_or_eq.1 h with hlt | rfl
    · rw [List.drop_append_of_le_length (by rw [keyStream_length]; omega), ih hlt,
        List.drop_append_of_le_length (by rw [keyStream_length]; omega), List.append_assoc]
    · have hlen := keyStream_length ariaEncrypt start k
      rw [List.drop_left' hlen, List.drop_eq_nil_of_le, List.append_nil]
      rw [List.length_append, hlen, Block.length_eq, Nat.mul_succ]

/-- The state after `n` octets. -/
structure Streamed (state : CtrState) (n : Nat) : Prop where
  used : state.used + 16 * blocksFor n = n + 16
  counter : state.counter = counterAt start (blocksFor n)
  encrypted : state.encrypted = countersFor start n
  stream : 0 < n → state.stream = ariaEncrypt state.counter

/-- The state when the next octet is taken. -/
structure Refilled (state : CtrState) (n : Nat) : Prop where
  used : state.used = n % 16
  counter : state.counter = counterAt start (n / 16 + 1)
  encrypted : state.encrypted = (List.range (n / 16 + 1)).map fun i => counterAt start (i + 1)
  stream : state.stream = ariaEncrypt state.counter

variable {ariaEncrypt start}

theorem refill_spec {state : CtrState} {n : Nat} (h : Streamed ariaEncrypt start state n) :
    Refilled ariaEncrypt start (refill ariaEncrypt state) n := by
  have hused := h.used
  have hle := state.used_le
  unfold blocksFor at hused
  unfold refill
  split
  · next hfull =>
    have hk : blocksFor n = n / 16 := by
      unfold blocksFor
      omega
    refine ⟨by show 0 = n % 16; omega, ?_, ?_, rfl⟩
    · rw [h.counter, counterAt_succ, hk]
    · rw [h.encrypted, h.counter, countersFor, hk, List.range_succ, List.map_append, ← counterAt_succ]
      rfl
  · next hne =>
    have hk : blocksFor n = n / 16 + 1 := by
      unfold blocksFor
      omega
    refine ⟨by omega, ?_, ?_, h.stream (by omega)⟩
    · rw [h.counter, hk]
    · rw [h.encrypted, countersFor, hk]

theorem streamed_of_refilled {state : CtrState} {n t : Nat} (h : Refilled ariaEncrypt start state n)
    (ht : 0 < t) (hle : state.used + t ≤ 16) :
    Streamed ariaEncrypt start { state with used := state.used + t, used_le := hle } (n + t) := by
  have hused := h.used
  have hk : blocksFor (n + t) = n / 16 + 1 := by
    unfold blocksFor
    omega
  refine ⟨?_, ?_, ?_, fun _ => h.stream⟩
  · show state.used + t + 16 * blocksFor (n + t) = n + t + 16
    rw [hk]
    omega
  · rw [h.counter, hk]
  · rw [h.encrypted, countersFor, hk]

/-- The rest of a block of key stream, then the blocks after it. -/
theorem keyStream_drop_mod {state : CtrState} {n m : Nat} (h : Refilled ariaEncrypt start state n)
    (hm : n < 16 * m) : (keyStream ariaEncrypt start m).drop n =
      state.stream.octets.drop state.used ++ (keyStream ariaEncrypt start m).drop (16 * (n / 16 + 1)) := by
  have hdrop := congrArg (List.drop (n % 16)) (keyStream_drop ariaEncrypt start
    (by omega : n / 16 < m))
  rw [List.drop_drop, Nat.div_add_mod, List.drop_append_of_le_length (by
    rw [Block.length_eq]
    omega)] at hdrop
  rw [hdrop, h.stream, h.counter, h.used]

/-- What is taken at once, and the rest. -/
theorem zipWith_room {used : Nat} (src a b b' : Bytes) (ha : a.length = 16 - used)
    (hb : room used src.length = a.length → b' = b) :
    List.zipWith (· ^^^ ·) src (a ++ b) =
      List.zipWith (· ^^^ ·) (src.take (room used src.length)) a ++
        List.zipWith (· ^^^ ·) (src.drop (room used src.length)) b' := by
  rw [zipWith_append_right]
  unfold room at hb ⊢
  rw [ha] at hb ⊢
  split at hb
  · next hlt =>
    rw [if_pos hlt, List.take_of_length_le hlt.le, List.drop_eq_nil_of_le hlt.le,
      List.take_of_length_le (Nat.le_refl _), List.drop_eq_nil_of_le (Nat.le_refl _)]
    rfl
  · next hge => rw [if_neg hge, hb rfl]

/-- Counter mode adds the key stream, wherever the calls are cut. -/
theorem ariaCtr_spec {state : CtrState} {n : Nat} (h : Streamed ariaEncrypt start state n)
    (src : Bytes) {m : Nat} (hm : n + src.length ≤ 16 * m) :
    (ariaCtr ariaEncrypt state src).1 =
      List.zipWith (· ^^^ ·) src ((keyStream ariaEncrypt start m).drop n) ∧
    Streamed ariaEncrypt start (ariaCtr ariaEncrypt state src).2 (n + src.length) := by
  induction state, src using ariaCtr.induct ariaEncrypt generalizing n with
  | case1 state src hlen refilled take =>
    rename_i ih
    have hr : Refilled ariaEncrypt start refilled n := refill_spec h
    have hused := hr.used
    have hfit : refilled.used + (src.take take).length ≤ 16 := room_fits refilled.used_le src
    have htake : (src.take take).length = take := by
      rw [List.length_take]
      refine Nat.min_eq_left ?_
      show room refilled.used src.length ≤ src.length
      unfold room
      split <;> omega
    have hpos : 0 < (src.take take).length :=
      htake.symm ▸ room_pos (refill_used_lt ariaEncrypt state) hlen
    have hsum : (src.take take).length + (src.drop take).length = src.length := by
      rw [← List.length_append, List.take_append_drop]
    obtain ⟨hout, hstate⟩ := ih (streamed_of_refilled hr hpos hfit) (by omega)
    rw [ariaCtr, dif_pos hlen]
    rw [Nat.add_assoc, hsum] at hstate
    refine ⟨?_, hstate⟩
    show List.zipWith _ (src.take take) _ ++ _ = _
    have hblock : (refilled.stream.octets.drop refilled.used).length = 16 - refilled.used := by
      rw [List.length_drop, Block.length_eq]
    rw [hout, keyStream_drop_mod hr (by omega)]
    refine (zipWith_room src _ _ _ hblock fun heq => ?_).symm
    have heq' : take = (refilled.stream.octets.drop refilled.used).length := heq
    rw [htake, heq', hblock]
    congr 1
    omega
  | case2 state src hlen =>
    rw [ariaCtr, dif_neg hlen, List.length_eq_zero_iff.1 (Nat.eq_zero_of_not_pos hlen)]
    exact ⟨rfl, h⟩

end

/-! ## Bit strings -/

/-- The block of a string of 128 bits. -/
def Block.ofBits (x : Gcm.Bits) : Block := ⟨beOctets 16 (Gcm.value x), beOctets_length _ _⟩

theorem Block.ofBits_bits (b : Block) : Block.ofBits b.bits = b := by
  cases b with
  | mk octets hlen =>
    have h := beOctets_beValue octets
    rw [hlen] at h
    rw [Block.ofBits, Block.mk.injEq]
    show beOctets 16 (Gcm.value (octetBits octets)) = octets
    rw [value_octetBits, h]

/-- A block function on bit strings. -/
def ciph (ariaEncrypt : Block → Block) (x : Gcm.Bits) : Gcm.Bits := (ariaEncrypt (.ofBits x)).bits

theorem ciph_bits (ariaEncrypt : Block → Block) (b : Block) :
    ciph ariaEncrypt b.bits = (ariaEncrypt b).bits := by
  rw [ciph, Block.ofBits_bits]

theorem incrementCounter_bits (b : Block) : (incrementCounter b).bits = Gcm.inc 32 b.bits := by
  have hlen := b.length_eq
  have hvalue : (UInt32.ofNat (beValue (b.octets.drop 12)) + 1).toNat =
      (beValue (b.octets.drop 12) + 1) % 2 ^ 32 := by
    rw [UInt32.toNat_add, UInt32.toNat_ofNat', Nat.mod_add_mod]
    rfl
  show octetBits (b.octets.take 12 ++ beOctets 4 _) = _
  rw [octetBits_append, octetBits_take, octetBits_beOctets, hvalue, ← value_octetBits, octetBits_drop,
    Gcm.inc, Block.bits_length]
  rfl

theorem counterAt_bits (start : Block) (i : Nat) :
    (counterAt start i).bits = (Gcm.inc 32)^[i] start.bits := by
  induction i with
  | zero => rfl
  | succ i ih => rw [counterAt_succ, incrementCounter_bits, ih, Function.iterate_succ_apply']

/-- Octets with the key stream added are those of the standard. -/
theorem gctr_keyStream (ariaEncrypt : Block → Block) (start : Block) (src : Bytes) :
    octetBits (List.zipWith (· ^^^ ·) src (keyStream ariaEncrypt start (blocksFor src.length))) =
      Gcm.gctr (ciph ariaEncrypt) (Gcm.inc 32 start.bits) (octetBits src) := by
  have hcounter : ∀ i, (Gcm.inc 32)^[i] (Gcm.inc 32 start.bits) = (counterAt start (i + 1)).bits :=
    fun i => (counterAt_bits start (i + 1)).symm
  have hlen : ∀ i, (ciph ariaEncrypt ((Gcm.inc 32)^[i] (Gcm.inc 32 start.bits))).length = 128 :=
    fun i => Block.bits_length _
  have hblocks : (8 * src.length + 127) / 128 = blocksFor src.length := by
    unfold blocksFor
    omega
  have hstream : octetBits (keyStream ariaEncrypt start (blocksFor src.length)) =
      (List.range (blocksFor src.length)).flatMap fun i =>
        ciph ariaEncrypt ((Gcm.inc 32)^[i] (Gcm.inc 32 start.bits)) := by
    simp only [hcounter, ciph_bits]
    exact List.flatMap_assoc
  rw [octetBits_xor, Gcm.gctr_eq hlen, octetBits_length, hblocks, hstream]

/-! ## The tag -/

theorem lengthBlock_bits (adLen ciphertextLen : Nat) : (lengthBlock adLen ciphertextLen).bits =
    toBits 64 (8 * adLen) ++ toBits 64 (8 * ciphertextLen) := by
  have hshift : ∀ n : Nat, toBits 64 (UInt64.ofNat n <<< 3).toNat = toBits 64 (8 * n) := by
    intro n
    have hvalue : (UInt64.ofNat n <<< 3).toNat = 8 * n % 2 ^ 64 := by
      rw [UInt64.toNat_shiftLeft, UInt64.toNat_ofNat']
      show (n % 2 ^ 64) <<< 3 % 2 ^ 64 = _
      rw [Nat.shiftLeft_eq, Nat.mod_mul_mod, Nat.mul_comm]
    rw [hvalue, toBits_mod 64 64 _ (Nat.le_refl 64)]
  show octetBits (beOctets 8 _ ++ beOctets 8 _) = _
  rw [octetBits_append, octetBits_beOctets, octetBits_beOctets, hshift, hshift]

theorem j0_octets {nonce : Bytes} (h : nonce.length = 12) : (j0 nonce).octets = nonce ++ [0, 0, 0, 1] := by
  have htake : nonce.take 12 = nonce := List.take_of_length_le h.le
  show (Block.zero.octets.take 0 ++ nonce.take 12 ++ Block.zero.octets.drop (0 + _)).take 15 ++ [1] ++
    (Block.zero.octets.take 0 ++ nonce.take 12 ++ Block.zero.octets.drop (0 + _)).drop 16 = _
  rw [htake, h]
  show (nonce ++ [0, 0, 0, 0]).take 15 ++ [1] ++ (nonce ++ [0, 0, 0, 0]).drop 16 = _
  rw [List.take_append, List.take_of_length_le (by omega), List.drop_append,
    List.drop_eq_nil_of_le (by omega), h, List.append_assoc, List.append_assoc]
  rfl

theorem j0_bits {nonce : Bytes} (h : nonce.length = 12) :
    (j0 nonce).bits = Gcm.preCounter (octetBits nonce) := by
  rw [Block.bits, j0_octets h, octetBits_append, Gcm.preCounter, List.append_assoc]
  rfl

theorem pad16_append {x y : Bytes} (hx : x.length % 16 = 0) : pad16 (x ++ y) = x ++ pad16 y := by
  have hcount : 16 * (((x ++ y).length + 15) / 16) - (x ++ y).length =
      16 * ((y.length + 15) / 16) - y.length := by
    rw [List.length_append]
    omega
  rw [pad16, pad16, hcount, List.append_assoc]

theorem pad16_length (x : Bytes) : (pad16 x).length % 16 = 0 := by
  rw [pad16, List.length_append, List.length_replicate]
  omega

/-- What is hashed: the associated data, the ciphertext and the lengths, each padded. -/
def hashed (ad ciphertext : Bytes) : Bytes :=
  pad16 ad ++ pad16 ciphertext ++ (lengthBlock ad.length ciphertext.length).octets

section
variable (ariaEncrypt : Block → Block) (h : Block) (nonce : Bytes) {ad ciphertext extra : Bytes}

/-- The tag, wherever the ciphertext is cut. -/
theorem ariaGcmTag_eq (had : ad.length ≤ 2 ^ 61)
    (hlen : ciphertext.length + extra.length ≤ 2 ^ 36 - 32) :
    ∃ y, ariaGcmTag ariaEncrypt h nonce ad ciphertext extra = some ((ariaEncrypt (j0 nonce)).xor y) ∧
      y.bits = Gcm.ghash h.bits (octetBits (hashed ad (ciphertext ++ extra))) := by
  have hguard : ¬ (ad.length > 2 ^ 61 ∨ ciphertext.length > 2 ^ 36 - 32 ∨
      extra.length > (2 ^ 36 - 32) - ciphertext.length) := by omega
  refine ⟨_, by rw [ariaGcmTag, if_neg hguard], ?_⟩
  have hpadded := (ghashPad_absorbed (ghashUpdate_absorbed (absorbed_nil h) ad)).1
  have hall := (ghashPad_absorbed (ghashUpdate_absorbed (ghashUpdate_absorbed hpadded ciphertext)
    extra)).2
  rw [List.nil_append, List.append_assoc, pad16_append (pad16_length ad)] at hall
  have hwhole : (pad16 ad ++ pad16 (ciphertext ++ extra)).length % 16 = 0 := by
    have h1 := pad16_length ad
    have h2 := pad16_length (ciphertext ++ extra)
    rw [List.length_append]
    omega
  rw [ghashBlock_bits hwhole hall, hashed, List.length_append]

theorem ariaGcmTag_bound {tag : Block}
    (htag : ariaGcmTag ariaEncrypt h nonce ad ciphertext extra = some tag) : ad.length ≤ 2 ^ 61 := by
  unfold ariaGcmTag at htag
  split at htag
  · cases htag
  · next hguard => exact not_lt.1 fun hlt => hguard (.inl hlt)

/-- The tag does not depend on the cut. -/
theorem ariaGcmTag_append (had : ad.length ≤ 2 ^ 61)
    (hlen : ciphertext.length + extra.length ≤ 2 ^ 36 - 32) :
    ariaGcmTag ariaEncrypt h nonce ad ciphertext extra =
      ariaGcmTag ariaEncrypt h nonce ad (ciphertext ++ extra) [] := by
  obtain ⟨y, htag, hy⟩ := ariaGcmTag_eq ariaEncrypt h nonce had hlen
  have hwhole : (ciphertext ++ extra).length + ([] : Bytes).length ≤ 2 ^ 36 - 32 := by
    rwa [List.length_append]
  obtain ⟨y', htag', hy'⟩ := ariaGcmTag_eq ariaEncrypt h nonce had hwhole
  rw [List.append_nil, ← hy] at hy'
  rw [htag, htag', Block.bits_inj hy']

end

end AriaGcm
