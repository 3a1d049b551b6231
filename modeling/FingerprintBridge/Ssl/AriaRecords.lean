import FingerprintBridge.Ssl.AriaGcm
import Mathlib.Data.List.Nodup

/-!
# `scripts/patches/bridge-aria.patch`: sealed records

What `sealScatter` seals is the ciphertext and the tag of the standard, and `openGather` takes
them back, but for associated data of 2^61 octets: the length block cannot hold their
length in bits (`seal_is_gcm`).
-/

namespace AriaGcm

/-! ## Calls -/

/-- What the checks of `aead_aria_gcm_seal_scatter` let through. -/
structure Admitted (ctx : AriaGcmCtx) (maxOutTagLen : Nat) (nonce input extraIn : Bytes) : Prop where
  nonce_length : nonce.length = 12
  room : extraIn.length ≤ maxOutTagLen ∧ ctx.tagLen ≤ maxOutTagLen - extraIn.length
  size : extraIn.length ≤ SIZE_MAX - input.length ∧ input.length + extraIn.length ≤ 2 ^ 36 - 32
  counter : counterValue nonce ≠ UInt64.ofNat (2 ^ 64 - 1) ∧ ctx.minNextNonce ≤ counterValue nonce

theorem sealChecks_ok_iff (maxOutTagLen : Nat) (nonce input extraIn : Bytes) (m m' : Memory) :
    sealChecks maxOutTagLen nonce input extraIn m = .ok () m' ↔
      Admitted m.ctx maxOutTagLen nonce input extraIn ∧
        m' = { m with ctx := { m.ctx with minNextNonce := counterValue nonce + 1 } } := by
  unfold sealChecks
  simp only [Act.bind_ok_iff, Act.liftM_ok_iff, Res.ensure_ok_iff]
  constructor
  · rintro ⟨_, _, hget, _, _, ⟨h1, rfl⟩, _, _, ⟨h2, rfl⟩, _, _, ⟨h3, rfl⟩, _, _, ⟨h4, rfl⟩, hset⟩
    cases hget
    cases hset
    exact ⟨⟨h1, h2, h3, h4⟩, rfl⟩
  · rintro ⟨hadmitted, rfl⟩
    exact ⟨_, _, rfl, (), _, ⟨hadmitted.nonce_length, rfl⟩, (), _, ⟨hadmitted.room, rfl⟩, (), _,
      ⟨hadmitted.size, rfl⟩, (), _, ⟨hadmitted.counter, rfl⟩, rfl⟩

/-- A call that is not admitted writes nothing. -/
theorem sealChecks_error {maxOutTagLen : Nat} {nonce input extraIn : Bytes} {m m' : Memory} {e : Fault}
    (h : sealChecks maxOutTagLen nonce input extraIn m = .error e m') : m' = m := by
  unfold sealChecks at h
  simp only [Act.bind_error_iff, Act.liftM_ok_iff, Act.liftM_error_iff] at h
  rcases h with h | ⟨_, _, hget, h⟩
  · cases h
  cases hget
  rcases h with ⟨-, rfl⟩ | ⟨_, _, ⟨-, rfl⟩, h⟩
  · rfl
  rcases h with ⟨-, rfl⟩ | ⟨_, _, ⟨-, rfl⟩, h⟩
  · rfl
  rcases h with ⟨-, rfl⟩ | ⟨_, _, ⟨-, rfl⟩, h⟩
  · rfl
  rcases h with ⟨-, rfl⟩ | ⟨_, _, ⟨-, rfl⟩, h⟩
  · rfl
  · cases h

theorem writeAt_ok {buf src buf' : Bytes} {off : Nat} (h : writeAt buf off src = .ok buf') :
    buf' = buf.take off ++ src ++ buf.drop (off + src.length) := by
  unfold writeAt at h
  split at h
  · exact (Except.ok.inj h).symm
  · cases h

theorem writeAt_of_le {buf src : Bytes} {off : Nat} (h : off + src.length ≤ buf.length) :
    ∃ buf', writeAt buf off src = .ok buf' := ⟨_, if_pos h⟩

theorem writeAt_length {buf src buf' : Bytes} {off : Nat} (h : writeAt buf off src = .ok buf') :
    buf'.length = buf.length := by
  have hbuf := writeAt_ok h
  unfold writeAt at h
  split at h
  · next hle =>
    rw [hbuf, List.length_append, List.length_append, List.length_take, List.length_drop]
    omega
  · cases h

theorem writeAt_zero {buf src buf' : Bytes} (h : writeAt buf 0 src = .ok buf') :
    buf'.take src.length = src := by
  rw [writeAt_ok h, List.take_zero, List.nil_append, List.take_left]

/-- The ciphertext of the input, that of the extra input, and the state after both. -/
structure Scattered (ariaEncrypt : Block → Block) (nonce input extraIn body extra : Bytes)
    (state : CtrState) : Prop where
  body_length : body.length = input.length
  extra_length : extra.length = extraIn.length
  ciphertext : body ++ extra = List.zipWith (· ^^^ ·) (input ++ extraIn)
    (keyStream ariaEncrypt (j0 nonce) (blocksFor (input ++ extraIn).length))
  encrypted : state.encrypted = countersFor (j0 nonce) (input ++ extraIn).length

theorem ariaCtr_scattered (ariaEncrypt : Block → Block) (nonce input extraIn : Bytes) :
    Scattered ariaEncrypt nonce input extraIn (ariaCtr ariaEncrypt (ctrStart nonce) input).1
      (ariaCtr ariaEncrypt (ariaCtr ariaEncrypt (ctrStart nonce) input).2 extraIn).1
      (ariaCtr ariaEncrypt (ariaCtr ariaEncrypt (ctrStart nonce) input).2 extraIn).2 := by
  have hstart : Streamed ariaEncrypt (j0 nonce) (ctrStart nonce) 0 :=
    ⟨rfl, rfl, rfl, fun h => (Nat.lt_irrefl 0 h).elim⟩
  have hm : 0 + input.length + extraIn.length ≤ 16 * blocksFor (input ++ extraIn).length := by
    rw [List.length_append]
    unfold blocksFor
    omega
  have hm0 : 0 + input.length ≤ 16 * blocksFor (input ++ extraIn).length := by omega
  obtain ⟨hbody, hmiddle⟩ := ariaCtr_spec hstart input hm0
  obtain ⟨hextra, hend⟩ := ariaCtr_spec hmiddle extraIn hm
  rw [List.drop_zero] at hbody
  rw [Nat.zero_add] at hextra hend hm
  have hstream := keyStream_length ariaEncrypt (j0 nonce) (blocksFor (input ++ extraIn).length)
  refine ⟨?_, ?_, ?_, ?_⟩
  · rw [hbody, List.length_zipWith]
    omega
  · rw [hextra, List.length_zipWith, List.length_drop]
    omega
  · rw [hbody, hextra, zipWith_append_left]
  · rw [hend.encrypted, List.length_append]

theorem sealScatter_ok {maxOutTagLen : Nat} {nonce input extraIn ad : Bytes} {m m' : Memory}
    (h : sealScatter maxOutTagLen nonce input extraIn ad m = .ok () m') :
    Admitted m.ctx maxOutTagLen nonce input extraIn ∧
      ∃ body extra state tag, Scattered m.ctx.ariaEncrypt nonce input extraIn body extra state ∧
        ariaGcmTag m.ctx.ariaEncrypt m.ctx.h nonce ad body extra = some tag ∧
        m'.out.take input.length = body ∧ m'.outTag.take m'.outTagLen = extra ++ tag.octets := by
  unfold sealScatter at h
  obtain ⟨_, m1, hchecks, h⟩ := (Act.bind_ok_iff _ _ _ _ _).1 h
  obtain ⟨hadmitted, rfl⟩ := (sealChecks_ok_iff _ _ _ _ _ _).1 hchecks
  have hscattered := ariaCtr_scattered m.ctx.ariaEncrypt nonce input extraIn
  unfold encryptScatter at h
  simp only [Act.bind_ok_iff, Act.liftM_ok_iff, Res.okOr_ok_iff] at h
  obtain ⟨_, _, hget, out, _, ⟨hout, rfl⟩, _, _, hset, _, _, hget1, outTag, _, ⟨houtTag, rfl⟩, _, _,
    hset1, _, _, hget2, tag, _, ⟨htag, rfl⟩, last, _, ⟨hlast, rfl⟩, hset2⟩ := h
  cases hget
  cases hset
  cases hget1
  cases hset1
  cases hget2
  cases hset2
  have hbody := writeAt_zero hout
  have hextra := writeAt_zero houtTag
  rw [hscattered.body_length] at hbody
  rw [hscattered.extra_length] at hextra
  rw [hbody, hextra] at htag
  refine ⟨hadmitted, _, _, _, tag, hscattered, htag, hbody, ?_⟩
  have hwritten := writeAt_ok hlast
  rw [hextra] at hwritten
  show last.take (extraIn.length + tag.octets.length) = _
  rw [hwritten, List.take_left']
  rw [List.length_append, hscattered.extra_length]

/-! ## Agreement with the standard -/

theorem hashed_bits (ad ciphertext : Bytes) : octetBits (hashed ad ciphertext) =
    octetBits ad ++ Gcm.fill (octetBits ad) ++ octetBits ciphertext ++
      Gcm.fill (octetBits ciphertext) ++ toBits 64 (octetBits ad).length ++
      toBits 64 (octetBits ciphertext).length := by
  have hlengths := lengthBlock_bits ad.length ciphertext.length
  rw [Block.bits] at hlengths
  rw [hashed, octetBits_append, octetBits_append, octetBits_pad16, octetBits_pad16, hlengths,
    octetBits_length, octetBits_length]
  simp only [List.append_assoc]

/-- A string of one block. -/
theorem gctr_block (ariaEncrypt : Block → Block) (start y : Block) :
    Gcm.gctr (ciph ariaEncrypt) start.bits y.bits = ((ariaEncrypt start).xor y).bits := by
  have hlen : ∀ i, (ciph ariaEncrypt ((Gcm.inc 32)^[i] start.bits)).length = 128 :=
    fun i => Block.bits_length _
  rw [Gcm.gctr_eq hlen, Block.bits_length, Block.xor_bits, Gcm.xor, Gcm.xor,
    List.zipWith_comm_of_comm Bool.xor_comm]
  refine congrArg (List.zipWith Bool.xor · y.bits) ?_
  show ciph ariaEncrypt start.bits ++ [] = _
  rw [List.append_nil, ciph_bits]

/-- The ciphertext and the tag are those of the standard. -/
theorem scattered_gcm {ctx : AriaGcmCtx} {nonce input extraIn ad body extra : Bytes}
    {state : CtrState} {tag : Block}
    (h : Scattered ctx.ariaEncrypt nonce input extraIn body extra state)
    (hnonce : nonce.length = 12) (hlen : input.length + extraIn.length ≤ 2 ^ 36 - 32)
    (had : ad.length < 2 ^ 61)
    (htag : ariaGcmTag ctx.ariaEncrypt ctx.h nonce ad body extra = some tag) :
    Gcm.encrypt (ciph ctx.ariaEncrypt) (octetBits nonce) (octetBits ad)
      (octetBits (input ++ extraIn)) = some (octetBits (body ++ extra), tag.bits) := by
  have hciphertext : (body ++ extra).length = (input ++ extraIn).length := by
    rw [List.length_append, h.body_length, h.extra_length, List.length_append]
  obtain ⟨y, hy, hhash⟩ := ariaGcmTag_eq ctx.ariaEncrypt ctx.h nonce had.le
    (by rwa [h.body_length, h.extra_length] : body.length + extra.length ≤ 2 ^ 36 - 32)
  obtain rfl : tag = (ctx.ariaEncrypt (j0 nonce)).xor y := Option.some.inj (htag.symm.trans hy)
  have hguard : (octetBits nonce).length = 96 ∧
      (octetBits (input ++ extraIn)).length ≤ 2 ^ 39 - 256 := by
    rw [octetBits_length, octetBits_length, hnonce, List.length_append]
    omega
  have hc : Gcm.gctr (ciph ctx.ariaEncrypt) (Gcm.inc 32 (Gcm.preCounter (octetBits nonce)))
      (octetBits (input ++ extraIn)) = octetBits (body ++ extra) := by
    rw [← j0_bits hnonce, ← gctr_keyStream, ← h.ciphertext]
  have hadlen : (octetBits ad).length < 2 ^ 64 := by
    rw [octetBits_length]
    omega
  have hlen' : (octetBits (body ++ extra)).length < 2 ^ 64 := by
    rw [octetBits_length, hciphertext, List.length_append]
    omega
  have hh : ciph ctx.ariaEncrypt (Gcm.zeros 128) = ctx.h.bits := by
    rw [ctx.h_eq, ← Block.zero_bits, ciph_bits]
  rw [Gcm.encrypt_eq hguard hc hadlen hlen', hh, ← hashed_bits, ← hhash, ← j0_bits hnonce, gctr_block]

/-! ## Counter blocks -/

theorem incrementCounter_low (b : Block) : beValue ((incrementCounter b).octets.drop 12) =
    (beValue (b.octets.drop 12) + 1) % 2 ^ 32 := by
  have htake : (b.octets.take 12).length = 12 := by
    rw [List.length_take, b.length_eq]
    rfl
  show beValue ((b.octets.take 12 ++ beOctets 4 _).drop 12) = _
  rw [List.drop_left' htake, beValue_beOctets, UInt32.toNat_add, UInt32.toNat_ofNat', Nat.mod_add_mod]
  exact Nat.mod_mod _ _

theorem counterAt_low {nonce : Bytes} (h : nonce.length = 12) (i : Nat) :
    beValue ((counterAt (j0 nonce) i).octets.drop 12) = (1 + i) % 2 ^ 32 := by
  induction i with
  | zero =>
    show beValue ((j0 nonce).octets.drop 12) = _
    rw [j0_octets h, List.drop_left' h]
    rfl
  | succ i ih => rw [counterAt_succ, incrementCounter_low, ih, Nat.mod_add_mod, Nat.add_assoc]

/-- No counter block comes twice, nor is one the block of the tag. -/
theorem counters_nodup {nonce : Bytes} (h : nonce.length = 12) {n : Nat} (hn : n ≤ 2 ^ 36 - 32) :
    (j0 nonce :: countersFor (j0 nonce) n).Nodup := by
  have hall : j0 nonce :: countersFor (j0 nonce) n =
      (List.range (blocksFor n + 1)).map (counterAt (j0 nonce)) := by
    rw [List.range_succ_eq_map, List.map_cons, List.map_map]
    rfl
  rw [hall]
  refine List.Nodup.map_on (fun i hi j hj heq => ?_) List.nodup_range
  have hi := List.mem_range.1 hi
  have hj := List.mem_range.1 hj
  unfold blocksFor at hi hj
  have hlow := counterAt_low h i
  rw [heq, counterAt_low h j, Nat.mod_eq_of_lt (by omega), Nat.mod_eq_of_lt (by omega)] at hlow
  omega

/-! ## Records -/

/-- `input` with the key stream of a nonce added. -/
def ctr (ariaEncrypt : Block → Block) (nonce input : Bytes) : Bytes :=
  List.zipWith (· ^^^ ·) input (keyStream ariaEncrypt (j0 nonce) (blocksFor input.length))

theorem ctr_length (ariaEncrypt : Block → Block) (nonce input : Bytes) :
    (ctr ariaEncrypt nonce input).length = input.length := by
  rw [ctr, List.length_zipWith, keyStream_length]
  unfold blocksFor
  omega

/-- Added twice, the key stream is gone. -/
theorem ctr_ctr (ariaEncrypt : Block → Block) (nonce input : Bytes) :
    ctr ariaEncrypt nonce (ctr ariaEncrypt nonce input) = input := by
  have hcancel : ∀ x k : Bytes, x.length ≤ k.length →
      List.zipWith (· ^^^ ·) (List.zipWith (· ^^^ ·) x k) k = x := by
    intro x k
    induction x generalizing k with
    | nil => exact fun _ => rfl
    | cons a x ih =>
      cases k with
      | nil => exact fun h => (Nat.not_succ_le_zero _ h).elim
      | cons b k =>
        intro h
        rw [List.zipWith_cons_cons, List.zipWith_cons_cons, ih k (Nat.le_of_succ_le_succ h),
          UInt8.xor_assoc, UInt8.xor_self, UInt8.xor_zero]
  have hlen := ctr_length ariaEncrypt nonce input
  rw [ctr, hlen, ctr]
  refine hcancel _ _ ?_
  rw [keyStream_length]
  unfold blocksFor
  omega

theorem ariaCtr_start (ariaEncrypt : Block → Block) (nonce input : Bytes) :
    (ariaCtr ariaEncrypt (ctrStart nonce) input).1 = ctr ariaEncrypt nonce input := by
  have h := (ariaCtr_scattered ariaEncrypt nonce input []).ciphertext
  have hnil := (ariaCtr_scattered ariaEncrypt nonce input []).extra_length
  rwa [List.length_eq_zero_iff.1 hnil, List.append_nil, List.append_nil] at h

/-- A sealed record is determined by the nonce, the associated data and the whole input. -/
theorem sealScatter_record {maxOutTagLen : Nat} {nonce input extraIn ad : Bytes} {m m' : Memory}
    (h : sealScatter maxOutTagLen nonce input extraIn ad m = .ok () m') : ∃ tag : Block,
      m'.out.take input.length ++ m'.outTag.take m'.outTagLen =
        ctr m.ctx.ariaEncrypt nonce (input ++ extraIn) ++ tag.octets ∧
      ariaGcmTag m.ctx.ariaEncrypt (m.ctx.ariaEncrypt .zero) nonce ad
        (ctr m.ctx.ariaEncrypt nonce (input ++ extraIn)) [] = some tag := by
  obtain ⟨hadmitted, body, extra, state, tag, hscattered, htag, hbody, hextra⟩ := sealScatter_ok h
  have hlen := hadmitted.size.2
  rw [← hscattered.body_length, ← hscattered.extra_length] at hlen
  refine ⟨tag, ?_, ?_⟩
  · rw [hbody, hextra, ← List.append_assoc, hscattered.ciphertext, ctr]
  · rw [ctr, ← hscattered.ciphertext, ← m.ctx.h_eq,
      ← ariaGcmTag_append _ _ _ (ariaGcmTag_bound _ _ _ htag) hlen, htag]

theorem openGather_accepts {nonce input ad : Bytes} {m : Memory} {tag : Block}
    (hnonce : nonce.length = 12) (hroom : input.length ≤ m.out.length)
    (htag : ariaGcmTag m.ctx.ariaEncrypt m.ctx.h nonce ad input [] = some tag) :
    ∃ m', openGather nonce input tag.octets ad m = .ok () m' ∧ m'.ctx = m.ctx ∧
      m'.out.take input.length = ctr m.ctx.ariaEncrypt nonce input := by
  have hplain := ariaCtr_start m.ctx.ariaEncrypt nonce input
  have hlen := ctr_length m.ctx.ariaEncrypt nonce input
  obtain ⟨out, hwrite⟩ : ∃ out, writeAt m.out 0 (ctr m.ctx.ariaEncrypt nonce input) = .ok out :=
    writeAt_of_le (by rwa [hlen, Nat.zero_add])
  have hout := writeAt_zero hwrite
  rw [hlen] at hout
  refine ⟨{ m with out }, ?_, rfl, hout⟩
  unfold openGather
  rw [Act.bind_ok_iff]
  refine ⟨_, _, rfl, ?_⟩
  simp only [ensure, okOr, htag, hplain, hwrite, hnonce, tag.length_eq, and_self, if_true,
    Act.liftM_ok_bind]
  rfl

/-- Any other tag is rejected, before anything is written. -/
theorem openGather_rejects {nonce input ad inTag : Bytes} {m : Memory} {tag : Block}
    (htag : ariaGcmTag m.ctx.ariaEncrypt m.ctx.h nonce ad input [] = some tag)
    (hne : inTag ≠ tag.octets) :
    openGather nonce input inTag ad m = .error (.err "BAD_DECRYPT") m := by
  unfold openGather
  rw [Act.bind_error_iff]
  refine .inr ⟨_, _, rfl, ?_⟩
  by_cases hlen : nonce.length = 12 ∧ inTag.length = 16
  · simp only [ensure, okOr, htag, if_pos hlen, if_neg (Ne.symm hne), Act.liftM_ok_bind]
    rfl
  · simp only [ensure, if_neg hlen]
    rfl

/-- A call is sealed if it is admitted, the caller's buffers are as long as said and the
associated data are not too long. -/
theorem sealScatter_succeeds {maxOutTagLen : Nat} {nonce input extraIn ad : Bytes} {m : Memory}
    (hadmitted : Admitted m.ctx maxOutTagLen nonce input extraIn)
    (hout : input.length ≤ m.out.length) (houtTag : maxOutTagLen ≤ m.outTag.length)
    (had : ad.length ≤ 2 ^ 61) :
    ∃ m', sealScatter maxOutTagLen nonce input extraIn ad m = .ok () m' := by
  have hscattered := ariaCtr_scattered m.ctx.ariaEncrypt nonce input extraIn
  have hroom := hadmitted.room
  rw [m.ctx.tagLen_eq] at hroom
  obtain ⟨out, hwrite⟩ := writeAt_of_le
    (by rwa [Nat.zero_add, hscattered.body_length] : 0 + _ ≤ m.out.length)
  obtain ⟨outTag, hwriteTag⟩ := writeAt_of_le
    (by rw [Nat.zero_add, hscattered.extra_length]; omega : 0 + _ ≤ m.outTag.length)
  have hbody := writeAt_zero hwrite
  have hextra := writeAt_zero hwriteTag
  rw [hscattered.body_length] at hbody
  rw [hscattered.extra_length] at hextra
  have hsize := hadmitted.size.2
  rw [← hscattered.body_length, ← hscattered.extra_length] at hsize
  obtain ⟨y, htag, -⟩ := ariaGcmTag_eq m.ctx.ariaEncrypt m.ctx.h nonce had hsize
  obtain ⟨last, hlast⟩ : ∃ last, writeAt outTag extraIn.length
      ((m.ctx.ariaEncrypt (j0 nonce)).xor y).octets = .ok last := by
    refine writeAt_of_le ?_
    rw [Block.length_eq, writeAt_length hwriteTag]
    omega
  refine ⟨⟨{ m.ctx with minNextNonce := counterValue nonce + 1 }, out, last, extraIn.length +
      ((m.ctx.ariaEncrypt (j0 nonce)).xor y).octets.length⟩,
    (Act.bind_ok_iff _ _ _ _ _).2 ⟨(), _, (sealChecks_ok_iff _ _ _ _ _ _).2 ⟨hadmitted, rfl⟩, ?_⟩⟩
  unfold encryptScatter
  simp only [Act.bind_ok_iff, Act.liftM_ok_iff, Res.okOr_ok_iff]
  refine ⟨_, _, rfl, out, _, ⟨hwrite, rfl⟩, _, _, rfl, _, _, rfl, outTag, _, ⟨hwriteTag, rfl⟩, _, _,
    rfl, _, _, rfl, _, _, ⟨?_, rfl⟩, last, _, ⟨hlast, rfl⟩, rfl⟩
  rw [hbody, hextra]
  exact htag

/-- What is asked of a sealed record. -/
structure Agrees (ctx : AriaGcmCtx) (nonce input extraIn ad out outTag : Bytes) : Prop where
  gcm : (Gcm.encrypt (ciph ctx.ariaEncrypt) (octetBits nonce) (octetBits ad)
    (octetBits (input ++ extraIn))).map (fun ct => ct.1 ++ ct.2) = some (octetBits (out ++ outTag))
  cut : ∀ (maxOutTagLen : Nat) (input' extraIn' : Bytes) (m m' : Memory),
    m.ctx.ariaEncrypt = ctx.ariaEncrypt → input' ++ extraIn' = input ++ extraIn →
    sealScatter maxOutTagLen nonce input' extraIn' ad m = .ok () m' →
    m'.out.take input'.length ++ m'.outTag.take m'.outTagLen = out ++ outTag
  counters : (j0 nonce :: (ariaCtr ctx.ariaEncrypt
    (ariaCtr ctx.ariaEncrypt (ctrStart nonce) input).2 extraIn).2.encrypted).Nodup
  opened : ∃ ciphertext tag : Bytes, out ++ outTag = ciphertext ++ tag ∧ tag.length = 16 ∧
    ∀ m : Memory, m.ctx.ariaEncrypt = ctx.ariaEncrypt →
      (ciphertext.length ≤ m.out.length → ∃ m', openGather nonce ciphertext tag ad m = .ok () m' ∧
        m'.out.take ciphertext.length = input ++ extraIn) ∧
      ∀ tag', tag' ≠ tag →
        openGather nonce ciphertext tag' ad m = .error (.err "BAD_DECRYPT") m

/-- The standard has no length block for 2^61 octets of associated data. -/
theorem Agrees.ad_ne {ctx : AriaGcmCtx} {nonce input extraIn ad out outTag : Bytes}
    (h : Agrees ctx nonce input extraIn ad out outTag) : ad.length ≠ 2 ^ 61 := by
  intro had
  obtain ⟨ct, hct, -⟩ := Option.map_eq_some_iff.1 h.gcm
  have hlt := Gcm.encrypt_ad_lt hct
  rw [octetBits_length] at hlt
  omega

/-- **Sealed records are GCM**, exactly where the length block can hold the length of the
associated data. -/
theorem seal_is_gcm {maxOutTagLen : Nat} {nonce input extraIn ad : Bytes} {m m' : Memory}
    (h : sealScatter maxOutTagLen nonce input extraIn ad m = .ok () m') :
    Agrees m.ctx nonce input extraIn ad (m'.out.take input.length)
      (m'.outTag.take m'.outTagLen) ↔ ad.length ≠ 2 ^ 61 := by
  constructor
  · exact Agrees.ad_ne
  · intro hne
    obtain ⟨hadmitted, body, extra, state, tag, hscattered, htag, hbody, hextra⟩ := sealScatter_ok h
    have had := ariaGcmTag_bound _ _ _ htag
    obtain ⟨tag', hrecord, htag'⟩ := sealScatter_record h
    have hlen := ctr_length m.ctx.ariaEncrypt nonce (input ++ extraIn)
    refine ⟨?_, ?_, ?_, _, _, hrecord, tag'.length_eq, ?_⟩
    · rw [scattered_gcm hscattered hadmitted.nonce_length hadmitted.size.2 (by omega) htag, hbody,
        hextra, ← List.append_assoc, octetBits_append (body ++ extra)]
      rfl
    · intro max input' extraIn' m₁ m₂ hctx hinput hseal
      obtain ⟨tag'', hrecord', htag''⟩ := sealScatter_record hseal
      rw [hctx, hinput] at hrecord' htag''
      rw [hrecord', hrecord, Option.some.inj (htag''.symm.trans htag')]
    · rw [(ariaCtr_scattered m.ctx.ariaEncrypt nonce input extraIn).encrypted]
      refine counters_nodup hadmitted.nonce_length ?_
      rw [List.length_append]
      exact hadmitted.size.2
    · intro m₁ hctx
      have htag₁ : ariaGcmTag m₁.ctx.ariaEncrypt m₁.ctx.h nonce ad
          (ctr m.ctx.ariaEncrypt nonce (input ++ extraIn)) [] = some tag' := by
        rw [m₁.ctx.h_eq, hctx]
        exact htag'
      refine ⟨fun hroom => ?_, fun tag₁ hne => openGather_rejects htag₁ hne⟩
      obtain ⟨m₂, hopen, -, hout⟩ := openGather_accepts hadmitted.nonce_length hroom htag₁
      exact ⟨m₂, hopen, by rw [hout, hctx, ctr_ctr]⟩

def sampleCtx : AriaGcmCtx :=
  { AriaGcmCtx.fresh fun b =>
      ⟨b.octets.map (· + 1), by rw [List.length_map, b.length_eq]⟩ with minNextNonce := 5 }

def sampleMemory : Memory where
  ctx := sampleCtx
  out := List.replicate 20 0
  outTag := List.replicate 20 0
  outTagLen := 0

def sampleNonce : Bytes := [1, 2, 3, 4, 0, 0, 0, 0, 0, 0, 0, 9]

theorem sample_admitted : Admitted sampleCtx 17 sampleNonce [1, 2, 3] [4] :=
  ⟨rfl, by decide, by decide, by decide⟩

theorem seal_is_gcm_sample : ∃ m', sealScatter 17 sampleNonce [1, 2, 3] [4] [23] sampleMemory = .ok () m' ∧
    Agrees sampleCtx sampleNonce [1, 2, 3] [4] [23] (m'.out.take 3) (m'.outTag.take m'.outTagLen) :=
  have hadmitted : Admitted sampleMemory.ctx 17 sampleNonce [1, 2, 3] [4] := sample_admitted
  have ⟨m', h⟩ := sealScatter_succeeds hadmitted (by decide) (by decide) (by decide)
  ⟨m', h, (seal_is_gcm h).2 (by decide)⟩

/-- Associated data of 2^61 octets are accepted, and their length in bits is written as 0. -/
theorem seal_wrapped_ad : ∃ m', sealScatter 17 sampleNonce [1, 2, 3] [4]
      (List.replicate (2 ^ 61) 0) sampleMemory = .ok () m' ∧
    ¬ Agrees sampleCtx sampleNonce [1, 2, 3] [4] (List.replicate (2 ^ 61) 0) (m'.out.take 3)
      (m'.outTag.take m'.outTagLen) := by
  have hadmitted : Admitted sampleMemory.ctx 17 sampleNonce [1, 2, 3] [4] := sample_admitted
  obtain ⟨m', h⟩ := sealScatter_succeeds hadmitted (by decide) (by decide)
    (List.length_replicate (n := 2 ^ 61) (a := (0 : UInt8))).le
  exact ⟨m', h, fun hagrees => hagrees.ad_ne List.length_replicate⟩

end AriaGcm
