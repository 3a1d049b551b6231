import FingerprintBridge.Lib.Octets
import Mathlib.Data.Nat.Bitwise

/-!
# `scripts/patches/bridge-etm.patch`: encrypt-then-MAC records

What `SealEtm` seals `OpenEtm` opens, and the three functions that tell lengths in advance
agree with it (`etm_records`).
-/

namespace Ssl

/-! ## The code -/

/-- `EVP_Cipher*` with padding off, for an initialization vector and data, and `HMAC_*`,
under the keys of a context. -/
structure EtmKeys where
  encrypt : Bytes → Bytes → Option Bytes
  decrypt : Bytes → Bytes → Option Bytes
  hmac : Bytes → Option Bytes

/-- `SSLAEADContext`, when made for encrypt-then-MAC. -/
structure EtmContext where
  keys : EtmKeys
  variableNonceLen : UInt8
  etmMacLen : UInt8
  block_eq : variableNonceLen = 8 ∨ variableNonceLen = 16
  mac_ne : etmMacLen ≠ 0

namespace EtmContext

variable (c : EtmContext)

def block : Nat := c.variableNonceLen.toNat

def macLen : Nat := c.etmMacLen.toNat

def SuffixLen (inLen extraInLen : Nat) : Option Nat :=
  if inLen > 0xffff ∨ extraInLen > 0xffff - inLen then none
  else some (extraInLen + c.macLen + c.block - (inLen + extraInLen) % c.block)

def MaxOverhead : Nat := 2 * c.block + c.macLen

def MaxSealInputLen (maxOut : UInt64) : UInt64 :=
  if maxOut ≤ c.etmMacLen.toUInt64 then 0
  else
    let maxOut := (maxOut - c.etmMacLen.toUInt64) &&& ~~~(c.variableNonceLen.toUInt64 - 1)
    if maxOut = 0 then 0 else maxOut - 1

/-- `ad` -/
def etmAd (type : UInt8) (version : UInt16) (seqnum : UInt64) (size : Nat) : Bytes :=
  beOctets 8 seqnum.toNat ++
    [type, (version >>> 8).toUInt8, version.toUInt8, UInt8.ofNat (size >>> 8), UInt8.ofNat size]

def EtmMAC (type : UInt8) (version : UInt16) (seqnum : UInt64) (fragment : Bytes) : Option Bytes :=
  if fragment.length > 0xffff then none
  else (c.keys.hmac (etmAd type version seqnum fragment.length ++ fragment)).filter
    fun mac => mac.length = c.macLen

def mismatchStep (encrypted : Bytes) (padding : Nat) (mismatch : UInt8) (i : Nat) : Res UInt8 := do
  let b ← byteAt encrypted (← checkedSub (← checkedSub encrypted.length 1) i)
  return mismatch ||| (b ^^^ UInt8.ofNat (padding - 1))

/-- The loop over the padding. -/
def paddingMismatch (encrypted : Bytes) (padding : Nat) : Res UInt8 :=
  (List.range padding).foldlM (mismatchStep encrypted padding) 0

/-- The state is the record, which is decrypted in place. -/
def OpenEtm (type : UInt8) (version : UInt16) (seqnum : UInt64) : Act Bytes Bytes := do
  let record ← get
  ensure (c.macLen + 2 * c.block ≤ record.length) "BAD_PACKET_LENGTH"
  let fragment ← slice record 0 (← checkedSub record.length c.macLen)
  let mac ← okOr (c.EtmMAC type version seqnum fragment) "DECRYPTION_FAILED_OR_BAD_RECORD_MAC"
  let received ← slice record fragment.length record.length
  ensure (mac = received) "DECRYPTION_FAILED_OR_BAD_RECORD_MAC"
  let iv ← slice fragment 0 c.block
  let encrypted ← slice fragment c.block fragment.length
  ensure (encrypted.length % c.block = 0) "BAD_PACKET_LENGTH"
  let plain ← okOr (c.keys.decrypt iv encrypted) "EVP_CipherUpdate"
  set (iv ++ plain ++ encrypted.drop plain.length ++ received)
  ensure (plain.length = encrypted.length) "EVP_CipherFinal_ex"
  let back ← byteAt plain (← checkedSub plain.length 1)
  let padding := back.toNat + 1
  ensure (padding ≤ plain.length) "DECRYPTION_FAILED_OR_BAD_RECORD_MAC"
  let mismatch ← paddingMismatch plain padding
  ensure (mismatch = 0) "DECRYPTION_FAILED_OR_BAD_RECORD_MAC"
  slice plain 0 (← checkedSub plain.length padding)

/-- What is written to `prefix`, `out` and `suffix`.  `rand` is what `RAND_bytes` gives, and
`none` if it fails. -/
def SealEtm (rand : Option { iv : Bytes // iv.length = c.block }) (type : UInt8)
    (version : UInt16) (seqnum : UInt64) (input extra : Bytes) : Option (Bytes × Bytes × Bytes) := do
  let suffixLen ← c.SuffixLen input.length extra.length
  let encryptedLen := input.length + suffixLen - c.macLen
  let iv ← rand
  let padding := encryptedLen - input.length - extra.length
  let body ← c.keys.encrypt iv.1 (input ++ extra ++ List.replicate padding (UInt8.ofNat (padding - 1)))
  guard (body.length = encryptedLen)
  let mac ← c.EtmMAC type version seqnum (iv.1 ++ body)
  return (iv.1, body.take input.length, body.drop input.length ++ mac)

/-! ## Lengths -/

theorem block_pos : 0 < c.block := by
  unfold block
  rcases c.block_eq with h | h <;> rw [h] <;> decide

/-- The octets of padding after `n` octets of data, their length octet included. -/
def padding (n : Nat) : Nat := c.block - n % c.block

theorem padding_pos (n : Nat) : 0 < c.padding n := Nat.sub_pos_of_lt (Nat.mod_lt _ c.block_pos)

theorem padding_le (n : Nat) : c.padding n ≤ c.block := Nat.sub_le _ _

/-- Padding fills the block. -/
theorem add_padding (n : Nat) : n + c.padding n = (n / c.block + 1) * c.block := by
  have hdiv := Nat.div_add_mod' n c.block
  have hmod := Nat.mod_lt n c.block_pos
  rw [Nat.succ_mul]
  unfold padding
  omega

theorem suffixLen_eq {n e s : Nat} (h : c.SuffixLen n e = some s) :
    s = e + c.padding (n + e) + c.macLen := by
  unfold SuffixLen at h
  split at h
  · cases h
  · have hmod := Nat.mod_lt (n + e) c.block_pos
    have hs := Option.some.inj h
    unfold padding
    omega

/-- Sealed, `n` octets with nothing extra take `n + padding n + macLen`, which fits. -/
def Fits (n : Nat) (maxOut : UInt64) : Prop := n + c.padding n + c.macLen ≤ maxOut.toNat

theorem fits_iff_suffixLen {n s : Nat} (h : c.SuffixLen n 0 = some s) (maxOut : UInt64) :
    c.Fits n maxOut ↔ n + s ≤ maxOut.toNat := by
  have hs := c.suffixLen_eq h
  rw [Nat.add_zero] at hs
  unfold Fits
  omega

end EtmContext

/-- The mask leaves whole blocks. -/
theorem toNat_and_not_mask (x y : UInt64) (k : Nat) (hk : k < 64) (hy : y.toNat = 2 ^ k) :
    (x &&& ~~~(y - 1)).toNat = x.toNat / 2 ^ k * 2 ^ k := by
  have hx := x.toNat_lt
  have hpos : 0 < 2 ^ k := Nat.two_pow_pos k
  have hle : 2 ^ k ≤ 2 ^ 63 := Nat.pow_le_pow_right (by decide) (by omega)
  have hsub : (y - 1).toNat = 2 ^ k - 1 := by
    rw [UInt64.toNat_sub_of_le _ _ (UInt64.le_iff_toNat_le.2 (hy ▸ hpos)), hy]
    rfl
  have hnot : (~~~(y - 1)).toNat = 2 ^ 64 - (2 ^ k - 1 + 1) := by
    rw [UInt64.toNat_not, hsub, Nat.sub_sub, Nat.add_comm 1]
    rfl
  refine Nat.eq_of_testBit_eq fun i => ?_
  rw [UInt64.toNat_and, hnot, Nat.testBit_and, Nat.testBit_mul_two_pow, Nat.testBit_div_two_pow,
    Nat.testBit_two_pow_sub_succ (by omega), Nat.testBit_two_pow_sub_one]
  by_cases hi : k ≤ i
  · rw [decide_eq_true hi, decide_eq_false (by omega : ¬ i < k), Nat.sub_add_cancel hi,
      Bool.not_false, Bool.and_true, Bool.true_and]
    by_cases h64 : i < 64
    · rw [decide_eq_true h64, Bool.and_true]
    · have hhigh : x.toNat.testBit i = false :=
        Nat.testBit_lt_two_pow (hx.trans_le (Nat.pow_le_pow_right (by decide) (not_lt.1 h64)))
      rw [hhigh, Bool.false_and]
  · rw [decide_eq_false hi, decide_eq_true (not_le.1 hi), Bool.not_true, Bool.and_false,
      Bool.and_false, Bool.false_and]

namespace EtmContext

variable (c : EtmContext)

theorem exists_block_pow : ∃ k < 64, c.variableNonceLen.toUInt64.toNat = 2 ^ k ∧ c.block = 2 ^ k := by
  unfold block
  rcases c.block_eq with h | h
  · exact ⟨3, by decide, by rw [h]; decide, by rw [h]; decide⟩
  · exact ⟨4, by decide, by rw [h]; decide, by rw [h]; decide⟩

theorem toNat_maxSealInputLen (maxOut : UInt64) : (c.MaxSealInputLen maxOut).toNat =
    (maxOut.toNat - c.macLen) / c.block * c.block - 1 := by
  obtain ⟨k, hk, hnonce, hblock⟩ := c.exists_block_pow
  have hmac : c.etmMacLen.toUInt64.toNat = c.macLen := UInt8.toNat_toUInt64 _
  unfold MaxSealInputLen
  split
  · next hle =>
    have hle' : maxOut.toNat ≤ c.macLen := hmac ▸ UInt64.le_iff_toNat_le.1 hle
    rw [Nat.sub_eq_zero_of_le hle', Nat.zero_div, Nat.zero_mul]
    rfl
  · next hle =>
    have hle' : c.etmMacLen.toUInt64 ≤ maxOut :=
      (UInt64.le_total _ _).resolve_left hle
    have hmask := toNat_and_not_mask (maxOut - c.etmMacLen.toUInt64) c.variableNonceLen.toUInt64
      k hk hnonce
    rw [UInt64.toNat_sub_of_le _ _ hle', hmac, ← hblock] at hmask
    simp only
    split
    · next h0 => rw [← hmask, h0]; rfl
    · next h0 =>
      rw [← hmask]
      refine UInt64.toNat_sub_of_le _ _ (UInt64.le_iff_toNat_le.2 ?_)
      exact Nat.pos_of_ne_zero fun h => h0 (UInt64.toNat_inj.1 h)

/-- An input fits if its last block does. -/
theorem fits_iff (n : Nat) (maxOut : UInt64) :
    c.Fits n maxOut ↔ n < (maxOut.toNat - c.macLen) / c.block * c.block := by
  have hpos := c.block_pos
  have hsum := c.add_padding n
  have hpad : 0 < (n / c.block + 1) * c.block := Nat.mul_pos (Nat.succ_pos _) hpos
  calc c.Fits n maxOut
    _ ↔ (n / c.block + 1) * c.block ≤ maxOut.toNat - c.macLen := by
      unfold Fits
      omega
    _ ↔ n / c.block < (maxOut.toNat - c.macLen) / c.block := (Nat.le_div_iff_mul_le hpos).symm
    _ ↔ n < (maxOut.toNat - c.macLen) / c.block * c.block := Nat.div_lt_iff_lt_mul hpos

/-- `MaxSealInputLen` is the longest input that fits, and 0 if there is none. -/
theorem maxSealInputLen_exact (maxOut : UInt64) :
    ((∃ n, c.Fits n maxOut) → ∀ n, c.Fits n maxOut ↔ n ≤ (c.MaxSealInputLen maxOut).toNat) ∧
      ((¬ ∃ n, c.Fits n maxOut) → c.MaxSealInputLen maxOut = 0) := by
  rw [← UInt64.toNat_inj, toNat_maxSealInputLen]
  simp only [fits_iff]
  constructor
  · rintro ⟨m, hm⟩ n
    omega
  · intro hnone
    have h0 : ¬ 0 < (maxOut.toNat - c.macLen) / c.block * c.block := fun h => hnone ⟨0, h⟩
    rw [Nat.eq_zero_of_not_pos h0]
    rfl

/-! ## Round trip -/

theorem mismatchStep_ok {encrypted : Bytes} {i : Nat} (hi : i < encrypted.length) (padding : Nat)
    (mismatch : UInt8) : ∃ m, mismatchStep encrypted padding mismatch i = .ok m ∧
      (m = 0 ↔ mismatch = 0 ∧
        encrypted[encrypted.length - 1 - i]? = some (UInt8.ofNat (padding - 1))) := by
  have hlt : encrypted.length - 1 - i < encrypted.length := by omega
  refine ⟨mismatch ||| (encrypted[encrypted.length - 1 - i] ^^^ UInt8.ofNat (padding - 1)), ?_, ?_⟩
  · unfold mismatchStep
    rw [Res.checkedSub_of_le _ _ (by omega : 1 ≤ encrypted.length)]
    show (checkedSub (encrypted.length - 1) i >>= fun j => byteAt encrypted j >>= _) = _
    rw [Res.checkedSub_of_le _ _ (by omega : i ≤ encrypted.length - 1)]
    show (byteAt encrypted (encrypted.length - 1 - i) >>= _) = _
    rw [Res.byteAt_of_lt _ _ hlt]
    rfl
  · rw [UInt8.or_eq_zero_iff, UInt8.xor_eq_zero_iff, List.getElem?_eq_getElem hlt, Option.some_inj]

theorem mismatch_loop (encrypted : Bytes) (padding : Nat) (is : List Nat)
    (his : ∀ i ∈ is, i < encrypted.length) (m0 : UInt8) :
    ∃ m, is.foldlM (mismatchStep encrypted padding) m0 = .ok m ∧ (m = 0 ↔ m0 = 0 ∧ ∀ i ∈ is,
      encrypted[encrypted.length - 1 - i]? = some (UInt8.ofNat (padding - 1))) := by
  induction is generalizing m0 with
  | nil => exact ⟨m0, rfl, by simp⟩
  | cons i is ih =>
    obtain ⟨m1, hstep, hone⟩ := mismatchStep_ok (his i (List.mem_cons_self ..)) padding m0
    obtain ⟨m, hm, hzero⟩ := ih (fun j hj => his j (List.mem_cons_of_mem _ hj)) m1
    refine ⟨m, ?_, ?_⟩
    · rw [List.foldlM_cons, hstep]
      exact hm
    · rw [hzero, hone, List.forall_mem_cons, and_assoc]

/-- The loop stays in the record, and finds nothing exactly where the padding is uniform. -/
theorem paddingMismatch_spec (encrypted : Bytes) (padding : Nat) (h : padding ≤ encrypted.length) :
    ∃ m, paddingMismatch encrypted padding = .ok m ∧ (m = 0 ↔ ∀ i < padding,
      encrypted[encrypted.length - 1 - i]? = some (UInt8.ofNat (padding - 1))) := by
  obtain ⟨m, hm, hzero⟩ := mismatch_loop encrypted padding
    (List.range padding) (fun i hi => (List.mem_range.1 hi).trans_le h) 0
  exact ⟨m, hm, by simpa using hzero⟩

theorem paddingMismatch_pad (data : Bytes) (n : Nat) :
    paddingMismatch (data ++ List.replicate n (UInt8.ofNat (n - 1))) n = .ok 0 := by
  obtain ⟨m, hm, hzero⟩ := paddingMismatch_spec
    (data ++ List.replicate n (UInt8.ofNat (n - 1))) n (by simp)
  rw [hm, hzero.2 fun i hi => ?_]
  rw [List.getElem?_append_right (by simp; omega), List.getElem?_replicate,
    if_pos (by simp; omega)]

/-- What `OpenEtm` does once the MAC verifies. -/
def openVerified (iv encrypted received : Bytes) : Act Bytes Bytes := do
  ensure (encrypted.length % c.block = 0) "BAD_PACKET_LENGTH"
  let plain ← okOr (c.keys.decrypt iv encrypted) "EVP_CipherUpdate"
  set (iv ++ plain ++ encrypted.drop plain.length ++ received)
  ensure (plain.length = encrypted.length) "EVP_CipherFinal_ex"
  let back ← byteAt plain (← checkedSub plain.length 1)
  let padding := back.toNat + 1
  ensure (padding ≤ plain.length) "DECRYPTION_FAILED_OR_BAD_RECORD_MAC"
  let mismatch ← paddingMismatch plain padding
  ensure (mismatch = 0) "DECRYPTION_FAILED_OR_BAD_RECORD_MAC"
  slice plain 0 (← checkedSub plain.length padding)

/-- Nothing but the MAC is looked at before it verifies. -/
theorem openEtm_eq (iv body mac : Bytes) (hiv : iv.length = c.block) (hbody : c.block ≤ body.length)
    (hmac : mac.length = c.macLen) (type : UInt8) (version : UInt16) (seqnum : UInt64) :
    c.OpenEtm type version seqnum (iv ++ body ++ mac) =
      if c.EtmMAC type version seqnum (iv ++ body) = some mac
      then c.openVerified iv body mac (iv ++ body ++ mac)
      else .error (.err "DECRYPTION_FAILED_OR_BAD_RECORD_MAC") (iv ++ body ++ mac) := by
  have hlen : (iv ++ body ++ mac).length = (iv ++ body).length + c.macLen := by
    rw [List.length_append, hmac]
  have hroom : c.macLen + 2 * c.block ≤ (iv ++ body).length + c.macLen := by
    rw [List.length_append, hiv]
    omega
  have hfirst : slice (iv ++ body ++ mac) 0 (iv ++ body).length = .ok (iv ++ body) :=
    Res.slice_middle [] _ _ _ _ rfl (Nat.zero_add _)
  have hlast : slice (iv ++ body ++ mac) (iv ++ body).length ((iv ++ body).length + c.macLen) =
      .ok mac := by
    have h := Res.slice_middle (iv ++ body) mac [] _ _ rfl rfl
    rwa [List.append_nil, hmac] at h
  have hnonce : slice (iv ++ body) 0 c.block = .ok iv :=
    Res.slice_middle [] _ _ _ _ rfl (by rw [Nat.zero_add, hiv])
  have hrest : slice (iv ++ body) c.block (iv ++ body).length = .ok body := by
    have h := Res.slice_middle iv body [] c.block (iv ++ body).length hiv
      (by rw [List.length_append, hiv])
    rwa [List.append_nil] at h
  unfold OpenEtm
  rw [Act.get_bind]
  simp only [ensure, if_pos hroom, Act.liftM_ok_bind, hlen, hfirst, hlast,
    Res.checkedSub_of_le _ _ (Nat.le_add_left c.macLen _), Nat.add_sub_cancel]
  cases hm : c.EtmMAC type version seqnum (iv ++ body) with
  | none => rfl
  | some computed =>
    by_cases heq : computed = mac
    · subst heq
      simp only [okOr, Act.liftM_ok_bind, if_true, hnonce, hrest]
      rfl
    · rw [if_neg fun h => heq (Option.some.inj h)]
      simp only [okOr, Act.liftM_ok_bind, if_neg heq]
      rfl

variable {c}

theorem EtmMAC_length {type : UInt8} {version : UInt16} {seqnum : UInt64} {fragment mac : Bytes}
    (h : c.EtmMAC type version seqnum fragment = some mac) : mac.length = c.macLen := by
  unfold EtmMAC at h
  split at h
  · cases h
  · exact of_decide_eq_true (Option.filter_eq_some_iff.1 h).2

/-- A record whose MAC verifies and whose plaintext ends in padding. -/
theorem openEtm_of_decrypt {type : UInt8} {version : UInt16} {seqnum : UInt64}
    {iv body mac data : Bytes} {n : Nat} (hiv : iv.length = c.block)
    (hmac : c.EtmMAC type version seqnum (iv ++ body) = some mac)
    (hblock : body.length % c.block = 0) (hn : 0 < n) (hle : n ≤ 256)
    (hlen : body.length = data.length + n) (hpos : c.block ≤ body.length)
    (hdecrypt : c.keys.decrypt iv body = some (data ++ List.replicate n (UInt8.ofNat (n - 1)))) :
    (c.OpenEtm type version seqnum).value? (iv ++ body ++ mac) = some data := by
  have hplain : (data ++ List.replicate n (UInt8.ofNat (n - 1))).length = body.length := by
    rw [List.length_append, List.length_replicate, hlen]
  have hback : byteAt (data ++ List.replicate n (UInt8.ofNat (n - 1))) (body.length - 1) =
      .ok (UInt8.ofNat (n - 1)) := by
    rw [Res.byteAt_ok_iff, List.getElem?_append_right (by omega), List.getElem?_replicate,
      if_pos (by omega)]
  have hpadding : (UInt8.ofNat (n - 1)).toNat + 1 = n := by
    rw [UInt8.toNat_ofNat', Nat.mod_eq_of_lt (by omega)]
    omega
  have hdata : slice (data ++ List.replicate n (UInt8.ofNat (n - 1))) 0 (body.length - n) =
      .ok data := Res.slice_middle [] _ _ _ _ rfl (by omega)
  rw [Act.value?_eq_some_iff]
  refine ⟨iv ++ (data ++ List.replicate n (UInt8.ofNat (n - 1))) ++ body.drop body.length ++ mac, ?_⟩
  rw [c.openEtm_eq iv body mac hiv hpos (EtmMAC_length hmac), if_pos hmac]
  unfold openVerified
  -- decryption
  simp only [ensure, okOr, if_pos hblock, hdecrypt, Act.liftM_ok_bind]
  rw [Act.bind_ok_iff]
  refine ⟨_, _, rfl, ?_⟩
  -- padding
  simp only [hplain, if_true, Act.liftM_ok_bind, Res.checkedSub_of_le _ _ (by omega : 1 ≤ body.length),
    hback, hpadding, if_pos (by omega : n ≤ body.length), paddingMismatch_pad,
    Res.checkedSub_of_le _ _ (by omega : n ≤ body.length), hdata]
  rfl

variable (c)

/-- `encrypt` permutes whole blocks, and `decrypt` inverts it. -/
def Inverse : Prop := ∀ iv x : Bytes, iv.length = c.block → x.length % c.block = 0 →
  ∃ y, c.keys.encrypt iv x = some y ∧ y.length = x.length ∧ c.keys.decrypt iv y = some x

variable {c}

/-- What `SealEtm` writes. -/
theorem sealEtm_eq {rand : Option { iv : Bytes // iv.length = c.block }} {type : UInt8}
    {version : UInt16} {seqnum : UInt64} {input extra pre out suffix : Bytes}
    (h : c.SealEtm rand type version seqnum input extra = some (pre, out, suffix)) :
    ∃ body mac suffixLen, pre.length = c.block ∧
      c.SuffixLen input.length extra.length = some suffixLen ∧
      body.length = (input ++ extra).length + c.padding (input ++ extra).length ∧
      c.keys.encrypt pre (input ++ extra ++ List.replicate (c.padding (input ++ extra).length)
        (UInt8.ofNat (c.padding (input ++ extra).length - 1))) = some body ∧
      c.EtmMAC type version seqnum (pre ++ body) = some mac ∧
      out = body.take input.length ∧ suffix = body.drop input.length ++ mac := by
  unfold SealEtm at h
  simp only [Option.bind_eq_bind, Option.bind_eq_some_iff, Option.pure_def, Option.some.injEq,
    Prod.mk.injEq, Option.guard_eq_some'] at h
  obtain ⟨suffixLen, hsuffix, iv, -, body, hencrypt, -, hlen, mac, hmac, rfl, rfl, rfl⟩ := h
  have hs := c.suffixLen_eq hsuffix
  have hpadding : input.length + suffixLen - c.macLen - input.length - extra.length =
      c.padding (input ++ extra).length := by
    rw [List.length_append]
    omega
  rw [hpadding] at hencrypt
  refine ⟨body, mac, suffixLen, iv.2, hsuffix, ?_, hencrypt, hmac, rfl, rfl⟩
  rw [hlen, List.length_append]
  omega

/-- `OpenEtm` opens what `SealEtm` seals. -/
theorem openEtm_sealEtm (hcbc : c.Inverse) {rand : Option { iv : Bytes // iv.length = c.block }}
    {type : UInt8} {version : UInt16} {seqnum : UInt64} {input extra pre out suffix : Bytes}
    (h : c.SealEtm rand type version seqnum input extra = some (pre, out, suffix)) :
    (c.OpenEtm type version seqnum).value? (pre ++ out ++ suffix) = some (input ++ extra) := by
  obtain ⟨body, mac, -, hiv, -, hlen, hencrypt, hmac, rfl, rfl⟩ := sealEtm_eq h
  have hpos := c.padding_pos (input ++ extra).length
  have hle := c.padding_le (input ++ extra).length
  have hsum := c.add_padding (input ++ extra).length
  have hblock : body.length % c.block = 0 := by rw [hlen, hsum, Nat.mul_mod_left]
  have hwhole : c.block ≤ body.length := by
    rw [hlen, hsum]
    exact Nat.le_mul_of_pos_left _ (Nat.succ_pos _)
  have h256 : c.block ≤ 256 := (UInt8.toNat_lt _).le
  obtain ⟨y, hy, -, hdecrypt⟩ := hcbc pre (input ++ extra ++ List.replicate
    (c.padding (input ++ extra).length) (UInt8.ofNat (c.padding (input ++ extra).length - 1))) hiv
    (by rw [List.length_append, List.length_replicate, ← hlen, hblock])
  obtain rfl : body = y := Option.some.inj (hencrypt.symm.trans hy)
  have hrecord : pre ++ body.take input.length ++ (body.drop input.length ++ mac) =
      pre ++ body ++ mac := by
    rw [List.append_assoc, ← List.append_assoc _ _ mac, List.take_append_drop, List.append_assoc]
  rw [hrecord]
  exact openEtm_of_decrypt hiv hmac hblock hpos (hle.trans h256) hlen hwhole hdecrypt

/-- **Records with encrypt-then-MAC.**  For any block cipher in CBC mode and any MAC, what is
sealed is opened, and `SuffixLen`, `MaxOverhead` and `MaxSealInputLen` tell its length. -/
theorem etm_records (c : EtmContext) (hcbc : c.Inverse) :
    (∀ rand type version seqnum input extra pre out suffix,
      c.SealEtm rand type version seqnum input extra = some (pre, out, suffix) →
      (c.OpenEtm type version seqnum).value? (pre ++ out ++ suffix) = some (input ++ extra) ∧
      pre.length = c.block ∧ out.length = input.length ∧
      c.SuffixLen input.length extra.length = some suffix.length ∧
      pre.length + suffix.length ≤ c.MaxOverhead + extra.length) ∧
    (∀ n s maxOut, c.SuffixLen n 0 = some s → (c.Fits n maxOut ↔ n + s ≤ maxOut.toNat)) ∧
    ∀ maxOut, ((∃ n, c.Fits n maxOut) →
        ∀ n, c.Fits n maxOut ↔ n ≤ (c.MaxSealInputLen maxOut).toNat) ∧
      ((¬ ∃ n, c.Fits n maxOut) → c.MaxSealInputLen maxOut = 0) := by
  refine ⟨fun rand type version seqnum input extra pre out suffix h => ?_,
    fun n s maxOut h => c.fits_iff_suffixLen h maxOut, c.maxSealInputLen_exact⟩
  refine ⟨openEtm_sealEtm hcbc h, ?_⟩
  obtain ⟨body, mac, suffixLen, hiv, hsuffix, hlen, -, hmac, rfl, rfl⟩ := sealEtm_eq h
  have hs := c.suffixLen_eq hsuffix
  have hle := c.padding_le (input.length + extra.length)
  have hmaclen := EtmMAC_length hmac
  rw [List.length_append] at hlen
  have hlength : (body.drop input.length ++ mac).length = suffixLen := by
    rw [List.length_append, List.length_drop, hmaclen]
    omega
  refine ⟨hiv, ?_, ?_, ?_⟩
  · rw [List.length_take]
    omega
  · rw [hsuffix, hlength]
  · rw [hlength, hiv]
    unfold MaxOverhead
    omega

/-- With a permutation and a checksum in place of CBC and HMAC. -/
def sampleEtm : EtmContext where
  keys :=
    { encrypt := fun iv x => some (x.map fun b => b ^^^ iv.headD 0)
      decrypt := fun iv x => some (x.map fun b => b ^^^ iv.headD 0)
      hmac := fun m => some [m.foldl (fun s b => s + b) 0, UInt8.ofNat m.length] }
  variableNonceLen := 8
  etmMacLen := 2
  block_eq := .inl rfl
  mac_ne := by decide

theorem sampleEtm_inverse : sampleEtm.Inverse := by
  intro iv x _ _
  refine ⟨x.map fun b => b ^^^ iv.headD 0, rfl, List.length_map _, ?_⟩
  refine congrArg some ?_
  rw [List.map_map]
  have htwice : ∀ b : UInt8, (b ^^^ iv.headD 0) ^^^ iv.headD 0 = b := fun b => by
    rw [UInt8.xor_assoc, UInt8.xor_self, UInt8.xor_zero]
  exact (List.map_congr_left fun b _ => htwice b).trans (List.map_id _)

theorem etm_records_sample :
    (sampleEtm.OpenEtm 23 0x303 7).value?
      [9, 8, 7, 6, 5, 4, 3, 2, 8, 11, 10, 13, 13, 13, 13, 13, 190, 29] = some [1, 2, 3] :=
  ((etm_records sampleEtm sampleEtm_inverse).1 (some ⟨[9, 8, 7, 6, 5, 4, 3, 2], rfl⟩) 23 0x303 7
    [1, 2] [3] [9, 8, 7, 6, 5, 4, 3, 2] [8, 11] [10, 13, 13, 13, 13, 13, 190, 29] (by decide)).1

end EtmContext

end Ssl
