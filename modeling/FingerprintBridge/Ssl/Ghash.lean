import FingerprintBridge.Lib.Gcm
import FingerprintBridge.Lib.Octets

/-!
# `scripts/patches/bridge-aria.patch`: GHASH

The multiplication is that of the standard (`ghashMultiply_bits`), and the state after any
sequence of updates depends on the octets alone, not on how they were cut (`ghashUpdate_absorbed`).
-/

namespace AriaGcm

/-! ## The code -/

/-- `uint8_t[16]` -/
structure Block where
  octets : Bytes
  length_eq : octets.length = 16
deriving DecidableEq, Repr

namespace Block

def zero : Block := ⟨List.replicate 16 0, rfl⟩

/-- `memcpy(b + off, src, ...)` -/
def write (b : Block) (off : Nat) (src : Bytes) (h : off + src.length ≤ 16) : Block where
  octets := b.octets.take off ++ src ++ b.octets.drop (off + src.length)
  length_eq := by
    have hb := b.length_eq
    rw [List.length_append, List.length_append, List.length_take, List.length_drop]
    omega

/-- `a[i] ^= b[i] & mask`, for every `i`. -/
def xorMasked (a b : Block) (mask : UInt8) : Block where
  octets := List.zipWith (fun x y => x ^^^ (y &&& mask)) a.octets b.octets
  length_eq := by rw [List.length_zipWith, a.length_eq, b.length_eq, Nat.min_self]

/-- `a[i] ^= b[i]`, for every `i`. -/
def xor (a b : Block) : Block where
  octets := List.zipWith (· ^^^ ·) a.octets b.octets
  length_eq := by rw [List.length_zipWith, a.length_eq, b.length_eq, Nat.min_self]

end Block

/-- The loop of `shift_right_one`; the carry it ends with comes second. -/
def shiftOctets (carry : UInt8) : Bytes → Bytes × UInt8
  | [] => ([], carry)
  | b :: rest =>
    let next := b &&& 1
    (((b >>> 1) ||| (carry <<< 7)) :: (shiftOctets next rest).1, (shiftOctets next rest).2)

theorem shiftOctets_length (carry : UInt8) (b : Bytes) :
    (shiftOctets carry b).1.length = b.length := by
  induction b generalizing carry with
  | nil => rfl
  | cons x b ih => exact congrArg (· + 1) (ih (x &&& 1))

def shiftRightOne (b : Block) : Block where
  octets := (shiftOctets 0 b.octets).1.modifyHead
    (· ^^^ (0xe1 &&& (0 - (shiftOctets 0 b.octets).2)))
  length_eq := by rw [List.length_modifyHead, shiftOctets_length, b.length_eq]

/-- `(x[bit / 8] >> (7 - bit % 8)) & 1` -/
def bitAt (x : Block) (bit : Nat) : UInt8 :=
  (x.octets.getD (bit / 8) 0 >>> UInt8.ofNat (7 - bit % 8)) &&& 1

/-- The body of the loop of `ghash_multiply`, on `z` and `v`. -/
def multiplyStep (x : Block) (zv : Block × Block) (bit : Nat) : Block × Block :=
  let mask := 0 - bitAt x bit
  (zv.1.xorMasked zv.2 mask, shiftRightOne zv.2)

def ghashMultiply (x h : Block) : Block :=
  ((List.range 128).foldl (multiplyStep x) (Block.zero, h)).1

structure GhashState where
  y : Block := .zero
  partialBlock : Block := .zero
  used : Nat := 0
  used_lt : used < 16 := by decide

def GhashState.zero : GhashState := {}

def ghashBlock (h y block : Block) : Block := ghashMultiply (y.xor block) h

/-- What `ghash_update` does with the octets it takes at once. -/
def ghashTake (h : Block) (state : GhashState) (src : Bytes) (hfit : state.used + src.length ≤ 16) :
    GhashState :=
  let written := state.partialBlock.write state.used src hfit
  if hfull : state.used + src.length = 16 then { y := ghashBlock h state.y written }
  else
    { state with
      partialBlock := written
      used := state.used + src.length
      used_lt := Nat.lt_of_le_of_ne hfit hfull }

/-- `len < 16 - state->used ? len : 16 - state->used` -/
def room (used len : Nat) : Nat := if len < 16 - used then len else 16 - used

theorem room_fits {used : Nat} (h : used ≤ 16) (src : Bytes) :
    used + (src.take (room used src.length)).length ≤ 16 := by
  rw [List.length_take]
  unfold room
  split <;> omega

theorem room_pos {used len : Nat} (h : used < 16) (hlen : 0 < len) : 0 < room used len := by
  unfold room
  split <;> omega

def ghashUpdate (h : Block) (state : GhashState) (src : Bytes) : GhashState :=
  if _hlen : 0 < src.length then
    ghashUpdate h (ghashTake h state (src.take (room state.used src.length))
      (room_fits state.used_lt.le src)) (src.drop (room state.used src.length))
  else state
termination_by src.length
decreasing_by
  have hpos := room_pos state.used_lt _hlen
  rw [List.length_drop]
  omega

def ghashPad (h : Block) (state : GhashState) : GhashState :=
  if state.used ≠ 0 then { y := ghashBlock h state.y state.partialBlock } else state

/-! ## Bits of octets -/

theorem toBits_xor (w m n : Nat) : toBits w (m ^^^ n) = Gcm.xor (toBits w m) (toBits w n) := by
  induction w with
  | zero => rfl
  | succ w ih =>
    rw [toBits, ih, Nat.testBit_xor]
    rfl

theorem octetBits_cons (b : UInt8) (x : Bytes) : octetBits (b :: x) = toBits 8 b.toNat ++ octetBits x :=
  rfl

theorem octetBits_length (b : Bytes) : (octetBits b).length = 8 * b.length := by
  induction b with
  | nil => rfl
  | cons x b ih =>
    rw [octetBits_cons, List.length_append, ih, toBits_length, List.length_cons]
    omega

theorem octetBits_xor (a b : Bytes) :
    octetBits (List.zipWith (· ^^^ ·) a b) = Gcm.xor (octetBits a) (octetBits b) := by
  induction a generalizing b with
  | nil => rfl
  | cons x a ih =>
    cases b with
    | nil => exact List.zipWith_nil_right.symm
    | cons y b =>
      rw [List.zipWith_cons_cons, octetBits_cons, octetBits_cons, octetBits_cons, ih,
        UInt8.toNat_xor, toBits_xor, Gcm.xor_append (by simp)]

theorem octetBits_zeros (n : Nat) : octetBits (List.replicate n 0) = Gcm.zeros (8 * n) := by
  induction n with
  | zero => rfl
  | succ n ih =>
    have hzero : toBits 8 (0 : UInt8).toNat = Gcm.zeros 8 := by decide
    rw [List.replicate_succ, octetBits_cons, ih, hzero, Nat.mul_succ, Nat.add_comm]
    exact List.replicate_append_replicate

theorem octetBits_beOctets (k n : Nat) : octetBits (beOctets k n) = toBits (8 * k) n := by
  induction k with
  | zero => rfl
  | succ k ih =>
    have h256 : 256 ^ k = 2 ^ (8 * k) := by rw [Nat.pow_mul]
    have hmod : toBits 8 (UInt8.ofNat (n / 256 ^ k)).toNat = toBits 8 (n / 256 ^ k) := by
      rw [UInt8.toNat_ofNat']
      exact toBits_mod 8 8 _ (Nat.le_refl 8)
    rw [beOctets, octetBits_cons, ih, hmod, Nat.mul_succ, Nat.add_comm, toBits_add,
      Nat.shiftRight_eq_div_pow, h256]

theorem octetBits_inj {a b : Bytes} (h : octetBits a = octetBits b) : a = b := by
  have hlen : a.length = b.length := by
    have := congrArg List.length h
    rw [octetBits_length, octetBits_length] at this
    omega
  rw [← beOctets_beValue a, ← beOctets_beValue b, octetBits_beOctets, octetBits_beOctets, hlen] at h
  refine beValue_inj hlen (toBits_inj _ _ _ ?_ ?_ h)
  · have ha := beValue_lt a
    rwa [hlen, show (256 : Nat) = 2 ^ 8 from rfl, ← Nat.pow_mul] at ha
  · have hb := beValue_lt b
    rwa [show (256 : Nat) = 2 ^ 8 from rfl, ← Nat.pow_mul] at hb

theorem octetBits_take (b : Bytes) (n : Nat) : octetBits (b.take n) = (octetBits b).take (8 * n) := by
  induction b generalizing n with
  | nil => rw [List.take_nil]; exact List.take_nil.symm
  | cons x b ih =>
    cases n with
    | zero => rfl
    | succ n =>
      have hx : (toBits 8 x.toNat).take (8 + 8 * n) = toBits 8 x.toNat :=
        List.take_of_length_le (by
          rw [toBits_length]
          exact Nat.le_add_right _ _)
      rw [List.take_succ_cons, octetBits_cons, octetBits_cons, ih, Nat.mul_succ, Nat.add_comm,
        List.take_append, hx, toBits_length, Nat.add_sub_cancel_left]

theorem octetBits_drop (b : Bytes) (n : Nat) : octetBits (b.drop n) = (octetBits b).drop (8 * n) := by
  by_cases h : n ≤ b.length
  · have hsplit : octetBits b = octetBits (b.take n) ++ octetBits (b.drop n) := by
      rw [← octetBits_append, List.take_append_drop]
    have hlen : (octetBits (b.take n)).length = 8 * n := by
      rw [octetBits_length, List.length_take, Nat.min_eq_left h]
    rw [hsplit, List.drop_left' hlen]
  · rw [List.drop_eq_nil_of_le (by omega), List.drop_eq_nil_of_le]
    · rfl
    · rw [octetBits_length]
      omega

theorem value_octetBits (b : Bytes) : Gcm.value (octetBits b) = beValue b := by
  have hlt := beValue_lt b
  rw [← beOctets_beValue b, octetBits_beOctets, Gcm.value_toBits, beOctets_beValue,
    Nat.mod_eq_of_lt (by rwa [Nat.pow_mul])]

def Block.bits (b : Block) : Gcm.Bits := octetBits b.octets

@[simp] theorem Block.bits_length (b : Block) : b.bits.length = 128 := by
  rw [Block.bits, octetBits_length, b.length_eq]

theorem Block.bits_inj {a b : Block} (h : a.bits = b.bits) : a = b := by
  cases a
  cases b
  rw [Block.mk.injEq]
  exact octetBits_inj h

theorem Block.xor_bits (a b : Block) : (a.xor b).bits = Gcm.xor a.bits b.bits := octetBits_xor _ _

theorem Block.zero_bits : Block.zero.bits = Gcm.zeros 128 := octetBits_zeros 16

/-! ## Multiplication -/

theorem shift_octet : ∀ n < 256, ∀ c < 2,
    toBits 8 (((UInt8.ofNat n >>> 1) ||| (UInt8.ofNat c <<< 7))).toNat ++
      [decide (UInt8.ofNat n &&& 1 = 1)] = decide (c = 1) :: toBits 8 n := by
  decide +kernel

theorem and_one : ∀ n < 256, ∃ c < 2, UInt8.ofNat n &&& 1 = UInt8.ofNat c := by
  decide +kernel

/-- Shifted, the carry comes in at the front and the last bit goes out. -/
theorem shiftOctets_bits (b : Bytes) (c : Nat) (hc : c < 2) :
    (∃ d < 2, (shiftOctets (UInt8.ofNat c) b).2 = UInt8.ofNat d) ∧
      octetBits (shiftOctets (UInt8.ofNat c) b).1 ++
        [decide ((shiftOctets (UInt8.ofNat c) b).2 = 1)] = decide (c = 1) :: octetBits b := by
  induction b generalizing c with
  | nil =>
    refine ⟨⟨c, hc, rfl⟩, ?_⟩
    have hone : ∀ c < 2, decide (UInt8.ofNat c = 1) = decide (c = 1) := by decide
    exact congrArg (fun x => [x]) (hone c hc)
  | cons x b ih =>
    obtain ⟨d, hd, hnext⟩ := and_one x.toNat x.toNat_lt
    have hx : UInt8.ofNat x.toNat = x := UInt8.ofNat_toNat
    have hone : ∀ d < 2, decide (UInt8.ofNat d = 1) = decide (d = 1) := by decide
    rw [hx] at hnext
    obtain ⟨hout, hbits⟩ := ih d hd
    have hoctet := shift_octet x.toNat x.toNat_lt c hc
    rw [hx, hnext, hone d hd] at hoctet
    simp only [shiftOctets, hnext]
    refine ⟨hout, ?_⟩
    rw [octetBits_cons, List.append_assoc, hbits, octetBits_cons, ← List.cons_append, ← hoctet,
      List.append_assoc]
    rfl

theorem octetBits_modifyHead (b : Bytes) (mask : UInt8) (h : b.length = 16) :
    octetBits (b.modifyHead (· ^^^ mask)) =
      Gcm.xor (octetBits b) (toBits 8 mask.toNat ++ Gcm.zeros 120) := by
  cases b with
  | nil => cases h
  | cons x b =>
    have hrest : (octetBits b).length = 120 := by
      rw [octetBits_length, Nat.succ.inj h]
    rw [List.modifyHead_cons, octetBits_cons, octetBits_cons, UInt8.toNat_xor, toBits_xor,
      Gcm.xor_append (by simp), ← hrest, Gcm.xor_zeros]

theorem shiftRightOne_bits (b : Block) : (shiftRightOne b).bits = Gcm.next b.bits := by
  obtain ⟨⟨d, hd, hcarry⟩, hbits⟩ : (∃ d < 2, (shiftOctets 0 b.octets).2 = UInt8.ofNat d) ∧
      octetBits (shiftOctets 0 b.octets).1 ++ [decide ((shiftOctets 0 b.octets).2 = 1)] =
        false :: octetBits b.octets := shiftOctets_bits b.octets 0 (by decide)
  have hlen : (shiftOctets 0 b.octets).1.length = 16 := (shiftOctets_length 0 _).trans b.length_eq
  have hne : octetBits b.octets ≠ [] :=
    List.ne_nil_of_length_pos (by rw [octetBits_length, b.length_eq]; decide)
  -- the string without its last bit, and that bit
  have hshifted : octetBits (shiftOctets 0 b.octets).1 = false :: b.bits.dropLast := by
    have h := congrArg List.dropLast hbits
    rwa [List.dropLast_concat, List.dropLast_cons_of_ne_nil hne] at h
  have hlast : b.bits.getLastD false = decide ((shiftOctets 0 b.octets).2 = 1) := by
    have h := congrArg (List.getLastD · false) hbits
    simp only [List.getLastD_concat, List.getLastD_cons] at h
    exact h.symm
  show octetBits ((shiftOctets 0 b.octets).1.modifyHead _) = _
  rw [octetBits_modifyHead _ _ hlen, hshifted, hcarry]
  unfold Gcm.next
  rw [hlast, hcarry]
  have hlen' : (false :: b.bits.dropLast).length = 128 := by
    rw [List.length_cons, List.length_dropLast, Block.bits_length]
  cases d with
  | zero =>
    have hmask : toBits 8 (0xe1 &&& (0 - UInt8.ofNat 0)).toNat ++ Gcm.zeros 120 = Gcm.zeros 128 := by
      decide
    rw [hmask, ← hlen', Gcm.xor_zeros]
    rfl
  | succ d =>
    obtain rfl : d = 0 := by omega
    rfl

theorem octet_bitAt : ∀ n < 256, toBits 8 n = (List.range 8).map fun i =>
    decide ((UInt8.ofNat n >>> UInt8.ofNat (7 - i % 8)) &&& 1 = 1) := by
  decide +kernel

theorem octetBits_eq_map (x : Bytes) : octetBits x = (List.range (8 * x.length)).map fun i =>
    decide ((x.getD (i / 8) 0 >>> UInt8.ofNat (7 - i % 8)) &&& 1 = 1) := by
  induction x with
  | nil => rfl
  | cons b x ih =>
    have hb := octet_bitAt b.toNat b.toNat_lt
    rw [UInt8.ofNat_toNat] at hb
    rw [octetBits_cons, ih, hb, List.length_cons, Nat.mul_succ, Nat.add_comm (8 * x.length),
      List.range_add, List.map_append, List.map_map]
    refine congrArg₂ (· ++ ·) (List.map_congr_left fun i hi => ?_) (List.map_congr_left fun i hi => ?_)
    · have hi := List.mem_range.1 hi
      rw [Nat.div_eq_of_lt hi]
      rfl
    · rw [Function.comp_apply, Nat.add_div_left _ (by decide), Nat.add_mod_left]
      rfl

theorem bits_eq_map (x : Block) : x.bits = (List.range 128).map fun i => decide (bitAt x i = 1) := by
  rw [Block.bits, octetBits_eq_map, x.length_eq]
  rfl

theorem xorMasked_one (a b : Block) : a.xorMasked b (0 - 1) = a.xor b := by
  have hall : ∀ y : UInt8, y &&& (0 - 1) = y := fun y => UInt8.and_neg_one
  simp only [Block.xorMasked, Block.xor, hall]

theorem xorMasked_zero (a b : Block) : a.xorMasked b (0 - 0) = a := by
  have hlen : (a.xorMasked b (0 - 0)).octets.length = a.octets.length := by
    rw [Block.length_eq, Block.length_eq]
  have hoctets : (a.xorMasked b (0 - 0)).octets = a.octets := by
    refine List.ext_getElem hlen fun i hi hi' => ?_
    simp only [Block.xorMasked, List.getElem_zipWith, UInt8.sub_self, UInt8.and_zero, UInt8.xor_zero]
  cases a
  exact Block.mk.injEq .. ▸ hoctets

theorem multiplyStep_bits (x : Block) (zv : Block × Block) (i : Nat) :
    Gcm.mulStep (zv.1.bits, zv.2.bits) (decide (bitAt x i = 1)) =
      ((multiplyStep x zv i).1.bits, (multiplyStep x zv i).2.bits) := by
  -- the mask is all ones or all zeros
  obtain ⟨c, hc, hbit⟩ : ∃ c < 2, bitAt x i = UInt8.ofNat c := by
    have h1 := and_one (x.octets.getD (i / 8) 0 >>> UInt8.ofNat (7 - i % 8)).toNat (UInt8.toNat_lt _)
    rwa [UInt8.ofNat_toNat] at h1
  unfold Gcm.mulStep multiplyStep
  rw [shiftRightOne_bits, hbit]
  cases c with
  | zero =>
    have hmask := xorMasked_zero zv.1 zv.2
    show _ = ((zv.1.xorMasked zv.2 (0 - 0)).bits, _)
    rw [hmask]
    rfl
  | succ c =>
    obtain rfl : c = 0 := by omega
    have hmask := xorMasked_one zv.1 zv.2
    show _ = ((zv.1.xorMasked zv.2 (0 - 1)).bits, _)
    rw [hmask, Block.xor_bits]
    rfl

theorem multiply_loop (x : Block) (is : List Nat) (zv : Block × Block) :
    is.foldl (fun zv i => Gcm.mulStep zv (decide (bitAt x i = 1))) (zv.1.bits, zv.2.bits) =
      ((is.foldl (multiplyStep x) zv).1.bits, (is.foldl (multiplyStep x) zv).2.bits) := by
  induction is generalizing zv with
  | nil => rfl
  | cons i is ih => rw [List.foldl_cons, List.foldl_cons, multiplyStep_bits, ih]

/-- The multiplication is that of the standard. -/
theorem ghashMultiply_bits (x h : Block) : (ghashMultiply x h).bits = Gcm.mul x.bits h.bits := by
  have hloop := multiply_loop x (List.range 128) (Block.zero, h)
  unfold ghashMultiply Gcm.mul
  rw [bits_eq_map x, List.foldl_map, ← Block.zero_bits, hloop]

/-! ## What a state has absorbed -/

/-- The whole blocks of `x` are hashed, what is left of it is kept. -/
def Absorbed (h : Block) (state : GhashState) (x : Bytes) : Prop :=
  ∃ whole rest, x = whole ++ rest ∧ whole.length % 16 = 0 ∧ rest.length = state.used ∧
    state.partialBlock.octets = rest ++ List.replicate (16 - state.used) 0 ∧
    state.y.bits = Gcm.ghash h.bits (octetBits whole)

theorem absorbed_nil (h : Block) : Absorbed h .zero [] :=
  ⟨[], [], rfl, rfl, rfl, rfl, Block.zero_bits⟩

theorem ghashBlock_bits {h y block : Block} {whole : Bytes} (hwhole : whole.length % 16 = 0)
    (hy : y.bits = Gcm.ghash h.bits (octetBits whole)) :
    (ghashBlock h y block).bits = Gcm.ghash h.bits (octetBits (whole ++ block.octets)) := by
  have hlen : (octetBits whole).length % 128 = 0 := by
    rw [octetBits_length]
    omega
  rw [ghashBlock, ghashMultiply_bits, Block.xor_bits, hy, octetBits_append]
  exact (Gcm.ghash_snoc _ _ _ hlen (Block.bits_length block)).symm

/-- The hash of a block resets what is kept. -/
theorem absorbed_block {h y block : Block} {whole : Bytes} (hwhole : whole.length % 16 = 0)
    (hy : y.bits = Gcm.ghash h.bits (octetBits whole)) :
    Absorbed h { y := ghashBlock h y block } (whole ++ block.octets) := by
  refine ⟨whole ++ block.octets, [], (List.append_nil _).symm, ?_, rfl, rfl,
    ghashBlock_bits hwhole hy⟩
  rw [List.length_append, block.length_eq]
  omega

theorem ghashTake_absorbed {h : Block} {state : GhashState} {x : Bytes} (hx : Absorbed h state x)
    (src : Bytes) (hfit : state.used + src.length ≤ 16) :
    Absorbed h (ghashTake h state src hfit) (x ++ src) := by
  obtain ⟨whole, rest, rfl, hwhole, hrest, hkept, hhash⟩ := hx
  have hwritten : (state.partialBlock.write state.used src hfit).octets =
      rest ++ src ++ List.replicate (16 - (state.used + src.length)) 0 := by
    show state.partialBlock.octets.take _ ++ src ++ state.partialBlock.octets.drop _ = _
    rw [hkept, ← hrest, List.take_left, List.drop_append, List.drop_eq_nil_of_le
      (Nat.le_add_right ..), List.nil_append, List.drop_replicate, Nat.add_sub_cancel_left,
      Nat.sub_sub]
  rw [List.append_assoc]
  unfold ghashTake
  split
  · next hfull =>
    rw [hfull, Nat.sub_self, List.replicate_zero, List.append_nil] at hwritten
    rw [← hwritten]
    exact absorbed_block hwhole hhash
  · refine ⟨whole, rest ++ src, rfl, hwhole, ?_, hwritten, hhash⟩
    rw [List.length_append, hrest]

/-- However the octets are cut. -/
theorem ghashUpdate_absorbed {h : Block} {state : GhashState} {x : Bytes}
    (hx : Absorbed h state x) (src : Bytes) : Absorbed h (ghashUpdate h state src) (x ++ src) := by
  induction state, src using ghashUpdate.induct h generalizing x with
  | case1 state src hlen ih =>
    have hrest := ih (ghashTake_absorbed hx _ _)
    rw [List.append_assoc, List.take_append_drop] at hrest
    rw [ghashUpdate, dif_pos hlen]
    exact hrest
  | case2 state src hlen =>
    rw [ghashUpdate, dif_neg hlen, List.length_eq_zero_iff.1 (Nat.eq_zero_of_not_pos hlen),
      List.append_nil]
    exact hx

/-- Zeros up to the end of a block. -/
def pad16 (x : Bytes) : Bytes := x ++ List.replicate (16 * ((x.length + 15) / 16) - x.length) 0

theorem octetBits_pad16 (x : Bytes) : octetBits (pad16 x) = octetBits x ++ Gcm.fill (octetBits x) := by
  rw [pad16, octetBits_append, octetBits_zeros, Gcm.fill, octetBits_length]
  congr 2
  omega

theorem ghashPad_absorbed {h : Block} {state : GhashState} {x : Bytes} (hx : Absorbed h state x) :
    Absorbed h (ghashPad h state) (pad16 x) ∧ (ghashPad h state).y.bits =
      Gcm.ghash h.bits (octetBits (pad16 x)) := by
  obtain ⟨whole, rest, rfl, hwhole, hrest, hkept, hhash⟩ := hx
  have hused := state.used_lt
  unfold ghashPad pad16
  rw [List.length_append]
  split
  · next hne =>
    have hcount : 16 * ((whole.length + rest.length + 15) / 16) - (whole.length + rest.length) =
        16 - state.used := by omega
    rw [hcount, List.append_assoc, ← hkept]
    exact ⟨absorbed_block hwhole hhash, ghashBlock_bits hwhole hhash⟩
  · next hzero =>
    have hnil : rest = [] := List.length_eq_zero_iff.1 (hrest.trans (not_not.1 hzero))
    have hcount : 16 * ((whole.length + rest.length + 15) / 16) - (whole.length + rest.length) = 0 := by
      rw [hnil]
      simp only [List.length_nil]
      omega
    rw [hcount, List.replicate_zero, List.append_nil]
    refine ⟨⟨whole, rest, rfl, hwhole, hrest, hkept, hhash⟩, ?_⟩
    rw [hnil, List.append_nil, hhash]

end AriaGcm
