import FingerprintBridge.Lib.Lists
import FingerprintBridge.Lib.PrefixCode
import Mathlib.Logic.Function.Iterate

/-!
# Galois/Counter Mode over bit strings

NIST SP 800-38D, for an arbitrary block function and initialization vectors of 96 bits:
multiplication of blocks, GHASH, GCTR and authenticated encryption.  `[x]_s`, which is
defined for `x < 2^s` only, is `binary`, so `encrypt` is partial where a length has no such
representation.
-/

namespace Gcm

abbrev Bits := List Bool

/-! ## Definitions -/

def zeros (n : Nat) : Bits := List.replicate n false

/-- `X ⊕ Y`; the longer one is cut to the other's length. -/
def xor (x y : Bits) : Bits := List.zipWith Bool.xor x y

/-- `int(X)` -/
def value : Bits → Nat
  | [] => 0
  | b :: x => b.toNat * 2 ^ x.length + value x

/-- `[x]_s` -/
def binary (s x : Nat) : Option Bits := if x < 2 ^ s then some (toBits s x) else none

/-- `inc_s(X)` -/
def inc (s : Nat) (x : Bits) : Bits :=
  x.take (x.length - s) ++ toBits s ((value (x.drop (x.length - s)) + 1) % 2 ^ s)

/-- `R` -/
def reduction : Bits := toBits 8 0xe1 ++ zeros 120

/-- `V >> 1`, reduced. -/
def next (v : Bits) : Bits :=
  if v.getLastD false then xor (false :: v.dropLast) reduction else false :: v.dropLast

/-- One step of Algorithm 1. -/
def mulStep (zv : Bits × Bits) (b : Bool) : Bits × Bits :=
  (if b then xor zv.1 zv.2 else zv.1, next zv.2)

/-- `X • Y` (Algorithm 1) -/
def mul (x y : Bits) : Bits := (x.foldl mulStep (zeros 128, y)).1

/-- The `i`-th block of a string; the last one may be shorter. -/
def block (x : Bits) (i : Nat) : Bits := (x.drop (128 * i)).take 128

/-- Algorithm 2 -/
def ghash (h x : Bits) : Bits :=
  (List.range (x.length / 128)).foldl (fun y i => mul (xor y (block x i)) h) (zeros 128)

/-- The zeros after a string up to the end of a block. -/
def fill (x : Bits) : Bits := zeros (128 * ((x.length + 127) / 128) - x.length)

section
variable (ciph : Bits → Bits)

/-- Algorithm 3 -/
def gctr (icb x : Bits) : Bits :=
  (List.range ((x.length + 127) / 128)).flatMap fun i =>
    xor (block x i) (ciph ((inc 32)^[i] icb))

/-- `J_0` -/
def preCounter (iv : Bits) : Bits := iv ++ zeros 31 ++ [true]

/-- Algorithm 4, with tags of 128 bits. -/
def encrypt (iv a p : Bits) : Option (Bits × Bits) := do
  guard (iv.length = 96 ∧ p.length ≤ 2 ^ 39 - 256)
  let h := ciph (zeros 128)
  let c := gctr ciph (inc 32 (preCounter iv)) p
  let la ← binary 64 a.length
  let lc ← binary 64 c.length
  let s := ghash h (a ++ fill a ++ c ++ fill c ++ la ++ lc)
  return (c, gctr ciph (preCounter iv) s)

end

/-! ## Strings -/

@[simp] theorem zeros_length (n : Nat) : (zeros n).length = n := List.length_replicate

@[simp] theorem xor_length (x y : Bits) : (xor x y).length = min x.length y.length :=
  List.length_zipWith

theorem xor_zeros (x : Bits) : xor x (zeros x.length) = x := by
  induction x with
  | nil => rfl
  | cons b x ih =>
    show (b ^^ false) :: xor x (zeros x.length) = b :: x
    rw [ih, Bool.xor_false]

theorem xor_append {x y x' y' : Bits} (h : x.length = y.length) :
    xor (x ++ x') (y ++ y') = xor x y ++ xor x' y' := List.zipWith_append h

theorem xor_append_right (x y y' : Bits) :
    xor x (y ++ y') = xor (x.take y.length) y ++ xor (x.drop y.length) y' :=
  zipWith_append_right Bool.xor x y y'

theorem value_toBits (s n : Nat) : value (toBits s n) = n % 2 ^ s := by
  induction s with
  | zero => rw [toBits, value, Nat.pow_zero, Nat.mod_one]
  | succ s ih =>
    rw [toBits, value, ih, toBits_length, Nat.toNat_testBit, Nat.mod_pow_succ, Nat.mul_comm,
      Nat.add_comm]

/-! ## GHASH and GCTR -/

theorem block_append (x y : Bits) (i : Nat) (h : 128 * (i + 1) ≤ x.length) :
    block (x ++ y) i = block x i := by
  unfold block
  rw [List.drop_append_of_le_length (by omega), List.take_append_of_le_length]
  rw [List.length_drop]
  omega

/-- One more block. -/
theorem ghash_snoc (h x b : Bits) (hx : x.length % 128 = 0) (hb : b.length = 128) :
    ghash h (x ++ b) = mul (xor (ghash h x) b) h := by
  have hlen : 128 * (x.length / 128) = x.length := by omega
  have hlast : block (x ++ b) (x.length / 128) = b := by
    unfold block
    rw [hlen, List.drop_left, List.take_of_length_le hb.le]
  have hinit : ∀ y, (List.range (x.length / 128)).foldl
      (fun y i => mul (xor y (block (x ++ b) i)) h) y =
      (List.range (x.length / 128)).foldl (fun y i => mul (xor y (block x i)) h) y := by
    intro y
    refine List.foldl_ext _ _ _ fun y i hi => ?_
    have hi := List.mem_range.1 hi
    rw [block_append x b i (by omega)]
  have hcount : (x ++ b).length / 128 = x.length / 128 + 1 := by
    rw [List.length_append, hb]
    omega
  unfold ghash
  rw [hcount, List.range_succ, List.foldl_append, hinit, List.foldl_cons, List.foldl_nil, hlast]

/-- Block by block, or with the key stream as one string. -/
theorem flatMap_xor (f : Nat → Bits) (hf : ∀ i, (f i).length = 128) (n : Nat) (x : Bits) :
    ((List.range n).flatMap fun i => xor (block x i) (f i)) = xor x ((List.range n).flatMap f) := by
  induction n generalizing f x with
  | zero => simp [xor]
  | succ n ih =>
    have hblock : ∀ i, block x (i + 1) = block (x.drop 128) i := by
      intro i
      unfold block
      rw [List.drop_drop, Nat.mul_succ, Nat.add_comm]
    have hrest := ih (fun i => f (i + 1)) (fun i => hf (i + 1)) (x.drop 128)
    rw [List.range_succ_eq_map, List.flatMap_cons, List.flatMap_cons, List.flatMap_map,
      List.flatMap_map, xor_append_right, hf 0, ← hrest]
    simp only [hblock]
    rfl

theorem gctr_eq {ciph : Bits → Bits} {icb : Bits}
    (h : ∀ i, (ciph ((inc 32)^[i] icb)).length = 128) (x : Bits) :
    gctr ciph icb x =
      xor x ((List.range ((x.length + 127) / 128)).flatMap fun i => ciph ((inc 32)^[i] icb)) :=
  flatMap_xor _ h _ x

/-! ## Where authenticated encryption is defined -/

theorem binary_of_lt {s x : Nat} (h : x < 2 ^ s) : binary s x = some (toBits s x) := if_pos h

theorem encrypt_eq {ciph : Bits → Bits} {iv a p c : Bits}
    (hiv : iv.length = 96 ∧ p.length ≤ 2 ^ 39 - 256)
    (hc : gctr ciph (inc 32 (preCounter iv)) p = c) (ha : a.length < 2 ^ 64)
    (hlen : c.length < 2 ^ 64) : encrypt ciph iv a p = some (c, gctr ciph (preCounter iv)
      (ghash (ciph (zeros 128))
        (a ++ fill a ++ c ++ fill c ++ toBits 64 a.length ++ toBits 64 c.length))) := by
  unfold encrypt
  rw [guard, if_pos hiv]
  simp only [hc, binary_of_lt ha, binary_of_lt hlen]
  rfl

theorem encrypt_ad_lt {ciph : Bits → Bits} {iv a p : Bits} {ct : Bits × Bits}
    (h : encrypt ciph iv a p = some ct) : a.length < 2 ^ 64 := by
  unfold encrypt at h
  simp only [Option.bind_eq_bind, Option.bind_eq_some_iff] at h
  obtain ⟨-, -, la, hla, -⟩ := h
  unfold binary at hla
  split at hla
  · next hlt => exact hlt
  · cases hla

end Gcm
