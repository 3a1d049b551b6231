import FingerprintBridge.Wire.HpackWire

/-!
# HTTP/2 frames

`Frame.read` and `Frame.write` of `src/h2.rs`, on the octets still to come and the
octets produced.  `Frame.parse` is the reader of RFC 9113 §4.1, without the
bridge's own limit on the length; `encode` is its inverse.
-/

namespace H2

/-- `kind`, `flags` and `stream` are the raw octets, the reserved bit included. -/
structure Frame where
  kind : UInt8
  flags : UInt8
  stream : UInt32
  payload : Bytes
deriving DecidableEq, Repr

/-- `u32::from_be_bytes`. -/
def fromBeBytes (a b c d : UInt8) : UInt32 :=
  UInt32.ofNat (a.toNat * 2 ^ 24 + b.toNat * 2 ^ 16 + c.toNat * 2 ^ 8 + d.toNat)

/-- `to_be_bytes`. -/
def toBeBytes (s : UInt32) : Bytes :=
  [UInt8.ofNat (s.toNat >>> 24), UInt8.ofNat (s.toNat >>> 16), UInt8.ofNat (s.toNat >>> 8),
    UInt8.ofNat s.toNat]

namespace Frame

/-! ## The code -/

def MAX_BLOCK : Nat := 1024 * 1024

/-- The next frame and the octets after it; nothing at the end of the stream.  A
stream that ends inside a frame is the error of `read_exact`. -/
def read : Bytes → Res (Option (Frame × Bytes))
  | [] => .ok none
  | h0 :: h1 :: h2 :: kind :: flags :: s0 :: s1 :: s2 :: s3 :: b => do
    let len := (h0.toNat <<< 16) ||| (h1.toNat <<< 8) ||| h2.toNat
    ensure (len ≤ MAX_BLOCK) "frame exceeds configured 1 MiB limit"
    ensure (len ≤ b.length) "early eof"
    return some ({ kind, flags, stream := fromBeBytes s0 s1 s2 s3, payload := b.take len },
      b.drop len)
  | _ => .error (.err "early eof")

/-- The octets written. -/
def write (f : Frame) : Res Bytes := do
  let n := f.payload.length
  ensure (n ≤ 0xffffff) "oversized frame"
  return [UInt8.ofNat (n >>> 16), UInt8.ofNat (n >>> 8), UInt8.ofNat n, f.kind, f.flags] ++
    toBeBytes f.stream ++ f.payload

/-! ## The format -/

def encode (f : Frame) : Bytes :=
  [UInt8.ofNat (f.payload.length / 2 ^ 16), UInt8.ofNat (f.payload.length / 2 ^ 8),
    UInt8.ofNat f.payload.length, f.kind, f.flags] ++ toBeBytes f.stream ++ f.payload

/-- The length of a frame has 24 bits. -/
def WellFormed (f : Frame) : Prop := f.payload.length < 2 ^ 24

def parse : Parser UInt8 Frame := fun b =>
  match b with
  | h0 :: h1 :: h2 :: kind :: flags :: s0 :: s1 :: s2 :: s3 :: b =>
    let len := h0.toNat * 2 ^ 16 + h1.toNat * 2 ^ 8 + h2.toNat
    if len ≤ b.length then
      some ({ kind, flags, stream := fromBeBytes s0 s1 s2 s3, payload := b.take len }, b.drop len)
    else none
  | _ => none

end Frame

/-! ## Octets and numbers -/

theorem fromBeBytes_toBeBytes (s : UInt32) :
    fromBeBytes (UInt8.ofNat (s.toNat >>> 24)) (UInt8.ofNat (s.toNat >>> 16))
      (UInt8.ofNat (s.toNat >>> 8)) (UInt8.ofNat s.toNat) = s := by
  have hs := s.toNat_lt
  apply UInt32.toNat_inj.1
  simp only [fromBeBytes, UInt32.toNat_ofNat', UInt8.toNat_ofNat', Nat.shiftRight_eq_div_pow]
  omega

theorem ofNat_octet (n : Nat) (x : UInt8) (h : n % 256 = x.toNat) : UInt8.ofNat n = x := by
  apply UInt8.toNat_inj.1
  rw [UInt8.toNat_ofNat', ← h]

theorem toBeBytes_fromBeBytes (a b c d : UInt8) : toBeBytes (fromBeBytes a b c d) = [a, b, c, d] := by
  have ha := a.toNat_lt
  have hb := b.toNat_lt
  have hc := c.toNat_lt
  have hd := d.toNat_lt
  have hn : (fromBeBytes a b c d).toNat =
      a.toNat * 2 ^ 24 + b.toNat * 2 ^ 16 + c.toNat * 2 ^ 8 + d.toNat := by
    simp only [fromBeBytes, UInt32.toNat_ofNat']
    omega
  simp only [toBeBytes, hn, Nat.shiftRight_eq_div_pow]
  rw [ofNat_octet _ a (by omega), ofNat_octet _ b (by omega), ofNat_octet _ c (by omega),
    ofNat_octet _ d (by omega)]

/-- The three octets of a length, put together by shifts and by multiplication. -/
theorem length_octets (h0 h1 h2 : UInt8) : (h0.toNat <<< 16) ||| (h1.toNat <<< 8) ||| h2.toNat =
    h0.toNat * 2 ^ 16 + h1.toNat * 2 ^ 8 + h2.toNat := by
  have hb := h1.toNat_lt
  have hc := h2.toNat_lt
  have e1 : (h0.toNat <<< 16) ||| (h1.toNat <<< 8) = h0.toNat <<< 16 + h1.toNat <<< 8 := by
    refine (Nat.shiftLeft_add_eq_or_of_lt ?_ _).symm
    rw [Nat.shiftLeft_eq]
    omega
  have e2 : h0.toNat <<< 16 + h1.toNat <<< 8 = (h0.toNat * 2 ^ 8 + h1.toNat) <<< 8 := by
    simp only [Nat.shiftLeft_eq]
    omega
  rw [e1, e2, ← Nat.shiftLeft_add_eq_or_of_lt (by omega), Nat.shiftLeft_eq]
  omega

namespace Frame

/-! ## Reading and writing are the format -/

theorem write_eq (f : Frame) (h : f.WellFormed) : f.write = .ok f.encode := by
  unfold WellFormed at h
  unfold write ensure
  simp only [Nat.shiftRight_eq_div_pow]
  rw [if_pos (by omega)]
  rfl

theorem parse_encode (f : Frame) (h : f.WellFormed) (d : Bytes) :
    parse (f.encode ++ d) = some (f, d) := by
  obtain ⟨kind, flags, stream, payload⟩ := f
  simp only [WellFormed] at h
  have hlen : (UInt8.ofNat (payload.length / 2 ^ 16)).toNat * 2 ^ 16 +
      (UInt8.ofNat (payload.length / 2 ^ 8)).toNat * 2 ^ 8 + (UInt8.ofNat payload.length).toNat =
      payload.length := by
    simp only [UInt8.toNat_ofNat']
    omega
  simp only [encode, toBeBytes, List.cons_append, List.nil_append, parse, hlen, List.length_append]
  rw [if_pos (by omega), fromBeBytes_toBeBytes, List.take_left, List.drop_left]

/-- What was read are the octets of the frame. -/
theorem encode_parse (b : Bytes) (f : Frame) (rest : Bytes) (h : parse b = some (f, rest)) :
    f.WellFormed ∧ b = f.encode ++ rest := by
  unfold parse at h
  split at h
  · next h0 h1 h2 kind flags s0 s1 s2 s3 b =>
    simp only at h
    have hb0 := h0.toNat_lt
    have hb1 := h1.toNat_lt
    have hb2 := h2.toNat_lt
    split at h
    · next hle =>
      simp only [Option.some.injEq, Prod.mk.injEq] at h
      obtain ⟨rfl, rfl⟩ := h
      have htake : (b.take (h0.toNat * 2 ^ 16 + h1.toNat * 2 ^ 8 + h2.toNat)).length =
          h0.toNat * 2 ^ 16 + h1.toNat * 2 ^ 8 + h2.toNat := by
        rw [List.length_take]
        omega
      refine ⟨by simp only [WellFormed, htake]; omega, ?_⟩
      simp only [encode, htake, toBeBytes_fromBeBytes]
      rw [ofNat_octet _ h0 (by omega), ofNat_octet _ h1 (by omega), ofNat_octet _ h2 (by omega)]
      simp
    · cases h
  · cases h

/-- The bridge reads frames of the format, up to its limit. -/
theorem read_ok (b : Bytes) (f : Frame) (rest : Bytes) (h : read b = .ok (some (f, rest))) :
    parse b = some (f, rest) ∧ f.payload.length ≤ MAX_BLOCK := by
  unfold read at h
  split at h
  · cases h
  · next h0 h1 h2 kind flags s0 s1 s2 s3 b =>
    simp only [length_octets] at h
    obtain ⟨_, hmax, h⟩ := (Res.bind_ok_iff _ _ _).1 h
    obtain ⟨_, hlen, h⟩ := (Res.bind_ok_iff _ _ _).1 h
    rw [Res.ensure_ok_iff] at hmax hlen
    cases h
    refine ⟨?_, ?_⟩
    · unfold parse
      simp only
      rw [if_pos hlen]
    · simp only [List.length_take]
      omega
  · cases h

theorem read_none (b : Bytes) (h : read b = .ok none) : b = [] := by
  unfold read at h
  split at h
  · rfl
  · obtain ⟨_, -, h⟩ := (Res.bind_ok_iff _ _ _).1 h
    obtain ⟨_, -, h⟩ := (Res.bind_ok_iff _ _ _).1 h
    cases h
  · cases h

theorem encode_ne_nil (f : Frame) : f.encode ≠ [] := by
  unfold encode
  exact fun h => nomatch h

theorem encode_length (f : Frame) : f.encode.length = 9 + f.payload.length := by
  simp [encode, toBeBytes]
  omega

theorem delimited_parse : Parser.Delimited parse := by
  intro b f rest h
  obtain ⟨hw, rfl⟩ := encode_parse b f rest h
  exact ⟨f.encode, rfl, fun d => parse_encode f hw d⟩

theorem productive_parse : Parser.Productive parse := by
  intro b f rest h
  obtain ⟨-, rfl⟩ := encode_parse b f rest h
  rw [List.length_append, encode_length]
  omega

/-- A sequence of frames is read back from its octets. -/
theorem all_parse_encode (fs : List Frame) (h : ∀ f ∈ fs, f.WellFormed) :
    Parser.all parse (fs.flatMap encode) = some fs :=
  Parser.all_flatMap parse delimited_parse productive_parse encode fs fun f hf => by
    have := parse_encode f (h f hf) []
    rwa [List.append_nil] at this

end Frame

end H2
