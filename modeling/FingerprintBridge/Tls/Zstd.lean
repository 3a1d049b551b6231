import FingerprintBridge.Lib.Action

/-!
# `src/tls.rs`: Zstandard certificates

`Zstd::decompress` copies frame after frame to the writer.  All frames share one budget, a
certificate's 24-bit length, and one octet more is asked for to see what exceeds it.  `ruzstd`'s
decoder is a parameter: with every frame header it reads it must consume something (`Progress`),
and then the loop ends (`decompress_bounded`).
-/

namespace Tls

namespace Zstd

/-! ## The code -/

/-- `(1 << 24) - 1` -/
def MAX_CERTIFICATE : Nat := 2 ^ 24 - 1

/-- `ruzstd::decoding::StreamingDecoder` on a source that it reads from the front.  `new` and
`read` also give how many octets of the source they took; `read` has room for `n` octets, and
gives what comes in the end of a read that was interrupted. -/
structure ZstdCrate where
  Decoder : Type
  new : (source : Bytes) → (maxWindow : Nat) → Except String Decoder × Nat
  read : Decoder → (source : Bytes) → (n : Nat) →
    Except String { b : Bytes // b.length ≤ n } × Decoder × Nat
  getChecksumFromData : Decoder → Option UInt32
  getCalculatedChecksum : Decoder → Option UInt32

/-- The writer, and `io::copy`'s buffer for it: it has room for one octet more than `room`
after what was written. -/
structure Writer where
  room : (written : Bytes) → Nat
  accept : (written chunk : Bytes) → Except String Unit

/-- `output` is what the writer was handed. -/
structure Streams where
  remaining : Bytes
  output : Bytes

section
variable (Z : ZstdCrate) (W : Writer)

/-- `StreamingDecoder::new_with_max_window_size` -/
def newDecoder : Act Streams Z.Decoder := fun s =>
  match Z.new s.remaining MAX_CERTIFICATE with
  | (.ok d, k) => .ok d { s with remaining := s.remaining.drop k }
  | (.error e, k) => .error (.err e) { s with remaining := s.remaining.drop k }

def readSome (d : Z.Decoder) (n : Nat) :
    Act Streams ({ b : Bytes // b.length ≤ n } × Z.Decoder) := fun s =>
  match Z.read d s.remaining n with
  | (.ok b, d, k) => .ok (b, d) { s with remaining := s.remaining.drop k }
  | (.error e, _, k) => .error (.err e) { s with remaining := s.remaining.drop k }

def writeAll (b : Bytes) : Act Streams Unit := fun s =>
  match W.accept s.output b with
  | .ok () => .ok () { s with output := s.output ++ b }
  | .error e => .error (.err e) { s with output := s.output ++ b }

/-- How much is read at once. -/
def bufferSize : Act Streams Nat := fun s => .ok (W.room s.output + 1) s

/-- `io::copy` from `decoder.by_ref().take(limit)`, and the decoder after it. -/
def copyLoop (limit : Nat) (d : Z.Decoder) (copied : Nat) : Act Streams (Nat × Z.Decoder) :=
  if limit = 0 then pure (copied, d)
  else do
    let size ← bufferSize W
    let (b, d) ← readSome Z d (min size limit)
    if b.1 = [] then pure (copied, d)
    else do
      writeAll W b.1
      copyLoop (limit - b.1.length) d (copied + b.1.length)
termination_by limit
decreasing_by
  have := List.length_pos_iff.2 ‹¬ b.1 = []›
  omega

def checkChecksum (d : Z.Decoder) : Res Unit :=
  match Z.getChecksumFromData d with
  | some expected =>
    ensure (Z.getCalculatedChecksum d = some expected) "Zstandard checksum mismatch"
  | none => .ok ()

/-- One pass of the loop; `total` before and after it. -/
def frame (total : Nat) : Act Streams Nat := do
  let d ← newDecoder Z
  let budget ← checkedSub MAX_CERTIFICATE total
  let (n, d) ← copyLoop Z W (budget + 1) d 0
  let total := total + n
  ensure (total ≤ MAX_CERTIFICATE) "oversized Zstandard certificate"
  checkChecksum Z d
  return total

/-- `while !remaining.is_empty()`; `none` when the fuel is used up. -/
def decompressLoop : (fuel : Nat) → (total : Nat) → Act Streams (Option Unit)
  | 0, _ => pure none
  | fuel + 1, total => do
    let s ← get
    if s.remaining = [] then pure (some ())
    else do
      let total ← frame Z W total
      decompressLoop fuel total

/-- The result and what the writer was handed, unless the fuel is used up. -/
def decompress (fuel : Nat) (input : Bytes) : Option (Res Unit × Bytes) :=
  if input = [] then some (.error (.err "empty Zstandard certificate"), [])
  else match decompressLoop Z W fuel 0 { remaining := input, output := [] } with
    | .ok (some ()) s => some (.ok (), s.output)
    | .ok none _ => none
    | .error e s => some (.error e, s.output)

end

/-! ## What is accepted -/

section
variable (Z : ZstdCrate)

/-- A header that is read takes octets. -/
def Progress : Prop := ∀ source d k, Z.new source MAX_CERTIFICATE = (.ok d, k) → 0 < k

/-- The decoder gives `out` and then the end of the frame; `rest` is left of the source. -/
inductive Reads : Z.Decoder → (source out : Bytes) → Z.Decoder → (rest : Bytes) → Prop where
  | stop (d d' : Z.Decoder) (source : Bytes) (n k : Nat) (b : { b : Bytes // b.length ≤ n }) :
      0 < n → Z.read d source n = (.ok b, d', k) → b.1 = [] → Reads d source [] d' (source.drop k)
  | more (d d₁ d' : Z.Decoder) (source out rest : Bytes) (n k : Nat)
      (b : { b : Bytes // b.length ≤ n }) :
      Z.read d source n = (.ok b, d₁, k) → b.1 ≠ [] → Reads d₁ (source.drop k) out d' rest →
      Reads d source (b.1 ++ out) d' rest

/-- `source` begins with a frame of `out`: its header is accepted, it is read to its end, and a
checksum that it carries is that of `out`. -/
def IsFrame (source out rest : Bytes) : Prop :=
  ∃ d k d', Z.new source MAX_CERTIFICATE = (.ok d, k) ∧ Reads Z d (source.drop k) out d' rest ∧
    ∀ expected, Z.getChecksumFromData d' = some expected →
      Z.getCalculatedChecksum d' = some expected

/-- The source is frames, one after the other, and nothing else. -/
inductive Frames : (source out : Bytes) → Prop where
  | nil : Frames [] []
  | cons (source out rest more : Bytes) : source ≠ [] → IsFrame Z source out rest →
      Frames rest more → Frames source (out ++ more)

end

/-! ## One frame -/

section
variable {Z : ZstdCrate} {W : Writer}

theorem newDecoder_ok {s s' : Streams} {d : Z.Decoder} (h : newDecoder Z s = .ok d s') :
    ∃ k, Z.new s.remaining MAX_CERTIFICATE = (.ok d, k) ∧ s'.output = s.output ∧
      s'.remaining = s.remaining.drop k := by
  unfold newDecoder at h
  split at h
  · next d₀ k heq =>
    cases h
    exact ⟨k, heq, rfl, rfl⟩
  · cases h

theorem newDecoder_error {s s' : Streams} {e : Fault} (h : newDecoder Z s = .error e s') :
    e ≠ .panic ∧ s'.output = s.output := by
  unfold newDecoder at h
  split at h
  · cases h
  · cases h
    exact ⟨fun h => (nomatch h), rfl⟩

theorem readSome_ok {s s' : Streams} {d d' : Z.Decoder} {n : Nat}
    {b : { b : Bytes // b.length ≤ n }} (h : readSome Z d n s = .ok (b, d') s') :
    ∃ k, Z.read d s.remaining n = (.ok b, d', k) ∧ s'.output = s.output ∧
      s'.remaining = s.remaining.drop k := by
  unfold readSome at h
  split at h
  · next b₀ d₀ k heq =>
    cases h
    exact ⟨k, heq, rfl, rfl⟩
  · cases h

theorem readSome_error {s s' : Streams} {d : Z.Decoder} {n : Nat} {e : Fault}
    (h : readSome Z d n s = .error e s') : e ≠ .panic ∧ s'.output = s.output := by
  unfold readSome at h
  split at h
  · cases h
  · cases h
    exact ⟨fun h => (nomatch h), rfl⟩

theorem writeAll_ok {s s' : Streams} {b : Bytes} {u : Unit} (h : writeAll W b s = .ok u s') :
    s'.output = s.output ++ b ∧ s'.remaining = s.remaining := by
  unfold writeAll at h
  split at h
  · cases h
    exact ⟨rfl, rfl⟩
  · cases h

theorem writeAll_error {s s' : Streams} {b : Bytes} {e : Fault}
    (h : writeAll W b s = .error e s') : e ≠ .panic ∧ s'.output = s.output ++ b := by
  unfold writeAll at h
  split at h
  · cases h
  · cases h
    exact ⟨fun h => (nomatch h), rfl⟩

/-- What the copying hands to the writer is within the limit; below it the frame was read to
its end. -/
theorem copyLoop_ok (limit : Nat) : ∀ (d : Z.Decoder) (copied : Nat) (s : Streams) (n : Nat)
    (d' : Z.Decoder) (s' : Streams), copyLoop Z W limit d copied s = .ok (n, d') s' →
    ∃ w, n = copied + w.length ∧ w.length ≤ limit ∧ s'.output = s.output ++ w ∧
      s'.remaining.length ≤ s.remaining.length ∧
      (w.length < limit → Reads Z d s.remaining w d' s'.remaining) := by
  induction limit using Nat.strongRecOn with
  | ind limit ih =>
    intro d copied s n d' s' h
    rw [copyLoop] at h
    by_cases h0 : limit = 0
    · rw [if_pos h0] at h
      cases h
      exact ⟨[], rfl, Nat.zero_le _, (List.append_nil _).symm, Nat.le_refl _, fun hlt => by omega⟩
    rw [if_neg h0] at h
    obtain ⟨size, _, hsize, h⟩ := (Act.bind_ok_iff _ _ _ _ _).1 h
    cases hsize
    obtain ⟨⟨b, d₁⟩, s₁, hread, h⟩ := (Act.bind_ok_iff _ _ _ _ _).1 h
    obtain ⟨k, hcrate, hout, hrem⟩ := readSome_ok hread
    simp only at h
    have hdrop : s₁.remaining.length ≤ s.remaining.length := by
      rw [hrem, List.length_drop]
      omega
    by_cases hb : b.1 = []
    · rw [if_pos hb] at h
      cases h
      refine ⟨[], rfl, Nat.zero_le _, by rw [hout, List.append_nil], hdrop, fun _ => ?_⟩
      rw [hrem]
      exact Reads.stop d d' _ _ k b (by omega) hcrate hb
    · rw [if_neg hb] at h
      obtain ⟨_, s₂, hwrite, h⟩ := (Act.bind_ok_iff _ _ _ _ _).1 h
      obtain ⟨hout₂, hrem₂⟩ := writeAll_ok hwrite
      have hpos := List.length_pos_iff.2 hb
      have hle := b.2
      obtain ⟨w, hn, hw, hout₃, hrem₃, hreads⟩ := ih (limit - b.1.length) (by omega) _ _ _ _ _ _ h
      refine ⟨b.1 ++ w, ?_, ?_, ?_, ?_, fun hlt => ?_⟩
      · rw [hn, List.length_append, Nat.add_assoc]
      · rw [List.length_append]
        omega
      · rw [hout₃, hout₂, hout, List.append_assoc]
      · rw [hrem₂] at hrem₃
        omega
      · rw [List.length_append] at hlt
        have := hreads (by omega)
        rw [hrem₂, hrem] at this
        exact Reads.more d d₁ d' _ w _ _ k b hcrate hb this

theorem copyLoop_error (limit : Nat) : ∀ (d : Z.Decoder) (copied : Nat) (s : Streams) (e : Fault)
    (s' : Streams), copyLoop Z W limit d copied s = .error e s' →
    e ≠ .panic ∧ ∃ w, w.length ≤ limit ∧ s'.output = s.output ++ w := by
  induction limit using Nat.strongRecOn with
  | ind limit ih =>
    intro d copied s e s' h
    rw [copyLoop] at h
    by_cases h0 : limit = 0
    · rw [if_pos h0] at h
      exact absurd h (Act.pure_ne_error _ _ _ _)
    rw [if_neg h0] at h
    rcases (Act.bind_error_iff _ _ _ _ _).1 h with h | ⟨size, _, hsize, h⟩
    · cases h
    cases hsize
    rcases (Act.bind_error_iff _ _ _ _ _).1 h with h | ⟨⟨b, d₁⟩, s₁, hread, h⟩
    · obtain ⟨he, hout⟩ := readSome_error h
      exact ⟨he, [], Nat.zero_le _, by rw [hout, List.append_nil]⟩
    obtain ⟨-, -, hout, -⟩ := readSome_ok hread
    simp only at h
    by_cases hb : b.1 = []
    · rw [if_pos hb] at h
      exact absurd h (Act.pure_ne_error _ _ _ _)
    rw [if_neg hb] at h
    have hle := b.2
    rcases (Act.bind_error_iff _ _ _ _ _).1 h with h | ⟨_, s₂, hwrite, h⟩
    · obtain ⟨he, hout₂⟩ := writeAll_error h
      exact ⟨he, b.1, by omega, by rw [hout₂, hout]⟩
    · obtain ⟨hout₂, -⟩ := writeAll_ok hwrite
      have hpos := List.length_pos_iff.2 hb
      obtain ⟨he, w, hw, hout₃⟩ := ih (limit - b.1.length) (by omega) _ _ _ _ _ h
      refine ⟨he, b.1 ++ w, ?_, ?_⟩
      · rw [List.length_append]
        omega
      · rw [hout₃, hout₂, hout, List.append_assoc]

theorem checkChecksum_ok {d : Z.Decoder} {u : Unit} (h : checkChecksum Z d = .ok u) :
    ∀ expected, Z.getChecksumFromData d = some expected →
      Z.getCalculatedChecksum d = some expected := by
  intro expected he
  unfold checkChecksum at h
  rw [he] at h
  exact (Res.ensure_ok_iff _ _ _).1 h

theorem checkChecksum_ne_panic (d : Z.Decoder) : checkChecksum Z d ≠ .error .panic := by
  unfold checkChecksum
  split
  · exact Res.ensure_ne_panic _ _
  · exact fun h => nomatch h

/-- A pass keeps the total below the maximum, and takes a frame off the source. -/
theorem frame_ok {total total' : Nat} {s s' : Streams} (h : frame Z W total s = .ok total' s') :
    total' ≤ MAX_CERTIFICATE ∧
      (Progress Z → s.remaining ≠ [] → s'.remaining.length < s.remaining.length) ∧
      ∃ w, total' = total + w.length ∧ s'.output = s.output ++ w ∧
        IsFrame Z s.remaining w s'.remaining := by
  unfold frame at h
  obtain ⟨d, s₁, hnew, h⟩ := (Act.bind_ok_iff _ _ _ _ _).1 h
  obtain ⟨k, hnew, hout, hrem⟩ := newDecoder_ok hnew
  obtain ⟨budget, hbudget, h⟩ := (Act.liftM_bind_ok_iff _ _ _ _ _).1 h
  have hbudget := Res.checkedSub_ok _ _ _ hbudget
  obtain ⟨⟨n, d'⟩, s₂, hcopy, h⟩ := (Act.bind_ok_iff _ _ _ _ _).1 h
  obtain ⟨w, hn, -, hout₂, hrem₂, hreads⟩ := copyLoop_ok _ _ _ _ _ _ _ hcopy
  simp only at h
  obtain ⟨_, hmax, h⟩ := (Act.liftM_bind_ok_iff _ _ _ _ _).1 h
  have hmax := (Res.ensure_ok_iff _ _ _).1 hmax
  obtain ⟨_, hsum, h⟩ := (Act.liftM_bind_ok_iff _ _ _ _ _).1 h
  obtain ⟨rfl, rfl⟩ := (Act.pure_ok_iff _ _ _ _).1 h
  rw [Nat.zero_add] at hn
  rw [hrem] at hreads hrem₂
  refine ⟨hmax, fun hp hne => ?_, w, by rw [hn], by rw [hout₂, hout], d, k, d', hnew,
    hreads (by omega), checkChecksum_ok hsum⟩
  have hk := hp _ _ _ hnew
  have hpos := List.length_pos_iff.2 hne
  rw [List.length_drop] at hrem₂
  omega

theorem frame_error {total : Nat} {s s' : Streams} {e : Fault} (ht : total ≤ MAX_CERTIFICATE)
    (h : frame Z W total s = .error e s') :
    e ≠ .panic ∧ ∃ w, total + w.length ≤ MAX_CERTIFICATE + 1 ∧ s'.output = s.output ++ w := by
  unfold frame at h
  rcases (Act.bind_error_iff _ _ _ _ _).1 h with h | ⟨d, s₁, hnew, h⟩
  · obtain ⟨he, hout⟩ := newDecoder_error h
    exact ⟨he, [], by simp; omega, by rw [hout, List.append_nil]⟩
  obtain ⟨-, -, hout, -⟩ := newDecoder_ok hnew
  -- the total is within the maximum, so the budget does not underflow
  rw [Res.checkedSub_of_le _ _ ht, Act.liftM_ok_bind] at h
  rcases (Act.bind_error_iff _ _ _ _ _).1 h with h | ⟨⟨n, d'⟩, s₂, hcopy, h⟩
  · obtain ⟨he, w, hw, hout₂⟩ := copyLoop_error _ _ _ _ _ _ h
    exact ⟨he, w, by omega, by rw [hout₂, hout]⟩
  obtain ⟨w, -, hw, hout₂, -⟩ := copyLoop_ok _ _ _ _ _ _ _ hcopy
  simp only at h
  have hwritten : ∃ w, total + w.length ≤ MAX_CERTIFICATE + 1 ∧ s₂.output = s.output ++ w :=
    ⟨w, by omega, by rw [hout₂, hout]⟩
  rcases (Act.bind_error_iff _ _ _ _ _).1 h with h | ⟨_, s₃, hmax, h⟩
  · obtain ⟨hbad, rfl⟩ := (Act.liftM_error_iff _ _ _ _).1 h
    obtain ⟨-, rfl⟩ := (Res.ensure_error_iff _ _ _).1 hbad
    exact ⟨fun h => (nomatch h), hwritten⟩
  obtain ⟨-, rfl⟩ := (Act.liftM_ok_iff _ _ _ _).1 hmax
  rcases (Act.bind_error_iff _ _ _ _ _).1 h with h | ⟨_, s₄, hsum, h⟩
  · obtain ⟨hbad, rfl⟩ := (Act.liftM_error_iff _ _ _ _).1 h
    exact ⟨fun he => checkChecksum_ne_panic d' (he ▸ hbad), hwritten⟩
  · exact absurd h (Act.pure_ne_error _ _ _ _)

/-! ## All frames -/

theorem decompressLoop_ok (fuel : Nat) : ∀ (total : Nat) (s s' : Streams),
    total ≤ MAX_CERTIFICATE → decompressLoop Z W fuel total s = .ok (some ()) s' →
    ∃ w, s'.output = s.output ++ w ∧ total + w.length ≤ MAX_CERTIFICATE ∧
      Frames Z s.remaining w := by
  induction fuel with
  | zero => intro total s s' _ h; cases h
  | succ fuel ih =>
    intro total s s' ht h
    rw [decompressLoop, Act.get_bind] at h
    by_cases hempty : s.remaining = []
    · rw [if_pos hempty] at h
      cases h
      refine ⟨[], (List.append_nil _).symm, ht, ?_⟩
      rw [hempty]
      exact Frames.nil
    · rw [if_neg hempty] at h
      obtain ⟨total', s₁, hframe, h⟩ := (Act.bind_ok_iff _ _ _ _ _).1 h
      obtain ⟨ht', -, w, htotal, hout, hisFrame⟩ := frame_ok hframe
      obtain ⟨w', hout', hmax, hframes⟩ := ih total' s₁ s' ht' h
      refine ⟨w ++ w', by rw [hout', hout, List.append_assoc], ?_,
        Frames.cons _ _ _ _ hempty hisFrame hframes⟩
      rw [List.length_append]
      omega

theorem decompressLoop_error (fuel : Nat) : ∀ (total : Nat) (s s' : Streams) (e : Fault),
    total ≤ MAX_CERTIFICATE → decompressLoop Z W fuel total s = .error e s' →
    e ≠ .panic ∧ ∃ w, s'.output = s.output ++ w ∧ total + w.length ≤ MAX_CERTIFICATE + 1 := by
  induction fuel with
  | zero => intro total s s' e _ h; cases h
  | succ fuel ih =>
    intro total s s' e ht h
    rw [decompressLoop, Act.get_bind] at h
    by_cases hempty : s.remaining = []
    · rw [if_pos hempty] at h
      cases h
    · rw [if_neg hempty] at h
      rcases (Act.bind_error_iff _ _ _ _ _).1 h with h | ⟨total', s₁, hframe, h⟩
      · obtain ⟨he, w, hw, hout⟩ := frame_error ht h
        exact ⟨he, w, hout, hw⟩
      · obtain ⟨ht', -, w, htotal, hout, -⟩ := frame_ok hframe
        obtain ⟨he, w', hout', hmax⟩ := ih total' s₁ s' e ht' h
        refine ⟨he, w ++ w', by rw [hout', hout, List.append_assoc], ?_⟩
        rw [List.length_append]
        omega

/-- Every pass shortens the source, so more fuel than it has octets is as good as any. -/
theorem decompressLoop_fuel (hp : Progress Z) (fuel : Nat) : ∀ (fuel' total : Nat) (s : Streams),
    s.remaining.length < fuel → fuel ≤ fuel' →
    decompressLoop Z W fuel' total s = decompressLoop Z W fuel total s ∧
      ∀ s', decompressLoop Z W fuel total s ≠ .ok none s' := by
  induction fuel with
  | zero => intro fuel' total s h; cases h
  | succ fuel ih =>
    intro fuel' total s hlt hle
    obtain ⟨fuel', rfl⟩ : ∃ m, fuel' = m + 1 := ⟨fuel' - 1, by omega⟩
    rw [decompressLoop, decompressLoop, Act.get_bind, Act.get_bind]
    by_cases hempty : s.remaining = []
    · rw [if_pos hempty, if_pos hempty]
      exact ⟨rfl, fun s' h => nomatch h⟩
    · rw [if_neg hempty, if_neg hempty]
      show EStateM.bind _ _ s = EStateM.bind _ _ s ∧ ∀ s', EStateM.bind _ _ s ≠ _
      unfold EStateM.bind
      cases hframe : frame Z W total s with
      | error e s₁ => exact ⟨rfl, fun s' h => nomatch h⟩
      | ok total' s₁ =>
        have hshort := (frame_ok hframe).2.1 hp hempty
        exact ih fuel' total' s₁ (by omega) (by omega)

/-- **Decompression is bounded.**  If the decoder takes octets with every header it reads, then
`decompress` comes to a result; the writer is handed at most `2 ^ 24` octets, whatever the result,
and no subtraction underflows; and an accepted input is one or more whole frames, each with the
checksum it carries, of at most `2 ^ 24 - 1` octets together. -/
theorem decompress_bounded (hp : Progress Z) (input : Bytes) :
    ∃ (result : Res Unit) (written : Bytes),
      (∀ fuel, input.length < fuel → decompress Z W fuel input = some (result, written)) ∧
      written.length ≤ 2 ^ 24 ∧ result ≠ .error .panic ∧
      (result = .ok () →
        input ≠ [] ∧ Frames Z input written ∧ written.length ≤ 2 ^ 24 - 1) := by
  by_cases hempty : input = []
  · refine ⟨.error (.err "empty Zstandard certificate"), [], fun fuel _ => ?_, Nat.zero_le _,
      fun h => (nomatch h), fun h => (nomatch h)⟩
    rw [decompress, if_pos hempty]
  have hfuel := fun fuel hle => decompressLoop_fuel (W := W) hp (input.length + 1) fuel 0
    { remaining := input, output := [] } (Nat.lt_succ_self _) hle
  have hmax : MAX_CERTIFICATE + 1 = 2 ^ 24 := rfl
  cases hrun : decompressLoop Z W (input.length + 1) 0 { remaining := input, output := [] } with
  | ok done s =>
    cases done with
    | none => exact absurd hrun ((hfuel _ (Nat.le_refl _)).2 s)
    | some u =>
      obtain ⟨w, hout, hw, hframes⟩ := decompressLoop_ok _ _ _ _ (Nat.zero_le _) hrun
      rw [List.nil_append] at hout
      rw [Nat.zero_add] at hw
      refine ⟨.ok (), s.output, fun fuel hlt => ?_, ?_, fun h => (nomatch h), fun _ => ⟨hempty, ?_⟩⟩
      · rw [decompress, if_neg hempty, (hfuel fuel hlt).1, hrun]
      · rw [hout]
        omega
      · rw [hout]
        exact ⟨hframes, hw⟩
  | error e s =>
    obtain ⟨he, w, hout, hw⟩ := decompressLoop_error _ _ _ _ _ (Nat.zero_le _) hrun
    rw [List.nil_append] at hout
    refine ⟨.error e, s.output, fun fuel hlt => ?_, ?_, fun h => he (Except.error.inj h),
      fun h => (nomatch h)⟩
    · rw [decompress, if_neg hempty, (hfuel fuel hlt).1, hrun]
    · rw [hout]
      omega

end

/-- A decoder of frames that hold a single raw block and no checksum, with a size of one octet.
It keeps what it has decoded and not yet given. -/
def rawDecoder : ZstdCrate where
  Decoder := Option Bytes
  new source _ :=
    match source with
    | 0x28 :: 0xb5 :: 0x2f :: 0xfd :: 0x20 :: _ :: _ => (.ok none, 6)
    | _ => (.error "ReadFrameHeaderError", 0)
  read d source n :=
    match d, source with
    | some left, _ => (.ok ⟨left.take n, List.length_take_le n left⟩, some (left.drop n), 0)
    | none, a :: b :: c :: rest =>
      let size := (a.toNat + 256 * b.toNat + 65536 * c.toNat) / 8
      if a.toNat % 8 = 1 ∧ size ≤ rest.length then
        (.ok ⟨(rest.take size).take n, List.length_take_le n _⟩, some ((rest.take size).drop n),
          3 + size)
      else (.error "DecodeBlockContentError", none, 3)
    | none, _ => (.error "BlockHeaderReadError", none, 0)
  getChecksumFromData _ := none
  getCalculatedChecksum _ := none

theorem rawDecoder_progress : Progress rawDecoder := by
  intro source d k h
  simp only [rawDecoder] at h
  split at h
  · cases h
    decide
  · cases h

/-- Eight kibibytes at once, and no error. -/
def memoryWriter : Writer := ⟨fun _ => 8191, fun _ _ => .ok ()⟩

/-- A frame of one octet after another. -/
def twoFrames : Bytes :=
  [0x28, 0xb5, 0x2f, 0xfd, 0x20, 1, 9, 0, 0, 0x41, 0x28, 0xb5, 0x2f, 0xfd, 0x20, 1, 9, 0, 0, 0x42]

theorem decompress_bounded_raw :
    (∀ fuel, 20 < fuel →
      decompress rawDecoder memoryWriter fuel twoFrames = some (.ok (), [0x41, 0x42])) ∧
    Frames rawDecoder twoFrames [0x41, 0x42] := by
  obtain ⟨result, written, hall, -, -, hframes⟩ :=
    decompress_bounded (W := memoryWriter) rawDecoder_progress twoFrames
  have hrun : decompress rawDecoder memoryWriter 21 twoFrames = some (.ok (), [0x41, 0x42]) := by
    decide +kernel
  obtain ⟨rfl, rfl⟩ := Prod.mk.inj (Option.some.inj ((hall 21 (by decide)).symm.trans hrun))
  exact ⟨fun fuel hfuel => hall fuel hfuel, (hframes rfl).2.1⟩

end Zstd

end Tls
