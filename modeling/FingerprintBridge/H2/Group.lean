import FingerprintBridge.H2.Direction
import FingerprintBridge.Lib.Lists
import FingerprintBridge.Wire.Codec

/-!
# Header groups

A header block travels in a HEADERS frame and its CONTINUATIONs, a group.
`reframe` makes a group out of a group: the same stream, flags, priority and
padding, and `encoded` in place of the fragments (`reframe_ok`).
-/

namespace H2

open HpackWire (forall_octet)

/-! ## Flags -/

theorem isPadded_clear (flags : UInt8) : isPadded (flags &&& ~~~4) = isPadded flags :=
  forall_octet (fun f => isPadded (f &&& ~~~4) = isPadded f) (by decide +kernel) flags

theorem isPadded_mark (flags : UInt8) : isPadded (flags ||| 4) = isPadded flags :=
  forall_octet (fun f => isPadded (f ||| 4) = isPadded f) (by decide +kernel) flags

theorem hasPriority_clear (flags : UInt8) : hasPriority (flags &&& ~~~4) = hasPriority flags :=
  forall_octet (fun f => hasPriority (f &&& ~~~4) = hasPriority f) (by decide +kernel) flags

theorem hasPriority_mark (flags : UInt8) : hasPriority (flags ||| 4) = hasPriority flags :=
  forall_octet (fun f => hasPriority (f ||| 4) = hasPriority f) (by decide +kernel) flags

theorem endsHeaders_clear (flags : UInt8) : endsHeaders (flags &&& ~~~4) = false :=
  forall_octet (fun f => endsHeaders (f &&& ~~~4) = false) (by decide +kernel) flags

theorem endsHeaders_mark (flags : UInt8) : endsHeaders (flags ||| 4) = true :=
  forall_octet (fun f => endsHeaders (f ||| 4) = true) (by decide +kernel) flags

theorem clear_mark (flags : UInt8) : (flags &&& ~~~4) ||| 4 = flags ||| 4 :=
  forall_octet (fun f => (f &&& ~~~4) ||| 4 = f ||| 4) (by decide +kernel) flags

theorem mark_mark (flags : UInt8) : (flags ||| 4) ||| 4 = flags ||| 4 :=
  forall_octet (fun f => (f ||| 4) ||| 4 = f ||| 4) (by decide +kernel) flags

/-! ## The parts of a HEADERS frame -/

/-- The octets of the pad length and the priority. -/
def frontLength (flags : UInt8) : Nat :=
  (if isPadded flags then 1 else 0) + if hasPriority flags then 5 else 0

/-- The payload is `front`, the fragment and the padding. -/
structure Parts (frame : Frame) (front padding fragment : Bytes) : Prop where
  kind : frame.kind = 1
  stream : frame.stream &&& 0x7fffffff ≠ 0
  payload : frame.payload = front ++ fragment ++ padding
  front_length : front.length = frontLength frame.flags
  padding_length : padding.length = if isPadded frame.flags then (front.head?.getD 0).toNat else 0

theorem padLength_ok (frame : Frame) (pad : Nat) (h : padLength frame = .ok pad) :
    (isPadded frame.flags = true → ∃ c b, frame.payload = c :: b ∧ pad = c.toNat) ∧
      (isPadded frame.flags = false → pad = 0) := by
  unfold padLength at h
  split at h
  · next hp =>
    obtain ⟨_, -, h⟩ := (Res.bind_ok_iff _ _ _).1 h
    obtain ⟨c, hc, h⟩ := (Res.bind_ok_iff _ _ _).1 h
    cases h
    rw [Res.byteAt_ok_iff] at hc
    refine ⟨fun _ => ?_, fun hf => by rw [hp] at hf; cases hf⟩
    cases hb : frame.payload with
    | nil => rw [hb] at hc; cases hc
    | cons d b =>
      rw [hb, List.getElem?_cons_zero, Option.some.injEq] at hc
      exact ⟨d, b, rfl, by rw [hc]⟩
  · next hp =>
    cases h
    exact ⟨fun ht => absurd ht hp, fun _ => rfl⟩

theorem headerParts_ok (frame : Frame) (front padding fragment : Bytes)
    (h : headerParts frame = .ok (front, padding, fragment)) :
    Parts frame front padding fragment := by
  unfold headerParts at h
  obtain ⟨_, h1, h⟩ := (Res.bind_ok_iff _ _ _).1 h
  obtain ⟨pad, h2, h⟩ := (Res.bind_ok_iff _ _ _).1 h
  obtain ⟨_, h3, h⟩ := (Res.bind_ok_iff _ _ _).1 h
  rw [Res.ensure_ok_iff] at h1 h3
  change frontLength frame.flags + pad ≤ frame.payload.length at h3
  cases h
  obtain ⟨hp, hn⟩ := padLength_ok frame pad h2
  have hfront : (frame.payload.take (frontLength frame.flags)).length = frontLength frame.flags := by
    rw [List.length_take]
    omega
  refine ⟨h1.1, h1.2, ?_, hfront, ?_⟩
  · -- the front, the middle and the padding make up the payload
    have hmid : (frame.payload.take (frame.payload.length - pad)).take (frontLength frame.flags) =
        frame.payload.take (frontLength frame.flags) := by
      rw [List.take_take]
      congr 1
      omega
    show frame.payload = frame.payload.take (frontLength frame.flags) ++
      (frame.payload.take (frame.payload.length - pad)).drop (frontLength frame.flags) ++
      frame.payload.drop (frame.payload.length - pad)
    rw [← hmid, List.take_append_drop, List.take_append_drop]
  · have hdrop : (frame.payload.drop (frame.payload.length - pad)).length = pad := by
      rw [List.length_drop]
      omega
    rw [hdrop]
    show pad = if isPadded frame.flags = true then
      ((frame.payload.take (frontLength frame.flags)).head?.getD 0).toNat else 0
    by_cases hpad : isPadded frame.flags = true
    · obtain ⟨c, b, hb, rfl⟩ := hp hpad
      have hpos : frontLength frame.flags = frontLength frame.flags - 1 + 1 := by
        unfold frontLength
        rw [if_pos hpad]
        omega
      rw [if_pos hpad, hb, hpos, List.take_succ_cons]
      rfl
    · rw [if_neg hpad]
      exact hn (by simpa using hpad)

theorem Parts.headerParts (frame : Frame) (front padding fragment : Bytes)
    (h : Parts frame front padding fragment) :
    H2.headerParts frame = .ok (front, padding, fragment) := by
  have hpad : padLength frame = .ok padding.length := by
    have hpl := h.padding_length
    have hfl := h.front_length
    unfold padLength
    by_cases hp : isPadded frame.flags = true
    · rw [if_pos hp] at hpl ⊢
      cases front with
      | nil =>
        rw [frontLength, if_pos hp, List.length_nil] at hfl
        omega
      | cons c front =>
        have hpay : frame.payload = c :: (front ++ fragment ++ padding) := h.payload
        rw [hpay, ensure, if_pos (fun h => nomatch h), hpl]
        rfl
    · rw [if_neg hp] at hpl ⊢
      rw [hpl]
  have hlen : frame.payload.length = front.length + fragment.length + padding.length := by
    rw [h.payload]
    simp only [List.length_append]
  unfold H2.headerParts
  rw [hpad, ensure, if_pos ⟨h.kind, h.stream⟩]
  simp only [bind, Except.bind]
  change (do
    ensure (frontLength frame.flags + padding.length ≤ frame.payload.length)
      "bad HEADERS padding/priority"
    Except.ok (frame.payload.take (frontLength frame.flags),
      frame.payload.drop (frame.payload.length - padding.length),
      (frame.payload.take (frame.payload.length - padding.length)).drop
        (frontLength frame.flags))) = _
  have hfront := h.front_length
  rw [ensure, if_pos (by omega)]
  have hcut : frame.payload.length - padding.length = (front ++ fragment).length := by
    rw [List.length_append]
    omega
  have htake : frame.payload.take (frontLength frame.flags) = front := by
    rw [h.payload, ← hfront, List.append_assoc, List.take_left]
  have hdrop : frame.payload.drop (frame.payload.length - padding.length) = padding := by
    rw [hcut, h.payload, List.drop_left]
  have hmid : (frame.payload.take (frame.payload.length - padding.length)).drop
      (frontLength frame.flags) = fragment := by
    rw [hcut, h.payload, List.take_left, ← hfront, List.drop_left]
  rw [htake, hdrop, hmid]
  rfl

/-! ## Groups -/

/-- END_HEADERS is set on the last frame and on no other. -/
def endsOnce : List Frame → Bool
  | [] => false
  | [f] => endsHeaders f.flags
  | f :: g :: fs => !endsHeaders f.flags && endsOnce (g :: fs)

theorem endsOnce_cons (f : Frame) (fs : List Frame) (h : fs ≠ []) :
    endsOnce (f :: fs) = (!endsHeaders f.flags && endsOnce fs) := by
  cases fs with
  | nil => exact absurd rfl h
  | cons g fs => rfl

/-- `rest` are the CONTINUATIONs of `first`, and the last of them all ends the group. -/
structure IsGroup (first : Frame) (rest : List Frame) : Prop where
  continuation : ∀ f ∈ rest, f.kind = 9 ∧ f.stream = first.stream
  ends : endsOnce (first :: rest) = true

theorem markLast_ok (fs gs : List Frame) (h : markLast fs = .ok gs)
    (hclear : ∀ f ∈ fs, endsHeaders f.flags = false) : endsOnce gs = true ∧
      List.Forall₂ (fun f g => (g.flags = f.flags ∨ g.flags = f.flags ||| 4) ∧ g.kind = f.kind ∧
        g.stream = f.stream ∧ g.payload = f.payload) fs gs := by
  induction fs generalizing gs with
  | nil => cases h
  | cons f fs ih =>
    cases fs with
    | nil =>
      cases h
      exact ⟨endsHeaders_mark _, List.Forall₂.cons ⟨Or.inr rfl, rfl, rfl, rfl⟩ List.Forall₂.nil⟩
    | cons f' fs =>
      unfold markLast at h
      obtain ⟨gs', hgs, h⟩ := (Res.bind_ok_iff _ _ _).1 h
      cases h
      obtain ⟨he, hf⟩ := ih gs' hgs fun g hg => hclear g (List.mem_cons_of_mem _ hg)
      refine ⟨?_, List.Forall₂.cons ⟨Or.inl rfl, rfl, rfl, rfl⟩ hf⟩
      cases gs' with
      | nil => cases hf
      | cons g gs' =>
        rw [endsOnce, hclear f List.mem_cons_self, he]
        rfl

theorem chunks_flatten (max : Nat) (hmax : max ≠ 0) (b : Bytes) : (chunks max b).flatten = b := by
  induction b using chunks.induct max with
  | case1 b h =>
    rw [chunks, dif_pos h]
    exact (h.resolve_right hmax).symm
  | case2 b h ih =>
    rw [chunks, dif_neg h, List.flatten_cons, ih, List.take_append_drop]

theorem chunks_length (max : Nat) (b : Bytes) : ∀ c ∈ chunks max b, c.length ≤ max := by
  induction b using chunks.induct max with
  | case1 b h =>
    rw [chunks, dif_pos h]
    exact fun c hc => by cases hc
  | case2 b h ih =>
    rw [chunks, dif_neg h]
    intro c hc
    rcases List.mem_cons.1 hc with rfl | hc
    · rw [List.length_take]
      omega
    · exact ih c hc

/-- The slice that is copied is what the room holds of the rest. -/
theorem slice_rest (encoded chunk : Bytes) (pos cap : Nat)
    (h : slice encoded pos (pos + min cap (encoded.length - pos)) = .ok chunk) :
    chunk = (encoded.drop pos).take cap ∧
      encoded.drop (pos + min cap (encoded.length - pos)) = (encoded.drop pos).drop cap := by
  have hchunk := Res.slice_ok _ _ _ _ h
  rw [Nat.add_sub_cancel_left] at hchunk
  rw [hchunk, ← List.drop_drop]
  rcases Nat.le_total cap (encoded.length - pos) with hle | hle
  · rw [Nat.min_eq_left hle]
    exact ⟨rfl, rfl⟩
  · have hlen : (encoded.drop pos).length = encoded.length - pos := List.length_drop
    have hall : (encoded.drop pos).length ≤ cap := hlen ▸ hle
    rw [Nat.min_eq_right hle, ← hlen, List.take_length, List.drop_length,
      List.take_of_length_le hall, List.drop_eq_nil_of_le hall]
    exact ⟨rfl, rfl⟩

/-- **One frame of the original.**  It has room for `cap` octets of the block beside its
`overhead`, and keeps everything but END_HEADERS. -/
structure Refilled (first frame : Frame) (front padding rest : Bytes) (maxFrame i : Nat)
    (fs : List Frame) (cap : Nat) (refilled : Frame) : Prop where
  within : frame.payload.length ≤ maxFrame
  continuation : i = 0 ∨ frame.kind = 9 ∧ frame.stream = first.stream
  room : cap + (if i = 0 then front.length + padding.length else 0) =
    if fs = [] then maxFrame else frame.payload.length
  eq : refilled = { frame with
    flags := frame.flags &&& ~~~4
    payload := if i = 0 then front ++ rest.take cap ++ padding else rest.take cap }

theorem reframeLoop_cons_ok {first frame : Frame} {fs out : List Frame}
    {front padding encoded : Bytes} {maxFrame i pos pos' : Nat}
    (h : reframeLoop first front padding encoded maxFrame i (frame :: fs) pos = .ok (out, pos')) :
    ∃ cap pos₁ refilled out', out = refilled :: out' ∧
      Refilled first frame front padding (encoded.drop pos) maxFrame i fs cap refilled ∧
      encoded.drop pos₁ = (encoded.drop pos).drop cap ∧
      reframeLoop first front padding encoded maxFrame (i + 1) fs pos₁ = .ok (out', pos') := by
  unfold reframeLoop at h
  obtain ⟨_, h1, h⟩ := (Res.bind_ok_iff _ _ _).1 h
  obtain ⟨_, h2, h⟩ := (Res.bind_ok_iff _ _ _).1 h
  obtain ⟨cap, h3, h⟩ := (Res.bind_ok_iff _ _ _).1 h
  obtain ⟨chunk, h4, h⟩ := (Res.bind_ok_iff _ _ _).1 h
  obtain ⟨⟨out', pos₁⟩, h5, h⟩ := (Res.bind_ok_iff _ _ _).1 h
  cases h
  obtain ⟨rfl, hrest⟩ := slice_rest encoded chunk pos cap h4
  exact ⟨cap, _, _, out', rfl, ⟨(Res.ensure_ok_iff _ _ _).1 h1, (Res.ensure_ok_iff _ _ _).1 h2,
    Res.checkedSub_ok _ _ _ h3, rfl⟩, hrest, h5⟩

/-- With its overhead the room is within the limit. -/
theorem Refilled.cap_le {first frame refilled : Frame} {front padding rest : Bytes}
    {maxFrame i cap : Nat} {fs : List Frame}
    (h : Refilled first frame front padding rest maxFrame i fs cap refilled) :
    cap + (if i = 0 then front.length + padding.length else 0) ≤ maxFrame := by
  rw [h.room]
  split
  · exact Nat.le_refl _
  · exact h.within

/-- The CONTINUATIONs of the original carry on with `encoded` from `pos`. -/
theorem reframeLoop_ok (first : Frame) (front padding encoded : Bytes) (maxFrame : Nat)
    (fs : List Frame) : ∀ (i pos : Nat) (out : List Frame) (pos' : Nat), i ≠ 0 →
      reframeLoop first front padding encoded maxFrame i fs pos = .ok (out, pos') →
      encoded.drop pos = out.flatMap Frame.payload ++ encoded.drop pos' ∧
        ∀ g ∈ out, g.kind = 9 ∧ g.stream = first.stream ∧ endsHeaders g.flags = false ∧
          g.payload.length ≤ maxFrame := by
  induction fs with
  | nil =>
    intro i pos out pos' _ h
    cases h
    exact ⟨rfl, fun g hg => by cases hg⟩
  | cons frame fs ih =>
    intro i pos out pos' hi h
    obtain ⟨cap, pos₁, refilled, out', rfl, hr, hrest, h⟩ := reframeLoop_cons_ok h
    obtain ⟨hk, hs⟩ := hr.continuation.resolve_left hi
    obtain ⟨hd, hall⟩ := ih (i + 1) _ _ _ (by omega) h
    have hcap := hr.cap_le
    have hpayload : refilled.payload = (encoded.drop pos).take cap := by
      rw [hr.eq]
      exact if_neg hi
    refine ⟨?_, fun g hg => ?_⟩
    · rw [List.flatMap_cons, List.append_assoc, ← hd, hrest, hpayload, List.take_append_drop]
    · rcases List.mem_cons.1 hg with rfl | hg
      · refine ⟨?_, ?_, ?_, ?_⟩
        · rw [hr.eq]
          exact hk
        · rw [hr.eq]
          exact hs
        · rw [hr.eq]
          exact endsHeaders_clear _
        · rw [hpayload, List.length_take]
          omega
      · exact hall g hg

theorem flatMap_payload (fs gs : List Frame)
    (h : List.Forall₂ (fun f g => g.payload = f.payload) fs gs) :
    gs.flatMap Frame.payload = fs.flatMap Frame.payload := by
  rw [List.flatMap_def, List.flatMap_def, forall₂_map_eq h]

theorem reframe_limit (original frames : List Frame) (encoded : Bytes) (maxFrame : Nat)
    (h : reframe original encoded maxFrame = .ok frames) : maxFrame < 2 ^ 24 := by
  unfold reframe at h
  obtain ⟨_, h1, -⟩ := (Res.bind_ok_iff _ _ _).1 h
  have := ((Res.ensure_ok_iff _ _ _).1 h1).2
  omega

/-- The frames added for what is left of a block. -/
def added (first : Frame) (maxFrame : Nat) (left : Bytes) : List Frame :=
  (chunks maxFrame left).map fun chunk =>
    { kind := 9, flags := 0, stream := first.stream, payload := chunk }

theorem added_flatten (first : Frame) (maxFrame : Nat) (hmax : maxFrame ≠ 0) (left : Bytes) :
    (added first maxFrame left).flatMap Frame.payload = left := by
  rw [added, List.flatMap_map, List.flatMap_id', chunks_flatten _ hmax]

theorem mem_added (first : Frame) (maxFrame : Nat) (left : Bytes) :
    ∀ f ∈ added first maxFrame left, f.kind = 9 ∧ f.stream = first.stream ∧
      endsHeaders f.flags = false ∧ f.payload.length ≤ maxFrame := by
  intro f hf
  obtain ⟨c, hc, rfl⟩ := List.mem_map.1 hf
  exact ⟨rfl, rfl, show endsHeaders 0 = false by decide, chunks_length _ _ c hc⟩

/-- The frames of a group, before the last is marked. -/
theorem reframe_cons_ok {first : Frame} {rest frames : List Frame}
    {encoded front padding fragment : Bytes} {maxFrame : Nat} (hp : Parts first front padding fragment)
    (h : reframe (first :: rest) encoded maxFrame = .ok frames) :
    16384 ≤ maxFrame ∧ ∃ cap refilled out pos₁ pos,
      Refilled first first front padding encoded maxFrame 0 rest cap refilled ∧
      encoded.drop pos₁ = encoded.drop cap ∧
      reframeLoop first front padding encoded maxFrame 1 rest pos₁ = .ok (out, pos) ∧
      markLast (refilled :: (out ++ added first maxFrame (encoded.drop pos))) = .ok frames := by
  unfold reframe at h
  obtain ⟨_, h1, h⟩ := (Res.bind_ok_iff _ _ _).1 h
  simp only at h
  obtain ⟨parts, h2, h⟩ := (Res.bind_ok_iff _ _ _).1 h
  rw [hp.headerParts, Except.ok.injEq] at h2
  subst h2
  obtain ⟨⟨pushed, pos⟩, h3, h⟩ := (Res.bind_ok_iff _ _ _).1 h
  obtain ⟨cap, pos₁, refilled, out, rfl, hr, hrest, h3⟩ := reframeLoop_cons_ok h3
  exact ⟨((Res.ensure_ok_iff _ _ _).1 h1).1, cap, refilled, out, pos₁, pos, hr, hrest, h3, h⟩

/-- **A group out of a group.**  `first` keeps its kind, stream, flags, priority and
padding; the fragments are those of `encoded`, in frames within the limit. -/
theorem reframe_ok (first : Frame) (rest frames : List Frame) (encoded front padding fragment : Bytes)
    (maxFrame : Nat) (hp : Parts first front padding fragment)
    (h : reframe (first :: rest) encoded maxFrame = .ok frames) :
    ∃ first' rest' fragment', frames = first' :: rest' ∧ IsGroup first' rest' ∧
      first'.stream = first.stream ∧ first'.flags ||| 4 = first.flags ||| 4 ∧
      Parts first' front padding fragment' ∧
      encoded = fragment' ++ rest'.flatMap Frame.payload ∧
      ∀ f ∈ frames, f.payload.length ≤ maxFrame := by
  obtain ⟨hmax, cap, refilled, out, pos₁, pos, hr, hdrop, hloop, h⟩ := reframe_cons_ok hp h
  have hcap := hr.cap_le
  obtain rfl := hr.eq
  obtain ⟨hd, hall⟩ := reframeLoop_ok first front padding encoded maxFrame rest 1 _ _ _
    (by omega) hloop
  -- all the frames before the last is marked
  have htail : ∀ f ∈ out ++ added first maxFrame (encoded.drop pos), f.kind = 9 ∧
      f.stream = first.stream ∧ endsHeaders f.flags = false ∧ f.payload.length ≤ maxFrame := by
    intro f hf
    rcases List.mem_append.1 hf with hf | hf
    · exact hall f hf
    · exact mem_added first maxFrame _ f hf
  obtain ⟨hends, hmark⟩ := markLast_ok _ _ h fun f hf => by
    rcases List.mem_cons.1 hf with rfl | hf
    · exact endsHeaders_clear _
    · exact (htail f hf).2.2.1
  cases hmark with
  | @cons _ first' _ rest' hfirst hrest =>
    obtain ⟨hflags, hkind, hstream, hpayload⟩ := hfirst
    simp only at hflags hkind hstream hpayload
    have hrestp : rest'.flatMap Frame.payload =
        (out ++ added first maxFrame (encoded.drop pos)).flatMap Frame.payload :=
      flatMap_payload _ _ (hrest.imp fun f g hfg => hfg.2.2.2)
    have hrestf : ∀ g ∈ rest', g.kind = 9 ∧ g.stream = first.stream ∧ g.payload.length ≤ maxFrame := by
      intro g hg
      obtain ⟨f, hf, -, h1, h2, h3⟩ := forall₂_mem_right hrest g hg
      obtain ⟨k1, k2, -, k3⟩ := htail f hf
      exact ⟨h1.trans k1, h2.trans k2, h3 ▸ k3⟩
    have hpadded : isPadded first'.flags = isPadded first.flags := by
      rcases hflags with hf | hf
      · rw [hf, isPadded_clear]
      · rw [hf, isPadded_mark, isPadded_clear]
    have hpriority : hasPriority first'.flags = hasPriority first.flags := by
      rcases hflags with hf | hf
      · rw [hf, hasPriority_clear]
      · rw [hf, hasPriority_mark, hasPriority_clear]
    refine ⟨first', rest', encoded.take cap, rfl, ⟨fun f hf => ?_, hends⟩, hstream, ?_, ?_, ?_, ?_⟩
    · rw [hstream]
      exact ⟨(hrestf f hf).1, (hrestf f hf).2.1⟩
    · rcases hflags with hf | hf
      · rw [hf, clear_mark]
      · rw [hf, mark_mark, clear_mark]
    · refine ⟨hkind.trans hp.kind, by rw [hstream]; exact hp.stream, hpayload, ?_, ?_⟩
      · rw [hp.front_length, frontLength, frontLength, hpadded, hpriority]
      · rw [hp.padding_length, hpadded]
    · rw [hrestp, List.flatMap_append, added_flatten _ _ (by omega), ← hd, hdrop,
        List.take_append_drop]
    · intro f hf
      rcases List.mem_cons.1 hf with rfl | hf
      · rw [hpayload]
        simp only [if_true, List.length_append, List.length_take] at hcap ⊢
        omega
      · exact (hrestf f hf).2.2

end H2
