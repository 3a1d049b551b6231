import FingerprintBridge.H2.Forward

/-!
# A pass, whole or not at all

A pass that succeeds looks at no octet after those it reads (`Local`), so it would do the
same at the end of the stream.  A direction that fails has written what it writes for the
items before the one it fails on (`direction_atomic`).
-/

namespace H2

open HpackWire (HpackCrate HeaderRewriter)

variable {D : HpackCrate} {U : UrlCrate} {α β : Type}

/-! ## Octets that are not read -/

/-- From `st` to `st'`, `x` read `w`, and does so whatever is after it. -/
def Local (x : Act (Task D) α) (st : Task D) (a : α) (st' : Task D) : Prop :=
  ∃ w, st.input = w ++ st'.input ∧
    ∀ t, x { st with input := w ++ t } = .ok a { st' with input := t }

theorem Local.bind {x : Act (Task D) α} {f : α → Act (Task D) β} {st st' st'' : Task D} {a : α}
    {b : β} (hx : Local x st a st') (hf : Local (f a) st' b st'') : Local (x >>= f) st b st'' := by
  obtain ⟨w, hw, hrun⟩ := hx
  obtain ⟨w', hw', hrun'⟩ := hf
  refine ⟨w ++ w', by rw [hw, hw', List.append_assoc], fun t => ?_⟩
  rw [List.append_assoc]
  exact (Act.bind_ok_iff _ _ _ _ _).2 ⟨a, _, hrun (w' ++ t), hrun' t⟩

/-- What reads nothing. -/
theorem Local.of_input {x : Act (Task D) α} {st st' : Task D} {a : α} (hin : st'.input = st.input)
    (hrun : ∀ t, x { st with input := t } = .ok a { st' with input := t }) : Local x st a st' :=
  ⟨[], hin.symm, hrun⟩

theorem local_liftM {x : Res α} {st st' : Task D} {a : α}
    (h : (liftM x : Act (Task D) α) st = .ok a st') : Local (liftM x) st a st' := by
  obtain ⟨hx, rfl⟩ := (Act.liftM_ok_iff _ _ _ _).1 h
  exact .of_input rfl fun t => (Act.liftM_ok_iff _ _ _ _).2 ⟨hx, rfl⟩

theorem local_pure (a : α) (st : Task D) : Local (pure a) st a st := .of_input rfl fun _ => rfl

theorem Frame.read_of_parse {b rest : Bytes} {f : Frame} (h : parse b = some (f, rest))
    (hf : f.payload.length ≤ MAX_BLOCK) : read b = .ok (some (f, rest)) := by
  unfold parse at h
  split at h
  · next h0 h1 h2 kind flags s0 s1 s2 s3 b =>
    simp only at h
    split at h
    · next hlen =>
      cases h
      rw [List.length_take, Nat.min_eq_left hlen] at hf
      unfold read
      simp only [length_octets]
      exact (Res.bind_ok_iff _ _ _).2 ⟨(), (Res.ensure_ok_iff _ _ _).2 hf, (Res.bind_ok_iff _ _ _).2
        ⟨(), (Res.ensure_ok_iff _ _ _).2 hlen, rfl⟩⟩
    · cases h
  · cases h

theorem local_readFrame {st st' : Task D} {f : Frame} (h : readFrame st = .ok (some f) st') :
    Local readFrame st (some f) st' := by
  rcases readFrame_ok _ _ _ h with ⟨hnone, -⟩ | ⟨g, hg, hlen, hin, hst⟩
  · cases hnone
  cases hg
  refine ⟨f.encode, hin, fun t => ?_⟩
  have hread := Frame.read_of_parse (Frame.parse_encode f (wellFormed_of_read f hlen) t) hlen
  unfold readFrame
  rw [hread, hst]

theorem local_writeFrame {f : Frame} {st st' : Task D} {u : Unit}
    (h : writeFrame f st = .ok u st') : Local (writeFrame f) st u st' := by
  obtain ⟨b, st2, hb, hw⟩ := (Act.bind_ok_iff _ _ _ _ _).1 h
  cases hw
  exact (local_liftM hb).bind (.of_input rfl fun _ => rfl)

theorem local_writeFrames (fs : List Frame) {st st' : Task D} {u : Unit}
    (h : writeFrames fs st = .ok u st') : Local (writeFrames fs) st u st' := by
  induction fs generalizing st with
  | nil =>
    obtain ⟨-, rfl⟩ := (Act.pure_ok_iff _ _ _ _).1 h
    exact local_pure _ _
  | cons f fs ih =>
    obtain ⟨_, st1, h1, h2⟩ := (Act.bind_ok_iff _ _ _ _ _).1 h
    exact (local_writeFrame h1).bind (ih h2)

theorem local_onDecoder {x : Act (HeaderRewriter D) α} {st st' : Task D} {a : α}
    (h : onDecoder x st = .ok a st') : Local (onDecoder x) st a st' := by
  obtain ⟨d, hd, rfl⟩ := (Act.zoom_ok_iff _ _ _ _ _ _).1 h
  exact .of_input rfl fun t => (Act.zoom_ok_iff _ _ _ _ _ _).2 ⟨d, hd, rfl⟩

theorem local_onOther {x : Act PeerLimits α} {st st' : Task D} {a : α}
    (h : onOther x st = .ok a st') : Local (onOther x) st a st' := by
  obtain ⟨d, hd, rfl⟩ := (Act.zoom_ok_iff _ _ _ _ _ _).1 h
  exact .of_input rfl fun t => (Act.zoom_ok_iff _ _ _ _ _ _).2 ⟨d, hd, rfl⟩

/-! ## One pass -/

theorem local_nextContinuation {block : Bytes} {original : List Frame} {st st' : Task D}
    {next : Frame} (h : nextContinuation block original st = .ok next st') :
    Local (nextContinuation block original) st next st' := by
  unfold nextContinuation at h ⊢
  obtain ⟨frame, st1, hr, h⟩ := (Act.bind_ok_iff _ _ _ _ _).1 h
  obtain ⟨next', st2, hn, h⟩ := (Act.bind_ok_iff _ _ _ _ _).1 h
  obtain ⟨first, st3, hf, h⟩ := (Act.bind_ok_iff _ _ _ _ _).1 h
  obtain ⟨_, st4, hc, h⟩ := (Act.bind_ok_iff _ _ _ _ _).1 h
  obtain ⟨_, st5, hl, h⟩ := (Act.bind_ok_iff _ _ _ _ _).1 h
  obtain ⟨rfl, rfl⟩ := (Act.pure_ok_iff _ _ _ _).1 h
  obtain rfl := (Res.okOr_ok_iff _ _ _).1 ((Act.liftM_ok_iff _ _ _ _).1 hn).1
  refine (local_readFrame hr).bind ?_
  refine (local_liftM hn).bind ?_
  refine (local_liftM hf).bind ?_
  refine (local_liftM hc).bind ?_
  exact (local_liftM hl).bind (local_pure _ _)

theorem local_gather (room : Nat) {flags : UInt8} {block : Bytes} {original : List Frame}
    {st st' : Task D} {r : Bytes × List Frame}
    (h : gather room flags block original st = .ok r st') :
    Local (gather room flags block original) st r st' := by
  induction room generalizing flags block original st with
  | zero =>
    unfold gather at h ⊢
    split at h
    · next he =>
      obtain ⟨rfl, rfl⟩ := (Act.pure_ok_iff _ _ _ _).1 h
      rw [if_pos he]
      exact local_pure _ _
    · obtain ⟨next, st1, -, h⟩ := (Act.bind_ok_iff _ _ _ _ _).1 h
      cases h
  | succ room ih =>
    unfold gather at h ⊢
    split at h
    · next he =>
      obtain ⟨rfl, rfl⟩ := (Act.pure_ok_iff _ _ _ _).1 h
      rw [if_pos he]
      exact local_pure _ _
    · next he =>
      obtain ⟨next, st1, hn, h⟩ := (Act.bind_ok_iff _ _ _ _ _).1 h
      rw [if_neg he]
      exact (local_nextContinuation hn).bind (ih h)

theorem local_handle {m : Mapping U} {response : Bool} {limits : PeerLimits} {f : Frame}
    {st st' : Task D} {u : Unit} (h : handle m response limits f st = .ok u st') :
    Local (handle m response limits f) st u st' := by
  unfold handle at h ⊢
  by_cases h4 : f.kind = 4
  · rw [if_pos h4] at h ⊢
    obtain ⟨entries, st1, hs, h⟩ := (Act.bind_ok_iff _ _ _ _ _).1 h
    obtain ⟨_, st2, ho, hw⟩ := (Act.bind_ok_iff _ _ _ _ _).1 h
    exact (local_liftM hs).bind ((local_onOther ho).bind (local_writeFrame hw))
  rw [if_neg h4] at h ⊢
  by_cases h1 : f.kind = 1
  · rw [if_pos h1] at h ⊢
    unfold headersFrame at h ⊢
    obtain ⟨⟨front, padding, fragment⟩, st1, hp, h⟩ := (Act.bind_ok_iff _ _ _ _ _).1 h
    obtain ⟨⟨block, original⟩, st2, hg, h⟩ := (Act.bind_ok_iff _ _ _ _ _).1 h
    obtain ⟨encoded, st3, hd, h⟩ := (Act.bind_ok_iff _ _ _ _ _).1 h
    obtain ⟨frames, st4, hre, hw⟩ := (Act.bind_ok_iff _ _ _ _ _).1 h
    refine (local_liftM hp).bind ((local_gather _ hg).bind ?_)
    exact (local_onDecoder hd).bind ((local_liftM hre).bind (local_writeFrames _ hw))
  rw [if_neg h1] at h ⊢
  by_cases h5 : f.kind = 5
  · rw [if_pos h5] at h
    cases h
  rw [if_neg h5] at h ⊢
  by_cases h9 : f.kind = 9
  · rw [if_pos h9] at h
    cases h
  rw [if_neg h9] at h ⊢
  exact local_writeFrame h

theorem local_pass {m : Mapping U} {response : Bool} {limits : PeerLimits} {st st' : Task D}
    (h : pass m response limits st = .ok true st') :
    Local (pass m response limits) st true st' := by
  unfold pass at h ⊢
  obtain ⟨frame, st1, hr, h⟩ := (Act.bind_ok_iff _ _ _ _ _).1 h
  cases frame with
  | none =>
    obtain ⟨h0, -⟩ := (Act.pure_ok_iff _ _ _ _).1 h
    cases h0
  | some f =>
    obtain ⟨_, st2, hh, h⟩ := (Act.bind_ok_iff _ _ _ _ _).1 h
    obtain ⟨-, rfl⟩ := (Act.pure_ok_iff _ _ _ _).1 h
    exact (local_readFrame hr).bind ((local_handle hh).bind (local_pure _ _))

/-! ## The stream up to the item that fails -/

theorem directionLoop_nil (m : Mapping U) (response : Bool) (loads : Nat → PeerLimits)
    (fuel i : Nat) (st : Task D) (h : st.input = []) : directionLoop m response loads fuel i st = .ok () st := by
  cases fuel with
  | zero => rfl
  | succ fuel =>
    have hread : readFrame st = .ok none st := by
      unfold readFrame
      rw [h]
      rfl
    have hpass : pass m response (loads i) st = .ok false st := by
      unfold pass
      exact (Act.bind_ok_iff _ _ _ _ _).2 ⟨none, st, hread, rfl⟩
    unfold directionLoop
    exact (Act.bind_ok_iff _ _ _ _ _).2 ⟨false, st, hpass, rfl⟩

/-- The loop went from `st` to `st0` over the items `xs`, and ends well there if nothing follows. -/
structure Reached (m : Mapping U) (response : Bool) (loads : Nat → PeerLimits) (i : Nat)
    (st : Task D) (xs : List Item) (outs : List (List Frame)) (st0 : Task D) : Prop where
  input : st.input = (xs.flatMap Item.frames).flatMap Frame.encode ++ st0.input
  output : st0.output = st.output ++ outs.flatten.flatMap Frame.encode
  forwarded : Forwarded m response loads i st.decoder xs outs
  stops : ∀ fuel, ((xs.flatMap Item.frames).flatMap Frame.encode).length < fuel →
    directionLoop m response loads fuel i
      { st with input := (xs.flatMap Item.frames).flatMap Frame.encode } =
        .ok () { st0 with input := [] }

theorem reached_nil (m : Mapping U) (response : Bool) (loads : Nat → PeerLimits) (i : Nat)
    (st : Task D) : Reached m response loads i st [] [] st where
  input := rfl
  output := (List.append_nil _).symm
  forwarded := trivial
  stops fuel _ := directionLoop_nil m response loads fuel i _ rfl

theorem Reached.cons {m : Mapping U} {response : Bool} {loads : Nat → PeerLimits} {i : Nat}
    {st st1 st0 : Task D} {x : Item} {xs : List Item} {out : List Frame} {outs : List (List Frame)}
    (hp : pass m response (loads i) st = .ok true st1)
    (hs : PassStep m response (loads i) st x out st1)
    (h : Reached m response loads (i + 1) st1 xs outs st0) :
    Reached m response loads i st (x :: xs) (out :: outs) st0 where
  input := by rw [hs.input, h.input, List.flatMap_cons, List.flatMap_append, List.append_assoc]
  output := by
    rw [h.output, hs.output, List.flatten_cons, List.flatMap_append, List.append_assoc]
  forwarded := ⟨st1.decoder, hs.passed, h.forwarded⟩
  stops fuel hlt := by
    rw [List.flatMap_cons, List.flatMap_append] at hlt ⊢
    obtain ⟨w, hw, hrun⟩ := local_pass hp
    obtain rfl : x.frames.flatMap Frame.encode = w := by
      rw [hs.input] at hw
      exact List.append_cancel_right hw
    have hpos := List.length_pos_iff.2 x.encode_ne_nil
    rw [List.length_append] at hlt
    cases fuel with
    | zero => exact absurd hlt (Nat.not_lt_zero _)
    | succ fuel =>
      have hrest : ((xs.flatMap Item.frames).flatMap Frame.encode).length < fuel := by omega
      unfold directionLoop
      exact (Act.bind_ok_iff _ _ _ _ _).2 ⟨true, _, hrun _, h.stops fuel hrest⟩

/-- A loop that fails does so in one pass, at the item it has reached. -/
theorem directionLoop_error (m : Mapping U) (response : Bool) (loads : Nat → PeerLimits) :
    ∀ (fuel i : Nat) (st st' : Task D) (e : Fault), st.input.length < fuel →
      directionLoop m response loads fuel i st = .error e st' →
      ∃ xs outs st0, Reached m response loads i st xs outs st0 ∧
        pass m response (loads (i + xs.length)) st0 = .error e st' := by
  intro fuel
  induction fuel with
  | zero => exact fun i st st' e hlt => absurd hlt (Nat.not_lt_zero _)
  | succ fuel ih =>
    intro i st st' e hlt h
    unfold directionLoop at h
    rcases (Act.bind_error_iff _ _ _ _ _).1 h with hfail | ⟨b, st1, hp, hrest⟩
    · exact ⟨[], [], st, reached_nil m response loads i st, hfail⟩
    rcases pass_ok m response (loads i) st st1 b hp with ⟨rfl, -, -⟩ | ⟨rfl, x, out, hstep⟩
    · exact (Act.pure_ne_error _ _ _ _ hrest).elim
    · have hshort : st1.input.length < fuel := by
        have := congrArg List.length hstep.input
        rw [List.length_append] at this
        have := List.length_pos_iff.2 x.encode_ne_nil
        omega
      obtain ⟨xs, outs, st0, hreach, hfail⟩ := ih (i + 1) st1 st' e hshort hrest
      refine ⟨x :: xs, out :: outs, st0, hreach.cons hp hstep, ?_⟩
      rw [List.length_cons, Nat.add_comm xs.length 1, ← Nat.add_assoc]
      exact hfail

theorem local_preface {response : Bool} {st st' : Task D} {u : Unit}
    (h : preface response st = .ok u st') : Local (preface response) st u st' := by
  obtain ⟨hin, hst⟩ := preface_ok _ _ _ _ h
  refine ⟨opening response, hin, fun t => ?_⟩
  cases response with
  | true =>
    obtain ⟨-, rfl⟩ := (Act.pure_ok_iff _ _ _ _).1 h
    rfl
  | false =>
    rw [hst]
    rfl

/-- What `direction` had read and written when it failed: the preface and `xs`, for which it
wrote `outs`; on these alone it ends well, having written the same.  The pass over what
follows failed. -/
structure FailedAfter (m : Mapping U) (response : Bool) (loads : Nat → PeerLimits) (input : Bytes)
    (other : PeerLimits) (e : Fault) (st : Task D) (xs : List Item) (outs : List (List Frame))
    (rest : Bytes) (st0 : Task D) : Prop where
  input : input = opening response ++ (xs.flatMap Item.frames).flatMap Frame.encode ++ rest
  output : st.output = opening response ++ outs.flatten.flatMap Frame.encode
  forwarded : Forwarded m response loads 0 (HeaderRewriter.new D) xs outs
  stops : direction m response loads
    (Task.new D (opening response ++ (xs.flatMap Item.frames).flatMap Frame.encode) other) =
      .ok () st0
  complete : st.output = st0.output
  fails : pass m response (loads xs.length) { st0 with input := rest } = .error e st

/-- A direction that fails has written what it writes for what is before the item it fails on. -/
theorem direction_atomic (m : Mapping U) (response : Bool) (loads : Nat → PeerLimits)
    (input : Bytes) (other : PeerLimits) (e : Fault) (st : Task D)
    (h : direction m response loads (Task.new D input other) = .error e st) :
    (preface response (Task.new D input other) = .error e st ∧ st.output = []) ∨
      ∃ xs outs rest st0, FailedAfter m response loads input other e st xs outs rest st0 := by
  unfold direction at h
  rcases (Act.bind_error_iff _ _ _ _ _).1 h with hfail | ⟨u, st1, hpre, h⟩
  · exact Or.inl ⟨hfail, preface_error _ _ _ _ hfail⟩
  right
  rcases (Act.bind_error_iff _ _ _ _ _).1 h with hget | ⟨b, st2, hget, h⟩
  · cases hget
  cases hget
  obtain ⟨hin, hst⟩ := preface_ok _ _ _ _ hpre
  have hout : st1.output = opening response := by rw [hst]; rfl
  have hdec : st1.decoder = HeaderRewriter.new D := by rw [hst]; rfl
  obtain ⟨w, hw, hrun⟩ := local_preface hpre
  obtain rfl : opening response = w := List.append_cancel_right (hin.symm.trans hw)
  obtain ⟨xs, outs, st0, hreach, hfail⟩ :=
    directionLoop_error m response loads _ 0 _ _ _ (Nat.lt_succ_self _) h
  rw [Nat.zero_add] at hfail
  have hwrote : st.output = st0.output := pass_error _ _ _ _ _ _ hfail
  refine ⟨xs, outs, st0.input, { st0 with input := [] }, ?_, ?_, hdec ▸ hreach.forwarded, ?_,
    hwrote, hfail⟩
  · rw [List.append_assoc, ← hreach.input]
    exact hin
  · rw [hwrote, hreach.output, hout]
  · unfold direction
    refine (Act.bind_ok_iff _ _ _ _ _).2 ⟨u, _, hrun _, ?_⟩
    exact (Act.bind_ok_iff _ _ _ _ _).2 ⟨_, _, rfl, hreach.stops _ (Nat.lt_succ_self _)⟩

end H2
