import FingerprintBridge.H2.Group
import FingerprintBridge.Wire.Transparency

/-!
# HTTP/2 direction transparency

The loop of `direction` copies single frames and puts a group for each group.
`Passed` says what one pass does to the frames it reads, `pass_ok` and
`pass_error` that every pass is one of these or writes nothing, and
`direction_forwards` what a whole stream becomes.
-/

namespace H2

open HpackWire (HpackCrate HeaderRewriter)

/-! ## What a pass reads and writes -/

/-- What one pass of the loop reads: a frame, or a HEADERS frame with its CONTINUATIONs. -/
inductive Item where
  | single (frame : Frame)
  | group (first : Frame) (rest : List Frame)

def Item.frames : Item → List Frame
  | .single frame => [frame]
  | .group first rest => first :: rest

theorem Item.encode_ne_nil (x : Item) : x.frames.flatMap Frame.encode ≠ [] := by
  cases x with
  | single f => simpa [Item.frames] using Frame.encode_ne_nil f
  | group f rest =>
    rw [Item.frames, List.flatMap_cons]
    exact fun h => Frame.encode_ne_nil f (List.append_eq_nil_iff.1 h).1

section
variable {D : HpackCrate} {U : UrlCrate}

/-- The group `first' :: rest'` in place of `first :: rest`: the same stream, flags
(END_HEADERS apart), priority and padding; the block is the rewritten one. -/
structure Regrouped (m : Mapping U) (response : Bool) (limits : PeerLimits) (st : HeaderRewriter D)
    (first : Frame) (rest : List Frame) (first' : Frame) (rest' : List Frame)
    (st' : HeaderRewriter D) : Prop where
  read : IsGroup first rest
  wrote : IsGroup first' rest'
  stream : first'.stream = first.stream
  flags : first'.flags ||| 4 = first.flags ||| 4
  block : ∃ front padding fragment fragment', Parts first front padding fragment ∧
    Parts first' front padding fragment' ∧
    HpackWire.rewrite (fragment ++ rest.flatMap Frame.payload) m response limits.table st =
      .ok (fragment' ++ rest'.flatMap Frame.payload) st'
  length : ∀ f ∈ first' :: rest', f.payload.length ≤ limits.frame

/-- What a pass makes of what it read. -/
def Passed (m : Mapping U) (response : Bool) (limits : PeerLimits) (st : HeaderRewriter D) :
    Item → List Frame → HeaderRewriter D → Prop
  | .single frame, out, st' => frame.kind ≠ 1 ∧ frame.kind ≠ 5 ∧ frame.kind ≠ 9 ∧ out = [frame] ∧
      st' = st
  | .group first rest, out, st' => ∃ first' rest', out = first' :: rest' ∧
      Regrouped m response limits st first rest first' rest' st'

/-! ## SETTINGS -/

/-- The limits after the entries of a SETTINGS frame, the last of each kind counting. -/
def applySettings : List (UInt16 × UInt32) → PeerLimits → PeerLimits
  | [], limits => limits
  | (id, value) :: entries, limits => applySettings entries
      (if id = 1 then { limits with table := value.toNat }
        else if id = 5 then { limits with frame := value.toNat } else limits)

/-- The entries a frame advertises; a SETTINGS frame that is not an acknowledgement has some. -/
def advertised (frame : Frame) : List (UInt16 × UInt32) :=
  if frame.kind = 4 then
    match settings frame with
    | .ok entries => entries
    | .error _ => []
  else []

theorem storeSetting_ok (id : UInt16) (value : UInt32) (limits limits' : PeerLimits) (u : Unit)
    (h : storeSetting id value limits = .ok u limits') :
    limits' = (if id = 1 then { limits with table := value.toNat }
      else if id = 5 then { limits with frame := value.toNat } else limits) := by
  unfold storeSetting at h
  by_cases h1 : id = 1
  · rw [if_pos h1] at h ⊢
    cases h
    rfl
  · rw [if_neg h1] at h ⊢
    by_cases h5 : id = 5
    · rw [if_pos h5] at h ⊢
      simp only [Act.bind_ok_iff, Act.liftM_ok_iff] at h
      obtain ⟨_, _, ⟨-, rfl⟩, hm⟩ := h
      cases hm
      rfl
    · rw [if_neg h5] at h ⊢
      exact ((Act.pure_ok_iff _ _ _ _).1 h).2

theorem storeSettings_ok (entries : List (UInt16 × UInt32)) : ∀ (limits limits' : PeerLimits)
    (u : Unit), storeSettings entries limits = .ok u limits' →
      limits' = applySettings entries limits := by
  induction entries with
  | nil =>
    intro limits limits' u h
    exact ((Act.pure_ok_iff _ _ _ _).1 h).2
  | cons e entries ih =>
    intro limits limits' u h
    obtain ⟨id, value⟩ := e
    obtain ⟨_, l1, h1, h2⟩ := (Act.bind_ok_iff _ _ _ _ _).1 h
    rw [applySettings, ← storeSetting_ok id value _ _ _ h1]
    exact ih _ _ _ h2

/-! ## Reading and writing -/

theorem readFrame_ok (st st' : Task D) (r : Option Frame) (h : readFrame st = .ok r st') :
    (r = none ∧ st.input = [] ∧ st' = st) ∨
      ∃ f, r = some f ∧ f.payload.length ≤ Frame.MAX_BLOCK ∧ st.input = f.encode ++ st'.input ∧
        st' = { st with input := st'.input } := by
  unfold readFrame at h
  split at h
  · next f rest hr =>
    cases h
    obtain ⟨hp, hl⟩ := Frame.read_ok _ _ _ hr
    exact Or.inr ⟨f, rfl, hl, (Frame.encode_parse _ _ _ hp).2, rfl⟩
  · next hr =>
    cases h
    exact Or.inl ⟨rfl, Frame.read_none _ hr, rfl⟩
  · cases h

theorem readFrame_error (st st' : Task D) (e : Fault) (h : readFrame st = .error e st') :
    st' = st := by
  unfold readFrame at h
  split at h
  · cases h
  · cases h
  · cases h
    rfl

theorem wellFormed_of_read (f : Frame) (h : f.payload.length ≤ Frame.MAX_BLOCK) : f.WellFormed := by
  unfold Frame.WellFormed
  have : Frame.MAX_BLOCK = 2 ^ 20 := rfl
  omega

theorem writeFrame_eq (f : Frame) (hf : f.WellFormed) (st : Task D) :
    writeFrame f st = .ok () { st with output := st.output ++ f.encode } := by
  unfold writeFrame
  rw [Frame.write_eq f hf]
  rfl

theorem writeFrames_eq (fs : List Frame) (hf : ∀ f ∈ fs, f.WellFormed) (st : Task D) :
    writeFrames fs st = .ok () { st with output := st.output ++ fs.flatMap Frame.encode } := by
  induction fs generalizing st with
  | nil => simp [writeFrames, pure, EStateM.pure]
  | cons f fs ih =>
    unfold writeFrames
    rw [Act.bind_ok_iff]
    refine ⟨(), _, writeFrame_eq f (hf f List.mem_cons_self) st, ?_⟩
    rw [ih fun g hg => hf g (List.mem_cons_of_mem _ hg)]
    simp

theorem nextContinuation_ok (block : Bytes) (original : List Frame) (st st' : Task D) (next : Frame)
    (h : nextContinuation block original st = .ok next st') :
    next.payload.length ≤ Frame.MAX_BLOCK ∧ st.input = next.encode ++ st'.input ∧
      st' = { st with input := st'.input } ∧ next.kind = 9 ∧
      ∃ first others, original = first :: others ∧ next.stream = first.stream := by
  unfold nextContinuation at h
  simp only [Act.bind_ok_iff, Act.liftM_ok_iff] at h
  obtain ⟨frame, st1, hr, next', _, ⟨hn, rfl⟩, first, _, ⟨hf, rfl⟩, _, _, ⟨hc, rfl⟩, _, _, ⟨-, rfl⟩,
    h⟩ := h
  obtain ⟨rfl, rfl⟩ := (Act.pure_ok_iff _ _ _ _).1 h
  rw [Res.ensure_ok_iff] at hc
  rw [Res.okOr_ok_iff] at hn
  rcases readFrame_ok _ _ _ hr with ⟨hnone, -⟩ | ⟨f, hsome, hlen, hin, hst⟩
  · rw [hn] at hnone
    cases hnone
  · rw [hn] at hsome
    cases hsome
    refine ⟨hlen, hin, hst, hc.1, ?_⟩
    cases original with
    | nil => cases hf
    | cons f others =>
      cases hf
      exact ⟨_, others, rfl, hc.2⟩

/-- A failing read of a frame changes what is left to read, if anything. -/
theorem nextContinuation_error (block : Bytes) (original : List Frame) (st st' : Task D) (e : Fault)
    (h : nextContinuation block original st = .error e st') :
    st' = { st with input := st'.input } := by
  unfold nextContinuation at h
  rcases (Act.bind_error_iff _ _ _ _ _).1 h with h | ⟨frame, st1, hr, h⟩
  · rw [readFrame_error _ _ _ h]
  · have hst : st1 = { st with input := st1.input } := by
      rcases readFrame_ok _ _ _ hr with ⟨-, -, rfl⟩ | ⟨f, -, -, -, hst⟩
      · rfl
      · exact hst
    simp only [Act.bind_error_iff, Act.liftM_error_iff, Act.liftM_ok_iff] at h
    rcases h with ⟨-, rfl⟩ | ⟨_, _, ⟨-, rfl⟩, h⟩
    · exact hst
    · rcases h with ⟨-, rfl⟩ | ⟨_, _, ⟨-, rfl⟩, h⟩
      · exact hst
      · rcases h with ⟨-, rfl⟩ | ⟨_, _, ⟨-, rfl⟩, h⟩
        · exact hst
        · rcases h with ⟨-, rfl⟩ | ⟨_, _, ⟨-, rfl⟩, h⟩
          · exact hst
          · exact (Act.pure_ne_error _ _ _ _ h).elim

/-! ## Gathering a group -/

/-- The frames that follow, as `gather` collects them. -/
structure Gathered (flags : UInt8) (block : Bytes) (original more : List Frame) (st st' : Task D)
    (r : Bytes × List Frame) : Prop where
  frames : r.2 = original ++ more
  block : r.1 = block ++ more.flatMap Frame.payload
  input : st.input = more.flatMap Frame.encode ++ st'.input
  state : st' = { st with input := st'.input }
  continuation : ∀ f ∈ more, f.WellFormed ∧ f.kind = 9 ∧
    ∀ first, original.head? = some first → f.stream = first.stream
  ends : (endsHeaders flags = true ∧ more = []) ∨ (endsHeaders flags = false ∧ endsOnce more = true)

theorem gathered_nil (flags : UInt8) (block : Bytes) (original : List Frame) (st : Task D)
    (h : endsHeaders flags = true) :
    Gathered flags block original [] st st (block, original) where
  frames := by simp
  block := by simp
  input := by simp
  state := rfl
  continuation := fun f hf => by cases hf
  ends := Or.inl ⟨h, rfl⟩

theorem gather_ok : ∀ (room : Nat) (flags : UInt8) (block : Bytes) (original : List Frame)
    (st st' : Task D) (r : Bytes × List Frame),
    gather room flags block original st = .ok r st' →
    ∃ more, Gathered flags block original more st st' r := by
  intro room
  induction room with
  | zero =>
    intro flags block original st st' r h
    unfold gather at h
    split at h
    · next he =>
      obtain ⟨rfl, rfl⟩ := (Act.pure_ok_iff _ _ _ _).1 h
      exact ⟨[], gathered_nil _ _ _ _ he⟩
    · -- the check on the number of frames fails after one more
      obtain ⟨next, st1, -, h⟩ := (Act.bind_ok_iff _ _ _ _ _).1 h
      cases h
  | succ room ih =>
    intro flags block original st st' r h
    unfold gather at h
    split at h
    · next he =>
      obtain ⟨rfl, rfl⟩ := (Act.pure_ok_iff _ _ _ _).1 h
      exact ⟨[], gathered_nil _ _ _ _ he⟩
    · next he =>
      obtain ⟨next, st1, hn, h⟩ := (Act.bind_ok_iff _ _ _ _ _).1 h
      obtain ⟨hlen, hin, hst, hkind, first, others, rfl, hstream⟩ := nextContinuation_ok _ _ _ _ _ hn
      obtain ⟨more, g⟩ := ih _ _ _ _ _ _ h
      refine ⟨next :: more, ?_, ?_, ?_, ?_, ?_, Or.inr ⟨by simpa using he, ?_⟩⟩
      · rw [g.frames, List.append_assoc]
        rfl
      · rw [g.block, List.flatMap_cons, List.append_assoc]
      · rw [hin, g.input, List.flatMap_cons, List.append_assoc]
      · rw [g.state, hst]
      · intro f hf
        rcases List.mem_cons.1 hf with rfl | hf
        · refine ⟨wellFormed_of_read _ hlen, hkind, fun first' hfirst' => ?_⟩
          cases hfirst'
          exact hstream
        · exact g.continuation f hf
      · rcases g.ends with ⟨he', rfl⟩ | ⟨he', hmore⟩
        · exact he'
        · rw [endsOnce_cons _ _ (fun hnil => by rw [hnil] at hmore; cases hmore), he', hmore]
          rfl

/-- A group that is not gathered fails at one of its frames. -/
theorem gather_fails : ∀ (room : Nat) (flags : UInt8) (block : Bytes) (original : List Frame)
    (st st' : Task D) (e : Fault), gather room flags block original st = .error e st' →
    ∃ block' original' st₁, st₁ = { st with input := st₁.input } ∧
      (nextContinuation block' original' st₁ = .error e st' ∨
        e = .err "too many CONTINUATION frames" ∧ st' = st₁) := by
  intro room
  induction room with
  | zero =>
    intro flags block original st st' e h
    unfold gather at h
    split at h
    · exact (Act.pure_ne_error _ _ _ _ h).elim
    · rcases (Act.bind_error_iff _ _ _ _ _).1 h with h | ⟨next, st₁, hn, h⟩
      · exact ⟨block, original, st, rfl, Or.inl h⟩
      · cases h
        exact ⟨block, original, st', (nextContinuation_ok _ _ _ _ _ hn).2.2.1, Or.inr ⟨rfl, rfl⟩⟩
  | succ room ih =>
    intro flags block original st st' e h
    unfold gather at h
    split at h
    · exact (Act.pure_ne_error _ _ _ _ h).elim
    · rcases (Act.bind_error_iff _ _ _ _ _).1 h with h | ⟨next, st₁, hn, h⟩
      · exact ⟨block, original, st, rfl, Or.inl h⟩
      · obtain ⟨block', original', st₂, hst, h⟩ := ih _ _ _ _ _ _ h
        rw [(nextContinuation_ok _ _ _ _ _ hn).2.2.1] at hst
        exact ⟨block', original', st₂, hst, h⟩

theorem gather_error (room : Nat) (flags : UInt8) (block : Bytes) (original : List Frame)
    (st st' : Task D) (e : Fault) (h : gather room flags block original st = .error e st') :
    st' = { st with input := st'.input } := by
  obtain ⟨block', original', st₁, hst, h | ⟨-, rfl⟩⟩ := gather_fails _ _ _ _ _ _ _ h
  · rw [nextContinuation_error _ _ _ _ _ h, hst]
  · exact hst

/-! ## One pass -/

/-- A pass that read `x` and wrote `out`. -/
structure PassStep (m : Mapping U) (response : Bool) (limits : PeerLimits) (st : Task D) (x : Item)
    (out : List Frame) (st' : Task D) : Prop where
  input : st.input = x.frames.flatMap Frame.encode ++ st'.input
  output : st'.output = st.output ++ out.flatMap Frame.encode
  passed : Passed m response limits st.decoder x out st'.decoder
  other : st'.other = applySettings (x.frames.flatMap advertised) st.other
  read : ∀ f ∈ x.frames, f.WellFormed
  wrote : ∀ f ∈ out, f.WellFormed

theorem advertised_of_ne (f : Frame) (h : f.kind ≠ 4) : advertised f = [] := by
  unfold advertised
  rw [if_neg h]

theorem settingsFrame_ok (f : Frame) (hk : f.kind = 4) (hf : f.WellFormed) (st st' : Task D)
    (u : Unit) (h : settingsFrame f st = .ok u st') :
    st' = { st with
      output := st.output ++ f.encode, other := applySettings (advertised f) st.other } := by
  unfold settingsFrame at h
  simp only [Act.bind_ok_iff, Act.liftM_ok_iff] at h
  obtain ⟨entries, _, ⟨hs, rfl⟩, _, st1, ho, hw⟩ := h
  obtain ⟨limits, hl, rfl⟩ := (Act.zoom_ok_iff _ _ _ _ _ _).1 ho
  rw [writeFrame_eq f hf] at hw
  cases hw
  have hadv : advertised f = entries := by
    unfold advertised
    rw [if_pos hk, hs]
  rw [storeSettings_ok _ _ _ _ hl, hadv]

theorem settingsFrame_error (f : Frame) (hf : f.WellFormed) (st st' : Task D) (e : Fault)
    (h : settingsFrame f st = .error e st') : st'.output = st.output := by
  unfold settingsFrame at h
  simp only [Act.bind_error_iff, Act.liftM_error_iff, Act.liftM_ok_iff] at h
  rcases h with ⟨-, rfl⟩ | ⟨_, _, ⟨-, rfl⟩, h | ⟨_, st1, -, h⟩⟩
  · rfl
  · obtain ⟨limits, -, rfl⟩ := (Act.zoom_error_iff _ _ _ _ _ _).1 h
    rfl
  · rw [writeFrame_eq f hf] at h
    cases h

/-- A successful group: what was gathered, rewritten and spread over frames. -/
theorem headersFrame_ok (m : Mapping U) (response : Bool) (limits : PeerLimits) (first : Frame)
    (hf : first.WellFormed) (st st' : Task D) (u : Unit)
    (h : headersFrame m response limits first st = .ok u st') :
    ∃ rest out, PassStep m response limits { st with input := first.encode ++ st.input }
      (.group first rest) out st' := by
  unfold headersFrame at h
  simp only [Act.bind_ok_iff, Act.liftM_ok_iff] at h
  obtain ⟨⟨front, padding, fragment⟩, _, ⟨hparts, rfl⟩, ⟨block, original⟩, st1, hg, encoded, st2, hd,
    frames, _, ⟨hre, rfl⟩, hw⟩ := h
  have hp := headerParts_ok _ _ _ _ hparts
  obtain ⟨rest, g⟩ := gather_ok _ _ _ _ _ _ _ hg
  obtain ⟨decoder, hrw, rfl⟩ := (Act.zoom_ok_iff _ _ _ _ _ _).1 hd
  have horig : original = first :: rest := g.frames
  have hblock : block = fragment ++ rest.flatMap Frame.payload := g.block
  have hstate := g.state
  subst horig hblock
  obtain ⟨first', rest', fragment', rfl, hgroup, hstream, hflags, hparts', henc, hlen⟩ :=
    reframe_ok first rest frames encoded front padding fragment limits.frame hp hre
  have hlim := reframe_limit _ _ _ _ hre
  have hwf : ∀ f ∈ first' :: rest', f.WellFormed := fun f hf => by
    have := hlen f hf
    unfold Frame.WellFormed
    omega
  rw [writeFrames_eq _ hwf] at hw
  cases hw
  have hends : endsOnce (first :: rest) = true := by
    rcases g.ends with ⟨he, rfl⟩ | ⟨he, hrest⟩
    · exact he
    · rw [endsOnce_cons _ _ (fun hnil => by rw [hnil] at hrest; cases hrest), he, hrest]
      rfl
  have hcont : ∀ f ∈ rest, f.WellFormed ∧ f.kind = 9 ∧ f.stream = first.stream := fun f hf =>
    ⟨(g.continuation f hf).1, (g.continuation f hf).2.1, (g.continuation f hf).2.2 first rfl⟩
  have hadv : (first :: rest).flatMap advertised = [] := by
    rw [List.flatMap_eq_nil_iff]
    intro f hf
    rcases List.mem_cons.1 hf with rfl | hf
    · exact advertised_of_ne _ (by rw [hp.kind]; decide)
    · exact advertised_of_ne _ (by rw [(hcont f hf).2.1]; decide)
  have hinput : st.input = rest.flatMap Frame.encode ++ st1.input := g.input
  have hout : st1.output = st.output := by rw [hstate]
  have hdec : st1.decoder = st.decoder := by rw [hstate]
  have hother : st1.other = st.other := by rw [hstate]
  refine ⟨rest, first' :: rest', ?_, ?_, ?_, ?_, ?_, hwf⟩
  · show first.encode ++ st.input = (first :: rest).flatMap Frame.encode ++ st1.input
    rw [List.flatMap_cons, hinput, List.append_assoc]
  · show st1.output ++ _ = st.output ++ _
    rw [hout]
  · refine ⟨first', rest', rfl, ⟨fun f hf => (hcont f hf).2, hends⟩, hgroup, hstream, hflags,
      ⟨front, padding, fragment, fragment', hp, hparts', ?_⟩, hlen⟩
    rw [← henc]
    show HpackWire.rewrite _ m response limits.table st.decoder = _
    rw [← hdec]
    exact hrw
  · show st1.other = applySettings ((first :: rest).flatMap advertised) st.other
    rw [hadv, hother]
    rfl
  · intro f hfm
    rcases List.mem_cons.1 hfm with rfl | hfm
    · exact hf
    · exact (hcont f hfm).1

theorem headersFrame_error (m : Mapping U) (response : Bool) (limits : PeerLimits) (first : Frame)
    (st st' : Task D) (e : Fault) (h : headersFrame m response limits first st = .error e st') :
    st'.output = st.output := by
  unfold headersFrame at h
  simp only [Act.bind_error_iff, Act.liftM_error_iff, Act.liftM_ok_iff] at h
  rcases h with ⟨-, rfl⟩ | ⟨⟨front, padding, fragment⟩, _, ⟨hparts, rfl⟩, h⟩
  · rfl
  rcases h with h | ⟨⟨block, original⟩, st1, hg, h⟩
  · rw [gather_error _ _ _ _ _ _ _ h]
  obtain ⟨rest, g⟩ := gather_ok _ _ _ _ _ _ _ hg
  have hout : st1.output = st.output := by rw [g.state]
  rcases h with h | ⟨encoded, st2, hd, h⟩
  · obtain ⟨decoder, -, rfl⟩ := (Act.zoom_error_iff _ _ _ _ _ _).1 h
    exact hout
  obtain ⟨decoder, -, rfl⟩ := (Act.zoom_ok_iff _ _ _ _ _ _).1 hd
  rcases h with ⟨-, rfl⟩ | ⟨frames, _, ⟨hre, rfl⟩, hw⟩
  · exact hout
  -- the frames `reframe` returns are not too long to write
  have horig : original = first :: rest := g.frames
  subst horig
  obtain ⟨first', rest', fragment', rfl, -, -, -, -, -, hlen⟩ :=
    reframe_ok first rest frames encoded front padding fragment limits.frame
      (headerParts_ok _ _ _ _ hparts) hre
  have hlim := reframe_limit _ _ _ _ hre
  rw [writeFrames_eq _ fun f hf => by
    have := hlen f hf
    unfold Frame.WellFormed
    omega] at hw
  cases hw

theorem handle_ok (m : Mapping U) (response : Bool) (limits : PeerLimits) (f : Frame)
    (hf : f.WellFormed) (st st' : Task D) (u : Unit)
    (h : handle m response limits f st = .ok u st') :
    ∃ x out, PassStep m response limits { st with input := f.encode ++ st.input } x out st' := by
  have hsingle : ∀ g ∈ [f], g.WellFormed := fun g hg => by rw [List.mem_singleton.1 hg]; exact hf
  unfold handle at h
  by_cases h4 : f.kind = 4
  · rw [if_pos h4] at h
    obtain rfl := settingsFrame_ok f h4 hf st st' u h
    refine ⟨.single f, [f], ?_, ?_, ⟨?_, ?_, ?_, rfl, rfl⟩, ?_, hsingle, hsingle⟩
    · simp [Item.frames]
    · simp
    · rw [h4]; decide
    · rw [h4]; decide
    · rw [h4]; decide
    · simp [Item.frames]
  · rw [if_neg h4] at h
    by_cases h1 : f.kind = 1
    · rw [if_pos h1] at h
      obtain ⟨rest, out, hstep⟩ := headersFrame_ok m response limits f hf st st' u h
      exact ⟨_, out, hstep⟩
    · rw [if_neg h1] at h
      by_cases h5 : f.kind = 5
      · rw [if_pos h5] at h
        cases h
      · rw [if_neg h5] at h
        by_cases h9 : f.kind = 9
        · rw [if_pos h9] at h
          cases h
        · rw [if_neg h9, writeFrame_eq f hf] at h
          cases h
          refine ⟨.single f, [f], ?_, ?_, ⟨h1, h5, h9, rfl, rfl⟩, ?_, hsingle, hsingle⟩
          · simp [Item.frames]
          · simp
          · simp [Item.frames, advertised_of_ne f h4, applySettings]

theorem handle_error (m : Mapping U) (response : Bool) (limits : PeerLimits) (f : Frame)
    (hf : f.WellFormed) (st st' : Task D) (e : Fault)
    (h : handle m response limits f st = .error e st') : st'.output = st.output := by
  unfold handle at h
  by_cases h4 : f.kind = 4
  · rw [if_pos h4] at h
    exact settingsFrame_error f hf _ _ _ h
  · rw [if_neg h4] at h
    by_cases h1 : f.kind = 1
    · rw [if_pos h1] at h
      exact headersFrame_error m response limits f _ _ _ h
    · rw [if_neg h1] at h
      by_cases h5 : f.kind = 5
      · rw [if_pos h5] at h
        cases h
        rfl
      · rw [if_neg h5] at h
        by_cases h9 : f.kind = 9
        · rw [if_pos h9] at h
          cases h
          rfl
        · rw [if_neg h9, writeFrame_eq f hf] at h
          cases h

/-- **What one pass can do**: stop at the end of the input, or pass something on. -/
theorem pass_ok (m : Mapping U) (response : Bool) (limits : PeerLimits) (st st' : Task D) (b : Bool)
    (h : pass m response limits st = .ok b st') :
    (b = false ∧ st.input = [] ∧ st' = st) ∨
      (b = true ∧ ∃ x out, PassStep m response limits st x out st') := by
  unfold pass at h
  obtain ⟨frame, st1, hr, hrest⟩ := (Act.bind_ok_iff _ _ _ _ _).1 h
  rcases readFrame_ok _ _ _ hr with ⟨rfl, hin, rfl⟩ | ⟨f, rfl, hlen, hin, hst⟩
  · obtain ⟨rfl, rfl⟩ := (Act.pure_ok_iff _ _ _ _).1 hrest
    exact Or.inl ⟨rfl, hin, rfl⟩
  · simp only [Act.bind_ok_iff] at hrest
    obtain ⟨_, st2, hh, hend⟩ := hrest
    obtain ⟨rfl, rfl⟩ := (Act.pure_ok_iff _ _ _ _).1 hend
    obtain ⟨x, out, hstep⟩ := handle_ok m response limits f (wellFormed_of_read f hlen) st1 _ _ hh
    have hback : ({ st1 with input := f.encode ++ st1.input } : Task D) = st := by
      rw [← hin, hst]
    rw [hback] at hstep
    exact Or.inr ⟨rfl, x, out, hstep⟩

/-- A pass that fails has written nothing. -/
theorem pass_error (m : Mapping U) (response : Bool) (limits : PeerLimits) (st st' : Task D)
    (e : Fault) (h : pass m response limits st = .error e st') : st'.output = st.output := by
  unfold pass at h
  rcases (Act.bind_error_iff _ _ _ _ _).1 h with hread | ⟨frame, st1, hr, hrest⟩
  · rw [readFrame_error _ _ _ hread]
  · rcases readFrame_ok _ _ _ hr with ⟨rfl, -, rfl⟩ | ⟨f, rfl, hlen, -, hst⟩
    · exact (Act.pure_ne_error _ _ _ _ hrest).elim
    · simp only [Act.bind_error_iff] at hrest
      have hout : st1.output = st.output := by rw [hst]
      rcases hrest with hh | ⟨_, st2, -, hend⟩
      · rw [handle_error m response limits f (wellFormed_of_read f hlen) _ _ _ hh, hout]
      · exact (Act.pure_ne_error _ _ _ _ hend).elim

/-! ## A whole stream -/

/-- The `i`-th pass and those after it, one item and what was written for it each. -/
def Forwarded (m : Mapping U) (response : Bool) (loads : Nat → PeerLimits) :
    (i : Nat) → HeaderRewriter D → List Item → List (List Frame) → Prop
  | _, _, [], [] => True
  | i, st, x :: xs, out :: outs => ∃ st1, Passed m response (loads i) st x out st1 ∧
      Forwarded m response loads (i + 1) st1 xs outs
  | _, _, _, _ => False

/-- The octets of a sequence of frames, and the sequence they are read as. -/
structure Stream (b : Bytes) (fs : List Frame) : Prop where
  encoded : b = fs.flatMap Frame.encode
  parsed : Parser.all Frame.parse b = some fs

theorem stream_of_wellFormed (fs : List Frame) (h : ∀ f ∈ fs, f.WellFormed) :
    Stream (fs.flatMap Frame.encode) fs := ⟨rfl, Frame.all_parse_encode fs h⟩

theorem directionLoop_ok (m : Mapping U) (response : Bool) (loads : Nat → PeerLimits) :
    ∀ (fuel i : Nat) (st st' : Task D) (u : Unit), st.input.length < fuel →
      directionLoop m response loads fuel i st = .ok u st' →
      ∃ xs outs, st.input = (xs.flatMap Item.frames).flatMap Frame.encode ∧
        st'.output = st.output ++ outs.flatten.flatMap Frame.encode ∧
        Forwarded m response loads i st.decoder xs outs ∧
        (∀ f ∈ xs.flatMap Item.frames, f.WellFormed) ∧ ∀ f ∈ outs.flatten, f.WellFormed := by
  intro fuel
  induction fuel with
  | zero => exact fun i st st' u hlt => absurd hlt (Nat.not_lt_zero _)
  | succ fuel ih =>
    intro i st st' u hlt h
    unfold directionLoop at h
    obtain ⟨b, st1, hp, hrest⟩ := (Act.bind_ok_iff _ _ _ _ _).1 h
    rcases pass_ok m response (loads i) st st1 b hp with ⟨rfl, hin, rfl⟩ | ⟨rfl, x, out, hstep⟩
    · obtain ⟨-, rfl⟩ := (Act.pure_ok_iff _ _ _ _).1 hrest
      exact ⟨[], [], hin, by simp, trivial, fun f hf => by simp at hf, fun f hf => by simp at hf⟩
    · -- the pass read an octet at least
      have hshort : st1.input.length < fuel := by
        have := congrArg List.length hstep.input
        rw [List.length_append] at this
        have := List.length_pos_iff.2 x.encode_ne_nil
        omega
      obtain ⟨xs, outs, h1, h2, h3, h4, h5⟩ := ih (i + 1) st1 st' u hshort hrest
      refine ⟨x :: xs, out :: outs, ?_, ?_, ⟨st1.decoder, hstep.passed, h3⟩, ?_, ?_⟩
      · rw [hstep.input, h1, List.flatMap_cons, List.flatMap_append]
      · rw [h2, hstep.output, List.flatten_cons, List.flatMap_append, List.append_assoc]
      · intro f hf
        rw [List.flatMap_cons] at hf
        rcases List.mem_append.1 hf with hf | hf
        · exact hstep.read f hf
        · exact h4 f hf
      · intro f hf
        rw [List.flatten_cons] at hf
        rcases List.mem_append.1 hf with hf | hf
        · exact hstep.wrote f hf
        · exact h5 f hf

/-- The preface of a direction. -/
def opening (response : Bool) : Bytes := if response then [] else PREFACE

theorem preface_ok (response : Bool) (st st' : Task D) (u : Unit)
    (h : preface response st = .ok u st') : st.input = opening response ++ st'.input ∧
      st' = { st with input := st'.input, output := st.output ++ opening response } := by
  unfold preface opening at *
  cases response with
  | true =>
    obtain ⟨-, rfl⟩ := (Act.pure_ok_iff _ _ _ _).1 h
    exact ⟨rfl, by simp⟩
  | false =>
    simp only [Bool.false_eq_true, if_false] at h ⊢
    simp only [Act.bind_ok_iff, Act.liftM_ok_iff] at h
    obtain ⟨input, st1, hg, _, st2, hr, _, _, ⟨he, rfl⟩, hw⟩ := h
    cases hg
    rw [Res.ensure_ok_iff] at he
    unfold readPreface at hr
    split at hr
    · cases hr
      rw [he] at hw
      cases hw
      refine ⟨?_, rfl⟩
      show st.input = PREFACE ++ st.input.drop 24
      rw [← he, List.take_append_drop]
    · cases hr

theorem preface_error (response : Bool) (st st' : Task D) (e : Fault)
    (h : preface response st = .error e st') : st'.output = st.output := by
  unfold preface at h
  cases response with
  | true => exact (Act.pure_ne_error _ _ _ _ h).elim
  | false =>
    simp only [Bool.false_eq_true, if_false, Act.bind_error_iff, Act.liftM_error_iff,
      Act.liftM_ok_iff] at h
    rcases h with h | ⟨input, st1, hg, h⟩
    · cases h
    cases hg
    unfold readPreface at h
    rcases h with h | ⟨_, st2, hr, h⟩
    · split at h
      · cases h
      · cases h
        rfl
    · split at hr
      · cases hr
        rcases h with ⟨-, rfl⟩ | ⟨_, _, ⟨-, rfl⟩, h⟩
        · rfl
        · cases h
      · cases hr

end

/-- **HTTP/2 direction transparency.**  `xs` are the frames read, taken together in
header groups, and `outs` what was written for each of them. -/
theorem direction_forwards (D : HpackCrate) (U : UrlCrate) (m : Mapping U) (response : Bool)
    (loads : Nat → PeerLimits) (input : Bytes) (other : PeerLimits) (st : Task D)
    (h : direction m response loads (Task.new D input other) = .ok () st) :
    ∃ xs outs b b', input = opening response ++ b ∧ st.output = opening response ++ b' ∧
      Stream b (xs.flatMap Item.frames) ∧ Stream b' outs.flatten ∧
      Forwarded m response loads 0 (HeaderRewriter.new D) xs outs := by
  unfold direction at h
  obtain ⟨_, st1, hpre, h⟩ := (Act.bind_ok_iff _ _ _ _ _).1 h
  obtain ⟨b, st2, hin, h⟩ := (Act.bind_ok_iff _ _ _ _ _).1 h
  cases hin
  obtain ⟨hinput, hst⟩ := preface_ok _ _ _ _ hpre
  have hout : st1.output = opening response := by rw [hst]; rfl
  have hdec : st1.decoder = HeaderRewriter.new D := by rw [hst]; rfl
  obtain ⟨xs, outs, h1, h2, h3, h4, h5⟩ :=
    directionLoop_ok m response loads _ 0 _ _ _ (Nat.lt_succ_self _) h
  refine ⟨xs, outs, st1.input, _, hinput, by rw [h2, hout], ?_, stream_of_wellFormed _ h5,
    hdec ▸ h3⟩
  rw [h1]
  exact stream_of_wellFormed _ h4

/-- A SETTINGS frame, and a request in a padded HEADERS frame and a CONTINUATION. -/
def sampleStream : Bytes :=
  PREFACE ++ [{ kind := 4, flags := 0, stream := 0, payload := [0, 1, 0, 0, 16, 0] },
    { kind := 1, flags := 9, stream := 1,
      payload := [1] ++ HpackWire.sampleRequest.take 4 ++ [0] : Frame },
    { kind := 9, flags := 4, stream := 1, payload := HpackWire.sampleRequest.drop 4 }].flatMap
      Frame.encode

theorem direction_sample : ∃ st, direction sampleMapping false (fun _ => .new)
    (Task.new HpackWire.boundedCrate sampleStream .new) = .ok () st :=
  (Act.value?_eq_some_iff _ _ _).1 (by decide +kernel)

theorem direction_forwards_sample : ∃ st : Task HpackWire.boundedCrate, ∃ xs outs b b',
    sampleStream = opening false ++ b ∧ st.output = opening false ++ b' ∧
      Stream b (xs.flatMap Item.frames) ∧ Stream b' outs.flatten ∧
      Forwarded sampleMapping false (fun _ => .new) 0 (HeaderRewriter.new HpackWire.boundedCrate)
        xs outs :=
  let ⟨st, h⟩ := direction_sample
  ⟨st, direction_forwards _ _ sampleMapping false (fun _ => .new) sampleStream .new st h⟩

end H2
