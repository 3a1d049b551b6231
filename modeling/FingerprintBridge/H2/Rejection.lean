import FingerprintBridge.H2.Bridge
import FingerprintBridge.Wire.Rejection

/-!
# The errors of a pass

A pass reads the item at the beginning of its input (`IsItem.unique`), and complains
about a limit of the peer only if the item goes beyond that limit (`pass_rejects`).
-/

namespace H2

open HpackWire (HpackCrate HeaderRewriter Plain tableLimit Exceeds not_plain)

/-! ## Whole items -/

/-- A frame of its own, or a whole group. -/
def IsItem : Item → Prop
  | .single f => f.kind ≠ 1
  | .group first rest => first.kind = 1 ∧ IsGroup first rest

theorem encode_append_inj (f g : Frame) (hf : f.WellFormed) (hg : g.WellFormed) (a b : Bytes)
    (h : f.encode ++ a = g.encode ++ b) : f = g ∧ a = b := by
  have := Frame.parse_encode f hf a
  rw [h, Frame.parse_encode g hg b, Option.some.injEq, Prod.mk.injEq] at this
  exact ⟨this.1.symm, this.2.symm⟩

/-- Where END_HEADERS is, the group ends. -/
theorem endsOnce_unique (fs : List Frame) : ∀ gs : List Frame, endsOnce fs = true →
    endsOnce gs = true → (∀ f ∈ fs, f.WellFormed) → (∀ g ∈ gs, g.WellFormed) →
    ∀ a b, fs.flatMap Frame.encode ++ a = gs.flatMap Frame.encode ++ b → fs = gs ∧ a = b := by
  induction fs with
  | nil => exact fun gs h => nomatch h
  | cons f fs ih =>
    intro gs hf hg hwf hwg a b h
    cases gs with
    | nil => cases hg
    | cons g gs =>
      rw [List.flatMap_cons, List.flatMap_cons, List.append_assoc, List.append_assoc] at h
      obtain ⟨rfl, hrest⟩ := encode_append_inj f g (hwf f List.mem_cons_self)
        (hwg g List.mem_cons_self) _ _ h
      cases fs with
      | nil =>
        have he : endsHeaders f.flags = true := hf
        cases gs with
        | nil => exact ⟨rfl, hrest⟩
        | cons g' gs =>
          rw [endsOnce, he] at hg
          cases hg
      | cons f' fs =>
        rw [endsOnce, Bool.and_eq_true, Bool.not_eq_true'] at hf
        cases gs with
        | nil =>
          have he : endsHeaders f.flags = true := hg
          rw [hf.1] at he
          cases he
        | cons g' gs =>
          rw [endsOnce, Bool.and_eq_true] at hg
          obtain ⟨e1, e2⟩ := ih (g' :: gs) hf.2 hg.2 (fun x hx => hwf x (List.mem_cons_of_mem _ hx))
            (fun x hx => hwg x (List.mem_cons_of_mem _ hx)) a b hrest
          exact ⟨by rw [e1], e2⟩

/-- A stream begins with one item. -/
theorem IsItem.unique {x y : Item} (hx : IsItem x) (hy : IsItem y)
    (hwx : ∀ f ∈ x.frames, f.WellFormed) (hwy : ∀ f ∈ y.frames, f.WellFormed) (a b : Bytes)
    (h : x.frames.flatMap Frame.encode ++ a = y.frames.flatMap Frame.encode ++ b) :
    x = y ∧ a = b := by
  have hfirst : ∀ (f g : Frame) (fs gs : List Frame), (∀ x ∈ f :: fs, x.WellFormed) →
      (∀ x ∈ g :: gs, x.WellFormed) →
      (f :: fs).flatMap Frame.encode ++ a = (g :: gs).flatMap Frame.encode ++ b →
      f = g ∧ fs.flatMap Frame.encode ++ a = gs.flatMap Frame.encode ++ b := by
    intro f g fs gs hf hg h
    rw [List.flatMap_cons, List.flatMap_cons, List.append_assoc, List.append_assoc] at h
    exact encode_append_inj f g (hf f List.mem_cons_self) (hg g List.mem_cons_self) _ _ h
  cases x with
  | single f =>
    cases y with
    | single g =>
      obtain ⟨rfl, hab⟩ := hfirst f g [] [] hwx hwy h
      exact ⟨rfl, hab⟩
    | group g rest =>
      obtain ⟨rfl, -⟩ := hfirst f g [] rest hwx hwy h
      exact (hx hy.1).elim
  | group f rest =>
    cases y with
    | single g =>
      obtain ⟨rfl, -⟩ := hfirst f g rest [] hwx hwy h
      exact (hy hx.1).elim
    | group g rest' =>
      obtain ⟨he, hab⟩ := endsOnce_unique _ _ hx.2.ends hy.2.ends hwx hwy a b h
      obtain ⟨rfl, rfl⟩ := List.cons.inj he
      exact ⟨rfl, hab⟩

/-- `reps` is the header block of the item, if it is a group. -/
def HasBlock : Item → List Hpack.Rep → Prop
  | .single _, reps => reps = []
  | .group first rest, reps => ∃ front padding fragment, Parts first front padding fragment ∧
      Parser.all Hpack.rep (fragment ++ rest.flatMap Frame.payload) = some reps

/-! ## Errors that are about no limit -/

def frameLimit : Fault := .err "header frame exceeds peer limit"

/-- The messages of the preface and of a pass, those of the rewriter apart. -/
def passErrors : List String :=
  ["frame exceeds configured 1 MiB limit", "early eof", "oversized frame", "invalid SETTINGS",
    "SETTINGS ACK payload", "malformed SETTINGS", "invalid SETTINGS_MAX_FRAME_SIZE",
    "invalid HEADERS", "missing pad length", "bad HEADERS padding/priority",
    "truncated CONTINUATION", "interleaved CONTINUATION", "header block too large",
    "too many CONTINUATION frames", "invalid frame limit", "missing HEADERS",
    "invalid CONTINUATION", "HTTP/2 server push unsupported", "unexpected CONTINUATION",
    "invalid HTTP/2 preface"]

/-- A fault of a pass that has nothing to do with a peer's limits. -/
def Unrelated (e : Fault) : Prop := Plain e ∨ ∃ msg ∈ passErrors, e = .err msg

theorem Unrelated.ne {e : Fault} (h : Unrelated e) : e ≠ frameLimit ∧ e ≠ tableLimit := by
  rcases h with h | ⟨msg, hm, rfl⟩
  · refine ⟨?_, ?_⟩
    · rintro rfl
      exact not_plain _ (by decide) (by decide) h
    · rintro rfl
      exact not_plain _ (by decide) (by decide) h
  · refine ⟨fun he => ?_, fun he => ?_⟩
    · rw [Fault.err.inj he] at hm
      exact absurd hm (by decide)
    · rw [Fault.err.inj he] at hm
      exact absurd hm (by decide)

theorem unrelated_panic {e : Fault} (h : e = .panic) : Unrelated e := Or.inl (Or.inl h)

theorem unrelated_of_errors {α : Type} {x : Res α} {msgs : List String} (h : x.Errors msgs)
    (hle : ∀ msg ∈ msgs, msg ∈ passErrors) (e : Fault) (he : x = .error e) : Unrelated e :=
  Or.inr (h.mono hle e he)

theorem unrelated_of_ensure {c : Prop} [Decidable c] {msg : String} (h : msg ∈ passErrors)
    (e : Fault) (he : ensure c msg = .error e) : Unrelated e :=
  unrelated_of_errors (Res.errors_ensure c msg h) (fun _ h => h) e he

theorem read_errors (b : Bytes) :
    (Frame.read b).Errors ["frame exceeds configured 1 MiB limit", "early eof"] := by
  unfold Frame.read
  split
  · exact Res.errors_ok _
  · refine Res.errors_bind _ _ (Res.errors_ensure _ _ (by simp)) fun _ _ => ?_
    refine Res.errors_bind _ _ (Res.errors_ensure _ _ (by simp)) fun _ _ => ?_
    exact Res.errors_ok _
  · exact Res.errors_error _ (by simp)

theorem settings_errors (f : Frame) :
    (settings f).Errors ["invalid SETTINGS", "SETTINGS ACK payload", "malformed SETTINGS"] := by
  unfold settings
  refine Res.errors_bind _ _ (Res.errors_ensure _ _ (by simp)) fun _ _ => ?_
  split
  · refine Res.errors_bind _ _ (Res.errors_ensure _ _ (by simp)) fun _ _ => ?_
    exact Res.errors_ok _
  · refine Res.errors_bind _ _ (Res.errors_ensure _ _ (by simp)) fun _ _ => ?_
    exact Res.errors_ok _

theorem headerParts_unrelated (f : Frame) (e : Fault) (h : headerParts f = .error e) :
    Unrelated e := by
  unfold headerParts at h
  rcases (Res.bind_error_iff _ _ _).1 h with h | ⟨_, -, h⟩
  · exact unrelated_of_ensure (by decide) e h
  rcases (Res.bind_error_iff _ _ _).1 h with h | ⟨pad, -, h⟩
  · unfold padLength at h
    split at h
    · rcases (Res.bind_error_iff _ _ _).1 h with h | ⟨_, -, h⟩
      · exact unrelated_of_ensure (by decide) e h
      · rcases (Res.bind_error_iff _ _ _).1 h with h | ⟨_, -, h⟩
        · exact unrelated_panic (Res.byteAt_error _ _ _ h)
        · cases h
    · cases h
  rcases (Res.bind_error_iff _ _ _).1 h with h | ⟨_, -, h⟩
  · exact unrelated_of_ensure (by decide) e h
  · cases h

theorem markLast_error (fs : List Frame) (e : Fault) (h : markLast fs = .error e) : e = .panic := by
  induction fs with
  | nil => exact (Except.error.inj h).symm
  | cons f fs ih =>
    cases fs with
    | nil => cases h
    | cons g fs =>
      unfold markLast at h
      rcases (Res.bind_error_iff _ _ _).1 h with h | ⟨_, -, h⟩
      · exact ih h
      · cases h

theorem checkedSub_error (a b : Nat) (e : Fault) (h : checkedSub a b = .error e) : e = .panic := by
  unfold checkedSub at h
  split at h
  · cases h
  · exact (Except.error.inj h).symm

/-! ## Reframing -/

theorem reframeLoop_error (first : Frame) (front padding encoded : Bytes) (maxFrame : Nat)
    (fs : List Frame) : ∀ (i pos : Nat) (e : Fault),
      reframeLoop first front padding encoded maxFrame i fs pos = .error e →
      Unrelated e ∨ e = frameLimit ∧ ∃ f ∈ fs, maxFrame < f.payload.length := by
  induction fs with
  | nil => exact fun i pos e h => nomatch h
  | cons f fs ih =>
    intro i pos e h
    unfold reframeLoop at h
    rcases (Res.bind_error_iff _ _ _).1 h with h | ⟨_, -, h⟩
    · obtain ⟨hlen, rfl⟩ := (Res.ensure_error_iff _ _ _).1 h
      exact Or.inr ⟨rfl, f, List.mem_cons_self, by omega⟩
    rcases (Res.bind_error_iff _ _ _).1 h with h | ⟨_, -, h⟩
    · exact Or.inl (unrelated_of_ensure (by decide) e h)
    rcases (Res.bind_error_iff _ _ _).1 h with h | ⟨cap, -, h⟩
    · exact Or.inl (unrelated_panic (checkedSub_error _ _ _ h))
    rcases (Res.bind_error_iff _ _ _).1 h with h | ⟨chunk, -, h⟩
    · exact Or.inl (unrelated_panic (Res.slice_error _ _ _ _ h))
    rcases (Res.bind_error_iff _ _ _).1 h with h | ⟨⟨out, pos'⟩, -, h⟩
    · rcases ih _ _ _ h with h | ⟨rfl, g, hg, hlt⟩
      · exact Or.inl h
      · exact Or.inr ⟨rfl, g, List.mem_cons_of_mem _ hg, hlt⟩
    · cases h

theorem reframe_error (original : List Frame) (encoded : Bytes) (maxFrame : Nat) (e : Fault)
    (h : reframe original encoded maxFrame = .error e) :
    Unrelated e ∨ e = frameLimit ∧ ∃ f ∈ original, maxFrame < f.payload.length := by
  unfold reframe at h
  rcases (Res.bind_error_iff _ _ _).1 h with h | ⟨_, -, h⟩
  · exact Or.inl (unrelated_of_ensure (by decide) e h)
  cases original with
  | nil =>
    obtain rfl := (Except.error.inj h).symm
    exact Or.inl (Or.inr ⟨_, by decide, rfl⟩)
  | cons first rest =>
    rcases (Res.bind_error_iff _ _ _).1 h with h | ⟨⟨front, padding, fragment⟩, -, h⟩
    · exact Or.inl (headerParts_unrelated _ _ h)
    rcases (Res.bind_error_iff _ _ _).1 h with h | ⟨⟨out, pos⟩, -, h⟩
    · exact reframeLoop_error _ _ _ _ _ _ _ _ _ h
    · exact Or.inl (unrelated_panic (markLast_error _ _ h))

/-! ## A pass -/

section
variable {D : HpackCrate} {U : UrlCrate}

theorem readFrame_unrelated (st st' : Task D) (e : Fault) (h : readFrame st = .error e st') :
    Unrelated e := by
  unfold readFrame at h
  split at h
  · cases h
  · cases h
  · next he =>
    cases h
    exact unrelated_of_errors (read_errors _) (by decide) _ he

theorem writeFrame_unrelated (f : Frame) (st st' : Task D) (e : Fault)
    (h : writeFrame f st = .error e st') : Unrelated e := by
  unfold writeFrame at h
  rcases (Act.bind_error_iff _ _ _ _ _).1 h with h | ⟨b, st1, -, h⟩
  · obtain ⟨h, -⟩ := (Act.liftM_error_iff _ _ _ _).1 h
    unfold Frame.write at h
    rcases (Res.bind_error_iff _ _ _).1 h with h | ⟨_, -, h⟩
    · exact unrelated_of_ensure (by decide) e h
    · cases h
  · cases h

theorem writeFrames_unrelated (fs : List Frame) : ∀ (st st' : Task D) (e : Fault),
    writeFrames fs st = .error e st' → Unrelated e := by
  induction fs with
  | nil => exact fun st st' e h => (Act.pure_ne_error _ _ _ _ h).elim
  | cons f fs ih =>
    intro st st' e h
    unfold writeFrames at h
    rcases (Act.bind_error_iff _ _ _ _ _).1 h with h | ⟨_, st1, -, h⟩
    · exact writeFrame_unrelated f _ _ _ h
    · exact ih _ _ _ h

theorem storeSettings_unrelated (entries : List (UInt16 × UInt32)) : ∀ (l l' : PeerLimits)
    (e : Fault), storeSettings entries l = .error e l' → Unrelated e := by
  induction entries with
  | nil => exact fun l l' e h => (Act.pure_ne_error _ _ _ _ h).elim
  | cons entry entries ih =>
    intro l l' e h
    obtain ⟨id, value⟩ := entry
    unfold storeSettings at h
    rcases (Act.bind_error_iff _ _ _ _ _).1 h with h | ⟨_, l1, -, h⟩
    · unfold storeSetting at h
      split at h
      · cases h
      split at h
      · rcases (Act.bind_error_iff _ _ _ _ _).1 h with h | ⟨_, l2, -, h⟩
        · exact unrelated_of_ensure (by decide) e ((Act.liftM_error_iff _ _ _ _).1 h).1
        · cases h
      · exact (Act.pure_ne_error _ _ _ _ h).elim
    · exact ih _ _ _ h

theorem settingsFrame_unrelated (f : Frame) (st st' : Task D) (e : Fault)
    (h : settingsFrame f st = .error e st') : Unrelated e := by
  unfold settingsFrame at h
  simp only [Act.bind_error_iff, Act.liftM_error_iff] at h
  rcases h with ⟨h, -⟩ | ⟨entries, _, -, h | ⟨_, st1, -, h⟩⟩
  · exact unrelated_of_errors (settings_errors f) (by decide) e h
  · obtain ⟨l, hl, -⟩ := (Act.zoom_error_iff _ _ _ _ _ _).1 h
    exact storeSettings_unrelated _ _ _ _ hl
  · exact writeFrame_unrelated f _ _ _ h

theorem nextContinuation_unrelated (block : Bytes) (original : List Frame) (st st' : Task D)
    (e : Fault) (h : nextContinuation block original st = .error e st') : Unrelated e := by
  unfold nextContinuation at h
  simp only [Act.bind_error_iff, Act.liftM_error_iff] at h
  rcases h with h | ⟨frame, _, -, h⟩
  · exact readFrame_unrelated _ _ _ h
  rcases h with ⟨h, -⟩ | ⟨next, _, -, h⟩
  · unfold okOr at h
    split at h
    · cases h
    · obtain rfl := (Except.error.inj h).symm
      exact Or.inr ⟨_, by decide, rfl⟩
  rcases h with ⟨h, -⟩ | ⟨first, _, -, h⟩
  · cases original with
    | nil => exact unrelated_panic (Except.error.inj h).symm
    | cons f fs => cases h
  rcases h with ⟨h, -⟩ | ⟨_, _, -, h⟩
  · exact unrelated_of_ensure (by decide) e h
  rcases h with ⟨h, -⟩ | ⟨_, _, -, h⟩
  · exact unrelated_of_ensure (by decide) e h
  · exact (Act.pure_ne_error _ _ _ _ h).elim

theorem gather_unrelated (room : Nat) (flags : UInt8) (block : Bytes) (original : List Frame)
    (st st' : Task D) (e : Fault) (h : gather room flags block original st = .error e st') :
    Unrelated e := by
  obtain ⟨block', original', st₁, -, h | ⟨rfl, -⟩⟩ := gather_fails _ _ _ _ _ _ _ h
  · exact nextContinuation_unrelated _ _ _ _ _ h
  · exact Or.inr ⟨_, by decide, rfl⟩

/-- The fault `e` is about no limit, or the item with the block `reps` is above `limits`. -/
def Blames (limits : PeerLimits) (frames : List Frame) (reps : List Hpack.Rep) (e : Fault) : Prop :=
  Unrelated e ∨ (e = frameLimit ∧ ∃ f ∈ frames, limits.frame < f.payload.length) ∨
    e = tableLimit ∧ ∃ head n, .sizeUpdate head n ∈ reps ∧ min limits.table 65536 < n

theorem headersFrame_rejects (m : Mapping U) (response : Bool) (limits : PeerLimits) (first : Frame)
    (rest : List Frame) (reps : List Hpack.Rep) (tail : Bytes) (hx : IsItem (.group first rest))
    (hw : ∀ f ∈ first :: rest, f.WellFormed) (hb : HasBlock (.group first rest) reps)
    (st st' : Task D) (e : Fault) (hin : st.input = rest.flatMap Frame.encode ++ tail)
    (h : headersFrame m response limits first st = .error e st') :
    Blames limits (first :: rest) reps e := by
  obtain ⟨front, padding, fragment, hp, hreps⟩ := hb
  unfold headersFrame at h
  simp only [Act.bind_error_iff, Act.liftM_error_iff, Act.liftM_ok_iff] at h
  rcases h with ⟨h, -⟩ | ⟨⟨front', padding', fragment'⟩, _, ⟨hparts, rfl⟩, h⟩
  · exact Or.inl (headerParts_unrelated _ _ h)
  rw [hp.headerParts] at hparts
  cases hparts
  rcases h with h | ⟨⟨block, original⟩, st1, hg, h⟩
  · exact Or.inl (gather_unrelated _ _ _ _ _ _ _ h)
  -- what was gathered is the group
  obtain ⟨more, g⟩ := gather_ok _ _ _ _ _ _ _ hg
  have hmore : first :: more = first :: rest := by
    refine (endsOnce_unique _ _ ?_ hx.2.ends ?_ hw st1.input tail ?_).1
    · rcases g.ends with ⟨he, rfl⟩ | ⟨he, hm⟩
      · exact he
      · rw [endsOnce_cons _ _ (fun hnil => by rw [hnil] at hm; cases hm), he, hm]
        rfl
    · intro f hf
      rcases List.mem_cons.1 hf with rfl | hf
      · exact hw f List.mem_cons_self
      · exact (g.continuation f hf).1
    · rw [List.flatMap_cons, List.flatMap_cons, List.append_assoc, List.append_assoc, ← g.input, hin]
  obtain ⟨-, rfl⟩ := List.cons.inj hmore
  have horig : original = first :: more := g.frames
  have hblock : block = fragment ++ more.flatMap Frame.payload := g.block
  subst horig hblock
  rcases h with h | ⟨encoded, st2, -, h⟩
  · obtain ⟨decoder, hrw, -⟩ := (Act.zoom_error_iff _ _ _ _ _ _).1 h
    rcases HpackWire.rewrite_error _ _ _ hrw with h | ⟨rfl, hx⟩
    · exact Or.inl (Or.inl h)
    · exact Or.inr (Or.inr ⟨rfl, hx reps hreps⟩)
  rcases h with ⟨h, -⟩ | ⟨frames, _, -, h⟩
  · rcases reframe_error _ _ _ _ h with h | ⟨rfl, hf⟩
    · exact Or.inl h
    · exact Or.inr (Or.inl ⟨rfl, hf⟩)
  · exact Or.inl (writeFrames_unrelated _ _ _ _ h)

/-- **Why a pass fails** on the item at the beginning of its input. -/
theorem pass_rejects (m : Mapping U) (response : Bool) (limits : PeerLimits) (x : Item)
    (reps : List Hpack.Rep) (tail : Bytes) (hx : IsItem x) (hw : ∀ f ∈ x.frames, f.WellFormed)
    (hb : HasBlock x reps) (st st' : Task D) (e : Fault)
    (hin : st.input = x.frames.flatMap Frame.encode ++ tail)
    (h : pass m response limits st = .error e st') : Blames limits x.frames reps e := by
  unfold pass at h
  rcases (Act.bind_error_iff _ _ _ _ _).1 h with h | ⟨frame, st1, hr, h⟩
  · exact Or.inl (readFrame_unrelated _ _ _ h)
  rcases readFrame_ok _ _ _ hr with ⟨rfl, -⟩ | ⟨f, rfl, hlen, hread, -⟩
  · exact (Act.pure_ne_error _ _ _ _ h).elim
  simp only [Act.bind_error_iff] at h
  rcases h with h | ⟨_, st2, -, h⟩
  swap
  · exact (Act.pure_ne_error _ _ _ _ h).elim
  rw [hin] at hread
  cases x with
  | single g =>
    have hf : g = f := by
      have hs : g.encode ++ tail = f.encode ++ st1.input := by simpa [Item.frames] using hread
      exact (encode_append_inj g f (hw g List.mem_cons_self) (wellFormed_of_read f hlen) _ _ hs).1
    subst hf
    unfold handle at h
    split at h
    · exact Or.inl (settingsFrame_unrelated _ _ _ _ h)
    split at h
    · next h1 => exact (hx h1).elim
    split at h
    · cases h
      exact Or.inl (Or.inr ⟨_, by decide, rfl⟩)
    split at h
    · cases h
      exact Or.inl (Or.inr ⟨_, by decide, rfl⟩)
    · exact Or.inl (writeFrame_unrelated _ _ _ _ h)
  | group first rest =>
    rw [Item.frames, List.flatMap_cons, List.append_assoc] at hread
    obtain ⟨rfl, hin1⟩ := encode_append_inj first f (hw first List.mem_cons_self)
      (wellFormed_of_read f hlen) _ _ hread
    unfold handle at h
    rw [if_neg (by rw [hx.1]; decide), if_pos hx.1] at h
    exact headersFrame_rejects m response limits first rest reps tail hx hw hb st1 st' e hin1.symm h

end

end H2
