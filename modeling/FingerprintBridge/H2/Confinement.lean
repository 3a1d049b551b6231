import FingerprintBridge.H2.Bridge
import FingerprintBridge.Wire.Confinement

/-!
# Authority confinement over HTTP/2

The origin takes the header blocks out of the frames it is sent and decodes one after the
other.  On every schedule of the two tasks these are confined, in whatever frames and
by whatever representations they come (`Sent`), and a step that fails sends nothing.
-/

namespace H2

open HpackWire Hpack

/-! ## The origin -/

/-- The header blocks of a sequence of frames; `opened` is the block that is not ended. -/
def blocksFrom : (opened : Option Bytes) → List Frame → List Bytes
  | _, [] => []
  | none, f :: fs =>
    if f.kind = 1 then
      match headerParts f with
      | .ok (_, _, fragment) =>
        if endsHeaders f.flags then fragment :: blocksFrom none fs
        else blocksFrom (some fragment) fs
      | .error _ => []
    else blocksFrom none fs
  | some block, f :: fs =>
    if endsHeaders f.flags then (block ++ f.payload) :: blocksFrom none fs
    else blocksFrom (some (block ++ f.payload)) fs

/-- The blocks decoded one after the other, with any table size the bridge lets pass. -/
def decodeBlocks : DynamicTable → List Bytes → Option (List (List Header) × DynamicTable)
  | T, [] => some ([], T)
  | T, b :: bs =>
    match decodeBlock rfc7541 65536 T b with
    | none => none
    | some (hs, T) => (decodeBlocks T bs).map fun r => (hs :: r.1, r.2)

theorem blocksFrom_continuations (rest fs : List Frame) : ∀ block, endsOnce rest = true →
    blocksFrom (some block) (rest ++ fs) =
      (block ++ rest.flatMap Frame.payload) :: blocksFrom none fs := by
  induction rest with
  | nil => exact fun block h => nomatch h
  | cons f rest ih =>
    intro block h
    cases rest with
    | nil =>
      have he : endsHeaders f.flags = true := h
      simp [blocksFrom, he]
    | cons g rest =>
      rw [endsOnce, Bool.and_eq_true, Bool.not_eq_true'] at h
      have hp : (f :: g :: rest).flatMap Frame.payload =
        f.payload ++ (g :: rest).flatMap Frame.payload := rfl
      rw [List.cons_append, blocksFrom, h.1, if_neg Bool.false_ne_true, ih _ h.2, hp,
        List.append_assoc]

theorem blocksFrom_group (first : Frame) (rest fs : List Frame) (front padding fragment : Bytes)
    (hg : IsGroup first rest) (hp : Parts first front padding fragment) :
    blocksFrom none (first :: rest ++ fs) =
      (fragment ++ rest.flatMap Frame.payload) :: blocksFrom none fs := by
  rw [List.cons_append, blocksFrom, if_pos hp.kind, hp.headerParts]
  simp only
  cases rest with
  | nil =>
    have he : endsHeaders first.flags = true := hg.ends
    rw [if_pos he]
    simp
  | cons g rest =>
    have h := hg.ends
    rw [endsOnce, Bool.and_eq_true, Bool.not_eq_true'] at h
    rw [h.1, if_neg Bool.false_ne_true, blocksFrom_continuations _ _ _ h.2]

theorem blocksFrom_single (f : Frame) (fs : List Frame) (h : f.kind ≠ 1) :
    blocksFrom none (f :: fs) = blocksFrom none fs := by
  rw [blocksFrom, if_neg h]

theorem blocksFrom_append (fs gs : List Frame) : ∀ opened,
    blocksFrom opened fs <+: blocksFrom opened (fs ++ gs) := by
  induction fs with
  | nil =>
    intro opened
    have hnil : blocksFrom opened [] = [] := by cases opened <;> rfl
    rw [hnil]
    exact List.nil_prefix
  | cons f fs ih =>
    intro opened
    rw [List.cons_append]
    cases opened with
    | some block =>
      unfold blocksFrom
      split
      · exact (List.prefix_cons_inj _).2 (ih none)
      · exact ih _
    | none =>
      unfold blocksFrom
      split
      · split
        · split
          · exact (List.prefix_cons_inj _).2 (ih none)
          · exact ih _
        · exact List.nil_prefix
      · exact ih none

theorem decodeBlocks_append (bs cs : List Bytes) : ∀ T,
    decodeBlocks T (bs ++ cs) = (decodeBlocks T bs).bind fun r =>
      (decodeBlocks r.2 cs).map fun r' => (r.1 ++ r'.1, r'.2) := by
  induction bs with
  | nil =>
    intro T
    simp [decodeBlocks]
  | cons b bs ih =>
    intro T
    rw [List.cons_append, decodeBlocks, decodeBlocks]
    cases decodeBlock rfc7541 65536 T b with
    | none => rfl
    | some r =>
      simp only [ih]
      cases decodeBlocks r.2 bs with
      | none => rfl
      | some r' => simp [Function.comp_def]

/-! ## What was sent -/

section
variable {D : HpackCrate} {U : UrlCrate} {m : Mapping U} {table : D.Decoder → DynamicTable}

/-- The frames `fs` have no header block but confined ones, and leave the origin's table `T`. -/
structure Sent (m : Mapping U) (fs : List Frame) (T : DynamicTable) : Prop where
  wellFormed : ∀ f ∈ fs, f.WellFormed
  closed : ∀ gs, blocksFrom none (fs ++ gs) = blocksFrom none fs ++ blocksFrom none gs
  decodes : ∃ hss, decodeBlocks .init (blocksFrom none fs) = some (hss, T) ∧
    ∀ hs ∈ hss, Confined m hs

theorem sent_nil : Sent m [] .init :=
  ⟨(fun _ h => nomatch h), fun _ => rfl, [], rfl, fun _ h => nomatch h⟩

/-- Frames that the origin reads as the blocks `bs`, after what was sent. -/
theorem Sent.append {fs out : List Frame} {T T' : DynamicTable} (h : Sent m fs T)
    (hwf : ∀ f ∈ out, f.WellFormed) (bs : List Bytes) (hss : List (List Header))
    (hout : ∀ gs, blocksFrom none (out ++ gs) = bs ++ blocksFrom none gs)
    (hbs : decodeBlocks T bs = some (hss, T')) (hc : ∀ hs ∈ hss, Confined m hs) :
    Sent m (fs ++ out) T' := by
  obtain ⟨hss0, hdec, hc0⟩ := h.decodes
  have hone : blocksFrom none out = bs := by
    have := hout []
    rwa [List.append_nil, show blocksFrom none [] = [] from rfl, List.append_nil] at this
  refine ⟨fun f hf => ?_, fun gs => ?_, hss0 ++ hss, ?_, fun hs hhs => ?_⟩
  · rcases List.mem_append.1 hf with hf | hf
    · exact h.wellFormed f hf
    · exact hwf f hf
  · rw [List.append_assoc, h.closed, hout, h.closed, hone, List.append_assoc]
  · rw [h.closed, hone, decodeBlocks_append, hdec]
    simp [hbs]
  · rcases List.mem_append.1 hhs with hhs | hhs
    · exact hc0 hs hhs
    · exact hc hs hhs

/-- What a pass of the request task sends is confined. -/
theorem Sent.pass (hD : D.Correct table) {fs : List Frame} {T : DynamicTable} {limits : PeerLimits}
    {t t' : Task D} {x : Item} {out : List Frame} (h : Sent m fs T)
    (ha : Agrees t.decoder.outbound T) (hstep : PassStep m false limits t x out t') :
    ∃ T', Sent m (fs ++ out) T' ∧ Agrees t'.decoder.outbound T' := by
  have hp := hstep.passed
  cases x with
  | single f =>
    obtain ⟨hk, -, -, rfl, hdec⟩ := hp
    rw [hdec]
    refine ⟨T, h.append hstep.wrote [] [] (fun gs => ?_) rfl fun hs hhs => ?_, ha⟩
    · exact blocksFrom_single f gs hk
    · cases hhs
  | group first rest =>
    obtain ⟨first', rest', rfl, hre⟩ := hp
    obtain ⟨front, padding, fragment, fragment', -, hparts, hrw⟩ := hre.block
    obtain ⟨hs, T', hdec, hconf, ha'⟩ := rewrite_confined hD _ _ _ T ha hrw
    refine ⟨T', h.append hstep.wrote [fragment' ++ rest'.flatMap Frame.payload] [hs]
      (fun gs => ?_) ?_ fun hs' hhs => ?_, ha'⟩
    · rw [blocksFrom_group first' rest' gs front padding fragment' hre.wrote hparts]
      rfl
    · simp [decodeBlocks, hdec]
    · rw [List.mem_singleton.1 hhs]
      exact hconf

/-! ## Whole runs -/

/-- What a run keeps: the preface and confined frames were sent, and as long as the bridge
lives the outbound table is the origin's. -/
def SentBy (m : Mapping U) (b : Bridge D) : Prop :=
  ∃ fs T, Sent m fs T ∧
    ((b.phase = .preface ∧ b.requests.output = [] ∧ fs = []) ∨
      (b.phase ≠ .preface ∧ b.requests.output = PREFACE ++ fs.flatMap Frame.encode)) ∧
    (b.ended = none → Agrees b.requests.decoder.outbound T)

theorem sentBy_new (client origin : Bytes) : SentBy m (Bridge.new D client origin) :=
  ⟨[], .init, sent_nil, Or.inl ⟨rfl, rfl, rfl⟩, fun _ => agrees_new⟩

theorem SentBy.step (hD : D.Correct table) {b : Bridge D} (h : SentBy m b) (r : Bool) :
    SentBy m (b.step m r) := by
  obtain ⟨fs, T, hsent, hphase, hagrees⟩ := h
  obtain ⟨e, hdid, hh, hlive⟩ := step_did m b r
  have hout := hdid.wrote false
  have hended := step_ended m b r
  generalize b.step m r = b' at hdid hh hlive hout hended
  change b'.requests.output = b.requests.output ++ _ at hout
  cases hh with
  | preface hp hp' _ hdec =>
    have hd : b'.requests.decoder = b.requests.decoder := hdec false
    rcases hphase with ⟨-, ho, rfl⟩ | ⟨hne, -⟩
    · refine ⟨[], T, hsent, Or.inr ⟨?_, ?_⟩, fun h => ?_⟩
      · rw [hp']
        exact fun h => nomatch h
      · rw [hout, ho]
        rfl
      · rw [hd]
        exact hagrees (hended h)
    · exact (hne hp).elim
  | quiet hp hq =>
    change b'.requests.output = b.requests.output ++ [] at hout
    rw [List.append_nil] at hout
    refine ⟨fs, T, hsent, ?_, fun h => ?_⟩
    · rcases hphase with ⟨h1, ho, hfs⟩ | ⟨h1, ho⟩
      · exact Or.inl ⟨hp.2 h1, hout.trans ho, hfs⟩
      · exact Or.inr ⟨fun h => h1 (hp.1 h), hout.trans ho⟩
    · have hd : b'.requests.decoder = b.requests.decoder := (hq h).2 false
      rw [hd]
      exact hagrees (hended h)
  | forward r' x out hstep hdec hframes hp _ _ =>
    cases r' with
    | true =>
      change b'.requests.output = b.requests.output ++ [] at hout
      rw [List.append_nil] at hout
      have hd : b'.requests.decoder = b.requests.decoder := hdec
      refine ⟨fs, T, hsent, by rw [hp, hout]; exact hphase, fun h => ?_⟩
      rw [hd]
      exact hagrees (hended h)
    | false =>
      change b'.requests.output = b.requests.output ++ out.flatMap Frame.encode at hout
      have hfr := hframes rfl
      have hne : b.phase ≠ .preface := by
        rw [hfr]
        exact fun h => nomatch h
      have ha : Agrees (b.loaded false).decoder.outbound T := hagrees (hlive _ _ _ rfl)
      obtain ⟨T', hsent', ha'⟩ := hsent.pass hD ha hstep
      refine ⟨fs ++ out, T', hsent', Or.inr ⟨by rw [hp]; exact hne, ?_⟩, fun _ => ha'⟩
      rcases hphase with ⟨h1, -⟩ | ⟨-, ho⟩
      · exact (hne h1).elim
      · rw [hout, ho, List.flatMap_append, List.append_assoc]

theorem SentBy.run (hD : D.Correct table) (schedule : List Bool) : ∀ {b : Bridge D}, SentBy m b →
    SentBy m (b.run m schedule) := by
  induction schedule with
  | nil => exact fun h => h
  | cons r schedule ih => exact fun h => ih (h.step hD r)

/-- What a prefix of confined frames decodes to is confined. -/
theorem Sent.beginning {fs fs' : List Frame} {T : DynamicTable} (h : Sent m fs T)
    (hp : fs' <+: fs) : ∃ hss T', decodeBlocks .init (blocksFrom none fs') = some (hss, T') ∧
      ∀ hs ∈ hss, Confined m hs := by
  obtain ⟨gs, rfl⟩ := hp
  obtain ⟨hss, hdec, hc⟩ := h.decodes
  obtain ⟨cs, hcs⟩ := blocksFrom_append fs' gs none
  rw [← hcs, decodeBlocks_append] at hdec
  cases hd : decodeBlocks .init (blocksFrom none fs') with
  | none =>
    rw [hd] at hdec
    cases hdec
  | some r =>
    rw [hd, Option.bind_some, Option.map_eq_some_iff] at hdec
    obtain ⟨r', -, he⟩ := hdec
    obtain ⟨rfl, -⟩ := Prod.mk.inj he
    exact ⟨r.1, r.2, rfl, fun hs hhs => hc hs (List.mem_append_left _ hhs)⟩

end

/-- **Authority confinement over HTTP/2.**  On every schedule, what the origin was sent is
the preface and frames; and whatever frames of these it has received, from the first on,
it decodes their header blocks to confined headers. -/
theorem requests_confined {D : HpackCrate} {table : D.Decoder → DynamicTable} (hD : D.Correct table)
    {U : UrlCrate} (m : Mapping U) (client origin : Bytes) (schedule : List Bool) :
    ∃ fs, Stream (fs.flatMap Frame.encode) fs ∧
      (((Bridge.new D client origin).run m schedule).requests.output = [] ∧ fs = [] ∨
        ((Bridge.new D client origin).run m schedule).requests.output =
          PREFACE ++ fs.flatMap Frame.encode) ∧
      ∀ fs', fs' <+: fs → ∃ hss T, decodeBlocks .init (blocksFrom none fs') = some (hss, T) ∧
        ∀ hs ∈ hss, Confined m hs := by
  obtain ⟨fs, T, hsent, hphase, -⟩ := (sentBy_new (m := m) client origin).run hD schedule
  refine ⟨fs, stream_of_wellFormed fs hsent.wellFormed, ?_, fun fs' hp => hsent.beginning hp⟩
  rcases hphase with ⟨-, ho, hfs⟩ | ⟨-, ho⟩
  · exact Or.inl ⟨ho, hfs⟩
  · exact Or.inr ho

end H2
