import FingerprintBridge.H2.Group
import FingerprintBridge.Scripts.PairedHttp

/-!
# The lab's reading of header groups

What `normalize` keeps of a HEADERS frame and its CONTINUATIONs: the block goes to the decoder, and of
the frames the lab keeps the flags, the lengths but for that of the last, and what stands around
the fragment.
-/

namespace PairedHttp

open H2 (Frame IsGroup Parts endsOnce endsHeaders isPadded)
open OrderPolicy (HpackModule)
open Tls (lowerHex lowerHex_inj)

/-! ## Layouts -/

/-- What the lab keeps of a frame with `front` before its fragment and `padding` after it. -/
def layoutOf (front padding : Bytes) (frame : Frame) : Layout where
  type := frame.kind
  flags := frame.flags
  length := frame.payload.length
  prefixHex := lowerHex front
  paddingHex := lowerHex padding

def layoutsOf (front padding : Bytes) : List Frame → List Layout
  | [] => []
  | first :: rest => layoutOf front padding first :: rest.map (layoutOf [] [])

theorem lastShorter_singleton (l : Layout) (n : Nat) :
    lastShorter [l] n = [{ l with length := l.length - n }] := rfl

theorem lastShorter_cons (l l' : Layout) (ls : List Layout) (n : Nat) :
    lastShorter (l :: l' :: ls) n = l :: lastShorter (l' :: ls) n := by
  unfold lastShorter
  rw [List.dropLast_cons_of_ne_nil (List.cons_ne_nil _ _), List.getLast?_cons_cons]
  rfl

theorem lastShorter_length (ls : List Layout) (n : Nat) :
    (lastShorter ls n).length = ls.length := by
  induction ls with
  | nil => rfl
  | cons l ls ih =>
    cases ls with
    | nil => rfl
    | cons l' ls => rw [lastShorter_cons, List.length_cons, List.length_cons, ih]

def lengthsOf (fs : List Frame) : Nat := (fs.map fun f => f.payload.length).sum

/-- The flags are those of the original frames, and so are the lengths but for the last. -/
def SameLayout (fs gs : List Frame) : Prop :=
  gs.map Frame.flags = fs.map Frame.flags ∧
    gs.dropLast.map (fun f => f.payload.length) = fs.dropLast.map fun f => f.payload.length

theorem sameLayout_singleton (f g : Frame) : SameLayout [f] [g] ↔ g.flags = f.flags := by
  simp [SameLayout]

theorem sameLayout_cons (f f' g g' : Frame) (fs gs : List Frame) :
    SameLayout (f :: f' :: fs) (g :: g' :: gs) ↔
      (g.flags = f.flags ∧ g.payload.length = f.payload.length) ∧
        SameLayout (f' :: fs) (g' :: gs) := by
  simp only [SameLayout, List.map_cons, List.cons.injEq, List.dropLast_cons_cons]
  exact and_and_and_comm

theorem SameLayout.length {fs gs : List Frame} (h : SameLayout fs gs) : gs.length = fs.length := by
  have := congrArg List.length h.1
  rwa [List.length_map, List.length_map] at this

theorem layoutOf_inj (front padding : Bytes) {f g : Frame} (hk : g.kind = f.kind) :
    layoutOf front padding f = layoutOf front padding g ↔
      g.flags = f.flags ∧ g.payload.length = f.payload.length := by
  unfold layoutOf
  rw [hk, Layout.mk.injEq]
  constructor
  · rintro ⟨-, hflags, hlen, -⟩
    exact ⟨hflags.symm, (Int.ofNat_inj.1 hlen).symm⟩
  · rintro ⟨hflags, hlen⟩
    exact ⟨rfl, hflags.symm, congrArg Int.ofNat hlen.symm, rfl, rfl⟩

/-- The last frame: what is left of its length is the same. -/
theorem lastLayout_inj (front padding : Bytes) {f g : Frame} {a b : Nat} (hk : g.kind = f.kind)
    (hsum : f.payload.length + b = g.payload.length + a) :
    lastShorter [layoutOf front padding f] a = lastShorter [layoutOf front padding g] b ↔
      g.flags = f.flags := by
  have hlen : (f.payload.length : Int) - a = g.payload.length - b := by omega
  rw [lastShorter_singleton, lastShorter_singleton, List.singleton_inj, Layout.mk.injEq]
  constructor
  · rintro ⟨-, hflags, -⟩
    exact hflags.symm
  · intro hflags
    exact ⟨hk.symm, hflags.symm, hlen, rfl, rfl⟩

theorem layouts_same {fs gs : List Frame} (hkind : List.Forall₂ (fun f g => g.kind = f.kind) fs gs)
    (a b : Nat) : ∀ front padding, lengthsOf fs + b = lengthsOf gs + a →
      (lastShorter (layoutsOf front padding fs) a = lastShorter (layoutsOf front padding gs) b ↔
        SameLayout fs gs) := by
  induction hkind with
  | nil =>
    intro front padding _
    exact iff_of_true rfl ⟨rfl, rfl⟩
  | @cons f g fs gs hk hrest ih =>
    intro front padding hsum
    cases hrest with
    | nil =>
      rw [sameLayout_singleton]
      exact lastLayout_inj front padding hk (by simpa [lengthsOf] using hsum)
    | @cons f' g' fs gs _ _ =>
      show lastShorter (layoutOf front padding f :: layoutsOf [] [] (f' :: fs)) a =
        lastShorter (layoutOf front padding g :: layoutsOf [] [] (g' :: gs)) b ↔ _
      rw [layoutsOf, layoutsOf, lastShorter_cons, lastShorter_cons, List.cons_eq_cons,
        layoutOf_inj front padding hk, sameLayout_cons]
      refine and_congr_right fun hsame => ih [] [] ?_
      have hlen := hsame.2
      simp only [lengthsOf, List.map_cons, List.sum_cons] at hsum ⊢
      omega

/-- Two groups whose payloads are as long but for their blocks. -/
theorem group_layout (front padding : Bytes) (first first' : Frame) (rest rest' : List Frame)
    (a b : Nat) (hk : first'.kind = first.kind) (hrest : ∀ f ∈ rest, f.kind = 9)
    (hrest' : ∀ f ∈ rest', f.kind = 9)
    (hsum : lengthsOf (first :: rest) + b = lengthsOf (first' :: rest') + a) :
    lastShorter (layoutsOf front padding (first :: rest)) a =
        lastShorter (layoutsOf front padding (first' :: rest')) b ↔
      SameLayout (first :: rest) (first' :: rest') := by
  by_cases hlen : rest.length = rest'.length
  · have hkinds : List.Forall₂ (fun f g : Frame => g.kind = f.kind) rest rest' := by
      refine List.forall₂_iff_zip.2 ⟨hlen, fun hmem => ?_⟩
      obtain ⟨hf, hg⟩ := List.of_mem_zip hmem
      exact (hrest' _ hg).trans (hrest _ hf).symm
    exact layouts_same (.cons hk hkinds) a b front padding hsum
  · refine iff_of_false (fun h => hlen ?_) fun h => hlen ?_
    · have hlayouts := congrArg List.length h
      rw [lastShorter_length, lastShorter_length] at hlayouts
      simpa [layoutsOf] using hlayouts
    · exact (Nat.succ.inj h.length).symm

/-! ## One frame -/

section
variable {H : HpackModule} (publicAuthority upstream : Bytes)

/-- The lab's notes of a frame that is not of a group. -/
def noted (frame : Frame) : List Control :=
  if (frame.kind = 4 ∨ frame.kind = 2 ∨ frame.kind = 8) ∧
      ¬ (frame.kind = 4 ∧ frame.flags &&& 1 ≠ 0) then
    [⟨frame.kind, frame.flags, frame.stream, lowerHex frame.payload⟩]
  else []

theorem frameStep_single (c c' : Capture H) (frame : Frame) (h1 : frame.kind ≠ 1)
    (h9 : frame.kind ≠ 9) (h : frameStep publicAuthority upstream c frame = .ok c') :
    c' = { c with controls := c.controls ++ noted frame } := by
  unfold frameStep at h
  simp only at h
  rw [if_pos ⟨h1, h9⟩] at h
  obtain ⟨_, -, h⟩ := (Res.bind_ok_iff _ _ _).1 h
  rw [← Except.ok.inj h]
  unfold noted
  split
  · rfl
  · rw [List.append_nil]

theorem frameStep_group (c : Capture H) (frame : Frame) (h : frame.kind = 1 ∨ frame.kind = 9) :
    frameStep publicAuthority upstream c frame = headerFrame publicAuthority upstream c frame := by
  have hno : ¬ (frame.kind = 4 ∨ frame.kind = 2 ∨ frame.kind = 8) := by
    rcases h with h | h
    · rw [h]
      decide
    · rw [h]
      decide
  have hgroup : ¬ (frame.kind ≠ 1 ∧ frame.kind ≠ 9) := fun hc => h.elim hc.1 hc.2
  unfold frameStep
  rw [if_neg hgroup, if_neg fun hc => hno hc.1]

theorem headerFrame_eq (c : Capture H) (frame : Frame) (front padding fragment : Bytes)
    (hpay : frame.payload = front ++ fragment ++ padding)
    (hpad : paddingOf frame = .ok padding.length) (hpre : prefixOf frame = front.length) :
    headerFrame publicAuthority upstream c frame =
      if endsHeaders frame.flags then
        request publicAuthority upstream { c with
          blocks := extended c.blocks frame.stream fragment
          layouts := extended c.layouts frame.stream [layoutOf front padding frame] } frame.stream
      else .ok { c with
        blocks := extended c.blocks frame.stream fragment
        layouts := extended c.layouts frame.stream [layoutOf front padding frame] } := by
  have hlen : frame.payload.length = front.length + fragment.length + padding.length := by
    rw [hpay]
    simp only [List.length_append]
  have hcut : frame.payload.length - padding.length = (front ++ fragment).length := by
    rw [List.length_append]
    omega
  have htake : frame.payload.take front.length = front := by
    rw [hpay, List.append_assoc, List.take_left]
  have hdrop : frame.payload.drop (frame.payload.length - padding.length) = padding := by
    rw [hcut, hpay, List.drop_left]
  have hmid : (frame.payload.take (frame.payload.length - padding.length)).drop front.length =
      fragment := by
    rw [hcut, hpay, List.take_left, List.drop_left]
  have hhex : (if padding.length ≠ 0 then lowerHex padding else []) = lowerHex padding := by
    by_cases h0 : padding.length ≠ 0
    · rw [if_pos h0]
    · rw [if_neg h0, List.eq_nil_of_length_eq_zero (not_not.1 h0)]
      rfl
  unfold headerFrame
  rw [hpad]
  simp only [bind, Except.bind]
  rw [ensure, if_pos (by omega), hpre, hmid, htake, hdrop, hhex]
  rfl

theorem parts_around {frame : Frame} {front padding fragment : Bytes}
    (h : Parts frame front padding fragment) :
    paddingOf frame = .ok padding.length ∧ prefixOf frame = front.length := by
  have hpl := h.padding_length
  have hfl := h.front_length
  constructor
  · unfold paddingOf
    by_cases hp : isPadded frame.flags = true
    · rw [if_pos ⟨h.kind, hp⟩]
      rw [if_pos hp] at hpl
      cases front with
      | nil =>
        rw [H2.frontLength, if_pos hp, List.length_nil] at hfl
        omega
      | cons c front =>
        have hbyte : byteAt frame.payload 0 = .ok c := by
          rw [Res.byteAt_ok_iff, h.payload]
          rfl
        rw [hbyte, hpl]
        rfl
    · rw [if_neg fun hc => hp hc.2]
      rw [if_neg hp] at hpl
      rw [hpl]
  · unfold prefixOf
    rw [if_pos h.kind, hfl]
    rfl

theorem continuation_around {frame : Frame} (h : frame.kind = 9) :
    paddingOf frame = .ok ([] : Bytes).length ∧ prefixOf frame = ([] : Bytes).length := by
  have h1 : frame.kind ≠ 1 := by
    rw [h]
    decide
  unfold paddingOf prefixOf
  rw [if_neg fun hc => h1 hc.1, if_neg h1]
  exact ⟨rfl, rfl⟩

/-! ## Groups -/

/-- `block` of the stream is open, and `layouts` are the frames that it came in. -/
def opened (c : Capture H) (stream : UInt32) (block : Bytes) (layouts : List Layout) : Capture H :=
  { c with blocks := [(stream, block)], layouts := [(stream, layouts)] }

theorem extended_nil {α : Type} (stream : UInt32) (items : List α) :
    extended [] stream items = [(stream, items)] := rfl

theorem extended_open {α : Type} (stream : UInt32) (l items : List α) :
    extended [(stream, l)] stream items = [(stream, l ++ items)] := by
  simp [extended, entry, without]

theorem fold_continuations (c : Capture H) (stream : UInt32) (rest : List Frame) :
    ∀ block layouts, (∀ f ∈ rest, f.kind = 9 ∧ f.stream = stream) → endsOnce rest = true →
      rest.foldlM (frameStep publicAuthority upstream) (opened c stream block layouts) =
        request publicAuthority upstream (opened c stream (block ++ rest.flatMap Frame.payload)
          (layouts ++ rest.map (layoutOf [] []))) stream := by
  induction rest with
  | nil =>
    intro block layouts _ hends
    cases hends
  | cons f rest ih =>
    intro block layouts hrest hends
    obtain ⟨⟨h9, rfl⟩, hrest⟩ := List.forall_mem_cons.1 hrest
    obtain ⟨hpad, hpre⟩ := continuation_around h9
    have hstep := headerFrame_eq publicAuthority upstream (opened c f.stream block layouts) f [] []
      f.payload (by rw [List.nil_append, List.append_nil]) hpad hpre
    rw [show (opened c f.stream block layouts).blocks = [(f.stream, block)] from rfl,
      show (opened c f.stream block layouts).layouts = [(f.stream, layouts)] from rfl,
      extended_open, extended_open] at hstep
    rw [List.foldlM_cons, frameStep_group _ _ _ _ (Or.inr h9), hstep]
    cases rest with
    | nil =>
      rw [if_pos (show endsHeaders f.flags = true from hends)]
      simp only [List.foldlM_nil, bind_pure]
      simp [opened]
    | cons g rest =>
      rw [endsOnce, Bool.and_eq_true, Bool.not_eq_true'] at hends
      rw [hends.1, if_neg Bool.false_ne_true]
      have hih := ih (block ++ f.payload) (layouts ++ [layoutOf [] [] f]) hrest hends.2
      rw [List.append_assoc, List.append_assoc] at hih
      exact hih

theorem fold_group (c : Capture H) {first : Frame} {rest : List Frame}
    {front padding fragment : Bytes} (hg : IsGroup first rest)
    (hp : Parts first front padding fragment) (hb : c.blocks = []) (hl : c.layouts = []) :
    (first :: rest).foldlM (frameStep publicAuthority upstream) c =
      request publicAuthority upstream (opened c first.stream
        (fragment ++ rest.flatMap Frame.payload) (layoutsOf front padding (first :: rest)))
        first.stream := by
  obtain ⟨hpad, hpre⟩ := parts_around hp
  have hstep := headerFrame_eq publicAuthority upstream c first front padding fragment hp.payload
    hpad hpre
  rw [hb, hl, extended_nil, extended_nil] at hstep
  rw [List.foldlM_cons, frameStep_group _ _ _ _ (Or.inl hp.kind), hstep]
  have hends := hg.ends
  cases rest with
  | nil =>
    rw [if_pos (show endsHeaders first.flags = true from hends)]
    simp only [List.foldlM_nil, bind_pure]
    simp [opened, layoutsOf]
  | cons g rest =>
    rw [endsOnce, Bool.and_eq_true, Bool.not_eq_true'] at hends
    rw [hends.1, if_neg Bool.false_ne_true]
    exact fold_continuations publicAuthority upstream c first.stream (g :: rest) fragment
      [layoutOf front padding first] hg.continuation hends.2

/-- A header as the lab compares it. -/
def headerForm (h : Header) : Str × Str :=
  (lowerHex h.1, lowerHex (mapped h.1 h.2 publicAuthority upstream))

/-- What the lab notes of a group. -/
def formOf (stream : UInt32) (headers : List Header) (tokens : List Token) (layouts : List Layout)
    (size : Nat) : RequestForm where
  stream := stream
  headers := headers.map (headerForm publicAuthority upstream)
  representations := tokens
  frames := lastShorter layouts size

theorem request_ok (c c' : Capture H) (stream : UInt32) (block : Bytes) (layouts : List Layout)
    (hb : c.blocks = []) (hl : c.layouts = [])
    (h : request publicAuthority upstream (opened c stream block layouts) stream = .ok c') :
    ∃ headers decoder tokens, H.decode c.decoder block = some (headers, decoder) ∧
      representations publicAuthority upstream block headers = .ok tokens ∧
      c' = { c with
        decoder
        requests := c.requests ++
          [formOf publicAuthority upstream stream headers tokens layouts block.length] } := by
  have hentry : entry (opened c stream block layouts).blocks stream = block := by
    simp [entry, opened]
  have hentry' : entry (opened c stream block layouts).layouts stream = layouts := by
    simp [entry, opened]
  have hwithout : without (opened c stream block layouts).blocks stream = c.blocks := by
    simp [without, opened, hb]
  have hwithout' : without (opened c stream block layouts).layouts stream = c.layouts := by
    simp [without, opened, hl]
  unfold request at h
  rw [hentry, hentry', hwithout, hwithout'] at h
  obtain ⟨⟨headers, decoder⟩, hdec, h⟩ := (Res.bind_ok_iff _ _ _).1 h
  obtain ⟨tokens, htok, h⟩ := (Res.bind_ok_iff _ _ _).1 h
  refine ⟨headers, decoder, tokens, (Res.okOr_ok_iff _ _ _).1 hdec, htok, ?_⟩
  exact (Except.ok.inj h).symm

end

end PairedHttp
