import FingerprintBridge.H2.Group

/-!
# Reframing is exact

`spread` says where the octets of a block go: each fragment takes as many as it had,
the last one what fits, and frames are added for the rest.  `reframe` carries a group
over to the spread of the new block (`reframe_spread`), and no other layout needs fewer
frames (`Layout.fewest`).
-/

namespace H2

open HpackWire (forall_octet)

/-! ## Where a block goes -/

/-- The fragments `b` is cut into, given the ones of the original; the first frame has
`overhead` octets beside its fragment. -/
def spread (maxFrame : Nat) : (overhead : Nat) → List Bytes → Bytes → List Bytes
  | _, [], b => chunks maxFrame b
  | overhead, fragment :: old, b =>
    let cap := if old = [] then maxFrame - overhead else fragment.length
    b.take cap :: spread maxFrame 0 old (b.drop cap)

/-- Fragments that may stand for those of the original: but for the last, each has as
many octets as it had while there are any. -/
inductive Layout (maxFrame : Nat) : (overhead : Nat) → List Bytes → List Bytes → Prop
  | added {overhead : Nat} {more : List Bytes} :
      (∀ b ∈ more, b.length ≤ maxFrame) → Layout maxFrame overhead [] more
  | last {overhead : Nat} {fragment b : Bytes} {more : List Bytes} :
      b.length + overhead ≤ maxFrame → (∀ b ∈ more, b.length ≤ maxFrame) →
      Layout maxFrame overhead [fragment] (b :: more)
  | kept {overhead : Nat} {fragment next b : Bytes} {old new : List Bytes} :
      b.length = min fragment.length (b ++ new.flatten).length →
      Layout maxFrame 0 (next :: old) new →
      Layout maxFrame overhead (fragment :: next :: old) (b :: new)

section
variable (maxFrame : Nat)

theorem spread_flatten (hmax : maxFrame ≠ 0) (old : List Bytes) (overhead : Nat) (b : Bytes) :
    (spread maxFrame overhead old b).flatten = b := by
  induction old generalizing overhead b with
  | nil => exact chunks_flatten maxFrame hmax b
  | cons fragment old ih => rw [spread, List.flatten_cons, ih, List.take_append_drop]

theorem spread_layout (hmax : maxFrame ≠ 0) (old : List Bytes) (overhead : Nat) (b : Bytes)
    (hover : overhead ≤ maxFrame) :
    Layout maxFrame overhead old (spread maxFrame overhead old b) := by
  induction old generalizing overhead b with
  | nil => exact Layout.added (chunks_length maxFrame b)
  | cons fragment old ih =>
    cases old with
    | nil =>
      refine Layout.last ?_ (chunks_length maxFrame _)
      rw [List.length_take, if_pos rfl]
      omega
    | cons next old =>
      refine Layout.kept ?_ (ih 0 _ (Nat.zero_le _))
      rw [spread_flatten maxFrame hmax, List.take_append_drop, List.length_take,
        if_neg (List.cons_ne_nil _ _)]

/-- At least as many. -/
theorem Layout.length {overhead : Nat} {old new : List Bytes}
    (h : Layout maxFrame overhead old new) : old.length ≤ new.length := by
  induction h with
  | added _ => exact Nat.zero_le _
  | last _ _ => simp
  | kept _ _ ih => exact Nat.succ_le_succ ih

/-! ### As few as possible -/

theorem chunks_count (hmax : maxFrame ≠ 0) (b : Bytes) :
    (chunks maxFrame b).length * maxFrame < b.length + maxFrame := by
  induction b using chunks.induct maxFrame with
  | case1 b h =>
    rw [chunks, dif_pos h, List.length_nil]
    omega
  | case2 b h ih =>
    have hpos := List.length_pos_iff.2 (not_or.1 h).1
    rw [chunks, dif_neg h, List.length_cons, Nat.succ_mul]
    rcases Nat.le_total b.length maxFrame with hle | hle
    · rw [List.drop_eq_nil_of_le hle, chunks, dif_pos (Or.inl rfl), List.length_nil]
      omega
    · rw [List.length_drop] at ih
      omega

theorem flatten_length_le (pieces : List Bytes) (h : ∀ b ∈ pieces, b.length ≤ maxFrame) :
    pieces.flatten.length ≤ pieces.length * maxFrame := by
  induction pieces with
  | nil => simp
  | cons b pieces ih =>
    have hb := h b List.mem_cons_self
    have hrest := ih fun c hc => h c (List.mem_cons_of_mem _ hc)
    rw [List.flatten_cons, List.length_append, List.length_cons, Nat.succ_mul]
    omega

theorem chunks_fewest (hmax : maxFrame ≠ 0) (b : Bytes) (pieces : List Bytes)
    (h : ∀ c ∈ pieces, c.length ≤ maxFrame) (hb : b.length ≤ pieces.flatten.length) :
    (chunks maxFrame b).length ≤ pieces.length := by
  have hcount := chunks_count maxFrame hmax b
  have hroom := flatten_length_le maxFrame pieces h
  have hlt : (chunks maxFrame b).length * maxFrame < (pieces.length + 1) * maxFrame := by
    rw [Nat.succ_mul]
    omega
  exact Nat.le_of_lt_succ (Nat.lt_of_mul_lt_mul_right hlt)

/-- No layout of the same octets has fewer frames. -/
theorem Layout.fewest (hmax : maxFrame ≠ 0) {overhead : Nat} {old new : List Bytes}
    (h : Layout maxFrame overhead old new) (b : Bytes) (hb : new.flatten = b) :
    (spread maxFrame overhead old b).length ≤ new.length := by
  induction h generalizing b with
  | added hmore =>
    subst hb
    exact chunks_fewest maxFrame hmax _ _ hmore (Nat.le_refl _)
  | @last overhead fragment c more hc hmore =>
    subst hb
    refine Nat.succ_le_succ (chunks_fewest maxFrame hmax _ _ hmore ?_)
    rw [List.flatten_cons, List.length_drop, List.length_append, if_pos rfl]
    omega
  | @kept overhead fragment next c old new hc _ ih =>
    subst hb
    have hcut : (c ++ new.flatten).drop fragment.length = new.flatten := by
      rcases Nat.le_total fragment.length (c ++ new.flatten).length with hle | hle
      · rw [Nat.min_eq_left hle] at hc
        rw [← hc, List.drop_left]
      · rw [Nat.min_eq_right hle, List.length_append] at hc
        have hnil : new.flatten = [] := List.length_eq_zero_iff.1 (by omega)
        rw [hnil, List.append_nil] at hle ⊢
        exact List.drop_eq_nil_of_le hle
    rw [spread, List.flatten_cons, if_neg (List.cons_ne_nil _ _), hcut]
    exact Nat.succ_le_succ (ih _ rfl)

/-- A frame is added only once the last of the original is full. -/
theorem spread_full (old : List Bytes) (overhead : Nat) (b : Bytes) (hne : old ≠ [])
    (hadded : old.length < (spread maxFrame overhead old b).length) :
    ∃ c, (spread maxFrame overhead old b)[old.length - 1]? = some c ∧
      c.length = maxFrame - if old.length = 1 then overhead else 0 := by
  induction old generalizing overhead b with
  | nil => exact (hne rfl).elim
  | cons fragment old ih =>
    cases old with
    | nil =>
      refine ⟨_, rfl, ?_⟩
      have hmore : chunks maxFrame (b.drop (maxFrame - overhead)) ≠ [] := by
        intro h0
        rw [spread, if_pos rfl, spread, h0] at hadded
        exact Nat.lt_irrefl _ hadded
      have hlong : maxFrame - overhead < b.length := by
        by_contra hshort
        rw [List.drop_eq_nil_of_le (by omega), chunks, dif_pos (Or.inl rfl)] at hmore
        exact hmore rfl
      rw [if_pos rfl, List.length_take]
      exact Nat.min_eq_left (Nat.le_of_lt hlong)
    | cons next old =>
      rw [spread] at hadded ⊢
      obtain ⟨c, hc, hlen⟩ := ih 0 _ (List.cons_ne_nil _ _) (Nat.lt_of_succ_lt_succ hadded)
      refine ⟨c, ?_, ?_⟩
      · simpa using hc
      · rw [hlen]
        simp

/-- The same block goes where it was, if the last fragment fits. -/
theorem spread_self (old : List Bytes) (overhead : Nat) (hne : old ≠ [])
    (hlast : ∀ c, old.getLast? = some c →
      c.length ≤ maxFrame - if old.length = 1 then overhead else 0) :
    spread maxFrame overhead old old.flatten = old := by
  induction old generalizing overhead with
  | nil => exact (hne rfl).elim
  | cons fragment old ih =>
    cases old with
    | nil =>
      have hfit : fragment.length ≤ maxFrame - overhead := hlast fragment rfl
      rw [spread, if_pos rfl, List.flatten_singleton, List.take_of_length_le hfit,
        List.drop_eq_nil_of_le hfit, spread, chunks, dif_pos (Or.inl rfl)]
    | cons next old =>
      rw [spread, if_neg (List.cons_ne_nil _ _), List.flatten_cons, List.take_left, List.drop_left,
        ih 0 (List.cons_ne_nil _ _)]
      intro c hc
      have := hlast c (by simpa using hc)
      simpa using this

end

/-! ## The loop -/

/-- `g` is `f` with another payload and END_HEADERS left out. -/
def Emptied (f g : Frame) : Prop :=
  g.kind = f.kind ∧ g.stream = f.stream ∧ g.flags = f.flags &&& ~~~4

theorem reframeLoop_spread (first : Frame) (front padding encoded : Bytes) (maxFrame : Nat)
    (fs : List Frame) : ∀ (i pos : Nat) (out : List Frame) (pos' : Nat), i ≠ 0 →
      reframeLoop first front padding encoded maxFrame i fs pos = .ok (out, pos') →
      out.map Frame.payload ++ chunks maxFrame (encoded.drop pos') =
        spread maxFrame 0 (fs.map Frame.payload) (encoded.drop pos) ∧
      List.Forall₂ Emptied fs out ∧ (∀ f ∈ fs, f.kind = 9 ∧ f.stream = first.stream) ∧
      ∀ f ∈ fs, f.payload.length ≤ maxFrame := by
  induction fs with
  | nil =>
    intro i pos out pos' _ h
    cases h
    exact ⟨rfl, List.Forall₂.nil, fun f hf => (List.not_mem_nil hf).elim,
      fun f hf => (List.not_mem_nil hf).elim⟩
  | cons frame fs ih =>
    intro i pos out pos' hi h
    obtain ⟨cap, pos₁, refilled, out', rfl, hr, hrest, h⟩ := reframeLoop_cons_ok h
    obtain ⟨hspread, hsame, hcont, hlen⟩ := ih (i + 1) _ _ _ (Nat.succ_ne_zero i) h
    have hroom := hr.room
    rw [if_neg hi] at hroom
    have hif : (if fs.map Frame.payload = [] then maxFrame - 0 else frame.payload.length) = cap := by
      simp only [List.map_eq_nil_iff, Nat.sub_zero]
      exact hroom.symm
    have hpayload : refilled.payload = (encoded.drop pos).take cap := by
      rw [hr.eq]
      exact if_neg hi
    have hempty : Emptied frame refilled := by
      rw [hr.eq]
      exact ⟨rfl, rfl, rfl⟩
    rw [hrest] at hspread
    refine ⟨?_, List.Forall₂.cons hempty hsame, ?_, ?_⟩
    · rw [List.map_cons, List.map_cons, spread, List.cons_append, hspread, hpayload, hif]
    · exact List.forall_mem_cons.2 ⟨hr.continuation.resolve_left hi, hcont⟩
    · exact List.forall_mem_cons.2 ⟨hr.within, hlen⟩

/-! ## Groups -/

/-- `g` is `f` but for its payload and END_HEADERS. -/
def SameFrame (f g : Frame) : Prop :=
  g.kind = f.kind ∧ g.stream = f.stream ∧ g.flags ||| 4 = f.flags ||| 4

/-- Marking the last frame changes its flags only. -/
theorem Emptied.marked {e f g : Frame} (he : Emptied e f)
    (hg : (g.flags = f.flags ∨ g.flags = f.flags ||| 4) ∧ g.kind = f.kind ∧ g.stream = f.stream ∧
      g.payload = f.payload) : SameFrame e g := by
  obtain ⟨hkind, hstream, hflags⟩ := he
  obtain ⟨hf, hk, hs, -⟩ := hg
  refine ⟨hk.trans hkind, hs.trans hstream, ?_⟩
  rcases hf with hf | hf
  · rw [hf, hflags, clear_mark]
  · rw [hf, mark_mark, hflags, clear_mark]

/-- The fragments of a group, whose HEADERS frame has `front` before and `padding`
after its own. -/
structure GroupCarries (group : List Frame) (front padding : Bytes) (fragments : List Bytes) : Prop where
  cut : ∃ first rest fragment, group = first :: rest ∧ Parts first front padding fragment ∧
    (∀ f ∈ rest, f.kind = 9 ∧ f.stream = first.stream) ∧ fragments = fragment :: rest.map Frame.payload

/-- The payloads of a group. -/
def wrap (front padding : Bytes) : List Bytes → List Bytes
  | [] => []
  | fragment :: fragments => (front ++ fragment ++ padding) :: fragments

/-- What is accepted begins with a HEADERS frame, and the limit is that of a frame. -/
theorem reframe_accepts (original out : List Frame) (encoded : Bytes) (maxFrame : Nat)
    (h : reframe original encoded maxFrame = .ok out) :
    16384 ≤ maxFrame ∧ ∃ first rest front padding fragment,
      original = first :: rest ∧ Parts first front padding fragment := by
  unfold reframe at h
  obtain ⟨_, h1, h⟩ := (Res.bind_ok_iff _ _ _).1 h
  refine ⟨((Res.ensure_ok_iff _ _ _).1 h1).1, ?_⟩
  cases original with
  | nil => cases h
  | cons first rest =>
    obtain ⟨⟨front, padding, fragment⟩, hparts, -⟩ := (Res.bind_ok_iff _ _ _).1 h
    exact ⟨first, rest, front, padding, fragment, rfl, headerParts_ok _ _ _ _ hparts⟩

/-- **What `reframe` does.**  The original frames, and more CONTINUATIONs, carry the
spread of the block. -/
theorem reframe_spread (first : Frame) (rest out : List Frame) (encoded front padding fragment : Bytes)
    (maxFrame : Nat) (hp : Parts first front padding fragment)
    (h : reframe (first :: rest) encoded maxFrame = .ok out) :
    out.map Frame.payload = wrap front padding (spread maxFrame (front.length + padding.length)
      (fragment :: rest.map Frame.payload) encoded) ∧
    List.Forall₂ SameFrame (first :: rest) (out.take (rest.length + 1)) ∧
    (∀ f ∈ rest, f.kind = 9 ∧ f.stream = first.stream) ∧
    ∀ f ∈ first :: rest, f.payload.length ≤ maxFrame := by
  obtain ⟨-, cap, refilled, out', pos₁, pos, hr, hdrop, hloop, h⟩ := reframe_cons_ok hp h
  obtain ⟨hspread, hsame, hcont, hlen⟩ := reframeLoop_spread first front padding encoded maxFrame
    rest 1 _ _ _ (Nat.succ_ne_zero 0) hloop
  rw [hdrop] at hspread
  have hfirst : first.payload.length = fragment.length + (front.length + padding.length) := by
    rw [hp.payload]
    simp only [List.length_append]
    omega
  have hif : (if rest.map Frame.payload = [] then maxFrame - (front.length + padding.length)
      else fragment.length) = cap := by
    have hroom := hr.room
    simp only [List.map_eq_nil_iff, if_true] at hroom ⊢
    split at hroom
    · next hnil =>
      rw [if_pos hnil]
      omega
    · next hne =>
      rw [if_neg hne]
      omega
  have hempty : Emptied first refilled := by
    rw [hr.eq]
    exact ⟨rfl, rfl, rfl⟩
  have hpayload : refilled.payload = front ++ encoded.take cap ++ padding := by
    rw [hr.eq]
    rfl
  have hclear : ∀ e f : Frame, Emptied e f → endsHeaders f.flags = false := by
    intro e f he
    rw [he.2.2]
    exact endsHeaders_clear _
  -- marking the last frame changes its flags only
  obtain ⟨-, hmark⟩ := markLast_ok _ _ h fun f hf => by
    rcases List.mem_cons.1 hf with rfl | hf
    · exact hclear first f hempty
    rcases List.mem_append.1 hf with hf | hf
    · obtain ⟨e, -, he⟩ := forall₂_mem_right hsame f hf
      exact hclear e f he
    · exact (mem_added first maxFrame _ f hf).2.2.1
  have hpayloads := forall₂_map_eq (hmark.imp fun f g hfg => hfg.2.2.2)
  refine ⟨?_, ?_, hcont, List.forall_mem_cons.2 ⟨hr.within, hlen⟩⟩
  · rw [hpayloads, spread, hif, ← hspread, wrap, List.map_cons, List.map_append, hpayload, added,
      List.map_map]
    congr 2
    exact List.map_id _
  · have hcut := List.forall₂_take (rest.length + 1) hmark
    rw [List.take_succ_cons, hsame.length_eq, List.take_left] at hcut
    rw [hsame.length_eq]
    generalize out.take (out'.length + 1) = cut at hcut ⊢
    cases hcut with
    | cons hfirst hrest =>
      refine .cons (hempty.marked hfirst) (forall₂_comp ?_ hsame hrest)
      exact fun e f g he hg => he.marked hg

/-- The flags of a group are those of another, END_HEADERS left out, and each sets it once. -/
theorem endsOnce_flags {fs gs : List Frame} (h : List.Forall₂ SameFrame fs gs)
    (hf : endsOnce fs = true) (hg : endsOnce gs = true) :
    gs.map Frame.flags = fs.map Frame.flags := by
  have hset : ∀ flags : UInt8, endsHeaders flags = true → flags ||| 4 = flags := fun flags h =>
    forall_octet (fun f => endsHeaders f = true → f ||| 4 = f) (by decide +kernel) flags h
  have hclear : ∀ flags : UInt8, endsHeaders flags = false → (flags ||| 4) &&& ~~~4 = flags :=
    fun flags h =>
      forall_octet (fun f => endsHeaders f = false → (f ||| 4) &&& ~~~4 = f) (by decide +kernel) flags h
  induction h with
  | nil => rfl
  | @cons f g fs gs hfg hrest ih =>
    cases hrest with
    | nil =>
      change endsHeaders f.flags = true at hf
      change endsHeaders g.flags = true at hg
      rw [List.map_cons, List.map_cons, ← hset f.flags hf, ← hset g.flags hg, hfg.2.2]
    | cons hfg' hrest' =>
      rw [endsOnce, Bool.and_eq_true, Bool.not_eq_true'] at hf hg
      rw [List.map_cons, ih hf.2 hg.2, ← hclear g.flags hg.1, hfg.2.2, hclear f.flags hf.1]
      rfl

/-- A group that was reframed: the block in the frames of the original, and in as few
more as it takes. -/
structure Reframed (original out : List Frame) (encoded : Bytes) (maxFrame : Nat) : Prop where
  kept : List.Forall₂ SameFrame original (out.take original.length)
  no_fewer : original.length ≤ out.length
  ends : endsOnce out = true
  limit : ∀ f ∈ out, f.payload.length ≤ maxFrame
  parts : ∃ front padding old new, GroupCarries original front padding old ∧
    GroupCarries out front padding new ∧ new.flatten = encoded ∧
    Layout maxFrame (front.length + padding.length) old new ∧
    ∀ other, Layout maxFrame (front.length + padding.length) old other → other.flatten = encoded →
      new.length ≤ other.length
  full : original.length < out.length →
    ∃ f, out[original.length - 1]? = some f ∧ f.payload.length = maxFrame
  same : ∀ front padding old, GroupCarries original front padding old → old.flatten = encoded →
    endsOnce original = true → out = original

theorem GroupCarries.unique {group : List Frame} {front padding front' padding' : Bytes}
    {old old' : List Bytes} (h : GroupCarries group front padding old)
    (h' : GroupCarries group front' padding' old') : front = front' ∧ padding = padding' ∧ old = old' := by
  obtain ⟨first, rest, fragment, rfl, hp, -, rfl⟩ := h.cut
  obtain ⟨first', rest', fragment', hcons, hp', -, rfl⟩ := h'.cut
  obtain ⟨rfl, rfl⟩ := List.cons.inj hcons
  have heq := hp.headerParts.symm.trans hp'.headerParts
  rw [Except.ok.injEq, Prod.mk.injEq, Prod.mk.injEq] at heq
  obtain ⟨rfl, rfl, rfl⟩ := heq
  exact ⟨rfl, rfl, rfl⟩

theorem eq_of_sameFrame {fs gs : List Frame} (h : List.Forall₂ SameFrame fs gs)
    (hflags : gs.map Frame.flags = fs.map Frame.flags)
    (hpay : gs.map Frame.payload = fs.map Frame.payload) : gs = fs := by
  induction h with
  | nil => rfl
  | @cons f g fs gs hfg _ ih =>
    rw [List.map_cons, List.map_cons, List.cons.injEq] at hflags hpay
    obtain ⟨hkind, hstream, -⟩ := hfg
    obtain ⟨kind, flags, stream, payload⟩ := f
    obtain ⟨kind', flags', stream', payload'⟩ := g
    cases hkind
    cases hstream
    cases hflags.1
    cases hpay.1
    rw [ih hflags.2 hpay.2]

/-- **Reframing is exact and minimal**, for every group, block and limit that is accepted. -/
theorem reframe_exact (original out : List Frame) (encoded : Bytes) (maxFrame : Nat)
    (h : reframe original encoded maxFrame = .ok out) : Reframed original out encoded maxFrame := by
  obtain ⟨hmax, first, rest, front, padding, fragment, rfl, hp⟩ :=
    reframe_accepts original out encoded maxFrame h
  obtain ⟨hpay, hkept, hcont, hfits⟩ := reframe_spread first rest out encoded front padding fragment
    maxFrame hp h
  obtain ⟨first', rest', fragment', rfl, hgroup, hstream, hflags, hp', -, hlimit⟩ :=
    reframe_ok first rest out encoded front padding fragment maxFrame hp h
  set old := fragment :: rest.map Frame.payload with hold
  set overhead := front.length + padding.length with hover
  have hfirst : overhead + fragment.length ≤ maxFrame := by
    have := hfits first List.mem_cons_self
    rw [hp.payload] at this
    simp only [List.length_append] at this
    omega
  -- what the new group carries
  have hnew : fragment' :: rest'.map Frame.payload = spread maxFrame overhead old encoded := by
    rw [hold, spread, wrap, List.map_cons, hp'.payload, List.cons.injEq] at hpay
    rw [hold, spread, hpay.2, ← List.append_cancel_left (List.append_cancel_right hpay.1)]
  have hcarries : GroupCarries (first :: rest) front padding old := ⟨first, rest, fragment, rfl, hp, hcont, rfl⟩
  have hcarries' : GroupCarries (first' :: rest') front padding (spread maxFrame overhead old encoded) :=
    ⟨first', rest', fragment', rfl, hp', hgroup.continuation, hnew.symm⟩
  have hlen : (first' :: rest').length = (spread maxFrame overhead old encoded).length := by
    rw [← hnew, List.length_cons, List.length_cons, List.length_map]
  have hold_len : old.length = (first :: rest).length := by
    rw [hold, List.length_cons, List.length_cons, List.length_map]
  have hlayout := spread_layout maxFrame (by omega) old overhead encoded (by omega)
  refine ⟨hkept, ?_, hgroup.ends, hlimit, ⟨front, padding, old, _, hcarries, hcarries',
    spread_flatten maxFrame (by omega) old overhead encoded, hlayout, fun other ho hb =>
      ho.fewest maxFrame (by omega) encoded hb⟩, ?_, ?_⟩
  · rw [hlen, ← hold_len]
    exact hlayout.length
  · -- the frame that carries the last of the original fragments
    intro hadded
    rw [hlen, ← hold_len] at hadded
    obtain ⟨c, hc, hfull⟩ := spread_full maxFrame old overhead encoded (List.cons_ne_nil _ _) hadded
    rw [← hnew, hold_len] at hc
    rw [hold_len] at hfull
    cases rest with
    | nil =>
      cases hc
      refine ⟨first', rfl, ?_⟩
      have hfull : fragment'.length = maxFrame - overhead := hfull
      rw [hp'.payload]
      simp only [List.length_append]
      omega
    | cons next rest =>
      have hc : (rest'.map Frame.payload)[rest.length]? = some c := hc
      rw [List.getElem?_map, Option.map_eq_some_iff] at hc
      obtain ⟨f, hf, rfl⟩ := hc
      exact ⟨f, hf, hfull⟩
  · intro front' padding' old' hc hsame hends
    obtain ⟨rfl, rfl, rfl⟩ := hcarries.unique hc
    have hself := spread_self maxFrame old overhead (List.cons_ne_nil _ _) fun c hc => by
      cases rest with
      | nil =>
        cases hc
        show fragment.length ≤ maxFrame - overhead
        omega
      | cons next rest =>
        rw [hold, List.map_cons, List.getLast?_cons_cons, ← List.map_cons] at hc
        obtain ⟨f, hf, rfl⟩ := List.mem_map.1 (List.mem_of_getLast? hc)
        exact hfits f (List.mem_cons_of_mem _ hf)
    rw [← hsame, hself] at hpay hlen
    have htake : (first' :: rest').take (first :: rest).length = first' :: rest' := by
      rw [← hold_len, ← hlen, List.take_length]
    rw [show rest.length + 1 = (first :: rest).length from rfl, htake] at hkept
    refine eq_of_sameFrame hkept (endsOnce_flags hkept hends hgroup.ends) ?_
    rw [hpay, hold, wrap, List.map_cons, hp.payload]

/-- A group whose block has grown: the last frame takes it up. -/
theorem reframe_exact_sample : Reframed
    [⟨1, 0x29, 7, [2, 0, 0, 0, 0, 255, 1, 2, 9, 9]⟩, ⟨9, 4, 7, [3, 4]⟩]
    [⟨1, 0x29, 7, [2, 0, 0, 0, 0, 255, 1, 2, 9, 9]⟩, ⟨9, 4, 7, [3, 4, 5]⟩] [1, 2, 3, 4, 5] 16384 :=
  reframe_exact _ _ _ _ (by decide +kernel)

end H2
