import FingerprintBridge.Hpack.Survivors
import FingerprintBridge.Wire.OutboundTable
import FingerprintBridge.Wire.Panics

/-!
# The history of the outbound table

`passEvents` is what a pass of `rewrite` does to the table, by the outcome of the pass itself;
a pass that fails may have inserted its header, or nothing.  Over any sequence of calls the table
is what its events make of an empty one (`History.agrees`), and so it holds the survivors.
-/

namespace HpackWire

open Hpack

section
variable {D : HpackCrate} {U : UrlCrate} (block : Bytes) (m : Mapping U) (response : Bool)
  (limit : Nat)

/-! ## What was done -/

/-- The header a field stands for, with its value mapped. -/
def mappedHeader (c : UInt8) (l : Locals) : Act (HeaderRewriter D) Header := do
  let s ← scanField block c l.p
  let raw ← slice block s.start s.stop
  let headers ← decodeInbound raw
  let (name, value) ← onlyHeader headers
  let mapped ← m.value name value response
  return (name, mapped)

/-- A size update that is accepted sets the limit. -/
def updateEvents (l : Locals) (st : HeaderRewriter D) : List TableEvent :=
  match tableUpdate block limit l st with
  | .ok _ _ =>
    match integer block l.p 5 with
    | .ok (n, _) => [.limit n]
    | .error _ => []
  | .error _ _ => []

/-- A field that is accepted is inserted, if it says so. -/
def fieldEvents (c : UInt8) (l : Locals) (st : HeaderRewriter D) : List TableEvent :=
  match field block m response c l st with
  | .ok _ _ =>
    match (mappedHeader block m response c l).value? st with
    | some h => if isIncremental c then [.insert h] else []
    | none => []
  | .error _ _ => []

/-- What one pass does to the table. -/
def passEvents (l : Locals) (st : HeaderRewriter D) : List TableEvent :=
  match byteAt block l.p with
  | .ok c =>
    if c &&& 0xe0 = 0x20 then updateEvents block limit l st
    else fieldEvents block m response c l st
  | .error _ => []

/-- What the passes of a call do, as long as they succeed. -/
def loopEvents : (fuel : Nat) → Locals → HeaderRewriter D → List TableEvent
  | 0, _, _ => []
  | fuel + 1, l, st =>
    if l.p < block.length then
      (match rewriteOne block m response limit l st with
        | .ok l' st' => loopEvents fuel l' st'
        | .error _ _ => []) ++ passEvents block m response limit l st
    else []

def callEvents (st : HeaderRewriter D) : List TableEvent :=
  if block.length ≤ MAX_BLOCK then loopEvents block m response limit block.length {} st else []

end

/-- A rewriter, after any sequence of calls whatever they returned, and between any passes of a
call that has not ended; `events` is all that was done to its table. -/
inductive History {D : HpackCrate} {U : UrlCrate} : HeaderRewriter D → List TableEvent → Prop where
  | new : History (HeaderRewriter.new D) []
  | call (block : Bytes) (m : Mapping U) (response : Bool) (limit : Nat) {st : HeaderRewriter D}
      {events : List TableEvent} : History (U := U) st events →
      History ((rewrite block m response limit).final st)
        (callEvents block m response limit st ++ events)
  | pass (block : Bytes) (m : Mapping U) (response : Bool) (limit : Nat) (l : Locals)
      {st : HeaderRewriter D} {events : List TableEvent} : History (U := U) st events →
      History ((rewriteOne block m response limit l).final st)
        (passEvents block m response limit l st ++ events)

section
variable {D : HpackCrate} {U : UrlCrate} {block : Bytes} {m : Mapping U} {response : Bool}
  {limit : Nat}

/-! ## One pass -/

theorem updateOutbound_refused (f : Table D → Res (Table D)) (st st' : HeaderRewriter D)
    (e : Fault) (h : updateOutbound f st = .error e st') : st' = st := by
  unfold updateOutbound at h
  split at h
  · cases h
  · cases h
    rfl

/-- An update that is refused leaves the table. -/
theorem tableUpdate_refused (l : Locals) (st st' : HeaderRewriter D) (e : Fault)
    (h : tableUpdate block limit l st = .error e st') : st'.outbound = st.outbound := by
  unfold tableUpdate at h
  rcases (Act.liftM_bind_error_iff _ _ _ _ _).1 h with ⟨-, rfl⟩ | ⟨_, -, h⟩
  · rfl
  rcases (Act.liftM_bind_error_iff _ _ _ _ _).1 h with ⟨-, rfl⟩ | ⟨⟨n, p⟩, -, h⟩
  · rfl
  rcases (Act.liftM_bind_error_iff _ _ _ _ _).1 h with ⟨-, rfl⟩ | ⟨_, -, h⟩
  · rfl
  rcases (Act.liftM_bind_error_iff _ _ _ _ _).1 h with ⟨-, rfl⟩ | ⟨octets, -, h⟩
  · rfl
  rcases (Act.bind_error_iff _ _ _ _ _).1 h with h | ⟨_, st₁, hdecode, h⟩
  · exact (decodeInbound_error _ _ _ _ h).1
  obtain ⟨-, hout⟩ := decodeInbound_ok _ _ _ _ hdecode
  rcases (Act.bind_error_iff _ _ _ _ _).1 h with h | ⟨_, st₂, -, h⟩
  · rw [updateOutbound_refused _ _ _ _ h, hout]
  · exact absurd h (Act.pure_ne_error _ _ _ _)

/-- A field that is refused leaves the table. -/
theorem field_refused (c : UInt8) (l : Locals) (st st' : HeaderRewriter D) (e : Fault)
    (h : field block m response c l st = .error e st') : st'.outbound = st.outbound := by
  unfold field at h
  rcases (Act.liftM_bind_error_iff _ _ _ _ _).1 h with ⟨-, rfl⟩ | ⟨s, -, h⟩
  · rfl
  rcases (Act.liftM_bind_error_iff _ _ _ _ _).1 h with ⟨-, rfl⟩ | ⟨raw, -, h⟩
  · rfl
  rcases (Act.bind_error_iff _ _ _ _ _).1 h with h | ⟨headers, st₁, hdecode, h⟩
  · exact (decodeInbound_error _ _ _ _ h).1
  obtain ⟨-, hout⟩ := decodeInbound_ok _ _ _ _ hdecode
  rw [← hout]
  rcases (Act.liftM_bind_error_iff _ _ _ _ _).1 h with ⟨-, rfl⟩ | ⟨⟨name, value⟩, -, h⟩
  · rfl
  rcases (Act.liftM_bind_error_iff _ _ _ _ _).1 h with ⟨-, rfl⟩ | ⟨l₁, -, h⟩
  · rfl
  rcases (Act.liftM_bind_error_iff _ _ _ _ _).1 h with ⟨-, rfl⟩ | ⟨mapped, -, h⟩
  · rfl
  rcases (Act.liftM_bind_error_iff _ _ _ _ _).1 h with ⟨-, rfl⟩ | ⟨_, -, h⟩
  · rfl
  rcases (Act.bind_error_iff _ _ _ _ _).1 h with h | ⟨t, st₂, hget, h⟩
  · cases h
  obtain ⟨-, rfl⟩ := getOutbound_ok _ _ _ hget
  rcases (Act.liftM_bind_error_iff _ _ _ _ _).1 h with ⟨-, rfl⟩ | ⟨piece, -, h⟩
  · rfl
  rcases (Act.bind_error_iff _ _ _ _ _).1 h with h | ⟨_, st₃, -, h⟩
  · rw [updateOutbound_refused _ _ _ _ h]
  · exact absurd h (Act.pure_ne_error _ _ _ _)

/-- The header of an accepted field is the one `remember` is given. -/
theorem field_mappedHeader (c : UInt8) (l l' : Locals) (st st' : HeaderRewriter D)
    (h : field block m response c l st = .ok l' st') :
    ∃ g, (mappedHeader block m response c l).value? st = some g ∧
      remember c g st.outbound = .ok st'.outbound := by
  obtain ⟨s, raw, hd, mapped, piece, hscan, hraw, hdecode, -, hmapped, -, -, hremember, -⟩ :=
    field_run l l' st st' c h
  refine ⟨(hd.1, mapped), (Act.value?_eq_some_iff _ _ _).2 ⟨{ st with inbound := st'.inbound }, ?_⟩,
    hremember⟩
  unfold mappedHeader
  rw [Act.liftM_bind_ok_iff]
  refine ⟨s, hscan, ?_⟩
  rw [Act.liftM_bind_ok_iff]
  refine ⟨raw, hraw, ?_⟩
  rw [Act.bind_ok_iff]
  refine ⟨[hd], _, decodeInbound_of_decode _ _ _ _ hdecode, ?_⟩
  rw [Act.liftM_bind_ok_iff]
  refine ⟨hd, rfl, ?_⟩
  rw [Act.liftM_bind_ok_iff]
  exact ⟨mapped, hmapped, rfl⟩

variable (block m response limit)

theorem tableUpdate_events (l : Locals) (st : HeaderRewriter D) (events : List TableEvent)
    (ha : Agrees st.outbound (replay events)) :
    Agrees ((tableUpdate block limit l).final st).outbound
        (replay (updateEvents block limit l st ++ events)) ∧
      ∀ n, .limit n ∈ updateEvents block limit l st → n ≤ 65536 := by
  unfold updateEvents
  cases h : tableUpdate block limit l st with
  | error e st' =>
    rw [Act.final_error h, tableUpdate_refused l st st' e h]
    exact ⟨ha, fun n hn => absurd hn List.not_mem_nil⟩
  | ok l' st' =>
    obtain ⟨n, _, _, hint, -, -, hle, -, hevict, -⟩ := tableUpdate_run l l' st st' h
    obtain ⟨t, ht, ha'⟩ := st.outbound.resize_eq _ ha n
    rw [hevict] at ht
    obtain rfl := Except.ok.inj ht
    rw [Act.final_ok h, hint]
    refine ⟨ha', fun n' hn' => ?_⟩
    obtain rfl := TableEvent.limit.inj (List.mem_singleton.1 hn')
    exact hle.trans (Nat.min_le_right _ _)

theorem field_events (c : UInt8) (l : Locals) (st : HeaderRewriter D) (events : List TableEvent)
    (ha : Agrees st.outbound (replay events)) :
    Agrees ((field block m response c l).final st).outbound
        (replay (fieldEvents block m response c l st ++ events)) ∧
      ∀ n, .limit n ∉ fieldEvents block m response c l st := by
  unfold fieldEvents
  cases h : field block m response c l st with
  | error e st' =>
    rw [Act.final_error h, field_refused c l st st' e h]
    exact ⟨ha, fun n hn => absurd hn List.not_mem_nil⟩
  | ok l' st' =>
    obtain ⟨g, hg, hremember⟩ := field_mappedHeader c l l' st st' h
    unfold remember at hremember
    simp only [Act.final_ok h, hg]
    by_cases hc : isIncremental c = true
    · rw [if_pos hc] at hremember ⊢
      obtain ⟨t, ht, ha'⟩ := st.outbound.insert_eq _ ha g
      rw [hremember] at ht
      obtain rfl := Except.ok.inj ht
      refine ⟨ha', fun n hn => ?_⟩
      cases List.mem_singleton.1 hn
    · rw [if_neg hc] at hremember ⊢
      rw [← Except.ok.inj hremember]
      exact ⟨ha, fun n hn => absurd hn List.not_mem_nil⟩

theorem rewriteOne_events (l : Locals) (st : HeaderRewriter D) (events : List TableEvent)
    (ha : Agrees st.outbound (replay events)) :
    Agrees ((rewriteOne block m response limit l).final st).outbound
        (replay (passEvents block m response limit l st ++ events)) ∧
      ∀ n, .limit n ∈ passEvents block m response limit l st → n ≤ 65536 := by
  unfold passEvents rewriteOne
  cases hc : byteAt block l.p with
  | error e => exact ⟨ha, fun n hn => absurd hn List.not_mem_nil⟩
  | ok c =>
    simp only [Act.liftM_ok_bind]
    by_cases hu : c &&& 0xe0 = 0x20
    · rw [if_pos hu, if_pos hu]
      exact tableUpdate_events block limit l st events ha
    · rw [if_neg hu, if_neg hu]
      obtain ⟨hagrees, hno⟩ := field_events block m response c l st events ha
      refine ⟨?_, fun n hn => absurd hn (hno n)⟩
      -- what follows the field is a check
      cases h : field block m response c l st with
      | error e st' =>
        rw [Act.final_error h] at hagrees
        rw [Act.final_error ((Act.bind_error_iff _ _ _ _ _).2 (Or.inl h))]
        exact hagrees
      | ok l' st' =>
        rw [Act.final_ok h] at hagrees
        rw [Act.final_bind_ok h, Act.final_liftM_bind_pure]
        exact hagrees

/-! ## A whole call -/

theorem rewriteLoop_events (fuel : Nat) : ∀ (l : Locals) (st : HeaderRewriter D)
    (events : List TableEvent), Agrees st.outbound (replay events) →
    Agrees ((rewriteLoop block m response limit fuel l).final st).outbound
        (replay (loopEvents block m response limit fuel l st ++ events)) ∧
      ∀ n, .limit n ∈ loopEvents block m response limit fuel l st → n ≤ 65536 := by
  induction fuel with
  | zero => exact fun l st events ha => ⟨ha, fun n hn => absurd hn List.not_mem_nil⟩
  | succ fuel ih =>
    intro l st events ha
    unfold rewriteLoop loopEvents
    by_cases hp : l.p < block.length
    · rw [if_pos hp, if_pos hp]
      obtain ⟨hagrees, hlimits⟩ := rewriteOne_events block m response limit l st events ha
      cases h : rewriteOne block m response limit l st with
      | error e st' =>
        rw [Act.final_error h] at hagrees
        rw [Act.final_error ((Act.bind_error_iff _ _ _ _ _).2 (Or.inl h))]
        exact ⟨hagrees, hlimits⟩
      | ok l' st' =>
        rw [Act.final_ok h] at hagrees
        obtain ⟨hagrees', hlimits'⟩ := ih l' st' _ hagrees
        rw [Act.final_bind_ok h, List.append_assoc]
        exact ⟨hagrees', fun n hn => (List.mem_append.1 hn).elim (hlimits' n) (hlimits n)⟩
    · rw [if_neg hp, if_neg hp]
      exact ⟨ha, fun n hn => absurd hn List.not_mem_nil⟩

theorem rewrite_events (st : HeaderRewriter D) (events : List TableEvent)
    (ha : Agrees st.outbound (replay events)) :
    Agrees ((rewrite block m response limit).final st).outbound
        (replay (callEvents block m response limit st ++ events)) ∧
      ∀ n, .limit n ∈ callEvents block m response limit st → n ≤ 65536 := by
  unfold rewrite callEvents
  by_cases hlen : block.length ≤ MAX_BLOCK
  · simp only [ensure, if_pos hlen, Act.liftM_ok_bind]
    obtain ⟨hagrees, hlimits⟩ :=
      rewriteLoop_events block m response limit block.length {} st events ha
    refine ⟨?_, hlimits⟩
    -- what follows the loop is a check
    cases h : rewriteLoop block m response limit block.length {} st with
    | error e st' =>
      rw [Act.final_error h] at hagrees
      rw [Act.final_error ((Act.bind_error_iff _ _ _ _ _).2 (Or.inl h))]
      exact hagrees
    | ok l' st' =>
      rw [Act.final_ok h] at hagrees
      rw [Act.final_bind_ok h, Act.final_liftM_bind_pure]
      exact hagrees
  · simp only [ensure, if_neg hlen]
    exact ⟨ha, fun n hn => absurd hn List.not_mem_nil⟩

/-! ## Any sequence of calls -/

theorem limitOf_le (events : List TableEvent) (h : ∀ n, .limit n ∈ events → n ≤ 65536) :
    limitOf events ≤ 65536 := by
  induction events with
  | nil => decide
  | cons event events ih =>
    cases event with
    | insert g => exact ih fun n hn => h n (List.mem_cons_of_mem _ hn)
    | limit n => exact h n List.mem_cons_self

theorem History.agrees {st : HeaderRewriter D} {events : List TableEvent}
    (h : History (U := U) st events) :
    Agrees st.outbound (replay events) ∧ ∀ n, .limit n ∈ events → n ≤ 65536 := by
  induction h with
  | new => exact ⟨agrees_new, fun n hn => absurd hn List.not_mem_nil⟩
  | call block m response limit _ ih =>
    obtain ⟨hagrees, hlimits⟩ := rewrite_events block m response limit _ _ ih.1
    exact ⟨hagrees, fun n hn => (List.mem_append.1 hn).elim (hlimits n) (ih.2 n)⟩
  | pass block m response limit l _ ih =>
    obtain ⟨hagrees, hlimits⟩ := rewriteOne_events block m response limit l _ _ ih.1
    exact ⟨hagrees, fun n hn => (List.mem_append.1 hn).elim (hlimits n) (ih.2 n)⟩

end

/-! ## The invariant -/

/-- The header has the name, and the value if one is given. -/
def Matches (name : Bytes) (value : Option Bytes) (g : Header) : Prop :=
  g.1 = name ∧ ∀ v, value = some v → g.2 = v

theorem hit_iff_matches (name : Bytes) (value : Option Bytes) (g : Header) :
    Table.hit name value g = true ↔ Matches name value g := by
  cases value with
  | none => simp [Table.hit_none, Matches]
  | some v =>
    rw [Table.hit_some, Prod.ext_iff]
    simp [Matches]

/-- 0 is the answer only if nothing matches. -/
theorem find_zero {D : HpackCrate} (t : Table D) (preferred : Nat) (name : Bytes)
    (value : Option Bytes) (h : t.find preferred name value = 0) :
    ∀ g ∈ D.staticTable ++ t.entries, ¬ Matches name value g := by
  intro g hg hmatch
  rw [← hit_iff_matches] at hmatch
  unfold Table.find at h
  split at h
  · next hp =>
    rw [h] at hp
    cases hp
  · cases hf : (D.staticTable ++ t.entries).findIdx? (Table.hit name value) with
    | none =>
      have := List.findIdx?_eq_none_iff.1 hf g hg
      rw [hmatch] at this
      cases this
    | some i =>
      rw [hf] at h
      cases h

/-- What holds of the outbound table after these events. -/
structure TableInvariant {D : HpackCrate} (t : Table D) (events : List TableEvent) : Prop where
  size_eq : t.size = tableSize t.entries
  size_le : t.size ≤ t.limit
  limit_eq : t.limit = limitOf events
  limit_le : t.limit ≤ 65536
  survivors : ∃ k, t.entries = (inserted events).take k ∧ Survived events k ∧
    ∀ j, Survived events j → j ≤ k
  insert_ok : ∀ g, ∃ t', t.insert g = .ok t' ∧ (t.limit < headerSize g → t'.entries = [])
  evict_ok : ∀ n, ∃ t', Table.evict (D := D) { t with limit := n } = .ok t'
  find_ok : ∀ preferred name value, let i := t.find preferred name value
    (i = 0 ∧ ∀ g ∈ D.staticTable ++ t.entries, ¬ Matches name value g) ∨
      (i ≠ 0 ∧ ∃ g, t.get i = some g ∧ Matches name value g)

theorem Agrees.invariant {D : HpackCrate} {t : Table D} {events : List TableEvent}
    (ha : Agrees t (replay events)) (hlimits : ∀ n, .limit n ∈ events → n ≤ 65536) :
    TableInvariant t events := by
  obtain ⟨htake, hsurvived⟩ := replay_survivors events
  have hlimit : t.limit = limitOf events := by rw [ha.limit, replay_max]
  refine ⟨by rw [ha.size, ha.entries], ?_, hlimit, by rw [hlimit]; exact limitOf_le events hlimits,
    ⟨(replay events).entries.length, by rw [ha.entries]; exact htake,
      (hsurvived _).2 (Nat.le_refl _), fun j hj => (hsurvived j).1 hj⟩, fun g => ?_, fun n => ?_,
    fun preferred name value => ?_⟩
  · rw [ha.size, ha.limit]
    exact (replay events).fits
  · obtain ⟨t', ht', ha'⟩ := t.insert_eq _ ha g
    refine ⟨t', ht', fun hg => ?_⟩
    rw [ha'.entries]
    exact insert_oversize _ g (by rw [← ha.limit]; exact hg)
  · obtain ⟨t', ht', -⟩ := t.resize_eq _ ha n
    exact ⟨t', ht'⟩
  · by_cases h0 : t.find preferred name value = 0
    · exact Or.inl ⟨h0, find_zero t preferred name value h0⟩
    · obtain ⟨g, hg, hhit⟩ := t.find_get preferred name value h0
      exact Or.inr ⟨h0, g, hg, (hit_iff_matches name value g).1 hhit⟩

/-- **The outbound table over any calls.**  Its size is that of its entries, within the limit last
set; the entries are the newest of the inserted headers, as many as have survived every insertion
and every limit; so no eviction meets an empty table, and `find` answers with a match if there is
one. -/
theorem outbound_invariant {D : HpackCrate} {U : UrlCrate} {st : HeaderRewriter D}
    {events : List TableEvent} (h : History (U := U) st events) :
    TableInvariant st.outbound events :=
  h.agrees.1.invariant h.agrees.2

/-- `a: b` is inserted, and then `A: b` refused. -/
def refusedBlock : Bytes := [0x40, 1, 0x61, 1, 0x62, 0x40, 1, 0x41, 1, 0x62]

theorem outbound_invariant_refused :
    TableInvariant (D := boundedCrate) { entries := [([0x61], [0x62])], size := 34, limit := 4096 }
      [.insert ([0x61], [0x62])] := by
  have h := outbound_invariant
    (History.call refusedBlock sampleMapping false 4096 (History.new (D := boundedCrate)))
  have htable : ((rewrite refusedBlock sampleMapping false 4096).final
      (HeaderRewriter.new boundedCrate)).outbound =
      { entries := [([0x61], [0x62])], size := 34, limit := 4096 } := by decide +kernel
  have hevents : callEvents refusedBlock sampleMapping false 4096 (HeaderRewriter.new boundedCrate) =
      [.insert ([0x61], [0x62])] := by decide +kernel
  rwa [htable, hevents] at h

end HpackWire
