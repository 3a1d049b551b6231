import FingerprintBridge.Wire.Panics

/-!
# The errors of the rewriter

`rewrite` returns one of a few messages, or what the crate says of an octet sequence.
It complains about the table limit on one kind of block only: a size update of it is
above the limit (`Exceeds`).
-/

namespace HpackWire

open Hpack

/-- The error of `rewrite` about a table size. -/
def tableLimit : Fault := .err "HPACK table exceeds advertised/configured limit"

/-- The other messages of `rewrite`. -/
def rewriteErrors : List String :=
  ["header block too large", "HPACK table update after fields", "invalid HPACK field",
    "decoded headers too large", "rewritten header block too large",
    "exactly one :authority required"] ++ scanErrors ++ checkErrors ++ Mapping.valueErrors

/-- A fault of `rewrite` that has nothing to do with a peer's limits. -/
def Plain (e : Fault) : Prop :=
  e = .panic ∨ (∃ msg, e = .err ("HPACK decode: " ++ msg)) ∨ ∃ msg ∈ rewriteErrors, e = .err msg

theorem plain_of_errors {α : Type} {x : Res α} {msgs : List String} (h : x.Errors msgs)
    (hle : ∀ msg ∈ msgs, msg ∈ rewriteErrors) (e : Fault) (he : x = .error e) : Plain e :=
  Or.inr (Or.inr (h.mono hle e he))

theorem plain_of_ensure {c : Prop} [Decidable c] {msg : String} (h : msg ∈ rewriteErrors) (e : Fault)
    (he : ensure c msg = .error e) : Plain e :=
  plain_of_errors (Res.errors_ensure c msg h) (fun _ h => h) e he

/-- No message of the crate looks like another one: it comes behind `HPACK decode`. -/
theorem not_plain (msg : String) (h : msg ∉ rewriteErrors) (hc : msg.toList[6]? ≠ some 'd') :
    ¬ Plain (.err msg) := by
  rintro (hp | ⟨s, hs⟩ | ⟨s, hs, he⟩)
  · cases hp
  · obtain rfl := Fault.err.inj hs
    refine hc ?_
    rw [String.toList_append]
    rfl
  · obtain rfl := Fault.err.inj he
    exact h hs

/-- The size updates of a block are above the limit, at least one of them, if it is of
the format at all. -/
def Exceeds (limit : Nat) (b : Bytes) : Prop :=
  ∀ reps, Parser.all rep b = some reps → ∃ head n, .sizeUpdate head n ∈ reps ∧ min limit 65536 < n

theorem exceeds_cons (limit : Nat) (r : Rep) (b : Bytes) (hr : r.WellFormed)
    (h : (∃ head n, r = .sizeUpdate head n ∧ min limit 65536 < n) ∨ Exceeds limit b) :
    Exceeds limit (r.octets ++ b) := by
  intro reps hreps
  have hread : rep r.octets = some (r, []) := by
    have := Rep.WellFormed.valid r hr []
    rwa [List.append_nil] at this
  rw [Parser.all_cons rep delimited_rep productive_rep _ r hread, Option.map_eq_some_iff] at hreps
  obtain ⟨rs, hrs, rfl⟩ := hreps
  rcases h with ⟨head, n, rfl, hn⟩ | h
  · exact ⟨head, n, List.mem_cons_self, hn⟩
  · obtain ⟨head, n, hm, hn⟩ := h rs hrs
    exact ⟨head, n, List.mem_cons_of_mem _ hm, hn⟩

/-! ## The outbound table -/

theorem evictLoop_error (limit : Nat) (oldest : List Header) : ∀ (size : Nat) (e : Fault),
    Table.evictLoop limit oldest size = .error e → e = .panic := by
  induction oldest with
  | nil =>
    intro size e h
    unfold Table.evictLoop at h
    split at h
    · exact (Except.error.inj h).symm
    · cases h
  | cons x rest ih =>
    intro size e h
    unfold Table.evictLoop at h
    split at h
    · split at h
      · exact ih _ _ h
      · exact (Except.error.inj h).symm
    · cases h

theorem evict_error (t : Table D) (e : Fault) (h : t.evict = .error e) : e = .panic := by
  unfold Table.evict at h
  rcases (Res.bind_error_iff _ _ _).1 h with h | ⟨r, -, h⟩
  · exact evictLoop_error _ _ _ _ h
  · cases h

section
variable {D : HpackCrate} {U : UrlCrate} {block : Bytes} {m : Mapping U} {response : Bool}
  {limit : Nat}

theorem updateOutbound_error (f : Table D → Res (Table D)) (st st' : HeaderRewriter D) (e : Fault)
    (hf : ∀ t, f t = .error e → e = .panic) (h : updateOutbound f st = .error e st') : Plain e := by
  unfold updateOutbound at h
  split at h
  · cases h
  · next e' he =>
    cases h
    exact Or.inl (hf _ he)

theorem decodeInbound_plain (b : Bytes) (st st' : HeaderRewriter D) (e : Fault)
    (h : decodeInbound b st = .error e st') : Plain e := by
  unfold decodeInbound at h
  split at h
  · cases h
  · cases h
    exact Or.inr (Or.inl ⟨_, rfl⟩)
  · cases h
    exact Or.inl rfl

theorem emit_error (t : Table D) (raw : Bytes) (s : FieldSpan) (name value mapped : Bytes) (e : Fault)
    (h : emit t block raw s name value mapped = .error e) : e = .panic := by
  unfold emit at h
  split at h
  · cases h
  rcases (Res.bind_error_iff _ _ _).1 h with h | ⟨front, -, h⟩
  · unfold emitLiteralName at h
    simp only at h
    generalize (if s.index = 0 then 0 else t.find s.index name none) = target at h
    split at h
    · exact Res.slice_error _ _ _ _ h
    split at h
    · split at h
      · rcases (Res.bind_error_iff _ _ _).1 h with h | ⟨_, -, h⟩
        · exact Res.slice_error _ _ _ _ h
        · cases h
      · cases h
    · cases h
  rcases (Res.bind_error_iff _ _ _).1 h with h | ⟨back, -, h⟩
  · unfold emitLiteralValue at h
    split at h
    · exact Res.slice_error _ _ _ _ h
    · rcases (Res.bind_error_iff _ _ _).1 h with h | ⟨_, -, h⟩
      · exact Res.byteAt_error _ _ _ h
      · cases h
  · cases h

/-! ## One pass -/

/-- A field is not rejected for a limit. -/
theorem field_error (c : UInt8) (l : Locals) (st st' : HeaderRewriter D) (e : Fault)
    (h : field block m response c l st = .error e st') : Plain e := by
  unfold field at h
  simp only [Act.bind_error_iff, Act.liftM_error_iff, Act.liftM_ok_iff] at h
  rcases h with ⟨h, -⟩ | ⟨s, _, -, h⟩
  · exact plain_of_errors (scanField_errors _ _ _) (by decide) e h
  rcases h with ⟨h, -⟩ | ⟨raw, _, -, h⟩
  · exact Or.inl (Res.slice_error _ _ _ _ h)
  rcases h with h | ⟨hs, st1, -, h⟩
  · exact decodeInbound_plain _ _ _ _ h
  rcases h with ⟨h, -⟩ | ⟨hd, _, -, h⟩
  · exact plain_of_errors (onlyHeader_errors _) (by decide) e h
  rcases h with ⟨h, -⟩ | ⟨l1, _, -, h⟩
  · exact plain_of_errors (checkField_errors _ _ _) (by decide) e h
  rcases h with ⟨h, -⟩ | ⟨mapped, _, -, h⟩
  · exact plain_of_errors (m.value_errors _ _ _) (by decide) e h
  rcases h with ⟨h, -⟩ | ⟨_, _, -, h⟩
  · exact plain_of_ensure (by decide) e h
  rcases h with h | ⟨t, st2, -, h⟩
  · cases h
  rcases h with ⟨h, -⟩ | ⟨piece, _, -, h⟩
  · exact Or.inl (emit_error _ _ _ _ _ _ _ h)
  rcases h with h | ⟨_, st3, -, h⟩
  · refine updateOutbound_error _ _ _ _ (fun t ht => ?_) h
    unfold remember at ht
    split at ht
    · exact evict_error _ _ ht
    · cases ht
  · exact (Act.pure_ne_error _ _ _ _ h).elim

/-- A size update is, if it is above the limit. -/
theorem tableUpdate_error (c : UInt8) (l : Locals) (hc : byteAt block l.p = .ok c)
    (hu : c &&& 0xe0 = 0x20) (st st' : HeaderRewriter D) (e : Fault)
    (h : tableUpdate block limit l st = .error e st') :
    Plain e ∨ e = tableLimit ∧ Exceeds limit (block.drop l.p) := by
  unfold tableUpdate at h
  simp only [Act.bind_error_iff, Act.liftM_error_iff, Act.liftM_ok_iff] at h
  rcases h with ⟨h, -⟩ | ⟨_, _, -, h⟩
  · exact Or.inl (plain_of_ensure (by decide) e h)
  rcases h with ⟨h, -⟩ | ⟨⟨n, p'⟩, _, ⟨hi, -⟩, h⟩
  · exact Or.inl (plain_of_errors (integer_errors _ _ _) (by decide) e h)
  rcases h with ⟨h, -⟩ | ⟨_, _, -, h⟩
  · -- the integer read is the size update
    obtain ⟨hn, rfl⟩ := (Res.ensure_error_iff _ _ _).1 h
    obtain ⟨c', enc, hspan, -, hint⟩ := integer_spec _ _ _ _ _ hi
    obtain rfl : c' = c := by
      have := hspan.byteAt_eq
      rw [hc] at this
      cases this
      rfl
    obtain ⟨hlo, hhi⟩ := (octet_update_iff c').1 hu
    have hhead : IsHead 32 5 n (c' :: enc) := ⟨c', enc, rfl, hlo, by omega, hint⟩
    refine Or.inr ⟨rfl, ?_⟩
    rw [hspan.drop]
    exact exceeds_cons limit (.sizeUpdate (c' :: enc) n) _ hhead (Or.inl ⟨_, n, rfl, by omega⟩)
  rcases h with ⟨h, -⟩ | ⟨octets, _, -, h⟩
  · exact Or.inl (Or.inl (Res.slice_error _ _ _ _ h))
  rcases h with h | ⟨hs, st1, -, h⟩
  · exact Or.inl (decodeInbound_plain _ _ _ _ h)
  rcases h with h | ⟨_, st2, -, h⟩
  · exact Or.inl (updateOutbound_error _ _ _ _ (fun t ht => evict_error _ _ ht) h)
  · exact (Act.pure_ne_error _ _ _ _ h).elim

theorem rewriteOne_error (l : Locals) (st st' : HeaderRewriter D) (e : Fault)
    (h : rewriteOne block m response limit l st = .error e st') :
    Plain e ∨ e = tableLimit ∧ Exceeds limit (block.drop l.p) := by
  unfold rewriteOne at h
  rcases (Act.bind_error_iff _ _ _ _ _).1 h with h | ⟨c, st1, hbyte, h⟩
  · exact Or.inl (Or.inl (Res.byteAt_error _ _ _ ((Act.liftM_error_iff _ _ _ _).1 h).1))
  obtain ⟨hc, rfl⟩ := (Act.liftM_ok_iff _ _ _ _).1 hbyte
  split at h
  · next hu => exact tableUpdate_error c l hc hu _ _ _ h
  · simp only [Act.bind_error_iff, Act.liftM_error_iff] at h
    rcases h with h | ⟨l1, st1, -, ⟨h, -⟩ | ⟨_, _, -, h⟩⟩
    · exact Or.inl (field_error c l _ _ _ h)
    · exact Or.inl (plain_of_ensure (by decide) e h)
    · exact (Act.pure_ne_error _ _ _ _ h).elim

/-! ## A whole call -/

theorem rewriteLoop_error : ∀ (fuel : Nat) (l : Locals) (st st' : HeaderRewriter D) (e : Fault),
    rewriteLoop block m response limit fuel l st = .error e st' →
    Plain e ∨ e = tableLimit ∧ Exceeds limit (block.drop l.p) := by
  intro fuel
  induction fuel with
  | zero => exact fun l st st' e h => (Act.pure_ne_error _ _ _ _ h).elim
  | succ fuel ih =>
    intro l st st' e h
    unfold rewriteLoop at h
    split at h
    · rcases (Act.bind_error_iff _ _ _ _ _).1 h with h | ⟨l1, st1, hone, h⟩
      · exact rewriteOne_error l _ _ _ h
      · obtain ⟨v, hv⟩ := rewriteOne_ok _ _ _ _ hone
        rcases ih l1 st1 st' e h with hp | ⟨he, hx⟩
        · exact Or.inl hp
        · refine Or.inr ⟨he, ?_⟩
          rw [hv.span.drop]
          exact exceeds_cons limit v.rep _ hv.wellFormed (Or.inr hx)
    · exact (Act.pure_ne_error _ _ _ _ h).elim

/-- **The errors of the rewriter.** -/
theorem rewrite_error (st st' : HeaderRewriter D) (e : Fault)
    (h : rewrite block m response limit st = .error e st') :
    Plain e ∨ e = tableLimit ∧ Exceeds limit block := by
  unfold rewrite at h
  simp only [Act.bind_error_iff, Act.liftM_error_iff] at h
  rcases h with ⟨h, -⟩ | ⟨_, _, -, h⟩
  · exact Or.inl (plain_of_ensure (by decide) e h)
  rcases h with h | ⟨l, st1, -, h⟩
  · exact rewriteLoop_error _ _ _ _ _ h
  rcases h with ⟨h, -⟩ | ⟨_, _, -, h⟩
  · exact Or.inl (plain_of_ensure (by decide) e h)
  · exact (Act.pure_ne_error _ _ _ _ h).elim

end

end HpackWire
