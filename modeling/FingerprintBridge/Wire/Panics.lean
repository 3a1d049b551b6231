import FingerprintBridge.Wire.Transparency

/-!
# When the rewriter panics

`rewrite` reads integers of up to six octets; `hpack` 0.3.0 reads five and panics
on a longer one in a size update.  That is the only panic: slices and lookups are
in range, eviction never meets an empty table, and fields with over-long integers
come back as errors.  `Overlong` says which blocks reach it.
-/

namespace HpackWire

open Hpack

/-! ## Reading what the RFC reads -/

/-- The octet at which the rest of a block begins. -/
theorem octet_of_drop {b e rest : Bytes} {p : Nat} {c : UInt8} (hd : b.drop p = c :: e ++ rest) :
    ∃ hp : p < b.length, b[p] = c ∧ b.drop (p + 1) = e ++ rest := by
  have hp : p < b.length := by
    have := congrArg List.length hd
    simp only [List.length_drop, List.length_append, List.length_cons] at this
    omega
  have hcons := List.drop_eq_getElem_cons hp
  rw [hd, List.cons_append, List.cons.injEq] at hcons
  exact ⟨hp, hcons.1.symm, hcons.2.symm⟩

/-- The converse of `integerLoop_spec`, for continuations of up to five octets. -/
theorem integerLoop_of_continuation (b : Bytes) (e : Bytes) :
    ∀ (p n shift v : Nat) (rest : Bytes), continuation e = some (v, []) → b.drop p = e ++ rest →
      7 * e.length + shift ≤ 35 → n + v * 2 ^ shift < 2 ^ 64 →
      integerLoop b p n shift = .ok (n + v * 2 ^ shift, p + e.length) := by
  induction e with
  | nil =>
    intro p n shift v rest h
    cases h
  | cons c e ih =>
    intro p n shift v rest h hd hlen hv
    obtain ⟨hp, hget, hrest⟩ := octet_of_drop hd
    rw [List.length_cons] at hlen ⊢
    rw [integerLoop, dif_pos ⟨hp, by omega⟩]
    simp only [List.get_eq_getElem, hget, octet_low, Nat.shiftLeft_eq]
    unfold continuation at h
    split at h
    · next hc =>
      simp only [Option.some.injEq, Prod.mk.injEq] at h
      obtain ⟨rfl, rfl⟩ := h
      rw [Nat.mod_eq_of_lt hc, if_pos hv, if_pos ((octet_high_iff c).2 hc)]
      rfl
    · next hc =>
      obtain ⟨⟨w, r⟩, hw, he⟩ := Option.map_eq_some_iff.1 h
      simp only [Prod.mk.injEq] at he
      obtain ⟨rfl, rfl⟩ := he
      have hc256 := c.toNat_lt
      have hmod : c.toNat % 128 = c.toNat - 128 := by omega
      have hsum : n + (c.toNat - 128) * 2 ^ shift + w * 2 ^ (shift + 7) =
          n + (c.toNat - 128 + 128 * w) * 2 ^ shift := by
        rw [Nat.pow_add, Nat.add_mul, Nat.add_assoc]
        congr 2
        rw [Nat.mul_comm (2 ^ shift), ← Nat.mul_assoc, Nat.mul_comm w]
      rw [hmod, if_pos (by omega), if_neg fun hz => hc ((octet_high_iff c).1 hz)]
      rw [ih (p + 1) _ (shift + 7) w rest hw hrest (by omega) (by rw [hsum]; exact hv), hsum]
      congr 2
      omega

/-- A prefix integer of up to six octets is read as the RFC reads it. -/
theorem integer_of_isHead (b : Bytes) (p lead bits n : Nat) (head rest : Bytes)
    (h : IsHead lead bits n head) (hd : b.drop p = head ++ rest) (hlen : head.length ≤ 6)
    (hn : n < 2 ^ 64) : integer b p bits = .ok (n, p + head.length) := by
  obtain ⟨c, enc, rfl, -, -, hi⟩ := h
  obtain ⟨hp, hget, hrest⟩ := octet_of_drop hd
  have hi0 := hi []
  rw [List.append_nil] at hi0
  unfold integer
  simp only [ensure, if_pos hp, Res.byteAt_of_lt b p hp, hget, bind, Except.bind,
    Nat.and_two_pow_sub_one_eq_mod]
  unfold Hpack.integer at hi0
  by_cases hlt : c.toNat % 2 ^ bits < 2 ^ bits - 1
  · rw [if_pos hlt] at hi0 ⊢
    simp only [Option.some.injEq, Prod.mk.injEq] at hi0
    obtain ⟨rfl, rfl⟩ := hi0
    rfl
  · rw [if_neg hlt] at hi0 ⊢
    obtain ⟨⟨v, r⟩, hv, he⟩ := Option.map_eq_some_iff.1 hi0
    simp only [Prod.mk.injEq] at he
    obtain ⟨rfl, rfl⟩ := he
    have hmod : c.toNat % 2 ^ bits < 2 ^ bits := Nat.mod_lt _ (Nat.two_pow_pos bits)
    have heq : c.toNat % 2 ^ bits = 2 ^ bits - 1 := by omega
    rw [List.length_cons] at hlen ⊢
    rw [integerLoop_of_continuation b enc (p + 1) _ 0 v rest hv hrest (by omega) (by
      rw [Nat.pow_zero, Nat.mul_one]; omega), heq, Nat.pow_zero, Nat.mul_one]
    congr 2
    omega

/-! ## The parts that never panic -/

/-- The errors of reading an integer or a string, and so of scanning a field. -/
def scanErrors : List String :=
  ["truncated HPACK integer", "HPACK overflow", "invalid HPACK integer", "truncated HPACK string"]

theorem integerLoop_errors (b : Bytes) (p n shift : Nat) :
    (integerLoop b p n shift).Errors scanErrors := by
  fun_induction integerLoop b p n shift with
  | case1 p n shift hc c d hlt hz => exact Res.errors_ok _
  | case2 p n shift hc c d hlt hz ih => exact ih
  | case3 p n shift hc c d hlt => exact Res.errors_error _ (by decide)
  | case4 p n shift hc => exact Res.errors_error _ (by decide)

theorem integer_errors (b : Bytes) (p bits : Nat) : (integer b p bits).Errors scanErrors := by
  unfold integer
  refine Res.errors_bind _ _ (Res.errors_ensure _ _ (by decide)) fun u hu => ?_
  have hp := (Res.ensure_ok_iff _ _ _).1 hu
  refine Res.errors_bind _ _ (by rw [Res.byteAt_of_lt b p hp]; exact Res.errors_ok _) fun c _ => ?_
  simp only
  split
  · exact Res.errors_ok _
  · exact integerLoop_errors _ _ _ _

theorem skipStringIf_errors (cond : Bool) (b : Bytes) (p : Nat) :
    (skipStringIf cond b p).Errors scanErrors := by
  unfold skipStringIf skipString
  split
  · refine Res.errors_bind _ _ (integer_errors _ _ _) fun r _ => ?_
    refine Res.errors_bind _ _ (Res.errors_ensure _ _ (by decide)) fun _ _ => ?_
    exact Res.errors_ok _
  · exact Res.errors_ok _

theorem scanField_errors (block : Bytes) (c : UInt8) (start : Nat) :
    (scanField block c start).Errors scanErrors := by
  unfold scanField
  refine Res.errors_bind _ _ (integer_errors _ _ _) fun r _ => ?_
  refine Res.errors_bind _ _ (skipStringIf_errors _ _ _) fun valueStart _ => ?_
  refine Res.errors_bind _ _ (skipStringIf_errors _ _ _) fun stop _ => ?_
  exact Res.errors_ok _

theorem onlyHeader_errors (hs : List Header) : (onlyHeader hs).Errors ["invalid HPACK field"] := by
  unfold onlyHeader
  split
  · exact Res.errors_ok _
  · exact Res.errors_error _ (by simp)

def checkErrors : List String :=
  ["invalid HTTP/2 name", "invalid HTTP/2 value", "pseudo-header after regular header",
    "HTTP/2 CONNECT unsupported"]

theorem checkField_errors (l : Locals) (name value : Bytes) :
    (checkField l name value).Errors checkErrors := by
  unfold checkField
  refine Res.errors_bind _ _ (Res.errors_ensure _ _ (by decide)) fun _ _ => ?_
  refine Res.errors_bind _ _ (Res.errors_ensure _ _ (by decide)) fun _ _ => ?_
  refine Res.errors_bind _ _ (Res.errors_ensure _ _ (by decide)) fun _ _ => ?_
  refine Res.errors_bind _ _ (Res.errors_ensure _ _ (by decide)) fun _ _ => ?_
  exact Res.errors_ok _

/-! ## Which blocks panic -/

/-- The block starts with size updates within the limit, of at most five octets
each, and one of six octets, also within the limit, follows them. -/
inductive Overlong (limit : Nat) : Bytes → Prop where
  | here {head rest : Bytes} {n : Nat} : IsHead 32 5 n head → n ≤ min limit 65536 →
      head.length = 6 → Overlong limit (head ++ rest)
  | later {head rest : Bytes} {n : Nat} : IsHead 32 5 n head → n ≤ min limit 65536 →
      head.length ≤ 5 → Overlong limit rest → Overlong limit (head ++ rest)

theorem Overlong.first {limit : Nat} {b : Bytes} (h : Overlong limit b) :
    ∃ head n rest, b = head ++ rest ∧ IsHead 32 5 n head ∧ n ≤ min limit 65536 ∧
      head.length ≤ 6 ∧ (head.length = 6 ∨ Overlong limit rest) := by
  cases h with
  | here h1 h2 h3 => exact ⟨_, _, _, rfl, h1, h2, by omega, Or.inl h3⟩
  | later h1 h2 h3 h4 => exact ⟨_, _, _, rfl, h1, h2, by omega, Or.inr h4⟩

/-- `integer` finds the size update an `Overlong` rest begins with. -/
theorem Overlong.integer {limit : Nat} {b : Bytes} {p : Nat} (h : Overlong limit (b.drop p)) :
    ∃ n p', HpackWire.integer b p 5 = .ok (n, p') ∧ n ≤ min limit 65536 ∧
      (p' = p + 6 ∨ Overlong limit (b.drop p')) := by
  obtain ⟨head, n, rest, hb, h1, h2, h3, h4⟩ := h.first
  refine ⟨n, p + head.length, integer_of_isHead b p 32 5 n head rest h1 hb h3 (by omega), h2, ?_⟩
  rcases h4 with h4 | h4
  · exact Or.inl (by rw [h4])
  · right
    rwa [← List.drop_drop, hb, List.drop_left]

theorem Overlong.octet {limit : Nat} {b : Bytes} {p : Nat} {c : UInt8}
    (h : Overlong limit (b.drop p)) (hc : byteAt b p = .ok c) : c &&& 0xe0 = 0x20 := by
  obtain ⟨head, n, rest, hb, ⟨c', enc, rfl, h1, h2, -⟩, -⟩ := h.first
  have := congrArg (fun l => l[0]?) hb
  rw [Res.byteAt_ok_iff] at hc
  simp only [List.getElem?_drop, Nat.add_zero, hc, List.cons_append, List.getElem?_cons_zero,
    Option.some.injEq] at this
  subst this
  exact (octet_update_iff c).2 ⟨h1, h2⟩

/-- After an acceptable update of up to five octets only the rest matters; one of
six is over-long itself. -/
theorem overlong_iff (limit : Nat) (b : Bytes) (p p' n : Nat) (head : Bytes)
    (hs : Span b p p' head) (hh : IsHead 32 5 n head) (hi : integer b p 5 = .ok (n, p'))
    (hlen : head.length ≤ 6) (hn : n ≤ min limit 65536) :
    Overlong limit (b.drop p) ↔ 5 < head.length ∨ Overlong limit (b.drop p') := by
  have hstop := hs.stop
  refine ⟨fun h => ?_, fun h => ?_⟩
  · obtain ⟨n', q, hi', -, hq⟩ := h.integer
    rw [hi] at hi'
    cases hi'
    rcases hq with hq | hq
    · exact Or.inl (by omega)
    · exact Or.inr hq
  · rw [hs.drop]
    by_cases h5 : 5 < head.length
    · exact Overlong.here hh hn (by omega)
    · rcases h with h | h
      · exact absurd h h5
      · exact Overlong.later hh hn (by omega) h

/-! ## The crate -/

/-- `hpack` 0.3.0: integers of at most five octets; a longer one in a size update
is unwrapped, any other failure is returned. -/
structure HpackCrate.Bounded (D : HpackCrate) : Prop where
  update : ∀ head n d, IsHead 32 5 n head → head.length ≤ 5 → ∃ hs d', D.decode head d = .ok hs d'
  long_update : ∀ head n d, IsHead 32 5 n head → 5 < head.length →
    ∃ d', D.decode head d = .error .panic d'
  field : ∀ (r : Rep) d d', r.WellFormed → isSizeUpdate r = false →
    D.decode r.octets d ≠ .error .panic d'

/-- What eviction relies on: the sizes in `outbound` add up. -/
def Sound {D : HpackCrate} (st : HeaderRewriter D) : Prop := ∃ T, Agrees st.outbound T

section
variable {D : HpackCrate} {U : UrlCrate} {block : Bytes} {m : Mapping U} {response : Bool}
  {limit : Nat}

theorem sound_new : Sound (HeaderRewriter.new D) := ⟨.init, agrees_new⟩

/-- A fault of the decoder leaves `outbound` alone. -/
theorem decodeInbound_error (b : Bytes) (st st' : HeaderRewriter D) (e : Fault)
    (h : decodeInbound b st = .error e st') : st'.outbound = st.outbound ∧
      (e = .panic → ∃ d, D.decode b st.inbound = .error .panic d) ∧
      (∀ d, D.decode b st.inbound = .error .panic d → e = .panic) := by
  unfold decodeInbound at h
  split at h
  · cases h
  · next err d hd =>
    cases h
    refine ⟨rfl, fun he => ?_, fun d' h' => ?_⟩
    · cases he
    · rw [hd] at h'
      cases h'
  · next d hd =>
    cases h
    exact ⟨rfl, fun _ => ⟨d, hd⟩, fun _ _ => rfl⟩

theorem decodeInbound_panicsIff (b : Bytes) (bad : Prop)
    (hbad : ∀ d d', D.decode b d = .error .panic d' → bad)
    (hok : bad → ∀ d, ∃ d', D.decode b d = .error .panic d') :
    Act.Triple Sound (decodeInbound (D := D) b) (fun _ => ¬ bad) (Act.PanicIf bad) := by
  rintro st ⟨T, ha⟩
  refine ⟨fun hs st' h => ?_, fun e st' h => ?_⟩
  · obtain ⟨hd, ho⟩ := decodeInbound_ok _ _ _ _ h
    refine ⟨fun hb => ?_, T, by rw [ho]; exact ha⟩
    obtain ⟨d', hd'⟩ := hok hb st.inbound
    rw [hd] at hd'
    cases hd'
  · obtain ⟨ho, h1, h2⟩ := decodeInbound_error _ _ _ _ h
    refine ⟨⟨fun he => ?_, fun hb => ?_⟩, T, by rw [ho]; exact ha⟩
    · obtain ⟨d', hd'⟩ := h1 he
      exact hbad _ _ hd'
    · obtain ⟨d', hd'⟩ := hok hb st.inbound
      exact h2 d' hd'

theorem updateOutbound_sound (E : Fault → Prop) (f : Table D → Res (Table D))
    (hf : ∀ t T, Agrees t T → ∃ t' T', f t = .ok t' ∧ Agrees t' T') :
    Act.Triple Sound (updateOutbound (D := D) f) (fun _ => True) E := by
  rintro st ⟨T, ha⟩
  obtain ⟨t', T', he, ha'⟩ := hf _ _ ha
  have hrun : updateOutbound f st = .ok () { st with outbound := t' } := by
    unfold updateOutbound
    rw [he]
  refine ⟨fun u st' h => ?_, fun e st' h => ?_⟩
  · rw [hrun] at h
    cases h
    exact ⟨trivial, T', ha'⟩
  · rw [hrun] at h
    cases h

theorem getOutbound_sound (E : Fault → Prop) :
    Act.Triple Sound (getOutbound (D := D)) (fun _ => True) E := by
  rintro st hs
  refine ⟨fun t st' h => ?_, fun e st' h => nomatch h⟩
  cases h
  exact ⟨trivial, hs⟩

theorem remember_sound (c : UInt8) (h : Header) (t : Table D) (T : DynamicTable) (ha : Agrees t T) :
    ∃ t' T', remember c h t = .ok t' ∧ Agrees t' T' := by
  unfold remember
  split
  · obtain ⟨t', he, ha'⟩ := t.insert_eq T ha h
    exact ⟨t', _, he, ha'⟩
  · exact ⟨t, T, rfl, ha⟩

/-! ## A field -/

/-- **A field never panics.** -/
theorem field_safe (hD : D.Bounded) (c : UInt8) (l : Locals) (hc : byteAt block l.p = .ok c)
    (hu : ¬ c &&& 0xe0 = 0x20) : Act.Triple Sound
      (field (D := D) block m response c l) (fun l' => l'.fields = true) (Act.PanicIf False) := by
  unfold field
  refine Act.triple_bind _ _ (Act.triple_safe _ (scanField_errors _ _ _).ne_panic) fun s hs => ?_
  obtain ⟨rfl, hstart, r, hr⟩ := scanField_spec _ _ _ _ hc hu hs
  have hslice := hr.span.slice_eq
  refine Act.triple_bind _ _ (Act.triple_safe _ (by rw [hslice]; exact fun h => nomatch h))
    fun raw hraw => ?_
  have hraw' : raw = r.octets := by
    rw [hslice] at hraw
    cases hraw
    rfl
  subst hraw'
  refine Act.triple_bind _ _ (decodeInbound_panicsIff _ False
    (fun d d' => hD.field r d d' hr.wellFormed hr.not_update) False.elim) fun hs _ => ?_
  refine Act.triple_bind _ _ (Act.triple_safe _ (onlyHeader_errors _).ne_panic) fun h _ => ?_
  refine Act.triple_bind _ _ (Act.triple_safe _ (checkField_errors _ _ _).ne_panic) fun l' hl => ?_
  obtain ⟨-, rfl⟩ := checkField_ok _ _ _ _ hl
  refine Act.triple_bind _ _ (Act.triple_safe _ (m.value_errors _ _ _).ne_panic) fun mapped _ => ?_
  refine Act.triple_bind _ _ (Act.triple_check _ _) fun _ _ => ?_
  refine Act.triple_bind _ _ (getOutbound_sound _) fun t _ => ?_
  refine Act.triple_bind _ _ (Act.triple_safe _ (by
    rw [emit_eq t block s r h mapped hr]; exact fun h => nomatch h)) fun piece _ => ?_
  refine Act.triple_bind _ _ (updateOutbound_sound _ _ (remember_sound _ _)) fun _ _ => ?_
  exact Act.triple_pure _ rfl

/-! ## A size update -/

theorem tableUpdate_panicsIff (hD : D.Bounded) (c : UInt8) (l : Locals)
    (hc : byteAt block l.p = .ok c) (hu : c &&& 0xe0 = 0x20) (hf : l.fields = false) :
    Act.Triple Sound (tableUpdate (D := D) block limit l)
      (fun l' => l'.fields = false ∧ l.p < l'.p ∧ l'.p ≤ block.length ∧
        (Overlong limit (block.drop l.p) ↔ Overlong limit (block.drop l'.p)))
      (Act.PanicIf (Overlong limit (block.drop l.p))) := by
  unfold tableUpdate
  refine Act.triple_bind _ _ (Act.triple_ensure _ _ fun h => absurd hf h) fun _ _ => ?_
  refine Act.triple_bind _ _ (Act.triple_lift _ fun e he => ?_) fun r hr => ?_
  · refine iff_of_false (fun h => (integer_errors _ _ _).ne_panic (h ▸ he)) fun ho => ?_
    obtain ⟨n, p', hi, -⟩ := ho.integer
    rw [he] at hi
    cases hi
  obtain ⟨n, p'⟩ := r
  refine Act.triple_bind _ _ (Act.triple_ensure _ _ fun hn => Act.panicIf_err _ _ fun ho => ?_)
    fun _ hn => ?_
  · obtain ⟨n', p'', hi, hn', -⟩ := ho.integer
    rw [hr] at hi
    cases hi
    exact hn hn'
  -- the integer's octets, and what they are to the crate
  obtain ⟨c', enc, hspan, hlen, hint⟩ := integer_spec _ _ _ _ _ hr
  have hcc : c' = c := by
    have := hspan.byteAt_eq
    rw [hc] at this
    cases this
    rfl
  subst hcc
  obtain ⟨hlo, hhi⟩ := (octet_update_iff c').1 hu
  have hhead : IsHead 32 5 n (c' :: enc) := ⟨c', enc, rfl, hlo, by omega, hint⟩
  have hiff := overlong_iff limit block l.p p' n (c' :: enc) hspan hhead hr (by simp; omega) hn
  refine Act.triple_bind _ _ (Act.triple_lift _ fun e he => ?_) fun octets ho => ?_
  · rw [hspan.slice_eq] at he
    cases he
  have hoct : octets = c' :: enc := by
    rw [hspan.slice_eq] at ho
    cases ho
    rfl
  subst hoct
  have hstop := hspan.stop
  have hbound := hspan.bound
  rw [List.length_cons] at hstop
  by_cases h5 : 5 < (c' :: enc).length
  · have hbad : Overlong limit (block.drop l.p) := hiff.2 (Or.inl h5)
    refine Act.triple_bind _ _ (decodeInbound_panicsIff _ _ (fun _ _ _ => hbad)
      fun _ d => hD.long_update _ n d hhead h5) fun _ hno => ?_
    exact absurd hbad hno
  · have hsame : Overlong limit (block.drop l.p) ↔ Overlong limit (block.drop p') := by
      rw [hiff]
      exact or_iff_right h5
    -- the crate accepts the update
    have hdec : Act.Triple Sound (decodeInbound (D := D) (c' :: enc)) (fun _ => True)
        (Act.PanicIf (Overlong limit (block.drop l.p))) := by
      rintro st ⟨T, ha⟩
      obtain ⟨hs, d', hd⟩ := hD.update _ n st.inbound hhead (by omega)
      refine ⟨fun hs' st' h => ?_, fun e st' h => ?_⟩
      · obtain ⟨-, ho'⟩ := decodeInbound_ok _ _ _ _ h
        exact ⟨trivial, T, by rw [ho']; exact ha⟩
      · unfold decodeInbound at h
        rw [hd] at h
        cases h
    refine Act.triple_bind _ _ hdec fun _ _ => ?_
    refine Act.triple_bind _ _ (updateOutbound_sound _ _ fun t T ha => ?_) fun _ _ => ?_
    · obtain ⟨t', he, ha'⟩ := t.resize_eq T ha n
      exact ⟨t', _, he, ha'⟩
    · exact Act.triple_pure _ ⟨hf, by simp only; omega, hbound, hsame⟩

/-! ## The loop -/

theorem rewriteOne_fields_safe (hD : D.Bounded) (l : Locals) (hf : l.fields = true)
    (hp : l.p < block.length) : Act.Triple Sound
      (rewriteOne (D := D) block m response limit l) (fun l' => l'.fields = true)
      (Act.PanicIf False) := by
  unfold rewriteOne
  refine Act.triple_bind _ _ (Act.triple_lift _ (Act.panicIf_of_ne_panic _ (by
    rw [Res.byteAt_of_lt _ _ hp]; exact fun h => nomatch h))) fun c hc => ?_
  split
  · unfold tableUpdate
    refine Act.triple_bind _ _ (Act.triple_check _ _) fun _ hno => ?_
    rw [hf] at hno
    cases hno
  · next hu =>
    refine Act.triple_bind _ _ (field_safe hD c l hc hu) fun l' hl => ?_
    refine Act.triple_bind _ _ (Act.triple_check _ _) fun _ _ => ?_
    exact Act.triple_pure _ hl

/-- Once a field was read no panic is left. -/
theorem rewriteLoop_fields_safe (hD : D.Bounded) : ∀ (fuel : Nat) (l : Locals), l.fields = true →
    Act.Triple Sound (rewriteLoop (D := D) block m response limit fuel l) (fun _ => True)
      (Act.PanicIf False) := by
  intro fuel
  induction fuel with
  | zero => exact fun l _ => Act.triple_pure _ trivial
  | succ fuel ih =>
    intro l hf
    unfold rewriteLoop
    split
    · next hp => exact Act.triple_bind _ _ (rewriteOne_fields_safe hD l hf hp) ih
    · exact Act.triple_pure _ trivial

/-- Before the first field the size updates decide. -/
theorem rewriteLoop_panicsIff (hD : D.Bounded) : ∀ (fuel : Nat) (l : Locals), l.fields = false →
    block.length ≤ l.p + fuel → Act.Triple Sound
      (rewriteLoop (D := D) block m response limit fuel l)
      (fun _ => ¬ Overlong limit (block.drop l.p))
      (Act.PanicIf (Overlong limit (block.drop l.p))) := by
  have hnil : ¬ Overlong limit [] := by
    intro h
    obtain ⟨head, n, rest, hb, ⟨c, enc, rfl, -⟩, -⟩ := h.first
    cases hb
  intro fuel
  induction fuel with
  | zero =>
    intro l _ hfuel
    refine Act.triple_pure _ ?_
    rw [List.drop_eq_nil_of_le (by omega)]
    exact hnil
  | succ fuel ih =>
    intro l hf hfuel
    unfold rewriteLoop
    by_cases hp : l.p < block.length
    · rw [if_pos hp]
      obtain ⟨c, hc⟩ : ∃ c, byteAt block l.p = .ok c := ⟨_, Res.byteAt_of_lt _ _ hp⟩
      by_cases hu : c &&& 0xe0 = 0x20
      · have hone : Act.Triple Sound (rewriteOne (D := D) block m response limit l)
            (fun l' => l'.fields = false ∧ l.p < l'.p ∧ l'.p ≤ block.length ∧
              (Overlong limit (block.drop l.p) ↔ Overlong limit (block.drop l'.p)))
            (Act.PanicIf (Overlong limit (block.drop l.p))) := by
          unfold rewriteOne
          refine Act.triple_bind _ _ (Act.triple_lift _ fun e he => ?_) fun c' hc' => ?_
          · rw [hc] at he
            cases he
          · rw [hc] at hc'
            cases hc'
            rw [if_pos hu]
            exact tableUpdate_panicsIff hD c l hc hu hf
        refine Act.triple_bind _ _ hone ?_
        rintro l1 ⟨hf1, hlt, hle, hsame⟩
        have := ih l1 hf1 (by omega)
        rwa [← propext hsame] at this
      · -- a field comes first
        have hno : ¬ Overlong limit (block.drop l.p) := fun ho => hu (ho.octet hc)
        have hiff : False ↔ Overlong limit (block.drop l.p) := iff_of_false id hno
        have hone : Act.Triple Sound (rewriteOne (D := D) block m response limit l)
            (fun l' => l'.fields = true) (Act.PanicIf (Overlong limit (block.drop l.p))) := by
          refine Act.Triple.mono (E := Act.PanicIf False) _ ?_ (fun _ h => h) (Act.panicIf_congr hiff)
          unfold rewriteOne
          refine Act.triple_bind _ _ (Act.triple_lift _ fun e he => ?_) fun c' hc' => ?_
          · rw [hc] at he
            cases he
          · rw [hc] at hc'
            cases hc'
            rw [if_neg hu]
            refine Act.triple_bind _ _ (field_safe hD c l hc hu) fun l' hl => ?_
            refine Act.triple_bind _ _ (Act.triple_check _ _) fun _ _ => ?_
            exact Act.triple_pure _ hl
        refine Act.triple_bind _ _ hone fun l1 hf1 => ?_
        exact Act.Triple.mono _ (rewriteLoop_fields_safe hD fuel l1 hf1) (fun _ _ => hno)
          (Act.panicIf_congr hiff)
    · rw [if_neg hp]
      refine Act.triple_pure _ ?_
      rw [List.drop_eq_nil_of_le (by omega)]
      exact hnil

/-- The bad blocks of a whole call. -/
theorem rewrite_panicsIff (hD : D.Bounded) : Act.Triple Sound
    (rewrite (D := D) block m response limit)
    (fun _ => ¬ (block.length ≤ MAX_BLOCK ∧ Overlong limit block))
    (Act.PanicIf (block.length ≤ MAX_BLOCK ∧ Overlong limit block)) := by
  unfold rewrite
  refine Act.triple_bind _ _
    (Act.triple_ensure _ _ fun h => Act.panicIf_err _ _ fun hb => h hb.1) fun _ hlen => ?_
  have hiff : Overlong limit (block.drop 0) ↔ block.length ≤ MAX_BLOCK ∧ Overlong limit block := by
    rw [List.drop_zero]
    exact (and_iff_right hlen).symm
  have hloop : Act.Triple Sound (rewriteLoop (D := D) block m response limit block.length {})
      (fun _ => ¬ Overlong limit (block.drop 0)) (Act.PanicIf (Overlong limit (block.drop 0))) :=
    rewriteLoop_panicsIff hD block.length {} rfl (by simp)
  rw [propext hiff] at hloop
  refine Act.triple_bind _ _ hloop fun l hno => ?_
  refine Act.triple_bind _ _ (Act.triple_ensure _ _ fun _ => Act.panicIf_err _ _ hno) fun _ _ => ?_
  exact Act.triple_pure _ hno

end

/-! ## Reachable rewriters -/

/-- The states of a rewriter: a new one, and what calls leave, also those that
return an error.  Mapping, direction and limit may change from call to call. -/
inductive Reachable {D : HpackCrate} {U : UrlCrate} : HeaderRewriter D → Prop where
  | new : Reachable (HeaderRewriter.new D)
  | ok {st st' : HeaderRewriter D} {block out : Bytes} {m : Mapping U} {response : Bool}
      {limit : Nat} : Reachable (U := U) st → rewrite block m response limit st = .ok out st' →
      Reachable st'
  | err {st st' : HeaderRewriter D} {block : Bytes} {m : Mapping U} {response : Bool} {limit : Nat}
      {msg : String} : Reachable (U := U) st →
      rewrite block m response limit st = .error (.err msg) st' → Reachable st'

theorem Reachable.sound {D : HpackCrate} {U : UrlCrate} (hD : D.Bounded) {st : HeaderRewriter D}
    (h : Reachable (U := U) st) : Sound st := by
  induction h with
  | new => exact sound_new
  | ok _ hcall ih => exact ((rewrite_panicsIff hD _ ih).1 _ _ hcall).2
  | err _ hcall ih => exact ((rewrite_panicsIff hD _ ih).2 _ _ hcall).2

/-! ## The sample decoder -/

theorem boundedCrate_decode (r : Rep) (hr : r.Valid) (t : DynamicTable) :
    boundedCrate.decode r.octets t =
      if (integerLengths r).any (5 < ·) then
        .error (if isSizeUpdate r then .panic else .err "TooManyOctets") t
      else match decodeReps rfc7541 t [r] with
        | some (hs, t') => .ok hs t'
        | none => .error (.err "HeaderIndexOutOfBounds") t := by
  have hall := all_rep_octets [r] fun r' hr' => by rw [List.mem_singleton.1 hr']; exact hr
  rw [List.flatMap_cons, List.flatMap_nil, List.append_nil] at hall
  change boundedDecode r.octets t = _
  unfold boundedDecode
  cases hd : decodeReps rfc7541 t [r] with
  | none =>
    simp only [hall, hd, List.any_cons, List.any_nil, Bool.or_false]
    rfl
  | some q =>
    simp only [hall, hd, List.any_cons, List.any_nil, Bool.or_false]
    rfl

theorem boundedCrate_bounded : boundedCrate.Bounded where
  update head n t h hlen := by
    have hd := boundedCrate_decode (.sizeUpdate head n) (Rep.WellFormed.valid _ h) t
    have h5 : (integerLengths (.sizeUpdate head n)).any (5 < ·) = false := by
      simp [integerLengths]
      omega
    rw [h5, if_neg Bool.false_ne_true] at hd
    exact ⟨[], _, hd⟩
  long_update head n t h hlen := by
    have hd := boundedCrate_decode (.sizeUpdate head n) (Rep.WellFormed.valid _ h) t
    have h5 : (integerLengths (.sizeUpdate head n)).any (5 < ·) = true := by
      simp [integerLengths]
      omega
    rw [h5, if_pos rfl] at hd
    exact ⟨_, hd⟩
  field r t t' h hu := by
    rw [boundedCrate_decode r h.valid t, hu]
    split
    · exact fun h => nomatch h
    · split
      · exact fun h => nomatch h
      · exact fun h => nomatch h

/-! ## The theorem -/

/-- **Exactly the over-long size updates panic.** -/
theorem rewriter_panics_iff (D : HpackCrate) (hD : D.Bounded) (U : UrlCrate)
    (st : HeaderRewriter D) (h : Reachable (U := U) st) (block : Bytes) (m : Mapping U)
    (response : Bool) (limit : Nat) :
    (∀ st', rewrite block m response limit st ≠ .error .panic st') ↔
      ¬ (block.length ≤ MAX_BLOCK ∧ Overlong limit block) := by
  have hrun : Act.Triple Sound (rewrite block m response limit) _ _ := rewrite_panicsIff hD
  obtain ⟨hok, herr⟩ := hrun st (h.sound hD)
  cases hc : rewrite block m response limit st with
  | ok out st' =>
    refine iff_of_true (fun st'' he => ?_) (hok out st' hc).1
    cases he
  | error e st' =>
    rw [← show e = .panic ↔ _ from (herr e st' hc).1]
    refine ⟨fun hne he => hne st' (by rw [he]), fun hne st'' he => ?_⟩
    cases he
    exact hne rfl

/-- A size update to 31 in six octets. -/
def overlongBlock : Bytes := [0x3f, 0x80, 0x80, 0x80, 0x80, 0x00]

/-- A fresh rewriter panics on it. -/
theorem rewriter_panics : Reachable (U := dottedCrate) (HeaderRewriter.new boundedCrate) ∧
    boundedCrate.Bounded ∧
    ∃ st', rewrite overlongBlock sampleMapping false 4096 (HeaderRewriter.new boundedCrate) =
      .error .panic st' := by
  refine ⟨Reachable.new, boundedCrate_bounded, ?_⟩
  have : (match rewrite overlongBlock sampleMapping false 4096 (HeaderRewriter.new boundedCrate) with
      | .ok _ _ => none
      | .error e _ => some e) = some .panic := by decide +kernel
  split at this
  · cases this
  · next e st' he =>
    cases this
    exact ⟨st', he⟩

theorem rewriter_panics_iff_sample :
    ¬ ∃ st', rewrite sampleRequest sampleMapping false 4096 (HeaderRewriter.new boundedCrate) =
      .error .panic st' := by
  rintro ⟨st', hpanic⟩
  refine (rewriter_panics_iff boundedCrate boundedCrate_bounded dottedCrate _ Reachable.new
    sampleRequest sampleMapping false 4096).2 (fun h => ?_) st' hpanic
  have := Overlong.octet (p := 0) (c := 0x82) h.2 rfl
  revert this
  decide

end HpackWire
