import FingerprintBridge.Rewrite.Head
import FingerprintBridge.Wire.Transparency

/-!
# What a receiver decodes of a rewritten request block

By whatever representation a value was written, the receiver decodes the mapped one, and
the only mapped authority is the upstream.  The flags of the loop count what is decoded.
-/

namespace HpackWire

open Hpack

/-- The headers of a request, or of its trailer, that name no authority but the upstream. -/
structure Confined {U : UrlCrate} (m : Mapping U) (hs : List Header) : Prop where
  authority : ∀ h ∈ hs, Mapping.isAuthorityName h.1 = true → strip isOwsByte h.2 = utf8 m.upstream
  one : (∃ h ∈ hs, h.1 = ascii ":method") → hs.countP (·.1 = ascii ":authority") = 1

section
variable {D : HpackCrate} {U : UrlCrate} {block : Bytes} {m : Mapping U} {limit : Nat}
  {table : D.Decoder → DynamicTable}

/-- The flags of the loop count the headers that were decoded. -/
theorem Trace.flags {response : Bool} {l l' : Locals} {st st' : HeaderRewriter D} {vs : List Visit}
    {ws : List Rep} (h : Trace block m response limit l st vs ws l' st') :
    l'.authority = l.authority +
        (vs.flatMap Visit.received).countP (·.1 = ascii ":authority") ∧
      (l.method = true ∨ (∃ h ∈ vs.flatMap Visit.received, h.1 = ascii ":method") →
        l'.method = true) := by
  induction h with
  | nil l st =>
    refine ⟨rfl, fun h => ?_⟩
    rcases h with h | ⟨h, hm, -⟩
    · exact h
    · cases hm
  | @cons l l1 l' st st1 st' v vs ws hs _ ih =>
    obtain ⟨ih1, ih2⟩ := ih
    cases v with
    | update head n =>
      rw [UpdateStep.locals hs] at ih1 ih2
      exact ⟨ih1, ih2⟩
    | field r h mapped =>
      have hl := FieldStep.locals hs
      have hauth : l1.authority =
          if h.1 = ascii ":authority" then l.authority + 1 else l.authority := by
        rw [hl]
        rfl
      have hmeth : l1.method = if h.1 = ascii ":method" then true else l.method := by
        rw [hl]
        rfl
      rw [List.flatMap_cons]
      simp only [Visit.received, List.singleton_append, List.countP_cons, decide_eq_true_eq,
        List.mem_cons]
      refine ⟨?_, fun hor => ih2 ?_⟩
      · rw [ih1, hauth]
        split
        · omega
        · omega
      · rw [hmeth]
        split
        · exact Or.inl rfl
        · next hne =>
          rcases hor with hor | ⟨g, rfl | hg, hname⟩
          · exact Or.inl hor
          · exact (hne hname).elim
          · exact Or.inr ⟨g, hg, hname⟩

/-- **A rewritten request block is confined**, as a receiver decodes it. -/
theorem rewrite_confined (hD : D.Correct table) (st st' : HeaderRewriter D) (out : Bytes)
    (T : DynamicTable) (ha : Agrees st.outbound T)
    (h : rewrite block m false limit st = .ok out st') :
    ∃ hs T', decodeBlock rfc7541 65536 T out = some (hs, T') ∧ Confined m hs ∧
      Agrees st'.outbound T' := by
  obtain ⟨vs, ws, l', ht, -, hout, hone⟩ := rewrite_ok _ _ _ h
  obtain ⟨-, hu⟩ := ht.updatesOk
  obtain ⟨-, hv⟩ := ht.wellFormed
  obtain ⟨T', h2, ha'⟩ := ht.receiver hD T ha
  refine ⟨vs.flatMap Visit.received, T', ?_, ⟨fun h' hh' hn => ?_, fun hmeth => ?_⟩, ha'⟩
  · rw [hout, decodeBlock_octets _ _ _ _ hv (updatesOk_mono _ _ (Nat.min_le_right _ _) _ _ hu)]
    exact h2
  · obtain ⟨g, -, hname, hvalue⟩ := forall₂_mem_right ht.mapped h' hh'
    rw [hname] at hn
    exact m.value_authority g.1 g.2 h'.2 hn hvalue
  · obtain ⟨hcount, hflag⟩ := ht.flags
    have hm := hone ⟨rfl, hflag (Or.inr hmeth)⟩
    rw [hcount] at hm
    exact (Nat.zero_add _).symm.trans hm

end

end HpackWire
