import FingerprintBridge.Tls.Mirror

/-!
# The selection of a protocol in `src/main.rs`

The origin chooses a protocol of the list that the bridge sent it, and the client's
handshake must end with the same one.  The callback looks for it in the client's offers,
which are the octets that the bridge sent on (`alpn_agrees`).
-/

namespace Serve

open Tls

/-! ## The code -/

inductive AlpnError where
  | ALERT_FATAL
  | NOACK
deriving DecidableEq, Repr

/-- The loop of the callback; a pass takes an octet at least, so more `fuel` than there are
offers is never used up. -/
def selectLoop (chosen offers : Bytes) : (fuel p : Nat) → Res (Except AlpnError Bytes)
  | 0, _ => .ok (.error .NOACK)
  | fuel + 1, p =>
    if p < offers.length then do
      let n := (← byteAt offers p).toNat
      let p := p + 1
      if p + n > offers.length then return .error .ALERT_FATAL
      else if (← slice offers p (p + n)) = chosen then return .ok (← slice offers p (p + n))
      else selectLoop chosen offers fuel (p + n)
    else .ok (.error .NOACK)

/-- What `set_alpn_select_callback` is given. -/
def selectAlpn (chosen offers : Bytes) : Res (Except AlpnError Bytes) :=
  selectLoop chosen offers (offers.length + 1) 0

/-! ## What it finds -/

/-- The end of a list that is cut in an entry, or nothing. -/
def Cut (tail : Bytes) : Prop :=
  tail = [] ∨ ∃ n rest, tail = n :: rest ∧ rest.length < n.toNat

/-- Any octets are entries and what is left. -/
theorem entries_cut (b : Bytes) : ∃ (ps : List Bytes) (tail : Bytes), b = ps.flatMap vec8 ++ tail ∧
    (∀ p ∈ ps, p.length < 256) ∧ Cut tail := by
  match b with
  | [] => exact ⟨[], [], rfl, by simp, .inl rfl⟩
  | n :: rest =>
    by_cases hn : rest.length < n.toNat
    · exact ⟨[], n :: rest, rfl, by simp, .inr ⟨n, rest, rfl, hn⟩⟩
    · have hlen : (rest.take n.toNat).length = n.toNat := by
        rw [List.length_take]
        omega
      obtain ⟨ps, tail, heq, hps, hcut⟩ := entries_cut (rest.drop n.toNat)
      refine ⟨rest.take n.toNat :: ps, tail, ?_, ?_, hcut⟩
      · rw [List.flatMap_cons, List.append_assoc, ← heq]
        unfold vec8
        rw [hlen, UInt8.ofNat_toNat, List.cons_append, List.take_append_drop]
      · refine List.forall_mem_cons.2 ⟨?_, hps⟩
        rw [hlen]
        exact n.toNat_lt
termination_by b.length
decreasing_by
  simp only [List.length_drop, List.length_cons]
  omega

/-- What the loop comes to. -/
def outcome (chosen : Bytes) (ps : List Bytes) (tail : Bytes) : Except AlpnError Bytes :=
  if chosen ∈ ps then .ok chosen else if tail = [] then .error .NOACK else .error .ALERT_FATAL

theorem selectLoop_eq (chosen : Bytes) (ps : List Bytes) (front tail : Bytes) (fuel : Nat)
    (hps : ∀ p ∈ ps, p.length < 256) (hcut : Cut tail) (hfuel : (ps.flatMap vec8 ++ tail).length < fuel) :
    selectLoop chosen (front ++ (ps.flatMap vec8 ++ tail)) fuel front.length =
      .ok (outcome chosen ps tail) := by
  induction ps generalizing front fuel with
  | nil =>
    obtain ⟨fuel, rfl⟩ : ∃ k, fuel = k + 1 := ⟨fuel - 1, by omega⟩
    unfold selectLoop outcome
    rcases hcut with rfl | ⟨n, rest, rfl, hn⟩
    · simp
    · have hbyte : byteAt (front ++ n :: rest) front.length = .ok n := by
        simp [Res.byteAt_ok_iff]
      simp only [List.flatMap_nil, List.nil_append, List.length_append, List.length_cons,
        List.not_mem_nil, if_false]
      rw [if_pos (by omega), hbyte]
      show (if front.length + 1 + n.toNat > front.length + (rest.length + 1) then _ else _) = _
      rw [if_pos (by omega)]
      rfl
  | cons p ps ih =>
    obtain ⟨fuel, rfl⟩ : ∃ k, fuel = k + 1 := ⟨fuel - 1, by omega⟩
    obtain ⟨hp, hps⟩ := List.forall_mem_cons.1 hps
    generalize hrest : ps.flatMap vec8 ++ tail = rest at ih hfuel
    have hoffers : front ++ ((p :: ps).flatMap vec8 ++ tail) =
        (front ++ [UInt8.ofNat p.length]) ++ (p ++ rest) := by
      rw [List.flatMap_cons, vec8, ← hrest]
      simp
    have hn : (UInt8.ofNat p.length).toNat = p.length := by
      rw [UInt8.toNat_ofNat']
      omega
    have hbyte : byteAt ((front ++ [UInt8.ofNat p.length]) ++ (p ++ rest)) front.length =
        .ok (UInt8.ofNat p.length) := by
      simp [Res.byteAt_ok_iff]
    have hslice : slice ((front ++ [UInt8.ofNat p.length]) ++ (p ++ rest)) (front.length + 1)
        (front.length + 1 + p.length) = .ok p :=
      Res.slice_middle _ p rest _ _ (by simp) rfl
    have hshort : rest.length < fuel := by
      rw [List.flatMap_cons, List.append_assoc, hrest, vec8] at hfuel
      simp only [List.length_append, List.length_cons] at hfuel
      omega
    have hnext := ih (front ++ vec8 p) fuel hps hshort
    rw [show front ++ vec8 p ++ rest = (front ++ [UInt8.ofNat p.length]) ++ (p ++ rest) by simp [vec8],
      show (front ++ vec8 p).length = front.length + 1 + p.length by simp [vec8]; omega] at hnext
    rw [hoffers]
    unfold selectLoop
    rw [if_pos (by simp), hbyte]
    show (if front.length + 1 + (UInt8.ofNat p.length).toNat > _ then _ else _) = _
    rw [hn, if_neg (by simp only [List.length_append, List.length_cons, List.length_nil]; omega),
      hslice]
    show (if p = chosen then .ok (.ok p) else selectLoop chosen _ fuel _) = _
    by_cases hc : p = chosen
    · subst hc
      rw [if_pos rfl, outcome, if_pos List.mem_cons_self]
    · rw [if_neg hc, hnext]
      have hmem : chosen ∈ p :: ps ↔ chosen ∈ ps := List.mem_cons.trans (or_iff_right (Ne.symm hc))
      simp only [outcome, hmem]

theorem selectAlpn_eq (chosen : Bytes) {ps : List Bytes} {tail : Bytes}
    (hps : ∀ p ∈ ps, p.length < 256) (hcut : Cut tail) :
    selectAlpn chosen (ps.flatMap vec8 ++ tail) = .ok (outcome chosen ps tail) :=
  selectLoop_eq chosen ps [] tail _ hps hcut (Nat.lt_succ_self _)

/-- **One protocol for both sides.**  On any octets the callback ends without a panic, with the
origin's protocol if it is one of the entries, and otherwise without one, or with an alert where
the list is cut in an entry.  For the offers of a hello that `mirror` took these entries are what
the backend was told to offer, so that a protocol that the origin chose of them is also the
client's. -/
theorem alpn_agrees (D : HexCrate) (B : Backend) (patched : Bool) :
    (∀ offers : Bytes, ∃ (ps : List Bytes) (tail : Bytes),
      offers = ps.flatMap vec8 ++ tail ∧ (∀ p ∈ ps, p.length < 256) ∧ Cut tail ∧
      ∀ chosen : Bytes, selectAlpn chosen offers = .ok (if chosen ∈ ps then .ok chosen
        else if tail = [] then .error .NOACK else .error .ALERT_FATAL)) ∧
    ∀ b hello l raw, parseHello D.toDigestCrates b = .ok hello → IsHello b l →
      (16, raw) ∈ l.extensions → ∃ ps : List Bytes, (∀ p ∈ ps, p.length < 256) ∧
        raw = vec16 (ps.flatMap vec8) ∧
        ∀ host ca calls limitations, mirror D B patched hello host ca = .ok (calls, limitations) →
          (∀ told, .setAlpnProtos told ∈ calls ↔ ps ≠ [] ∧ told = ps.flatMap vec8) ∧
          ∀ chosen, selectAlpn chosen (ps.flatMap vec8) =
            .ok (if chosen ∈ ps then .ok chosen else .error .NOACK) := by
  refine ⟨fun offers => ?_, fun b hello l raw hb hl hraw => ?_⟩
  · obtain ⟨ps, tail, rfl, hps, hcut⟩ := entries_cut offers
    exact ⟨ps, tail, rfl, hps, hcut, fun chosen => selectAlpn_eq chosen hps hcut⟩
  · obtain ⟨ps, hps, hshort, hoctets, -⟩ := alpn_of_wire hb hl
    refine ⟨ps, hshort, hoctets raw hraw, fun host ca calls limitations h => ?_⟩
    refine ⟨(told_protocols hps h).2, fun chosen => ?_⟩
    have := selectAlpn_eq chosen hshort (.inl rfl)
    rwa [List.append_nil] at this

end Serve
