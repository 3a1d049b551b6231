import FingerprintBridge.Tls.Records

/-!
# `Tap` of `src/transport.rs`

A `Tap` keeps what the stream under it accepts, until a hello is there or the limit is
reached.  What it kept is answered as all that was accepted would be (`tap_faithful`).
-/

namespace Tls

/-- `Capture`. -/
structure Capture where
  bytes : Bytes := []
  done : Bool := false
deriving DecidableEq, Repr

/-- What the stream under the tap makes of a buffer: `accepted n` takes its first `n`
octets. -/
inductive Inner (buffer : Bytes) where
  | pending
  | failed
  | accepted (n : Nat) (h : n ≤ buffer.length)

/-- A call of `poll_write`. -/
structure Write where
  buffer : Bytes
  inner : Inner buffer

def Write.accepted (w : Write) : Bytes :=
  match w.inner with
  | .accepted n _ => w.buffer.take n
  | _ => []

section
variable (D : DigestCrates)

/-- `matches!(client_hello(&c.bytes), Ok(Some(_)))`. -/
def found (bytes : Bytes) : Bool :=
  match clientHello D bytes with
  | .ok (some _) => true
  | _ => false

def pollWrite (c : Capture) (w : Write) : Res Capture :=
  match w.inner with
  | .accepted n _ =>
    if c.done then .ok c
    else do
      let room ← checkedSub MAX_HELLO c.bytes.length
      let bytes := c.bytes ++ (← slice w.buffer 0 (min n room))
      return { bytes, done := found D bytes || bytes.length == MAX_HELLO }
  | _ => .ok c

end

/-- What the tap knows of the octets accepted so far. -/
inductive Kept (D : DigestCrates) (accepted : Bytes) : Capture → Prop where
  | all (h : accepted.length < MAX_HELLO) : Kept D accepted ⟨accepted, false⟩
  | enough (bytes : Bytes) (h : bytes <+: accepted) (hlen : bytes.length ≤ MAX_HELLO)
      (hend : found D bytes = true ∨ bytes.length = MAX_HELLO) : Kept D accepted ⟨bytes, true⟩

variable {D : DigestCrates}

/-- One call keeps what it is to keep, and does not panic. -/
theorem Kept.pollWrite {accepted : Bytes} {c : Capture} (h : Kept D accepted c) (w : Write) :
    ∃ c', pollWrite D c w = .ok c' ∧ Kept D (accepted ++ w.accepted) c' := by
  obtain ⟨buffer, inner⟩ := w
  cases inner with
  | pending =>
    refine ⟨c, rfl, ?_⟩
    rwa [show Write.accepted ⟨buffer, .pending⟩ = [] from rfl, List.append_nil]
  | failed =>
    refine ⟨c, rfl, ?_⟩
    rwa [show Write.accepted ⟨buffer, .failed⟩ = [] from rfl, List.append_nil]
  | accepted n hn =>
    show ∃ c', _ ∧ Kept D (accepted ++ buffer.take n) c'
    cases h with
    | enough bytes hp hlen hend =>
      exact ⟨⟨bytes, true⟩, rfl, .enough bytes (hp.trans (List.prefix_append _ _)) hlen hend⟩
    | all hlt =>
      obtain ⟨k, hk⟩ : ∃ k, min n (MAX_HELLO - accepted.length) = k := ⟨_, rfl⟩
      have hrun : Tls.pollWrite D ⟨accepted, false⟩ ⟨buffer, .accepted n hn⟩ =
          .ok ⟨accepted ++ buffer.take k, found D (accepted ++ buffer.take k) ||
            (accepted ++ buffer.take k).length == MAX_HELLO⟩ := by
        unfold Tls.pollWrite
        simp only [Bool.false_eq_true, if_false, Res.checkedSub_of_le _ _ (Nat.le_of_lt hlt)]
        show (do
          let bytes := accepted ++ (← slice buffer 0 (min n (MAX_HELLO - accepted.length)))
          return { bytes, done := found D bytes || bytes.length == MAX_HELLO } : Res Capture) = _
        rw [hk, Res.slice_of_le _ _ _ (Nat.zero_le k) (by omega)]
        rfl
      have hlen : (accepted ++ buffer.take k).length = accepted.length + k := by
        rw [List.length_append, List.length_take, Nat.min_eq_left (by omega)]
      refine ⟨_, hrun, ?_⟩
      by_cases hend : (found D (accepted ++ buffer.take k) ||
          (accepted ++ buffer.take k).length == MAX_HELLO) = true
      · rw [hend]
        refine .enough _ ?_ (by omega) (by simpa using hend)
        exact (List.prefix_append_right_inj _).2 (List.take_prefix_take_left (by omega))
      · rw [Bool.eq_false_iff.2 hend]
        simp only [Bool.or_eq_true, beq_iff_eq, not_or] at hend
        -- there was room for all of them
        obtain rfl : k = n := by omega
        exact .all (by omega)

/-- The octets accepted in a sequence of calls. -/
def acceptedOctets (ws : List Write) : Bytes := ws.flatMap Write.accepted

theorem Kept.polls {accepted : Bytes} {c : Capture} (h : Kept D accepted c) (ws : List Write) :
    ∃ c', ws.foldlM (Tls.pollWrite D) c = .ok c' ∧ Kept D (accepted ++ acceptedOctets ws) c' := by
  induction ws generalizing accepted c with
  | nil => exact ⟨c, rfl, by rwa [acceptedOctets, List.flatMap_nil, List.append_nil]⟩
  | cons w ws ih =>
    obtain ⟨c1, hone, hkept⟩ := h.pollWrite w
    obtain ⟨c', hrun, hkept'⟩ := ih hkept
    refine ⟨c', ?_, ?_⟩
    · rw [List.foldlM_cons, hone]
      exact hrun
    · rwa [acceptedOctets, List.flatMap_cons, ← List.append_assoc]

theorem Kept.prefix {accepted : Bytes} {c : Capture} (h : Kept D accepted c) :
    c.bytes <+: accepted ∧ c.bytes.length ≤ MAX_HELLO := by
  cases h with
  | all hlt => exact ⟨List.prefix_refl _, Nat.le_of_lt hlt⟩
  | enough bytes hp hlen hend => exact ⟨hp, hlen⟩

/-- What was kept has the answer of all that may be kept. -/
theorem Kept.answer {accepted : Bytes} {c : Capture} (h : Kept D accepted c) :
    clientHello D c.bytes = clientHello D (accepted.take MAX_HELLO) := by
  cases h with
  | all hlt => rw [List.take_of_length_le (Nat.le_of_lt hlt)]
  | enough bytes hp hlen hend =>
    have hshort : bytes <+: accepted.take MAX_HELLO := by
      rw [List.prefix_iff_eq_take.1 hp]
      exact List.take_prefix_take_left hlen
    obtain ⟨x, hx⟩ := hshort
    have hmax : (bytes ++ x).length ≤ MAX_HELLO := by
      rw [hx, List.length_take]
      omega
    rw [← hx]
    rcases hend with hfound | hfull
    · refine (clientHello_append bytes x hmax fun hnone => ?_).symm
      unfold found at hfound
      rw [hnone] at hfound
      cases hfound
    · rw [List.length_append, hfull] at hmax
      obtain rfl : x = [] := List.length_eq_zero_iff.1 (by omega)
      rw [List.append_nil]

/-- **The hello compared is the one emitted.**  However the stream under the tap behaves,
what the tap kept is a prefix of what was accepted and is answered as the octets accepted
are, up to the limit; a hello found in a prefix, or an error, is the answer on the whole. -/
theorem tap_faithful (D : DigestCrates) :
    (∀ ws : List Write, ∃ c, ws.foldlM (pollWrite D) {} = .ok c ∧ c.bytes <+: acceptedOctets ws ∧
      c.bytes.length ≤ MAX_HELLO ∧
      clientHello D c.bytes = clientHello D ((acceptedOctets ws).take MAX_HELLO)) ∧
    ∀ p b : Bytes, p <+: b → b.length ≤ MAX_HELLO →
      (∀ h, clientHello D p = .ok (some h) → clientHello D b = .ok (some h)) ∧
      ∀ e, clientHello D p = .error e → clientHello D b = .error e := by
  refine ⟨fun ws => ?_, ?_⟩
  · obtain ⟨c, hrun, hkept⟩ := Kept.polls (.all (by decide) : Kept D [] {}) ws
    exact ⟨c, hrun, hkept.prefix.1, hkept.prefix.2, hkept.answer⟩
  · rintro p b ⟨x, rfl⟩ hlen
    refine ⟨fun h hp => ?_, fun e hp => ?_⟩
    · rw [clientHello_append p x hlen (by rw [hp]; simp), hp]
    · rw [clientHello_append p x hlen (by rw [hp]; simp), hp]

/-- An alert is no hello, and stays none when more is captured. -/
theorem tap_faithful_alert :
    clientHello sampleDigests [21, 3, 3, 0, 2, 2, 40] = .error (.err "expected TLS handshake record") :=
  ((tap_faithful sampleDigests).2 [21, 3, 3, 0, 2] [21, 3, 3, 0, 2, 2, 40] ⟨[2, 40], rfl⟩ (by decide)).2
    _ (by decide)

end Tls
