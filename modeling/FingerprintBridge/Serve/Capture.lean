import FingerprintBridge.Tls.Replay
import FingerprintBridge.Tls.Tap

/-!
# `HttpCapture` and `HttpTap` of `src/transport.rs`

The diagnostic capture of the plaintext: what goes through the tapped side, up to a limit,
and whether there was more (`capture_exact`).
-/

namespace Serve

open Tls

/-! ## The code -/

structure HttpCapture where
  bytes : Bytes := []
  truncated : Bool := false
deriving DecidableEq, Repr

/-- `1024 * 1024` -/
def MAX_CAPTURE : Nat := 1048576

def HttpCapture.append (c : HttpCapture) (b : Bytes) : Res HttpCapture := do
  let room ← checkedSub MAX_CAPTURE c.bytes.length
  let n := min b.length room
  return { bytes := c.bytes ++ (← slice b 0 n), truncated := c.truncated || n != b.length }

/-- A call of `poll_read`: what is filled before and after it. -/
structure TapRead where
  before : Bytes
  after : Bytes
  grows : before <+: after
  poll : Poll

/-- What is called on the stream. -/
inductive TapCall where
  | read (r : TapRead)
  | write (w : Write)

def pollRead (onRead : Bool) (c : HttpCapture) (r : TapRead) : Res HttpCapture :=
  if onRead && r.poll == .ready then do
    c.append (← slice r.after r.before.length r.after.length)
  else .ok c

def pollWrite (onRead : Bool) (c : HttpCapture) (w : Write) : Res HttpCapture :=
  match w.inner with
  | .accepted n _ =>
    if onRead then .ok c
    else do c.append (← slice w.buffer 0 n)
  | _ => .ok c

def tap (onRead : Bool) (c : HttpCapture) : TapCall → Res HttpCapture
  | .read r => pollRead onRead c r
  | .write w => pollWrite onRead c w

/-! ## What is captured -/

/-- The octets that a call passes on the tapped side. -/
def TapCall.passed (onRead : Bool) : TapCall → Bytes
  | .read r => if onRead && r.poll == .ready then r.after.drop r.before.length else []
  | .write w => if onRead then [] else w.accepted

def passed (onRead : Bool) (calls : List TapCall) : Bytes :=
  calls.flatMap (TapCall.passed onRead)

/-- What is captured of octets. -/
def captured (b : Bytes) : HttpCapture where
  bytes := b.take MAX_CAPTURE
  truncated := decide (MAX_CAPTURE < b.length)

theorem append_captured (b x : Bytes) : (captured b).append x = .ok (captured (b ++ x)) := by
  have hlen : (captured b).bytes.length ≤ MAX_CAPTURE := by
    show (b.take MAX_CAPTURE).length ≤ _
    rw [List.length_take]
    omega
  unfold HttpCapture.append
  rw [Res.checkedSub_of_le _ _ hlen]
  show (slice x 0 (min x.length (MAX_CAPTURE - (captured b).bytes.length)) >>= _) = _
  rw [Res.slice_of_le x _ _ (Nat.zero_le _) (by omega)]
  have hroom : (captured b).bytes.length = min MAX_CAPTURE b.length := List.length_take
  rw [hroom, List.drop_zero, Nat.sub_zero]
  have hbytes : b.take MAX_CAPTURE ++ x.take (min x.length (MAX_CAPTURE - min MAX_CAPTURE b.length)) =
      (b ++ x).take MAX_CAPTURE := by
    rw [List.take_append]
    congr 1
    by_cases hb : b.length ≤ MAX_CAPTURE
    · rw [show min MAX_CAPTURE b.length = b.length by omega, Nat.min_comm, ← List.take_take,
        List.take_length]
    · rw [show min MAX_CAPTURE b.length = MAX_CAPTURE by omega,
        show MAX_CAPTURE - b.length = 0 by omega]
      simp
  have htruncated : (decide (MAX_CAPTURE < b.length) ||
      min x.length (MAX_CAPTURE - min MAX_CAPTURE b.length) != x.length) =
      decide (MAX_CAPTURE < (b ++ x).length) := by
    rw [Bool.eq_iff_iff]
    simp only [Bool.or_eq_true, decide_eq_true_eq, bne_iff_ne, List.length_append]
    omega
  exact congrArg Except.ok (congrArg₂ HttpCapture.mk hbytes htruncated)

theorem tap_captured (onRead : Bool) (b : Bytes) (call : TapCall) :
    tap onRead (captured b) call = .ok (captured (b ++ call.passed onRead)) := by
  cases call with
  | read r =>
    unfold tap pollRead TapCall.passed
    dsimp only
    by_cases h : (onRead && r.poll == .ready) = true
    · rw [if_pos h, if_pos h, Res.slice_of_le _ _ _ r.grows.length_le (Nat.le_refl _),
        ← List.length_drop, List.take_length]
      exact append_captured b _
    · rw [if_neg h, if_neg h, List.append_nil]
  | write w =>
    obtain ⟨buffer, inner⟩ := w
    unfold tap pollWrite TapCall.passed Write.accepted
    cases inner with
    | pending => cases onRead <;> simp
    | failed => cases onRead <;> simp
    | accepted n hn =>
      cases onRead with
      | true => simp
      | false =>
        show (slice buffer 0 n >>= fun x => (captured b).append x) = _
        rw [Res.slice_of_le _ _ _ (Nat.zero_le _) hn]
        exact append_captured b _

/-- However the stream is read and written, the capture holds the first octets that passed the
tapped side and says whether there were more; no call panics. -/
theorem capture_exact (onRead : Bool) (calls : List TapCall) :
    calls.foldlM (tap onRead) {} = .ok (captured (passed onRead calls)) := by
  have key : ∀ b : Bytes, calls.foldlM (tap onRead) (captured b) =
      .ok (captured (b ++ passed onRead calls)) := by
    induction calls with
    | nil =>
      intro b
      show Except.ok (captured b) = _
      rw [show passed onRead [] = [] from rfl, List.append_nil]
    | cons call calls ih =>
      intro b
      rw [List.foldlM_cons, tap_captured]
      show calls.foldlM (tap onRead) (captured (b ++ call.passed onRead)) = _
      rw [ih, List.append_assoc]
      rfl
  exact key []

end Serve
