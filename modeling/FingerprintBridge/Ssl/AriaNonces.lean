import FingerprintBridge.Ssl.AriaRecords

/-!
# `scripts/patches/bridge-aria.patch`: nonces over a connection

A context takes the counter of a nonce before anything is encrypted, and takes no counter below
the next one.  So over any calls, failed ones included, no nonce is used twice (`nonces_fresh`).
-/

namespace AriaGcm

/-! ## Calls on a context -/

inductive Call where
  | sealing (maxOutTagLen : Nat) (nonce input extraIn ad : Bytes)
  | opening (nonce input inTag ad : Bytes)

/-- A call with the buffers that the caller has for it. -/
structure Request where
  call : Call
  out : Bytes
  outTag : Bytes
  outTagLen : Nat

def Call.act : Call → Act Memory Unit
  | .sealing maxOutTagLen nonce input extraIn ad => sealScatter maxOutTagLen nonce input extraIn ad
  | .opening nonce input inTag ad => openGather nonce input inTag ad

def Call.nonce : Call → Bytes
  | .sealing _ nonce _ _ _ => nonce
  | .opening nonce _ _ _ => nonce

/-- A call of a run, with the context it finds. -/
structure Event where
  request : Request
  ctx : AriaGcmCtx

namespace Event

def before (e : Event) : Memory :=
  ⟨e.ctx, e.request.out, e.request.outTag, e.request.outTagLen⟩

def result (e : Event) : EStateM.Result Fault Memory Unit := e.request.call.act e.before

/-- What the call leaves, whether it fails or not. -/
def after (e : Event) : Memory := e.request.call.act.final e.before

def nonce (e : Event) : Bytes := e.request.call.nonce

/-- The call gets to encryption; a call to seal that does not writes nothing
(`seal_rejected`). -/
def Encrypts (e : Event) : Prop :=
  match e.request.call with
  | .sealing maxOutTagLen nonce input extraIn _ => Admitted e.ctx maxOutTagLen nonce input extraIn
  | .opening .. => False

end Event

/-- The calls of a run, in order. -/
def run (ctx : AriaGcmCtx) : List Request → List Event
  | [] => []
  | request :: requests => ⟨request, ctx⟩ :: run (Event.after ⟨request, ctx⟩).ctx requests

/-! ## One call -/

theorem encryptScatter_ctx (nonce input extraIn ad : Bytes) (ctx : AriaGcmCtx) :
    Act.Triple (fun m : Memory => m.ctx = ctx) (encryptScatter nonce input extraIn ad)
      (fun _ => True) (fun _ => True) := by
  unfold encryptScatter
  refine Act.triple_bind _ _ Act.triple_get fun m hm => ?_
  refine Act.triple_bind _ _ (Act.triple_lift _ fun _ _ => trivial) fun out _ => ?_
  refine Act.triple_bind _ _ (Act.triple_set _ hm) fun _ _ => ?_
  refine Act.triple_bind _ _ Act.triple_get fun m hm => ?_
  refine Act.triple_bind _ _ (Act.triple_lift _ fun _ _ => trivial) fun outTag _ => ?_
  refine Act.triple_bind _ _ (Act.triple_set _ hm) fun _ _ => ?_
  refine Act.triple_bind _ _ Act.triple_get fun m hm => ?_
  refine Act.triple_bind _ _ (Act.triple_lift _ fun _ _ => trivial) fun tag _ => ?_
  refine Act.triple_bind _ _ (Act.triple_lift _ fun _ _ => trivial) fun last _ => ?_
  exact Act.triple_set _ hm

theorem openGather_ctx (nonce input inTag ad : Bytes) (ctx : AriaGcmCtx) :
    Act.Triple (fun m : Memory => m.ctx = ctx) (openGather nonce input inTag ad)
      (fun _ => True) (fun _ => True) := by
  unfold openGather
  refine Act.triple_bind _ _ Act.triple_get fun m hm => ?_
  refine Act.triple_bind _ _ (Act.triple_lift _ fun _ _ => trivial) fun _ _ => ?_
  refine Act.triple_bind _ _ (Act.triple_lift _ fun _ _ => trivial) fun _ _ => ?_
  refine Act.triple_bind _ _ (Act.triple_lift _ fun _ _ => trivial) fun _ _ => ?_
  refine Act.triple_bind _ _ (Act.triple_lift _ fun _ _ => trivial) fun out _ => ?_
  exact Act.triple_set _ hm

/-- A call to seal that is admitted takes the counter, whatever becomes of it. -/
theorem seal_admitted {maxOutTagLen : Nat} {nonce input extraIn : Bytes} (ad : Bytes) {m : Memory}
    (h : Admitted m.ctx maxOutTagLen nonce input extraIn) :
    ((sealScatter maxOutTagLen nonce input extraIn ad).final m).ctx =
      { m.ctx with minNextNonce := counterValue nonce + 1 } := by
  unfold sealScatter
  rw [Act.final_bind_ok ((sealChecks_ok_iff _ _ _ _ m _).2 ⟨h, rfl⟩)]
  exact (encryptScatter_ctx nonce input extraIn ad _).final rfl

/-- A call to seal that is not admitted fails and writes nothing. -/
theorem seal_rejected {maxOutTagLen : Nat} {nonce input extraIn : Bytes} (ad : Bytes) {m : Memory}
    (h : ¬ Admitted m.ctx maxOutTagLen nonce input extraIn) :
    ∃ err, sealScatter maxOutTagLen nonce input extraIn ad m = .error err m := by
  cases hchecks : sealChecks maxOutTagLen nonce input extraIn m with
  | ok _ m' => exact (h ((sealChecks_ok_iff _ _ _ _ _ _).1 hchecks).1).elim
  | error err m' =>
    obtain rfl := sealChecks_error hchecks
    exact ⟨err, (Act.bind_error_iff _ _ _ _ _).2 (.inl hchecks)⟩

theorem openGather_error {nonce input inTag ad : Bytes} {m m' : Memory} {err : Fault}
    (h : openGather nonce input inTag ad m = .error err m') : m' = m := by
  unfold openGather at h
  simp only [Act.bind_error_iff, Act.liftM_ok_iff, Act.liftM_error_iff] at h
  rcases h with h | ⟨_, _, hget, h⟩
  · cases h
  cases hget
  rcases h with ⟨-, rfl⟩ | ⟨_, _, ⟨-, rfl⟩, h⟩
  · rfl
  rcases h with ⟨-, rfl⟩ | ⟨_, _, ⟨-, rfl⟩, h⟩
  · rfl
  rcases h with ⟨-, rfl⟩ | ⟨_, _, ⟨-, rfl⟩, h⟩
  · rfl
  rcases h with ⟨-, rfl⟩ | ⟨_, _, ⟨-, rfl⟩, h⟩
  · rfl
  · cases h

namespace Event

/-- A call that is rejected before it encrypts leaves all as it was. -/
theorem after_of_error {e : Event} (h : ¬ e.Encrypts) {err : Fault} {m : Memory}
    (hresult : e.result = .error err m) : m = e.before := by
  obtain ⟨⟨call, out, outTag, outTagLen⟩, ctx⟩ := e
  cases call with
  | sealing maxOutTagLen nonce input extraIn ad =>
    obtain ⟨err', heq⟩ := seal_rejected ad (m := ⟨ctx, out, outTag, outTagLen⟩) h
    have hboth := heq.symm.trans hresult
    cases hboth
    rfl
  | opening nonce input inTag ad => exact openGather_error hresult

/-- A call that encrypts takes the counter of its nonce, also if it fails afterwards. -/
theorem ctx_of_encrypts {e : Event} (h : e.Encrypts) :
    e.after.ctx = { e.ctx with minNextNonce := counterValue e.nonce + 1 } := by
  obtain ⟨⟨call, out, outTag, outTagLen⟩, ctx⟩ := e
  cases call with
  | sealing maxOutTagLen nonce input extraIn ad =>
    exact seal_admitted ad (m := ⟨ctx, out, outTag, outTagLen⟩) h
  | opening nonce input inTag ad => exact h.elim

/-- Any other call leaves the context alone. -/
theorem ctx_of_not_encrypts {e : Event} (h : ¬ e.Encrypts) : e.after.ctx = e.ctx := by
  obtain ⟨⟨call, out, outTag, outTagLen⟩, ctx⟩ := e
  cases call with
  | sealing maxOutTagLen nonce input extraIn ad =>
    obtain ⟨err, heq⟩ := seal_rejected ad (m := ⟨ctx, out, outTag, outTagLen⟩) h
    exact congrArg Memory.ctx (Act.final_error heq)
  | opening nonce input inTag ad => exact (openGather_ctx nonce input inTag ad _).final rfl

theorem counter_of_encrypts {e : Event} (h : e.Encrypts) :
    counterValue e.nonce ≠ UInt64.ofNat (2 ^ 64 - 1) ∧ e.ctx.minNextNonce ≤ counterValue e.nonce := by
  obtain ⟨⟨call, out, outTag, outTagLen⟩, ctx⟩ := e
  cases call with
  | sealing maxOutTagLen nonce input extraIn ad => exact h.counter
  | opening nonce input inTag ad => exact h.elim

/-- The next nonce never decreases, nor does it wrap. -/
theorem step (e : Event) : e.ctx.minNextNonce ≤ e.after.ctx.minNextNonce ∧
    (e.Encrypts → e.ctx.minNextNonce ≤ counterValue e.nonce ∧
      e.after.ctx.minNextNonce.toNat = (counterValue e.nonce).toNat + 1) := by
  by_cases h : e.Encrypts
  · obtain ⟨hne, hle⟩ := counter_of_encrypts h
    have hlt : (counterValue e.nonce).toNat + 1 < 2 ^ 64 := by
      have hmax := (counterValue e.nonce).toNat_lt
      have hne' : (counterValue e.nonce).toNat ≠ 2 ^ 64 - 1 := fun heq =>
        hne (UInt64.toNat_inj.1 (heq.trans (by decide)))
      omega
    have hnext : (counterValue e.nonce + 1).toNat = (counterValue e.nonce).toNat + 1 :=
      (UInt64.toNat_add _ _).trans (Nat.mod_eq_of_lt hlt)
    rw [ctx_of_encrypts h]
    refine ⟨UInt64.le_trans hle (UInt64.le_iff_toNat_le.2 ?_), fun _ => ⟨hle, hnext⟩⟩
    rw [hnext]
    exact Nat.le_succ _
  · rw [ctx_of_not_encrypts h]
    exact ⟨UInt64.le_refl _, fun h' => (h h').elim⟩

/-- What is asked of one call. -/
structure Sound (e : Event) : Prop where
  grows : e.ctx.minNextNonce ≤ e.after.ctx.minNextNonce
  taken : e.Encrypts → e.after.ctx.minNextNonce.toNat = (counterValue e.nonce).toNat + 1
  kept : ¬ e.Encrypts → e.after.ctx = e.ctx
  unchanged : ¬ e.Encrypts → ∀ err m, e.result = .error err m → m = e.before
  rejected : ¬ e.Encrypts → ∀ maxOutTagLen nonce input extraIn ad,
    e.request.call = .sealing maxOutTagLen nonce input extraIn ad →
      ∃ err, e.result = .error err e.before

theorem sound (e : Event) : e.Sound where
  grows := e.step.1
  taken h := (e.step.2 h).2
  kept := ctx_of_not_encrypts
  unchanged h _ _ := after_of_error h
  rejected := by
    intro h maxOutTagLen nonce input extraIn ad hcall
    obtain ⟨⟨call, out, outTag, outTagLen⟩, ctx⟩ := e
    obtain rfl : call = _ := hcall
    exact seal_rejected ad h

end Event

/-! ## A run -/

/-- From call to call the next nonce only grows. -/
theorem run_le (ctx : AriaGcmCtx) (requests : List Request) :
    ∀ e ∈ run ctx requests, ctx.minNextNonce ≤ e.ctx.minNextNonce := by
  induction requests generalizing ctx with
  | nil => exact fun e he => (List.not_mem_nil he).elim
  | cons request requests ih =>
    intro e he
    rcases List.mem_cons.1 he with rfl | he
    · exact UInt64.le_refl _
    · exact UInt64.le_trans (Event.step ⟨request, ctx⟩).1 (ih _ e he)

theorem run_pairwise (ctx : AriaGcmCtx) (requests : List Request) :
    (run ctx requests).Pairwise fun a b => a.after.ctx.minNextNonce ≤ b.ctx.minNextNonce := by
  induction requests generalizing ctx with
  | nil => exact .nil
  | cons request requests ih => exact .cons (run_le _ requests) (ih _)

/-- **No nonce is used twice.**  Over any calls on a context, the counters of the nonces that
were used for encryption increase, also those of calls that failed afterwards; the next nonce
never decreases or wraps; and a call that is rejected before it encrypts leaves the context
and the buffers as they were. -/
theorem nonces_fresh {ariaSetEncryptKey : Bytes → Option (Block → Block)} {keyLen : Nat}
    {key : Bytes} {requestedTagLen : Nat} {ctx : AriaGcmCtx}
    (h : aeadAriaGcmInit ariaSetEncryptKey keyLen key requestedTagLen = .ok ctx)
    (requests : List Request) :
    ctx.minNextNonce = 0 ∧
    (run ctx requests).Pairwise (fun a b => a.Encrypts → b.Encrypts →
      counterValue a.nonce < counterValue b.nonce ∧ a.nonce ≠ b.nonce) ∧
    (run ctx requests).Pairwise (fun a b => a.after.ctx.minNextNonce ≤ b.ctx.minNextNonce) ∧
    ∀ e ∈ run ctx requests, e.Sound := by
  have hpairs := run_pairwise ctx requests
  refine ⟨?_, hpairs.imp fun {a b} hle ha hb => ?_, hpairs, fun e _ => e.sound⟩
  · unfold aeadAriaGcmInit at h
    simp only [Res.bind_ok_iff] at h
    obtain ⟨-, -, -, -, ariaEncrypt, -, h⟩ := h
    cases h
    rfl
  · have hlt : counterValue a.nonce < counterValue b.nonce := by
      have htaken := a.sound.taken ha
      have hnext := UInt64.le_iff_toNat_le.1 (UInt64.le_trans hle (b.step.2 hb).1)
      exact UInt64.lt_iff_toNat_lt.2 (by omega)
    exact ⟨hlt, fun heq => UInt64.lt_irrefl _ (heq ▸ hlt)⟩

def nextNonce : Bytes := [1, 2, 3, 4, 0, 0, 0, 0, 0, 0, 0, 10]

/-- The counters 9 and 10, and between them 9 once more. -/
def sampleRequests : List Request :=
  [⟨.sealing 16 sampleNonce [1, 2, 3] [] [], [0, 0, 0], List.replicate 16 0, 0⟩,
    ⟨.sealing 16 sampleNonce [4] [] [], [0], List.replicate 16 0, 0⟩,
    ⟨.sealing 16 nextNonce [4] [] [], [0], List.replicate 16 0, 0⟩]

theorem nonces_fresh_sample : ∃ a b c,
    run { sampleCtx with minNextNonce := 0 } sampleRequests = [a, b, c] ∧
    a.Encrypts ∧ ¬ b.Encrypts ∧ c.Encrypts ∧ b.after.ctx.minNextNonce = 10 ∧
    counterValue a.nonce < counterValue c.nonce ∧ a.nonce ≠ c.nonce := by
  have h : aeadAriaGcmInit (fun _ => some sampleCtx.ariaEncrypt) 16 (List.replicate 16 7) 0 =
      .ok { sampleCtx with minNextNonce := 0 } := rfl
  have hpairs := (nonces_fresh h sampleRequests).2.1
  refine ⟨_, _, _, rfl, ?_, ?_, ?_, ?_, ?_⟩
  · exact ⟨rfl, by decide +kernel, by decide +kernel, by decide +kernel⟩
  · exact fun hb => absurd hb.counter (by decide +kernel)
  · exact ⟨rfl, by decide +kernel, by decide +kernel, by decide +kernel⟩
  · decide +kernel
  · exact (List.pairwise_cons.1 hpairs).1 _ (.tail _ (.head _))
      ⟨rfl, by decide +kernel, by decide +kernel, by decide +kernel⟩
      ⟨rfl, by decide +kernel, by decide +kernel, by decide +kernel⟩

end AriaGcm
