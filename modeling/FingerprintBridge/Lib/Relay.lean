import Mathlib.Algebra.Ring.Nat
import Mathlib.Data.List.Basic

/-!
# Relays

A relay passes messages on between two parties.  Some of them it may change or drop; the
visible ones it passes on as they are and in order, so that at any time the receiver has
been shown the first of those sent (`Shows`).  If what a message costs and what it grants
lie in visible messages only, a sender who keeps to the credit it has seen is within the
credit that the receiver has granted (`Keeps.received`): the relay needs no account.
-/

namespace Relay

variable {α ι : Type} {visible : α → Bool}

/-- Of the visible messages, those received are the first of those sent. -/
def Shows (visible : α → Bool) (received sent : List α) : Prop :=
  received.filter visible <+: sent.filter visible

theorem Shows.earlier {received received' sent : List α} (h : Shows visible received sent)
    (hp : received' <+: received) : Shows visible received' sent :=
  (hp.filter visible).trans h

theorem Shows.later {received sent sent' : List α} (h : Shows visible received sent)
    (hp : sent <+: sent') : Shows visible received sent' :=
  h.trans (hp.filter visible)

/-- What was received looks like a beginning of what was sent. -/
theorem Shows.cut {received sent : List α} (h : Shows visible received sent) :
    ∃ front, front <+: sent ∧ front.filter visible = received.filter visible := by
  obtain ⟨rest, hrest⟩ := h
  obtain ⟨front, back, rfl, hfront, -⟩ := List.filter_eq_append_iff.1 hrest.symm
  exact ⟨front, List.prefix_append _ _, hfront⟩

/-- A visible message received was sent, after the same visible ones. -/
theorem Shows.sent {before after sent : List α} {a : α}
    (h : Shows visible (before ++ a :: after) sent) (ha : visible a = true) :
    ∃ before' after', sent = before' ++ a :: after' ∧
      before'.filter visible = before.filter visible := by
  obtain ⟨rest, hrest⟩ := h
  rw [List.filter_append, List.filter_cons_of_pos ha, List.append_assoc] at hrest
  obtain ⟨front, back, rfl, hfront, hback⟩ := List.filter_eq_append_iff.1 hrest.symm
  obtain ⟨skipped, after', rfl, hskipped, -, -⟩ := List.filter_eq_cons_iff.1 hback
  refine ⟨front ++ skipped, after', by rw [List.append_assoc], ?_⟩
  rw [List.filter_append, hfront, List.filter_eq_nil_iff.2 hskipped, List.append_nil]

/-! ## Credit -/

/-- What a message costs its sender, and what the messages of the other party allow. -/
structure Account (α : Type) where
  cost : α → Nat
  credit : List α → Nat

namespace Account

/-- The cost of a sequence of messages. -/
def spent (acc : Account α) (sent : List α) : Nat := (sent.map acc.cost).sum

/-- Only visible messages cost or grant anything. -/
structure Visible (visible : α → Bool) (acc : Account α) : Prop where
  cost : ∀ a, visible a = false → acc.cost a = 0
  credit : ∀ xs ys, xs.filter visible = ys.filter visible → acc.credit xs = acc.credit ys

theorem Visible.spent_filter {acc : Account α} (h : acc.Visible visible) (xs : List α) :
    acc.spent (xs.filter visible) = acc.spent xs := by
  induction xs with
  | nil => rfl
  | cons x xs ih =>
    unfold spent at ih ⊢
    by_cases hx : visible x = true
    · rw [List.filter_cons_of_pos hx, List.map_cons, List.map_cons, List.sum_cons, List.sum_cons, ih]
    · rw [List.filter_cons_of_neg hx, List.map_cons, List.sum_cons, ih,
        h.cost x (Bool.eq_false_iff.2 hx), Nat.zero_add]

theorem Visible.spent_eq {acc : Account α} (h : acc.Visible visible) {xs ys : List α}
    (heq : xs.filter visible = ys.filter visible) : acc.spent xs = acc.spent ys := by
  rw [← h.spent_filter xs, heq, h.spent_filter]

@[simp] theorem spent_append (acc : Account α) (xs ys : List α) :
    acc.spent (xs ++ ys) = acc.spent xs + acc.spent ys := by
  unfold spent
  rw [List.map_append, List.sum_append]

end Account

/-- A message, and what its sender had received when it sent it. -/
abbrev Log (α : Type) := List (List α × α)

/-- Whatever costs something is within the credit its sender has seen. -/
def Keeps (acc : Account α) (log : Log α) : Prop :=
  ∀ before seen a after, log = before ++ (seen, a) :: after → acc.cost a ≠ 0 →
    acc.spent (before.map Prod.snd ++ [a]) ≤ acc.credit seen

/-- **Credit needs no account in between.**  One party sends the log and keeps to credit that
the other one, who sent `granted`, allows it.  Of what that one has received, each message
is within the credit of some beginning of what it sent. -/
theorem Keeps.received {accounts : ι → Account α} (hvisible : ∀ i, (accounts i).Visible visible)
    {log : Log α} (hkeeps : ∀ i, Keeps (accounts i) log) {granted received : List α}
    (hseen : ∀ e ∈ log, Shows visible e.1 granted)
    (hreceived : Shows visible received (log.map Prod.snd)) (before : List α) (a : α)
    (after : List α) (heq : received = before ++ a :: after) (ha : visible a = true) :
    ∃ front, front <+: granted ∧ ∀ i, (accounts i).cost a ≠ 0 →
      (accounts i).spent (before ++ [a]) ≤ (accounts i).credit front := by
  rw [heq] at hreceived
  obtain ⟨before', after', hsent, hview⟩ := hreceived.sent ha
  obtain ⟨logBefore, logRest, rfl, rfl, hrest⟩ := List.map_eq_append_iff.1 hsent
  obtain ⟨⟨seen, b⟩, logAfter, rfl, rfl, -⟩ := List.map_eq_cons_iff.1 hrest
  obtain ⟨front, hfront, hcredit⟩ :=
    (hseen (seen, b) (List.mem_append_right _ List.mem_cons_self)).cut
  refine ⟨front, hfront, fun i hi => ?_⟩
  have hspent : (accounts i).spent (before ++ [b]) =
      (accounts i).spent (logBefore.map Prod.snd ++ [b]) := by
    rw [Account.spent_append, Account.spent_append, (hvisible i).spent_eq hview]
  rw [hspent, (hvisible i).credit front seen hcredit]
  exact hkeeps i logBefore seen b logAfter rfl hi

end Relay
