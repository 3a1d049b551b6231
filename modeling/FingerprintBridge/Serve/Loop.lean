import FingerprintBridge.Serve.Connection
import Mathlib.Data.List.Nodup
import Mathlib.Logic.Relation

/-!
# `src/main.rs`: `serve`

The accept loop: a semaphore limits the connections, each of which is a task of its own
with an id of its own, and after an interrupt the loop waits for the tasks that are left.
The tasks, the socket and the user take their steps in any order (`Loop.step`).  A task is
`handle_connection`, of whose log it has written a part; it may be dropped at any moment.
-/

namespace Serve

open Tls Written

/-! ## The code -/

/-- The options of `serve` that are read before its loop. -/
structure Options (Addr : Type) extends Config Addr where
  publicAuthority : Str
  upstream : Str
  maxConnections : UInt64 := 256
  handshakeTimeout : UInt64 := 15
  connectionLifetime : UInt64 := 3600

/-- `Semaphore::MAX_PERMITS`, above which `Semaphore::new` panics. -/
def MAX_PERMITS : Nat := (2 ^ 64 - 1) >>> 3

inductive Status where
  | running
  /-- its future has ended, and its permit is back -/
  | finished
  /-- `join_next` has returned it -/
  | joined
  | aborted
deriving DecidableEq, Repr

structure Task (Addr : Type) where
  id : Str
  outside : Outside Addr
  /-- how many events it has written -/
  moment : Nat := 0
  status : Status := .running

inductive Phase where
  | listening
  /-- after `drop(listener)` -/
  | draining
  | returned (result : Res Unit)

structure Loop (Addr : Type) where
  permits : Nat
  count : UInt64 := 0
  runId : Nat
  /-- all tasks that were spawned, the oldest first -/
  tasks : List (Task Addr) := []
  phase : Phase := .listening

/-- `format!("{run_id}-{count}")` -/
def connectionId (runId : Nat) (count : UInt64) : Str := decimal runId ++ '-' :: decimal count.toNat

/-- `serve` up to its loop; `ready` says how the reading of the chain and of the key, the making of
the reports' directory and the binding of the socket end. -/
def serve {Addr : Type} (U : UrlCrate) (cfg : Options Addr) (ready : Res Unit) (runId : Nat) :
    Res (Mapping U × Loop Addr) := do
  ensure (0 < cfg.maxConnections ∧ 0 < cfg.handshakeTimeout ∧ 0 < cfg.connectionLifetime)
    "limits must be positive"
  let mapping ← Mapping.new U cfg.publicAuthority cfg.upstream
  ready
  if MAX_PERMITS < cfg.maxConnections.toNat then .error .panic
  else .ok (mapping, { permits := cfg.maxConnections.toNat, runId := runId })

inductive Action (Addr : Type) where
  | accept (outside : Outside Addr)
  | acceptFails (msg : String)
  | ctrlC
  /-- a task writes its next event -/
  | event (i : Nat)
  /-- a task ends, also by the limit of its lifetime or a panic -/
  | finish (i : Nat)
  /-- `join_next` returns a task -/
  | join (i : Nat)
  /-- `join_next` returns `None` -/
  | drained
  /-- ten seconds of draining are over -/
  | drainTimeout

section
variable {Addr : Type} {U : UrlCrate} (C : EvidenceCrates) (patched : Bool) (cfg : Config Addr)
  (m : Mapping U)

/-- What the task writes if nobody drops it. -/
def Task.whole (t : Task Addr) : Trace Addr :=
  (handleConnection C patched t.outside cfg m t.id).final []

def Task.log (t : Task Addr) : Trace Addr := (t.whole C patched cfg m).take t.moment

def Task.inSet (t : Task Addr) : Bool := t.status == .running || t.status == .finished

/-- Dropped while it runs. -/
def Task.abort (t : Task Addr) : Task Addr :=
  if t.status = .running then { t with status := .aborted } else t

namespace Loop

def running (s : Loop Addr) : Nat := s.tasks.countP (·.status == .running)

/-- The set of tasks is dropped with what still runs. -/
def leave (s : Loop Addr) (result : Res Unit) : Loop Addr :=
  { s with permits := s.permits + s.running, tasks := s.tasks.map Task.abort,
           phase := .returned result }

/-- A task of the set goes on, if it can. -/
def onTask (s : Loop Addr) (i : Nat) (f : Task Addr → Option (Task Addr)) : Option (Loop Addr) :=
  (s.tasks[i]?.bind f).map fun t => { s with tasks := s.tasks.set i t }

def next (t : Task Addr) : Option (Task Addr) :=
  if t.status = .running ∧ t.moment < (t.whole C patched cfg m).length
  then some { t with moment := t.moment + 1 } else none

def finished (t : Task Addr) : Option (Task Addr) :=
  if t.status = .running then some { t with status := .finished } else none

def joined (t : Task Addr) : Option (Task Addr) :=
  if t.status = .finished then some { t with status := .joined } else none

/-- A stream from the listener: `try_acquire_owned` fails at the limit. -/
def accepted (s : Loop Addr) (outside : Outside Addr) : Loop Addr :=
  match s.permits with
  | 0 => s
  | permits + 1 =>
    let count := s.count + 1
    { s with permits, count, tasks := s.tasks ++ [{ id := connectionId s.runId count, outside }] }

def step (s : Loop Addr) (a : Action Addr) : Option (Loop Addr) :=
  match s.phase, a with
  | .listening, .accept outside => some (s.accepted outside)
  | .listening, .acceptFails msg => some (s.leave (.error (.err msg)))
  | .listening, .ctrlC => some { s with phase := .draining }
  | .listening, .event i | .draining, .event i => s.onTask i (next C patched cfg m)
  | .listening, .finish i | .draining, .finish i =>
    (s.onTask i finished).map fun s => { s with permits := s.permits + 1 }
  | .listening, .join i | .draining, .join i => s.onTask i joined
  | .draining, .drained => if s.tasks.any Task.inSet then none else some (s.leave (.ok ()))
  | .draining, .drainTimeout => some (s.leave (.ok ()))
  | _, _ => none

def run (s : Loop Addr) (as : List (Action Addr)) : Option (Loop Addr) :=
  as.foldlM (fun s a => s.step C patched cfg m a) s

end Loop

end

/-! ## What a step does -/

section
variable {Addr : Type} {U : UrlCrate} {C : EvidenceCrates} {patched : Bool} {cfg : Config Addr}
  {m : Mapping U}

theorem new_eq (m : Mapping U) : Mapping.new U m.publicAuthority m.upstream = .ok m := by
  unfold Mapping.new
  split
  · rename_i hp
    rw [m.public_ok] at hp
    cases hp
  · rename_i hp
    rw [m.public_ok] at hp
    cases hp
    split
    · rename_i hu
      rw [m.upstream_ok] at hu
      cases hu
    · rename_i hu
      rw [m.upstream_ok] at hu
      cases hu
      rfl

namespace Loop

/-- A task that has gone on, and the permits that it has given back. -/
structure Change (C : EvidenceCrates) (patched : Bool) (cfg : Config Addr) (m : Mapping U)
    (t t' : Task Addr) (released : Nat) : Prop where
  id : t'.id = t.id
  outside : t'.outside = t.outside
  moment : t.moment ≤ (t.whole C patched cfg m).length → t'.moment ≤ (t.whole C patched cfg m).length
  status : t.status ≠ .aborted → t'.status ≠ .aborted
  account : (if t'.status = .running then 1 else 0) + released =
    if t.status = .running then 1 else 0

inductive Stepped (C : EvidenceCrates) (patched : Bool) (cfg : Config Addr) (m : Mapping U)
    (s : Loop Addr) : Action Addr → Loop Addr → Prop
  | accept (outside : Outside Addr) (hphase : s.phase = .listening) :
    Stepped C patched cfg m s (.accept outside) (s.accepted outside)
  | ctrlC (hphase : s.phase = .listening) :
    Stepped C patched cfg m s .ctrlC { s with phase := .draining }
  | leave (a : Action Addr) (result : Res Unit) : Stepped C patched cfg m s a (s.leave result)
  | task (a : Action Addr) (i : Nat) (t t' : Task Addr) (released : Nat) (ht : s.tasks[i]? = some t)
    (hphase : ∀ result, s.phase ≠ .returned result) (hchange : Change C patched cfg m t t' released) :
    Stepped C patched cfg m s a
      { s with tasks := s.tasks.set i t', permits := s.permits + released }

theorem onTask_some {s s' : Loop Addr} {i : Nat} {f : Task Addr → Option (Task Addr)}
    (h : s.onTask i f = some s') :
    ∃ t t', s.tasks[i]? = some t ∧ f t = some t' ∧ s' = { s with tasks := s.tasks.set i t' } := by
  obtain ⟨t', h1, rfl⟩ := Option.map_eq_some_iff.1 h
  obtain ⟨t, ht, hf⟩ := Option.bind_eq_some_iff.1 h1
  exact ⟨t, t', ht, hf, rfl⟩

theorem change_next {t t' : Task Addr} (h : next C patched cfg m t = some t') :
    Change C patched cfg m t t' 0 := by
  unfold next at h
  by_cases hc : t.status = .running ∧ t.moment < (t.whole C patched cfg m).length
  · rw [if_pos hc] at h
    cases h
    exact ⟨rfl, rfl, fun _ => hc.2, fun h => h, rfl⟩
  · rw [if_neg hc] at h
    cases h

theorem change_finished {t t' : Task Addr} (h : finished t = some t') :
    Change C patched cfg m t t' 1 := by
  unfold finished at h
  by_cases hc : t.status = .running
  · rw [if_pos hc] at h
    cases h
    exact ⟨rfl, rfl, fun hm => hm, by simp, by simp [hc]⟩
  · rw [if_neg hc] at h
    cases h

theorem change_joined {t t' : Task Addr} (h : joined t = some t') :
    Change C patched cfg m t t' 0 := by
  unfold joined at h
  by_cases hc : t.status = .finished
  · rw [if_pos hc] at h
    cases h
    exact ⟨rfl, rfl, fun hm => hm, by simp, by simp [hc]⟩
  · rw [if_neg hc] at h
    cases h

/-- Every step is one of four. -/
theorem stepped {s s' : Loop Addr} {a : Action Addr} (h : s.step C patched cfg m a = some s') :
    Stepped C patched cfg m s a s' := by
  have hevent : ∀ i, (∀ result, s.phase ≠ .returned result) →
      s.onTask i (next C patched cfg m) = some s' → Stepped C patched cfg m s a s' := by
    intro i hphase h
    obtain ⟨t, t', ht, hf, rfl⟩ := onTask_some h
    exact .task a i t t' 0 ht hphase (change_next hf)
  have hfinish : ∀ i, (∀ result, s.phase ≠ .returned result) →
      (s.onTask i finished).map (fun s => { s with permits := s.permits + 1 }) = some s' →
      Stepped C patched cfg m s a s' := by
    intro i hphase h
    obtain ⟨s1, h1, rfl⟩ := Option.map_eq_some_iff.1 h
    obtain ⟨t, t', ht, hf, rfl⟩ := onTask_some h1
    exact .task a i t t' 1 ht hphase (change_finished hf)
  have hjoin : ∀ i, (∀ result, s.phase ≠ .returned result) → s.onTask i joined = some s' →
      Stepped C patched cfg m s a s' := by
    intro i hphase h
    obtain ⟨t, t', ht, hf, rfl⟩ := onTask_some h
    exact .task a i t t' 0 ht hphase (change_joined hf)
  unfold step at h
  cases hp : s.phase with
  | listening =>
    have hphase : ∀ result, s.phase ≠ .returned result := by simp [hp]
    rw [hp] at h
    cases a with
    | accept outside => cases h; exact .accept outside hp
    | acceptFails msg => cases h; exact .leave _ _
    | ctrlC => cases h; exact .ctrlC hp
    | event i => exact hevent i hphase h
    | finish i => exact hfinish i hphase h
    | join i => exact hjoin i hphase h
    | drained => cases h
    | drainTimeout => cases h
  | draining =>
    have hphase : ∀ result, s.phase ≠ .returned result := by simp [hp]
    rw [hp] at h
    cases a with
    | accept outside => cases h
    | acceptFails msg => cases h
    | ctrlC => cases h
    | event i => exact hevent i hphase h
    | finish i => exact hfinish i hphase h
    | join i => exact hjoin i hphase h
    | drained =>
      by_cases hany : s.tasks.any Task.inSet = true
      · simp only [hany] at h
        cases h
      · simp only [hany] at h
        cases h
        exact .leave _ _
    | drainTimeout => cases h; exact .leave _ _
  | returned result =>
    rw [hp] at h
    cases a <;> cases h

theorem step_accept {s s' : Loop Addr} {outside : Outside Addr}
    (h : s.step C patched cfg m (.accept outside) = some s') :
    s.phase = .listening ∧ s' = s.accepted outside := by
  unfold step at h
  cases hp : s.phase with
  | listening =>
    rw [hp] at h
    cases h
    exact ⟨rfl, rfl⟩
  | draining =>
    rw [hp] at h
    cases h
  | returned result =>
    rw [hp] at h
    cases h

theorem step_drained {s s' : Loop Addr} (h : s.step C patched cfg m .drained = some s') :
    s.phase = .draining ∧ (∀ t ∈ s.tasks, t.inSet = false) ∧ s' = s.leave (.ok ()) := by
  unfold step at h
  cases hp : s.phase with
  | listening =>
    rw [hp] at h
    cases h
  | draining =>
    rw [hp] at h
    by_cases hany : s.tasks.any Task.inSet = true
    · simp only [hany] at h
      cases h
    · simp only [hany] at h
      cases h
      refine ⟨rfl, fun t ht => ?_, rfl⟩
      exact Bool.eq_false_iff.2 fun hin => hany (List.any_eq_true.2 ⟨t, ht, hin⟩)
  | returned result =>
    rw [hp] at h
    cases h

/-! ## What holds throughout -/

/-- What is so at every moment of `serve`. -/
structure Good (C : EvidenceCrates) (patched : Bool) (cfg : Config Addr) (m : Mapping U) (max : Nat)
    (s : Loop Addr) : Prop where
  permits : s.running + s.permits = max
  count : s.count = UInt64.ofNat s.tasks.length
  ids : s.tasks.map Task.id =
    (List.range s.tasks.length).map fun i => connectionId s.runId (UInt64.ofNat (i + 1))
  moments : ∀ t ∈ s.tasks, t.moment ≤ (t.whole C patched cfg m).length
  unaborted : (∀ result, s.phase ≠ .returned result) → ∀ t ∈ s.tasks, t.status ≠ .aborted
  returned : ∀ result, s.phase = .returned result → s.running = 0

theorem map_id_set {s : Loop Addr} {i : Nat} {t t' : Task Addr} (ht : s.tasks[i]? = some t)
    {released : Nat} (h : Change C patched cfg m t t' released) :
    (s.tasks.set i t').map Task.id = s.tasks.map Task.id := by
  obtain ⟨hi, rfl⟩ := List.getElem?_eq_some_iff.1 ht
  rw [List.map_set, h.id, ← List.getElem_map Task.id (h := by rwa [List.length_map]),
    List.set_getElem_self]

theorem running_set {s : Loop Addr} {i : Nat} {t t' : Task Addr} (ht : s.tasks[i]? = some t)
    {released : Nat} (h : Change C patched cfg m t t' released) :
    (s.tasks.set i t').countP (·.status == .running) + released = s.running := by
  obtain ⟨hi, rfl⟩ := List.getElem?_eq_some_iff.1 ht
  have hpos : s.tasks[i].status = .running → 0 < s.tasks.countP (·.status == .running) :=
    fun hr => List.countP_pos_iff.2 ⟨_, List.getElem_mem hi, by simp [hr]⟩
  have hacc := h.account
  rw [List.countP_set hi]
  unfold running
  simp only [beq_iff_eq]
  by_cases hr : s.tasks[i].status = .running
  · have := hpos hr
    rw [if_pos hr] at hacc ⊢
    omega
  · rw [if_neg hr] at hacc ⊢
    omega

theorem running_leave (s : Loop Addr) (result : Res Unit) : (s.leave result).running = 0 := by
  refine List.countP_eq_zero.2 fun t ht => ?_
  obtain ⟨u, -, rfl⟩ := List.mem_map.1 ht
  unfold Task.abort
  by_cases hr : u.status = .running
  · simp [hr]
  · simp [hr]

theorem abort_left {t : Task Addr} (hin : t.inSet = false) (hab : t.status ≠ .aborted) :
    t.abort.status = .joined := by
  unfold Task.inSet at hin
  unfold Task.abort
  cases hst : t.status <;> simp [hst] at hin hab ⊢

theorem id_abort (t : Task Addr) : t.abort.id = t.id := by
  unfold Task.abort
  split <;> rfl

theorem Good.accepted {max : Nat} {s : Loop Addr} (h : Good C patched cfg m max s)
    (hphase : s.phase = .listening) (outside : Outside Addr) :
    Good C patched cfg m max (s.accepted outside) := by
  unfold Loop.accepted
  cases hp : s.permits with
  | zero => exact h
  | succ permits =>
    have hlisten : ∀ result, s.phase ≠ .returned result := by simp [hphase]
    refine ⟨?_, ?_, ?_, ?_, fun hnot t ht => ?_, fun result hr => absurd hr (hlisten result)⟩
    · have := h.permits
      rw [hp] at this
      show (s.tasks ++ [_]).countP _ + permits = max
      rw [List.countP_append, ← this]
      show s.running + 1 + permits = s.running + (permits + 1)
      omega
    · show s.count + 1 = UInt64.ofNat (s.tasks ++ [_]).length
      rw [h.count, List.length_append]
      exact (UInt64.ofNat_add _ 1).symm
    · have hcount : s.count + 1 = UInt64.ofNat (s.tasks.length + 1) := by
        rw [h.count]
        exact (UInt64.ofNat_add _ 1).symm
      show (s.tasks ++ [_]).map Task.id = (List.range (s.tasks ++ [_]).length).map fun i =>
        connectionId s.runId (UInt64.ofNat (i + 1))
      rw [List.map_append, h.ids, List.length_append, List.length_singleton, List.range_succ,
        List.map_append, List.map_singleton, List.map_singleton, hcount]
    · intro t ht
      rcases List.mem_append.1 ht with ht | ht
      · exact h.moments t ht
      · obtain rfl := List.mem_singleton.1 ht
        exact Nat.zero_le _
    · rcases List.mem_append.1 ht with ht | ht
      · exact h.unaborted hlisten t ht
      · obtain rfl := List.mem_singleton.1 ht
        exact fun h => by cases h

theorem Good.step {max : Nat} {s s' : Loop Addr} {a : Action Addr}
    (h : Good C patched cfg m max s) (hs : s.step C patched cfg m a = some s') :
    Good C patched cfg m max s' := by
  cases stepped hs with
  | accept outside hphase => exact h.accepted hphase outside
  | ctrlC hphase =>
    exact ⟨h.permits, h.count, h.ids, h.moments, fun _ => h.unaborted (by simp [hphase]),
      fun result hr => by cases hr⟩
  | leave a result =>
    refine ⟨?_, ?_, ?_, fun t ht => ?_, fun hnot => absurd rfl (hnot result),
      fun _ _ => running_leave s result⟩
    · rw [running_leave, Nat.zero_add]
      show s.permits + s.running = max
      rw [Nat.add_comm]
      exact h.permits
    · show s.count = UInt64.ofNat (s.tasks.map Task.abort).length
      rw [List.length_map]
      exact h.count
    · show (s.tasks.map Task.abort).map Task.id =
        (List.range (s.tasks.map Task.abort).length).map fun i =>
          connectionId s.runId (UInt64.ofNat (i + 1))
      rw [List.map_map, List.length_map, ← h.ids]
      exact List.map_congr_left fun t _ => id_abort t
    · obtain ⟨u, hu, rfl⟩ := List.mem_map.1 ht
      have hmoment := h.moments u hu
      unfold Task.abort
      split
      · exact hmoment
      · exact hmoment
  | task a i t t' released ht hphase hchange =>
    have hlen : (s.tasks.set i t').length = s.tasks.length := List.length_set
    refine ⟨?_, ?_, ?_, fun u hu => ?_, fun _ u hu => ?_,
      fun result hr => absurd hr (hphase result)⟩
    · show (s.tasks.set i t').countP _ + (s.permits + released) = max
      have := running_set ht hchange
      have := h.permits
      omega
    · show s.count = UInt64.ofNat (s.tasks.set i t').length
      rw [hlen]
      exact h.count
    · show (s.tasks.set i t').map Task.id = (List.range (s.tasks.set i t').length).map fun i =>
        connectionId s.runId (UInt64.ofNat (i + 1))
      rw [hlen, ← h.ids]
      exact map_id_set ht hchange
    · rcases List.mem_or_eq_of_mem_set hu with hu | rfl
      · exact h.moments u hu
      · have hm := hchange.moment (h.moments t (List.mem_of_getElem? ht))
        unfold Task.whole at hm ⊢
        rwa [hchange.id, hchange.outside]
    · have hold := h.unaborted hphase
      rcases List.mem_or_eq_of_mem_set hu with hu | rfl
      · exact hold u hu
      · exact hchange.status (hold t (List.mem_of_getElem? ht))

theorem Good.run {max : Nat} {s s' : Loop Addr} {as : List (Action Addr)}
    (h : Good C patched cfg m max s) (hs : s.run C patched cfg m as = some s') :
    Good C patched cfg m max s' := by
  induction as generalizing s with
  | nil =>
    cases hs
    exact h
  | cons a as ih =>
    obtain ⟨s1, h1, h2⟩ := Option.bind_eq_some_iff.1 hs
    exact ih (h.step h1) h2

end Loop

end

/-! ## The files of a connection -/

/-- The file that an event makes. -/
def made {Addr : Type} : Event Addr → List Str
  | .created _ name _ | .reported _ name _ | .unfinished _ name _ => [name]
  | .renamed _ _ name' => [name']
  | _ => []

def files {Addr : Type} (w : Trace Addr) : List Str := w.flatMap made

/-- What follows the id in the name of a file. -/
def named (id rest : Str) : Str := id ++ '.' :: rest

/-- A file is made once, under the connection's own name. -/
def Fresh {Addr : Type} (id : Str) (w : Trace Addr) (e : Event Addr) : Prop :=
  ∀ name ∈ made e, name ∉ files w ∧ ∃ rest, name = named id rest

/-- The files made so far are among these. -/
def Within {Addr : Type} (id : Str) (rests : List Str) (w : Trace Addr) : Prop :=
  ∀ name ∈ files w, ∃ rest ∈ rests, name = named id rest

section
variable {Addr : Type} {U : UrlCrate} {C : EvidenceCrates} {patched : Bool} {o : Outside Addr}
  {cfg : Config Addr} {m : Mapping U} {id : Str} {rests : List Str}

open Guarded

theorem named_inj {rest rest' : Str} (h : named id rest = named id rest') : rest = rest' :=
  (List.cons.inj (List.append_cancel_left h)).2

theorem fileName_eq (suffix : String) :
    [fileName id suffix] = [named id (suffix.toList ++ ".json".toList)] := by
  simp [fileName, named]

theorem partialName_eq (suffix : String) :
    [partialName id suffix] = [named id (suffix.toList ++ ".partial".toList)] := by
  simp [partialName, named]

@[simp] theorem files_append (w w' : Trace Addr) : files (w ++ w') = files w ++ files w' :=
  List.flatMap_append

@[simp] theorem files_singleton (e : Event Addr) : files [e] = made e := List.append_nil _

theorem made_nodup (e : Event Addr) : (made e).Nodup := by
  cases e <;> simp [made]

theorem files_fresh {w : Trace Addr} (h : Allowed (Fresh id) w) :
    (files w).Nodup ∧ ∀ name ∈ files w, ∃ rest, name = named id rest := by
  induction w using List.reverseRecOn with
  | nil => exact ⟨List.nodup_nil, fun name h => absurd h List.not_mem_nil⟩
  | append_singleton w e ih =>
    obtain ⟨hnodup, hnames⟩ := ih (h.earlier (List.prefix_append _ _))
    have hfresh := h w e [] rfl
    rw [files_append, files_singleton]
    refine ⟨List.nodup_append.2 ⟨hnodup, made_nodup e, ?_⟩, fun name hname => ?_⟩
    · rintro name hname _ hname' rfl
      exact (hfresh name hname').1 hname
    · rcases List.mem_append.1 hname with hname | hname
      · exact hnames name hname
      · exact (hfresh name hname).2

/-- An event that makes no file. -/
theorem triple_silent (e : Event Addr) (he : made e = []) :
    Triple (Fresh id) (Within id rests) (write e) fun _ => Within id rests := by
  refine (triple_write e fun w _ name hname => ?_).post ?_
  · rw [he] at hname
    cases hname
  · rintro _ _ ⟨w, hw, rfl⟩
    unfold Within
    rwa [files_append, files_singleton, he, List.append_nil]

/-- An event that makes a file of a new name. -/
theorem triple_makes (e : Event Addr) (rest : Str) (he : made e = [named id rest])
    (hnew : rest ∉ rests) :
    Triple (Fresh id) (Within id rests) (write e) fun _ => Within id (rest :: rests) := by
  refine (triple_write e fun w hw name hname => ?_).post ?_
  · rw [he] at hname
    obtain rfl := List.mem_singleton.1 hname
    refine ⟨fun hold => ?_, rest, rfl⟩
    obtain ⟨rest', hmem, heq⟩ := hw _ hold
    obtain rfl := named_inj heq
    exact hnew hmem
  · rintro _ _ ⟨w, hw, rfl⟩ name hname
    rw [files_append, files_singleton, he] at hname
    rcases List.mem_append.1 hname with hname | hname
    · obtain ⟨rest', hmem, rfl⟩ := hw name hname
      exact ⟨rest', List.mem_cons_of_mem _ hmem, rfl⟩
    · exact ⟨rest, List.mem_cons_self, List.mem_singleton.1 hname⟩

theorem makes_dialed (c : Capture) (ws : List Write) :
    Triple (Fresh id) (fun w : Trace Addr => Within id rests w) (dialed C.toDigestCrates c ws)
      fun _ => Within id rests := by
  induction ws generalizing c with
  | nil => exact triple_pure c fun w h => h
  | cons x ws ih =>
    exact Triple.bind (triple_silent _ rfl) fun _ => triple_lift fun c' _ => ih c'

theorem makes_address :
    Triple (Fresh id) (Within id rests) (address o cfg m) fun _ => Within id rests := by
  unfold address
  cases cfg.connect with
  | some addr => exact triple_pure addr fun w h => h
  | none =>
    exact Triple.bind (triple_silent _ rfl) fun _ => triple_lift fun found _ =>
      triple_last fun addr _ w h => h

/-- The files of `--reports`, the last one first. -/
def saved : List Str :=
  ["report", "outbound", "inbound"].map fun suffix => suffix.toList ++ ".json".toList

theorem makes_saveReports (dir : Str) (a b : Evidence) (report : TlsReport) :
    Triple (Fresh id) (Within id []) (saveReports o id dir a b report)
      fun _ => Within id saved := by
  unfold saveReports
  refine triple_lift fun _ _ =>
    Triple.bind (triple_makes _ _ (fileName_eq "inbound") (by decide)) fun _ => ?_
  refine triple_lift fun _ _ =>
    Triple.bind (triple_makes _ _ (fileName_eq "outbound") (by decide)) fun _ => ?_
  exact triple_lift fun _ _ => triple_makes _ _ (fileName_eq "report") (by decide)

theorem Within.saved {w : Trace Addr} (h : Within id [] w) : Within id saved w := by
  intro name hname
  obtain ⟨rest, hmem, -⟩ := h name hname
  cases hmem

theorem makes_setup : Triple (Fresh id) (Within id []) (setup C patched o cfg m id)
    fun _ => Within id saved := by
  unfold setup
  refine triple_lift fun _ _ => triple_lift fun _ _ => ?_
  refine Triple.bind makes_address fun addr => Triple.bind (triple_silent _ rfl) fun _ => ?_
  refine triple_lift fun _ _ => Triple.bind (makes_dialed {} _) fun capture => ?_
  refine triple_lift fun _ _ => triple_lift fun _ _ => triple_lift fun outgoing _ => ?_
  refine triple_lift fun a _ => triple_lift fun b _ => triple_lift fun comparison _ => ?_
  refine Triple.bind (Q := fun _ => Within id saved) ?_ fun _ => ?_
  · cases cfg.reports with
    | none => exact triple_pure () fun w hw => hw.saved
    | some dir =>
      exact Triple.bind (makes_saveReports dir a b _) fun _ => triple_pure () fun w hw => hw
  refine triple_lift fun _ _ => triple_lift fun _ _ => triple_lift fun version _ => ?_
  refine triple_lift fun _ _ => triple_lift fun _ _ =>
    Triple.bind (triple_silent _ rfl) fun _ => ?_
  exact triple_lift fun _ _ => triple_pure _ fun w hw => hw

theorem makes_writePrivateEvidence (dir : Str) (evidence : HttpEvidence) :
    Triple (Fresh id) (Within id saved) (writePrivateEvidence o id dir evidence)
      fun _ => Within id (("http".toList ++ ".json".toList) ::
        ("http".toList ++ ".partial".toList) :: saved) := by
  unfold writePrivateEvidence
  refine triple_lift fun _ _ =>
    Triple.bind (triple_makes _ _ (partialName_eq "http") (by decide)) fun _ => ?_
  exact triple_lift fun _ _ => triple_makes _ _ (fileName_eq "http") (by decide)

theorem makes_handleConnection : Triple (Fresh id) (Within id [])
    (handleConnection C patched o cfg m id) fun _ _ => True := by
  unfold handleConnection
  refine Triple.bind makes_setup fun selected => Triple.bind (triple_silent _ rfl) fun _ => ?_
  rcases o.session selected with ⟨reads, writes, result⟩
  dsimp only
  by_cases hevidence : cfg.httpEvidence = true
  · rw [if_pos hevidence]
    refine triple_lift fun _ _ => triple_lift fun _ _ => triple_lift fun dir _ => ?_
    exact Triple.bind (makes_writePrivateEvidence dir _) fun _ => triple_last fun _ _ _ _ => trivial
  · rw [if_neg hevidence]
    exact triple_last fun _ _ _ _ => trivial

theorem whole_fresh (t : Task Addr) :
    Allowed (Fresh t.id) (t.whole C patched cfg m) :=
  makes_handleConnection.final fun _ h => absurd h List.not_mem_nil

/-- The files of different connections. -/
theorem files_apart {t t' : Task Addr} (hid : '.' ∉ t.id) (hid' : '.' ∉ t'.id) (hne : t.id ≠ t'.id) :
    List.Disjoint (files (t.log C patched cfg m)) (files (t'.log C patched cfg m)) := by
  have hname : ∀ (u : Task Addr), ∀ name ∈ files (u.log C patched cfg m),
      ∃ rest, name = named u.id rest := fun u =>
    (files_fresh ((whole_fresh u).earlier (List.take_prefix _ _))).2
  have hhead : ∀ {id rest : Str}, '.' ∉ id → (named id rest).takeWhile (· != '.') = id := by
    intro id rest hid
    unfold named
    rw [List.takeWhile_append_of_pos]
    · simp
    · intro c hc
      simpa using fun h : c = '.' => hid (h ▸ hc)
  intro name hmem hmem'
  obtain ⟨rest, rfl⟩ := hname t name hmem
  obtain ⟨rest', heq⟩ := hname t' _ hmem'
  have := congrArg (List.takeWhile (· != '.')) heq
  rw [hhead hid, hhead hid'] at this
  exact hne this

end

/-! ## All connections of a run -/

section
variable {Addr : Type} {U : UrlCrate} {C : EvidenceCrates} {patched : Bool} {cfg : Config Addr}
  {m : Mapping U}

theorem connectionId_inj {runId : Nat} {count count' : UInt64}
    (h : connectionId runId count = connectionId runId count') : count = count' :=
  UInt64.toNat_inj.1 (decimal_inj (List.cons.inj (List.append_cancel_left h)).2)

theorem not_mem_connectionId (runId : Nat) (count : UInt64) : '.' ∉ connectionId runId count := by
  intro h
  rcases List.mem_append.1 h with h | h
  · exact not_mem_decimal _ _ (by decide) h
  · rcases List.mem_cons.1 h with h | h
    · exact absurd h (by decide)
    · exact not_mem_decimal _ _ (by decide) h

namespace Loop

theorem Good.ids_nodup {max : Nat} {s : Loop Addr} (h : Good C patched cfg m max s)
    (hfew : s.tasks.length < 2 ^ 64) : (s.tasks.map Task.id).Nodup := by
  rw [h.ids]
  refine List.Nodup.map_on (fun i hi j hj hij => ?_) List.nodup_range
  have := congrArg UInt64.toNat (connectionId_inj hij)
  rw [UInt64.toNat_ofNat', UInt64.toNat_ofNat'] at this
  have := List.mem_range.1 hi
  have := List.mem_range.1 hj
  omega

theorem Good.id {max : Nat} {s : Loop Addr} (h : Good C patched cfg m max s) {t : Task Addr}
    (ht : t ∈ s.tasks) : ∃ count, t.id = connectionId s.runId count := by
  have : t.id ∈ s.tasks.map Task.id := List.mem_map_of_mem ht
  rw [h.ids] at this
  obtain ⟨i, -, heq⟩ := List.mem_map.1 this
  exact ⟨_, heq.symm⟩

theorem good_serve {cfg : Options Addr} {ready : Res Unit} {runId : Nat} {s : Loop Addr}
    (h : serve U cfg ready runId = .ok (m, s)) :
    Good C patched cfg.toConfig m cfg.maxConnections.toNat s := by
  obtain ⟨_, -, h⟩ := (Res.bind_ok_iff _ _ _).1 h
  obtain ⟨mapping, -, h⟩ := (Res.bind_ok_iff _ _ _).1 h
  obtain ⟨_, -, h⟩ := (Res.bind_ok_iff _ _ _).1 h
  by_cases hmax : MAX_PERMITS < cfg.maxConnections.toNat
  · rw [if_pos hmax] at h
    cases h
  · rw [if_neg hmax] at h
    cases h
    exact ⟨Nat.zero_add _, rfl, rfl, fun t ht => absurd ht List.not_mem_nil,
      fun _ t ht => absurd ht List.not_mem_nil, fun result h => by cases h⟩

/-- Once the loop no longer listens, it takes no more connections. -/
theorem closed_step {s s' : Loop Addr} {a : Action Addr} (hphase : s.phase ≠ .listening)
    (h : s.step C patched cfg m a = some s') :
    s'.phase ≠ .listening ∧ s'.tasks.map Task.id = s.tasks.map Task.id := by
  cases stepped h with
  | accept outside hl => exact absurd hl hphase
  | ctrlC hl => exact absurd hl hphase
  | leave a result =>
    refine ⟨by simp [leave], ?_⟩
    show (s.tasks.map Task.abort).map Task.id = _
    rw [List.map_map]
    exact List.map_congr_left fun t _ => id_abort t
  | task a i t t' released ht hnot hchange =>
    refine ⟨hphase, ?_⟩
    show (s.tasks.set i t').map Task.id = _
    exact map_id_set ht hchange

theorem closed_run {s s' : Loop Addr} {as : List (Action Addr)} (hphase : s.phase ≠ .listening)
    (h : s.run C patched cfg m as = some s') : s'.tasks.map Task.id = s.tasks.map Task.id := by
  induction as generalizing s with
  | nil =>
    cases h
    rfl
  | cons a as ih =>
    obtain ⟨s1, h1, h2⟩ := Option.bind_eq_some_iff.1 h
    obtain ⟨hphase1, hids⟩ := closed_step hphase h1
    rw [ih hphase1 h2, hids]

end Loop

end

/-- **The limit is kept.**  However the steps of a run fall, the connections that are served and
the permits that are left make up the limit.  A client is turned away only at the limit, and
otherwise served; after an interrupt nobody is taken, a drain that comes to its end has cut
nobody off, and a loop that has returned leaves nothing running. -/
theorem serve_bounded {Addr : Type} {U : UrlCrate} (C : EvidenceCrates) (patched : Bool)
    (cfg : Options Addr) (ready : Res Unit) (runId : Nat) {m : Mapping U} {s0 : Loop Addr}
    (hserve : serve U cfg ready runId = .ok (m, s0)) (as : List (Action Addr)) {s : Loop Addr}
    (hrun : s0.run C patched cfg.toConfig m as = some s) :
    s.running + s.permits = cfg.maxConnections.toNat ∧
    (∀ outside s', s.step C patched cfg.toConfig m (.accept outside) = some s' →
      if s.running < cfg.maxConnections.toNat then
        ∃ t, s'.tasks = s.tasks ++ [t] ∧ t.outside = outside ∧ t.status = .running
      else s' = s) ∧
    (s.phase ≠ .listening → ∀ as' s', s.run C patched cfg.toConfig m as' = some s' →
      s'.tasks.map Task.id = s.tasks.map Task.id) ∧
    (∀ s', s.step C patched cfg.toConfig m .drained = some s' →
      ∀ t ∈ s'.tasks, t.status = .joined) ∧
    ∀ result, s.phase = .returned result → s.running = 0 := by
  have hgood := (Loop.good_serve (C := C) hserve).run hrun
  refine ⟨hgood.permits, fun outside s' h => ?_, fun hphase as' s' h => Loop.closed_run hphase h,
    fun s' h t ht => ?_, hgood.returned⟩
  · obtain ⟨-, rfl⟩ := Loop.step_accept h
    unfold Loop.accepted
    have hpermits := hgood.permits
    cases hs : s.permits with
    | zero => rw [if_neg (by omega)]
    | succ permits =>
      rw [if_pos (by omega)]
      exact ⟨_, rfl, rfl, rfl⟩
  · obtain ⟨hphase, hin, rfl⟩ := Loop.step_drained h
    obtain ⟨u, hu, rfl⟩ := List.mem_map.1 ht
    exact Loop.abort_left (hin u hu) (hgood.unaborted (by simp [hphase]) u hu)

/-- B's loop, for one client at a time, with reports. -/
def sampleOptions : Options Unit where
  publicAuthority := sampleMapping.publicAuthority
  upstream := sampleMapping.upstream
  reports := some "reports".toList
  maxConnections := 1

def sampleLoop : Loop Unit := { permits := 1, runId := 7 }

theorem serve_sample : serve dottedCrate sampleOptions (.ok ()) 7 = .ok (sampleMapping, sampleLoop) := by
  unfold serve
  rw [show Mapping.new dottedCrate sampleOptions.publicAuthority sampleOptions.upstream =
    .ok sampleMapping from new_eq sampleMapping]
  rfl

/-- A client is served and leaves while another is turned away; then a third one is served, and the
loop is interrupted. -/
def sampleActions : List (Action Unit) :=
  [.accept (sampleOutside 1)] ++ List.replicate 7 (.event 0) ++ [.accept (sampleOutside 2),
    .finish 0, .join 0, .accept (sampleOutside 2)] ++ List.replicate 6 (.event 1) ++
    [.ctrlC, .event 1, .finish 1, .join 1, .drained]

theorem serve_bounded_sample : ∃ s, sampleLoop.run sampleCrates true sampleOptions.toConfig
      sampleMapping sampleActions = some s ∧ s.running + s.permits = 1 ∧ s.tasks.length = 2 := by
  have hrun : (sampleLoop.run sampleCrates true sampleOptions.toConfig sampleMapping
      sampleActions).map (fun s => s.tasks.length) = some 2 := by
    decide +kernel
  obtain ⟨s, hs, hlen⟩ := Option.map_eq_some_iff.1 hrun
  exact ⟨s, hs, (serve_bounded sampleCrates true sampleOptions (.ok ()) 7 serve_sample _ hs).1, hlen⟩

/-- **Connections do not mix.**  However the steps of a run fall, each task has written a part of
what `handle_connection` writes for its own client, and each event of it had its reason in that
part alone.  While there are fewer than 2^64 of them they go by different ids, and no two events
of a run make the same file, whatever connections they belong to. -/
theorem serve_apart {Addr : Type} {U : UrlCrate} (C : EvidenceCrates) (patched : Bool)
    (cfg : Options Addr) (ready : Res Unit) (runId : Nat) {m : Mapping U} {s0 : Loop Addr}
    (hserve : serve U cfg ready runId = .ok (m, s0)) (as : List (Action Addr)) {s : Loop Addr}
    (hrun : s0.run C patched cfg.toConfig m as = some s) :
    (∀ t ∈ s.tasks, (t.log C patched cfg.toConfig m).length = t.moment ∧
      t.log C patched cfg.toConfig m <+:
        (handleConnection C patched t.outside cfg.toConfig m t.id).final [] ∧
      Guarded.Allowed (Reason C patched t.outside cfg.toConfig m t.id)
        (t.log C patched cfg.toConfig m)) ∧
    (s.tasks.length < 2 ^ 64 → (s.tasks.map Task.id).Nodup ∧
      (s.tasks.flatMap fun t => files (t.log C patched cfg.toConfig m)).Nodup) := by
  have hgood := (Loop.good_serve (C := C) hserve).run hrun
  refine ⟨fun t ht => ⟨?_, List.take_prefix _ _, ?_⟩, fun hfew => ?_⟩
  · exact List.length_take_of_le (hgood.moments t ht)
  · exact (handleConnection_allowed C patched t.outside cfg.toConfig m t.id).earlier
      (List.take_prefix _ _)
  · have hids := hgood.ids_nodup hfew
    refine ⟨hids, List.nodup_flatMap.2 ⟨fun t _ => ?_, ?_⟩⟩
    · exact (files_fresh ((whole_fresh t).earlier (List.take_prefix _ _))).1
    · refine (List.pairwise_map.1 hids).imp_of_mem fun {t t'} ht ht' hne => ?_
      obtain ⟨count, hid⟩ := hgood.id ht
      obtain ⟨count', hid'⟩ := hgood.id ht'
      exact files_apart (hid ▸ not_mem_connectionId _ _) (hid' ▸ not_mem_connectionId _ _) hne

theorem serve_apart_sample : ∃ s, sampleLoop.run sampleCrates true sampleOptions.toConfig
      sampleMapping sampleActions = some s ∧
    (s.tasks.flatMap fun t => files (t.log sampleCrates true sampleOptions.toConfig
      sampleMapping)).length = 6 ∧
    (s.tasks.flatMap fun t => files (t.log sampleCrates true sampleOptions.toConfig
      sampleMapping)).Nodup := by
  have hrun : (sampleLoop.run sampleCrates true sampleOptions.toConfig sampleMapping
      sampleActions).map (fun s => (s.tasks.length, (s.tasks.flatMap fun t =>
        files (t.log sampleCrates true sampleOptions.toConfig sampleMapping)).length)) =
          some (2, 6) := by
    decide +kernel
  obtain ⟨s, hs, hcount⟩ := Option.map_eq_some_iff.1 hrun
  obtain ⟨hlen, hfiles⟩ := Prod.mk.inj hcount
  have hfew : s.tasks.length < 2 ^ 64 := by omega
  exact ⟨s, hs, hfiles, ((serve_apart sampleCrates true sampleOptions (.ok ()) 7 serve_sample _
    hs).2 hfew).2⟩

end Serve
