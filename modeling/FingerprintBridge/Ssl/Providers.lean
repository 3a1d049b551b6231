import FingerprintBridge.Lib.Slots
import FingerprintBridge.Ssl.Char2
import FingerprintBridge.Ssl.X448

/-!
# Two providers and the key shares of a process

`g_bridge_x448_callback` and `g_bridge_char2_callbacks` may be set from any thread while key
shares are made, used and destroyed.  A run of such calls in any order keeps the memory of the
binary-curve provider in order: each key belongs to one share.
-/

namespace Ssl

/-! ## The code -/

inductive KeyShareObject (ι : Type) where
  | x448 (members : X448Members)
  | char2 (members : Char2Members ι)

/-- Shares are named by the order in which they are made; a destroyed one is `none`. -/
structure Process (ι : Type) where
  x448 : Option ι := none
  char2 : Option ι := none
  shares : List (Option (KeyShareObject ι)) := []
  contexts : Contexts ι := []

section
variable {ι : Type} [DecidableEq ι]

/-- `compare_exchange_strong` in place of a null pointer, `|| expected == callback` -/
def compareExchange (cell : Option ι) (callback : ι) : Bool × Option ι :=
  match cell with
  | none => (true, some callback)
  | some expected => (expected == callback, some expected)

/-- `SSL_set_bridge_x448_callback` -/
def setBridgeX448Callback (callback : Option ι) : Act (Process ι) Bool := do
  let s ← get
  match callback with
  | none => return false
  | some callback => do
    set { s with x448 := (compareExchange s.x448 callback).2 }
    return (compareExchange s.x448 callback).1

/-- `SSL_set_bridge_char2_callbacks`; the flag says if all three functions are there. -/
def setBridgeChar2Callbacks (callbacks : Option (ι × Bool)) : Act (Process ι) Bool := do
  let s ← get
  match callbacks with
  | none => return false
  | some (_, false) => return false
  | some (callbacks, true) => do
    set { s with char2 := (compareExchange s.char2 callbacks).2 }
    return (compareExchange s.char2 callbacks).1

/-- `SSLKeyShare::Create(SSL_GROUP_X448)` -/
def createX448 : Act (Process ι) Nat := do
  let s ← get
  ensure (s.x448.isSome = true) "nullptr"
  set { s with shares := s.shares ++ [some (KeyShareObject.x448 {})] }
  return s.shares.length

/-- `SSLKeyShare::Create(SSL_GROUP_SECT283R1)` -/
def createChar2 (allowCompressedChar2 : Bool) : Act (Process ι) Nat := do
  let s ← get
  ensure (s.char2.isSome = true) "nullptr"
  set { s with shares := s.shares ++
    [some (KeyShareObject.char2 { callbacks := s.char2, compressed := allowCompressedChar2 })] }
  return s.shares.length

omit [DecidableEq ι] in
/-- A method of the share `i`, of either class. -/
def onShare {α : Type} (i : Nat) (x : Option ι → Act X448Members α)
    (y : Act (Char2Members ι × Contexts ι) α) : Act (Process ι) α := fun s =>
  match s.shares[i]? with
  | some (some (.x448 m)) =>
    Act.zoom (fun _ => m) (fun m' s => { s with shares := s.shares.set i (some (.x448 m')) })
      (x s.x448) s
  | some (some (.char2 m)) =>
    Act.zoom (fun s => (m, s.contexts))
      (fun r s => { s with shares := s.shares.set i (some (.char2 r.1)), contexts := r.2 }) y s
  | _ => .error (.err "no share") s

/-- `delete` -/
def destroyShare (i : Nat) : Act (Process ι) Unit := fun s =>
  match s.shares[i]? with
  | some (some (.x448 _)) => .ok () { s with shares := s.shares.set i none }
  | some (some (.char2 m)) =>
    Act.zoom (fun s => (m, s.contexts))
      (fun r s => { s with shares := s.shares.set i none, contexts := r.2 }) Char2KeyShare.destroy s
  | _ => .error (.err "no share") s

/-- A call from some thread. -/
inductive ProviderCall (ι : Type) where
  | setX448 (callback : Option ι)
  | setChar2 (callbacks : Option (ι × Bool))
  | newX448
  | newChar2 (allowCompressedChar2 : Bool)
  | generate (i : Nat) (seed : Option { b : Bytes // b.length = 56 }) (draw : Option Nat)
  | encap (i : Nat) (seed : Option { b : Bytes // b.length = 56 }) (draw : Option Nat) (peer : Bytes)
  | decap (i : Nat) (peer : Bytes)
  | serialize (i : Nat)
  | deserialize (i : Nat) (input : Bytes)
  | destroy (i : Nat)

variable {P : Type} [AddCommGroup P] [DecidableEq P] (ec : EC P) (impl : ι → X448Callback)

/-- `impl` is what the X448 callbacks compute.  Shares on sect283r1 are not serialized. -/
def ProviderCall.act : ProviderCall ι → Act (Process ι) Unit
  | .setX448 callback => do
    let _ ← setBridgeX448Callback callback
    return
  | .setChar2 callbacks => do
    let _ ← setBridgeChar2Callbacks callbacks
    return
  | .newX448 => do
    let _ ← createX448
    return
  | .newChar2 allowCompressedChar2 => do
    let _ ← createChar2 allowCompressedChar2
    return
  | .generate i seed draw => do
    let _ ← onShare i (fun cell => X448KeyShare.Generate (cell.map impl) seed)
      (Char2KeyShare.Generate ec draw)
    return
  | .encap i seed draw peer => do
    let _ ← onShare i (fun cell => (X448KeyShare (cell.map impl)).encap seed peer)
      ((Char2KeyShare ec none false ([] : Contexts ι)).encap draw peer)
    return
  | .decap i peer => do
    let _ ← onShare i (fun cell => X448KeyShare.Decap (cell.map impl) peer)
      (Char2KeyShare.Decap ec peer)
    return
  | .serialize i => do
    let _ ← onShare i (fun _ => X448KeyShare.SerializePrivateKey)
      (liftM (.error (.err "false") : Res Bytes))
    return
  | .deserialize i input => do
    let _ ← onShare i (fun _ => X448KeyShare.DeserializePrivateKey input)
      (liftM (.error (.err "false") : Res Unit))
    return
  | .destroy i => destroyShare i

/-- The process after some calls, failed ones included. -/
def Process.after (calls : List (ProviderCall ι)) : Process ι :=
  calls.foldl (fun s call => (call.act ec impl).final s) {}

end

/-! ## The calls of one share -/

section
variable {ι α β : Type}

/-- The key of the share, if it has one, is a context of its own provider. -/
def Backed (s : Char2Members ι × Contexts ι) : Prop :=
  ∀ key, s.1.key = some key → ∃ d, Char2KeyShare.Holds s d

/-- What a call does to a share and to the memory: nothing, or it makes the share's first key. -/
inductive Effect (s : Char2Members ι × Contexts ι) : Char2Members ι × Contexts ι → Prop where
  | same : Effect s s
  | made (callbacks : ι) (d : Nat) : s.1.callbacks = some callbacks → s.1.key = none →
    Effect s ({ s.1 with key := some s.2.length }, s.2 ++ [some (callbacks, d)])

theorem Effect.backed {s s' : Char2Members ι × Contexts ι} (h : Effect s s') (hs : Backed s) :
    Backed s' := by
  cases h with
  | same => exact hs
  | made callbacks d hcallbacks _ =>
    exact fun key hkey => ⟨d, callbacks, s.2.length, hcallbacks, rfl, List.getElem?_concat_length⟩

theorem Effect.trans {s s' s'' : Char2Members ι × Contexts ι} (h : Effect s s') (h' : Effect s' s'') :
    Effect s s'' := by
  cases h' with
  | same => exact h
  | made callbacks d hcallbacks hkey =>
    cases h with
    | same => exact .made callbacks d hcallbacks hkey
    | made => cases hkey

/-- The call has an effect, and no panic. -/
def KeepsAt (s : Char2Members ι × Contexts ι) (y : Act (Char2Members ι × Contexts ι) α) : Prop :=
  (∀ a s', y s = .ok a s' → Effect s s') ∧
    ∀ e s', y s = .error e s' → Act.PanicIf False e ∧ Effect s s'

/-- So does every call of a share that is in order. -/
def Keeps (y : Act (Char2Members ι × Contexts ι) α) : Prop := ∀ s, Backed s → KeepsAt s y

section
variable {y : Act (Char2Members ι × Contexts ι) α} {s : Char2Members ι × Contexts ι}

theorem keepsAt_ok {s' : Char2Members ι × Contexts ι} {a : α} (h : y s = .ok a s')
    (heffect : Effect s s') : KeepsAt s y := by
  unfold KeepsAt
  rw [h]
  constructor
  · intro a s₁ heq
    cases heq
    exact heffect
  · intro e s₁ heq
    cases heq

theorem keepsAt_error {msg : String} (h : y s = .error (.err msg) s) : KeepsAt s y := by
  unfold KeepsAt
  rw [h]
  constructor
  · intro a s₁ heq
    cases heq
  · intro e s₁ heq
    cases heq
    exact ⟨Act.panicIf_err _ _ id, .same⟩

end

theorem keeps_pure (a : α) : Keeps (pure a : Act (Char2Members ι × Contexts ι) α) :=
  fun _ _ => keepsAt_ok rfl .same

theorem Keeps.bind {y : Act (Char2Members ι × Contexts ι) α}
    {f : α → Act (Char2Members ι × Contexts ι) β} (hy : Keeps y) (hf : ∀ a, Keeps (f a)) :
    Keeps (y >>= f) := by
  intro s hs
  refine ⟨fun b s'' h => ?_, fun e s'' h => ?_⟩
  · obtain ⟨a, s', h1, h2⟩ := (Act.bind_ok_iff _ _ _ _ _).1 h
    have hmid := (hy s hs).1 a s' h1
    exact hmid.trans ((hf a s' (hmid.backed hs)).1 b s'' h2)
  · rcases (Act.bind_error_iff _ _ _ _ _).1 h with h1 | ⟨a, s', h1, h2⟩
    · exact (hy s hs).2 e s'' h1
    · have hmid := (hy s hs).1 a s' h1
      obtain ⟨hpanic, hend⟩ := (hf a s' (hmid.backed hs)).2 e s'' h2
      exact ⟨hpanic, hmid.trans hend⟩

theorem keeps_refused (msg : String) :
    Keeps (liftM (.error (.err msg) : Res α) : Act (Char2Members ι × Contexts ι) α) :=
  fun _ _ => keepsAt_error rfl

variable {P : Type} [AddCommGroup P] [DecidableEq P] {ec : EC P} [DecidableEq ι]

omit [DecidableEq P] [DecidableEq ι] in
theorem keeps_generate (draw : Option Nat) :
    Keeps (Char2KeyShare.Generate ec draw : Act (Char2Members ι × Contexts ι) Bytes) := by
  intro s _
  rcases Char2KeyShare.generate_cases ec draw s with
    ⟨msg, herr⟩ | ⟨callbacks, d, hcallbacks, hkey, -, hok⟩
  · exact keepsAt_error herr
  · exact keepsAt_ok hok (.made callbacks d hcallbacks hkey)

theorem keeps_decap (peer : Bytes) :
    Keeps (Char2KeyShare.Decap ec peer : Act (Char2Members ι × Contexts ι) Bytes) := by
  intro s hs
  cases hkey : s.1.key with
  | none =>
    apply keepsAt_error
    unfold Char2KeyShare.Decap
    rw [Act.get_bind]
    exact (Act.liftM_bind_error_iff _ _ _ _ _).2 (.inl ⟨by rw [hkey]; rfl, rfl⟩)
  | some key =>
    obtain ⟨d, hd⟩ := hs key hkey
    have heq := Char2KeyShare.decap_eq ec hd peer
    split at heq
    · exact keepsAt_ok heq .same
    · exact keepsAt_error heq

theorem keeps_encap (callbacks : Option ι) (compressed : Bool) (memory : Contexts ι)
    (draw : Option Nat) (peer : Bytes) :
    Keeps ((Char2KeyShare ec callbacks compressed memory).encap draw peer) :=
  (keeps_generate draw).bind fun _ => (keeps_decap peer).bind fun _ => keeps_pure _

end

/-! ## The calls of a process -/

namespace X448KeyShare

theorem triple_generate (callback : Option X448Callback)
    (draw : Option { b : Bytes // b.length = 56 }) :
    Act.Triple (fun _ => True) (Generate callback draw) (fun _ => True) (Act.PanicIf False) := by
  refine Act.triple_bind _ _ (Act.triple_set _ trivial) fun _ _ => ?_
  refine Act.triple_bind _ _ (Act.triple_safe _ ?_) fun _ _ => Act.triple_pure _ trivial
  exact (Res.errors_okOr _ _ (List.mem_singleton_self _)).ne_panic

theorem triple_decap (callback : Option X448Callback) (peerKey : Bytes) :
    Act.Triple (fun _ => True) (Decap callback peerKey) (fun _ => True) (Act.PanicIf False) := by
  refine Act.triple_bind _ _ Act.triple_get fun s _ => ?_
  refine Act.triple_bind _ _ (Act.triple_check _ _) fun _ _ => ?_
  refine Act.triple_bind _ _ (Act.triple_safe _ ?_) fun callback _ => ?_
  · exact (Res.errors_okOr _ _ (List.mem_singleton_self _)).ne_panic
  refine Act.triple_bind _ _ (Act.triple_check _ _) fun _ _ => ?_
  refine Act.triple_bind _ _ (Act.triple_check _ _) fun _ _ => ?_
  refine Act.triple_bind _ _ (Act.triple_check _ _) fun _ _ => ?_
  exact Act.triple_pure _ trivial

theorem triple_encap (callback : Option X448Callback)
    (draw : Option { b : Bytes // b.length = 56 }) (peerKey : Bytes) :
    Act.Triple (fun _ => True) ((X448KeyShare callback).encap draw peerKey) (fun _ => True)
      (Act.PanicIf False) := by
  refine Act.triple_bind _ _ (triple_generate callback draw) fun _ _ => ?_
  refine Act.triple_bind _ _ (triple_decap callback peerKey) fun _ _ => ?_
  exact Act.triple_pure _ trivial

theorem triple_serialize :
    Act.Triple (fun _ => True) SerializePrivateKey (fun _ => True) (Act.PanicIf False) := by
  refine Act.triple_bind _ _ Act.triple_get fun s _ => ?_
  exact Act.triple_bind _ _ (Act.triple_check _ _) fun _ _ => Act.triple_pure _ trivial

theorem triple_deserialize (input : Bytes) :
    Act.Triple (fun _ => True) (DeserializePrivateKey input) (fun _ => True) (Act.PanicIf False) :=
  Act.triple_bind _ _ (Act.triple_check _ _) fun _ _ => Act.triple_set _ trivial

end X448KeyShare

section
variable {ι α : Type}

def KeyShareObject.key? : KeyShareObject ι → Option Nat
  | .x448 _ => none
  | .char2 members => members.key

/-- The keys of the shares that are alive. -/
def keysOf (shares : List (Option (KeyShareObject ι))) : List Nat :=
  shares.filterMap fun o => o.bind KeyShareObject.key?

theorem keysOf_split (before after : List (Option (KeyShareObject ι))) (o : Option (KeyShareObject ι)) :
    keysOf (before ++ o :: after) =
      keysOf before ++ ((o.bind KeyShareObject.key?).toList ++ keysOf after) := by
  unfold keysOf
  rw [List.filterMap_append, List.filterMap_cons]
  cases o.bind KeyShareObject.key? <;> rfl

theorem set_split {γ : Type} {l : List γ} {i : Nat} {o : γ} (h : l[i]? = some o) :
    ∃ before after, l = before ++ o :: after ∧ ∀ o', l.set i o' = before ++ o' :: after := by
  obtain ⟨hlt, rfl⟩ := List.getElem?_eq_some_iff.1 h
  refine ⟨l.take i, l.drop (i + 1), ?_, fun o' => ?_⟩
  · rw [List.cons_getElem_drop_succ, List.take_append_drop]
  · rw [List.set_eq_take_append_cons_drop, if_pos hlt]

namespace Process

open Slots

/-- Each key has one owner, and all of them come from the one provider. -/
structure Good (s : Process ι) : Prop where
  x448 : ∀ m, some (.x448 m) ∈ s.shares → s.x448.isSome = true
  char2 : ∀ m, some (.char2 m) ∈ s.shares → ∃ callbacks, m.callbacks = some callbacks ∧
    s.char2 = some callbacks
  tagged : ∀ (key : Nat) c, s.contexts[key]? = some (some c) → s.char2 = some c.1
  owned : Owned (keysOf s.shares) s.contexts

theorem good_fresh : Good ({} : Process ι) where
  x448 m h := absurd h List.not_mem_nil
  char2 m h := absurd h List.not_mem_nil
  tagged key c h := by simp at h
  owned := owned_nil

variable {s : Process ι}

/-- A new share has no key yet. -/
theorem Good.push (hs : Good s) {o : KeyShareObject ι} (hkey : o.key? = none)
    (hx448 : ∀ m, o = .x448 m → s.x448.isSome = true)
    (hchar2 : ∀ m, o = .char2 m → ∃ callbacks, m.callbacks = some callbacks ∧
      s.char2 = some callbacks) : Good { s with shares := s.shares ++ [some o] } := by
  have hkeys : keysOf (s.shares ++ [some o]) = keysOf s.shares := by
    rw [keysOf_split, Option.bind_some, hkey]
    exact List.append_nil _
  refine ⟨fun m h => ?_, fun m h => ?_, hs.tagged, by rw [hkeys]; exact hs.owned⟩
  · rcases List.mem_append.1 h with h | h
    · exact hs.x448 m h
    · exact hx448 m (Option.some.inj (List.mem_singleton.1 h)).symm
  · rcases List.mem_append.1 h with h | h
    · exact hs.char2 m h
    · exact hchar2 m (Option.some.inj (List.mem_singleton.1 h)).symm

/-- Another object, or none, in the place of a share; `others` are the keys of the other shares. -/
theorem Good.replace (hs : Good s) {i : Nat} {o : Option (KeyShareObject ι)}
    (hi : s.shares[i]? = some o) (o' : Option (KeyShareObject ι)) (contexts : Contexts ι)
    (hx448 : ∀ m, o' = some (.x448 m) → s.x448.isSome = true)
    (hchar2 : ∀ m, o' = some (.char2 m) → ∃ callbacks, m.callbacks = some callbacks ∧
      s.char2 = some callbacks)
    (htagged : ∀ (key : Nat) c, contexts[key]? = some (some c) → s.char2 = some c.1)
    (howned : ∀ others, Owned ((o.bind KeyShareObject.key?).toList ++ others) s.contexts →
      Owned ((o'.bind KeyShareObject.key?).toList ++ others) contexts) :
    Good { s with shares := s.shares.set i o', contexts := contexts } := by
  refine ⟨fun m h => ?_, fun m h => ?_, htagged, ?_⟩
  · rcases List.mem_or_eq_of_mem_set h with h | h
    · exact hs.x448 m h
    · exact hx448 m h.symm
  · rcases List.mem_or_eq_of_mem_set h with h | h
    · exact hs.char2 m h
    · exact hchar2 m h.symm
  · obtain ⟨before, after, hshares, hset⟩ := set_split hi
    have howner := hs.owned
    rw [hshares, keysOf_split] at howner
    show Owned (keysOf (s.shares.set i o')) contexts
    rw [hset, keysOf_split]
    -- the share's own key comes first
    have hfirst : ∀ key : List Nat, (keysOf before ++ (key ++ keysOf after)).Perm
        (key ++ (keysOf before ++ keysOf after)) := by
      intro key
      rw [← List.append_assoc, ← List.append_assoc]
      exact List.perm_append_comm.append_right _
    exact (howned _ (howner.perm (hfirst _))).perm (hfirst _).symm

/-- A call that has an effect on the share `i` and on the memory. -/
theorem Good.effect (hs : Good s) {i : Nat} {m : Char2Members ι}
    (hi : s.shares[i]? = some (some (.char2 m))) {r : Char2Members ι × Contexts ι}
    (h : Effect (m, s.contexts) r) :
    Good { s with shares := s.shares.set i (some (.char2 r.1)), contexts := r.2 } := by
  have hmem := List.mem_of_getElem? hi
  obtain ⟨callbacks, hcallbacks, hchar2⟩ := hs.char2 m hmem
  cases h with
  | same =>
    refine hs.replace hi _ _ (fun m' h => by cases h) (fun m' h => ?_) hs.tagged fun others h => h
    cases h
    exact ⟨callbacks, hcallbacks, hchar2⟩
  | made callbacks' d hcallbacks' hkey =>
    refine hs.replace hi _ _ (fun m' h => by cases h) (fun m' h => ?_) (fun key c h => ?_)
      fun others h => ?_
    · cases h
      exact ⟨callbacks, hcallbacks, hchar2⟩
    · by_cases hlt : key < s.contexts.length
      · rw [List.getElem?_append_left hlt] at h
        exact hs.tagged key c h
      · rw [List.getElem?_append_right (Nat.le_of_not_lt hlt)] at h
        have hc := List.mem_singleton.1 (List.mem_of_getElem? h)
        rw [Option.some.inj hc, hchar2, ← hcallbacks]
        exact hcallbacks'
    · rw [Option.bind_some, show (KeyShareObject.char2 m).key? = none from hkey] at h
      exact Owned.made h _

/-- The share `i` is destroyed, and its key with it. -/
theorem Good.destroyed (hs : Good s) {i : Nat} {m : Char2Members ι}
    (hi : s.shares[i]? = some (some (.char2 m))) {key : Nat} (hkey : m.key = some key) :
    Good { s with shares := s.shares.set i none, contexts := s.contexts.set key none } := by
  refine hs.replace hi _ _ (fun m' h => by cases h) (fun m' h => by cases h) (fun key' c h => ?_)
    fun others h => ?_
  · by_cases heq : key = key'
    · subst heq
      by_cases hlt : key < s.contexts.length
      · rw [List.getElem?_set_self hlt] at h
        cases h
      · rw [List.getElem?_eq_none (by rw [List.length_set]; omega)] at h
        cases h
    · rw [List.getElem?_set_ne heq] at h
      exact hs.tagged key' c h
  · rw [Option.bind_some, show (KeyShareObject.char2 m).key? = some key from hkey] at h
    exact Owned.freed h

/-- A share of a good process is backed by the memory. -/
theorem Good.backed (hs : Good s) {i : Nat} {m : Char2Members ι}
    (hi : s.shares[i]? = some (some (.char2 m))) : Backed (m, s.contexts) := by
  intro key hkey
  have hmem : key ∈ keysOf s.shares :=
    List.mem_filterMap.2 ⟨_, List.mem_of_getElem? hi, hkey⟩
  obtain ⟨⟨callbacks', d⟩, hc⟩ := (hs.owned.mem_iff key).1 hmem
  obtain ⟨callbacks, hcallbacks, hchar2⟩ := hs.char2 m (List.mem_of_getElem? hi)
  have htag := hs.tagged key _ hc
  rw [hchar2] at htag
  obtain rfl := Option.some.inj htag
  exact ⟨d, callbacks, key, hcallbacks, hkey, hc⟩

variable {α : Type} [DecidableEq ι]

omit [DecidableEq ι] in
theorem Good.set_char2 (hs : Good s) {cell : Option ι}
    (hcell : ∀ callbacks, s.char2 = some callbacks → cell = some callbacks) :
    Good { s with char2 := cell } where
  x448 := hs.x448
  char2 m h := by
    obtain ⟨callbacks, hcallbacks, hchar2⟩ := hs.char2 m h
    exact ⟨callbacks, hcallbacks, hcell _ hchar2⟩
  tagged key c h := hcell _ (hs.tagged key c h)
  owned := hs.owned

omit [DecidableEq ι] in
theorem Good.set_x448 (hs : Good s) {cell : Option ι}
    (hcell : ∀ callback, s.x448 = some callback → cell = some callback) :
    Good { s with x448 := cell } where
  x448 m h := by
    obtain ⟨callback, hcallback⟩ := Option.isSome_iff_exists.1 (hs.x448 m h)
    rw [hcell _ hcallback]
    rfl
  char2 := hs.char2
  tagged := hs.tagged
  owned := hs.owned

omit [DecidableEq ι] in
theorem Good.replace_x448 (hs : Good s) {i : Nat} {m : X448Members}
    (hi : s.shares[i]? = some (some (.x448 m))) (m' : X448Members) :
    Good { s with shares := s.shares.set i (some (.x448 m')) } := by
  refine hs.replace hi _ _ (fun _ _ => hs.x448 m (List.mem_of_getElem? hi)) (fun m'' h => ?_) hs.tagged
    fun others h => h
  cases h

omit [DecidableEq ι] in
theorem ends_ok {act : Act (Process ι) α} {s' : Process ι} {a : α} (h : act s = .ok a s')
    (hs' : Good s') : (∀ a s', act s = .ok a s' → True ∧ Good s') ∧
      ∀ e s', act s = .error e s' → Act.PanicIf False e ∧ Good s' := by
  rw [h]
  constructor
  · intro a s₁ heq
    cases heq
    exact ⟨trivial, hs'⟩
  · intro e s₁ heq
    cases heq

omit [DecidableEq ι] in
theorem ends_refused {act : Act (Process ι) α} (hs : Good s) {msg : String}
    (h : act s = .error (.err msg) s) : (∀ a s', act s = .ok a s' → True ∧ Good s') ∧
      ∀ e s', act s = .error e s' → Act.PanicIf False e ∧ Good s' := by
  rw [h]
  constructor
  · intro a s' heq
    cases heq
  · intro e s' heq
    cases heq
    exact ⟨Act.panicIf_err _ _ id, hs⟩

section
variable {x : Option ι → Act X448Members α} {y : Act (Char2Members ι × Contexts ι) α} {i : Nat}

omit [DecidableEq ι] in
theorem onShare_x448 {m : X448Members} (hi : s.shares[i]? = some (some (.x448 m))) :
    onShare i x y s = Act.zoom (fun _ => m)
      (fun m' s => { s with shares := s.shares.set i (some (.x448 m')) }) (x s.x448) s := by
  rw [onShare, hi]

omit [DecidableEq ι] in
theorem onShare_char2 {m : Char2Members ι} (hi : s.shares[i]? = some (some (.char2 m))) :
    onShare i x y s = Act.zoom (fun s => (m, s.contexts))
      (fun r s => { s with shares := s.shares.set i (some (.char2 r.1)), contexts := r.2 }) y s := by
  rw [onShare, hi]

theorem destroy_char2 {m : Char2Members ι} (hi : s.shares[i]? = some (some (.char2 m))) :
    destroyShare i s = Act.zoom (fun s => (m, s.contexts))
      (fun r s => { s with shares := s.shares.set i none, contexts := r.2 })
      Char2KeyShare.destroy s := by
  rw [destroyShare, hi]

end

omit [DecidableEq ι] in
theorem triple_onShare {x : Option ι → Act X448Members α} {y : Act (Char2Members ι × Contexts ι) α}
    (i : Nat) (hx : ∀ cell, Act.Triple (fun _ => True) (x cell) (fun _ => True) (Act.PanicIf False))
    (hy : Keeps y) : Act.Triple Good (onShare i x y) (fun _ => True) (Act.PanicIf False) := by
  intro s hs
  rcases hi : s.shares[i]? with _ | _ | m | m
  · exact ends_refused hs (by rw [onShare, hi])
  · exact ends_refused hs (by rw [onShare, hi])
  · rw [onShare_x448 hi]
    refine ⟨fun a s' h => ?_, fun e s' h => ?_⟩
    · obtain ⟨m', -, rfl⟩ := (Act.zoom_ok_iff _ _ _ _ _ _).1 h
      exact ⟨trivial, hs.replace_x448 hi m'⟩
    · obtain ⟨m', herr, rfl⟩ := (Act.zoom_error_iff _ _ _ _ _ _).1 h
      exact ⟨((hx _ m trivial).2 e m' herr).1, hs.replace_x448 hi m'⟩
  · rw [onShare_char2 hi]
    have hkeeps := hy _ (hs.backed hi)
    refine ⟨fun a s' h => ?_, fun e s' h => ?_⟩
    · obtain ⟨r, hok, rfl⟩ := (Act.zoom_ok_iff _ _ _ _ _ _).1 h
      exact ⟨trivial, hs.effect hi (hkeeps.1 a r hok)⟩
    · obtain ⟨r, herr, rfl⟩ := (Act.zoom_error_iff _ _ _ _ _ _).1 h
      obtain ⟨hpanic, heffect⟩ := hkeeps.2 e r herr
      exact ⟨hpanic, hs.effect hi heffect⟩

/-- The destructor frees the share's key, if it has one. -/
theorem destroy_cases {r : Char2Members ι × Contexts ι} (hr : Backed r) :
    r.1.key = none ∧ Char2KeyShare.destroy r = .ok () r ∨
    ∃ key, r.1.key = some key ∧ Char2KeyShare.destroy r = .ok () (r.1, r.2.set key none) := by
  obtain ⟨⟨callbacks, compressed, key⟩, memory⟩ := r
  cases key with
  | none => exact .inl ⟨rfl, rfl⟩
  | some key =>
    obtain ⟨d, callbacks', key', hcallbacks, hkey, hheld⟩ := hr key rfl
    obtain rfl : callbacks = some callbacks' := hcallbacks
    obtain rfl := Option.some.inj hkey
    have hfree : freeContext callbacks' key memory = .ok () (memory.set key none) := by
      rw [freeContext, Act.get_bind]
      exact (Act.liftM_bind_ok_iff _ _ _ _ _).2 ⟨d, Char2KeyShare.heldContext_of hheld, rfl⟩
    exact .inr ⟨key, rfl, (Char2KeyShare.provider_ok_iff _ _ _ _).2 ⟨_, hfree, rfl⟩⟩

theorem triple_destroy (i : Nat) :
    Act.Triple Good (destroyShare i : Act (Process ι) Unit) (fun _ => True) (Act.PanicIf False) := by
  intro s hs
  rcases hi : s.shares[i]? with _ | _ | m | m
  · exact ends_refused hs (by rw [destroyShare, hi])
  · exact ends_refused hs (by rw [destroyShare, hi])
  · have hrun : destroyShare i s = .ok () { s with shares := s.shares.set i none } := by
      rw [destroyShare, hi]
    refine ends_ok hrun (hs.replace hi _ _ (fun m' h => ?_) (fun m' h => ?_) hs.tagged fun others h => h)
    · cases h
    · cases h
  · have hcall := destroy_char2 hi
    rcases destroy_cases (hs.backed hi) with ⟨hkey, hok⟩ | ⟨key, hkey, hok⟩
    · have hrun := hcall.trans ((Act.zoom_ok_iff _ _ _ _ _ _).2 ⟨_, hok, rfl⟩)
      refine ends_ok hrun (hs.replace hi _ _ (fun m' h => ?_) (fun m' h => ?_) hs.tagged
        fun others h => ?_)
      · cases h
      · cases h
      · rw [Option.bind_some, show (KeyShareObject.char2 m).key? = none from hkey] at h
        exact h
    · have hrun := hcall.trans ((Act.zoom_ok_iff _ _ _ _ _ _).2 ⟨_, hok, rfl⟩)
      exact ends_ok hrun (hs.destroyed hi hkey)

omit [DecidableEq ι] in
theorem triple_newX448 : Act.Triple Good (createX448 : Act (Process ι) Nat) (fun _ => True)
    (Act.PanicIf False) := by
  intro s hs
  by_cases hset : s.x448.isSome = true
  · have hrun : createX448 s =
        .ok s.shares.length { s with shares := s.shares ++ [some (.x448 {})] } :=
      (Act.liftM_bind_ok_iff _ _ _ _ _).2 ⟨(), (Res.ensure_ok_iff _ _ _).2 hset, rfl⟩
    refine ends_ok hrun (hs.push rfl (fun _ _ => hset) fun m h => ?_)
    cases h
  · exact ends_refused hs ((Act.liftM_bind_error_iff _ _ _ _ _).2
      (.inl ⟨(Res.ensure_error_iff _ _ _).2 ⟨hset, rfl⟩, rfl⟩))

omit [DecidableEq ι] in
theorem triple_newChar2 (compressed : Bool) :
    Act.Triple Good (createChar2 compressed : Act (Process ι) Nat) (fun _ => True)
      (Act.PanicIf False) := by
  intro s hs
  by_cases hset : s.char2.isSome = true
  · have hrun : createChar2 compressed s = .ok s.shares.length { s with shares := s.shares ++
        [some (.char2 { callbacks := s.char2, compressed := compressed })] } :=
      (Act.liftM_bind_ok_iff _ _ _ _ _).2 ⟨(), (Res.ensure_ok_iff _ _ _).2 hset, rfl⟩
    refine ends_ok hrun (hs.push rfl (fun m h => ?_) fun m h => ?_)
    · cases h
    · cases h
      obtain ⟨callbacks, hcallbacks⟩ := Option.isSome_iff_exists.1 hset
      exact ⟨callbacks, hcallbacks, hcallbacks⟩
  · exact ends_refused hs ((Act.liftM_bind_error_iff _ _ _ _ _).2
      (.inl ⟨(Res.ensure_error_iff _ _ _).2 ⟨hset, rfl⟩, rfl⟩))

theorem compareExchange_kept {cell : Option ι} (callback : ι) {expected : ι}
    (h : cell = some expected) : (compareExchange cell callback).2 = some expected := by
  subst h
  rfl

theorem triple_setX448 (callback : Option ι) :
    Act.Triple Good (setBridgeX448Callback callback) (fun _ => True) (Act.PanicIf False) := by
  intro s hs
  cases callback with
  | none => exact ends_ok rfl hs
  | some callback => exact ends_ok rfl (hs.set_x448 fun _ h => compareExchange_kept callback h)

theorem triple_setChar2 (callbacks : Option (ι × Bool)) :
    Act.Triple Good (setBridgeChar2Callbacks callbacks) (fun _ => True) (Act.PanicIf False) := by
  intro s hs
  rcases callbacks with _ | ⟨callbacks, _ | _⟩
  · exact ends_ok rfl hs
  · exact ends_ok rfl hs
  · exact ends_ok rfl (hs.set_char2 fun _ h => compareExchange_kept callbacks h)

omit [DecidableEq ι] in
theorem triple_discard {x : Act (Process ι) α} {I : Process ι → Prop} {E : Fault → Prop}
    (hx : Act.Triple I x (fun _ => True) E) :
    Act.Triple I (x >>= fun _ => pure ()) (fun _ => True) E :=
  Act.triple_bind _ _ hx fun _ _ => Act.triple_pure _ trivial

variable {P : Type} [AddCommGroup P] [DecidableEq P] (ec : EC P) (impl : ι → X448Callback)

/-- Whatever is called, the keys keep their owners. -/
theorem triple_act (call : ProviderCall ι) :
    Act.Triple Good (call.act ec impl) (fun _ => True) (Act.PanicIf False) := by
  cases call with
  | setX448 callback => exact triple_discard (triple_setX448 callback)
  | setChar2 callbacks => exact triple_discard (triple_setChar2 callbacks)
  | newX448 => exact triple_discard triple_newX448
  | newChar2 compressed => exact triple_discard (triple_newChar2 compressed)
  | generate i seed draw =>
    exact triple_discard (triple_onShare i (fun _ => X448KeyShare.triple_generate _ seed)
      (keeps_generate draw))
  | encap i seed draw peer =>
    exact triple_discard (triple_onShare i (fun _ => X448KeyShare.triple_encap _ seed peer)
      (keeps_encap _ _ _ draw peer))
  | decap i peer =>
    exact triple_discard (triple_onShare i (fun _ => X448KeyShare.triple_decap _ peer)
      (keeps_decap peer))
  | serialize i =>
    exact triple_discard (triple_onShare i (fun _ => X448KeyShare.triple_serialize)
      (keeps_refused _))
  | deserialize i input =>
    exact triple_discard (triple_onShare i (fun _ => X448KeyShare.triple_deserialize input)
      (keeps_refused _))
  | destroy i => exact triple_destroy i

omit [DecidableEq ι] in
theorem final_congr {x x' : Act (Process ι) α} (h : x s = x' s) : x.final s = x'.final s := by
  unfold Act.final
  rw [h]

omit [DecidableEq ι] in
theorem final_discard (x : Act (Process ι) α) (s : Process ι) :
    (x >>= fun _ => pure ()).final s = x.final s := by
  cases h : x s with
  | ok a t =>
    rw [Act.final_bind_ok h, Act.final_ok h]
    rfl
  | error e t =>
    rw [Act.final_error ((Act.bind_error_iff _ _ _ _ _).2 (.inl h)), Act.final_error h]

omit [DecidableEq ι] in
theorem final_zoom {τ : Type} (get : Process ι → τ) (put : τ → Process ι → Process ι) (x : Act τ α)
    (s : Process ι) : ∃ t, (Act.zoom get put x).final s = put t s := by
  unfold Act.final Act.zoom
  cases x (get s) with
  | ok a t => exact ⟨t, rfl⟩
  | error e t => exact ⟨t, rfl⟩

/-- What is registered in the first of the two states is so in the second. -/
def Registered (s s' : Process ι) : Prop :=
  (∀ callback, s.x448 = some callback → s'.x448 = some callback) ∧
    ∀ callbacks, s.char2 = some callbacks → s'.char2 = some callbacks

omit [DecidableEq ι] in
theorem registered_of_eq {s s' : Process ι} (hx448 : s'.x448 = s.x448) (hchar2 : s'.char2 = s.char2) :
    Registered s s' := by
  unfold Registered
  rw [hx448, hchar2]
  exact ⟨fun _ h => h, fun _ h => h⟩

omit [DecidableEq ι] in
theorem registered_onShare {x : Option ι → Act X448Members α}
    {y : Act (Char2Members ι × Contexts ι) α} (i : Nat) (s : Process ι) :
    Registered s ((onShare i x y).final s) := by
  rcases hi : s.shares[i]? with _ | _ | m | m
  · rw [Act.final_error (show onShare i x y s = .error (.err "no share") s by rw [onShare, hi])]
    exact registered_of_eq rfl rfl
  · rw [Act.final_error (show onShare i x y s = .error (.err "no share") s by rw [onShare, hi])]
    exact registered_of_eq rfl rfl
  · obtain ⟨m', h⟩ := final_zoom (fun _ => m)
      (fun m' s => { s with shares := s.shares.set i (some (.x448 m')) }) (x s.x448) s
    rw [final_congr (onShare_x448 hi), h]
    exact registered_of_eq rfl rfl
  · obtain ⟨r, h⟩ := final_zoom (fun s => (m, s.contexts))
      (fun r s => { s with shares := s.shares.set i (some (.char2 r.1)), contexts := r.2 }) y s
    rw [final_congr (onShare_char2 hi), h]
    exact registered_of_eq rfl rfl

theorem registered_destroy (i : Nat) (s : Process ι) :
    Registered s ((destroyShare i).final s) := by
  rcases hi : s.shares[i]? with _ | _ | m | m
  · rw [Act.final_error (show destroyShare i s = .error (.err "no share") s by rw [destroyShare, hi])]
    exact registered_of_eq rfl rfl
  · rw [Act.final_error (show destroyShare i s = .error (.err "no share") s by rw [destroyShare, hi])]
    exact registered_of_eq rfl rfl
  · rw [Act.final_ok (show destroyShare i s = .ok () { s with shares := s.shares.set i none } by
      rw [destroyShare, hi])]
    exact registered_of_eq rfl rfl
  · obtain ⟨r, h⟩ := final_zoom (fun s => (m, s.contexts))
      (fun r s => { s with shares := s.shares.set i none, contexts := r.2 }) Char2KeyShare.destroy s
    rw [final_congr (destroy_char2 hi), h]
    exact registered_of_eq rfl rfl

omit [DecidableEq ι] in
theorem registered_ensure (c : Prop) [Decidable c] (msg : String) (s' s : Process ι) (a : α)
    (h : Registered s s') :
    Registered s (((liftM (ensure c msg) : Act (Process ι) Unit) >>= fun _ =>
      set s' >>= fun _ => pure a).final s) := by
  by_cases hc : c
  · have hok : ((liftM (ensure c msg) : Act (Process ι) Unit) >>= fun _ =>
        set s' >>= fun _ => pure a) s = .ok a s' :=
      (Act.liftM_bind_ok_iff _ _ _ _ _).2 ⟨(), (Res.ensure_ok_iff _ _ _).2 hc, rfl⟩
    rw [Act.final_ok hok]
    exact h
  · have herr : ((liftM (ensure c msg) : Act (Process ι) Unit) >>= fun _ =>
        set s' >>= fun _ => pure a) s = .error (.err msg) s :=
      (Act.liftM_bind_error_iff _ _ _ _ _).2 (.inl ⟨(Res.ensure_error_iff _ _ _).2 ⟨hc, rfl⟩, rfl⟩)
    rw [Act.final_error herr]
    exact registered_of_eq rfl rfl

theorem registered_act (call : ProviderCall ι) (s : Process ι) :
    Registered s ((call.act ec impl).final s) := by
  cases call with
  | setX448 callback =>
    rw [ProviderCall.act, final_discard]
    cases callback with
    | none => exact registered_of_eq rfl rfl
    | some callback => exact ⟨fun _ h => compareExchange_kept callback h, fun _ h => h⟩
  | setChar2 callbacks =>
    rw [ProviderCall.act, final_discard]
    rcases callbacks with _ | ⟨callbacks, _ | _⟩
    · exact registered_of_eq rfl rfl
    · exact registered_of_eq rfl rfl
    · exact ⟨fun _ h => h, fun _ h => compareExchange_kept callbacks h⟩
  | newX448 =>
    rw [ProviderCall.act, final_discard]
    exact registered_ensure _ _ _ _ _ (registered_of_eq rfl rfl)
  | newChar2 compressed =>
    rw [ProviderCall.act, final_discard]
    exact registered_ensure _ _ _ _ _ (registered_of_eq rfl rfl)
  | generate i seed draw =>
    rw [ProviderCall.act, final_discard]
    exact registered_onShare i s
  | encap i seed draw peer =>
    rw [ProviderCall.act, final_discard]
    exact registered_onShare i s
  | decap i peer =>
    rw [ProviderCall.act, final_discard]
    exact registered_onShare i s
  | serialize i =>
    rw [ProviderCall.act, final_discard]
    exact registered_onShare i s
  | deserialize i input =>
    rw [ProviderCall.act, final_discard]
    exact registered_onShare i s
  | destroy i => exact registered_destroy i s

theorem good_call {s : Process ι} (hs : Good s) (call : ProviderCall ι) :
    Good ((call.act ec impl).final s) := by
  cases h : call.act ec impl s with
  | ok a s' =>
    rw [Act.final_ok h]
    exact ((triple_act ec impl call s hs).1 a s' h).2
  | error e s' =>
    rw [Act.final_error h]
    exact ((triple_act ec impl call s hs).2 e s' h).2

theorem good_after (calls : List (ProviderCall ι)) : Good (after ec impl calls) := by
  have hrun : ∀ s, Good s → Good (calls.foldl (fun s call => (call.act ec impl).final s) s) := by
    induction calls with
    | nil => exact fun s hs => hs
    | cons call calls ih => exact fun s hs => ih _ (good_call ec impl hs call)
  exact hrun _ good_fresh

theorem registered_after (calls later : List (ProviderCall ι)) :
    Registered (after ec impl calls) (after ec impl (calls ++ later)) := by
  have hrun : ∀ s, Registered s (later.foldl (fun s call => (call.act ec impl).final s) s) := by
    induction later with
    | nil => exact fun s => registered_of_eq rfl rfl
    | cons call later ih =>
      intro s
      obtain ⟨hx448, hchar2⟩ := registered_act ec impl call s
      obtain ⟨hx448', hchar2'⟩ := ih ((call.act ec impl).final s)
      exact ⟨fun _ h => hx448' _ (hx448 _ h), fun _ h => hchar2' _ (hchar2 _ h)⟩
  unfold after
  rw [List.foldl_append]
  exact hrun _

end Process

end

open Process in
/-- **Keys have one owner.**  However the threads of a process register providers and make, use and
destroy key shares, no call reads or frees what is not there or belongs to another provider.  The
keys in memory are those of the living shares, each of one share; the provider that a share was made
with is the registered one for good; and when all shares are gone, so are the keys. -/
theorem providers_safe {ι : Type} [DecidableEq ι] {P : Type} [AddCommGroup P] [DecidableEq P]
    (ec : EC P) (impl : ι → X448Callback) (calls : List (ProviderCall ι)) :
    (∀ (call : ProviderCall ι) s', call.act ec impl (after ec impl calls) ≠ .error .panic s') ∧
    (keysOf (after ec impl calls).shares).Nodup ∧
    (∀ key, key ∈ keysOf (after ec impl calls).shares ↔
      ∃ context, (after ec impl calls).contexts[key]? = some (some context)) ∧
    (∀ m, some (.char2 m) ∈ (after ec impl calls).shares → ∃ callbacks,
      m.callbacks = some callbacks ∧
      ∀ later, (after ec impl (calls ++ later)).char2 = some callbacks) ∧
    (∀ m, some (.x448 m) ∈ (after ec impl calls).shares → ∃ callback,
      ∀ later, (after ec impl (calls ++ later)).x448 = some callback) ∧
    ((∀ share ∈ (after ec impl calls).shares, share = none) →
      ∀ context ∈ (after ec impl calls).contexts, context = none) := by
  have hgood := good_after ec impl calls
  refine ⟨fun call s' h => ?_, hgood.owned.nodup, hgood.owned.mem_iff, fun m hm => ?_, fun m hm => ?_,
    fun hgone => ?_⟩
  · exact ((triple_act ec impl call _ hgood).2 _ s' h).1.1 rfl
  · obtain ⟨callbacks, hcallbacks, hchar2⟩ := hgood.char2 m hm
    exact ⟨callbacks, hcallbacks, fun later => (registered_after ec impl calls later).2 _ hchar2⟩
  · obtain ⟨callback, hx448⟩ := Option.isSome_iff_exists.1 (hgood.x448 m hm)
    exact ⟨callback, fun later => (registered_after ec impl calls later).1 _ hx448⟩
  · have hkeys : keysOf (after ec impl calls).shares = [] := by
      refine List.filterMap_eq_nil_iff.2 fun share hshare => ?_
      rw [hgone share hshare]
      rfl
    have howned := hgood.owned
    rw [hkeys] at howned
    exact howned.all_freed

/-- A share that is destroyed leaves nothing to the other one. -/
example :
    let calls : List (ProviderCall Bool) := [.newChar2 true, .setChar2 (some (true, true)),
      .setChar2 (some (false, true)), .newChar2 true, .newChar2 false, .generate 0 none (some 2),
      .generate 1 none (some 1), .generate 0 none (some 1), .decap 0 (samplePoint2oct true 2),
      .destroy 0, .destroy 0, .decap 0 (samplePoint2oct true 2)]
    let s := Process.after sampleCurveGroup (fun _ => x448 sampleX448) calls
    s.char2 = some true ∧ keysOf s.shares = [1] ∧ s.contexts = [none, some (true, 1)] := by
  decide +kernel

end Ssl
