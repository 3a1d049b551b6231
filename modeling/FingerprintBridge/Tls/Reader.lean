import FingerprintBridge.Lib.Action

/-!
# Reading length-prefixed octets

`Reader` of `src/fingerprint.rs`, on the octets it has still to read.  `Parses x P` says
everything about the reads of `x` that succeed: it returns `a` exactly when octets `w`
with `P a w` come first, whatever follows them.
-/

namespace Tls

abbrev Reader := Act Bytes

/-- `u16::from_be_bytes`. -/
def fromBeBytes (a b : UInt8) : UInt16 := UInt16.ofNat (a.toNat * 256 + b.toNat)

/-- `u16::to_be_bytes`. -/
def be16 (n : UInt16) : Bytes := [UInt8.ofNat (n.toNat / 256), UInt8.ofNat n.toNat]

namespace Reader

variable {α β σ ι : Type}

/-! ## The code -/

/-- `&self.b[self.p..]`. -/
def rest : Reader Bytes := fun b => .ok b b

def take (n : Nat) : Reader Bytes := fun b =>
  if n ≤ b.length then .ok (b.take n) (b.drop n) else .error (.err "truncated field") b

def u8 : Reader UInt8 := do byteAt (← take 1) 0

def u16 : Reader UInt16 := do
  match ← take 2 with
  | [a, b] => return fromBeBytes a b
  | _ => liftM (.error (.err "could not convert slice to array") : Res UInt16)

def v8 : Reader Bytes := do
  let n ← u8
  take n.toNat

def v16 : Reader Bytes := do
  let n ← u16
  take n.toNat

def done : Reader Unit := do ensure ((← rest) = []) "trailing data"

/-- A reader of `b`, read by `x`. -/
def run (x : Reader α) (b : Bytes) : Res α :=
  match x b with
  | .ok a _ => .ok a
  | .error e _ => .error e

/-- At most `n` passes of `while r.p < r.b.len()`. -/
def passes (x : σ → Reader σ) : Nat → σ → Reader σ
  | 0, s => return s
  | n + 1, s => do
    if (← rest) = [] then return s
    else passes x n (← x s)

/-- `while r.p < r.b.len()`: a pass reads something. -/
def untilEnd (x : σ → Reader σ) (s : σ) : Reader σ := do passes x (← rest).length s

end Reader

/-! ## The formats -/

/-- A vector with a length of one octet. -/
def vec8 (a : Bytes) : Bytes := UInt8.ofNat a.length :: a

/-- A vector with a length of two octets. -/
def vec16 (a : Bytes) : Bytes := be16 (UInt16.ofNat a.length) ++ a

theorem be16_fromBeBytes (a b : UInt8) : be16 (fromBeBytes a b) = [a, b] := by
  have ha := a.toNat_lt
  have hb := b.toNat_lt
  have hn : (fromBeBytes a b).toNat = a.toNat * 256 + b.toNat := by
    unfold fromBeBytes
    rw [UInt16.toNat_ofNat']
    omega
  have h1 : UInt8.ofNat ((a.toNat * 256 + b.toNat) / 256) = a := by
    apply UInt8.toNat_inj.1
    rw [UInt8.toNat_ofNat']
    omega
  have h2 : UInt8.ofNat (a.toNat * 256 + b.toNat) = b := by
    apply UInt8.toNat_inj.1
    rw [UInt8.toNat_ofNat']
    omega
  unfold be16
  rw [hn, h1, h2]

theorem fromBeBytes_be16 (n : UInt16) :
    fromBeBytes (UInt8.ofNat (n.toNat / 256)) (UInt8.ofNat n.toNat) = n := by
  have hn := n.toNat_lt
  apply UInt16.toNat_inj.1
  unfold fromBeBytes
  rw [UInt16.toNat_ofNat', UInt8.toNat_ofNat', UInt8.toNat_ofNat']
  omega

namespace Reader

variable {α β σ ι : Type}

/-- The octets that `x` reads to return `a`. -/
def Parses (x : Reader α) (P : α → Bytes → Prop) : Prop :=
  ∀ b a r, x b = .ok a r ↔ ∃ w, b = w ++ r ∧ P a w

theorem Parses.congr {x : Reader α} {P Q : α → Bytes → Prop} (h : Parses x P)
    (hpq : ∀ a w, P a w ↔ Q a w) : Parses x Q := by
  intro b a r
  rw [h b a r]
  constructor
  · rintro ⟨w, hb, hw⟩
    exact ⟨w, hb, (hpq a w).1 hw⟩
  · rintro ⟨w, hb, hw⟩
    exact ⟨w, hb, (hpq a w).2 hw⟩

theorem parses_lift (x : Res α) : Parses (liftM x) (fun a w => x = .ok a ∧ w = []) := by
  intro b a r
  rw [Act.liftM_ok_iff]
  constructor
  · rintro ⟨hx, rfl⟩
    exact ⟨[], rfl, hx, rfl⟩
  · rintro ⟨w, rfl, hx, rfl⟩
    exact ⟨hx, rfl⟩

theorem parses_pure (a : α) : Parses (pure a) (fun c w => c = a ∧ w = []) := by
  intro b c r
  rw [Act.pure_ok_iff]
  constructor
  · rintro ⟨rfl, rfl⟩
    exact ⟨[], rfl, rfl, rfl⟩
  · rintro ⟨w, rfl, rfl, rfl⟩
    exact ⟨rfl, rfl⟩

theorem parses_bind {P : α → Bytes → Prop} {Q : α → β → Bytes → Prop} {x : Reader α}
    {f : α → Reader β} (hx : Parses x P) (hf : ∀ a, Parses (f a) (Q a)) :
    Parses (x >>= f) (fun c w => ∃ a u v, w = u ++ v ∧ P a u ∧ Q a c v) := by
  intro b c r
  rw [Act.bind_ok_iff]
  constructor
  · rintro ⟨a, r', ha, hc⟩
    obtain ⟨u, rfl, hu⟩ := (hx _ _ _).1 ha
    obtain ⟨v, rfl, hv⟩ := (hf a _ _ _).1 hc
    exact ⟨u ++ v, (List.append_assoc _ _ _).symm, a, u, v, rfl, hu, hv⟩
  · rintro ⟨w, rfl, a, u, v, rfl, hu, hv⟩
    refine ⟨a, v ++ r, (hx _ _ _).2 ⟨u, List.append_assoc _ _ _, hu⟩, ?_⟩
    exact (hf a _ _ _).2 ⟨v, rfl, hv⟩

theorem parses_take (n : Nat) : Parses (take n) (fun a w => w = a ∧ a.length = n) := by
  intro b a r
  unfold take
  constructor
  · intro h
    split at h
    · cases h
      exact ⟨_, (List.take_append_drop n b).symm, rfl, by simp [*]⟩
    · cases h
  · rintro ⟨w, rfl, rfl, rfl⟩
    rw [if_pos (by simp), List.take_left, List.drop_left]

theorem parses_u8 : Parses u8 (fun a w => w = [a]) := by
  refine (parses_bind (parses_take 1) fun b => parses_lift (byteAt b 0)).congr fun a w => ?_
  constructor
  · rintro ⟨b, u, v, rfl, ⟨rfl, hlen⟩, hb, rfl⟩
    obtain ⟨c, rfl⟩ := List.length_eq_one_iff.1 hlen
    cases hb
    rfl
  · rintro rfl
    exact ⟨[a], [a], [], rfl, ⟨rfl, rfl⟩, rfl, rfl⟩

theorem parses_u16 : Parses u16 (fun n w => w = be16 n) := by
  intro b n r
  unfold u16
  rw [Act.bind_ok_iff]
  constructor
  · rintro ⟨a, r', ha, hn⟩
    obtain ⟨w, rfl, rfl, hlen⟩ := (parses_take 2 _ _ _).1 ha
    obtain ⟨x, y, rfl⟩ := List.length_eq_two.1 hlen
    obtain ⟨rfl, rfl⟩ := (Act.pure_ok_iff _ _ _ _).1 hn
    exact ⟨[x, y], rfl, (be16_fromBeBytes x y).symm⟩
  · rintro ⟨w, rfl, rfl⟩
    refine ⟨be16 n, r, (parses_take 2 _ _ _).2 ⟨_, rfl, rfl, rfl⟩, ?_⟩
    show EStateM.Result.ok (fromBeBytes _ _) r = _
    rw [fromBeBytes_be16]

theorem parses_v8 : Parses v8 (fun a w => a.length < 256 ∧ w = vec8 a) := by
  refine (parses_bind parses_u8 fun n => parses_take n.toNat).congr fun a w => ?_
  constructor
  · rintro ⟨n, u, v, rfl, rfl, rfl, hlen⟩
    have := n.toNat_lt
    refine ⟨by omega, ?_⟩
    unfold vec8
    rw [hlen, UInt8.ofNat_toNat]
    rfl
  · rintro ⟨hlen, rfl⟩
    refine ⟨UInt8.ofNat a.length, [UInt8.ofNat a.length], a, rfl, rfl, rfl, ?_⟩
    rw [UInt8.toNat_ofNat']
    omega

theorem parses_v16 : Parses v16 (fun a w => a.length < 65536 ∧ w = vec16 a) := by
  refine (parses_bind parses_u16 fun n => parses_take n.toNat).congr fun a w => ?_
  constructor
  · rintro ⟨n, u, v, rfl, rfl, rfl, hlen⟩
    have := n.toNat_lt
    refine ⟨by omega, ?_⟩
    unfold vec16
    rw [hlen, UInt16.ofNat_toNat]
  · rintro ⟨hlen, rfl⟩
    refine ⟨UInt16.ofNat a.length, _, a, rfl, rfl, rfl, ?_⟩
    rw [UInt16.toNat_ofNat']
    omega

theorem run_ok_iff (x : Reader α) (b : Bytes) (a : α) : run x b = .ok a ↔ ∃ r, x b = .ok a r := by
  unfold run
  cases hx : x b with
  | ok c r => simp
  | error e r => simp

@[simp] theorem run_pure (a : α) (b : Bytes) : run (pure a) b = .ok a := rfl

@[simp] theorem run_lift (x : Res α) (b : Bytes) : run (liftM x) b = x := by
  cases x with
  | ok a => rfl
  | error e => rfl

/-- What comes before `done` is all there is. -/
theorem run_done_iff {x : Reader α} {P : α → Bytes → Prop} {f : α → Reader β} (h : Parses x P)
    (b : Bytes) (c : β) :
    run (x >>= fun a => done >>= fun _ => f a) b = .ok c ↔ ∃ a, P a b ∧ run (f a) [] = .ok c := by
  rw [run_ok_iff]
  constructor
  · rintro ⟨r, hr⟩
    obtain ⟨a, r1, ha, hr1⟩ := (Act.bind_ok_iff _ _ _ _ _).1 hr
    obtain ⟨_, r2, hd, hr2⟩ := (Act.bind_ok_iff _ _ _ _ _).1 hr1
    obtain ⟨_, _, hg, hd⟩ := (Act.bind_ok_iff _ _ _ _ _).1 hd
    cases hg
    obtain ⟨he, rfl⟩ := (Act.liftM_ok_iff _ _ _ _).1 hd
    obtain rfl := (Res.ensure_ok_iff _ _ _).1 he
    obtain ⟨w, rfl, hw⟩ := (h _ _ _).1 ha
    rw [List.append_nil]
    exact ⟨a, hw, (run_ok_iff _ _ _).2 ⟨r, hr2⟩⟩
  · rintro ⟨a, ha, hf⟩
    obtain ⟨r, hf⟩ := (run_ok_iff _ _ _).1 hf
    refine ⟨r, (Act.bind_ok_iff _ _ _ _ _).2 ⟨a, [], (h _ _ _).2 ⟨b, (List.append_nil b).symm, ha⟩, ?_⟩⟩
    exact (Act.bind_ok_iff _ _ _ _ _).2 ⟨(), [], rfl, hf⟩

/-- What a reader takes off the front is determined. -/
theorem Parses.inj {x : Reader α} {P : α → Bytes → Prop} (h : Parses x P) {a a' : α}
    {u v r s : Bytes} (ha : P a u) (ha' : P a' v) (heq : u ++ r = v ++ s) : a = a' ∧ r = s := by
  have h1 := (h (u ++ r) a r).2 ⟨u, rfl, ha⟩
  rw [heq, (h (v ++ s) a' s).2 ⟨v, rfl, ha'⟩] at h1
  cases h1
  exact ⟨rfl, rfl⟩

/-- So are the items of a list, one after the other. -/
theorem Parses.flatMap_inj {x : Reader ι} {V : ι → Prop} {enc : ι → Bytes}
    (h : Parses x (fun i w => V i ∧ w = enc i)) (henc : ∀ i, enc i ≠ []) :
    ∀ is js : List ι, (∀ i ∈ is, V i) → (∀ j ∈ js, V j) → is.flatMap enc = js.flatMap enc →
      is = js := by
  intro is
  induction is with
  | nil =>
    intro js _ _ heq
    cases js with
    | nil => rfl
    | cons j js => exact (henc j (List.append_eq_nil_iff.1 heq.symm).1).elim
  | cons i is ih =>
    intro js hi hj heq
    cases js with
    | nil => exact (henc i (List.append_eq_nil_iff.1 heq).1).elim
    | cons j js =>
      obtain ⟨rfl, hrest⟩ := h.inj ⟨hi i List.mem_cons_self, rfl⟩ ⟨hj j List.mem_cons_self, rfl⟩ heq
      rw [ih js (fun k hk => hi k (List.mem_cons_of_mem _ hk))
        (fun k hk => hj k (List.mem_cons_of_mem _ hk)) hrest]

/-! ## Reading to the end -/

section
variable {x : σ → Reader σ} {V : ι → Prop} {enc : ι → Bytes} {f : σ → ι → Res σ}

theorem passes_ok_iff (hx : ∀ s, Parses (x s) (fun s' w => ∃ i, V i ∧ w = enc i ∧ f s i = .ok s'))
    (henc : ∀ i, enc i ≠ []) (n : Nat) (s s' : σ) (b r : Bytes) (hn : b.length ≤ n) :
    passes x n s b = .ok s' r ↔
      r = [] ∧ ∃ is : List ι, (∀ i ∈ is, V i) ∧ b = is.flatMap enc ∧ is.foldlM f s = .ok s' := by
  have hend : ∀ s, (pure s : Reader σ) [] = .ok s' r ↔
      r = [] ∧ ∃ is : List ι, (∀ i ∈ is, V i) ∧ [] = is.flatMap enc ∧ is.foldlM f s = .ok s' := by
    intro s
    rw [Act.pure_ok_iff]
    constructor
    · rintro ⟨rfl, rfl⟩
      exact ⟨rfl, [], by simp, rfl, rfl⟩
    · rintro ⟨rfl, is, -, hb, hf⟩
      cases is with
      | nil =>
        cases hf
        exact ⟨rfl, rfl⟩
      | cons i is => exact (henc i (List.append_eq_nil_iff.1 hb.symm).1).elim
  induction n generalizing s b with
  | zero =>
    obtain rfl := List.length_eq_zero_iff.1 (Nat.le_zero.1 hn)
    exact hend s
  | succ n ih =>
    have hrest : passes x (n + 1) s b =
        (if b = [] then return s else do passes x n (← x s) : Reader σ) b := rfl
    rw [hrest]
    split
    · next hb =>
      subst hb
      exact hend s
    · next hb =>
      rw [Act.bind_ok_iff]
      constructor
      · rintro ⟨s1, r1, h1, hr⟩
        obtain ⟨w, rfl, i, hi, rfl, hf⟩ := (hx s _ _ _).1 h1
        have := List.length_pos_iff.2 (henc i)
        rw [List.length_append] at hn
        obtain ⟨rfl, is, his, rfl, hfold⟩ := (ih s1 r1 (by omega)).1 hr
        refine ⟨rfl, i :: is, ?_, rfl, ?_⟩
        · simpa using ⟨hi, fun j hj => his j hj⟩
        · rw [List.foldlM_cons, hf]
          exact hfold
      · rintro ⟨rfl, is, his, rfl, hfold⟩
        cases is with
        | nil => exact (hb rfl).elim
        | cons i is =>
          rw [List.foldlM_cons] at hfold
          obtain ⟨s1, hf, hfold⟩ := (Res.bind_ok_iff _ _ _).1 hfold
          have := List.length_pos_iff.2 (henc i)
          rw [List.flatMap_cons, List.length_append] at hn
          refine ⟨s1, is.flatMap enc,
            (hx s _ _ _).2 ⟨enc i, rfl, i, his i List.mem_cons_self, rfl, hf⟩, ?_⟩
          exact (ih s1 _ (by omega)).2
            ⟨rfl, is, fun j hj => his j (List.mem_cons_of_mem _ hj), rfl, hfold⟩

/-- A loop to the end reads items one after the other. -/
theorem run_untilEnd_iff
    (hx : ∀ s, Parses (x s) (fun s' w => ∃ i, V i ∧ w = enc i ∧ f s i = .ok s'))
    (henc : ∀ i, enc i ≠ []) (s s' : σ) (b : Bytes) :
    run (untilEnd x s) b = .ok s' ↔
      ∃ is : List ι, (∀ i ∈ is, V i) ∧ b = is.flatMap enc ∧ is.foldlM f s = .ok s' := by
  have hpass := fun r => passes_ok_iff hx henc b.length s s' b r (Nat.le_refl _)
  rw [run_ok_iff]
  constructor
  · rintro ⟨r, hr⟩
    exact ((hpass r).1 hr).2
  · intro h
    exact ⟨[], (hpass []).2 ⟨rfl, h⟩⟩

end

end Reader

end Tls
