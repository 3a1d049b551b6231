import FingerprintBridge.Lib.Action

/-!
# Parsers that read a prefix

A `Parser ι α` reads an `α` from the front of a list and returns the rest.  It is
`Delimited` when what it reads is decided by the elements it consumes alone: it
answers the same whatever follows them.  Delimited parsers are closed under
sequencing, and `all p` (read `p` until the input is used up) then distributes
over concatenation (`all_cons`), which is what lets a stream be cut into the
pieces that were written one after the other.
-/

abbrev Parser (ι : Type) (α : Type) := StateT (List ι) Option α

namespace Parser

variable {ι α β : Type}

def item : Parser ι ι := fun b =>
  match b with
  | [] => none
  | c :: rest => some (c, rest)

def takeN (n : Nat) : Parser ι (List ι) := fun b =>
  if n ≤ b.length then some (b.take n, b.drop n) else none

/-- Also return the elements `p` consumed. -/
def consumed (p : Parser ι α) : Parser ι (List ι × α) := fun b =>
  match p b with
  | none => none
  | some (a, rest) => some ((b.take (b.length - rest.length), a), rest)

def allFuel (p : Parser ι α) : Nat → List ι → Option (List α)
  | _, [] => some []
  | 0, _ :: _ => none
  | n + 1, c :: b =>
    match p (c :: b) with
    | none => none
    | some (a, rest) => (allFuel p n rest).map (a :: ·)

/-- Read `p` until nothing is left. -/
def all (p : Parser ι α) (b : List ι) : Option (List α) := allFuel p b.length b

/-- What `p` reads is decided by the elements it consumes. -/
def Delimited (p : Parser ι α) : Prop :=
  ∀ b a rest, p b = some (a, rest) →
    ∃ enc, b = enc ++ rest ∧ ∀ c, p (enc ++ c) = some (a, c)

/-- `p` consumes something. -/
def Productive (p : Parser ι α) : Prop :=
  ∀ b a rest, p b = some (a, rest) → rest.length < b.length

theorem bind_some_iff (p : Parser ι α) (f : α → Parser ι β) (b rest : List ι) (v : β) :
    (p >>= f) b = some (v, rest) ↔ ∃ a mid, p b = some (a, mid) ∧ f a mid = some (v, rest) := by
  show StateT.bind p f b = _ ↔ _
  unfold StateT.bind
  cases h : p b with
  | none => simp
  | some r => obtain ⟨a, mid⟩ := r; simp

theorem pure_some_iff (a v : α) (b rest : List ι) :
    (pure a : Parser ι α) b = some (v, rest) ↔ v = a ∧ rest = b := by
  show some (a, b) = _ ↔ _
  simp [eq_comm]

theorem item_some_iff (b : List ι) (c : ι) (rest : List ι) :
    item b = some (c, rest) ↔ b = c :: rest := by
  cases b with
  | nil => simp [item]
  | cons d b => simp [item]

theorem takeN_some_iff (n : Nat) (b a rest : List ι) :
    takeN n b = some (a, rest) ↔ a.length = n ∧ b = a ++ rest := by
  unfold takeN
  split
  · next h =>
    simp only [Option.some.injEq, Prod.mk.injEq]
    constructor
    · rintro ⟨rfl, rfl⟩
      exact ⟨by simp [h], (List.take_append_drop n b).symm⟩
    · rintro ⟨rfl, rfl⟩
      simp
  · next h =>
    constructor
    · intro h'; cases h'
    · rintro ⟨rfl, rfl⟩
      simp at h

theorem takeN_append (a rest : List ι) : takeN a.length (a ++ rest) = some (a, rest) :=
  (takeN_some_iff _ _ _ _).2 ⟨rfl, rfl⟩

/-! ## Delimited parsers -/

theorem delimited_pure (a : α) : Delimited (pure a : Parser ι α) := by
  intro b v rest h
  obtain ⟨rfl, rfl⟩ := (pure_some_iff _ _ _ _).1 h
  exact ⟨[], rfl, fun c => rfl⟩

theorem delimited_item : Delimited (item : Parser ι ι) := by
  intro b c rest h
  rw [item_some_iff] at h
  exact ⟨[c], h, fun d => rfl⟩

theorem delimited_takeN (n : Nat) : Delimited (takeN n : Parser ι (List ι)) := by
  intro b a rest h
  obtain ⟨rfl, rfl⟩ := (takeN_some_iff _ _ _ _).1 h
  exact ⟨a, rfl, fun c => takeN_append a c⟩

theorem delimited_bind (p : Parser ι α) (f : α → Parser ι β) (hp : Delimited p)
    (hf : ∀ a, Delimited (f a)) : Delimited (p >>= f) := by
  intro b v rest h
  obtain ⟨a, mid, h1, h2⟩ := (bind_some_iff _ _ _ _ _).1 h
  obtain ⟨e1, rfl, k1⟩ := hp _ _ _ h1
  obtain ⟨e2, rfl, k2⟩ := hf a _ _ _ h2
  refine ⟨e1 ++ e2, by rw [List.append_assoc], fun c => ?_⟩
  rw [bind_some_iff, List.append_assoc]
  exact ⟨a, e2 ++ c, k1 _, k2 c⟩

theorem consumed_some_iff (p : Parser ι α) (hp : Delimited p) (b enc rest : List ι) (a : α) :
    consumed p b = some ((enc, a), rest) ↔ p b = some (a, rest) ∧ b = enc ++ rest := by
  unfold consumed
  cases h : p b with
  | none => simp
  | some r =>
    obtain ⟨a', rest'⟩ := r
    obtain ⟨e, rfl, -⟩ := hp _ _ _ h
    simp only [Option.some.injEq, Prod.mk.injEq, List.length_append, Nat.add_sub_cancel,
      List.take_left']
    constructor
    · rintro ⟨⟨rfl, rfl⟩, rfl⟩
      simp
    · rintro ⟨⟨rfl, rfl⟩, he⟩
      exact ⟨⟨List.append_cancel_right he, rfl⟩, rfl⟩

theorem delimited_consumed (p : Parser ι α) (hp : Delimited p) : Delimited (consumed p) := by
  rintro b ⟨enc, a⟩ rest h
  obtain ⟨h1, rfl⟩ := (consumed_some_iff p hp _ _ _ _).1 h
  obtain ⟨e, he, k⟩ := hp _ _ _ h1
  have he' : enc = e := List.append_cancel_right he
  subst he'
  exact ⟨enc, rfl, fun c => (consumed_some_iff p hp _ _ _ _).2 ⟨k c, rfl⟩⟩

theorem productive_bind_item (f : ι → Parser ι β) (hf : ∀ a, Delimited (f a)) :
    Productive (item >>= f) := by
  intro b v rest h
  obtain ⟨c, mid, h1, h2⟩ := (bind_some_iff _ _ _ _ _).1 h
  rw [item_some_iff] at h1
  subst h1
  obtain ⟨e, rfl, -⟩ := hf c _ _ _ h2
  simp only [List.length_cons, List.length_append]
  omega

/-! ## Reading to the end -/

theorem allFuel_eq (p : Parser ι α) (hp : Productive p) :
    ∀ (n : Nat) (b : List ι), b.length ≤ n → allFuel p n b = all p b := by
  have key : ∀ (n m : Nat) (b : List ι), b.length ≤ n → b.length ≤ m →
      allFuel p n b = allFuel p m b := by
    intro n
    induction n with
    | zero =>
      intro m b hn _
      have : b = [] := List.length_eq_zero_iff.1 (by omega)
      subst this
      simp [allFuel]
    | succ n ih =>
      intro m b hn hm
      cases b with
      | nil => simp [allFuel]
      | cons c b =>
        obtain ⟨m, rfl⟩ : ∃ k, m = k + 1 := ⟨m - 1, by simp at hm; omega⟩
        simp only [allFuel]
        cases h : p (c :: b) with
        | none => rfl
        | some r =>
          obtain ⟨a, rest⟩ := r
          have := hp _ _ _ h
          simp only [List.length_cons] at this hn hm
          simp only
          rw [ih m rest (by omega) (by omega)]
  intro n b h
  exact key n b.length b h (Nat.le_refl _)

@[simp] theorem all_nil (p : Parser ι α) : all p [] = some [] := rfl

/-- One step of reading to the end. -/
theorem all_eq (p : Parser ι α) (hp : Productive p) (b : List ι) (a : α) (rest : List ι)
    (h : p b = some (a, rest)) : all p b = (all p rest).map (a :: ·) := by
  have hlt := hp _ _ _ h
  cases b with
  | nil => simp at hlt
  | cons c b =>
    unfold all
    simp only [List.length_cons, allFuel, h]
    simp only [List.length_cons] at hlt
    rw [allFuel_eq p hp b.length rest (by omega), all]

/-- A piece that `p` reads whole is read first, and alone. -/
theorem all_cons (p : Parser ι α) (hd : Delimited p) (hp : Productive p) (enc : List ι) (a : α)
    (h : p enc = some (a, [])) (c : List ι) : all p (enc ++ c) = (all p c).map (a :: ·) := by
  obtain ⟨e, he, k⟩ := hd _ _ _ h
  rw [List.append_nil] at he
  subst he
  exact all_eq p hp _ a c (k c)

/-- The pieces of a list that `p` reads whole are what `p` reads from their concatenation. -/
theorem all_flatMap (p : Parser ι α) (hd : Delimited p) (hp : Productive p) (write : α → List ι) :
    ∀ as : List α, (∀ a ∈ as, p (write a) = some (a, [])) → all p (as.flatMap write) = some as := by
  intro as
  induction as with
  | nil => intro _; rfl
  | cons a as ih =>
    intro h
    rw [List.flatMap_cons, all_cons p hd hp _ a (h a List.mem_cons_self),
      ih fun b hb => h b (List.mem_cons_of_mem _ hb)]
    rfl

/-- Reading to the end, where it is known what `p` reads. -/
theorem all_some_iff (p : Parser ι α) (hp : Productive p) {good : α → Prop} {write : α → List ι}
    (h : ∀ b a rest, p b = some (a, rest) ↔ good a ∧ b = write a ++ rest) (b : List ι)
    (as : List α) : all p b = some as ↔ (∀ a ∈ as, good a) ∧ b = as.flatMap write := by
  constructor
  · intro hall
    induction as generalizing b with
    | nil =>
      cases b with
      | nil => exact ⟨fun a ha => absurd ha List.not_mem_nil, rfl⟩
      | cons c b =>
        cases hpb : p (c :: b) with
        | none =>
          unfold all at hall
          simp [allFuel, hpb] at hall
        | some r =>
          rw [all_eq p hp _ r.1 r.2 hpb] at hall
          simp at hall
    | cons a as ih =>
      cases b with
      | nil => cases hall
      | cons c b =>
        cases hpb : p (c :: b) with
        | none =>
          unfold all at hall
          simp [allFuel, hpb] at hall
        | some r =>
          rw [all_eq p hp _ r.1 r.2 hpb] at hall
          obtain ⟨as', has, heq⟩ := Option.map_eq_some_iff.1 hall
          obtain ⟨rfl, rfl⟩ := List.cons.inj heq
          obtain ⟨hgood, hb⟩ := (h _ _ _).1 hpb
          obtain ⟨hall', hrest⟩ := ih _ has
          refine ⟨List.forall_mem_cons.2 ⟨hgood, hall'⟩, ?_⟩
          rw [hb, hrest, List.flatMap_cons]
  · rintro ⟨hgood, rfl⟩
    induction as with
    | nil => rfl
    | cons a as ih =>
      obtain ⟨ha, has⟩ := List.forall_mem_cons.1 hgood
      rw [List.flatMap_cons, all_eq p hp _ a _ ((h _ _ _).2 ⟨ha, rfl⟩), ih has]
      rfl

end Parser
