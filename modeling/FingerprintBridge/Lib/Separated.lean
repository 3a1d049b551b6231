import FingerprintBridge.Lib.Lines

/-!
# Pieces between separators

`splitSeq` cuts a list at every occurrence of a separator that may have several elements, the
leftmost first, as `split` of Python does.  A piece is `Clear` of the separator if none begins in
it, not even across its end; clear pieces that are put together are the pieces again
(`splitSeq_intercalate`).
-/

section
variable {α : Type} [DecidableEq α]

/-- What stands before the first separator, and what after it. -/
def cutSeq (sep : List α) : List α → Option (List α × List α)
  | [] => none
  | x :: l =>
    if sep.isPrefixOf (x :: l) then some ([], (x :: l).drop sep.length)
    else (cutSeq sep l).map fun cut => (x :: cut.1, cut.2)

/-- Every cut takes an element at least, so that `fuel = l.length` is enough. -/
def splitLoop (sep : List α) : (fuel : Nat) → List α → List (List α)
  | 0, l => [l]
  | fuel + 1, l =>
    match cutSeq sep l with
    | none => [l]
    | some (piece, rest) => piece :: splitLoop sep fuel rest

def splitSeq (sep l : List α) : List (List α) := splitLoop sep l.length l

/-- The first separator after `piece` is the one that ends it. -/
def Clear (sep piece : List α) : Prop :=
  ∀ rest, cutSeq sep (piece ++ (sep ++ rest)) = some (piece, rest)

variable {sep piece : List α}

theorem cutSeq_length {l a b : List α} (h : cutSeq sep l = some (a, b)) :
    a.length + sep.length + b.length = l.length := by
  induction l generalizing a b with
  | nil => cases h
  | cons x l ih =>
    unfold cutSeq at h
    by_cases hp : sep.isPrefixOf (x :: l) = true
    · rw [if_pos hp] at h
      obtain ⟨rfl, rfl⟩ := Prod.mk.inj (Option.some.inj h)
      have := (List.isPrefixOf_iff_prefix.1 hp).length_le
      rw [List.length_drop, List.length_nil]
      omega
    · rw [if_neg hp] at h
      obtain ⟨⟨a', b'⟩, hcut, hab⟩ := Option.map_eq_some_iff.1 h
      obtain ⟨rfl, rfl⟩ := Prod.mk.inj hab
      have := ih hcut
      simp only [List.length_cons]
      omega

theorem cutSeq_append (sep l m a b : List α) (h : cutSeq sep l = some (a, b)) :
    cutSeq sep (l ++ m) = some (a, b ++ m) := by
  induction l generalizing a b with
  | nil => cases h
  | cons x l ih =>
    unfold cutSeq at h
    rw [List.cons_append, cutSeq]
    by_cases hp : sep.isPrefixOf (x :: l) = true
    · rw [if_pos hp] at h
      obtain ⟨rfl, rfl⟩ := Prod.mk.inj (Option.some.inj h)
      have hpre := List.isPrefixOf_iff_prefix.1 hp
      have hlong : sep.isPrefixOf (x :: (l ++ m)) = true :=
        List.isPrefixOf_iff_prefix.2 (hpre.trans (List.prefix_append (x :: l) m))
      rw [if_pos hlong, ← List.cons_append, List.drop_append_of_le_length hpre.length_le]
    · rw [if_neg hp] at h
      obtain ⟨⟨a', b'⟩, hcut, hab⟩ := Option.map_eq_some_iff.1 h
      obtain ⟨rfl, rfl⟩ := Prod.mk.inj hab
      have hshort : sep.isPrefixOf (x :: (l ++ m)) ≠ true := by
        intro hlong
        have hpre := List.isPrefixOf_iff_prefix.1 hlong
        -- a separator that reached beyond `l` would leave no room for the one in it
        have hroom : sep.length ≤ l.length := by
          have := cutSeq_length hcut
          omega
        have : sep <+: x :: l :=
          List.prefix_of_prefix_length_le hpre (List.prefix_append (x :: l) m) (by simp; omega)
        exact hp (List.isPrefixOf_iff_prefix.2 this)
      rw [if_neg hshort, ih a' b' hcut]
      rfl

/-- No separator begins in a clear piece that stands alone. -/
theorem Clear.cutSeq_eq (h : Clear sep piece) (hsep : sep ≠ []) : cutSeq sep piece = none := by
  cases hcut : cutSeq sep piece with
  | none => rfl
  | some cut =>
    obtain ⟨a, b⟩ := cut
    have hlong := cutSeq_append sep piece (sep ++ []) a b hcut
    rw [h []] at hlong
    obtain ⟨rfl, -⟩ := Prod.mk.inj (Option.some.inj hlong)
    have hlen := cutSeq_length hcut
    have hpos := List.length_pos_iff.2 hsep
    omega

theorem splitLoop_intercalate (hsep : sep ≠ []) (piece : List α) (pieces : List (List α))
    (hclear : ∀ p ∈ piece :: pieces, Clear sep p) : ∀ fuel, pieces.length ≤ fuel →
    splitLoop sep fuel (sep.intercalate (piece :: pieces)) = piece :: pieces := by
  induction pieces generalizing piece with
  | nil =>
    intro fuel _
    rw [List.intercalate_singleton]
    cases fuel with
    | zero => rfl
    | succ fuel => rw [splitLoop, (hclear piece List.mem_cons_self).cutSeq_eq hsep]
  | cons next pieces ih =>
    intro fuel hfuel
    cases fuel with
    | zero => cases hfuel
    | succ fuel =>
      rw [List.intercalate_cons_cons, List.append_assoc, splitLoop,
        hclear piece List.mem_cons_self (sep.intercalate (next :: pieces))]
      simp only
      rw [ih next (fun p hp => hclear p (List.mem_cons_of_mem _ hp)) fuel (Nat.le_of_succ_le_succ hfuel)]

/-- **Clear pieces are found again.** -/
theorem splitSeq_intercalate (hsep : sep ≠ []) (piece : List α) (pieces : List (List α))
    (hclear : ∀ p ∈ piece :: pieces, Clear sep p) :
    splitSeq sep (sep.intercalate (piece :: pieces)) = piece :: pieces := by
  refine splitLoop_intercalate hsep piece pieces hclear _ ?_
  -- there is a separator before each but the first
  have hpos := List.length_pos_iff.2 hsep
  clear hclear
  induction pieces generalizing piece with
  | nil => exact Nat.zero_le _
  | cons next pieces ih =>
    rw [List.intercalate_cons_cons, List.length_append, List.length_append, List.length_cons]
    have := ih next
    omega

omit [DecidableEq α] in
/-- Each piece with a separator behind it. -/
theorem flatMap_separator (sep piece : List α) (pieces : List (List α)) :
    (piece :: pieces).flatMap (· ++ sep) = sep.intercalate (piece :: pieces) ++ sep := by
  induction pieces generalizing piece with
  | nil => rw [List.flatMap_singleton, List.intercalate_singleton]
  | cons next pieces ih =>
    rw [List.flatMap_cons, ih, List.intercalate_cons_cons, List.append_assoc, List.append_assoc,
      List.append_assoc]

theorem intercalate_inj (hsep : sep ≠ []) {piece piece' : List α} {pieces pieces' : List (List α)}
    (hclear : ∀ p ∈ piece :: pieces, Clear sep p) (hclear' : ∀ p ∈ piece' :: pieces', Clear sep p)
    (h : sep.intercalate (piece :: pieces) = sep.intercalate (piece' :: pieces')) :
    piece :: pieces = piece' :: pieces' := by
  rw [← splitSeq_intercalate hsep piece pieces hclear, h, splitSeq_intercalate hsep _ _ hclear']

end

/-! ## Lines and sections -/

/-- No separator that goes on with LF begins in a line. -/
theorem cutSeq_line (sep c rest : Bytes) (h : 10 ∉ c) :
    cutSeq (13 :: 10 :: sep) (c ++ 13 :: rest) =
      (cutSeq (13 :: 10 :: sep) (13 :: rest)).map fun cut => (c ++ cut.1, cut.2) := by
  induction c with
  | nil =>
    exact Option.map_id'.symm
  | cons x c ih =>
    obtain ⟨hx, hc⟩ := not_or.1 (fun hm => h (List.mem_cons.2 hm))
    have hno : (13 :: 10 :: sep).isPrefixOf (x :: (c ++ 13 :: rest)) ≠ true := by
      intro hp
      obtain ⟨l, hl⟩ := List.isPrefixOf_iff_prefix.1 hp
      obtain ⟨-, hl⟩ := List.cons.inj hl
      cases c with
      | nil => cases (List.cons.inj hl).1
      | cons y c => exact hc ((List.cons.inj hl).1 ▸ List.mem_cons_self)
    rw [List.cons_append, cutSeq, if_neg hno, ih hc, Option.map_map]
    rfl

/-- What stands on a line is clear of line ends, also if its last octet is a CR. -/
theorem clear_crlf (c : Bytes) (h : 10 ∉ c) : Clear crlf c := by
  intro rest
  have hline := cutSeq_line [] c (10 :: rest) h
  have hcut : cutSeq crlf (13 :: 10 :: rest) = some ([], rest) := rfl
  rw [show (13 :: 10 :: [] : Bytes) = crlf from rfl, hcut] at hline
  show cutSeq crlf (c ++ 13 :: 10 :: rest) = some (c, rest)
  rw [hline, Option.map_some, List.append_nil]

theorem sectionOf_intercalate (c : Bytes) (cs : List Bytes) :
    sectionOf (c :: cs) = crlf.intercalate (c :: cs) ++ (crlf ++ crlf) := by
  induction cs generalizing c with
  | nil => simp [sectionOf]
  | cons d cs ih =>
    rw [sectionOf, ih, List.intercalate_cons_cons]
    simp

/-- The lines of a section are clear of empty lines. -/
theorem clear_section (c : Bytes) (cs : List Bytes) (h : Lines (c :: cs)) :
    Clear (crlf ++ crlf) (crlf.intercalate (c :: cs)) := by
  intro rest
  induction cs generalizing c with
  | nil =>
    obtain ⟨⟨-, hc⟩, -⟩ := (lines_cons _ _).1 h
    have hline := cutSeq_line [13, 10] c (10 :: 13 :: 10 :: rest) hc
    have hcut : cutSeq (crlf ++ crlf) (13 :: 10 :: 13 :: 10 :: rest) = some ([], rest) := rfl
    rw [show (13 :: 10 :: [13, 10] : Bytes) = crlf ++ crlf from rfl, hcut] at hline
    rw [List.intercalate_singleton]
    show cutSeq (crlf ++ crlf) (c ++ 13 :: 10 :: 13 :: 10 :: rest) = some (c, rest)
    rw [hline, Option.map_some, List.append_nil]
  | cons d cs ih =>
    obtain ⟨⟨-, hc⟩, hds⟩ := (lines_cons _ _).1 h
    obtain ⟨⟨hne, hd⟩, -⟩ := (lines_cons _ _).1 hds
    have hih := ih d hds
    obtain ⟨tail, htail⟩ : ∃ tail, crlf.intercalate (d :: cs) ++ (crlf ++ crlf ++ rest) =
        d ++ 13 :: tail := by
      cases cs with
      | nil =>
        rw [List.intercalate_singleton]
        exact ⟨_, rfl⟩
      | cons e cs =>
        rw [List.intercalate_cons_cons, List.append_assoc, List.append_assoc]
        exact ⟨_, rfl⟩
    -- after a line end there is another line first
    have hno : (crlf ++ crlf).isPrefixOf (13 :: 10 :: (d ++ 13 :: tail)) ≠ true := by
      intro hp
      obtain ⟨l, hl⟩ := List.isPrefixOf_iff_prefix.1 hp
      change 13 :: 10 :: 13 :: 10 :: l = _ at hl
      obtain ⟨-, hl⟩ := List.cons.inj hl
      obtain ⟨-, hl⟩ := List.cons.inj hl
      cases d with
      | nil => exact hne rfl
      | cons x d =>
        obtain ⟨-, hl⟩ := List.cons.inj hl
        cases d with
        | nil => cases (List.cons.inj hl).1
        | cons y d => exact hd ((List.cons.inj hl).1 ▸ List.mem_cons_of_mem _ List.mem_cons_self)
    have hno' : (crlf ++ crlf).isPrefixOf (10 :: (d ++ 13 :: tail)) ≠ true := by
      intro hp
      obtain ⟨l, hl⟩ := List.isPrefixOf_iff_prefix.1 hp
      cases (List.cons.inj hl).1
    have hline := cutSeq_line [13, 10] c (10 :: (d ++ 13 :: tail)) hc
    rw [show (13 :: 10 :: [13, 10] : Bytes) = crlf ++ crlf from rfl, cutSeq, if_neg hno, cutSeq,
      if_neg hno', ← htail, hih] at hline
    rw [List.intercalate_cons_cons, List.append_assoc, List.append_assoc, htail]
    show cutSeq (crlf ++ crlf) (c ++ 13 :: 10 :: (d ++ 13 :: tail)) = _
    rw [← htail, hline]
    simp [crlf]
