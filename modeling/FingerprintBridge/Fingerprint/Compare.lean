import FingerprintBridge.Lib.Json

/-!
# `src/fingerprint.rs`: the comparison of two documents

A member that an object lacks is read as `null`.  A document that says `null` somewhere
and one that says nothing there are thus told apart by their layers, where both are
missing, but not below (`Hidden`).
-/

namespace Fingerprint

open Json

/-- `ν` are the numbers of `serde_json` up to its `==`: they are finite. -/
structure Difference (ν : Type) where
  field : Str
  baseline : Json ν
  observed : Json ν
deriving DecidableEq

/-- The report, as it is written out. -/
structure Report (ν : Type) where
  schemaVersion : Nat
  pass : Bool
  missingLayers : List Str
  differences : List (Difference ν)
  scope : List Str
deriving DecidableEq

section
variable {ν : Type} [DecidableEq ν]

/-- The last branch of `walk`. -/
def leaf (p : Str) (a b : Json ν) : List (Difference ν) :=
  if a ≠ b then [⟨p, a, b⟩] else []

/-- `format!("{p}/{k}")` -/
def child (p k : Str) : Str := p ++ '/' :: k

def walk (p : Str) : Json ν → Json ν → List (Difference ν)
  | .object ks vs, .object ks' vs' => (ks.union ks').flatMap fun k =>
    match ks.index k with
    | some i => walk (child p k) (vs i) (((object ks' vs').get k).getD .null)
    -- `null` is no object
    | none => leaf (child p k) .null (((object ks' vs').get k).getD .null)
  | a, b => leaf p a b

def differences (a b : Json ν) : List (Difference ν) := walk [] a b

/-- The closure `valid` of `compare`. -/
def valid (v : Json ν) : Bool :=
  match v with
  | .null => false
  | .object ks _ => ks.names.length ≠ 0
  | .array n _ => n ≠ 0
  | _ => true

/-- One pass of the loop over the layers: what is missing and what differs so far. -/
def compareLayer (a b : Json ν) (state : List Str × List (Difference ν)) (layer : Str) :
    List Str × List (Difference ν) :=
  match (a.get layer).filter valid, (b.get layer).filter valid with
  | some x, some y => (state.1, state.2 ++
      (differences x y).map fun d => { d with field := '/' :: layer ++ d.field })
  | _, _ => (state.1 ++ [layer], state.2)

/-- All requested layers must contain actual nonempty observations on both sides. -/
def compare (a b : Json ν) (layers : List Str) : Res (Report ν) := do
  ensure (layers ≠ []) "no layers requested"
  let (missing, diff) := layers.foldl (compareLayer a b) ([], [])
  return {
    schemaVersion := 1
    pass := missing = [] ∧ diff = []
    missingLayers := missing
    differences := diff
    scope := layers }

/-- Two objects, key by key: a member that is not there is read as `null`. -/
theorem walk_object (p : Str) (ks ks' : Keys) (vs : Fin ks.names.length → Json ν)
    (vs' : Fin ks'.names.length → Json ν) :
    walk p (object ks vs) (object ks' vs') = (ks.union ks').flatMap fun k =>
      walk (child p k) (((object ks vs).get k).getD .null) (((object ks' vs').get k).getD .null) := by
  rw [walk]
  congr 1
  funext k
  rw [get_object ks vs]
  cases hk : ks.index k with
  | none => rfl
  | some i => rfl

theorem walk_leaf (p : Str) (a b : Json ν) (h : ¬(a.isObject = true ∧ b.isObject = true)) :
    walk p a b = leaf p a b := by
  cases a with
  | object ks vs =>
    cases b with
    | object ks' vs' => exact absurd ⟨rfl, rfl⟩ h
    | _ => rfl
  | _ => rfl

theorem leaf_eq_nil (p : Str) (a b : Json ν) : leaf p a b = [] ↔ a = b := by
  unfold leaf
  split
  · simp_all
  · simp_all

end

/-! ## What differs -/

section
variable {ν : Type}

/-- Somewhere below, a member that is `null` faces none. -/
inductive Hidden : Json ν → Json ν → Prop where
  | baseline {a b : Json ν} (k : Str) (hb : b.isObject = true) (hk : a.get k = some .null)
      (hnone : b.get k = none) : Hidden a b
  | observed {a b : Json ν} (k : Str) (ha : a.isObject = true) (hk : b.get k = some .null)
      (hnone : a.get k = none) : Hidden a b
  | within {a b x y : Json ν} (k : Str) (hx : a.get k = some x) (hy : b.get k = some y)
      (h : Hidden x y) : Hidden a b

/-- Somewhere below, two values differ that are not both objects, or a member that is not
`null` faces none. -/
inductive Apparent : Json ν → Json ν → Prop where
  | value {a b : Json ν} (h : ¬(a.isObject = true ∧ b.isObject = true)) (hne : a ≠ b) : Apparent a b
  | baseline {a b x : Json ν} (k : Str) (hb : b.isObject = true) (hk : a.get k = some x)
      (hx : x ≠ .null) (hnone : b.get k = none) : Apparent a b
  | observed {a b y : Json ν} (k : Str) (ha : a.isObject = true) (hk : b.get k = some y)
      (hy : y ≠ .null) (hnone : a.get k = none) : Apparent a b
  | within {a b x y : Json ν} (k : Str) (hx : a.get k = some x) (hy : b.get k = some y)
      (h : Apparent x y) : Apparent a b

theorem apparent_leaf_iff {a b : Json ν} (h : ¬(a.isObject = true ∧ b.isObject = true)) :
    Apparent a b ↔ a ≠ b := by
  constructor
  · intro hab
    cases hab with
    | value _ hne => exact hne
    | baseline k hb hk => exact absurd ⟨isObject_of_get hk, hb⟩ h
    | observed k ha hk => exact absurd ⟨ha, isObject_of_get hk⟩ h
    | within k hx hy => exact absurd ⟨isObject_of_get hx, isObject_of_get hy⟩ h
  · exact .value h

/-- Two objects, key by key. -/
theorem apparent_object_iff {a b : Json ν} (ha : a.isObject = true) (hb : b.isObject = true) :
    Apparent a b ↔ ∃ k, Apparent ((a.get k).getD .null) ((b.get k).getD .null) := by
  constructor
  · intro hab
    cases hab with
    | value h _ => exact absurd ⟨ha, hb⟩ h
    | baseline k hb hk hx hnone =>
      refine ⟨k, ?_⟩
      rw [hk, hnone]
      exact (apparent_leaf_iff (by simp [isObject])).2 hx
    | observed k ha hk hy hnone =>
      refine ⟨k, ?_⟩
      rw [hk, hnone]
      exact (apparent_leaf_iff (by simp [isObject])).2 hy.symm
    | within k hx hy h =>
      refine ⟨k, ?_⟩
      rw [hx, hy]
      exact h
  · rintro ⟨k, h⟩
    cases hx : a.get k with
    | none =>
      cases hy : b.get k with
      | none =>
        rw [hx, hy] at h
        exact absurd rfl ((apparent_leaf_iff (by simp [isObject])).1 h)
      | some y =>
        rw [hx, hy] at h
        exact .observed k ha hy ((apparent_leaf_iff (by simp [isObject])).1 h).symm hx
    | some x =>
      cases hy : b.get k with
      | none =>
        rw [hx, hy] at h
        exact .baseline k hb hx ((apparent_leaf_iff (by simp [isObject])).1 h) hy
      | some y =>
        rw [hx, hy] at h
        exact .within k hx hy h

theorem not_apparent_self (a : Json ν) : ¬Apparent a a := by
  induction a with
  | object ks vs ih =>
    rw [apparent_object_iff rfl rfl]
    rintro ⟨k, h⟩
    rw [get_object] at h
    cases hk : ks.index k with
    | none =>
      rw [hk] at h
      exact (apparent_leaf_iff (by simp [isObject])).1 h rfl
    | some i =>
      rw [hk] at h
      exact ih i h
  | _ => exact fun h => (apparent_leaf_iff (by simp [isObject])).1 h rfl

theorem Hidden.isObject {a b : Json ν} (h : Hidden a b) : a.isObject = true ∧ b.isObject = true := by
  cases h with
  | baseline k hb hk => exact ⟨isObject_of_get hk, hb⟩
  | observed k ha hk => exact ⟨ha, isObject_of_get hk⟩
  | within k hx hy => exact ⟨isObject_of_get hx, isObject_of_get hy⟩

theorem not_hidden_self (a : Json ν) : ¬Hidden a a := by
  induction a with
  | object ks vs ih =>
    intro h
    generalize hb : object ks vs = b at h
    cases h with
    | baseline k _ hk hnone => exact absurd (hk.symm.trans hnone) (by simp)
    | observed k _ hk hnone => exact absurd (hk.symm.trans hnone) (by simp)
    | within k hx hy h =>
      obtain rfl := Option.some.inj (hx.symm.trans hy)
      rw [← hb] at hx
      obtain ⟨i, -, rfl⟩ := get_eq_some.1 hx
      exact ih i h
  | _ => exact fun h => absurd h.isObject.1 (by simp [isObject])

/-- Values that differ do so in one of the two ways. -/
theorem eq_of_not_differ {a b : Json ν} (ha : ¬Apparent a b) (hh : ¬Hidden a b) : a = b := by
  induction a generalizing b with
  | object ks vs ih =>
    cases b with
    | object ks' vs' =>
      refine object_ext fun k => ?_
      cases hx : (object ks vs).get k with
      | none =>
        cases hy : (object ks' vs').get k with
        | none => rfl
        | some y =>
          by_cases hnull : y = .null
          · exact (hh (.observed k rfl (hnull ▸ hy) hx)).elim
          · exact (ha (.observed k rfl hy hnull hx)).elim
      | some x =>
        cases hy : (object ks' vs').get k with
        | none =>
          by_cases hnull : x = .null
          · exact (hh (.baseline k rfl (hnull ▸ hx) hy)).elim
          · exact (ha (.baseline k rfl hx hnull hy)).elim
        | some y =>
          obtain ⟨i, -, rfl⟩ := get_eq_some.1 hx
          rw [ih i (fun h => ha (.within k hx hy h)) fun h => hh (.within k hx hy h)]
    | _ => exact by_contra fun hne => ha (.value (by simp [isObject]) hne)
  | _ => exact by_contra fun hne => ha (.value (by simp [isObject]) hne)

/-! ## What passes -/

/-- `v` holds something for the layer: not `null`, `[]` or `{}`. -/
def Holds (v : Json ν) (layer : Str) (x : Json ν) : Prop :=
  v.get layer = some x ∧ x ≠ .null ∧ x ≠ emptyArray ∧ x ≠ emptyObject

theorem valid_iff (x : Json ν) : valid x = true ↔ x ≠ .null ∧ x ≠ emptyArray ∧ x ≠ emptyObject := by
  cases x with
  | array n xs =>
    by_cases hn : n = 0
    · subst hn
      have hx : array 0 xs = emptyArray := array_zero xs
      simp [valid, hx]
    · have hx : array n xs ≠ emptyArray := fun h => hn (by cases h; rfl)
      simp [valid, hn, hx, emptyObject, members]
  | object ks vs =>
    by_cases hk : ks.names = []
    · have hx : object ks vs = emptyObject := object_nil hk
      simp [valid, hk, hx]
    · have hx : object ks vs ≠ emptyObject := fun h => hk (by cases h; rfl)
      simp [valid, hk, hx, emptyArray]
  | _ => simp [valid, emptyArray, emptyObject, members]

theorem filter_valid_iff (v x : Json ν) (layer : Str) :
    (v.get layer).filter valid = some x ↔ Holds v layer x := by
  rw [Option.filter_eq_some_iff, valid_iff]
  rfl

end

section
variable {ν : Type} [DecidableEq ν]

/-- The walk finds what is apparent, and nothing else. -/
theorem walk_eq_nil_iff (p : Str) (a b : Json ν) : walk p a b = [] ↔ ¬Apparent a b := by
  induction a generalizing p b with
  | object ks vs ih =>
    cases b with
    | object ks' vs' =>
      have hkey : ∀ k, walk (child p k) (((object ks vs).get k).getD .null)
          (((object ks' vs').get k).getD .null) = [] ↔
          ¬Apparent (((object ks vs).get k).getD .null) (((object ks' vs').get k).getD .null) := by
        intro k
        rw [get_object ks vs]
        cases hk : ks.index k with
        | some i => exact ih i _ _
        | none =>
          have hnull : ¬((null : Json ν).isObject = true ∧
              (((object ks' vs').get k).getD .null).isObject = true) := by simp [isObject]
          show walk _ .null _ = [] ↔ ¬Apparent .null _
          rw [walk_leaf _ _ _ hnull, leaf_eq_nil, apparent_leaf_iff hnull, not_not]
      rw [walk_object, List.flatMap_eq_nil_iff, apparent_object_iff rfl rfl, not_exists]
      simp only [hkey]
      constructor
      · intro h k hab
        by_cases hk : k ∈ ks.union ks'
        · exact h k hk hab
        · obtain ⟨h1, h2⟩ := not_or.1 (mt (Keys.mem_union ks ks' k).2 hk)
          rw [get_eq_none.2 h1, get_eq_none.2 h2] at hab
          exact not_apparent_self _ hab
      · exact fun h k _ => h k
    | _ =>
      rw [walk_leaf _ _ _ (by simp [isObject]), leaf_eq_nil, apparent_leaf_iff (by simp [isObject]),
        not_not]
  | _ =>
    rw [walk_leaf _ _ _ (by simp [isObject]), leaf_eq_nil, apparent_leaf_iff (by simp [isObject]),
      not_not]

/-- One layer more. -/
theorem compareLayer_clean_iff (a b : Json ν) (state : List Str × List (Difference ν))
    (layer : Str) : compareLayer a b state layer = ([], []) ↔ state = ([], []) ∧
      ∃ x y, Holds a layer x ∧ Holds b layer y ∧ ¬Apparent x y := by
  obtain ⟨missing, diff⟩ := state
  unfold compareLayer
  simp only [← filter_valid_iff]
  cases (a.get layer).filter valid with
  | none => simp
  | some x =>
    cases (b.get layer).filter valid with
    | none => simp
    | some y =>
      have hwalk := walk_eq_nil_iff [] x y
      simp [differences, hwalk, and_assoc]

theorem compareLayers_clean_iff (a b : Json ν) (layers : List Str)
    (state : List Str × List (Difference ν)) :
    layers.foldl (compareLayer a b) state = ([], []) ↔ state = ([], []) ∧
      ∀ layer ∈ layers, ∃ x y, Holds a layer x ∧ Holds b layer y ∧ ¬Apparent x y := by
  induction layers generalizing state with
  | nil => simp
  | cons layer layers ih =>
    rw [List.foldl_cons, ih, compareLayer_clean_iff, List.forall_mem_cons, and_assoc]

/-- The comparison is made, and passes. -/
def Passes (a b : Json ν) (layers : List Str) : Prop :=
  ∃ r, compare a b layers = .ok r ∧ r.pass = true

/-- Both documents hold the same for every layer. -/
def SameEvidence (a b : Json ν) (layers : List Str) : Prop :=
  ∀ layer ∈ layers, ∃ x, Holds a layer x ∧ Holds b layer x

theorem passes_iff (a b : Json ν) (layers : List Str) : Passes a b layers ↔ layers ≠ [] ∧
    ∀ layer ∈ layers, ∃ x y, Holds a layer x ∧ Holds b layer y ∧ ¬Apparent x y := by
  have hclean := compareLayers_clean_iff a b layers ([], [])
  rw [Prod.ext_iff] at hclean
  simp only [true_and] at hclean
  unfold Passes compare
  rw [← hclean]
  constructor
  · rintro ⟨r, hr, hpass⟩
    obtain ⟨_, hne, hr⟩ := (Res.bind_ok_iff _ _ _).1 hr
    cases hr
    exact ⟨(Res.ensure_ok_iff _ _ _).1 hne, of_decide_eq_true hpass⟩
  · rintro ⟨hne, hempty⟩
    exact ⟨_, (Res.bind_ok_iff _ _ _).2 ⟨(), (Res.ensure_ok_iff _ _ _).2 hne, rfl⟩,
      decide_eq_true hempty⟩

/-- **A pass means equal evidence**, unless all that differs in the layers are members that
are `null` on one side and missing on the other. -/
theorem pass_strict_iff (a b : Json ν) (layers : List Str) (hne : layers ≠ []) :
    (Passes a b layers ↔ SameEvidence a b layers) ↔
      (∃ layer ∈ layers, ∀ x y, Holds a layer x → Holds b layer y → Apparent x y) ∨
      ∀ layer ∈ layers, ∀ x y, Holds a layer x → Holds b layer y → ¬Hidden x y := by
  have hsame : SameEvidence a b layers → Passes a b layers := by
    intro h
    refine (passes_iff a b layers).2 ⟨hne, fun layer hmem => ?_⟩
    obtain ⟨x, hx, hy⟩ := h layer hmem
    exact ⟨x, x, hx, hy, not_apparent_self x⟩
  constructor
  · intro h
    by_cases hpass : Passes a b layers
    · -- all is the same, and nothing is hidden
      refine Or.inr fun layer hmem x y hx hy hhid => ?_
      obtain ⟨z, hz, hz'⟩ := h.1 hpass layer hmem
      obtain rfl := Option.some.inj (hx.1.symm.trans hz.1)
      obtain rfl := Option.some.inj (hy.1.symm.trans hz'.1)
      exact not_hidden_self _ hhid
    · rw [passes_iff, not_and] at hpass
      have hlayer := hpass hne
      push Not at hlayer
      exact Or.inl hlayer
  · intro h
    refine ⟨fun hpass layer hmem => ?_, hsame⟩
    have hall := ((passes_iff a b layers).1 hpass).2
    obtain ⟨x, y, hx, hy, hclean⟩ := hall layer hmem
    rcases h with ⟨layer', hmem', hdiff⟩ | hhid
    · obtain ⟨x', y', hx', hy', hclean'⟩ := hall layer' hmem'
      exact absurd (hdiff x' y' hx' hy') hclean'
    · obtain rfl := eq_of_not_differ hclean (hhid layer hmem x y hx hy)
      exact ⟨x, hx, hy⟩

end

/-- `{"tls": {"ja3": "x"}}`, and whether it says `"alpn": null` besides. -/
def tlsOnly (alpn : Bool) : Json Nat :=
  .members [("tls".toList, if alpn then
      .members [("alpn".toList, .null), ("ja3".toList, .string ['x'])] (by decide)
    else .members [("ja3".toList, .string ['x'])] (by decide))] (List.pairwise_singleton _ _)

/-- `{"tls": {"alpn": null, "ja3": "x"}}` matches `{"tls": {"ja3": "x"}}`. -/
theorem pass_not_strict : ¬∀ (a b : Json Nat) (layers : List Str), layers ≠ [] →
    (Passes a b layers ↔ SameEvidence a b layers) := by
  intro h
  have hpass : Passes (tlsOnly true) (tlsOnly false) ["tls".toList] := ⟨_, rfl, by decide +kernel⟩
  obtain ⟨x, hx, hy⟩ := (h _ _ _ (by decide)).1 hpass _ List.mem_cons_self
  exact absurd (hx.1.trans hy.1.symm) (by decide +kernel)

/-- Of two documents that say the same, nothing is hidden. -/
theorem pass_strict_same :
    Passes (tlsOnly true) (tlsOnly true) ["tls".toList] ↔
      SameEvidence (tlsOnly true) (tlsOnly true) ["tls".toList] := by
  refine (pass_strict_iff _ _ _ (by decide)).2 (Or.inr fun layer _ x y hx hy => ?_)
  obtain rfl := Option.some.inj (hx.1.symm.trans hy.1)
  exact not_hidden_self x

end Fingerprint
