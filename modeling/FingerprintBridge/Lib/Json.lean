import FingerprintBridge.Lib.Text
import Mathlib.Data.Char
import Mathlib.Data.List.Dedup
import Mathlib.Data.List.Lex
import Mathlib.Data.List.Sort

/-!
# JSON values

An object is a family of values over an increasing list of keys (`Keys`), so that no key
stands twice and members have no order of their own: two objects are the same if they have
the same members (`Json.object_ext`).  Numbers are left open.
-/

/-- The keys of an object, as an ordered map lists them. -/
structure Keys where
  names : List Str
  increasing : names.Pairwise (· < ·)
deriving DecidableEq, Repr

namespace Keys

def index (ks : Keys) (k : Str) : Option (Fin ks.names.length) := ks.names.finIdxOf? k

theorem index_eq_none (ks : Keys) (k : Str) : ks.index k = none ↔ k ∉ ks.names :=
  List.finIdxOf?_eq_none_iff

theorem nodup (ks : Keys) : ks.names.Nodup := ks.increasing.imp fun h => ne_of_lt h

theorem index_eq_some (ks : Keys) (k : Str) (i : Fin ks.names.length) :
    ks.index k = some i ↔ ks.names.get i = k := by
  unfold index
  rw [List.finIdxOf?_eq_some_iff]
  constructor
  · rintro ⟨h, -⟩
    exact h
  · intro h
    refine ⟨h, fun j hj heq => ?_⟩
    have hij : j = i := ks.nodup.injective_get (heq.trans h.symm)
    exact absurd hj (by rw [hij]; exact lt_irrefl _)

/-- Keys are told apart by what is among them. -/
theorem ext_mem {ks ks' : Keys} (h : ∀ k, k ∈ ks.names ↔ k ∈ ks'.names) : ks = ks' := by
  obtain ⟨names, hn⟩ := ks
  obtain ⟨names', hn'⟩ := ks'
  obtain rfl : names = names' := hn.eq_of_mem_iff hn' h
  rfl

/-- All keys of both, each once and in order. -/
def union (ks ks' : Keys) : List Str := (ks.names ++ ks'.names).dedup.insertionSort (· ≤ ·)

theorem mem_union (ks ks' : Keys) (k : Str) : k ∈ ks.union ks' ↔ k ∈ ks.names ∨ k ∈ ks'.names := by
  unfold union
  rw [List.mem_insertionSort, List.mem_dedup, List.mem_append]

end Keys

inductive Json (ν : Type) where
  | null
  | bool (b : Bool)
  | number (n : ν)
  | string (s : Str)
  | array (n : Nat) (items : Fin n → Json ν)
  | object (keys : Keys) (values : Fin keys.names.length → Json ν)

namespace Json

variable {ν : Type}

/-- The object with these members. -/
def members (ms : List (Str × Json ν)) (h : (ms.map Prod.fst).Pairwise (· < ·)) : Json ν :=
  .object ⟨ms.map Prod.fst, h⟩ fun i => (ms.get (i.cast (List.length_map _))).2

/-- The value of a member; there is none in what is not an object. -/
def get : Json ν → Str → Option (Json ν)
  | .object ks vs, k => (ks.index k).map vs
  | _, _ => none

theorem get_object (ks : Keys) (vs : Fin ks.names.length → Json ν) (k : Str) :
    (object ks vs).get k = (ks.index k).map vs := rfl

def isObject : Json ν → Bool
  | .object _ _ => true
  | _ => false

theorem isObject_of_get {a x : Json ν} {k : Str} (h : a.get k = some x) : a.isObject = true := by
  cases a with
  | object ks vs => rfl
  | _ => cases h

theorem get_eq_some {ks : Keys} {vs : Fin ks.names.length → Json ν} {k : Str} {x : Json ν} :
    (object ks vs).get k = some x ↔ ∃ i, ks.names.get i = k ∧ vs i = x := by
  simp only [get, Option.map_eq_some_iff, Keys.index_eq_some]

theorem get_eq_none {ks : Keys} {vs : Fin ks.names.length → Json ν} {k : Str} :
    (object ks vs).get k = none ↔ k ∉ ks.names := by
  simp only [get, Option.map_eq_none_iff, Keys.index_eq_none]

/-- Objects with the same members are the same. -/
theorem object_ext {ks ks' : Keys} {vs : Fin ks.names.length → Json ν}
    {vs' : Fin ks'.names.length → Json ν}
    (h : ∀ k, (object ks vs).get k = (object ks' vs').get k) : object ks vs = object ks' vs' := by
  have hks : ks = ks' := Keys.ext_mem fun k => by
    have hnone : (object ks vs).get k = none ↔ (object ks' vs').get k = none := by rw [h k]
    rw [get_eq_none, get_eq_none] at hnone
    exact not_iff_not.1 hnone
  subst hks
  have hvs : vs = vs' := by
    funext i
    have hi : (object ks vs).get (ks.names.get i) = some (vs i) := get_eq_some.2 ⟨i, rfl, rfl⟩
    rw [h] at hi
    obtain ⟨j, hj, hv⟩ := get_eq_some.1 hi
    rw [← hv, ks.nodup.injective_get hj]
  rw [hvs]

/-- The array of these items. -/
def ofList (items : List (Json ν)) : Json ν := .array items.length items.get

def emptyArray : Json ν := .array 0 Fin.elim0

def emptyObject : Json ν := members [] .nil

theorem array_zero (xs : Fin 0 → Json ν) : array 0 xs = emptyArray :=
  congrArg (array 0) (funext fun i => i.elim0)

theorem object_nil {ks : Keys} {vs : Fin ks.names.length → Json ν} (h : ks.names = []) :
    object ks vs = emptyObject := by
  refine object_ext fun k => ?_
  rw [get_eq_none.2 (by simp [h])]
  exact (get_eq_none.2 List.not_mem_nil).symm

section
variable [DecidableEq ν]

/-- Equality, member by member. -/
def beq : Json ν → Json ν → Bool
  | .null, .null => true
  | .bool a, .bool b => a == b
  | .number a, .number b => a == b
  | .string a, .string b => a == b
  | .array n xs, .array m ys =>
    if h : n = m then (List.finRange n).all fun i => beq (xs i) (ys (i.cast h)) else false
  | .object ks xs, .object ks' ys =>
    if h : ks = ks' then
      (List.finRange _).all fun i => beq (xs i) (ys (i.cast (congrArg (·.names.length) h)))
    else false
  | _, _ => false

theorem beq_iff (a b : Json ν) : beq a b = true ↔ a = b := by
  induction a generalizing b with
  | null => cases b <;> simp [beq]
  | bool x => cases b <;> simp [beq]
  | number x => cases b <;> simp [beq]
  | string x => cases b <;> simp [beq]
  | array n xs ih =>
    cases b with
    | array m ys =>
      by_cases h : n = m
      · subst h
        simp [beq, ih, funext_iff]
      · simp [beq, h]
    | _ => simp [beq]
  | object ks xs ih =>
    cases b with
    | object ks' ys =>
      by_cases h : ks = ks'
      · subst h
        simp [beq, ih, funext_iff]
      · simp [beq, h]
    | _ => simp [beq]

instance : DecidableEq (Json ν) := fun a b => decidable_of_iff _ (beq_iff a b)

end

end Json
