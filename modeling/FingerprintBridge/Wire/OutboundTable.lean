import FingerprintBridge.Wire.HpackWire

/-!
# The outbound table is a dynamic table

`Agrees t T`: the fields of `t` are the receiver's table `T`.  Eviction, insertion
and size updates keep agreement and never panic, and `find` answers with an index
that looks up a matching header.
-/

namespace HpackWire

open Hpack

variable {D : HpackCrate}

/-- The entries, the size and the limit of `t` are those of `T`. -/
structure Agrees (t : Table D) (T : DynamicTable) : Prop where
  entries : t.entries = T.entries
  size : t.size = tableSize T.entries
  limit : t.limit = T.max

theorem agrees_new : Agrees (D := D) { entries := [], size := 0, limit := 4096 } .init :=
  ⟨rfl, rfl, rfl⟩

namespace Table

theorem staticTable_length (D : HpackCrate) : D.staticTable.length = 61 := by
  simp [HpackCrate.staticTable]

/-! ## Eviction -/

/-- Popping from the end keeps the longest newest-first prefix that fits. -/
theorem evictLoop_eq (limit : Nat) (oldest : List Header) :
    evictLoop limit oldest (tableSize oldest.reverse) =
      .ok ((fit limit oldest.reverse).reverse, tableSize (fit limit oldest.reverse)) := by
  induction oldest with
  | nil => simp [evictLoop, tableSize, fit]
  | cons h rest ih =>
    obtain ⟨n, v⟩ := h
    have hsize : tableSize ((n, v) :: rest).reverse =
        tableSize rest.reverse + (n.length + v.length + 32) := by
      rw [List.reverse_cons, tableSize_append]
      simp [tableSize, headerSize]
    unfold evictLoop
    split
    · next hlt =>
      rw [if_pos (by omega), hsize, Nat.add_sub_cancel, ih]
      rw [List.reverse_cons] at hlt ⊢
      rw [fit_dropLast _ _ _ hlt]
    · next hle =>
      rw [fit_of_le _ _ (by omega), List.reverse_reverse]

theorem evict_eq (t : Table D) (h : t.size = tableSize t.entries) :
    evict t = .ok { t with entries := fit t.limit t.entries
                           size := tableSize (fit t.limit t.entries) } := by
  unfold evict
  have := evictLoop_eq t.limit t.entries.reverse
  rw [List.reverse_reverse, ← h] at this
  rw [this]
  simp [bind, Except.bind, pure, Except.pure]

theorem insert_eq (t : Table D) (T : DynamicTable) (ha : Agrees t T) (h : Header) :
    ∃ t', t.insert h = .ok t' ∧ Agrees t' (T.insert h) := by
  unfold insert
  refine ⟨_, evict_eq _ ?_, ?_, ?_, ?_⟩
  · simp only [tableSize, headerSize, ha.size, ha.entries]
    omega
  · simp [DynamicTable.insert, ha.entries, ha.limit]
  · simp [DynamicTable.insert, ha.entries, ha.limit]
  · simp [DynamicTable.insert, ha.limit]

theorem resize_eq (t : Table D) (T : DynamicTable) (ha : Agrees t T) (n : Nat) :
    ∃ t', evict (D := D) { t with limit := n } = .ok t' ∧ Agrees t' (T.resize n) := by
  refine ⟨_, evict_eq _ ?_, ?_, ?_, ?_⟩
  · simp only [ha.size, ha.entries]
  · simp [DynamicTable.resize, ha.entries]
  · simp [DynamicTable.resize, ha.entries]
  · simp [DynamicTable.resize]

/-! ## Lookup -/

/-- Where the static part is that of RFC 7541, an index means what it does there. -/
theorem get_eq_lookup (hD : D.staticTable = appendixA) (t : Table D) (T : DynamicTable)
    (ha : Agrees t T) (i : Nat) : t.get i = lookup rfc7541 T i := by
  have hlen := staticTable_length D
  unfold get lookup
  split
  · rfl
  · next hi =>
    show _ = (appendixA ++ T.entries)[i - 1]?
    rw [← hD]
    split
    · next h61 => rw [List.getElem?_append_left (by omega)]
    · next h61 =>
      rw [List.getElem?_append_right (by omega), hlen, ha.entries]
      congr 1

theorem get_eq_getElem? (t : Table D) (i : Nat) :
    t.get (i + 1) = (D.staticTable ++ t.entries)[i]? := by
  have hlen := staticTable_length D
  unfold get
  rw [if_neg (by omega)]
  split
  · next h61 => rw [List.getElem?_append_left (by omega)]; rfl
  · next h61 =>
    rw [List.getElem?_append_right (by omega), hlen]
    congr 1

theorem find_preferred (t : Table D) (p : Nat) (name : Bytes) (value : Option Bytes) (h : Header)
    (hg : t.get p = some h) (hh : hit name value h = true) : t.find p name value = p := by
  unfold find
  rw [hg, Option.any_some, hh, if_pos rfl]

/-- A nonzero answer looks up a match. -/
theorem find_get (t : Table D) (p : Nat) (name : Bytes) (value : Option Bytes)
    (hne : t.find p name value ≠ 0) :
    ∃ h, t.get (t.find p name value) = some h ∧ hit name value h = true := by
  unfold find at hne ⊢
  split
  · next hp =>
    cases hg : t.get p with
    | none => rw [hg] at hp; cases hp
    | some h => exact ⟨h, rfl, by rw [hg] at hp; exact hp⟩
  · next hp =>
    rw [if_neg hp] at hne
    cases hf : (D.staticTable ++ t.entries).findIdx? (hit name value) with
    | none => rw [hf] at hne; exact absurd rfl hne
    | some i =>
      obtain ⟨hi, hm, -⟩ := List.findIdx?_eq_some_iff_getElem.1 hf
      refine ⟨(D.staticTable ++ t.entries)[i], ?_, hm⟩
      simp only
      rw [get_eq_getElem?, List.getElem?_eq_getElem hi]

theorem hit_none (name : Bytes) (h : Header) : hit name none h = true ↔ h.1 = name := by
  simp [hit]

theorem hit_some (name v : Bytes) (h : Header) : hit name (some v) h = true ↔ h = (name, v) := by
  obtain ⟨n, w⟩ := h
  simp [hit]

end Table

end HpackWire
