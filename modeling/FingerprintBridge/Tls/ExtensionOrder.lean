import FingerprintBridge.Lib.Distinct

/-!
# `src/tls.rs`: the order of the extensions

`extension_order` turns the identifiers of the incoming hello into a permutation
of the backend's table, so that the backend orders nothing by itself.  The
feature `patched-tls` adds three identifiers; `btls`'s `ExtensionType` is a parameter.
-/

namespace Tls

/-- The backend's `kExtensions`, with `patched-tls` or without. -/
def BACKEND_EXTENSIONS (patched : Bool) : List UInt16 :=
  [0, 65037, 23] ++ (if patched then [22] else []) ++ [65281, 10, 11, 35, 16, 5] ++
    (if patched then [17] else []) ++ [13] ++ (if patched then [50] else []) ++
    [13172, 18, 30032, 14, 51, 45, 42, 43, 44, 57, 65445, 27, 34, 17613, 17513, 47, 35387, 51764, 28]

/-- One pass of the loop. -/
def orderStep (patched : Bool) (order : List UInt16) (id : UInt16) : List UInt16 :=
  if (BACKEND_EXTENSIONS patched).contains id && !order.contains id then order ++ [id] else order

/-- `order` after the loop. -/
def orderIds (patched : Bool) (incoming : List UInt16) : List UInt16 :=
  (incoming ++ BACKEND_EXTENSIONS patched).foldl (orderStep patched) []

def extensionOrder {ExtensionType : Type} (ofId : UInt16 → ExtensionType) (patched : Bool)
    (incoming : List UInt16) : List ExtensionType :=
  (orderIds patched incoming).map ofId

/-! ## The loop keeps first places -/

theorem backendExtensions_nodup (patched : Bool) : (BACKEND_EXTENSIONS patched).Nodup := by
  cases patched with
  | false => decide +kernel
  | true => decide +kernel

theorem orderStep_eq (patched : Bool) (order : List UInt16) (id : UInt16) :
    orderStep patched order id =
      if (BACKEND_EXTENSIONS patched).contains id then pushNew order id else order := by
  unfold orderStep pushNew
  by_cases hid : id ∈ BACKEND_EXTENSIONS patched
  · by_cases ho : id ∈ order
    · simp [hid, ho]
    · simp [hid, ho]
  · simp [hid]

theorem orderLoop_eq (patched : Bool) (l : List UInt16) :
    l.foldl (orderStep patched) [] =
      (l.filter (BACKEND_EXTENSIONS patched).contains).eraseDups := by
  have hstep : orderStep patched = fun order id =>
      if (BACKEND_EXTENSIONS patched).contains id then pushNew order id else order := by
    funext order id
    exact orderStep_eq patched order id
  rw [hstep, ← List.foldl_filter]
  exact foldl_pushNew _ []

/-- The identifiers of the table that the client offers, then the others. -/
theorem orderIds_eq (patched : Bool) (incoming : List UInt16) :
    orderIds patched incoming =
      incoming.eraseDups.filter (BACKEND_EXTENSIONS patched).contains ++
        (BACKEND_EXTENSIONS patched).filter fun id => !incoming.contains id := by
  have hall : (BACKEND_EXTENSIONS patched).filter (BACKEND_EXTENSIONS patched).contains =
      BACKEND_EXTENSIONS patched :=
    List.filter_eq_self.2 fun id hid => List.contains_iff_mem.2 hid
  -- what is removed from the table are the identifiers pushed before
  have hrest : (BACKEND_EXTENSIONS patched).removeAll
      (incoming.filter (BACKEND_EXTENSIONS patched).contains) =
      (BACKEND_EXTENSIONS patched).filter fun id => !incoming.contains id := by
    refine List.filter_congr fun id hid => ?_
    by_cases hin : id ∈ incoming
    · simp [hid, hin]
    · simp [hin]
  unfold orderIds
  rw [orderLoop_eq, List.filter_append, hall, List.eraseDups_append, eraseDups_filter, hrest,
    eraseDups_of_nodup _ ((backendExtensions_nodup patched).filter _)]

theorem mem_orderIds (patched : Bool) (incoming : List UInt16) (id : UInt16) :
    id ∈ orderIds patched incoming ↔ id ∈ BACKEND_EXTENSIONS patched := by
  rw [orderIds_eq]
  by_cases hin : id ∈ incoming
  · simp [hin]
  · simp [hin]

theorem orderIds_nodup (patched : Bool) (incoming : List UInt16) :
    (orderIds patched incoming).Nodup := by
  unfold orderIds
  rw [orderLoop_eq]
  exact eraseDups_nodup _

/-- **A complete permutation.**  Every identifier of the table comes exactly once and nothing else
does: first those the client offers, by the place where it first offers them, then the others as
they stand in the table. -/
theorem extensionOrder_complete {ExtensionType : Type} (ofId : UInt16 → ExtensionType)
    (patched : Bool) (incoming : List UInt16) :
    extensionOrder ofId patched incoming = (orderIds patched incoming).map ofId ∧
      (orderIds patched incoming).Nodup ∧
      (orderIds patched incoming).Perm (BACKEND_EXTENSIONS patched) ∧
      ∃ offered rest, orderIds patched incoming = offered ++ rest ∧
        (∀ id, id ∈ offered ↔ id ∈ incoming ∧ id ∈ BACKEND_EXTENSIONS patched) ∧
        offered.Pairwise (fun a b => incoming.idxOf a < incoming.idxOf b) ∧
        (∀ id, id ∈ rest ↔ id ∉ incoming ∧ id ∈ BACKEND_EXTENSIONS patched) ∧
        rest.Pairwise
          (fun a b => (BACKEND_EXTENSIONS patched).idxOf a < (BACKEND_EXTENSIONS patched).idxOf b) := by
  have hnodup := orderIds_nodup patched incoming
  have htable := eraseDups_pairwise (BACKEND_EXTENSIONS patched)
  rw [eraseDups_of_nodup _ (backendExtensions_nodup patched)] at htable
  refine ⟨rfl, hnodup, ?_, _, _, orderIds_eq patched incoming, fun id => ?_,
    (eraseDups_pairwise incoming).filter _, fun id => ?_, htable.filter _⟩
  · exact (List.perm_ext_iff_of_nodup hnodup (backendExtensions_nodup patched)).2
      (mem_orderIds patched incoming)
  · simp
  · simp [and_comm]

/-- A hello with a repeated, an unknown and a GREASE identifier. -/
example : (orderIds false [2570, 51, 10, 4, 51]).take 4 = [51, 10, 0, 65037] := by decide +kernel

end Tls
