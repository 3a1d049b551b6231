import FingerprintBridge.H2.Channel

/-!
# Flow control through the bridge

The bridge keeps no windows: it passes DATA, WINDOW_UPDATE and SETTINGS frames on.  The
peers keep windows against each other (RFC 9113 §5.2), each with what it has seen of the
other, while frames of both are on the way and header groups between them change.  Whoever
keeps to the windows it has seen is received within the windows that were granted
(`windows_kept`).
-/

namespace H2

open HpackWire Hpack Relay

/-! ## Windows -/

/-- The flow-control window of the connection or of a stream. -/
inductive Window where
  | connection
  | stream (id : UInt32)

namespace Window

/-- The stream id without the reserved bit. -/
def streamId (f : Frame) : UInt32 := f.stream &&& 0x7fffffff

def covers : Window → Frame → Bool
  | connection, _ => true
  | stream id, f => streamId f = id

/-- All of the payload of a DATA frame counts, the padding too. -/
def dataLength (f : Frame) : Nat := if f.kind = 0 then f.payload.length else 0

/-- The 31-bit increment of a WINDOW_UPDATE frame. -/
def increment (f : Frame) : Nat :=
  match f.payload with
  | [a, b, c, d] => if f.kind = 8 then (fromBeBytes a b c d &&& 0x7fffffff).toNat else 0
  | _ => 0

/-- The window that a frame updates. -/
def updates : Window → Frame → Bool
  | connection, f => streamId f = 0
  | stream id, f => streamId f = id

/-- `SETTINGS_INITIAL_WINDOW_SIZE` sizes the windows of streams, also those that exist. -/
def initial : Window → List Frame → Nat
  | connection, _ => 65535
  | stream _, fs => lastSetting 4 65535 (settingsIn fs)

/-- Payloads of DATA are paid for out of what the other peer's frames allow. -/
def account (w : Window) : Account Frame where
  cost f := if w.covers f then dataLength f else 0
  credit fs := w.initial fs + ((fs.filter w.updates).map increment).sum

end Window

/-- Not a part of a header group. -/
def unchanged (f : Frame) : Bool := f.kind ≠ 1 && f.kind ≠ 9

theorem settingsIn_unchanged (fs : List Frame) : settingsIn (fs.filter unchanged) = settingsIn fs := by
  refine settingsIn_filter unchanged (fun f h4 => ?_) fs
  rw [unchanged, h4]
  decide

theorem increment_of_ne (f : Frame) (h : f.kind ≠ 8) : Window.increment f = 0 := by
  unfold Window.increment
  split
  · rw [if_neg h]
  · rfl

theorem increments_unchanged (w : Window) (fs : List Frame) :
    (((fs.filter unchanged).filter w.updates).map Window.increment).sum =
      ((fs.filter w.updates).map Window.increment).sum := by
  induction fs with
  | nil => rfl
  | cons f fs ih =>
    by_cases hf : unchanged f = true
    · rw [List.filter_cons_of_pos hf]
      by_cases hw : w.updates f = true
      · rw [List.filter_cons_of_pos hw, List.filter_cons_of_pos hw, List.map_cons, List.map_cons,
          List.sum_cons, List.sum_cons, ih]
      · rw [List.filter_cons_of_neg hw, List.filter_cons_of_neg hw, ih]
    · have hne : f.kind ≠ 8 := by
        intro h8
        rw [unchanged, h8] at hf
        exact hf (by decide)
      rw [List.filter_cons_of_neg hf, ih]
      by_cases hw : w.updates f = true
      · rw [List.filter_cons_of_pos hw, List.map_cons, List.sum_cons, increment_of_ne f hne,
          Nat.zero_add]
      · rw [List.filter_cons_of_neg hw]

/-- Windows live in the frames that the bridge does not change. -/
theorem Window.visible (w : Window) : w.account.Visible unchanged := by
  refine ⟨fun f hf => ?_, fun xs ys h => ?_⟩
  · have hne : f.kind ≠ 0 := by
      intro h0
      rw [unchanged, h0] at hf
      exact absurd hf (by decide)
    show (if w.covers f = true then dataLength f else 0) = 0
    rw [dataLength, if_neg hne, ite_self]
  · show w.initial xs + _ = w.initial ys + _
    rw [← increments_unchanged w xs, ← increments_unchanged w ys, h]
    cases w with
    | connection => rfl
    | stream id => rw [initial, initial, ← settingsIn_unchanged xs, h, settingsIn_unchanged]

/-! ## What the bridge does not change -/

section
variable {D : HpackCrate} {U : UrlCrate} {m : Mapping U}

theorem Conveyed.unchanged {r : Bool} {xs ys : List Item} {st : HeaderRewriter D}
    (h : Conveyed m r xs ys st) :
    (ys.flatMap Item.frames).filter unchanged = (xs.flatMap Item.frames).filter unchanged := by
  induction h with
  | nil => rfl
  | snoc limits x y _ _ hp ih =>
    rw [List.flatMap_append, List.flatMap_append, List.filter_append, List.filter_append, ih,
      List.flatMap_singleton, List.flatMap_singleton]
    congr 1
    refine hp.kept _ fun f hf => ?_
    rcases hf with hf | hf
    · rw [H2.unchanged, hf]
      decide
    · rw [H2.unchanged, hf]
      decide

/-- The frames of the items that a peer has sent. -/
def Peer.frames (p : Peer) : List Frame := (p.sent.map (List.map Sending.frame)).flatten

/-- The frames that a peer has sent, and what it had received when it sent them. -/
def Peer.log (p : Peer) : Log Frame := p.sent.flatten.map fun q => (q.seen, q.frame)

theorem Peer.log_frames (p : Peer) : p.log.map Prod.snd = p.frames := by
  unfold log frames
  rw [List.map_map, List.map_flatten]
  rfl

theorem Reaches.shows {w : World D} (h : Reaches m w) (r : Bool) :
    Shows unchanged (w.peer (!r)).received (w.peer r).frames := by
  obtain ⟨xs, ys, st, read, waiting, hc, -, -, hr, hsent, hread, -⟩ := h.conveys r
  refine (hr.filter _).trans ?_
  rw [hc.unchanged, Peer.frames, hsent, List.map_append, hread, List.flatten_append,
    ← List.flatMap_def, List.filter_append]
  exact List.prefix_append _ _

/-- Where nothing is on the way, all of it has been shown. -/
theorem Reaches.shown {w : World D} (h : Reaches m w) (r : Bool) (hq : Quiet w r) :
    (w.peer (!r)).received.filter H2.unchanged = (w.peer r).frames.filter H2.unchanged := by
  obtain ⟨xs, ys, st, read, waiting, hc, -, hw, hr, hsent, hread, hin⟩ := h.conveys r
  obtain ⟨rfl, hall⟩ := h.quiet hq hw hr hsent hin
  rw [hall, hc.unchanged, Peer.frames, hsent, List.append_nil, hread, ← List.flatMap_def]

end

/-- **Flow control passes through.**  A peer whose DATA keeps to the windows it has seen is
received within windows that the other peer has granted, of the connection and of the
stream; and if nothing is on the way back, it has seen all that were granted. -/
theorem windows_kept (D : HpackCrate) (U : UrlCrate) (m : Mapping U) (w : World D)
    (h : Reaches m w) (r : Bool) (hkeeps : ∀ i : Window, Keeps i.account (w.peer r).log) :
    (∀ before f after, (w.peer (!r)).received = before ++ f :: after → f.kind = 0 →
      f.payload ≠ [] → ∃ granted, granted <+: (w.peer (!r)).frames ∧
        ∀ i : Window, i.covers f = true →
          i.account.spent (before ++ [f]) ≤ i.account.credit granted) ∧
    (Quiet w (!r) → ∀ i : Window,
      i.account.credit (w.peer r).received = i.account.credit (w.peer (!r)).frames) := by
  constructor
  · intro before f after heq hkind hpayload
    have hvisible : unchanged f = true := by
      rw [unchanged, hkind]
      decide
    have hseen : ∀ e ∈ (w.peer r).log, Shows unchanged e.1 (w.peer (!r)).frames := by
      intro e he
      obtain ⟨q, hq, rfl⟩ := List.mem_map.1 he
      obtain ⟨s, hs, hqs⟩ := List.mem_flatten.1 hq
      have hshows := h.shows (!r)
      rw [Bool.not_not] at hshows
      exact hshows.earlier ((h.inv.legal r).sent s hs q hqs).2
    have hreceived : Shows unchanged (w.peer (!r)).received ((w.peer r).log.map Prod.snd) := by
      rw [Peer.log_frames]
      exact h.shows r
    obtain ⟨granted, hgranted, hall⟩ :=
      Keeps.received Window.visible hkeeps hseen hreceived before f after heq hvisible
    refine ⟨granted, hgranted, fun i hi => hall i ?_⟩
    show (if i.covers f = true then Window.dataLength f else 0) ≠ 0
    rw [if_pos hi, Window.dataLength, if_pos hkind]
    exact fun hlen => hpayload (List.length_eq_zero_iff.1 hlen)
  · intro hq i
    have hshown := h.shown (!r) hq
    rw [Bool.not_not] at hshown
    exact i.visible.credit _ _ hshown

/-! ## A body -/

/-- `plainRequest`, with a body to come. -/
def posted : Frame := { plainRequest with flags := 4 }

def postedForwarded : Frame := { plainForwarded with flags := 4 }

/-- The body. -/
def body : Frame := { kind := 0, flags := 1, stream := 1, payload := ascii "body" }

/-- The client has sent a body, and the origin has received it. -/
def uploaded : World boundedCrate :=
  let asked := (((prefaced.send false posted).whole false).poll sampleMapping false).drain false
  let sent := (((asked.send false body).whole false).poll sampleMapping false).drain false
  (sent.receive true postedForwarded).receive true body

theorem uploaded_reached : Reaches sampleMapping uploaded := by
  have h1 := (Reaches.deliver prefaced_reached false posted rfl
    (obeys_initial _ (by decide) (by decide))
    (whole_headers ⟨rfl, fun f hf => (by cases hf), by decide⟩ (by decide) (by decide +kernel))).tail
    (.poll false (by decide +kernel))
  have h2 := (Reaches.deliver (Reaches.drain h1 false (by decide +kernel)) false body rfl
    (obeys_initial _ (by decide) (by decide)) (whole_single _ (by decide))).tail
    (.poll false (by decide +kernel))
  refine Relation.ReflTransGen.tail (Relation.ReflTransGen.tail
    (Reaches.drain h2 false (by decide +kernel)) (.receive true postedForwarded ?_ ?_))
    (.receive true body ?_ ?_)
  · show postedForwarded.payload.length < 2 ^ 24
    decide
  · decide +kernel
  · show body.payload.length < 2 ^ 24
    decide
  · decide +kernel

/-- The four octets are within the initial windows. -/
theorem uploaded_keeps (i : Window) : Keeps i.account (uploaded.peer false).log := by
  have hlog : (uploaded.peer false).log = [([], posted), ([], body)] := rfl
  have hcredit : 65535 ≤ i.account.credit [] := by
    cases i with
    | connection => decide
    | stream id => exact Nat.le_refl _
  intro before seen a after heq hcost
  rw [hlog] at heq
  have hseen : seen = [] := by
    have hmem : (seen, a) ∈ [([], posted), ([], body)] := by
      rw [heq]
      exact List.mem_append_right _ List.mem_cons_self
    simp only [List.mem_cons, Prod.mk.injEq, List.not_mem_nil, or_false] at hmem
    rcases hmem with ⟨hs, -⟩ | ⟨hs, -⟩
    · exact hs
    · exact hs
  subst hseen
  refine Nat.le_trans ?_ hcredit
  have hsub : (before.map Prod.snd ++ [a]) <+: [posted, body] := by
    refine ⟨after.map Prod.snd, ?_⟩
    have := congrArg (List.map Prod.snd) heq
    simpa using this.symm
  have hle : ∀ xs ys : List Frame, xs <+: ys → i.account.spent xs ≤ i.account.spent ys := by
    rintro xs ys ⟨zs, rfl⟩
    rw [Account.spent_append]
    omega
  refine Nat.le_trans (hle _ _ hsub) ?_
  show (if i.covers posted = true then Window.dataLength posted else 0) +
    ((if i.covers body = true then Window.dataLength body else 0) + 0) ≤ 65535
  have h1 : Window.dataLength posted = 0 := by decide
  have h2 : Window.dataLength body = 4 := by decide
  rw [h1, h2]
  split <;> split <;> omega

theorem windows_kept_uploaded :
    (∀ before f after, (uploaded.peer true).received = before ++ f :: after → f.kind = 0 →
      f.payload ≠ [] → ∃ granted, granted <+: (uploaded.peer true).frames ∧
        ∀ i : Window, i.covers f = true →
          i.account.spent (before ++ [f]) ≤ i.account.credit granted) ∧
    (Quiet uploaded true → ∀ i : Window,
      i.account.credit (uploaded.peer false).received = i.account.credit (uploaded.peer true).frames) :=
  windows_kept boundedCrate _ sampleMapping uploaded uploaded_reached false uploaded_keeps

end H2
