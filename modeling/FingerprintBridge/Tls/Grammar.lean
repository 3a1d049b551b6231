import FingerprintBridge.Tls.Hello

/-!
# The grammar of a ClientHello

What the parser takes: words, vectors and entries one after the other (`Layout`).  Each
part of the parser has the octets it takes, and what it makes of them, as its lemma.
-/

namespace Tls

open Reader

/-! ## Words -/

theorem pairs_flatMap (xs : List UInt16) : pairs (xs.flatMap be16) = xs := by
  induction xs with
  | nil => rfl
  | cons x xs ih =>
    show fromBeBytes _ _ :: pairs (xs.flatMap be16) = _
    rw [fromBeBytes_be16, ih]

theorem flatMap_pairs (b : Bytes) (h : b.length % 2 = 0) : (pairs b).flatMap be16 = b := by
  match b with
  | [] => rfl
  | [_] => simp at h
  | x :: y :: b =>
    have hb : b.length % 2 = 0 := by
      simp only [List.length_cons] at h
      omega
    unfold pairs
    rw [List.flatMap_cons, be16_fromBeBytes, flatMap_pairs b hb]
    rfl

theorem flatMap_be16_length (xs : List UInt16) : (xs.flatMap be16).length = 2 * xs.length := by
  induction xs with
  | nil => rfl
  | cons x xs ih =>
    rw [List.flatMap_cons, List.length_append, ih, List.length_cons]
    show 2 + _ = _
    omega

theorem words_ok_iff (b : Bytes) (ws : List UInt16) :
    words b = .ok ws ↔ ∃ xs : List UInt16, b = xs.flatMap be16 ∧ ws = xs.map normalize := by
  unfold words
  rw [Res.bind_ok_iff]
  simp only [Res.ensure_ok_iff]
  constructor
  · rintro ⟨_, heven, hw⟩
    cases hw
    exact ⟨pairs b, (flatMap_pairs b heven).symm, rfl⟩
  · rintro ⟨xs, rfl, rfl⟩
    refine ⟨(), ?_, ?_⟩
    · rw [flatMap_be16_length]
      omega
    · rw [pairs_flatMap]
      rfl

section
variable {v : Reader Bytes} {limit : Nat} {vec : Bytes → Bytes}
  (hv : Parses v (fun a w => a.length < limit ∧ w = vec a))

include hv

theorem parses_words : Parses (do words (← v)) (fun ws w => ∃ xs : List UInt16,
    (xs.flatMap be16).length < limit ∧ w = vec (xs.flatMap be16) ∧ ws = xs.map normalize) := by
  refine (parses_bind hv fun b => parses_lift (words b)).congr fun ws w => ?_
  constructor
  · rintro ⟨b, u, v, rfl, ⟨hlen, rfl⟩, hw, rfl⟩
    obtain ⟨xs, rfl, rfl⟩ := (words_ok_iff b ws).1 hw
    exact ⟨xs, hlen, List.append_nil _, rfl⟩
  · rintro ⟨xs, hlen, rfl, rfl⟩
    exact ⟨_, _, [], (List.append_nil _).symm, ⟨hlen, rfl⟩, (words_ok_iff _ _).2 ⟨xs, rfl, rfl⟩, rfl⟩

theorem run_words_iff (raw : Bytes) (ws : List UInt16) :
    run (do let ws ← words (← v); done; return ws) raw = .ok ws ↔ ∃ xs : List UInt16,
      (xs.flatMap be16).length < limit ∧ raw = vec (xs.flatMap be16) ∧ ws = xs.map normalize := by
  rw [← bind_assoc, run_done_iff (parses_words hv)]
  constructor
  · rintro ⟨a, h, hr⟩
    cases hr
    exact h
  · rintro h
    exact ⟨ws, h, rfl⟩

end

theorem wordList16_ok_iff (raw : Bytes) (ws : List UInt16) : wordList16 raw = .ok ws ↔
    ∃ xs : List UInt16, (xs.flatMap be16).length < 65536 ∧ raw = vec16 (xs.flatMap be16) ∧
      ws = xs.map normalize :=
  run_words_iff parses_v16 raw ws

theorem wordList8_ok_iff (raw : Bytes) (ws : List UInt16) : wordList8 raw = .ok ws ↔
    ∃ xs : List UInt16, (xs.flatMap be16).length < 256 ∧ raw = vec8 (xs.flatMap be16) ∧
      ws = xs.map normalize :=
  run_words_iff parses_v8 raw ws

theorem octets8_ok_iff (raw b : Bytes) : octets8 raw = .ok b ↔ b.length < 256 ∧ raw = vec8 b := by
  unfold octets8
  rw [run_done_iff parses_v8]
  constructor
  · rintro ⟨a, h, hr⟩
    cases hr
    exact h
  · rintro h
    exact ⟨b, h, rfl⟩

/-! ## Entries -/

/-- An entry of `server_name`. -/
def nameOctets (n : UInt8 × Bytes) : Bytes := n.1 :: vec16 n.2

/-- An extension, or an entry of `key_share`: a word and a vector. -/
def entryOctets (e : UInt16 × Bytes) : Bytes := be16 e.1 ++ vec16 e.2

/-- The vector fits its length. -/
def Fits16 {κ : Type} (e : κ × Bytes) : Prop := e.2.length < 65536

theorem parses_name : Parses (do return (← u8, ← v16)) (fun n w => Fits16 n ∧ w = nameOctets n) := by
  refine (parses_bind parses_u8 fun kind => parses_bind parses_v16 fun name =>
    parses_pure (kind, name)).congr fun n w => ?_
  constructor
  · rintro ⟨kind, u, v, rfl, rfl, name, u', v', rfl, ⟨hlen, rfl⟩, rfl, rfl⟩
    exact ⟨hlen, by rw [List.append_nil]; rfl⟩
  · rintro ⟨hlen, rfl⟩
    exact ⟨n.1, [n.1], vec16 n.2, rfl, rfl, n.2, vec16 n.2, [], (List.append_nil _).symm,
      ⟨hlen, rfl⟩, rfl, rfl⟩

theorem parses_entry : Parses (do return (← u16, ← v16)) (fun e w => Fits16 e ∧ w = entryOctets e) := by
  refine (parses_bind parses_u16 fun id => parses_bind parses_v16 fun body =>
    parses_pure (id, body)).congr fun e w => ?_
  constructor
  · rintro ⟨id, u, v, rfl, rfl, body, u', v', rfl, ⟨hlen, rfl⟩, rfl, rfl⟩
    exact ⟨hlen, by rw [List.append_nil]; rfl⟩
  · rintro ⟨hlen, rfl⟩
    exact ⟨e.1, be16 e.1, vec16 e.2, rfl, rfl, e.2, vec16 e.2, [], (List.append_nil _).symm,
      ⟨hlen, rfl⟩, rfl, rfl⟩

/-- A pass that reads an item and goes on with it. -/
theorem parses_pass {ι σ : Type} {x : Reader ι} {V : ι → Prop} {enc : ι → Bytes}
    (h : Parses x (fun i w => V i ∧ w = enc i)) (f : σ → ι → Res σ) (s : σ) :
    Parses (do f s (← x)) (fun s' w => ∃ i, V i ∧ w = enc i ∧ f s i = .ok s') := by
  refine (parses_bind h fun i => parses_lift (f s i)).congr fun s' w => ?_
  constructor
  · rintro ⟨i, u, v, rfl, ⟨hi, rfl⟩, hf, rfl⟩
    exact ⟨i, hi, List.append_nil _, hf⟩
  · rintro ⟨i, hi, rfl, hf⟩
    exact ⟨i, _, [], (List.append_nil _).symm, ⟨hi, rfl⟩, hf, rfl⟩

/-! ## Bodies that are lists of entries -/

theorem nameEntries_ok_iff (names : List (UInt8 × Bytes)) (present p : Bool) :
    names.foldlM (fun p n => nameEntry p n.1 n.2) present = .ok p ↔
      (∀ n ∈ names, n.1 = 0 → n.2 ≠ []) ∧ p = (present || names.any fun n => n.1 = 0) := by
  induction names generalizing present with
  | nil =>
    show Except.ok present = Except.ok p ↔ _
    simp [eq_comm]
  | cons n names ih =>
    rw [List.foldlM_cons, Res.bind_ok_iff]
    unfold nameEntry
    by_cases hn : n.1 = 0
    · simp only [hn, if_true, Res.bind_ok_iff, Res.ensure_ok_iff]
      constructor
      · rintro ⟨_, ⟨_, hne, h0⟩, h⟩
        cases h0
        obtain ⟨hall, rfl⟩ := (ih true).1 h
        exact ⟨List.forall_mem_cons.2 ⟨fun _ => hne, hall⟩, by simp [hn]⟩
      · rintro ⟨hall, rfl⟩
        refine ⟨true, ⟨(), hall n List.mem_cons_self hn, rfl⟩, (ih true).2 ⟨?_, by simp [hn]⟩⟩
        exact fun k hk => hall k (List.mem_cons_of_mem _ hk)
    · simp only [if_neg hn]
      constructor
      · rintro ⟨_, h0, h⟩
        cases h0
        obtain ⟨hall, rfl⟩ := (ih present).1 h
        exact ⟨List.forall_mem_cons.2 ⟨fun h0 => (hn h0).elim, hall⟩, by simp [hn]⟩
      · rintro ⟨hall, rfl⟩
        refine ⟨present, rfl, (ih present).2 ⟨?_, by simp [hn]⟩⟩
        exact fun k hk => hall k (List.mem_cons_of_mem _ hk)

theorem serverName_ok_iff (present p : Bool) (raw : Bytes) : serverName present raw = .ok p ↔
    ∃ names : List (UInt8 × Bytes), (∀ n ∈ names, Fits16 n) ∧
      (names.flatMap nameOctets).length < 65536 ∧ raw = vec16 (names.flatMap nameOctets) ∧
      (∀ n ∈ names, n.1 = 0 → n.2 ≠ []) ∧ p = (present || names.any fun n => n.1 = 0) := by
  have hpass : ∀ s : Bool, Parses (do
      let kind ← u8
      let name ← v16
      nameEntry s kind name) (fun s' w => ∃ n, Fits16 n ∧ w = nameOctets n ∧
        nameEntry s n.1 n.2 = .ok s') := by
    intro s
    have h := parses_pass parses_name (fun s n => nameEntry s n.1 n.2) s
    simpa only [bind_assoc, pure_bind] using h
  have hloop := fun names => run_untilEnd_iff hpass (fun n => List.cons_ne_nil _ _) present p names
  have hbody : Parses (do
      let names ← v16
      run (untilEnd (fun present => do
        let kind ← u8
        let name ← v16
        nameEntry present kind name) present) names) (fun p w => ∃ names : Bytes,
          (names.length < 65536 ∧ w = vec16 names) ∧ run (untilEnd (fun present => do
            let kind ← u8
            let name ← v16
            nameEntry present kind name) present) names = .ok p) := by
    refine (parses_bind parses_v16 fun names => parses_lift _).congr fun p w => ?_
    constructor
    · rintro ⟨names, u, v, rfl, ⟨hlen, rfl⟩, hr, rfl⟩
      exact ⟨names, ⟨hlen, List.append_nil _⟩, hr⟩
    · rintro ⟨names, ⟨hlen, rfl⟩, hr⟩
      exact ⟨names, _, [], (List.append_nil _).symm, ⟨hlen, rfl⟩, hr, rfl⟩
  unfold serverName
  rw [← bind_assoc, run_done_iff hbody]
  constructor
  · rintro ⟨_, ⟨names, ⟨hlen, rfl⟩, hr⟩, hp⟩
    cases hp
    obtain ⟨ns, hfit, rfl, hfold⟩ := (hloop names).1 hr
    obtain ⟨hne, rfl⟩ := (nameEntries_ok_iff ns present p).1 hfold
    exact ⟨ns, hfit, hlen, rfl, hne, rfl⟩
  · rintro ⟨ns, hfit, hlen, rfl, hne, rfl⟩
    refine ⟨_, ⟨_, ⟨hlen, rfl⟩, ?_⟩, rfl⟩
    exact (hloop _).2 ⟨ns, hfit, rfl, (nameEntries_ok_iff _ _ _).2 ⟨hne, rfl⟩⟩

/-- A vector, nothing after it, and then a loop over its items. -/
theorem run_vector_iff {ι σ : Type} {x : σ → Reader σ} {V : ι → Prop} {enc : ι → Bytes}
    {f : σ → ι → Res σ}
    (hx : ∀ s, Parses (x s) (fun s' w => ∃ i, V i ∧ w = enc i ∧ f s i = .ok s'))
    (henc : ∀ i, enc i ≠ []) (s s' : σ) (raw : Bytes) :
    run (do let items ← v16; done; run (untilEnd x s) items) raw = .ok s' ↔
      ∃ is : List ι, (∀ i ∈ is, V i) ∧ (is.flatMap enc).length < 65536 ∧
        raw = vec16 (is.flatMap enc) ∧ is.foldlM f s = .ok s' := by
  rw [run_done_iff parses_v16]
  constructor
  · rintro ⟨items, ⟨hlen, rfl⟩, hr⟩
    rw [run_lift, run_untilEnd_iff hx henc] at hr
    obtain ⟨is, hV, rfl, hf⟩ := hr
    exact ⟨is, hV, hlen, rfl, hf⟩
  · rintro ⟨is, hV, hlen, rfl, hf⟩
    refine ⟨_, ⟨hlen, rfl⟩, ?_⟩
    rw [run_lift, run_untilEnd_iff hx henc]
    exact ⟨is, hV, rfl, hf⟩

section
variable (D : DigestCrates)

theorem protocolEntries_ok_iff (ps : List Bytes) (alpn alpn' : List Str) :
    ps.foldlM (protocol D) alpn = .ok alpn' ↔
      (∀ p ∈ ps, p ≠ []) ∧ alpn' = alpn ++ ps.map D.hexEncode := by
  induction ps generalizing alpn with
  | nil =>
    show Except.ok alpn = Except.ok alpn' ↔ _
    simp [eq_comm]
  | cons p ps ih =>
    rw [List.foldlM_cons, Res.bind_ok_iff]
    unfold protocol
    simp only [Res.bind_ok_iff, Res.ensure_ok_iff]
    constructor
    · rintro ⟨_, ⟨_, hne, h0⟩, h⟩
      cases h0
      obtain ⟨hall, rfl⟩ := (ih _).1 h
      exact ⟨List.forall_mem_cons.2 ⟨hne, hall⟩, by simp⟩
    · rintro ⟨hall, rfl⟩
      obtain ⟨hne, hall⟩ := List.forall_mem_cons.1 hall
      exact ⟨_, ⟨(), hne, rfl⟩, (ih _).2 ⟨hall, by simp⟩⟩

theorem protocols_ok_iff (alpn alpn' : List Str) (raw : Bytes) : protocols D alpn raw = .ok alpn' ↔
    ∃ ps : List Bytes, (∀ p ∈ ps, p.length < 256) ∧ (ps.flatMap vec8).length < 65536 ∧
      raw = vec16 (ps.flatMap vec8) ∧ (∀ p ∈ ps, p ≠ []) ∧ alpn' = alpn ++ ps.map D.hexEncode := by
  have hpass := parses_pass parses_v8 (protocol D)
  have h := run_vector_iff hpass (fun p => List.cons_ne_nil _ _) alpn alpn' raw
  simp only [protocolEntries_ok_iff] at h
  exact h

theorem keyShareEntries (es : List (UInt16 × Bytes)) (shares : List UInt16 × List Nat) :
    es.foldlM (fun s e => keyShare s e.1 e.2) shares =
      .ok (shares.1 ++ es.map fun e => normalize e.1, shares.2 ++ es.map fun e => e.2.length) := by
  induction es generalizing shares with
  | nil => simp only [List.map_nil, List.append_nil]; rfl
  | cons e es ih =>
    rw [List.foldlM_cons]
    show es.foldlM _ (shares.1 ++ [normalize e.1], shares.2 ++ [e.2.length]) = _
    rw [ih]
    simp

theorem keyShares_ok_iff (shares shares' : List UInt16 × List Nat) (raw : Bytes) :
    keyShares shares raw = .ok shares' ↔
      ∃ es : List (UInt16 × Bytes), (∀ e ∈ es, Fits16 e) ∧ (es.flatMap entryOctets).length < 65536 ∧
        raw = vec16 (es.flatMap entryOctets) ∧
        shares' = (shares.1 ++ es.map fun e => normalize e.1,
          shares.2 ++ es.map fun e => e.2.length) := by
  have hpass : ∀ s : List UInt16 × List Nat, Parses (do
      let group ← u16
      let key ← v16
      keyShare s group key) (fun s' w => ∃ e, Fits16 e ∧ w = entryOctets e ∧
        keyShare s e.1 e.2 = .ok s') := by
    intro s
    have h := parses_pass parses_entry (fun s e => keyShare s e.1 e.2) s
    simpa only [bind_assoc, pure_bind] using h
  have h := run_vector_iff hpass (fun e => List.cons_ne_nil _ _) shares shares' raw
  simp only [keyShareEntries, Except.ok.injEq, @eq_comm _ _ shares'] at h
  exact h

end

end Tls
