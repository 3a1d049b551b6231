import FingerprintBridge.H1.Message

/-!
# What the readers take

However a stream is cut into pieces, `line` takes a line, `head` a section and
`body` the octets the framing announces (`IsBody`), and a body is copied as it is.
Only a line that is absent, and a body up to the end, depend on what comes next.
-/

namespace H1

/-! ## Lines -/

theorem isLine_of_suffix (a l : Bytes) (ha : 10 ∉ a) (hl : l = a ++ [10])
    (hs : crlf.isSuffixOf l = true) : IsLine l := by
  rw [List.isSuffixOf_iff_suffix] at hs
  obtain ⟨t, ht⟩ := hs
  have e : (t ++ [13]) ++ [10] = a ++ [10] := by
    rw [← hl, ← ht]
    simp [crlf]
  have ha' : a = t ++ [13] := (List.append_cancel_right e).symm
  refine ⟨t, fun h => ha ?_, ht.symm⟩
  rw [ha']
  exact List.mem_append_left _ h

theorem lineLoop_ok (limit : Nat) (reader : List Bytes) (out l : Bytes) (reader' : List Bytes)
    (hout : 10 ∉ out) (h : lineLoop limit out reader = .ok (l, reader')) :
    (l = [] ∧ out ++ reader.flatten = [] ∧ reader'.flatten = []) ∨
      (IsLine l ∧ l.length ≤ limit ∧ out ++ reader.flatten = l ++ reader'.flatten) := by
  induction reader generalizing out with
  | nil =>
    unfold lineLoop at h
    obtain ⟨_, he, h⟩ := (Res.bind_ok_iff _ _ _).1 h
    have := (Res.ensure_ok_iff _ _ _).1 he
    cases h
    exact Or.inl ⟨this, by simp [this], rfl⟩
  | cons b reader ih =>
    unfold lineLoop at h
    split at h
    · next hb =>
      have hb' := (findIdx?_eq_none 10 b).1 hb
      obtain ⟨_, -, h⟩ := (Res.bind_ok_iff _ _ _).1 h
      rw [List.flatten_cons, ← List.append_assoc]
      exact ih (out ++ b) (by simp [hout, hb']) h
    · next i hb =>
      obtain ⟨a, c, rfl, ha, rfl⟩ := findIdx?_split 10 b _ hb
      obtain ⟨_, hlim, h⟩ := (Res.bind_ok_iff _ _ _).1 h
      obtain ⟨_, hs, h⟩ := (Res.bind_ok_iff _ _ _).1 h
      have hlim := (Res.ensure_ok_iff _ _ _).1 hlim
      have hs := (Res.ensure_ok_iff _ _ _).1 hs
      rw [take_through, ← List.append_assoc] at hs h
      cases h
      refine Or.inr ⟨isLine_of_suffix (out ++ a) _ (by simp [hout, ha]) rfl hs, ?_, ?_⟩
      · simp only [List.length_append, List.length_cons, List.length_nil]
        omega
      · simp [consume]

theorem lineLoop_complete (limit : Nat) (reader : List Bytes) (out l rest : Bytes)
    (hout : 10 ∉ out) (hl : IsLine l) (hle : l.length ≤ limit)
    (h : out ++ reader.flatten = l ++ rest) :
    ∃ reader', lineLoop limit out reader = .ok (l, reader') ∧ reader'.flatten = rest := by
  obtain ⟨t, ht, rfl⟩ := hl
  have hmem : (10 : UInt8) ∈ t ++ crlf := by simp [crlf]
  induction reader generalizing out with
  | nil =>
    rw [List.flatten_nil, List.append_nil] at h
    rw [h] at hout
    exact (hout (List.mem_append_left _ hmem)).elim
  | cons b reader ih =>
    rw [List.flatten_cons, ← List.append_assoc] at h
    unfold lineLoop
    split
    · next hb =>
      have hb' := (findIdx?_eq_none 10 b).1 hb
      have hob : (10 : UInt8) ∉ out ++ b := by simp [hout, hb']
      have hpre : out ++ b <+: t ++ crlf := by
        have h1 : out ++ b <+: t ++ crlf ++ rest := ⟨_, h⟩
        rcases List.prefix_or_prefix_of_prefix h1 (List.prefix_append _ rest) with hp | hp
        · exact hp
        · exact (hob (hp.subset hmem)).elim
      have hlen : out.length + b.length ≤ limit := by
        have := hpre.length_le
        rw [List.length_append] at this
        omega
      obtain ⟨reader', hr, hrest⟩ := ih (out ++ b) hob h
      exact ⟨reader', (Res.bind_ok_iff _ _ _).2 ⟨(), (Res.ensure_ok_iff _ _ _).2 hlen, hr⟩, hrest⟩
    · next i hb =>
      obtain ⟨a, c, rfl, ha, rfl⟩ := findIdx?_split 10 b _ hb
      have e : (out ++ a) ++ 10 :: (c ++ reader.flatten) = (t ++ [13]) ++ 10 :: rest := by
        simpa [crlf] using h
      obtain ⟨e1, e2⟩ := append_cons_inj 10 _ _ _ _ (by simp [hout, ha]) (by simp [ht]) e
      have htake : out ++ (a ++ 10 :: c).take (a.length + 1) = t ++ crlf := by
        rw [take_through, ← List.append_assoc, e1]
        simp [crlf]
      have hlen : out.length + (a.length + 1) ≤ limit := by
        have := congrArg List.length e1
        simp only [List.length_append, List.length_cons, List.length_nil, crlf] at this hle
        omega
      have hs : crlf.isSuffixOf (t ++ crlf) = true :=
        List.isSuffixOf_iff_suffix.2 (List.suffix_append t crlf)
      refine ⟨consume (a.length + 1) ((a ++ 10 :: c) :: reader), ?_, by simp [consume, e2]⟩
      refine (Res.bind_ok_iff _ _ _).2 ⟨(), (Res.ensure_ok_iff _ _ _).2 hlen, ?_⟩
      rw [htake]
      exact (Res.bind_ok_iff _ _ _).2 ⟨(), (Res.ensure_ok_iff _ _ _).2 hs, rfl⟩

/-- At the end of the stream only empty pieces are left. -/
theorem lineLoop_nil (limit : Nat) (reader : List Bytes) (h : reader.flatten = []) :
    ∃ reader', lineLoop limit [] reader = .ok ([], reader') ∧ reader'.flatten = [] := by
  induction reader with
  | nil => exact ⟨[], rfl, rfl⟩
  | cons b reader ih =>
    rw [List.flatten_cons, List.append_eq_nil_iff] at h
    obtain ⟨rfl, h⟩ := h
    obtain ⟨reader', hr, hrest⟩ := ih h
    have hlen : ([] : Bytes).length + ([] : Bytes).length ≤ limit := Nat.zero_le _
    exact ⟨reader', (Res.bind_ok_iff _ _ _).2 ⟨(), (Res.ensure_ok_iff _ _ _).2 hlen, hr⟩, hrest⟩

/-- What `line` returns: a line, or nothing at the end of the stream. -/
def LineRead (limit : Nat) (bytes l rest : Bytes) : Prop :=
  (l = [] ∧ bytes = [] ∧ rest = []) ∨ (IsLine l ∧ l.length ≤ limit ∧ bytes = l ++ rest)

theorem reads_line (limit : Nat) (bytes : Bytes) :
    Reads (line limit) bytes (fun l w rest => w = [] ∧ LineRead limit bytes l rest) (· = []) := by
  refine ⟨fun st l st' hst h => ?_, fun st l w rest hst h => ?_, fun st e st' hst h => ?_⟩
  · unfold line at h
    split at h
    · next l' reader hl =>
      cases h
      have hok := lineLoop_ok limit st.reader [] l reader (by simp) hl
      rw [List.nil_append, hst] at hok
      exact ⟨[], reader.flatten, ⟨rfl, hok⟩, rfl, (List.append_nil _).symm, rfl⟩
    · cases h
  · obtain ⟨rfl, h⟩ := h
    have hrun : ∃ reader', lineLoop limit [] st.reader = .ok (l, reader') ∧
        reader'.flatten = rest := by
      rcases h with ⟨rfl, rfl, rfl⟩ | ⟨hl, hle, hb⟩
      · exact lineLoop_nil limit st.reader hst
      · exact lineLoop_complete limit st.reader [] l rest (by simp) hl hle (by rw [hst, hb]; rfl)
    obtain ⟨reader', hr, hrest⟩ := hrun
    refine ⟨{ st with reader := reader' }, ?_, hrest, (List.append_nil _).symm, rfl⟩
    unfold line
    rw [hr]
  · unfold line at h
    split at h
    · cases h
    · cases h
      exact ⟨[], rfl, (List.append_nil _).symm, rfl⟩

/-! ## Heads -/

/-- What `head` returns when `out` was read before: a section more, or nothing at the
end of the stream. -/
def HeadRead (maxHead : Nat) (out bytes h rest : Bytes) : Prop :=
  (out = [] ∧ h = [] ∧ bytes = [] ∧ rest = []) ∨
    ∃ s, IsSection s ∧ h = out ++ s ∧ h.length ≤ maxHead ∧ bytes = s ++ rest

theorem LineRead.isLine {limit : Nat} {bytes l rest : Bytes} (h : LineRead limit bytes l rest)
    (hne : l ≠ []) : IsLine l ∧ l.length ≤ limit ∧ bytes = l ++ rest := by
  rcases h with ⟨rfl, -⟩ | h
  · exact (hne rfl).elim
  · exact h

theorem LineRead.length_le {limit total maxHead : Nat} {bytes l rest : Bytes}
    (h : LineRead limit bytes l rest) (hne : l ≠ [])
    (hroom : checkedSub maxHead total = .ok limit) : 2 ≤ l.length ∧ total + l.length ≤ maxHead := by
  have := Res.checkedSub_ok _ _ _ hroom
  obtain ⟨hl, hlen, -⟩ := h.isLine hne
  exact ⟨hl.length, by omega⟩

/-- One line more. -/
theorem headRead_step (maxHead : Nat) (out bytes h w rest' : Bytes) (hout : out.length ≤ maxHead) :
    (∃ l rest, LineRead (maxHead - out.length) bytes l rest ∧
      ((l = [] ∧ out = [] ∧ h = out ∧ w = [] ∧ rest' = rest) ∨
        (l ≠ [] ∧ ((l = crlf ∧ h = out ++ l ∧ w = [] ∧ rest' = rest) ∨
          (l ≠ crlf ∧ w = [] ∧ HeadRead maxHead (out ++ l) rest h rest'))))) ↔
      w = [] ∧ HeadRead maxHead out bytes h rest' := by
  constructor
  · rintro ⟨l, rest, ⟨rfl, rfl, rfl⟩ | ⟨hl, hlen, rfl⟩, hcase⟩
    · rcases hcase with ⟨-, rfl, rfl, rfl, rfl⟩ | ⟨hne, -⟩
      · exact ⟨rfl, Or.inl ⟨rfl, rfl, rfl, rfl⟩⟩
      · exact (hne rfl).elim
    · rcases hcase with ⟨h0, -⟩ | ⟨-, ⟨rfl, rfl, rfl, rfl⟩ | ⟨hne, rfl, hh⟩⟩
      · exact (hl.ne_nil h0).elim
      · refine ⟨rfl, Or.inr ⟨crlf, isSection_crlf, rfl, ?_, rfl⟩⟩
        rw [List.length_append]
        omega
      · rcases hh with ⟨h0, -⟩ | ⟨s, hs, rfl, hlen', rfl⟩
        · exact (hl.ne_nil (List.append_eq_nil_iff.1 h0).2).elim
        · exact ⟨rfl, Or.inr ⟨l ++ s, hs.cons hl hne, List.append_assoc _ _ _, hlen',
            (List.append_assoc _ _ _).symm⟩⟩
  · rintro ⟨rfl, ⟨rfl, rfl, rfl, rfl⟩ | ⟨s, hs, rfl, hlen, rfl⟩⟩
    · exact ⟨[], [], Or.inl ⟨rfl, rfl, rfl⟩, Or.inl ⟨rfl, rfl, rfl, rfl, rfl⟩⟩
    · rw [List.length_append] at hlen
      rcases hs.cases with rfl | ⟨l, s', hl, hne, hs', rfl⟩
      · exact ⟨crlf, rest', Or.inr ⟨isLine_crlf, by omega, rfl⟩,
          Or.inr ⟨isLine_crlf.ne_nil, Or.inl ⟨rfl, rfl, rfl, rfl⟩⟩⟩
      · rw [List.length_append] at hlen
        refine ⟨l, s' ++ rest', Or.inr ⟨hl, by omega, List.append_assoc _ _ _⟩, ?_⟩
        refine Or.inr ⟨hl.ne_nil, Or.inr ⟨hne, rfl, Or.inr ⟨s', hs', ?_, ?_, rfl⟩⟩⟩
        · rw [List.append_assoc]
        · simp only [List.length_append]
          omega

theorem reads_headLoop (maxHead fuel : Nat) (out bytes : Bytes) (hout : out.length ≤ maxHead)
    (hfuel : maxHead < fuel + out.length) :
    Reads (headLoop maxHead fuel out) bytes
      (fun h w rest => w = [] ∧ HeadRead maxHead out bytes h rest) (· = []) := by
  induction fuel generalizing out bytes with
  | zero => omega
  | succ fuel ih =>
    unfold headLoop
    rw [Res.checkedSub_of_le _ _ hout, Act.liftM_ok_bind]
    have hnext : ∀ l rest, LineRead (maxHead - out.length) bytes l rest →
        Reads (if l = [] then do
            ensure (out = []) "truncated head"
            return out
          else if l = crlf then return out ++ l
          else headLoop maxHead fuel (out ++ l)) rest
          (fun h w rest' => (l = [] ∧ out = [] ∧ h = out ∧ w = [] ∧ rest' = rest) ∨
            (l ≠ [] ∧ ((l = crlf ∧ h = out ++ l ∧ w = [] ∧ rest' = rest) ∨
              (l ≠ crlf ∧ w = [] ∧ HeadRead maxHead (out ++ l) rest h rest')))) (· = []) := by
      intro l rest hl
      refine reads_ite (fun _ => reads_ensure_bind rfl fun _ => reads_pure _) fun hne => ?_
      refine reads_ite (fun _ => reads_pure _) fun _ => ?_
      have hlen := hl.length_le hne (Res.checkedSub_of_le _ _ hout)
      have hol : (out ++ l).length = out.length + l.length := List.length_append
      exact ih (out ++ l) rest (by omega) (by omega)
    exact (reads_bind_silent (reads_line _ bytes) hnext).congr fun h w rest' =>
      headRead_step maxHead out bytes h w rest' hout

theorem reads_head (maxHead : Nat) (bytes : Bytes) :
    Reads (head maxHead) bytes (fun h w rest => w = [] ∧ HeadRead maxHead [] bytes h rest)
      (· = []) :=
  reads_headLoop maxHead (maxHead + 1) [] bytes (Nat.zero_le _) (Nat.lt_succ_self _)

/-! ## Bodies -/

theorem takeOctets_eq (n : Nat) (reader : List Bytes) :
    (takeOctets n reader).1 = reader.flatten.take n ∧
      (takeOctets n reader).2.flatten = reader.flatten.drop n := by
  induction reader generalizing n with
  | nil => simp [takeOctets]
  | cons b reader ih =>
    unfold takeOctets
    split
    · next h => simp [List.take_append_of_le_length h, List.drop_append_of_le_length h]
    · next h =>
      obtain ⟨h1, h2⟩ := ih (n - b.length)
      have hn : b.length ≤ n := by omega
      simp [h1, h2, List.take_append, List.drop_append, List.take_of_length_le hn,
        List.drop_of_length_le hn]

theorem reads_exact (n : Nat) (bytes : Bytes) :
    Reads (exact n) bytes (fun _ w rest => w.length = n ∧ bytes = w ++ rest) (· <+: bytes) := by
  refine ⟨fun st a st' hst h => ?_, fun st a w rest hst h => ?_, fun st e st' hst h => ?_⟩
  · obtain ⟨h1, h2⟩ := takeOctets_eq n st.reader
    unfold exact at h
    simp only at h
    split at h
    · next hlen =>
      cases h
      refine ⟨_, _, ⟨hlen, ?_⟩, rfl, rfl, rfl⟩
      rw [h1, h2, List.take_append_drop, hst]
    · cases h
  · obtain ⟨rfl, hb⟩ := h
    obtain ⟨h1, h2⟩ := takeOctets_eq w.length st.reader
    rw [hst, hb, List.take_left] at h1
    rw [hst, hb, List.drop_left] at h2
    unfold exact
    simp only [h1, if_true]
    exact ⟨_, rfl, h2, rfl, rfl⟩
  · obtain ⟨h1, -⟩ := takeOctets_eq n st.reader
    unfold exact at h
    simp only at h
    split at h
    · cases h
    · cases h
      refine ⟨_, ?_, rfl, rfl⟩
      rw [h1, hst]
      exact List.take_prefix _ _

theorem reads_readTwo (bytes : Bytes) :
    Reads readTwo bytes (fun l w rest => w = [] ∧ l.length = 2 ∧ bytes = l ++ rest) (· = []) := by
  refine ⟨fun st a st' hst h => ?_, fun st l w rest hst h => ?_, fun st e st' hst h => ?_⟩
  · obtain ⟨h1, h2⟩ := takeOctets_eq 2 st.reader
    unfold readTwo at h
    simp only at h
    split at h
    · next hlen =>
      cases h
      refine ⟨[], _, ⟨rfl, hlen, ?_⟩, rfl, (List.append_nil _).symm, rfl⟩
      rw [h1, h2, List.take_append_drop, hst]
    · cases h
  · obtain ⟨rfl, hlen, hb⟩ := h
    obtain ⟨h1, h2⟩ := takeOctets_eq 2 st.reader
    rw [hst, hb, ← hlen, List.take_left, hlen] at h1
    rw [hst, hb, ← hlen, List.drop_left, hlen] at h2
    unfold readTwo
    simp only [h1, hlen, if_true]
    exact ⟨_, rfl, h2, (List.append_nil _).symm, rfl⟩
  · unfold readTwo at h
    simp only at h
    split at h
    · cases h
    · cases h
      exact ⟨[], rfl, (List.append_nil _).symm, rfl⟩

theorem reads_copyAll (bytes : Bytes) :
    Reads copyAll bytes (fun _ w rest => w = bytes ∧ rest = []) (· <+: bytes) := by
  refine ⟨fun st a st' hst h => ?_, fun st a w rest hst h => ?_, fun st e st' hst h => ?_⟩
  · cases h
    exact ⟨_, [], ⟨hst, rfl⟩, rfl, rfl, rfl⟩
  · obtain ⟨rfl, rfl⟩ := h
    exact ⟨_, rfl, rfl, by rw [← hst], rfl⟩
  · cases h

/-- A chunk that is not the last: its line, its octets, and their end. -/
def IsChunk (p : Bytes) : Prop :=
  ∃ l data, IsLine l ∧ l.length ≤ 8192 ∧ chunkSize l = .ok data.length ∧ data ≠ [] ∧
    p = l ++ (data ++ crlf)

/-- The line of the last chunk. -/
def IsLast (l : Bytes) : Prop := IsLine l ∧ l.length ≤ 8192 ∧ chunkSize l = .ok 0

theorem IsChunk.ne_nil {p : Bytes} (h : IsChunk p) : p ≠ [] := by
  obtain ⟨l, data, hl, -, -, -, rfl⟩ := h
  exact fun e => hl.ne_nil (List.append_eq_nil_iff.1 e).1

theorem prefix_of_silent (bytes : Bytes) (w : Bytes) (h : w = []) : w <+: bytes := by
  rw [h]
  exact List.nil_prefix

theorem reads_chunk (bytes : Bytes) :
    Reads chunk bytes (fun more w rest => bytes = w ++ rest ∧
      ((more = false ∧ IsLast w) ∨ (more = true ∧ IsChunk w))) (· <+: bytes) := by
  refine Reads.congr (x := chunk)
    (reads_bind_silent ((reads_line 8192 bytes).mono (prefix_of_silent bytes)) fun l rest hl =>
      reads_ensure_bind List.nil_prefix fun hne => reads_lift_bind List.nil_prefix fun n hn =>
        reads_write_bind (reads_ite (fun _ => reads_pure _) fun _ =>
          reads_bind ((reads_exact n _).mono ?_) fun _ w rest hw =>
            reads_bind_silent ((reads_readTwo _).mono ?_) fun stop rest hs =>
              reads_ensure_bind ?_ fun hstop =>
                reads_write_bind (reads_pure _)))
    fun more w rest => ?_
  · intro w hw
    rw [(hl.isLine hne).2.2]
    exact (List.prefix_append_right_inj l).2 hw
  · rintro _ rfl
    rw [(hl.isLine hne).2.2, hw.2, List.append_nil]
    exact (List.prefix_append_right_inj l).2 (List.prefix_append _ _)
  · rw [(hl.isLine hne).2.2, hw.2, List.append_nil]
    exact (List.prefix_append_right_inj l).2 (List.prefix_append _ _)
  · constructor
    · rintro ⟨l, r1, hl, hne, n, hn, w', rfl, hcase⟩
      obtain ⟨hline, hlen, rfl⟩ := hl.isLine hne
      rcases hcase with ⟨rfl, rfl, rfl, rfl⟩ | ⟨hn0, _, data, _, _, ⟨rfl, rfl⟩, hstop, rfl⟩
      · exact ⟨by simp, Or.inl ⟨rfl, by simpa using ⟨hline, hlen, hn⟩⟩⟩
      · obtain ⟨_, _, ⟨hs, rfl⟩, rfl, _, rfl, rfl, rfl, rfl⟩ := hstop
        refine ⟨by simp, Or.inr ⟨rfl, l, data, hline, hlen, hn, ?_, by simp⟩⟩
        exact fun h0 => hn0 (by rw [h0]; rfl)
    · rintro ⟨rfl, ⟨rfl, hl, hlen, hn⟩ | ⟨rfl, l, data, hl, hlen, hn, hd, rfl⟩⟩
      · exact ⟨w, rest, Or.inr ⟨hl, hlen, rfl⟩, hl.ne_nil, 0, hn, [], (List.append_nil _).symm,
          Or.inl ⟨rfl, rfl, rfl, rfl⟩⟩
      · refine ⟨l, data ++ crlf ++ rest, Or.inr ⟨hl, hlen, by simp⟩, hl.ne_nil, data.length, hn,
          data ++ crlf, rfl, Or.inr ⟨fun h0 => hd (List.length_eq_zero_iff.1 h0), (), data, _, crlf,
            ⟨rfl, List.append_assoc _ _ _⟩, ⟨crlf, rest, ⟨rfl, rfl⟩, rfl, [], ?_⟩, rfl⟩⟩
        exact ⟨(List.append_nil _).symm, rfl, rfl, rfl⟩

theorem reads_trailer (maxHead fuel total : Nat) (bytes : Bytes) (htotal : total ≤ maxHead)
    (hfuel : maxHead < fuel + total) :
    Reads (trailer maxHead fuel total) bytes
      (fun _ w rest => bytes = w ++ rest ∧ IsSection w ∧ total + w.length ≤ maxHead)
      (· <+: bytes) := by
  induction fuel generalizing total bytes with
  | zero => omega
  | succ fuel ih =>
    unfold trailer
    rw [Res.checkedSub_of_le _ _ htotal, Act.liftM_ok_bind]
    have hroom := Res.checkedSub_of_le _ _ htotal
    refine Reads.congr
      (reads_bind_silent ((reads_line (maxHead - total) bytes).mono (prefix_of_silent bytes))
        fun l rest hl => reads_ensure_bind List.nil_prefix fun hne =>
          reads_write_bind (reads_ite (fun _ => reads_pure _) fun _ =>
            (ih (total + l.length) rest (hl.length_le hne hroom).2 ?_).mono ?_))
      fun a w rest => ?_
    · have := (hl.length_le hne hroom).1
      omega
    · intro w hw
      rw [(hl.isLine hne).2.2]
      exact (List.prefix_append_right_inj l).2 hw
    · constructor
      · rintro ⟨l, r1, hl, hne, w', rfl, hcase⟩
        obtain ⟨hline, hlen, rfl⟩ := hl.isLine hne
        rcases hcase with ⟨rfl, -, rfl, rfl⟩ | ⟨hc, rfl, hs, htot⟩
        · rw [List.append_nil]
          exact ⟨rfl, isSection_crlf, by omega⟩
        · refine ⟨(List.append_assoc _ _ _).symm, hs.cons hline hc, ?_⟩
          rw [List.length_append]
          omega
      · rintro ⟨rfl, hs, htot⟩
        rcases hs.cases with rfl | ⟨l, s', hl, hne, hs', rfl⟩
        · exact ⟨crlf, rest, Or.inr ⟨isLine_crlf, by omega, rfl⟩, isLine_crlf.ne_nil, [], rfl,
            Or.inl ⟨rfl, rfl, rfl, rfl⟩⟩
        · rw [List.length_append] at htot
          exact ⟨l, s' ++ rest, Or.inr ⟨hl, by omega, List.append_assoc _ _ _⟩, hl.ne_nil, s', rfl,
            Or.inr ⟨hne, rfl, hs', by omega⟩⟩

/-- Chunks, the last one, and the trailer. -/
inductive IsChunked (maxHead : Nat) : Bytes → Prop where
  | last (l s : Bytes) (hl : IsLast l) (hs : IsSection s) (hlen : s.length ≤ maxHead) :
      IsChunked maxHead (l ++ s)
  | chunk (c p : Bytes) (hc : IsChunk c) (hp : IsChunked maxHead p) : IsChunked maxHead (c ++ p)

theorem reads_chunks (maxHead fuel : Nat) (bytes : Bytes) (hfuel : bytes.length < fuel) :
    Reads (chunks maxHead fuel) bytes
      (fun _ w rest => bytes = w ++ rest ∧ IsChunked maxHead w) (· <+: bytes) := by
  induction fuel generalizing bytes with
  | zero => omega
  | succ fuel ih =>
    unfold chunks
    refine Reads.congr (reads_bind (reads_chunk bytes) fun more w rest hw =>
      reads_ite (fun _ => (ih rest ?_).mono ?_) fun _ =>
        (reads_trailer maxHead (maxHead + 1) 0 rest (Nat.zero_le _) (by omega)).mono ?_)
      fun a w rest => ?_
    · obtain ⟨rfl, ⟨rfl, -⟩ | ⟨-, hc⟩⟩ := hw
      · contradiction
      have := List.length_pos_iff.2 hc.ne_nil
      rw [List.length_append] at hfuel
      omega
    · intro w' hw'
      rw [hw.1]
      exact (List.prefix_append_right_inj w).2 hw'
    · intro w' hw'
      rw [hw.1]
      exact (List.prefix_append_right_inj w).2 hw'
    · constructor
      · rintro ⟨more, w1, r1, w2, ⟨rfl, hcase⟩, hnext, rfl⟩
        rcases hcase with ⟨rfl, hl⟩ | ⟨rfl, hc⟩
        · obtain ⟨h, -⟩ | ⟨-, rfl, hs, hlen⟩ := hnext
          · cases h
          · exact ⟨(List.append_assoc _ _ _).symm, .last w1 w2 hl hs (by omega)⟩
        · obtain ⟨-, rfl, hp⟩ | ⟨h, -⟩ := hnext
          · exact ⟨(List.append_assoc _ _ _).symm, .chunk w1 w2 hc hp⟩
          · exact (h rfl).elim
      · rintro ⟨rfl, hw⟩
        cases hw with
        | last l s hl hs hlen =>
          exact ⟨false, l, s ++ rest, s, ⟨List.append_assoc _ _ _, Or.inl ⟨rfl, hl⟩⟩,
            Or.inr ⟨Bool.false_ne_true, rfl, hs, by omega⟩, rfl⟩
        | chunk c p hc hp =>
          exact ⟨true, c, p ++ rest, p, ⟨List.append_assoc _ _ _, Or.inr ⟨rfl, hc⟩⟩,
            Or.inl ⟨rfl, rfl, hp⟩, rfl⟩

/-- `p` is the body, with `rest` after it. -/
def IsBody (maxHead : Nat) (p rest : Bytes) : Body → Prop
  | .empty => p = []
  | .length n => p.length = n
  | .chunked => IsChunked maxHead p
  | .untilEof => rest = []

/-- However it is cut, `body` copies the body and nothing else; what it wrote when it
fails stood at the beginning of the stream. -/
theorem reads_body (maxHead : Nat) (kind : Body) (bytes : Bytes) :
    Reads (body maxHead kind) bytes
      (fun _ w rest => bytes = w ++ rest ∧ IsBody maxHead w rest kind) (· <+: bytes) := by
  cases kind with
  | empty =>
    refine (reads_pure ()).congr fun _ w rest => ?_
    constructor
    · rintro ⟨-, rfl, rfl⟩
      exact ⟨rfl, rfl⟩
    · rintro ⟨rfl, h⟩
      obtain rfl : w = [] := h
      exact ⟨rfl, rfl, rfl⟩
  | length n => exact (reads_exact n bytes).congr fun _ w rest => and_comm
  | chunked =>
    refine reads_getReader fun reader hr => ?_
    rw [hr]
    exact reads_chunks maxHead _ bytes (Nat.lt_succ_self _)
  | untilEof =>
    refine (reads_copyAll bytes).congr fun _ w rest => ?_
    constructor
    · rintro ⟨rfl, rfl⟩
      exact ⟨(List.append_nil _).symm, rfl⟩
    · rintro ⟨rfl, h⟩
      obtain rfl : rest = [] := h
      exact ⟨(List.append_nil _).symm, rfl⟩

end H1
