import FingerprintBridge.H1.Forward
import FingerprintBridge.H1.Strict

/-!
# Authority confinement over HTTP/1.1

Whatever becomes of the request loop, it wrote messages it accepted and at most a part of
one more (`Forwarded`).  A recipient that reads these octets, or the beginning of them
where a task was cancelled, finds no head but those with one `Host`, the upstream.
-/

namespace H1

section
variable {U : UrlCrate} (m : Mapping U)

/-- There is one `Host` field, and it is the upstream between blanks and tabs. -/
def OnlyUpstream (h : Bytes) : Prop :=
  ∃ v, valuesOf (ascii "host") (fieldLines h) = [v] ∧ strip isOwsByte v = utf8 m.upstream

/-! ## Accepted heads -/

theorem valuesOf_host {fs fs' : List Bytes} (h : List.Forall₂ (m.FieldTo false) fs fs') :
    (valuesOf (ascii "host") fs').length = fs.countP Mapping.isHostLine ∧
      ∀ v ∈ valuesOf (ascii "host") fs', strip isOwsByte v = utf8 m.upstream := by
  induction h with
  | nil => exact ⟨rfl, fun v hv => nomatch hv⟩
  | cons hc _ ih =>
    obtain ⟨name, v, v', htok, rfl, hv, rfl⟩ := hc
    obtain ⟨hlen, hall⟩ := ih
    unfold valuesOf at hlen hall ⊢
    rw [List.filterMap_cons, fieldValue_field _ _ _ htok.colon, List.countP_cons,
      Mapping.isHostLine_field name v htok.colon]
    cases hn : eqIgnoreCase name (ascii "host") with
    | false => exact ⟨hlen, hall⟩
    | true =>
      have hauth : Mapping.isAuthorityName name = true := by
        have : asciiLower name = ascii "host" := by
          unfold eqIgnoreCase at hn
          rw [beq_iff_eq] at hn
          exact hn.trans (by decide)
        unfold Mapping.isAuthorityName
        rw [this]
        rfl
      refine ⟨by simp only [if_true, List.length_cons, hlen], fun w hw => ?_⟩
      rcases List.mem_cons.1 hw with rfl | hw
      · exact m.value_authority name v _ hauth hv
      · exact hall w hw

/-- A head that passes the checks of the loop names the upstream, when it was mapped. -/
theorem checkRequest_confined (h h' : Bytes) (method : Str) (kind : Body) (hs : IsSection h)
    (hc : checkRequest m h = .ok (method, kind, h')) :
    IsSection h' ∧ framing h' false false = .ok kind ∧ OnlyUpstream m h' := by
  obtain ⟨-, hk, hh⟩ := (checkRequest_ok_iff m _ _ _ _).1 hc
  obtain ⟨cs, hcs, rfl⟩ := hs
  obtain ⟨first, fs, fs', rfl, hfs, rfl, hhost⟩ := (m.h1Head_ok_iff false cs hcs h').1 hh
  obtain ⟨hfirst, hlines⟩ := (lines_cons _ _).1 hcs
  have hcs' : Lines (first :: fs') :=
    (lines_cons _ _).2 ⟨hfirst, m.forall₂_fieldTo_lines false hfs hlines⟩
  refine ⟨⟨_, hcs', rfl⟩, by rw [framing_mapped m false false hfs hcs, hk], ?_⟩
  obtain ⟨hlen, hall⟩ := valuesOf_host m hfs
  rw [hhost.resolve_left Bool.false_ne_true] at hlen
  obtain ⟨v, hv⟩ := List.length_eq_one_iff.1 hlen
  refine ⟨v, by rw [fieldLines_section first fs' hcs', hv], hall v ?_⟩
  rw [hv]
  exact List.mem_singleton_self v

/-! ## What the loop wrote -/

/-- `last` was written for the beginning of `bytes`: nothing, or a head that passed the
checks and as much as there was of its body. -/
def Began (bytes last : Bytes) : Prop :=
  last = [] ∨ ∃ h b method kind h' w, IsSection h ∧ bytes = h ++ b ∧
    checkRequest m h = .ok (method, kind, h') ∧ last = h' ++ w ∧ w <+: b ∧
    ∀ p rest, b = p ++ rest → ¬ IsBody MAX_HEAD p rest kind

theorem request_error (accepts : Nat → Bool) (st st' : Conn) (e : Fault)
    (h : request m accepts st = .error e st') :
    ∃ last, Began m st.reader.flatten last ∧ st'.output = st.output ++ last := by
  have hnone : st'.output = st.output →
      ∃ last, Began m st.reader.flatten last ∧ st'.output = st.output ++ last :=
    fun ho => ⟨[], Or.inl rfl, by rw [ho, List.append_nil]⟩
  unfold request at h
  rcases (Act.bind_error_iff _ _ _ _ _).1 h with h | ⟨hd, st1, hhead, h⟩
  · obtain ⟨w, rfl, hout, -⟩ := (reads_head MAX_HEAD _).fault st e st' rfl h
    exact hnone (by rw [hout, List.append_nil])
  obtain ⟨w, rest, ⟨rfl, hread⟩, hrest, hout, -⟩ :=
    (reads_head MAX_HEAD _).sound st hd st1 rfl hhead
  rw [List.append_nil] at hout
  split at h
  · exact (Act.pure_ne_error _ _ _ _ h).elim
  next hne =>
  simp only [Act.bind_error_iff, Act.liftM_error_iff, Act.liftM_ok_iff] at h
  rcases h with ⟨-, rfl⟩ | ⟨⟨method, kind, h'⟩, _, ⟨hcheck, rfl⟩, h⟩
  · exact hnone hout
  rcases h with h | ⟨_, st2, hsend, h⟩
  · obtain rfl := send_error _ _ _ _ _ h
    exact hnone hout
  obtain ⟨hr2, ho2⟩ := send_ok _ _ _ _ hsend
  rcases h with h | ⟨_, st3, hw, h⟩
  · cases h
  cases hw
  rcases h with h | ⟨_, st4, -, h⟩
  swap
  · exact (Act.pure_ne_error _ _ _ _ h).elim
  -- the body failed: it is not there
  have hr : st2.reader.flatten = rest := by rw [hr2, hrest]
  obtain ⟨w, hw, ho', -⟩ := (reads_body MAX_HEAD kind rest).fault
    { st2 with output := st2.output ++ h' } e st' hr h
  rcases hread with ⟨-, h0, -⟩ | ⟨s, hs, rfl, -, hbytes⟩
  · exact (hne h0).elim
  refine ⟨h' ++ w, Or.inr ⟨_, rest, method, kind, h', w, hs, hbytes, hcheck, rfl, hw, ?_⟩, ?_⟩
  · rintro p r hpr hbody
    obtain ⟨st5, hok, -⟩ := (reads_body MAX_HEAD kind rest).complete
      { st2 with output := st2.output ++ h' } () p r hr ⟨hpr, hbody⟩
    rw [hok] at h
    cases h
  · rw [ho', ho2, hout, List.append_assoc]

/-- The requests `xs` were accepted and written as `ys`, and `last` for the beginning of
what is left of `bytes`. -/
structure Forwarded (bytes out : Bytes) (xs ys : List Message) (rest last : Bytes) : Prop where
  isStream : IsStream MAX_HEAD false rest (List.replicate xs.length false) xs
  came : bytes = octetsOf xs ++ rest
  accepted : List.Forall₂ (Accepted m) xs ys
  began : Began m rest last
  written : out = octetsOf ys ++ last

theorem Forwarded.cons {bytes out rest last : Bytes} {x y : Message} {xs ys : List Message}
    {st st' : Conn} (hp : Passed m x y st st')
    (h : Forwarded m st'.reader.flatten out xs ys rest last) (hb : bytes = st.reader.flatten) :
    Forwarded m bytes (y.octets ++ out) (x :: xs) (y :: ys) rest last := by
  refine ⟨.cons false _ x xs ?_ h.isStream, ?_, .cons hp.accepted h.accepted, h.began, ?_⟩
  · rw [← h.came]
    exact hp.isMessage
  · rw [hb, hp.came, h.came, octetsOf, octetsOf, List.flatMap_cons, List.append_assoc]
  · rw [h.written, octetsOf, octetsOf, List.flatMap_cons, List.append_assoc]

/-- Whatever becomes of the loop. -/
theorem requestLoop_forwarded (accepts : Nat → Bool) (fuel : Nat) (st st' : Conn)
    (h : requestLoop m accepts fuel st = .ok () st' ∨
      ∃ e, requestLoop m accepts fuel st = .error e st') :
    ∃ out xs ys rest last, st'.output = st.output ++ out ∧
      Forwarded m st.reader.flatten out xs ys rest last := by
  have hnil : ∀ last, Began m st.reader.flatten last →
      Forwarded m st.reader.flatten last [] [] st.reader.flatten last :=
    fun last hb => ⟨.nil, rfl, .nil, hb, rfl⟩
  induction fuel generalizing st with
  | zero =>
    rcases h with h | ⟨e, h⟩
    · obtain ⟨-, rfl⟩ := (Act.pure_ok_iff _ _ _ _).1 h
      exact ⟨[], [], [], _, [], (List.append_nil _).symm, hnil [] (Or.inl rfl)⟩
    · exact (Act.pure_ne_error _ _ _ _ h).elim
  | succ fuel ih =>
    have hnext : (∃ e, request m accepts st = .error e st') ∨
        ∃ more st1, request m accepts st = .ok more st1 ∧
          ((if more then requestLoop m accepts fuel else pure ()) st1 = .ok () st' ∨
            ∃ e, (if more then requestLoop m accepts fuel else pure ()) st1 = .error e st') := by
      rcases h with h | ⟨e, h⟩
      · obtain ⟨more, st1, hrun, h⟩ := (Act.bind_ok_iff _ _ _ _ _).1 h
        exact Or.inr ⟨more, st1, hrun, Or.inl h⟩
      · rcases (Act.bind_error_iff _ _ _ _ _).1 h with h | ⟨more, st1, hrun, h⟩
        · exact Or.inl ⟨e, h⟩
        · exact Or.inr ⟨more, st1, hrun, Or.inr ⟨e, h⟩⟩
    rcases hnext with ⟨e, herr⟩ | ⟨more, st1, hrun, hrest⟩
    · obtain ⟨last, hb, ho⟩ := request_error m accepts st st' e herr
      exact ⟨last, [], [], _, last, ho, hnil last hb⟩
    · rcases request_ok m accepts st st1 more hrun with ⟨rfl, -, -, ho⟩ | ⟨rfl, x, y, hp⟩
      · refine ⟨[], [], [], _, [], ?_, hnil [] (Or.inl rfl)⟩
        rcases hrest with h | ⟨e, h⟩
        · obtain ⟨-, rfl⟩ := (Act.pure_ok_iff _ _ _ _).1 h
          rw [ho, List.append_nil]
        · exact (Act.pure_ne_error _ _ _ _ h).elim
      · obtain ⟨out, xs, ys, rest, last, ho, hf⟩ :=
          ih st1 hrest fun last hb => ⟨.nil, rfl, .nil, hb, rfl⟩
        refine ⟨y.octets ++ out, x :: xs, y :: ys, rest, last, ?_, hf.cons m hp rfl⟩
        rw [ho, hp.written, List.append_assoc]

/-! ## A recipient -/

/-- A recipient of `w` reads the head `h`, at the beginning or after some messages. -/
inductive ReadsHead : Bytes → Bytes → Prop where
  | here (h rest : Bytes) (hs : IsSection h) : ReadsHead (h ++ rest) h
  | later (x : Message) (rest h : Bytes) (hs : IsSection x.head)
      (hk : framing x.head false false = .ok x.kind) (hb : IsBody MAX_HEAD x.payload rest x.kind)
      (hr : ReadsHead rest h) : ReadsHead (x.octets ++ rest) h

/-- Octets made of messages that name the upstream, the last one perhaps without the end
of its body. -/
inductive Confined : Bytes → Prop where
  | nil : Confined []
  | part (h w : Bytes) (kind : Body) (hs : IsSection h) (hu : OnlyUpstream m h)
      (hk : framing h false false = .ok kind)
      (hb : ∀ p rest, w = p ++ rest → ¬ IsBody MAX_HEAD p rest kind) : Confined (h ++ w)
  | message (y : Message) (out : Bytes) (hs : IsSection y.head) (hu : OnlyUpstream m y.head)
      (hk : framing y.head false false = .ok y.kind)
      (hb : IsBody MAX_HEAD y.payload out y.kind) (ho : Confined out) : Confined (y.octets ++ out)

theorem framing_request (h : Bytes) (kind : Body) (hk : framing h false false = .ok kind) :
    kind ≠ .untilEof := by
  rintro rfl
  unfold framing at hk
  obtain ⟨acc, -, hk⟩ := (Res.bind_ok_iff _ _ _).1 hk
  unfold bodyKind at hk
  obtain ⟨_, -, hk⟩ := (Res.bind_ok_iff _ _ _).1 hk
  rw [if_neg Bool.false_ne_true] at hk
  split at hk
  · obtain ⟨_, -, hk⟩ := (Res.bind_ok_iff _ _ _).1 hk
    cases hk
  · split at hk
    · cases hk
    · cases hk

/-- Only a body up to the end depends on what comes after it. -/
theorem IsBody.of_ne {maxHead : Nat} {p rest rest' : Bytes} {kind : Body}
    (h : IsBody maxHead p rest kind) (hk : kind ≠ .untilEof) : IsBody maxHead p rest' kind := by
  cases kind with
  | empty => exact h
  | length n => exact h
  | chunked => exact h
  | untilEof => exact (hk rfl).elim

/-- A body is not the beginning of another one. -/
theorem IsBody.unique {maxHead : Nat} {p p' rest rest' : Bytes} {kind : Body}
    (h : IsBody maxHead p rest kind) (h' : IsBody maxHead p' rest' kind)
    (he : p ++ rest = p' ++ rest') : p = p' := by
  have hreads := reads_body maxHead kind (p ++ rest)
  obtain ⟨st, hst, -, ho, -⟩ := hreads.complete
    { reader := [p ++ rest], output := [], channel := [] } () p rest (by simp) ⟨rfl, h⟩
  obtain ⟨st', hst', -, ho', -⟩ := hreads.complete
    { reader := [p ++ rest], output := [], channel := [] } () p' rest' (by simp) ⟨he, h'⟩
  rw [hst] at hst'
  cases hst'
  exact ho.symm.trans ho'

variable {m}

/-- Confined octets begin with a head that names the upstream; this is what follows. -/
theorem Confined.cases_head {s r : Bytes} (h : Confined m (s ++ r)) (hs : IsSection s) :
    OnlyUpstream m s ∧ ∀ kind, framing s false false = .ok kind →
      ∀ p rest, r = p ++ rest → IsBody MAX_HEAD p rest kind → Confined m rest := by
  generalize hout : s ++ r = out at h
  cases h with
  | nil => exact (hs.ne_nil (List.append_eq_nil_iff.1 hout).1).elim
  | part h w kind hs' hu hk hb =>
    obtain ⟨rfl, rfl⟩ := hs.append_inj hs' hout
    refine ⟨hu, fun kind' hk' p rest hr hbody => ?_⟩
    rw [hk] at hk'
    cases hk'
    exact (hb p rest hr hbody).elim
  | message y out hs' hu hk hb ho =>
    rw [Message.octets, List.append_assoc] at hout
    obtain ⟨rfl, rfl⟩ := hs.append_inj hs' hout
    refine ⟨hu, fun kind' hk' p rest hr hbody => ?_⟩
    rw [hk] at hk'
    cases hk'
    obtain rfl := hb.unique hbody hr
    rwa [← List.append_cancel_left hr]

/-- **A recipient finds no other head**, in the beginning `w` of confined octets. -/
theorem Confined.onlyUpstream {out w h : Bytes} (hout : Confined m out) (hw : w <+: out)
    (hr : ReadsHead w h) : OnlyUpstream m h := by
  induction hr generalizing out with
  | here h rest hs =>
    obtain ⟨t, rfl⟩ := hw
    rw [List.append_assoc] at hout
    exact (hout.cases_head hs).1
  | later x rest h hs hk hb _ ih =>
    obtain ⟨t, rfl⟩ := hw
    rw [Message.octets, List.append_assoc, List.append_assoc] at hout
    -- with more octets after it the body is the same
    have hb' : IsBody MAX_HEAD x.payload (rest ++ t) x.kind := hb.of_ne (framing_request _ _ hk)
    exact ih ((hout.cases_head hs).2 x.kind hk x.payload (rest ++ t) rfl hb') ⟨t, rfl⟩

theorem Forwarded.confined {bytes out rest last : Bytes} {xs ys : List Message}
    (h : Forwarded m bytes out xs ys rest last) : Confined m out := by
  obtain ⟨hstream, -, haccepted, hbegan, rfl⟩ := h
  generalize List.replicate xs.length false = flags at hstream
  induction hstream generalizing ys with
  | nil =>
    cases haccepted
    rcases hbegan with rfl | ⟨h, b, method, kind, h', w, hs, -, hc, rfl, ⟨t, rfl⟩, hno⟩
    · exact .nil
    · obtain ⟨hs', hk', hu⟩ := checkRequest_confined m h h' method kind hs hc
      refine .part h' w kind hs' hu hk' fun p r hw hb => ?_
      refine hno p (r ++ t) (by rw [hw, List.append_assoc]) ?_
      exact hb.of_ne (framing_request _ _ hk')
  | cons noBody flags x xs hx _ ih =>
    cases haccepted with
    | @cons _ y _ ys hxy hys =>
      obtain ⟨⟨method, hc⟩, hkind, hpayload⟩ := hxy
      obtain ⟨hs', hk', hu⟩ := checkRequest_confined m x.head y.head method x.kind hx.isSection hc
      rw [octetsOf, List.flatMap_cons, List.append_assoc]
      refine .message y _ hs' hu (by rw [hk', hkind]) ?_ (ih hys)
      rw [hkind, hpayload]
      exact hx.isBody.of_ne (framing_request _ _ hk')

end

/-- **Authority confinement over HTTP/1.1.** -/
theorem requests_confined {U : UrlCrate} (m : Mapping U) (accepts : Nat → Bool) (st st' : Conn)
    (hst : st.output = [])
    (h : requests m accepts st = .ok () st' ∨ ∃ e, requests m accepts st = .error e st') :
    (∃ xs ys rest last, Forwarded m st.reader.flatten st'.output xs ys rest last) ∧
      Confined m st'.output ∧
      ∀ w hd, w <+: st'.output → ReadsHead w hd → OnlyUpstream m hd := by
  have hloop : requestLoop m accepts (st.reader.flatten.length + 1) st = .ok () st' ∨
      ∃ e, requestLoop m accepts (st.reader.flatten.length + 1) st = .error e st' := h
  obtain ⟨out, xs, ys, rest, last, ho, hf⟩ := requestLoop_forwarded m accepts _ st st' hloop
  rw [hst, List.nil_append] at ho
  subst ho
  exact ⟨⟨xs, ys, rest, last, hf⟩, hf.confined, fun w hd hw hr => hf.confined.onlyUpstream hw hr⟩

end H1
