import FingerprintBridge.H1.Forward
import FingerprintBridge.H1.Grammar
import FingerprintBridge.H1.Strict
import FingerprintBridge.Scripts.OrderVariance
import FingerprintBridge.Scripts.PairedMapping

/-!
# The lab's check of HTTP/1.1

The requests that the bridge read and those that it wrote, brought into the lab's form: the lab
finds a difference exactly where the bridge maps a field otherwise than the lab does.
-/

namespace PairedHttp

open H1 (Message Rewritten octetsOf fieldLines fieldLines_section firstLine firstLine_section)
open OrderPolicy (HpackModule)
open Tls (lowerHex lowerHex_inj)

section
variable {U : UrlCrate} (m : Mapping U)

/-! ## Fields -/

/-- The value of a field in the lab's form: the blanks before it stay. -/
def labValue (name v : Bytes) : Bytes :=
  v.takeWhile isOwsByte ++ toUpstream m (asciiLower name) (v.dropWhile isOwsByte)

/-- The bridge maps the field on the line as the lab does. -/
def MappedAlike (line : Bytes) : Prop :=
  ∃ name v, 58 ∉ name ∧ line = name ++ 58 :: v ∧ m.value name v false = .ok (labValue m name v)

theorem fieldForm_field (name v : Bytes) (h : 58 ∉ name) :
    fieldForm (utf8 m.publicAuthority) (utf8 m.upstream) (name ++ 58 :: v) =
      .ok (name ++ 58 :: labValue m name v) := by
  have hblanks : v.take (v.length - (v.dropWhile isOwsByte).length) = v.takeWhile isOwsByte := by
    have hlen : v.length - (v.dropWhile isOwsByte).length = (v.takeWhile isOwsByte).length := by
      have := congrArg List.length (List.takeWhile_append_dropWhile (p := isOwsByte) (l := v))
      rw [List.length_append] at this
      omega
    rw [hlen]
    nth_rewrite 2 [← List.takeWhile_append_dropWhile (p := isOwsByte) (l := v)]
    exact List.take_left
  unfold fieldForm
  rw [findIdx?_append_cons 58 name v h]
  show Except.ok _ = Except.ok _
  rw [List.take_left, drop_through, hblanks]
  simp [labValue, toUpstream]

theorem labValue_settled {name v w : Bytes} (h : m.value name v false = .ok w) :
    labValue m name w = w := by
  have hcut := List.takeWhile_append_dropWhile (p := isOwsByte) (l := w)
  have hblanks : ∀ b ∈ w.takeWhile isOwsByte, isOwsByte b = true :=
    fun b hb => List.mem_takeWhile_imp hb
  rw [← hcut] at h
  have hsame : toUpstream m (asciiLower name) (w.dropWhile isOwsByte) = w.dropWhile isOwsByte :=
    mapped_eq_iff.2 fun value' hr => settled m h hblanks hr
  unfold labValue
  rw [hsame, hcut]

/-- No line end comes in. -/
theorem labValue_line (name v : Bytes) (h : 10 ∉ v) : 10 ∉ labValue m name v := by
  have hup : 10 ∉ utf8 m.upstream := by
    intro hm
    obtain ⟨c, hc, hc10⟩ := (mem_utf8_iff _ 10 (by decide)).1 hm
    have := m.upstream_printable c hc
    rw [hc10] at this
    exact absurd this (by decide)
  have hrest : 10 ∉ v.dropWhile isOwsByte := fun hm => h ((List.dropWhile_suffix _).mem hm)
  unfold labValue
  intro hm
  rcases List.mem_append.1 hm with hm | hm
  · exact h ((List.takeWhile_prefix _).mem hm)
  · unfold toUpstream at hm
    generalize v.dropWhile isOwsByte = value at hrest hm
    rcases mapped_cases (asciiLower name) value (utf8 m.publicAuthority) (utf8 m.upstream) with
      hr | ⟨heq, -⟩
    · generalize mapped (asciiLower name) value (utf8 m.publicAuthority) (utf8 m.upstream) = u at hr hm
      cases hr with
      | authority hname => exact hup hm
      | url front rest hname hfront _ =>
        simp only [List.mem_append, not_or] at hrest hm
        rcases hm with (hm | hm) | hm
        · exact hrest.1.1 hm
        · exact hup hm
        · exact hrest.2 hm
    · rw [heq] at hm
      exact hrest hm

/-- The forms of a field that the bridge forwards: what it wrote is its own. -/
theorem fieldForm_forward {c c' : Bytes} (h : m.FieldTo false c c') (hc : 10 ∉ c) :
    ∃ form, fieldForm (utf8 m.publicAuthority) (utf8 m.upstream) c = .ok form ∧
      fieldForm (utf8 m.publicAuthority) (utf8 m.upstream) c' = .ok c' ∧ 10 ∉ form ∧
      (form = c' ↔ MappedAlike m c) := by
  obtain ⟨name, v, w, htok, rfl, hv, rfl⟩ := h
  have hcolon := htok.colon
  have hv10 : 10 ∉ v := fun hm => hc (List.mem_append_right _ (List.mem_cons_of_mem _ hm))
  have hname10 : 10 ∉ name := fun hm => hc (List.mem_append_left _ hm)
  refine ⟨_, fieldForm_field m name v hcolon, ?_, ?_, ?_⟩
  · rw [fieldForm_field m name w hcolon, labValue_settled m hv]
  · intro hm
    rcases List.mem_append.1 hm with hm | hm
    · exact hname10 hm
    · rcases List.mem_cons.1 hm with hm | hm
      · exact absurd hm (by decide)
      · exact labValue_line m name v hv10 hm
  · constructor
    · intro heq
      obtain ⟨-, heq⟩ := append_cons_inj 58 _ _ _ _ hcolon hcolon heq
      exact ⟨name, v, hcolon, rfl, heq ▸ hv⟩
    · rintro ⟨name', v', hcolon', heq, hv'⟩
      obtain ⟨rfl, rfl⟩ := append_cons_inj 58 _ _ _ _ hcolon hcolon' heq
      rw [Except.ok.inj (hv'.symm.trans hv)]

theorem fieldForms_forward {fs fs' : List Bytes} (h : List.Forall₂ (m.FieldTo false) fs fs')
    (hfs : ∀ c ∈ fs, 10 ∉ c) :
    ∃ forms, fs.mapM (fieldForm (utf8 m.publicAuthority) (utf8 m.upstream)) = .ok forms ∧
      fs'.mapM (fieldForm (utf8 m.publicAuthority) (utf8 m.upstream)) = .ok fs' ∧
      (∀ form ∈ forms, 10 ∉ form) ∧ (forms = fs' ↔ ∀ c ∈ fs, MappedAlike m c) := by
  induction h with
  | nil => exact ⟨[], rfl, rfl, by simp, by simp⟩
  | @cons c c' fs fs' hc _ ih =>
    obtain ⟨hc10, hfs⟩ := List.forall_mem_cons.1 hfs
    obtain ⟨form, hform, hform', hline, hsame⟩ := fieldForm_forward m hc hc10
    obtain ⟨forms, hforms, hforms', hlines, hall⟩ := ih hfs
    have h1 := (mapM_ok_iff _ _ _).1 hforms
    have h2 := (mapM_ok_iff _ _ _).1 hforms'
    refine ⟨form :: forms, (mapM_ok_iff _ _ _).2 (.cons hform h1),
      (mapM_ok_iff _ _ _).2 (.cons hform' h2), List.forall_mem_cons.2 ⟨hline, hlines⟩, ?_⟩
    rw [List.cons_eq_cons, hsame, hall, List.forall_mem_cons]

/-! ## Heads -/

/-- The lines of a head, without the end of the last one and the empty line. -/
def linesOf (head : Bytes) : Bytes := head.take (head.length - 4)

theorem linesOf_section (c : Bytes) (cs : List Bytes) :
    linesOf (sectionOf (c :: cs)) = crlf.intercalate (c :: cs) := by
  unfold linesOf
  rw [sectionOf_intercalate, List.length_append,
    show (crlf ++ crlf).length = 4 from rfl, Nat.add_sub_cancel, List.take_left]

theorem headForm_lines (publicAuthority upstream first : Bytes) (fs : List Bytes)
    (hl : ∀ c ∈ first :: fs, 10 ∉ c) :
    headForm publicAuthority upstream (crlf.intercalate (first :: fs)) = (do
      ensure ((ascii "GET ").isPrefixOf first = true) "paired lab only accepts bodyless GET"
      let lines ← fs.mapM (fieldForm publicAuthority upstream)
      return lowerHex (crlf.intercalate (first :: lines))) := by
  unfold headForm
  rw [splitSeq_intercalate (by decide) first fs fun c hc => clear_crlf c (hl c hc)]

/-- The lab takes the head for one of a request without a body. -/
def IsGet (head : Bytes) : Prop := ascii "GET " <+: firstLine head

/-- The forms of a head that the bridge forwards. -/
theorem headForm_forward {head head' : Bytes} (hs : IsSection head)
    (h : m.h1Head head false = .ok head') :
    ((∃ form, headForm (utf8 m.publicAuthority) (utf8 m.upstream) (linesOf head) = .ok form) ↔
      IsGet head) ∧
    ∀ form, headForm (utf8 m.publicAuthority) (utf8 m.upstream) (linesOf head) = .ok form →
      ∃ form', headForm (utf8 m.publicAuthority) (utf8 m.upstream) (linesOf head') = .ok form' ∧
        (form = form' ↔ ∀ line ∈ fieldLines head, MappedAlike m line) := by
  obtain ⟨cs, hcs, rfl⟩ := hs
  obtain ⟨first, fs, fs', rfl, hto, rfl, -⟩ := (m.h1Head_ok_iff false cs hcs head').1 h
  obtain ⟨⟨-, hfirst⟩, hfs⟩ := (lines_cons _ _).1 hcs
  have hfs' := m.forall₂_fieldTo_lines false hto hfs
  obtain ⟨forms, hforms, hforms', hlines, hall⟩ :=
    fieldForms_forward m hto fun c hc => (hfs c hc).2
  have hl : ∀ c ∈ first :: fs, 10 ∉ c := fun c hc => (hcs c hc).2
  have hl' : ∀ c ∈ first :: fs', 10 ∉ c :=
    List.forall_mem_cons.2 ⟨hfirst, fun c hc => (hfs' c hc).2⟩
  rw [linesOf_section, linesOf_section, headForm_lines _ _ _ _ hl, headForm_lines _ _ _ _ hl', hforms,
    hforms', IsGet, firstLine_section first fs hfirst, fieldLines_section first fs hcs]
  by_cases hget : (ascii "GET ").isPrefixOf first = true
  · rw [ensure, if_pos hget]
    refine ⟨iff_of_true ⟨_, rfl⟩ (List.isPrefixOf_iff_prefix.1 hget), fun form hform => ?_⟩
    obtain rfl := Except.ok.inj hform
    refine ⟨_, rfl, ?_⟩
    rw [lowerHex_inj.eq_iff, ← hall]
    constructor
    · intro heq
      have hclear : ∀ p ∈ first :: forms, Clear crlf p :=
        List.forall_mem_cons.2 ⟨clear_crlf first hfirst, fun p hp => clear_crlf p (hlines p hp)⟩
      have hclear' : ∀ p ∈ first :: fs', Clear crlf p := fun p hp => clear_crlf p (hl' p hp)
      exact (List.cons.inj (intercalate_inj (by decide) hclear hclear' heq)).2
    · intro heq
      rw [heq]
  · rw [ensure, if_neg hget]
    refine ⟨iff_of_false ?_ fun hp => hget (List.isPrefixOf_iff_prefix.2 hp), fun form hform => ?_⟩
    · rintro ⟨form, hform⟩
      cases hform
    · cases hform

/-- The forms of heads that stand one after the other. -/
theorem headForms_ok_iff (publicAuthority upstream : Bytes) (heads : List Bytes)
    (h : ∀ head ∈ heads, ∃ c cs, Lines (c :: cs) ∧ head = sectionOf (c :: cs)) (forms : List Str) :
    headForms publicAuthority upstream heads.flatten = .ok forms ↔ heads.length = 2 ∧
      List.Forall₂ (fun head form => headForm publicAuthority upstream (linesOf head) = .ok form)
        heads forms := by
  have hcut : ∀ head ∈ heads, head = linesOf head ++ (crlf ++ crlf) ∧
      Clear (crlf ++ crlf) (linesOf head) := by
    intro head hhead
    obtain ⟨c, cs, hcs, rfl⟩ := h head hhead
    rw [linesOf_section]
    exact ⟨sectionOf_intercalate c cs, clear_section c cs hcs⟩
  have hflat : heads.flatten = (heads.map linesOf).flatMap (· ++ (crlf ++ crlf)) := by
    rw [List.flatMap_map, ← List.flatMap_id]
    exact List.flatMap_congr fun head hhead => (hcut head hhead).1
  have hclear : ∀ p ∈ heads.map linesOf, Clear (crlf ++ crlf) p := by
    intro p hp
    obtain ⟨head, hhead, rfl⟩ := List.mem_map.1 hp
    exact (hcut head hhead).2
  rw [hflat]
  cases heads with
  | nil =>
    refine iff_of_false (fun hno => ?_) fun hno => absurd hno.1 (by decide)
    cases hno
  | cons head heads =>
    rw [List.map_cons] at hclear ⊢
    rw [flatMap_separator]
    unfold headForms
    rw [Res.bind_ok_iff, List.length_append, show (crlf ++ crlf).length = 4 from rfl,
      Nat.add_sub_cancel, List.take_left, splitSeq_intercalate (by decide) _ _ hclear]
    constructor
    · rintro ⟨_, -, hrun⟩
      obtain ⟨forms', hforms, hrun⟩ := (Res.bind_ok_iff _ _ _).1 hrun
      obtain ⟨_, htwo, hrun⟩ := (Res.bind_ok_iff _ _ _).1 hrun
      obtain rfl := Except.ok.inj hrun
      have hall := (mapM_ok_iff _ _ _).1 hforms
      rw [← List.map_cons, List.forall₂_map_left_iff] at hall
      rw [hall.length_eq]
      exact ⟨(Res.ensure_ok_iff _ _ _).1 htwo, hall⟩
    · rintro ⟨htwo, hall⟩
      rw [hall.length_eq] at htwo
      have hall := (List.forall₂_map_left_iff (f := linesOf)
        (R := fun lines form => headForm publicAuthority upstream lines = .ok form)).2 hall
      rw [List.map_cons] at hall
      refine ⟨(), (Res.ensure_ok_iff _ _ _).2 ?_, ?_⟩
      · exact List.isSuffixOf_iff_suffix.2 (List.suffix_append _ _)
      · rw [(mapM_ok_iff _ _ _).2 hall]
        refine (Res.bind_ok_iff _ _ _).2 ⟨forms, rfl, ?_⟩
        exact (Res.bind_ok_iff _ _ _).2 ⟨(), (Res.ensure_ok_iff _ _ _).2 htwo, rfl⟩

theorem forms_forward {xs ys : List Message} (h : List.Forall₂ (Rewritten m false) xs ys)
    (hs : ∀ x ∈ xs, IsSection x.head) :
    ((∃ forms, List.Forall₂ (fun head form =>
        headForm (utf8 m.publicAuthority) (utf8 m.upstream) (linesOf head) = .ok form)
          (xs.map Message.head) forms) ↔ ∀ x ∈ xs, IsGet x.head) ∧
    ∀ forms, List.Forall₂ (fun head form =>
        headForm (utf8 m.publicAuthority) (utf8 m.upstream) (linesOf head) = .ok form)
          (xs.map Message.head) forms →
      ∃ forms', List.Forall₂ (fun head form =>
          headForm (utf8 m.publicAuthority) (utf8 m.upstream) (linesOf head) = .ok form)
            (ys.map Message.head) forms' ∧
        (forms = forms' ↔ ∀ x ∈ xs, ∀ line ∈ fieldLines x.head, MappedAlike m line) := by
  induction h with
  | nil =>
    refine ⟨iff_of_true ⟨[], .nil⟩ (by simp), fun forms hforms => ?_⟩
    cases hforms
    exact ⟨[], .nil, by simp⟩
  | @cons x y xs ys hxy _ ih =>
    obtain ⟨hx, hxs⟩ := List.forall_mem_cons.1 hs
    obtain ⟨hget, hform⟩ := headForm_forward m hx hxy.1
    obtain ⟨hgets, hforms⟩ := ih hxs
    constructor
    · rw [List.forall_mem_cons, ← hget, ← hgets]
      constructor
      · rintro ⟨_, hall⟩
        obtain ⟨form, forms, h1, h2, rfl⟩ := List.forall₂_cons_left_iff.1 hall
        exact ⟨⟨form, h1⟩, forms, h2⟩
      · rintro ⟨⟨form, h1⟩, forms, h2⟩
        exact ⟨form :: forms, .cons h1 h2⟩
    · intro forms hall
      obtain ⟨form, forms, h1, h2, rfl⟩ := List.forall₂_cons_left_iff.1 hall
      obtain ⟨form', h1', hsame⟩ := hform form h1
      obtain ⟨forms', h2', hsames⟩ := hforms forms h2
      refine ⟨form' :: forms', .cons h1' h2', ?_⟩
      rw [List.cons_eq_cons, hsame, hsames, List.forall_mem_cons]

theorem isSections {flags : List Bool} {xs : List Message} {rest : Bytes}
    (h : H1.IsStream H1.MAX_HEAD false rest flags xs) : ∀ x ∈ xs, IsSection x.head := by
  induction h with
  | nil => simp
  | cons noBody flags x xs hx _ ih => exact List.forall_mem_cons.2 ⟨hx.isSection, ih⟩

/-- A head that the bridge maps has a line, and so has what it is mapped to. -/
theorem sections {x y : Message} (h : Rewritten m false x y) (hs : IsSection x.head) :
    (∃ c cs, Lines (c :: cs) ∧ x.head = sectionOf (c :: cs)) ∧
      ∃ c cs, Lines (c :: cs) ∧ y.head = sectionOf (c :: cs) := by
  obtain ⟨cs, hcs, hx⟩ := hs
  have hhead := h.1
  rw [hx] at hhead
  obtain ⟨first, fs, fs', rfl, hto, hy, -⟩ := (m.h1Head_ok_iff false cs hcs y.head).1 hhead
  obtain ⟨hfirst, hfs⟩ := (lines_cons _ _).1 hcs
  exact ⟨⟨first, fs, hcs, hx⟩, first, fs',
    (lines_cons _ _).2 ⟨hfirst, m.forall₂_fieldTo_lines false hto hfs⟩, hy⟩

theorem octetsOf_heads {xs : List Message} (h : ∀ x ∈ xs, x.payload = []) :
    octetsOf xs = (xs.map Message.head).flatten := by
  rw [octetsOf, ← List.flatMap_id, List.flatMap_map]
  refine List.flatMap_congr fun x hx => ?_
  rw [Message.octets, h x hx, List.append_nil]
  rfl

/-! ## The comparison -/

/-- What was captured of a connection: what the client sent and what the origin got. -/
def document (protocol : String) (input output : Bytes) : Document :=
  { protocol, inbound := { bytes := input }, outbound := { bytes := output } }

theorem compare_http1 (H : HpackModule) (input output : Bytes) (publicAuthority upstream : Str)
    (v : Verdict) :
    compare H (document "http/1.1" input output) publicAuthority upstream = .ok v ↔
      ∃ left right, headForms (utf8 publicAuthority) (utf8 upstream) input = .ok left ∧
        headForms (utf8 publicAuthority) (utf8 upstream) output = .ok right ∧
        v = { pass := left = right, inbound := .http1 left, outbound := .http1 right } := by
  unfold compare normalize document
  rw [if_pos rfl, if_pos rfl]
  constructor
  · intro h
    obtain ⟨_, -, h⟩ := (Res.bind_ok_iff _ _ _).1 h
    obtain ⟨_, hl, h⟩ := (Res.bind_ok_iff _ _ _).1 h
    obtain ⟨left, hleft, hl⟩ := (Res.bind_ok_iff _ _ _).1 hl
    obtain rfl := Except.ok.inj hl
    obtain ⟨_, hr, h⟩ := (Res.bind_ok_iff _ _ _).1 h
    obtain ⟨right, hright, hr⟩ := (Res.bind_ok_iff _ _ _).1 hr
    obtain rfl := Except.ok.inj hr
    refine ⟨left, right, hleft, hright, ?_⟩
    rw [← Except.ok.inj h]
    simp
  · rintro ⟨left, right, hleft, hright, rfl⟩
    rw [hleft, hright]
    show Except.ok _ = Except.ok _
    simp

/-- **The lab's check of HTTP/1.1.**  A request loop that ends without an error has read
messages and written them with their heads mapped; if they have no body, the lab comes to a verdict
exactly if they are two that begin with `GET`, and it passes them exactly if the bridge mapped every
field as the lab does. -/
theorem paired_requests (H : HpackModule) (accepts : Nat → Bool) (st st' : H1.Conn)
    (hout : st.output = []) (hrun : H1.requests m accepts st = .ok () st') :
    ∃ xs ys, H1.Transparent m false (List.replicate xs.length false) xs ys st st' ∧
      ((∀ x ∈ xs, x.payload = []) →
        ((∃ v, compare H (document "http/1.1" st.reader.flatten st'.output) m.publicAuthority
            m.upstream = .ok v) ↔ xs.length = 2 ∧ ∀ x ∈ xs, IsGet x.head) ∧
        ∀ v, compare H (document "http/1.1" st.reader.flatten st'.output) m.publicAuthority
            m.upstream = .ok v →
          (v.pass = true ↔ ∀ x ∈ xs, ∀ line ∈ fieldLines x.head, MappedAlike m line)) := by
  obtain ⟨reader, st1, hg, hloop⟩ := (Act.bind_ok_iff _ _ _ _ _).1 hrun
  cases hg
  obtain ⟨xs, ys, hxs, hcame, hend, hys, hwritten⟩ :=
    H1.requestLoop_ok m accepts _ st st' (Nat.lt_succ_self _) hloop
  have hto : List.Forall₂ (Rewritten m false) xs ys := hys.imp fun x y hxy => hxy.rewritten m
  refine ⟨xs, ys, ?_, fun hempty => ?_⟩
  · rw [← hend] at hxs
    refine H1.Transparent.of_stream m hxs ?_ hto hwritten
    rw [hcame, hend, List.append_nil]
  · have hsections := isSections hxs
    have hempty' : ∀ y ∈ ys, y.payload = [] := by
      intro y hy
      obtain ⟨x, hx, hxy⟩ := forall₂_mem_right hto y hy
      rw [hxy.2.2, hempty x hx]
    have hinput : ∀ head ∈ xs.map Message.head, ∃ c cs, Lines (c :: cs) ∧ head = sectionOf (c :: cs) := by
      intro head hhead
      obtain ⟨x, hx, rfl⟩ := List.mem_map.1 hhead
      obtain ⟨y, -, hxy⟩ := forall₂_mem_right hto.flip x hx
      exact (sections m hxy (hsections x hx)).1
    have houtput : ∀ head ∈ ys.map Message.head, ∃ c cs, Lines (c :: cs) ∧ head = sectionOf (c :: cs) := by
      intro head hhead
      obtain ⟨y, hy, rfl⟩ := List.mem_map.1 hhead
      obtain ⟨x, hx, hxy⟩ := forall₂_mem_right hto y hy
      exact (sections m hxy (hsections x hx)).2
    have hleft := headForms_ok_iff (utf8 m.publicAuthority) (utf8 m.upstream) _ hinput
    have hright := headForms_ok_iff (utf8 m.publicAuthority) (utf8 m.upstream) _ houtput
    rw [hout, List.nil_append] at hwritten
    rw [← octetsOf_heads hempty, ← hcame, List.length_map] at hleft
    rw [← octetsOf_heads hempty', ← hwritten, List.length_map, ← hto.length_eq] at hright
    obtain ⟨hgets, hforms⟩ := forms_forward m hto hsections
    constructor
    · constructor
      · rintro ⟨v, hv⟩
        obtain ⟨left, right, hl, -, -⟩ := (compare_http1 H _ _ _ _ v).1 hv
        obtain ⟨htwo, hall⟩ := (hleft left).1 hl
        exact ⟨htwo, hgets.1 ⟨left, hall⟩⟩
      · rintro ⟨htwo, hget⟩
        obtain ⟨left, hall⟩ := hgets.2 hget
        obtain ⟨right, hall', -⟩ := hforms left hall
        exact ⟨_, (compare_http1 H _ _ _ _ _).2
          ⟨left, right, (hleft left).2 ⟨htwo, hall⟩, (hright right).2 ⟨htwo, hall'⟩, rfl⟩⟩
    · intro v hv
      obtain ⟨left, right, hl, hr, rfl⟩ := (compare_http1 H _ _ _ _ v).1 hv
      obtain ⟨right', hall', hsame⟩ := hforms left ((hleft left).1 hl).2
      obtain rfl : right = right' := by
        have hr' := (hright right').2 ⟨((hright right).1 hr).1, hall'⟩
        exact Except.ok.inj (hr.symm.trans hr')
      rw [decide_eq_true_iff, hsame]

end

/-- No requests: there is nothing that a verdict could be about. -/
example : compare OrderPolicy.rfcHpack (document "http/1.1" [] []) [] [] =
    .error (.err "truncated HTTP/1 headers") := by decide +kernel

/-- A port with a zero before it: the bridge knows it, and the lab finds a difference. -/
example : (compare OrderPolicy.rfcHpack (document "http/1.1"
    (ascii "GET / HTTP/1.1\r\nHost: b.test:08443\r\n\r\nGET / HTTP/1.1\r\nHost: b.test:8443\r\n\r\n")
    (ascii "GET / HTTP/1.1\r\nHost: a.test:9443\r\n\r\nGET / HTTP/1.1\r\nHost: a.test:9443\r\n\r\n"))
    "b.test:8443".toList "a.test:9443".toList).map Verdict.pass = .ok false := by decide +kernel

/-- Two requests, the second cut in the middle of its field. -/
def sampleRequests : H1.Conn :=
  { reader := [ascii "GET / HTTP/1.1\r\nHost: b.test:08443\r\n\r\nGET /x HTTP/1.1\r\nho",
      ascii "st:b.test:8443\r\nOrigin: https://b.test:8443\r\n\r\n"],
    output := [], channel := [] }

/-- What the bridge writes for them. -/
def sampleForwarded : List Message :=
  [{ head := ascii "GET / HTTP/1.1\r\nHost: a.test:9443\r\n\r\n", kind := .empty, payload := [] },
    { head := ascii "GET /x HTTP/1.1\r\nhost:a.test:9443\r\nOrigin: https://a.test:9443\r\n\r\n"
      kind := .empty, payload := [] }]

theorem sampleForwarded_isStream :
    H1.IsStream H1.MAX_HEAD false [] [false, false] sampleForwarded := by
  have hread : ∀ x rest, (H1.message H1.MAX_HEAD false false).value?
      { reader := [x.octets ++ rest], output := [], channel := [] } = some (some x) →
        H1.IsMessage H1.MAX_HEAD false false x rest := by
    intro x rest h
    obtain ⟨st', hrun⟩ := (Act.value?_eq_some_iff _ _ _).1 h
    obtain ⟨_, rest', ⟨-, hr⟩, -⟩ :=
      (H1.reads_message H1.MAX_HEAD false false _).sound _ _ _ rfl hrun
    rcases hr with ⟨h0, -⟩ | ⟨x', hx', hmessage, hoctets⟩
    · cases h0
    obtain rfl := Option.some.inj hx'
    rw [List.flatten_singleton] at hoctets
    rwa [List.append_cancel_left hoctets]
  refine .cons _ _ _ _ (hread _ _ ?_) (.cons _ _ _ _ (hread _ _ ?_) .nil)
  · decide +kernel
  · decide +kernel

theorem paired_requests_sample : ∃ st' v xs ys,
    H1.requests sampleMapping (fun _ => true) sampleRequests = .ok () st' ∧
    H1.Transparent sampleMapping false (List.replicate xs.length false) xs ys sampleRequests st' ∧
    compare OrderPolicy.rfcHpack (document "http/1.1" sampleRequests.reader.flatten st'.output)
      sampleMapping.publicAuthority sampleMapping.upstream = .ok v ∧
    v.pass = false ∧ ∃ x ∈ xs, ∃ line ∈ fieldLines x.head, ¬ MappedAlike sampleMapping line := by
  obtain ⟨st', h⟩ := (Act.value?_eq_some_iff (H1.requests sampleMapping fun _ => true)
    sampleRequests ()).1 (by decide +kernel)
  have hout : st'.output = octetsOf sampleForwarded := by
    rw [← Act.final_ok h]
    decide +kernel
  obtain ⟨xs, ys, htrans, hverdict⟩ :=
    paired_requests sampleMapping OrderPolicy.rfcHpack _ sampleRequests st' rfl h
  -- what was written is read as `ys`, so `ys` are these two, and neither has a body
  have hys : ys = sampleForwarded := by
    have hwritten : octetsOf ys = octetsOf sampleForwarded := htrans.written.symm.trans hout
    obtain ⟨_, hagain, -⟩ := htrans.again H1.MAX_HEAD (List.replicate 2 false)
      (by rw [hwritten]; decide +kernel) ⟨[octetsOf ys], [], []⟩ List.flatten_singleton
    obtain ⟨_, hsample, -⟩ := sampleForwarded_isStream.readAs (List.replicate xs.length false)
      (.inr rfl) ⟨[octetsOf ys], [], []⟩ (by rw [hwritten]; exact List.flatten_singleton)
    rw [List.replicate_append_replicate, Nat.add_comm, ← List.replicate_append_replicate] at hagain
    exact (EStateM.Result.ok.inj (hagain.symm.trans hsample)).1
  have hempty : ∀ x ∈ xs, x.payload = [] := by
    intro x hx
    obtain ⟨y, hy, hxy⟩ := forall₂_mem_right htrans.rewritten.flip x hx
    have hnone : ∀ y ∈ sampleForwarded, y.payload = [] := by decide
    rw [← hxy.2.2]
    exact hnone y (hys ▸ hy)
  obtain ⟨v, hv, hpass⟩ : ∃ v, compare OrderPolicy.rfcHpack
      (document "http/1.1" sampleRequests.reader.flatten (octetsOf sampleForwarded))
      sampleMapping.publicAuthority sampleMapping.upstream = .ok v ∧ v.pass = false :=
    ⟨_, rfl, by decide +kernel⟩
  rw [← hout] at hv
  refine ⟨st', v, xs, ys, h, htrans, hv, hpass, ?_⟩
  by_contra hall
  push Not at hall
  have := ((hverdict hempty).2 v hv).2 hall
  rw [hpass] at this
  cases this

end PairedHttp
