import FingerprintBridge.Rewrite.Authority
import FingerprintBridge.Rewrite.Whitespace

/-!
# What a mapping does to a head

A mapped value has no character that the value did not have, but for printable ones
(`value_chars`): a rewritten field stays on its line.  A head is a section, and
`h1Head` maps it field by field (`h1Head_ok_iff`).
-/

/-! ## Characters of a mapped value -/

/-- An authority, and the host it names, are printable. -/
theorem authority_printable {U : UrlCrate} (s host : Str) (port : UInt16)
    (h : authority U s = .ok (host, port)) :
    (∀ c ∈ s, 32 < c.toNat) ∧ ∀ c ∈ host, 32 < c.toNat := by
  obtain ⟨hplain, u, host', hu, hhost, hlower, -⟩ := (authority_ok_iff s (host, port)).1 h
  refine ⟨fun c hc => (hplain.1 c hc).2.1, fun c hc => ?_⟩
  rw [← show strLower host' = host from hlower] at hc
  obtain ⟨d, hd, rfl⟩ := List.mem_map.1 hc
  exact toLower_printable d (U.host_printable _ u host' hu hhost d hd).1

namespace Mapping

variable {U : UrlCrate} (m : Mapping U)

theorem upstream_printable : ∀ c ∈ m.upstream, 32 < c.toNat :=
  (authority_printable _ _ _ m.upstream_ok).1

theorem publicAuthority_printable : ∀ c ∈ m.publicAuthority, 32 < c.toNat :=
  (authority_printable _ _ _ m.public_ok).1

theorem publicHost_printable : ∀ c ∈ m.publicHost, 32 < c.toNat :=
  (authority_printable _ _ _ m.public_ok).2

/-- `t` has no characters but those of `s` and printable ones. -/
def Within (s t : Str) : Prop := ∀ c ∈ t, c ∈ s ∨ 32 < c.toNat

theorem Within.append {s t u : Str} (ht : Within s t) (hu : Within s u) : Within s (t ++ u) := by
  intro c hc
  rcases List.mem_append.1 hc with hc | hc
  · exact ht c hc
  · exact hu c hc

theorem Within.of_subset {s t : Str} (h : ∀ c ∈ t, c ∈ s) : Within s t := fun c hc => Or.inl (h c hc)

theorem Within.of_printable {s t : Str} (h : ∀ c ∈ t, 32 < c.toNat) : Within s t :=
  fun c hc => Or.inr (h c hc)

theorem Within.trans {s t u : Str} (ht : Within s t) (hu : Within t u) : Within s u := by
  intro c hc
  rcases hu c hc with hc | hc
  · exact ht c hc
  · exact Or.inr hc

theorem mapUrl_within (s t : Str) (response : Bool) (h : m.mapUrl s response = .ok t) :
    Within s t := by
  rcases (m.mapUrl_ok_iff s t response).1 h with ⟨pre, piece, rest, hm, rfl⟩ | ⟨-, rfl⟩
  · have hother : ∀ c ∈ m.other response, 32 < c.toNat := by
      cases response with
      | true => exact m.publicAuthority_printable
      | false => exact m.upstream_printable
    refine (Within.append (Within.of_subset fun c hc => ?_) (Within.of_printable hother)).append
      (Within.of_subset fun c hc => ?_)
    · rw [hm.cut]
      exact List.mem_append_left _ (List.mem_append_left _ hc)
    · rw [hm.cut]
      exact List.mem_append_right _ hc
  · exact Within.of_subset fun c hc => hc

theorem cookieAttribute_within (part : Str) : Within part (m.cookieAttribute part) := by
  have hself : Within part part := Within.of_subset fun c hc => hc
  unfold cookieAttribute
  split
  · exact hself
  · next eq heq =>
    split
    · simp only
      split
      · refine Within.append (Within.append (Within.append (Within.append ?_ ?_) ?_) ?_) ?_
        · exact Within.of_subset fun c => List.mem_of_mem_take
        · exact Within.of_subset fun c hc => List.mem_of_mem_drop (List.mem_of_mem_take hc)
        · apply Within.of_printable
          split
          · decide
          · exact fun c hc => nomatch hc
        · exact Within.of_printable m.publicHost_printable
        · exact Within.of_subset fun c hc => List.mem_of_mem_drop (List.mem_of_mem_drop hc)
      · exact hself
    · exact hself

theorem setCookie_within (s : Str) : Within s (m.setCookie s) := by
  have hparts := mem_of_mem_splitOn ';' s
  unfold setCookie
  split
  · exact fun c hc => nomatch hc
  · next first parts hs =>
    rw [hs] at hparts
    refine Within.append (Within.of_subset (hparts first List.mem_cons_self)) fun c hc => ?_
    obtain ⟨part, hp, hc⟩ := List.mem_flatMap.1 hc
    rcases List.mem_cons.1 hc with rfl | hc
    · exact Or.inr (by decide)
    · exact (Within.of_subset (hparts part (List.mem_cons_of_mem _ hp))).trans
        (m.cookieAttribute_within part) c hc

theorem mapTrimmed_within (lower : Bytes) (s t : Str) (response : Bool)
    (h : m.mapTrimmed lower s response = .ok t) : Within s t := by
  unfold mapTrimmed at h
  split at h
  · obtain ⟨ok, -, h⟩ := (Res.bind_ok_iff _ _ _).1 h
    obtain ⟨_, -, h⟩ := (Res.bind_ok_iff _ _ _).1 h
    cases h
    exact Within.of_printable m.upstream_printable
  · split at h
    · exact m.mapUrl_within s t response h
    · split at h
      · cases h
        exact m.setCookie_within s
      · cases h

/-- `Host` and `:authority`, in whatever letter case. -/
def isAuthorityName (name : Bytes) : Bool :=
  asciiLower name == ascii "host" || asciiLower name == ascii ":authority"

/-- A mapped authority is the upstream, between blanks. -/
theorem value_authority (name v v' : Bytes) (hn : isAuthorityName name = true)
    (h : m.value name v false = .ok v') : strip isOwsByte v' = utf8 m.upstream := by
  have hr : relevant (asciiLower name) false = true := by
    unfold relevant
    unfold isAuthorityName at hn
    rw [if_neg Bool.false_ne_true, hn]
    rfl
  obtain ⟨pre, mid, post, mapped, rfl, hp, hm, rfl⟩ := (m.value_ok_iff name v v' false hr).1 h
  have hup : mapped = m.upstream := by
    unfold mapTrimmed at hm
    unfold isAuthorityName at hn
    rw [if_pos hn] at hm
    obtain ⟨ok, -, hm⟩ := (Res.bind_ok_iff _ _ _).1 hm
    obtain ⟨_, -, hm⟩ := (Res.bind_ok_iff _ _ _).1 hm
    cases hm
    rfl
  have hprintable : ∀ c ∈ mapped, isOws c = false := by
    rw [hup]
    exact fun c hc => isOws_of_printable c (m.upstream_printable c hc)
  rw [strip_utf8,
    show trim isOws (pre ++ mapped ++ post) = strip isOws (pre ++ mapped ++ post) from rfl,
    strip_eq isOws pre mapped post hp.before hp.after, hup]
  · exact fun c hc => hprintable c (List.mem_of_head? hc)
  · exact fun c hc => hprintable c (List.mem_of_getLast? hc)

/-- No octet below 33 comes in with a mapped value. -/
theorem value_octets (name v v' : Bytes) (response : Bool) (h : m.value name v response = .ok v')
    (b : UInt8) (hb : b.toNat ≤ 32) (hv : b ∉ v) : b ∉ v' := by
  cases hr : relevant (asciiLower name) response with
  | false =>
    rw [m.value_irrelevant name v response hr] at h
    cases h
    exact hv
  | true =>
    obtain ⟨pre, mid, post, mapped, rfl, -, hm, rfl⟩ := (m.value_ok_iff name v v' response hr).1 h
    have hw : Within (pre ++ mid ++ post) (pre ++ mapped ++ post) := by
      refine Within.append (Within.append ?_ ?_) ?_
      · exact Within.of_subset fun c hc => by simp [hc]
      · exact Within.trans (Within.of_subset fun c hc => by simp [hc])
          (m.mapTrimmed_within _ mid mapped response hm)
      · exact Within.of_subset fun c hc => by simp [hc]
    intro hb'
    obtain ⟨c, hc, hcb⟩ := (mem_utf8_iff _ b (by omega)).1 hb'
    rcases hw c hc with hc | hc
    · exact hv ((mem_utf8_iff _ b (by omega)).2 ⟨c, hc, hcb⟩)
    · omega

/-! ## Fields -/

def IsToken (name : Bytes) : Prop := name ≠ [] ∧ ∀ b ∈ name, isTokenByte b = true

theorem isTokenByte_range (b : UInt8) (h : isTokenByte b = true) : 32 < b.toNat ∧ b ≠ 58 := by
  unfold isTokenByte at h
  refine ⟨?_, fun e => ?_⟩
  · simp only [Bool.or_eq_true, Bool.and_eq_true, decide_eq_true_eq, List.contains_eq_mem,
      List.mem_cons, List.not_mem_nil, or_false] at h
    omega
  · rw [e] at h
    exact absurd h (by decide)

theorem IsToken.colon {name : Bytes} (h : IsToken name) : 58 ∉ name :=
  fun hm => (isTokenByte_range 58 (h.2 58 hm)).2 rfl

/-- The field on the line `c`, mapped, is on the line `c'`. -/
def FieldTo (response : Bool) (c c' : Bytes) : Prop :=
  ∃ name v v', IsToken name ∧ c = name ++ 58 :: v ∧ m.value name v response = .ok v' ∧
    c' = name ++ 58 :: v'

theorem h1Field_ok_iff (c : Bytes) (response : Bool) (out : Bytes) :
    m.h1Field c response = .ok out ↔ ∃ c', m.FieldTo response c c' ∧ out = c' ++ crlf := by
  unfold h1Field
  constructor
  · intro h
    obtain ⟨_, -, h⟩ := (Res.bind_ok_iff _ _ _).1 h
    split at h
    · cases h
    · next colon hcolon =>
      obtain ⟨name, v, rfl, hname, rfl⟩ := findIdx?_split 58 c colon hcolon
      rw [List.take_left, drop_through, take_through] at h
      obtain ⟨_, htok, h⟩ := (Res.bind_ok_iff _ _ _).1 h
      have htok := (Res.ensure_ok_iff _ _ _).1 htok
      rw [List.all_eq_true] at htok
      obtain ⟨v', hv, h⟩ := (Res.bind_ok_iff _ _ _).1 h
      cases h
      exact ⟨name ++ 58 :: v', ⟨name, v, v', htok, rfl, hv, rfl⟩, by simp⟩
  · rintro ⟨_, ⟨name, v, v', htok, rfl, hv, rfl⟩, rfl⟩
    have hhead : (name ++ 58 :: v).head? ≠ some 32 ∧ (name ++ 58 :: v).head? ≠ some 9 := by
      obtain ⟨hne, hall⟩ := htok
      cases name with
      | nil => exact (hne rfl).elim
      | cons b name =>
        have hb := (isTokenByte_range b (hall b List.mem_cons_self)).1
        simp only [List.cons_append, List.head?_cons, ne_eq, Option.some.injEq]
        refine ⟨?_, ?_⟩
        · rintro rfl
          exact absurd hb (by decide)
        · rintro rfl
          exact absurd hb (by decide)
    refine (Res.bind_ok_iff _ _ _).2 ⟨(), (Res.ensure_ok_iff _ _ _).2 hhead, ?_⟩
    rw [findIdx?_append_cons 58 name v htok.colon]
    simp only [List.take_left, drop_through, take_through]
    have htok' : name ≠ [] ∧ name.all isTokenByte = true := by
      rw [List.all_eq_true]
      exact htok
    refine (Res.bind_ok_iff _ _ _).2 ⟨(), (Res.ensure_ok_iff _ _ _).2 htok', ?_⟩
    refine (Res.bind_ok_iff _ _ _).2 ⟨v', hv, ?_⟩
    show Except.ok (name ++ [58] ++ v' ++ crlf) = _
    simp

/-- The name and the colon stay, and no line end comes in. -/
theorem FieldTo.line {response : Bool} {c c' : Bytes} (h : m.FieldTo response c c')
    (hc : 10 ∉ c) : c' ≠ [] ∧ 10 ∉ c' := by
  obtain ⟨name, v, v', htok, rfl, hv, rfl⟩ := h
  refine ⟨by simp, fun hm => ?_⟩
  rcases List.mem_append.1 hm with hm | hm
  · exact hc (List.mem_append_left _ hm)
  · rcases List.mem_cons.1 hm with hm | hm
    · exact absurd hm (by decide)
    · refine m.value_octets name v v' response hv 10 (by decide) (fun hv10 => hc ?_) hm
      exact List.mem_append_right _ (List.mem_cons_of_mem _ hv10)

theorem isHostLine_field (name v : Bytes) (h : 58 ∉ name) :
    isHostLine (name ++ 58 :: v) = eqIgnoreCase name (ascii "host") := by
  unfold isHostLine
  rw [findIdx?_append_cons 58 name v h]
  simp only [List.take_left]

/-! ## Heads -/

theorem h1Lines_ok_iff (response : Bool) (fs : List Bytes) (hfs : Lines fs) (out : Bytes)
    (hosts : Nat) :
    m.h1Lines response (fs.map (· ++ [13]) ++ [[13], []]) = .ok (out, hosts) ↔
      ∃ fs', List.Forall₂ (m.FieldTo response) fs fs' ∧ out = sectionOf fs' ∧
        hosts = fs.countP isHostLine := by
  induction fs generalizing out hosts with
  | nil =>
    have hnil : m.h1Lines response [[13], []] = .ok (crlf, 0) := rfl
    rw [List.map_nil, List.nil_append, hnil]
    constructor
    · intro h
      cases h
      exact ⟨[], .nil, rfl, rfl⟩
    · rintro ⟨fs', h, rfl, rfl⟩
      cases h
      rfl
  | cons c fs ih =>
    obtain ⟨⟨hne, -⟩, hfs⟩ := (lines_cons _ _).1 hfs
    rw [List.map_cons, List.cons_append]
    unfold h1Lines
    simp only [List.append_eq_nil_iff, List.cons_ne_nil, and_false, if_false,
      List.getLast?_append, List.getLast?_singleton, Option.some_or, List.dropLast_concat]
    constructor
    · intro h
      obtain ⟨_, -, h⟩ := (Res.bind_ok_iff _ _ _).1 h
      rw [if_neg hne] at h
      obtain ⟨o, ho, h⟩ := (Res.bind_ok_iff _ _ _).1 h
      obtain ⟨⟨rest, n⟩, hrest, h⟩ := (Res.bind_ok_iff _ _ _).1 h
      cases h
      obtain ⟨c', hc', rfl⟩ := (m.h1Field_ok_iff c response o).1 ho
      obtain ⟨fs', hfs', rfl, rfl⟩ := (ih hfs rest n).1 hrest
      exact ⟨c' :: fs', .cons hc' hfs', rfl, by rw [List.countP_cons, Nat.add_comm]⟩
    · rintro ⟨_, h, rfl, rfl⟩
      cases h with
      | @cons _ c' _ fs' hc' hfs' =>
        refine (Res.bind_ok_iff _ _ _).2 ⟨(), (Res.ensure_ok_iff _ _ _).2 trivial, ?_⟩
        rw [if_neg hne]
        refine (Res.bind_ok_iff _ _ _).2
          ⟨_, (m.h1Field_ok_iff c response _).2 ⟨c', hc', rfl⟩, ?_⟩
        refine (Res.bind_ok_iff _ _ _).2 ⟨_, (ih hfs _ _).2 ⟨fs', hfs', rfl, rfl⟩, ?_⟩
        show Except.ok _ = Except.ok _
        rw [List.countP_cons, Nat.add_comm]
        rfl

/-- A head is mapped line by line, but for the first. -/
theorem h1Head_ok_iff (response : Bool) (cs : List Bytes) (hcs : Lines cs) (out : Bytes) :
    m.h1Head (sectionOf cs) response = .ok out ↔
      ∃ first fs fs', cs = first :: fs ∧ List.Forall₂ (m.FieldTo response) fs fs' ∧
        out = sectionOf (first :: fs') ∧ (response = true ∨ fs.countP isHostLine = 1) := by
  cases cs with
  | nil =>
    have hnil : m.h1Head crlf response = .error (.err "invalid HTTP head") := rfl
    show m.h1Head crlf response = _ ↔ _
    rw [hnil]
    exact iff_of_false (fun h => nomatch h) (fun ⟨_, _, _, h, _⟩ => nomatch h)
  | cons first fs =>
    obtain ⟨⟨-, hfirst⟩, hfs⟩ := (lines_cons _ _).1 hcs
    have hsplit := splitOn_sectionOf (first :: fs) fun c hc => (hcs c hc).2
    unfold h1Head
    rw [hsplit, List.map_cons, List.cons_append]
    constructor
    · intro h
      obtain ⟨_, -, h⟩ := (Res.bind_ok_iff _ _ _).1 h
      obtain ⟨⟨o, hosts⟩, hl, h⟩ := (Res.bind_ok_iff _ _ _).1 h
      obtain ⟨_, hh, h⟩ := (Res.bind_ok_iff _ _ _).1 h
      cases h
      obtain ⟨fs', hfs', rfl, rfl⟩ := (m.h1Lines_ok_iff response fs hfs o hosts).1 hl
      exact ⟨first, fs, fs', rfl, hfs', by simp [sectionOf, crlf], (Res.ensure_ok_iff _ _ _).1 hh⟩
    · rintro ⟨_, _, fs', ⟨rfl, rfl⟩, hfs', rfl, hh⟩
      refine (Res.bind_ok_iff _ _ _).2
        ⟨(), (Res.ensure_ok_iff _ _ _).2 (sectionOf_suffix first fs), ?_⟩
      refine (Res.bind_ok_iff _ _ _).2
        ⟨_, (m.h1Lines_ok_iff response fs hfs _ _).2 ⟨fs', hfs', rfl, rfl⟩, ?_⟩
      refine (Res.bind_ok_iff _ _ _).2 ⟨(), (Res.ensure_ok_iff _ _ _).2 hh, ?_⟩
      show Except.ok _ = Except.ok _
      simp [sectionOf, crlf]

/-- A mapped head is a section again. -/
theorem forall₂_fieldTo_lines (response : Bool) {fs fs' : List Bytes}
    (h : List.Forall₂ (m.FieldTo response) fs fs') (hfs : Lines fs) : Lines fs' := by
  intro c' hc'
  obtain ⟨c, hc, hto⟩ := forall₂_mem_right h c' hc'
  exact hto.line m (hfs c hc).2

end Mapping
