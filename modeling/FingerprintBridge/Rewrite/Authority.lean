import FingerprintBridge.Rewrite.Facts
import FingerprintBridge.Lib.Lists

/-!
# URLs and authorities

`mapUrl` cuts a URL at its own delimiters (`UrlCut`) and puts one configured authority
in the place of the other where `authority` reads the piece as the expected origin.
The piece is a host with a port but for one character: for `https` a backslash
ends the authority too, and neither the cut nor `authority` minds it.
-/

/-! ## What an authority denotes -/

/-- Printable ASCII without `/`, `?`, `#` and `@`, as `authority` wants it. -/
def PlainAuthority (s : Str) : Prop :=
  (∀ c ∈ s, c.toNat < 128 ∧ 32 < c.toNat ∧ c.toNat ≠ 127) ∧
    ∀ c ∈ s, c ≠ '/' ∧ c ≠ '?' ∧ c ≠ '#' ∧ c ≠ '@'

/-- `https://s/` is a URL with this host, in lower case, and port. -/
def Denotes (U : UrlCrate) (s : Str) (origin : Str × UInt16) : Prop :=
  ∃ u host, U.parse ("https://".toList ++ s ++ ['/']) = some u ∧ u.hostStr = some host ∧
    strLower host = origin.1 ∧ u.portOrKnownDefault = some origin.2

theorem unwrap_ok_iff {α : Type} (o : Option α) (a : α) : unwrap o = .ok a ↔ o = some a := by
  cases o with
  | none => exact ⟨fun h => (nomatch h), fun h => (nomatch h)⟩
  | some b =>
    exact ⟨fun h => congrArg some (Except.ok.inj h), fun h => congrArg Except.ok (Option.some.inj h)⟩

theorem authority_ok_iff {U : UrlCrate} (s : Str) (origin : Str × UInt16) :
    authority U s = .ok origin ↔ PlainAuthority s ∧ Denotes U s origin := by
  have hplain : (s.all (fun c => c.toNat < 128) && !s.any (fun c => c.toNat ≤ 32 || c.toNat = 127)
      && !s.any (fun c => c = '/' || c = '?' || c = '#' || c = '@')) = true ↔ PlainAuthority s := by
    simp only [PlainAuthority, Bool.and_eq_true, List.all_eq_true, Bool.not_eq_true',
      List.any_eq_false, Bool.or_eq_true, decide_eq_true_eq, not_or, ← and_assoc]
    refine and_congr_left' ?_
    simp only [← forall_and, Nat.not_le, and_assoc]
  unfold authority
  rw [Res.bind_ok_iff]
  simp only [Res.ensure_ok_iff, hplain]
  constructor
  · rintro ⟨_, hs, h⟩
    refine ⟨hs, ?_⟩
    split at h
    · cases h
    · next u hu =>
      obtain ⟨_, -, h⟩ := (Res.bind_ok_iff _ _ _).1 h
      obtain ⟨host, hhost, h⟩ := (Res.bind_ok_iff _ _ _).1 h
      obtain ⟨port, hport, h⟩ := (Res.bind_ok_iff _ _ _).1 h
      cases h
      exact ⟨u, host, hu, (unwrap_ok_iff _ _).1 hhost, rfl, (unwrap_ok_iff _ _).1 hport⟩
  · rintro ⟨hs, u, host, hu, hhost, hlower, hport⟩
    refine ⟨(), hs, ?_⟩
    rw [hu]
    simp only [Res.bind_ok_iff, Res.ensure_ok_iff, unwrap_ok_iff]
    refine ⟨(), by rw [hhost]; rfl, host, hhost, origin.2, hport, ?_⟩
    rw [hlower]
    rfl

namespace Mapping

variable {U : UrlCrate} (m : Mapping U)

/-- `denotes` asks whether `authority` reads the origin. -/
theorem denotes_true_iff (s : Str) (origin : Str × UInt16) :
    denotes U s origin = .ok true ↔ authority U s = .ok origin := by
  unfold denotes
  split
  · next x hx => rw [hx]; simp
  · next hx => rw [hx]; simp
  · next hx => rw [hx]; simp

theorem denotes_false (s : Str) (origin : Str × UInt16) (h : authority U s ≠ .ok origin) :
    denotes U s origin = .ok false := by
  cases hd : denotes U s origin with
  | ok b =>
    cases b with
    | false => rfl
    | true => exact (h ((denotes_true_iff s origin).1 hd)).elim
  | error e =>
    obtain ⟨msg, hmsg, -⟩ := denotes_errors (U := U) s origin e hd
    cases hmsg

/-! ## Cutting a URL -/

/-- The origin that a URL must have to be mapped. -/
def expected (response : Bool) : Str × UInt16 :=
  if response then (m.upstreamHost, m.upstreamPort) else (m.publicHost, m.publicPort)

/-- The authority put in its place. -/
def other (response : Bool) : Str := if response then m.publicAuthority else m.upstream

/-- `s` begins with `https://` or `//`, and `piece` goes up to the next delimiter. -/
structure UrlCut (s pre piece rest : Str) : Prop where
  cut : s = pre ++ piece ++ rest
  begins : pre = "https://".toList ∨ pre = "//".toList
  piece_plain : ∀ c ∈ piece, isUrlDelimiter c = false
  rest_delimited : ∀ c, rest.head? = some c → isUrlDelimiter c = true

/-- The delimiter that ends the piece, if it is not the end. -/
theorem UrlCut.findIdx? {s pre piece rest : Str} (h : UrlCut s pre piece rest) :
    ((piece ++ rest).findIdx? isUrlDelimiter = none ∧ s.length = pre.length + piece.length) ∨
      (piece ++ rest).findIdx? isUrlDelimiter = some piece.length := by
  have hpiece : piece.findIdx? isUrlDelimiter = none :=
    List.findIdx?_eq_none_iff.2 h.piece_plain
  rw [List.findIdx?_append, hpiece, Option.none_or]
  cases rest with
  | nil =>
    left
    simp [h.cut]
  | cons c rest =>
    right
    rw [List.findIdx?_cons, if_pos (h.rest_delimited c rfl)]
    simp

theorem UrlCut.urlBegin {s pre piece rest : Str} (h : UrlCut s pre piece rest) :
    urlBegin s = some pre.length := by
  rw [h.cut]
  rcases h.begins with rfl | rfl
  · unfold Mapping.urlBegin
    rw [if_pos]
    · rfl
    · rw [List.isPrefixOf_iff_prefix, List.append_assoc]
      exact List.prefix_append _ _
  · rfl

/-- Neither beginning is one of the other. -/
theorem begins_inj {pre pre' t t' : Str} (h : pre = "https://".toList ∨ pre = "//".toList)
    (h' : pre' = "https://".toList ∨ pre' = "//".toList) (heq : pre ++ t = pre' ++ t') :
    pre = pre' := by
  have hhead := congrArg List.head? heq
  rcases h with rfl | rfl
  · rcases h' with rfl | rfl
    · rfl
    · cases hhead
  · rcases h' with rfl | rfl
    · cases hhead
    · rfl

/-- What `mapUrl` does to a URL: `expected` and `other` are those of the direction. -/
theorem mapUrl_cut {s pre piece rest : Str} (response : Bool) (h : UrlCut s pre piece rest) :
    m.mapUrl s response = (do
      if ← denotes U piece (m.expected response) then return pre ++ m.other response ++ rest
      else return s) := by
  have hdrop : s.drop pre.length = piece ++ rest := by
    rw [h.cut, List.append_assoc, List.drop_left]
  have hrest : s.drop (pre.length + piece.length) = rest := by
    rw [h.cut, ← List.length_append, List.drop_left]
  have htake : s.take pre.length = pre := by
    rw [h.cut, List.append_assoc, List.take_left]
  have hpiece : (piece ++ rest).take piece.length = piece := List.take_left
  unfold mapUrl
  rw [h.urlBegin]
  rcases h.findIdx? with ⟨hfind, hlen⟩ | hfind
  · simp only [hdrop, hfind, htake]
    rw [hlen, Nat.add_sub_cancel_left, hpiece, hrest]
    rfl
  · simp only [hdrop, hfind, htake, Nat.add_sub_cancel_left, hpiece, hrest]
    rfl

theorem exists_cut (s : Str) (start : Nat) (h : Mapping.urlBegin s = some start) :
    ∃ pre piece rest, UrlCut s pre piece rest := by
  have hbegins : ∃ pre t, s = pre ++ t ∧ (pre = "https://".toList ∨ pre = "//".toList) := by
    unfold Mapping.urlBegin at h
    split at h
    · next hp =>
      obtain ⟨t, ht⟩ := List.isPrefixOf_iff_prefix.1 hp
      exact ⟨_, t, ht.symm, Or.inl rfl⟩
    · split at h
      · next hp =>
        obtain ⟨t, ht⟩ := List.isPrefixOf_iff_prefix.1 hp
        exact ⟨_, t, ht.symm, Or.inr rfl⟩
      · cases h
  obtain ⟨pre, t, rfl, hpre⟩ := hbegins
  refine ⟨pre, t.takeWhile fun c => !isUrlDelimiter c, t.dropWhile fun c => !isUrlDelimiter c, ?_,
    hpre, fun c hc => ?_, fun c hc => ?_⟩
  · rw [List.append_assoc, List.takeWhile_append_dropWhile]
  · simpa using List.mem_takeWhile_imp hc
  · have := List.head?_dropWhile_not (fun c => !isUrlDelimiter c) t
    rw [hc] at this
    simpa using this

/-- A URL is cut in one way. -/
theorem UrlCut.unique {s pre piece rest pre' piece' rest' : Str} (h : UrlCut s pre piece rest)
    (h' : UrlCut s pre' piece' rest') : pre = pre' ∧ piece = piece' ∧ rest = rest' := by
  have hs := h.cut.symm.trans h'.cut
  rw [List.append_assoc, List.append_assoc] at hs
  obtain rfl := begins_inj h.begins h'.begins hs
  have hr := List.append_cancel_left hs
  have hpiece : ∀ {piece rest : Str}, (∀ c ∈ piece, isUrlDelimiter c = false) →
      (∀ c, rest.head? = some c → isUrlDelimiter c = true) →
      (piece ++ rest).takeWhile (fun c => !isUrlDelimiter c) = piece := by
    intro piece rest hplain hdel
    rw [List.takeWhile_append_of_pos fun c hc => by rw [hplain c hc]; rfl]
    cases rest with
    | nil => simp
    | cons c rest =>
      rw [List.takeWhile_cons_of_neg (by rw [hdel c rfl]; simp), List.append_nil]
  have he : piece = piece' := by
    rw [← hpiece h.piece_plain h.rest_delimited, hr, hpiece h'.piece_plain h'.rest_delimited]
  subst he
  exact ⟨rfl, rfl, List.append_cancel_left hr⟩

/-- A URL whose piece `authority` reads as the origin expected. -/
structure Maps (response : Bool) (s pre piece rest : Str) : Prop extends UrlCut s pre piece rest where
  denoted : authority U piece = .ok (m.expected response)

/-- **What `mapUrl` does.** -/
theorem mapUrl_ok_iff (s t : Str) (response : Bool) :
    m.mapUrl s response = .ok t ↔
      (∃ pre piece rest, m.Maps response s pre piece rest ∧ t = pre ++ m.other response ++ rest) ∨
        ((∀ pre piece rest, ¬ m.Maps response s pre piece rest) ∧ t = s) := by
  cases hb : urlBegin s with
  | none =>
    have hnone : ∀ pre piece rest, ¬ m.Maps response s pre piece rest := by
      intro pre piece rest h
      have := h.urlBegin
      rw [hb] at this
      cases this
    unfold mapUrl
    rw [hb]
    constructor
    · intro h
      cases h
      exact Or.inr ⟨hnone, rfl⟩
    · rintro (⟨pre, piece, rest, h, -⟩ | ⟨-, rfl⟩)
      · exact (hnone _ _ _ h).elim
      · rfl
  | some start =>
    obtain ⟨pre, piece, rest, hcut⟩ := exists_cut s start hb
    rw [m.mapUrl_cut response hcut]
    by_cases hd : authority U piece = .ok (m.expected response)
    · rw [(denotes_true_iff _ _).2 hd]
      constructor
      · intro h
        cases h
        exact Or.inl ⟨pre, piece, rest, ⟨hcut, hd⟩, rfl⟩
      · rintro (⟨pre', piece', rest', h, rfl⟩ | ⟨hnone, -⟩)
        · obtain ⟨rfl, rfl, rfl⟩ := hcut.unique h.toUrlCut
          rfl
        · exact (hnone pre piece rest ⟨hcut, hd⟩).elim
    · rw [denotes_false _ _ hd]
      constructor
      · intro h
        cases h
        refine Or.inr ⟨fun pre' piece' rest' h => hd ?_, rfl⟩
        obtain ⟨rfl, rfl, rfl⟩ := hcut.unique h.toUrlCut
        exact h.denoted
      · rintro (⟨pre', piece', rest', h, -⟩ | ⟨-, rfl⟩)
        · obtain ⟨rfl, rfl, rfl⟩ := hcut.unique h.toUrlCut
          exact (hd h.denoted).elim
        · rfl

theorem isPublic_iff (s : Str) :
    m.isPublic s = .ok true ↔ authority U s = .ok (m.publicHost, m.publicPort) :=
  denotes_true_iff s _

/-! ## The authority and nothing else -/

/-- Nothing but a host and perhaps a port, and they denote the origin. -/
def HostPort (U : UrlCrate) (s : Str) (origin : Str × UInt16) : Prop :=
  (∀ c ∈ s, c ≠ '/' ∧ c ≠ '\\' ∧ c ≠ '?' ∧ c ≠ '#' ∧ c ≠ '@') ∧ Denotes U s origin

/-- Where the authority of an `https` URL may end. -/
def EndsAuthority (rest : Str) : Prop :=
  ∀ c, rest.head? = some c → c = '/' ∨ c = '\\' ∨ c = '?' ∨ c = '#'

/-- `mapUrl` changes the authority of `s` and nothing else, and `isPublic` takes `s` for B
only if that is all it is. -/
structure AuthorityOnly (s : Str) (response : Bool) : Prop where
  url : ∃ t, m.mapUrl s response = .ok t ∧ (t = s ∨ ∃ pre auth rest, s = pre ++ auth ++ rest ∧
    (pre = "https://".toList ∨ pre = "//".toList) ∧ HostPort U auth (m.expected response) ∧
    EndsAuthority rest ∧ t = pre ++ m.other response ++ rest)
  whole : m.isPublic s = .ok true → HostPort U s (m.publicHost, m.publicPort)

/-- `authority` reads the piece, or the whole of `s`, as the origin in spite of a
backslash, and the piece is not what is put in its place anyway. -/
def BackslashRead (s : Str) (response : Bool) : Prop :=
  (∃ pre piece rest, m.Maps response s pre piece rest ∧ '\\' ∈ piece ∧ piece ≠ m.other response) ∨
    (authority U s = .ok (m.publicHost, m.publicPort) ∧ '\\' ∈ s)

/-- `authority` minds all of these but the backslash. -/
theorem hostPort_of_authority {s : Str} {origin : Str × UInt16} (h : authority U s = .ok origin)
    (hs : '\\' ∉ s) : HostPort U s origin := by
  obtain ⟨⟨-, hplain⟩, hd⟩ := (authority_ok_iff s origin).1 h
  refine ⟨fun c hc => ?_, hd⟩
  obtain ⟨h1, h2, h3, h4⟩ := hplain c hc
  exact ⟨h1, fun e => hs (e ▸ hc), h2, h3, h4⟩

theorem UrlCut.endsAuthority {s pre piece rest : Str} (h : UrlCut s pre piece rest) :
    EndsAuthority rest := by
  intro c hc
  have := h.rest_delimited c hc
  unfold isUrlDelimiter at this
  simp only [Bool.or_eq_true, decide_eq_true_eq] at this
  rcases this with (rfl | rfl) | rfl
  · exact Or.inl rfl
  · exact Or.inr (Or.inr (Or.inl rfl))
  · exact Or.inr (Or.inr (Or.inr rfl))

theorem BackslashRead.not_authorityOnly {s : Str} {response : Bool}
    (h : m.BackslashRead s response) : ¬ m.AuthorityOnly s response := by
  rintro ⟨⟨t, ht, hurl⟩, hwhole⟩
  rcases h with ⟨pre, piece, rest, hm, hback, hne⟩ | ⟨hs, hback⟩
  · have hmapped := (m.mapUrl_ok_iff s _ response).2 (Or.inl ⟨pre, piece, rest, hm, rfl⟩)
    obtain rfl : t = _ := Except.ok.inj (ht.symm.trans hmapped)
    rcases hurl with heq | ⟨pre', auth, rest', hs, hpre', hport, -, heq⟩
    · rw [hm.cut, List.append_assoc, List.append_assoc] at heq
      exact hne (List.append_cancel_right (List.append_cancel_left heq)).symm
    · -- the prefix is the same, so what is left of the other authority is the same too
      have hcut := hm.cut
      rw [hs, List.append_assoc, List.append_assoc] at hcut
      obtain rfl := begins_inj hpre' hm.begins hcut
      rw [List.append_assoc, List.append_assoc] at heq
      obtain rfl := List.append_cancel_left (List.append_cancel_left heq)
      obtain rfl := List.append_cancel_right (List.append_cancel_left hcut)
      exact (hport.1 _ hback).2.1 rfl
  · exact ((hwhole ((m.isPublic_iff s).2 hs)).1 _ hback).2.1 rfl

/-- **The authority and nothing else**, unless there is a backslash in it. -/
theorem authority_only_iff (s : Str) (response : Bool) :
    m.AuthorityOnly s response ↔ ¬ m.BackslashRead s response := by
  refine ⟨fun h hback => hback.not_authorityOnly m h, fun h => ⟨?_, fun hs => ?_⟩⟩
  · by_cases hm : ∃ pre piece rest, m.Maps response s pre piece rest
    · obtain ⟨pre, piece, rest, hm⟩ := hm
      refine ⟨_, (m.mapUrl_ok_iff s _ response).2 (Or.inl ⟨pre, piece, rest, hm, rfl⟩), ?_⟩
      by_cases hback : '\\' ∈ piece
      · have heq : piece = m.other response := by
          by_contra hne
          exact h (Or.inl ⟨pre, piece, rest, hm, hback, hne⟩)
        exact Or.inl (by rw [hm.cut, heq])
      · exact Or.inr ⟨pre, piece, rest, hm.cut, hm.begins, hostPort_of_authority hm.denoted hback,
          hm.endsAuthority, rfl⟩
    · have hnone : ∀ pre piece rest, ¬ m.Maps response s pre piece rest :=
        fun pre piece rest hmaps => hm ⟨pre, piece, rest, hmaps⟩
      exact ⟨s, (m.mapUrl_ok_iff s s response).2 (Or.inr ⟨hnone, rfl⟩), Or.inl rfl⟩
  · have hread := (m.isPublic_iff s).1 hs
    exact hostPort_of_authority hread fun hback => h (Or.inr ⟨hread, hback⟩)

end Mapping

/-! ## A crate that knows about backslashes -/

/-- For `https` a backslash is read as a slash. -/
def slashed (s : Str) : Str := s.map fun c => if c = '\\' then '/' else c

def backslashCrate : UrlCrate where
  parse s := parseDotted (slashed s)
  known_port s u h := dottedCrate.known_port (slashed s) u (by rwa [slashed, List.map_append] at h)
  empty_host := by decide
  host_printable s u host h := dottedCrate.host_printable (slashed s) u host h

namespace Mapping

/-- B is `b.test:8443`, A is `a.test:9443`. -/
def backslashMapping : Mapping backslashCrate where
  publicAuthority := "b.test:8443".toList
  upstream := "a.test:9443".toList
  publicHost := "b.test".toList
  upstreamHost := "a.test".toList
  publicPort := 8443
  upstreamPort := 9443
  public_ok := by decide
  upstream_ok := by decide

/-- What follows the backslash belongs to the path, and is lost. -/
theorem authority_backslash :
    ¬ backslashMapping.AuthorityOnly "https://b.test:8443\\evil/x".toList false := by
  refine BackslashRead.not_authorityOnly backslashMapping (Or.inl ⟨"https://".toList,
    "b.test:8443\\evil".toList, "/x".toList, ⟨⟨by decide, Or.inl rfl, by decide, by decide⟩, ?_⟩, ?_⟩)
  · decide
  · decide

end Mapping
