import FingerprintBridge.Rewrite.Mapping

/-!
# What a mapping does to a value

A mapping fails with few errors and never panics, leaves a field it does not know alone,
and accepts a host only to put the upstream in its place, between the blanks that were there.
-/

namespace Mapping

variable {U : UrlCrate} (m : Mapping U)

/-! ## Errors -/

theorem authority_errors (s : Str) :
    (authority U s).Errors ["invalid authority", "invalid URL", "missing host"] := by
  unfold authority
  refine Res.errors_bind _ _ (Res.errors_ensure _ _ (by simp)) fun _ _ => ?_
  split
  · exact Res.errors_error _ (by simp)
  · next u hu =>
    rw [List.append_assoc] at hu
    have hport := U.known_port _ u hu
    refine Res.errors_bind _ _ (Res.errors_ensure _ _ (by simp)) fun _ hh => ?_
    have hhost := (Res.ensure_ok_iff _ _ _).1 hh
    obtain ⟨host, hhost⟩ := Option.isSome_iff_exists.1 hhost
    obtain ⟨port, hport⟩ := Option.isSome_iff_exists.1 hport
    rw [hhost, hport]
    exact Res.errors_ok _

theorem denotes_errors (s : Str) (expected : Str × UInt16) : (denotes U s expected).Errors [] := by
  unfold denotes
  split
  · exact Res.errors_ok _
  · exact Res.errors_ok _
  · next h => exact ((authority_errors s).ne_panic h).elim

theorem mapUrl_errors (s : Str) (response : Bool) : (m.mapUrl s response).Errors [] := by
  unfold mapUrl
  split
  · exact Res.errors_ok _
  · refine Res.errors_bind _ _ (denotes_errors _ _) fun ok _ => ?_
    split
    · exact Res.errors_ok _
    · exact Res.errors_ok _

/-- The last branch of `mapTrimmed` is not reached from `value`. -/
theorem mapTrimmed_errors (lower : Bytes) (s : Str) (response : Bool)
    (h : relevant lower response = true) :
    (m.mapTrimmed lower s response).Errors ["authority does not match configured B"] := by
  unfold mapTrimmed
  split
  · refine Res.errors_bind _ _ ((denotes_errors _ _).mono (by simp)) fun ok _ => ?_
    refine Res.errors_bind _ _ (Res.errors_ensure _ _ (by simp)) fun _ _ => ?_
    exact Res.errors_ok _
  · next h1 =>
    split
    · exact (m.mapUrl_errors s response).mono (by simp)
    · next h2 =>
      split
      · exact Res.errors_ok _
      · next h3 =>
        unfold relevant at h
        cases response <;> simp_all

/-- The errors of `value`; it never panics. -/
def valueErrors : List String :=
  ["invalid utf-8", "empty mapped header", "authority does not match configured B"]

theorem value_errors (name v : Bytes) (response : Bool) :
    (m.value name v response).Errors valueErrors := by
  unfold value
  simp only
  split
  · exact Res.errors_ok _
  · next hr =>
    refine Res.errors_bind _ _ ((fromUtf8_errors _).mono (by decide)) fun s _ => ?_
    refine Res.errors_bind _ _ (Res.errors_ensure _ _ (by decide)) fun _ _ => ?_
    refine Res.errors_bind _ _
      ((m.mapTrimmed_errors _ _ _ (by simpa using hr)).mono (by decide)) fun _ _ => ?_
    exact Res.errors_ok _

/-! ## Values left alone -/

theorem value_irrelevant (name v : Bytes) (response : Bool)
    (h : relevant (asciiLower name) response = false) : m.value name v response = .ok v := by
  unfold value
  simp [h]

/-- The empty authority is not B: the `url` crate refuses an empty host. -/
theorem isPublic_nil : m.isPublic [] = .ok false := by
  have hp : U.parse ("https://".toList ++ [] ++ ['/']) = none := U.empty_host
  have ha : authority U [] = .error (.err "invalid URL") := by
    unfold authority
    rw [hp]
    rfl
  unfold isPublic denotes
  rw [ha]

theorem mapTrimmed_nil (lower : Bytes) (response : Bool) (s : Str)
    (h : m.mapTrimmed lower [] response = .ok s) : s = [] := by
  unfold mapTrimmed at h
  split at h
  · rw [m.isPublic_nil] at h
    cases h
  · split at h
    · cases h
      rfl
    · split at h
      · cases h
        rfl
      · cases h

/-- An empty value is mapped to itself, if at all. -/
theorem value_nil (name v : Bytes) (response : Bool) (h : m.value name [] response = .ok v) :
    v = [] := by
  cases hr : relevant (asciiLower name) response with
  | false =>
    rw [m.value_irrelevant name [] response hr] at h
    cases h
    rfl
  | true =>
    unfold value at h
    simp only [hr, Bool.not_true, Bool.false_eq_true, if_false] at h
    obtain ⟨s, hs, h⟩ := (Res.bind_ok_iff _ _ _).1 h
    have hs' : s = [] := by
      have := fromUtf8_utf8 []
      rw [show utf8 [] = [] from rfl, hs] at this
      exact Except.ok.inj this
    subst hs'
    obtain ⟨_, -, h⟩ := (Res.bind_ok_iff _ _ _).1 h
    obtain ⟨mapped, hm, h⟩ := (Res.bind_ok_iff _ _ _).1 h
    rw [m.mapTrimmed_nil _ response mapped hm] at h
    cases h
    rfl

end Mapping
