import FingerprintBridge.Ssl.Etm

/-!
# Encrypt-then-MAC records: no padding oracle

A record is rejected untouched unless its MAC verifies (`openEtm_cases`).  `Verifies` says, with
the lengths of RFC 7366, what the MAC covers.
-/

namespace Ssl

namespace EtmContext

variable (c : EtmContext) (type : UInt8) (version : UInt16) (seqnum : UInt64)

/-! ## What is authenticated -/

/-- Sequence number, type, version, length and fragment. -/
def macInput (fragment : Bytes) : Bytes :=
  beOctets 8 seqnum.toNat ++ [type] ++ beOctets 2 version.toNat ++ beOctets 2 fragment.length ++
    fragment

/-- `mac` is the MAC of the fragment, whose length its two octets can tell. -/
structure Verifies (fragment mac : Bytes) : Prop where
  short : fragment.length ≤ 0xffff
  length : mac.length = c.macLen
  hmac : c.keys.hmac (macInput type version seqnum fragment) = some mac

/-- The record ends in the MAC of the rest. -/
def Authentic (record : Bytes) : Prop :=
  ∃ fragment mac, record = fragment ++ mac ∧ c.Verifies type version seqnum fragment mac

theorem beOctets_two (n : Nat) : beOctets 2 n = [UInt8.ofNat (n / 256), UInt8.ofNat n] := by
  simp only [beOctets, Nat.pow_one, Nat.pow_zero, Nat.div_one]

theorem beOctets_version : beOctets 2 version.toNat = [(version >>> 8).toUInt8, version.toUInt8] := by
  have hhigh : (version >>> 8).toUInt8 = UInt8.ofNat (version.toNat / 256) := by
    apply UInt8.toNat_inj.1
    rw [UInt16.toNat_toUInt8, UInt16.toNat_shiftRight, UInt8.toNat_ofNat']
    show version.toNat >>> 8 % 256 = version.toNat / 256 % 2 ^ 8
    rw [Nat.shiftRight_eq_div_pow]
  have hlow : version.toUInt8 = UInt8.ofNat version.toNat := by
    apply UInt8.toNat_inj.1
    rw [UInt16.toNat_toUInt8, UInt8.toNat_ofNat']
  rw [beOctets_two, hhigh, hlow]

theorem etmAd_append (fragment : Bytes) :
    etmAd type version seqnum fragment.length ++ fragment = macInput type version seqnum fragment := by
  unfold etmAd macInput
  rw [beOctets_version, beOctets_two, Nat.shiftRight_eq_div_pow]
  simp

theorem etmMAC_iff (fragment mac : Bytes) :
    c.EtmMAC type version seqnum fragment = some mac ↔
      c.Verifies type version seqnum fragment mac := by
  unfold EtmMAC
  rw [etmAd_append]
  by_cases hlong : fragment.length > 0xffff
  · rw [if_pos hlong]
    exact ⟨fun h => (nomatch h), fun h => absurd h.short (by omega)⟩
  · rw [if_neg hlong, Option.filter_eq_some_iff]
    constructor
    · rintro ⟨hhmac, hlen⟩
      exact ⟨by omega, of_decide_eq_true hlen, hhmac⟩
    · intro h
      exact ⟨h.hmac, decide_eq_true h.length⟩

/-! ## The parts of a record -/

theorem exists_parts (record : Bytes) (h : c.macLen + 2 * c.block ≤ record.length) :
    ∃ iv body mac, record = iv ++ body ++ mac ∧ iv.length = c.block ∧ c.block ≤ body.length ∧
      mac.length = c.macLen := by
  refine ⟨record.take c.block, (record.drop c.block).take (record.length - c.macLen - c.block),
    record.drop (record.length - c.macLen), ?_, ?_, ?_, ?_⟩
  · conv => lhs; rw [← List.take_append_drop (record.length - c.macLen) record]
    congr 1
    rw [show record.length - c.macLen = c.block + (record.length - c.macLen - c.block) by omega,
      List.take_add, Nat.add_sub_cancel_left]
  · rw [List.length_take]
    omega
  · rw [List.length_take, List.length_drop]
    omega
  · rw [List.length_drop]
    omega

theorem openEtm_short (record : Bytes) (h : record.length < c.macLen + 2 * c.block) :
    c.OpenEtm type version seqnum record = .error (.err "BAD_PACKET_LENGTH") record := by
  unfold OpenEtm
  rw [Act.bind_error_iff]
  refine Or.inr ⟨record, record, rfl, ?_⟩
  rw [Act.bind_error_iff]
  refine Or.inl ((Act.liftM_error_iff _ _ _ _).2 ⟨?_, rfl⟩)
  exact (Res.ensure_error_iff _ _ _).2 ⟨by omega, rfl⟩

/-! ## Before the MAC verifies -/

/-- The fault of a record that is not authentic; only its length counts. -/
def rejection (length : Nat) : String :=
  if length < c.macLen + 2 * c.block then "BAD_PACKET_LENGTH"
  else "DECRYPTION_FAILED_OR_BAD_RECORD_MAC"

/-- A record is rejected untouched, or its MAC verifies and it goes on. -/
theorem openEtm_cases (record : Bytes) :
    c.OpenEtm type version seqnum record = .error (.err (c.rejection record.length)) record ∨
      ∃ iv body mac, record = iv ++ body ++ mac ∧ iv.length = c.block ∧ c.block ≤ body.length ∧
        c.Verifies type version seqnum (iv ++ body) mac ∧
        c.OpenEtm type version seqnum record = c.openVerified iv body mac record := by
  unfold rejection
  by_cases hshort : record.length < c.macLen + 2 * c.block
  · rw [if_pos hshort]
    exact Or.inl (c.openEtm_short type version seqnum record hshort)
  · obtain ⟨iv, body, mac, rfl, hiv, hbody, hmac⟩ := c.exists_parts record (by omega)
    rw [if_neg hshort, c.openEtm_eq iv body mac hiv hbody hmac]
    by_cases hm : c.EtmMAC type version seqnum (iv ++ body) = some mac
    · rw [if_pos hm]
      exact Or.inr ⟨iv, body, mac, rfl, hiv, hbody, (c.etmMAC_iff type version seqnum _ _).1 hm, rfl⟩
    · rw [if_neg hm]
      exact Or.inl rfl

/-- The context with another cipher. -/
def withDecrypt (decrypt : Bytes → Bytes → Option Bytes) : EtmContext :=
  { c with keys := { c.keys with decrypt := decrypt } }

theorem openEtm_unauthentic (record : Bytes) (h : ¬ c.Authentic type version seqnum record)
    (decrypt : Bytes → Bytes → Option Bytes) :
    (c.withDecrypt decrypt).OpenEtm type version seqnum record =
      .error (.err (c.rejection record.length)) record := by
  rcases (c.withDecrypt decrypt).openEtm_cases type version seqnum record with hrun | hrun
  · exact hrun
  · obtain ⟨iv, body, mac, hrecord, -, -, hm, -⟩ := hrun
    -- the MAC does not depend on the cipher
    exact absurd ⟨iv ++ body, mac, hrecord, hm.short, hm.length, hm.hmac⟩ h

/-! ## Once it does -/

theorem openVerified_safe (iv encrypted received : Bytes) (hpos : 0 < encrypted.length) :
    Act.Triple (fun _ => True) (c.openVerified iv encrypted received) (fun _ => True)
      (Act.PanicIf False) := by
  unfold openVerified
  refine Act.triple_bind _ _ (Act.triple_check _ _) fun _ _ => ?_
  refine Act.triple_bind _ _ (Act.triple_safe _ ?_) fun plain _ => ?_
  · exact (Res.errors_okOr _ "EVP_CipherUpdate" (List.mem_singleton_self _)).ne_panic
  refine Act.triple_bind _ _ (Act.triple_set _ trivial) fun _ _ => ?_
  refine Act.triple_bind _ _ (Act.triple_check _ _) fun _ hplain => ?_
  -- the plaintext is not empty, so its last octet is there
  have h1 : 1 ≤ plain.length := by omega
  rw [Res.checkedSub_of_le _ _ h1, Act.liftM_ok_bind, Res.byteAt_of_lt _ _ (by omega),
    Act.liftM_ok_bind]
  refine Act.triple_bind _ _ (Act.triple_check _ _) fun _ hpadding => ?_
  obtain ⟨m, hm, -⟩ := paddingMismatch_spec plain _ hpadding
  rw [hm, Act.liftM_ok_bind]
  refine Act.triple_bind _ _ (Act.triple_check _ _) fun _ _ => ?_
  rw [Res.checkedSub_of_le _ _ hpadding, Act.liftM_ok_bind,
    Res.slice_of_le _ _ _ (Nat.zero_le _) (Nat.sub_le _ _)]
  exact Act.triple_pure _ trivial

/-- Uniform octets at the end are padding. -/
theorem padding_of_mismatch (plain : Bytes) (n : Nat) (hn : n ≤ plain.length)
    (h : ∀ i < n, plain[plain.length - 1 - i]? = some (UInt8.ofNat (n - 1))) :
    plain = plain.take (plain.length - n) ++ List.replicate n (UInt8.ofNat (n - 1)) := by
  have hdrop : plain.drop (plain.length - n) = List.replicate n (UInt8.ofNat (n - 1)) := by
    refine List.ext_getElem? fun i => ?_
    rw [List.getElem?_drop, List.getElem?_replicate]
    by_cases hi : i < n
    · have := h (n - 1 - i) (by omega)
      rw [show plain.length - 1 - (n - 1 - i) = plain.length - n + i by omega] at this
      rw [this, if_pos hi]
    · rw [if_neg hi]
      exact List.getElem?_eq_none (by omega)
  rw [← hdrop, List.take_append_drop]

theorem openVerified_ok (iv encrypted received record out after : Bytes)
    (h : c.openVerified iv encrypted received record = .ok out after) :
    ∃ plain n, c.keys.decrypt iv encrypted = some plain ∧ plain.length = encrypted.length ∧
      0 < n ∧ n ≤ 256 ∧ plain = out ++ List.replicate n (UInt8.ofNat (n - 1)) ∧
      after = iv ++ plain ++ received := by
  unfold openVerified at h
  obtain ⟨_, -, h⟩ := (Act.liftM_bind_ok_iff _ _ _ _ _).1 h
  obtain ⟨plain, hdecrypt, h⟩ := (Act.liftM_bind_ok_iff _ _ _ _ _).1 h
  obtain ⟨_, _, hset, h⟩ := (Act.bind_ok_iff _ _ _ _ _).1 h
  cases hset
  obtain ⟨_, hlen, h⟩ := (Act.liftM_bind_ok_iff _ _ _ _ _).1 h
  obtain ⟨last, -, h⟩ := (Act.liftM_bind_ok_iff _ _ _ _ _).1 h
  obtain ⟨back, -, h⟩ := (Act.liftM_bind_ok_iff _ _ _ _ _).1 h
  obtain ⟨_, hpadding, h⟩ := (Act.liftM_bind_ok_iff _ _ _ _ _).1 h
  obtain ⟨mismatch, hmismatch, h⟩ := (Act.liftM_bind_ok_iff _ _ _ _ _).1 h
  obtain ⟨_, hzero, h⟩ := (Act.liftM_bind_ok_iff _ _ _ _ _).1 h
  obtain ⟨size, hsize, h⟩ := (Act.liftM_bind_ok_iff _ _ _ _ _).1 h
  obtain ⟨hout, rfl⟩ := (Act.liftM_ok_iff _ _ _ _).1 h
  have hlen := (Res.ensure_ok_iff _ _ _).1 hlen
  have hpadding := (Res.ensure_ok_iff _ _ _).1 hpadding
  have hzero := (Res.ensure_ok_iff _ _ _).1 hzero
  have hback := back.toNat_lt
  obtain ⟨m, hm, huniform⟩ := paddingMismatch_spec plain _ hpadding
  rw [hm] at hmismatch
  obtain rfl := Except.ok.inj hmismatch
  rw [Res.checkedSub_of_le _ _ hpadding] at hsize
  obtain rfl := Except.ok.inj hsize
  have hout := Res.slice_ok _ _ _ _ hout
  rw [List.drop_zero, Nat.sub_zero] at hout
  refine ⟨plain, back.toNat + 1, (Res.okOr_ok_iff _ _ _).1 hdecrypt, hlen, by omega, by omega, ?_, ?_⟩
  · rw [hout]
    exact padding_of_mismatch plain _ hpadding (huniform.1 hzero)
  · rw [hlen, List.drop_length, List.append_nil]

theorem openEtm_ok (record out after : Bytes)
    (h : c.OpenEtm type version seqnum record = .ok out after) :
    ∃ iv body mac plain n, record = iv ++ body ++ mac ∧ iv.length = c.block ∧
      c.Verifies type version seqnum (iv ++ body) mac ∧ c.keys.decrypt iv body = some plain ∧
      plain.length = body.length ∧ 0 < n ∧ n ≤ 256 ∧
      plain = out ++ List.replicate n (UInt8.ofNat (n - 1)) ∧ after = iv ++ plain ++ mac := by
  rcases c.openEtm_cases type version seqnum record with hrun | hrun
  · rw [hrun] at h
    cases h
  · obtain ⟨iv, body, mac, hrecord, hiv, -, hm, hrun⟩ := hrun
    rw [hrun] at h
    obtain ⟨plain, n, hdecrypt, hlen, hpos, hle, hplain, hafter⟩ := c.openVerified_ok _ _ _ _ _ _ h
    exact ⟨iv, body, mac, plain, n, hrecord, hiv, hm, hdecrypt, hlen, hpos, hle, hplain, hafter⟩

theorem openEtm_safe (record after : Bytes) :
    c.OpenEtm type version seqnum record ≠ .error .panic after := by
  intro h
  rcases c.openEtm_cases type version seqnum record with hrun | hrun
  · rw [hrun] at h
    cases h
  · obtain ⟨iv, body, mac, -, -, hbody, -, hrun⟩ := hrun
    rw [hrun] at h
    have hpos : 0 < body.length := Nat.lt_of_lt_of_le c.block_pos hbody
    exact ((c.openVerified_safe iv body mac hpos _ trivial).2 _ _ h).1.1 rfl

/-- **No padding oracle.**  Two records of one length that are not authentic are rejected alike,
untouched, whatever the cipher would make of them; a record that is opened is authentic, and what
its plaintext has beyond the output are octets that each tell the length of the padding; and no
record makes an index go out of range. -/
theorem openEtm_no_oracle :
    (∀ r₁ r₂ : Bytes, r₁.length = r₂.length → ¬ c.Authentic type version seqnum r₁ →
      ¬ c.Authentic type version seqnum r₂ → ∃ msg, ∀ decrypt,
        (c.withDecrypt decrypt).OpenEtm type version seqnum r₁ = .error (.err msg) r₁ ∧
          (c.withDecrypt decrypt).OpenEtm type version seqnum r₂ = .error (.err msg) r₂) ∧
      (∀ record out after, c.OpenEtm type version seqnum record = .ok out after →
        ∃ iv body mac plain n, record = iv ++ body ++ mac ∧ iv.length = c.block ∧
          c.Verifies type version seqnum (iv ++ body) mac ∧ c.keys.decrypt iv body = some plain ∧
          plain.length = body.length ∧ 0 < n ∧ n ≤ 256 ∧
          plain = out ++ List.replicate n (UInt8.ofNat (n - 1)) ∧ after = iv ++ plain ++ mac) ∧
      ∀ record after, c.OpenEtm type version seqnum record ≠ .error .panic after := by
  refine ⟨fun r₁ r₂ hlen h1 h2 => ⟨c.rejection r₁.length, fun decrypt => ⟨?_, ?_⟩⟩,
    c.openEtm_ok type version seqnum, c.openEtm_safe type version seqnum⟩
  · exact c.openEtm_unauthentic type version seqnum r₁ h1 decrypt
  · rw [hlen]
    exact c.openEtm_unauthentic type version seqnum r₂ h2 decrypt

end EtmContext

end Ssl
