import FingerprintBridge.Tls.Hello
import Mathlib.Data.List.Sort

/-!
# `src/fingerprint.rs`: JA4

`ja4` sorts the ciphers and the extensions and leaves GREASE out, so that neither makes a
difference (`Variation.ja4_eq`).  The signature algorithms are hashed in their order
(`extensionText_ne`).
-/

namespace Tls

/-! ## The code -/

def filtered (xs : List UInt16) : List UInt16 := xs.filter fun n => !grease n

/-- `{n:04x}` -/
def hex4 (n : UInt16) : Str :=
  [hexDigit (n.toNat / 4096), hexDigit (n.toNat / 256 % 16), hexDigit (n.toNat / 16 % 16),
    hexDigit (n.toNat % 16)]

/-- `list` -/
def hexList (xs : List UInt16) : Str := [','].intercalate (xs.map hex4)

/-- `{:02}` of a number below 100. -/
def twoDigits (n : Nat) : Str := [hexDigit (n / 10), hexDigit (n % 10)]

/-- `&s[i..j]` of an ASCII text. -/
def sliceStr (s : Str) (i j : Nat) : Res Str :=
  if i ≤ j ∧ j ≤ s.length then .ok ((s.take j).drop i) else .error .panic

def isAsciiAlphanumeric (b : UInt8) : Bool :=
  (48 ≤ b.toNat && b.toNat ≤ 57) || (65 ≤ b.toNat && b.toNat ≤ 90) || (97 ≤ b.toNat && b.toNat ≤ 122)

def versionText (version : UInt16) : Str :=
  if version = 0x304 then "13".toList
  else if version = 0x303 then "12".toList
  else if version = 0x302 then "11".toList
  else if version = 0x301 then "10".toList
  else if version = 0x300 then "s3".toList
  else if version = 2 then "s2".toList
  else "00".toList

section
variable (D : HexCrate)

def alpnText (alpn : List Str) : Res Str :=
  match (alpn.head?.bind D.hexDecode).filter (· ≠ []) with
  | none => .ok "00".toList
  | some s => do
    let a ← byteAt s 0
    let z ← byteAt s (← checkedSub s.length 1)
    if isAsciiAlphanumeric a && isAsciiAlphanumeric z then
      return [Char.ofNat a.toNat, Char.ofNat z.toNat]
    else do
      let h := D.hexEncode s
      return (← sliceStr h 0 1) ++ (← sliceStr h (← checkedSub h.length 1) h.length)

/-- `hash` -/
def hash (s : Str) : Res Str :=
  if s = [] then .ok "000000000000".toList else sliceStr (digest D.toDigestCrates (utf8 s)) 0 12

namespace TlsHello

/-- `c.sort_unstable()` -/
def sortedCiphers (hello : TlsHello) : List UInt16 := (filtered hello.ciphers).mergeSort (· ≤ ·)

/-- The extensions but for SNI and ALPN, sorted. -/
def sortedExtensions (hello : TlsHello) : List UInt16 :=
  ((filtered hello.extensions).filter fun n => n ≠ 0 && n ≠ 16).mergeSort (· ≤ ·)

/-- `exts` -/
def extensionText (hello : TlsHello) : Str :=
  let e := hello.sortedExtensions
  let sigs := filtered hello.signatureAlgorithms
  if e ≠ [] ∧ sigs ≠ [] then hexList e ++ '_' :: hexList sigs else hexList e

/-- What is before the first `_`. -/
def front (hello : TlsHello) : Res Str := do
  let version := (filtered hello.supportedVersions).max?.getD hello.legacyVersion
  let alpn ← alpnText D hello.alpn
  return 't' :: (versionText version ++ [if 0 ∈ hello.extensions then 'd' else 'i'] ++
    twoDigits (min (filtered hello.ciphers).length 99) ++
    twoDigits (min (filtered hello.extensions).length 99) ++ alpn)

def ja4 (hello : TlsHello) : Res Str := do
  let front ← hello.front D
  let ciphers ← hash D (hexList hello.sortedCiphers)
  let extensions ← hash D hello.extensionText
  return front ++ '_' :: (ciphers ++ '_' :: extensions)

end TlsHello

end

/-! ## Order and GREASE -/

/-- Two lists with the same members but for GREASE values put in. -/
inductive Greased : List UInt16 → List UInt16 → Prop
  | insert (xs ys : List UInt16) {g : UInt16} : grease g = true → Greased (xs ++ ys) (xs ++ g :: ys)

/-- Hellos that differ in the order of ciphers and extensions and in GREASE. -/
inductive Variation : TlsHello → TlsHello → Prop
  | refl (h : TlsHello) : Variation h h
  | symm {h h' : TlsHello} : Variation h h' → Variation h' h
  | trans {h h' h'' : TlsHello} : Variation h h' → Variation h' h'' → Variation h h''
  | cipherOrder (h : TlsHello) {xs : List UInt16} : xs.Perm h.ciphers →
      Variation h { h with ciphers := xs }
  | extensionOrder (h : TlsHello) {xs : List UInt16} : xs.Perm h.extensions →
      Variation h { h with extensions := xs }
  | ciphers (h : TlsHello) {xs : List UInt16} : Greased h.ciphers xs →
      Variation h { h with ciphers := xs }
  | extensions (h : TlsHello) {xs : List UInt16} : Greased h.extensions xs →
      Variation h { h with extensions := xs }
  | versions (h : TlsHello) {xs : List UInt16} : Greased h.supportedVersions xs →
      Variation h { h with supportedVersions := xs }
  | signatures (h : TlsHello) {xs : List UInt16} : Greased h.signatureAlgorithms xs →
      Variation h { h with signatureAlgorithms := xs }

theorem Greased.filtered {xs ys : List UInt16} (h : Greased xs ys) :
    Tls.filtered xs = Tls.filtered ys := by
  cases h with
  | insert xs ys hg =>
    unfold Tls.filtered
    rw [List.filter_append, List.filter_append, List.filter_cons_of_neg (by simp [hg])]

/-- What `ja4` makes of a hello. -/
structure SameFacts (h h' : TlsHello) : Prop where
  ciphers : (filtered h.ciphers).Perm (filtered h'.ciphers)
  extensions : (filtered h.extensions).Perm (filtered h'.extensions)
  versions : filtered h.supportedVersions = filtered h'.supportedVersions
  signatures : filtered h.signatureAlgorithms = filtered h'.signatureAlgorithms
  legacyVersion : h.legacyVersion = h'.legacyVersion
  alpn : h.alpn = h'.alpn

theorem SameFacts.refl (h : TlsHello) : SameFacts h h := ⟨.refl _, .refl _, rfl, rfl, rfl, rfl⟩

theorem Variation.facts {h h' : TlsHello} (hv : Variation h h') : SameFacts h h' := by
  induction hv with
  | refl h => exact .refl h
  | symm _ ih =>
    exact ⟨ih.ciphers.symm, ih.extensions.symm, ih.versions.symm, ih.signatures.symm,
      ih.legacyVersion.symm, ih.alpn.symm⟩
  | trans _ _ ih ih' =>
    exact ⟨ih.ciphers.trans ih'.ciphers, ih.extensions.trans ih'.extensions,
      ih.versions.trans ih'.versions, ih.signatures.trans ih'.signatures,
      ih.legacyVersion.trans ih'.legacyVersion, ih.alpn.trans ih'.alpn⟩
  | cipherOrder h hp => exact { SameFacts.refl h with ciphers := (hp.filter _).symm }
  | extensionOrder h hp => exact { SameFacts.refl h with extensions := (hp.filter _).symm }
  | ciphers h hg => exact { SameFacts.refl h with ciphers := .of_eq hg.filtered }
  | extensions h hg => exact { SameFacts.refl h with extensions := .of_eq hg.filtered }
  | versions h hg => exact { SameFacts.refl h with versions := hg.filtered }
  | signatures h hg => exact { SameFacts.refl h with signatures := hg.filtered }

/-- Sorting forgets the order. -/
theorem mergeSort_perm_eq {xs ys : List UInt16} (h : xs.Perm ys) :
    xs.mergeSort (· ≤ ·) = ys.mergeSort (· ≤ ·) := by
  have hsorted : ∀ zs : List UInt16, (zs.mergeSort (· ≤ ·)).Pairwise (· ≤ ·) := by
    intro zs
    have htotal : ∀ a b : UInt16, (decide (a ≤ b) || decide (b ≤ a)) = true := by
      intro a b
      rw [Bool.or_eq_true, decide_eq_true_eq, decide_eq_true_eq]
      exact UInt16.le_total a b
    have htrans : ∀ a b c : UInt16, decide (a ≤ b) = true → decide (b ≤ c) = true →
        decide (a ≤ c) = true := fun a b c hab hbc =>
      decide_eq_true (UInt16.le_trans (of_decide_eq_true hab) (of_decide_eq_true hbc))
    have hpair := List.pairwise_mergeSort htrans htotal zs
    exact hpair.imp of_decide_eq_true
  have hperm : (xs.mergeSort (· ≤ ·)).Perm (ys.mergeSort (· ≤ ·)) :=
    ((List.mergeSort_perm xs _).trans h).trans (List.mergeSort_perm ys _).symm
  exact hperm.eq_of_pairwise (fun a b _ _ => UInt16.le_antisymm) (hsorted xs) (hsorted ys)

variable {D : HexCrate}

theorem SameFacts.sortedExtensions {h h' : TlsHello} (hs : SameFacts h h') :
    h.sortedExtensions = h'.sortedExtensions := mergeSort_perm_eq (hs.extensions.filter _)

theorem SameFacts.extensionText {h h' : TlsHello} (hs : SameFacts h h') :
    h.extensionText = h'.extensionText := by
  unfold TlsHello.extensionText
  rw [hs.sortedExtensions, hs.signatures]

theorem SameFacts.front {h h' : TlsHello} (hs : SameFacts h h') : h.front D = h'.front D := by
  have hsni : (0 ∈ h.extensions) = (0 ∈ h'.extensions) := by
    have hmem : ∀ xs : List UInt16, 0 ∈ filtered xs ↔ 0 ∈ xs := by
      intro xs
      unfold filtered
      rw [List.mem_filter]
      exact and_iff_left (by decide)
    rw [← hmem h.extensions, ← hmem h'.extensions, hs.extensions.mem_iff]
  unfold TlsHello.front
  simp only [hs.versions, hs.legacyVersion, hs.alpn, hs.ciphers.length_eq, hs.extensions.length_eq,
    hsni]

/-- Order and GREASE make no difference. -/
theorem Variation.ja4_eq {h h' : TlsHello} (hv : Variation h h') : h.ja4 D = h'.ja4 D := by
  have hs := hv.facts
  have hciphers : h.sortedCiphers = h'.sortedCiphers := mergeSort_perm_eq hs.ciphers
  unfold TlsHello.ja4
  rw [hs.front, hciphers, hs.extensionText]

/-! ## The order of signature algorithms -/

theorem hex4_inj {m n : UInt16} (h : hex4 m = hex4 n) : m = n := by
  have hm := m.toNat_lt
  have hn := n.toNat_lt
  simp only [hex4, List.cons.injEq, and_true] at h
  obtain ⟨h0, h1, h2, h3⟩ := h
  have e0 := hexDigit_inj _ (by omega) _ (by omega) h0
  have e1 := hexDigit_inj _ (by omega) _ (by omega) h1
  have e2 := hexDigit_inj _ (by omega) _ (by omega) h2
  have e3 := hexDigit_inj _ (by omega) _ (by omega) h3
  exact UInt16.toNat_inj.1 (by omega)

theorem hexDigit_ne_comma : ∀ n < 16, hexDigit n ≠ ',' := by decide

theorem comma_not_mem_hex4 (n : UInt16) : ',' ∉ hex4 n := by
  have hn := n.toNat_lt
  unfold hex4
  simp only [List.mem_cons, List.not_mem_nil, or_false, not_or]
  exact ⟨(hexDigit_ne_comma _ (by omega)).symm, (hexDigit_ne_comma _ (by omega)).symm,
    (hexDigit_ne_comma _ (by omega)).symm, (hexDigit_ne_comma _ (by omega)).symm⟩

/-- The text of a list determines it. -/
theorem hexList_inj {xs ys : List UInt16} (hx : xs ≠ []) (hy : ys ≠ [])
    (h : hexList xs = hexList ys) : xs = ys := by
  have hsplit : ∀ zs : List UInt16, zs ≠ [] → (hexList zs).splitOn ',' = zs.map hex4 := by
    intro zs hz
    refine List.splitOn_intercalate ',' (fun s hs => ?_) (mt List.map_eq_nil_iff.1 hz)
    obtain ⟨n, -, rfl⟩ := List.mem_map.1 hs
    exact comma_not_mem_hex4 n
  have hmap := hsplit xs hx
  rw [h, hsplit ys hy] at hmap
  exact (List.map_injective_iff.2 fun _ _ => hex4_inj) hmap.symm

theorem hexList_ne_nil {xs : List UInt16} (h : xs ≠ []) : hexList xs ≠ [] := by
  cases xs with
  | nil => exact (h rfl).elim
  | cons n xs =>
    intro h0
    have := congrArg List.length h0
    cases xs with
    | nil => cases h0
    | cons m xs => simp [hexList, List.intercalate_cons_cons, hex4] at this

/-- The order of the signature algorithms is hashed.  Where there is an extension
other than SNI and ALPN, two hellos that differ in the list of signature algorithms have
different texts, and neither is empty. -/
theorem extensionText_ne {h h' : TlsHello} (hother : ∃ n ∈ filtered h.extensions, n ≠ 0 ∧ n ≠ 16)
    (hsame : Variation { h with signatureAlgorithms := h'.signatureAlgorithms } h')
    (hne : filtered h.signatureAlgorithms ≠ filtered h'.signatureAlgorithms) :
    h.extensionText ≠ [] ∧ h'.extensionText ≠ [] ∧ h.extensionText ≠ h'.extensionText := by
  have he : h.sortedExtensions = h'.sortedExtensions := hsame.facts.sortedExtensions
  have hsorted : h.sortedExtensions ≠ [] := by
    obtain ⟨n, hn, hsni, halpn⟩ := hother
    refine List.ne_nil_of_mem (a := n) ?_
    unfold TlsHello.sortedExtensions
    rw [List.mem_mergeSort, List.mem_filter]
    exact ⟨hn, by simp [hsni, halpn]⟩
  have htext : ∀ g : TlsHello, g.sortedExtensions = h.sortedExtensions → g.extensionText =
      hexList h.sortedExtensions ++ (if filtered g.signatureAlgorithms = [] then []
        else '_' :: hexList (filtered g.signatureAlgorithms)) := by
    intro g hg
    unfold TlsHello.extensionText
    simp only [hg, hsorted, ne_eq, not_false_eq_true, true_and]
    split
    · rfl
    · next hs => rw [if_pos (not_not.1 hs), List.append_nil]
  have hnil : ∀ s : Str, hexList h.sortedExtensions ++ s ≠ [] :=
    fun s => List.append_ne_nil_of_left_ne_nil (hexList_ne_nil hsorted) s
  rw [htext h rfl, htext h' he.symm]
  refine ⟨hnil _, hnil _, fun heq => hne ?_⟩
  have hsigs := List.append_cancel_left heq
  by_cases h0 : filtered h.signatureAlgorithms = []
  · by_cases h1 : filtered h'.signatureAlgorithms = []
    · rw [h0, h1]
    · rw [if_pos h0, if_neg h1] at hsigs
      cases hsigs
  · by_cases h1 : filtered h'.signatureAlgorithms = []
    · rw [if_neg h0, if_pos h1] at hsigs
      cases hsigs
    · rw [if_neg h0, if_neg h1] at hsigs
      exact hexList_inj h0 h1 (List.cons.inj hsigs).2

/-- The three parts of a JA4: the ciphers are hashed, and the text of the extensions. -/
theorem TlsHello.ja4_ok_iff (h : TlsHello) (s : Str) : h.ja4 D = .ok s ↔
    ∃ front ciphers extensions, h.front D = .ok front ∧
      hash D (hexList h.sortedCiphers) = .ok ciphers ∧ hash D h.extensionText = .ok extensions ∧
      s = front ++ '_' :: (ciphers ++ '_' :: extensions) := by
  unfold ja4
  simp only [Res.bind_ok_iff]
  constructor
  · rintro ⟨front, hfront, ciphers, hciphers, extensions, hextensions, hs⟩
    exact ⟨front, ciphers, extensions, hfront, hciphers, hextensions, (Except.ok.inj hs).symm⟩
  · rintro ⟨front, ciphers, extensions, hfront, hciphers, hextensions, rfl⟩
    exact ⟨front, hfront, ciphers, hciphers, extensions, hextensions, rfl⟩

/-- **JA4 and order.**  The order of ciphers and extensions and GREASE anywhere make no
difference to it; it has a hash of the sorted ciphers and one of the text of the extensions, and
the order of the signature algorithms goes into that text. -/
theorem ja4_order (D : HexCrate) : (∀ h h' : TlsHello, Variation h h' → h.ja4 D = h'.ja4 D) ∧
    (∀ (h : TlsHello) (s : Str), h.ja4 D = .ok s ↔ ∃ front ciphers extensions,
      h.front D = .ok front ∧ hash D (hexList h.sortedCiphers) = .ok ciphers ∧
        hash D h.extensionText = .ok extensions ∧
        s = front ++ '_' :: (ciphers ++ '_' :: extensions)) ∧
    ∀ h h' : TlsHello, (∃ n ∈ filtered h.extensions, n ≠ 0 ∧ n ≠ 16) →
      Variation { h with signatureAlgorithms := h'.signatureAlgorithms } h' →
      filtered h.signatureAlgorithms ≠ filtered h'.signatureAlgorithms →
      h.extensionText ≠ [] ∧ h'.extensionText ≠ [] ∧
        utf8 h.extensionText ≠ utf8 h'.extensionText := by
  refine ⟨fun h h' => Variation.ja4_eq, TlsHello.ja4_ok_iff, fun h h' hother hsame hne => ?_⟩
  obtain ⟨h0, h1, htext⟩ := extensionText_ne hother hsame hne
  exact ⟨h0, h1, fun heq => htext (utf8_inj _ _ heq)⟩

def orderHello : TlsHello where
  legacyVersion := 0x303
  ciphers := [0x1301, 0x1302]
  extensions := [0, 10, 13]
  compression := [0]
  signatureAlgorithms := [0x403, 0x804]

theorem ja4_order_sample :
    orderHello.ja4 sampleHex =
      TlsHello.ja4 sampleHex { orderHello with ciphers := [0x1a1a, 0x1301, 0x1302] } ∧
    (∀ s, orderHello.ja4 sampleHex = .ok s ↔ ∃ front ciphers extensions,
      orderHello.front sampleHex = .ok front ∧
        hash sampleHex (hexList orderHello.sortedCiphers) = .ok ciphers ∧
        hash sampleHex orderHello.extensionText = .ok extensions ∧
        s = front ++ '_' :: (ciphers ++ '_' :: extensions)) ∧
    utf8 orderHello.extensionText ≠
      utf8 (TlsHello.extensionText { orderHello with signatureAlgorithms := [0x804, 0x403] }) :=
  have h := ja4_order sampleHex
  ⟨h.1 _ _ (.ciphers orderHello (.insert [] _ (by decide))), h.2.1 orderHello,
    (h.2.2 orderHello { orderHello with signatureAlgorithms := [0x804, 0x403] }
      ⟨10, by decide, by decide, by decide⟩ (.refl _) (by decide)).2.2⟩

end Tls
