import FingerprintBridge.Lib.Action
import Mathlib.Data.List.DropRight

/-!
# Text as Rust's `str` has it

A `str` is its list of characters; `utf8` are its bytes and `fromUtf8` is
`std::str::from_utf8`.  White space is the Unicode property (`str::trim`), which
is wider than the blank and tab of HTTP's optional white space (`isOws`).
-/

abbrev Str := List Char

/-- The bytes of an ASCII literal. -/
def ascii (s : String) : Bytes := s.toList.map fun c => c.toNat.toUInt8

def utf8 (s : Str) : Bytes := s.flatMap String.utf8EncodeChar

/-- `std::str::from_utf8(b)?` -/
def fromUtf8 (b : Bytes) : Res Str :=
  match b.toByteArray.utf8Decode? with
  | some s => .ok s.toList
  | none => .error (.err "invalid utf-8")

theorem utf8_append (s t : Str) : utf8 (s ++ t) = utf8 s ++ utf8 t := by simp [utf8]

theorem toByteArray_inj (a b : Bytes) (h : a.toByteArray = b.toByteArray) : a = b := by
  have := congrArg (fun x => x.data.toList) h
  simpa using this

theorem fromUtf8_utf8 (s : Str) : fromUtf8 (utf8 s) = .ok s := by
  have h : (utf8 s).toByteArray = s.utf8Encode := rfl
  unfold fromUtf8
  rw [h, List.utf8Decode?_utf8Encode]

theorem fromUtf8_ok_iff (b : Bytes) (s : Str) : fromUtf8 b = .ok s ↔ b = utf8 s := by
  constructor
  · intro h
    unfold fromUtf8 at h
    split at h
    · next cs hcs =>
      simp only [Except.ok.injEq] at h
      have he := ByteArray.utf8Encode_get_utf8Decode? (b := b.toByteArray) (h := by rw [hcs]; rfl)
      simp only [hcs, Option.get_some, h] at he
      exact toByteArray_inj _ _ he.symm
    · cases h
  · rintro rfl
    exact fromUtf8_utf8 s

theorem fromUtf8_errors (b : Bytes) : (fromUtf8 b).Errors ["invalid utf-8"] := by
  unfold fromUtf8
  split
  · exact Res.errors_ok _
  · exact Res.errors_error _ List.mem_cons_self

/-! ## ASCII octets of a text -/

theorem utf8EncodeChar_ascii (c : Char) (h : c.toNat < 128) :
    String.utf8EncodeChar c = [UInt8.ofNat c.toNat] := by
  have h' : c.val.toNat ≤ 127 := Nat.le_of_lt_succ h
  unfold String.utf8EncodeChar
  simp only [h', if_true]
  rfl

/-- An octet below 128 stands for itself: the others of a sequence are above. -/
theorem mem_utf8EncodeChar (c : Char) (b : UInt8) (hb : b ∈ String.utf8EncodeChar c)
    (h : b.toNat < 128) : c.toNat = b.toNat := by
  unfold String.utf8EncodeChar at hb
  simp only at hb
  split at hb
  · next hc =>
    obtain rfl := List.mem_singleton.1 hb
    show c.val.toNat = _
    rw [UInt8.toNat_ofNat']
    omega
  · exfalso
    split at hb
    · simp only [List.mem_cons, List.not_mem_nil, or_false] at hb
      rcases hb with rfl | rfl
      all_goals
        rw [UInt8.toNat_ofNat'] at h
        omega
    · split at hb
      · simp only [List.mem_cons, List.not_mem_nil, or_false] at hb
        rcases hb with rfl | rfl | rfl
        all_goals
          rw [UInt8.toNat_ofNat'] at h
          omega
      · simp only [List.mem_cons, List.not_mem_nil, or_false] at hb
        rcases hb with rfl | rfl | rfl | rfl
        all_goals
          rw [UInt8.toNat_ofNat'] at h
          omega

theorem utf8_inj (s t : Str) (h : utf8 s = utf8 t) : s = t := by
  have hs := fromUtf8_utf8 s
  rw [h, fromUtf8_utf8 t] at hs
  exact (Except.ok.inj hs).symm

theorem utf8_ascii (s : Str) (h : ∀ c ∈ s, c.toNat < 128) :
    utf8 s = s.map fun c => UInt8.ofNat c.toNat := by
  induction s with
  | nil => rfl
  | cons c s ih =>
    have hcons : utf8 (c :: s) = String.utf8EncodeChar c ++ utf8 s := List.flatMap_cons
    rw [hcons, utf8EncodeChar_ascii c (h c List.mem_cons_self),
      ih fun d hd => h d (List.mem_cons_of_mem _ hd)]
    rfl

/-- A text all of whose octets are in an ASCII range has its characters there. -/
theorem range_of_octets (s : Str) (lo hi : Nat) (hhi : hi < 128)
    (h : ∀ b ∈ utf8 s, lo ≤ b.toNat ∧ b.toNat ≤ hi) (c : Char) (hc : c ∈ s) :
    lo ≤ c.toNat ∧ c.toNat ≤ hi := by
  obtain ⟨b, hb⟩ := List.exists_mem_of_ne_nil _ (String.utf8EncodeChar_ne_nil (c := c))
  have hrange := h b (List.mem_flatMap.2 ⟨c, hc, hb⟩)
  rw [mem_utf8EncodeChar c b hb (by omega)]
  exact hrange

theorem mem_utf8_iff (s : Str) (b : UInt8) (h : b.toNat < 128) :
    b ∈ utf8 s ↔ ∃ c ∈ s, c.toNat = b.toNat := by
  unfold utf8
  rw [List.mem_flatMap]
  constructor
  · rintro ⟨c, hc, hb⟩
    exact ⟨c, hc, mem_utf8EncodeChar c b hb h⟩
  · rintro ⟨c, hc, hb⟩
    refine ⟨c, hc, ?_⟩
    rw [utf8EncodeChar_ascii c (by omega), hb, List.mem_singleton]
    exact (UInt8.ofNat_toNat).symm

/-! ## Stripping both ends of a list -/

section
variable {α : Type} (p : α → Bool)

def strip (l : List α) : List α := (l.dropWhile p).rdropWhile p

theorem dropWhile_append_cons (pre x : List α) (hpre : ∀ a ∈ pre, p a = true)
    (hx : ∀ a, x.head? = some a → p a = false) : (pre ++ x).dropWhile p = x := by
  rw [List.dropWhile_append_of_pos hpre]
  cases x with
  | nil => rfl
  | cons a x =>
    rw [List.dropWhile_cons_of_neg]
    rw [hx a rfl]
    exact Bool.false_ne_true

/-- What is stripped is determined by what is left beginning and ending with none of it. -/
theorem strip_eq (pre x post : List α) (hpre : ∀ a ∈ pre, p a = true)
    (hpost : ∀ a ∈ post, p a = true) (hx : ∀ a, x.head? = some a → p a = false)
    (hx' : ∀ a, x.getLast? = some a → p a = false) : strip p (pre ++ x ++ post) = x := by
  unfold strip
  cases x with
  | nil =>
    have hall : ∀ a ∈ pre ++ [] ++ post, p a = true := by
      intro a ha
      simp only [List.append_nil, List.mem_append] at ha
      exact ha.elim (hpre a) (hpost a)
    rw [List.dropWhile_eq_nil_iff.2 hall]
    rfl
  | cons a x =>
    rw [List.append_assoc, dropWhile_append_cons p pre _ hpre fun b hb => hx b (by simpa using hb)]
    unfold List.rdropWhile
    rw [List.reverse_append, dropWhile_append_cons p _ _ (fun b hb => hpost b (by simpa using hb)),
      List.reverse_reverse]
    rw [List.head?_reverse]
    exact hx'

theorem strip_head (l : List α) (a : α) (h : (strip p l).head? = some a) : p a = false := by
  obtain ⟨t, ht⟩ : strip p l <+: l.dropWhile p := List.rdropWhile_prefix p _
  have hd : (l.dropWhile p).head? = some a := by
    rw [← ht, List.head?_append, h]
    rfl
  have := List.head?_dropWhile_not p l
  rw [hd] at this
  exact this

theorem strip_last (l : List α) (a : α) (h : (strip p l).getLast? = some a) : p a = false := by
  have hne : strip p l ≠ [] := by
    intro h0
    rw [h0] at h
    cases h
  have hlast : ¬ p ((strip p l).getLast hne) = true := List.rdropWhile_last_not _ _ hne
  rw [List.getLast?_eq_some_getLast hne, Option.some.injEq] at h
  rwa [h, Bool.not_eq_true] at hlast

theorem strip_cut (l : List α) : ∃ pre post, l = pre ++ strip p l ++ post ∧
    (∀ a ∈ pre, p a = true) ∧ ∀ a ∈ post, p a = true := by
  refine ⟨l.takeWhile p, (l.dropWhile p).rtakeWhile p, ?_, fun a => List.mem_takeWhile_imp,
    fun a => List.mem_rtakeWhile_imp⟩
  unfold strip
  rw [List.append_assoc, List.rdropWhile_append_rtakeWhile, List.takeWhile_append_dropWhile]

theorem strip_append_right (l post : List α) (hpost : ∀ a ∈ post, p a = true) :
    strip p (l ++ post) = strip p l := by
  obtain ⟨pre, post', hl, hpre, hpost'⟩ := strip_cut p l
  conv_lhs => rw [hl, List.append_assoc]
  refine strip_eq p pre _ _ hpre (fun a ha => ?_) (strip_head p l) (strip_last p l)
  rcases List.mem_append.1 ha with ha | ha
  · exact hpost' a ha
  · exact hpost a ha

end

/-! ## White space -/

/-- Blank and tab. -/
def isOws (c : Char) : Bool := c = ' ' || c = '\t'

/-- `char::is_whitespace`: the Unicode property White_Space. -/
def isWhitespace (c : Char) : Bool :=
  (9 ≤ c.toNat && c.toNat ≤ 13) || c.toNat = 0x20 || c.toNat = 0x85 || c.toNat = 0xA0 ||
  c.toNat = 0x1680 || (0x2000 ≤ c.toNat && c.toNat ≤ 0x200A) || c.toNat = 0x2028 ||
  c.toNat = 0x2029 || c.toNat = 0x202F || c.toNat = 0x205F || c.toNat = 0x3000

theorem isOws_of_printable (c : Char) (h : 32 < c.toNat) : isOws c = false := by
  unfold isOws
  rw [Bool.or_eq_false_iff, decide_eq_false_iff_not, decide_eq_false_iff_not]
  constructor
  · rintro rfl
    exact absurd h (by decide)
  · rintro rfl
    exact absurd h (by decide)

def trimStart (p : Char → Bool) (s : Str) : Str := s.dropWhile p

def trimEnd (p : Char → Bool) (s : Str) : Str := s.rdropWhile p

def trim (p : Char → Bool) (s : Str) : Str := trimEnd p (trimStart p s)

def isOwsByte (b : UInt8) : Bool := b = 32 || b = 9

theorem char_eq_of_toNat (c : Char) (n : Nat) (h : c.toNat = n) : c = Char.ofNat n := by
  rw [← h, Char.ofNat_toNat]

/-- Blank and tab are octets of their own. -/
theorem isOwsByte_of_mem (c : Char) (b : UInt8) (hb : b ∈ String.utf8EncodeChar c) :
    isOwsByte b = isOws c := by
  cases hc : isOws c with
  | true =>
    unfold isOws at hc
    simp only [Bool.or_eq_true, decide_eq_true_eq] at hc
    rcases hc with rfl | rfl
    · rw [show String.utf8EncodeChar ' ' = [32] by decide] at hb
      rw [List.mem_singleton.1 hb]
      rfl
    · rw [show String.utf8EncodeChar '\t' = [9] by decide] at hb
      rw [List.mem_singleton.1 hb]
      rfl
  | false =>
    cases ho : isOwsByte b with
    | false => rfl
    | true =>
      unfold isOwsByte at ho
      simp only [Bool.or_eq_true, decide_eq_true_eq] at ho
      have hn : c = ' ' ∨ c = '\t' := by
        rcases ho with rfl | rfl
        · exact Or.inl (char_eq_of_toNat c 32 (mem_utf8EncodeChar c 32 hb (by decide)))
        · exact Or.inr (char_eq_of_toNat c 9 (mem_utf8EncodeChar c 9 hb (by decide)))
      unfold isOws at hc
      rcases hn with rfl | rfl
      · exact absurd hc (by decide)
      · exact absurd hc (by decide)

theorem utf8_nil_iff (s : Str) : utf8 s = [] ↔ s = [] := by
  unfold utf8
  rw [List.flatMap_eq_nil_iff]
  constructor
  · intro h
    cases s with
    | nil => rfl
    | cons c s => exact absurd (h c List.mem_cons_self) String.utf8EncodeChar_ne_nil
  · rintro rfl
    exact fun c hc => nomatch hc

theorem utf8_head (s : Str) (b : UInt8) (h : (utf8 s).head? = some b) :
    ∃ c, s.head? = some c ∧ b ∈ String.utf8EncodeChar c := by
  cases s with
  | nil => cases h
  | cons c s =>
    refine ⟨c, rfl, ?_⟩
    have hcons : utf8 (c :: s) = String.utf8EncodeChar c ++ utf8 s := List.flatMap_cons
    rw [hcons, List.head?_append_of_ne_nil _ String.utf8EncodeChar_ne_nil] at h
    exact List.mem_of_head? h

theorem utf8_last (s : Str) (b : UInt8) (h : (utf8 s).getLast? = some b) :
    ∃ c, s.getLast? = some c ∧ b ∈ String.utf8EncodeChar c := by
  rcases List.eq_nil_or_concat s with rfl | ⟨s, c, rfl⟩
  · cases h
  · refine ⟨c, by simp, ?_⟩
    have hsnoc : utf8 (s ++ [c]) = utf8 s ++ String.utf8EncodeChar c := by
      rw [utf8_append]
      simp [utf8]
    rw [List.concat_eq_append, hsnoc,
      List.getLast?_append_of_ne_nil _ String.utf8EncodeChar_ne_nil] at h
    exact List.mem_of_getLast? h

/-- A last ASCII octet is a last character. -/
theorem utf8_snoc (s : Str) (v : Bytes) (b : UInt8) (hb : b.toNat < 128)
    (h : utf8 s = v ++ [b]) : ∃ t, s = t ++ [Char.ofNat b.toNat] ∧ v = utf8 t := by
  obtain ⟨c, hc, hmem⟩ := utf8_last s b (by rw [h]; simp)
  have hcb := mem_utf8EncodeChar c b hmem hb
  obtain ⟨t, rfl⟩ := List.getLast?_eq_some_iff.1 hc
  refine ⟨t, by rw [char_eq_of_toNat c _ hcb], ?_⟩
  have hsnoc : utf8 (t ++ [c]) = utf8 t ++ [b] := by
    rw [utf8_append]
    show utf8 t ++ [c].flatMap String.utf8EncodeChar = _
    rw [List.flatMap_singleton, utf8EncodeChar_ascii c (by omega), hcb, UInt8.ofNat_toNat]
  rw [hsnoc] at h
  exact (List.append_cancel_right h).symm

/-- Blanks are stripped from the octets as from the text. -/
theorem strip_utf8 (s : Str) : strip isOwsByte (utf8 s) = utf8 (trim isOws s) := by
  obtain ⟨pre, post, hs, hpre, hpost⟩ := strip_cut isOws s
  have hows : ∀ t : Str, (∀ c ∈ t, isOws c = true) → ∀ b ∈ utf8 t, isOwsByte b = true := by
    intro t ht b hb
    obtain ⟨c, hc, hb⟩ := List.mem_flatMap.1 hb
    rw [isOwsByte_of_mem c b hb, ht c hc]
  show _ = utf8 (strip isOws s)
  rw [hs, utf8_append, utf8_append, ← hs]
  refine strip_eq _ _ _ _ (hows pre hpre) (hows post hpost) (fun b hb => ?_) (fun b hb => ?_)
  · obtain ⟨c, hc, hmem⟩ := utf8_head _ b hb
    rw [isOwsByte_of_mem c b hmem, strip_head isOws s c hc]
  · obtain ⟨c, hc, hmem⟩ := utf8_last _ b hb
    rw [isOwsByte_of_mem c b hmem, strip_last isOws s c hc]

/-- `t` between what `p` trims at its start and its end; these do not meet. -/
structure Padded (p : Char → Bool) (pre t post : Str) : Prop where
  before : ∀ c ∈ pre, p c = true
  after : ∀ c ∈ post, p c = true
  first : ∀ c, t.head? = some c → p c = false
  last : ∀ c, t.getLast? = some c → p c = false
  apart : t = [] → pre ++ post = []

theorem Padded.trim_eq {p : Char → Bool} {pre t post : Str} (h : Padded p pre t post) :
    trim p (pre ++ t ++ post) = t :=
  strip_eq p pre t post h.before h.after h.first h.last

theorem Padded.bare {p : Char → Bool} {pre t post : Str} (h : Padded p pre t post) : Padded p [] t [] :=
  ⟨by simp, by simp, h.first, h.last, fun _ => rfl⟩

/-- Another text between them, which begins and ends as the first or with what is not
trimmed. -/
theorem Padded.replace {p : Char → Bool} {pre t t' post : Str} (h : Padded p pre t post)
    (hfirst : ∀ c, t'.head? = some c → t.head? = some c ∨ p c = false)
    (hlast : ∀ c, t'.getLast? = some c → t.getLast? = some c ∨ p c = false)
    (hnil : t' = [] → t = []) : Padded p pre t' post :=
  ⟨h.before, h.after, fun c hc => (hfirst c hc).elim (h.first c) id,
    fun c hc => (hlast c hc).elim (h.last c) id, fun h0 => h.apart (hnil h0)⟩

/-- A text has something between what is trimmed, or all of it is. -/
theorem exists_padded (p : Char → Bool) (s : Str) :
    (∃ pre t post, s = pre ++ t ++ post ∧ Padded p pre t post) ∨
      (s ≠ [] ∧ ∀ c ∈ s, p c = true) := by
  obtain ⟨pre, post, hs, hpre, hpost⟩ := strip_cut p s
  by_cases hmeet : strip p s = [] → pre ++ post = []
  · exact Or.inl ⟨pre, _, post, hs, hpre, hpost, strip_head p s, strip_last p s, hmeet⟩
  · simp only [Classical.not_imp] at hmeet
    rw [hmeet.1, List.append_nil] at hs
    refine Or.inr ⟨by rw [hs]; exact hmeet.2, fun c hc => ?_⟩
    rw [hs] at hc
    exact (List.mem_append.1 hc).elim (hpre c) (hpost c)

/-- The lengths by which `str::trim_start` and `str::trim_end` shorten a text. -/
theorem Padded.offsets {p : Char → Bool} {pre t post : Str} (h : Padded p pre t post) :
    (pre ++ t ++ post).length - (trimStart p (pre ++ t ++ post)).length = pre.length ∧
      (trimEnd p (pre ++ t ++ post)).length = pre.length + t.length := by
  by_cases ht : t = []
  · subst ht
    obtain ⟨rfl, rfl⟩ := List.append_eq_nil_iff.1 (h.apart rfl)
    exact ⟨rfl, rfl⟩
  · constructor
    · have hstart : trimStart p (pre ++ t ++ post) = t ++ post := by
        rw [List.append_assoc]
        refine dropWhile_append_cons p pre _ h.before fun c hc => h.first c ?_
        rwa [List.head?_append_of_ne_nil _ ht] at hc
      rw [hstart]
      simp only [List.length_append]
      omega
    · have hend : trimEnd p (pre ++ t ++ post) = pre ++ t := by
        unfold trimEnd List.rdropWhile
        rw [List.reverse_append, dropWhile_append_cons p _ _
          (fun c hc => h.after c (by simpa using hc)), List.reverse_reverse]
        intro c hc
        rw [List.head?_reverse, List.getLast?_append_of_ne_nil _ ht] at hc
        exact h.last c hc
      rw [hend, List.length_append]

/-! ## ASCII letter case -/

def byteLower (c : UInt8) : UInt8 := if 65 ≤ c.toNat ∧ c.toNat ≤ 90 then c + 32 else c

/-- `[u8]::to_ascii_lowercase`. -/
def asciiLower (b : Bytes) : Bytes := b.map byteLower

/-- `[u8]::eq_ignore_ascii_case`. -/
def eqIgnoreCase (a b : Bytes) : Bool := asciiLower a == asciiLower b

/-- `str::to_ascii_lowercase`. -/
def strLower (s : Str) : Str := s.map Char.toLower

/-- `str::eq_ignore_ascii_case`. -/
def strEqIgnoreCase (a b : Str) : Bool := strLower a == strLower b

theorem toLower_range (c : Char) : c.toLower = c ∨ (65 ≤ c.toNat ∧ c.toNat ≤ 90) := by
  unfold Char.toLower
  split
  · next hc => exact Or.inr hc
  · exact Or.inl rfl

theorem isLower_range (c : Char) (h : c.isLower = true) : 97 ≤ c.toNat ∧ c.toNat ≤ 122 := by
  have hcut := Bool.and_eq_true_iff.1 h
  exact ⟨of_decide_eq_true hcut.1, of_decide_eq_true hcut.2⟩

theorem byteLower_ofNat : ∀ n < 128,
    byteLower (UInt8.ofNat n) = UInt8.ofNat (Char.ofNat n).toLower.toNat := by
  decide +kernel

/-- On ASCII texts lower case is lower case of the octets. -/
theorem asciiLower_utf8 (s : Str) (h : ∀ c ∈ s, c.toNat < 128) :
    asciiLower (utf8 s) = (strLower s).map fun c => UInt8.ofNat c.toNat := by
  rw [utf8_ascii s h]
  unfold asciiLower strLower
  rw [List.map_map, List.map_map]
  refine List.map_congr_left fun c hc => ?_
  show byteLower (UInt8.ofNat c.toNat) = UInt8.ofNat c.toLower.toNat
  rw [byteLower_ofNat _ (h c hc), Char.ofNat_toNat]

theorem toLower_toNat (c : Char) :
    c.toLower.toNat = if 65 ≤ c.toNat ∧ c.toNat ≤ 90 then c.toNat + 32 else c.toNat := by
  unfold Char.toLower
  split
  · next hc =>
    have h1 : 65 ≤ c.toNat := hc.1
    have h2 : c.toNat ≤ 90 := hc.2
    have h3 : ('a'.val - 'A'.val).toNat = 32 := by decide
    rw [if_pos ⟨h1, h2⟩]
    show (c.val + ('a'.val - 'A'.val)).toNat = c.val.toNat + 32
    rw [UInt32.toNat_add, h3]
    have h4 : c.val.toNat ≤ 90 := h2
    omega
  · next hc => exact (if_neg hc).symm

theorem toLower_printable (c : Char) (h : 32 < c.toNat) : 32 < c.toLower.toNat := by
  rw [toLower_toNat]
  split
  · omega
  · exact h
