import FingerprintBridge.Tls.Hello
import FingerprintBridge.Lib.Incremental

/-!
# TLS records

`clientHello` puts a handshake message together from records and asks after each of them
whether the hello is there (`message`).  Its answer depends on the payloads alone, however
they are cut, and does not change with more octets.
-/

namespace Tls

section
variable (D : DigestCrates)

/-! ## The code -/

/-- The hello at the beginning of what was put together, once it is there. -/
def message : Bytes → Res (Option TlsHello)
  | kind :: n0 :: n1 :: n2 :: body => do
    ensure (kind = 1) "expected ClientHello"
    let n := (n0.toNat <<< 16) ||| (n1.toNat <<< 8) ||| n2.toNat
    ensure (n + 4 ≤ MAX_HELLO) "oversized ClientHello"
    if n ≤ body.length then return some (← parseHello D (body.take n))
    else return none
  | _ => return none

/-- At most `fuel` passes of the loop; a pass takes at least five octets. -/
def recordLoop : (fuel : Nat) → (handshake records : Bytes) → Res (Option TlsHello)
  | fuel + 1, handshake, kind :: _ :: _ :: n0 :: n1 :: records => do
    ensure (kind = 22) "expected TLS handshake record"
    let n := (fromBeBytes n0 n1).toNat
    ensure (n ≤ 18432) "oversized TLS record"
    if records.length < n then return none
    else do
      let handshake := handshake ++ records.take n
      match ← message D handshake with
      | some hello => return some hello
      | none => recordLoop fuel handshake (records.drop n)
  | _, _, _ => return none

def clientHello (records : Bytes) : Res (Option TlsHello) := do
  ensure (records.length ≤ MAX_HELLO) "ClientHello capture limit exceeded"
  recordLoop D (records.length + 1) [] records

end

/-! ## Records -/

/-- A handshake record with any version. -/
structure Record where
  major : UInt8
  minor : UInt8
  payload : Bytes
  size : payload.length ≤ 18432
deriving DecidableEq, Repr

def Record.encode (r : Record) : Bytes := [22, r.major, r.minor] ++ vec16 r.payload

def encodeAll (rs : List Record) : Bytes := rs.flatMap Record.encode

variable {D : DigestCrates}

/-- The whole message decides, once its length is there. -/
theorem message_stable : Stable (message D) := by
  intro h x hne
  match h with
  | kind :: n0 :: n1 :: n2 :: body =>
    rw [List.cons_append, List.cons_append, List.cons_append, List.cons_append]
    unfold message at hne ⊢
    by_cases hkind : kind = 1
    · simp only [ensure, if_pos hkind] at hne ⊢
      by_cases hmax : (n0.toNat <<< 16 ||| n1.toNat <<< 8 ||| n2.toNat) + 4 ≤ MAX_HELLO
      · simp only [if_pos hmax] at hne ⊢
        by_cases hn : (n0.toNat <<< 16 ||| n1.toNat <<< 8 ||| n2.toNat) ≤ body.length
        · rw [if_pos hn, if_pos (by rw [List.length_append]; omega),
            List.take_append_of_le_length hn]
        · rw [if_neg hn] at hne
          exact (hne rfl).elim
      · simp only [if_neg hmax]
        rfl
    · simp only [ensure, if_neg hkind]
      rfl
  | [] => exact (hne rfl).elim
  | [_] => exact (hne rfl).elim
  | [_, _] => exact (hne rfl).elim
  | [_, _, _] => exact (hne rfl).elim

/-- One pass of the loop. -/
theorem recordLoop_cons (fuel : Nat) (handshake : Bytes) (kind v0 v1 n0 n1 : UInt8) (b : Bytes) :
    recordLoop D (fuel + 1) handshake (kind :: v0 :: v1 :: n0 :: n1 :: b) =
      if kind = 22 then
        if (fromBeBytes n0 n1).toNat ≤ 18432 then
          if b.length < (fromBeBytes n0 n1).toNat then .ok none
          else answerOr (message D (handshake ++ b.take (fromBeBytes n0 n1).toNat))
            (recordLoop D fuel (handshake ++ b.take (fromBeBytes n0 n1).toNat)
              (b.drop (fromBeBytes n0 n1).toNat))
        else .error (.err "oversized TLS record")
      else .error (.err "expected TLS handshake record") := by
  conv_lhs => unfold recordLoop
  by_cases hkind : kind = 22
  · by_cases hsize : (fromBeBytes n0 n1).toNat ≤ 18432
    · simp only [ensure, if_pos hkind, if_pos hsize]
      show (if b.length < (fromBeBytes n0 n1).toNat then _ else _) = _
      split
      · rfl
      · cases message D (handshake ++ b.take (fromBeBytes n0 n1).toNat) with
        | error e => rfl
        | ok answer =>
          cases answer with
          | none => rfl
          | some hello => rfl
    · simp only [ensure, if_pos hkind, if_neg hsize]
      rfl
  · simp only [ensure, if_neg hkind]
    rfl

/-! ## Cutting a message into records -/

/-- A record adds its payload to the message. -/
theorem recordLoop_record (fuel : Nat) (handshake : Bytes) (r : Record) (b : Bytes) :
    recordLoop D (fuel + 1) handshake (r.encode ++ b) =
      answerOr (message D (handshake ++ r.payload)) (recordLoop D fuel (handshake ++ r.payload) b) := by
  have hlen : (fromBeBytes (UInt8.ofNat ((UInt16.ofNat r.payload.length).toNat / 256))
      (UInt8.ofNat (UInt16.ofNat r.payload.length).toNat)).toNat = r.payload.length := by
    have := r.size
    rw [fromBeBytes_be16, UInt16.toNat_ofNat']
    omega
  show recordLoop D (fuel + 1) handshake (22 :: r.major :: r.minor ::
    UInt8.ofNat ((UInt16.ofNat r.payload.length).toNat / 256) ::
    UInt8.ofNat (UInt16.ofNat r.payload.length).toNat :: (r.payload ++ b)) = _
  rw [recordLoop_cons, if_pos rfl, hlen, if_pos r.size, if_neg, List.take_left, List.drop_left]
  rw [List.length_append]
  omega

theorem recordLoop_records (fuel : Nat) (handshake : Bytes) (rs : List Record)
    (hfuel : rs.length < fuel) :
    recordLoop D fuel handshake (encodeAll rs) =
      feed (message D) handshake (rs.map Record.payload) := by
  induction rs generalizing fuel handshake with
  | nil =>
    obtain ⟨n, rfl⟩ := Nat.exists_eq_succ_of_ne_zero (Nat.ne_of_gt hfuel)
    rfl
  | cons r rs ih =>
    rw [List.length_cons] at hfuel
    obtain ⟨n, rfl⟩ : ∃ n, fuel = n + 1 := ⟨fuel - 1, by omega⟩
    have htail := ih n (handshake ++ r.payload) (by omega)
    rw [encodeAll, List.flatMap_cons, recordLoop_record, List.map_cons, feed, ← htail]
    rfl

theorem encodeAll_length (rs : List Record) : rs.length ≤ (encodeAll rs).length := by
  induction rs with
  | nil => exact Nat.le_refl _
  | cons r rs ih =>
    rw [encodeAll, List.flatMap_cons, List.length_append, List.length_cons]
    have : 1 ≤ r.encode.length := by
      unfold Record.encode
      simp
    unfold encodeAll at ih
    omega

/-- The answer on records is that of the message on their payloads. -/
theorem clientHello_records (rs : List Record) (h : (encodeAll rs).length ≤ MAX_HELLO) :
    clientHello D (encodeAll rs) = message D (rs.flatMap Record.payload) := by
  have hlt := Nat.lt_succ_of_le (encodeAll_length rs)
  unfold clientHello
  rw [ensure, if_pos h]
  show recordLoop D _ [] (encodeAll rs) = _
  rw [recordLoop_records _ _ rs hlt, message_stable.feed_eq [] _ rfl, List.nil_append,
    List.flatMap_def]

/-- **Fragmentation does not matter.**  The same message cut into records in two ways is
answered alike. -/
theorem fragmentation_invariant (D : DigestCrates) (rs rs' : List Record)
    (h : rs.flatMap Record.payload = rs'.flatMap Record.payload)
    (hrs : (encodeAll rs).length ≤ MAX_HELLO) (hrs' : (encodeAll rs').length ≤ MAX_HELLO) :
    clientHello D (encodeAll rs) = clientHello D (encodeAll rs') := by
  rw [clientHello_records rs hrs, clientHello_records rs' hrs', h]

/-! ## More octets -/

theorem recordLoop_append (n n' : Nat) (handshake b x : Bytes) (hn : n ≤ n')
    (hne : recordLoop D n handshake b ≠ .ok none) :
    recordLoop D n' handshake (b ++ x) = recordLoop D n handshake b := by
  induction n generalizing n' handshake b with
  | zero => exact (hne rfl).elim
  | succ n ih =>
    obtain ⟨n', rfl⟩ := Nat.exists_eq_add_of_le' (Nat.le_trans (Nat.le_add_left 1 n) hn)
    match b with
    | kind :: v0 :: v1 :: n0 :: n1 :: b =>
      rw [recordLoop_cons] at hne
      rw [List.cons_append, List.cons_append, List.cons_append, List.cons_append, List.cons_append,
        recordLoop_cons, recordLoop_cons]
      by_cases hkind : kind = 22
      · by_cases hsize : (fromBeBytes n0 n1).toNat ≤ 18432
        · by_cases hb : b.length < (fromBeBytes n0 n1).toNat
          · rw [if_pos hkind, if_pos hsize, if_pos hb] at hne
            exact (hne rfl).elim
          · have hbx : ¬ (b ++ x).length < (fromBeBytes n0 n1).toNat := by
              rw [List.length_append]
              omega
            have hle : (fromBeBytes n0 n1).toNat ≤ b.length := Nat.le_of_not_lt hb
            rw [if_pos hkind, if_pos hsize, if_neg hb] at hne ⊢
            rw [if_pos hkind, if_pos hsize, if_neg hbx, List.take_append_of_le_length hle,
              List.drop_append_of_le_length hle]
            by_cases hm : message D (handshake ++ b.take (fromBeBytes n0 n1).toNat) = .ok none
            · rw [hm, answerOr_none] at hne
              rw [hm, answerOr_none, answerOr_none]
              exact ih n' _ _ (by omega) hne
            · rw [answerOr_of_ne hm, answerOr_of_ne hm]
        · rw [if_pos hkind, if_neg hsize, if_pos hkind, if_neg hsize]
      · rw [if_neg hkind, if_neg hkind]
    | [] => exact (hne rfl).elim
    | [_] => exact (hne rfl).elim
    | [_, _] => exact (hne rfl).elim
    | [_, _, _] => exact (hne rfl).elim
    | [_, _, _, _] => exact (hne rfl).elim

/-- **Prefix stability.**  A hello found, or an error, is the answer on any extension that
may be captured. -/
theorem clientHello_append (p x : Bytes) (h : (p ++ x).length ≤ MAX_HELLO)
    (hne : clientHello D p ≠ .ok none) : clientHello D (p ++ x) = clientHello D p := by
  have hp : p.length ≤ MAX_HELLO := by
    rw [List.length_append] at h
    omega
  have hloop : ∀ b : Bytes, b.length ≤ MAX_HELLO →
      clientHello D b = recordLoop D (b.length + 1) [] b := by
    intro b hb
    unfold clientHello
    rw [ensure, if_pos hb]
    rfl
  rw [hloop p hp] at hne ⊢
  rw [hloop _ h]
  exact recordLoop_append _ _ [] p x (by rw [List.length_append]; omega) hne

/-! ## Examples -/

/-- The first five octets of a hello, in one record. -/
def oneRecord : List Record := [⟨3, 1, [1, 0, 0, 1, 7], by decide⟩]

/-- The same octets, in three. -/
def threeRecords : List Record :=
  [⟨3, 1, [1, 0], by decide⟩, ⟨3, 3, [], by decide⟩, ⟨3, 3, [0, 1, 7], by decide⟩]

theorem fragmentation_sample :
    clientHello sampleDigests (encodeAll oneRecord) =
      clientHello sampleDigests (encodeAll threeRecords) :=
  fragmentation_invariant sampleDigests oneRecord threeRecords (by decide) (by decide) (by decide)

end Tls
