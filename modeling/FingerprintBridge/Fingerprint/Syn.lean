import FingerprintBridge.Tls.Hello

/-!
# `src/fingerprint.rs`: the SYN of a connection

`tcpSyn` keeps of an IP packet what does not change between connections.  What it keeps
of the TCP options is all of them but the values of timestamps (`syn_lossless`).
-/

namespace Fingerprint

open Tls (DigestCrates fromBeBytes)

structure TcpSyn where
  ipVersion : UInt8
  ttl : UInt8
  df : Bool
  window : UInt16
  flags : UInt16
  options : List (UInt8 × Str)
deriving DecidableEq, Repr

/-! ## The code -/

/-- The header of the network layer: where it ends, the end of the packet, the TTL or hop
limit and DF; nothing for IPv4 without TCP. -/
def ipHeader (version : UInt8) (ip : Bytes) : Res (Option (Nat × Nat × UInt8 × Bool)) :=
  if version = 4 then do
    ensure (20 ≤ ip.length) "short IPv4"
    let off := ((← byteAt ip 0) &&& 15).toNat * 4
    let total := (fromBeBytes (← byteAt ip 2) (← byteAt ip 3)).toNat
    ensure (20 ≤ off ∧ off ≤ total ∧ total ≤ ip.length) "invalid IPv4 size"
    ensure (fromBeBytes (← byteAt ip 6) (← byteAt ip 7) &&& 0x3fff = 0)
      "fragmented IPv4 is unsupported"
    if (← byteAt ip 9) ≠ 6 then return none
    else return some (off, total, ← byteAt ip 8, (← byteAt ip 6) &&& 0x40 != 0)
  else if version = 6 then do
    ensure (40 ≤ ip.length) "short IPv6"
    ensure ((← byteAt ip 6) = 6) "IPv6 extension headers/non-TCP unsupported"
    let total := 40 + (fromBeBytes (← byteAt ip 4) (← byteAt ip 5)).toNat
    ensure (total ≤ ip.length) "truncated IPv6"
    return some (40, total, ← byteAt ip 7, false)
  else .error (.err "unsupported IP version")

section
variable (D : DigestCrates)

/-- The value that is kept of an option of `n` octets. -/
def optionValue (kind : UInt8) (n : Nat) (b : Bytes) : Res Str :=
  if kind = 8 then do
    ensure (n = 10) "invalid timestamp option"
    return "present".toList
  else .ok (D.hexEncode b)

/-- `while p < end`: at most `fuel` passes; each moves `p` on. -/
def tcpOptions (tcp : Bytes) (stop : Nat) : (fuel : Nat) → (p : Nat) → Res (List (UInt8 × Str))
  | 0, _ => .ok []
  | fuel + 1, p =>
    if p < stop then do
      let kind ← byteAt tcp p
      let p := p + 1
      if kind = 0 then return [(0, D.hexEncode (← slice tcp p stop))]
      else if kind = 1 then return (1, []) :: (← tcpOptions tcp stop fuel p)
      else do
        ensure (p < stop) "truncated TCP option"
        let n := (← byteAt tcp p).toNat
        let p := p + 1
        ensure (2 ≤ n) "invalid TCP option length"
        let next ← checkedSub (p + n) 2
        ensure (next ≤ stop) "invalid TCP option length"
        let value ← optionValue D kind n (← slice tcp p next)
        return (kind, value) :: (← tcpOptions tcp stop fuel next)
    else .ok []

/-- The header of the transport layer; nothing unless it is a SYN without an ACK. -/
def tcpHeader (version ttl : UInt8) (df : Bool) (tcp : Bytes) : Res (Option TcpSyn) := do
  ensure (20 ≤ tcp.length) "short TCP"
  if (← byteAt tcp 13) &&& 0x12 ≠ 2 then return none
  else do
    let stop := ((← byteAt tcp 12) >>> 4).toNat * 4
    ensure (20 ≤ stop ∧ stop ≤ tcp.length) "invalid TCP header length"
    let options ← tcpOptions D tcp stop stop 20
    return some {
      ipVersion := version, ttl, df
      window := fromBeBytes (← byteAt tcp 14) (← byteAt tcp 15)
      flags := (((← byteAt tcp 12) &&& 15).toUInt16 <<< 8) ||| (← byteAt tcp 13).toUInt16
      options }

def tcpSyn (ip : Bytes) : Res (Option TcpSyn) := do
  ensure (ip ≠ []) "empty IP packet"
  let version := (← byteAt ip 0) >>> 4
  match ← ipHeader version ip with
  | none => return none
  | some (offset, total, ttl, df) => tcpHeader D version ttl df (← slice ip offset total)

end

/-! ## Options -/

section
variable (D : DigestCrates)

/-- The options that are kept of an area. -/
inductive Options : List (UInt8 × Str) → Bytes → Prop
  | nil : Options [] []
  | stop (rest : Bytes) : Options [(0, D.hexEncode rest)] (0 :: rest)
  | pad {os : List (UInt8 × Str)} {area : Bytes} : Options os area → Options ((1, []) :: os) (1 :: area)
  | timestamp {os : List (UInt8 × Str)} {area value : Bytes} : value.length = 8 → Options os area →
      Options ((8, "present".toList) :: os) (8 :: 10 :: (value ++ area))
  | other {os : List (UInt8 × Str)} {area value : Bytes} {kind n : UInt8} :
      kind ≠ 0 → kind ≠ 1 → kind ≠ 8 → n.toNat = value.length + 2 → Options os area →
      Options ((kind, D.hexEncode value) :: os) (kind :: n :: (value ++ area))

end

/-- Two option areas that differ in the values of timestamps only. -/
inductive SameOptions : Bytes → Bytes → Prop
  | nil : SameOptions [] []
  | stop (rest : Bytes) : SameOptions (0 :: rest) (0 :: rest)
  | pad {a b : Bytes} : SameOptions a b → SameOptions (1 :: a) (1 :: b)
  | timestamp {a b v w : Bytes} : v.length = 8 → w.length = 8 → SameOptions a b →
      SameOptions (8 :: 10 :: (v ++ a)) (8 :: 10 :: (w ++ b))
  | other {a b value : Bytes} {kind n : UInt8} : kind ≠ 0 → kind ≠ 1 → kind ≠ 8 →
      n.toNat = value.length + 2 → SameOptions a b →
      SameOptions (kind :: n :: (value ++ a)) (kind :: n :: (value ++ b))

variable {D : DigestCrates}

/-- The area is what the options say it is. -/
theorem Options.same {os : List (UInt8 × Str)} {a b : Bytes} (h : Options D os a)
    (h' : Options D os b) : SameOptions a b := by
  induction h generalizing b with
  | nil =>
    cases h'
    exact .nil
  | stop rest =>
    generalize hos : [((0 : UInt8), D.hexEncode rest)] = os at h'
    cases h' with
    | nil => cases hos
    | stop rest' =>
      have hhex := D.hexEncode_inj (congrArg Prod.snd (List.cons.inj hos).1)
      rw [hhex]
      exact .stop rest'
    | pad h' => cases hos
    | timestamp hv h' => cases hos
    | other h0 _ _ _ _ => exact (h0 (congrArg Prod.fst (List.cons.inj hos).1).symm).elim
  | @pad os area h ih =>
    generalize hos : ((1 : UInt8), ([] : Str)) :: os = os' at h'
    cases h' with
    | nil => cases hos
    | stop rest' => cases hos
    | pad h' =>
      obtain ⟨-, rfl⟩ := List.cons.inj hos
      exact .pad (ih h')
    | timestamp hv h' => cases hos
    | other _ h1 _ _ _ => exact (h1 (congrArg Prod.fst (List.cons.inj hos).1).symm).elim
  | @timestamp os area value hv h ih =>
    generalize hos : ((8 : UInt8), "present".toList) :: os = os' at h'
    cases h' with
    | nil => cases hos
    | stop rest' => cases hos
    | pad h' => cases hos
    | timestamp hv' h' =>
      obtain ⟨-, rfl⟩ := List.cons.inj hos
      exact .timestamp hv hv' (ih h')
    | other _ _ h8 _ _ => exact (h8 (congrArg Prod.fst (List.cons.inj hos).1).symm).elim
  | @other os area value kind n h0 h1 h8 hn h ih =>
    generalize hos : (kind, D.hexEncode value) :: os = os' at h'
    cases h' with
    | nil => cases hos
    | stop rest' => exact (h0 (congrArg Prod.fst (List.cons.inj hos).1)).elim
    | pad h' => exact (h1 (congrArg Prod.fst (List.cons.inj hos).1)).elim
    | timestamp hv h' => exact (h8 (congrArg Prod.fst (List.cons.inj hos).1)).elim
    | @other os' area' value' kind' n' h0' h1' h8' hn' h' =>
      obtain ⟨hhead, rfl⟩ := List.cons.inj hos
      obtain ⟨rfl, hhex⟩ := Prod.mk.inj hhead
      obtain rfl := D.hexEncode_inj hhex
      obtain rfl : n = n' := UInt8.toNat_inj.1 (hn.trans hn'.symm)
      exact .other h0 h1 h8 hn (ih h')

/-! What is kept of an area, by the kind of its first option. -/

theorem Options.of_stop {os : List (UInt8 × Str)} {rest : Bytes} (h : Options D os (0 :: rest)) :
    os = [(0, D.hexEncode rest)] := by
  generalize harea : (0 : UInt8) :: rest = area at h
  cases h with
  | nil => cases harea
  | stop rest' =>
    cases harea
    rfl
  | pad h => cases harea
  | timestamp hv h => cases harea
  | other h0 _ _ _ _ => exact (h0 (List.cons.inj harea).1.symm).elim

theorem Options.of_pad {os : List (UInt8 × Str)} {a : Bytes} (h : Options D os (1 :: a)) :
    ∃ os', os = (1, []) :: os' ∧ Options D os' a := by
  generalize harea : (1 : UInt8) :: a = area at h
  cases h with
  | nil => cases harea
  | stop rest => cases harea
  | pad h =>
    cases harea
    exact ⟨_, rfl, h⟩
  | timestamp hv h => cases harea
  | other _ h1 _ _ _ => exact (h1 (List.cons.inj harea).1.symm).elim

theorem Options.of_timestamp {os : List (UInt8 × Str)} {v a : Bytes} (hv : v.length = 8)
    (h : Options D os (8 :: 10 :: (v ++ a))) :
    ∃ os', os = (8, "present".toList) :: os' ∧ Options D os' a := by
  generalize harea : (8 : UInt8) :: 10 :: (v ++ a) = area at h
  cases h with
  | nil => cases harea
  | stop rest => cases harea
  | pad h => cases harea
  | timestamp hv' h =>
    obtain ⟨-, htail⟩ := List.append_inj (List.cons.inj (List.cons.inj harea).2).2
      (hv.trans hv'.symm)
    exact ⟨_, rfl, htail ▸ h⟩
  | other _ _ h8 _ _ => exact (h8 (List.cons.inj harea).1.symm).elim

theorem Options.of_other {os : List (UInt8 × Str)} {value a : Bytes} {kind n : UInt8} (h0 : kind ≠ 0)
    (h1 : kind ≠ 1) (h8 : kind ≠ 8) (hn : n.toNat = value.length + 2)
    (h : Options D os (kind :: n :: (value ++ a))) :
    ∃ os', os = (kind, D.hexEncode value) :: os' ∧ Options D os' a := by
  generalize harea : kind :: n :: (value ++ a) = area at h
  cases h with
  | nil => cases harea
  | stop rest => exact (h0 (List.cons.inj harea).1).elim
  | pad h => exact (h1 (List.cons.inj harea).1).elim
  | timestamp hv h => exact (h8 (List.cons.inj harea).1).elim
  | other _ _ _ hn' h =>
    rw [List.cons.injEq, List.cons.injEq] at harea
    obtain ⟨rfl, rfl, hcut⟩ := harea
    obtain ⟨rfl, rfl⟩ := List.append_inj hcut (Nat.add_right_cancel (hn.symm.trans hn'))
    exact ⟨_, rfl, h⟩

/-- Areas that differ in timestamps only are kept alike. -/
theorem SameOptions.eq {a b : Bytes} (h : SameOptions a b) {os os' : List (UInt8 × Str)}
    (ha : Options D os a) (hb : Options D os' b) : os = os' := by
  induction h generalizing os os' with
  | nil =>
    cases ha
    cases hb
    rfl
  | stop rest => rw [ha.of_stop, hb.of_stop]
  | pad _ ih =>
    obtain ⟨os1, rfl, ha1⟩ := ha.of_pad
    obtain ⟨os2, rfl, hb2⟩ := hb.of_pad
    obtain rfl := ih ha1 hb2
    rfl
  | timestamp hv hw _ ih =>
    obtain ⟨os1, rfl, ha1⟩ := ha.of_timestamp hv
    obtain ⟨os2, rfl, hb2⟩ := hb.of_timestamp hw
    obtain rfl := ih ha1 hb2
    rfl
  | other h0 h1 h8 hn _ ih =>
    obtain ⟨os1, rfl, ha1⟩ := ha.of_other h0 h1 h8 hn
    obtain ⟨os2, rfl, hb2⟩ := hb.of_other h0 h1 h8 hn
    obtain rfl := ih ha1 hb2
    rfl

/-! ## The loop -/

theorem optionValue_ok (kind : UInt8) (n : Nat) (b : Bytes) (s : Str)
    (h : optionValue D kind n b = .ok s) :
    (kind = 8 ∧ n = 10 ∧ s = "present".toList) ∨ (kind ≠ 8 ∧ s = D.hexEncode b) := by
  unfold optionValue at h
  split at h
  · next hk =>
    obtain ⟨_, hn, h⟩ := (Res.bind_ok_iff _ _ _).1 h
    cases h
    exact Or.inl ⟨hk, (Res.ensure_ok_iff _ _ _).1 hn, rfl⟩
  · next hk =>
    cases h
    exact Or.inr ⟨hk, rfl⟩

/-- What is before `stop`, from `p` on. -/
theorem take_drop_cons (tcp : Bytes) (stop p : Nat) (c : UInt8) (hp : p < stop)
    (h : byteAt tcp p = .ok c) : (tcp.take stop).drop p = c :: (tcp.take stop).drop (p + 1) := by
  rw [Res.byteAt_ok_iff] at h
  obtain ⟨hlt, rfl⟩ := List.getElem?_eq_some_iff.1 h
  have hlen : p < (tcp.take stop).length := by
    rw [List.length_take]
    omega
  rw [List.drop_eq_getElem_cons hlen, List.getElem_take]

theorem take_drop_slice (tcp b : Bytes) (stop p next : Nat) (hstop : next ≤ stop)
    (h : slice tcp p next = .ok b) :
    (tcp.take stop).drop p = b ++ (tcp.take stop).drop next ∧ p + b.length = next := by
  have hb := Res.slice_ok _ _ _ _ h
  have hrange : p ≤ next ∧ next ≤ tcp.length := by
    unfold slice at h
    split at h
    · next hr => exact hr
    · cases h
  have hcut : b = ((tcp.take stop).drop p).take (next - p) := by
    rw [hb, List.drop_take, List.take_take, Nat.min_eq_left (by omega)]
  have hlen : b.length = next - p := by
    rw [hb, List.length_take, List.length_drop]
    omega
  refine ⟨?_, by omega⟩
  have hnext : (tcp.take stop).drop next = ((tcp.take stop).drop p).drop (next - p) := by
    rw [List.drop_drop, Nat.add_sub_cancel' hrange.1]
  rw [hnext, hcut, List.take_append_drop]

theorem tcpOptions_ok (tcp : Bytes) (stop : Nat) (fuel : Nat) :
    ∀ (p : Nat) (os : List (UInt8 × Str)), stop ≤ p + fuel →
      tcpOptions D tcp stop fuel p = .ok os → Options D os ((tcp.take stop).drop p) := by
  induction fuel with
  | zero =>
    intro p os hp h
    cases h
    rw [List.drop_eq_nil_of_le (by rw [List.length_take]; omega)]
    exact .nil
  | succ fuel ih =>
    intro p os hp h
    unfold tcpOptions at h
    split at h
    · next hlt =>
      obtain ⟨kind, hkind, h⟩ := (Res.bind_ok_iff _ _ _).1 h
      rw [take_drop_cons tcp stop p kind hlt hkind]
      simp only at h
      split at h
      · next h0 =>
        obtain ⟨rest, hrest, h⟩ := (Res.bind_ok_iff _ _ _).1 h
        cases h
        obtain ⟨hcut, -⟩ := take_drop_slice tcp rest stop _ _ (Nat.le_refl _) hrest
        rw [h0, hcut, List.drop_eq_nil_of_le (by rw [List.length_take]; omega), List.append_nil]
        exact .stop rest
      · next h0 =>
        split at h
        · next h1 =>
          obtain ⟨os', hos, h⟩ := (Res.bind_ok_iff _ _ _).1 h
          cases h
          rw [h1]
          exact .pad (ih _ _ (by omega) hos)
        · next h1 =>
          obtain ⟨_, hroom, h⟩ := (Res.bind_ok_iff _ _ _).1 h
          obtain ⟨n, hn, h⟩ := (Res.bind_ok_iff _ _ _).1 h
          obtain ⟨_, htwo, h⟩ := (Res.bind_ok_iff _ _ _).1 h
          obtain ⟨next, hnext, h⟩ := (Res.bind_ok_iff _ _ _).1 h
          obtain ⟨_, hin, h⟩ := (Res.bind_ok_iff _ _ _).1 h
          obtain ⟨b, hb, h⟩ := (Res.bind_ok_iff _ _ _).1 h
          obtain ⟨value, hvalue, h⟩ := (Res.bind_ok_iff _ _ _).1 h
          obtain ⟨os', hos, h⟩ := (Res.bind_ok_iff _ _ _).1 h
          cases h
          rw [Res.ensure_ok_iff] at hroom htwo hin
          have hadd := Res.checkedSub_ok _ _ _ hnext
          rw [take_drop_cons tcp stop (p + 1) n hroom hn]
          obtain ⟨hcut, hlen⟩ := take_drop_slice tcp b stop _ _ hin hb
          rw [hcut]
          have htail := ih _ _ (by omega) hos
          rcases optionValue_ok kind _ b value hvalue with ⟨rfl, hten, rfl⟩ | ⟨h8, rfl⟩
          · obtain rfl : n = 10 := UInt8.toNat_inj.1 hten
            exact .timestamp (by omega) htail
          · exact .other h0 h1 h8 (by omega) htail
    · next hge =>
      cases h
      rw [List.drop_eq_nil_of_le (by rw [List.length_take]; omega)]
      exact .nil

/-! ## The packet -/

def octet (b : Bytes) (i : Nat) : UInt8 := b.getD i 0

section
variable (ip : Bytes)

def ipVersion : UInt8 := octet ip 0 >>> 4

/-- The TTL of IPv4, the hop limit of IPv6. -/
def hopLimit : UInt8 := if ipVersion ip = 4 then octet ip 8 else octet ip 7

def dontFragment : Bool := ipVersion ip = 4 && octet ip 6 &&& 0x40 != 0

/-- Where the header of TCP begins. -/
def tcpStart : Nat := if ipVersion ip = 4 then (octet ip 0 &&& 15).toNat * 4 else 40

def windowField : UInt16 := fromBeBytes (octet ip (tcpStart ip + 14)) (octet ip (tcpStart ip + 15))

/-- The twelve bits after the data offset. -/
def flagBits : UInt16 :=
  ((octet ip (tcpStart ip + 12) &&& 15).toUInt16 <<< 8) ||| (octet ip (tcpStart ip + 13)).toUInt16

/-- What is between the fixed header of TCP and its data. -/
def optionArea : Bytes :=
  (ip.drop (tcpStart ip + 20)).take ((octet ip (tcpStart ip + 12) >>> 4).toNat * 4 - 20)

end

/-- Two packets whose SYNs are one. -/
structure SameSyn (ip ip' : Bytes) : Prop where
  version : ipVersion ip = ipVersion ip'
  ttl : hopLimit ip = hopLimit ip'
  df : dontFragment ip = dontFragment ip'
  window : windowField ip = windowField ip'
  flags : flagBits ip = flagBits ip'
  options : SameOptions (optionArea ip) (optionArea ip')

theorem octet_of_byteAt {b : Bytes} {i : Nat} {c : UInt8} (h : byteAt b i = .ok c) : octet b i = c := by
  rw [Res.byteAt_ok_iff] at h
  unfold octet
  rw [List.getD_eq_getElem?_getD, h]
  rfl

theorem ipHeader_ok (ip : Bytes) (off total : Nat) (ttl : UInt8) (df : Bool)
    (h : ipHeader (ipVersion ip) ip = .ok (some (off, total, ttl, df))) :
    off = tcpStart ip ∧ ttl = hopLimit ip ∧ df = dontFragment ip := by
  unfold ipHeader at h
  unfold tcpStart hopLimit dontFragment
  split at h
  · next h4 =>
    obtain ⟨_, -, h⟩ := (Res.bind_ok_iff _ _ _).1 h
    obtain ⟨b0, hb0, h⟩ := (Res.bind_ok_iff _ _ _).1 h
    obtain ⟨_, -, h⟩ := (Res.bind_ok_iff _ _ _).1 h
    obtain ⟨_, -, h⟩ := (Res.bind_ok_iff _ _ _).1 h
    obtain ⟨_, -, h⟩ := (Res.bind_ok_iff _ _ _).1 h
    obtain ⟨_, -, h⟩ := (Res.bind_ok_iff _ _ _).1 h
    obtain ⟨_, -, h⟩ := (Res.bind_ok_iff _ _ _).1 h
    obtain ⟨_, -, h⟩ := (Res.bind_ok_iff _ _ _).1 h
    obtain ⟨b9, hb9, h⟩ := (Res.bind_ok_iff _ _ _).1 h
    split at h
    · cases h
    · obtain ⟨b8, hb8, h⟩ := (Res.bind_ok_iff _ _ _).1 h
      obtain ⟨b6, hb6, h⟩ := (Res.bind_ok_iff _ _ _).1 h
      cases h
      rw [if_pos h4, if_pos h4, octet_of_byteAt hb0, octet_of_byteAt hb8, octet_of_byteAt hb6, h4]
      exact ⟨rfl, rfl, rfl⟩
  · next h4 =>
    split at h
    · next h6 =>
      obtain ⟨_, -, h⟩ := (Res.bind_ok_iff _ _ _).1 h
      obtain ⟨_, -, h⟩ := (Res.bind_ok_iff _ _ _).1 h
      obtain ⟨_, -, h⟩ := (Res.bind_ok_iff _ _ _).1 h
      obtain ⟨_, -, h⟩ := (Res.bind_ok_iff _ _ _).1 h
      obtain ⟨_, -, h⟩ := (Res.bind_ok_iff _ _ _).1 h
      obtain ⟨_, -, h⟩ := (Res.bind_ok_iff _ _ _).1 h
      obtain ⟨b7, hb7, h⟩ := (Res.bind_ok_iff _ _ _).1 h
      cases h
      rw [if_neg h4, if_neg h4, octet_of_byteAt hb7]
      refine ⟨rfl, rfl, ?_⟩
      simp [h4]
    · cases h

theorem tcpHeader_ok (version ttl : UInt8) (df : Bool) (tcp : Bytes) (syn : TcpSyn)
    (h : tcpHeader D version ttl df tcp = .ok (some syn)) :
    syn.ipVersion = version ∧ syn.ttl = ttl ∧ syn.df = df ∧
      syn.window = fromBeBytes (octet tcp 14) (octet tcp 15) ∧
      syn.flags = ((octet tcp 12 &&& 15).toUInt16 <<< 8) ||| (octet tcp 13).toUInt16 ∧
      20 ≤ tcp.length ∧ (octet tcp 12 >>> 4).toNat * 4 ≤ tcp.length ∧
      Options D syn.options ((tcp.take ((octet tcp 12 >>> 4).toNat * 4)).drop 20) := by
  unfold tcpHeader at h
  obtain ⟨_, hlen, h⟩ := (Res.bind_ok_iff _ _ _).1 h
  obtain ⟨b13, hb13, h⟩ := (Res.bind_ok_iff _ _ _).1 h
  rw [Res.ensure_ok_iff] at hlen
  split at h
  · cases h
  · obtain ⟨b12, hb12, h⟩ := (Res.bind_ok_iff _ _ _).1 h
    obtain ⟨_, hstop, h⟩ := (Res.bind_ok_iff _ _ _).1 h
    obtain ⟨os, hos, h⟩ := (Res.bind_ok_iff _ _ _).1 h
    obtain ⟨b14, hb14, h⟩ := (Res.bind_ok_iff _ _ _).1 h
    obtain ⟨b15, hb15, h⟩ := (Res.bind_ok_iff _ _ _).1 h
    obtain ⟨b12', hb12', h⟩ := (Res.bind_ok_iff _ _ _).1 h
    obtain ⟨b13', hb13', h⟩ := (Res.bind_ok_iff _ _ _).1 h
    rw [Res.ensure_ok_iff] at hstop
    cases h
    rw [octet_of_byteAt hb14, octet_of_byteAt hb15, octet_of_byteAt hb12, octet_of_byteAt hb13']
    rw [hb12] at hb12'
    cases hb12'
    exact ⟨rfl, rfl, rfl, rfl, rfl, hlen, hstop.2, tcpOptions_ok tcp _ _ 20 os (by omega) hos⟩

theorem octet_slice (b c : Bytes) (i j k : Nat) (h : slice b i j = .ok c) (hk : k < c.length) :
    octet c k = octet b (i + k) := by
  have hc := Res.slice_ok _ _ _ _ h
  unfold octet
  rw [List.getD_eq_getElem?_getD, List.getD_eq_getElem?_getD]
  rw [hc, List.length_take] at hk
  rw [hc, List.getElem?_take_of_lt (by omega), List.getElem?_drop]

/-- **What is kept of a packet.** -/
theorem tcpSyn_ok (ip : Bytes) (syn : TcpSyn) (h : tcpSyn D ip = .ok (some syn)) :
    syn.ipVersion = ipVersion ip ∧ syn.ttl = hopLimit ip ∧ syn.df = dontFragment ip ∧
      syn.window = windowField ip ∧ syn.flags = flagBits ip ∧
      Options D syn.options (optionArea ip) := by
  unfold tcpSyn at h
  obtain ⟨_, -, h⟩ := (Res.bind_ok_iff _ _ _).1 h
  obtain ⟨b0, hb0, h⟩ := (Res.bind_ok_iff _ _ _).1 h
  obtain ⟨header, hheader, h⟩ := (Res.bind_ok_iff _ _ _).1 h
  have hversion : b0 >>> 4 = ipVersion ip := by
    unfold ipVersion
    rw [octet_of_byteAt hb0]
  cases header with
  | none => cases h
  | some header =>
    obtain ⟨off, total, ttl, df⟩ := header
    obtain ⟨tcp, htcp, hrun⟩ := (Res.bind_ok_iff _ _ _).1 h
    rw [hversion] at hheader hrun
    obtain ⟨rfl, rfl, rfl⟩ := ipHeader_ok ip off total ttl df hheader
    obtain ⟨h1, h2, h3, h4, h5, hlen, hstop, hos⟩ := tcpHeader_ok _ _ _ tcp syn hrun
    have hoct : ∀ k < 20, octet tcp k = octet ip (tcpStart ip + k) :=
      fun k hk => octet_slice ip tcp _ _ k htcp (by omega)
    rw [hoct 14 (by omega), hoct 15 (by omega)] at h4
    rw [hoct 12 (by omega), hoct 13 (by omega)] at h5
    refine ⟨h1, h2, h3, h4, h5, ?_⟩
    rw [hoct 12 (by omega)] at hstop hos
    have harea : (tcp.take ((octet ip (tcpStart ip + 12) >>> 4).toNat * 4)).drop 20 =
        optionArea ip := by
      have hc := Res.slice_ok _ _ _ _ htcp
      rw [hc, List.length_take] at hstop
      unfold optionArea
      rw [hc, List.take_take, Nat.min_eq_left (by omega), List.drop_take, List.drop_drop]
    rwa [harea] at hos

/-! ## Failures -/

def synErrors : List String :=
  ["empty IP packet", "short IPv4", "invalid IPv4 size", "fragmented IPv4 is unsupported",
    "short IPv6", "IPv6 extension headers/non-TCP unsupported", "truncated IPv6",
    "unsupported IP version", "short TCP", "invalid TCP header length", "truncated TCP option",
    "invalid TCP option length", "invalid timestamp option"]

theorem tcpOptions_errors (tcp : Bytes) (stop : Nat) (hstop : stop ≤ tcp.length) (fuel : Nat) :
    ∀ p, (tcpOptions D tcp stop fuel p).Errors synErrors := by
  induction fuel with
  | zero => exact fun p => Res.errors_ok _
  | succ fuel ih =>
    intro p
    unfold tcpOptions
    split
    · next hlt =>
      refine Res.errors_bind _ _ (Res.errors_byteAt _ _ (by omega)) fun kind _ => ?_
      simp only
      split
      · refine Res.errors_bind _ _ (Res.errors_slice _ _ _ hlt hstop) fun _ _ => Res.errors_ok _
      · split
        · exact Res.errors_bind _ _ (ih _) fun _ _ => Res.errors_ok _
        · refine Res.errors_bind _ _ (Res.errors_ensure _ _ (by decide)) fun _ hroom => ?_
          rw [Res.ensure_ok_iff] at hroom
          refine Res.errors_bind _ _ (Res.errors_byteAt _ _ (by omega)) fun n _ => ?_
          refine Res.errors_bind _ _ (Res.errors_ensure _ _ (by decide)) fun _ htwo => ?_
          rw [Res.ensure_ok_iff] at htwo
          refine Res.errors_bind _ _ (Res.errors_checkedSub _ _ (by omega)) fun next hnext => ?_
          have hadd := Res.checkedSub_ok _ _ _ hnext
          refine Res.errors_bind _ _ (Res.errors_ensure _ _ (by decide)) fun _ hin => ?_
          rw [Res.ensure_ok_iff] at hin
          refine Res.errors_bind _ _ (Res.errors_slice _ _ _ (by omega) (by omega)) fun b _ => ?_
          refine Res.errors_bind _ _ ?_ fun _ _ =>
            Res.errors_bind _ _ (ih _) fun _ _ => Res.errors_ok _
          unfold optionValue
          split
          · exact Res.errors_bind _ _ (Res.errors_ensure _ _ (by decide)) fun _ _ => Res.errors_ok _
          · exact Res.errors_ok _
    · exact Res.errors_ok _

/-- Every check of the length comes before the octets it is for. -/
theorem ipHeader_errors (version : UInt8) (ip : Bytes) : (ipHeader version ip).Errors synErrors := by
  unfold ipHeader
  split
  · refine Res.errors_bind _ _ (Res.errors_ensure _ _ (by decide)) fun _ hlen => ?_
    rw [Res.ensure_ok_iff] at hlen
    have hat : ∀ i < 20, (byteAt ip i).Errors synErrors :=
      fun i hi => Res.errors_byteAt ip i (by omega)
    refine Res.errors_bind _ _ (hat 0 (by omega)) fun _ _ => ?_
    refine Res.errors_bind _ _ (hat 2 (by omega)) fun _ _ => ?_
    refine Res.errors_bind _ _ (hat 3 (by omega)) fun _ _ => ?_
    refine Res.errors_bind _ _ (Res.errors_ensure _ _ (by decide)) fun _ _ => ?_
    refine Res.errors_bind _ _ (hat 6 (by omega)) fun _ _ => ?_
    refine Res.errors_bind _ _ (hat 7 (by omega)) fun _ _ => ?_
    refine Res.errors_bind _ _ (Res.errors_ensure _ _ (by decide)) fun _ _ => ?_
    refine Res.errors_bind _ _ (hat 9 (by omega)) fun _ _ => ?_
    split
    · exact Res.errors_ok _
    · refine Res.errors_bind _ _ (hat 8 (by omega)) fun _ _ => ?_
      exact Res.errors_bind _ _ (hat 6 (by omega)) fun _ _ => Res.errors_ok _
  · split
    · refine Res.errors_bind _ _ (Res.errors_ensure _ _ (by decide)) fun _ hlen => ?_
      rw [Res.ensure_ok_iff] at hlen
      have hat : ∀ i < 40, (byteAt ip i).Errors synErrors :=
        fun i hi => Res.errors_byteAt ip i (by omega)
      refine Res.errors_bind _ _ (hat 6 (by omega)) fun _ _ => ?_
      refine Res.errors_bind _ _ (Res.errors_ensure _ _ (by decide)) fun _ _ => ?_
      refine Res.errors_bind _ _ (hat 4 (by omega)) fun _ _ => ?_
      refine Res.errors_bind _ _ (hat 5 (by omega)) fun _ _ => ?_
      refine Res.errors_bind _ _ (Res.errors_ensure _ _ (by decide)) fun _ _ => ?_
      exact Res.errors_bind _ _ (hat 7 (by omega)) fun _ _ => Res.errors_ok _
    · exact Res.errors_error _ (by decide)

theorem tcpHeader_errors (version ttl : UInt8) (df : Bool) (tcp : Bytes) :
    (tcpHeader D version ttl df tcp).Errors synErrors := by
  unfold tcpHeader
  refine Res.errors_bind _ _ (Res.errors_ensure _ _ (by decide)) fun _ hlen => ?_
  rw [Res.ensure_ok_iff] at hlen
  have hat : ∀ i < 20, (byteAt tcp i).Errors synErrors :=
    fun i hi => Res.errors_byteAt tcp i (by omega)
  refine Res.errors_bind _ _ (hat 13 (by omega)) fun _ _ => ?_
  split
  · exact Res.errors_ok _
  · refine Res.errors_bind _ _ (hat 12 (by omega)) fun _ _ => ?_
    refine Res.errors_bind _ _ (Res.errors_ensure _ _ (by decide)) fun _ hstop => ?_
    rw [Res.ensure_ok_iff] at hstop
    refine Res.errors_bind _ _ (tcpOptions_errors tcp _ hstop.2 _ _) fun _ _ => ?_
    refine Res.errors_bind _ _ (hat 14 (by omega)) fun _ _ => ?_
    refine Res.errors_bind _ _ (hat 15 (by omega)) fun _ _ => ?_
    refine Res.errors_bind _ _ (hat 12 (by omega)) fun _ _ => ?_
    exact Res.errors_bind _ _ (hat 13 (by omega)) fun _ _ => Res.errors_ok _

/-- The header and the end lie in the packet, in this order. -/
theorem ipHeader_range (version : UInt8) (ip : Bytes) (off total : Nat) (ttl : UInt8) (df : Bool)
    (h : ipHeader version ip = .ok (some (off, total, ttl, df))) : off ≤ total ∧ total ≤ ip.length := by
  unfold ipHeader at h
  split at h
  · obtain ⟨_, -, h⟩ := (Res.bind_ok_iff _ _ _).1 h
    obtain ⟨_, -, h⟩ := (Res.bind_ok_iff _ _ _).1 h
    obtain ⟨_, -, h⟩ := (Res.bind_ok_iff _ _ _).1 h
    obtain ⟨_, -, h⟩ := (Res.bind_ok_iff _ _ _).1 h
    obtain ⟨_, hsize, h⟩ := (Res.bind_ok_iff _ _ _).1 h
    obtain ⟨_, -, h⟩ := (Res.bind_ok_iff _ _ _).1 h
    obtain ⟨_, -, h⟩ := (Res.bind_ok_iff _ _ _).1 h
    obtain ⟨_, -, h⟩ := (Res.bind_ok_iff _ _ _).1 h
    obtain ⟨_, -, h⟩ := (Res.bind_ok_iff _ _ _).1 h
    split at h
    · cases h
    · obtain ⟨_, -, h⟩ := (Res.bind_ok_iff _ _ _).1 h
      obtain ⟨_, -, h⟩ := (Res.bind_ok_iff _ _ _).1 h
      cases h
      exact ((Res.ensure_ok_iff _ _ _).1 hsize).2
  · split at h
    · obtain ⟨_, -, h⟩ := (Res.bind_ok_iff _ _ _).1 h
      obtain ⟨_, -, h⟩ := (Res.bind_ok_iff _ _ _).1 h
      obtain ⟨_, -, h⟩ := (Res.bind_ok_iff _ _ _).1 h
      obtain ⟨_, -, h⟩ := (Res.bind_ok_iff _ _ _).1 h
      obtain ⟨_, -, h⟩ := (Res.bind_ok_iff _ _ _).1 h
      obtain ⟨_, htotal, h⟩ := (Res.bind_ok_iff _ _ _).1 h
      obtain ⟨_, -, h⟩ := (Res.bind_ok_iff _ _ _).1 h
      cases h
      exact ⟨Nat.le_add_right _ _, (Res.ensure_ok_iff _ _ _).1 htotal⟩
    · cases h

theorem tcpSyn_errors (ip : Bytes) : (tcpSyn D ip).Errors synErrors := by
  unfold tcpSyn
  refine Res.errors_bind _ _ (Res.errors_ensure _ _ (by decide)) fun _ hne => ?_
  rw [Res.ensure_ok_iff] at hne
  refine Res.errors_bind _ _ (Res.errors_byteAt _ _ (List.length_pos_iff.2 hne)) fun b0 _ => ?_
  refine Res.errors_bind _ _ (ipHeader_errors _ _) fun header hheader => ?_
  cases header with
  | none => exact Res.errors_ok _
  | some header =>
    obtain ⟨off, total, ttl, df⟩ := header
    obtain ⟨hle, htotal⟩ := ipHeader_range _ ip off total ttl df hheader
    exact Res.errors_bind _ _ (Res.errors_slice _ _ _ hle htotal) fun tcp _ =>
      tcpHeader_errors _ _ _ _

/-! ## Nothing but timestamps is lost -/

/-- The octets of the options, with `stamp` for the value of a timestamp. -/
def reencode (H : Tls.HexCrate) (stamp : Bytes) : List (UInt8 × Str) → Bytes
  | [] => []
  | (kind, value) :: options =>
    let b := (H.hexDecode value).getD []
    (if kind = 0 then 0 :: b
      else if kind = 1 then [1]
      else if kind = 8 then 8 :: 10 :: stamp
      else kind :: UInt8.ofNat (b.length + 2) :: b) ++ reencode H stamp options

theorem Options.reencode {H : Tls.HexCrate} {os : List (UInt8 × Str)} {area : Bytes}
    (h : Options H.toDigestCrates os area) (stamp : Bytes) (hstamp : stamp.length = 8) :
    SameOptions (Fingerprint.reencode H stamp os) area := by
  induction h with
  | nil => exact .nil
  | stop rest =>
    unfold Fingerprint.reencode
    simp only [H.decode_encode, Option.getD_some, if_true]
    rw [Fingerprint.reencode, List.append_nil]
    exact .stop rest
  | pad _ ih => exact .pad ih
  | timestamp hv _ ih => exact .timestamp hstamp hv ih
  | @other os area value kind n h0 h1 h8 hn _ ih =>
    have hlen : UInt8.ofNat (value.length + 2) = n := by rw [← hn, UInt8.ofNat_toNat]
    unfold Fingerprint.reencode
    simp only [H.decode_encode, Option.getD_some, if_neg h0, if_neg h1, if_neg h8, hlen]
    exact .other h0 h1 h8 hn ih

/-- **SYN evidence is lossless** up to the values of timestamps. -/
theorem syn_lossless (H : Tls.HexCrate) :
    (∀ ip syn stamp, tcpSyn H.toDigestCrates ip = .ok (some syn) → stamp.length = 8 →
      SameOptions (reencode H stamp syn.options) (optionArea ip)) ∧
    (∀ ip ip' syn syn', tcpSyn H.toDigestCrates ip = .ok (some syn) →
      tcpSyn H.toDigestCrates ip' = .ok (some syn') → (syn = syn' ↔ SameSyn ip ip')) ∧
    ∀ ip, (tcpSyn H.toDigestCrates ip).Errors synErrors := by
  refine ⟨fun ip syn stamp h hstamp => ?_, fun ip ip' syn syn' h h' => ?_, tcpSyn_errors⟩
  · exact (tcpSyn_ok ip syn h).2.2.2.2.2.reencode stamp hstamp
  · obtain ⟨h1, h2, h3, h4, h5, hos⟩ := tcpSyn_ok ip syn h
    obtain ⟨h1', h2', h3', h4', h5', hos'⟩ := tcpSyn_ok ip' syn' h'
    constructor
    · rintro rfl
      exact ⟨h1.symm.trans h1', h2.symm.trans h2', h3.symm.trans h3', h4.symm.trans h4',
        h5.symm.trans h5', hos.same hos'⟩
    · intro hs
      obtain ⟨version, ttl, df, window, flags, options⟩ := syn
      obtain ⟨version', ttl', df', window', flags', options'⟩ := syn'
      simp only at h1 h2 h3 h4 h5 hos h1' h2' h3' h4' h5' hos'
      rw [h1, h2, h3, h4, h5, h1', h2', h3', h4', h5', hs.version, hs.ttl, hs.df, hs.window,
        hs.flags, hs.options.eq hos hos']

/-- An IPv4 SYN with all kinds of options, a timestamp among them. -/
def samplePacket (stamp : UInt8) : Bytes :=
  [0x45, 0, 0, 60, 0, 0, 0x40, 0, 64, 6, 0, 0, 127, 0, 0, 1, 127, 0, 0, 1] ++
  [0x30, 0x39, 1, 187, stamp, 1, 2, 3, 0, 0, 0, 0, 0xa0, 2, 0xff, 0xff, 0, 0, 0, 0] ++
  [2, 4, 5, 0xb4, 4, 2, 8, 10] ++ List.replicate 8 stamp ++ [1, 3, 3, 7]

/-- Sequence numbers and timestamps make no difference. -/
theorem syn_lossless_sample : SameSyn (samplePacket 0) (samplePacket 99) :=
  ((syn_lossless Tls.sampleHex).2.1 (samplePacket 0) (samplePacket 99)
    ⟨4, 64, true, 0xffff, 2, [(2, "05b4".toList), (4, []), (8, "present".toList), (1, []),
      (3, "07".toList)]⟩ _ (by decide +kernel) (by decide +kernel)).1 rfl

end Fingerprint
