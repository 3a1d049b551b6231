import FingerprintBridge.Fingerprint.Syn
import FingerprintBridge.H2.Frame
import FingerprintBridge.Lib.Json

/-!
# `src/fingerprint.rs`: the SYNs of a capture

A classic pcap in either byte order, its records one after the other and of each packet
what is behind the link layer.  The result is that of the packets alone (`pcapSyns_encode`).
-/

namespace Fingerprint

open Tls (DigestCrates fromBeBytes)

/-! ## The code -/

theorem synKeys_increasing : ["df".toList, "flags".toList, "ip_version".toList, "options".toList,
    "ttl".toList, "window".toList].Pairwise (· < ·) := by decide

/-- `serde_json::to_value`. -/
def toValue (syn : TcpSyn) : Json Nat := Json.members
  [("df".toList, .bool syn.df), ("flags".toList, .number syn.flags.toNat),
    ("ip_version".toList, .number syn.ipVersion.toNat),
    ("options".toList, .ofList (syn.options.map fun (kind, value) =>
      .ofList [.number kind.toNat, .string value])),
    ("ttl".toList, .number syn.ttl.toNat), ("window".toList, .number syn.window.toNat)] synKeys_increasing

/-- The byte order of a magic number. -/
def byteOrder (magic : Bytes) : Res Bool :=
  if magic = [0xd4, 0xc3, 0xb2, 0xa1] ∨ magic = [0x4d, 0x3c, 0xb2, 0xa1] then .ok true
  else if magic = [0xa1, 0xb2, 0xc3, 0xd4] ∨ magic = [0xa1, 0xb2, 0x3c, 0x4d] then .ok false
  else .error (.err "need classic pcap; convert pcapng with editcap -F pcap")

/-- `u32at` -/
def u32At (little : Bool) : Bytes → Res UInt32
  | [a, b, c, d] => .ok (if little then H2.fromBeBytes d c b a else H2.fromBeBytes a b c d)
  | _ => .error .panic

def isTag (proto : UInt16) : Bool := proto = 0x8100 || proto = 0x88a8

def isIp (proto : UInt16) : Bool := proto = 0x800 || proto = 0x86dd

/-- The two octets at `i`. -/
def u16At (packet : Bytes) (i : Nat) : Res UInt16 := do
  return fromBeBytes (← byteAt packet i) (← byteAt packet (i + 1))

/-- The tags of an Ethernet frame; each takes four octets. -/
def vlanLoop (packet : Bytes) : (fuel : Nat) → (off : Nat) → (proto : UInt16) → Res (Nat × UInt16)
  | 0, _, _ => .error (.err "short VLAN")
  | fuel + 1, off, proto =>
    if isTag proto then do
      ensure (off + 4 ≤ packet.length) "short VLAN"
      let proto ← u16At packet (off + 2)
      vlanLoop packet fuel (off + 4) proto
    else .ok (off, proto)

/-- Where the IP packet begins; nothing if there is another protocol. -/
def linkOffset (link : UInt32) (packet : Bytes) : Res (Option Nat) :=
  if link = 1 then do
    ensure (14 ≤ packet.length) "short Ethernet"
    let (off, proto) ← vlanLoop packet (packet.length + 1) 14 (← u16At packet 12)
    return if isIp proto then some off else none
  else if link = 101 then .ok (some 0)
  else if link = 113 then do
    ensure (16 ≤ packet.length) "short SLL"
    return if isIp (← u16At packet 14) then some 16 else none
  else if link = 276 then do
    ensure (20 ≤ packet.length) "short SLL2"
    return if isIp (← u16At packet 0) then some 20 else none
  else .error (.err ("unsupported pcap link type " ++ toString link.toNat))

section
variable (D : DigestCrates)

/-- The SYN of a packet, if it is one. -/
def packetSyn (link : UInt32) (packet : Bytes) : Res (Option TcpSyn) := do
  match ← linkOffset link packet with
  | none => return none
  | some offset => tcpSyn D (← slice packet offset packet.length)

/-- `if let Some(syn)`: the SYN stands before what is found after it. -/
def push (syn : Option TcpSyn) (rest : Res (List (Json Nat))) : Res (List (Json Nat)) :=
  match syn with
  | none => rest
  | some syn => return toValue syn :: (← rest)

/-- `while p < pcap.len()`: a pass takes at least 16 octets. -/
def pcapLoop (little : Bool) (link : UInt32) (pcap : Bytes) : (fuel : Nat) → (p : Nat) →
    Res (List (Json Nat))
  | 0, _ => .ok []
  | fuel + 1, p =>
    if p < pcap.length then do
      ensure (16 ≤ pcap.length - p) "truncated pcap record"
      let n := (← u32At little (← slice pcap (p + 8) (p + 12))).toNat
      let p := p + 16
      let left ← checkedSub pcap.length p
      ensure (n ≤ 16 * 1024 * 1024 ∧ n ≤ left) "invalid capture size"
      let packet ← slice pcap p (p + n)
      let syn ← packetSyn D link packet
      push syn (pcapLoop little link pcap fuel (p + n))
    else .ok []

/-- `pcap_syns`, with at most `fuel` records. -/
def pcapRun (fuel : Nat) (pcap : Bytes) : Res (List (Json Nat)) := do
  ensure (24 ≤ pcap.length) "short pcap"
  let little ← byteOrder (← slice pcap 0 4)
  let link ← u32At little (← slice pcap 20 24)
  let out ← pcapLoop D little link pcap fuel 24
  ensure (out ≠ []) "no initial TCP SYN captured"
  return out

def pcapSyns (pcap : Bytes) : Res (List (Json Nat)) := pcapRun D pcap.length pcap

end

/-! ## The format -/

/-- A packet as a record stores it, with the octets around its length. -/
structure Record where
  stamp : Bytes
  original : Bytes
  packet : Bytes
  stamp_length : stamp.length = 8
  original_length : original.length = 4
  size : packet.length ≤ 16 * 1024 * 1024

/-- A capture, with the byte order and the precision it is written in. -/
structure Capture where
  little : Bool
  nanoseconds : Bool
  preamble : Bytes
  link : UInt32
  records : List Record
  preamble_length : preamble.length = 16

def u32Bytes (little : Bool) (n : UInt32) : Bytes :=
  if little then (H2.toBeBytes n).reverse else H2.toBeBytes n

def magicBytes (little nanoseconds : Bool) : Bytes :=
  u32Bytes little (if nanoseconds then 0xa1b23c4d else 0xa1b2c3d4)

def Record.encode (little : Bool) (r : Record) : Bytes :=
  r.stamp ++ u32Bytes little (UInt32.ofNat r.packet.length) ++ r.original ++ r.packet

def Capture.encode (c : Capture) : Bytes :=
  magicBytes c.little c.nanoseconds ++ c.preamble ++ u32Bytes c.little c.link ++
    c.records.flatMap (Record.encode c.little)

def Capture.packets (c : Capture) : List Bytes := c.records.map Record.packet

/-- The protocol and the payload behind the addresses of an Ethernet frame and its tags. -/
def etherPayload : Bytes → Option (UInt16 × Bytes)
  | b0 :: b1 :: b =>
    if isTag (fromBeBytes b0 b1) then
      match b with
      | _ :: _ :: b => etherPayload b
      | _ => none
    else some (fromBeBytes b0 b1, b)
  | _ => none

/-- The protocol and the payload of a packet; raw IP names no protocol. -/
def linkLayer (link : UInt32) (packet : Bytes) : Option (Option UInt16 × Bytes) :=
  if link = 1 then (etherPayload (packet.drop 12)).map fun (proto, payload) => (some proto, payload)
  else if link = 101 then some (none, packet)
  else if link = 113 then
    match packet.drop 14 with
    | b0 :: b1 :: payload => some (some (fromBeBytes b0 b1), payload)
    | _ => none
  else if link = 276 then
    match packet with
    | b0 :: b1 :: b => if 18 ≤ b.length then some (some (fromBeBytes b0 b1), b.drop 18) else none
    | _ => none
  else none

/-- The packet is one of IP, as far as its link layer says. -/
def CarriesIp (proto : Option UInt16) : Prop := ∀ p, proto = some p → p = 0x800 ∨ p = 0x86dd

instance CarriesIp.decidable (proto : Option UInt16) : Decidable (CarriesIp proto) :=
  match proto with
  | none => .isTrue fun p h => nomatch h
  | some p => decidable_of_iff (p = 0x800 ∨ p = 0x86dd)
      ⟨fun h q hq => by cases hq; exact h, fun h => h p rfl⟩

section
variable (D : DigestCrates) (link : UInt32)

/-- The link layer of a packet is whole, and so is what it carries of IP. -/
def WellFormed (packet : Bytes) : Prop :=
  ∃ proto payload, linkLayer link packet = some (proto, payload) ∧
    (CarriesIp proto → ∃ syn, tcpSyn D payload = .ok syn)

/-- The SYN that a packet carries. -/
def synOf (packet : Bytes) : Option TcpSyn :=
  match linkLayer link packet with
  | some (proto, payload) =>
    if CarriesIp proto then
      match tcpSyn D payload with
      | .ok syn => syn
      | .error _ => none
    else none
  | none => none

/-- What is collected of a list of packets. -/
def collect : List Bytes → Res (List (Json Nat))
  | [] => .ok []
  | packet :: packets => do
    let syn ← packetSyn D link packet
    push syn (collect packets)

end

/-! ## Link layers -/

theorem u16At_eq (packet : Bytes) (i : Nat) (b0 b1 : UInt8) (b : Bytes)
    (h : packet.drop i = b0 :: b1 :: b) : u16At packet i = .ok (fromBeBytes b0 b1) := by
  have h0 : byteAt packet i = .ok b0 := by
    rw [Res.byteAt_ok_iff, ← Nat.add_zero i, ← List.getElem?_drop, h]
    rfl
  have h1 : byteAt packet (i + 1) = .ok b1 := by
    rw [Res.byteAt_ok_iff, ← List.getElem?_drop, h]
    rfl
  unfold u16At
  rw [h0, h1]
  rfl

/-- Two octets, and what is behind them. -/
theorem exists_two (b : Bytes) (h : 2 ≤ b.length) : ∃ b0 b1 rest, b = b0 :: b1 :: rest := by
  match b with
  | b0 :: b1 :: rest => exact ⟨b0, b1, rest, rfl⟩
  | [_] => simp at h
  | [] => simp at h

theorem etherPayload_two (b0 b1 : UInt8) (b : Bytes) : etherPayload (b0 :: b1 :: b) =
    if isTag (fromBeBytes b0 b1) then etherPayload (b.drop 2) else some (fromBeBytes b0 b1, b) := by
  match b with
  | _ :: _ :: b => rfl
  | [c] => rfl
  | [] => rfl

/-- The loop over the tags finds what is behind them. -/
theorem vlanLoop_eq (packet : Bytes) (fuel : Nat) : ∀ (off : Nat) (b0 b1 : UInt8),
    off ≤ packet.length → packet.length < off + fuel →
    vlanLoop packet fuel off (fromBeBytes b0 b1) =
      match etherPayload (b0 :: b1 :: packet.drop off) with
      | some (proto, payload) => .ok (packet.length - payload.length, proto)
      | none => .error (.err "short VLAN") := by
  induction fuel with
  | zero =>
    intro off b0 b1 hoff hlen
    omega
  | succ fuel ih =>
    intro off b0 b1 hoff hlen
    rw [vlanLoop, etherPayload_two]
    by_cases htag : isTag (fromBeBytes b0 b1) = true
    · rw [if_pos htag, if_pos htag, List.drop_drop]
      by_cases hshort : off + 4 ≤ packet.length
      · obtain ⟨c0, c1, rest, hrest⟩ := exists_two (packet.drop (off + 2)) (by
          rw [List.length_drop]
          omega)
        have hnext : packet.drop (off + 4) = rest := by
          rw [show off + 4 = off + 2 + 2 from rfl, ← List.drop_drop, hrest]
          rfl
        rw [ensure, if_pos hshort, u16At_eq packet _ c0 c1 rest hrest, hrest]
        show vlanLoop packet fuel (off + 4) (fromBeBytes c0 c1) = _
        rw [ih (off + 4) c0 c1 hshort (by omega), hnext]
      · have hnone : etherPayload (packet.drop (off + 2)) = none := by
          have hlen : (packet.drop (off + 2)).length < 2 := by
            rw [List.length_drop]
            omega
          match packet.drop (off + 2), hlen with
          | [], _ => rfl
          | [_], _ => rfl
        rw [ensure, if_neg hshort, hnone]
        rfl
    · rw [if_neg htag, if_neg htag]
      simp only
      rw [List.length_drop, Nat.sub_sub_self hoff]

theorem carriesIp_some (p : UInt16) : CarriesIp (some p) ↔ isIp p = true := by
  unfold CarriesIp isIp
  rw [Bool.or_eq_true, decide_eq_true_eq, decide_eq_true_eq]
  exact ⟨fun h => h p rfl, fun h q hq => by cases hq; exact h⟩

theorem etherPayload_suffix (b payload : Bytes) (proto : UInt16)
    (h : etherPayload b = some (proto, payload)) : payload <:+ b := by
  induction b using etherPayload.induct with
  | case1 b0 b1 htag _ _ b ih =>
    rw [etherPayload, if_pos htag] at h
    exact (ih h).trans ⟨[_, _, _, _], rfl⟩
  | case2 b0 b1 b htag hshort =>
    rw [etherPayload_two, if_pos htag] at h
    match b, hshort with
    | [], _ => cases h
    | [_], _ => cases h
    | _ :: _ :: b, hshort => exact (hshort _ _ _ rfl).elim
  | case3 b0 b1 b htag =>
    rw [etherPayload_two, if_neg htag] at h
    cases h
    exact ⟨[b0, b1], rfl⟩
  | case4 b hshort =>
    match b, hshort with
    | [], _ => cases h
    | [_], _ => cases h
    | b0 :: b1 :: b, hshort => exact (hshort _ _ _ rfl).elim

/-- What `linkOffset` makes of a packet, by what its link layer says. -/
def OffsetOf (packet : Bytes) (r : Res (Option Nat)) : Option (Option UInt16 × Bytes) → Prop
  | some (proto, payload) => payload <:+ packet ∧
      r = .ok (if CarriesIp proto then some (packet.length - payload.length) else none)
  | none => ∃ msg, r = .error (.err msg)

theorem linkOffset_ethernet (packet : Bytes) :
    OffsetOf packet (linkOffset 1 packet) (linkLayer 1 packet) := by
  unfold linkOffset linkLayer
  rw [if_pos rfl, if_pos rfl]
  by_cases hlen : 14 ≤ packet.length
  · obtain ⟨b0, b1, b, hb⟩ := exists_two (packet.drop 12) (by
      rw [List.length_drop]
      omega)
    have hrest : packet.drop 14 = b := by
      rw [show 14 = 12 + 2 from rfl, ← List.drop_drop, hb]
      rfl
    rw [ensure, if_pos hlen, u16At_eq packet 12 b0 b1 b hb, hb, ← hrest]
    show OffsetOf packet (do
      let (off, proto) ← vlanLoop packet (packet.length + 1) 14 (fromBeBytes b0 b1)
      return if isIp proto then some off else none) _
    rw [vlanLoop_eq packet _ 14 b0 b1 hlen (by omega)]
    cases hether : etherPayload (b0 :: b1 :: packet.drop 14) with
    | none => exact ⟨_, rfl⟩
    | some found =>
      obtain ⟨proto, payload⟩ := found
      refine ⟨(etherPayload_suffix _ _ _ hether).trans ?_, ?_⟩
      · rw [hrest, ← hb]
        exact List.drop_suffix 12 packet
      · simp only [carriesIp_some]
        rfl
  · have hnone : etherPayload (packet.drop 12) = none := by
      have hshort : (packet.drop 12).length < 2 := by
        rw [List.length_drop]
        omega
      match packet.drop 12, hshort with
      | [], _ => rfl
      | [_], _ => rfl
    rw [ensure, if_neg hlen, hnone]
    exact ⟨_, rfl⟩

theorem linkOffset_sll (packet : Bytes) :
    OffsetOf packet (linkOffset 113 packet) (linkLayer 113 packet) := by
  unfold linkOffset linkLayer
  rw [if_neg (by decide), if_neg (by decide), if_pos rfl, if_neg (by decide), if_neg (by decide),
    if_pos rfl]
  by_cases hlen : 16 ≤ packet.length
  · obtain ⟨b0, b1, b, hb⟩ := exists_two (packet.drop 14) (by
      rw [List.length_drop]
      omega)
    have hdrop := congrArg List.length hb
    rw [List.length_drop, List.length_cons, List.length_cons] at hdrop
    rw [ensure, if_pos hlen, u16At_eq packet 14 b0 b1 b hb, hb]
    refine ⟨?_, ?_⟩
    · exact List.IsSuffix.trans ⟨[b0, b1], hb.symm⟩ (List.drop_suffix 14 packet)
    · rw [show packet.length - b.length = 16 by omega]
      simp only [carriesIp_some]
      rfl
  · have hshort : (packet.drop 14).length < 2 := by
      rw [List.length_drop]
      omega
    rw [ensure, if_neg hlen]
    match packet.drop 14, hshort with
    | [], _ => exact ⟨_, rfl⟩
    | [_], _ => exact ⟨_, rfl⟩

theorem linkOffset_sll2 (packet : Bytes) :
    OffsetOf packet (linkOffset 276 packet) (linkLayer 276 packet) := by
  unfold linkOffset linkLayer
  rw [if_neg (by decide), if_neg (by decide), if_neg (by decide), if_pos rfl, if_neg (by decide),
    if_neg (by decide), if_neg (by decide), if_pos rfl]
  by_cases hlen : 20 ≤ packet.length
  · obtain ⟨b0, b1, b, rfl⟩ := exists_two packet (by omega)
    have hb : 18 ≤ b.length := by
      rw [List.length_cons, List.length_cons] at hlen
      omega
    rw [ensure, if_pos hlen, u16At_eq _ 0 b0 b1 b rfl]
    simp only [if_pos hb]
    refine ⟨(List.drop_suffix 18 b).trans ⟨[b0, b1], rfl⟩, ?_⟩
    rw [List.length_drop, List.length_cons, List.length_cons,
      show b.length + 1 + 1 - (b.length - 18) = 20 by omega]
    simp only [carriesIp_some]
    rfl
  · rw [ensure, if_neg hlen]
    match packet, hlen with
    | [], _ => exact ⟨_, rfl⟩
    | [_], _ => exact ⟨_, rfl⟩
    | b0 :: b1 :: b, hlen =>
      have hb : ¬ 18 ≤ b.length := by
        rw [List.length_cons, List.length_cons] at hlen
        omega
      simp only [if_neg hb]
      exact ⟨_, rfl⟩

/-- **Link layers.** -/
theorem linkOffset_spec (link : UInt32) (packet : Bytes) :
    OffsetOf packet (linkOffset link packet) (linkLayer link packet) := by
  by_cases h1 : link = 1
  · rw [h1]
    exact linkOffset_ethernet packet
  by_cases h101 : link = 101
  · rw [h101]
    refine ⟨List.suffix_refl packet, ?_⟩
    rw [Nat.sub_self]
    rfl
  by_cases h113 : link = 113
  · rw [h113]
    exact linkOffset_sll packet
  by_cases h276 : link = 276
  · rw [h276]
    exact linkOffset_sll2 packet
  · unfold linkOffset linkLayer
    simp only [if_neg h1, if_neg h101, if_neg h113, if_neg h276]
    exact ⟨_, rfl⟩

variable {D : DigestCrates}

/-- The SYN of a packet is that of its payload. -/
theorem packetSyn_some (link : UInt32) (packet payload : Bytes) (proto : Option UInt16)
    (h : linkLayer link packet = some (proto, payload)) :
    packetSyn D link packet = if CarriesIp proto then tcpSyn D payload else .ok none := by
  have hspec := linkOffset_spec link packet
  rw [h] at hspec
  obtain ⟨hsuffix, hoff⟩ := hspec
  unfold packetSyn
  rw [hoff]
  split
  · show (do tcpSyn D (← slice packet (packet.length - payload.length) packet.length)) = _
    rw [Res.slice_of_le _ _ _ (Nat.sub_le _ _) (Nat.le_refl _), List.take_of_length_le,
      ← List.suffix_iff_eq_drop.1 hsuffix]
    · rfl
    · rw [List.length_drop]
  · rfl

theorem packetSyn_none (link : UInt32) (packet : Bytes) (h : linkLayer link packet = none) :
    ∃ msg, packetSyn D link packet = .error (.err msg) := by
  have hspec := linkOffset_spec link packet
  rw [h] at hspec
  obtain ⟨msg, hoff⟩ := hspec
  refine ⟨msg, ?_⟩
  unfold packetSyn
  rw [hoff]
  rfl

theorem packetSyn_ne_panic (link : UInt32) (packet : Bytes) :
    packetSyn D link packet ≠ .error .panic := by
  cases h : linkLayer link packet with
  | none =>
    obtain ⟨msg, hmsg⟩ := packetSyn_none (D := D) link packet h
    rw [hmsg]
    exact nofun
  | some found =>
    rw [packetSyn_some link packet found.2 found.1 h]
    split
    · exact (tcpSyn_errors _).ne_panic
    · exact nofun

/-! ## Records -/

theorem u32At_u32Bytes (little : Bool) (n : UInt32) : u32At little (u32Bytes little n) = .ok n := by
  cases little with
  | false => exact congrArg Except.ok (H2.fromBeBytes_toBeBytes n)
  | true => exact congrArg Except.ok (H2.fromBeBytes_toBeBytes n)

theorem u32Bytes_length (little : Bool) (n : UInt32) : (u32Bytes little n).length = 4 := by
  cases little <;> rfl

theorem Record.encode_length (little : Bool) (r : Record) :
    (r.encode little).length = 16 + r.packet.length := by
  unfold Record.encode
  simp only [List.length_append, r.stamp_length, r.original_length, u32Bytes_length]

/-- One pass of the loop. -/
theorem pcapLoop_record (little : Bool) (link : UInt32) (r : Record) (pre rest : Bytes) (fuel : Nat) :
    pcapLoop D little link (pre ++ (r.encode little ++ rest)) (fuel + 1) pre.length = (do
      let syn ← packetSyn D link r.packet
      push syn (pcapLoop D little link (pre ++ (r.encode little ++ rest)) fuel
        (pre ++ r.encode little).length)) := by
  have hsize : (UInt32.ofNat r.packet.length).toNat = r.packet.length := by
    have := r.size
    rw [UInt32.toNat_ofNat']
    omega
  have hlength := Res.slice_middle (pre ++ r.stamp) (u32Bytes little (UInt32.ofNat r.packet.length))
    (r.original ++ (r.packet ++ rest)) (pre.length + 8) (pre.length + 12)
    (by rw [List.length_append, r.stamp_length]) (by rw [u32Bytes_length])
  have hpacket := Res.slice_middle (pre ++ r.stamp ++
      u32Bytes little (UInt32.ofNat r.packet.length) ++ r.original) r.packet rest
    (pre.length + 16) (pre.length + 16 + r.packet.length)
    (by simp only [List.length_append, r.stamp_length, r.original_length, u32Bytes_length]) rfl
  have hnext : (pre ++ r.encode little).length = pre.length + 16 + r.packet.length := by
    rw [List.length_append, r.encode_length little, Nat.add_assoc]
  have htotal : (pre ++ (r.encode little ++ rest)).length =
      pre.length + 16 + r.packet.length + rest.length := by
    rw [← List.append_assoc, List.length_append, hnext]
  -- the two slices are of the whole
  have hcut : pre ++ r.stamp ++ (u32Bytes little (UInt32.ofNat r.packet.length) ++
      (r.original ++ (r.packet ++ rest))) = pre ++ (r.encode little ++ rest) := by
    unfold Record.encode
    simp only [List.append_assoc]
  have hcut' : pre ++ r.stamp ++ u32Bytes little (UInt32.ofNat r.packet.length) ++ r.original ++
      (r.packet ++ rest) = pre ++ (r.encode little ++ rest) := by
    unfold Record.encode
    simp only [List.append_assoc]
  rw [hcut] at hlength
  rw [hcut'] at hpacket
  generalize pre ++ (r.encode little ++ rest) = pcap at *
  have hin := r.size
  rw [pcapLoop, if_pos (by omega), ensure, if_pos (by omega), hlength, hnext]
  show (do
    let n := (← u32At little (u32Bytes little (UInt32.ofNat r.packet.length))).toNat
    let left ← checkedSub pcap.length (pre.length + 16)
    ensure (n ≤ 16 * 1024 * 1024 ∧ n ≤ left) "invalid capture size"
    let packet ← slice pcap (pre.length + 16) (pre.length + 16 + n)
    let syn ← packetSyn D link packet
    push syn (pcapLoop D little link pcap fuel (pre.length + 16 + n))) = _
  rw [u32At_u32Bytes, Res.checkedSub_of_le _ _ (by omega)]
  show (do
    let n := (UInt32.ofNat r.packet.length).toNat
    ensure (n ≤ 16 * 1024 * 1024 ∧ n ≤ pcap.length - (pre.length + 16)) "invalid capture size"
    let packet ← slice pcap (pre.length + 16) (pre.length + 16 + n)
    let syn ← packetSyn D link packet
    push syn (pcapLoop D little link pcap fuel (pre.length + 16 + n))) = _
  rw [hsize]
  simp only
  rw [ensure, if_pos (by omega), hpacket]
  rfl

/-- The loop reads the records one after the other. -/
theorem pcapLoop_records (little : Bool) (link : UInt32) (records : List Record) :
    ∀ (fuel : Nat) (pre : Bytes), (records.flatMap (Record.encode little)).length ≤ fuel →
      pcapLoop D little link (pre ++ records.flatMap (Record.encode little)) fuel pre.length =
        collect D link (records.map Record.packet) := by
  induction records with
  | nil =>
    intro fuel pre _
    rw [List.flatMap_nil, List.append_nil]
    cases fuel with
    | zero => rfl
    | succ fuel =>
      rw [pcapLoop, if_neg (Nat.lt_irrefl _)]
      rfl
  | cons r records ih =>
    intro fuel pre hfuel
    rw [List.flatMap_cons] at hfuel ⊢
    rw [List.length_append, r.encode_length little] at hfuel
    cases fuel with
    | zero => omega
    | succ fuel =>
      have htail := ih fuel (pre ++ r.encode little) (by omega)
      rw [pcapLoop_record, ← List.append_assoc, htail]
      rfl

/-! ## Captures -/

theorem byteOrder_magicBytes (little nanoseconds : Bool) :
    byteOrder (magicBytes little nanoseconds) = .ok little := by
  cases little <;> cases nanoseconds <;> decide

/-- What comes of a capture is what is collected of its packets. -/
theorem pcapRun_encode (c : Capture) (fuel : Nat)
    (hfuel : (c.records.flatMap (Record.encode c.little)).length ≤ fuel) :
    pcapRun D fuel c.encode = (do
      let out ← collect D c.link c.packets
      ensure (out ≠ []) "no initial TCP SYN captured"
      return out) := by
  have hmagic : (magicBytes c.little c.nanoseconds).length = 4 := u32Bytes_length _ _
  have hhead : (magicBytes c.little c.nanoseconds ++ c.preamble ++ u32Bytes c.little c.link).length =
      24 := by
    simp only [List.length_append, hmagic, c.preamble_length, u32Bytes_length]
  have hfirst := Res.slice_middle [] (magicBytes c.little c.nanoseconds)
    (c.preamble ++ u32Bytes c.little c.link ++ c.records.flatMap (Record.encode c.little)) 0 4 rfl
    (by rw [hmagic])
  have hlink := Res.slice_middle (magicBytes c.little c.nanoseconds ++ c.preamble)
    (u32Bytes c.little c.link) (c.records.flatMap (Record.encode c.little)) 20 24
    (by rw [List.length_append, hmagic, c.preamble_length]) (by rw [u32Bytes_length])
  have hloop := pcapLoop_records (D := D) c.little c.link c.records fuel
    (magicBytes c.little c.nanoseconds ++ c.preamble ++ u32Bytes c.little c.link) hfuel
  rw [hhead] at hloop
  rw [List.nil_append, ← List.append_assoc, ← List.append_assoc] at hfirst
  rw [← List.append_assoc] at hlink
  change slice c.encode 0 4 = _ at hfirst
  change slice c.encode 20 24 = _ at hlink
  change pcapLoop D c.little c.link c.encode fuel 24 = _ at hloop
  have hlen : 24 ≤ c.encode.length := by
    unfold Capture.encode
    rw [List.length_append, hhead]
    exact Nat.le_add_right _ _
  unfold pcapRun
  rw [ensure, if_pos hlen, hfirst, hlink]
  show (do
    let little ← byteOrder (magicBytes c.little c.nanoseconds)
    let link ← u32At little (u32Bytes c.little c.link)
    let out ← pcapLoop D little link c.encode fuel 24
    ensure (out ≠ []) "no initial TCP SYN captured"
    return out) = _
  rw [byteOrder_magicBytes]
  show (do
    let link ← u32At c.little (u32Bytes c.little c.link)
    let out ← pcapLoop D c.little link c.encode fuel 24
    ensure (out ≠ []) "no initial TCP SYN captured"
    return out) = _
  rw [u32At_u32Bytes]
  show (do
    let out ← pcapLoop D c.little c.link c.encode fuel 24
    ensure (out ≠ []) "no initial TCP SYN captured"
    return out) = _
  rw [hloop]
  rfl

theorem pcapSyns_encode (c : Capture) : pcapSyns D c.encode = (do
    let out ← collect D c.link c.packets
    ensure (out ≠ []) "no initial TCP SYN captured"
    return out) := by
  refine pcapRun_encode c _ ?_
  unfold Capture.encode
  rw [List.length_append]
  exact Nat.le_add_left _ _

theorem packetSyn_ok_iff (link : UInt32) (packet : Bytes) (syn : Option TcpSyn) :
    packetSyn D link packet = .ok syn ↔ WellFormed D link packet ∧ syn = synOf D link packet := by
  unfold WellFormed synOf
  cases h : linkLayer link packet with
  | none =>
    obtain ⟨msg, hmsg⟩ := packetSyn_none (D := D) link packet h
    rw [hmsg]
    refine iff_of_false (fun h => by cases h) ?_
    rintro ⟨⟨_, _, hsome, -⟩, -⟩
    cases hsome
  | some found =>
    obtain ⟨proto, payload⟩ := found
    have hwhole : (∃ p b, some (proto, payload) = some (p, b) ∧
        (CarriesIp p → ∃ syn, tcpSyn D b = .ok syn)) ↔
        (CarriesIp proto → ∃ syn, tcpSyn D payload = .ok syn) := by
      constructor
      · rintro ⟨p, b, heq, hcarries⟩
        cases heq
        exact hcarries
      · exact fun hcarries => ⟨proto, payload, rfl, hcarries⟩
    rw [packetSyn_some link packet payload proto h, hwhole]
    simp only
    by_cases hip : CarriesIp proto
    · rw [if_pos hip, if_pos hip]
      cases hsyn : tcpSyn D payload with
      | error e => simp [hip]
      | ok found => simp [eq_comm]
    · rw [if_neg hip, if_neg hip]
      simp [hip, eq_comm]

theorem collect_ok_iff (link : UInt32) (packets : List Bytes) (out : List (Json Nat)) :
    collect D link packets = .ok out ↔ (∀ packet ∈ packets, WellFormed D link packet) ∧
      out = (packets.filterMap (synOf D link)).map toValue := by
  induction packets generalizing out with
  | nil => simp [collect, eq_comm]
  | cons packet packets ih =>
    rw [collect, Res.bind_ok_iff, List.forall_mem_cons]
    constructor
    · rintro ⟨syn, hsyn, h⟩
      obtain ⟨hwhole, rfl⟩ := (packetSyn_ok_iff link packet syn).1 hsyn
      unfold push at h
      cases hof : synOf D link packet with
      | none =>
        rw [hof] at h
        obtain ⟨hall, rfl⟩ := (ih out).1 h
        exact ⟨⟨hwhole, hall⟩, by rw [List.filterMap_cons_none hof]⟩
      | some syn =>
        rw [hof] at h
        obtain ⟨rest, hrest, h⟩ := (Res.bind_ok_iff _ _ _).1 h
        obtain ⟨hall, rfl⟩ := (ih rest).1 hrest
        cases h
        exact ⟨⟨hwhole, hall⟩, by rw [List.filterMap_cons_some hof, List.map_cons]⟩
    · rintro ⟨⟨hwhole, hall⟩, rfl⟩
      have htail := (ih _).2 ⟨hall, rfl⟩
      refine ⟨_, (packetSyn_ok_iff link packet _).2 ⟨hwhole, rfl⟩, ?_⟩
      unfold push
      cases hof : synOf D link packet with
      | none => rw [List.filterMap_cons_none hof, htail]
      | some syn =>
        rw [List.filterMap_cons_some hof, htail]
        rfl

/-! ## All octet strings -/

/-- More fuel than there are octets is as good as any. -/
theorem pcapLoop_fuel (little : Bool) (link : UInt32) (pcap : Bytes) (n : Nat) :
    ∀ (m p : Nat), n ≤ m → pcap.length ≤ p + n →
      pcapLoop D little link pcap m p = pcapLoop D little link pcap n p := by
  induction n with
  | zero =>
    intro m p _ hp
    cases m with
    | zero => rfl
    | succ m =>
      have hdone : ¬ p < pcap.length := by omega
      unfold pcapLoop
      rw [if_neg hdone]
  | succ n ih =>
    intro m p hnm hp
    obtain ⟨m, rfl⟩ := Nat.exists_eq_add_of_le' (Nat.le_trans (Nat.le_add_left 1 n) hnm)
    rw [pcapLoop, pcapLoop]
    split
    · refine bind_congr fun _ => bind_congr fun _ => bind_congr fun size => bind_congr fun _ =>
        bind_congr fun _ => bind_congr fun _ => bind_congr fun syn => ?_
      rw [ih m (p + 16 + size.toNat) (by omega) (by omega)]
    · rfl

theorem u32At_of_length (little : Bool) (b : Bytes) (h : b.length = 4) :
    ∃ n, u32At little b = .ok n := by
  match b, h with
  | [_, _, _, _], _ => exact ⟨_, rfl⟩

/-- The four octets at `i` are a number. -/
theorem u32At_slice_ne_panic {α : Type} (little : Bool) (b : Bytes) (i j : Nat) (hij : i + 4 = j)
    (hj : j ≤ b.length) {f : UInt32 → Res α} (hf : ∀ n, f n ≠ .error .panic) :
    (do
      let part ← slice b i j
      let n ← u32At little part
      f n) ≠ .error .panic := by
  rw [Res.slice_of_le b i j (by omega) hj]
  obtain ⟨n, hn⟩ := u32At_of_length little ((b.drop i).take (j - i)) (by
    rw [List.length_take, List.length_drop]
    omega)
  show (do
    let n ← u32At little ((b.drop i).take (j - i))
    f n) ≠ _
  rw [hn]
  exact hf n

theorem push_ne_panic {syn : Option TcpSyn} {rest : Res (List (Json Nat))}
    (h : rest ≠ .error .panic) : push syn rest ≠ .error .panic := by
  cases syn with
  | none => exact h
  | some syn => exact Res.bind_ne_panic h nofun

theorem pcapLoop_ne_panic (little : Bool) (link : UInt32) (pcap : Bytes) (fuel : Nat) :
    ∀ p, pcapLoop D little link pcap fuel p ≠ .error .panic := by
  induction fuel with
  | zero => exact nofun
  | succ fuel ih =>
    intro p
    rw [pcapLoop]
    split
    · refine Res.bind_ne_panic (Res.ensure_ne_panic _ _) fun _ h16 => ?_
      rw [Res.ensure_ok_iff] at h16
      refine u32At_slice_ne_panic little pcap (p + 8) (p + 12) rfl (by omega) fun n => ?_
      simp only
      rw [Res.checkedSub_of_le _ _ (by omega)]
      refine Res.bind_ne_panic nofun fun left hleft => ?_
      cases hleft
      refine Res.bind_ne_panic (Res.ensure_ne_panic _ _) fun _ hsize => ?_
      rw [Res.ensure_ok_iff] at hsize
      rw [Res.slice_of_le _ _ _ (Nat.le_add_right _ _) (by omega)]
      refine Res.bind_ne_panic nofun fun packet _ => ?_
      exact Res.bind_ne_panic (packetSyn_ne_panic link _) fun syn _ => push_ne_panic (ih _)
    · exact nofun

theorem pcapSyns_ne_panic (pcap : Bytes) : pcapSyns D pcap ≠ .error .panic := by
  refine Res.bind_ne_panic (Res.ensure_ne_panic _ _) fun _ h24 => ?_
  rw [Res.ensure_ok_iff] at h24
  rw [Res.slice_of_le pcap 0 4 (by omega) (by omega)]
  refine Res.bind_ne_panic nofun fun magic _ => Res.bind_ne_panic ?_ fun little _ => ?_
  · unfold byteOrder
    split
    · exact nofun
    · split
      · exact nofun
      · exact nofun
  · refine u32At_slice_ne_panic little pcap 20 24 rfl h24 fun link => ?_
    refine Res.bind_ne_panic (pcapLoop_ne_panic little link pcap _ 24) fun out _ => ?_
    exact Res.bind_ne_panic (Res.ensure_ne_panic _ _) nofun

/-- **Captures.**  The encoding makes no difference and no packet is lost: the result is
the SYNs of the packets, in order, if every packet is well formed and there is a SYN.
Every octet string is read to its end without a panic. -/
theorem pcapSyns_captures (D : DigestCrates) :
    (∀ c c' : Capture, c.link = c'.link → c.packets = c'.packets →
      pcapSyns D c.encode = pcapSyns D c'.encode) ∧
    (∀ (c : Capture) (out : List (Json Nat)), pcapSyns D c.encode = .ok out ↔
      (∀ packet ∈ c.packets, WellFormed D c.link packet) ∧
      (∃ packet ∈ c.packets, (synOf D c.link packet).isSome) ∧
      out = (c.packets.filterMap (synOf D c.link)).map toValue) ∧
    (∀ (pcap : Bytes) (fuel : Nat), pcap.length ≤ fuel → pcapRun D fuel pcap = pcapSyns D pcap) ∧
    ∀ pcap : Bytes, pcapSyns D pcap ≠ .error .panic := by
  refine ⟨fun c c' hlink hpackets => ?_, fun c out => ?_, fun pcap fuel hfuel => ?_, pcapSyns_ne_panic⟩
  · rw [pcapSyns_encode, pcapSyns_encode, hlink, hpackets]
  · rw [pcapSyns_encode, Res.bind_ok_iff]
    have hsome : (∃ packet ∈ c.packets, (synOf D c.link packet).isSome) ↔
        (c.packets.filterMap (synOf D c.link)).map toValue ≠ [] := by
      rw [Ne, List.map_eq_nil_iff, List.filterMap_eq_nil_iff]
      simp only [not_forall, exists_prop, Option.isSome_iff_ne_none, ne_eq]
    rw [hsome]
    constructor
    · rintro ⟨found, hfound, h⟩
      obtain ⟨_, hne, h⟩ := (Res.bind_ok_iff _ _ _).1 h
      cases h
      obtain ⟨hall, rfl⟩ := (collect_ok_iff c.link c.packets _).1 hfound
      exact ⟨hall, (Res.ensure_ok_iff _ _ _).1 hne, rfl⟩
    · rintro ⟨hall, hne, rfl⟩
      refine ⟨_, (collect_ok_iff c.link c.packets _).2 ⟨hall, rfl⟩, ?_⟩
      rw [ensure, if_pos hne]
      rfl
  · unfold pcapSyns pcapRun
    refine bind_congr fun _ => bind_congr fun _ => bind_congr fun little => bind_congr fun _ =>
      bind_congr fun link => ?_
    rw [pcapLoop_fuel little link pcap pcap.length fuel 24 hfuel (by omega)]

/-- One SYN behind a VLAN tag, and an ARP packet. -/
def sampleCapture (little nanoseconds : Bool) : Capture where
  little := little
  nanoseconds := nanoseconds
  preamble := [2, 0, 4, 0] ++ List.replicate 12 0
  link := 1
  records :=
    [⟨List.replicate 8 0, List.replicate 4 0, List.replicate 12 1 ++ [0x81, 0, 0, 7, 8, 0] ++
        samplePacket 0, rfl, rfl, by decide⟩,
      ⟨List.replicate 8 0, List.replicate 4 0, List.replicate 12 1 ++ [8, 6, 0], rfl, rfl, by decide⟩]
  preamble_length := rfl

theorem pcapSyns_sample : pcapSyns Tls.sampleDigests (sampleCapture true false).encode =
    pcapSyns Tls.sampleDigests (sampleCapture false true).encode :=
  (pcapSyns_captures Tls.sampleDigests).1 _ _ rfl rfl

end Fingerprint
