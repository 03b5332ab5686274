import UBoot.Net.NetSend

/-!
A datagram from NetSendUDPPacket back through NetReceive. The header that
NetSetIP writes is read field by field, the ones'-complement sum over it comes
out as all ones, and the Ethernet header with or without a VLAN tag is decoded
to where NetSetEther put the IP header.
-/

namespace UBoot.Net.UdpRoundTrip

open Library.Memory NetReceive NetSend

section Fields

theorem be16_splice_outside (p : Buffer) (start : Nat) (bytes : List UInt8) (at_ : Nat)
    (outside : at_ + 2 ≤ start ∨ start + bytes.length ≤ at_) :
    be16 (splice p start bytes) at_ = be16 p at_ := by
  apply be16_congr
  · exact splice_outside p start bytes at_ (by omega)
  · exact splice_outside p start bytes (at_ + 1) (by omega)

theorem splice_field (p : Buffer) (start : Nat) (front rest : List UInt8) (byte : UInt8) :
    splice p start (front ++ byte :: rest) (start + front.length) = byte := by
  have inside : front.length < (front ++ byte :: rest).length := by
    rw [List.length_append, List.length_cons]
    omega
  rw [splice_inside p start _ front.length inside, List.getElem_append_right (Nat.le_refl _)]
  simp

/-- A halfword of a header is read back as it was written. -/
theorem be16_splice_field (p : Buffer) (start : Nat) (front rest : List UInt8) (value : Nat)
    (small : value < 2 ^ 16) :
    be16 (splice p start (front ++ (bytes16 value ++ rest))) (start + front.length) = value := by
  have high := splice_field p start front (UInt8.ofNat value :: rest) (UInt8.ofNat (value / 256))
  have low := splice_field p start (front ++ [UInt8.ofNat (value / 256)]) rest (UInt8.ofNat value)
  rw [List.append_assoc, List.length_append, List.length_singleton, ← Nat.add_assoc] at low
  rw [be16]
  show (splice p start (front ++ UInt8.ofNat (value / 256) :: UInt8.ofNat value :: rest)
    (start + front.length)).toNat * 256 + (splice p start
    (front ++ ([UInt8.ofNat (value / 256)] ++ UInt8.ofNat value :: rest))
    (start + front.length + 1)).toNat = value
  rw [high, low, UInt8.toNat_ofNat', UInt8.toNat_ofNat']
  omega

end Fields

section Checksum

/-- A fold takes away a multiple of all ones. -/
theorem fold_ones {x : Nat} (turns : Nat) (multiple : x = 65535 * (turns + 1)) (short : turns < 65535) :
    x % 65536 + x / 65536 = 65535 := by
  omega

/-- Two folds of a short sum and its complement give all ones. -/
theorem folded_complement {xsum c : Nat} (short : xsum ≤ 10 * 65535)
    (folded : c = ((xsum % 65536 + xsum / 65536) % 65536 +
      (xsum % 65536 + xsum / 65536) / 65536) % 65536) :
    (((xsum + (65535 - c)) % 65536 + (xsum + (65535 - c)) / 65536) % 65536 +
      ((xsum + (65535 - c)) % 65536 + (xsum + (65535 - c)) / 65536) / 65536) % 65536 = 65535 := by
  have multiple : xsum + (65535 - c) =
      65535 * (xsum / 65536 + (xsum % 65536 + xsum / 65536) / 65536 + 1) := by
    omega
  have once := fold_ones (xsum / 65536 + (xsum % 65536 + xsum / 65536) / 65536) multiple (by omega)
  rw [once]

theorem words_sum_le (p : Buffer) (at_ words : Nat) :
    ((List.range words).map fun i => be16 p (at_ + 2 * i)).sum ≤ words * 65535 := by
  induction words with
  | zero => exact Nat.le_refl 0
  | succ words ih =>
      have last := be16_lt p (at_ + 2 * words)
      rw [List.range_succ, List.map_append, List.sum_append, Nat.add_one_mul]
      simp only [List.map_cons, List.map_nil, List.sum_cons, List.sum_nil]
      omega

/-- Filling the empty checksum field adds its value to the sum. -/
theorem words_sum_fill (p : Buffer) (ip value : Nat) (small : value < 2 ^ 16)
    (empty : be16 p (ip + 10) = 0) :
    ((List.range 10).map fun i => be16 (splice p (ip + 10) (bytes16 value)) (ip + 2 * i)).sum =
      ((List.range 10).map fun i => be16 p (ip + 2 * i)).sum + value := by
  have filled : be16 (splice p (ip + 10) (bytes16 value)) (ip + 10) = value :=
    be16_splice_field p (ip + 10) [] [] value small
  have size : (bytes16 value).length = 2 := rfl
  have others : ∀ i, i ≠ 5 → be16 (splice p (ip + 10) (bytes16 value)) (ip + 2 * i) =
      be16 p (ip + 2 * i) := by
    intro i other
    apply be16_splice_outside
    rw [size]
    omega
  simp only [List.range_succ, List.range_zero, List.nil_append, List.map_append, List.map_cons,
    List.map_nil, List.sum_append, List.sum_cons, List.sum_nil]
  rw [others 0 (by decide), others 1 (by decide), others 2 (by decide), others 3 (by decide),
    others 4 (by decide), others 6 (by decide), others 7 (by decide), others 8 (by decide),
    others 9 (by decide)]
  simp only [Nat.reduceMul, filled, empty]
  omega

theorem cksum_fill_ok (p : Buffer) (ip : Nat) (empty : be16 p (ip + 10) = 0) :
    netCksumOk (splice p (ip + 10) (bytes16 (cksumField p ip (ipHdrSizeNoUdp / 2)))) ip
      (ipHdrSizeNoUdp / 2) = true := by
  have words : ipHdrSizeNoUdp / 2 = 10 := rfl
  rw [words]
  have field : cksumField p ip 10 < 2 ^ 16 := by
    unfold cksumField
    omega
  have total := words_sum_fill p ip (cksumField p ip 10) field empty
  have ones : netCksum (splice p (ip + 10) (bytes16 (cksumField p ip 10))) ip 10 = 65535 := by
    rw [netCksum, total]
    exact folded_complement (words_sum_le p ip 10) rfl
  rw [netCksumOk, ones]
  rfl

end Checksum

section Header

/-- What NetReceive reads of an IP and UDP header without options. -/
structure Datagram (p : Buffer) (ip dest dport sport len : Nat) : Prop where
  version : p ip = 0x45
  total : be16 p (ip + 2) = ipHdrSize + len
  fragment : be16 p (ip + 6) = 0x4000
  protocol : p (ip + 9) = 17
  checksum : netCksumOk p ip (ipHdrSizeNoUdp / 2) = true
  destination : be32 p (ip + 16) = dest
  source : be16 p (ip + 20) = sport
  target : be16 p (ip + 22) = dport
  udpLen : be16 p (ip + 24) = 8 + len
  noChecksum : be16 p (ip + 26) = 0

variable {g : NetGlobals} {p : Buffer} {ip netIPID dest dport sport len : Nat}

theorem udp_header_length (g : NetGlobals) (netIPID dest dport sport len : Nat) :
    (udpHeader g netIPID dest dport sport len).length = ipHdrSize := rfl

/-- Outside the checksum field a header is read as it was written. -/
theorem set_ip_byte (g : NetGlobals) (netIPID : Nat) (xip : Buffer) (ip : Nat) {at_ : Nat}
    {byte : UInt8} {rest : List UInt8} (outside : at_ < 10 ∨ 12 ≤ at_)
    (written : (udpHeader g netIPID dest dport sport len).drop at_ = byte :: rest)
    (inside : at_ ≤ ipHdrSize) :
    netSetIP g netIPID xip ip dest dport sport len (ip + at_) = byte := by
  have size := udp_header_length g netIPID dest dport sport len
  have parts := List.take_append_drop at_ (udpHeader g netIPID dest dport sport len)
  have place : ((udpHeader g netIPID dest dport sport len).take at_).length = at_ := by
    rw [List.length_take, size]
    exact Nat.min_eq_left inside
  unfold netSetIP
  generalize (if len % 2 = 1 then splice xip (ip + ipHdrSize + len) [0] else xip) = padded
  generalize cksumField (splice padded ip (udpHeader g netIPID dest dport sport len)) ip
    (ipHdrSizeNoUdp / 2) = value
  have word : (bytes16 value).length = 2 := rfl
  have apart : ip + at_ < ip + 10 ∨ ip + 10 + (bytes16 value).length ≤ ip + at_ := by
    rw [word]
    omega
  refine (splice_outside _ _ _ _ apart).trans ?_
  rw [written] at parts
  rw [← parts]
  have read := splice_field padded ip ((udpHeader g netIPID dest dport sport len).take at_) rest byte
  rw [place] at read
  exact read

theorem set_ip_halfword (g : NetGlobals) (netIPID : Nat) (xip : Buffer) (ip : Nat) {at_ value : Nat}
    {rest : List UInt8} (outside : at_ + 2 ≤ 10 ∨ 12 ≤ at_)
    (written : (udpHeader g netIPID dest dport sport len).drop at_ = bytes16 value ++ rest)
    (small : value < 2 ^ 16) (inside : at_ + 2 ≤ ipHdrSize) :
    be16 (netSetIP g netIPID xip ip dest dport sport len) (ip + at_) = value := by
  have next : (udpHeader g netIPID dest dport sport len).drop (at_ + 1) =
      UInt8.ofNat value :: rest := by
    rw [← List.drop_drop, written]
    rfl
  have high := set_ip_byte g netIPID xip ip (by omega) written (by omega)
  have low := set_ip_byte g netIPID xip ip (by omega) next (by omega)
  rw [be16, high, Nat.add_assoc, low, UInt8.toNat_ofNat', UInt8.toNat_ofNat']
  omega

theorem set_ip_word (g : NetGlobals) (netIPID : Nat) (xip : Buffer) (ip : Nat) {at_ value : Nat}
    {rest : List UInt8} (outside : 12 ≤ at_)
    (written : (udpHeader g netIPID dest dport sport len).drop at_ = bytes32 value ++ rest)
    (small : value < 2 ^ 32) (inside : at_ + 4 ≤ ipHdrSize) :
    be32 (netSetIP g netIPID xip ip dest dport sport len) (ip + at_) = value := by
  have front : (udpHeader g netIPID dest dport sport len).drop at_ =
      bytes16 (value / 65536) ++ (bytes16 (value % 65536) ++ rest) := written
  have next : (udpHeader g netIPID dest dport sport len).drop (at_ + 2) =
      bytes16 (value % 65536) ++ rest := by
    rw [← List.drop_drop, front]
    rfl
  have high := set_ip_halfword g netIPID xip ip (by omega) front (by omega) (by omega)
  have low := set_ip_halfword g netIPID xip ip (by omega) next (by omega) (by omega)
  rw [be32, high, Nat.add_assoc, low]
  omega

theorem set_ip_checksum (g : NetGlobals) (netIPID : Nat) (xip : Buffer) (ip : Nat) :
    netCksumOk (netSetIP g netIPID xip ip dest dport sport len) ip (ipHdrSizeNoUdp / 2) = true := by
  unfold netSetIP
  generalize (if len % 2 = 1 then splice xip (ip + ipHdrSize + len) [0] else xip) = padded
  apply cksum_fill_ok
  have parts := List.take_append_drop 10 (udpHeader g netIPID dest dport sport len)
  rw [← parts]
  exact be16_splice_field padded ip ((udpHeader g netIPID dest dport sport len).take 10)
    ((udpHeader g netIPID dest dport sport len).drop 12) 0 (by decide)

theorem net_set_ip_datagram (g : NetGlobals) (netIPID : Nat) (xip : Buffer) (ip : Nat)
    (mtu : ipHdrSize + len < 2 ^ 16) (address : dest < 2 ^ 32) (dports : dport < 2 ^ 16)
    (sports : sport < 2 ^ 16) :
    Datagram (netSetIP g netIPID xip ip dest dport sport len) ip dest dport sport len where
  version := set_ip_byte g netIPID xip ip (by decide) rfl (Nat.zero_le _)
  total := set_ip_halfword g netIPID xip ip (by decide) rfl mtu (by decide)
  fragment := set_ip_halfword g netIPID xip ip (by decide) rfl (by decide) (by decide)
  protocol := set_ip_byte g netIPID xip ip (by decide) rfl (by decide)
  checksum := set_ip_checksum g netIPID xip ip
  destination := set_ip_word g netIPID xip ip (by decide) rfl address (by decide)
  source := set_ip_halfword g netIPID xip ip (by decide) rfl sports (by decide)
  target := set_ip_halfword g netIPID xip ip (by decide) rfl dports (by decide)
  udpLen := set_ip_halfword g netIPID xip ip (by decide) rfl
    (by unfold ipHdrSize at mtu; omega) (by decide)
  noChecksum := set_ip_halfword g netIPID xip ip (by decide) rfl (by decide) (by decide)

/-- Only the header and the byte that pads an odd payload are written. -/
theorem set_ip_outside (g : NetGlobals) (netIPID : Nat) (xip : Buffer) (ip dest dport sport len : Nat)
    {address : Nat} (outside : address < ip ∨ ip + ipHdrSize ≤ address ∧ address ≠ ip + ipHdrSize + len) :
    netSetIP g netIPID xip ip dest dport sport len address = xip address := by
  have size := udp_header_length g netIPID dest dport sport len
  unfold netSetIP
  generalize cksumField (splice (if len % 2 = 1 then splice xip (ip + ipHdrSize + len) [0] else xip) ip
    (udpHeader g netIPID dest dport sport len)) ip (ipHdrSizeNoUdp / 2) = value
  have word : (bytes16 value).length = 2 := rfl
  have header : ipHdrSize = 28 := rfl
  refine (splice_outside _ _ _ _ (by rw [word]; omega)).trans ?_
  refine (splice_outside _ _ _ _ (by rw [size]; omega)).trans ?_
  split
  · apply splice_outside
    simp only [List.length_singleton]
    omega
  · rfl

/-- The PROT_IP branch passes the datagram on. -/
theorem receive_ip_datagram {cfg : NetConfig} {inpkt : Buffer} {count : Int}
    (datagram : Datagram inpkt ip dest dport sport len) (fits : (ipHdrSize + len : Int) ≤ count)
    (mtu : ipHdrSize + len < 2 ^ 16)
    (ours : g.netOurIP = 0 ∨ dest = g.netOurIP ∨ dest = 0xffffffff) :
    receiveIp cfg g inpkt ip count = [.packetHandler (some (ip + ipHdrSize)) dport sport len] := by
  have header : ipHdrSize = 28 := rfl
  have long : ¬ count < ipHdrSize := by omega
  have whole : ¬ count < be16 inpkt (ip + 2) := by
    rw [datagram.total]
    omega
  have accepted : ipHeaderOk g inpkt ip = true := by
    rw [ipHeaderOk, datagram.version, datagram.fragment, datagram.checksum, datagram.destination]
    rcases ours with unset | own | broadcast
    · rw [unset]
      rfl
    · subst own
      have same : (g.netOurIP == g.netOurIP) = true := beq_self_eq_true _
      rw [same, Bool.or_true]
      rfl
    · rw [broadcast, Bool.or_comm]
      rfl
  have udp : (inpkt (ip + 9)).toNat = ipprotoUdp := by
    rw [datagram.protocol]
    rfl
  have notIcmp : ¬ (inpkt (ip + 9)).toNat = ipprotoIcmp := by
    rw [udp]
    decide
  have sum : udpChecksumOk inpkt ip = true := by
    rw [udpChecksumOk]
    exact decide_eq_true (Or.inl datagram.noChecksum)
  have payload : udpPayloadLen inpkt ip = len := by
    rw [udpPayloadLen, datagram.udpLen]
    omega
  have checked : ¬ (cfg.udpChecksum = true ∧ udpChecksumOk inpkt ip = false) := by
    rintro ⟨_, bad⟩
    rw [sum] at bad
    cases bad
  have header : ¬ ipHeaderOk g inpkt ip = false := by
    rw [accepted]
    decide
  have isUdp : ¬ (inpkt (ip + 9)).toNat ≠ ipprotoUdp := not_not.mpr udp
  -- No check of NetReceive holds the datagram back.
  rw [receiveIp, if_neg long, if_neg whole, if_neg header, if_neg notIcmp, if_neg isUdp,
    if_neg checked, datagram.target, datagram.source, payload]

end Header

section Link

/-- The id that frames carry, VLAN_NONE for frames without a tag. -/
def vlanId (g : NetGlobals) : Nat := ourVlanid g.netOurVLAN &&& vlanIdmask

/-- The Ethernet header that NetSetEther writes. -/
structure Framed (g : NetGlobals) (p : Buffer) (prot hdr : Nat) : Prop where
  untagged : vlanId g = vlanNone → hdr = etherHdrSize ∧ be16 p 12 = prot
  tagged : vlanId g ≠ vlanNone → hdr = vlanEtherHdrSize ∧ be16 p 12 = protVlan ∧
    be16 p 14 = vlanId g ∧ be16 p 16 = prot

variable {g : NetGlobals} {p : Buffer} {prot hdr : Nat}

theorem our_vlanid_mask (vlan : Nat) : ourVlanid vlan &&& vlanIdmask = vlan &&& vlanIdmask := by
  unfold ourVlanid
  split
  · rename_i none
    rw [none]
    decide
  · rfl

theorem vlan_id_small (g : NetGlobals) : vlanId g < 2 ^ 12 := by
  have mask : vlanIdmask = 2 ^ 12 - 1 := rfl
  rw [vlanId, mask, Nat.and_two_pow_sub_one_eq_mod]
  exact Nat.mod_lt _ (by decide)

theorem set_ether_framed (g : NetGlobals) (xet : Buffer) (mac : Mac) (small : prot < 2 ^ 16) :
    Framed g (netSetEther g xet mac prot).1 prot (netSetEther g xet mac prot).2 := by
  have id := vlan_id_small g
  unfold netSetEther
  constructor
  · intro none
    rw [vlanId] at none
    simp only [none, if_true]
    exact ⟨trivial, be16_splice_field _ 12 [] [] prot small⟩
  · intro some
    have other : ¬ ourVlanid g.netOurVLAN &&& vlanIdmask = vlanNone := some
    simp only [other, if_false]
    refine ⟨trivial, ?_, ?_, be16_splice_field _ 16 [] [] prot small⟩
    · rw [be16_splice_outside _ 16 _ 12 (Or.inl (by decide)),
        be16_splice_outside _ 14 _ 12 (Or.inl (by decide))]
      exact be16_splice_field _ 12 [] [] protVlan (by decide)
    · rw [be16_splice_outside _ 16 _ 14 (Or.inl (by decide))]
      exact be16_splice_field _ 14 [] [] (vlanId g) (by omega)

theorem framed_congr {q : Buffer} (framed : Framed g p prot hdr)
    (same : ∀ i, 12 ≤ i → i < hdr → q i = p i) : Framed g q prot hdr := by
  have long : 14 ≤ hdr := by
    by_cases none : vlanId g = vlanNone
    · have size := (framed.untagged none).1
      unfold etherHdrSize at size
      omega
    · have size := (framed.tagged none).1
      unfold vlanEtherHdrSize at size
      omega
  have word : ∀ at_, 12 ≤ at_ → at_ + 2 ≤ hdr → be16 q at_ = be16 p at_ := fun at_ above inside =>
    be16_congr (same at_ above (by omega)) (same (at_ + 1) (by omega) (by omega))
  constructor
  · intro none
    obtain ⟨size, type⟩ := framed.untagged none
    exact ⟨size, (word 12 (Nat.le_refl _) long).trans type⟩
  · intro some
    obtain ⟨size, vlan, tag, type⟩ := framed.tagged some
    have room : 18 ≤ hdr := Nat.le_of_eq size.symm
    exact ⟨size, (word 12 (Nat.le_refl _) long).trans vlan, (word 14 (by decide) (by omega)).trans tag,
      (word 16 (by decide) (by omega)).trans type⟩

theorem set_ether_outside (g : NetGlobals) (xet : Buffer) {mac : Mac} (prot : Nat) {address : Nat}
    (macSize : mac.length = 6) (ourSize : g.netOurEther.length = 6)
    (outside : (netSetEther g xet mac prot).2 ≤ address) :
    (netSetEther g xet mac prot).1 address = xet address := by
  have word : ∀ value, (bytes16 value).length = 2 := fun _ => rfl
  unfold netSetEther at *
  simp only at *
  split at outside
  · rename_i none
    have above : 14 ≤ address := outside
    rw [if_pos none]
    refine (splice_outside _ _ _ _ (by rw [word]; omega)).trans ?_
    refine (splice_outside _ _ _ _ (by rw [ourSize]; omega)).trans ?_
    exact splice_outside _ _ _ _ (by rw [macSize]; omega)
  · rename_i some
    have above : 18 ≤ address := outside
    rw [if_neg some]
    refine (splice_outside _ _ _ _ (by rw [word]; omega)).trans ?_
    refine (splice_outside _ _ _ _ (by rw [word]; omega)).trans ?_
    refine (splice_outside _ _ _ _ (by rw [word]; omega)).trans ?_
    refine (splice_outside _ _ _ _ (by rw [ourSize]; omega)).trans ?_
    exact splice_outside _ _ _ _ (by rw [macSize]; omega)

/-- A node with the same VLAN setting finds the network header. -/
theorem link_decode_framed {receiver : NetGlobals} (iscdp : Bool) {count : Int}
    (framed : Framed g p protIp hdr) (vlan : receiver.netOurVLAN = g.netOurVLAN)
    (long : (hdr : Int) ≤ count) :
    ∃ vlanid, linkDecode receiver iscdp p count = some ⟨protIp, hdr, count - hdr, vlanid⟩ ∧
      vlanMatches receiver vlanid = true := by
  have setting : vlanId receiver = vlanId g := by rw [vlanId, vlanId, vlan]
  by_cases none : vlanId g = vlanNone
  · obtain ⟨size, type⟩ := framed.untagged none
    rw [size]
    refine ⟨vlanNone, ?_, ?_⟩
    · rw [linkDecode, type, if_neg (by decide), if_pos (by decide)]
    · rw [← setting, vlanId] at none
      rw [vlanMatches, if_pos none]
  · obtain ⟨size, type, tag, inner⟩ := framed.tagged none
    have small := vlan_id_small g
    have masked : vlanId g &&& vlanIdmask = vlanId g := by
      have mask : vlanIdmask = 2 ^ 12 - 1 := rfl
      rw [mask, Nat.and_two_pow_sub_one_eq_mod, Nat.mod_eq_of_lt small]
    have active : ¬ (receiver.netOurVLAN &&& vlanIdmask = vlanNone ∧ iscdp = false) := by
      rintro ⟨off, _⟩
      rw [← our_vlanid_mask] at off
      exact none (setting.symm.trans off)
    rw [size] at long ⊢
    refine ⟨vlanId g, ?_, ?_⟩
    · rw [linkDecode, type, if_neg (by decide), if_neg (by decide), if_neg (by omega),
        if_neg active, tag, inner, masked]
    · have ours : ¬ ourVlanid receiver.netOurVLAN &&& vlanIdmask = vlanNone := fun off =>
        none (setting.symm.trans off)
      rw [vlanMatches, if_neg ours, if_neg none]
      exact decide_eq_true setting.symm

theorem set_ether_size (g : NetGlobals) (xet : Buffer) (mac : Mac) (prot : Nat) :
    (netSetEther g xet mac prot).2 = netEthHdrSize g := by
  unfold netSetEther netEthHdrSize
  simp only
  split
  · rfl
  · rfl

theorem eth_hdr_size_bounds (g : NetGlobals) : 14 ≤ netEthHdrSize g ∧ netEthHdrSize g ≤ 18 := by
  unfold netEthHdrSize
  split
  · decide
  · decide

end Link

section RoundTrip
variable {ip dest dport sport len : Nat} {p q : Buffer}

theorem datagram_congr (datagram : Datagram p ip dest dport sport len)
    (same : ∀ i, ip ≤ i → i < ip + ipHdrSize → q i = p i) :
    Datagram q ip dest dport sport len := by
  have byte : ∀ at_, at_ < 28 → q (ip + at_) = p (ip + at_) := fun at_ inside =>
    same _ (Nat.le_add_right ip at_) (Nat.add_lt_add_left inside ip)
  have word : ∀ at_, at_ + 2 ≤ 28 → be16 q (ip + at_) = be16 p (ip + at_) := fun at_ inside =>
    be16_congr (byte at_ (by omega)) (byte (at_ + 1) (by omega))
  have sum : netCksum q ip (ipHdrSizeNoUdp / 2) = netCksum p ip (ipHdrSizeNoUdp / 2) := by
    have words : ((List.range (ipHdrSizeNoUdp / 2)).map fun i => be16 q (ip + 2 * i)) =
        (List.range (ipHdrSizeNoUdp / 2)).map fun i => be16 p (ip + 2 * i) := by
      apply List.map_congr_left
      intro i member
      have below : i < 10 := List.mem_range.mp member
      exact word (2 * i) (by omega)
    rw [netCksum, netCksum, words]
  constructor
  · exact (byte 0 (by decide)).trans datagram.version
  · exact (word 2 (by decide)).trans datagram.total
  · exact (word 6 (by decide)).trans datagram.fragment
  · exact (byte 9 (by decide)).trans datagram.protocol
  · rw [netCksumOk, sum]
    exact datagram.checksum
  · have high := word 16 (by decide)
    have low := word 18 (by decide)
    have address := datagram.destination
    rw [be32, Nat.add_assoc] at address ⊢
    rw [high, low]
    exact address
  · exact (word 20 (by decide)).trans datagram.source
  · exact (word 22 (by decide)).trans datagram.target
  · exact (word 24 (by decide)).trans datagram.udpLen
  · exact (word 26 (by decide)).trans datagram.noChecksum

/-- A frame from NetSendUDPPacket as it lies in the sender's buffer. -/
structure Built (g : NetGlobals) (p : Buffer) (dest dport sport : Nat) (payload : List UInt8) :
    Prop where
  framed : Framed g p protIp (netEthHdrSize g)
  datagram : Datagram p (netEthHdrSize g) dest dport sport payload.length
  payload : slice p (netEthHdrSize g + ipHdrSize) payload.length = payload

def frameLength (g : NetGlobals) (len : Nat) : Nat := netEthHdrSize g + ipHdrSize + len

variable {g : NetGlobals} {payload : List UInt8}

theorem built_congr (built : Built g p dest dport sport payload)
    (same : ∀ i, 12 ≤ i → i < frameLength g payload.length → q i = p i) :
    Built g q dest dport sport payload := by
  have bounds := eth_hdr_size_bounds g
  have header : ipHdrSize = 28 := rfl
  unfold frameLength at same
  refine ⟨framed_congr built.framed fun i above below => same i above (by omega),
    datagram_congr built.datagram fun i above below => same i (by omega) (by omega), ?_⟩
  have bytes := slice_congr q p (netEthHdrSize g + ipHdrSize) payload.length
    (fun i inside => same _ (by omega) (by omega))
  exact bytes.trans built.payload

/-- The receiver dispatches a frame that was built for its address. -/
theorem built_received {cfg : NetConfig} {receiver : NetGlobals} {count : Int}
    (built : Built g p dest dport sport payload) (mtu : ipHdrSize + payload.length < 2 ^ 16)
    (vlan : receiver.netOurVLAN = g.netOurVLAN)
    (ours : receiver.netOurIP = 0 ∨ dest = receiver.netOurIP ∨ dest = 0xffffffff)
    (noCdp : cfg.cdp = false ∨ slice p 0 6 ≠ netCDPAddr)
    (whole : (frameLength g payload.length : Int) ≤ count) :
    netReceive cfg receiver p count = (receiver,
      [.packetHandler (some (netEthHdrSize g + ipHdrSize)) dport sport payload.length]) := by
  have bounds := eth_hdr_size_bounds g
  have header : ipHdrSize = 28 := rfl
  unfold frameLength at whole
  have long : ¬ count < etherHdrSize := by
    unfold etherHdrSize
    omega
  have notCdp : (cfg.cdp && (slice p 0 6 == netCDPAddr)) = false := by
    rcases noCdp with off | other
    · rw [off]
      rfl
    · rw [beq_eq_false_iff_ne.mpr other, Bool.and_false]
  have room : (netEthHdrSize g : Int) ≤ count := by omega
  obtain ⟨vlanid, decoded, matched⟩ := link_decode_framed false built.framed vlan room
  have notDropped : ¬ vlanMatches receiver vlanid = false := by
    rw [matched]
    decide
  have dispatched : receiveIp cfg receiver p (netEthHdrSize g) (count - netEthHdrSize g) =
      [.packetHandler (some (netEthHdrSize g + ipHdrSize)) dport sport payload.length] :=
    receive_ip_datagram built.datagram (by omega) mtu ours
  rw [netReceive, if_neg long]
  simp only [notCdp, decoded]
  rw [if_neg (by decide), if_neg notDropped, if_neg (by decide), if_neg (by decide),
    if_pos trivial, dispatched]

/-- The variables have the sizes of their C types. -/
structure Typed (g : NetGlobals) : Prop where
  ourIP : g.netOurIP < 2 ^ 32
  ourEther : g.netOurEther.length = 6
  ether : ∀ which, (g.ether which).length = 6

theorem broadcast_dest_small (small : dest < 2 ^ 32) : broadcastDest dest < 2 ^ 32 := by
  unfold broadcastDest
  split
  · decide
  · exact small

theorem set_headers_framed (g : NetGlobals) (netIPID : Nat) (xet : Buffer) (mac : Mac)
    (dest dport sport len : Nat) :
    Framed g (netSetIP g netIPID (netSetEther g xet mac protIp).1 (netEthHdrSize g) dest dport sport
      len) protIp (netEthHdrSize g) := by
  have framed := @set_ether_framed protIp g xet mac (by decide)
  rw [set_ether_size] at framed
  apply framed_congr framed
  intro i _ below
  exact set_ip_outside g netIPID _ _ _ _ _ _ (Or.inl below)

variable {node : Node} {ether : EtherVar} {timer : Nat}

theorem arp_request_wait (node : Node) :
    (arpRequest node).1.g.netArpWaitTxPacket = node.g.netArpWaitTxPacket ∧
      (arpRequest node).1.g.netArpWaitTxPacketSize = node.g.netArpWaitTxPacketSize :=
  ⟨rfl, rfl⟩

/-- The frame of one NetSendUDPPacket. When the destination is not known, it waits, and NetReceive
puts the address of the ARP reply in front of it. -/
def Transmits (node : Node) (ether : EtherVar) (dest dport sport len timer : Nat)
    (frame : List UInt8) : Prop :=
  let sent := netSendUDPPacket node ether dest dport sport len timer
  if mustResolve node ether dest then
    ∃ mac : Mac, mac.length = 6 ∧
      frame = slice (splice sent.1.g.netArpWaitTxPacket 0 mac) 0 sent.1.g.netArpWaitTxPacketSize
  else frame ∈ sent.2

/-- The bytes that the upper layer has put behind the headers. -/
def payloadOf (node : Node) (len : Nat) : List UInt8 :=
  slice node.netTxPacket (netEthHdrSize node.g + ipHdrSize) len

theorem slice_prefix {q : Buffer} {count i : Nat} (same : slice q 0 count = slice p 0 count)
    (inside : i < count) : q i = p i := by
  have left := slice_getElem q 0 count i (by rw [slice_length]; exact inside)
  have right := slice_getElem p 0 count i (by rw [slice_length]; exact inside)
  rw [Nat.zero_add] at left right
  rw [← left, ← right]
  exact List.getElem_of_eq same _

/-- Both ways to send leave a complete frame in a buffer. -/
theorem transmitted_built {len : Nat} {frame : List UInt8} (typed : Typed node.g)
    (mtu : ipHdrSize + len < 2 ^ 16) (address : dest < 2 ^ 32) (dports : dport < 2 ^ 16)
    (sports : sport < 2 ^ 16) (sent : Transmits node ether dest dport sport len timer frame) :
    ∃ p : Buffer, frame = slice p 0 (frameLength node.g len) ∧
      Built node.g p (broadcastDest dest) dport sport (payloadOf node len) := by
  have size : (payloadOf node len).length = len := slice_length _ _ _
  have bounds := eth_hdr_size_bounds node.g
  have header : ipHdrSize = 28 := rfl
  have target := broadcast_dest_small address
  have macSize := typed.ether (etherFor ether dest)
  unfold Transmits at sent
  simp only at sent
  split at sent
  · -- the waiting packet: the payload is copied behind the headers, the address comes last
    rename_i unknown
    obtain ⟨mac, addressed, frameEq⟩ := sent
    rw [netSendUDPPacket, if_pos unknown, (arp_request_wait _).1, (arp_request_wait _).2] at frameEq
    simp only [startWait, waitingUdp, set_ether_size] at frameEq
    refine ⟨_, frameEq, ?_⟩
    have framed := set_headers_framed node.g node.netIPID node.g.netArpWaitTxPacket
      (node.g.ether (etherFor ether dest)) (broadcastDest dest) dport sport len
    have datagram := net_set_ip_datagram node.g node.netIPID
      (netSetEther node.g node.g.netArpWaitTxPacket (node.g.ether (etherFor ether dest)) protIp).1
      (netEthHdrSize node.g) mtu target dports sports
    generalize netSetIP node.g node.netIPID _ _ _ _ _ _ = headers at framed datagram ⊢
    have outside : ∀ i, 12 ≤ i → i < netEthHdrSize node.g + ipHdrSize →
        splice (splice headers (netEthHdrSize node.g + ipHdrSize)
          (slice node.netTxPacket (netEthHdrSize node.g + ipHdrSize) len)) 0 mac i = headers i := by
      intro i above below
      refine (splice_outside _ _ _ _ (by rw [addressed]; omega)).trans ?_
      exact splice_outside _ _ _ _ (Or.inl below)
    constructor
    · exact framed_congr framed fun i above below => outside i above (by omega)
    · rw [size]
      exact datagram_congr datagram fun i above below => outside i (by omega) below
    · rw [slice_splice_outside _ _ _ _ _ (by rw [addressed]; omega), payloadOf]
      exact slice_splice_same _ _ _
  -- the address is known: the headers are written in front of the payload
  · rename_i known
    rw [netSendUDPPacket, if_neg known, List.mem_singleton] at sent
    simp only [set_ether_size] at sent
    refine ⟨_, sent, ?_⟩
    constructor
    · exact set_headers_framed node.g _ _ _ _ _ _ _
    · rw [size]
      exact net_set_ip_datagram node.g _ _ _ mtu target dports sports
    · rw [size]
      apply slice_congr
      intro i inside
      refine (set_ip_outside node.g _ _ _ _ _ _ _ (Or.inr ⟨by omega, by omega⟩)).trans ?_
      apply set_ether_outside node.g _ _ macSize typed.ourEther
      rw [set_ether_size]
      omega

/-- What NetSendUDPPacket sends, a node with the destination's address and the same VLAN setting
hands to its packet handler: the same ports, the same payload and nothing else. CDP frames, where
CDP is compiled in, have a destination of their own. -/
theorem udp_round_trip (cfg : NetConfig) (receiver : NetGlobals) (inpkt : Buffer) {len pad : Nat}
    {frame : List UInt8} (typed : Typed node.g) (mtu : ipHdrSize + len < 2 ^ 16)
    (address : dest < 2 ^ 32) (dports : dport < 2 ^ 16) (sports : sport < 2 ^ 16)
    (sent : Transmits node ether dest dport sport len timer frame)
    (received : slice inpkt 0 frame.length = frame) (ours : receiver.netOurIP = dest)
    (vlan : receiver.netOurVLAN = node.g.netOurVLAN)
    (noCdp : cfg.cdp = false ∨ frame.take 6 ≠ netCDPAddr) :
    ∃ pkt, netReceive cfg receiver inpkt (frame.length + pad : Nat) =
        (receiver, [.packetHandler (some pkt) dport sport len]) ∧
      slice inpkt pkt len = payloadOf node len := by
  have size : (payloadOf node len).length = len := slice_length _ _ _
  have bounds := eth_hdr_size_bounds node.g
  obtain ⟨p, frameEq, built⟩ := transmitted_built typed mtu address dports sports sent
  have length : frame.length = frameLength node.g len := by rw [frameEq, slice_length]
  have same : ∀ i, i < frameLength node.g len → inpkt i = p i := by
    intro i inside
    rw [length, frameEq] at received
    exact slice_prefix received inside
  have arrived : Built node.g inpkt (broadcastDest dest) dport sport (payloadOf node len) := by
    apply built_congr built
    intro i _ below
    rw [size] at below
    exact same i below
  -- A zero destination goes out as a broadcast, and a node without an address takes it.
  have bound : receiver.netOurIP = 0 ∨ broadcastDest dest = receiver.netOurIP ∨
      broadcastDest dest = 0xffffffff := by
    by_cases zero : dest = 0
    · exact Or.inl (ours.trans zero)
    · exact Or.inr (Or.inl ((if_neg zero).trans ours.symm))
  have other : cfg.cdp = false ∨ slice inpkt 0 6 ≠ netCDPAddr := by
    apply noCdp.imp_right
    intro differs cdp
    apply differs
    have long : frame.length = 6 + (frame.length - 6) := by
      rw [length]
      unfold frameLength
      omega
    rw [← cdp, ← received, long, slice_add]
    exact List.take_left' (slice_length inpkt 0 6)
  have whole : (frameLength node.g (payloadOf node len).length : Int) ≤
      (frame.length + pad : Nat) := by
    rw [size, length]
    omega
  have dispatched := built_received arrived (by rw [size]; exact mtu) vlan bound other whole
  have payload := arrived.payload
  rw [size] at dispatched payload
  exact ⟨_, dispatched, payload⟩

/-- A client that knows its server's address. -/
def clientNode : Node where
  g := { tftpGlobals with ether := fun _ => [0x02, 0, 0, 0, 0, 1] }
  netTxPacket := fun _ => 7
  netIPID := 0
  netOurSubnetMask := 0xffffff00
  netOurGatewayIP := 0
  netArpWaitTimerStart := 0
  netArpWaitTry := 0
  netPingIP := 0
  pingSeqNo := 0

def serverGlobals : NetGlobals := { tftpGlobals with netOurIP := 0xc0a8010a }

def ackFrame : List UInt8 :=
  (netSendUDPPacket clientNode .netServerEther 0xc0a8010a 69 1024 4 0).2.headD []

/-- Four bytes from port 1024 to port 69, padded to the smallest frame. -/
theorem udp_round_trip_ack : ∃ pkt,
    netReceive boardConfig serverGlobals (fun i => ackFrame.getD i 0) (ackFrame.length + 14 : Nat) =
        (serverGlobals, [.packetHandler (some pkt) 69 1024 4]) ∧
      slice (fun i => ackFrame.getD i 0) pkt 4 = payloadOf clientNode 4 := by
  have typed : Typed clientNode.g := ⟨by decide, rfl, fun _ => rfl⟩
  have sent : Transmits clientNode .netServerEther 0xc0a8010a 69 1024 4 0 ackFrame := by
    have known : ¬ mustResolve clientNode .netServerEther 0xc0a8010a = true := by decide
    rw [Transmits, if_neg known]
    decide +kernel
  exact udp_round_trip boardConfig serverGlobals (fun i => ackFrame.getD i 0) typed (by decide)
    (by decide) (by decide) (by decide) sent (by decide +kernel) rfl rfl (Or.inl rfl)

end RoundTrip

end UBoot.Net.UdpRoundTrip
