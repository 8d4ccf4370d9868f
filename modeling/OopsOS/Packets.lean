import OopsOS.Bytes

namespace OopsOS.Net
set_option autoImplicit true

abbrev MBUF_SIZE : Nat := 2048

abbrev localIp : Nat := 0x0a00020f

def htons (n : Nat) : List UInt8 := [byteOf n 1, byteOf n 0]

def htonl (n : Nat) : List UInt8 := [byteOf n 3, byteOf n 2, byteOf n 1, byteOf n 0]

def ntohs (m : List UInt8) (i : Nat) : Nat := 256 * (m.getD i 0).toNat + (m.getD (i + 1) 0).toNat

def ntohl (m : List UInt8) (i : Nat) : Nat := 65536 * ntohs m i + ntohs m (i + 2)

def sumWords : List UInt8 → Nat
  | a :: b :: w => a.toNat + 256 * b.toNat + sumWords w
  | [a] => a.toNat
  | [] => 0

/-- The carries are added back, and the bits inverted. -/
def fold (sum : Nat) : Nat :=
  let sum := sum % 65536 + sum / 65536
  65535 - (sum + sum / 65536) % 65536

def inCksum (addr : List UInt8) : Nat := fold (sumWords addr % 2 ^ 32)

/-- The bytes of the packet buffer with a header in front of them. -/
def netTxEth (m : List UInt8) (ethtype : Nat) : List UInt8 :=
  [255, 255, 255, 255, 255, 255, 0x52, 0x54, 0x00, 0x12, 0x34, 0x56] ++ htons ethtype ++ m

def ipHeader (len proto dip sum : Nat) : List UInt8 :=
  [0x45, 0] ++ htons len ++ [0, 0, 0, 0, 100, byteOf proto 0, byteOf sum 0, byteOf sum 1] ++
    htonl localIp ++ htonl dip

def netTxIp (m : List UInt8) (proto dip : Nat) : List UInt8 :=
  let hdr := ipHeader (m.length + 20) proto dip
  netTxEth (hdr (inCksum (hdr 0)) ++ m) 0x0800

def netTxUdp (m : List UInt8) (dip sport dport : Nat) : List UInt8 :=
  netTxIp (htons sport ++ htons dport ++ htons (m.length + 8) ++ [0, 0] ++ m) 17 dip

/-- What becomes of a frame: it is freed, goes to `net_rx_arp`, or to `sockrecvudp`. -/
inductive Rx where
  | mbuffree
  | arp (m : List UInt8)
  | sockrecvudp (m : List UInt8) (raddr lport rport : Nat)

/-- The length without a header, in 16 bits. -/
def strip (len header : Nat) : Nat := (len + (65536 - header)) % 65536

/-- The headers are at their places in the frame `m`. -/
def netRxUdp (m : List UInt8) (len : Nat) : Rx :=
  if m.length - 34 < 8 ∨ ntohs m 38 ≠ len ∨ m.length - 42 < strip len 8 then .mbuffree
  else .sockrecvudp ((m.drop 42).take (strip len 8)) (ntohl m 26) (ntohs m 36) (ntohs m 34)

def netRxIp (m : List UInt8) : Rx :=
  if m.length - 14 < 20 ∨ m.getD 14 0 ≠ 0x45 ∨ inCksum ((m.drop 14).take 20) ≠ 0 ∨
      ntohs m 20 ≠ 0 ∨ ntohl m 30 ≠ localIp ∨ m.getD 23 0 ≠ 17 then .mbuffree
  else netRxUdp m (strip (ntohs m 16) 20)

def netRx (m : List UInt8) : Rx :=
  if m.length < 14 then .mbuffree
  else if ntohs m 12 = 0x0800 then netRxIp m
  else if ntohs m 12 = 0x0806 then .arp (m.drop 14)
  else .mbuffree

/-- A UDP packet to this host with the payload `d`, whose lengths agree with the frame. -/
structure Packet (m d : List UInt8) : Prop where
  type : ntohs m 12 = 0x0800
  header : m.getD 14 0 = 0x45 ∧ inCksum ((m.drop 14).take 20) = 0 ∧ ntohs m 20 = 0
  addressed : ntohl m 30 = localIp ∧ m.getD 23 0 = 17
  lengths : ntohs m 16 = d.length + 28 ∧ ntohs m 38 = d.length + 8
  payload : d = (m.drop 42).take d.length ∧ 42 + d.length ≤ m.length

variable {m d : List UInt8} {n k : Nat}

theorem ntohs_lt (m : List UInt8) (i : Nat) : ntohs m i < 65536 := by
  have := (m.getD i 0).toNat_lt
  have := (m.getD (i + 1) 0).toNat_lt
  unfold ntohs
  omega

theorem Packet.netRx (h : Packet m d) (hlen : m.length ≤ 2048) :
    netRx m = .sockrecvudp d (ntohl m 26) (ntohs m 36) (ntohs m 34) := by
  obtain ⟨hip, hudp⟩ := h.lengths
  obtain ⟨hd, hroom⟩ := h.payload
  have hstrip : strip (ntohs m 16) 20 = d.length + 8 ∧ strip (d.length + 8) 8 = d.length := by
    unfold strip
    omega
  rw [Net.netRx, if_neg (by omega), if_pos h.type, netRxIp, if_neg, netRxUdp, hstrip.1, hstrip.2,
    if_neg (by omega), ← hd]
  simp only [h.header, h.addressed, ne_eq, not_true, or_false]
  omega

theorem length_payload (h : ¬m.length - 42 < n) : ((m.drop 42).take n).length = n := by
  rw [List.length_take, List.length_drop]
  omega

/-- Exactly the packets are delivered, with their payload, source address and ports. -/
theorem netRx_iff (hlen : m.length ≤ MBUF_SIZE) : netRx m = .sockrecvudp d raddr lport rport ↔
    Packet m d ∧ raddr = ntohl m 26 ∧ lport = ntohs m 36 ∧ rport = ntohs m 34 := by
  unfold MBUF_SIZE at hlen
  constructor
  · intro h
    unfold netRx netRxIp netRxUdp at h
    split_ifs at h with _ htype hhdr hudp
    obtain ⟨rfl, rfl, rfl, rfl⟩ := Rx.sockrecvudp.inj h
    simp only [not_or, not_not] at hhdr hudp
    obtain ⟨-, hvhl, hsum, hoff, haddr⟩ := hhdr
    have hlt := ntohs_lt m 16
    have hd := length_payload hudp.2.2
    refine ⟨⟨htype, ⟨hvhl, hsum, hoff⟩, haddr, ?_, ?_⟩, rfl, rfl, rfl⟩ <;> rw [hd]
    -- the frame is too short for a length that has wrapped around
    all_goals unfold strip at *
    · omega
    · exact ⟨rfl, by omega⟩
  · rintro ⟨h, rfl, rfl, rfl⟩
    exact h.netRx hlen

theorem netRx_iff_two : Packet (netTxUdp [7, 8] localIp 5 6) [7, 8] :=
  ((netRx_iff (by decide)).1 (show _ = Rx.sockrecvudp _ localIp 6 5 from rfl)).1

theorem sumWords_le (l : List UInt8) : 2 * sumWords l ≤ 65535 * (l.length + 1) := by
  fun_induction sumWords l with
  | case1 a b w ih =>
    have := a.toNat_lt
    have := b.toNat_lt
    simp only [List.length_cons]
    omega
  | case2 a =>
    have := a.toNat_lt
    simp only [List.length_singleton]
    omega
  | case3 => omega

theorem fold_eq_zero (h : k < 65536) : fold (65535 * (k + 1)) = 0 := by
  have hdiv : 65535 * (k + 1) / 65536 = k := by omega
  have hmod : 65535 * (k + 1) % 65536 = 65535 - k := by omega
  simp only [fold, hdiv, hmod]
  omega

theorem add_fold (h : n < 2 ^ 20) : ∃ k < 65536, n + fold n = 65535 * (k + 1) ∧ fold n < 65536 := by
  -- `k` is the sum of the carries
  refine ⟨n / 65536 + (n % 65536 + n / 65536) / 65536, by omega, ?_⟩
  simp only [fold]
  omega

theorem inCksum_ipHeader (len proto dip : Nat) :
    inCksum (ipHeader len proto dip (inCksum (ipHeader len proto dip 0))) = 0 := by
  have hle : 2 * sumWords (ipHeader len proto dip 0) ≤ 65535 * 21 := sumWords_le _
  have hfield (sum : Nat) :
      sumWords (ipHeader len proto dip sum) = sumWords
        (ipHeader len proto dip 0) + sum % 65536 := by
    simp only [ipHeader, htons, htonl, List.cons_append, List.nil_append, sumWords, toNat_byteOf]
    omega
  rw [inCksum, hfield, inCksum]
  generalize sumWords (ipHeader len proto dip 0) = w at *
  obtain ⟨k, hk, hsum, hlt⟩ := add_fold (n := w) (by omega)
  rw [Nat.mod_eq_of_lt (a := w) (by omega), Nat.mod_eq_of_lt hlt, hsum, Nat.mod_eq_of_lt (by omega),
    fold_eq_zero hk]

theorem ntohs_eq (h : ntohs m i = 256 * (byteOf n 1).toNat + (byteOf n 0).toNat) (hn : n < 65536) :
    ntohs m i = n := by
  rw [h, toNat_byteOf, toNat_byteOf]
  omega

/-- A packet of this host to itself passes all checks of the receiver, which gets its payload. -/
theorem netRx_netTxUdp (hlen : d.length + 42 ≤ MBUF_SIZE) (sport dport : UInt16) :
    netRx (netTxUdp d localIp sport.toNat dport.toNat) =
      .sockrecvudp d localIp dport.toNat sport.toNat := by
  unfold MBUF_SIZE at hlen
  have hframe : (netTxUdp d localIp sport.toNat dport.toNat).length = d.length + 42 := rfl
  have h : Packet (netTxUdp d localIp sport.toNat dport.toNat) d :=
    { type := rfl
      header := ⟨rfl, inCksum_ipHeader .., rfl⟩
      addressed := ⟨rfl, rfl⟩
      lengths := ⟨ntohs_eq rfl (by omega), ntohs_eq rfl (by omega)⟩
      payload := ⟨(List.take_length ..).symm, by omega⟩ }
  rw [h.netRx (by omega)]
  exact congrArg₂ (Rx.sockrecvudp d localIp) (ntohs_eq rfl dport.toNat_lt)
    (ntohs_eq rfl sport.toNat_lt)

theorem netRx_netTxUdp_two :
    netRx (netTxUdp [7, 8] localIp 5 6) = .sockrecvudp [7, 8] localIp 6 5 :=
  netRx_netTxUdp (by decide) 5 6

end OopsOS.Net
