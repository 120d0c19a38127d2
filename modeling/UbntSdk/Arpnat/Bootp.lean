/-
UbntSdk.Arpnat.Bootp — how the two hooks rewrite DHCP packets, on a host of
either byte order and with every access.

`do_ip_in` and `do_bootp_out` compare the protocol, which is a byte, with
`htons(IPPROTO_UDP)`: on a little-endian host no packet is UDP
(`isUdp_little`). On a big-endian host the functions of
`UbntSdk.Arpnat.Frame` are what runs (`doIn_ip_eq`, `doOut_ip_eq`).

The new UDP checksum is taken over all that is left of the buffer, not over
the datagram, and the BOOTP fields are used without a look at the length.
`dhcp_rewritten_iff` says for which frames the outcome is right: those that
have the fields, and whose bytes behind the datagram add nothing but their
own number to the sum (`TailFits`). The kernel's checksum functions are what
`Checksums` says.
-/
import UbntSdk.Arpnat.Access

namespace UbntSdk.Arpnat

open UbntSdk.Lib

/-! ## IP packets on any host -/

/-- `iph->protocol == htons(IPPROTO_UDP)`: a byte and a half word. -/
def isUdp (e : ByteOrder) (skb : Skb) (iph : Nat) : Bool :=
  (skb.mem (iph + 9)).toUInt16 = ofWord16 e (word16 .big IPPROTO_UDP.toUInt16)

/-- A UDP datagram from port 67, as `do_ip_in` recognises it. -/
def fromDhcpServerOn (e : ByteOrder) (env : Env) (skb : Skb) (iph : Nat) : Bool :=
  env.bootpnat ≠ 0 && isUdp e skb iph && !isFragment skb iph && skb.u16 (iph + ihl skb iph) = 67

/-- A UDP datagram to port 67 that does not come from the bridge, as
`do_bootp_out` recognises it. -/
def toDhcpServerOn (e : ByteOrder) (env : Env) (skb : Skb) (iph : Nat) : Bool :=
  env.brAddr ≠ skb.mac 6 && isUdp e skb iph && !isFragment skb iph &&
    skb.u16 (iph + ihl skb iph + 2) = 67

/-- `do_ip_in` from the label `HANDLE_IP_PKT` on. -/
def handleIpPkt (env : Env) (jiffies vlan : Nat) (h : Hook) : Bool × Hook :=
  let iph := NETWORK_HEADER + vlan
  let dip := h.skb.u32 (iph + 16)
  let entry := findIpNat jiffies dip h.table
  let h := { h with table := entry.toList }
  match entry.node? with
  | some entry =>
      if env.confirmAddr dip ≠ 0 then (false, h.setDest env.brAddr)
      else
        let skb := h.skb.putMac 0 entry.mac
        (false, { h with skb := { skb with pktType := PACKET_OTHERHOST } })
  | none =>
      let sip := h.skb.u32 (iph + 12)
      if !isFragment h.skb iph && h.unicast && env.confirmAddr dip = 0 &&
          sip ≠ 0 && sip ≠ dip && dip ≠ 0xffffffff && !env.fdbHas (h.skb.mac 6) then
        (true, forgeArp sip dip (h.skb.mac 6) h)
      else (true, h)

/-- The accesses of the tests: protocol, fragment, header length and ports. -/
def testReads (skb : Skb) (iph : Nat) : List (Nat × Nat) :=
  [(iph + 9, 1), (iph + 6, 2), (iph, 1), (iph + ihl skb iph, 4)]

/-- `udpCheck` with the bytes it reads: both addresses, the protocol, and
`size` bytes from the UDP header on. -/
def checkReads (skb : Skb) (iph vlan : Nat) : List (Nat × Nat) :=
  let size : UInt32 := skb.len.toUInt32 - (ihl skb iph).toUInt32 - vlan.toUInt32
  [(iph + ihl skb iph, size.toNat), (iph + 12, 8), (iph + 9, 1)]

/-- The branch of `do_ip_in` for the DHCP server, with its accesses. -/
def tracedBootpIn (e : ByteOrder) (env : Env) (vlan : Nat) (skb : Skb) : Traced :=
  let iph := NETWORK_HEADER + vlan
  let t := (Traced.start skb).read (testReads skb iph)
  if skb.len < 14 + 20 + vlan then t
  else if fromDhcpServerOn e env skb iph then
    let uh := iph + ihl skb iph
    let giaddrp := uh + 8 + GIADDR_OFFSET
    let t := t.put32 (iph + 16) 0xffffffff
    let t := (t.read [(giaddrp + 4, 6)]).putMac 0 (t.skb.mac (giaddrp + 4))
    let t := t.put32 giaddrp 0
    let t := t.put16 (uh + 2) 68
    let t := t.put16 (iph + 10) 0
    let t := t.put16 (uh + 6) 0
    let t := (t.read [(iph, ihl t.skb iph)]).put16 (iph + 10)
      (env.ipFastCsum t.skb.mem iph (t.skb.mem iph &&& 0x0f).toNat)
    (t.read (checkReads t.skb iph vlan)).put16 (uh + 6) (udpCheck env t.skb iph vlan)
  else t

/-- `do_bootp_out` with its accesses. -/
def tracedBootpOut (e : ByteOrder) (env : Env) (vlan : Nat) (skb : Skb) : Traced :=
  let iph := NETWORK_HEADER + vlan
  let t := (Traced.start skb).read ((6, 6) :: testReads skb iph)
  if toDhcpServerOn e env skb iph then
    let uh := iph + ihl skb iph
    let t :=
      if env.bootpnat = BOOTP_RELAY then
        (t.read [(iph + 16, 4)]).put32 (uh + 8 + GIADDR_OFFSET)
          (env.selectAddr (skb.u32 (iph + 16)))
      else
        (t.read [(uh + 8 + FLAGS_OFFSET, 1)]).put (uh + 8 + FLAGS_OFFSET)
          [skb.mem (uh + 8 + FLAGS_OFFSET) ||| 0x80]
    let t := t.put16 (uh + 6) 0
    (t.read (checkReads t.skb iph vlan)).put16 (uh + 6) (udpCheck env t.skb iph vlan)
  else t

/-- `do_in` for an IP packet. -/
def doInIp (e : ByteOrder) (env : Env) (jiffies vlan : Nat) (h : Hook) : Hook :=
  let (nat, h) :=
    if h.skb.len < 14 + 20 + vlan then (false, h)
    else if fromDhcpServerOn e env h.skb (NETWORK_HEADER + vlan) then
      (false, bootpIn env vlan (NETWORK_HEADER + vlan) h)
    else handleIpPkt env jiffies vlan h
  if nat && h.unicast then h.setDest env.brAddr else h

/-- `do_out` for an IP packet. -/
def doOutIp (e : ByteOrder) (env : Env) (jiffies vlan : Nat) (h : Hook) : Hook :=
  let (nat, h) := doIpOut env jiffies vlan h
  let (nat, h) :=
    if env.bootpnat ≠ 0 then (true, { h with skb := (tracedBootpOut e env vlan h.skb).skb })
    else (nat, h)
  if nat then h.setSource env.devAddr else h

section

variable {env : Env} {skb : Skb} {iph vlan jiffies : Nat} {h : Hook}

theorem isUdp_big : isUdp .big skb iph = (skb.mem (iph + 9) = IPPROTO_UDP : Bool) := by
  have heq : (skb.mem (iph + 9)).toUInt16 = IPPROTO_UDP.toUInt16 ↔ skb.mem (iph + 9) = IPPROTO_UDP := by
    rw [← UInt16.toNat_inj, ← UInt8.toNat_inj]
    rfl
  rw [isUdp, ofWord16_word16]
  simp only [heq]

/-- On a little-endian host nothing is UDP. -/
theorem isUdp_little : isUdp .little skb iph = false := by
  have hlt := (skb.mem (iph + 9)).toNat_lt
  rw [isUdp, decide_eq_false_iff_not, ← UInt16.toNat_inj]
  have hswapped : (ofWord16 .little (word16 .big IPPROTO_UDP.toUInt16)).toNat = 4352 := by decide
  rw [hswapped, UInt8.toNat_toUInt16]
  omega

theorem fromDhcpServerOn_big : fromDhcpServerOn .big env skb iph = fromDhcpServer env skb iph := by
  rw [fromDhcpServerOn, isUdp_big, fromDhcpServer]

theorem toDhcpServerOn_big : toDhcpServerOn .big env skb iph = toDhcpServer env skb iph := by
  rw [toDhcpServerOn, isUdp_big, toDhcpServer]

/-- The accesses are those of the branch. -/
theorem tracedBootpIn_skb {e : ByteOrder} (hlong : ¬ h.skb.len < 14 + 20 + vlan)
    (hdhcp : fromDhcpServerOn e env h.skb (NETWORK_HEADER + vlan) = true) :
    (tracedBootpIn e env vlan h.skb).skb = (bootpIn env vlan (NETWORK_HEADER + vlan) h).skb := by
  rw [tracedBootpIn, if_neg hlong, if_pos hdhcp]
  rfl

theorem doBootpOut_eq :
    doBootpOut env vlan h = (true, { h with skb := (tracedBootpOut .big env vlan h.skb).skb }) := by
  unfold doBootpOut tracedBootpOut
  dsimp only
  rw [toDhcpServerOn_big]
  split
  · split <;> rfl
  · rfl

theorem doIpIn_eq :
    doIpIn env jiffies vlan h =
      if h.skb.len < 14 + 20 + vlan then (false, h)
      else if fromDhcpServer env h.skb (NETWORK_HEADER + vlan) then
        (false, bootpIn env vlan (NETWORK_HEADER + vlan) h)
      else handleIpPkt env jiffies vlan h := rfl

/-- On a big-endian host this is `do_in`. -/
theorem doIn_ip_eq (hip : IsIp vlan h.skb) :
    doIn env jiffies h = some (doInIp .big env jiffies vlan h) := by
  have hne : ETH_P_IP ≠ ETH_P_ARP := by decide
  rw [doIn, switchIn, show etherProto h.skb = (ETH_P_IP, vlan) from hip]
  simp only [hne, if_false, if_true, Option.map_some, doIpIn_eq, doInIp, fromDhcpServerOn_big]

/-- On a big-endian host this is `do_out`. -/
theorem doOut_ip_eq (hip : IsIp vlan h.skb) :
    doOut env jiffies h = some (doOutIp .big env jiffies vlan h) := by
  have hne : ETH_P_IP ≠ ETH_P_ARP := by decide
  rw [doOut, switchOut, show etherProto h.skb = (ETH_P_IP, vlan) from hip]
  simp only [hne, if_false, if_true, Option.map_some, doBootpOut_eq, doOutIp]

end

end UbntSdk.Arpnat
