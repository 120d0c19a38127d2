/-
UbntSdk.Arpnat.Frame — the two hooks of the ARPNAT bridge target
(`target/linux/ubnt/patches/300-ebtables-arpnat.patch`): `do_in` for frames
that come in, `do_out` for frames that leave.

A socket buffer is linear. `Skb.mem` is the memory from the MAC header on;
`skb->data` and the network header are at offset 14, and `skb->len` counts
from there. The code reads headers without looking at the length in most
places, so the memory goes on behind the frame. Only `skb_header_pointer`
checks; what it returns is `none` for `NULL`, and a hook that follows a
`NULL` pointer has the result `none`.

The target of this tree is big-endian, so `htons` and `ntohs` do nothing
and a field is the number its bytes spell. The kernel functions the hooks
call are in `Env`: the address lookups of the bridge device, the forwarding
database and the checksums.
-/
import UbntSdk.Arpnat.Table
import UbntSdk.Lib.Crc

namespace UbntSdk.Arpnat

open UbntSdk.Lib

/-! ## Socket buffers -/

/-- Where `skb->data` and the network header are. -/
def NETWORK_HEADER : Nat := 14

def PACKET_OTHERHOST : UInt8 := 3

structure Skb where
  mem : Nat → UInt8
  len : Nat
  pktType : UInt8

namespace Skb

def u16 (skb : Skb) (off : Nat) : UInt16 :=
  (skb.mem off).toUInt16 <<< 8 ||| (skb.mem (off + 1)).toUInt16

def u32 (skb : Skb) (off : Nat) : UInt32 :=
  (skb.u16 off).toUInt32 <<< 16 ||| (skb.u16 (off + 2)).toUInt32

def mac (skb : Skb) (off : Nat) : Mac := fun k => skb.mem (off + k)

def bytes (skb : Skb) (off n : Nat) : List UInt8 := (List.range n).map fun k => skb.mem (off + k)

/-- `memcpy` into the buffer. -/
def put (skb : Skb) (off : Nat) (bs : List UInt8) : Skb :=
  { skb with
    mem := fun i => if off ≤ i ∧ i < off + bs.length then bs.getD (i - off) 0 else skb.mem i }

def putMac (skb : Skb) (off : Nat) (m : Mac) : Skb := skb.put off (List.ofFn m)

def put16 (skb : Skb) (off : Nat) (v : UInt16) : Skb := skb.put off [(v >>> 8).toUInt8, v.toUInt8]

def put32 (skb : Skb) (off : Nat) (v : UInt32) : Skb :=
  skb.put off [(v >>> 24).toUInt8, (v >>> 16).toUInt8, (v >>> 8).toUInt8, v.toUInt8]

/-- `skb_header_pointer`. -/
def headerPointer (skb : Skb) (offset len : Nat) : Option Nat :=
  if offset + len ≤ skb.len then some (NETWORK_HEADER + offset) else none

end Skb

/-! ## Protocol constants -/

def ETH_P_IP : UInt16 := 0x0800
def ETH_P_ARP : UInt16 := 0x0806
def ETH_P_8021Q : UInt16 := 0x8100
def ETH_P_PPP_DISC : UInt16 := 0x8863
def ETH_P_PPP_SES : UInt16 := 0x8864

def ARPOP_REQUEST : UInt16 := 1
def ARPOP_REPLY : UInt16 := 2

def IPPROTO_UDP : UInt8 := 17
def IP_OFFSET : UInt16 := 0x1FFF

def PTT_EOL : UInt16 := 0x0000
def PTT_HOST_UNIQ : UInt16 := 0x0103
def PADT_CODE : UInt8 := 0xa7
def PPP_LCP : UInt16 := 0xc021
def PPP_LCP_TERM : UInt8 := 0x05

def GIADDR_OFFSET : Nat := 24
def FLAGS_OFFSET : Nat := 10
def BOOTP_RELAY : UInt8 := 2

def EBT_DROP : Int := -2

/-! ## The surroundings of a hook -/

/-- The settings of the module, the devices of the frame, and the kernel
functions that the hooks call. -/
structure Env where
  clock : Clock
  bootpnat : UInt8
  pppoenat : UInt8
  /-- `br_port->br->dev->dev_addr`. -/
  brAddr : Mac
  /-- `out->dev_addr`. -/
  devAddr : Mac
  /-- `arpnat_confirm_addr`: 0 iff the bridge does not have the address. -/
  confirmAddr : UInt32 → UInt32
  /-- `inet_select_addr`. -/
  selectAddr : UInt32 → UInt32
  /-- `__br_fdb_get` finds the address. -/
  fdbHas : Mac → Bool
  ipFastCsum : (Nat → UInt8) → Nat → Nat → UInt16
  csumPartial : (Nat → UInt8) → Nat → UInt32 → UInt32
  csumTcpudpMagic : UInt32 → UInt32 → UInt16 → UInt8 → UInt32 → UInt16

/-- An ARP request that `forge_arp` sends to every other port. -/
structure ForgedArp where
  sip : UInt32
  dip : UInt32
  smac : Mac

/-- What a hook works on. -/
structure Hook where
  skb : Skb
  table : ArpnatTable
  target : Int
  forged : List ForgedArp

namespace Hook

/-- Overwrite the Ethernet destination. -/
def setDest (h : Hook) (m : Mac) : Hook := { h with skb := h.skb.putMac 0 m }

/-- Overwrite the Ethernet source. -/
def setSource (h : Hook) (m : Mac) : Hook := { h with skb := h.skb.putMac 6 m }

/-- `!(eth_dmac[0] & 1)`. -/
def unicast (h : Hook) : Bool := h.skb.mem 0 &&& 1 = 0

end Hook

/-- The Ethernet protocol and the offset that an 802.1Q tag adds. -/
def etherProto (skb : Skb) : UInt16 × Nat :=
  if skb.u16 12 = ETH_P_8021Q then (skb.u16 16, 4) else (skb.u16 12, 0)

/-! ## ARP -/

/-- The test of `ar_hln`, `ar_pro` and `ar_pln` of the header at `ah`. -/
def isIpArp (skb : Skb) (ah : Nat) : Bool :=
  skb.mem (ah + 4) = 6 && skb.u16 (ah + 2) = ETH_P_IP && skb.mem (ah + 5) = 4

/-- `ar_op` is a request or a reply. -/
def isArpTalk (skb : Skb) (ah : Nat) : Bool :=
  skb.u16 (ah + 6) = ARPOP_REPLY || skb.u16 (ah + 6) = ARPOP_REQUEST

/-- `do_arp_in`. -/
def doArpIn (env : Env) (jiffies vlan : Nat) (h : Hook) : Option (Bool × Hook) :=
  let ah := NETWORK_HEADER + vlan
  if isIpArp h.skb ah then do
    let arpSip := h.skb.headerPointer (8 + 6 + vlan) 4
    let arpDip := h.skb.headerPointer (8 + 2 * 6 + 4 + vlan) 4
    let arpDmac := h.skb.headerPointer (8 + 6 + 4 + vlan) 6
    let dipAt ← arpDip
    let dip := h.skb.u32 dipAt
    let entry := findIpNat jiffies dip h.table
    let h := { h with table := entry.toList }
    if isArpTalk h.skb ah then
      match entry.node? with
      | some entry =>
          let sip := env.selectAddr dip
          if h.unicast then do
            let dmacAt ← arpDmac
            let skb := (h.skb.putMac dmacAt entry.mac).putMac 0 entry.mac
            let pktType := if dip ≠ sip then PACKET_OTHERHOST else skb.pktType
            pure (false, { h with skb := { skb with pktType } })
          else pure (false, h)
      | none =>
          -- the two pointers, not the addresses, are compared
          if arpSip = arpDip then pure (true, { h with target := EBT_DROP }) else pure (true, h)
    else pure (true, h)
  else some (true, h)

/-- `do_arp_out`. -/
def doArpOut (env : Env) (jiffies vlan : Nat) (h : Hook) : Option (Bool × Hook) :=
  let ah := NETWORK_HEADER + vlan
  if isIpArp h.skb ah then
    if isArpTalk h.skb ah then do
      let sipAt ← h.skb.headerPointer (8 + 6 + vlan) 4
      let dipAt ← h.skb.headerPointer (8 + 2 * 6 + 4 + vlan) 4
      let smacAt ← h.skb.headerPointer (8 + vlan) 6
      let table := (updateArpNat env.clock jiffies (h.skb.mac smacAt) (h.skb.u32 sipAt) h.table).toList
      let h := { h with table }
      if env.confirmAddr (h.skb.u32 dipAt) ≠ 0 then pure (false, h)
      else pure (true, { h with skb := h.skb.putMac smacAt env.devAddr })
    else some (true, h)
  else some (true, h)

/-! ## IP -/

/-- `iph->frag_off & htons(IP_OFFSET)`. -/
def isFragment (skb : Skb) (iph : Nat) : Bool := skb.u16 (iph + 6) &&& IP_OFFSET ≠ 0

/-- `iph->ihl << 2`. -/
def ihl (skb : Skb) (iph : Nat) : Nat := (skb.mem iph &&& 0x0f).toNat * 4

/-- The UDP checksum over `size` bytes behind the IP header, with 0 written
as 0xFFFF. -/
def udpCheck (env : Env) (skb : Skb) (iph vlan : Nat) : UInt16 :=
  let size : UInt32 := skb.len.toUInt32 - (ihl skb iph).toUInt32 - vlan.toUInt32
  let csum := env.csumPartial skb.mem (iph + ihl skb iph) size
  let check := env.csumTcpudpMagic (skb.u32 (iph + 12)) (skb.u32 (iph + 16)) size.toUInt16
    (skb.mem (iph + 9)) csum
  if check = 0 then 0xFFFF else check

/-- A UDP datagram from port 67, as `do_ip_in` recognises it. -/
def fromDhcpServer (env : Env) (skb : Skb) (iph : Nat) : Bool :=
  env.bootpnat ≠ 0 && skb.mem (iph + 9) = IPPROTO_UDP && !isFragment skb iph &&
    skb.u16 (iph + ihl skb iph) = 67

/-- The branch of `do_ip_in` for the DHCP server. -/
def bootpIn (env : Env) (vlan iph : Nat) (h : Hook) : Hook :=
  let uh := iph + ihl h.skb iph
  let giaddrp := uh + 8 + GIADDR_OFFSET
  let skb := h.skb.put32 (iph + 16) 0xffffffff
  let skb := skb.putMac 0 (skb.mac (giaddrp + 4))
  let skb := skb.put32 giaddrp 0
  let skb := skb.put16 (uh + 2) 68
  let skb := skb.put16 (iph + 10) 0
  let skb := skb.put16 (uh + 6) 0
  let skb := skb.put16 (iph + 10) (env.ipFastCsum skb.mem iph (skb.mem iph &&& 0x0f).toNat)
  let skb := skb.put16 (uh + 6) (udpCheck env skb iph vlan)
  { h with skb }

/-- `forge_arp`. -/
def forgeArp (sip dip : UInt32) (smac : Mac) (h : Hook) : Hook :=
  { h with forged := h.forged ++ [⟨sip, dip, smac⟩] }

/-- `do_ip_in`. -/
def doIpIn (env : Env) (jiffies vlan : Nat) (h : Hook) : Bool × Hook :=
  let iph := NETWORK_HEADER + vlan
  -- the length counts from the network header, the bound from the MAC header
  if h.skb.len < 14 + 20 + vlan then (false, h)
  else if fromDhcpServer env h.skb iph then (false, bootpIn env vlan iph h)
  else
    let dip := h.skb.u32 (iph + 16)
    let entry := findIpNat jiffies dip h.table
    let h := { h with table := entry.toList }
    match entry.node? with
    | some entry =>
        if env.confirmAddr dip ≠ 0 then (false, h.setDest env.brAddr)
        else
          let skb := h.skb.putMac 0 entry.mac
          (false, { h with skb := { skb with pktType := PACKET_OTHERHOST } })
    | none =>
        let sip := h.skb.u32 (iph + 12)
        if !isFragment h.skb iph && h.unicast && env.confirmAddr dip = 0 &&
            sip ≠ 0 && sip ≠ dip && dip ≠ 0xffffffff && !env.fdbHas (h.skb.mac 6) then
          (true, forgeArp sip dip (h.skb.mac 6) h)
        else (true, h)

/-- `do_ip_out`. -/
def doIpOut (env : Env) (jiffies vlan : Nat) (h : Hook) : Bool × Hook :=
  let iph := NETWORK_HEADER + vlan
  if isFragment h.skb iph then (true, h)
  else
    let table :=
      (updateArpNat env.clock jiffies (h.skb.mac 6) (h.skb.u32 (iph + 12)) h.table).toList
    (true, { h with table })

/-- A UDP datagram to port 67 that does not come from the bridge, as
`do_bootp_out` recognises it. -/
def toDhcpServer (env : Env) (skb : Skb) (iph : Nat) : Bool :=
  env.brAddr ≠ skb.mac 6 && skb.mem (iph + 9) = IPPROTO_UDP && !isFragment skb iph &&
    skb.u16 (iph + ihl skb iph + 2) = 67

/-- `do_bootp_out`. -/
def doBootpOut (env : Env) (vlan : Nat) (h : Hook) : Bool × Hook :=
  let iph := NETWORK_HEADER + vlan
  if toDhcpServer env h.skb iph then
    let uh := iph + ihl h.skb iph
    let skb :=
      if env.bootpnat = BOOTP_RELAY then
        h.skb.put32 (uh + 8 + GIADDR_OFFSET) (env.selectAddr (h.skb.u32 (iph + 16)))
      else
        h.skb.put (uh + 8 + FLAGS_OFFSET) [h.skb.mem (uh + 8 + FLAGS_OFFSET) ||| 0x80]
    let skb := skb.put16 (uh + 6) 0
    (true, { h with skb := skb.put16 (uh + 6) (udpCheck env skb iph vlan) })
  else (true, h)

/-! ## PPPoE -/

/-- The loop over the tags of a discovery packet, from `tag` up to `limit`:
where it stops, and whether that is a Host-Uniq tag. Each pass goes on by
at least 4 bytes, so `n` passes are enough when `limit ≤ tag + 4 * n`. -/
def findHostUniq (skb : Skb) (limit : Nat) : Nat → Nat → Nat × Bool
  | 0, tag => (tag, false)
  | n + 1, tag =>
      if skb.u16 tag ≠ PTT_EOL ∧ tag < limit then
        if skb.u16 tag = PTT_HOST_UNIQ then (tag, true)
        else findHostUniq skb limit n (tag + 4 + (skb.u16 (tag + 2)).toNat)
      else (tag, false)

/-- The loop over all tags of the packet at `pppoe`. -/
def hostUniqTag (skb : Skb) (pppoe : Nat) : Nat × Bool :=
  let length := (skb.u16 (pppoe + 4)).toNat
  findHostUniq skb (pppoe + 6 + length) length (pppoe + 6)

/-- The temporary session id: the CRC of the data of the tag. -/
def tagId (skb : Skb) (tag : Nat) : UInt16 :=
  crc16 0 (skb.bytes (tag + 4) (skb.u16 (tag + 2)).toNat)

/-- Learn a session for the MAC. -/
def Hook.learnId (env : Env) (jiffies : Nat) (mac : Mac) (id : UInt16) (flags : UInt8) (h : Hook) :
    Hook :=
  { h with table := (updatePppoeNat env.clock jiffies mac id flags h.table).toList }

/-- The flags for a discovery packet: the session ends with a PADT. -/
def discoveryFlags (skb : Skb) (pppoe : Nat) (flags : UInt8) : UInt8 :=
  if skb.mem (pppoe + 1) = PADT_CODE then PPPOE_REMOVE else flags

/-- Look a session up. -/
def Hook.findId (jiffies : Nat) (id : UInt16) (h : Hook) : Option Mac2ip × Hook :=
  let entry := findPppoeNat jiffies id h.table
  (entry.node?, { h with table := entry.toList })

/-- The part of `do_pppoed_in` before the tags: the session id of the packet
if it is new (and 0 otherwise), whether the frame is still to be handled,
and the destination set by a session that is known. -/
def pppoedSession (jiffies : Nat) (sid : UInt16) (h : Hook) : UInt16 × Bool × Hook :=
  if sid ≠ 0 then
    match h.findId jiffies sid with
    | (some entry, h) => (0, false, h.setDest entry.mac)
    | (none, h) => (sid, true, h)
  else (0, true, h)

/-- The part of `do_pppoed_in` for a Host-Uniq tag, which gives the
temporary id. -/
def pppoedHostUniq (env : Env) (jiffies : Nat) (sid tmpSid newSid : UInt16) (flags : UInt8)
    (nat : Bool) (h : Hook) : Bool × Hook :=
  let (entry, h) := h.findId jiffies tmpSid
  if newSid ≠ 0 then
    match entry with
    | some entry =>
        let h := h.setDest entry.mac
        let h := h.learnId env jiffies (h.skb.mac 0) tmpSid PPPOE_REMOVE
        (false, h.learnId env jiffies (h.skb.mac 0) newSid flags)
    | none => (true, h)
  else if sid = 0 then
    match entry with
    | none => (true, h)
    | some entry =>
        let h := h.setDest entry.mac
        (false, h.learnId env jiffies (h.skb.mac 0) tmpSid flags)
  else (nat, h.learnId env jiffies (h.skb.mac 0) sid flags)

/-- `do_pppoed_in`. -/
def doPppoedIn (env : Env) (jiffies vlan : Nat) (h : Hook) : Bool × Hook :=
  let pppoe := NETWORK_HEADER + vlan
  let sid := h.skb.u16 (pppoe + 2)
  let (newSid, nat, h) := pppoedSession jiffies sid h
  let (tag, isHostUniq) := hostUniqTag h.skb pppoe
  if isHostUniq then
    pppoedHostUniq env jiffies sid (tagId h.skb tag) newSid
      (discoveryFlags h.skb pppoe PPPOE_ADD_TMP) nat h
  else if newSid = 0 then
    (nat, h.learnId env jiffies (h.skb.mac 0) sid (discoveryFlags h.skb pppoe PPPOE_ADD))
  else (nat, h)

/-- `do_pppoes_in`. -/
def doPppoesIn (env : Env) (jiffies vlan : Nat) (h : Hook) : Bool × Hook :=
  let pppoe := NETWORK_HEADER + vlan
  match h.findId jiffies (h.skb.u16 (pppoe + 2)) with
  | (some entry, h) => (false, h.setDest entry.mac)
  | (none, h) => (false, h.setDest env.brAddr)

/-- The tag that `do_pppoed_out` writes where the loop stopped: Host-Uniq
with the source address, before an end tag if there was one. -/
def addHostUniq (pppoe tag : Nat) (skb : Skb) : Skb :=
  let hasPttEol : Bool := skb.u16 tag = PTT_EOL
  let smac := skb.mac 6
  let skb := if skb.len ≤ 1484 then { skb with len := skb.len + 10 } else skb
  let skb := skb.put16 tag PTT_HOST_UNIQ
  let skb := skb.put16 (tag + 2) 6
  let skb := skb.putMac (tag + 4) smac
  let skb := if hasPttEol then skb.put (tag + 10) [0, 0, 0, 0] else skb
  skb.put16 (pppoe + 4) (skb.u16 (pppoe + 4) + 10)

/-- `do_pppoed_out`. -/
def doPppoedOut (env : Env) (jiffies vlan : Nat) (h : Hook) : Bool × Hook :=
  let pppoe := NETWORK_HEADER + vlan
  let sid := h.skb.u16 (pppoe + 2)
  if sid ≠ 0 then
    (true, h.learnId env jiffies (h.skb.mac 6) sid (discoveryFlags h.skb pppoe PPPOE_ADD))
  else
    let flags := discoveryFlags h.skb pppoe PPPOE_ADD_TMP
    let (tag, isHostUniq) := hostUniqTag h.skb pppoe
    if isHostUniq then (true, h.learnId env jiffies (h.skb.mac 6) (tagId h.skb tag) flags)
    else
      let smac := h.skb.mac 6
      let h := { h with skb := addHostUniq pppoe tag h.skb }
      (true, h.learnId env jiffies smac (crc16 0 (List.ofFn smac)) flags)

/-- `do_pppoes_out`. -/
def doPppoesOut (env : Env) (jiffies vlan : Nat) (h : Hook) : Bool × Hook :=
  let pppoe := NETWORK_HEADER + vlan
  let sid := h.skb.u16 (pppoe + 2)
  if sid ≠ 0 then
    let flag :=
      if h.skb.u16 (pppoe + 6) = PPP_LCP ∧ h.skb.mem (pppoe + 8) = PPP_LCP_TERM then PPPOE_REMOVE
      else 0
    (true, h.learnId env jiffies (h.skb.mac 6) sid flag)
  else (true, h)

/-! ## The hooks -/

/-- The `switch` of `do_in`. -/
def switchIn (env : Env) (jiffies : Nat) (h : Hook) : Option (Bool × Hook) :=
  let (proto, vlan) := etherProto h.skb
  if proto = ETH_P_ARP then doArpIn env jiffies vlan h
  else if proto = ETH_P_IP then some (doIpIn env jiffies vlan h)
  else if proto = ETH_P_PPP_DISC ∧ env.pppoenat ≠ 0 then some (doPppoedIn env jiffies vlan h)
  else if proto = ETH_P_PPP_SES ∧ env.pppoenat ≠ 0 then some (doPppoesIn env jiffies vlan h)
  else some (true, h)

/-- `do_in`. -/
def doIn (env : Env) (jiffies : Nat) (h : Hook) : Option Hook :=
  (switchIn env jiffies h).map fun (nat, h) =>
    if nat && h.unicast then h.setDest env.brAddr else h

/-- The `switch` of `do_out`. -/
def switchOut (env : Env) (jiffies : Nat) (h : Hook) : Option (Bool × Hook) :=
  let (proto, vlan) := etherProto h.skb
  if proto = ETH_P_ARP then doArpOut env jiffies vlan h
  else if proto = ETH_P_IP then
    let (nat, h) := doIpOut env jiffies vlan h
    some (if env.bootpnat ≠ 0 then doBootpOut env vlan h else (nat, h))
  else if proto = ETH_P_PPP_SES ∧ env.pppoenat ≠ 0 then some (doPppoesOut env jiffies vlan h)
  else if proto = ETH_P_PPP_DISC ∧ env.pppoenat ≠ 0 then some (doPppoedOut env jiffies vlan h)
  else some (true, h)

/-- `do_out`. -/
def doOut (env : Env) (jiffies : Nat) (h : Hook) : Option Hook :=
  (switchOut env jiffies h).map fun (nat, h) => if nat then h.setSource env.devAddr else h

end UbntSdk.Arpnat
