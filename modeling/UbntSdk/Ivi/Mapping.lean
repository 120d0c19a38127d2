/-
UbntSdk.Ivi.Mapping — a packet from one protocol to the other
(`target/linux/ubnt/files/net/ipv4/mapping.c`, `net/ipv6/mapping.c`, and the
lengths in the two `proto_trans.c`).

A packet is the bytes from the network header on; `ip_mapping` moves
`skb->data` behind the header and puts it back at the end. The new packet is
made in a buffer from `alloc_skb`, whose contents are a parameter: `fresh`
gives each byte what was there. The result is what `netif_rx` is given, `none`
when some access leaves its buffer or a length falls below 0.
-/
import UbntSdk.Ivi.Payload

namespace UbntSdk.Ivi

open UbntSdk.Lib

/-- A buffer of `n` bytes from `alloc_skb`. -/
def allocSkb (fresh : Nat → UInt8) (n : Nat) : List UInt8 := (List.range n).map fresh

/-! ## From IPv4 to IPv6 -/

/-- `get_new_pktlen4to6`, for the packet and what is behind its header. -/
def getNewPktlen4to6 (pkt data : List UInt8) : Option Nat := do
  let protocol ← pkt[9]?
  if protocol ≠ IPPROTO_ICMP then return data.length
  else do
    let fragOff ← load16? .big pkt 6
    if fragOff &&& 0x1FFF ≠ 0 then return data.length
    else do
      let type ← data[0]?
      if type = ICMP_ECHO ∨ type = ICMP_ECHOREPLY then return data.length
      else do
        let headerInPkt ← getNewHeaderlen4to6 (data.drop ICMP_HEADER_LEN)
        return data.length + headerInPkt - IP_HEADER_LEN

/-- `data_trans4to6`. -/
def dataTrans4to6 (e : ByteOrder) (new old saddr daddr : List UInt8) (srcPrefix dstPrefix : UInt32)
    (nexthdr : UInt8) : Option (List UInt8) :=
  if nexthdr = IPPROTO_ICMPV6 then
    (icmp4to6Trans e srcPrefix dstPrefix (old.length + 1) new old saddr daddr).map (·.2.1)
  else if nexthdr = IPPROTO_TCP then (tcp4to6Trans new old saddr daddr).map (·.2)
  else if nexthdr = IPPROTO_UDP then (udp4to6Trans new old saddr daddr).map (·.2)
  else
    let oldLen := if new.length < old.length then new.length else old.length
    poke? new 0 (old.take oldLen)

/-- `ip_mapping`. -/
def ipMapping (e : ByteOrder) (fresh : Nat → UInt8) (pkt : List UInt8)
    (srcPrefix dstPrefix : UInt32) : Option (List UInt8) := do
  let data ← suffix? pkt IP_HEADER_LEN
  let newheaderlen ← getNewHeaderlen4to6 pkt
  let newpktlen ← getNewPktlen4to6 pkt data
  let new := allocSkb fresh (newpktlen + newheaderlen)
  let (nexthdr, new) ← iphdr4to6Trans e new pkt srcPrefix dstPrefix
    ((newpktlen : Int) - data.length + newheaderlen - IPV6_HEADER_LEN) (newheaderlen - IPV6_HEADER_LEN)
  let fragOff ← load16? .big pkt 6
  if fragOff &&& 0x1FFF ≠ 0 then poke? new newheaderlen data
  else do
    let saddr ← peek? new 8 16
    let daddr ← peek? new 24 16
    let payload ← suffix? new newheaderlen
    let payload ← dataTrans4to6 e payload data saddr daddr srcPrefix dstPrefix nexthdr
    return new.take newheaderlen ++ payload

/-! ## From IPv6 to IPv4 -/

/-- `get_new_pktlen6to4`, for the packet and what is behind its headers. -/
def getNewPktlen6to4 (pkt data : List UInt8) : Option Nat := do
  let first ← pkt[6]?
  let (nexthdr, offset) ←
    if first = NEXTHDR_FRAGMENT then do
      let nexthdr ← pkt[IPV6_HEADER_LEN]?
      let fragOff ← load16? .big pkt (IPV6_HEADER_LEN + 2)
      pure (nexthdr, fragOff &&& 0x1FFF)
    else pure (first, 0)
  if nexthdr ≠ IPPROTO_ICMPV6 then return data.length
  else if offset ≠ 0 then return data.length
  else do
    let type ← data[0]?
    if type = ICMPV6_ECHO_REQUEST ∨ type = ICMPV6_ECHO_REPLY then return data.length
    else do
      let quoted ← data[ICMP_HEADER_LEN + 6]?
      if quoted = NEXTHDR_FRAGMENT then sub? data.length 28 else sub? data.length 20

/-- `data_trans6to4`. -/
def dataTrans6to4 (e : ByteOrder) (new old saddr daddr : List UInt8) (protocol : UInt8) :
    Option (List UInt8) :=
  if protocol = IPPROTO_ICMP then (icmp6to4Trans e (old.length + 1) new old).map (·.2.1)
  else if protocol = IPPROTO_TCP then (tcp6to4Trans new old saddr daddr).map (·.2)
  else if protocol = IPPROTO_UDP then (udp6to4Trans new old saddr daddr).map (·.2)
  else
    let oldLen := if new.length < old.length then new.length else old.length
    poke? new 0 (old.take oldLen)

/-- A fragment that is not the first one. -/
def laterFragment6 (pkt : List UInt8) (nexthdr : UInt8) : Option Bool :=
  if nexthdr = NEXTHDR_FRAGMENT then do
    let fragOff ← load16? .big pkt (IPV6_HEADER_LEN + 2)
    return fragOff &&& 0x1FFF ≠ 0
  else return false

/-- `ip6_mapping`. -/
def ip6Mapping (e : ByteOrder) (fresh : Nat → UInt8) (pkt : List UInt8) : Option (List UInt8) := do
  let nexthdr ← pkt[6]?
  let oldheaderlen := if nexthdr = NEXTHDR_FRAGMENT then IPV6_HEADER_LEN + 8 else IPV6_HEADER_LEN
  let data ← suffix? pkt oldheaderlen
  let newpktlen ← getNewPktlen6to4 pkt data
  let new := allocSkb fresh (newpktlen + IP_HEADER_LEN)
  let (protocol, new) ← iphdr6to4Trans e new pkt
    ((newpktlen : Int) - data.length + IPV6_HEADER_LEN - oldheaderlen)
  let later ← laterFragment6 pkt nexthdr
  if later then poke? new IP_HEADER_LEN data
  else do
    let saddr ← peek? new 12 4
    let daddr ← peek? new 16 4
    let payload ← suffix? new IP_HEADER_LEN
    let payload ← dataTrans6to4 e payload data saddr daddr protocol
    return new.take IP_HEADER_LEN ++ payload

end UbntSdk.Ivi
