/-
UbntSdk.Ivi.Header — the headers of the stateless IPv4/IPv6 translator
(`target/linux/ubnt/files/net/ipv4/proto_trans.c`, `net/ipv6/proto_trans.c`,
`include/linux/mapping_config.h`): the mapping of the addresses and the two
directions of the header translation.

A pointer with a length is a list of bytes, from where it points to the end
of the packet. Every read and write goes through `peek?` and `poke?`, so a
function is `none` exactly when one of them leaves its buffer. `ntohs` of a
field is the big-endian half word; a field that is read or written as it is
goes through the order of the host.

`MAPPING_ICMP`, `MAPPING_TCP`, `MAPPING_UDP` and `MAPPING_EXT_HEADER` are
defined, `MAPPING_FRAGMENTATION` and `MAPPING_ADDRESS_CHECKSUM` are not.
-/
import UbntSdk.Lib.Checksum

namespace UbntSdk.Ivi

open UbntSdk.Lib

/-! ## Constants -/

def IP_HEADER_LEN : Nat := 20
def IPV6_HEADER_LEN : Nat := 40

def IPPROTO_ICMP : UInt8 := 1
def IPPROTO_TCP : UInt8 := 6
def IPPROTO_UDP : UInt8 := 17
def IPPROTO_ICMPV6 : UInt8 := 58
def NEXTHDR_FRAGMENT : UInt8 := 44

/-! ## Addresses -/

/-- `mapping_address4to6`: the sixteen bytes of the new address. -/
def mappingAddress4to6 (e : ByteOrder) (oldv4 bbprefix fragmentation : UInt32) : List UInt8 :=
  match e with
  | .big => word32 e oldv4 ++ word32 e fragmentation ++ word32 e oldv4 ++ word32 e bbprefix
  | .little => word32 e bbprefix ++ [0xFF] ++ word32 e oldv4 ++ List.replicate 7 0

/-- `htonl((10 << 24) + 4538)`, as the host stores it. -/
def NO_ADDRESS : List UInt8 := be32 (((10 : UInt32) <<< 24) + 4538)

/-- `mapping_address6to4`: the four bytes of the new address. -/
def mappingAddress6to4 (e : ByteOrder) (oldv6 : List UInt8) : Option (List UInt8) :=
  match e with
  | .little => do
      let mark ← oldv6[4]?
      if mark ≠ 0xFF then return NO_ADDRESS else peek? oldv6 5 4
  | .big => peek? oldv6 0 4

/-! ## From IPv4 to IPv6 -/

/-- `get_new_headerlen4to6`. -/
def getNewHeaderlen4to6 (old : List UInt8) : Option Nat := do
  let fragOff ← load16? .big old 6
  if fragOff &&& 0x4000 = 0 then return IPV6_HEADER_LEN + 8
  else if fragOff &&& 0x2000 ≠ 0 then return IPV6_HEADER_LEN + 8
  else return IPV6_HEADER_LEN

/-- The protocol number of ICMP is another one in IPv6. -/
def nexthdrOf (protocol : UInt8) : UInt8 :=
  if protocol = IPPROTO_ICMP then IPPROTO_ICMPV6 else protocol

/-- The extension header of `iphdr4to6_trans`: its `reserved` byte is not
written, and the fragment field is that of IPv4. -/
def fragHdr4to6Trans (e : ByteOrder) (new old : List UInt8) (nexthdr : UInt8) :
    Option (List UInt8) := do
  let new ← poke? new IPV6_HEADER_LEN [nexthdr]
  let new ← poke? new 6 [NEXTHDR_FRAGMENT]
  let id ← load16? e old 4
  let new ← store32? e new (IPV6_HEADER_LEN + 4) id.toUInt32
  let fragOff ← peek? old 6 2
  poke? new (IPV6_HEADER_LEN + 2) fragOff

/-- `iphdr4to6_trans`: the protocol behind the headers, and the new packet. -/
def iphdr4to6Trans (e : ByteOrder) (new old : List UInt8) (srcPrefix dstPrefix : UInt32)
    (supplement : Int) (fragment : Nat) : Option (UInt8 × List UInt8) := do
  let new ← poke? new 0 (be32 0x60000000)
  let protocol ← old[9]?
  let nexthdr := nexthdrOf protocol
  let new ← poke? new 6 [nexthdr]
  let ttl ← old[8]?
  let new ← poke? new 7 [ttl]
  let totLen ← load16? .big old 2
  let new ← store16? .big new 4 (UInt16.ofInt (totLen.toNat - IP_HEADER_LEN + supplement))
  let saddr ← load32? e old 12
  let new ← poke? new 8 (mappingAddress4to6 e saddr srcPrefix 0)
  let daddr ← load32? e old 16
  let new ← poke? new 24 (mappingAddress4to6 e daddr dstPrefix 0)
  if fragment ≠ 0 then
    let new ← fragHdr4to6Trans e new old nexthdr
    return (nexthdr, new)
  else return (nexthdr, new)

/-! ## From IPv6 to IPv4 -/

/-- The protocol number of ICMPv6 is another one in IPv4. -/
def protocolOf (nexthdr : UInt8) : UInt8 :=
  if nexthdr = IPPROTO_ICMPV6 then IPPROTO_ICMP else nexthdr

/-- The fragment part of `iphdr6to4_trans`: the protocol, and the new packet.
A packet without an extension header is marked DF. -/
def fragHdr6to4Trans (e : ByteOrder) (new old : List UInt8) (nexthdr : UInt8) :
    Option (UInt8 × List UInt8) :=
  if nexthdr = NEXTHDR_FRAGMENT then do
    let protocol ← old[IPV6_HEADER_LEN]?
    let fragOff ← peek? old (IPV6_HEADER_LEN + 2) 2
    let new ← poke? new 6 fragOff
    let id ← load32? e old (IPV6_HEADER_LEN + 4)
    let new ← store16? e new 4 id.toUInt16
    return (protocol, new)
  else do
    let new ← store16? .big new 6 0x4000
    return (nexthdr, new)

/-- `iphdr6to4_trans`: the protocol, and the new packet. -/
def iphdr6to4Trans (e : ByteOrder) (new old : List UInt8) (supplement : Int) :
    Option (UInt8 × List UInt8) := do
  -- version and ihl are the two halves of the first byte
  let new ← poke? new 0 [0x45]
  let new ← poke? new 1 [0]
  let new ← poke? new 6 [0, 0]
  let new ← poke? new 4 [0, 0]
  let nexthdr ← old[6]?
  let (protocol, new) ← fragHdr6to4Trans e new old nexthdr
  let protocol := protocolOf protocol
  let new ← poke? new 9 [protocol]
  let hopLimit ← old[7]?
  let new ← poke? new 8 [hopLimit]
  let new ← poke? new 10 [0, 0]
  let payloadLen ← load16? .big old 4
  let new ← store16? .big new 2 (UInt16.ofInt (payloadLen.toNat + IP_HEADER_LEN + supplement))
  let saddr ← mappingAddress6to4 e (← peek? old 8 16)
  let new ← poke? new 12 saddr
  let daddr ← mappingAddress6to4 e (← peek? old 24 16)
  let new ← poke? new 16 daddr
  -- ip_fast_csum over the five words of the header
  let header ← peek? new 0 IP_HEADER_LEN
  let new ← store16? .big new 10 (checksum (sum16 header))
  return (protocol, new)

end UbntSdk.Ivi
