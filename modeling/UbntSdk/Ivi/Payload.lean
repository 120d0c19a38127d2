/-
UbntSdk.Ivi.Payload — what is behind the headers
(`target/linux/ubnt/files/net/ipv4/proto_trans.c`, `net/ipv6/proto_trans.c`):
TCP, UDP and ICMP with the packets that ICMP errors quote.

`new` and `new_len`, `old` and `old_len` are one list each. A pointer moved
on, with the length cut by as much, is `suffix?`, and a length that would
fall below 0 is `none`. The functions for ICMP change the old packet too, so
they return it; their first result says that the C function returned 0.

The recursion on quoted ICMP is bounded by a number that the callers choose
above the length of the packet: a quote is shorter by a header.
-/
import UbntSdk.Ivi.Header

namespace UbntSdk.Ivi

open UbntSdk.Lib

/-! ## Constants -/

def NO_PROTO : UInt8 := 0

def ICMP_HEADER_LEN : Nat := 8
def TCP_HEADER_LEN : Nat := 20
def UDP_HEADER_LEN : Nat := 8
def IP_ICMP_LEN : Nat := 28
def IP6_ICMP_LEN : Nat := 48

def ICMP_ECHOREPLY : UInt8 := 0
def ICMP_DEST_UNREACH : UInt8 := 3
def ICMP_ECHO : UInt8 := 8
def ICMP_TIME_EXCEEDED : UInt8 := 11
def ICMP_FRAG_NEEDED : UInt8 := 4

def ICMPV6_DEST_UNREACH : UInt8 := 1
def ICMPV6_PKT_TOOBIG : UInt8 := 2
def ICMPV6_TIME_EXCEED : UInt8 := 3
def ICMPV6_ECHO_REQUEST : UInt8 := 128
def ICMPV6_ECHO_REPLY : UInt8 := 129

/-! ## Lengths and checksums -/

/-- `a - b` on lengths. -/
def sub? (a b : Nat) : Option Nat := if b ≤ a then some (a - b) else none

/-- A pointer moved on by `n`. -/
def suffix? (m : List UInt8) (n : Nat) : Option (List UInt8) :=
  if n ≤ m.length then some (m.drop n) else none

/-- `csum_ipv6_magic`. -/
def csumIpv6Magic (saddr daddr : List UInt8) (len : Nat) (proto : UInt8) (sum : Nat) : UInt16 :=
  checksum (sum16 saddr + sum16 daddr + len + proto.toNat + sum)

/-- `csum_tcpudp_magic`: the length is a half word. -/
def csumTcpudpMagic (saddr daddr : List UInt8) (len : Nat) (proto : UInt8) (sum : Nat) : UInt16 :=
  checksum (sum16 saddr + sum16 daddr + len % 2 ^ 16 + proto.toNat + sum)

/-! ## TCP and UDP -/

/-- A packet with the checksum field `check` is copied as far as there is
room, and the checksum of the new packet is filled in. -/
def transportTrans (headerLen check : Nat) (magic : Nat → Nat → UInt16) (new old : List UInt8) :
    Option (Bool × List UInt8) :=
  if headerLen ≤ old.length then do
    let oldLen := if new.length < old.length then new.length else old.length
    let new ← poke? new 0 (old.take oldLen)
    let new ← poke? new check [0, 0]
    let new ← store16? .big new check (magic new.length (sum16 new))
    return (true, new)
  else return (false, new)

/-- `tcp4to6_trans`. -/
def tcp4to6Trans (new old saddr daddr : List UInt8) : Option (Bool × List UInt8) :=
  transportTrans TCP_HEADER_LEN 16 (csumIpv6Magic saddr daddr · IPPROTO_TCP ·) new old

/-- `udp4to6_trans`. -/
def udp4to6Trans (new old saddr daddr : List UInt8) : Option (Bool × List UInt8) :=
  transportTrans UDP_HEADER_LEN 6 (csumIpv6Magic saddr daddr · IPPROTO_UDP ·) new old

/-- `tcp6to4_trans`. -/
def tcp6to4Trans (new old saddr daddr : List UInt8) : Option (Bool × List UInt8) :=
  transportTrans TCP_HEADER_LEN 16 (csumTcpudpMagic saddr daddr · IPPROTO_TCP ·) new old

/-- `udp6to4_trans`. -/
def udp6to4Trans (new old saddr daddr : List UInt8) : Option (Bool × List UInt8) :=
  transportTrans UDP_HEADER_LEN 6 (csumTcpudpMagic saddr daddr · IPPROTO_UDP ·) new old

/-! ## ICMP -/

/-- The local variables of the ICMP functions: the buffers, the protocol of
the quoted packet, and how far the two packets are done. -/
structure Progress where
  new : List UInt8
  old : List UInt8
  newproto : UInt8
  readyLen : Nat
  passLen : Nat

/-- The header of a quoted packet, when there is one. -/
def quote4to6 (e : ByteOrder) (srcPrefix dstPrefix : UInt32) (new old : List UInt8) :
    Option Progress :=
  if IP_ICMP_LEN ≤ old.length then do
    let oldIn ← suffix? old ICMP_HEADER_LEN
    let newIn ← suffix? new ICMP_HEADER_LEN
    let headerInPkt ← getNewHeaderlen4to6 oldIn
    let (newproto, newIn) ← iphdr4to6Trans e newIn oldIn srcPrefix dstPrefix
      (headerInPkt - IPV6_HEADER_LEN) (headerInPkt - IPV6_HEADER_LEN)
    return ⟨new.take ICMP_HEADER_LEN ++ newIn, old, newproto, 8 + headerInPkt, IP_ICMP_LEN⟩
  else return ⟨new, old, NO_PROTO, ICMP_HEADER_LEN, ICMP_HEADER_LEN⟩

/-- `ICMP_DEST_UNREACH`: the type depends on the code. "Fragmentation needed"
looks at the quoted header before its length was, and without `ntohs`. -/
def unreach4to6 (e : ByteOrder) (new old : List UInt8) : Option (List UInt8 × List UInt8) := do
  let code ← old[1]?
  if code ≠ ICMP_FRAG_NEEDED then do
    let new ← poke? new 0 [ICMPV6_DEST_UNREACH]
    let old ← if code = 3 then poke? old 1 [4] else some old
    return (new, old)
  else do
    let new ← poke? new 0 [ICMPV6_PKT_TOOBIG]
    let fragOff ← load16? e old (ICMP_HEADER_LEN + 6)
    let mtu ← load16? e old 6
    let more := if fragOff &&& 0x4000 = 0 ∨ fragOff &&& 0x2000 ≠ 0 then 28 else 20
    let old ← poke? old 4 (be32 (be32ToCpu e mtu.toUInt32 + more))
    return (new, old)

/-- The first `switch` of `icmp4to6_trans`. -/
def head4to6 (e : ByteOrder) (srcPrefix dstPrefix : UInt32) (type : UInt8) (new old : List UInt8) :
    Option Progress :=
  if type = ICMP_ECHOREPLY then do
    let new ← poke? new 0 [ICMPV6_ECHO_REPLY]
    return ⟨new, old, NO_PROTO, ICMP_HEADER_LEN, ICMP_HEADER_LEN⟩
  else if type = ICMP_ECHO then do
    let new ← poke? new 0 [ICMPV6_ECHO_REQUEST]
    return ⟨new, old, NO_PROTO, ICMP_HEADER_LEN, ICMP_HEADER_LEN⟩
  else if type = ICMP_DEST_UNREACH then do
    let (new, old) ← unreach4to6 e new old
    quote4to6 e srcPrefix dstPrefix new old
  else if type = ICMP_TIME_EXCEEDED then do
    let new ← poke? new 0 [ICMPV6_TIME_EXCEED]
    quote4to6 e srcPrefix dstPrefix new old
  else return ⟨new, old, NO_PROTO, 0, 0⟩

/-- The end of both ICMP functions: the rest is copied as far as there is
room, and the checksum is filled in. -/
def finish (magic : Nat → Nat → UInt16) (p : Progress) :
    Option (Bool × List UInt8 × List UInt8) := do
  let left ← sub? p.old.length p.passLen
  let oldLen ←
    if p.new.length < left + p.readyLen then sub? (p.new.length + p.passLen) p.readyLen
    else some p.old.length
  let n ← sub? oldLen p.passLen
  let rest ← peek? p.old p.passLen n
  let new ← poke? p.new p.readyLen rest
  let new ← poke? new 2 [0, 0]
  let new ← store16? .big new 2 (magic new.length (sum16 new))
  return (true, new, p.old)

/-- The code and the word behind the checksum are taken from the old header. -/
def Progress.fill (p : Progress) : Option Progress := do
  let code ← p.old[1]?
  let new ← poke? p.new 1 [code]
  let gateway ← peek? p.old 4 4
  let new ← poke? new 4 gateway
  return { p with new }

/-- A quoted transport header is translated in place. -/
def Progress.transport (p : Progress) (headerLen : Nat)
    (trans : List UInt8 → List UInt8 → Option (Bool × List UInt8)) : Option Progress := do
  let newIn ← suffix? p.new p.readyLen
  let oldIn ← suffix? p.old p.passLen
  let (ok, newIn) ← trans newIn oldIn
  let new := p.new.take p.readyLen ++ newIn
  if ok then
    return { p with new, readyLen := p.readyLen + headerLen, passLen := p.passLen + headerLen }
  else return { p with new }

/-- A quoted ICMP packet is translated in place. -/
def Progress.icmp (p : Progress)
    (trans : List UInt8 → List UInt8 → Option (Bool × List UInt8 × List UInt8)) :
    Option Progress := do
  let newIn ← suffix? p.new p.readyLen
  let oldIn ← suffix? p.old p.passLen
  let (ok, newIn, oldIn) ← trans newIn oldIn
  let new := p.new.take p.readyLen ++ newIn
  let old := p.old.take p.passLen ++ oldIn
  if ok then
    return { p with
      new, old
      readyLen := p.readyLen + ICMP_HEADER_LEN
      passLen := p.passLen + ICMP_HEADER_LEN }
  else return { p with new, old }

/-- The second `switch` of `icmp4to6_trans`: what is in the quoted packet;
`icmp` is the function itself. The addresses are those of the new quote. -/
def inner4to6
    (icmp : List UInt8 → List UInt8 → List UInt8 → List UInt8 →
      Option (Bool × List UInt8 × List UInt8)) (p : Progress) : Option Progress :=
  if p.newproto = IPPROTO_ICMPV6 then do
    let src ← peek? p.new 16 16
    let dst ← peek? p.new 32 16
    p.icmp fun newIn oldIn => icmp newIn oldIn src dst
  else if p.newproto = IPPROTO_TCP then do
    let src ← peek? p.new 16 16
    let dst ← peek? p.new 32 16
    p.transport TCP_HEADER_LEN fun newIn oldIn => tcp4to6Trans newIn oldIn src dst
  else if p.newproto = IPPROTO_UDP then do
    let src ← peek? p.new 16 16
    let dst ← peek? p.new 32 16
    p.transport UDP_HEADER_LEN fun newIn oldIn => udp4to6Trans newIn oldIn src dst
  else some p

/-- `icmp4to6_trans`. -/
def icmp4to6Trans (e : ByteOrder) (srcPrefix dstPrefix : UInt32) :
    Nat → List UInt8 → List UInt8 → List UInt8 → List UInt8 →
      Option (Bool × List UInt8 × List UInt8)
  | 0, _, _, _, _ => none
  | depth + 1, new, old, src6, dst6 =>
      if old.length < ICMP_HEADER_LEN then some (false, new, old)
      else do
        let type ← old[0]?
        let p ← head4to6 e srcPrefix dstPrefix type new old
        let p ← p.fill
        let p ← inner4to6 (icmp4to6Trans e srcPrefix dstPrefix depth) p
        finish (csumIpv6Magic src6 dst6 · IPPROTO_ICMPV6 ·) p

/-! ## ICMPv6 -/

/-- The header of a quoted packet, when there is one; `adjust` is what the
type does to the old header, given the length it loses. -/
def quote6to4 (e : ByteOrder) (adjust : UInt32 → List UInt8 → Option (List UInt8))
    (new old : List UInt8) : Option Progress :=
  if IP6_ICMP_LEN ≤ old.length then do
    let oldIn ← suffix? old ICMP_HEADER_LEN
    let newIn ← suffix? new ICMP_HEADER_LEN
    let nexthdr ← oldIn[6]?
    if nexthdr = NEXTHDR_FRAGMENT then do
      let (newproto, newIn) ← iphdr6to4Trans e newIn oldIn (-8)
      let old ← adjust 28 old
      return ⟨new.take ICMP_HEADER_LEN ++ newIn, old, newproto, IP_ICMP_LEN, IP6_ICMP_LEN + 8⟩
    else do
      let old ← adjust 20 old
      let (newproto, newIn) ← iphdr6to4Trans e newIn oldIn 0
      return ⟨new.take ICMP_HEADER_LEN ++ newIn, old, newproto, IP_ICMP_LEN, IP6_ICMP_LEN⟩
  else return ⟨new, old, NO_PROTO, ICMP_HEADER_LEN, ICMP_HEADER_LEN⟩

/-- The MTU of "packet too big". -/
def adjustMtu (less : UInt32) (old : List UInt8) : Option (List UInt8) := do
  let mtu ← load32? .big old 4
  store32? .big old 4 (mtu - less)

/-- The first `switch` of `icmp6to4_trans`. -/
def head6to4 (e : ByteOrder) (type : UInt8) (new old : List UInt8) : Option Progress :=
  if type = ICMPV6_ECHO_REPLY then do
    let new ← poke? new 0 [ICMP_ECHOREPLY]
    return ⟨new, old, NO_PROTO, ICMP_HEADER_LEN, ICMP_HEADER_LEN⟩
  else if type = ICMPV6_ECHO_REQUEST then do
    let new ← poke? new 0 [ICMP_ECHO]
    return ⟨new, old, NO_PROTO, ICMP_HEADER_LEN, ICMP_HEADER_LEN⟩
  else if type = ICMPV6_DEST_UNREACH then do
    let new ← poke? new 0 [ICMP_DEST_UNREACH]
    let code ← old[1]?
    let old ← if code = 4 then poke? old 1 [3] else some old
    quote6to4 e (fun _ old => some old) new old
  else if type = ICMPV6_TIME_EXCEED then do
    let new ← poke? new 0 [ICMP_TIME_EXCEEDED]
    quote6to4 e (fun _ old => some old) new old
  else if type = ICMPV6_PKT_TOOBIG then do
    let new ← poke? new 0 [ICMP_DEST_UNREACH]
    let old ← poke? old 1 [ICMP_FRAG_NEEDED]
    quote6to4 e adjustMtu new old
  else return ⟨new, old, NO_PROTO, 0, 0⟩

/-- The second `switch` of `icmp6to4_trans`. -/
def inner6to4 (icmp : List UInt8 → List UInt8 → Option (Bool × List UInt8 × List UInt8))
    (p : Progress) : Option Progress :=
  if p.newproto = IPPROTO_ICMP then p.icmp icmp
  else if p.newproto = IPPROTO_TCP then do
    let src ← peek? p.new 20 4
    let dst ← peek? p.new 24 4
    p.transport TCP_HEADER_LEN fun newIn oldIn => tcp6to4Trans newIn oldIn src dst
  else if p.newproto = IPPROTO_UDP then do
    let src ← peek? p.new 20 4
    let dst ← peek? p.new 24 4
    p.transport UDP_HEADER_LEN fun newIn oldIn => udp6to4Trans newIn oldIn src dst
  else some p

/-- `icmp6to4_trans`. -/
def icmp6to4Trans (e : ByteOrder) :
    Nat → List UInt8 → List UInt8 → Option (Bool × List UInt8 × List UInt8)
  | 0, _, _ => none
  | depth + 1, new, old =>
      if old.length < ICMP_HEADER_LEN then some (false, new, old)
      else do
        let type ← old[0]?
        let p ← head6to4 e type new old
        let p ← p.fill
        let p ← inner6to4 (icmp6to4Trans e depth) p
        finish (fun _ sum => checksum sum) p

end UbntSdk.Ivi
