/-
UbntSdk.Ivi.Skb — `ip_mapping` and `ip6_mapping` on the socket buffer of the
packet, with the calls that can fail
(`target/linux/ubnt/files/net/ipv4/mapping.c`, `net/ipv6/mapping.c`).

Both functions move `skb->data` behind the headers and put it back at the
end; what is between is `UbntSdk.Ivi.Mapping`. Here the buffer of the packet
is part of the state, and each allocation and each `skb_put` may fail. A
failed `skb_put` returns `NULL` and leaves the new packet as it was. The
network header is at `skb->data` when the functions are called, and a packet
from `alloc_skb` has no fragments (`nr_frags` is 0, which `copy_skb_info`
keeps).

`ipMappingSkb_handed` and `ip6MappingSkb_handed`: when nothing fails, the
packet that the stack is given is that of `ipMapping` and `ip6Mapping`.
-/
import UbntSdk.Ivi.Datagram

namespace UbntSdk.Ivi

open UbntSdk.Lib

/-! ## Socket buffers -/

/-- A `struct sk_buff`: its buffer, and the part of it that is the packet. -/
structure Skb where
  buffer : List UInt8
  data : Nat
  len : Nat
  fits : data + len ≤ buffer.length

namespace Skb

/-- The packet. -/
def bytes (skb : Skb) : List UInt8 := (skb.buffer.drop skb.data).take skb.len

/-- `skb->data += n; skb->len -= n`. -/
def pull (skb : Skb) (n : Nat) : Option Skb :=
  if h : n ≤ skb.len then
    some { skb with data := skb.data + n, len := skb.len - n, fits := by have := skb.fits; omega }
  else none

/-- `skb->data -= n; skb->len += n`. -/
def push (skb : Skb) (n : Nat) : Option Skb :=
  if h : n ≤ skb.data then
    some { skb with data := skb.data - n, len := skb.len + n, fits := by have := skb.fits; omega }
  else none

/-- The packet is changed in place. -/
def replace (skb : Skb) (bs : List UInt8) : Option Skb :=
  if h : bs.length = skb.len then
    some { skb with
      buffer := skb.buffer.take skb.data ++ (bs ++ skb.buffer.drop (skb.data + skb.len))
      fits := by
        have := skb.fits
        simp only [List.length_append, List.length_take, List.length_drop]
        omega }
  else none

@[simp] theorem bytes_length (skb : Skb) : skb.bytes.length = skb.len := by
  have := skb.fits
  simp only [bytes, List.length_take, List.length_drop]
  omega

/-- Pulling takes the first bytes off. -/
theorem pull_eq {skb moved : Skb} {n : Nat} (h : skb.pull n = some moved) :
    n ≤ skb.len ∧ moved.buffer = skb.buffer ∧ moved.data = skb.data + n ∧
      moved.len + n = skb.len ∧ suffix? skb.bytes n = some moved.bytes := by
  unfold pull at h
  split at h
  · rename_i hn
    obtain rfl := Option.some.inj h
    refine ⟨hn, rfl, rfl, Nat.sub_add_cancel hn, ?_⟩
    rw [suffix?_eq (by simpa using hn), bytes, List.drop_take, List.drop_drop]
    rfl
  · cases h

theorem pull_none {skb : Skb} {n : Nat} (h : skb.pull n = none) : suffix? skb.bytes n = none := by
  unfold pull at h
  split at h
  · cases h
  · rename_i hn
    exact if_neg (by simpa using hn)

/-- The part that was pulled can be put back, whatever the packet holds now. -/
theorem exists_push {skb moved : Skb} {n : Nat} (h : skb.pull n = some moved) {bs : List UInt8}
    (hbs : bs.length = moved.len) : ∃ changed back, moved.replace bs = some changed ∧
      changed.push n = some back ∧ back.data = skb.data ∧ back.len = skb.len := by
  obtain ⟨-, -, hdata, hlen, -⟩ := pull_eq h
  have hpush : n ≤ moved.data := by omega
  exact ⟨_, _, dif_pos hbs, dif_pos hpush, by simp [hdata], hlen⟩

end Skb

/-! ## The functions -/

/-- The calls that fail. -/
structure Failures where
  alloc : Bool
  ether : Bool
  header : Bool
  payload : Bool
  deriving DecidableEq

def Failures.none : Failures := ⟨false, false, false, false⟩

/-- What the caller sees: the return value, the packet, and what `netif_rx`
was given. -/
structure Mapped where
  ret : Nat
  skb : Skb
  handed : List (List UInt8)

/-- `data_trans4to6`, which changes the old packet too. -/
def dataTransOld4to6 (e : ByteOrder) (new old saddr daddr : List UInt8)
    (srcPrefix dstPrefix : UInt32) (nexthdr : UInt8) : Option (List UInt8 × List UInt8) :=
  if nexthdr = IPPROTO_ICMPV6 then
    (icmp4to6Trans e srcPrefix dstPrefix (old.length + 1) new old saddr daddr).map (·.2)
  else (dataTrans4to6 e new old saddr daddr srcPrefix dstPrefix nexthdr).map (·, old)

/-- The end of `ip_mapping`: the payload behind the new header, and what is
left of the old one. A fragment that is not the first is copied. -/
def fill4to6 (e : ByteOrder) (new pkt data : List UInt8) (srcPrefix dstPrefix : UInt32)
    (newheaderlen : Nat) (nexthdr : UInt8) : Option (List UInt8 × List UInt8) := do
  let fragOff ← load16? .big pkt 6
  if fragOff &&& 0x1FFF ≠ 0 then (poke? new newheaderlen data).map (·, data)
  else do
    let saddr ← peek? new 8 16
    let daddr ← peek? new 24 16
    let payload ← suffix? new newheaderlen
    let (payload, data) ← dataTransOld4to6 e payload data saddr daddr srcPrefix dstPrefix nexthdr
    return (new.take newheaderlen ++ payload, data)

/-- `ip_mapping`. The first two `skb_put` are not looked at: they only make
the new packet shorter. -/
def ipMappingSkb (e : ByteOrder) (fresh : Nat → UInt8) (fails : Failures) (skb : Skb)
    (srcPrefix dstPrefix : UInt32) : Option Mapped := do
  let pkt := skb.bytes
  let moved ← skb.pull IP_HEADER_LEN
  let data := moved.bytes
  let newheaderlen ← getNewHeaderlen4to6 pkt
  let newpktlen ← getNewPktlen4to6 pkt data
  if fails.alloc then return ⟨0, moved, []⟩
  else do
    let new := allocSkb fresh (newpktlen + newheaderlen)
    let (nexthdr, new) ← iphdr4to6Trans e new pkt srcPrefix dstPrefix
      ((newpktlen : Int) - data.length + newheaderlen - IPV6_HEADER_LEN)
      (newheaderlen - IPV6_HEADER_LEN)
    if fails.payload then return ⟨0, moved, []⟩
    else do
      let (new, data) ← fill4to6 e new pkt data srcPrefix dstPrefix newheaderlen nexthdr
      let changed ← moved.replace data
      let back ← changed.push IP_HEADER_LEN
      return ⟨1, back, [new.take ((if fails.header then 0 else newheaderlen) + newpktlen)]⟩

/-- `data_trans6to4`, which changes the old packet too. -/
def dataTransOld6to4 (e : ByteOrder) (new old saddr daddr : List UInt8) (protocol : UInt8) :
    Option (List UInt8 × List UInt8) :=
  if protocol = IPPROTO_ICMP then (icmp6to4Trans e (old.length + 1) new old).map (·.2)
  else (dataTrans6to4 e new old saddr daddr protocol).map (·, old)

/-- The end of `ip6_mapping`. -/
def fill6to4 (e : ByteOrder) (new pkt data : List UInt8) (nexthdr protocol : UInt8) :
    Option (List UInt8 × List UInt8) := do
  let later ← laterFragment6 pkt nexthdr
  if later then (poke? new IP_HEADER_LEN data).map (·, data)
  else do
    let saddr ← peek? new 12 4
    let daddr ← peek? new 16 4
    let payload ← suffix? new IP_HEADER_LEN
    let (payload, data) ← dataTransOld6to4 e payload data saddr daddr protocol
    return (new.take IP_HEADER_LEN ++ payload, data)

/-- `ip6_mapping`. -/
def ip6MappingSkb (e : ByteOrder) (fresh : Nat → UInt8) (fails : Failures) (skb : Skb) :
    Option Mapped := do
  let pkt := skb.bytes
  let nexthdr ← pkt[6]?
  let oldheaderlen := if nexthdr = NEXTHDR_FRAGMENT then IPV6_HEADER_LEN + 8 else IPV6_HEADER_LEN
  let moved ← skb.pull oldheaderlen
  let data := moved.bytes
  let newpktlen ← getNewPktlen6to4 pkt data
  if fails.alloc then return ⟨0, moved, []⟩
  else if fails.ether then return ⟨0, moved, []⟩
  else if fails.header then return ⟨0, moved, []⟩
  else do
    let new := allocSkb fresh (newpktlen + IP_HEADER_LEN)
    let (protocol, new) ← iphdr6to4Trans e new pkt
      ((newpktlen : Int) - data.length + IPV6_HEADER_LEN - oldheaderlen)
    if fails.payload then return ⟨0, moved, []⟩
    else do
      let (new, data) ← fill6to4 e new pkt data nexthdr protocol
      let changed ← moved.replace data
      let back ← changed.push oldheaderlen
      return ⟨1, back, [new]⟩

/-! ## A call in which nothing fails -/

section Whole

variable (e : ByteOrder) (srcPrefix dstPrefix : UInt32)

theorem dataTransOld4to6_fst (new old saddr daddr : List UInt8) (nexthdr : UInt8) :
    (dataTransOld4to6 e new old saddr daddr srcPrefix dstPrefix nexthdr).map Prod.fst =
      dataTrans4to6 e new old saddr daddr srcPrefix dstPrefix nexthdr := by
  unfold dataTransOld4to6
  split
  · rename_i hicmp
    rw [dataTrans4to6, if_pos hicmp, Option.map_map]
    rfl
  · rw [Option.map_map]
    exact Option.map_id'

theorem dataTransOld6to4_fst (new old saddr daddr : List UInt8) (protocol : UInt8) :
    (dataTransOld6to4 e new old saddr daddr protocol).map Prod.fst =
      dataTrans6to4 e new old saddr daddr protocol := by
  unfold dataTransOld6to4
  split
  · rename_i hicmp
    rw [dataTrans6to4, if_pos hicmp, Option.map_map]
    rfl
  · rw [Option.map_map]
    exact Option.map_id'

/-- The old payload keeps its length. -/
theorem dataTransOld4to6_snd {new old saddr daddr : List UInt8} {nexthdr : UInt8}
    {r : List UInt8 × List UInt8}
    (h : dataTransOld4to6 e new old saddr daddr srcPrefix dstPrefix nexthdr = some r) :
    r.2.length = old.length := by
  unfold dataTransOld4to6 at h
  split at h
  · obtain ⟨t, ht, rfl⟩ := Option.map_eq_some_iff.mp h
    exact (icmp4to6Trans_length ht).2.2.1
  · obtain ⟨t, -, rfl⟩ := Option.map_eq_some_iff.mp h
    rfl

theorem dataTransOld6to4_snd {new old saddr daddr : List UInt8} {protocol : UInt8}
    {r : List UInt8 × List UInt8} (h : dataTransOld6to4 e new old saddr daddr protocol = some r) :
    r.2.length = old.length := by
  unfold dataTransOld6to4 at h
  split at h
  · obtain ⟨t, ht, rfl⟩ := Option.map_eq_some_iff.mp h
    exact (icmp6to4Trans_length ht).2.2.1
  · obtain ⟨t, -, rfl⟩ := Option.map_eq_some_iff.mp h
    rfl

/-- `ip_mapping` ends with `fill4to6`. -/
theorem ipMapping_fill (fresh : Nat → UInt8) (pkt : List UInt8) :
    ipMapping e fresh pkt srcPrefix dstPrefix = (do
      let data ← suffix? pkt IP_HEADER_LEN
      let newheaderlen ← getNewHeaderlen4to6 pkt
      let newpktlen ← getNewPktlen4to6 pkt data
      let (nexthdr, new) ← iphdr4to6Trans e (allocSkb fresh (newpktlen + newheaderlen)) pkt srcPrefix
        dstPrefix ((newpktlen : Int) - data.length + newheaderlen - IPV6_HEADER_LEN)
        (newheaderlen - IPV6_HEADER_LEN)
      (fill4to6 e new pkt data srcPrefix dstPrefix newheaderlen nexthdr).map Prod.fst) := by
  have htail (new data : List UInt8) (n : Nat) (nexthdr : UInt8) :
      (fill4to6 e new pkt data srcPrefix dstPrefix n nexthdr).map Prod.fst = (do
        let fragOff ← load16? .big pkt 6
        if fragOff &&& 0x1FFF ≠ 0 then poke? new n data
        else do
          let saddr ← peek? new 8 16
          let daddr ← peek? new 24 16
          let payload ← suffix? new n
          let payload ← dataTrans4to6 e payload data saddr daddr srcPrefix dstPrefix nexthdr
          return new.take n ++ payload) := by
    simp only [fill4to6, Option.bind_eq_bind, Option.map_bind, ← dataTransOld4to6_fst]
    refine congrArg _ (funext fun fragOff => ?_)
    simp only [Function.comp]
    split
    · rw [Option.map_map]
      exact Option.map_id'
    · simp only [Option.map_bind, Option.bind_map, Function.comp_def]
      rfl
  simp only [htail]
  rfl

/-- `ip6_mapping` ends with `fill6to4`. -/
theorem ip6Mapping_fill (fresh : Nat → UInt8) (pkt : List UInt8) :
    ip6Mapping e fresh pkt = (do
      let nexthdr ← pkt[6]?
      let oldheaderlen :=
        if nexthdr = NEXTHDR_FRAGMENT then IPV6_HEADER_LEN + 8 else IPV6_HEADER_LEN
      let data ← suffix? pkt oldheaderlen
      let newpktlen ← getNewPktlen6to4 pkt data
      let (protocol, new) ← iphdr6to4Trans e (allocSkb fresh (newpktlen + IP_HEADER_LEN)) pkt
        ((newpktlen : Int) - data.length + IPV6_HEADER_LEN - oldheaderlen)
      (fill6to4 e new pkt data nexthdr protocol).map Prod.fst) := by
  have htail (new data : List UInt8) (nexthdr protocol : UInt8) :
      (fill6to4 e new pkt data nexthdr protocol).map Prod.fst = (do
        let later ← laterFragment6 pkt nexthdr
        if later then poke? new IP_HEADER_LEN data
        else do
          let saddr ← peek? new 12 4
          let daddr ← peek? new 16 4
          let payload ← suffix? new IP_HEADER_LEN
          let payload ← dataTrans6to4 e payload data saddr daddr protocol
          return new.take IP_HEADER_LEN ++ payload) := by
    simp only [fill6to4, Option.bind_eq_bind, Option.map_bind, ← dataTransOld6to4_fst]
    refine congrArg _ (funext fun later => ?_)
    simp only [Function.comp]
    split
    · rw [Option.map_map]
      exact Option.map_id'
    · simp only [Option.map_bind, Option.bind_map, Function.comp_def]
      rfl
  simp only [htail]
  rfl

theorem fill4to6_lengths {new pkt data : List UInt8} {n : Nat} {nexthdr : UInt8}
    {r : List UInt8 × List UInt8}
    (h : fill4to6 e new pkt data srcPrefix dstPrefix n nexthdr = some r) :
    r.1.length = new.length ∧ r.2.length = data.length := by
  obtain ⟨fragOff, -, h⟩ := Option.bind_eq_some_iff.mp h
  split at h
  · obtain ⟨t, ht, rfl⟩ := Option.map_eq_some_iff.mp h
    exact ⟨poke?_length ht, rfl⟩
  · obtain ⟨saddr, -, h⟩ := Option.bind_eq_some_iff.mp h
    obtain ⟨daddr, -, h⟩ := Option.bind_eq_some_iff.mp h
    obtain ⟨payload, hsuffix, h⟩ := Option.bind_eq_some_iff.mp h
    obtain ⟨t, ht, h⟩ := Option.bind_eq_some_iff.mp h
    obtain rfl := Option.some.inj h
    have hnew := dataTransOld4to6_fst e srcPrefix dstPrefix payload data saddr daddr nexthdr
    rw [ht, Option.map_some] at hnew
    have hold := dataTransOld4to6_snd e srcPrefix dstPrefix ht
    exact ⟨length_replaced hsuffix (dataTrans4to6_length hnew.symm), hold⟩

theorem fill6to4_lengths {new pkt data : List UInt8} {nexthdr protocol : UInt8}
    {r : List UInt8 × List UInt8} (h : fill6to4 e new pkt data nexthdr protocol = some r) :
    r.2.length = data.length := by
  obtain ⟨later, -, h⟩ := Option.bind_eq_some_iff.mp h
  split at h
  · obtain ⟨t, ht, rfl⟩ := Option.map_eq_some_iff.mp h
    rfl
  · obtain ⟨saddr, -, h⟩ := Option.bind_eq_some_iff.mp h
    obtain ⟨daddr, -, h⟩ := Option.bind_eq_some_iff.mp h
    obtain ⟨payload, -, h⟩ := Option.bind_eq_some_iff.mp h
    obtain ⟨t, ht, h⟩ := Option.bind_eq_some_iff.mp h
    obtain rfl := Option.some.inj h
    have hold := dataTransOld6to4_snd e ht
    exact hold

/-- The header is written into the buffer it is given. -/
theorem iphdr4to6Trans_length {new old : List UInt8} {supplement : Int} {fragment : Nat}
    {r : UInt8 × List UInt8}
    (h : iphdr4to6Trans e new old srcPrefix dstPrefix supplement fragment = some r) :
    r.2.length = new.length := by
  unfold iphdr4to6Trans at h
  obtain ⟨n1, h1, h⟩ := Option.bind_eq_some_iff.mp h
  obtain ⟨protocol, -, h⟩ := Option.bind_eq_some_iff.mp h
  obtain ⟨n2, h2, h⟩ := Option.bind_eq_some_iff.mp h
  obtain ⟨ttl, -, h⟩ := Option.bind_eq_some_iff.mp h
  obtain ⟨n3, h3, h⟩ := Option.bind_eq_some_iff.mp h
  obtain ⟨totLen, -, h⟩ := Option.bind_eq_some_iff.mp h
  obtain ⟨n4, h4, h⟩ := Option.bind_eq_some_iff.mp h
  obtain ⟨saddr, -, h⟩ := Option.bind_eq_some_iff.mp h
  obtain ⟨n5, h5, h⟩ := Option.bind_eq_some_iff.mp h
  obtain ⟨daddr, -, h⟩ := Option.bind_eq_some_iff.mp h
  obtain ⟨n6, h6, h⟩ := Option.bind_eq_some_iff.mp h
  have hlen : n6.length = new.length := by
    rw [poke?_length h6, poke?_length h5, poke?_length h4, poke?_length h3, poke?_length h2,
      poke?_length h1]
  split at h
  · obtain ⟨n7, h7, h⟩ := Option.bind_eq_some_iff.mp h
    obtain rfl := Option.some.inj h
    obtain ⟨m1, k1, h7⟩ := Option.bind_eq_some_iff.mp h7
    obtain ⟨m2, k2, h7⟩ := Option.bind_eq_some_iff.mp h7
    obtain ⟨id, -, h7⟩ := Option.bind_eq_some_iff.mp h7
    obtain ⟨m3, k3, h7⟩ := Option.bind_eq_some_iff.mp h7
    obtain ⟨fragOff, -, h7⟩ := Option.bind_eq_some_iff.mp h7
    rw [poke?_length h7, poke?_length k3, poke?_length k2, poke?_length k1, hlen]
  · obtain rfl := Option.some.inj h
    exact hlen

/-- When nothing fails, the stack is given the packet of `ip_mapping`, and
the old packet is where it was. -/
theorem ipMappingSkb_handed (fresh : Nat → UInt8) (skb : Skb) :
    (ipMappingSkb e fresh Failures.none skb srcPrefix dstPrefix).map
        (fun r => (r.ret, r.skb.data, r.skb.len, r.handed)) =
      (ipMapping e fresh skb.bytes srcPrefix dstPrefix).map
        fun out => (1, skb.data, skb.len, [out]) := by
  rw [ipMapping_fill]
  simp only [ipMappingSkb, Failures.none, Option.bind_eq_bind, Bool.false_eq_true, if_false]
  cases hpull : skb.pull IP_HEADER_LEN with
  | none => rw [Skb.pull_none hpull]; rfl
  | some moved =>
      obtain ⟨-, -, -, -, hsuffix⟩ := Skb.pull_eq hpull
      simp only [hsuffix, Option.bind_some]
      cases getNewHeaderlen4to6 skb.bytes with
      | none => rfl
      | some newheaderlen =>
          simp only [Option.bind_some]
          cases getNewPktlen4to6 skb.bytes moved.bytes with
          | none => rfl
          | some newpktlen =>
              simp only [Option.bind_some]
              cases htrans : iphdr4to6Trans e (allocSkb fresh (newpktlen + newheaderlen)) skb.bytes
                  srcPrefix dstPrefix
                  ((newpktlen : Int) - moved.bytes.length + newheaderlen - IPV6_HEADER_LEN)
                  (newheaderlen - IPV6_HEADER_LEN) with
              | none => rfl
              | some header =>
                  simp only [Option.bind_some]
                  cases hfill : fill4to6 e header.2 skb.bytes moved.bytes srcPrefix dstPrefix
                      newheaderlen header.1 with
                  | none => rfl
                  | some filled =>
                      obtain ⟨hnew, hold⟩ := fill4to6_lengths e srcPrefix dstPrefix hfill
                      rw [Skb.bytes_length] at hold
                      obtain ⟨changed, back, hchanged, hback, hdata, hlen⟩ :=
                        Skb.exists_push hpull hold
                      have hwhole : filled.1.take (newheaderlen + newpktlen) = filled.1 := by
                        apply List.take_of_length_le
                        rw [hnew, iphdr4to6Trans_length e srcPrefix dstPrefix htrans, allocSkb_length]
                        omega
                      simp only [Option.bind_some, hchanged, hback, Option.pure_def,
                        Option.map_some, hdata, hlen, hwhole]

theorem ip6MappingSkb_handed (fresh : Nat → UInt8) (skb : Skb) :
    (ip6MappingSkb e fresh Failures.none skb).map
        (fun r => (r.ret, r.skb.data, r.skb.len, r.handed)) =
      (ip6Mapping e fresh skb.bytes).map fun out => (1, skb.data, skb.len, [out]) := by
  rw [ip6Mapping_fill]
  simp only [ip6MappingSkb, Failures.none, Option.bind_eq_bind, Bool.false_eq_true, if_false]
  cases skb.bytes[6]? with
  | none => rfl
  | some nexthdr =>
      simp only [Option.bind_some]
      generalize (if nexthdr = NEXTHDR_FRAGMENT then IPV6_HEADER_LEN + 8 else IPV6_HEADER_LEN) =
        oldheaderlen
      cases hpull : skb.pull oldheaderlen with
      | none => rw [Skb.pull_none hpull]; rfl
      | some moved =>
          obtain ⟨-, -, -, -, hsuffix⟩ := Skb.pull_eq hpull
          simp only [hsuffix, Option.bind_some]
          cases getNewPktlen6to4 skb.bytes moved.bytes with
          | none => rfl
          | some newpktlen =>
              simp only [Option.bind_some]
              cases iphdr6to4Trans e (allocSkb fresh (newpktlen + IP_HEADER_LEN)) skb.bytes
                  ((newpktlen : Int) - moved.bytes.length + IPV6_HEADER_LEN - oldheaderlen) with
              | none => rfl
              | some header =>
                  simp only [Option.bind_some]
                  cases hfill : fill6to4 e header.2 skb.bytes moved.bytes nexthdr header.1 with
                  | none => rfl
                  | some filled =>
                      have hold := fill6to4_lengths e hfill
                      rw [Skb.bytes_length] at hold
                      obtain ⟨changed, back, hchanged, hback, hdata, hlen⟩ :=
                        Skb.exists_push hpull hold
                      simp only [Option.bind_some, hchanged, hback, Option.pure_def,
                        Option.map_some, hdata, hlen]

end Whole

/-! ## A failed call -/

section Failed

variable {e : ByteOrder} {fresh : Nat → UInt8} {fails : Failures} {skb : Skb} {r : Mapped}

/-- A failure of a call that is checked returns with the packet moved on. -/
theorem ipMappingSkb_cases {srcPrefix dstPrefix : UInt32}
    (h : ipMappingSkb e fresh fails skb srcPrefix dstPrefix = some r) :
    ((fails.alloc = true ∨ fails.payload = true) ∧ r.ret = 0 ∧ r.handed = [] ∧
      skb.pull IP_HEADER_LEN = some r.skb) ∨
    (fails.alloc = false ∧ fails.payload = false ∧ r.ret = 1) := by
  unfold ipMappingSkb at h
  obtain ⟨moved, hmoved, h⟩ := Option.bind_eq_some_iff.mp h
  obtain ⟨newheaderlen, -, h⟩ := Option.bind_eq_some_iff.mp h
  obtain ⟨newpktlen, -, h⟩ := Option.bind_eq_some_iff.mp h
  cases halloc : fails.alloc with
  | true =>
      rw [halloc, if_pos rfl] at h
      obtain rfl := Option.some.inj h
      exact Or.inl ⟨Or.inl rfl, rfl, rfl, hmoved⟩
  | false =>
      rw [halloc, if_neg (by decide)] at h
      obtain ⟨header, -, h⟩ := Option.bind_eq_some_iff.mp h
      cases hpayload : fails.payload with
      | true =>
          dsimp only at h
          rw [hpayload, if_pos rfl] at h
          obtain rfl := Option.some.inj h
          exact Or.inl ⟨Or.inr rfl, rfl, rfl, hmoved⟩
      | false =>
          dsimp only at h
          rw [hpayload, if_neg (by decide)] at h
          obtain ⟨filled, -, h⟩ := Option.bind_eq_some_iff.mp h
          obtain ⟨changed, -, h⟩ := Option.bind_eq_some_iff.mp h
          obtain ⟨back, -, h⟩ := Option.bind_eq_some_iff.mp h
          obtain rfl := Option.some.inj h
          exact Or.inr ⟨rfl, rfl, rfl⟩

theorem ip6MappingSkb_cases (h : ip6MappingSkb e fresh fails skb = some r) :
    (fails ≠ Failures.none ∧ r.ret = 0 ∧ r.handed = [] ∧ ∃ n, 0 < n ∧ skb.pull n = some r.skb) ∨
    (fails = Failures.none ∧ r.ret = 1) := by
  have hpos (nexthdr : UInt8) : 0 <
      if nexthdr = NEXTHDR_FRAGMENT then IPV6_HEADER_LEN + 8 else IPV6_HEADER_LEN := by
    split <;> decide
  obtain ⟨alloc, ether, header, payload⟩ := fails
  unfold ip6MappingSkb at h
  obtain ⟨nexthdr, -, h⟩ := Option.bind_eq_some_iff.mp h
  obtain ⟨moved, hmoved, h⟩ := Option.bind_eq_some_iff.mp h
  obtain ⟨newpktlen, -, h⟩ := Option.bind_eq_some_iff.mp h
  have hfailed (hr : some (Mapped.mk 0 moved []) = some r) : r.ret = 0 ∧ r.handed = [] ∧
      ∃ n, 0 < n ∧ skb.pull n = some r.skb := by
    obtain rfl := Option.some.inj hr
    exact ⟨rfl, rfl, _, hpos nexthdr, hmoved⟩
  match alloc, ether, header, h with
  | true, _, _, h => exact Or.inl ⟨by simp [Failures.none], hfailed h⟩
  | false, true, _, h => exact Or.inl ⟨by simp [Failures.none], hfailed h⟩
  | false, false, true, h => exact Or.inl ⟨by simp [Failures.none], hfailed h⟩
  | false, false, false, h =>
      obtain ⟨translated, -, h⟩ := Option.bind_eq_some_iff.mp h
      cases payload with
      | true => exact Or.inl ⟨by simp [Failures.none], hfailed h⟩
      | false =>
          obtain ⟨filled, -, h⟩ := Option.bind_eq_some_iff.mp h
          obtain ⟨changed, -, h⟩ := Option.bind_eq_some_iff.mp h
          obtain ⟨back, -, h⟩ := Option.bind_eq_some_iff.mp h
          obtain rfl := Option.some.inj h
          exact Or.inr ⟨rfl, rfl⟩

/-- The caller finds the packet as it was, and the stack got nothing. -/
def LeftIntact (skb : Skb) (r : Mapped) : Prop := r.skb = skb ∧ r.handed = []

theorem not_leftIntact {n : Nat} (hn : 0 < n) (h : skb.pull n = some r.skb) :
    ¬LeftIntact skb r := by
  rintro ⟨heq, -⟩
  obtain ⟨-, -, hdata, -, -⟩ := Skb.pull_eq h
  rw [heq] at hdata
  omega

end Failed

/-- A call that returns 0 leaves the packet intact exactly when none of the
calls that are checked fails, so that it does not return 0. -/
theorem failed_mapping_iff (e : ByteOrder) (fresh : Nat → UInt8) (fails : Failures) (skb : Skb)
    (r : Mapped) :
    (∀ srcPrefix dstPrefix, ipMappingSkb e fresh fails skb srcPrefix dstPrefix = some r →
      ((r.ret = 0 → LeftIntact skb r) ↔ fails.alloc = false ∧ fails.payload = false)) ∧
    (ip6MappingSkb e fresh fails skb = some r →
      ((r.ret = 0 → LeftIntact skb r) ↔ fails = Failures.none)) := by
  constructor
  · intro srcPrefix dstPrefix h
    rcases ipMappingSkb_cases h with ⟨hfails, hret, -, hpull⟩ | ⟨halloc, hpayload, hret⟩
    · refine iff_of_false (fun hleft => not_leftIntact (by decide) hpull (hleft hret)) ?_
      rintro ⟨halloc, hpayload⟩
      simp [halloc, hpayload] at hfails
    · exact iff_of_true (fun h0 => absurd (hret.symm.trans h0) (by decide)) ⟨halloc, hpayload⟩
  · intro h
    rcases ip6MappingSkb_cases h with ⟨hfails, hret, -, n, hn, hpull⟩ | ⟨hnone, hret⟩
    · exact iff_of_false (fun hleft => not_leftIntact hn hpull (hleft hret)) hfails
    · exact iff_of_true (fun h0 => absurd (hret.symm.trans h0) (by decide)) hnone

/-- A UDP packet behind an Ethernet header. -/
def udpSkb : Skb where
  buffer := List.replicate 14 0 ++
    [0x45, 0, 0, 28, 0, 0, 0x40, 0, 64, 17, 0, 0, 10, 0, 0, 1, 10, 0, 0, 2, 0, 7, 0, 7, 0, 8, 0, 0]
  data := 14
  len := 28
  fits := by decide

/-- The packet after a failed allocation: it starts with its UDP header. -/
def udpMoved : Mapped := ⟨0, { udpSkb with data := 34, len := 8, fits := by decide }, []⟩

/-- When nothing fails, the call does not return 0. -/
theorem failed_mapping_udpSkb :
    ∃ r, ipMappingSkb .big (fun _ => 0) Failures.none udpSkb 0 0 = some r ∧
      (r.ret = 0 → LeftIntact udpSkb r) := by
  have hsome : (ipMappingSkb .big (fun _ => 0) Failures.none udpSkb 0 0).isSome := by
    decide +kernel
  obtain ⟨r, hr⟩ := Option.isSome_iff_exists.mp hsome
  exact ⟨r, hr, ((failed_mapping_iff .big _ Failures.none udpSkb r).1 0 0 hr).mpr ⟨rfl, rfl⟩⟩

/-- When `alloc_skb` fails, the packet is left 20 bytes further on. -/
theorem failed_mapping_moves_udpSkb :
    ipMappingSkb .big (fun _ => 0) { Failures.none with alloc := true } udpSkb 0 0 = some udpMoved ∧
      udpMoved.ret = 0 ∧ udpMoved.skb.data = udpSkb.data + 20 ∧
      ¬LeftIntact udpSkb udpMoved := by
  refine ⟨rfl, rfl, rfl, ?_⟩
  rintro ⟨heq, -⟩
  exact absurd (congrArg Skb.data heq) (by decide)

end UbntSdk.Ivi
