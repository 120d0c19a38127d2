/-
UbntSdk.Ivi.MappingTheorems — what `ip_mapping` and `ip6_mapping` compute.

A packet with a whole header is translated to its new header and a payload
(`ipMapping_eq`, `ip6Mapping_eq`). Only two things come from the buffer: a
byte of the fragment header, which `iphdr4to6_trans` leaves out, and what the
payload functions do not write.
-/
import UbntSdk.Ivi.Icmp4to6Theorems
import UbntSdk.Ivi.Icmp6to4Theorems
import UbntSdk.Ivi.Mapping

namespace UbntSdk.Ivi

open UbntSdk.Lib

/-! ## Buffers -/

@[simp] theorem allocSkb_length (fresh : Nat → UInt8) (n : Nat) :
    (allocSkb fresh n).length = n := by
  simp [allocSkb]

/-- The rest of a buffer behind its first `n` bytes. -/
theorem allocSkb_add (fresh : Nat → UInt8) (n m : Nat) :
    allocSkb fresh (n + m) = allocSkb fresh n ++ allocSkb (fun i => fresh (n + i)) m := by
  rw [allocSkb, List.range_add, List.map_append, List.map_map]
  rfl

theorem getD_allocSkb (fresh : Nat → UInt8) {i n : Nat} (h : i < n) :
    (allocSkb fresh n).getD i 0 = fresh i := by
  simp [allocSkb, List.getD_eq_getElem?_getD, h]

/-- A buffer can hold anything. -/
theorem exists_allocSkb (bs : List UInt8) : ∃ fresh, allocSkb fresh bs.length = bs := by
  refine ⟨fun i => bs.getD i 0, ?_⟩
  apply List.ext_getElem
  · simp
  · intro i h1 h2
    simp [allocSkb, List.getD_eq_getElem?_getD, List.getElem?_eq_getElem h2]

/-! ## From IPv4 to IPv6 -/

/-- The length of an ICMP packet in IPv6. -/
def grown4 (data : List UInt8) : Option Nat := do
  let type ← data[0]?
  if type = ICMP_ECHO ∨ type = ICMP_ECHOREPLY then return data.length
  else do
    let headerInPkt ← getNewHeaderlen4to6 (data.drop ICMP_HEADER_LEN)
    return data.length + headerInPkt - IP_HEADER_LEN

theorem Iphdr.offset_eq_zero_iff (h : Iphdr) : h.fragOff &&& 0x1FFF = 0 ↔ h.offset = 0 := by
  rw [Iphdr.offset, ← UInt16.toNat_inj]
  rfl

theorem Iphdr.load_fragOff (h : Iphdr) (data : List UInt8) :
    load16? .big (h.bytes ++ data) 6 = some h.fragOff := by
  simp only [load16?, h.peek_fragOff, Option.map_some, ofWord16_word16]

/-- `get_new_pktlen4to6` looks into ICMP packets. -/
theorem getNewPktlen4to6_eq (h : Iphdr) (data : List UInt8) :
    getNewPktlen4to6 (h.bytes ++ data) data =
      if h.protocol = IPPROTO_ICMP ∧ h.offset = 0 then grown4 data else some data.length := by
  simp only [getNewPktlen4to6, h.get_protocol, h.load_fragOff, Option.bind_eq_bind,
    Option.bind_some, Option.pure_def, ne_eq, h.offset_eq_zero_iff, ite_not]
  by_cases hp : h.protocol = IPPROTO_ICMP
  · by_cases ho : h.offset = 0
    · rw [if_pos hp, if_pos ho, if_pos ⟨hp, ho⟩]
      rfl
    · rw [if_pos hp, if_neg ho, if_neg fun hc => ho hc.2]
  · rw [if_neg hp, if_neg fun hc => hp hc.1]

/-- The payload of the new packet, in a buffer that holds `new`. -/
def payload4 (e : ByteOrder) (srcPrefix dstPrefix : UInt32) (h : Iphdr) (new data : List UInt8) :
    Option (List UInt8) :=
  if h.offset ≠ 0 then some data
  else dataTrans4to6 e new data (mapped e h.saddr srcPrefix).1 (mapped e h.daddr dstPrefix).1
    srcPrefix dstPrefix (nexthdrOf h.protocol)

/-- `ip_mapping` of a packet with a header. -/
theorem ipMapping_eq (e : ByteOrder) (fresh : Nat → UInt8) (h : Iphdr) (data : List UInt8)
    (srcPrefix dstPrefix : UInt32) :
    ipMapping e fresh (h.bytes ++ data) srcPrefix dstPrefix =
      (getNewPktlen4to6 (h.bytes ++ data) data).bind fun n =>
        (payload4 e srcPrefix dstPrefix h (allocSkb (fun i => fresh (h.headerLen6 + i)) n) data).map
          (h.header6 e srcPrefix dstPrefix ((n : Int) - data.length + h.headerLen6 - IPV6_HEADER_LEN)
            (allocSkb fresh h.headerLen6) ++ ·) := by
  have hlen : getNewHeaderlen4to6 (h.bytes ++ data) = some h.headerLen6 :=
    getNewHeaderlen4to6_eq h data
  simp only [ipMapping, Option.bind_eq_bind, suffix?_append h.bytes_length data, IP_HEADER_LEN, hlen,
    Option.bind_some, h.load_fragOff, ne_eq, h.offset_eq_zero_iff]
  cases hn : getNewPktlen4to6 (h.bytes ++ data) data with
  | none => rfl
  | some n =>
      simp only [Option.bind_some]
      have htrans := iphdr4to6Trans_header e h data (allocSkb_length fresh h.headerLen6)
        (allocSkb (fun i => fresh (h.headerLen6 + i)) n) srcPrefix dstPrefix
        ((n : Int) - data.length + h.headerLen6 - IPV6_HEADER_LEN)
      rw [Nat.add_comm n, allocSkb_add, htrans]
      simp only [Option.bind_some, payload4, ne_eq]
      by_cases ho : h.offset = 0
      · obtain ⟨hsrc, hdst⟩ := peek_header6 e srcPrefix dstPrefix h
          ((n : Int) - data.length + h.headerLen6 - IPV6_HEADER_LEN) (allocSkb fresh h.headerLen6)
          (allocSkb (fun i => fresh (h.headerLen6 + i)) n)
        have hlen6 := h.header6_length e srcPrefix dstPrefix
          ((n : Int) - data.length + h.headerLen6 - IPV6_HEADER_LEN) (allocSkb fresh h.headerLen6)
        rw [if_neg (not_not.mpr ho), if_neg (not_not.mpr ho), hsrc, hdst,
          suffix?_append hlen6, List.take_left' hlen6, Option.map_eq_bind]
        rfl
      · -- the payload is as long as the old one
        have hsame : n = data.length := by
          rw [getNewPktlen4to6_eq, if_neg fun hc => ho hc.2] at hn
          exact (Option.some.inj hn).symm
        rw [if_pos ho, if_pos ho, poke?_skip (by simp), h.header6_length, Nat.sub_self,
          poke?_all (by simp [hsame])]

/-- A packet without a header is looked into too. -/
theorem ipMapping_short (e : ByteOrder) (fresh : Nat → UInt8) {pkt : List UInt8}
    (h : pkt.length < 20) (srcPrefix dstPrefix : UInt32) :
    ipMapping e fresh pkt srcPrefix dstPrefix = none := by
  have hnone : suffix? pkt IP_HEADER_LEN = none := if_neg (by simp only [IP_HEADER_LEN]; omega)
  rw [ipMapping, hnone]
  rfl

/-! ## From IPv6 to IPv4 -/

/-- What is behind the headers. -/
def data6 (pkt : List UInt8) : List UInt8 := pkt.drop (quoteLen6 pkt)

/-- The header that says what is behind the headers. -/
def nexthdr6 (pkt : List UInt8) : UInt8 :=
  if pkt.getD 6 0 = NEXTHDR_FRAGMENT then pkt.getD 40 0 else pkt.getD 6 0

/-- A fragment that is not the first one. The offset is looked for where IPv4
has it. -/
def later6 (pkt : List UInt8) : Bool :=
  pkt.getD 6 0 = NEXTHDR_FRAGMENT ∧ (load16? .big pkt 42).getD 0 &&& 0x1FFF ≠ 0

/-- The length of an ICMPv6 packet in IPv4. -/
def shrunk6 (data : List UInt8) : Option Nat := do
  let type ← data[0]?
  if type = ICMPV6_ECHO_REQUEST ∨ type = ICMPV6_ECHO_REPLY then return data.length
  else do
    let quoted ← data[ICMP_HEADER_LEN + 6]?
    if quoted = NEXTHDR_FRAGMENT then sub? data.length 28 else sub? data.length 20

section Headers6

variable {pkt : List UInt8}

theorem Headers6.get_nexthdr (h : Headers6 pkt) : pkt[6]? = some (pkt.getD 6 0) := by
  have h40 := h.1
  rw [List.getD_eq_getElem?_getD, List.getElem?_eq_getElem (by omega), Option.getD_some]

theorem Headers6.get_fragment (h : Headers6 pkt) (hf : pkt.getD 6 0 = NEXTHDR_FRAGMENT) :
    pkt[40]? = some (pkt.getD 40 0) ∧ ∃ fragOff, load16? .big pkt 42 = some fragOff ∧
      later6 pkt = decide (fragOff &&& 0x1FFF ≠ 0) := by
  have h48 := h.2 hf
  have hload : load16? .big pkt 42 = some (ofWord16 .big ((pkt.drop 42).take 2)) := by
    rw [load16?, peek?, if_pos (by omega)]
    rfl
  refine ⟨?_, _, hload, ?_⟩
  · rw [List.getD_eq_getElem?_getD, List.getElem?_eq_getElem (by omega), Option.getD_some]
  · simp only [later6, hf, true_and, hload, Option.getD_some]

theorem later6_plain (hf : pkt.getD 6 0 ≠ NEXTHDR_FRAGMENT) : later6 pkt = false := by
  simp only [later6, hf, false_and, decide_false]

theorem Headers6.quoteLen_le (h : Headers6 pkt) : quoteLen6 pkt ≤ pkt.length := by
  unfold quoteLen6
  split
  · exact h.2 (by assumption)
  · exact h.1

/-- `get_new_pktlen6to4` looks into ICMPv6 packets. -/
theorem getNewPktlen6to4_eq (h : Headers6 pkt) (data : List UInt8) :
    getNewPktlen6to4 pkt data =
      if nexthdr6 pkt = IPPROTO_ICMPV6 ∧ later6 pkt = false then shrunk6 data
      else some data.length := by
  have hsplit (nexthdr : UInt8) (offset : UInt16) (later : Bool)
      (hl : later = decide (offset ≠ 0)) :
      (if nexthdr ≠ IPPROTO_ICMPV6 then some data.length
        else if offset ≠ 0 then some data.length else shrunk6 data) =
      if nexthdr = IPPROTO_ICMPV6 ∧ later = false then shrunk6 data else some data.length := by
    by_cases hn : nexthdr = IPPROTO_ICMPV6
    · by_cases ho : offset = 0
      · simp [hn, ho, hl]
      · simp [hn, ho, hl]
    · simp [hn]
  by_cases hf : pkt.getD 6 0 = NEXTHDR_FRAGMENT
  · obtain ⟨hnext, fragOff, hload, hlater⟩ := h.get_fragment hf
    simp only [getNewPktlen6to4, h.get_nexthdr, Option.bind_eq_bind, Option.bind_some, if_pos hf,
      IPV6_HEADER_LEN, Nat.reduceAdd, hnext, hload, Option.pure_def, nexthdr6]
    exact hsplit _ _ _ hlater
  · simp only [getNewPktlen6to4, h.get_nexthdr, Option.bind_eq_bind, Option.bind_some, if_neg hf,
      Option.pure_def, nexthdr6]
    exact hsplit _ 0 _ (later6_plain hf)

theorem laterFragment6_eq (h : Headers6 pkt) :
    laterFragment6 pkt (pkt.getD 6 0) = some (later6 pkt) := by
  by_cases hf : pkt.getD 6 0 = NEXTHDR_FRAGMENT
  · obtain ⟨-, fragOff, hload, hlater⟩ := h.get_fragment hf
    simp only [laterFragment6, if_pos hf, IPV6_HEADER_LEN, Nat.reduceAdd, Option.bind_eq_bind, hload,
      Option.bind_some, Option.pure_def, hlater]
  · rw [laterFragment6, if_neg hf, later6_plain hf]
    rfl

/-- The payload of the new packet, in a buffer that holds `new`. -/
def payload6 (e : ByteOrder) (pkt saddr daddr new : List UInt8) : Option (List UInt8) :=
  if later6 pkt then some (data6 pkt)
  else dataTrans6to4 e new (data6 pkt) saddr daddr (protocol6 pkt)

/-- `ip6_mapping` of a packet with its headers. The new header does not come
from the buffer. -/
theorem ip6Mapping_eq (e : ByteOrder) (h : Headers6 pkt) :
    ∃ hdr : Nat → Iphdr,
      (∀ n, (hdr n).totLen = UInt16.ofInt (payloadLen6 pkt + IP_HEADER_LEN +
        ((n : Int) - (data6 pkt).length + IPV6_HEADER_LEN - quoteLen6 pkt))) ∧
      ∀ fresh, ip6Mapping e fresh pkt =
        (getNewPktlen6to4 pkt (data6 pkt)).bind fun n =>
          (payload6 e pkt (be32 (hdr n).saddr) (be32 (hdr n).daddr)
            (allocSkb (fun i => fresh (20 + i)) n)).map ((hdr n).bytes ++ ·) := by
  have hall (n : Nat) := exists_iphdr6to4Trans e h
    ((n : Int) - (data6 pkt).length + IPV6_HEADER_LEN - quoteLen6 pkt)
  choose hdr htot hhdr using hall
  refine ⟨hdr, htot, fun fresh => ?_⟩
  have hdata : suffix? pkt (quoteLen6 pkt) = some (data6 pkt) := suffix?_eq h.quoteLen_le
  have hold : (if pkt.getD 6 0 = NEXTHDR_FRAGMENT then IPV6_HEADER_LEN + 8 else IPV6_HEADER_LEN) =
      quoteLen6 pkt := rfl
  simp only [ip6Mapping, Option.bind_eq_bind, h.get_nexthdr, Option.bind_some, hold, hdata,
    laterFragment6_eq h]
  cases hn : getNewPktlen6to4 pkt (data6 pkt) with
  | none => rfl
  | some n =>
      simp only [Option.bind_some]
      rw [Nat.add_comm n, IP_HEADER_LEN, allocSkb_add, hhdr n _ _ (allocSkb_length fresh 20)]
      simp only [Option.bind_some, payload6]
      cases hlater : later6 pkt with
      | true =>
          have hsame : n = (data6 pkt).length := by
            rw [getNewPktlen6to4_eq h, if_neg (by simp [hlater])] at hn
            exact (Option.some.inj hn).symm
          simp only [reduceIte]
          rw [poke?_skip (by simp), Iphdr.bytes_length, Nat.sub_self,
            poke?_all (by simp [hsame])]
      | false =>
          simp only [Bool.false_eq_true, reduceIte]
          rw [Iphdr.peek_saddr, Iphdr.peek_daddr, suffix?_append (Iphdr.bytes_length _),
            List.take_left' (Iphdr.bytes_length _), Option.map_eq_bind]
          rfl

end Headers6

/-- A packet without its headers is looked into too. -/
theorem ip6Mapping_short (e : ByteOrder) (fresh : Nat → UInt8) {pkt : List UInt8}
    (h : ¬Headers6 pkt) : ip6Mapping e fresh pkt = none := by
  rw [Option.eq_none_iff_forall_ne_some]
  intro out hout
  simp only [ip6Mapping, Option.bind_eq_bind, Option.bind_eq_some_iff] at hout
  obtain ⟨nexthdr, -, data, -, n, -, r, hr, -⟩ := hout
  exact h (le_of_iphdr6to4Trans hr).1

end UbntSdk.Ivi
