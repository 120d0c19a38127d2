/-
UbntSdk.Ivi.LengthTheorems — the lengths that translated packets announce.

`ip_mapping` and `ip6_mapping` allocate the new packet with a length in 32
bits and announce the old 16-bit length plus a supplement. Both come from
the same numbers, so they differ by a multiple of 2^16 at most
(`ipMapping_announces`, `ip6Mapping_announces`), and agree exactly when the
new length still fits the field (`mapping_lengths_iff`). Packets grow by a
fragment header, by the header that an ICMP error quotes, and from IPv6 to
IPv4 by the header that the length of IPv6 leaves out.
-/
import UbntSdk.Ivi.Datagram

namespace UbntSdk.Ivi

open UbntSdk.Lib

/-! ## What a packet grows by -/

/-- The bytes that an IPv4 header gains apart from the plain IPv6 header: a
fragment header, or nothing. -/
def fragmentGrowth (hdr : List UInt8) : Nat :=
  let fragOff := (load16? .big hdr 6).getD 0
  if fragOff &&& 0x4000 = 0 ∨ fragOff &&& 0x2000 ≠ 0 then 8 else 0

/-- The bytes that the header quoted in an IPv4 packet gains: only an ICMP
message other than an echo has one, and only the first fragment is looked
into. -/
def quoteGrowth (pkt : List UInt8) : Nat :=
  if pkt.getD 9 0 = IPPROTO_ICMP ∧ (load16? .big pkt 6).getD 0 &&& 0x1FFF = 0 ∧
      ¬(pkt.getD 20 0 = ICMP_ECHO ∨ pkt.getD 20 0 = ICMP_ECHOREPLY) then
    20 + fragmentGrowth (pkt.drop (IP_HEADER_LEN + ICMP_HEADER_LEN))
  else 0

/-- The bytes that the header quoted in an IPv6 packet loses. -/
def quoteShrink (pkt : List UInt8) : Nat :=
  if nexthdr6 pkt = IPPROTO_ICMPV6 ∧ later6 pkt = false ∧
      ¬((data6 pkt).getD 0 0 = ICMPV6_ECHO_REQUEST ∨ (data6 pkt).getD 0 0 = ICMPV6_ECHO_REPLY) then
    if (data6 pkt).getD (ICMP_HEADER_LEN + 6) 0 = NEXTHDR_FRAGMENT then 28 else 20
  else 0

theorem headerLen6_eq (h : Iphdr) (data : List UInt8) :
    h.headerLen6 = IPV6_HEADER_LEN + fragmentGrowth (h.bytes ++ data) := by
  have hext : (h.fragOff &&& 0x4000 = 0 ∨ h.fragOff &&& 0x2000 ≠ 0) ↔ h.extended = true := by
    simp [Iphdr.extended, Iphdr.df, Iphdr.mf]
  simp only [fragmentGrowth, h.load_fragOff, Option.getD_some, hext, Iphdr.headerLen6,
    IPV6_HEADER_LEN]
  split <;> rfl

theorem eq_of_getNewHeaderlen4to6 {hdr : List UInt8} {n : Nat}
    (h : getNewHeaderlen4to6 hdr = some n) : n = IPV6_HEADER_LEN + fragmentGrowth hdr := by
  obtain ⟨fragOff, hload, h⟩ := Option.bind_eq_some_iff.mp h
  rw [fragmentGrowth, hload, Option.getD_some]
  by_cases hdf : fragOff &&& 0x4000 = 0
  · rw [if_pos hdf] at h
    rw [if_pos (Or.inl hdf)]
    exact (Option.some.inj h).symm
  · by_cases hmf : fragOff &&& 0x2000 ≠ 0
    · rw [if_neg hdf, if_pos hmf] at h
      rw [if_pos (Or.inr hmf)]
      exact (Option.some.inj h).symm
    · rw [if_neg hdf, if_neg hmf] at h
      rw [if_neg (not_or.mpr ⟨hdf, hmf⟩)]
      exact (Option.some.inj h).symm

/-- `get_new_pktlen4to6` adds what the quoted header gains. -/
theorem eq_of_getNewPktlen4to6 {h : Iphdr} {data : List UInt8} {n : Nat}
    (hn : getNewPktlen4to6 (h.bytes ++ data) data = some n) :
    n = data.length + quoteGrowth (h.bytes ++ data) := by
  have hproto : (h.bytes ++ data).getD 9 0 = h.protocol := by
    rw [List.getD_eq_getElem?_getD, h.get_protocol, Option.getD_some]
  have htype : (h.bytes ++ data).getD 20 0 = data.getD 0 0 := by
    rw [List.getD_eq_getElem?_getD, List.getElem?_append_right (by simp), Iphdr.bytes_length,
      List.getD_eq_getElem?_getD]
  have hquote : (h.bytes ++ data).drop (IP_HEADER_LEN + ICMP_HEADER_LEN) =
      data.drop ICMP_HEADER_LEN := by
    rw [← List.drop_drop, IP_HEADER_LEN, List.drop_left' h.bytes_length]
  rw [getNewPktlen4to6_eq] at hn
  simp only [quoteGrowth, hproto, h.load_fragOff, Option.getD_some, h.offset_eq_zero_iff, htype,
    hquote]
  by_cases hicmp : h.protocol = IPPROTO_ICMP ∧ h.offset = 0
  · rw [if_pos hicmp] at hn
    obtain ⟨type, htype, hn⟩ := Option.bind_eq_some_iff.mp hn
    rw [List.getD_eq_getElem?_getD, htype, Option.getD_some]
    by_cases hecho : type = ICMP_ECHO ∨ type = ICMP_ECHOREPLY
    · rw [if_pos hecho] at hn
      rw [if_neg fun hc => hc.2.2 hecho]
      exact (Option.some.inj hn).symm
    · rw [if_neg hecho] at hn
      obtain ⟨m, hm, hn⟩ := Option.bind_eq_some_iff.mp hn
      have hlen := eq_of_getNewHeaderlen4to6 hm
      rw [if_pos ⟨hicmp.1, hicmp.2, hecho⟩, ← Option.some.inj hn, hlen]
      simp only [IPV6_HEADER_LEN, IP_HEADER_LEN]
      omega
  · rw [if_neg hicmp] at hn
    rw [if_neg fun hc => hicmp ⟨hc.1, hc.2.1⟩]
    exact (Option.some.inj hn).symm

/-- `get_new_pktlen6to4` takes off what the quoted header loses. -/
theorem add_of_getNewPktlen6to4 {pkt : List UInt8} (h : Headers6 pkt) {n : Nat}
    (hn : getNewPktlen6to4 pkt (data6 pkt) = some n) :
    n + quoteShrink pkt = (data6 pkt).length := by
  have hsub : ∀ {k}, sub? (data6 pkt).length k = some n → n + k = (data6 pkt).length := by
    intro k hk
    unfold sub? at hk
    split at hk
    · rw [← Option.some.inj hk]
      omega
    · cases hk
  rw [getNewPktlen6to4_eq h] at hn
  by_cases hicmp : nexthdr6 pkt = IPPROTO_ICMPV6 ∧ later6 pkt = false
  · rw [if_pos hicmp] at hn
    obtain ⟨type, htype, hn⟩ := Option.bind_eq_some_iff.mp hn
    rw [quoteShrink, List.getD_eq_getElem?_getD, htype, Option.getD_some]
    by_cases hecho : type = ICMPV6_ECHO_REQUEST ∨ type = ICMPV6_ECHO_REPLY
    · rw [if_pos hecho] at hn
      rw [if_neg fun hc => hc.2.2 hecho]
      exact (Option.some.inj hn).symm
    · rw [if_neg hecho] at hn
      obtain ⟨quoted, hquoted, hn⟩ := Option.bind_eq_some_iff.mp hn
      rw [if_pos ⟨hicmp.1, hicmp.2, hecho⟩, List.getD_eq_getElem?_getD, hquoted, Option.getD_some]
      by_cases hf : quoted = NEXTHDR_FRAGMENT
      · rw [if_pos hf] at hn ⊢
        exact hsub hn
      · rw [if_neg hf] at hn ⊢
        exact hsub hn
  · rw [if_neg hicmp] at hn
    rw [quoteShrink, if_neg fun hc => hicmp ⟨hc.1, hc.2.1⟩]
    exact (Option.some.inj hn).symm

/-! ## What is announced -/

/-- The length that an IPv4 header announces. -/
def totLen4 (pkt : List UInt8) : Option Nat := (load16? .big pkt 2).map UInt16.toNat

/-- The length that an IPv6 header announces, of what is behind it. -/
def payloadLen? (pkt : List UInt8) : Option Nat := (load16? .big pkt 4).map UInt16.toNat

/-- A number cut to 16 bits. -/
theorem toNat_ofInt16_natCast (n : Nat) : (UInt16.ofInt (n : Int)).toNat = n % 2 ^ 16 := by
  have h := toNat_ofInt16 n
  omega

theorem dataTrans6to4_length {e : ByteOrder} {new old saddr daddr r : List UInt8} {protocol : UInt8}
    (h : dataTrans6to4 e new old saddr daddr protocol = some r) : r.length = new.length := by
  unfold dataTrans6to4 at h
  split at h
  · obtain ⟨t, ht, rfl⟩ := Option.map_eq_some_iff.mp h
    exact (icmp6to4Trans_length ht).2.1
  split at h
  · obtain ⟨t, ht, rfl⟩ := Option.map_eq_some_iff.mp h
    exact transportTrans_length ht
  split at h
  · obtain ⟨t, ht, rfl⟩ := Option.map_eq_some_iff.mp h
    exact transportTrans_length ht
  · exact poke?_length h

section Announces

variable {e : ByteOrder} {fresh : Nat → UInt8} {pkt out : List UInt8}

/-- An IPv4 packet of the length it says becomes an IPv6 packet that
announces its length in 16 bits. -/
theorem ipMapping_announces {srcPrefix dstPrefix : UInt32} (hlen : totLen4 pkt = some pkt.length)
    (hout : ipMapping e fresh pkt srcPrefix dstPrefix = some out) :
    out.length + IP_HEADER_LEN =
        pkt.length + IPV6_HEADER_LEN + fragmentGrowth pkt + quoteGrowth pkt ∧
      payloadLen? out = some ((out.length - IPV6_HEADER_LEN) % 2 ^ 16) := by
  have h20 : 20 ≤ pkt.length := by
    by_contra hshort
    rw [ipMapping_short e fresh (by omega)] at hout
    cases hout
  obtain ⟨h, data, rfl⟩ := Iphdr.exists_append h20
  rw [totLen4, h.load_totLen, Option.map_some] at hlen
  have htot : h.totLen.toNat = 20 + data.length := by simpa using hlen
  have hgrow := headerLen6_eq h data
  obtain ⟨supplement, body, rfl, hn, hsupp⟩ := ipMapping_shape hout
  have hquote := eq_of_getNewPktlen4to6 hn
  rw [List.length_append, Iphdr.header6_length, List.length_append, Iphdr.bytes_length]
  refine ⟨by simp only [IP_HEADER_LEN]; omega, ?_⟩
  -- the sum that is cut to the field is the new length
  have hsum : (h.totLen.toNat : Int) - IP_HEADER_LEN + supplement =
      ((h.headerLen6 + body.length - IPV6_HEADER_LEN : Nat) : Int) := by
    simp only [IP_HEADER_LEN, IPV6_HEADER_LEN] at hgrow hsupp ⊢
    omega
  have hload (nexthdr : UInt8) (rest : List UInt8) :
      payloadLen? ((h.to6 e srcPrefix dstPrefix supplement nexthdr).bytes ++ rest) =
        some ((h.headerLen6 + body.length - IPV6_HEADER_LEN) % 2 ^ 16) := by
    rw [payloadLen?, Ip6hdr.load_payloadLen, Option.map_some, Iphdr.to6, hsum,
      toNat_ofInt16_natCast]
  unfold Iphdr.header6
  split
  · rw [List.append_assoc]
    exact hload _ _
  · exact hload _ _

/-- An IPv6 packet of the length it says becomes an IPv4 packet that
announces its length in 16 bits. -/
theorem ip6Mapping_announces (hlen : (payloadLen? pkt).map (· + IPV6_HEADER_LEN) = some pkt.length)
    (hout : ip6Mapping e fresh pkt = some out) :
    out.length + quoteLen6 pkt + quoteShrink pkt = pkt.length + IP_HEADER_LEN ∧
      totLen4 out = some (out.length % 2 ^ 16) := by
  have h6 : Headers6 pkt := by
    by_contra hshort
    rw [ip6Mapping_short e fresh hshort] at hout
    cases hout
  obtain ⟨hdr, htot, hmap⟩ := ip6Mapping_eq e h6
  rw [hmap] at hout
  obtain ⟨n, hn, hout⟩ := Option.bind_eq_some_iff.mp hout
  obtain ⟨body, hbody, rfl⟩ := Option.map_eq_some_iff.mp hout
  have hquote := add_of_getNewPktlen6to4 h6 hn
  have hdata : (data6 pkt).length + quoteLen6 pkt = pkt.length := by
    have hle := h6.quoteLen_le
    rw [data6, List.length_drop]
    omega
  have hbodylen : body.length = n := by
    unfold payload6 at hbody
    split at hbody
    · rename_i hlater
      rw [getNewPktlen6to4_eq h6, if_neg fun hc => by simp [hlater] at hc] at hn
      rw [← Option.some.inj hn, ← Option.some.inj hbody]
    · rw [dataTrans6to4_length hbody, allocSkb_length]
  have hpayload : payloadLen6 pkt + IPV6_HEADER_LEN = pkt.length := by
    unfold payloadLen? at hlen
    cases hload : load16? .big pkt 4 with
    | none =>
        rw [hload] at hlen
        cases hlen
    | some len =>
        rw [hload] at hlen
        rw [payloadLen6, hload]
        exact Option.some.inj hlen
  have hsum : (payloadLen6 pkt : Int) + IP_HEADER_LEN +
      ((n : Int) - (data6 pkt).length + IPV6_HEADER_LEN - quoteLen6 pkt) = ((20 + n : Nat) : Int) := by
    simp only [IP_HEADER_LEN]
    omega
  rw [List.length_append, Iphdr.bytes_length, hbodylen]
  refine ⟨by simp only [IP_HEADER_LEN]; omega, ?_⟩
  rw [totLen4, Iphdr.load_totLen, Option.map_some, htot n, hsum, toNat_ofInt16_natCast]

end Announces

/-! ## Where the two lengths agree -/

/-- The new lengths fit their fields. -/
def LengthFits4 (pkt : List UInt8) : Prop :=
  pkt.length + fragmentGrowth pkt + quoteGrowth pkt ≤ 65535 + IP_HEADER_LEN

def LengthFits6 (pkt : List UInt8) : Prop :=
  pkt.length + IP_HEADER_LEN ≤ 65535 + quoteLen6 pkt + quoteShrink pkt

instance (pkt : List UInt8) : Decidable (LengthFits4 pkt) := inferInstanceAs (Decidable (_ ≤ _))

instance (pkt : List UInt8) : Decidable (LengthFits6 pkt) := inferInstanceAs (Decidable (_ ≤ _))

/-- A translated packet announces its length exactly when the length fits
the field of 16 bits, in both directions. -/
theorem mapping_lengths_iff (e : ByteOrder) (fresh : Nat → UInt8) (pkt out : List UInt8) :
    (∀ srcPrefix dstPrefix, totLen4 pkt = some pkt.length →
      ipMapping e fresh pkt srcPrefix dstPrefix = some out →
        (payloadLen? out = some (out.length - IPV6_HEADER_LEN) ↔ LengthFits4 pkt)) ∧
    ((payloadLen? pkt).map (· + IPV6_HEADER_LEN) = some pkt.length →
      ip6Mapping e fresh pkt = some out →
        (totLen4 out = some out.length ↔ LengthFits6 pkt)) := by
  have hcut (n : Nat) : some (n % 2 ^ 16) = some n ↔ n ≤ 65535 := by
    rw [Option.some.injEq]
    omega
  constructor
  · intro srcPrefix dstPrefix hlen hout
    obtain ⟨hsum, hfield⟩ := ipMapping_announces hlen hout
    rw [hfield, hcut, LengthFits4]
    simp only [IP_HEADER_LEN, IPV6_HEADER_LEN] at hsum ⊢
    omega
  · intro hlen hout
    obtain ⟨hsum, hfield⟩ := ip6Mapping_announces hlen hout
    rw [hfield, hcut, LengthFits6]
    omega

/-- A UDP packet without data, in IPv4 and in IPv6. -/
def shortUdp : List UInt8 :=
  [0x45, 0, 0, 28, 0, 0, 0x40, 0, 64, 17, 0, 0, 10, 0, 0, 1, 10, 0, 0, 2, 0, 7, 0, 7, 0, 8, 0, 0]

def shortUdp6 : List UInt8 :=
  [0x60, 0, 0, 0, 0, 8, 17, 64] ++ (List.replicate 32 0 ++ [0, 7, 0, 7, 0, 8, 0, 0])

theorem mapping_lengths_shortUdp :
    (∃ out, ipMapping .big (fun _ => 0) shortUdp 0 0 = some out ∧
      payloadLen? out = some (out.length - IPV6_HEADER_LEN)) ∧
    ∃ out, ip6Mapping .big (fun _ => 0) shortUdp6 = some out ∧ totLen4 out = some out.length := by
  have hsome4 : (ipMapping .big (fun _ => 0) shortUdp 0 0).isSome := by decide +kernel
  have hsome6 : (ip6Mapping .big (fun _ => 0) shortUdp6).isSome := by decide +kernel
  obtain ⟨out4, hout4⟩ := Option.isSome_iff_exists.mp hsome4
  obtain ⟨out6, hout6⟩ := Option.isSome_iff_exists.mp hsome6
  refine ⟨⟨out4, hout4, ?_⟩, ⟨out6, hout6, ?_⟩⟩
  · exact ((mapping_lengths_iff .big _ shortUdp out4).1 0 0 (by decide) hout4).mpr (by decide)
  · exact ((mapping_lengths_iff .big _ shortUdp6 out6).2 (by decide) hout6).mpr (by decide)

/-- A header that announces 65516 bytes and no further header. -/
def longHeader : Ip6hdr :=
  ⟨0x60000000, 65516, 59, 64, ⟨List.replicate 16 0, rfl⟩, ⟨List.replicate 16 0, rfl⟩⟩

/-- The IPv6 packet is as long as it says; the IPv4 packet has 65536 bytes
and announces none. -/
theorem mapping_lengths_fail_longHeader :
    ∃ out, (payloadLen? (longHeader.bytes ++ List.replicate 65516 0)).map (· + IPV6_HEADER_LEN) =
        some (longHeader.bytes ++ List.replicate 65516 0).length ∧
      ip6Mapping .big (fun _ => 0) (longHeader.bytes ++ List.replicate 65516 0) = some out ∧
      out.length = 65536 ∧ totLen4 out = some 0 := by
  have hnext : (longHeader.bytes ++ List.replicate 65516 0).getD 6 0 = 59 := getD_nexthdr _ _
  have hne : (59 : UInt8) ≠ NEXTHDR_FRAGMENT := by decide
  have hnext6 : nexthdr6 (longHeader.bytes ++ List.replicate 65516 0) = 59 := by
    rw [nexthdr6, hnext, if_neg hne]
  have hlen : (longHeader.bytes ++ List.replicate 65516 0).length = 65556 := by
    rw [List.length_append, Ip6hdr.bytes_length, List.length_replicate]
  have hpayload : (payloadLen? (longHeader.bytes ++ List.replicate 65516 0)).map
      (· + IPV6_HEADER_LEN) = some (longHeader.bytes ++ List.replicate 65516 0).length := by
    rw [payloadLen?, Ip6hdr.load_payloadLen, hlen]
    rfl
  have h6 : Headers6 (longHeader.bytes ++ List.replicate 65516 0) := by
    refine ⟨by rw [hlen]; omega, fun hf => ?_⟩
    rw [hnext] at hf
    exact absurd hf hne
  have hsome : (ip6Mapping .big (fun _ => 0) (longHeader.bytes ++ List.replicate 65516 0)).isSome := by
    rw [ip6Mapping_isSome .big _ h6, hnext6]
    exact fun _ => ⟨fun h => absurd h (by decide), fun h => absurd h (by decide)⟩
  obtain ⟨out, hout⟩ := Option.isSome_iff_exists.mp hsome
  obtain ⟨hsum, hfield⟩ := ip6Mapping_announces hpayload hout
  have hquote : quoteLen6 (longHeader.bytes ++ List.replicate 65516 0) = 40 := by
    rw [quoteLen6, hnext, if_neg hne]
  have hshrink : quoteShrink (longHeader.bytes ++ List.replicate 65516 0) = 0 := by
    rw [quoteShrink, hnext6, if_neg fun h => absurd h.1 (by decide)]
  have hout65536 : out.length = 65536 := by
    rw [hquote, hshrink, hlen, IP_HEADER_LEN] at hsum
    omega
  exact ⟨out, hpayload, hout, hout65536, by simp [hfield, hout65536]⟩

end UbntSdk.Ivi
