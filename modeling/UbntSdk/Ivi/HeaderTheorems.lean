/-
UbntSdk.Ivi.HeaderTheorems — what the translation of the headers computes,
and when it can be undone.

`Iphdr` and `Ip6hdr` are the headers as records, and any bytes of the right
number are those of a record. The two translations are described on records
(`iphdr4to6Trans_plain`, `iphdr4to6Trans_fragment`, `iphdr6to4Trans_plain`,
`iphdr6to4Trans_fragment`).

Going to IPv6 and back restores a header whose fragment header is read where
it was written. `get_new_headerlen4to6` does not look at the offset, so the
last fragment of a packet with DF set is sent as a whole packet.
-/
import UbntSdk.Ivi.Header

namespace UbntSdk.Ivi

open UbntSdk.Lib

/-! ## IPv4 headers -/

/-- `struct iphdr`, with the numbers that `ntohs` and `ntohl` give. -/
structure Iphdr where
  verIhl : UInt8
  tos : UInt8
  totLen : UInt16
  id : UInt16
  fragOff : UInt16
  ttl : UInt8
  protocol : UInt8
  check : UInt16
  saddr : UInt32
  daddr : UInt32

namespace Iphdr

def bytes (h : Iphdr) : List UInt8 :=
  [h.verIhl] ++ ([h.tos] ++ (word16 .big h.totLen ++ (word16 .big h.id ++ (word16 .big h.fragOff ++
    ([h.ttl] ++ ([h.protocol] ++ (word16 .big h.check ++ (be32 h.saddr ++ be32 h.daddr))))))))

@[simp] theorem bytes_length (h : Iphdr) : h.bytes.length = 20 := by simp [bytes]

/-- Any twenty bytes are a header. -/
theorem exists_bytes {bs : List UInt8} (h : bs.length = 20) : ∃ hdr : Iphdr, hdr.bytes = bs := by
  match bs, h with
  | [a0, a1, a2, a3, a4, a5, a6, a7, a8, a9, b0, b1, b2, b3, b4, b5, b6, b7, b8, b9], _ =>
      refine ⟨⟨a0, a1, ofWord16 .big [a2, a3], ofWord16 .big [a4, a5], ofWord16 .big [a6, a7], a8, a9,
        ofWord16 .big [b0, b1], ofBe32 [b2, b3, b4, b5], ofBe32 [b6, b7, b8, b9]⟩, ?_⟩
      simp [bytes, word16_ofWord16, be32_ofBe32]

/-- A packet that is long enough begins with a header. -/
theorem exists_append {bs : List UInt8} (h : 20 ≤ bs.length) :
    ∃ (hdr : Iphdr) (data : List UInt8), bs = hdr.bytes ++ data := by
  obtain ⟨hdr, hb⟩ := exists_bytes (List.length_take_of_le h)
  exact ⟨hdr, bs.drop 20, by rw [hb, List.take_append_drop]⟩

section Fields

variable (h : Iphdr) (data : List UInt8)

theorem get_ttl : (h.bytes ++ data)[8]? = some h.ttl := by
  simp [bytes, List.getElem?_append]

theorem get_protocol : (h.bytes ++ data)[9]? = some h.protocol := by
  simp [bytes, List.getElem?_append]

theorem load_totLen : load16? .big (h.bytes ++ data) 2 = some h.totLen := by
  simp only [bytes, List.append_assoc, load16?]
  simp only [peek?_skip, peek?_head, List.length_cons, List.length_nil, Nat.reduceAdd,
    Nat.reduceLeDiff, Nat.reduceSub, word16_length, Option.map_some, ofWord16_word16]

theorem peek_id : peek? (h.bytes ++ data) 4 2 = some (word16 .big h.id) := by
  simp only [bytes, List.append_assoc]
  simp only [peek?_skip, peek?_head, List.length_cons, List.length_nil, Nat.reduceAdd,
    Nat.reduceLeDiff, Nat.reduceSub, word16_length]

theorem peek_fragOff : peek? (h.bytes ++ data) 6 2 = some (word16 .big h.fragOff) := by
  simp only [bytes, List.append_assoc]
  simp only [peek?_skip, peek?_head, List.length_cons, List.length_nil, Nat.reduceAdd,
    Nat.reduceLeDiff, Nat.reduceSub, word16_length]

theorem peek_saddr : peek? (h.bytes ++ data) 12 4 = some (be32 h.saddr) := by
  simp only [bytes, List.append_assoc]
  simp only [peek?_skip, peek?_head, List.length_cons, List.length_nil, Nat.reduceAdd,
    Nat.reduceLeDiff, Nat.reduceSub, word16_length, be32_length]

theorem peek_daddr : peek? (h.bytes ++ data) 16 4 = some (be32 h.daddr) := by
  simp only [bytes, List.append_assoc]
  simp only [peek?_skip, peek?_head, List.length_cons, List.length_nil, Nat.reduceAdd,
    Nat.reduceLeDiff, Nat.reduceSub, word16_length, be32_length]

end Fields

/-- The flag "don't fragment". -/
def df (h : Iphdr) : Bool := h.fragOff &&& 0x4000 ≠ 0

/-- The flag "more fragments". -/
def mf (h : Iphdr) : Bool := h.fragOff &&& 0x2000 ≠ 0

/-- The offset, in units of 8 bytes. -/
def offset (h : Iphdr) : Nat := (h.fragOff &&& 0x1FFF).toNat

/-- The header is given a fragment header. -/
def extended (h : Iphdr) : Bool := !h.df || h.mf

end Iphdr

/-- `get_new_headerlen4to6` looks at the flags. -/
theorem getNewHeaderlen4to6_eq (h : Iphdr) (data : List UInt8) :
    getNewHeaderlen4to6 (h.bytes ++ data) = some (if h.extended then 48 else 40) := by
  simp only [getNewHeaderlen4to6, load16?, h.peek_fragOff, Option.map_some, ofWord16_word16,
    Option.bind_eq_bind, Option.bind_some, Option.pure_def, Iphdr.extended, Iphdr.df, Iphdr.mf]
  by_cases hd : h.fragOff &&& 0x4000 = 0
  · simp [hd, IPV6_HEADER_LEN]
  · by_cases hm : h.fragOff &&& 0x2000 = 0 <;> simp [hd, hm, IPV6_HEADER_LEN]

/-! ## IPv6 headers -/

/-- The sixteen bytes of an address. -/
abbrev Addr6 := { bs : List UInt8 // bs.length = 16 }

/-- `struct ipv6hdr`. -/
structure Ip6hdr where
  flow : UInt32
  payloadLen : UInt16
  nexthdr : UInt8
  hopLimit : UInt8
  saddr : Addr6
  daddr : Addr6

/-- `struct frag_hdr`. -/
structure FragHdr where
  nexthdr : UInt8
  reserved : UInt8
  fragOff : UInt16
  identification : UInt32

def Ip6hdr.bytes (h : Ip6hdr) : List UInt8 :=
  be32 h.flow ++ (word16 .big h.payloadLen ++ ([h.nexthdr] ++ ([h.hopLimit] ++
    (h.saddr.1 ++ h.daddr.1))))

def FragHdr.bytes (h : FragHdr) : List UInt8 :=
  [h.nexthdr] ++ ([h.reserved] ++ (word16 .big h.fragOff ++ be32 h.identification))

@[simp] theorem Ip6hdr.bytes_length (h : Ip6hdr) : h.bytes.length = 40 := by
  simp [bytes, h.saddr.2, h.daddr.2]

@[simp] theorem FragHdr.bytes_length (h : FragHdr) : h.bytes.length = 8 := by simp [bytes]

theorem mappingAddress4to6_length (e : ByteOrder) (oldv4 bbprefix fragmentation : UInt32) :
    (mappingAddress4to6 e oldv4 bbprefix fragmentation).length = 16 := by
  cases e <;> simp [mappingAddress4to6]

/-- The new address of an old one. -/
def mapped (e : ByteOrder) (oldv4 bbprefix : UInt32) : Addr6 :=
  ⟨mappingAddress4to6 e (ofWord32 e (be32 oldv4)) bbprefix 0, mappingAddress4to6_length _ _ _ _⟩

/-- The new header of an old one. -/
def Iphdr.to6 (h : Iphdr) (e : ByteOrder) (srcPrefix dstPrefix : UInt32) (supplement : Int)
    (nexthdr : UInt8) : Ip6hdr where
  flow := 0x60000000
  payloadLen := UInt16.ofInt (h.totLen.toNat - IP_HEADER_LEN + supplement)
  nexthdr
  hopLimit := h.ttl
  saddr := mapped e h.saddr srcPrefix
  daddr := mapped e h.daddr dstPrefix

/-- The identification that ends up in the fragment header: the half word is
widened on the host. -/
def widened (e : ByteOrder) (id : UInt16) : UInt32 :=
  ofBe32 (word32 e (ofWord16 e (word16 .big id)).toUInt32)

/-- The fragment header of an old header. -/
def Iphdr.frag6 (h : Iphdr) (e : ByteOrder) (reserved : UInt8) : FragHdr where
  nexthdr := nexthdrOf h.protocol
  reserved
  fragOff := h.fragOff
  identification := widened e h.id

/-- The header part of `iphdr4to6_trans`. -/
theorem iphdr4to6Trans_eq (e : ByteOrder) (h : Iphdr) (data : List UInt8) {a : List UInt8}
    (ha : a.length = 40) (rest : List UInt8) (srcPrefix dstPrefix : UInt32) (supplement : Int)
    (fragment : Nat) :
    iphdr4to6Trans e (a ++ rest) (h.bytes ++ data) srcPrefix dstPrefix supplement fragment =
      let nexthdr := nexthdrOf h.protocol
      let new := (h.to6 e srcPrefix dstPrefix supplement nexthdr).bytes ++ rest
      if fragment ≠ 0 then
        (fragHdr4to6Trans e new (h.bytes ++ data) nexthdr).bind fun new => some (nexthdr, new)
      else some (nexthdr, new) := by
  -- the six fields of the new header
  obtain ⟨x0, a4, h0, ha4, rfl⟩ := exists_split 4 36 ha
  obtain ⟨x4, a6, h4, ha6, rfl⟩ := exists_split 2 34 ha4
  obtain ⟨x6, a7, h6, ha7, rfl⟩ := exists_split 1 33 ha6
  obtain ⟨x7, a8, h7, ha8, rfl⟩ := exists_split 1 32 ha7
  obtain ⟨x8, x24, h8, h24, rfl⟩ := exists_split 16 16 ha8
  simp only [iphdr4to6Trans, Option.bind_eq_bind, List.append_assoc, h.get_ttl, h.get_protocol,
    h.load_totLen, load32?, h.peek_saddr, h.peek_daddr, Option.map_some, Option.bind_some, store16?,
    Option.pure_def]
  simp only [poke?_skip, poke?_head, List.length_cons, List.length_nil, Nat.zero_add,
    Nat.reduceLeDiff, Nat.reduceSub, word16_length, be32_length, mappingAddress4to6_length,
    h0, h4, h6, h7, h8, h24, Option.map_some, Option.bind_some]
  simp only [Iphdr.to6, Ip6hdr.bytes, mapped, List.append_assoc]

/-- Without a fragment header. -/
theorem iphdr4to6Trans_plain (e : ByteOrder) (h : Iphdr) (data : List UInt8) {a : List UInt8}
    (ha : a.length = 40) (rest : List UInt8) (srcPrefix dstPrefix : UInt32) (supplement : Int) :
    iphdr4to6Trans e (a ++ rest) (h.bytes ++ data) srcPrefix dstPrefix supplement 0 =
      some (nexthdrOf h.protocol,
        (h.to6 e srcPrefix dstPrefix supplement (nexthdrOf h.protocol)).bytes ++ rest) := by
  rw [iphdr4to6Trans_eq e h data ha]
  rfl

/-- With a fragment header: its second byte is what was in the buffer. -/
theorem iphdr4to6Trans_fragment (e : ByteOrder) (h : Iphdr) (data : List UInt8) {a f : List UInt8}
    (ha : a.length = 40) (hf : f.length = 6) (first reserved : UInt8) (rest : List UInt8)
    (srcPrefix dstPrefix : UInt32) (supplement : Int) :
    iphdr4to6Trans e (a ++ ([first] ++ ([reserved] ++ (f ++ rest)))) (h.bytes ++ data) srcPrefix
        dstPrefix supplement 8 =
      some (nexthdrOf h.protocol,
        (h.to6 e srcPrefix dstPrefix supplement NEXTHDR_FRAGMENT).bytes ++
          ((h.frag6 e reserved).bytes ++ rest)) := by
  rw [iphdr4to6Trans_eq e h data ha]
  obtain ⟨f2, f4, hf2, hf4, rfl⟩ := exists_split 2 4 hf
  simp only [fragHdr4to6Trans, IPV6_HEADER_LEN, Option.bind_eq_bind, load16?, h.peek_id,
    h.peek_fragOff, Option.map_some, Option.bind_some, store32?, Iphdr.to6, Ip6hdr.bytes, mapped,
    List.append_assoc]
  simp only [poke?_skip, poke?_head, List.length_cons, List.length_nil, Nat.zero_add, Nat.reduceAdd,
    Nat.reduceLeDiff, Nat.reduceSub, word16_length, be32_length, mappingAddress4to6_length,
    hf2, hf4, word32_length, Option.map_some, Option.bind_some]
  simp only [Iphdr.frag6, FragHdr.bytes, widened, List.append_assoc]
  have hback (x : UInt32) : be32 (ofBe32 (word32 e x)) = word32 e x :=
    word32_ofWord32 .big (word32_length e x)
  rw [if_pos (by decide), hback]

/-- The length of the new header. -/
def Iphdr.headerLen6 (h : Iphdr) : Nat := if h.extended then 48 else 40

/-- The new header, with the fragment header if there is one; `was` is what
the buffer held. -/
def Iphdr.header6 (h : Iphdr) (e : ByteOrder) (srcPrefix dstPrefix : UInt32) (supplement : Int)
    (was : List UInt8) : List UInt8 :=
  if h.extended then
    (h.to6 e srcPrefix dstPrefix supplement NEXTHDR_FRAGMENT).bytes ++
      (h.frag6 e (was.getD 41 0)).bytes
  else (h.to6 e srcPrefix dstPrefix supplement (nexthdrOf h.protocol)).bytes

@[simp] theorem Iphdr.header6_length (h : Iphdr) (e : ByteOrder) (srcPrefix dstPrefix : UInt32)
    (supplement : Int) (was : List UInt8) :
    (h.header6 e srcPrefix dstPrefix supplement was).length = h.headerLen6 := by
  unfold header6 headerLen6
  split <;> simp

/-- `iphdr4to6_trans` for the length that `get_new_headerlen4to6` gives. -/
theorem iphdr4to6Trans_header (e : ByteOrder) (h : Iphdr) (data : List UInt8) {was : List UInt8}
    (hw : was.length = h.headerLen6) (rest : List UInt8) (srcPrefix dstPrefix : UInt32)
    (supplement : Int) :
    iphdr4to6Trans e (was ++ rest) (h.bytes ++ data) srcPrefix dstPrefix supplement
        (h.headerLen6 - IPV6_HEADER_LEN) =
      some (nexthdrOf h.protocol, h.header6 e srcPrefix dstPrefix supplement was ++ rest) := by
  cases hext : h.extended with
  | false =>
      have h40 : h.headerLen6 = 40 := by simp [Iphdr.headerLen6, hext]
      have hplain := iphdr4to6Trans_plain e h data (hw.trans h40) rest srcPrefix dstPrefix supplement
      simpa [Iphdr.header6, h40, hext, IPV6_HEADER_LEN] using hplain
  | true =>
      have h48 : h.headerLen6 = 48 := by simp [Iphdr.headerLen6, hext]
      obtain ⟨a, f, ha, hf, rfl⟩ := exists_split 40 8 (hw.trans h48)
      obtain ⟨f0, f1, hf0, hf1, rfl⟩ := exists_split 1 7 hf
      obtain ⟨r, f2, hr, hf2, rfl⟩ := exists_split 1 6 hf1
      obtain ⟨first, rfl⟩ := List.length_eq_one_iff.mp hf0
      obtain ⟨reserved, rfl⟩ := List.length_eq_one_iff.mp hr
      have hreserved : (a ++ ([first] ++ ([reserved] ++ f2))).getD 41 0 = reserved := by
        rw [List.getD_eq_getElem?_getD, List.getElem?_append_right (by omega), ha]
        simp
      have hfrag := iphdr4to6Trans_fragment e h data ha hf2 first reserved rest srcPrefix dstPrefix
        supplement
      simp only [List.append_assoc, Iphdr.header6, h48, hext, if_true, hreserved]
      exact hfrag

theorem le_of_iphdr4to6Trans {e : ByteOrder} {h : Iphdr} {data new : List UInt8}
    {srcPrefix dstPrefix : UInt32} {supplement : Int} {fragment : Nat} {r : UInt8 × List UInt8}
    (hr : iphdr4to6Trans e new (h.bytes ++ data) srcPrefix dstPrefix supplement fragment = some r) :
    40 ≤ new.length := by
  simp only [iphdr4to6Trans, Option.bind_eq_bind, h.get_ttl, h.get_protocol, h.load_totLen, load32?,
    h.peek_saddr, h.peek_daddr, Option.map_some, Option.bind_some, store16?,
    Option.bind_eq_some_iff] at hr
  obtain ⟨n1, h1, n2, h2, n3, h3, n4, h4, n5, h5, n6, h6, -⟩ := hr
  have l1 := poke?_length h1
  have l2 := poke?_length h2
  have l3 := poke?_length h3
  have l4 := poke?_length h4
  have l5 := poke?_length h5
  have l6 := poke?_le h6
  rw [mappingAddress4to6_length] at l6
  omega

/-- The new header does not fit. -/
theorem iphdr4to6Trans_none (e : ByteOrder) (h : Iphdr) (data : List UInt8) {new : List UInt8}
    (hlen : new.length < h.headerLen6) (srcPrefix dstPrefix : UInt32) (supplement : Int) :
    iphdr4to6Trans e new (h.bytes ++ data) srcPrefix dstPrefix supplement
      (h.headerLen6 - IPV6_HEADER_LEN) = none := by
  rw [Option.eq_none_iff_forall_ne_some]
  intro r hr
  have h40 := le_of_iphdr4to6Trans hr
  cases hext : h.extended with
  | false =>
      simp only [Iphdr.headerLen6, hext] at hlen
      exact absurd hlen (by simpa using h40)
  | true =>
      -- the identification lies at the end of the fragment header
      simp only [Iphdr.headerLen6, hext, if_true] at hlen hr
      obtain ⟨a, rest, ha, hrest, rfl⟩ := exists_split 40 (new.length - 40)
        (show new.length = 40 + (new.length - 40) by omega)
      have h8 : 48 - IPV6_HEADER_LEN ≠ 0 := by decide
      rw [iphdr4to6Trans_eq e h data ha] at hr
      simp only [if_pos h8, fragHdr4to6Trans, Option.bind_eq_bind, load16?, h.peek_id,
        Option.map_some, Option.bind_some, store32?, Option.bind_eq_some_iff] at hr
      obtain ⟨n, ⟨n1, h1, n2, h2, n3, h3, -⟩, -⟩ := hr
      have l1 := poke?_length h1
      have l2 := poke?_length h2
      have l3 := poke?_le h3
      simp only [List.length_append, Ip6hdr.bytes_length, word32_length, IPV6_HEADER_LEN]
        at l1 l2 l3 hlen
      omega

/-! ## Back to IPv4 -/

namespace Ip6hdr

variable (h : Ip6hdr) (data : List UInt8)

theorem get_nexthdr : (h.bytes ++ data)[6]? = some h.nexthdr := by
  simp [bytes, List.getElem?_append]

theorem get_hopLimit : (h.bytes ++ data)[7]? = some h.hopLimit := by
  simp [bytes, List.getElem?_append]

theorem load_payloadLen : load16? .big (h.bytes ++ data) 4 = some h.payloadLen := by
  simp only [bytes, List.append_assoc, load16?]
  simp only [peek?_skip, peek?_head, Nat.reduceLeDiff, Nat.reduceSub, word16_length, be32_length,
    Option.map_some, ofWord16_word16]

theorem peek_saddr : peek? (h.bytes ++ data) 8 16 = some h.saddr.1 := by
  simp only [bytes, List.append_assoc]
  simp only [peek?_skip, peek?_head, List.length_cons, List.length_nil, Nat.reduceAdd,
    Nat.reduceLeDiff, Nat.reduceSub, word16_length, be32_length, h.saddr.2]

theorem peek_daddr : peek? (h.bytes ++ data) 24 16 = some h.daddr.1 := by
  simp only [bytes, List.append_assoc]
  simp only [peek?_skip, peek?_head, List.length_cons, List.length_nil, Nat.reduceAdd,
    Nat.reduceLeDiff, Nat.reduceSub, word16_length, be32_length, h.saddr.2, h.daddr.2]

end Ip6hdr

section FragHdr

variable (h : Ip6hdr) (f : FragHdr) (data : List UInt8)

theorem get_fragNexthdr : (h.bytes ++ (f.bytes ++ data))[40]? = some f.nexthdr := by
  rw [List.getElem?_append_right (by simp)]
  simp [FragHdr.bytes]

theorem peek_fragFragOff : peek? (h.bytes ++ (f.bytes ++ data)) 42 2 = some (word16 .big f.fragOff) := by
  simp only [FragHdr.bytes, List.append_assoc]
  simp only [peek?_skip, peek?_head, List.length_cons, List.length_nil, Nat.reduceAdd,
    Nat.reduceLeDiff, Nat.reduceSub, word16_length, Ip6hdr.bytes_length]

theorem peek_fragIdentification :
    peek? (h.bytes ++ (f.bytes ++ data)) 44 4 = some (be32 f.identification) := by
  simp only [FragHdr.bytes, List.append_assoc]
  simp only [peek?_skip, peek?_head, List.length_cons, List.length_nil, Nat.reduceAdd,
    Nat.reduceLeDiff, Nat.reduceSub, word16_length, be32_length, Ip6hdr.bytes_length]

end FragHdr

/-- The old address of a new one. -/
def unmapped (e : ByteOrder) (addr : Addr6) : UInt32 :=
  ofBe32 ((mappingAddress6to4 e addr.1).getD [])

theorem mappingAddress6to4_eq (e : ByteOrder) (addr : Addr6) :
    mappingAddress6to4 e addr.1 = some (be32 (unmapped e addr)) := by
  have hsome : ∃ bs, bs.length = 4 ∧ mappingAddress6to4 e addr.1 = some bs := by
    obtain ⟨bs, hlen⟩ := addr
    cases e with
    | big => exact ⟨bs.take 4, by simp [hlen], by simp [mappingAddress6to4, peek?, hlen]⟩
    | little =>
        have hget : bs[4]? = some bs[4] := List.getElem?_eq_getElem (by omega)
        by_cases hmark : bs[4] = 0xFF
        · refine ⟨(bs.drop 5).take 4, by simp [hlen], ?_⟩
          simp [mappingAddress6to4, hmark, peek?, hlen]
        · refine ⟨NO_ADDRESS, rfl, ?_⟩
          simp [mappingAddress6to4, hget, hmark]
  obtain ⟨bs, hlen, hbs⟩ := hsome
  have hback : be32 (ofBe32 bs) = bs := word32_ofWord32 .big hlen
  rw [unmapped, hbs, Option.getD_some, hback]

/-- The old header of a new one, before its checksum is filled in. -/
def Ip6hdr.unchecked (h : Ip6hdr) (e : ByteOrder) (supplement : Int) (id fragOff : UInt16)
    (protocol : UInt8) : Iphdr where
  verIhl := 0x45
  tos := 0
  totLen := UInt16.ofInt (h.payloadLen.toNat + IP_HEADER_LEN + supplement)
  id
  fragOff
  ttl := h.hopLimit
  protocol
  check := 0
  saddr := unmapped e h.saddr
  daddr := unmapped e h.daddr

/-- `ip_fast_csum` fills in the checksum. -/
def Iphdr.withChecksum (h : Iphdr) : Iphdr := { h with check := checksum (sum16 h.bytes) }

/-- Both ways to the fragment field and the identification end alike. -/
theorem iphdr6to4Trans_eq (e : ByteOrder) (h : Ip6hdr) {data : List UInt8} {protocol : UInt8}
    {id fragOff : UInt16}
    (hfrag : ∀ p q : List UInt8, p.length = 4 →
      fragHdr6to4Trans e (p ++ ([0, 0] ++ ([0, 0] ++ q))) (h.bytes ++ data) h.nexthdr =
        some (protocol, p ++ (word16 .big id ++ (word16 .big fragOff ++ q))))
    {a : List UInt8} (ha : a.length = 20) (rest : List UInt8) (supplement : Int) :
    iphdr6to4Trans e (a ++ rest) (h.bytes ++ data) supplement =
      some (protocolOf protocol,
        (h.unchecked e supplement id fragOff (protocolOf protocol)).withChecksum.bytes ++ rest) := by
  obtain ⟨x0, a1, h0, ha1, rfl⟩ := exists_split 1 19 ha
  obtain ⟨x1, a2, h1, ha2, rfl⟩ := exists_split 1 18 ha1
  obtain ⟨x2, a4, h2, ha4, rfl⟩ := exists_split 2 16 ha2
  obtain ⟨x4, a6, h4, ha6, rfl⟩ := exists_split 2 14 ha4
  obtain ⟨x6, a8, h6, ha8, rfl⟩ := exists_split 2 12 ha6
  obtain ⟨x8, a9, h8, ha9, rfl⟩ := exists_split 1 11 ha8
  obtain ⟨x9, a10, h9, ha10, rfl⟩ := exists_split 1 10 ha9
  obtain ⟨x10, a12, h10, ha12, rfl⟩ := exists_split 2 8 ha10
  obtain ⟨x12, x16, h12, h16, rfl⟩ := exists_split 4 4 ha12
  have hmid := fun q => hfrag ([0x45] ++ ([0] ++ x2)) q (by simp [h2])
  simp only [List.append_assoc] at hmid
  simp only [iphdr6to4Trans, Option.bind_eq_bind, List.append_assoc, h.get_nexthdr, h.get_hopLimit,
    h.load_payloadLen, h.peek_saddr, h.peek_daddr, mappingAddress6to4_eq, Option.bind_some,
    store16?, Option.pure_def]
  simp only [poke?_skip, poke?_head, hmid, List.length_cons, List.length_nil, Nat.zero_add,
    Nat.reduceAdd, Nat.reduceLeDiff, Nat.reduceSub, word16_length, be32_length,
    h0, h1, h2, h4, h6, h8, h9, h10, h12, h16, Option.map_some, Option.bind_some]
  -- the checksum is taken of the header as it is now
  have hzero : ([0, 0] : List UInt8) = word16 .big 0 := by decide
  have hpeek := @peek?_head (h.unchecked e supplement id fragOff (protocolOf protocol)).bytes rest
    IP_HEADER_LEN (Iphdr.bytes_length _).symm
  simp only [Ip6hdr.unchecked, Iphdr.bytes, List.append_assoc] at hpeek
  rw [hzero, hpeek]
  simp only [Iphdr.withChecksum, Ip6hdr.unchecked, Iphdr.bytes, List.append_assoc, Option.bind_some]

/-- Without a fragment header the packet is marked DF. -/
theorem iphdr6to4Trans_plain (e : ByteOrder) {h : Ip6hdr} (hn : h.nexthdr ≠ NEXTHDR_FRAGMENT)
    (data : List UInt8) {a : List UInt8} (ha : a.length = 20) (rest : List UInt8)
    (supplement : Int) :
    iphdr6to4Trans e (a ++ rest) (h.bytes ++ data) supplement =
      some (protocolOf h.nexthdr,
        (h.unchecked e supplement 0 0x4000 (protocolOf h.nexthdr)).withChecksum.bytes ++ rest) := by
  refine iphdr6to4Trans_eq e h (fun p q hp => ?_) ha rest supplement
  have hzero : ([0, 0] : List UInt8) = word16 .big 0 := by decide
  simp only [fragHdr6to4Trans, if_neg hn, store16?, Option.bind_eq_bind, Option.pure_def, hzero]
  simp only [poke?_skip, poke?_head, hp, Nat.reduceLeDiff, Nat.reduceSub, word16_length,
    Option.map_some, Option.bind_some]

/-- The identification that comes back: the word is cut on the host. -/
def narrowed (e : ByteOrder) (identification : UInt32) : UInt16 :=
  ofWord16 .big (word16 e (ofWord32 e (be32 identification)).toUInt16)

/-- With a fragment header. -/
theorem iphdr6to4Trans_fragment (e : ByteOrder) {h : Ip6hdr} (hn : h.nexthdr = NEXTHDR_FRAGMENT)
    (f : FragHdr) (data : List UInt8) {a : List UInt8} (ha : a.length = 20) (rest : List UInt8)
    (supplement : Int) :
    iphdr6to4Trans e (a ++ rest) (h.bytes ++ (f.bytes ++ data)) supplement =
      some (protocolOf f.nexthdr,
        (h.unchecked e supplement (narrowed e f.identification) f.fragOff
          (protocolOf f.nexthdr)).withChecksum.bytes ++ rest) := by
  refine iphdr6to4Trans_eq e h (fun p q hp => ?_) ha rest supplement
  have hid : word16 .big (narrowed e f.identification) =
      word16 e (ofWord32 e (be32 f.identification)).toUInt16 :=
    word16_ofWord16 .big (word16_length e _)
  simp only [fragHdr6to4Trans, if_pos hn, IPV6_HEADER_LEN, store16?, Option.bind_eq_bind, load32?,
    Nat.reduceAdd, get_fragNexthdr, peek_fragFragOff, peek_fragIdentification, Option.map_some,
    Option.bind_some, Option.pure_def, hid]
  simp only [poke?_skip, poke?_head, hp, List.length_cons, List.length_nil, Nat.zero_add,
    Nat.reduceAdd, Nat.reduceLeDiff, Nat.reduceSub, word16_length, Option.map_some, Option.bind_some]

/-- Any forty bytes are a header. -/
theorem Ip6hdr.exists_append {bs : List UInt8} (h : 40 ≤ bs.length) :
    ∃ (hdr : Ip6hdr) (data : List UInt8), bs = hdr.bytes ++ data := by
  obtain ⟨a, data, ha, -, rfl⟩ := exists_split 40 (bs.length - 40)
    (show bs.length = 40 + (bs.length - 40) by omega)
  obtain ⟨x0, a4, h0, ha4, rfl⟩ := exists_split 4 36 ha
  obtain ⟨x4, a6, h4, ha6, rfl⟩ := exists_split 2 34 ha4
  obtain ⟨x6, a7, h6, ha7, rfl⟩ := exists_split 1 33 ha6
  obtain ⟨x7, a8, h7, ha8, rfl⟩ := exists_split 1 32 ha7
  obtain ⟨x8, x24, h8, h24, rfl⟩ := exists_split 16 16 ha8
  obtain ⟨nexthdr, rfl⟩ := List.length_eq_one_iff.mp h6
  obtain ⟨hopLimit, rfl⟩ := List.length_eq_one_iff.mp h7
  refine ⟨⟨ofBe32 x0, ofWord16 .big x4, nexthdr, hopLimit, ⟨x8, h8⟩, ⟨x24, h24⟩⟩, data, ?_⟩
  have hflow : be32 (ofBe32 x0) = x0 := word32_ofWord32 .big h0
  rw [bytes, hflow, word16_ofWord16 .big h4]

theorem FragHdr.exists_append {bs : List UInt8} (h : 8 ≤ bs.length) :
    ∃ (hdr : FragHdr) (data : List UInt8), bs = hdr.bytes ++ data := by
  obtain ⟨a, data, ha, -, rfl⟩ := exists_split 8 (bs.length - 8)
    (show bs.length = 8 + (bs.length - 8) by omega)
  obtain ⟨x0, a1, h0, ha1, rfl⟩ := exists_split 1 7 ha
  obtain ⟨x1, a2, h1, ha2, rfl⟩ := exists_split 1 6 ha1
  obtain ⟨x2, x4, h2, h4, rfl⟩ := exists_split 2 4 ha2
  obtain ⟨nexthdr, rfl⟩ := List.length_eq_one_iff.mp h0
  obtain ⟨reserved, rfl⟩ := List.length_eq_one_iff.mp h1
  refine ⟨⟨nexthdr, reserved, ofWord16 .big x2, ofBe32 x4⟩, data, ?_⟩
  have hid : be32 (ofBe32 x4) = x4 := word32_ofWord32 .big h4
  rw [bytes, hid, word16_ofWord16 .big h2]

/-- The headers of an IPv6 packet are all there. -/
def Headers6 (old : List UInt8) : Prop :=
  40 ≤ old.length ∧ (old.getD 6 0 = NEXTHDR_FRAGMENT → 48 ≤ old.length)

/-- The protocol behind the headers of an IPv6 packet. -/
def protocol6 (old : List UInt8) : UInt8 :=
  protocolOf (if old.getD 6 0 = NEXTHDR_FRAGMENT then old.getD 40 0 else old.getD 6 0)

theorem getD_nexthdr (h : Ip6hdr) (data : List UInt8) : (h.bytes ++ data).getD 6 0 = h.nexthdr := by
  rw [List.getD_eq_getElem?_getD, h.get_nexthdr, Option.getD_some]

/-- The length that an IPv6 header announces. -/
def payloadLen6 (old : List UInt8) : Nat := ((load16? .big old 4).getD 0).toNat

/-- `iphdr6to4_trans` writes a header that depends on the old packet alone. -/
theorem exists_iphdr6to4Trans (e : ByteOrder) {old : List UInt8} (h : Headers6 old)
    (supplement : Int) :
    ∃ hdr : Iphdr, hdr.totLen = UInt16.ofInt (payloadLen6 old + IP_HEADER_LEN + supplement) ∧
      ∀ a rest : List UInt8, a.length = 20 →
        iphdr6to4Trans e (a ++ rest) old supplement = some (protocol6 old, hdr.bytes ++ rest) := by
  obtain ⟨h40, h48⟩ := h
  obtain ⟨hdr, data, rfl⟩ := Ip6hdr.exists_append h40
  rw [getD_nexthdr] at h48
  have hlen : payloadLen6 (hdr.bytes ++ data) = hdr.payloadLen.toNat := by
    rw [payloadLen6, hdr.load_payloadLen, Option.getD_some]
  rw [hlen]
  by_cases hn : hdr.nexthdr = NEXTHDR_FRAGMENT
  · have h48 := h48 hn
    rw [List.length_append, Ip6hdr.bytes_length] at h48
    obtain ⟨f, data, rfl⟩ := FragHdr.exists_append (show 8 ≤ data.length by omega)
    have hproto : protocol6 (hdr.bytes ++ (f.bytes ++ data)) = protocolOf f.nexthdr := by
      rw [protocol6, getD_nexthdr, if_pos hn, List.getD_eq_getElem?_getD, get_fragNexthdr,
        Option.getD_some]
    rw [hproto]
    exact ⟨_, rfl, fun a rest ha => iphdr6to4Trans_fragment e hn f data ha rest supplement⟩
  · have hproto : protocol6 (hdr.bytes ++ data) = protocolOf hdr.nexthdr := by
      rw [protocol6, getD_nexthdr, if_neg hn]
    rw [hproto]
    exact ⟨_, rfl, fun a rest ha => iphdr6to4Trans_plain e hn data ha rest supplement⟩

theorem le_of_peek? {m bs : List UInt8} {off n : Nat} (h : peek? m off n = some bs) :
    off + n ≤ m.length := (peek?_eq_some.mp h).1

theorem le_of_fragHdr6to4Trans {e : ByteOrder} {new old : List UInt8} {nexthdr : UInt8}
    {r : UInt8 × List UInt8} (h : fragHdr6to4Trans e new old nexthdr = some r) :
    (nexthdr = NEXTHDR_FRAGMENT → 48 ≤ old.length) ∧ r.2.length = new.length := by
  unfold fragHdr6to4Trans at h
  split at h
  · simp only [Option.bind_eq_bind, Option.bind_eq_some_iff, load32?, store16?,
      Option.map_eq_some_iff, Option.pure_def, Option.some.injEq] at h
    obtain ⟨p, -, bs, -, n1, h1, id, ⟨bs', hid, -⟩, n2, h2, rfl⟩ := h
    have hle := le_of_peek? hid
    refine ⟨fun _ => by simpa [IPV6_HEADER_LEN] using hle, ?_⟩
    exact (poke?_length h2).trans (poke?_length h1)
  · rename_i hn
    simp only [Option.bind_eq_bind, Option.bind_eq_some_iff, store16?, Option.pure_def,
      Option.some.injEq] at h
    obtain ⟨n1, h1, rfl⟩ := h
    exact ⟨fun hc => absurd hc hn, poke?_length h1⟩

/-- The headers must be there, and room for the new one. -/
theorem le_of_iphdr6to4Trans {e : ByteOrder} {new old : List UInt8} {supplement : Int}
    {r : UInt8 × List UInt8} (h : iphdr6to4Trans e new old supplement = some r) :
    Headers6 old ∧ 20 ≤ new.length ∧ r.2.length = new.length := by
  rw [iphdr6to4Trans] at h
  obtain ⟨n0, h0, h⟩ := Option.bind_eq_some_iff.mp h
  obtain ⟨n1, h1, h⟩ := Option.bind_eq_some_iff.mp h
  obtain ⟨n2, h2, h⟩ := Option.bind_eq_some_iff.mp h
  obtain ⟨n3, h3, h⟩ := Option.bind_eq_some_iff.mp h
  obtain ⟨nexthdr, hn, h⟩ := Option.bind_eq_some_iff.mp h
  obtain ⟨⟨p, n4⟩, h4, h⟩ := Option.bind_eq_some_iff.mp h
  obtain ⟨n5, h5, h⟩ := Option.bind_eq_some_iff.mp h
  obtain ⟨hop, -, h⟩ := Option.bind_eq_some_iff.mp h
  obtain ⟨n6, h6, h⟩ := Option.bind_eq_some_iff.mp h
  obtain ⟨n7, h7, h⟩ := Option.bind_eq_some_iff.mp h
  obtain ⟨len, -, h⟩ := Option.bind_eq_some_iff.mp h
  obtain ⟨n8, h8, h⟩ := Option.bind_eq_some_iff.mp h
  obtain ⟨sa, hsa, h⟩ := Option.bind_eq_some_iff.mp h
  obtain ⟨sb, -, h⟩ := Option.bind_eq_some_iff.mp h
  obtain ⟨n9, h9, h⟩ := Option.bind_eq_some_iff.mp h
  obtain ⟨da, hda, h⟩ := Option.bind_eq_some_iff.mp h
  obtain ⟨db, hdb, h⟩ := Option.bind_eq_some_iff.mp h
  obtain ⟨n10, h10, h⟩ := Option.bind_eq_some_iff.mp h
  obtain ⟨hh, hpeek, h⟩ := Option.bind_eq_some_iff.mp h
  obtain ⟨n11, h11, hr⟩ := Option.bind_eq_some_iff.mp h
  obtain rfl := Option.some.inj hr
  have hda := le_of_peek? hda
  have hpeek := le_of_peek? hpeek
  obtain ⟨hfrag, l4⟩ := le_of_fragHdr6to4Trans h4
  have hget : old.getD 6 0 = nexthdr := by rw [List.getD_eq_getElem?_getD, hn, Option.getD_some]
  have l10 : n10.length = new.length := by
    rw [poke?_length h10, poke?_length h9, poke?_length h8, poke?_length h7, poke?_length h6,
      poke?_length h5, l4, poke?_length h3, poke?_length h2, poke?_length h1, poke?_length h0]
  refine ⟨⟨by omega, by rw [hget]; exact hfrag⟩, ?_, (poke?_length h11).trans l10⟩
  simp only [IP_HEADER_LEN] at hpeek
  omega

/-! ## There and back -/

theorem unmapped_mapped (e : ByteOrder) (oldv4 bbprefix : UInt32) :
    unmapped e (mapped e oldv4 bbprefix) = oldv4 := by
  have hback : word32 e (ofWord32 e (be32 oldv4)) = be32 oldv4 :=
    word32_ofWord32 e (be32_length oldv4)
  have hmap : mappingAddress6to4 e (mapped e oldv4 bbprefix).1 = some (be32 oldv4) := by
    cases e with
    | big =>
        simp only [mapped, mappingAddress4to6, mappingAddress6to4, hback, List.append_assoc]
        exact peek?_head (be32_length oldv4).symm
    | little =>
        have hmark (a b c : List UInt8) (ha : a.length = 4) :
            (a ++ ([0xFF] ++ (b ++ c)))[4]? = some 0xFF := by
          simp [ha]
        simp only [mapped, mappingAddress4to6, mappingAddress6to4, hback, List.append_assoc,
          hmark _ _ _ (word32_length .little bbprefix), Option.bind_eq_bind, Option.bind_some]
        rw [if_neg (by decide), peek?_skip (by simp), peek?_skip (by simp), word32_length]
        exact peek?_head (be32_length oldv4).symm
  rw [unmapped, hmap, Option.getD_some]
  exact ofWord32_word32 .big oldv4

theorem narrowed_widened (e : ByteOrder) (id : UInt16) : narrowed e (widened e id) = id := by
  have hback (x : UInt32) : be32 (ofBe32 (word32 e x)) = word32 e x :=
    word32_ofWord32 .big (word32_length e x)
  have hid : word16 e (ofWord16 e (word16 .big id)) = word16 .big id :=
    word16_ofWord16 e (word16_length .big id)
  rw [narrowed, widened, hback, ofWord32_word32, UInt16.toUInt16_toUInt32, hid, ofWord16_word16]

theorem protocolOf_nexthdrOf {p : UInt8} (h : p ≠ IPPROTO_ICMPV6) : protocolOf (nexthdrOf p) = p := by
  unfold nexthdrOf
  by_cases hp : p = IPPROTO_ICMP
  · rw [if_pos hp, hp]
    rfl
  · rw [if_neg hp, protocolOf, if_neg h]

theorem nexthdrOf_ne_fragment {p : UInt8} (h : p ≠ NEXTHDR_FRAGMENT) :
    nexthdrOf p ≠ NEXTHDR_FRAGMENT := by
  unfold nexthdrOf
  split
  · decide
  · exact h

theorem toNat_ofInt16 (x : Int) : ((UInt16.ofInt x).toNat : Int) = x % 2 ^ 16 := by
  rw [UInt16.ofInt, UInt16.toNat_ofNat']
  omega

/-- What one direction adds to the length, the other takes away. -/
theorem totLen_restored (n : UInt16) {supplement back : Int} (h : back = -supplement) :
    UInt16.ofInt ((UInt16.ofInt (n.toNat - IP_HEADER_LEN + supplement)).toNat + IP_HEADER_LEN +
      back) = n := by
  have hn := n.toNat_lt
  have hthere := toNat_ofInt16 (n.toNat - IP_HEADER_LEN + supplement)
  have hback := toNat_ofInt16
    ((UInt16.ofInt (n.toNat - IP_HEADER_LEN + supplement)).toNat + IP_HEADER_LEN + back)
  rw [← UInt16.toNat_inj]
  omega

/-- The packet is a part of a datagram. -/
def Iphdr.Fragment (h : Iphdr) : Prop := h.mf = true ∨ h.offset ≠ 0

/-- `h'` has what matters of `h`. -/
structure Restored (h h' : Iphdr) : Prop where
  saddr : h'.saddr = h.saddr
  daddr : h'.daddr = h.daddr
  ttl : h'.ttl = h.ttl
  protocol : h'.protocol = h.protocol
  totLen : h'.totLen = h.totLen
  fragment : h.Fragment → h'.id = h.id ∧ h'.fragOff = h.fragOff

/-- The header goes to IPv6 and comes back, in whatever buffers: with the
length that `get_new_headerlen4to6` gives, and with a payload that grows by
`grow` on the way there. A packet with an offset has a fragment header. -/
def RoundTrips (e : ByteOrder) (h : Iphdr) (srcPrefix dstPrefix : UInt32) (grow : Int) : Prop :=
  ∃ n, getNewHeaderlen4to6 h.bytes = some n ∧ (h.offset ≠ 0 → n = IPV6_HEADER_LEN + 8) ∧
    ∀ new back : List UInt8, new.length = n → back.length = IP_HEADER_LEN →
      ∃ p new' p' h',
        iphdr4to6Trans e new h.bytes srcPrefix dstPrefix (grow + n - IPV6_HEADER_LEN)
          (n - IPV6_HEADER_LEN) = some (p, new') ∧
        iphdr6to4Trans e back new' (-grow + IPV6_HEADER_LEN - n) = some (p', Iphdr.bytes h') ∧
        Restored h h'

theorem roundTrips_plain (e : ByteOrder) {h : Iphdr} (hicmp : h.protocol ≠ IPPROTO_ICMPV6)
    (hfrag : h.protocol ≠ NEXTHDR_FRAGMENT) (srcPrefix dstPrefix : UInt32) (grow : Int)
    (hext : h.extended = false) (hoff : h.offset = 0) (hmf : h.mf = false) :
    RoundTrips e h srcPrefix dstPrefix grow := by
  have hlen := getNewHeaderlen4to6_eq h []
  simp only [List.append_nil, hext] at hlen
  refine ⟨40, hlen, fun hne => absurd hoff hne, fun new back hnew hback => ?_⟩
  have hthere := iphdr4to6Trans_plain e h [] hnew [] srcPrefix dstPrefix (grow + 40 - 40)
  have hhere := @iphdr6to4Trans_plain e
    (h.to6 e srcPrefix dstPrefix (grow + 40 - 40) (nexthdrOf h.protocol))
    (nexthdrOf_ne_fragment hfrag) [] back hback [] (-grow + 40 - 40)
  simp only [List.append_nil] at hthere hhere
  refine ⟨_, _, _, _, hthere, hhere, ?_⟩
  exact {
    saddr := unmapped_mapped e h.saddr srcPrefix
    daddr := unmapped_mapped e h.daddr dstPrefix
    ttl := rfl
    protocol := protocolOf_nexthdrOf hicmp
    totLen := totLen_restored h.totLen (by omega)
    fragment := by
      rintro (hm | ho)
      · simp [hmf] at hm
      · exact absurd hoff ho }

theorem roundTrips_extended (e : ByteOrder) {h : Iphdr} (hicmp : h.protocol ≠ IPPROTO_ICMPV6)
    (srcPrefix dstPrefix : UInt32) (grow : Int) (hext : h.extended = true) :
    RoundTrips e h srcPrefix dstPrefix grow := by
  have hlen := getNewHeaderlen4to6_eq h []
  simp only [List.append_nil, hext, if_true] at hlen
  refine ⟨48, hlen, fun _ => rfl, fun new back hnew hback => ?_⟩
  obtain ⟨a, f, ha, hf, rfl⟩ := exists_split 40 8 hnew
  obtain ⟨f0, f1, hf0, hf1, rfl⟩ := exists_split 1 7 hf
  obtain ⟨r, f2, hr, hf2, rfl⟩ := exists_split 1 6 hf1
  obtain ⟨first, rfl⟩ := List.length_eq_one_iff.mp hf0
  obtain ⟨reserved, rfl⟩ := List.length_eq_one_iff.mp hr
  have hthere := iphdr4to6Trans_fragment e h [] ha hf2 first reserved [] srcPrefix dstPrefix
    (grow + 48 - 40)
  have hhere := @iphdr6to4Trans_fragment e
    (h.to6 e srcPrefix dstPrefix (grow + 48 - 40) NEXTHDR_FRAGMENT) rfl (h.frag6 e reserved) [] back
    hback [] (-grow + 40 - 48)
  simp only [List.append_nil] at hthere hhere
  refine ⟨_, _, _, _, hthere, hhere, ?_⟩
  exact {
    saddr := unmapped_mapped e h.saddr srcPrefix
    daddr := unmapped_mapped e h.daddr dstPrefix
    ttl := rfl
    protocol := protocolOf_nexthdrOf hicmp
    totLen := totLen_restored h.totLen (by omega)
    fragment := fun _ => ⟨narrowed_widened e h.id, rfl⟩ }

/-- A header comes back exactly when it is not that of the last fragment of a
datagram with DF set. -/
theorem roundTrips_iff (e : ByteOrder) (h : Iphdr) (hicmp : h.protocol ≠ IPPROTO_ICMPV6)
    (hfrag : h.protocol ≠ NEXTHDR_FRAGMENT) (srcPrefix dstPrefix : UInt32) (grow : Int) :
    RoundTrips e h srcPrefix dstPrefix grow ↔
      (h.df = true → h.mf = true ∨ h.offset = 0) := by
  cases hext : h.extended with
  | true =>
      refine iff_of_true (roundTrips_extended e hicmp srcPrefix dstPrefix grow hext) fun hdf => ?_
      simp only [Iphdr.extended, hdf, Bool.not_true, Bool.false_or] at hext
      exact .inl hext
  | false =>
      have hflags : h.df = true ∧ h.mf = false := by simpa [Iphdr.extended] using hext
      by_cases hoff : h.offset = 0
      · exact iff_of_true
          (roundTrips_plain e hicmp hfrag srcPrefix dstPrefix grow hext hoff hflags.2)
          fun _ => .inr hoff
      · refine iff_of_false ?_ fun hcond => ?_
        · rintro ⟨n, hn, hlen, -⟩
          have hlen' := getNewHeaderlen4to6_eq h []
          simp only [List.append_nil, hext, hn] at hlen'
          have heq : n = 40 := by simpa using hlen'
          have h48 := hlen hoff
          simp [heq, IPV6_HEADER_LEN] at h48
        · rcases hcond hflags.1 with hm | ho
          · simp [hflags.2] at hm
          · exact hoff ho

/-- The first fragment of a TCP datagram. -/
def firstFragment : Iphdr :=
  ⟨0x45, 0, 1500, 0x1234, 0x2000, 64, IPPROTO_TCP, 0, 0x0A000001, 0x0A000002⟩

theorem roundTrips_firstFragment :
    firstFragment.Fragment ∧ RoundTrips .little firstFragment 0x20010DB8 0x20010DB8 0 := by
  refine ⟨.inl (by decide), ?_⟩
  exact (roundTrips_iff .little firstFragment (by decide) (by decide) _ _ _).mpr (by decide)

/-- The last fragment of a datagram with DF set has no fragment header. -/
theorem roundTrips_fails_lastFragment :
    ¬RoundTrips .big { firstFragment with fragOff := 0x40B9 } 0x20010DB8 0x20010DB8 0 := by
  rintro ⟨n, hn, hlen, -⟩
  have h40 : getNewHeaderlen4to6 { firstFragment with fragOff := 0x40B9 }.bytes = some 40 := by
    decide +kernel
  have h48 := hlen (by decide +kernel)
  rw [hn, h48] at h40
  exact absurd h40 (by decide)

end UbntSdk.Ivi
