/-
UbntSdk.Ivi.Datagram — an IPv4 datagram in pieces, and what becomes of them.

A datagram is sent whole or cut into fragments, each with a header, options
and a part of the payload; `ip_mapping` sees one packet after the other
(`translate`). A receiver reads the new packets with the layout of IPv6
(`view6`): the offset in the upper 13 bits of the fragment field, and the
flag "more fragments" in the lowest one.
-/
import UbntSdk.Ivi.BoundsTheorems

namespace UbntSdk.Ivi

open UbntSdk.Lib

/-! ## Pieces -/

/-- One IPv4 packet of a datagram. -/
structure Piece where
  hdr : Iphdr
  options : List UInt8
  payload : List UInt8
  ihl : hdr.verIhl.toNat % 16 * 4 = IP_HEADER_LEN + options.length
  totLen : hdr.totLen.toNat = IP_HEADER_LEN + options.length + payload.length

def Piece.packet (p : Piece) : List UInt8 := p.hdr.bytes ++ (p.options ++ p.payload)

/-- The pieces follow one another from `start`, and all but the last one say
that there are more. -/
def Follows : Nat → List Piece → Prop
  | _, [] => False
  | start, [p] => p.hdr.offset * 8 = start ∧ p.hdr.mf = false
  | start, p :: q :: rest =>
      (p.hdr.offset * 8 = start ∧ p.hdr.mf = true ∧ 0 < p.payload.length) ∧
        Follows (start + p.payload.length) (q :: rest)

/-- A datagram, cut in any way. -/
structure Datagram where
  pieces : List Piece
  cut : Follows 0 pieces
  same : ∀ p ∈ pieces, ∀ q ∈ pieces, p.hdr.id = q.hdr.id ∧ p.hdr.protocol = q.hdr.protocol ∧
    p.hdr.saddr = q.hdr.saddr ∧ p.hdr.daddr = q.hdr.daddr

/-- The payload of the datagram. -/
def Datagram.payload (d : Datagram) : List UInt8 := (d.pieces.map Piece.payload).flatten

/-- The packets go through `ip_mapping`, each in a buffer of its own. -/
def translate (e : ByteOrder) (srcPrefix dstPrefix : UInt32) :
    (Nat → Nat → UInt8) → List Piece → Option (List (List UInt8))
  | _, [] => some []
  | fresh, p :: rest => do
      let out ← ipMapping e (fresh 0) p.packet srcPrefix dstPrefix
      let outs ← translate e srcPrefix dstPrefix (fun i => fresh (i + 1)) rest
      return out :: outs

/-! ## IPv6 fragments -/

/-- What a fragment says about itself. -/
structure View where
  start : Nat
  more : Bool
  length : Nat
  identification : Option UInt32
  reserved : UInt8

/-- A packet read with the layout of IPv6. -/
def view6 (out : List UInt8) : Option View :=
  if out.getD 6 0 = NEXTHDR_FRAGMENT then do
    let reserved ← out[IPV6_HEADER_LEN + 1]?
    let fragOff ← load16? .big out (IPV6_HEADER_LEN + 2)
    let identification ← load32? .big out (IPV6_HEADER_LEN + 4)
    return ⟨fragOff.toNat / 8 * 8, fragOff &&& 1 ≠ 0, out.length - (IPV6_HEADER_LEN + 8),
      some identification, reserved⟩
  else some ⟨0, false, out.length - IPV6_HEADER_LEN, none, 0⟩

/-- The bytes of the datagram that a packet carries. -/
def Covers (p : Piece) (v : View) : Prop :=
  v.start = p.hdr.offset * 8 ∧ v.length = p.payload.length ∧ v.more = p.hdr.mf ∧ v.reserved = 0

/-- Whatever the buffers hold, the new packets carry the same ranges with the
same flags, belong together, and add up to the length of the payload. -/
def Reassembles (e : ByteOrder) (srcPrefix dstPrefix : UInt32) (d : Datagram) : Prop :=
  ∀ fresh, ∃ outs vs, translate e srcPrefix dstPrefix fresh d.pieces = some outs ∧
    outs.mapM view6 = some vs ∧ List.Forall₂ Covers d.pieces vs ∧
    (∃ id, ∀ v ∈ vs, v.identification = id) ∧
    (vs.map View.length).sum = d.payload.length

/-! ## One packet -/

theorem dataTrans4to6_length {e : ByteOrder} {new old saddr daddr r : List UInt8}
    {srcPrefix dstPrefix : UInt32} {nexthdr : UInt8}
    (h : dataTrans4to6 e new old saddr daddr srcPrefix dstPrefix nexthdr = some r) :
    r.length = new.length := by
  unfold dataTrans4to6 at h
  split at h
  · obtain ⟨t, ht, rfl⟩ := Option.map_eq_some_iff.mp h
    exact (icmp4to6Trans_length ht).2.1
  split at h
  · obtain ⟨t, ht, rfl⟩ := Option.map_eq_some_iff.mp h
    exact transportTrans_length ht
  split at h
  · obtain ⟨t, ht, rfl⟩ := Option.map_eq_some_iff.mp h
    exact transportTrans_length ht
  · exact poke?_length h

/-- A translated packet: its header, and a payload of the length that was
computed for it. -/
theorem ipMapping_shape {e : ByteOrder} {fresh : Nat → UInt8} {h : Iphdr} {data out : List UInt8}
    {srcPrefix dstPrefix : UInt32}
    (hout : ipMapping e fresh (h.bytes ++ data) srcPrefix dstPrefix = some out) :
    ∃ supplement body, out =
        h.header6 e srcPrefix dstPrefix supplement (allocSkb fresh h.headerLen6) ++ body ∧
      getNewPktlen4to6 (h.bytes ++ data) data = some body.length ∧
      supplement = (body.length : Int) - data.length + h.headerLen6 - IPV6_HEADER_LEN := by
  rw [ipMapping_eq] at hout
  obtain ⟨n, hn, hout⟩ := Option.bind_eq_some_iff.mp hout
  obtain ⟨body, hbody, rfl⟩ := Option.map_eq_some_iff.mp hout
  have hlen : body.length = n := by
    unfold payload4 at hbody
    split at hbody
    · rename_i hoff
      rw [getNewPktlen4to6_eq, if_neg fun hc => hoff hc.2] at hn
      rw [← Option.some.inj hn, ← Option.some.inj hbody]
    · rw [dataTrans4to6_length hbody, allocSkb_length]
  refine ⟨_, body, rfl, ?_, ?_⟩
  · rw [hn, hlen]
  · rw [hlen]

/-- A packet that keeps its length. -/
theorem ipMapping_kept {h : Iphdr} {data : List UInt8}
    (hn : getNewPktlen4to6 (h.bytes ++ data) data = some data.length) (e : ByteOrder)
    (fresh : Nat → UInt8) (srcPrefix dstPrefix : UInt32) :
    ipMapping e fresh (h.bytes ++ data) srcPrefix dstPrefix =
      (payload4 e srcPrefix dstPrefix h (allocSkb (fun i => fresh (h.headerLen6 + i)) data.length)
        data).map
          (h.header6 e srcPrefix dstPrefix (h.headerLen6 - IPV6_HEADER_LEN)
            (allocSkb fresh h.headerLen6) ++ ·) := by
  have hsame : (data.length : Int) - data.length + h.headerLen6 - IPV6_HEADER_LEN =
      h.headerLen6 - IPV6_HEADER_LEN := by omega
  rw [ipMapping_eq, hn, Option.bind_some, hsame]

@[simp] theorem Iphdr.to6_nexthdr (h : Iphdr) (e : ByteOrder) (srcPrefix dstPrefix : UInt32)
    (supplement : Int) (nexthdr : UInt8) :
    (h.to6 e srcPrefix dstPrefix supplement nexthdr).nexthdr = nexthdr := rfl

section View

variable (e : ByteOrder) (srcPrefix dstPrefix : UInt32) (supplement : Int) (was body : List UInt8)

/-- A packet with a fragment header. -/
theorem view6_fragment {x : Ip6hdr} (hx : x.nexthdr = NEXTHDR_FRAGMENT) (f : FragHdr) :
    view6 (x.bytes ++ (f.bytes ++ body)) =
      some ⟨f.fragOff.toNat / 8 * 8, f.fragOff &&& 1 ≠ 0, body.length, some f.identification,
        f.reserved⟩ := by
  have hreserved : (x.bytes ++ (f.bytes ++ body))[41]? = some f.reserved := by
    rw [List.getElem?_append_right (by simp)]
    simp [FragHdr.bytes]
  have hback : ofWord32 .big (be32 f.identification) = f.identification := ofWord32_word32 .big _
  have hlen : (x.bytes ++ (f.bytes ++ body)).length - 48 = body.length := by
    simp
    omega
  simp only [view6, getD_nexthdr, if_pos hx, IPV6_HEADER_LEN, Nat.reduceAdd, Option.bind_eq_bind,
    hreserved, load16?, load32?, peek_fragFragOff, peek_fragIdentification, Option.map_some,
    Option.bind_some, ofWord16_word16, hback, hlen, Option.pure_def]

/-- A packet whose fragment header is cut off. -/
theorem view6_short {x : Ip6hdr} (hx : x.nexthdr = NEXTHDR_FRAGMENT) (hbody : body.length < 8) :
    view6 (x.bytes ++ body) = none := by
  have hload : load32? .big (x.bytes ++ body) 44 = none := by
    rw [load32?, peek?, if_neg (by simp; omega)]
    rfl
  simp only [view6, getD_nexthdr, if_pos hx, IPV6_HEADER_LEN, Nat.reduceAdd, Option.bind_eq_bind,
    hload, Option.bind_none, Option.bind_fun_none]

/-- The fragment header of IPv4 is read with the offset in another place. -/
theorem view6_extended {h : Iphdr} (hext : h.extended = true) :
    view6 (h.header6 e srcPrefix dstPrefix supplement was ++ body) =
      some ⟨h.fragOff.toNat / 8 * 8, h.fragOff &&& 1 ≠ 0, body.length, some (widened e h.id),
        was.getD 41 0⟩ := by
  rw [Iphdr.header6, if_pos hext, List.append_assoc, view6_fragment body rfl]
  rfl

theorem view6_plain {h : Iphdr} (hext : h.extended = false)
    (hproto : nexthdrOf h.protocol ≠ NEXTHDR_FRAGMENT) :
    view6 (h.header6 e srcPrefix dstPrefix supplement was ++ body) =
      some ⟨0, false, body.length, none, 0⟩ := by
  simp only [view6, Iphdr.header6, hext, Bool.false_eq_true, if_false, getD_nexthdr]
  rw [Iphdr.to6_nexthdr, if_neg hproto]
  simp [IPV6_HEADER_LEN]

end View

end UbntSdk.Ivi
