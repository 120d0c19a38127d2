/-
UbntSdk.Ivi.TransportTheorems — when the checksum of a TCP or UDP datagram is
right after the translation.

`tcp4to6_trans` and `udp4to6_trans` see the first packet alone, and take its
length for that of the segment. So the checksum is right when what follows in
other fragments adds nothing to it (`verifies_sealed_iff`). Options go through
as payload, a first fragment without the whole header is left as the buffer
was, and a UDP checksum that comes out as 0 stays 0.
-/
import UbntSdk.Ivi.Datagram

namespace UbntSdk.Ivi

open UbntSdk.Lib

/-! ## Segments -/

inductive Transport where
  | tcp
  | udp
  deriving DecidableEq

namespace Transport

def protocol : Transport → UInt8
  | tcp => IPPROTO_TCP
  | udp => IPPROTO_UDP

def headerLen : Transport → Nat
  | tcp => TCP_HEADER_LEN
  | udp => UDP_HEADER_LEN

/-- Where the checksum is. -/
def check : Transport → Nat
  | tcp => 16
  | udp => 6

theorem check_lt (t : Transport) : t.check + 2 ≤ t.headerLen := by cases t <;> decide

theorem check_even (t : Transport) : t.check % 2 = 0 := by cases t <;> rfl

theorem check_pos (t : Transport) : 0 < t.check := by cases t <;> decide

end Transport

/-- A datagram of TCP or UDP. -/
structure Segment extends Datagram where
  transport : Transport
  protocol : ∀ p ∈ pieces, p.hdr.protocol = transport.protocol
  long : transport.headerLen ≤ toDatagram.payload.length

/-- The source address of an IPv6 packet. -/
def saddr6 (out : List UInt8) : List UInt8 := (out.drop 8).take 16

def daddr6 (out : List UInt8) : List UInt8 := (out.drop 24).take 16

/-- The checksum of a segment between two addresses is right. -/
def Verifies (saddr daddr : List UInt8) (t : Transport) (segment : List UInt8) : Prop :=
  (sum16 saddr + sum16 daddr + segment.length + t.protocol.toNat + sum16 segment) % 65535 = 0

instance (saddr daddr : List UInt8) (t : Transport) (segment : List UInt8) :
    Decidable (Verifies saddr daddr t segment) := inferInstanceAs (Decidable (_ = _))

/-- Whatever the buffers hold, the payloads of the new packets are the segment
with another checksum, which is right for the new addresses. -/
def Carries (e : ByteOrder) (srcPrefix dstPrefix : UInt32) (s : Segment) : Prop :=
  ∀ fresh, ∃ outs check, translate e srcPrefix dstPrefix fresh s.pieces = some outs ∧
    (outs.map data6).flatten = s.payload.take s.transport.check ++
      (word16 .big check ++ s.payload.drop (s.transport.check + 2)) ∧
    (∀ out ∈ outs, Verifies (saddr6 out) (daddr6 out) s.transport (outs.map data6).flatten) ∧
    (s.transport = .udp → check ≠ 0)

/-! ## The first packet -/

section Sealed

variable (saddr daddr : List UInt8) (t : Transport)

/-- The checksum that the two functions fill in. -/
abbrev magicOf : Nat → Nat → UInt16 := (csumIpv6Magic saddr daddr · t.protocol ·)

/-- What the checksum is taken of. -/
def checked (a b : List UInt8) : Nat :=
  sum16 saddr + sum16 daddr + (a.length + (2 + b.length)) + t.protocol.toNat +
    sum16 (a ++ ([0, 0] ++ b))

theorem sealed_eq (a b : List UInt8) :
    sealed (magicOf saddr daddr t) a b =
      a ++ (word16 .big (checksum (checked saddr daddr t a b)) ++ b) := rfl

theorem checked_pos (a b : List UInt8) : 0 < checked saddr daddr t a b := by
  unfold checked
  omega

/-- The checksum of the first packet is that of the segment when the rest adds
nothing. -/
theorem verifies_sealed_iff {a b rest : List UInt8} (ha : a.length % 2 = 0)
    (hb : rest = [] ∨ b.length % 2 = 0) :
    Verifies saddr daddr t (sealed (magicOf saddr daddr t) a b ++ rest) ↔
      (rest.length + sum16 rest) % 65535 = 0 := by
  have hfield (x : List UInt8) (hx : x.length % 2 = 0) :
      sum16 (a ++ (x ++ b)) = sum16 a + (sum16 x + sum16 b) := by
    rw [sum16_append ha, sum16_append hx]
  have hsum : sum16 (sealed (magicOf saddr daddr t) a b ++ rest) =
      sum16 (sealed (magicOf saddr daddr t) a b) + sum16 rest := by
    rcases hb with rfl | hb
    · simp [sum16]
    · rw [sum16_append (by rw [sealed_length]; omega)]
  have hzero : sum16 [0, 0] = 0 := rfl
  have hadd := add_checksum (checked saddr daddr t a b)
  rw [Verifies, hsum, List.length_append, sealed_length, sealed_eq, hfield _ (by simp), sum16_word16]
  rw [checked, hfield _ (by simp), hzero] at hadd ⊢
  omega

end Sealed

section Packet

variable (e : ByteOrder) (srcPrefix dstPrefix : UInt32) (fresh : Nat → UInt8) {h : Iphdr}
  {t : Transport}

/-- The new header of a packet that keeps its length. -/
abbrev newHeader (h : Iphdr) : List UInt8 :=
  h.header6 e srcPrefix dstPrefix (h.headerLen6 - IPV6_HEADER_LEN) (allocSkb fresh h.headerLen6)

theorem data6_newHeader (ht : h.protocol = t.protocol) (body : List UInt8) :
    data6 (newHeader e srcPrefix dstPrefix fresh h ++ body) = body := by
  have hproto : nexthdrOf h.protocol ≠ NEXTHDR_FRAGMENT := by
    rw [ht]
    cases t <;> decide
  have hlen : (newHeader e srcPrefix dstPrefix fresh h).length =
      quoteLen6 (newHeader e srcPrefix dstPrefix fresh h ++ body) := by
    rw [newHeader, Iphdr.header6_length, quoteLen6, Iphdr.headerLen6, Iphdr.header6]
    cases h.extended with
    | true =>
        rw [if_pos rfl, if_pos rfl, List.append_assoc, getD_nexthdr, Iphdr.to6_nexthdr, if_pos rfl]
    | false =>
        simp only [Bool.false_eq_true, if_false]
        rw [getD_nexthdr, Iphdr.to6_nexthdr, if_neg hproto]
  rw [data6, List.drop_left' hlen]

theorem saddr6_newHeader (h : Iphdr) (body : List UInt8) :
    saddr6 (newHeader e srcPrefix dstPrefix fresh h ++ body) = (mapped e h.saddr srcPrefix).1 :=
  (peek?_eq_some.mp (peek_header6 e srcPrefix dstPrefix h _ _ body).1).2.symm

theorem daddr6_newHeader (h : Iphdr) (body : List UInt8) :
    daddr6 (newHeader e srcPrefix dstPrefix fresh h ++ body) = (mapped e h.daddr dstPrefix).1 :=
  (peek?_eq_some.mp (peek_header6 e srcPrefix dstPrefix h _ _ body).2).2.symm

theorem getNewPktlen4to6_transport (ht : h.protocol = t.protocol) (data : List UInt8) :
    getNewPktlen4to6 (h.bytes ++ data) data = some data.length := by
  have hicmp : h.protocol ≠ IPPROTO_ICMP := by
    rw [ht]
    cases t <;> decide
  rw [getNewPktlen4to6_eq, if_neg fun hc => hicmp hc.1]

/-- A later fragment is copied. -/
theorem ipMapping_later (ht : h.protocol = t.protocol) (hoff : h.offset ≠ 0) (data : List UInt8) :
    ipMapping e fresh (h.bytes ++ data) srcPrefix dstPrefix =
      some (newHeader e srcPrefix dstPrefix fresh h ++ data) := by
  rw [ipMapping_kept (getNewPktlen4to6_transport ht data), payload4, if_pos hoff, Option.map_some]

theorem dataTrans4to6_transport (t : Transport) (new old saddr daddr : List UInt8) :
    dataTrans4to6 e new old saddr daddr srcPrefix dstPrefix t.protocol =
      (transportTrans t.headerLen t.check (magicOf saddr daddr t) new old).map (·.2) := by
  cases t <;> rfl

/-- The first packet is sealed when it has the whole header. -/
theorem ipMapping_first (ht : h.protocol = t.protocol) (hoff : h.offset = 0) {a c b : List UInt8}
    (ha : a.length = t.check) (hc : c.length = 2)
    (hlong : t.headerLen ≤ (a ++ (c ++ b)).length) :
    ipMapping e fresh (h.bytes ++ (a ++ (c ++ b))) srcPrefix dstPrefix =
      some (newHeader e srcPrefix dstPrefix fresh h ++
        sealed (magicOf (mapped e h.saddr srcPrefix).1 (mapped e h.daddr dstPrefix).1 t) a b) := by
  have hnext : nexthdrOf t.protocol = t.protocol := by cases t <;> rfl
  have hcopy (new : List UInt8) (hn : new.length = (a ++ (c ++ b)).length) :
      copy new (a ++ (c ++ b)) = a ++ (c ++ b) := by
    rw [copy_of_le (Nat.le_of_eq hn), hn, List.take_length]
  rw [ipMapping_kept (getNewPktlen4to6_transport ht _), payload4, if_neg (not_not.mpr hoff), ht,
    hnext, dataTrans4to6_transport, transportTrans_eq, if_pos hlong,
    hcopy _ (allocSkb_length _ _), sealAt_eq _ ha hc]
  rfl

/-- Otherwise its payload is what the buffer held. -/
theorem ipMapping_stub (ht : h.protocol = t.protocol) (hoff : h.offset = 0) {data : List UInt8}
    (hshort : data.length < t.headerLen) :
    ipMapping e fresh (h.bytes ++ data) srcPrefix dstPrefix =
      some (newHeader e srcPrefix dstPrefix fresh h ++
        allocSkb (fun i => fresh (h.headerLen6 + i)) data.length) := by
  have hnext : nexthdrOf t.protocol = t.protocol := by cases t <;> rfl
  rw [ipMapping_kept (getNewPktlen4to6_transport ht _), payload4, if_neg (not_not.mpr hoff), ht,
    hnext, dataTrans4to6_transport, transportTrans_eq, if_neg (by omega)]
  rfl

end Packet

/-! ## The other packets -/

/-- Only the first piece starts at 0. -/
theorem Follows.offset_ne_zero {start : Nat} {rest : List Piece} (h : Follows start rest)
    (hstart : 0 < start) : ∀ p ∈ rest, p.hdr.offset ≠ 0 := by
  induction rest generalizing start with
  | nil => exact h.elim
  | cons q rest ih =>
      intro p hp
      cases rest with
      | nil =>
          obtain rfl := List.mem_singleton.mp hp
          have hoff := h.1
          omega
      | cons r rest =>
          obtain ⟨⟨hoff, -, -⟩, hrest⟩ := h
          rcases List.mem_cons.mp hp with rfl | hp
          · omega
          · exact ih hrest (by omega) p hp

/-- The pieces behind the first one are copied, with their options. -/
theorem translate_later (e : ByteOrder) (srcPrefix dstPrefix : UInt32) {t : Transport}
    {rest : List Piece} (hoff : ∀ p ∈ rest, p.hdr.offset ≠ 0)
    (ht : ∀ p ∈ rest, p.hdr.protocol = t.protocol) (fresh : Nat → Nat → UInt8) :
    ∃ outs, translate e srcPrefix dstPrefix fresh rest = some outs ∧
      outs.map data6 = rest.map (fun p => p.options ++ p.payload) ∧
      ∀ out ∈ outs, ∃ p ∈ rest, saddr6 out = (mapped e p.hdr.saddr srcPrefix).1 ∧
        daddr6 out = (mapped e p.hdr.daddr dstPrefix).1 := by
  induction rest generalizing fresh with
  | nil => exact ⟨[], rfl, rfl, fun out hout => absurd hout List.not_mem_nil⟩
  | cons p rest ih =>
      obtain ⟨outs, houts, hdata, haddr⟩ := ih (fun q hq => hoff q (List.mem_cons_of_mem p hq))
        (fun q hq => ht q (List.mem_cons_of_mem p hq)) fun i => fresh (i + 1)
      have hp := ht p List.mem_cons_self
      have hout := ipMapping_later e srcPrefix dstPrefix (fresh 0) hp (hoff p List.mem_cons_self)
        (p.options ++ p.payload)
      refine ⟨(newHeader e srcPrefix dstPrefix (fresh 0) p.hdr ++ (p.options ++ p.payload)) :: outs,
        ?_, ?_, ?_⟩
      · rw [translate, Piece.packet, hout, houts]
        rfl
      · rw [List.map_cons, data6_newHeader e srcPrefix dstPrefix (fresh 0) hp, hdata, List.map_cons]
      · intro out hmem
        rcases List.mem_cons.mp hmem with rfl | hmem
        · exact ⟨p, List.mem_cons_self, saddr6_newHeader .., daddr6_newHeader ..⟩
        · obtain ⟨q, hq, hsame⟩ := haddr out hmem
          exact ⟨q, List.mem_cons_of_mem p hq, hsame⟩

/-! ## The datagram -/

/-- What is sent behind the headers. -/
def sent (pieces : List Piece) : List UInt8 := (pieces.map fun p => p.options ++ p.payload).flatten

theorem sent_length (pieces : List Piece) :
    (sent pieces).length =
      (pieces.map fun p => p.options.length).sum + (pieces.map Piece.payload).flatten.length := by
  induction pieces with
  | nil => rfl
  | cons p rest ih =>
      simp only [sent, List.map_cons, List.flatten_cons, List.length_append, List.sum_cons] at ih ⊢
      omega

theorem sent_eq {pieces : List Piece} (h : ∀ p ∈ pieces, p.options = []) :
    sent pieces = (pieces.map Piece.payload).flatten := by
  rw [sent]
  congr 1
  apply List.map_congr_left
  intro p hp
  rw [h p hp, List.nil_append]

/-- The conditions under which the checksum is right. -/
def ChecksumRight (e : ByteOrder) (srcPrefix dstPrefix : UInt32) (s : Segment) : Prop :=
  (∀ p ∈ s.pieces, p.options = []) ∧ ∃ p rest, s.pieces = p :: rest ∧
    s.transport.headerLen ≤ p.payload.length ∧
    ((rest.map Piece.payload).flatten.length + sum16 (rest.map Piece.payload).flatten) % 65535 = 0 ∧
    (s.transport = .udp →
      checked (mapped e p.hdr.saddr srcPrefix).1 (mapped e p.hdr.daddr dstPrefix).1 s.transport
        (p.payload.take s.transport.check) (p.payload.drop (s.transport.check + 2)) % 65535 ≠ 0)

section Segment

variable {e : ByteOrder} {srcPrefix dstPrefix : UInt32} {s : Segment} {p : Piece} {rest : List Piece}

/-- The first piece starts at 0, the others do not. -/
theorem Segment.offsets (hp : s.pieces = p :: rest) :
    p.hdr.offset = 0 ∧ (∀ q ∈ rest, q.hdr.offset ≠ 0) ∧
      (rest = [] ∨ (p.payload.length % 8 = 0 ∧ 0 < p.payload.length)) := by
  have hcut := s.cut
  rw [hp] at hcut
  cases rest with
  | nil =>
      have hoff := hcut.1
      exact ⟨by omega, fun q hq => absurd hq List.not_mem_nil, .inl rfl⟩
  | cons q rest =>
      obtain ⟨⟨hoff, -, hpos⟩, hrest⟩ := hcut
      have hnext : q.hdr.offset * 8 = 0 + p.payload.length := by
        cases rest with
        | nil => exact hrest.1
        | cons r rest => exact hrest.1.1
      exact ⟨by omega, hrest.offset_ne_zero (by omega), .inr ⟨by omega, hpos⟩⟩

theorem Segment.payload_cons (hp : s.pieces = p :: rest) :
    s.payload = p.payload ++ (rest.map Piece.payload).flatten := by
  rw [Datagram.payload, hp, List.map_cons, List.flatten_cons]

/-- The packets of a segment, when the first one becomes `body`. -/
theorem translate_segment (hp : s.pieces = p :: rest) {fresh : Nat → Nat → UInt8}
    {body : List UInt8}
    (hbody : ipMapping e (fresh 0) p.packet srcPrefix dstPrefix =
      some (newHeader e srcPrefix dstPrefix (fresh 0) p.hdr ++ body)) :
    ∃ outs, translate e srcPrefix dstPrefix fresh s.pieces = some outs ∧
      (outs.map data6).flatten = body ++ sent rest ∧
      (∃ out, out ∈ outs) ∧
      ∀ out ∈ outs, saddr6 out = (mapped e p.hdr.saddr srcPrefix).1 ∧
        daddr6 out = (mapped e p.hdr.daddr dstPrefix).1 := by
  have hproto := s.protocol
  have hsame := s.same
  rw [hp] at hproto hsame
  obtain ⟨outs, houts, hdata, haddr⟩ := translate_later e srcPrefix dstPrefix (s.offsets hp).2.1
    (fun q hq => hproto q (List.mem_cons_of_mem p hq)) fun i => fresh (i + 1)
  refine ⟨(newHeader e srcPrefix dstPrefix (fresh 0) p.hdr ++ body) :: outs, ?_, ?_,
    ⟨_, List.mem_cons_self⟩, ?_⟩
  · rw [hp, translate, hbody, houts]
    rfl
  · rw [List.map_cons, data6_newHeader e srcPrefix dstPrefix (fresh 0) (hproto p List.mem_cons_self),
      hdata, List.flatten_cons, sent]
  · intro out hmem
    rcases List.mem_cons.mp hmem with rfl | hmem
    · exact ⟨saddr6_newHeader .., daddr6_newHeader ..⟩
    · obtain ⟨q, hq, hsrc, hdst⟩ := haddr out hmem
      obtain ⟨-, -, hs, hd⟩ := hsame q (List.mem_cons_of_mem p hq) p List.mem_cons_self
      rw [hsrc, hdst, hs, hd]
      exact ⟨rfl, rfl⟩

/-- A packet with the whole header, cut around the checksum. -/
theorem Transport.exists_fields (t : Transport) {data : List UInt8} (h : t.headerLen ≤ data.length) :
    ∃ a c b, a.length = t.check ∧ c.length = 2 ∧ data = a ++ (c ++ b) := by
  have hlt := t.check_lt
  obtain ⟨a, l, ha, hl, rfl⟩ := exists_split t.check (data.length - t.check)
    (show data.length = t.check + (data.length - t.check) by omega)
  obtain ⟨c, b, hc, -, rfl⟩ := exists_split 2 (l.length - 2)
    (show l.length = 2 + (l.length - 2) by omega)
  exact ⟨a, c, b, ha, hc, rfl⟩

/-- The first packet keeps its length. -/
theorem ipMapping_body (hp : s.pieces = p :: rest) (fresh : Nat → UInt8) :
    ∃ body, body.length = (p.options ++ p.payload).length ∧
      ipMapping e fresh p.packet srcPrefix dstPrefix =
        some (newHeader e srcPrefix dstPrefix fresh p.hdr ++ body) := by
  have ht := s.protocol p (by rw [hp]; exact List.mem_cons_self)
  have hoff := (s.offsets hp).1
  rw [Piece.packet]
  by_cases hlong : s.transport.headerLen ≤ (p.options ++ p.payload).length
  · obtain ⟨a, c, b, ha, hc, hdata⟩ := s.transport.exists_fields hlong
    rw [hdata] at hlong ⊢
    refine ⟨_, ?_, ipMapping_first e srcPrefix dstPrefix fresh ht hoff ha hc hlong⟩
    simp [hc]
  · refine ⟨_, ?_, ipMapping_stub e srcPrefix dstPrefix fresh ht hoff (by omega)⟩
    simp

theorem length_restored (s : Segment) (x : UInt16) :
    (s.payload.take s.transport.check ++
      (word16 .big x ++ s.payload.drop (s.transport.check + 2))).length = s.payload.length := by
  have hlong := s.long
  have hlt := s.transport.check_lt
  simp only [List.length_append, List.length_take, word16_length, List.length_drop]
  omega

/-- Options are sent as payload. -/
theorem Carries.options_eq_nil (h : Carries e srcPrefix dstPrefix s) :
    ∀ q ∈ s.pieces, q.options = [] := by
  obtain ⟨p, rest, hp⟩ : ∃ p rest, s.pieces = p :: rest := by
    cases hpieces : s.pieces with
    | nil =>
        have hcut := s.cut
        rw [hpieces] at hcut
        exact hcut.elim
    | cons p rest => exact ⟨p, rest, rfl⟩
  obtain ⟨body, hlen, hbody⟩ := @ipMapping_body e srcPrefix dstPrefix s p rest hp fun _ => 0
  obtain ⟨outs, houts, hflat, -⟩ := @translate_segment e srcPrefix dstPrefix s p rest hp
    (fun _ _ => 0) body hbody
  obtain ⟨outs', check, houts', hcarried, -⟩ := h fun _ _ => 0
  obtain rfl := Option.some.inj (houts.symm.trans houts')
  have hall := sent_length s.pieces
  have htotal := congrArg List.length (hflat.symm.trans hcarried)
  rw [length_restored, List.length_append, hlen, ← List.length_append] at htotal
  have hsent : (p.options ++ p.payload) ++ sent rest = sent s.pieces := by
    rw [hp, sent, sent, List.map_cons, List.flatten_cons]
  have hpay : s.payload.length = (s.pieces.map Piece.payload).flatten.length := rfl
  rw [hsent, hpay] at htotal
  have hzero : (s.pieces.map fun p => p.options.length).sum = 0 := by omega
  intro q hq
  have hmem : q.options.length ∈ s.pieces.map fun p => p.options.length :=
    List.mem_map.mpr ⟨q, hq, rfl⟩
  exact List.length_eq_zero_iff.mp (List.sum_eq_zero_iff_forall_eq_nat.mp hzero _ hmem)

/-- A first packet without the whole header is what the buffer held. -/
theorem not_carries_of_stub (hp : s.pieces = p :: rest) (hnil : ∀ q ∈ s.pieces, q.options = [])
    (hshort : p.payload.length < s.transport.headerLen) : ¬Carries e srcPrefix dstPrefix s := by
  intro h
  have ht := s.protocol p (by rw [hp]; exact List.mem_cons_self)
  obtain ⟨hoff, -, hrest⟩ := s.offsets hp
  have hpay := s.payload_cons hp
  have hpos : 0 < p.payload.length := by
    rcases hrest with rfl | ⟨-, hpos⟩
    · have hlong := s.long
      rw [hpay] at hlong
      simp at hlong
      omega
    · exact hpos
  -- a buffer whose bytes are not the first one of the segment
  obtain ⟨first, tail, hfirst⟩ := List.exists_cons_of_length_pos hpos
  have hstub := @ipMapping_stub e srcPrefix dstPrefix (fun _ => first + 1) p.hdr s.transport ht hoff
    p.payload hshort
  have hpacket : p.packet = p.hdr.bytes ++ p.payload := by
    rw [Piece.packet, hnil p (by rw [hp]; exact List.mem_cons_self), List.nil_append]
  rw [← hpacket] at hstub
  obtain ⟨outs, houts, hflat, -⟩ := @translate_segment e srcPrefix dstPrefix s p rest hp
    (fun _ _ => first + 1) _ hstub
  obtain ⟨outs', check, houts', hcarried, -⟩ := h fun _ _ => first + 1
  obtain rfl := Option.some.inj (houts.symm.trans houts')
  have hhead := congrArg (fun l => l[0]?) (hflat.symm.trans hcarried)
  obtain ⟨k, hk⟩ := Nat.exists_eq_succ_of_ne_zero (Nat.ne_of_gt s.transport.check_pos)
  simp [hpay, hfirst, hk, allocSkb, List.range_succ_eq_map] at hhead

section Fields

variable {a c b : List UInt8} (ha : a.length = s.transport.check) (hc : c.length = 2)
  (hfields : p.payload = a ++ (c ++ b))

include ha hc hfields

theorem payload_fields (rest : List UInt8) :
    (p.payload ++ rest).take s.transport.check = a ∧
      (p.payload ++ rest).drop (s.transport.check + 2) = b ++ rest := by
  have hcut : (a ++ (c ++ b)) ++ rest = (a ++ c) ++ (b ++ rest) := by simp
  rw [hfields]
  constructor
  · rw [List.append_assoc, List.take_left' ha]
  · rw [hcut, List.drop_left' (by simp [ha, hc])]

/-- A first packet with the whole header is sealed for itself. -/
theorem translate_long (hp : s.pieces = p :: rest) (hnil : ∀ q ∈ s.pieces, q.options = [])
    (hlong : s.transport.headerLen ≤ p.payload.length) (fresh : Nat → Nat → UInt8) :
    ∃ outs, translate e srcPrefix dstPrefix fresh s.pieces = some outs ∧
      (outs.map data6).flatten =
        sealed (magicOf (mapped e p.hdr.saddr srcPrefix).1 (mapped e p.hdr.daddr dstPrefix).1
          s.transport) a b ++ (rest.map Piece.payload).flatten ∧
      (∃ out, out ∈ outs) ∧
      ∀ out ∈ outs, saddr6 out = (mapped e p.hdr.saddr srcPrefix).1 ∧
        daddr6 out = (mapped e p.hdr.daddr dstPrefix).1 := by
  have ht := s.protocol p (by rw [hp]; exact List.mem_cons_self)
  have hpacket : p.packet = p.hdr.bytes ++ (a ++ (c ++ b)) := by
    rw [Piece.packet, hnil p (by rw [hp]; exact List.mem_cons_self), List.nil_append, hfields]
  have hsent : sent rest = (rest.map Piece.payload).flatten :=
    sent_eq fun q hq => hnil q (by rw [hp]; exact List.mem_cons_of_mem p hq)
  rw [hfields] at hlong
  rw [← hsent]
  refine translate_segment hp ?_
  rw [hpacket]
  exact ipMapping_first e srcPrefix dstPrefix (fresh 0) ht (s.offsets hp).1 ha hc hlong

/-- The segment is verified as what follows the first packet says. -/
theorem verifies_segment_iff (hp : s.pieces = p :: rest) (saddr daddr : List UInt8) :
    Verifies saddr daddr s.transport
        (sealed (magicOf saddr daddr s.transport) a b ++ (rest.map Piece.payload).flatten) ↔
      ((rest.map Piece.payload).flatten.length + sum16 (rest.map Piece.payload).flatten) % 65535 =
        0 := by
  have hcheck := s.transport.check_even
  refine verifies_sealed_iff saddr daddr s.transport (by omega) ?_
  rcases (s.offsets hp).2.2 with rfl | ⟨h8, -⟩
  · exact .inl rfl
  · rw [hfields] at h8
    simp only [List.length_append, ha, hc] at h8
    exact .inr (by omega)

end Fields

theorem carries_iff_of_long (hp : s.pieces = p :: rest) (hnil : ∀ q ∈ s.pieces, q.options = [])
    (hlong : s.transport.headerLen ≤ p.payload.length) :
    Carries e srcPrefix dstPrefix s ↔
      ((rest.map Piece.payload).flatten.length + sum16 (rest.map Piece.payload).flatten) % 65535 =
          0 ∧
        (s.transport = .udp →
          checked (mapped e p.hdr.saddr srcPrefix).1 (mapped e p.hdr.daddr dstPrefix).1 s.transport
            (p.payload.take s.transport.check) (p.payload.drop (s.transport.check + 2)) % 65535 ≠
              0) := by
  obtain ⟨a, c, b, ha, hc, hfields⟩ := s.transport.exists_fields hlong
  obtain ⟨htake, hdrop⟩ := payload_fields ha hc hfields (rest.map Piece.payload).flatten
  rw [← s.payload_cons hp] at htake hdrop
  have hfirst := payload_fields ha hc hfields []
  rw [List.append_nil, List.append_nil] at hfirst
  rw [hfirst.1, hfirst.2, ← verifies_segment_iff ha hc hfields hp (mapped e p.hdr.saddr srcPrefix).1
    (mapped e p.hdr.daddr dstPrefix).1, ne_eq,
    ← (checksum_eq_zero_iff (checked_pos _ _ _ a b)).not]
  constructor
  · intro h
    obtain ⟨outs, check, houts, hcarried, hright, hudp⟩ := h fun _ _ => 0
    obtain ⟨outs', houts', hflat, ⟨out, hout⟩, haddr⟩ :=
      @translate_long e srcPrefix dstPrefix s p rest a c b ha hc hfields hp hnil hlong fun _ _ => 0
    obtain rfl := Option.some.inj (houts.symm.trans houts')
    have hok := hright out hout
    rw [(haddr out hout).1, (haddr out hout).2, hflat] at hok
    refine ⟨hok, fun hu => ?_⟩
    rw [htake, hdrop, hflat, sealed_eq, List.append_assoc, List.append_assoc,
      List.append_cancel_left_eq] at hcarried
    have hcheck := (List.append_inj hcarried (by simp)).1
    intro hc0
    apply hudp hu
    rw [← ofWord16_word16 .big check, ← hcheck, ofWord16_word16, hc0]
  · rintro ⟨hok, hudp⟩ fresh
    obtain ⟨outs, houts, hflat, -, haddr⟩ :=
      @translate_long e srcPrefix dstPrefix s p rest a c b ha hc hfields hp hnil hlong fresh
    refine ⟨outs, _, houts, ?_, ?_, hudp⟩
    · rw [htake, hdrop, hflat, sealed_eq, List.append_assoc, List.append_assoc]
    · intro out hout
      rw [(haddr out hout).1, (haddr out hout).2, hflat]
      exact hok

end Segment

/-- The checksum is right exactly when there are no options, the first packet
has the whole header, what follows it adds nothing, and the checksum of UDP
does not come out as 0. -/
theorem carries_iff (e : ByteOrder) (srcPrefix dstPrefix : UInt32) (s : Segment) :
    Carries e srcPrefix dstPrefix s ↔ ChecksumRight e srcPrefix dstPrefix s := by
  constructor
  · intro h
    have hnil := h.options_eq_nil
    refine ⟨hnil, ?_⟩
    cases hp : s.pieces with
    | nil =>
        have hcut := s.cut
        rw [hp] at hcut
        exact hcut.elim
    | cons p rest =>
        have hlong : s.transport.headerLen ≤ p.payload.length := by
          by_contra hshort
          exact not_carries_of_stub hp hnil (by omega) h
        exact ⟨p, rest, rfl, hlong, (carries_iff_of_long hp hnil hlong).mp h⟩
  · rintro ⟨hnil, p, rest, hp, hlong, hright⟩
    exact (carries_iff_of_long hp hnil hlong).mpr hright

theorem plainHeader_ihl :
    (0x45 : UInt8).toNat % 16 * 4 = IP_HEADER_LEN + ([] : List UInt8).length := by decide

theorem secondPiece_totLen : (28 : UInt16).toNat =
    IP_HEADER_LEN + ([] : List UInt8).length + ([1, 2, 3, 4, 5, 6, 7, 8] : List UInt8).length := by
  decide

/-- A UDP datagram of 16 bytes in two fragments. -/
def splitUdp : Segment where
  pieces := [
    ⟨⟨0x45, 0, 28, 7, 0x2000, 64, IPPROTO_UDP, 0, 0x0A000001, 0x0A000002⟩, [],
      [0, 53, 0, 53, 0, 16, 219, 77], plainHeader_ihl, by decide⟩,
    ⟨⟨0x45, 0, 28, 7, 0x0001, 64, IPPROTO_UDP, 0, 0x0A000001, 0x0A000002⟩, [],
      [1, 2, 3, 4, 5, 6, 7, 8], plainHeader_ihl, secondPiece_totLen⟩]
  cut := ⟨⟨by decide, by decide, by decide⟩, by decide, by decide⟩
  same := by
    simp
  transport := .udp
  protocol := by
    simp [Transport.protocol]
  long := by decide

/-- Its checksum was right, and is that of the first fragment afterwards. -/
theorem carries_fails_splitUdp :
    Verifies (be32 0x0A000001) (be32 0x0A000002) .udp splitUdp.payload ∧
      ¬Carries .big 0x20010DB8 0x20010DB8 splitUdp := by
  refine ⟨by decide, ?_⟩
  intro h
  obtain ⟨outs, check, houts, -, hright, -⟩ := h fun _ _ => 0
  have hwrong : ∃ out ∈ (translate .big 0x20010DB8 0x20010DB8 (fun _ _ => 0) splitUdp.pieces).getD [],
      ¬Verifies (saddr6 out) (daddr6 out) .udp
        (((translate .big 0x20010DB8 0x20010DB8 (fun _ _ => 0) splitUdp.pieces).getD []).map
          data6).flatten := by
    decide +kernel
  rw [houts, Option.getD_some] at hwrong
  obtain ⟨out, hout, hno⟩ := hwrong
  exact hno (hright out hout)

end UbntSdk.Ivi
