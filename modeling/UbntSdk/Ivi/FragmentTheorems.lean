/-
UbntSdk.Ivi.FragmentTheorems — which datagrams an IPv6 receiver can put
together again.

`iphdr4to6_trans` copies the fragment field of IPv4 as it is. The flag "more
fragments" then stands where IPv6 has an offset of 1024 units, so the first
fragment of a datagram in several pieces never arrives at its place. A packet
without DF is given a fragment header too, whose reserved byte is not written.
What is left are the datagrams that are sent whole with DF set.
-/
import UbntSdk.Ivi.Datagram

namespace UbntSdk.Ivi

open UbntSdk.Lib

/-- A packet that arrives as it was sent. One of protocol 44 is taken for a
fragment, so its options have to be the fragment header of a whole packet. -/
def SentWhole (p : Piece) : Prop :=
  p.hdr.df = true ∧ InBounds4 p.packet ∧
    if p.hdr.protocol = NEXTHDR_FRAGMENT then
      ∃ f : FragHdr, p.options = f.bytes ∧ f.fragOff.toNat / 8 = 0 ∧ f.fragOff &&& 1 = 0 ∧
        f.reserved = 0
    else p.options = [] ∧ (p.hdr.protocol = IPPROTO_ICMP →
      p.payload.getD 0 0 = ICMP_ECHO ∨ p.payload.getD 0 0 = ICMP_ECHOREPLY)

/-! ## Several pieces -/

/-- The flag is an offset of 1024 units or more. -/
theorem Iphdr.le_fragOff_of_mf {h : Iphdr} (hmf : h.mf = true) : 2 ^ 13 ≤ h.fragOff.toNat := by
  by_contra hlt
  have hbit : h.fragOff.toNat.testBit 13 = false := Nat.testBit_lt_two_pow (by omega)
  have hzero : h.fragOff &&& 0x2000 = 0 := by
    rw [← UInt16.toNat_inj, UInt16.toNat_and]
    apply Nat.eq_of_testBit_eq
    intro i
    have hflag : (0x2000 : UInt16).toNat = 2 ^ 13 := rfl
    rw [Nat.testBit_and, hflag, Nat.testBit_two_pow]
    by_cases hi : 13 = i
    · simp [← hi, hbit]
    · simp [hi]
  simp [Iphdr.mf, hzero] at hmf

/-- The first packet of a list. -/
theorem translate_cons {e : ByteOrder} {srcPrefix dstPrefix : UInt32} {fresh : Nat → Nat → UInt8}
    {p : Piece} {rest : List Piece} {outs : List (List UInt8)}
    (h : translate e srcPrefix dstPrefix fresh (p :: rest) = some outs) :
    ∃ out outs', ipMapping e (fresh 0) p.packet srcPrefix dstPrefix = some out ∧
      translate e srcPrefix dstPrefix (fun i => fresh (i + 1)) rest = some outs' ∧
      outs = out :: outs' := by
  simp only [translate, Option.bind_eq_bind, Option.bind_eq_some_iff, Option.pure_def,
    Option.some.injEq] at h
  obtain ⟨out, hout, outs', houts, rfl⟩ := h
  exact ⟨out, outs', hout, houts, rfl⟩

/-- What is read of the first packet. -/
theorem Reassembles.first {e : ByteOrder} {srcPrefix dstPrefix : UInt32} {d : Datagram}
    (h : Reassembles e srcPrefix dstPrefix d) {p : Piece} {rest : List Piece}
    (hp : d.pieces = p :: rest) (fresh : Nat → UInt8) :
    ∃ out v, ipMapping e fresh p.packet srcPrefix dstPrefix = some out ∧ view6 out = some v ∧
      Covers p v := by
  obtain ⟨outs, vs, houts, hvs, hcover, -⟩ := h fun _ => fresh
  rw [hp] at houts hcover
  obtain ⟨out, outs', hout, -, rfl⟩ := translate_cons houts
  cases hcover with
  | cons hv hrest =>
      simp only [List.mapM_cons, Option.bind_eq_bind, Option.bind_eq_some_iff, Option.pure_def,
        Option.some.injEq, List.cons.injEq] at hvs
      obtain ⟨v, hview, vs', -, rfl, -⟩ := hvs
      exact ⟨out, v, hout, hview, hv⟩

/-- No datagram in several pieces arrives. -/
theorem not_reassembles_of_mf {e : ByteOrder} {srcPrefix dstPrefix : UInt32} {d : Datagram}
    {p : Piece} {rest : List Piece} (hp : d.pieces = p :: rest) (hoff : p.hdr.offset * 8 = 0)
    (hmf : p.hdr.mf = true) : ¬Reassembles e srcPrefix dstPrefix d := by
  intro h
  obtain ⟨out, v, hout, hview, hstart, -⟩ := h.first hp fun _ => 0
  obtain ⟨supplement, body, rfl, -⟩ := ipMapping_shape hout
  rw [view6_extended e srcPrefix dstPrefix supplement _ body
    (show p.hdr.extended = true by simp [Iphdr.extended, hmf])] at hview
  obtain rfl := Option.some.inj hview
  have hle := Iphdr.le_fragOff_of_mf hmf
  simp only [hoff] at hstart
  omega

/-! ## One piece -/

/-- A packet of a protocol that is not looked into. -/
theorem ipMapping_opaque (e : ByteOrder) (fresh : Nat → UInt8) {h : Iphdr}
    (hproto : h.protocol = NEXTHDR_FRAGMENT) (data : List UInt8) (srcPrefix dstPrefix : UInt32) :
    ipMapping e fresh (h.bytes ++ data) srcPrefix dstPrefix =
      some (h.header6 e srcPrefix dstPrefix (h.headerLen6 - IPV6_HEADER_LEN)
        (allocSkb fresh h.headerLen6) ++ data) := by
  have hlen : getNewPktlen4to6 (h.bytes ++ data) data = some data.length := by
    rw [getNewPktlen4to6_eq, if_neg fun hc => absurd (hproto.symm.trans hc.1) (by decide)]
  have hbody (new : List UInt8) (hn : new.length = data.length) :
      payload4 e srcPrefix dstPrefix h new data = some data := by
    unfold payload4
    split
    · rfl
    · have hnext : nexthdrOf NEXTHDR_FRAGMENT = NEXTHDR_FRAGMENT := rfl
      rw [hproto, hnext, dataTrans4to6, if_neg (by decide), if_neg (by decide), if_neg (by decide),
        poke?_copy, copy_of_le (Nat.le_of_eq hn), hn, List.take_length]
  rw [ipMapping_kept hlen, hbody _ (allocSkb_length _ _), Option.map_some]

/-- A datagram in one piece arrives when its packet does. -/
theorem reassembles_single {e : ByteOrder} {srcPrefix dstPrefix : UInt32} {d : Datagram} {p : Piece}
    (hp : d.pieces = [p]) :
    Reassembles e srcPrefix dstPrefix d ↔
      ∀ fresh, ∃ out v, ipMapping e fresh p.packet srcPrefix dstPrefix = some out ∧
        view6 out = some v ∧ Covers p v := by
  constructor
  · intro h fresh
    exact h.first hp fresh
  · intro h fresh
    obtain ⟨out, v, hout, hview, hcover⟩ := h (fresh 0)
    refine ⟨[out], [v], ?_, ?_, ?_, ⟨v.identification, ?_⟩, ?_⟩
    · simp [hp, translate, hout]
    · simp [hview]
    · rw [hp]
      exact .cons hcover .nil
    · intro w hw
      rw [List.mem_singleton.mp hw]
    · simp [Datagram.payload, hp, hcover.2.1]

/-- An ICMP packet that is no echo grows by a header, no other packet does. -/
theorem getNewPktlen4to6_cases {h : Iphdr} {data : List UInt8} {n : Nat}
    (hn : getNewPktlen4to6 (h.bytes ++ data) data = some n) (hoff : h.offset = 0) :
    if h.protocol = IPPROTO_ICMP → data.getD 0 0 = ICMP_ECHO ∨ data.getD 0 0 = ICMP_ECHOREPLY then
      n = data.length
    else data.length < n := by
  rw [getNewPktlen4to6_eq] at hn
  by_cases hicmp : h.protocol = IPPROTO_ICMP
  swap
  · rw [if_neg fun hc => hicmp hc.1] at hn
    rw [if_pos fun hc => absurd hc hicmp]
    exact (Option.some.inj hn).symm
  rw [if_pos ⟨hicmp, hoff⟩, grown4] at hn
  obtain ⟨type, htype, hn⟩ := Option.bind_eq_some_iff.mp hn
  have hget : data.getD 0 0 = type := by
    rw [List.getD_eq_getElem?_getD, htype, Option.getD_some]
  rw [hget]
  by_cases hecho : type = ICMP_ECHO ∨ type = ICMP_ECHOREPLY
  · rw [if_pos hecho] at hn
    rw [if_pos fun _ => hecho]
    exact (Option.some.inj hn).symm
  · rw [if_neg hecho] at hn
    obtain ⟨k, hk, hn⟩ := Option.bind_eq_some_iff.mp hn
    have hmore := le_of_getNewHeaderlen4to6 hk
    have hlen := Option.some.inj hn
    rw [IP_HEADER_LEN] at hlen
    rw [if_neg fun hc => hecho (hc hicmp)]
    omega

/-- A packet that an IPv6 receiver takes for a whole one. -/
theorem covers_plain_iff {e : ByteOrder} {srcPrefix dstPrefix : UInt32} {p : Piece}
    (hproto : p.hdr.protocol ≠ NEXTHDR_FRAGMENT) (hext : p.hdr.extended = false)
    (hoff : p.hdr.offset * 8 = 0) (hmf : p.hdr.mf = false) {fresh : Nat → UInt8} :
    (∃ out v, ipMapping e fresh p.packet srcPrefix dstPrefix = some out ∧ view6 out = some v ∧
      Covers p v) ↔
      InBounds4 p.packet ∧ p.options = [] ∧ (p.hdr.protocol = IPPROTO_ICMP →
        p.payload.getD 0 0 = ICMP_ECHO ∨ p.payload.getD 0 0 = ICMP_ECHOREPLY) := by
  rw [← ipMapping_isSome_iff e fresh p.packet srcPrefix dstPrefix, Option.isSome_iff_exists]
  have hview (supplement : Int) (was body : List UInt8) :=
    view6_plain e srcPrefix dstPrefix supplement was body hext (nexthdrOf_ne_fragment hproto)
  constructor
  · rintro ⟨out, v, hout, hv, -, hlen, -⟩
    refine ⟨⟨out, hout⟩, ?_⟩
    obtain ⟨supplement, body, rfl, hn, -⟩ := ipMapping_shape hout
    rw [hview] at hv
    obtain rfl := Option.some.inj hv
    have hcases := getNewPktlen4to6_cases hn (by omega)
    have hlen : body.length = p.payload.length := hlen
    rw [hlen, List.length_append] at hcases
    split at hcases
    · rename_i hecho
      have hnil : p.options = [] := List.length_eq_zero_iff.mp (by omega)
      rw [hnil, List.nil_append] at hecho
      exact ⟨hnil, hecho⟩
    · omega
  · rintro ⟨⟨out, hout⟩, hnil, hecho⟩
    obtain ⟨supplement, body, rfl, hn, -⟩ := ipMapping_shape hout
    refine ⟨_, _, hout, hview _ _ _, hoff.symm, ?_, hmf.symm, rfl⟩
    have hcases := getNewPktlen4to6_cases hn (by omega)
    rw [hnil, List.nil_append, if_pos hecho] at hcases
    exact hcases

/-- A packet of protocol 44 is read with its own payload for a fragment
header. -/
theorem covers_opaque_iff {e : ByteOrder} {srcPrefix dstPrefix : UInt32} {p : Piece}
    (hproto : p.hdr.protocol = NEXTHDR_FRAGMENT) (hext : p.hdr.extended = false)
    (hoff : p.hdr.offset * 8 = 0) (hmf : p.hdr.mf = false) (fresh : Nat → UInt8) :
    (∃ out v, ipMapping e fresh p.packet srcPrefix dstPrefix = some out ∧ view6 out = some v ∧
      Covers p v) ↔
      ∃ f : FragHdr, p.options = f.bytes ∧ f.fragOff.toNat / 8 = 0 ∧ f.fragOff &&& 1 = 0 ∧
        f.reserved = 0 := by
  have hnext : nexthdrOf p.hdr.protocol = NEXTHDR_FRAGMENT := by rw [hproto]; rfl
  rw [Piece.packet, ipMapping_opaque e fresh hproto, Iphdr.header6, if_neg (by simp [hext]), hnext]
  constructor
  · rintro ⟨out, v, hout, hview, hstart, hlen, hmore, hreserved⟩
    obtain rfl := Option.some.inj hout
    by_cases h8 : 8 ≤ (p.options ++ p.payload).length
    swap
    · rw [view6_short _ rfl (by omega)] at hview
      cases hview
    obtain ⟨f, rest, hf⟩ := FragHdr.exists_append h8
    rw [hf, view6_fragment rest rfl] at hview
    obtain rfl := Option.some.inj hview
    have hsplit := List.append_inj' hf hlen.symm
    simp only [hoff] at hstart
    simp only [hmf, decide_eq_false_iff_not, not_not] at hmore
    exact ⟨f, hsplit.1, by omega, hmore, hreserved⟩
  · rintro ⟨f, hf, hstart, hmore, hreserved⟩
    rw [hf]
    refine ⟨_, _, rfl, view6_fragment p.payload rfl f, ?_, rfl, ?_, hreserved⟩
    · simp only [hstart, hoff]
    · simp [hmore, hmf]

/-- A packet without DF has a fragment header with a byte of the buffer. -/
theorem not_reassembles_of_not_df {e : ByteOrder} {srcPrefix dstPrefix : UInt32} {d : Datagram}
    {p : Piece} (hp : d.pieces = [p]) (hdf : p.hdr.df = false) :
    ¬Reassembles e srcPrefix dstPrefix d := by
  intro h
  have hext : p.hdr.extended = true := by simp [Iphdr.extended, hdf]
  obtain ⟨out, v, hout, hview, -, -, -, hreserved⟩ := h.first hp fun _ => 1
  obtain ⟨supplement, body, rfl, -⟩ := ipMapping_shape hout
  rw [view6_extended e srcPrefix dstPrefix supplement _ body hext] at hview
  obtain rfl := Option.some.inj hview
  have h48 : p.hdr.headerLen6 = 48 := if_pos hext
  rw [getD_allocSkb _ (by omega)] at hreserved
  exact absurd (show (1 : UInt8) = 0 from hreserved) (by decide)

/-- A datagram arrives exactly when it is one packet with DF set that arrives
as it was sent. -/
theorem reassembles_iff (e : ByteOrder) (srcPrefix dstPrefix : UInt32) (d : Datagram) :
    Reassembles e srcPrefix dstPrefix d ↔ ∃ p, d.pieces = [p] ∧ SentWhole p := by
  have hcut := d.cut
  cases hpieces : d.pieces with
  | nil =>
      rw [hpieces] at hcut
      exact hcut.elim
  | cons p rest =>
      rw [hpieces] at hcut
      cases rest with
      | cons q rest =>
          obtain ⟨⟨hoff, hmf, -⟩, -⟩ := hcut
          refine iff_of_false (not_reassembles_of_mf hpieces hoff hmf) ?_
          rintro ⟨p', hp', -⟩
          cases hp'
      | nil =>
          obtain ⟨hoff, hmf⟩ := hcut
          simp only [List.cons.injEq, and_true, exists_eq_left']
          cases hdf : p.hdr.df with
          | false =>
              refine iff_of_false (not_reassembles_of_not_df hpieces hdf) ?_
              rintro ⟨hdf', -⟩
              simp [hdf] at hdf'
          | true =>
              have hext : p.hdr.extended = false := by simp [Iphdr.extended, hdf, hmf]
              rw [reassembles_single hpieces, SentWhole]
              by_cases hproto : p.hdr.protocol = NEXTHDR_FRAGMENT
              · have hin : InBounds4 p.packet := by
                  rw [← ipMapping_isSome_iff e (fun _ => 0) p.packet srcPrefix dstPrefix, Piece.packet,
                    ipMapping_opaque e _ hproto]
                  rfl
                simp only [covers_opaque_iff hproto hext hoff hmf, hdf, hin, hproto, if_true, true_and,
                  forall_const]
              · simp only [covers_plain_iff hproto hext hoff hmf, hdf, hproto, if_false, true_and,
                  forall_const]

/-- A UDP datagram in two fragments of eight bytes. -/
def twoFragments : Datagram where
  pieces := [
    ⟨⟨0x45, 0, 28, 7, 0x2000, 64, IPPROTO_UDP, 0, 0x0A000001, 0x0A000002⟩, [],
      [0, 53, 0, 53, 0, 16, 0, 0], by decide, by decide⟩,
    ⟨⟨0x45, 0, 28, 7, 0x0001, 64, IPPROTO_UDP, 0, 0x0A000001, 0x0A000002⟩, [],
      [1, 2, 3, 4, 5, 6, 7, 8], by decide, by decide⟩]
  cut := ⟨⟨by decide, by decide, by decide⟩, by decide, by decide⟩
  same := by
    simp

/-- The first fragment says it starts at byte 8192. -/
theorem reassembles_fails_twoFragments :
    ¬Reassembles .big 0x20010DB8 0x20010DB8 twoFragments := by
  intro h
  obtain ⟨outs, vs, houts, hvs, hcover, -⟩ := h fun _ _ => 0
  have hview : ((translate .big 0x20010DB8 0x20010DB8 (fun _ _ => 0) twoFragments.pieces).bind
      (·.mapM view6)).map (·.map View.start) = some [8192, 0] := by
    decide +kernel
  rw [houts, Option.bind_some, hvs, Option.map_some] at hview
  cases hcover with
  | cons hfirst hrest =>
      have hstart := (List.cons.inj (Option.some.inj hview)).1
      rw [hfirst.1] at hstart
      exact absurd hstart (by decide)

end UbntSdk.Ivi
