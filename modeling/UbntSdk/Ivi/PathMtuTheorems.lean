/-
UbntSdk.Ivi.PathMtuTheorems — the path MTU in "fragmentation needed" and
"packet too big".

An IPv4 header of 20 bytes becomes one of 40 or of 48, so the MTU should
grow by 20 or 28 on the way to IPv6 (`mtuGap`), and come back. Three things
decide otherwise. `icmp4to6_trans` calls `ntohl` on the 16-bit field, which
on a little-endian host puts the MTU into the upper half of the word. It
tests the flags of the quoted header without `ntohs`. And `icmp6to4_trans`
goes by the next header of the quote, which is that of a fragment header
also when the IPv4 protocol was 44 (`NEXTHDR_FRAGMENT`). The subtraction
itself is not checked.

`path_mtu_iff` says exactly when both directions are right.
-/
import UbntSdk.Ivi.MappingTheorems

namespace UbntSdk.Ivi

open UbntSdk.Lib

/-! ## The messages -/

/-- "Fragmentation needed" with an MTU, quoting a header and what follows. -/
def fragNeeded (check unused mtu : UInt16) (h : Iphdr) (x : List UInt8) : List UInt8 :=
  [ICMP_DEST_UNREACH] ++ ([ICMP_FRAG_NEEDED] ++ (word16 .big check ++
    ((word16 .big unused ++ word16 .big mtu) ++ (h.bytes ++ x))))

/-- "Packet too big" with an MTU and a quote. -/
def pktTooBig (code : UInt8) (check : UInt16) (mtu : UInt32) (quote : List UInt8) : List UInt8 :=
  [ICMPV6_PKT_TOOBIG] ++ ([code] ++ (word16 .big check ++ (be32 mtu ++ quote)))

/-- What the MTU has to grow by: 28 if `get_new_headerlen4to6` gives the
header a fragment header, 20 otherwise. -/
def mtuGap (h : Iphdr) : Nat :=
  if getNewHeaderlen4to6 h.bytes = some (IPV6_HEADER_LEN + 8) then 28 else 20

theorem mtuGap_eq (h : Iphdr) : mtuGap h = if h.extended then 28 else 20 := by
  have hlen := getNewHeaderlen4to6_eq h []
  rw [List.append_nil] at hlen
  rw [mtuGap, hlen]
  cases h.extended <;> rfl

/-- The flags of the quoted header as `icmp4to6_trans` tests them: the field
is loaded in the order of the host. -/
def hostExtended (e : ByteOrder) (h : Iphdr) : Bool :=
  let fragOff := ofWord16 e (word16 .big h.fragOff)
  fragOff &&& 0x4000 = 0 ∨ fragOff &&& 0x2000 ≠ 0

theorem hostExtended_big (h : Iphdr) : hostExtended .big h = h.extended := by
  simp [hostExtended, Iphdr.extended, Iphdr.df, Iphdr.mf, Bool.decide_or]

/-- The MTU that `icmp4to6_trans` writes. -/
def mtu4to6 (e : ByteOrder) (mtu : UInt16) (h : Iphdr) : UInt32 :=
  be32ToCpu e (ofWord16 e (word16 .big mtu)).toUInt32 + if hostExtended e h then 28 else 20

/-- `ntohl` of the half word: on a little-endian host it lands in the upper
half. -/
theorem be32ToCpu_half (e : ByteOrder) (mtu : UInt16) :
    (be32ToCpu e (ofWord16 e (word16 .big mtu)).toUInt32).toNat =
      mtu.toNat * if e = .big then 1 else 65536 := by
  have hmtu := mtu.toNat_lt
  cases e with
  | big => simp [be32ToCpu, word32]
  | little =>
      simp only [be32ToCpu, word32, le32, be32, ofWord16, word16, le16, ofLe16, List.reverse_cons,
        List.reverse_nil, List.nil_append, List.cons_append, ofBe32, UInt16.toNat_toUInt32,
        UInt16.toNat_ofNat', UInt8.toNat_ofNat', UInt32.toNat_ofNat', reduceCtorEq, if_false]
      -- the two bytes change places, and then go to the upper half
      obtain ⟨hi, lo, hhi, hlo, hsum⟩ : ∃ hi lo, hi < 256 ∧ lo < 256 ∧ mtu.toNat = 256 * hi + lo :=
        ⟨mtu.toNat / 256, mtu.toNat % 256, by omega, by omega, by omega⟩
      have hfirst : (256 * hi + lo) / 256 % 256 = hi := by omega
      have hsecond : (256 * hi + lo) % 256 = lo := by omega
      have hbytes : (hi + lo * 256) % 65536 = hi + lo * 256 := by omega
      have hlow : (hi + lo * 256) % 256 = hi := by omega
      have hhigh : (hi + lo * 256) / 256 % 256 = lo := by omega
      have hnone : (hi + lo * 256) / 65536 = 0 ∧ (hi + lo * 256) / 16777216 = 0 := by omega
      simp only [Nat.reducePow, hsum, hfirst, hsecond, hbytes, hlow, hhigh, hnone]
      omega

theorem mtu4to6_toNat (e : ByteOrder) (mtu : UInt16) (h : Iphdr) :
    (mtu4to6 e mtu h).toNat =
      (mtu.toNat * if e = .big then 1 else 65536) + if hostExtended e h then 28 else 20 := by
  have hmtu := mtu.toNat_lt
  rw [mtu4to6, UInt32.toNat_add, be32ToCpu_half]
  cases e <;> cases hostExtended _ h <;> simp <;> omega

/-! ## What the functions write -/

/-- The checksum of a message is behind its type and code. -/
theorem sealed_pair (magic : Nat → Nat → UInt16) (type code : UInt8) (rest : List UInt8) :
    ∃ check, sealed magic [type, code] rest = [type] ++ ([code] ++ (word16 .big check ++ rest)) :=
  ⟨_, rfl⟩

/-- The new message holds the MTU and the translated header. -/
theorem eq_of_fragNeeded {e : ByteOrder} {srcPrefix dstPrefix : UInt32} {depth : Nat}
    {check unused mtu : UInt16} {h : Iphdr} {x new src6 dst6 : List UInt8}
    {r : Bool × List UInt8 × List UInt8}
    (hr : icmp4to6Trans e srcPrefix dstPrefix depth new (fragNeeded check unused mtu h x) src6 dst6 =
      some r) :
    ∃ (check6 : UInt16) (supplement : Int) (was rest : List UInt8),
      r.2.1 = pktTooBig ICMP_FRAG_NEEDED check6 (mtu4to6 e mtu h)
        (h.header6 e srcPrefix dstPrefix supplement was ++ rest) := by
  have herr : IsError4 ICMP_DEST_UNREACH := Or.inl rfl
  obtain _ | depth := depth
  · cases hr
  -- the new packet has room for the message and the header it quotes
  have hroom : 8 ≤ new.length :=
    (icmp4to6Trans_length hr).2.2.2 (by simp only [fragNeeded, List.length_append]; simp; omega)
  obtain ⟨n0, new, hn0, hnew, rfl⟩ := exists_split 1 (new.length - 1)
    (show new.length = 1 + (new.length - 1) by omega)
  simp only [List.length_append, hn0] at hroom
  obtain ⟨n1, new, hn1, -, rfl⟩ := exists_split 1 (new.length - 1)
    (show new.length = 1 + (new.length - 1) by omega)
  simp only [List.length_append, hn1] at hroom
  obtain ⟨m, new, hm, -, rfl⟩ := exists_split 2 (new.length - 2)
    (show new.length = 2 + (new.length - 2) by omega)
  simp only [List.length_append, hm] at hroom
  obtain ⟨g, new, hg, -, rfl⟩ := exists_split 4 (new.length - 4)
    (show new.length = 4 + (new.length - 4) by omega)
  obtain ⟨n0, rfl⟩ := List.length_eq_one_iff.mp hn0
  obtain ⟨n1, rfl⟩ := List.length_eq_one_iff.mp hn1
  have hc : (word16 .big check).length = 2 := word16_length ..
  have hw : (word16 .big unused ++ word16 .big mtu).length = 4 := by simp
  rw [fragNeeded] at hr
  by_cases hnarrow : new.length < h.headerLen6
  · rw [icmp4to6Trans_narrow e srcPrefix dstPrefix depth src6 dst6 hc hw hm hg herr h x hnarrow] at hr
    cases hr
  obtain ⟨was, new, hwas, -, rfl⟩ := exists_split h.headerLen6 (new.length - h.headerLen6)
    (show new.length = h.headerLen6 + (new.length - h.headerLen6) by omega)
  have hfield : ((h.bytes ++ x).drop 6).take 2 = word16 .big h.fragOff :=
    (peek?_eq_some.mp (h.peek_fragOff x)).2.symm
  have hmtu : (word16 .big unused ++ word16 .big mtu).drop 2 = word16 .big mtu :=
    List.drop_left' (word16_length ..)
  have hhead : head4 e ICMP_DEST_UNREACH ICMP_FRAG_NEEDED (word16 .big unused ++ word16 .big mtu)
      (h.bytes ++ x) = (ICMPV6_PKT_TOOBIG, ICMP_FRAG_NEEDED, be32 (mtu4to6 e mtu h)) := by
    rw [head4, if_neg (by decide), if_neg (by decide), if_pos rfl, if_neg (by decide), hfield, hmtu]
    simp only [mtu4to6, hostExtended, decide_eq_true_eq]
  rw [icmp4to6Trans_quoted e srcPrefix dstPrefix depth src6 dst6 hc hw hm hg herr h x hwas new,
    hhead] at hr
  obtain ⟨rest, -, hr⟩ := Option.map_eq_some_iff.mp hr
  obtain ⟨check6, hseal⟩ := sealed_pair (magic6 src6 dst6) ICMPV6_PKT_TOOBIG ICMP_FRAG_NEEDED
    (be32 (mtu4to6 e mtu h) ++
      (h.header6 e srcPrefix dstPrefix (h.headerLen6 - IPV6_HEADER_LEN) was ++ rest.1))
  refine ⟨check6, h.headerLen6 - IPV6_HEADER_LEN, was, rest.1, ?_⟩
  rw [← hr, pktTooBig, ← hseal]

/-- The new message holds the MTU less the difference of the headers. -/
theorem load_of_pktTooBig {e : ByteOrder} {depth : Nat} {code : UInt8} {check : UInt16} {mtu : UInt32}
    {quote new : List UInt8} {r : Bool × List UInt8 × List UInt8} (hquote : 40 ≤ quote.length)
    (hr : icmp6to4Trans e depth new (pktTooBig code check mtu quote) = some r) :
    ∃ front rest : List UInt8, front.length = 4 ∧ r.2.1 = front ++
      (be32 (mtu - if quote.getD 6 0 = NEXTHDR_FRAGMENT then 28 else 20) ++ rest) := by
  have herr : IsError6 ICMPV6_PKT_TOOBIG := Or.inr (Or.inr rfl)
  obtain _ | depth := depth
  · cases hr
  have hroom : 8 ≤ new.length :=
    (icmp6to4Trans_length hr).2.2.2 (by simp only [pktTooBig, List.length_append]; simp; omega)
  obtain ⟨n0, new, hn0, hnew, rfl⟩ := exists_split 1 (new.length - 1)
    (show new.length = 1 + (new.length - 1) by omega)
  simp only [List.length_append, hn0] at hroom
  obtain ⟨n1, new, hn1, -, rfl⟩ := exists_split 1 (new.length - 1)
    (show new.length = 1 + (new.length - 1) by omega)
  simp only [List.length_append, hn1] at hroom
  obtain ⟨m, new, hm, -, rfl⟩ := exists_split 2 (new.length - 2)
    (show new.length = 2 + (new.length - 2) by omega)
  simp only [List.length_append, hm] at hroom
  obtain ⟨g, new, hg, -, rfl⟩ := exists_split 4 (new.length - 4)
    (show new.length = 4 + (new.length - 4) by omega)
  obtain ⟨n0, rfl⟩ := List.length_eq_one_iff.mp hn0
  obtain ⟨n1, rfl⟩ := List.length_eq_one_iff.mp hn1
  have hc : (word16 .big check).length = 2 := word16_length ..
  rw [pktTooBig] at hr
  by_cases hx : Headers6 quote ∧ 20 ≤ new.length
  swap
  · rw [icmp6to4Trans_narrow e depth hc (be32_length mtu) hm hg herr hquote hx] at hr
    cases hr
  obtain ⟨was, new, hwas, -, rfl⟩ := exists_split 20 (new.length - 20)
    (show new.length = 20 + (new.length - 20) by omega)
  have hle := hx.1.quoteLen_le
  obtain ⟨q, y, hq, -, rfl⟩ := exists_split (quoteLen6 quote) (quote.length - quoteLen6 quote)
    (show quote.length = quoteLen6 quote + (quote.length - quoteLen6 quote) by omega)
  have hback : ofWord32 .big (be32 mtu) = mtu := ofBe32_be32 mtu
  have hhead : head6 ICMPV6_PKT_TOOBIG code (be32 mtu) (q ++ y) = (ICMP_DEST_UNREACH,
      ICMP_FRAG_NEEDED, be32 (mtu - if (q ++ y).getD 6 0 = NEXTHDR_FRAGMENT then 28 else 20)) := by
    rw [head6, if_neg (by decide), if_neg (by decide), if_neg (by decide), if_neg (by decide),
      if_pos rfl, mtu6, if_pos hquote, hback]
    rfl
  rw [icmp6to4Trans_quoted e depth hc (be32_length mtu) hm hg herr y hx.1 hq hwas new, hhead] at hr
  obtain ⟨rest, -, hr⟩ := Option.map_eq_some_iff.mp hr
  obtain ⟨check4, hseal⟩ := sealed_pair magic4 ICMP_DEST_UNREACH ICMP_FRAG_NEEDED
    (be32 (mtu - if (q ++ y).getD 6 0 = NEXTHDR_FRAGMENT then 28 else 20) ++
      (header4 e (q ++ y) ++ rest.1))
  refine ⟨[ICMP_DEST_UNREACH] ++ ([ICMP_FRAG_NEEDED] ++ word16 .big check4),
    header4 e (q ++ y) ++ rest.1, by simp, ?_⟩
  rw [← hr]
  simpa only [List.append_assoc] using hseal

/-! ## The way there and back -/

/-- The next header of a translated header. -/
theorem getD_header6 (h : Iphdr) (e : ByteOrder) (srcPrefix dstPrefix : UInt32) (supplement : Int)
    (was rest : List UInt8) :
    (h.header6 e srcPrefix dstPrefix supplement was ++ rest).getD 6 0 = NEXTHDR_FRAGMENT ↔
      h.extended = true ∨ h.protocol = NEXTHDR_FRAGMENT := by
  unfold Iphdr.header6
  split
  · rename_i hext
    rw [List.append_assoc, getD_nexthdr]
    exact iff_of_true rfl (Or.inl hext)
  · rename_i hext
    rw [getD_nexthdr, Iphdr.to6, or_iff_right hext]
    simp only [nexthdrOf]
    by_cases hicmp : h.protocol = IPPROTO_ICMP
    · rw [if_pos hicmp, hicmp]
      decide
    · rw [if_neg hicmp]

/-- A quote that starts with the same bytes has the same next header. -/
theorem getD_of_take {a b : List UInt8} {n i : Nat} (h : a.take n = b.take n) (hi : i < n) :
    a.getD i 0 = b.getD i 0 := by
  have hget := congrArg (·[i]?) h
  simp only [List.getElem?_take, if_pos hi] at hget
  rw [List.getD_eq_getElem?_getD, List.getD_eq_getElem?_getD, hget]

/-- The word behind the checksum. -/
theorem load32_word {front : List UInt8} (hfront : front.length = 4) (word : UInt32)
    (rest : List UInt8) : load32? .big (front ++ (be32 word ++ rest)) 4 = some word := by
  have hback : ofWord32 .big (be32 word) = word := ofBe32_be32 word
  simp only [load32?, peek?_skip, peek?_head, hfront, Nat.le_refl, Nat.sub_self, be32_length,
    Option.map_some, hback]

/-- Its lower half. -/
theorem load16_word {front : List UInt8} (hfront : front.length = 4) {word : UInt32} {half : UInt16}
    (hhalf : word.toNat = half.toNat) (rest : List UInt8) :
    load16? .big (front ++ (be32 word ++ rest)) 6 = some half := by
  have hlt := half.toNat_lt
  have hbytes : be32 word = [0, 0] ++ word16 .big half := by
    simp only [be32, word16, le16, hhalf, List.reverse_cons, List.reverse_nil, List.nil_append,
      List.cons_append, List.cons.injEq, and_true, ← UInt8.toNat_inj, UInt8.toNat_ofNat']
    refine ⟨?_, ?_⟩ <;> simp <;> omega
  simp only [hbytes, List.append_assoc, load16?]
  simp only [peek?_skip, peek?_head, hfront, List.length_cons, List.length_nil, Nat.reduceAdd,
    Nat.reduceLeDiff, Nat.reduceSub, word16_length, Option.map_some, ofWord16_word16]

/-- The new message has the type and an MTU that grew by `gap`. -/
def Raised (mtu : UInt16) (gap : Nat) (new : List UInt8) : Prop :=
  new[0]? = some ICMPV6_PKT_TOOBIG ∧
    ∃ mtu6, load32? .big new 4 = some mtu6 ∧ mtu6.toNat = mtu.toNat + gap

/-- The new message has the MTU less `gap`, and the original MTU if it was
the translated one. -/
def Lowered (mtu6 : UInt32) (mtu : UInt16) (gap : Nat) (new : List UInt8) : Prop :=
  (∃ word, load32? .big new 4 = some word ∧ word.toNat + gap = mtu6.toNat) ∧
    (mtu6.toNat = mtu.toNat + gap → load16? .big new 6 = some mtu)

/-- Where the MTU is right: the host is big-endian, or it has nothing to
move to the upper half and happens to see the right flags; and the quoted
protocol is not taken for a fragment header. -/
def MtuKept (e : ByteOrder) (mtu : UInt16) (h : Iphdr) : Prop :=
  (e = .big ∨ (mtu = 0 ∧ hostExtended e h = h.extended)) ∧
    (h.extended = true ∨ h.protocol ≠ NEXTHDR_FRAGMENT)

theorem raised_iff (e : ByteOrder) (mtu : UInt16) (h : Iphdr) :
    (mtu4to6 e mtu h).toNat = mtu.toNat + mtuGap h ↔
      e = .big ∨ (mtu = 0 ∧ hostExtended e h = h.extended) := by
  rw [mtu4to6_toNat, mtuGap_eq]
  cases e with
  | big => simp [hostExtended_big]
  | little =>
      have hmtu : mtu = 0 ↔ mtu.toNat = 0 := by
        rw [← UInt16.toNat_inj]
        rfl
      rw [hmtu]
      cases hostExtended .little h <;> cases h.extended <;> simp <;> omega

theorem lowered_iff {h : Iphdr} {mtu6 : UInt32} {nexthdr : UInt8}
    (hnext : nexthdr = NEXTHDR_FRAGMENT ↔ h.extended = true ∨ h.protocol = NEXTHDR_FRAGMENT) :
    (mtu6 - if nexthdr = NEXTHDR_FRAGMENT then 28 else 20).toNat + mtuGap h = mtu6.toNat ↔
      (h.extended = true ∨ h.protocol ≠ NEXTHDR_FRAGMENT) ∧ mtuGap h ≤ mtu6.toNat := by
  have hlt := mtu6.toNat_lt
  rw [mtuGap_eq]
  by_cases hext : h.extended = true
  · rw [if_pos (hnext.mpr (Or.inl hext)), if_pos hext, UInt32.toNat_sub]
    simp only [hext, true_or, true_and, UInt32.reduceToNat]
    omega
  · rw [if_neg hext, or_iff_right hext]
    by_cases hproto : h.protocol = NEXTHDR_FRAGMENT
    · rw [if_pos (hnext.mpr (Or.inr hproto)), UInt32.toNat_sub]
      simp only [hproto, ne_eq, not_true_eq_false, false_and, iff_false, UInt32.reduceToNat]
      omega
    · rw [if_neg fun hf => (hnext.mp hf).elim hext hproto, UInt32.toNat_sub]
      simp only [hproto, ne_eq, not_false_eq_true, true_and, UInt32.reduceToNat]
      omega

/-- "Fragmentation needed" goes to IPv6, and a "packet too big" that quotes
the translated header comes back: the MTU grows by the gap and loses it
again exactly when it is kept and the MTU that comes back is at least the
gap. -/
theorem path_mtu_iff (e : ByteOrder) (srcPrefix dstPrefix : UInt32) (check unused mtu : UInt16)
    (h : Iphdr) (x new src6 dst6 : List UInt8) (depth : Nat) (r : Bool × List UInt8 × List UInt8)
    (hthere : icmp4to6Trans e srcPrefix dstPrefix depth new (fragNeeded check unused mtu h x) src6
      dst6 = some r)
    (code : UInt8) (check' : UInt16) (mtu6 : UInt32) (quote back : List UInt8)
    (hquote : quote.take h.headerLen6 = (r.2.1.drop ICMP_HEADER_LEN).take h.headerLen6)
    (depth' : Nat) (r' : Bool × List UInt8 × List UInt8)
    (hback : icmp6to4Trans e depth' back (pktTooBig code check' mtu6 quote) = some r') :
    Raised mtu (mtuGap h) r.2.1 ∧ Lowered mtu6 mtu (mtuGap h) r'.2.1 ↔
      MtuKept e mtu h ∧ mtuGap h ≤ mtu6.toNat := by
  obtain ⟨check6, supplement, was, rest, hnew⟩ := eq_of_fragNeeded hthere
  -- the quote starts with the translated header
  have hdrop : r.2.1.drop ICMP_HEADER_LEN =
      h.header6 e srcPrefix dstPrefix supplement was ++ rest := by
    have hfront : ([ICMPV6_PKT_TOOBIG] ++ ([ICMP_FRAG_NEEDED] ++ (word16 .big check6 ++
        be32 (mtu4to6 e mtu h)))).length = ICMP_HEADER_LEN := by simp [ICMP_HEADER_LEN]
    have hdrop := @List.drop_left' _ _ (h.header6 e srcPrefix dstPrefix supplement was ++ rest) _
      hfront
    simp only [List.append_assoc] at hdrop
    rw [hnew, pktTooBig, hdrop]
  rw [hdrop] at hquote
  have h40 : 40 ≤ h.headerLen6 := by
    unfold Iphdr.headerLen6
    split <;> omega
  have hlen : 40 ≤ quote.length := by
    have hlength := congrArg List.length hquote
    rw [List.take_left' (Iphdr.header6_length ..), Iphdr.header6_length, List.length_take] at hlength
    omega
  have hnext : quote.getD 6 0 = NEXTHDR_FRAGMENT ↔
      h.extended = true ∨ h.protocol = NEXTHDR_FRAGMENT := by
    rw [getD_of_take hquote (by omega)]
    exact getD_header6 ..
  obtain ⟨front, tail, hfront, hold⟩ := load_of_pktTooBig hlen hback
  -- the two words
  have hraised : Raised mtu (mtuGap h) r.2.1 ↔ (mtu4to6 e mtu h).toNat = mtu.toNat + mtuGap h := by
    have hword := @load32_word ([ICMPV6_PKT_TOOBIG] ++ ([ICMP_FRAG_NEEDED] ++ word16 .big check6))
      (by simp) (mtu4to6 e mtu h) (h.header6 e srcPrefix dstPrefix supplement was ++ rest)
    simp only [List.append_assoc] at hword
    rw [Raised, hnew, pktTooBig, hword]
    simp
  have hgap := mtuGap_eq h
  have hloss : Lowered mtu6 mtu (mtuGap h) r'.2.1 ↔
      (mtu6 - if quote.getD 6 0 = NEXTHDR_FRAGMENT then 28 else 20).toNat + mtuGap h =
        mtu6.toNat := by
    rw [Lowered, hold, load32_word hfront]
    constructor
    · rintro ⟨⟨word, hword, hsum⟩, -⟩
      rwa [← Option.some.inj hword] at hsum
    · intro hsum
      exact ⟨⟨_, rfl, hsum⟩, fun hm => load16_word hfront (by omega) tail⟩
  rw [hraised, hloss, MtuKept, raised_iff, lowered_iff hnext, and_assoc]

/-- A header of a UDP packet that may not be fragmented. -/
def wholeHeader : Iphdr :=
  ⟨0x45, 0, 1500, 1, 0x4000, 64, IPPROTO_UDP, 0, 0x0A000001, 0x0A000002⟩

/-- The message about it with an MTU of 1400, translated. -/
def tooBigFor (e : ByteOrder) : Bool × List UInt8 × List UInt8 :=
  (icmp4to6Trans e 0 0 1 (List.replicate 48 0) (fragNeeded 0 0 1400 wholeHeader [])
    (List.replicate 16 0) (List.replicate 16 0)).getD (false, [], [])

/-- The answer, translated back. -/
def answered : Bool × List UInt8 × List UInt8 :=
  (icmp6to4Trans .big 1 (List.replicate 28 0)
    (pktTooBig 0 0 1420 ((tooBigFor .big).2.1.drop ICMP_HEADER_LEN))).getD (false, [], [])

theorem path_mtu_wholeHeader :
    Raised 1400 20 (tooBigFor .big).2.1 ∧ Lowered 1420 1400 20 answered.2.1 := by
  have hthere : icmp4to6Trans .big 0 0 1 (List.replicate 48 0)
      (fragNeeded 0 0 1400 wholeHeader []) (List.replicate 16 0) (List.replicate 16 0) =
        some (tooBigFor .big) := by decide +kernel
  have hback : icmp6to4Trans .big 1 (List.replicate 28 0)
      (pktTooBig 0 0 1420 ((tooBigFor .big).2.1.drop ICMP_HEADER_LEN)) = some answered := by
    decide +kernel
  have hgap : mtuGap wholeHeader = 20 := by decide
  have hkept : MtuKept .big 1400 wholeHeader := ⟨Or.inl rfl, Or.inr (by decide)⟩
  have h := (path_mtu_iff .big 0 0 0 0 1400 wholeHeader [] _ _ _ 1 _ hthere 0 0 1420 _ _ rfl 1 _
    hback).mpr ⟨hkept, by rw [hgap]; decide⟩
  rwa [hgap] at h

/-- On a little-endian host the new MTU is 1400 * 65536 + 28. -/
theorem path_mtu_fails_little :
    icmp4to6Trans .little 0 0 1 (List.replicate 48 0) (fragNeeded 0 0 1400 wholeHeader [])
        (List.replicate 16 0) (List.replicate 16 0) = some (tooBigFor .little) ∧
      getNewHeaderlen4to6 wholeHeader.bytes = some IPV6_HEADER_LEN ∧
      load32? .big (tooBigFor .little).2.1 4 = some 91750428 ∧
      ¬Raised 1400 20 (tooBigFor .little).2.1 := by
  have hload : load32? .big (tooBigFor .little).2.1 4 = some 91750428 := by decide +kernel
  refine ⟨by decide +kernel, by decide, hload, ?_⟩
  rintro ⟨-, mtu6, hmtu6, hsum⟩
  rw [hload] at hmtu6
  obtain rfl := Option.some.inj hmtu6
  exact absurd hsum (by decide)

end UbntSdk.Ivi
