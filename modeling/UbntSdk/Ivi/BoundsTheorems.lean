/-
UbntSdk.Ivi.BoundsTheorems — which packets are translated inside their
buffers.

`Fits4 n old` says it of an ICMP packet `old` that is written to `n` bytes,
with the packets it quotes: every header that is looked at is there, and there
is room for every header that is written. The room was computed from the first
quote alone, so a quoted error with a quote of its own runs over the end.
`Fits6` is the same for ICMPv6, where the headers only get smaller but a
quoted fragment header may be missing.
-/
import UbntSdk.Ivi.MappingTheorems

namespace UbntSdk.Ivi

open UbntSdk.Lib

/-! ## The steps -/

/-- A packet with a header of ICMP. -/
theorem exists_icmphdr {l : List UInt8} (h : 8 ≤ l.length) :
    ∃ (b0 b1 : UInt8) (c w x : List UInt8), c.length = 2 ∧ w.length = 4 ∧
      l = [b0] ++ ([b1] ++ (c ++ (w ++ x))) := by
  obtain ⟨x0, l1, h0, hl1, rfl⟩ := exists_split 1 (l.length - 1)
    (show l.length = 1 + (l.length - 1) by omega)
  rw [List.length_append, h0] at h
  obtain ⟨x1, l2, h1, hl2, rfl⟩ := exists_split 1 (l1.length - 1)
    (show l1.length = 1 + (l1.length - 1) by omega)
  rw [List.length_append, h1] at h
  obtain ⟨c, l4, hc, hl4, rfl⟩ := exists_split 2 (l2.length - 2)
    (show l2.length = 2 + (l2.length - 2) by omega)
  rw [List.length_append, hc] at h
  obtain ⟨w, x, hw, -, rfl⟩ := exists_split 4 (l4.length - 4)
    (show l4.length = 4 + (l4.length - 4) by omega)
  obtain ⟨b0, rfl⟩ := List.length_eq_one_iff.mp h0
  obtain ⟨b1, rfl⟩ := List.length_eq_one_iff.mp h1
  exact ⟨b0, b1, c, w, x, hc, hw, rfl⟩

theorem sealAt_isSome (magic : Nat → Nat → UInt16) {check : Nat} {m : List UInt8} :
    (sealAt magic check m).isSome ↔ check + 2 ≤ m.length := by
  by_cases h : check + 2 ≤ m.length
  · obtain ⟨a, l, ha, hl, rfl⟩ := exists_split check (m.length - check)
      (show m.length = check + (m.length - check) by omega)
    rw [List.length_append, ha] at h
    obtain ⟨c, b, hc, -, rfl⟩ := exists_split 2 (l.length - 2)
      (show l.length = 2 + (l.length - 2) by omega)
    rw [sealAt_eq magic ha hc]
    simp only [Option.isSome_some, true_iff, List.length_append]
    omega
  · rw [sealAt_none magic (by omega)]
    simp only [Option.isSome_none, Bool.false_eq_true, false_iff]
    exact h

/-- A transport header that is there needs room. -/
theorem transportTrans_isSome {k check : Nat} (magic : Nat → Nat → UInt16) {new old : List UInt8} :
    (transportTrans k check magic new old).isSome ↔
      (k ≤ old.length → check + 2 ≤ new.length) := by
  rw [transportTrans_eq]
  by_cases h : k ≤ old.length
  · simp only [h, if_true, Option.isSome_map, sealAt_isSome, copy_length, true_imp_iff]
  · simp [h]

/-- A quoted transport header that is there needs room. -/
theorem transport_settle_isSome {k check : Nat} (magic : Nat → Nat → UInt16) (hk : check + 2 ≤ k)
    (new old : List UInt8) :
    ((transportTrans k check magic new old).bind fun r =>
      settle (if r.1 then k else 0) r.2 old).isSome ↔ (k ≤ old.length → k ≤ new.length) := by
  rw [transportTrans_eq]
  by_cases h : k ≤ old.length
  · simp only [h, if_true, true_imp_iff]
    by_cases hn : check + 2 ≤ new.length
    · obtain ⟨m, hm⟩ := Option.isSome_iff_exists.mp
        ((sealAt_isSome magic).mpr (show check + 2 ≤ (copy new old).length by simpa using hn))
      have hlen : m.length = new.length := by rw [(sealAt_length hm).1, copy_length]
      simp only [hm, Option.map_some, Option.bind_some, if_true, settle, hlen]
      by_cases hkn : k ≤ new.length <;> simp [hkn]
    · rw [sealAt_none magic (by rw [copy_length]; omega)]
      simp only [Option.map_none, Option.bind_none, Option.isSome_none, Bool.false_eq_true, false_iff]
      omega
  · simp [h, settle]

/-! ## ICMP -/

/-- The length of the new header of a quoted packet. -/
def quoteLen4 (x : List UInt8) : Nat := (getNewHeaderlen4to6 x).getD 0

theorem quoteLen4_bytes (h : Iphdr) (x : List UInt8) : quoteLen4 (h.bytes ++ x) = h.headerLen6 := by
  rw [quoteLen4, getNewHeaderlen4to6_eq]
  rfl

theorem le_of_getNewHeaderlen4to6 {old : List UInt8} {k : Nat}
    (h : getNewHeaderlen4to6 old = some k) : 40 ≤ k := by
  simp only [getNewHeaderlen4to6, Option.bind_eq_bind, Option.bind_eq_some_iff] at h
  obtain ⟨fragOff, -, h⟩ := h
  split at h
  · obtain rfl := Option.some.inj h
    decide
  split at h
  · obtain rfl := Option.some.inj h
    decide
  · obtain rfl := Option.some.inj h
    decide

theorem getD_protocol (h : Iphdr) (x : List UInt8) : (h.bytes ++ x).getD 9 0 = h.protocol := by
  rw [List.getD_eq_getElem?_getD, h.get_protocol, Option.getD_some]

/-- What a quoted packet of the protocol `proto` needs; `fits` is what one of
ICMP does. -/
def Room (icmp proto : UInt8) (fits : Prop) (n : Nat) (old : List UInt8) : Prop :=
  if proto = icmp then fits
  else if proto = IPPROTO_TCP then TCP_HEADER_LEN ≤ old.length → TCP_HEADER_LEN ≤ n
  else if proto = IPPROTO_UDP then UDP_HEADER_LEN ≤ old.length → UDP_HEADER_LEN ≤ n
  else True

/-- The ICMP packet `old` can be written to `n` bytes. -/
def Fits4 (n : Nat) (old : List UInt8) : Prop :=
  8 ≤ old.length → 8 ≤ n ∧ (IsError4 (old.getD 0 0) →
    (LooksAhead (old.getD 0 0) (old.getD 1 0) → 16 ≤ old.length) ∧ (28 ≤ old.length →
      let ready := 8 + quoteLen4 (old.drop 8)
      ready ≤ n ∧ Room IPPROTO_ICMPV6 (nexthdrOf ((old.drop 8).getD 9 0))
        (Fits4 (n - ready) (old.drop 28)) (n - ready) (old.drop 28)))
termination_by old.length
decreasing_by
  simp only [List.length_drop]
  omega

/-- A quoted ICMP packet is settled when it was translated. -/
theorem icmp_settle_isSome {r : Option (Bool × List UInt8 × List UInt8)}
    (hr : ∀ t, r = some t → t.1 = true → 8 ≤ t.2.1.length) :
    (r.bind fun t => settle (if t.1 then 8 else 0) t.2.1 t.2.2).isSome ↔ r.isSome := by
  cases hres : r with
  | none => rfl
  | some t =>
      have hroom : (if t.1 then 8 else 0) ≤ t.2.1.length := by
        split
        · exact hr t hres (by assumption)
        · exact Nat.zero_le _
      simp [settle, hroom]

section Header

variable {b0 b1 : UInt8} {c w : List UInt8}

theorem drop_icmphdr (hc : c.length = 2) (hw : w.length = 4) (x : List UInt8) (k : Nat) :
    ([b0] ++ ([b1] ++ (c ++ (w ++ x)))).drop (8 + k) = x.drop k := by
  have hcut : [b0] ++ ([b1] ++ (c ++ (w ++ x))) = ([b0] ++ ([b1] ++ (c ++ w))) ++ x := by simp
  have hlen : ([b0] ++ ([b1] ++ (c ++ w))).length = 8 := by simp [hc, hw]
  rw [hcut, ← List.drop_drop, List.drop_left' hlen]

theorem length_icmphdr (hc : c.length = 2) (hw : w.length = 4) (x : List UInt8) :
    ([b0] ++ ([b1] ++ (c ++ (w ++ x)))).length = 8 + x.length := by
  simp [hc, hw]
  omega

theorem fits4_icmphdr (hc : c.length = 2) (hw : w.length = 4) (x : List UInt8) (n : Nat) :
    Fits4 (8 + n) ([b0] ++ ([b1] ++ (c ++ (w ++ x)))) ↔
      (IsError4 b0 → (LooksAhead b0 b1 → 8 ≤ x.length) ∧ (20 ≤ x.length →
        quoteLen4 x ≤ n ∧ Room IPPROTO_ICMPV6 (nexthdrOf (x.getD 9 0))
          (Fits4 (n - quoteLen4 x) (x.drop 20)) (n - quoteLen4 x) (x.drop 20))) := by
  have hget0 : ([b0] ++ ([b1] ++ (c ++ (w ++ x)))).getD 0 0 = b0 := by simp
  have hget1 : ([b0] ++ ([b1] ++ (c ++ (w ++ x)))).getD 1 0 = b1 := by simp
  have hquote : ([b0] ++ ([b1] ++ (c ++ (w ++ x)))).drop 8 = x := drop_icmphdr hc hw x 0
  have hrest : ([b0] ++ ([b1] ++ (c ++ (w ++ x)))).drop 28 = x.drop 20 := drop_icmphdr hc hw x 20
  have h16 : 16 ≤ 8 + x.length ↔ 8 ≤ x.length := by omega
  have h28 : 28 ≤ 8 + x.length ↔ 20 ≤ x.length := by omega
  have hn : 8 + quoteLen4 x ≤ 8 + n ↔ quoteLen4 x ≤ n := by omega
  have hsub : 8 + n - (8 + quoteLen4 x) = n - quoteLen4 x := by omega
  rw [Fits4, hget0, hget1, hquote, hrest, length_icmphdr hc hw, h16, h28]
  simp only [hn, hsub, Nat.le_add_right, true_imp_iff, true_and]

end Header

section Icmp4

variable (e : ByteOrder) (srcPrefix dstPrefix : UInt32)

theorem icmp4to6Trans_settled {depth : Nat} {new old src6 dst6 : List UInt8}
    (t : Bool × List UInt8 × List UInt8)
    (ht : icmp4to6Trans e srcPrefix dstPrefix depth new old src6 dst6 = some t)
    (hok : t.1 = true) : 8 ≤ t.2.1.length := by
  obtain ⟨h1, h2, -, h4⟩ := icmp4to6Trans_length ht
  rw [h2]
  exact h4 (by simpa [hok] using h1.symm)

theorem nested4_isSome {depth : Nat} (h : Iphdr) {new old : List UInt8}
    (hicmp : ∀ src6 dst6, (icmp4to6Trans e srcPrefix dstPrefix depth new old src6 dst6).isSome ↔
      Fits4 new.length old) :
    (nested4 e srcPrefix dstPrefix depth h new old).isSome ↔
      Room IPPROTO_ICMPV6 (nexthdrOf h.protocol) (Fits4 new.length old) new.length old := by
  unfold nested4 Room
  split
  · rw [icmp_settle_isSome (icmp4to6Trans_settled e srcPrefix dstPrefix)]
    exact hicmp _ _
  split
  · exact transport_settle_isSome _ (by decide) new old
  split
  · exact transport_settle_isSome _ (by decide) new old
  · simp [settle]

/-- `icmp4to6_trans` stays in its buffers. -/
theorem icmp4to6Trans_isSome {depth : Nat} {new old : List UInt8} (src6 dst6 : List UInt8)
    (hd : old.length < depth) :
    (icmp4to6Trans e srcPrefix dstPrefix depth new old src6 dst6).isSome ↔ Fits4 new.length old := by
  -- each quoted packet is shorter
  induction depth generalizing new old src6 dst6 with
  | zero => omega
  | succ depth ih =>
      by_cases h8 : 8 ≤ old.length
      swap
      · rw [icmp4to6Trans_short e srcPrefix dstPrefix depth new src6 dst6 (by omega), Fits4]
        simp [h8]
      by_cases hn8 : 8 ≤ new.length
      swap
      · rw [icmp4to6Trans_cramped e srcPrefix dstPrefix _ src6 dst6 h8 (by omega), Fits4]
        simp [h8, hn8]
      obtain ⟨b0, b1, c, w, x, hc, hw, rfl⟩ := exists_icmphdr h8
      obtain ⟨n0, n1, m, g, new, hm, hg, rfl⟩ := exists_icmphdr hn8
      rw [length_icmphdr hm hg, fits4_icmphdr hc hw]
      rw [length_icmphdr hc hw] at hd
      by_cases herr : IsError4 b0
      swap
      · rw [icmp4to6Trans_copied e srcPrefix dstPrefix depth src6 dst6 hc hw hm hg
          (fun hc => absurd hc herr) (fun hc => absurd (.inl hc.1) herr)]
        simp [herr]
      by_cases hblind : LooksAhead b0 b1 ∧ x.length < 8
      · rw [icmp4to6Trans_blind e srcPrefix dstPrefix depth src6 dst6 hc hw hblind.1 hblind.2]
        refine iff_of_false (by simp) fun hfits => ?_
        have hx := (hfits herr).1 hblind.1
        omega
      have hlook : LooksAhead b0 b1 → 8 ≤ x.length := by
        intro hl
        by_contra hx
        exact hblind ⟨hl, by omega⟩
      by_cases hx : 20 ≤ x.length
      swap
      · rw [icmp4to6Trans_copied e srcPrefix dstPrefix depth src6 dst6 hc hw hm hg
          (fun _ => by omega) hlook]
        exact iff_of_true rfl fun _ => ⟨hlook, fun hc => absurd hc hx⟩
      -- the quoted header
      obtain ⟨h, y, rfl⟩ := Iphdr.exists_append hx
      rw [quoteLen4_bytes, getD_protocol, List.drop_left' h.bytes_length]
      rw [List.length_append, h.bytes_length] at hd
      by_cases hroom : h.headerLen6 ≤ new.length
      swap
      · rw [icmp4to6Trans_narrow e srcPrefix dstPrefix depth src6 dst6 hc hw hm hg herr h y (by omega)]
        refine iff_of_false (by simp) fun hfits => ?_
        exact hroom ((hfits herr).2 hx).1
      obtain ⟨was, new, hwas, -, rfl⟩ := exists_split h.headerLen6 (new.length - h.headerLen6)
        (show new.length = h.headerLen6 + (new.length - h.headerLen6) by omega)
      have hrest : (was ++ new).length - h.headerLen6 = new.length := by simp [hwas]
      have hnested := nested4_isSome e srcPrefix dstPrefix h (fun src6 dst6 =>
        @ih new y src6 dst6 (by omega))
      rw [icmp4to6Trans_quoted e srcPrefix dstPrefix depth src6 dst6 hc hw hm hg herr h y hwas, hrest]
      dsimp only
      rw [Option.isSome_map, hnested]
      constructor
      · intro hr _
        exact ⟨hlook, fun _ => ⟨hroom, hr⟩⟩
      · intro hfits
        exact ((hfits herr).2 hx).2

end Icmp4

/-! ## ICMPv6 -/

/-- The ICMPv6 packet `old` can be written to `n` bytes. -/
def Fits6 (n : Nat) (old : List UInt8) : Prop :=
  8 ≤ old.length → 8 ≤ n ∧ (IsError6 (old.getD 0 0) → 48 ≤ old.length →
    let quote := old.drop 8
    let rest := old.drop (8 + quoteLen6 quote)
    Headers6 quote ∧ 28 ≤ n ∧
      Room IPPROTO_ICMP (protocol6 quote) (Fits6 (n - 28) rest) (n - 28) rest)
termination_by old.length
decreasing_by
  simp only [List.length_drop]
  omega

theorem fits6_icmphdr {b0 b1 : UInt8} {c w : List UInt8} (hc : c.length = 2) (hw : w.length = 4)
    (x : List UInt8) (n : Nat) :
    Fits6 (8 + n) ([b0] ++ ([b1] ++ (c ++ (w ++ x)))) ↔
      (IsError6 b0 → 40 ≤ x.length →
        Headers6 x ∧ 20 ≤ n ∧ Room IPPROTO_ICMP (protocol6 x)
          (Fits6 (n - 20) (x.drop (quoteLen6 x))) (n - 20) (x.drop (quoteLen6 x))) := by
  have hget0 : ([b0] ++ ([b1] ++ (c ++ (w ++ x)))).getD 0 0 = b0 := by simp
  have hquote : ([b0] ++ ([b1] ++ (c ++ (w ++ x)))).drop 8 = x := drop_icmphdr hc hw x 0
  have h48 : 48 ≤ 8 + x.length ↔ 40 ≤ x.length := by omega
  have hn : 28 ≤ 8 + n ↔ 20 ≤ n := by omega
  have hsub : 8 + n - 28 = n - 20 := by omega
  rw [Fits6, hget0, hquote, length_icmphdr hc hw, h48]
  dsimp only
  rw [drop_icmphdr hc hw]
  simp only [hn, hsub, Nat.le_add_right, true_imp_iff, true_and]

section Icmp6

variable (e : ByteOrder)

theorem icmp6to4Trans_settled {depth : Nat} {new old : List UInt8}
    (t : Bool × List UInt8 × List UInt8) (ht : icmp6to4Trans e depth new old = some t)
    (hok : t.1 = true) : 8 ≤ t.2.1.length := by
  obtain ⟨h1, h2, -, h4⟩ := icmp6to4Trans_length ht
  rw [h2]
  exact h4 (by simpa [hok] using h1.symm)

theorem nested6_isSome {depth : Nat} (q : List UInt8) {new old : List UInt8}
    (hicmp : (icmp6to4Trans e depth new old).isSome ↔ Fits6 new.length old) :
    (nested6 e depth q new old).isSome ↔
      Room IPPROTO_ICMP (protocol6 q) (Fits6 new.length old) new.length old := by
  unfold nested6 Room
  dsimp only
  split
  · rw [icmp_settle_isSome (icmp6to4Trans_settled e)]
    exact hicmp
  split
  · exact transport_settle_isSome _ (by decide) new old
  split
  · exact transport_settle_isSome _ (by decide) new old
  · simp [settle]

/-- `icmp6to4_trans` stays in its buffers. -/
theorem icmp6to4Trans_isSome {depth : Nat} {new old : List UInt8} (hd : old.length < depth) :
    (icmp6to4Trans e depth new old).isSome ↔ Fits6 new.length old := by
  induction depth generalizing new old with
  | zero => omega
  | succ depth ih =>
      by_cases h8 : 8 ≤ old.length
      swap
      · rw [icmp6to4Trans_short e depth new (by omega), Fits6]
        simp [h8]
      by_cases hn8 : 8 ≤ new.length
      swap
      · rw [icmp6to4Trans_cramped e _ h8 (by omega), Fits6]
        simp [h8, hn8]
      obtain ⟨b0, b1, c, w, x, hc, hw, rfl⟩ := exists_icmphdr h8
      obtain ⟨n0, n1, m, g, new, hm, hg, rfl⟩ := exists_icmphdr hn8
      rw [length_icmphdr hm hg, fits6_icmphdr hc hw]
      rw [length_icmphdr hc hw] at hd
      by_cases herr : IsError6 b0
      swap
      · rw [icmp6to4Trans_copied e depth hc hw hm hg (fun hc => absurd hc herr)]
        simp [herr]
      by_cases hx : 40 ≤ x.length
      swap
      · rw [icmp6to4Trans_copied e depth hc hw hm hg (fun _ => by omega)]
        simp [hx]
      -- the quoted headers
      by_cases hroom : Headers6 x ∧ 20 ≤ new.length
      swap
      · rw [icmp6to4Trans_narrow e depth hc hw hm hg herr hx hroom]
        refine iff_of_false (by simp) fun hfits => ?_
        obtain ⟨hheaders, hn, -⟩ := hfits herr hx
        exact hroom ⟨hheaders, hn⟩
      obtain ⟨hheaders, hn⟩ := hroom
      obtain ⟨was, new, hwas, -, rfl⟩ := exists_split 20 (new.length - 20)
        (show new.length = 20 + (new.length - 20) by omega)
      have hle := hheaders.quoteLen_le
      obtain ⟨q, y, hq, hy, hxy⟩ := exists_split (quoteLen6 x) (x.length - quoteLen6 x)
        (show x.length = quoteLen6 x + (x.length - quoteLen6 x) by omega)
      have hrest : (was ++ new).length - 20 = new.length := by simp [hwas]
      have hdrop : x.drop (quoteLen6 x) = y := by
        conv_lhs => rw [hxy]
        rw [List.drop_left' (hq.trans (by rw [← hxy]))]
      have h40 : 40 ≤ quoteLen6 x := by
        unfold quoteLen6
        split <;> omega
      have hnested := nested6_isSome e x (@ih new y (by omega))
      rw [hrest, hdrop]
      rw [hxy] at hheaders hq hnested ⊢
      rw [icmp6to4Trans_quoted e depth hc hw hm hg herr y hheaders hq hwas]
      dsimp only
      rw [Option.isSome_map, hnested]
      constructor
      · intro hr _ _
        exact ⟨hheaders, hn, hr⟩
      · intro hfits
        exact (hfits herr (hxy ▸ hx)).2.2

end Icmp6

/-! ## Packets -/

/-- A whole packet or a first fragment of ICMP is as long as the type asks for,
and fits into the length that `get_new_pktlen4to6` gives it. ICMPv6 in an IPv4
packet is taken for ICMP, but keeps its length. -/
def InBounds4 (pkt : List UInt8) : Prop :=
  20 ≤ pkt.length ∧
    let data := pkt.drop 20
    let protocol := pkt.getD 9 0
    ((load16? .big pkt 6).getD 0 &&& 0x1FFF = 0 →
      (protocol = IPPROTO_ICMP →
        1 ≤ data.length ∧ (¬(data.getD 0 0 = ICMP_ECHO ∨ data.getD 0 0 = ICMP_ECHOREPLY) →
          16 ≤ data.length ∧ Fits4 (data.length + quoteLen4 (data.drop 8) - 20) data)) ∧
      (protocol = IPPROTO_ICMPV6 → Fits4 data.length data))

/-- The same of ICMPv6 and `get_new_pktlen6to4`. -/
def InBounds6 (pkt : List UInt8) : Prop :=
  Headers6 pkt ∧
    let data := data6 pkt
    let less := quoteLen6 (data.drop 8) - 20
    (later6 pkt = false →
      (nexthdr6 pkt = IPPROTO_ICMPV6 →
        1 ≤ data.length ∧
          (¬(data.getD 0 0 = ICMPV6_ECHO_REQUEST ∨ data.getD 0 0 = ICMPV6_ECHO_REPLY) →
            less ≤ data.length ∧ Fits6 (data.length - less) data)) ∧
      (nexthdr6 pkt = IPPROTO_ICMP → Fits6 data.length data))

theorem get_head {data : List UInt8} (h : 1 ≤ data.length) : data[0]? = some (data.getD 0 0) := by
  rw [List.getD_eq_getElem?_getD, List.getElem?_eq_getElem (by omega), Option.getD_some]

/-- A type without a quote fits. -/
theorem fits4_of_not_error {old : List UInt8} (h : ¬IsError4 (old.getD 0 0)) :
    Fits4 old.length old := by
  rw [Fits4]
  intro h8
  exact ⟨h8, fun hc => absurd hc h⟩

theorem fits6_of_not_error {old : List UInt8} (h : ¬IsError6 (old.getD 0 0)) :
    Fits6 old.length old := by
  rw [Fits6]
  intro h8
  exact ⟨h8, fun hc => absurd hc h⟩

theorem not_error4_of_echo {type : UInt8} (h : type = ICMP_ECHO ∨ type = ICMP_ECHOREPLY) :
    ¬IsError4 type := by
  rcases h with rfl | rfl <;> decide

theorem not_error6_of_echo {type : UInt8}
    (h : type = ICMPV6_ECHO_REQUEST ∨ type = ICMPV6_ECHO_REPLY) : ¬IsError6 type := by
  rcases h with rfl | rfl <;> decide

/-- A length for an ICMP packet that is enough. -/
theorem grown4_fits_iff (data : List UInt8) :
    (∃ n, grown4 data = some n ∧ Fits4 n data) ↔
      1 ≤ data.length ∧ (¬(data.getD 0 0 = ICMP_ECHO ∨ data.getD 0 0 = ICMP_ECHOREPLY) →
        16 ≤ data.length ∧ Fits4 (data.length + quoteLen4 (data.drop 8) - 20) data) := by
  by_cases h1 : 1 ≤ data.length
  swap
  · have hnil : data = [] := List.length_eq_zero_iff.mp (by omega)
    simp [hnil, grown4]
  rw [grown4, get_head h1]
  simp only [Option.bind_eq_bind, Option.bind_some, Option.pure_def, h1, true_and]
  by_cases hecho : data.getD 0 0 = ICMP_ECHO ∨ data.getD 0 0 = ICMP_ECHOREPLY
  · have hfits := fits4_of_not_error (not_error4_of_echo hecho)
    rw [if_pos hecho]
    simp only [hecho, not_true_eq_false, false_imp_iff, iff_true]
    exact ⟨_, rfl, hfits⟩
  rw [if_neg hecho]
  simp only [hecho, not_false_eq_true, true_imp_iff]
  by_cases h16 : 16 ≤ data.length
  swap
  · have hnone : getNewHeaderlen4to6 (data.drop ICMP_HEADER_LEN) = none := by
      rw [getNewHeaderlen4to6, load16?, peek?, if_neg (by simp [ICMP_HEADER_LEN]; omega)]
      rfl
    simp [hnone, h16]
  obtain ⟨k, hk⟩ : ∃ k, getNewHeaderlen4to6 (data.drop ICMP_HEADER_LEN) = some k := by
    rw [getNewHeaderlen4to6, load16?, peek?, if_pos (by simp [ICMP_HEADER_LEN]; omega)]
    simp only [Option.map_some, Option.bind_eq_bind, Option.bind_some]
    split
    · exact ⟨_, rfl⟩
    split
    · exact ⟨_, rfl⟩
    · exact ⟨_, rfl⟩
  have hlen : quoteLen4 (data.drop 8) = k := by
    rw [quoteLen4]
    exact congrArg (Option.getD · 0) hk
  rw [hk, hlen]
  simp [h16, IP_HEADER_LEN]

/-- The same of an ICMPv6 packet. -/
theorem shrunk6_fits_iff (data : List UInt8) :
    (∃ n, shrunk6 data = some n ∧ Fits6 n data) ↔
      1 ≤ data.length ∧
        (¬(data.getD 0 0 = ICMPV6_ECHO_REQUEST ∨ data.getD 0 0 = ICMPV6_ECHO_REPLY) →
          quoteLen6 (data.drop 8) - 20 ≤ data.length ∧
            Fits6 (data.length - (quoteLen6 (data.drop 8) - 20)) data) := by
  by_cases h1 : 1 ≤ data.length
  swap
  · have hnil : data = [] := List.length_eq_zero_iff.mp (by omega)
    simp [hnil, shrunk6]
  rw [shrunk6, get_head h1]
  simp only [Option.bind_eq_bind, Option.bind_some, Option.pure_def, h1, true_and]
  by_cases hecho : data.getD 0 0 = ICMPV6_ECHO_REQUEST ∨ data.getD 0 0 = ICMPV6_ECHO_REPLY
  · have hfits := fits6_of_not_error (not_error6_of_echo hecho)
    rw [if_pos hecho]
    simp only [hecho, not_true_eq_false, false_imp_iff, iff_true]
    exact ⟨_, rfl, hfits⟩
  rw [if_neg hecho]
  simp only [hecho, not_false_eq_true, true_imp_iff, ICMP_HEADER_LEN, Nat.reduceAdd]
  have hquoted : (data.drop 8).getD 6 0 = data.getD 14 0 := by
    simp [List.getD_eq_getElem?_getD]
  rw [quoteLen6, hquoted]
  cases hget : data[14]? with
  | none =>
      have hlen : data.length ≤ 14 := List.getElem?_eq_none_iff.mp hget
      have hzero : data.getD 14 0 = 0 := by rw [List.getD_eq_getElem?_getD, hget, Option.getD_none]
      have h40 : (if (0 : UInt8) = NEXTHDR_FRAGMENT then 48 else 40) = 40 := rfl
      rw [hzero, h40]
      simp
      omega
  | some b =>
      have hb : data.getD 14 0 = b := by rw [List.getD_eq_getElem?_getD, hget, Option.getD_some]
      rw [hb]
      simp only [Option.bind_some]
      have hsub (k : Nat) : (∃ n, sub? data.length k = some n ∧ Fits6 n data) ↔
          k ≤ data.length ∧ Fits6 (data.length - k) data := by
        by_cases hk : k ≤ data.length
        · simp [sub?_eq hk, hk]
        · simp [sub?_none (Nat.lt_of_not_le hk), hk]
      by_cases hf : b = NEXTHDR_FRAGMENT
      · simpa only [if_pos hf] using hsub 28
      · simpa only [if_neg hf] using hsub 20

section Packets

variable (e : ByteOrder) (srcPrefix dstPrefix : UInt32) (saddr daddr : List UInt8)

theorem dataTrans4to6_isSome_icmp (new old : List UInt8) :
    (dataTrans4to6 e new old saddr daddr srcPrefix dstPrefix IPPROTO_ICMPV6).isSome ↔
      Fits4 new.length old := by
  rw [dataTrans4to6, if_pos rfl, Option.isSome_map]
  exact icmp4to6Trans_isSome e srcPrefix dstPrefix saddr daddr (Nat.lt_succ_self _)

theorem dataTrans4to6_isSome_other {nexthdr : UInt8} (hn : nexthdr ≠ IPPROTO_ICMPV6)
    {new old : List UInt8} (hlen : new.length = old.length) :
    (dataTrans4to6 e new old saddr daddr srcPrefix dstPrefix nexthdr).isSome := by
  rw [dataTrans4to6, if_neg hn]
  split
  · rw [Option.isSome_map]
    refine (transportTrans_isSome _).mpr fun h => ?_
    simp only [TCP_HEADER_LEN] at h
    omega
  split
  · rw [Option.isSome_map]
    refine (transportTrans_isSome _).mpr fun h => ?_
    simp only [UDP_HEADER_LEN] at h
    omega
  · rw [poke?_copy]
    rfl

theorem dataTrans6to4_isSome_icmp (new old : List UInt8) :
    (dataTrans6to4 e new old saddr daddr IPPROTO_ICMP).isSome ↔ Fits6 new.length old := by
  rw [dataTrans6to4, if_pos rfl, Option.isSome_map]
  exact icmp6to4Trans_isSome e (Nat.lt_succ_self _)

theorem dataTrans6to4_isSome_other {protocol : UInt8} (hn : protocol ≠ IPPROTO_ICMP)
    {new old : List UInt8} (hlen : new.length = old.length) :
    (dataTrans6to4 e new old saddr daddr protocol).isSome := by
  rw [dataTrans6to4, if_neg hn]
  split
  · rw [Option.isSome_map]
    refine (transportTrans_isSome _).mpr fun h => ?_
    simp only [TCP_HEADER_LEN] at h
    omega
  split
  · rw [Option.isSome_map]
    refine (transportTrans_isSome _).mpr fun h => ?_
    simp only [UDP_HEADER_LEN] at h
    omega
  · rw [poke?_copy]
    rfl

end Packets

/-- `ip_mapping` of a packet with a header. -/
theorem ipMapping_isSome (e : ByteOrder) (fresh : Nat → UInt8) (h : Iphdr) (data : List UInt8)
    (srcPrefix dstPrefix : UInt32) :
    (ipMapping e fresh (h.bytes ++ data) srcPrefix dstPrefix).isSome ↔
      (h.offset = 0 →
        (h.protocol = IPPROTO_ICMP → ∃ n, grown4 data = some n ∧ Fits4 n data) ∧
        (h.protocol = IPPROTO_ICMPV6 → Fits4 data.length data)) := by
  rw [ipMapping_eq, getNewPktlen4to6_eq]
  by_cases hoff : h.offset = 0
  swap
  · simp [hoff, payload4]
  have htrans (new : List UInt8) : payload4 e srcPrefix dstPrefix h new data =
      dataTrans4to6 e new data (mapped e h.saddr srcPrefix).1 (mapped e h.daddr dstPrefix).1
        srcPrefix dstPrefix (nexthdrOf h.protocol) := if_neg (not_not.mpr hoff)
  simp only [hoff, and_true, true_imp_iff, htrans]
  by_cases hicmp : h.protocol = IPPROTO_ICMP
  · have hne : IPPROTO_ICMP ≠ IPPROTO_ICMPV6 := by decide
    have hnext : nexthdrOf IPPROTO_ICMP = IPPROTO_ICMPV6 := rfl
    simp only [hicmp, if_true, true_imp_iff, hne, false_imp_iff, and_true, hnext]
    cases hn : grown4 data with
    | none => simp
    | some n =>
        rw [Option.bind_some, Option.isSome_map, dataTrans4to6_isSome_icmp, allocSkb_length]
        simp
  · have hnext : nexthdrOf h.protocol = h.protocol := if_neg hicmp
    simp only [hicmp, if_false, Option.bind_some, Option.isSome_map, false_imp_iff, true_and, hnext]
    by_cases h58 : h.protocol = IPPROTO_ICMPV6
    · simp only [h58, true_imp_iff]
      rw [dataTrans4to6_isSome_icmp, allocSkb_length]
    · simp only [h58, false_imp_iff, iff_true]
      exact dataTrans4to6_isSome_other e srcPrefix dstPrefix _ _ h58 (allocSkb_length _ _)

/-- `ip6_mapping` of a packet with its headers. -/
theorem ip6Mapping_isSome (e : ByteOrder) (fresh : Nat → UInt8) {pkt : List UInt8}
    (h : Headers6 pkt) :
    (ip6Mapping e fresh pkt).isSome ↔
      (later6 pkt = false →
        (nexthdr6 pkt = IPPROTO_ICMPV6 →
          ∃ n, shrunk6 (data6 pkt) = some n ∧ Fits6 n (data6 pkt)) ∧
        (nexthdr6 pkt = IPPROTO_ICMP → Fits6 (data6 pkt).length (data6 pkt))) := by
  obtain ⟨hdr, -, hmap⟩ := ip6Mapping_eq e h
  rw [hmap, getNewPktlen6to4_eq h]
  cases hlater : later6 pkt with
  | true => simp [payload6, hlater]
  | false =>
      have htrans (n : Nat) (new : List UInt8) :
          payload6 e pkt (be32 (hdr n).saddr) (be32 (hdr n).daddr) new =
            dataTrans6to4 e new (data6 pkt) (be32 (hdr n).saddr) (be32 (hdr n).daddr)
              (protocolOf (nexthdr6 pkt)) := by
        rw [payload6, hlater, if_neg (by decide)]
        rfl
      simp only [and_true, true_imp_iff, htrans]
      by_cases h58 : nexthdr6 pkt = IPPROTO_ICMPV6
      · have hne : IPPROTO_ICMPV6 ≠ IPPROTO_ICMP := by decide
        have hproto : protocolOf IPPROTO_ICMPV6 = IPPROTO_ICMP := rfl
        simp only [h58, if_true, true_imp_iff, hne, false_imp_iff, and_true, hproto]
        cases hn : shrunk6 (data6 pkt) with
        | none => simp
        | some n =>
            rw [Option.bind_some, Option.isSome_map, dataTrans6to4_isSome_icmp, allocSkb_length]
            simp
      · have hproto : protocolOf (nexthdr6 pkt) = nexthdr6 pkt := if_neg h58
        simp only [h58, if_false, Option.bind_some, Option.isSome_map, false_imp_iff, true_and, hproto]
        by_cases hicmp : nexthdr6 pkt = IPPROTO_ICMP
        · simp only [hicmp, true_imp_iff]
          rw [dataTrans6to4_isSome_icmp, allocSkb_length]
        · simp only [hicmp, false_imp_iff, iff_true]
          exact dataTrans6to4_isSome_other e _ _ hicmp (allocSkb_length _ _)

theorem ipMapping_isSome_iff (e : ByteOrder) (fresh : Nat → UInt8) (pkt : List UInt8)
    (srcPrefix dstPrefix : UInt32) :
    (ipMapping e fresh pkt srcPrefix dstPrefix).isSome ↔ InBounds4 pkt := by
  by_cases h20 : 20 ≤ pkt.length
  · obtain ⟨h, data, rfl⟩ := Iphdr.exists_append h20
    rw [ipMapping_isSome, InBounds4, h.load_fragOff, getD_protocol, List.drop_left' h.bytes_length]
    simp only [h20, true_and, Option.getD_some, h.offset_eq_zero_iff, grown4_fits_iff]
  · rw [ipMapping_short e fresh (by omega)]
    exact iff_of_false (by simp) fun hin => h20 hin.1

theorem ip6Mapping_isSome_iff (e : ByteOrder) (fresh : Nat → UInt8) (pkt : List UInt8) :
    (ip6Mapping e fresh pkt).isSome ↔ InBounds6 pkt := by
  by_cases h6 : Headers6 pkt
  · rw [ip6Mapping_isSome e fresh h6, InBounds6]
    simp only [h6, true_and, shrunk6_fits_iff]
  · rw [ip6Mapping_short e fresh h6]
    exact iff_of_false (by simp) fun hin => h6 hin.1

/-- The two functions stay in their buffers exactly for the packets that are
long enough for what they say they hold, at every level. -/
theorem mapping_inBounds_iff (e : ByteOrder) (fresh : Nat → UInt8) (pkt : List UInt8)
    (srcPrefix dstPrefix : UInt32) :
    ((ipMapping e fresh pkt srcPrefix dstPrefix).isSome ↔ InBounds4 pkt) ∧
      ((ip6Mapping e fresh pkt).isSome ↔ InBounds6 pkt) :=
  ⟨ipMapping_isSome_iff e fresh pkt srcPrefix dstPrefix, ip6Mapping_isSome_iff e fresh pkt⟩

/-- "Destination unreachable" about a "time exceeded" that quotes a header. -/
def nestedError : List UInt8 :=
  [0x45, 0, 0, 76, 0, 1, 0x40, 0, 64, 1, 0, 0, 10, 0, 0, 1, 10, 0, 0, 2] ++
  [3, 1, 0, 0, 0, 0, 0, 0] ++
  [0x45, 0, 0, 48, 0, 1, 0x40, 0, 64, 1, 0, 0, 10, 0, 0, 2, 10, 0, 0, 3] ++
  [11, 0, 0, 0, 0, 0, 0, 0] ++
  [0x45, 0, 0, 20, 0, 1, 0x40, 0, 64, 6, 0, 0, 10, 0, 0, 3, 10, 0, 0, 4]

/-- The inner quote is written 20 bytes past the end; and an ICMPv6 error of
16 bytes is to lose 20. -/
theorem mapping_leaves_bounds :
    ipMapping .big (fun _ => 0) nestedError 0x20010DB8 0x20010DB8 = none ∧
      ip6Mapping .big (fun _ => 0)
        ([0x60, 0, 0, 0, 0, 16, 58, 64] ++ List.replicate 32 0 ++ ([1] ++ List.replicate 15 0)) =
          none := by
  decide +kernel

end UbntSdk.Ivi
