/-
UbntSdk.Ivi.Leak6to4Theorems — which IPv6 packets are translated without a
byte of what the buffer held before.

Headers get smaller on this way, so behind the second quote the buffer is
longer than what is left of the packet, and its end stays as it was
(`nested6_keeps`). The level around writes over the quoted packet, but not over
its header, and the checksum in it was taken of the longer buffer. Only where
the innermost packet has a checksum of its own does the rest of the buffer
cancel out (`Closed6`).
-/
import UbntSdk.Ivi.LeakTheorems

namespace UbntSdk.Ivi

open UbntSdk.Lib

/-! ## The end of the buffer -/

theorem copy_drop (dst src : List UInt8) : (copy dst src).drop src.length = dst.drop src.length := by
  rcases Nat.le_total src.length dst.length with h | h
  · rw [copy_of_ge h, List.drop_left' rfl]
  · rw [List.drop_eq_nil_of_le h, List.drop_eq_nil_of_le (by rw [copy_length]; exact h)]

theorem overlay_drop {k : Nat} {m old : List UInt8} (hk : k ≤ old.length) (hm : k ≤ m.length) :
    (overlay k m old).drop old.length = m.drop old.length := by
  have hlen : (m.take k).length = k := List.length_take_of_le hm
  have hcopy := copy_drop (m.drop k) (old.drop k)
  rw [List.length_drop, List.drop_drop, Nat.add_sub_cancel' hk] at hcopy
  rw [overlay, List.drop_append, hlen, hcopy, List.drop_eq_nil_of_le (by omega), List.nil_append]

theorem settle_eq {k : Nat} {m old u o : List UInt8} (h : settle k m old = some (u, o)) :
    k ≤ m.length ∧ u = overlay k m old ∧ o = old := by
  unfold settle at h
  split at h
  · obtain ⟨rfl, rfl⟩ := Prod.mk.inj (Option.some.inj h)
    exact ⟨by assumption, rfl, rfl⟩
  · cases h

/-- A checksum before the end is all that sealing changes. -/
theorem sealAt_drop {magic : Nat → Nat → UInt16} {check k : Nat} {m m' : List UInt8}
    (hk : check + 2 ≤ k) (h : sealAt magic check m = some m') : m'.drop k = m.drop k := by
  have hlen := (sealAt_length h).2
  obtain ⟨a, l, ha, hl, rfl⟩ := exists_split check (m.length - check)
    (show m.length = check + (m.length - check) by omega)
  rw [List.length_append, ha] at hlen
  obtain ⟨c, b, hc, -, rfl⟩ := exists_split 2 (l.length - 2)
    (show l.length = 2 + (l.length - 2) by omega)
  rw [sealAt_eq magic ha hc] at h
  obtain rfl := Option.some.inj h
  have hcut (x : List UInt8) (hx : x.length = 2) : (a ++ (x ++ b)).drop k = b.drop (k - (check + 2)) := by
    rw [← List.append_assoc, List.drop_append, List.drop_eq_nil_of_le (by simp [ha, hx]; omega),
      List.nil_append]
    simp [ha, hx]
  rw [sealed, hcut _ (by simp), hcut c hc]

/-- A quoted transport header leaves the end of the buffer. -/
theorem transport_settle_tail {k check : Nat} {magic : Nat → Nat → UInt16} (hk : check + 2 ≤ k)
    {new old u o : List UInt8}
    (h : ((transportTrans k check magic new old).bind fun r =>
      settle (if r.1 then k else 0) r.2 old) = some (u, o)) :
    o = old ∧ u.length = new.length ∧ u.drop old.length = new.drop old.length := by
  obtain ⟨⟨ok, m⟩, hm, hs⟩ := Option.bind_eq_some_iff.mp h
  obtain ⟨hroom, rfl, rfl⟩ := settle_eq hs
  refine ⟨rfl, (overlay_length _ _).trans (transportTrans_length hm), ?_⟩
  rw [transportTrans_eq] at hm
  split at hm
  · obtain ⟨m', hm', heq⟩ := Option.map_eq_some_iff.mp hm
    obtain ⟨rfl, rfl⟩ := Prod.mk.inj heq
    simp only [if_true] at hroom ⊢
    rw [overlay_drop (by assumption) hroom, sealAt_drop (by omega) hm', copy_drop]
  · obtain ⟨rfl, rfl⟩ := Prod.mk.inj (Option.some.inj hm)
    simp only [Bool.false_eq_true, if_false, overlay_zero, copy_drop]

/-- A longer part of two buffers that end alike. -/
theorem drop_of_drop {u v : List UInt8} {k l : Nat} (h : u.drop k = v.drop k) (hkl : k ≤ l) :
    u.drop l = v.drop l := by
  rw [← Nat.add_sub_cancel' hkl, ← List.drop_drop, h, List.drop_drop]

section Level

variable (e : ByteOrder) {b0 b1 : UInt8} {c w : List UInt8}

/-- A level with a quote: the header, what is quoted, and what follows. -/
theorem exists_quote6 {x : List UInt8} (h : Headers6 x) :
    ∃ q y, q.length = quoteLen6 x ∧ x = q ++ y := by
  have hle := h.quoteLen_le
  obtain ⟨q, y, hq, -, hx⟩ := exists_split (quoteLen6 x) (x.length - quoteLen6 x)
    (show x.length = quoteLen6 x + (x.length - quoteLen6 x) by omega)
  exact ⟨q, y, hq, hx⟩

theorem quoteLen6_ge (x : List UInt8) : 40 ≤ quoteLen6 x := by
  unfold quoteLen6
  split <;> omega

end Level

section Tail

variable (e : ByteOrder)

/-- The old packet comes back the same, and the end of the buffer stays. -/
theorem nested6_keeps {depth : Nat} (q : List UInt8) {old : List UInt8}
    (hicmp : ∃ old', ∀ new r, icmp6to4Trans e depth new old = some r →
      r.2.2 = old' ∧ r.2.1.drop old.length = new.drop old.length) :
    ∃ old', ∀ new u o, nested6 e depth q new old = some (u, o) →
      o = old' ∧ o.length = old.length ∧ u.length = new.length ∧
        u.drop old.length = new.drop old.length := by
  unfold nested6
  dsimp only
  split
  · obtain ⟨old', hold'⟩ := hicmp
    refine ⟨old', fun new u o h => ?_⟩
    obtain ⟨t, ht, hs⟩ := Option.bind_eq_some_iff.mp h
    obtain ⟨hroom, rfl, rfl⟩ := settle_eq hs
    obtain ⟨hok, hnew, hold, -⟩ := icmp6to4Trans_length ht
    have hk : (if t.1 then 8 else 0) ≤ t.2.2.length := by
      rw [hok, hold]
      split
      · rename_i h8
        simpa using h8
      · exact Nat.zero_le _
    have htail := overlay_drop hk hroom
    rw [hold] at htail
    exact ⟨(hold' new t ht).1, hold, by rw [overlay_length, hnew], htail.trans (hold' new t ht).2⟩
  split
  · refine ⟨old, fun new u o h => ?_⟩
    obtain ⟨rfl, htail⟩ := transport_settle_tail (by decide) h
    exact ⟨rfl, rfl, htail⟩
  split
  · refine ⟨old, fun new u o h => ?_⟩
    obtain ⟨rfl, htail⟩ := transport_settle_tail (by decide) h
    exact ⟨rfl, rfl, htail⟩
  · refine ⟨old, fun new u o h => ?_⟩
    obtain ⟨-, rfl, rfl⟩ := settle_eq h
    rw [overlay_zero]
    exact ⟨rfl, rfl, copy_length _ _, copy_drop _ _⟩

theorem icmp6to4Trans_keeps (depth : Nat) (old : List UInt8) :
    ∃ old', ∀ new r, icmp6to4Trans e depth new old = some r →
      r.2.2 = old' ∧ r.2.1.drop old.length = new.drop old.length := by
  induction depth generalizing old with
  | zero => exact ⟨[], fun new r h => by cases h⟩
  | succ depth ih =>
      by_cases h8 : 8 ≤ old.length
      swap
      · refine ⟨old, fun new r h => ?_⟩
        rw [icmp6to4Trans_short e depth new (by omega)] at h
        obtain rfl := Option.some.inj h
        exact ⟨rfl, rfl⟩
      obtain ⟨b0, b1, c, w, x, hc, hw, rfl⟩ := exists_icmphdr h8
      have hw' := head6_length b0 b1 hw x
      by_cases hquote : IsError6 b0 → x.length < 40
      · refine ⟨[b0] ++ ([(head6 b0 b1 w x).2.1] ++ (c ++ ((head6 b0 b1 w x).2.2 ++ x))),
          fun new r h => ?_⟩
        obtain ⟨n0, n1, m, g, new, hm, hg, rfl⟩ := exists_icmphdr ((icmp6to4Trans_length h).2.2.2 h8)
        rw [icmp6to4Trans_copied e depth hc hw hm hg hquote] at h
        obtain rfl := Option.some.inj h
        refine ⟨rfl, ?_⟩
        rw [length_icmphdr hc hw, drop_icmphdr hm hg]
        exact (drop_icmphdr (word16_length _ _) hw' _ _).trans (copy_drop new x)
      -- an error with a quote
      have herr : IsError6 b0 := by
        by_contra hno
        exact hquote fun he => absurd he hno
      have hx : 40 ≤ x.length := by
        by_contra hlt
        exact hquote fun _ => by omega
      by_cases hheaders : Headers6 x
      swap
      · refine ⟨[], fun new r h => ?_⟩
        obtain ⟨n0, n1, m, g, new, hm, hg, rfl⟩ := exists_icmphdr ((icmp6to4Trans_length h).2.2.2 h8)
        rw [icmp6to4Trans_narrow e depth hc hw hm hg herr hx fun hc => hheaders hc.1] at h
        cases h
      obtain ⟨q, y, hq, rfl⟩ := exists_quote6 hheaders
      have h40 := quoteLen6_ge (q ++ y)
      obtain ⟨y', hy'⟩ := nested6_keeps e (q ++ y) (ih y)
      refine ⟨[b0] ++ ([(head6 b0 b1 w (q ++ y)).2.1] ++ (c ++ ((head6 b0 b1 w (q ++ y)).2.2 ++
        (q ++ y')))), fun new r h => ?_⟩
      obtain ⟨n0, n1, m, g, new, hm, hg, rfl⟩ := exists_icmphdr ((icmp6to4Trans_length h).2.2.2 h8)
      by_cases hroom : 20 ≤ new.length
      swap
      · rw [icmp6to4Trans_narrow e depth hc hw hm hg herr hx fun hc => hroom hc.2] at h
        cases h
      obtain ⟨was, new, hwas, -, rfl⟩ := exists_split 20 (new.length - 20)
        (show new.length = 20 + (new.length - 20) by omega)
      rw [icmp6to4Trans_quoted e depth hc hw hm hg herr y hheaders hq hwas] at h
      obtain ⟨⟨u, o⟩, hu, rfl⟩ := Option.map_eq_some_iff.mp h
      obtain ⟨rfl, -, -, htail⟩ := hy' new u o hu
      refine ⟨rfl, ?_⟩
      have hlen := (iphdr6to4Trans_quote e hheaders).1
      have hcut (a z : List UInt8) (ha : a.length = 20) :
          (a ++ z).drop (q ++ y).length = z.drop (q.length - 20 + y.length) := by
        rw [List.drop_append, List.drop_eq_nil_of_le (by simp; omega), List.nil_append]
        congr 1
        simp
        omega
      rw [length_icmphdr hc hw, drop_icmphdr hm hg, hcut was new hwas]
      refine (drop_icmphdr (word16_length _ _) hw' _ _).trans ?_
      rw [hcut _ u hlen]
      exact drop_of_drop htail (by omega)

end Tail

/-! ## Packets with a checksum of their own -/

/-- What is quoted ends in a checksum that is taken to the end of the
buffer. -/
def Closed6 (protocol : UInt8) (y : List UInt8) : Prop :=
  (protocol = IPPROTO_TCP ∧ TCP_HEADER_LEN ≤ y.length) ∨
  (protocol = IPPROTO_UDP ∧ UDP_HEADER_LEN ≤ y.length) ∨
  (protocol = IPPROTO_ICMP ∧ ICMP_HEADER_LEN ≤ y.length ∧
    (IsError6 (y.getD 0 0) → y.length < IP6_ICMP_LEN))

theorem copy_copy (dst src : List UInt8) : copy (copy dst src) src = copy dst src := by
  rw [copy, copy_length, copy_drop, copy]

theorem take_drop_copy {k : Nat} {dst src : List UInt8} (hd : k ≤ dst.length) (hs : k ≤ src.length) :
    (copy dst src).drop k = copy (dst.drop k) (src.drop k) := by
  obtain ⟨a, d, ha, -, rfl⟩ := exists_split k (dst.length - k)
    (show dst.length = k + (dst.length - k) by omega)
  obtain ⟨b, s, hb, -, rfl⟩ := exists_split k (src.length - k)
    (show src.length = k + (src.length - k) by omega)
  rw [copy_append (ha.trans hb.symm), List.drop_left' hb, List.drop_left' ha, List.drop_left' hb]

/-- With its checksum a packet adds up to the same. -/
theorem sum16_sealed {magic : Nat → Nat → UInt16} {a b : List UInt8} {k : Nat}
    (hmagic : ∀ sum, magic (a.length + (2 + b.length)) sum = checksum (k + sum))
    (ha : a.length % 2 = 0) : (k + sum16 (sealed magic a b)) % 65535 = 0 := by
  have hfield (x : List UInt8) (hx : x.length % 2 = 0) :
      sum16 (a ++ (x ++ b)) = sum16 a + (sum16 x + sum16 b) := by
    rw [sum16_append ha, sum16_append hx]
  have hzero : sum16 [0, 0] = 0 := rfl
  have hadd := add_checksum (k + sum16 (a ++ ([0, 0] ++ b)))
  rw [sealed, hmagic, hfield _ (by simp), sum16_word16]
  rw [hfield _ (by simp), hzero] at hadd ⊢
  omega

theorem transport_settle_sum {k check n : Nat} {magic : Nat → Nat → UInt16}
    (hmagic : ∀ len, ∃ k, ∀ sum, magic len sum = checksum (k + sum)) (hcheck : check % 2 = 0)
    (hk : check + 2 ≤ k) {old : List UInt8} (hlong : k ≤ old.length) :
    ∃ s, ∀ new u o : List UInt8, new.length = n →
      ((transportTrans k check magic new old).bind fun r =>
        settle (if r.1 then k else 0) r.2 old) = some (u, o) → (s + sum16 u) % 65535 = 0 := by
  obtain ⟨s, hs⟩ := hmagic n
  refine ⟨s, fun new u o hnew h => ?_⟩
  obtain ⟨⟨ok, m⟩, hm, hset⟩ := Option.bind_eq_some_iff.mp h
  obtain ⟨hroom, rfl, rfl⟩ := settle_eq hset
  rw [transportTrans_eq, if_pos hlong] at hm
  obtain ⟨m', hm', heq⟩ := Option.map_eq_some_iff.mp hm
  obtain ⟨rfl, rfl⟩ := Prod.mk.inj heq
  simp only [if_true] at hroom ⊢
  obtain ⟨hlen, -⟩ := sealAt_length hm'
  rw [copy_length] at hlen
  -- what is written over is what was copied
  have hsame : overlay k m' o = m' := by
    have hrest : m'.drop k = copy (new.drop k) (o.drop k) := by
      rw [sealAt_drop hk hm', take_drop_copy (by omega) hlong]
    rw [overlay, hrest, copy_copy, ← hrest, List.take_append_drop]
  rw [hsame]
  obtain ⟨a, l, ha, hl, hcut⟩ := exists_split check ((copy new o).length - check)
    (show (copy new o).length = check + ((copy new o).length - check) by rw [copy_length]; omega)
  obtain ⟨c, b, hc, hb, rfl⟩ := exists_split 2 (l.length - 2)
    (show l.length = 2 + (l.length - 2) by rw [copy_length] at hl; omega)
  rw [hcut, sealAt_eq magic ha hc] at hm'
  obtain rfl := Option.some.inj hm'
  refine sum16_sealed (fun sum => ?_) (by omega)
  rw [← hs]
  congr 1
  rw [← hnew, ← copy_length new o, hcut]
  simp [hc]

section Closed

variable (e : ByteOrder)

theorem csumTcpudpMagic_eq (saddr daddr : List UInt8) (proto : UInt8) (len : Nat) :
    ∃ k, ∀ sum, csumTcpudpMagic saddr daddr len proto sum = checksum (k + sum) :=
  ⟨sum16 saddr + sum16 daddr + len % 2 ^ 16 + proto.toNat, fun _ => rfl⟩

/-- What is in the rest of the buffer cancels out. -/
theorem nested6_sum {depth n : Nat} {q y : List UInt8} (h : Closed6 (protocol6 q) y) :
    ∃ s, ∀ new u o : List UInt8, new.length = n → nested6 e (depth + 1) q new y = some (u, o) →
      (s + sum16 u) % 65535 = 0 := by
  rcases h with ⟨hproto, hlong⟩ | ⟨hproto, hlong⟩ | ⟨hproto, h8, hflat⟩
  · have hne : IPPROTO_TCP ≠ IPPROTO_ICMP := by decide
    simp only [nested6, hproto, hne, if_false, if_true]
    exact transport_settle_sum (csumTcpudpMagic_eq _ _ _) rfl (by decide) hlong
  · have hne : IPPROTO_UDP ≠ IPPROTO_ICMP := by decide
    have hne' : IPPROTO_UDP ≠ IPPROTO_TCP := by decide
    simp only [nested6, hproto, hne, hne', if_false, if_true]
    exact transport_settle_sum (csumTcpudpMagic_eq _ _ _) rfl (by decide) hlong
  · simp only [nested6, hproto, if_true]
    rw [ICMP_HEADER_LEN] at h8
    obtain ⟨b0, b1, c, w, x, hc, hw, rfl⟩ := exists_icmphdr h8
    have hget0 : ([b0] ++ ([b1] ++ (c ++ (w ++ x)))).getD 0 0 = b0 := by simp
    rw [hget0, length_icmphdr hc hw, IP6_ICMP_LEN] at hflat
    have hw' := head6_length b0 b1 hw x
    refine ⟨0, fun new u o hnew hu => ?_⟩
    obtain ⟨t, ht, hset⟩ := Option.bind_eq_some_iff.mp hu
    obtain ⟨n0, n1, m, g, new, hm, hg, rfl⟩ := exists_icmphdr ((icmp6to4Trans_length ht).2.2.2 h8)
    rw [icmp6to4Trans_copied e depth hc hw hm hg fun he => by have := hflat he; omega] at ht
    generalize head6 b0 b1 w x = r at hw' ht
    obtain ⟨t, code, w'⟩ := r
    obtain rfl := Option.some.inj ht
    simp only [if_true] at hset
    rw [sealed, settle_header rfl hw', drop_icmphdr hc hw' x 0, List.drop_zero, copy_copy] at hset
    obtain ⟨rfl, -⟩ := Prod.mk.inj (Option.some.inj hset)
    exact sum16_sealed (fun sum => by rw [Nat.zero_add]) (by simp)

end Closed

/-! ## One level -/

/-- A level is clean when it has no quote, or one that is closed. -/
def Clean6 (old : List UInt8) : Prop :=
  IsError6 (old.getD 0 0) → 48 ≤ old.length →
    Closed6 (protocol6 (old.drop 8)) (old.drop (8 + quoteLen6 (old.drop 8)))

section Levels

variable (e : ByteOrder) {b0 b1 : UInt8} {c w : List UInt8} {depth : Nat}

theorem head6_pos (b1 : UInt8) (w x : List UInt8) (h : IsError6 b0) :
    0 < sum16 [(head6 b0 b1 w x).1, (head6 b0 b1 w x).2.1] := by
  have htype : 0 < (head6 b0 b1 w x).1.toNat := by
    rcases h with rfl | rfl | rfl
    · exact (by decide : 0 < ICMP_DEST_UNREACH.toNat)
    · exact (by decide : 0 < ICMP_TIME_EXCEEDED.toNat)
    · exact (by decide : 0 < ICMP_DEST_UNREACH.toNat)
  simp only [sum16]
  omega

/-- A quoted packet makes the checksum of its level. -/
theorem icmp6to4Trans_level (hc : c.length = 2) (hw : w.length = 4) (herr : IsError6 b0)
    {q y : List UInt8} (hx : Headers6 (q ++ y)) (hq : q.length = quoteLen6 (q ++ y)) :
    ∃ (a w' : List UInt8) (k : Nat) (old' : List UInt8 → List UInt8), a.length = 2 ∧
      w'.length = 4 ∧ 0 < k ∧ (∀ o, (old' o).drop 8 = q ++ o) ∧
      ∀ new, 28 ≤ new.length → ∀ u o, nested6 e depth (q ++ y) (new.drop 28) y = some (u, o) →
        icmp6to4Trans e (depth + 1) new ([b0] ++ ([b1] ++ (c ++ (w ++ (q ++ y))))) =
          some (true, a ++ (word16 .big (checksum (k + sum16 u)) ++ (w' ++ (header4 e (q ++ y) ++ u))),
            old' o) := by
  have hw' := head6_length b0 b1 hw (q ++ y)
  have hpos := head6_pos b1 w (q ++ y) herr
  have hlen := (iphdr6to4Trans_quote e hx).1
  have hquoted := fun n0 n1 m g was new hm hg hwas =>
    @icmp6to4Trans_quoted e depth b0 b1 n0 n1 c w m g hc hw hm hg herr q y hx hq was hwas new
  generalize head6 b0 b1 w (q ++ y) = r at hw' hpos hquoted
  obtain ⟨t, code, w'⟩ := r
  dsimp only at hw' hpos
  refine ⟨[t, code], w', sum16 [t, code] + (sum16 w' + sum16 (header4 e (q ++ y))),
    fun o => [b0] ++ ([code] ++ (c ++ (w' ++ (q ++ o)))), rfl, hw', by omega,
    fun o => drop_icmphdr hc hw' (q ++ o) 0, fun new h28 u o hu => ?_⟩
  obtain ⟨n0, n1, m, g, new, hm, hg, rfl⟩ := exists_icmphdr (show 8 ≤ new.length by omega)
  rw [length_icmphdr hm hg] at h28
  obtain ⟨was, new, hwas, -, rfl⟩ := exists_split 20 (new.length - 20)
    (show new.length = 20 + (new.length - 20) by omega)
  rw [drop_icmphdr hm hg _ 20, List.drop_left' hwas] at hu
  rw [hquoted n0 n1 m g was new hm hg hwas, hu]
  have hsum : sum16 ([t, code] ++ ([0, 0] ++ (w' ++ (header4 e (q ++ y) ++ u)))) =
      sum16 [t, code] + (sum16 w' + sum16 (header4 e (q ++ y))) + sum16 u := by
    have hzero : sum16 [0, 0] = 0 := rfl
    rw [sum16_append (by simp), sum16_append (by simp), sum16_append (by omega),
      sum16_append (by omega), hzero]
    omega
  simp only [Option.map_some, sealed, hsum]

end Levels

section Clean6

variable (e : ByteOrder)

theorem clean6_icmphdr {b0 b1 : UInt8} {c w : List UInt8} (hc : c.length = 2) (hw : w.length = 4)
    (x : List UInt8) :
    Clean6 ([b0] ++ ([b1] ++ (c ++ (w ++ x)))) ↔
      (IsError6 b0 → 40 ≤ x.length → Closed6 (protocol6 x) (x.drop (quoteLen6 x))) := by
  have hget0 : ([b0] ++ ([b1] ++ (c ++ (w ++ x)))).getD 0 0 = b0 := by simp
  have hquote : ([b0] ++ ([b1] ++ (c ++ (w ++ x)))).drop 8 = x := drop_icmphdr hc hw x 0
  have h48 : 48 ≤ 8 + x.length ↔ 40 ≤ x.length := by omega
  rw [Clean6, hget0, hquote, drop_icmphdr hc hw, length_icmphdr hc hw, h48]

/-- A packet without a quote fills a buffer that is not longer. -/
theorem icmp6to4Trans_steady_copied {depth : Nat} {new new' old : List UInt8} (h8 : 8 ≤ old.length)
    (hlen : new.length = new'.length) (hle : new.length ≤ old.length)
    (hquote : IsError6 (old.getD 0 0) → old.length < 48) :
    icmp6to4Trans e (depth + 1) new old = icmp6to4Trans e (depth + 1) new' old := by
  by_cases hn8 : 8 ≤ new.length
  swap
  · rw [icmp6to4Trans_cramped e _ h8 (by omega), icmp6to4Trans_cramped e _ h8 (by omega)]
  have hn8' := hlen ▸ hn8
  obtain ⟨b0, b1, c, w, x, hc, hw, rfl⟩ := exists_icmphdr h8
  obtain ⟨n0, n1, m, g, new, hm, hg, rfl⟩ := exists_icmphdr hn8
  obtain ⟨n0', n1', m', g', new', hm', hg', rfl⟩ := exists_icmphdr hn8'
  have hget0 : ([b0] ++ ([b1] ++ (c ++ (w ++ x)))).getD 0 0 = b0 := by simp
  rw [hget0, length_icmphdr hc hw] at hquote
  rw [length_icmphdr hm hg, length_icmphdr hm' hg'] at hlen
  rw [length_icmphdr hm hg, length_icmphdr hc hw] at hle
  have hquote' : IsError6 b0 → x.length < 40 := by
    intro herr
    have := hquote herr
    omega
  have hcopy : copy new x = copy new' x := copy_steady (by omega) (by omega)
  rw [icmp6to4Trans_copied e depth hc hw hm hg hquote',
    icmp6to4Trans_copied e depth hc hw hm' hg' hquote', hcopy]

/-- What is left of a clean level when the level around is done. -/
theorem icmp_settle_steady {depth : Nat} {new new' old : List UInt8} (hd : old.length < depth)
    (h8 : 8 ≤ old.length) (hlen : new.length = new'.length) (hle : new.length ≤ old.length)
    (hfits : Fits6 new.length old) (hclean : Clean6 old) :
    ((icmp6to4Trans e depth new old).bind fun r => settle (if r.1 then 8 else 0) r.2.1 r.2.2) =
      (icmp6to4Trans e depth new' old).bind fun r => settle (if r.1 then 8 else 0) r.2.1 r.2.2 := by
  obtain ⟨depth, rfl⟩ : ∃ k, depth = k + 1 := ⟨depth - 1, by omega⟩
  by_cases hquote : IsError6 (old.getD 0 0) → old.length < 48
  · rw [icmp6to4Trans_steady_copied e h8 hlen hle hquote]
  obtain ⟨b0, b1, c, w, x, hc, hw, rfl⟩ := exists_icmphdr h8
  have hget0 : ([b0] ++ ([b1] ++ (c ++ (w ++ x)))).getD 0 0 = b0 := by simp
  rw [hget0] at hquote
  rw [length_icmphdr hc hw] at hd hle hquote
  rw [clean6_icmphdr hc hw] at hclean
  have herr : IsError6 b0 := by
    by_contra hno
    exact hquote fun he => absurd he hno
  have hx : 40 ≤ x.length := by
    by_contra hlt
    exact hquote fun _ => by omega
  obtain ⟨n, hn⟩ : ∃ n, new.length = 8 + n := by
    have h8n : 8 ≤ new.length := by
      rw [Fits6] at hfits
      exact (hfits (by rw [length_icmphdr hc hw]; omega)).1
    exact ⟨new.length - 8, by omega⟩
  rw [hn, fits6_icmphdr hc hw] at hfits
  obtain ⟨hheaders, h20, hroom⟩ := hfits herr hx
  have hclosed := hclean herr hx
  obtain ⟨q, y, hq, rfl⟩ := exists_quote6 hheaders
  rw [← hq, List.drop_left' rfl] at hclosed hroom
  have h40 := quoteLen6_ge (q ++ y)
  rw [List.length_append] at hd hle
  obtain ⟨depth, rfl⟩ : ∃ k, depth = k + 1 := ⟨depth - 1, by omega⟩
  -- both buffers make the same checksum
  have hsome (new : List UInt8) (hnew : new.length = 8 + n) :
      ∃ u o, nested6 e (depth + 1) (q ++ y) (new.drop 28) y = some (u, o) := by
    have hdrop : (new.drop 28).length = n - 20 := by
      rw [List.length_drop]
      omega
    have h := (nested6_isSome e (q ++ y) (@icmp6to4Trans_isSome e (depth + 1) (new.drop 28) y
      (by omega))).mpr (hdrop ▸ hroom)
    obtain ⟨⟨u, o⟩, hu⟩ := Option.isSome_iff_exists.mp h
    exact ⟨u, o, hu⟩
  obtain ⟨u, o, hu⟩ := hsome new hn
  obtain ⟨u', o', hu'⟩ := hsome new' (hlen ▸ hn)
  obtain ⟨y', hy'⟩ := nested6_keeps e (q ++ y) (icmp6to4Trans_keeps e (depth + 1) y)
  obtain ⟨hsame, holen, hulen, -⟩ := hy' _ u o hu
  obtain ⟨hsame', -, hulen', -⟩ := hy' _ u' o' hu'
  obtain rfl : o' = o := hsame'.trans hsame.symm
  obtain ⟨s, hs⟩ := @nested6_sum e depth (n - 20) (q ++ y) y hclosed
  have hsum := hs _ u _ (by rw [List.length_drop]; omega) hu
  have hsum' := hs _ u' _ (by rw [List.length_drop]; omega) hu'
  obtain ⟨a, w', k, old', ha, hw', hk, hold', hlevel⟩ :=
    @icmp6to4Trans_level e b0 b1 c w (depth + 1) hc hw herr q y hheaders hq
  have hcheck : checksum (k + sum16 u) = checksum (k + sum16 u') :=
    (checksum_eq_iff (by omega) (by omega)).mpr (by omega)
  have hhead := (iphdr6to4Trans_quote e hheaders).1
  have hcopy : copy (header4 e (q ++ y) ++ u) (q ++ o') = copy (header4 e (q ++ y) ++ u') (q ++ o') := by
    refine copy_steady (by simp [hulen, hulen', hlen]) ?_
    simp only [List.length_append, hhead, hulen, List.length_drop, holen]
    omega
  rw [hlevel new (by omega) u o' hu, hlevel new' (by omega) u' o' hu', Option.bind_some,
    Option.bind_some]
  simp only [if_true]
  rw [settle_header ha hw', settle_header ha hw', hold', hcheck, hcopy]

end Clean6

/-! ## Sums that differ -/

/-- Two buffers of `n` bytes that end with the same `d` bytes, and make
contents that do not add up to the same. -/
def SumsDiffer (d n : Nat) (f : List UInt8 → Option (List UInt8 × List UInt8)) : Prop :=
  ∃ new new' u u' o, new.length = n ∧ new'.length = n ∧ new.drop (n - d) = new'.drop (n - d) ∧
    f new = some (u, o) ∧ f new' = some (u', o) ∧ u.length = u'.length ∧
    sum16 u % 65535 ≠ sum16 u' % 65535

theorem sum16_cons (v : UInt8) (l : List UInt8) : sum16 (v :: l) = v.toNat * 2 ^ 8 + sum16 (0 :: l) := by
  cases l with
  | nil => simp [sum16]
  | cons b l =>
      simp [sum16]
      omega

/-- A buffer with `v` at `p`. -/
def marked (n p : Nat) (v : UInt8) : List UInt8 :=
  List.replicate p 0 ++ (v :: List.replicate (n - p - 1) 0)

theorem marked_length {n p : Nat} (hp : p < n) (v : UInt8) : (marked n p v).length = n := by
  simp [marked]
  omega

/-- Two such buffers end alike. -/
theorem marked_drop {n p d : Nat} (h : p + 1 + d ≤ n) (v v' : UInt8) :
    (marked n p v).drop (n - d) = (marked n p v').drop (n - d) := by
  have hcut (v : UInt8) : (marked n p v).drop (p + 1) = List.replicate (n - p - 1) 0 := by
    rw [marked, List.append_cons, List.drop_left' (by simp)]
  exact drop_of_drop ((hcut v).trans (hcut v').symm) (by omega)

/-- Behind an even number of bytes the mark is seen. -/
theorem sum16_marked_ne {n p l : Nat} {g : List UInt8} (hl : l ≤ p)
    (heven : (g.length + (p - l)) % 2 = 0) :
    sum16 (g ++ (marked n p 0).drop l) % 65535 ≠ sum16 (g ++ (marked n p 1).drop l) % 65535 := by
  have hcut (v : UInt8) : g ++ (marked n p v).drop l =
      (g ++ List.replicate (p - l) 0) ++ (v :: List.replicate (n - p - 1) 0) := by
    rw [marked, List.drop_append_of_le_length (by simp [hl]), List.drop_replicate, List.append_assoc]
  have hsum (v : UInt8) : sum16 (g ++ (marked n p v).drop l) =
      sum16 (g ++ List.replicate (p - l) 0) +
        (v.toNat * 2 ^ 8 + sum16 (0 :: List.replicate (n - p - 1) 0)) := by
    rw [hcut, sum16_append (by simpa using heven), sum16_cons]
  rw [hsum, hsum]
  have h1 : (1 : UInt8).toNat = 1 := rfl
  have h0 : (0 : UInt8).toNat = 0 := rfl
  rw [h0, h1]
  omega

/-- A packet that is copied to a longer buffer. -/
theorem sumsDiffer_copy {d n : Nat} {y : List UInt8} (h : y.length + 20 + d ≤ n)
    {f : List UInt8 → Option (List UInt8 × List UInt8)} (hf : ∀ new, f new = some (copy new y, y)) :
    SumsDiffer d n f := by
  have hp : y.length + y.length % 2 < n := by omega
  have hcopy (v : UInt8) : copy (marked n (y.length + y.length % 2) v) y =
      y ++ (marked n (y.length + y.length % 2) v).drop y.length :=
    copy_of_ge (by rw [marked_length hp]; omega)
  refine ⟨marked n (y.length + y.length % 2) 0, marked n (y.length + y.length % 2) 1, _, _, y,
    marked_length hp 0, marked_length hp 1, marked_drop (by omega) 0 1, hf _, hf _, ?_, ?_⟩
  · rw [copy_length, copy_length, marked_length hp, marked_length hp]
  · rw [hcopy, hcopy]
    exact sum16_marked_ne (by omega) (by omega)

section Open

variable (e : ByteOrder) {q y : List UInt8}

/-- A quoted packet that is copied as it is. -/
theorem nested6_open {depth : Nat} (hopen : ¬Closed6 (protocol6 q) y)
    (hflat : ¬(protocol6 q = IPPROTO_ICMP ∧ IsError6 (y.getD 0 0) ∧ 48 ≤ y.length))
    (new : List UInt8) : nested6 e (depth + 1) q new y = some (copy new y, y) := by
  simp only [Closed6, not_or] at hopen
  obtain ⟨htcp, hudp, hicmp⟩ := hopen
  have hsettle : settle 0 new y = some (copy new y, y) := by simp [settle, overlay_zero]
  have hstub {k check : Nat} {magic : Nat → Nat → UInt16} (hshort : ¬k ≤ y.length) :
      ((transportTrans k check magic new y).bind fun r => settle (if r.1 then k else 0) r.2 y) =
        some (copy new y, y) := by
    rw [transportTrans_eq, if_neg hshort]
    simpa using hsettle
  unfold nested6
  dsimp only
  split
  · rename_i hproto
    have hshort : y.length < 8 := by
      by_contra h8
      refine hicmp ⟨hproto, by rw [ICMP_HEADER_LEN]; omega, fun herr => ?_⟩
      by_contra hlt
      exact hflat ⟨hproto, herr, by rw [IP6_ICMP_LEN] at hlt; omega⟩
    rw [icmp6to4Trans_short e depth new hshort]
    simpa using hsettle
  split
  · rename_i hproto
    exact hstub fun hc => htcp ⟨hproto, hc⟩
  split
  · rename_i hproto
    exact hstub fun hc => hudp ⟨hproto, hc⟩
  · exact hsettle

/-- A quoted packet that is not closed leaves the rest of the buffer in the
sum; an error with a quote is left to `hicmp`. -/
theorem nested6_sumsDiffer {depth d n : Nat} (hopen : ¬Closed6 (protocol6 q) y)
    (hn : y.length + 20 + d ≤ n)
    (hicmp : protocol6 q = IPPROTO_ICMP → IsError6 (y.getD 0 0) → 48 ≤ y.length →
      SumsDiffer d n fun new => (icmp6to4Trans e (depth + 1) new y).bind fun r =>
        settle (if r.1 then 8 else 0) r.2.1 r.2.2) :
    SumsDiffer d n fun new => nested6 e (depth + 1) q new y := by
  by_cases hchain : protocol6 q = IPPROTO_ICMP ∧ IsError6 (y.getD 0 0) ∧ 48 ≤ y.length
  · simp only [nested6, if_pos hchain.1]
    exact hicmp hchain.1 hchain.2.1 hchain.2.2
  · exact sumsDiffer_copy hn (nested6_open e hopen hchain)

end Open

section Chain

variable (e : ByteOrder)

/-- An error with a quote, in parts. -/
theorem exists_error6 {n : Nat} {old : List UInt8} (herr : IsError6 (old.getD 0 0))
    (h48 : 48 ≤ old.length) (hfits : Fits6 n old) :
    ∃ (b0 b1 : UInt8) (c w q y : List UInt8), c.length = 2 ∧ w.length = 4 ∧ IsError6 b0 ∧
      Headers6 (q ++ y) ∧ q.length = quoteLen6 (q ++ y) ∧
      old = [b0] ++ ([b1] ++ (c ++ (w ++ (q ++ y)))) ∧ 28 ≤ n ∧
      Room IPPROTO_ICMP (protocol6 (q ++ y)) (Fits6 (n - 28) y) (n - 28) y := by
  have h8 : 8 ≤ old.length := by omega
  have hn8 : 8 ≤ n := by
    rw [Fits6] at hfits
    exact (hfits h8).1
  obtain ⟨n, rfl⟩ : ∃ k, n = 8 + k := ⟨n - 8, by omega⟩
  obtain ⟨b0, b1, c, w, x, hc, hw, rfl⟩ := exists_icmphdr h8
  have hget0 : ([b0] ++ ([b1] ++ (c ++ (w ++ x)))).getD 0 0 = b0 := by simp
  rw [hget0] at herr
  rw [length_icmphdr hc hw] at h48
  rw [fits6_icmphdr hc hw] at hfits
  obtain ⟨hheaders, h20, hroom⟩ := hfits herr (by omega)
  obtain ⟨q, y, hq, rfl⟩ := exists_quote6 hheaders
  rw [← hq, List.drop_left' rfl] at hroom
  have hsub : 8 + n - 28 = n - 20 := by omega
  rw [← hsub] at hroom
  exact ⟨b0, b1, c, w, q, y, hc, hw, herr, hheaders, hq, rfl, by omega, hroom⟩

/-- A quoted error in a longer buffer: its checksum is that of what it quotes,
and the end of the buffer stays behind it. -/
theorem settled_level {depth : Nat} {b0 b1 : UInt8} {c w q y : List UInt8} (hc : c.length = 2)
    (hw : w.length = 4) (herr : IsError6 b0) (hx : Headers6 (q ++ y))
    (hq : q.length = quoteLen6 (q ++ y)) {o : List UInt8} (ho : o.length = y.length) :
    ∃ (k k' : Nat) (old' : List UInt8), 0 < k ∧ ∀ new u, 8 + (q ++ y).length ≤ new.length →
      nested6 e depth (q ++ y) (new.drop 28) y = some (u, o) →
      ∃ z, ((icmp6to4Trans e (depth + 1) new ([b0] ++ ([b1] ++ (c ++ (w ++ (q ++ y)))))).bind fun r =>
          settle (if r.1 then 8 else 0) r.2.1 r.2.2) = some (z, old') ∧ z.length = new.length ∧
        sum16 z = k' + (checksum (k + sum16 u)).toNat +
          sum16 ((q ++ o) ++ new.drop (8 + (q ++ y).length)) := by
  obtain ⟨a, w', k, old', ha, hw', hk, hold', hlevel⟩ :=
    @icmp6to4Trans_level e b0 b1 c w depth hc hw herr q y hx hq
  have hhead := (iphdr6to4Trans_quote e hx).1
  have h40 := quoteLen6_ge (q ++ y)
  refine ⟨k, sum16 a + sum16 w', old' o, hk, fun new u hnew hu => ?_⟩
  have hlen : (q ++ y).length = q.length + y.length := List.length_append
  have hicmp := hlevel new (by omega) u o hu
  obtain ⟨y', hy'⟩ := nested6_keeps e (q ++ y) (icmp6to4Trans_keeps e depth y)
  obtain ⟨-, -, hulen, -⟩ := hy' _ u o hu
  rw [List.length_drop] at hulen
  -- the end of the buffer
  obtain ⟨old'', hkeeps⟩ := icmp6to4Trans_keeps e (depth + 1) ([b0] ++ ([b1] ++ (c ++ (w ++ (q ++ y)))))
  have htail := (hkeeps new _ hicmp).2
  rw [length_icmphdr hc hw] at htail
  have hcut (c : UInt16) (z : List UInt8) (l : Nat) :
      (a ++ (word16 .big c ++ (w' ++ z))).drop (8 + l) = z.drop l := by
    have happ : a ++ (word16 .big c ++ (w' ++ z)) = (a ++ (word16 .big c ++ w')) ++ z := by simp
    rw [happ, ← List.drop_drop, List.drop_left' (by simp [ha, hw'])]
  rw [hcut] at htail
  have hcopy : copy (header4 e (q ++ y) ++ u) (q ++ o) =
      (q ++ o) ++ new.drop (8 + (q ++ y).length) := by
    have hqo : (q ++ o).length = (q ++ y).length := by simp [ho]
    have hge : (q ++ o).length ≤ (header4 e (q ++ y) ++ u).length := by
      rw [hqo, hlen, List.length_append, hhead]
      omega
    rw [copy_of_ge hge, hqo, htail]
  refine ⟨a ++ (word16 .big (checksum (k + sum16 u)) ++ (w' ++ copy (header4 e (q ++ y) ++ u)
    (q ++ o))), ?_, ?_, ?_⟩
  · rw [hicmp, Option.bind_some]
    simp only [if_true]
    rw [settle_header ha hw', hold']
  · simp only [List.length_append, ha, word16_length, hw', copy_length, hhead]
    omega
  · rw [hcopy, sum16_append (by omega), sum16_append (by simp), sum16_append (by omega), sum16_word16]
    omega

/-- A quoted error with a quote leaves the rest of the buffer in the sum. -/
theorem icmp6to4Trans_sumsDiffer {depth d n : Nat} {old : List UInt8} (hd : old.length < depth)
    (herr : IsError6 (old.getD 0 0)) (h48 : 48 ≤ old.length) (hfits : Fits6 n old)
    (hn : old.length + 20 + d ≤ n) :
    SumsDiffer d n fun new => (icmp6to4Trans e depth new old).bind fun r =>
      settle (if r.1 then 8 else 0) r.2.1 r.2.2 := by
  induction depth generalizing d n old with
  | zero => omega
  | succ depth ih =>
      obtain ⟨b0, b1, c, w, q, y, hc, hw, herr, hheaders, hq, rfl, h28, hroom⟩ :=
        exists_error6 herr h48 hfits
      have h40 := quoteLen6_ge (q ++ y)
      rw [length_icmphdr hc hw] at hd h48 hn
      have hlen : (q ++ y).length = q.length + y.length := List.length_append
      obtain ⟨depth, rfl⟩ : ∃ k, depth = k + 1 := ⟨depth - 1, by omega⟩
      obtain ⟨y', hy'⟩ := nested6_keeps e (q ++ y) (icmp6to4Trans_keeps e (depth + 1) y)
      have hsome (new : List UInt8) (hnew : new.length = n) :
          ∃ u, nested6 e (depth + 1) (q ++ y) (new.drop 28) y = some (u, y') := by
        have hdrop : (new.drop 28).length = n - 28 := by rw [List.length_drop, hnew]
        have h := (nested6_isSome e (q ++ y) (@icmp6to4Trans_isSome e (depth + 1) (new.drop 28) y
          (by omega))).mpr (hdrop ▸ hroom)
        obtain ⟨⟨u, o⟩, hu⟩ := Option.isSome_iff_exists.mp h
        obtain ⟨rfl, -⟩ := hy' _ u o hu
        exact ⟨u, hu⟩
      have hylen : y'.length = y.length := by
        obtain ⟨u, hu⟩ := hsome (List.replicate n 0) (List.length_replicate ..)
        exact (hy' _ u _ hu).2.1
      obtain ⟨k, k', old', hk, hlevel⟩ := @settled_level e (depth + 1) b0 b1 c w q y hc hw herr
        hheaders hq y' hylen
      by_cases hclosed : Closed6 (protocol6 (q ++ y)) y
      · -- the checksum stays, and the mark is behind the packet
        obtain ⟨p, hp, hpn, heven⟩ : ∃ p, 8 + (q ++ y).length ≤ p ∧ p + 1 + d ≤ n ∧ p % 2 = 0 := by
          refine ⟨8 + (q ++ y).length + (q ++ y).length % 2, ?_, ?_, ?_⟩ <;> omega
        have hlen0 := marked_length (show p < n by omega) 0
        have hlen1 := marked_length (show p < n by omega) 1
        obtain ⟨u, hu⟩ := hsome _ hlen0
        obtain ⟨u', hu'⟩ := hsome _ hlen1
        obtain ⟨z, hz, hzlen, hzsum⟩ := hlevel _ u (by omega) hu
        obtain ⟨z', hz', hzlen', hzsum'⟩ := hlevel _ u' (by omega) hu'
        obtain ⟨s, hs⟩ := @nested6_sum e depth (n - 28) (q ++ y) y hclosed
        have hsum := hs _ u _ (by rw [List.length_drop, hlen0]) hu
        have hsum' := hs _ u' _ (by rw [List.length_drop, hlen1]) hu'
        have hcheck : checksum (k + sum16 u) = checksum (k + sum16 u') :=
          (checksum_eq_iff (by omega) (by omega)).mpr (by omega)
        refine ⟨_, _, z, z', old', hlen0, hlen1, marked_drop hpn 0 1, hz, hz',
          by rw [hzlen, hzlen', hlen0, hlen1], ?_⟩
        have hne := @sum16_marked_ne n p (8 + (q ++ y).length) (q ++ y') hp
          (by rw [List.length_append, hylen]; omega)
        rw [hzsum, hzsum', hcheck]
        omega
      · -- the checksum changes, and the end of the buffer stays
        obtain ⟨new, new', u, u', o, hnew, hnew', hend, hu, hu', -, hne⟩ :=
          @nested6_sumsDiffer e (q ++ y) y depth (n - (8 + (q ++ y).length)) (n - 28) hclosed (by omega)
            (fun hicmp herr h48 => ih (by omega) herr h48 (by rw [Room, if_pos hicmp] at hroom; exact hroom)
              (by omega))
        obtain ⟨rfl, -⟩ := hy' _ u o hu
        have hfront (new : List UInt8) : (List.replicate 28 0 ++ new).drop 28 = new := rfl
        obtain ⟨z, hz, hzlen, hzsum⟩ := hlevel (List.replicate 28 0 ++ new) u (by simp [hnew]; omega)
          (by rw [hfront]; exact hu)
        obtain ⟨z', hz', hzlen', hzsum'⟩ := hlevel (List.replicate 28 0 ++ new') u'
          (by simp [hnew']; omega) (by rw [hfront]; exact hu')
        have hkeep : (List.replicate 28 0 ++ new).drop (8 + (q ++ y).length) =
            (List.replicate 28 0 ++ new').drop (8 + (q ++ y).length) := by
          have hsplit : 8 + (q ++ y).length = 28 + (n - 28 - (n - (8 + (q ++ y).length))) := by omega
          rw [hsplit, ← List.drop_drop, ← List.drop_drop, hfront, hfront, hend]
        have hcheck := checksum_mod_ne (show (k + sum16 u) % 65535 ≠ (k + sum16 u') % 65535 by omega)
        refine ⟨_, _, z, z', old', by simp [hnew]; omega, by simp [hnew']; omega,
          drop_of_drop hkeep (by omega), hz, hz', by rw [hzlen, hzlen']; simp [hnew, hnew'], ?_⟩
        rw [hzsum, hzsum', hkeep]
        omega

/-- An error whose quote is not closed is sealed with something from the
buffer. -/
theorem icmp6to4Trans_leaks {depth : Nat} {old : List UInt8} (hd : old.length < depth)
    (hfits : Fits6 old.length old) (hdirty : ¬Clean6 old) :
    ∃ new new' : List UInt8, new.length = old.length ∧ new'.length = old.length ∧
      Differ (icmp6to4Trans e depth new old) (icmp6to4Trans e depth new' old) := by
  have herr : IsError6 (old.getD 0 0) := by
    by_contra hno
    exact hdirty fun he => absurd he hno
  have h48 : 48 ≤ old.length := by
    by_contra hno
    exact hdirty fun _ hc => absurd hc hno
  obtain ⟨b0, b1, c, w, q, y, hc, hw, herr, hheaders, hq, rfl, h28, hroom⟩ :=
    exists_error6 herr h48 hfits
  have h40 := quoteLen6_ge (q ++ y)
  rw [clean6_icmphdr hc hw, ← hq, List.drop_left' rfl] at hdirty
  rw [length_icmphdr hc hw] at hd hroom ⊢
  have hlen : (q ++ y).length = q.length + y.length := List.length_append
  have hclosed : ¬Closed6 (protocol6 (q ++ y)) y := fun hcl => hdirty fun _ _ => hcl
  obtain ⟨depth, rfl⟩ : ∃ k, depth = k + 2 := ⟨depth - 2, by omega⟩
  obtain ⟨new, new', u, u', o, hnew, hnew', -, hu, hu', hulen, hne⟩ :=
    @nested6_sumsDiffer e (q ++ y) y depth 0 (8 + (q ++ y).length - 28) hclosed (by omega)
      (fun hicmp herr h48 => icmp6to4Trans_sumsDiffer e (by omega) herr h48
        (by rw [Room, if_pos hicmp] at hroom; exact hroom) (by omega))
  obtain ⟨a, w', k, old', ha, hw', hk, hold', hlevel⟩ :=
    @icmp6to4Trans_level e b0 b1 c w (depth + 1) hc hw herr q y hheaders hq
  have hfront (new : List UInt8) : (List.replicate 28 0 ++ new).drop 28 = new := rfl
  refine ⟨List.replicate 28 0 ++ new, List.replicate 28 0 ++ new', by simp [hnew]; omega,
    by simp [hnew']; omega, a, w', _, _, old' o, _, _, ha, hw', ?_,
    hlevel _ (by simp) u o (by rw [hfront]; exact hu),
    hlevel _ (by simp) u' o (by rw [hfront]; exact hu'), checksum_mod_ne (by omega)⟩
  rw [List.length_append, List.length_append, hulen]

end Chain

/-! ## Packets -/

section Icmp6

variable (e : ByteOrder)

/-- What follows a quoted header, in a buffer of the same length. -/
theorem nested6_steady {depth : Nat} (q : List UInt8) {new new' y : List UInt8}
    (hd : y.length < depth) (hnew : new.length = y.length) (hnew' : new'.length = y.length)
    (hroom : Room IPPROTO_ICMP (protocol6 q) (Fits6 y.length y) y.length y)
    (hclean : protocol6 q = IPPROTO_ICMP → Clean6 y) :
    nested6 e depth q new y = nested6 e depth q new' y := by
  have hlen : new.length = new'.length := hnew.trans hnew'.symm
  unfold nested6
  dsimp only
  split
  · rename_i hproto
    rw [Room, if_pos hproto] at hroom
    by_cases h8 : 8 ≤ y.length
    · exact icmp_settle_steady e hd h8 hlen (Nat.le_of_eq hnew) (hnew ▸ hroom) (hclean hproto)
    · obtain ⟨depth, rfl⟩ : ∃ k, depth = k + 1 := ⟨depth - 1, by omega⟩
      rw [icmp6to4Trans_short e depth new (by omega), icmp6to4Trans_short e depth new' (by omega)]
      simp [settle, overlay_zero, copy_steady hlen (Nat.le_of_eq hnew)]
  split
  · exact transport_settle_steady _ hlen (Nat.le_of_eq hnew)
  split
  · exact transport_settle_steady _ hlen (Nat.le_of_eq hnew)
  · simp [settle, overlay_zero, copy_steady hlen (Nat.le_of_eq hnew)]

/-- A packet without a quote, in a buffer that is not longer. -/
theorem icmp6_steady_copied {n : Nat} {old : List UInt8} (h8 : 8 ≤ old.length) (hle : n ≤ old.length)
    (hfits : Fits6 n old) (hquote : IsError6 (old.getD 0 0) → old.length < 48) :
    Steady n (fun new => (icmp6to4Trans e (old.length + 1) new old).map (·.2.1)) := by
  refine steady_of_eq (fun new hnew => ?_) fun new new' hnew hnew' => ?_
  · rw [Option.isSome_map, icmp6to4Trans_isSome e (Nat.lt_succ_self _), hnew]
    exact hfits
  · rw [icmp6to4Trans_steady_copied e h8 (hnew.trans hnew'.symm) (hnew ▸ hle) hquote]

theorem icmp6_steady_short {n : Nat} {old : List UInt8} (h8 : old.length < 8) :
    Steady n (fun new => (icmp6to4Trans e (old.length + 1) new old).map (·.2.1)) ↔ n = 0 := by
  have hsame : (fun new => (icmp6to4Trans e (old.length + 1) new old).map (·.2.1)) = some := by
    funext new
    rw [icmp6to4Trans_short e old.length new h8]
    rfl
  rw [hsame, steady_some_iff]

/-- A packet of ICMP for IPv4 keeps its length, and its quote gets shorter. -/
theorem icmp6_steady_iff {old : List UInt8} (hfits : Fits6 old.length old) :
    Steady old.length (fun new => (icmp6to4Trans e (old.length + 1) new old).map (·.2.1)) ↔
      old.length = 0 ∨ (8 ≤ old.length ∧ (IsError6 (old.getD 0 0) → old.length < 48)) := by
  by_cases h8 : 8 ≤ old.length
  swap
  · rw [icmp6_steady_short e (by omega)]
    simp [h8]
  by_cases hquote : IsError6 (old.getD 0 0) → old.length < 48
  · exact iff_of_true (icmp6_steady_copied e h8 (Nat.le_refl _) hfits hquote) (.inr ⟨h8, hquote⟩)
  refine iff_of_false ?_ ?_
  swap
  · rintro (h0 | ⟨-, hq⟩)
    · omega
    · exact hquote hq
  have herr : IsError6 (old.getD 0 0) := by
    by_contra hno
    exact hquote fun he => absurd he hno
  have h48 : 48 ≤ old.length := by
    by_contra hno
    exact hquote fun _ => by omega
  obtain ⟨b0, b1, c, w, q, y, hc, hw, herr', hheaders, hq, hold, h28, hroom⟩ :=
    exists_error6 herr h48 hfits
  have h40 := quoteLen6_ge (q ++ y)
  have hlen : old.length = 8 + (q.length + y.length) := by
    rw [hold, length_icmphdr hc hw, List.length_append]
  obtain ⟨a, w', k, old', ha, hw', hk, hold', hlevel⟩ :=
    @icmp6to4Trans_level e b0 b1 c w old.length hc hw herr' q y hheaders hq
  rw [← hold] at hlevel
  have hsome (v : UInt8) : ∃ u o, nested6 e old.length (q ++ y)
      ((List.replicate old.length v).drop 28) y = some (u, o) ∧
        u.drop y.length = List.replicate (old.length - 28 - y.length) v := by
    have hdrop : ((List.replicate old.length v).drop 28).length = old.length - 28 := by simp
    have h := (nested6_isSome e (q ++ y) (@icmp6to4Trans_isSome e old.length
      ((List.replicate old.length v).drop 28) y (by omega))).mpr (hdrop ▸ hroom)
    obtain ⟨⟨u, o⟩, hu⟩ := Option.isSome_iff_exists.mp h
    obtain ⟨y', hy'⟩ := nested6_keeps e (q ++ y) (icmp6to4Trans_keeps e old.length y)
    refine ⟨u, o, hu, (hy' _ u o hu).2.2.2.trans ?_⟩
    rw [List.drop_replicate, List.drop_replicate]
  obtain ⟨u, o, hu, htail⟩ := hsome 0
  obtain ⟨u', o', hu', htail'⟩ := hsome 1
  refine not_steady_of_ne (List.length_replicate (a := (0 : UInt8)))
    (List.length_replicate (a := (1 : UInt8))) ?_
  rw [hlevel _ (by simp; omega) u o hu, hlevel _ (by simp; omega) u' o' hu']
  intro heq
  have hbytes := Option.some.inj heq
  have hbody := (List.append_inj (List.append_cancel_left hbytes) (by simp)).2
  have hsame := List.append_cancel_left (List.append_cancel_left hbody)
  rw [hsame, htail', List.replicate_inj] at htail
  rcases htail.2 with hzero | hbad
  · omega
  · exact absurd hbad (by decide)

/-- The buffer that `get_new_pktlen6to4` asks for. -/
theorem shrunk6_cases {n : Nat} {data : List UInt8} (h : shrunk6 data = some n) :
    1 ≤ data.length ∧
      ((¬IsError6 (data.getD 0 0) ∧ n = data.length) ∨
        (8 ≤ data.length ∧ n + (quoteLen6 (data.drop 8) - 20) = data.length)) := by
  obtain ⟨t, ht, h⟩ := Option.bind_eq_some_iff.mp h
  obtain ⟨hlt, -⟩ := List.getElem?_eq_some_iff.mp ht
  have hhead : data.getD 0 0 = t := by rw [List.getD_eq_getElem?_getD, ht, Option.getD_some]
  refine ⟨hlt, ?_⟩
  split at h
  · rename_i hecho
    exact .inl ⟨not_error6_of_echo (hhead ▸ hecho), (Option.some.inj h).symm⟩
  · obtain ⟨b, hb, h⟩ := Option.bind_eq_some_iff.mp h
    obtain ⟨h14, -⟩ := List.getElem?_eq_some_iff.mp hb
    rw [ICMP_HEADER_LEN] at h14
    have hquoted : (data.drop 8).getD 6 0 = b := by
      rw [ICMP_HEADER_LEN] at hb
      rw [List.getD_eq_getElem?_getD, List.getElem?_drop, hb, Option.getD_some]
    refine .inr ⟨by omega, ?_⟩
    rw [quoteLen6, hquoted]
    split at h
    · rename_i hf
      rw [if_pos hf]
      unfold sub? at h
      split at h
      · have := Option.some.inj h
        omega
      · cases h
    · rename_i hf
      rw [if_neg hf]
      unfold sub? at h
      split at h
      · have := Option.some.inj h
        omega
      · cases h

/-- An error in a buffer that is as much shorter as its quoted header. -/
theorem icmp6_steady_error {n : Nat} {old : List UInt8} (hfits : Fits6 n old)
    (herr : IsError6 (old.getD 0 0)) (h48 : 48 ≤ old.length)
    (hn : n + (quoteLen6 (old.drop 8) - 20) = old.length) :
    Steady n (fun new => (icmp6to4Trans e (old.length + 1) new old).map (·.2.1)) ↔
      (protocol6 (old.drop 8) = IPPROTO_ICMP → Clean6 (old.drop (8 + quoteLen6 (old.drop 8)))) := by
  obtain ⟨b0, b1, c, w, q, y, hc, hw, herr', hheaders, hq, hold, h28, hroom⟩ :=
    exists_error6 herr h48 hfits
  have h40 := quoteLen6_ge (q ++ y)
  have hquote : old.drop 8 = q ++ y := by rw [hold]; exact drop_icmphdr hc hw (q ++ y) 0
  have hrest : old.drop (8 + quoteLen6 (q ++ y)) = y := by
    rw [hold, drop_icmphdr hc hw, ← hq, List.drop_left' rfl]
  have hlen : old.length = 8 + (q.length + y.length) := by
    rw [hold, length_icmphdr hc hw, List.length_append]
  rw [hquote] at hn
  rw [hquote, hrest]
  have hy : n - 28 = y.length := by omega
  rw [hy] at hroom
  obtain ⟨a, w', k, old', ha, hw', hk, hold', hlevel⟩ :=
    @icmp6to4Trans_level e b0 b1 c w old.length hc hw herr' q y hheaders hq
  rw [← hold] at hlevel
  by_cases hclean : protocol6 (q ++ y) = IPPROTO_ICMP → Clean6 y
  · refine iff_of_true (steady_of_eq (fun new hnew => ?_) fun new new' hnew hnew' => ?_) hclean
    · rw [Option.isSome_map, icmp6to4Trans_isSome e (Nat.lt_succ_self _), hnew]
      exact hfits
    · have hdrop (new : List UInt8) (hnew : new.length = n) : (new.drop 28).length = y.length := by
        rw [List.length_drop, hnew, hy]
      have hsome := (nested6_isSome e (q ++ y) (@icmp6to4Trans_isSome e old.length (new.drop 28) y
        (by omega))).mpr ((hdrop new hnew).symm ▸ hroom)
      obtain ⟨⟨u, o⟩, hu⟩ := Option.isSome_iff_exists.mp hsome
      have hu' := hu
      rw [nested6_steady e (q ++ y) (by omega) (hdrop new hnew) (hdrop new' hnew') hroom hclean] at hu'
      rw [hlevel new (by omega) u o hu, hlevel new' (by omega) u o hu']
  · refine iff_of_false ?_ hclean
    rw [Classical.not_imp] at hclean
    obtain ⟨hproto, hdirty⟩ := hclean
    rw [Room, if_pos hproto] at hroom
    obtain ⟨new, new', hnew, hnew', hdiffer⟩ :=
      icmp6to4Trans_leaks e (show y.length < old.length by omega) hroom hdirty
    obtain ⟨u, u', o, hu, hu', hulen, hne⟩ := @Differ.sum_ne _ _ hdiffer [] rfl fun t ht => by
      obtain ⟨-, htnew, htold, -⟩ := icmp6to4Trans_length ht
      omega
    have hnest : ∀ new u, ((icmp6to4Trans e old.length new y).bind fun t =>
        settle (if t.1 then 8 else 0) t.2.1 t.2.2) = some (u, o) →
        nested6 e old.length (q ++ y) new y = some (u, o) := by
      intro new u h
      rw [nested6]
      simp only [hproto, if_true]
      exact h
    have hfront (new : List UInt8) : (List.replicate 28 0 ++ new).drop 28 = new := rfl
    have hlong (new : List UInt8) (hnew : new.length = y.length) :
        (List.replicate 28 0 ++ new).length = n := by
      rw [List.length_append, List.length_replicate, hnew]
      omega
    refine not_steady_of_ne (hlong new hnew) (hlong new' hnew') (Differ.ne ⟨a, w',
      header4 e (q ++ y) ++ u, header4 e (q ++ y) ++ u', old' o, _, _, ha, hw', ?_,
      hlevel _ (by rw [hlong new hnew]; omega) u o (by rw [hfront]; exact hnest new u hu),
      hlevel _ (by rw [hlong new' hnew']; omega) u' o (by rw [hfront]; exact hnest new' u' hu'),
      checksum_mod_ne ?_⟩)
    · rw [List.length_append, List.length_append, hulen]
    · rw [List.nil_append, List.nil_append] at hne
      omega

/-- A packet of ICMPv6 in the buffer that `get_new_pktlen6to4` asks for. -/
theorem shrunk6_steady_iff {n : Nat} {data : List UInt8} (hn : shrunk6 data = some n)
    (hfits : Fits6 n data) :
    Steady n (fun new => (icmp6to4Trans e (data.length + 1) new data).map (·.2.1)) ↔
      8 ≤ data.length ∧ (IsError6 (data.getD 0 0) → 48 ≤ data.length →
        protocol6 (data.drop 8) = IPPROTO_ICMP →
          Clean6 (data.drop (8 + quoteLen6 (data.drop 8)))) := by
  obtain ⟨h1, hcases⟩ := shrunk6_cases hn
  by_cases h8 : 8 ≤ data.length
  swap
  · rw [icmp6_steady_short e (by omega)]
    refine iff_of_false ?_ fun hc => h8 hc.1
    rcases hcases with ⟨-, hlen⟩ | ⟨hc, -⟩
    · omega
    · exact absurd hc h8
  by_cases hquote : IsError6 (data.getD 0 0) ∧ 48 ≤ data.length
  · obtain ⟨herr, h48⟩ := hquote
    have hlen : n + (quoteLen6 (data.drop 8) - 20) = data.length := by
      rcases hcases with ⟨hno, -⟩ | ⟨-, hlen⟩
      · exact absurd herr hno
      · exact hlen
    rw [icmp6_steady_error e hfits herr h48 hlen]
    simp only [h8, herr, h48, true_and, true_imp_iff]
  · have hle : n ≤ data.length := by
      rcases hcases with ⟨-, hlen⟩ | ⟨-, hlen⟩
      · exact Nat.le_of_eq hlen
      · omega
    refine iff_of_true (icmp6_steady_copied e h8 hle hfits fun herr => ?_)
      ⟨h8, fun herr h48 => absurd ⟨herr, h48⟩ hquote⟩
    by_contra hlt
    exact hquote ⟨herr, by omega⟩

end Icmp6

/-- Whatever was in the buffer, `netif_rx` is given the same packet. -/
def NoLeak6 (e : ByteOrder) (pkt : List UInt8) : Prop :=
  ∃ out, ∀ fresh, ip6Mapping e fresh pkt = some out

/-- The packet stays in its buffers and fills the new one. -/
def Filled6 (pkt : List UInt8) : Prop :=
  InBounds6 pkt ∧
    let data := data6 pkt
    let nexthdr := nexthdr6 pkt
    (later6 pkt = false →
      (nexthdr = IPPROTO_TCP → data.length = 0 ∨ 20 ≤ data.length) ∧
      (nexthdr = IPPROTO_UDP → data.length = 0 ∨ 8 ≤ data.length) ∧
      (nexthdr = IPPROTO_ICMPV6 → 8 ≤ data.length ∧
        (IsError6 (data.getD 0 0) → 48 ≤ data.length → protocol6 (data.drop 8) = IPPROTO_ICMP →
          Clean6 (data.drop (8 + quoteLen6 (data.drop 8))))) ∧
      (nexthdr = IPPROTO_ICMP → data.length = 0 ∨
        (8 ≤ data.length ∧ (IsError6 (data.getD 0 0) → data.length < 48))))

section Packet6

variable (e : ByteOrder) {pkt : List UInt8}

/-- Only the payload comes from the buffer. -/
theorem noLeak6_iff_steady (h : Headers6 pkt) {n : Nat}
    (hn : getNewPktlen6to4 pkt (data6 pkt) = some n) :
    ∃ saddr daddr, NoLeak6 e pkt ↔ Steady n (fun new => payload6 e pkt saddr daddr new) := by
  obtain ⟨hdr, -, hmap⟩ := ip6Mapping_eq e h
  simp only [hn, Option.bind_some] at hmap
  refine ⟨be32 (hdr n).saddr, be32 (hdr n).daddr, ?_⟩
  rw [← steady_map (g := ((hdr n).bytes ++ ·)) fun _ _ => List.append_cancel_left,
    steady_iff_fresh 20, NoLeak6]
  simp only [hmap]

/-- `data_trans6to4` of a packet of a protocol that is not looked into. -/
theorem dataTrans6to4_steady_other {protocol : UInt8} (hicmp : protocol ≠ IPPROTO_ICMP)
    (htcp : protocol ≠ IPPROTO_TCP) (hudp : protocol ≠ IPPROTO_UDP) (data saddr daddr : List UInt8) :
    Steady data.length (fun new => dataTrans6to4 e new data saddr daddr protocol) := by
  have hcopy (new : List UInt8) : dataTrans6to4 e new data saddr daddr protocol =
      some (copy new data) := by
    rw [dataTrans6to4, if_neg hicmp, if_neg htcp, if_neg hudp, poke?_copy]
  refine ⟨data, fun new hnew => ?_⟩
  dsimp only
  rw [hcopy, copy_of_le (Nat.le_of_eq hnew), hnew, List.take_length]

/-- A packet that is not a later fragment. -/
theorem payload6_steady_iff {n : Nat} (h : Headers6 pkt) (hlater : later6 pkt = false)
    (hn : getNewPktlen6to4 pkt (data6 pkt) = some n)
    (h58 : nexthdr6 pkt = IPPROTO_ICMPV6 → Fits6 n (data6 pkt))
    (hicmp : nexthdr6 pkt = IPPROTO_ICMP → Fits6 (data6 pkt).length (data6 pkt))
    (saddr daddr : List UInt8) :
    Steady n (fun new => payload6 e pkt saddr daddr new) ↔
      (nexthdr6 pkt = IPPROTO_TCP → (data6 pkt).length = 0 ∨ 20 ≤ (data6 pkt).length) ∧
      (nexthdr6 pkt = IPPROTO_UDP → (data6 pkt).length = 0 ∨ 8 ≤ (data6 pkt).length) ∧
      (nexthdr6 pkt = IPPROTO_ICMPV6 → 8 ≤ (data6 pkt).length ∧
        (IsError6 ((data6 pkt).getD 0 0) → 48 ≤ (data6 pkt).length →
          protocol6 ((data6 pkt).drop 8) = IPPROTO_ICMP →
          Clean6 ((data6 pkt).drop (8 + quoteLen6 ((data6 pkt).drop 8))))) ∧
      (nexthdr6 pkt = IPPROTO_ICMP → (data6 pkt).length = 0 ∨
        (8 ≤ (data6 pkt).length ∧ (IsError6 ((data6 pkt).getD 0 0) → (data6 pkt).length < 48))) := by
  have htrans (new : List UInt8) : payload6 e pkt saddr daddr new =
      dataTrans6to4 e new (data6 pkt) saddr daddr (protocolOf (nexthdr6 pkt)) := by
    rw [payload6, hlater, if_neg (by decide)]
    rfl
  simp only [htrans]
  rw [getNewPktlen6to4_eq h] at hn
  generalize nexthdr6 pkt = nexthdr at *
  generalize data6 pkt = data at *
  by_cases hnext : nexthdr = IPPROTO_ICMPV6
  · rw [if_pos ⟨hnext, hlater⟩] at hn
    have hproto : protocolOf IPPROTO_ICMPV6 = IPPROTO_ICMP := rfl
    have hsteady := shrunk6_steady_iff e hn (h58 hnext)
    simp only [hnext, hproto, dataTrans6to4, if_true, hsteady]
    simp [IPPROTO_ICMP, IPPROTO_TCP, IPPROTO_UDP, IPPROTO_ICMPV6]
  rw [if_neg fun hc => hnext hc.1] at hn
  obtain rfl := Option.some.inj hn
  have hproto : protocolOf nexthdr = nexthdr := if_neg hnext
  simp only [hnext, false_imp_iff, true_and, hproto]
  by_cases h1 : nexthdr = IPPROTO_ICMP
  · have hsteady := icmp6_steady_iff e (hicmp h1)
    simp only [h1, dataTrans6to4, if_true, hsteady]
    simp [IPPROTO_TCP, IPPROTO_UDP, IPPROTO_ICMP]
  by_cases htcp : nexthdr = IPPROTO_TCP
  · simp only [htcp, dataTrans6to4, if_true]
    exact (transport_steady_iff _ (by decide) data).trans (by
      simp [TCP_HEADER_LEN, IPPROTO_TCP, IPPROTO_UDP, IPPROTO_ICMP])
  by_cases hudp : nexthdr = IPPROTO_UDP
  · simp only [hudp, dataTrans6to4, if_true]
    exact (transport_steady_iff _ (by decide) data).trans (by
      simp [UDP_HEADER_LEN, IPPROTO_TCP, IPPROTO_UDP, IPPROTO_ICMP])
  · simp only [htcp, hudp, h1, false_imp_iff, and_self, iff_true]
    exact dataTrans6to4_steady_other e h1 htcp hudp data saddr daddr

end Packet6

/-- The packet that `ip6_mapping` makes does not depend on the buffer exactly
when the buffer is filled. -/
theorem noLeak6_iff (e : ByteOrder) (pkt : List UInt8) : NoLeak6 e pkt ↔ Filled6 pkt := by
  by_cases hin : InBounds6 pkt
  swap
  · refine iff_of_false ?_ fun hf => hin hf.1
    rintro ⟨out, hout⟩
    rw [← ip6Mapping_isSome_iff e (fun _ => 0) pkt, hout] at hin
    exact hin rfl
  have h := hin.1
  have hfits := (ip6Mapping_isSome e (fun _ => 0) h).mp
    ((ip6Mapping_isSome_iff e (fun _ => 0) pkt).mpr hin)
  rw [Filled6]
  simp only [hin, true_and]
  cases hlater : later6 pkt with
  | true =>
      have hn : getNewPktlen6to4 pkt (data6 pkt) = some (data6 pkt).length := by
        rw [getNewPktlen6to4_eq h, hlater, if_neg (by simp)]
      obtain ⟨saddr, daddr, hiff⟩ := noLeak6_iff_steady e h hn
      refine iff_of_true (hiff.mpr ⟨data6 pkt, fun new _ => ?_⟩) (by simp)
      exact if_pos hlater
  | false =>
      obtain ⟨h58, hicmp⟩ := hfits hlater
      obtain ⟨n, hn, hfit⟩ : ∃ n, getNewPktlen6to4 pkt (data6 pkt) = some n ∧
          (nexthdr6 pkt = IPPROTO_ICMPV6 → Fits6 n (data6 pkt)) := by
        rw [getNewPktlen6to4_eq h]
        by_cases hnext : nexthdr6 pkt = IPPROTO_ICMPV6
        · obtain ⟨n, hn, hfit⟩ := h58 hnext
          exact ⟨n, by rw [if_pos ⟨hnext, hlater⟩, hn], fun _ => hfit⟩
        · exact ⟨_, if_neg fun hc => hnext hc.1, fun hc => absurd hc hnext⟩
      obtain ⟨saddr, daddr, hiff⟩ := noLeak6_iff_steady e h hn
      rw [hiff, payload6_steady_iff e h hlater hn hfit hicmp saddr daddr]
      simp only [true_imp_iff]

/-- The packets that are handed to the stack do not depend on what the buffers
held exactly when the translation fills them. -/
theorem mapping_noLeak_iff (e : ByteOrder) (srcPrefix dstPrefix : UInt32) (pkt : List UInt8) :
    (NoLeak4 e srcPrefix dstPrefix pkt ↔ Filled4 pkt) ∧ (NoLeak6 e pkt ↔ Filled6 pkt) :=
  ⟨noLeak4_iff e srcPrefix dstPrefix pkt, noLeak6_iff e pkt⟩

/-- An ICMP timestamp request. -/
def timestampRequest : List UInt8 :=
  [0x45, 0, 0, 40, 0, 1, 0x40, 0, 64, 1, 0, 0, 10, 0, 0, 1, 10, 0, 0, 2] ++
  [13, 0, 0, 0, 0, 1, 0, 1, 0, 0, 0, 9, 0, 0, 0, 0, 0, 0, 0, 0]

/-- The first four bytes of a TCP header. -/
def tcpStub : List UInt8 :=
  [0x60, 0, 0, 0, 0, 4, 6, 64] ++ List.replicate 32 1 ++ [0, 80, 0, 81]

/-- The request is handed on with 28 bytes more than it has, and the four bytes
of the stub are not written at all. -/
theorem mapping_leaks_buffer :
    ((ipMapping .big (fun _ => 0xAA) timestampRequest 32 32).map (·.drop 60) =
        some (List.replicate 28 0xAA) ∧ ¬NoLeak4 .big 32 32 timestampRequest) ∧
      (ip6Mapping .big (fun _ => 0xAA) tcpStub).map (·.drop 20) =
        some (List.replicate 4 0xAA) ∧ ¬NoLeak6 .big tcpStub := by
  have hrequest : ipMapping .big (fun _ => 0) timestampRequest 32 32 ≠
      ipMapping .big (fun _ => 1) timestampRequest 32 32 := by decide +kernel
  have hstub : ip6Mapping .big (fun _ => 0) tcpStub ≠ ip6Mapping .big (fun _ => 1) tcpStub := by
    decide +kernel
  refine ⟨⟨by decide +kernel, ?_⟩, by decide +kernel, ?_⟩
  · rintro ⟨out, hout⟩
    exact hrequest ((hout _).trans (hout _).symm)
  · rintro ⟨out, hout⟩
    exact hstub ((hout _).trans (hout _).symm)

end UbntSdk.Ivi
