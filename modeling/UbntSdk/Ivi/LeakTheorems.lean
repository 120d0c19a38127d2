/-
UbntSdk.Ivi.LeakTheorems — which IPv4 packets are translated without a byte
of what the buffer held before.

`Steady n f` says that `f` gives the same result for every buffer of `n`
bytes. The new packet is as long as the old one or shorter at every level
behind the first quote, so copying fills the buffer there; what is left out is
the reserved byte of a fragment header. A quoted one is written over by the
level around it, but stays in the checksum of its own level, and a changed
checksum changes those around it (`icmp4to6Trans_leaks`). So the packets with
no fragment header in any quote are the steady ones (`Clean4`).
-/
import UbntSdk.Ivi.BoundsTheorems

namespace UbntSdk.Ivi

open UbntSdk.Lib

/-! ## Buffers that do not matter -/

/-- The result does not come from a buffer of `n` bytes. -/
def Steady {β : Type} (n : Nat) (f : List UInt8 → Option β) : Prop :=
  ∃ y, ∀ new, new.length = n → f new = some y

section Steady

variable {β γ : Type} {n : Nat} {f : List UInt8 → Option β}

theorem steady_of_eq (hsome : ∀ new, new.length = n → (f new).isSome)
    (heq : ∀ new new', new.length = n → new'.length = n → f new = f new') : Steady n f := by
  obtain ⟨y, hy⟩ := Option.isSome_iff_exists.mp (hsome (List.replicate n 0) (List.length_replicate ..))
  refine ⟨y, fun new hnew => ?_⟩
  rw [heq new (List.replicate n 0) hnew (List.length_replicate ..), hy]

theorem not_steady_of_ne {new new' : List UInt8} (hnew : new.length = n) (hnew' : new'.length = n)
    (hne : f new ≠ f new') : ¬Steady n f := by
  rintro ⟨y, hy⟩
  exact hne ((hy new hnew).trans (hy new' hnew').symm)

theorem steady_map {g : β → γ} (hg : Function.Injective g) :
    Steady n (fun new => (f new).map g) ↔ Steady n f := by
  constructor
  · rintro ⟨z, hz⟩
    obtain ⟨y, -, hy⟩ := Option.map_eq_some_iff.mp
      (hz (List.replicate n 0) (List.length_replicate ..))
    refine ⟨y, fun new hnew => ?_⟩
    obtain ⟨y', hf, hy'⟩ := Option.map_eq_some_iff.mp (hz new hnew)
    rw [hf, hg (hy'.trans hy.symm)]
  · rintro ⟨y, hy⟩
    refine ⟨g y, fun new hnew => ?_⟩
    simp only [hy new hnew, Option.map_some]

/-- A buffer behind `k` bytes can hold anything. -/
theorem steady_iff_fresh (k : Nat) :
    Steady n f ↔ ∃ y, ∀ fresh : Nat → UInt8, f (allocSkb (fun i => fresh (k + i)) n) = some y := by
  constructor
  · rintro ⟨y, hy⟩
    exact ⟨y, fun fresh => hy _ (allocSkb_length _ _)⟩
  · rintro ⟨y, hy⟩
    refine ⟨y, fun new hnew => ?_⟩
    obtain ⟨fresh, hfresh⟩ := exists_allocSkb new
    have hf := hy fun i => fresh (i - k)
    simp only [Nat.add_sub_cancel_left, ← hnew, hfresh] at hf
    exact hf

/-- A buffer that is handed on as it is. -/
theorem steady_some_iff : Steady n some ↔ n = 0 := by
  constructor
  · intro h
    by_contra hn
    refine not_steady_of_ne (List.length_replicate (a := (0 : UInt8)))
      (List.length_replicate (a := (1 : UInt8))) ?_ h
    rw [Ne, Option.some.injEq, List.replicate_inj]
    simp [hn]
  · rintro rfl
    exact ⟨[], fun new hnew => by rw [List.length_eq_zero_iff.mp hnew]⟩

end Steady

/-- Copying fills a buffer that is no longer than the source. -/
theorem copy_steady {new new' src : List UInt8} (hlen : new.length = new'.length)
    (hle : new.length ≤ src.length) : copy new src = copy new' src := by
  rw [copy_of_le hle, copy_of_le (hlen ▸ hle), hlen]

theorem transportTrans_steady {k check : Nat} (magic : Nat → Nat → UInt16)
    {new new' old : List UInt8} (hk : k ≤ old.length) (hlen : new.length = new'.length)
    (hle : new.length ≤ old.length) :
    transportTrans k check magic new old = transportTrans k check magic new' old := by
  rw [transportTrans_eq, transportTrans_eq, if_pos hk, if_pos hk, copy_steady hlen hle]

/-- A quoted transport header: without the whole header all is copied. -/
theorem transport_settle_steady {k check : Nat} (magic : Nat → Nat → UInt16)
    {new new' old : List UInt8} (hlen : new.length = new'.length) (hle : new.length ≤ old.length) :
    ((transportTrans k check magic new old).bind fun r => settle (if r.1 then k else 0) r.2 old) =
      (transportTrans k check magic new' old).bind fun r =>
        settle (if r.1 then k else 0) r.2 old := by
  by_cases hk : k ≤ old.length
  · rw [transportTrans_steady magic hk hlen hle]
  · rw [transportTrans_eq, transportTrans_eq, if_neg hk, if_neg hk]
    simp [settle, overlay_zero, copy_steady hlen hle]

/-! ## Quotes without fragments -/

/-- No packet that is quoted at any level is given a fragment header. -/
def Clean4 (old : List UInt8) : Prop :=
  IsError4 (old.getD 0 0) → 28 ≤ old.length →
    quoteLen4 (old.drop 8) = 40 ∧
      (nexthdrOf ((old.drop 8).getD 9 0) = IPPROTO_ICMPV6 → Clean4 (old.drop 28))
termination_by old.length
decreasing_by
  simp only [List.length_drop]
  omega

theorem clean4_icmphdr {b0 b1 : UInt8} {c w : List UInt8} (hc : c.length = 2) (hw : w.length = 4)
    (x : List UInt8) :
    Clean4 ([b0] ++ ([b1] ++ (c ++ (w ++ x)))) ↔
      (IsError4 b0 → 20 ≤ x.length →
        quoteLen4 x = 40 ∧ (nexthdrOf (x.getD 9 0) = IPPROTO_ICMPV6 → Clean4 (x.drop 20))) := by
  have hget0 : ([b0] ++ ([b1] ++ (c ++ (w ++ x)))).getD 0 0 = b0 := by simp
  have hquote : ([b0] ++ ([b1] ++ (c ++ (w ++ x)))).drop 8 = x := drop_icmphdr hc hw x 0
  have hrest : ([b0] ++ ([b1] ++ (c ++ (w ++ x)))).drop 28 = x.drop 20 := drop_icmphdr hc hw x 20
  have h28 : 28 ≤ 8 + x.length ↔ 20 ≤ x.length := by omega
  rw [Clean4, hget0, hquote, hrest, length_icmphdr hc hw, h28]

/-- How many bytes the ICMP packet `old` fills. -/
def filled4 (old : List UInt8) : Nat :=
  if IsError4 (old.getD 0 0) ∧ 28 ≤ old.length then old.length + quoteLen4 (old.drop 8) - 20
  else old.length

theorem filled4_icmphdr {b0 b1 : UInt8} {c w : List UInt8} (hc : c.length = 2) (hw : w.length = 4)
    (x : List UInt8) :
    filled4 ([b0] ++ ([b1] ++ (c ++ (w ++ x)))) =
      if IsError4 b0 ∧ 20 ≤ x.length then 8 + (x.length + quoteLen4 x - 20) else 8 + x.length := by
  have hget0 : ([b0] ++ ([b1] ++ (c ++ (w ++ x)))).getD 0 0 = b0 := by simp
  have hquote : ([b0] ++ ([b1] ++ (c ++ (w ++ x)))).drop 8 = x := drop_icmphdr hc hw x 0
  have h28 : 28 ≤ 8 + x.length ↔ 20 ≤ x.length := by omega
  rw [filled4, hget0, hquote, length_icmphdr hc hw]
  simp only [h28]
  split
  · omega
  · rfl

theorem quoteLen4_ge {x : List UInt8} (h : 20 ≤ x.length) : 40 ≤ quoteLen4 x := by
  obtain ⟨hdr, y, rfl⟩ := Iphdr.exists_append h
  rw [quoteLen4_bytes, Iphdr.headerLen6]
  split <;> omega

theorem le_filled4 (old : List UInt8) : old.length ≤ filled4 old := by
  unfold filled4
  split
  · rename_i h
    have hq := quoteLen4_ge (show 20 ≤ (old.drop 8).length by rw [List.length_drop]; omega)
    omega
  · exact Nat.le_refl _

theorem headerLen6_eq_iff {h : Iphdr} : h.headerLen6 = 40 ↔ h.extended = false := by
  rw [Iphdr.headerLen6]
  cases h.extended <;> simp

/-- The header of a quote without a fragment header. -/
theorem header6_steady {h : Iphdr} (hext : h.extended = false) (e : ByteOrder)
    (srcPrefix dstPrefix : UInt32) (supplement : Int) (was was' : List UInt8) :
    h.header6 e srcPrefix dstPrefix supplement was =
      h.header6 e srcPrefix dstPrefix supplement was' := by
  rw [Iphdr.header6, Iphdr.header6]
  simp only [hext, Bool.false_eq_true, if_false]

section Clean

variable (e : ByteOrder) (srcPrefix dstPrefix : UInt32)

theorem nested4_steady {depth : Nat} (h : Iphdr) {new new' old : List UInt8}
    (hlen : new.length = new'.length) (hle : new.length ≤ old.length)
    (hicmp : nexthdrOf h.protocol = IPPROTO_ICMPV6 → 8 ≤ old.length → ∀ src6 dst6,
      icmp4to6Trans e srcPrefix dstPrefix (depth + 1) new old src6 dst6 =
        icmp4to6Trans e srcPrefix dstPrefix (depth + 1) new' old src6 dst6) :
    nested4 e srcPrefix dstPrefix (depth + 1) h new old =
      nested4 e srcPrefix dstPrefix (depth + 1) h new' old := by
  unfold nested4
  dsimp only
  split
  · by_cases h8 : 8 ≤ old.length
    · rw [hicmp (by assumption) h8]
    · rw [icmp4to6Trans_short e srcPrefix dstPrefix depth new _ _ (by omega),
        icmp4to6Trans_short e srcPrefix dstPrefix depth new' _ _ (by omega)]
      simp [settle, overlay_zero, copy_steady hlen hle]
  split
  · exact transport_settle_steady _ hlen hle
  split
  · exact transport_settle_steady _ hlen hle
  · simp [settle, overlay_zero, copy_steady hlen hle]

/-- A clean packet is written to every byte of a buffer that is not longer
than what it fills. -/
theorem icmp4to6Trans_steady {depth : Nat} {new new' old : List UInt8} (src6 dst6 : List UInt8)
    (hd : old.length ≤ depth) (h8 : 8 ≤ old.length) (hlen : new.length = new'.length)
    (hle : new.length ≤ filled4 old) (hclean : Clean4 old) :
    icmp4to6Trans e srcPrefix dstPrefix depth new old src6 dst6 =
      icmp4to6Trans e srcPrefix dstPrefix depth new' old src6 dst6 := by
  induction depth generalizing new new' old src6 dst6 with
  | zero => omega
  | succ depth ih =>
      by_cases hn8 : 8 ≤ new.length
      swap
      · rw [icmp4to6Trans_cramped e srcPrefix dstPrefix _ src6 dst6 h8 (by omega),
          icmp4to6Trans_cramped e srcPrefix dstPrefix _ src6 dst6 h8 (by omega)]
      have hn8' := hlen ▸ hn8
      obtain ⟨b0, b1, c, w, x, hc, hw, rfl⟩ := exists_icmphdr h8
      obtain ⟨n0, n1, m, g, new, hm, hg, rfl⟩ := exists_icmphdr hn8
      obtain ⟨n0', n1', m', g', new', hm', hg', rfl⟩ := exists_icmphdr hn8'
      rw [clean4_icmphdr hc hw] at hclean
      rw [length_icmphdr hm hg, length_icmphdr hm' hg'] at hlen
      rw [length_icmphdr hm hg, filled4_icmphdr hc hw] at hle
      rw [length_icmphdr hc hw] at hd
      have hcopied (hquote : IsError4 b0 → x.length < 20) (hlook : LooksAhead b0 b1 → 8 ≤ x.length) :
          icmp4to6Trans e srcPrefix dstPrefix (depth + 1) ([n0] ++ ([n1] ++ (m ++ (g ++ new))))
              ([b0] ++ ([b1] ++ (c ++ (w ++ x)))) src6 dst6 =
            icmp4to6Trans e srcPrefix dstPrefix (depth + 1)
              ([n0'] ++ ([n1'] ++ (m' ++ (g' ++ new')))) ([b0] ++ ([b1] ++ (c ++ (w ++ x)))) src6
              dst6 := by
        rw [if_neg fun hc => Nat.not_le.mpr (hquote hc.1) hc.2] at hle
        have hcopy : copy new x = copy new' x := copy_steady (by omega) (by omega)
        rw [icmp4to6Trans_copied e srcPrefix dstPrefix depth src6 dst6 hc hw hm hg hquote hlook,
          icmp4to6Trans_copied e srcPrefix dstPrefix depth src6 dst6 hc hw hm' hg' hquote hlook, hcopy]
      by_cases herr : IsError4 b0
      swap
      · exact hcopied (fun hc => absurd hc herr) (fun hc => absurd (.inl hc.1) herr)
      by_cases hblind : LooksAhead b0 b1 ∧ x.length < 8
      · rw [icmp4to6Trans_blind e srcPrefix dstPrefix depth src6 dst6 hc hw hblind.1 hblind.2,
          icmp4to6Trans_blind e srcPrefix dstPrefix depth src6 dst6 hc hw hblind.1 hblind.2]
      by_cases hx : 20 ≤ x.length
      swap
      · exact hcopied (fun _ => by omega) fun hl => by
          by_contra hlt
          exact hblind ⟨hl, by omega⟩
      -- the quoted header
      obtain ⟨hq40, hnext⟩ := hclean herr hx
      rw [if_pos ⟨herr, hx⟩, hq40] at hle
      obtain ⟨h, y, rfl⟩ := Iphdr.exists_append hx
      rw [quoteLen4_bytes] at hq40
      rw [getD_protocol, List.drop_left' h.bytes_length] at hnext
      rw [List.length_append, h.bytes_length] at hd hle
      by_cases hroom : 40 ≤ new.length
      swap
      · rw [icmp4to6Trans_narrow e srcPrefix dstPrefix depth src6 dst6 hc hw hm hg herr h y (by omega),
          icmp4to6Trans_narrow e srcPrefix dstPrefix depth src6 dst6 hc hw hm' hg' herr h y (by omega)]
      obtain ⟨was, new, hwas, -, rfl⟩ := exists_split 40 (new.length - 40)
        (show new.length = 40 + (new.length - 40) by omega)
      obtain ⟨was', new', hwas', -, rfl⟩ := exists_split 40 (new'.length - 40)
        (show new'.length = 40 + (new'.length - 40) by omega)
      rw [List.length_append, List.length_append, hwas, hwas'] at hlen
      rw [List.length_append, hwas] at hle
      rw [icmp4to6Trans_quoted e srcPrefix dstPrefix depth src6 dst6 hc hw hm hg herr h y
          (hwas.trans hq40.symm),
        icmp4to6Trans_quoted e srcPrefix dstPrefix depth src6 dst6 hc hw hm' hg' herr h y
          (hwas'.trans hq40.symm),
        header6_steady (headerLen6_eq_iff.mp hq40) e srcPrefix dstPrefix _ was was']
      cases depth with
      | zero => omega
      | succ depth =>
          have hfill := le_filled4 y
          rw [@nested4_steady e srcPrefix dstPrefix depth h new new' y (by omega) (by omega)
            fun hicmp h8 src6 dst6 =>
              ih src6 dst6 (by omega) h8 (by omega) (by omega) (hnext hicmp)]

end Clean

/-! ## Checksums that differ -/

/-- The two results are alike up to the checksum, and what is behind the
header. -/
def Differ (r r' : Option (Bool × List UInt8 × List UInt8)) : Prop :=
  ∃ (a w z z' o : List UInt8) (c c' : UInt16), a.length = 2 ∧ w.length = 4 ∧ z.length = z'.length ∧
    r = some (true, a ++ (word16 .big c ++ (w ++ z)), o) ∧
    r' = some (true, a ++ (word16 .big c' ++ (w ++ z')), o) ∧ c.toNat % 65535 ≠ c'.toNat % 65535

theorem Differ.ne {r r' : Option (Bool × List UInt8 × List UInt8)} (h : Differ r r') :
    r.map (·.2.1) ≠ r'.map (·.2.1) := by
  obtain ⟨a, w, z, z', o, c, c', ha, hw, hz, rfl, rfl, hne⟩ := h
  intro heq
  have hbytes := Option.some.inj heq
  have hfield := (List.append_inj (List.append_cancel_left hbytes) (by simp)).1
  have hc : c = c' := by rw [← ofWord16_word16 .big c, hfield, ofWord16_word16]
  exact hne (by rw [hc])

/-- Contents that add up to something else are sealed with another checksum. -/
theorem differ_sealed {magic : Nat → Nat → UInt16}
    (hmagic : ∀ len, ∃ k, ∀ sum, magic len sum = checksum (k + sum)) {a w z z' : List UInt8}
    (ha : a.length = 2) (hw : w.length = 4) (hz : z.length = z'.length)
    (hsum : sum16 z % 65535 ≠ sum16 z' % 65535) (o : List UInt8) :
    Differ (some (true, sealed magic a (w ++ z), o)) (some (true, sealed magic a (w ++ z'), o)) := by
  obtain ⟨k, hk⟩ := hmagic (a.length + (2 + (w ++ z).length))
  have hlen : a.length + (2 + (w ++ z').length) = a.length + (2 + (w ++ z).length) := by simp [hz]
  have hsplit (z : List UInt8) : sum16 (a ++ ([0, 0] ++ (w ++ z))) = sum16 a + (sum16 w + sum16 z) := by
    rw [sum16_append (by omega), sum16_append (by simp), sum16_append (by omega)]
    simp [sum16]
  refine ⟨a, w, z, z', o, _, _, ha, hw, hz, rfl, rfl, ?_⟩
  rw [hlen, hk, hk, hsplit, hsplit]
  exact checksum_mod_ne (by omega)

/-- A quoted header stays, and the rest is written over. -/
theorem settle_header {a w z o : List UInt8} {c : UInt16} (ha : a.length = 2) (hw : w.length = 4) :
    settle 8 (a ++ (word16 .big c ++ (w ++ z))) o =
      some (a ++ (word16 .big c ++ (w ++ copy z (o.drop 8))), o) := by
  have hcut : a ++ (word16 .big c ++ (w ++ z)) = (a ++ (word16 .big c ++ w)) ++ z := by simp
  have hlen : (a ++ (word16 .big c ++ w)).length = 8 := by simp [ha, hw]
  rw [settle, if_pos (by simp [ha, hw]; omega), overlay, hcut, List.take_left' hlen,
    List.drop_left' hlen]
  simp

/-- Another checksum in a quoted header. -/
theorem Differ.sum_ne {r r' : Option (Bool × List UInt8 × List UInt8)} (h : Differ r r') {q : List UInt8}
    (hq : q.length % 2 = 0)
    (hfull : ∀ t, r = some t → t.2.1.length ≤ t.2.2.length) :
    ∃ u u' o, (r.bind fun t => settle (if t.1 then 8 else 0) t.2.1 t.2.2) = some (u, o) ∧
      (r'.bind fun t => settle (if t.1 then 8 else 0) t.2.1 t.2.2) = some (u', o) ∧
      u.length = u'.length ∧ sum16 (q ++ u) % 65535 ≠ sum16 (q ++ u') % 65535 := by
  obtain ⟨a, w, z, z', o, c, c', ha, hw, hz, rfl, rfl, hne⟩ := h
  have hle := hfull _ rfl
  simp only [List.length_append, ha, hw, word16_length] at hle
  have hsettle (c : UInt16) (z : List UInt8) := @settle_header a w z o c ha hw
  have hcopy : copy z' (o.drop 8) = copy z (o.drop 8) := by
    refine copy_steady hz.symm ?_
    rw [List.length_drop]
    omega
  have hsum (c : UInt16) (z : List UInt8) :
      sum16 (q ++ (a ++ (word16 .big c ++ (w ++ z)))) =
        sum16 q + (sum16 a + (c.toNat + (sum16 w + sum16 z))) := by
    rw [sum16_append hq, sum16_append (by omega), sum16_append (by simp), sum16_append (by omega),
      sum16_word16]
  refine ⟨_, _, o, hsettle c z, (hsettle c' z').trans (by rw [hcopy]), by simp, ?_⟩
  rw [hsum, hsum]
  omega

section Dirty

variable (e : ByteOrder) (srcPrefix dstPrefix : UInt32)

theorem magic6_eq (src6 dst6 : List UInt8) (len : Nat) :
    ∃ k, ∀ sum, magic6 src6 dst6 len sum = checksum (k + sum) :=
  ⟨sum16 src6 + sum16 dst6 + len + IPPROTO_ICMPV6.toNat, fun _ => rfl⟩

/-- The reserved byte is in the sum. -/
theorem sum16_header6 {h : Iphdr} (hext : h.extended = true) (supplement : Int)
    (was u : List UInt8) :
    sum16 (h.header6 e srcPrefix dstPrefix supplement was ++ u) =
      sum16 (h.header6 e srcPrefix dstPrefix supplement [] ++ u) + (was.getD 41 0).toNat := by
  have hfrag (r : UInt8) : sum16 (h.frag6 e r).bytes = sum16 (h.frag6 e 0).bytes + r.toNat := by
    simp [FragHdr.bytes, Iphdr.frag6, sum16]
    omega
  rw [Iphdr.header6, Iphdr.header6, if_pos hext, if_pos hext, sum16_append (by simp),
    sum16_append (by simp), sum16_append (by simp), sum16_append (by simp), hfrag]
  simp
  omega

/-- A level differs when its quote does. -/
theorem icmp4to6Trans_differ {depth : Nat} (src6 dst6 : List UInt8) {b0 b1 : UInt8}
    {c w : List UInt8} (hc : c.length = 2) (hw : w.length = 4) (herr : IsError4 b0) (h : Iphdr)
    (y : List UInt8) {was was' new new' u u' o : List UInt8} (hwas : was.length = h.headerLen6)
    (hwas' : was'.length = h.headerLen6)
    (hu : nested4 e srcPrefix dstPrefix depth h new y = some (u, o))
    (hu' : nested4 e srcPrefix dstPrefix depth h new' y = some (u', o)) (hlen : u.length = u'.length)
    (hsum : sum16 (h.header6 e srcPrefix dstPrefix (h.headerLen6 - IPV6_HEADER_LEN) was ++ u) % 65535 ≠
      sum16 (h.header6 e srcPrefix dstPrefix (h.headerLen6 - IPV6_HEADER_LEN) was' ++ u') % 65535) :
    Differ
      (icmp4to6Trans e srcPrefix dstPrefix (depth + 1) (List.replicate 8 0 ++ (was ++ new))
        ([b0] ++ ([b1] ++ (c ++ (w ++ (h.bytes ++ y))))) src6 dst6)
      (icmp4to6Trans e srcPrefix dstPrefix (depth + 1) (List.replicate 8 0 ++ (was' ++ new'))
        ([b0] ++ ([b1] ++ (c ++ (w ++ (h.bytes ++ y))))) src6 dst6) := by
  have hblank (z : List UInt8) : List.replicate 8 0 ++ z =
      [0] ++ ([0] ++ (List.replicate 2 0 ++ (List.replicate 4 0 ++ z))) := rfl
  have hw' := head4_length e b0 b1 hw (h.bytes ++ y)
  rw [hblank, hblank,
    icmp4to6Trans_quoted e srcPrefix dstPrefix depth src6 dst6 hc hw (by rfl) (by rfl) herr h y hwas,
    icmp4to6Trans_quoted e srcPrefix dstPrefix depth src6 dst6 hc hw (by rfl) (by rfl) herr h y hwas',
    hu, hu']
  generalize head4 e b0 b1 w (h.bytes ++ y) = r at hw' ⊢
  obtain ⟨t, code, w'⟩ := r
  exact differ_sealed (magic6_eq src6 dst6) rfl hw' (by simp [hlen]) hsum _

/-- A packet that is not clean is sealed with something from the buffer. -/
theorem icmp4to6Trans_leaks {depth n : Nat} {old : List UInt8} (src6 dst6 : List UInt8)
    (hd : old.length < depth) (hle : n ≤ filled4 old) (hfits : Fits4 n old)
    (hdirty : ¬Clean4 old) :
    ∃ new new' : List UInt8, new.length = n ∧ new'.length = n ∧
      Differ (icmp4to6Trans e srcPrefix dstPrefix depth new old src6 dst6)
        (icmp4to6Trans e srcPrefix dstPrefix depth new' old src6 dst6) := by
  induction depth generalizing n old src6 dst6 with
  | zero => omega
  | succ depth ih =>
      have h28 : 28 ≤ old.length := by
        by_contra hlt
        exact hdirty (by rw [Clean4]; intro _ h28; exact absurd h28 hlt)
      have hn8 : 8 ≤ n := by
        rw [Fits4] at hfits
        exact (hfits (by omega)).1
      obtain ⟨b0, b1, c, w, x, hc, hw, rfl⟩ := exists_icmphdr (show 8 ≤ old.length by omega)
      obtain ⟨n, rfl⟩ : ∃ k, n = 8 + k := ⟨n - 8, by omega⟩
      rw [clean4_icmphdr hc hw] at hdirty
      rw [fits4_icmphdr hc hw] at hfits
      rw [length_icmphdr hc hw] at hd h28
      have hx : 20 ≤ x.length := by omega
      have herr : IsError4 b0 := by
        by_contra hno
        exact hdirty fun he => absurd he hno
      rw [filled4_icmphdr hc hw, if_pos ⟨herr, hx⟩] at hle
      obtain ⟨hroom, hinner⟩ := (hfits herr).2 hx
      obtain ⟨h, y, rfl⟩ := Iphdr.exists_append hx
      rw [quoteLen4_bytes] at hdirty hroom hinner hle
      rw [getD_protocol, List.drop_left' h.bytes_length] at hdirty hinner
      rw [List.length_append, h.bytes_length] at hd hle
      have hh40 : 40 ≤ h.headerLen6 := by
        unfold Iphdr.headerLen6
        split <;> omega
      have hnested (new : List UInt8) (hnew : new.length = n - h.headerLen6) :
          (nested4 e srcPrefix dstPrefix depth h new y).isSome := by
        rw [nested4_isSome e srcPrefix dstPrefix h fun src6 dst6 =>
          icmp4to6Trans_isSome e srcPrefix dstPrefix src6 dst6 (by omega), hnew]
        exact hinner
      cases hext : h.extended with
      | true =>
          -- two buffers that differ in the reserved byte
          have h48 : h.headerLen6 = 48 := if_pos hext
          obtain ⟨⟨u, o⟩, hu⟩ := Option.isSome_iff_exists.mp
            (hnested (List.replicate (n - h.headerLen6) 0) (List.length_replicate ..))
          refine ⟨List.replicate 8 0 ++ (List.replicate 48 0 ++ List.replicate (n - h.headerLen6) 0),
            List.replicate 8 0 ++ (List.replicate 48 1 ++ List.replicate (n - h.headerLen6) 0), ?_, ?_,
            icmp4to6Trans_differ e srcPrefix dstPrefix src6 dst6 hc hw herr h y
              (by simp [h48]) (by simp [h48]) hu hu rfl ?_⟩
          · simp only [List.length_append, List.length_replicate]
            omega
          · simp only [List.length_append, List.length_replicate]
            omega
          · have h0 : ((List.replicate 48 (0 : UInt8)).getD 41 0).toNat = 0 := rfl
            have h1 : ((List.replicate 48 (1 : UInt8)).getD 41 0).toNat = 1 := rfl
            rw [sum16_header6 e srcPrefix dstPrefix hext _ (List.replicate 48 0),
              sum16_header6 e srcPrefix dstPrefix hext _ (List.replicate 48 1), h0, h1]
            omega
      | false =>
          have hh : h.headerLen6 = 40 := headerLen6_eq_iff.mpr hext
          obtain ⟨hicmp, hdirty'⟩ : nexthdrOf h.protocol = IPPROTO_ICMPV6 ∧ ¬Clean4 y := by
            by_contra hno
            refine hdirty fun _ _ => ⟨hh, fun hicmp => ?_⟩
            by_contra hd'
            exact hno ⟨hicmp, hd'⟩
          rw [Room, if_pos hicmp] at hinner
          have hfill := le_filled4 y
          obtain ⟨new, new', hnew, hnew', hdiffer⟩ := ih (mapped e h.saddr srcPrefix).1
            (mapped e h.daddr dstPrefix).1 (by omega) (by omega) hinner hdirty'
          have hfull : ∀ t, icmp4to6Trans e srcPrefix dstPrefix depth new y
              (mapped e h.saddr srcPrefix).1 (mapped e h.daddr dstPrefix).1 = some t →
              t.2.1.length ≤ t.2.2.length := by
            intro t ht
            obtain ⟨-, h1, h2, -⟩ := icmp4to6Trans_length ht
            omega
          obtain ⟨u, u', o, hu, hu', hlen, hsum⟩ := hdiffer.sum_ne
            (show (h.header6 e srcPrefix dstPrefix (h.headerLen6 - IPV6_HEADER_LEN)
              (List.replicate h.headerLen6 0)).length % 2 = 0 by rw [h.header6_length, hh]) hfull
          have hquoted (new : List UInt8) : nested4 e srcPrefix dstPrefix depth h new y = _ :=
            if_pos hicmp
          refine ⟨List.replicate 8 0 ++ (List.replicate h.headerLen6 0 ++ new),
            List.replicate 8 0 ++ (List.replicate h.headerLen6 0 ++ new'), ?_, ?_,
            icmp4to6Trans_differ e srcPrefix dstPrefix src6 dst6 hc hw herr h y (by simp) (by simp)
              ((hquoted new).trans hu) ((hquoted new').trans hu') hlen hsum⟩
          · simp only [List.length_append, List.length_replicate]
            omega
          · simp only [List.length_append, List.length_replicate]
            omega

end Dirty

/-! ## Packets -/

/-- A transport packet is steady with its header or without a byte. -/
theorem transport_steady_iff {k check : Nat} (magic : Nat → Nat → UInt16) (hk : check + 2 ≤ k)
    (data : List UInt8) :
    Steady data.length (fun new => (transportTrans k check magic new data).map (·.2)) ↔
      data.length = 0 ∨ k ≤ data.length := by
  by_cases hlong : k ≤ data.length
  · simp only [hlong, or_true, iff_true]
    refine steady_of_eq (fun new hnew => ?_) fun new new' hnew hnew' => ?_
    · rw [Option.isSome_map]
      exact (transportTrans_isSome magic).mpr fun _ => by omega
    · rw [transportTrans_steady magic hlong (hnew.trans hnew'.symm) (Nat.le_of_eq hnew)]
  · have hsame : (fun new => (transportTrans k check magic new data).map (·.2)) = some := by
      funext new
      rw [transportTrans_eq, if_neg hlong]
      rfl
    rw [hsame, steady_some_iff]
    simp [hlong]

/-- A buffer that is longer than what is copied. -/
theorem not_steady_copied (magic : Nat → Nat → UInt16) {n : Nat} {a w x : List UInt8}
    {f : List UInt8 → Option (List UInt8)} (hx : x.length < n)
    (hf : ∀ new, new.length = n → ∃ head : List UInt8, head.length = 8 ∧
      f (head ++ new) = some (sealed magic a (w ++ copy new x))) :
    ¬Steady (8 + n) f := by
  obtain ⟨head, hhead, h0⟩ := hf (List.replicate n 0) (List.length_replicate ..)
  obtain ⟨head', hhead', h1⟩ := hf (List.replicate n 1) (List.length_replicate ..)
  refine @not_steady_of_ne _ _ _ (head ++ List.replicate n 0) (head' ++ List.replicate n 1)
    (by simp [hhead]) (by simp [hhead']) ?_
  rw [h0, h1]
  intro heq
  have hbytes := Option.some.inj heq
  rw [sealed, sealed] at hbytes
  have htail := List.append_cancel_left
    (List.append_inj (List.append_cancel_left hbytes) (by simp)).2
  rw [copy_of_ge (by simp; omega), copy_of_ge (by simp; omega)] at htail
  have hrest := List.append_cancel_left htail
  simp only [List.drop_replicate] at hrest
  rw [List.replicate_inj] at hrest
  rcases hrest.2 with hzero | hbad
  · omega
  · exact absurd hbad (by decide)

section Icmp

variable (e : ByteOrder) (srcPrefix dstPrefix : UInt32) (src6 dst6 : List UInt8)

/-- An ICMP packet in a buffer that it fills. -/
theorem icmp4_steady_iff {n : Nat} {old : List UInt8} (hfits : Fits4 n old) (hle : n ≤ filled4 old) :
    Steady n (fun new => (icmp4to6Trans e srcPrefix dstPrefix (old.length + 1) new old src6 dst6).map
      (·.2.1)) ↔ (n = 0 ∨ 8 ≤ old.length) ∧ Clean4 old := by
  by_cases h8 : 8 ≤ old.length
  swap
  · have hsame : (fun new => (icmp4to6Trans e srcPrefix dstPrefix (old.length + 1) new old src6
        dst6).map (·.2.1)) = some := by
      funext new
      rw [icmp4to6Trans_short e srcPrefix dstPrefix old.length new src6 dst6 (by omega)]
      rfl
    have hclean : Clean4 old := by
      rw [Clean4]
      intro _ h28
      omega
    rw [hsame, steady_some_iff]
    simp [h8, hclean]
  by_cases hclean : Clean4 old
  · refine iff_of_true (steady_of_eq (fun new hnew => ?_) fun new new' hnew hnew' => ?_)
      ⟨.inr h8, hclean⟩
    · rw [Option.isSome_map, icmp4to6Trans_isSome e srcPrefix dstPrefix src6 dst6
        (Nat.lt_succ_self _), hnew]
      exact hfits
    · rw [icmp4to6Trans_steady e srcPrefix dstPrefix src6 dst6 (by omega) h8
        (hnew.trans hnew'.symm) (hnew ▸ hle) hclean]
  · refine iff_of_false ?_ fun hc => hclean hc.2
    obtain ⟨new, new', hnew, hnew', hdiffer⟩ := icmp4to6Trans_leaks e srcPrefix dstPrefix src6 dst6
      (Nat.lt_succ_self _) hle hfits hclean
    exact not_steady_of_ne hnew hnew' hdiffer.ne

/-- An ICMP packet without a quote does not fill a longer buffer. -/
theorem icmp4_not_steady {n : Nat} {old : List UInt8} (h8 : 8 ≤ old.length) (hn : old.length < n)
    (hquote : IsError4 (old.getD 0 0) → old.length < 28)
    (hlook : LooksAhead (old.getD 0 0) (old.getD 1 0) → 16 ≤ old.length) :
    ¬Steady n (fun new =>
      (icmp4to6Trans e srcPrefix dstPrefix (old.length + 1) new old src6 dst6).map (·.2.1)) := by
  obtain ⟨b0, b1, c, w, x, hc, hw, rfl⟩ := exists_icmphdr h8
  obtain ⟨n, rfl⟩ : ∃ k, n = 8 + k := ⟨n - 8, by omega⟩
  have hget0 : ([b0] ++ ([b1] ++ (c ++ (w ++ x)))).getD 0 0 = b0 := by simp
  have hget1 : ([b0] ++ ([b1] ++ (c ++ (w ++ x)))).getD 1 0 = b1 := by simp
  rw [hget0] at hquote hlook
  rw [hget1] at hlook
  rw [length_icmphdr hc hw] at hn hquote hlook
  refine @not_steady_copied (magic6 src6 dst6) n
    [(head4 e b0 b1 w x).1, (head4 e b0 b1 w x).2.1] (head4 e b0 b1 w x).2.2 x _ (by omega)
    fun new hnew => ⟨[0] ++ ([0] ++ (List.replicate 2 0 ++ List.replicate 4 0)), rfl, ?_⟩
  have hcopied := @icmp4to6Trans_copied e srcPrefix dstPrefix
    ([b0] ++ ([b1] ++ (c ++ (w ++ x)))).length src6 dst6 b0 b1 0 0 c w (List.replicate 2 0)
    (List.replicate 4 0) hc hw rfl rfl x (fun herr => by have := hquote herr; omega)
    (fun hl => by have := hlook hl; omega) new
  simp only [List.append_assoc] at hcopied ⊢
  rw [hcopied]
  rfl

end Icmp

/-- Whatever was in the buffer, `netif_rx` is given the same packet. -/
def NoLeak4 (e : ByteOrder) (srcPrefix dstPrefix : UInt32) (pkt : List UInt8) : Prop :=
  ∃ out, ∀ fresh, ipMapping e fresh pkt srcPrefix dstPrefix = some out

/-- The packet stays in its buffers and fills the new one: it has no fragment
header, and what is behind the header is translated to the end. -/
def Filled4 (pkt : List UInt8) : Prop :=
  InBounds4 pkt ∧ quoteLen4 pkt = 40 ∧
    let data := pkt.drop 20
    let protocol := pkt.getD 9 0
    ((load16? .big pkt 6).getD 0 &&& 0x1FFF = 0 →
      (protocol = IPPROTO_TCP → data.length = 0 ∨ 20 ≤ data.length) ∧
      (protocol = IPPROTO_UDP → data.length = 0 ∨ 8 ≤ data.length) ∧
      (protocol = IPPROTO_ICMP → 8 ≤ data.length ∧
        ((data.getD 0 0 = ICMP_ECHO ∨ data.getD 0 0 = ICMP_ECHOREPLY) ∨
          (IsError4 (data.getD 0 0) ∧ 28 ≤ data.length ∧ Clean4 data))) ∧
      (protocol = IPPROTO_ICMPV6 → (data.length = 0 ∨ 8 ≤ data.length) ∧ Clean4 data))

section Packet4

variable (e : ByteOrder) (srcPrefix dstPrefix : UInt32) (h : Iphdr) (data : List UInt8)

/-- Only the reserved byte and the payload come from the buffer. -/
theorem noLeak4_iff_steady :
    NoLeak4 e srcPrefix dstPrefix (h.bytes ++ data) ↔
      h.extended = false ∧ ∃ n, getNewPktlen4to6 (h.bytes ++ data) data = some n ∧
        Steady n (fun new => payload4 e srcPrefix dstPrefix h new data) := by
  cases hn : getNewPktlen4to6 (h.bytes ++ data) data with
  | none =>
      refine iff_of_false ?_ (by simp)
      rintro ⟨out, hout⟩
      have hzero := hout fun _ => 0
      rw [ipMapping_eq, hn] at hzero
      cases hzero
  | some n =>
      have hmap (fresh : Nat → UInt8) := ipMapping_eq e fresh h data srcPrefix dstPrefix
      simp only [hn, Option.bind_some] at hmap
      constructor
      · rintro ⟨out, hout⟩
        simp only [hmap, Option.map_eq_some_iff] at hout
        have hext : h.extended = false := by
          by_contra hno
          have hext : h.extended = true := by simpa using hno
          have h48 : h.headerLen6 = 48 := if_pos hext
          obtain ⟨body, -, h0⟩ := hout fun _ => 0
          obtain ⟨body', -, h1⟩ := hout fun _ => 1
          have hheader := congrArg sum16 (List.append_inj (h0.trans h1.symm) (by simp)).1
          have hsum := fun was => sum16_header6 e srcPrefix dstPrefix hext
            ((n : Int) - data.length + h.headerLen6 - IPV6_HEADER_LEN) was []
          simp only [List.append_nil] at hsum
          rw [hsum (allocSkb (fun _ => 0) _), hsum (allocSkb (fun _ => 1) _),
            getD_allocSkb _ (by omega), getD_allocSkb _ (by omega)] at hheader
          simp at hheader
        refine ⟨hext, n, rfl, (steady_iff_fresh h.headerLen6).mpr ⟨out.drop h.headerLen6, fun fresh => ?_⟩⟩
        obtain ⟨body, hbody, hcut⟩ := hout fresh
        rw [hbody, ← hcut, List.drop_left' (h.header6_length ..)]
      · rintro ⟨hext, m, hm, y, hy⟩
        obtain rfl := Option.some.inj hm
        dsimp only at hy
        refine ⟨h.header6 e srcPrefix dstPrefix
          ((n : Int) - data.length + h.headerLen6 - IPV6_HEADER_LEN) [] ++ y, fun fresh => ?_⟩
        rw [hmap, hy _ (allocSkb_length _ _), Option.map_some,
          header6_steady hext e srcPrefix dstPrefix _ _ []]

/-- `data_trans4to6` of a packet of a protocol that is not looked into. -/
theorem dataTrans4to6_steady_other {nexthdr : UInt8} (h58 : nexthdr ≠ IPPROTO_ICMPV6)
    (htcp : nexthdr ≠ IPPROTO_TCP) (hudp : nexthdr ≠ IPPROTO_UDP) (saddr daddr : List UInt8) :
    Steady data.length
      (fun new => dataTrans4to6 e new data saddr daddr srcPrefix dstPrefix nexthdr) := by
  have hcopy (new : List UInt8) : dataTrans4to6 e new data saddr daddr srcPrefix dstPrefix nexthdr =
      some (copy new data) := by
    rw [dataTrans4to6, if_neg h58, if_neg htcp, if_neg hudp, poke?_copy]
  refine ⟨data, fun new hnew => ?_⟩
  dsimp only
  rw [hcopy, copy_of_le (Nat.le_of_eq hnew), hnew, List.take_length]

/-- An ICMP packet in the buffer that `get_new_pktlen4to6` asks for. -/
theorem grown4_steady_iff {n : Nat} (hn : grown4 data = some n) (hfits : Fits4 n data)
    (saddr daddr : List UInt8) :
    Steady n (fun new => (icmp4to6Trans e srcPrefix dstPrefix (data.length + 1) new data saddr
      daddr).map (·.2.1)) ↔
      8 ≤ data.length ∧ ((data.getD 0 0 = ICMP_ECHO ∨ data.getD 0 0 = ICMP_ECHOREPLY) ∨
        (IsError4 (data.getD 0 0) ∧ 28 ≤ data.length ∧ Clean4 data)) := by
  obtain ⟨h1, hlong⟩ := (grown4_fits_iff data).mp ⟨n, hn, hfits⟩
  rw [grown4, get_head h1] at hn
  simp only [Option.bind_eq_bind, Option.bind_some] at hn
  by_cases hecho : data.getD 0 0 = ICMP_ECHO ∨ data.getD 0 0 = ICMP_ECHOREPLY
  · rw [if_pos hecho] at hn
    obtain rfl := Option.some.inj hn
    have hno := not_error4_of_echo hecho
    have hclean : Clean4 data := by
      rw [Clean4]
      intro herr
      exact absurd herr hno
    have hzero : data.length ≠ 0 := by omega
    rw [icmp4_steady_iff e srcPrefix dstPrefix saddr daddr hfits (le_filled4 data)]
    simp only [hecho, hclean, hzero, true_or, false_or, and_true]
  · rw [if_neg hecho] at hn
    obtain ⟨k, hk, hn⟩ := Option.bind_eq_some_iff.mp hn
    obtain ⟨h16, -⟩ := hlong hecho
    have hq : quoteLen4 (data.drop 8) = k := congrArg (Option.getD · 0) hk
    have hlen : data.length + k - 20 = n := Option.some.inj hn
    have h40 := le_of_getNewHeaderlen4to6 hk
    by_cases hquote : IsError4 (data.getD 0 0) ∧ 28 ≤ data.length
    · have hfill : filled4 data = n := by rw [filled4, if_pos hquote, hq, hlen]
      have h8 : 8 ≤ data.length := by omega
      rw [icmp4_steady_iff e srcPrefix dstPrefix saddr daddr hfits (Nat.le_of_eq hfill.symm)]
      simp only [hecho, hquote.1, hquote.2, h8, or_true, true_and, false_or]
    · refine iff_of_false ?_ ?_
      · refine icmp4_not_steady e srcPrefix dstPrefix saddr daddr (by omega) (by omega)
          (fun herr => ?_) fun _ => h16
        by_contra hlt
        exact hquote ⟨herr, by omega⟩
      · rintro ⟨-, hc | ⟨herr, h28, -⟩⟩
        · exact hecho hc
        · exact hquote ⟨herr, h28⟩

/-- A packet from offset 0 without a fragment header. -/
theorem payload4_steady_iff {n : Nat} (hoff : h.offset = 0)
    (hn : getNewPktlen4to6 (h.bytes ++ data) data = some n)
    (hicmp : h.protocol = IPPROTO_ICMP → Fits4 n data)
    (h58 : h.protocol = IPPROTO_ICMPV6 → Fits4 data.length data) :
    Steady n (fun new => payload4 e srcPrefix dstPrefix h new data) ↔
      (h.protocol = IPPROTO_TCP → data.length = 0 ∨ 20 ≤ data.length) ∧
      (h.protocol = IPPROTO_UDP → data.length = 0 ∨ 8 ≤ data.length) ∧
      (h.protocol = IPPROTO_ICMP → 8 ≤ data.length ∧
        ((data.getD 0 0 = ICMP_ECHO ∨ data.getD 0 0 = ICMP_ECHOREPLY) ∨
          (IsError4 (data.getD 0 0) ∧ 28 ≤ data.length ∧ Clean4 data))) ∧
      (h.protocol = IPPROTO_ICMPV6 → (data.length = 0 ∨ 8 ≤ data.length) ∧ Clean4 data) := by
  have htrans (new : List UInt8) : payload4 e srcPrefix dstPrefix h new data =
      dataTrans4to6 e new data (mapped e h.saddr srcPrefix).1 (mapped e h.daddr dstPrefix).1
        srcPrefix dstPrefix (nexthdrOf h.protocol) := if_neg (not_not.mpr hoff)
  simp only [htrans]
  rw [getNewPktlen4to6_eq] at hn
  generalize (mapped e h.saddr srcPrefix).1 = src, (mapped e h.daddr dstPrefix).1 = dst
  by_cases h1 : h.protocol = IPPROTO_ICMP
  · rw [if_pos ⟨h1, hoff⟩] at hn
    have hnext : nexthdrOf IPPROTO_ICMP = IPPROTO_ICMPV6 := rfl
    have hsteady := grown4_steady_iff e srcPrefix dstPrefix data hn (hicmp h1) src dst
    simp only [h1, hnext, dataTrans4to6, if_true, hsteady]
    simp [IPPROTO_ICMP, IPPROTO_TCP, IPPROTO_UDP, IPPROTO_ICMPV6]
  rw [if_neg fun hc => h1 hc.1] at hn
  obtain rfl := Option.some.inj hn
  have hnext : nexthdrOf h.protocol = h.protocol := if_neg h1
  simp only [h1, false_imp_iff, true_and, hnext]
  by_cases h58' : h.protocol = IPPROTO_ICMPV6
  · have hsteady := icmp4_steady_iff e srcPrefix dstPrefix src dst (h58 h58') (le_filled4 data)
    simp only [h58', dataTrans4to6, if_true, hsteady]
    simp [IPPROTO_TCP, IPPROTO_UDP, IPPROTO_ICMPV6]
  by_cases htcp : h.protocol = IPPROTO_TCP
  · simp only [htcp, dataTrans4to6, if_true]
    exact (transport_steady_iff _ (by decide) data).trans (by
      simp [TCP_HEADER_LEN, IPPROTO_TCP, IPPROTO_UDP, IPPROTO_ICMPV6])
  by_cases hudp : h.protocol = IPPROTO_UDP
  · simp only [hudp, dataTrans4to6, if_true]
    exact (transport_steady_iff _ (by decide) data).trans (by
      simp [UDP_HEADER_LEN, IPPROTO_TCP, IPPROTO_UDP, IPPROTO_ICMPV6])
  · simp only [htcp, hudp, h58', false_imp_iff, and_self, iff_true]
    exact dataTrans4to6_steady_other e srcPrefix dstPrefix data h58' htcp hudp src dst

end Packet4

/-- The packet that `ip_mapping` makes does not depend on the buffer exactly
when the buffer is filled. -/
theorem noLeak4_iff (e : ByteOrder) (srcPrefix dstPrefix : UInt32) (pkt : List UInt8) :
    NoLeak4 e srcPrefix dstPrefix pkt ↔ Filled4 pkt := by
  by_cases hin : InBounds4 pkt
  swap
  · refine iff_of_false ?_ fun hf => hin hf.1
    rintro ⟨out, hout⟩
    rw [← ipMapping_isSome_iff e (fun _ => 0) pkt srcPrefix dstPrefix, hout] at hin
    exact hin rfl
  obtain ⟨h, data, rfl⟩ := Iphdr.exists_append hin.1
  rw [noLeak4_iff_steady, Filled4, quoteLen4_bytes, headerLen6_eq_iff, h.load_fragOff, getD_protocol,
    List.drop_left' h.bytes_length]
  simp only [hin, true_and, Option.getD_some, h.offset_eq_zero_iff]
  refine and_congr_right fun _ => ?_
  have hfits := (ipMapping_isSome e (fun _ => 0) h data srcPrefix dstPrefix).mp
    ((ipMapping_isSome_iff e (fun _ => 0) _ srcPrefix dstPrefix).mpr hin)
  by_cases hoff : h.offset = 0
  swap
  · simp only [hoff, false_imp_iff, iff_true]
    refine ⟨data.length, ?_, data, fun new _ => if_pos hoff⟩
    rw [getNewPktlen4to6_eq, if_neg fun hc => hoff hc.2]
  obtain ⟨hicmp, h58⟩ := hfits hoff
  obtain ⟨n, hn, hfit⟩ : ∃ n, getNewPktlen4to6 (h.bytes ++ data) data = some n ∧
      (h.protocol = IPPROTO_ICMP → Fits4 n data) := by
    rw [getNewPktlen4to6_eq]
    by_cases h1 : h.protocol = IPPROTO_ICMP
    · obtain ⟨n, hn, hfit⟩ := hicmp h1
      exact ⟨n, by rw [if_pos ⟨h1, hoff⟩, hn], fun _ => hfit⟩
    · exact ⟨data.length, if_neg fun hc => h1 hc.1, fun hc => absurd hc h1⟩
  simp only [hoff, true_imp_iff, hn, Option.some.injEq, exists_eq_left',
    payload4_steady_iff e srcPrefix dstPrefix h data hoff hn hfit h58]

end UbntSdk.Ivi
