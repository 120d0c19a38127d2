/-
UbntSdk.Wprobe.FilterTheorems — what a filter that `wprobe_check_filter`
accepts may do to `wprobe_set_filter`.

`groupBlocks` is the format: the headers and instruction blocks that a blob
describes, read in big-endian order from the memory as it was received. The
check tests the end of every header before it uses it, but not the end of
the instructions, and no sign. `Sound` is what acceptance is to give.

When no count is negative, the walk of the check goes forward only, so that
what it converts is behind it when the second walk comes (`checkItems_spec`,
`checkGroups_spec`); then both walks see the same numbers. `sound_iff` says
that an accepted blob is sound iff no count is negative and the last block
ends in the buffer.
-/
import UbntSdk.Wprobe.Filter

namespace UbntSdk.Wprobe

open UbntSdk.Lib

/-! ## The format -/

/-- A header or an instruction block that a blob describes, with the count
that belongs to it. -/
structure Block where
  off : Int
  size : Int
  count : Int
  deriving DecidableEq

/-- `n` items from `p` on, and where they end. -/
def itemBlocks (mem : Memory) : Nat → Int → List Block × Int
  | 0, p => ([], p)
  | n + 1, p =>
      let c := int32 (mem.be32At (p + 32))
      let rest := itemBlocks mem n (p + 36 + 8 * c)
      (⟨p, 36, c⟩ :: ⟨p + 36, 8 * c, c⟩ :: rest.1, rest.2)

/-- `n` groups from `p` on, and where they end. -/
def groupBlocks (mem : Memory) : Nat → Int → List Block × Int
  | 0, p => ([], p)
  | n + 1, p =>
      let c := int32 (mem.be32At (p + 32))
      let items := itemBlocks mem c.toNat (p + 36)
      let rest := groupBlocks mem n items.2
      (⟨p, 36, c⟩ :: (items.1 ++ rest.1), rest.2)

/-- What acceptance is to give for a blob of `len` bytes with `gs` groups,
in which the check counted `is` items and left the memory `mem'`. -/
structure Sound (e : ByteOrder) (mem mem' : Memory) (len gs : Nat) (is : Int) (heap : Memory) :
    Prop where
  /-- Everything the blob describes is inside. -/
  inside : ∀ b ∈ (groupBlocks mem gs 0).1, 0 ≤ b.count ∧ 0 ≤ b.off ∧ b.off + b.size ≤ len
  /-- The second walk visits as many groups and items as were counted. -/
  groups : (walkGroups e (copyData mem' len heap) gs 0 0 0).length = gs
  items : (((walkGroups e (copyData mem' len heap) gs 0 0 0).flatMap (·.2)).length : Int) = is
  /-- Its stores are below the sizes that are allocated. -/
  groupIndex : ∀ g ∈ walkGroups e (copyData mem' len heap) gs 0 0 0, g.1.index < gs
  itemIndex : ∀ g ∈ walkGroups e (copyData mem' len heap) gs 0 0 0, ∀ s ∈ g.2, (s.index : Int) < is

/-! ## Going forward -/

/-- No count of the blocks is negative. -/
def NonNegative (blocks : List Block) : Prop := ∀ b ∈ blocks, 0 ≤ b.count

section

variable {mem m m' : Memory} {n : Nat} {p q stop : Int} {e : ByteOrder}
  {skChkFilter : List SockFilter → Bool}

/-- Blocks without negative counts lie one behind the other. -/
theorem itemBlocks_forward (h : NonNegative (itemBlocks mem n p).1) :
    p + 36 * n ≤ (itemBlocks mem n p).2 ∧
    ∀ b ∈ (itemBlocks mem n p).1, p ≤ b.off ∧ b.off + b.size ≤ (itemBlocks mem n p).2 := by
  induction n generalizing p with
  | zero => simp [itemBlocks]
  | succ n ih =>
      simp only [itemBlocks, NonNegative, List.mem_cons, forall_eq_or_imp] at h ⊢
      obtain ⟨hc, _, hrest⟩ := h
      obtain ⟨hle, hin⟩ := ih hrest
      refine ⟨by omega, ⟨by omega, by omega⟩, ⟨by omega, by omega⟩, fun b hb => ?_⟩
      have hb' := hin b hb
      exact ⟨by omega, hb'.2⟩

/-- The number of items that `n` groups from `p` on have. -/
def itemCount (mem : Memory) : Nat → Int → Nat
  | 0, _ => 0
  | n + 1, p =>
      let c := (int32 (mem.be32At (p + 32))).toNat
      c + itemCount mem n (itemBlocks mem c (p + 36)).2

theorem groupBlocks_succ (mem : Memory) (n : Nat) (p : Int) :
    groupBlocks mem (n + 1) p =
      (⟨p, 36, int32 (mem.be32At (p + 32))⟩ ::
        ((itemBlocks mem (int32 (mem.be32At (p + 32))).toNat (p + 36)).1 ++
          (groupBlocks mem n (itemBlocks mem (int32 (mem.be32At (p + 32))).toNat (p + 36)).2).1),
        (groupBlocks mem n (itemBlocks mem (int32 (mem.be32At (p + 32))).toNat (p + 36)).2).2) :=
  rfl

theorem itemCount_succ (mem : Memory) (n : Nat) (p : Int) :
    itemCount mem (n + 1) p = (int32 (mem.be32At (p + 32))).toNat +
      itemCount mem n (itemBlocks mem (int32 (mem.be32At (p + 32))).toNat (p + 36)).2 :=
  rfl

theorem groupBlocks_forward (h : NonNegative (groupBlocks mem n p).1) :
    p + 36 * itemCount mem n p ≤ (groupBlocks mem n p).2 ∧
    ∀ b ∈ (groupBlocks mem n p).1, p ≤ b.off ∧ b.off + b.size ≤ (groupBlocks mem n p).2 := by
  induction n generalizing p with
  | zero => simp [groupBlocks, itemCount]
  | succ n ih =>
      rw [groupBlocks_succ] at h ⊢
      rw [itemCount_succ]
      dsimp only at h ⊢
      generalize (int32 (mem.be32At (p + 32))) = c at h ⊢
      have hitems : NonNegative (itemBlocks mem c.toNat (p + 36)).1 := fun b hb =>
        h b (List.mem_cons_of_mem _ (List.mem_append_left _ hb))
      have hrest : NonNegative (groupBlocks mem n (itemBlocks mem c.toNat (p + 36)).2).1 :=
        fun b hb => h b (List.mem_cons_of_mem _ (List.mem_append_right _ hb))
      obtain ⟨hle, hin⟩ := ih hrest
      obtain ⟨hle', hin'⟩ := itemBlocks_forward hitems
      simp only [List.mem_cons, List.mem_append, forall_eq_or_imp]
      refine ⟨?_, ⟨?_, ?_⟩, fun b hb => ?_⟩
      · omega
      · exact Int.le_refl p
      · omega
      · rcases hb with hb | hb
        · have hb' := hin' b hb
          exact ⟨by omega, by omega⟩
        · have hb' := hin b hb
          exact ⟨by omega, hb'.2⟩

/-! ## What is converted -/

theorem fixItemHdr_count : (fixItemHdr e p m).1 = int32 (m.be32At (p + 32)) := by
  have hsame : (m.write (p + 31) [0]).be32At (p + 32) = m.be32At (p + 32) := by
    refine Memory.be32At_congr fun i hlo _ => Memory.write_outside _ (Or.inr ?_)
    simp only [List.length_singleton]
    omega
  simp only [fixItemHdr, be32ToCpu_u32, hsame]

/-- Only the end of the header is written. -/
theorem fixItemHdr_outside {i : Int} (h : i < p ∨ p + 36 ≤ i) : (fixItemHdr e p m).2 i = m i := by
  simp only [fixItemHdr, Memory.put32]
  rw [Memory.write_outside, Memory.write_outside]
  · simp only [List.length_singleton]
    omega
  · simp only [word32_length]
    omega

/-- The host reads the number that was converted. -/
theorem fixItemHdr_u32 : int32 ((fixItemHdr e p m).2.u32 e (p + 32)) = (fixItemHdr e p m).1 := by
  simp only [fixItemHdr, Memory.u32_put32]

theorem fixSockFilters_outside {i : Int} (h : i < p ∨ p + 8 * n ≤ i) :
    fixSockFilters e n p m i = m i := by
  induction n generalizing p m with
  | zero => rfl
  | succ n ih =>
      rw [fixSockFilters, ih (by omega), fixSockFilter, Memory.put32, Memory.put16,
        Memory.write_outside, Memory.write_outside]
      · simp only [word16_length]
        omega
      · simp only [word32_length]
        omega

/-- The instructions that are accepted: how many, and what is written. -/
theorem checkInsns_some {c : Int} (h : checkInsns e skChkFilter c p m = some m') :
    c ≤ 1024 ∧ ∀ i, i < p ∨ (p ≤ i ∧ p + 8 * c ≤ i) → m' i = m i := by
  unfold checkInsns at h
  split at h
  · cases h
  · split at h
    · dsimp only at h
      split at h
      · cases h
        refine ⟨by omega, fun i hi => fixSockFilters_outside ?_⟩
        omega
      · cases h
    · cases h
      exact ⟨by omega, fun _ _ => rfl⟩

/-! ## The two walks -/

/-- The stores of the items of a group go up from `cur`. -/
theorem walkItems_stores (w : Memory) (cur : Nat) :
    (walkItems e w n p cur).1.length = n ∧ ∀ s ∈ (walkItems e w n p cur).1, s.index < cur + n := by
  induction n generalizing p cur with
  | zero => simp [walkItems]
  | succ n ih =>
      obtain ⟨hlen, hindex⟩ :=
        @ih (p + ITEM_HDR_SIZE + sockFilterBytes (int32 (w.u32 e (p + 32)))) (cur + 1)
      simp only [walkItems, List.length_cons, hlen, List.mem_cons, forall_eq_or_imp, true_and]
      refine ⟨by omega, fun s hs => ?_⟩
      have hlt := hindex s hs
      omega

/-- What one more item takes to pass: room for the header, its instructions, and the rest. -/
theorem checkItems_succ_some (h : checkItems e skChkFilter stop (n + 1) p m = some (q, m')) :
    p + 36 ≤ stop ∧ ∃ m₁,
      checkInsns e skChkFilter (fixItemHdr e p m).1 (p + 36) (fixItemHdr e p m).2 = some m₁ ∧
      checkItems e skChkFilter stop n (p + 36 + sockFilterBytes (fixItemHdr e p m).1) m₁ =
        some (q, m') := by
  by_cases hstop : p + 36 > stop
  · simp only [checkItems, ITEM_HDR_SIZE, hstop, if_true] at h
    cases h
  · simp only [checkItems, ITEM_HDR_SIZE, hstop, if_false] at h
    cases hinsns : checkInsns e skChkFilter (fixItemHdr e p m).1 (p + 36) (fixItemHdr e p m).2 with
    | none =>
        rw [hinsns] at h
        cases h
    | some m₁ =>
        rw [hinsns] at h
        exact ⟨by omega, m₁, rfl, h⟩

/-- One more group: room for the header, its items, and the rest. -/
theorem checkGroups_succ_some {is is' : Int}
    (h : checkGroups e skChkFilter stop (n + 1) is p m = some (is', m')) :
    p + 36 ≤ stop ∧ ∃ q m₁,
      checkItems e skChkFilter stop (fixItemHdr e p m).1.toNat (p + 36) (fixItemHdr e p m).2 =
        some (q, m₁) ∧
      checkGroups e skChkFilter stop n (wrap32 (is + (fixItemHdr e p m).1)) q m₁ =
        some (is', m') := by
  by_cases hstop : p + 36 > stop
  · simp only [checkGroups, ITEM_HDR_SIZE, hstop, if_true] at h
    cases h
  · simp only [checkGroups, ITEM_HDR_SIZE, hstop, if_false] at h
    cases hitem : checkItems e skChkFilter stop (fixItemHdr e p m).1.toNat (p + 36)
        (fixItemHdr e p m).2 with
    | none =>
        rw [hitem] at h
        cases h
    | some r =>
        rw [hitem] at h
        exact ⟨by omega, r.1, r.2, rfl, h⟩

/-- The check of the items of a group. From memory that is as received, it
ends where the items end, has written nothing in front of them or behind
them, and a walk over what it left takes the same steps. Of what stands behind
the buffer such a walk reads nothing; only the last instructions may lie there. -/
theorem checkItems_spec {cur : Nat} (hnn : NonNegative (itemBlocks mem n p).1)
    (hmem : ∀ i, p ≤ i → m i = mem i)
    (hcheck : checkItems e skChkFilter stop n p m = some (q, m')) :
    q = (itemBlocks mem n p).2 ∧ (q ≤ p ∨ q ≤ stop + 8192) ∧ (∀ i, q ≤ i → m' i = mem i) ∧
    (∀ i, i < p → m' i = m i) ∧
    ∀ w : Memory, (∀ i, p ≤ i → i < q → i < stop → w i = m' i) → (walkItems e w n p cur).2 = q := by
  induction n generalizing p m cur with
  | zero =>
      cases hcheck
      exact ⟨rfl, Or.inl (Int.le_refl _), hmem, fun _ _ => rfl, fun w _ => rfl⟩
  | succ n ih =>
      have hcount : (fixItemHdr e p m).1 = int32 (mem.be32At (p + 32)) := by
        rw [fixItemHdr_count, Memory.be32At_congr fun i hlo _ => hmem i (by omega)]
      simp only [itemBlocks, NonNegative, List.mem_cons, forall_eq_or_imp] at hnn ⊢
      rw [← hcount] at hnn ⊢
      obtain ⟨hc, _, hrest⟩ := hnn
      obtain ⟨hstop, m₁, hinsns, hcheck⟩ := checkItems_succ_some hcheck
      obtain ⟨hle, hout⟩ := checkInsns_some hinsns
      have hbytes : sockFilterBytes (fixItemHdr e p m).1 = 8 * (fixItemHdr e p m).1 := by
        rw [sockFilterBytes, wrap32_of_range (by omega) (by omega)]
        omega
      rw [hbytes] at hcheck
      have hm₁ : ∀ i, p + 36 + 8 * (fixItemHdr e p m).1 ≤ i → m₁ i = mem i := by
        intro i hi
        rw [hout i (by omega), fixItemHdr_outside (by omega), hmem i (by omega)]
      obtain ⟨hq, hbound, hbehind, hfront, hwalk⟩ := @ih m₁ _ (cur + 1) hrest hm₁ hcheck
      have hforward := (itemBlocks_forward hrest).1
      rw [← hq] at hforward
      refine ⟨hq, Or.inr (by omega), hbehind, fun i hi => ?_, fun w hw => ?_⟩
      · rw [hfront i (by omega), hout i (by omega), fixItemHdr_outside (by omega)]
      · -- the number the second walk reads is the one that was converted
        have hread : int32 (w.u32 e (p + 32)) = (fixItemHdr e p m).1 := by
          rw [← fixItemHdr_u32, Memory.u32_congr e]
          intro i hlo hhi
          rw [hw i (by omega) (by omega) (by omega), hfront i (by omega), hout i (by omega)]
        simp only [walkItems, ITEM_HDR_SIZE, hread, hbytes]
        exact hwalk w fun i hlo hhi hin => hw i (by omega) hhi hin

theorem walkGroups_succ (w : Memory) (n i : Nat) (p : Int) (cur : Nat) :
    walkGroups e w (n + 1) i p cur =
      (⟨i, p, cur, int32 (w.u32 e (p + 32))⟩,
        (walkItems e w (int32 (w.u32 e (p + 32))).toNat (p + ITEM_HDR_SIZE) cur).1) ::
      walkGroups e w n (i + 1)
        (walkItems e w (int32 (w.u32 e (p + 32))).toNat (p + ITEM_HDR_SIZE) cur).2
        (cur + (walkItems e w (int32 (w.u32 e (p + 32))).toNat (p + ITEM_HDR_SIZE) cur).1.length) :=
  rfl

/-- The check of the groups, and the walk over what it left. -/
theorem checkGroups_spec {is is' : Int} {i cur : Nat} (hnn : NonNegative (groupBlocks mem n p).1)
    (hmem : ∀ j, p ≤ j → m j = mem j) (hrange : wrap32 is = is)
    (hcheck : checkGroups e skChkFilter stop n is p m = some (is', m')) :
    is' = wrap32 (is + itemCount mem n p) ∧
    ((groupBlocks mem n p).2 ≤ p ∨ (groupBlocks mem n p).2 ≤ stop + 8192) ∧
    (∀ j, j < p → m' j = m j) ∧
    ∀ w : Memory, (∀ j, p ≤ j → j < (groupBlocks mem n p).2 → j < stop → w j = m' j) →
      (walkGroups e w n i p cur).length = n ∧
      ((walkGroups e w n i p cur).flatMap (·.2)).length = itemCount mem n p ∧
      ∀ g ∈ walkGroups e w n i p cur, g.1.index < i + n ∧
        ∀ s ∈ g.2, s.index < cur + itemCount mem n p := by
  induction n generalizing p m is i cur with
  | zero =>
      cases hcheck
      refine ⟨by simp [itemCount, hrange], Or.inl (Int.le_refl _), fun _ _ => rfl, fun w _ => ?_⟩
      simp [walkGroups, itemCount]
  | succ n ih =>
      have hcount : (fixItemHdr e p m).1 = int32 (mem.be32At (p + 32)) := by
        rw [fixItemHdr_count, Memory.be32At_congr fun i hlo _ => hmem i (by omega)]
      rw [groupBlocks_succ, ← hcount] at hnn ⊢
      rw [itemCount_succ, ← hcount]
      dsimp only at hnn ⊢
      generalize hc : (fixItemHdr e p m).1 = c at hnn hcount ⊢
      have hc0 : 0 ≤ c := hnn ⟨p, 36, c⟩ List.mem_cons_self
      have hitems : NonNegative (itemBlocks mem c.toNat (p + 36)).1 := fun b hb =>
        hnn b (List.mem_cons_of_mem _ (List.mem_append_left _ hb))
      have hrest : NonNegative (groupBlocks mem n (itemBlocks mem c.toNat (p + 36)).2).1 :=
        fun b hb => hnn b (List.mem_cons_of_mem _ (List.mem_append_right _ hb))
      obtain ⟨hstop, q, m₁, hitem, hcheck⟩ := checkGroups_succ_some hcheck
      rw [hc] at hitem hcheck
      have hm : ∀ j, p + 36 ≤ j → (fixItemHdr e p m).2 j = mem j := fun j hj => by
        rw [fixItemHdr_outside (Or.inr hj), hmem j (by omega)]
      obtain ⟨hq, hitemsEnd, hbehind, hfront, hwalk⟩ :=
        @checkItems_spec mem _ m₁ c.toNat (p + 36) q stop e skChkFilter cur hitems hm hitem
      rw [← hq] at hrest ⊢
      have hforward := (itemBlocks_forward hitems).1
      rw [← hq] at hforward
      have hwrap : wrap32 (wrap32 (is + c)) = wrap32 (is + c) := by
        unfold wrap32
        omega
      obtain ⟨his, hgroupsEnd, hfront', hwalk'⟩ :=
        @ih m₁ q (wrap32 (is + c)) (i + 1) (cur + c.toNat) hrest hbehind hwrap hcheck
      have hend := (groupBlocks_forward hrest).1
      refine ⟨?_, Or.inr (by omega), fun j hj => ?_, fun w hw => ?_⟩
      · rw [his, wrap32_add]
        congr 1
        omega
      · rw [hfront' j (by omega), hfront j (by omega), fixItemHdr_outside (Or.inl hj)]
      · have hread : int32 (w.u32 e (p + 32)) = c := by
          rw [← hc, ← fixItemHdr_u32, Memory.u32_congr e]
          intro j hlo hhi
          rw [hw j (by omega) (by omega) (by omega), hfront' j (by omega), hfront j (by omega)]
        obtain ⟨hlen, hindex⟩ := @walkItems_stores c.toNat (p + 36) e w cur
        have hnext := hwalk w fun j hlo hhi hin => by
          rw [hw j (by omega) (by omega) hin, hfront' j hhi]
        obtain ⟨hgroups, hcounted, hall⟩ :=
          hwalk' w fun j hlo hhi hin => hw j (by omega) hhi hin
        rw [walkGroups_succ, hread, ITEM_HDR_SIZE, hnext, hlen]
        refine ⟨by simp [hgroups], by simp [hcounted, hlen], ?_⟩
        intro g hg
        rcases List.mem_cons.mp hg with rfl | hg
        · refine ⟨by dsimp only; omega, fun s hs => ?_⟩
          have hlt := hindex s hs
          omega
        · obtain ⟨hlt, hstores⟩ := hall g hg
          refine ⟨by omega, fun s hs => ?_⟩
          have hlt' := hstores s hs
          omega

/-! ## Acceptance -/

theorem itemBlocks_end {limit : Int} (hp : p ≤ limit)
    (hin : ∀ b ∈ (itemBlocks mem n p).1, b.off + b.size ≤ limit) :
    (itemBlocks mem n p).2 ≤ limit := by
  induction n generalizing p with
  | zero => exact hp
  | succ n ih =>
      simp only [itemBlocks, List.mem_cons, forall_eq_or_imp] at hin ⊢
      obtain ⟨_, hblock, hrest⟩ := hin
      exact ih hblock hrest

theorem groupBlocks_end {limit : Int} (hp : p ≤ limit)
    (hin : ∀ b ∈ (groupBlocks mem n p).1, b.off + b.size ≤ limit) :
    (groupBlocks mem n p).2 ≤ limit := by
  induction n generalizing p with
  | zero => exact hp
  | succ n ih =>
      rw [groupBlocks_succ] at hin ⊢
      dsimp only at hin ⊢
      have hitems := itemBlocks_end (hin _ List.mem_cons_self) fun b hb =>
        hin b (List.mem_cons_of_mem _ (List.mem_append_left _ hb))
      exact ih hitems fun b hb => hin b (List.mem_cons_of_mem _ (List.mem_append_right _ hb))

end

/-- Where no count is negative, the second walk visits what the check has
counted, which is not much more than the buffer has room for. -/
theorem stores_of_accepted {e : ByteOrder} {skChkFilter : List SockFilter → Bool} {mem mem' : Memory}
    {len gs : Nat} {is : Int} (hlen : len < 2 ^ 31)
    (hcheck : checkGroups e skChkFilter len gs 0 0 mem = some (is, mem'))
    (hnn : NonNegative (groupBlocks mem gs 0).1) (heap : Memory) :
    0 ≤ is ∧ 36 * is ≤ len + 8192 ∧
    (walkGroups e (copyData mem' len heap) gs 0 0 0).length = gs ∧
    (((walkGroups e (copyData mem' len heap) gs 0 0 0).flatMap (·.2)).length : Int) = is ∧
    ∀ g ∈ walkGroups e (copyData mem' len heap) gs 0 0 0, g.1.index < gs ∧
      ∀ s ∈ g.2, (s.index : Int) < is := by
  have hforward := (groupBlocks_forward hnn).1
  obtain ⟨his, hend, _, hwalk⟩ := @checkGroups_spec mem mem mem' gs 0 len e skChkFilter 0 is 0 0 hnn
    (fun _ _ => rfl) (wrap32_of_range (by decide) (by decide)) hcheck
  have hitems : is = itemCount mem gs 0 := by
    rw [his, wrap32_of_range (by omega) (by omega)]
    omega
  obtain ⟨hgroups, hcounted, hall⟩ := hwalk (copyData mem' len heap) fun j hlo _ hin => by
    rw [copyData, if_pos ⟨hlo, hin⟩]
  refine ⟨by omega, by omega, hgroups, by rw [hcounted, hitems], fun g hg => ⟨?_, fun s hs => ?_⟩⟩
  · have hlt := (hall g hg).1
    omega
  · have hlt := (hall g hg).2 s hs
    omega

theorem sound_of_accepted {e : ByteOrder} {skChkFilter : List SockFilter → Bool} {mem mem' : Memory}
    {len gs : Nat} {is : Int} (hlen : len < 2 ^ 31)
    (hcheck : checkGroups e skChkFilter len gs 0 0 mem = some (is, mem'))
    (hnn : NonNegative (groupBlocks mem gs 0).1) (hend : (groupBlocks mem gs 0).2 ≤ len)
    (heap : Memory) : Sound e mem mem' len gs is heap := by
  have hin := (groupBlocks_forward hnn).2
  obtain ⟨_, _, hgroups, hitems, hall⟩ := stores_of_accepted hlen hcheck hnn heap
  refine ⟨fun b hb => ⟨hnn b hb, ?_⟩, hgroups, hitems, fun g hg => (hall g hg).1,
    fun g hg => (hall g hg).2⟩
  have hb' := hin b hb
  exact ⟨hb'.1, by omega⟩

/-- The filters that `wprobe_check_filter` accepts are sound iff no count
has its sign bit set and the instructions of the last item end in the
buffer. -/
theorem sound_iff (e : ByteOrder) (skChkFilter : List SockFilter → Bool) (mem : Memory)
    (len gs : Nat) (hlen : len < 2 ^ 31) :
    ((checkFilter e skChkFilter mem len gs).1 ≠ 0 → ∀ heap,
      Sound e mem (checkFilter e skChkFilter mem len gs).2 len gs
        (checkFilter e skChkFilter mem len gs).1 heap) ↔
    ((checkFilter e skChkFilter mem len gs).1 ≠ 0 →
      NonNegative (groupBlocks mem gs 0).1 ∧ (groupBlocks mem gs 0).2 ≤ len) := by
  constructor
  · intro hsound haccepted
    have hinside := (hsound haccepted mem).inside
    exact ⟨fun b hb => (hinside b hb).1, groupBlocks_end (Int.natCast_nonneg len) fun b hb =>
      (hinside b hb).2.2⟩
  · intro hcond haccepted heap
    obtain ⟨hnn, hend⟩ := hcond haccepted
    unfold checkFilter at haccepted ⊢
    cases hcheck : checkGroups e skChkFilter len gs 0 0 mem with
    | none =>
        rw [hcheck] at haccepted
        exact absurd rfl haccepted
    | some r => exact sound_of_accepted hlen hcheck hnn hend heap

/-! ## A filter that ends too early -/

/-- `ret #0` is the one program that is accepted here. -/
def onlyRet (prog : List SockFilter) : Bool := prog = [⟨6, 0, 0, 0⟩]

/-- One group with one item of one instruction, and the instruction. -/
def oneInsn : Memory := fun i =>
  if i = 35 ∨ i = 71 then 1 else if i = 73 then 6 else 0

/-- The buffer ends behind the header of the item, the instruction is in
the memory behind it: the filter is accepted. -/
theorem sound_fails_missingInsn :
    (checkFilter .big onlyRet oneInsn 72 1).1 = 1 ∧
    ¬ ((checkFilter .big onlyRet oneInsn 72 1).1 ≠ 0 → ∀ heap,
      Sound .big oneInsn (checkFilter .big onlyRet oneInsn 72 1).2 72 1
        (checkFilter .big onlyRet oneInsn 72 1).1 heap) := by
  have haccepted : (checkFilter .big onlyRet oneInsn 72 1).1 = 1 := by decide
  refine ⟨haccepted, fun hsound => ?_⟩
  have hblock : (⟨72, 8, 1⟩ : Block) ∈ (groupBlocks oneInsn 1 0).1 := by decide
  have hinside := (hsound (by simp [haccepted]) oneInsn).inside ⟨72, 8, 1⟩ hblock
  exact absurd hinside.2.2 (by decide)

/-- With the instruction inside, the filter is sound. -/
theorem sound_oneInsn :
    (checkFilter .big onlyRet oneInsn 80 1).1 = 1 ∧ ∀ heap,
      Sound .big oneInsn (checkFilter .big onlyRet oneInsn 80 1).2 80 1
        (checkFilter .big onlyRet oneInsn 80 1).1 heap := by
  have haccepted : (checkFilter .big onlyRet oneInsn 80 1).1 = 1 := by decide
  refine ⟨haccepted, (sound_iff .big onlyRet oneInsn 80 1 (by decide)).mpr (fun _ => ?_)
    (by simp [haccepted])⟩
  exact ⟨by unfold NonNegative; decide, by decide⟩

end UbntSdk.Wprobe
