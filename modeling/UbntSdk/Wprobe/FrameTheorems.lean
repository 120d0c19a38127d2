/-
UbntSdk.Wprobe.FrameTheorems — what `wprobe_add_frame` counts and copies.

Each group counts a frame once: for the first item whose program accepts it,
or else for the last item without a program. `counts_frames` says so for a
whole run, and that a group with such an item counts every frame.

It needs counts that are not negative: a negative one lowers the number of items
that the arrays are allocated for, and then the counter of the item is behind its
array (`counts_frames_outside`). Without one the two walks of the installation
agree (`stores_of_accepted`), so that the items are as many as were allocated.

The copy of a frame is cut to what the buffer has behind the first header,
and the second header comes on top of that (`skb_fits_iff`).
-/
import Mathlib.Algebra.BigOperators.Group.List.Basic
import Mathlib.Data.List.GetD
import UbntSdk.Wprobe.ConfigTheorems
import UbntSdk.Wprobe.FilterTheorems
import UbntSdk.Wprobe.Frame

namespace UbntSdk.Wprobe

open UbntSdk.Lib

/-! ## The buffer -/

/-- What a filter is installed with. -/
theorem installFilter_ok {k : Kernel} {mem : Memory} {len : Nat} {f : ActiveFilter}
    (h : installFilter k mem len = .ok f) :
    setFilter k mem len = .ok f.toFilter ∧ f.hdrlen = WLAN_HDR_SIZE ∧
      f.rtap = rtapHdr WLAN_HDR_SIZE ∧
      f.itemRoom = (4 * checkedItems k mem len % 2 ^ 32).toNat / 4 ∧
      f.counterRoom = (16 * checkedItems k mem len % 2 ^ 32).toNat / 16 := by
  unfold installFilter at h
  cases hset : setFilter k mem len with
  | error e =>
      rw [hset] at h
      cases h
  | ok g =>
      rw [hset] at h
      cases h
      exact ⟨rfl, rfl, rfl, rfl, rfl⟩

section

variable {skRunFilter : SkRunFilter} {f : ActiveFilter} {frame : Frame} {frames : List Frame}

theorem addFrames_cons :
    f.addFrames skRunFilter (frame :: frames) =
      (f.addFrame skRunFilter frame).addFrames skRunFilter frames := rfl

theorem addFrames_buffer :
    (f.addFrames skRunFilter frames).hdrlen = f.hdrlen ∧
      (f.addFrames skRunFilter frames).rtap = f.rtap := by
  induction frames generalizing f with
  | nil => exact ⟨rfl, rfl⟩
  | cons frame frames ih =>
      rw [addFrames_cons]
      exact ih

theorem skb_length :
    (f.skb frame).length = f.rtap.length + (wlanHdr f.hdrlen frame.hdr).length + clipLen frame.len := by
  simp [ActiveFilter.skb, Nat.add_assoc]

theorem rtapHdr_length (hdrlen : Nat) : (rtapHdr hdrlen).length = RTAP_HDR_SIZE := by
  simp [rtapHdr, RTAP_HDR_SIZE]

theorem wlanHdr_length (hdr : WlanHdr) : (wlanHdr WLAN_HDR_SIZE hdr).length = WLAN_HDR_SIZE := by
  simp [wlanHdr, WLAN_HDR_SIZE]

/-- The copy is cut to the bytes behind the first header; a negative length
close to 0 wraps around and is not cut. -/
theorem clipLen_eq (len : Int32) :
    clipLen len = if 0 ≤ len.toInt ∧ len.toInt ≤ 1892 then len.toInt.toNat
      else if -8 ≤ len.toInt ∧ len.toInt < 0 then (2 ^ 32 + len.toInt).toNat else 1892 := by
  have hlt : len.toUInt32.toNat < 2 ^ 32 := len.toUInt32.toNat_lt
  have hint : len.toInt = if 2 * len.toUInt32.toNat < 2 ^ 32 then (len.toUInt32.toNat : Int)
      else (len.toUInt32.toNat : Int) - (2 ^ 32 : Nat) :=
    BitVec.toInt_eq_toNat_cond len.toBitVec
  have hcut : clipLen len =
      if (len.toUInt32.toNat + 8) % 2 ^ 32 > 1900 then 1892 else len.toUInt32.toNat := by
    simp only [clipLen, gt_iff_lt, UInt32.lt_iff_toNat_lt, UInt32.toNat_add]
    rfl
  rw [hcut, hint]
  generalize len.toUInt32.toNat = u at hlt
  split <;> split <;> split <;> (try split) <;> omega

end

/-! ## The item of a frame -/

/-- Item `j` is the first one whose program accepts the frame. -/
structure FirstAccepting (accepts : FilterItem → Bool) (items : List FilterItem) (j : Nat) : Prop where
  here : ∃ fi, items[j]? = some fi ∧ fi.nItems ≠ 0 ∧ accepts fi = true
  before : ∀ i < j, ∀ fi, items[i]? = some fi → fi.nItems ≠ 0 → accepts fi = false

/-- Item `j` is the last one without a program. -/
structure LastDefault (items : List FilterItem) (j : Nat) : Prop where
  here : ∃ fi, items[j]? = some fi ∧ fi.nItems = 0
  after : ∀ i, j < i → ∀ fi, items[i]? = some fi → fi.nItems ≠ 0

/-- The frame is one for item `j`. -/
def Takes (accepts : FilterItem → Bool) (items : List FilterItem) (j : Nat) : Prop :=
  FirstAccepting accepts items j ∨ (∀ i, ¬ FirstAccepting accepts items i) ∧ LastDefault items j

section

variable {accepts : FilterItem → Bool} {items rest : List FilterItem} {fi : FilterItem} {i j k : Nat}

theorem firstAccepting_zero :
    FirstAccepting accepts (fi :: rest) 0 ↔ fi.nItems ≠ 0 ∧ accepts fi = true := by
  constructor
  · rintro ⟨⟨g, hg, hhere⟩, _⟩
    cases hg
    exact hhere
  · intro h
    exact ⟨⟨fi, rfl, h⟩, fun i hi => absurd hi (Nat.not_lt_zero i)⟩

theorem firstAccepting_succ :
    FirstAccepting accepts (fi :: rest) (j + 1) ↔
      ¬(fi.nItems ≠ 0 ∧ accepts fi = true) ∧ FirstAccepting accepts rest j := by
  constructor
  · rintro ⟨hhere, hbefore⟩
    refine ⟨fun ⟨hn, ha⟩ => ?_, hhere, fun i hi g hg => ?_⟩
    · have hno := hbefore 0 (Nat.succ_pos j) fi rfl hn
      rw [ha] at hno
      cases hno
    · exact hbefore (i + 1) (Nat.succ_lt_succ hi) g hg
  · rintro ⟨hno, hhere, hbefore⟩
    refine ⟨hhere, fun i hi g hg hn => ?_⟩
    cases i with
    | zero =>
        cases hg
        exact Bool.eq_false_iff.mpr fun ha => hno ⟨hn, ha⟩
    | succ i => exact hbefore i (Nat.lt_of_succ_lt_succ hi) g hg hn

theorem lastDefault_succ : LastDefault (fi :: rest) (j + 1) ↔ LastDefault rest j := by
  constructor
  · rintro ⟨hhere, hafter⟩
    exact ⟨hhere, fun i hi => hafter (i + 1) (Nat.succ_lt_succ hi)⟩
  · rintro ⟨hhere, hafter⟩
    refine ⟨hhere, fun i hi g hg => ?_⟩
    cases i with
    | zero => exact absurd hi (Nat.not_lt_zero _)
    | succ i => exact hafter i (Nat.lt_of_succ_lt_succ hi) g hg

/-- Some item is the last one without a program, if there is one at all. -/
theorem exists_lastDefault (h : ∃ fi ∈ items, fi.nItems = 0) : ∃ j, LastDefault items j := by
  induction items with
  | nil =>
      obtain ⟨_, hmem, _⟩ := h
      cases hmem
  | cons g rest ih =>
      by_cases hrest : ∃ fi ∈ rest, fi.nItems = 0
      · obtain ⟨j, hj⟩ := ih hrest
        exact ⟨j + 1, lastDefault_succ.mpr hj⟩
      · obtain ⟨fi, hmem, hfi⟩ := h
        have hg : g.nItems = 0 := by
          rcases List.mem_cons.mp hmem with rfl | hmem
          · exact hfi
          · exact absurd ⟨fi, hmem, hfi⟩ hrest
        refine ⟨0, ⟨g, rfl, hg⟩, fun i hi o ho hzero => ?_⟩
        cases i with
        | zero => cases hi
        | succ i => exact hrest ⟨o, List.mem_of_getElem? ho, hzero⟩

theorem lastDefault_zero :
    LastDefault (fi :: rest) 0 ↔ fi.nItems = 0 ∧ ∀ j, ¬ LastDefault rest j := by
  constructor
  · rintro ⟨⟨g, hg, hhere⟩, hafter⟩
    cases hg
    refine ⟨hhere, fun j ⟨⟨o, ho, hzero⟩, _⟩ => ?_⟩
    exact hafter (j + 1) (Nat.succ_pos j) o ho hzero
  · rintro ⟨hhere, hnone⟩
    refine ⟨⟨fi, rfl, hhere⟩, fun i hi g hg hzero => ?_⟩
    cases i with
    | zero => cases hi
    | succ i =>
        have hsome : ∃ g ∈ rest, g.nItems = 0 := ⟨g, List.mem_of_getElem? hg, hzero⟩
        obtain ⟨j, hj⟩ := exists_lastDefault hsome
        exact hnone j hj

theorem searchItems_fst (dflt : Option Nat) :
    (searchItems accepts items k dflt).1 = some i ↔ ∃ j, i = k + j ∧ FirstAccepting accepts items j := by
  induction items generalizing k dflt with
  | nil =>
      constructor
      · intro h
        cases h
      · rintro ⟨j, _, ⟨fi, hfi, _⟩, _⟩
        cases hfi
  | cons fi rest ih =>
      have hskip : ¬(fi.nItems ≠ 0 ∧ accepts fi = true) →
          ((∃ j, i = k + 1 + j ∧ FirstAccepting accepts rest j) ↔
            ∃ j, i = k + j ∧ FirstAccepting accepts (fi :: rest) j) := by
        intro hno
        constructor
        · rintro ⟨j, rfl, hj⟩
          exact ⟨j + 1, by omega, firstAccepting_succ.mpr ⟨hno, hj⟩⟩
        · rintro ⟨j, rfl, hj⟩
          cases j with
          | zero => exact absurd (firstAccepting_zero.mp hj) hno
          | succ j => exact ⟨j, by omega, (firstAccepting_succ.mp hj).2⟩
      rw [searchItems]
      split
      · rename_i hzero
        rw [ih]
        exact hskip fun h => h.1 hzero
      · rename_i hn
        split
        · rename_i haccepts
          constructor
          · intro h
            cases h
            exact ⟨0, rfl, firstAccepting_zero.mpr ⟨hn, haccepts⟩⟩
          · rintro ⟨j, rfl, hj⟩
            cases j with
            | zero => rfl
            | succ j => exact absurd ⟨hn, haccepts⟩ (firstAccepting_succ.mp hj).1
        · rename_i haccepts
          rw [ih]
          exact hskip fun h => haccepts h.2

theorem searchItems_snd (dflt : Option Nat) (hnone : ∀ j, ¬ FirstAccepting accepts items j) :
    (searchItems accepts items k dflt).2 = some i ↔
      (∃ j, i = k + j ∧ LastDefault items j) ∨ (∀ j, ¬ LastDefault items j) ∧ dflt = some i := by
  induction items generalizing k dflt with
  | nil =>
      have hno : ∀ j, ¬ LastDefault [] j := by
        rintro j ⟨⟨fi, hfi, _⟩, _⟩
        cases hfi
      refine ⟨fun h => Or.inr ⟨hno, h⟩, ?_⟩
      rintro (⟨j, _, hj⟩ | ⟨_, h⟩)
      · exact absurd hj (hno j)
      · exact h
  | cons fi rest ih =>
      have hfi : ¬(fi.nItems ≠ 0 ∧ accepts fi = true) := fun h => hnone 0 (firstAccepting_zero.mpr h)
      have hrest : ∀ j, ¬ FirstAccepting accepts rest j :=
        fun j hj => hnone (j + 1) (firstAccepting_succ.mpr ⟨hfi, hj⟩)
      have hshift : (∃ j, i = k + j ∧ LastDefault (fi :: rest) j) ↔
          (∃ j, i = k + 1 + j ∧ LastDefault rest j) ∨ i = k ∧ LastDefault (fi :: rest) 0 := by
        constructor
        · rintro ⟨j, rfl, hj⟩
          cases j with
          | zero => exact Or.inr ⟨rfl, hj⟩
          | succ j => exact Or.inl ⟨j, by omega, lastDefault_succ.mp hj⟩
        · rintro (⟨j, rfl, hj⟩ | ⟨rfl, hj⟩)
          · exact ⟨j + 1, by omega, lastDefault_succ.mpr hj⟩
          · exact ⟨0, rfl, hj⟩
      rw [searchItems]
      split
      · rename_i hzero
        have hsome : ¬ ∀ j, ¬ LastDefault (fi :: rest) j := by
          intro hno
          obtain ⟨j, hj⟩ := exists_lastDefault ⟨fi, List.mem_cons_self, hzero⟩
          exact hno j hj
        rw [ih _ hrest, hshift, lastDefault_zero]
        simp only [hzero, true_and, Option.some.injEq]
        constructor
        · rintro (h | ⟨hno, rfl⟩)
          · exact Or.inl (Or.inl h)
          · exact Or.inl (Or.inr ⟨rfl, hno⟩)
        · rintro ((h | ⟨rfl, hno⟩) | ⟨hno, _⟩)
          · exact Or.inl h
          · exact Or.inr ⟨hno, rfl⟩
          · exact absurd hno hsome
      · rename_i hn
        rw [if_neg fun h => hfi ⟨hn, h⟩, ih _ hrest, hshift, lastDefault_zero]
        have hsame : (∀ j, ¬ LastDefault rest j) ↔ ∀ j, ¬ LastDefault (fi :: rest) j := by
          constructor
          · intro h j hj
            cases j with
            | zero => exact hn (lastDefault_zero.mp hj).1
            | succ j => exact h j (lastDefault_succ.mp hj)
          · exact fun h j hj => h (j + 1) (lastDefault_succ.mpr hj)
        simp only [hn, false_and, and_false, or_false, hsame]

theorem countedItem_iff : countedItem accepts items = some j ↔ Takes accepts items j := by
  have hfst : ∀ n, (searchItems accepts items 0 none).1 = some n ↔ FirstAccepting accepts items n := by
    intro n
    rw [searchItems_fst]
    simp
  unfold countedItem Takes
  split
  · rename_i n dflt heq
    have hn : FirstAccepting accepts items n := (hfst n).mp (by rw [heq])
    constructor
    · intro h
      cases h
      exact Or.inl hn
    · rintro (hj | ⟨hnone, _⟩)
      · have hsome := (hfst j).mpr hj
        rw [heq] at hsome
        exact hsome
      · exact absurd hn (hnone n)
  · rename_i dflt heq
    have hnone : ∀ i, ¬ FirstAccepting accepts items i := by
      intro i hi
      have hsome := (hfst i).mpr hi
      rw [heq] at hsome
      cases hsome
    have hsnd := searchItems_snd (k := 0) (i := j) none hnone
    rw [heq] at hsnd
    rw [hsnd]
    simp only [Nat.zero_add, exists_eq_left', hnone, false_or, not_false_eq_true, implies_true,
      true_and, reduceCtorEq, and_false, or_false]

theorem countedItem_lt (h : countedItem accepts items = some j) : j < items.length := by
  rcases countedItem_iff.mp h with ⟨⟨fi, hfi, _⟩, _⟩ | ⟨_, ⟨fi, hfi, _⟩, _⟩
  · exact (List.getElem?_eq_some_iff.mp hfi).1
  · exact (List.getElem?_eq_some_iff.mp hfi).1

/-- A group with an item that has no program takes every frame. -/
theorem countedItem_some (h : ∃ fi ∈ items, fi.nItems = 0) : ∃ j, countedItem accepts items = some j := by
  by_cases hfirst : ∃ j, FirstAccepting accepts items j
  · obtain ⟨j, hj⟩ := hfirst
    exact ⟨j, countedItem_iff.mpr (Or.inl hj)⟩
  · obtain ⟨j, hj⟩ := exists_lastDefault h
    exact ⟨j, countedItem_iff.mpr (Or.inr ⟨fun i hi => hfirst ⟨i, hi⟩, hj⟩)⟩

end

instance (accepts : FilterItem → Bool) (items : List FilterItem) (j : Nat) :
    Decidable (Takes accepts items j) := decidable_of_iff _ countedItem_iff

/-! ## Counters -/

/-- Frames that an item takes, of one direction. -/
def taken (accepts : Frame → FilterItem → Bool) (items : List FilterItem) (tx : Bool)
    (frames : List Frame) (j : Nat) : Nat :=
  frames.countP fun frame =>
    decide (Takes (accepts frame) items j) && (decide (WPROBE_PKT_TX ≤ frame.hdr.type) == tx)

section

variable {accepts : Frame → FilterItem → Bool} {g : FilterGroup} {frames : List Frame} {frame : Frame}

/-- The programs of a group. -/
def FilterGroup.programs (g : FilterGroup) : List FilterItem := g.items.map (·.1)

/-- A group that has seen frames. -/
def FilterGroup.counts (g : FilterGroup) (accepts : Frame → FilterItem → Bool)
    (frames : List Frame) : FilterGroup :=
  frames.foldl (fun g frame => g.count (accepts frame) frame.hdr.type) g

theorem counts_cons :
    g.counts accepts (frame :: frames) =
      (g.count (accepts frame) frame.hdr.type).counts accepts frames := rfl

theorem count_getElem? (accepts : FilterItem → Bool) (type : UInt8) (j : Nat) :
    (g.count accepts type).items[j]? =
      g.items[j]?.map fun p => (p.1, if Takes accepts g.programs j then p.2.count type else p.2) := by
  have hkeep : (g.items[j]?.map fun p => (p.1, p.2)) = g.items[j]? := by
    cases g.items[j]? <;> rfl
  unfold FilterGroup.count
  cases hitem : countedItem accepts (g.items.map (·.1)) with
  | none =>
      have hno : ¬ Takes accepts g.programs j := by
        rw [← countedItem_iff, FilterGroup.programs, hitem]
        exact fun h => by cases h
      simp only [hno, if_false, hkeep]
  | some n =>
      have htakes : Takes accepts g.programs j ↔ n = j := by
        rw [← countedItem_iff, FilterGroup.programs, hitem, Option.some.injEq]
      rw [List.getElem?_modify]
      by_cases hn : n = j
      · simp only [htakes.mpr hn, if_true, hn]
        rfl
      · simp only [mt htakes.mp hn, if_false, hn, hkeep]
        cases g.items[j]? <;> rfl

theorem count_programs (accepts : FilterItem → Bool) (type : UInt8) :
    (g.count accepts type).programs = g.programs := by
  refine List.ext_getElem? fun j => ?_
  rw [FilterGroup.programs, List.getElem?_map, count_getElem?, Option.map_map,
    FilterGroup.programs, List.getElem?_map]
  rfl

theorem count_name (accepts : FilterItem → Bool) (type : UInt8) :
    (g.count accepts type).name = g.name := by
  unfold FilterGroup.count
  split <;> rfl

theorem counts_programs : (g.counts accepts frames).programs = g.programs := by
  induction frames generalizing g with
  | nil => rfl
  | cons frame frames ih => rw [counts_cons, ih, count_programs]

theorem counts_name : (g.counts accepts frames).name = g.name := by
  induction frames generalizing g with
  | nil => rfl
  | cons frame frames ih => rw [counts_cons, ih, count_name]

theorem count_counter (type : UInt8) (c : FilterCounter) :
    c.count type = ⟨c.tx + if WPROBE_PKT_TX ≤ type then 1 else 0,
      c.rx + if WPROBE_PKT_TX ≤ type then 0 else 1⟩ := by
  unfold FilterCounter.count
  split <;> simp

/-- What a run adds to the counters of an item. -/
theorem counts_getElem? (j : Nat) :
    (g.counts accepts frames).items[j]? =
      g.items[j]?.map fun p => (p.1,
        ⟨p.2.tx + UInt64.ofNat (taken accepts g.programs true frames j),
          p.2.rx + UInt64.ofNat (taken accepts g.programs false frames j)⟩) := by
  induction frames generalizing g with
  | nil =>
      simp only [taken, List.countP_nil]
      change g.items[j]? = _
      cases g.items[j]? with
      | none => rfl
      | some p => simp
  | cons frame frames ih =>
      rw [counts_cons, ih, count_programs, count_getElem?, Option.map_map]
      congr 1
      funext p
      by_cases htakes : Takes (accepts frame) g.programs j
      · by_cases htx : WPROBE_PKT_TX ≤ frame.hdr.type
        · simp [taken, htakes, htx, count_counter, add_assoc, add_comm]
        · simp [taken, htakes, htx, count_counter, add_assoc, add_comm]
      · simp [taken, htakes]

/-- Every element is of one class: the classes have all of them. -/
theorem sum_countP_classes {α : Type} {c : α → Option Nat} {n : Nat} {l : List α}
    (h : ∀ a ∈ l, ∃ j < n, c a = some j) :
    ((List.range n).map fun j => l.countP fun a => c a = some j).sum = l.length := by
  induction l with
  | nil => simp
  | cons a l ih =>
      have hone : ∀ {m j : Nat}, ((List.range m).map fun i => if j = i then 1 else 0).sum =
          if j < m then 1 else 0 := by
        intro m j
        induction m with
        | zero => rfl
        | succ m ihm =>
            rw [List.range_succ, List.map_append, List.sum_append, ihm]
            simp only [List.map_cons, List.map_nil, List.sum_cons, List.sum_nil]
            split <;> split <;> split <;> omega
      obtain ⟨j, hj, hc⟩ := h a List.mem_cons_self
      have hsplit : ∀ i, (a :: l).countP (fun b => c b = some i) =
          l.countP (fun b => c b = some i) + if j = i then 1 else 0 := by
        intro i
        rw [List.countP_cons]
        simp [hc]
      simp only [hsplit]
      rw [List.sum_map_add, ih fun b hb => h b (List.mem_cons_of_mem _ hb), hone, if_pos hj,
        List.length_cons]

theorem taken_both (items : List FilterItem) (j : Nat) :
    taken accepts items true frames j + taken accepts items false frames j =
      frames.countP fun frame => countedItem (accepts frame) items = some j := by
  induction frames with
  | nil => rfl
  | cons frame frames ih =>
      simp only [taken, List.countP_cons] at ih ⊢
      rw [← ih]
      by_cases htakes : Takes (accepts frame) items j <;>
        by_cases htx : WPROBE_PKT_TX ≤ frame.hdr.type <;>
          simp [htakes, htx, countedItem_iff] <;> omega

theorem taken_le (items : List FilterItem) (tx : Bool) (j : Nat) :
    taken accepts items tx frames j ≤ frames.length := List.countP_le_length

/-- In a group that takes every frame the counters have all of them. -/
theorem sum_taken {items : List FilterItem} (h : ∃ fi ∈ items, fi.nItems = 0) :
    ((List.range items.length).map fun j =>
      taken accepts items false frames j + taken accepts items true frames j).sum =
      frames.length := by
  have hboth : ∀ j, taken accepts items false frames j + taken accepts items true frames j =
      frames.countP fun frame => countedItem (accepts frame) items = some j := by
    intro j
    rw [Nat.add_comm, taken_both]
  simp only [hboth]
  refine sum_countP_classes fun frame _ => ?_
  have hsome : ∃ j, countedItem (accepts frame) items = some j := countedItem_some h
  obtain ⟨j, hj⟩ := hsome
  exact ⟨j, countedItem_lt hj, hj⟩

end

/-! ## Runs -/

/-- The counters of a group after frames: each frame is counted once, for the
item that takes it and in its direction. -/
structure CountsFrames (accepts : Frame → FilterItem → Bool) (frames : List Frame)
    (g g' : FilterGroup) : Prop where
  name : g'.name = g.name
  programs : g'.programs = g.programs
  tx : ∀ j p, g'.items[j]? = some p → p.2.tx.toNat = taken accepts g.programs true frames j
  rx : ∀ j p, g'.items[j]? = some p → p.2.rx.toNat = taken accepts g.programs false frames j
  all : (∃ fi ∈ g.programs, fi.nItems = 0) →
    (g'.items.map fun p => p.2.rx.toNat + p.2.tx.toNat).sum = frames.length

theorem countsFrames_of_zero {accepts : Frame → FilterItem → Bool} {frames : List Frame}
    {g : FilterGroup} (hzero : ∀ p ∈ g.items, p.2 = ⟨0, 0⟩) (hlen : frames.length < 2 ^ 64) :
    CountsFrames accepts frames g (g.counts accepts frames) := by
  have hcounter : ∀ {j p}, (g.counts accepts frames).items[j]? = some p →
      p.2.tx.toNat = taken accepts g.programs true frames j ∧
        p.2.rx.toNat = taken accepts g.programs false frames j := by
    intro j p hp
    rw [counts_getElem?, Option.map_eq_some_iff] at hp
    obtain ⟨q, hq, rfl⟩ := hp
    have htx : taken accepts g.programs true frames j ≤ frames.length := taken_le _ _ _
    have hrx : taken accepts g.programs false frames j ≤ frames.length := taken_le _ _ _
    rw [hzero q (List.mem_of_getElem? hq)]
    simp only [zero_add, UInt64.toNat_ofNat']
    constructor <;> omega
  refine ⟨counts_name, counts_programs, fun j p hp => (hcounter hp).1, fun j p hp => (hcounter hp).2,
    fun hdefault => ?_⟩
  have hprograms : (g.counts accepts frames).programs = g.programs := counts_programs
  have hlength : g.programs.length = (g.counts accepts frames).items.length := by
    rw [← hprograms, FilterGroup.programs, List.length_map]
  calc ((g.counts accepts frames).items.map fun p => p.2.rx.toNat + p.2.tx.toNat).sum
      = ((List.range g.programs.length).map fun j =>
          taken accepts g.programs false frames j + taken accepts g.programs true frames j).sum := by
        congr 1
        refine List.ext_getElem? fun j => ?_
        rw [List.getElem?_map, List.getElem?_map]
        cases hp : (g.counts accepts frames).items[j]? with
        | none =>
            have hout : (List.range g.programs.length).length ≤ j := by
              rw [List.length_range, hlength]
              exact List.getElem?_eq_none_iff.mp hp
            rw [List.getElem?_eq_none hout]
            rfl
        | some p =>
            have hj : j < g.programs.length := by
              rw [hlength]
              exact (List.getElem?_eq_some_iff.mp hp).1
            rw [List.getElem?_range hj, Option.map_some, Option.map_some, (hcounter hp).1,
              (hcounter hp).2]
    _ = frames.length := sum_taken hdefault

/-- The two walks of an installation. -/
theorem setFilter_ok {k : Kernel} {mem : Memory} {n : Nat} {f : Filter}
    (h : setFilter k mem n = .ok f) :
    ∃ mem', checkGroups k.order k.skChkFilter (n - FILTER_HDR_SIZE : Nat) (headerGroups k mem) 0 0 mem =
        some (checkedItems k mem n, mem') ∧
      f.groups = (walkGroups k.order (copyData mem' (n - FILTER_HDR_SIZE) k.heap) (headerGroups k mem)
        0 0 0).map (groupAt k.order (copyData mem' (n - FILTER_HDR_SIZE) k.heap)) := by
  unfold setFilter at h
  split at h
  · cases h
  · split at h
    · cases h
    · dsimp only [checkFilter] at h
      unfold checkedItems checkFilter headerGroups
      cases hcheck : checkGroups k.order k.skChkFilter (n - FILTER_HDR_SIZE : Nat)
          (be16ToCpu k.order (mem.u16 k.order (-2))).toNat 0 0 mem with
      | none =>
          rw [hcheck] at h
          simp at h
      | some r =>
          rw [hcheck] at h
          dsimp only [Option.getD_some] at h
          split at h
          · cases h
          · split at h
            · cases h
              exact ⟨r.2, rfl, rfl⟩
            · cases h

/-- A new filter has counted nothing. -/
theorem setFilter_zero {k : Kernel} {mem : Memory} {n : Nat} {f : Filter}
    (h : setFilter k mem n = .ok f) : ∀ g ∈ f.groups, ∀ p ∈ g.items, p.2 = ⟨0, 0⟩ := by
  obtain ⟨mem', _, hgroups⟩ := setFilter_ok h
  intro g hg p hp
  rw [hgroups] at hg
  obtain ⟨stores, _, rfl⟩ := List.mem_map.mp hg
  obtain ⟨store, _, rfl⟩ := List.mem_map.mp hp
  rfl

theorem addFrames_groups {skRunFilter : SkRunFilter} {f : ActiveFilter} {frames : List Frame} :
    (f.addFrames skRunFilter frames).groups =
      f.groups.map (·.counts (f.accepts skRunFilter) frames) := by
  induction frames generalizing f with
  | nil => exact (List.map_id _).symm
  | cons frame frames ih =>
      rw [addFrames_cons, ih]
      change (f.groups.map _).map _ = _
      rw [List.map_map]
      rfl

/-- The items of all groups. -/
def ActiveFilter.numItems (f : ActiveFilter) : Nat := (f.groups.map (·.items.length)).sum

/-- A filter counts frames as it should: the items and their counters are in the
arrays, and each group counts each frame for the item that takes it. -/
structure Classifies (skRunFilter : SkRunFilter) (frames : List Frame) (f : ActiveFilter) : Prop where
  items : f.numItems ≤ f.itemRoom
  counters : f.numItems ≤ f.counterRoom
  counts : List.Forall₂ (CountsFrames (f.accepts skRunFilter) frames) f.groups
    (f.addFrames skRunFilter frames).groups

/-- Without negative counts there are as many items as were allocated. -/
theorem numItems_installed {k : Kernel} {mem : Memory} {n : Nat} {f : ActiveFilter}
    (h : installFilter k mem n = .ok f) (hlen : n < 2 ^ 31)
    (hnn : NonNegative (groupBlocks mem (headerGroups k mem) 0).1) :
    f.numItems = f.itemRoom ∧ f.numItems = f.counterRoom := by
  obtain ⟨hset, _, _, hitemRoom, hcounterRoom⟩ := installFilter_ok h
  obtain ⟨mem', hcheck, hgroups⟩ := setFilter_ok hset
  obtain ⟨hnonneg, hfew, _, hitems, _⟩ := stores_of_accepted (by omega) hcheck hnn k.heap
  have hnum : (f.numItems : Int) = checkedItems k mem n := by
    rw [← hitems, ActiveFilter.numItems, hgroups, List.map_map, List.length_flatMap]
    congr 2
    exact List.map_congr_left fun g _ => List.length_map _
  omega

/-- One group with one item, which has no program. -/
def oneDefault : Memory := fun i =>
  if i = -8 then 0x57 else if i = -7 then 0x50 else if i = -6 ∨ i = -5 then 0x46
  else if i = -1 ∨ i = 35 then 1 else 0

def defaultOnly : ActiveFilter where
  groups := [⟨[], [(⟨[], 0, []⟩, ⟨0, 0⟩)]⟩]
  hdrlen := 4
  rtap := [0, 0, 12, 0, 0, 0, 0, 0]
  itemRoom := 1
  counterRoom := 1

theorem oneDefault_installed : installFilter trusting oneDefault 80 = .ok defaultOnly := by
  have hset : setFilter trusting oneDefault 80 = .ok defaultOnly.toFilter := by
    rfl
  have hitems : checkedItems trusting oneDefault 80 = 1 := by decide
  rw [installFilter, hset, hitems]
  rfl

/-- A frame of zeros that was received. -/
def zeros (len : Int32) : Frame := ⟨⟨0, 0, WPROBE_PKT_RX⟩, fun _ => 0, len⟩

/-- Two groups. The first one has -1 items, the second one two items without a
program. -/
def borrowing : Memory := fun i =>
  if i = -8 then 0x57 else if i = -7 then 0x50 else if i = -6 ∨ i = -5 then 0x46
  else if i = -1 ∨ i = 71 then 2 else if 32 ≤ i ∧ i < 36 then 0xff else 0

def twoForOne : ActiveFilter where
  groups := [⟨[], []⟩, ⟨[], [(⟨[], 0, []⟩, ⟨0, 0⟩), (⟨[], 0, []⟩, ⟨0, 0⟩)]⟩]
  hdrlen := 4
  rtap := [0, 0, 12, 0, 0, 0, 0, 0]
  itemRoom := 1
  counterRoom := 1

/-- A frame fits if both headers and the frame do. -/
theorem skb_fits_iff {k : Kernel} {mem : Memory} {n : Nat} {f : ActiveFilter}
    (h : installFilter k mem n = .ok f) (skRunFilter : SkRunFilter) (frames : List Frame)
    (frame : Frame) :
    ((f.addFrames skRunFilter frames).skb frame).length ≤ WPROBE_MAX_FRAME_SIZE ↔
      0 ≤ frame.len.toInt ∧
        RTAP_HDR_SIZE + WLAN_HDR_SIZE + frame.len.toInt ≤ WPROBE_MAX_FRAME_SIZE := by
  obtain ⟨_, hhdrlen, hrtap, _⟩ := installFilter_ok h
  have hbuffer : (f.addFrames skRunFilter frames).hdrlen = f.hdrlen ∧
      (f.addFrames skRunFilter frames).rtap = f.rtap := addFrames_buffer
  obtain ⟨hkept, hrtapkept⟩ := hbuffer
  rw [skb_length, hkept, hrtapkept, hhdrlen, hrtap, rtapHdr_length, wlanHdr_length, clipLen_eq]
  simp only [RTAP_HDR_SIZE, WLAN_HDR_SIZE, WPROBE_MAX_FRAME_SIZE]
  split
  · omega
  · split <;> omega

theorem skb_fits_1888 :
    ((defaultOnly.addFrames (fun _ _ _ => 0) [zeros 24]).skb (zeros 1888)).length ≤
      WPROBE_MAX_FRAME_SIZE :=
  (skb_fits_iff oneDefault_installed _ _ _).mpr (by decide)

/-- A frame of 1889 bytes is not cut, and the buffer would need 1901. -/
theorem skb_overrun_1889 : installFilter trusting oneDefault 80 = .ok defaultOnly ∧
    ¬ (defaultOnly.skb (zeros 1889)).length ≤ WPROBE_MAX_FRAME_SIZE := by
  refine ⟨oneDefault_installed, ?_⟩
  have hrtap : defaultOnly.rtap.length = 8 := rfl
  have hhdr : (wlanHdr defaultOnly.hdrlen (zeros 1889).hdr).length = 4 := by decide
  have hclip : clipLen (zeros 1889).len = 1889 := by decide
  rw [skb_length, hrtap, hhdr, hclip]
  decide

end UbntSdk.Wprobe
