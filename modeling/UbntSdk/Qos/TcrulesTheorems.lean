/-
UbntSdk.Qos.TcrulesTheorems — what the classes get.

No pass divides by 0, so the script always comes to its rates (`tcrules_eq`). The
third pass hands out a budget: a real-time class without a given delay gets the
fraction of its priority of what the classes before it left. So what is handed out
stays within the budget (`tcrules_bound`), but what a class gets depends on its
place as soon as there are two such classes and there is a budget
(`tcrules_orderFree`).
-/
import Mathlib.Algebra.BigOperators.Fin
import Mathlib.Algebra.Order.BigOperators.Group.List
import Mathlib.Algebra.Order.BigOperators.GroupWithZero.List
import Mathlib.Algebra.Order.Field.Basic
import Mathlib.Data.List.OfFn
import Mathlib.GroupTheory.Perm.List
import Mathlib.Tactic.FieldSimp
import Mathlib.Tactic.Linarith
import Mathlib.Tactic.Positivity
import UbntSdk.Qos.Tcrules

namespace UbntSdk.Qos

open Lib

/-! ## The passes -/

/-- A real-time class without a given delay. -/
def Rt (r : Row) : Prop := 0 < r.avgrate ∧ ¬0 < r.delay

instance (r : Row) : Decidable (Rt r) := inferInstanceAs (Decidable (_ ∧ _))

def withDefaults (r : Row) : Row :=
  { r with
    pktsize := if 0 < r.pktsize then r.pktsize else 1500
    prio := if 0 < r.prio then r.prio else 1 }

/-- What the second pass sets. -/
def delayed (linespeed : ℚ) (r : Row) : Row :=
  if 0 < r.avgrate then
    { r with
      rtm2 := r.avgrate
      d := if 0 < r.delay then r.delay else 2 * r.pktsize * 1000 / (linespeed * 1024) }
  else r

/-- The second pass without a division by 0. -/
def delayStep (linespeed dmax : ℚ) (r : Row) : Row × ℚ :=
  let r' := delayed linespeed r
  (r', if Rt r ∧ dmax < r'.d then r'.d else dmax)

/-- What a class gets out of the budget. -/
def share (s : Sums) (dsAvail : ℚ) (r : Row) : ℚ :=
  if Rt r then dsAvail * r.prio / s.sumRtprio else 0

/-- What the third pass sets. -/
def allotted (linespeed : ℚ) (s : Sums) (dsAvail : ℚ) (r : Row) : Row :=
  let m1 := if Rt r then r.rtm2 + share s dsAvail r / r.d else 0
  { r with rtm1 := m1, lsm1 := m1, lsm2 := linespeed * r.prio / s.sumPrio }

/-- The third pass without a division by 0. -/
def allocateStep (linespeed : ℚ) (s : Sums) (dsAvail : ℚ) (r : Row) : Row × ℚ :=
  (allotted linespeed s dsAvail r, dsAvail - share s dsAvail r)

theorem speed_pos (linespeed : ℚ) : 0 < speed linespeed := by
  unfold speed
  split
  · assumption
  · norm_num

theorem quot_of_ne {a b : ℚ} (hb : b ≠ 0) : quot a b = some (a / b) := if_neg hb

theorem addUp_fst (s : Sums) (r : Row) : (addUp s r).1 = withDefaults r := by
  unfold addUp
  dsimp only
  split <;> rfl

theorem addUp_snd (s : Sums) (r : Row) : (addUp s r).2 =
    ⟨s.allocated + r.avgrate, s.sumPrio + (withDefaults r).prio,
      s.sumRtprio + if Rt r then (withDefaults r).prio else 0⟩ := by
  unfold addUp
  dsimp only
  split
  · rename_i h
    rw [if_pos (show Rt r from h)]
    rfl
  · rename_i h
    rw [if_neg (show ¬Rt r from h), add_zero]
    rfl

theorem setDelay_eq {linespeed : ℚ} (hl : 0 < linespeed) (dmax : ℚ) (r : Row) :
    setDelay linespeed dmax r = some (delayStep linespeed dmax r) := by
  unfold setDelay delayStep delayed Rt
  by_cases hr : 0 < r.avgrate
  · by_cases hd : 0 < r.delay
    · simp [hr, hd]
    · have hne : linespeed * 1024 ≠ 0 := by positivity
      simp [hr, hd, quot_of_ne hne]
  · simp [hr]

theorem allocate_eq {linespeed : ℚ} {s : Sums} {r : Row} (hp : s.sumPrio ≠ 0)
    (hrt : Rt r → s.sumRtprio ≠ 0) (hd : 0 < r.avgrate → 0 < r.d)
    (h0 : ¬0 < r.avgrate → r.d = 0) (dsAvail : ℚ) :
    allocate linespeed s dsAvail r = some (allocateStep linespeed s dsAvail r) := by
  unfold allocate allocateStep allotted share
  by_cases ha : 0 < r.avgrate
  · by_cases hdel : 0 < r.delay
    · have hno : ¬Rt r := fun h => h.2 hdel
      simp [quot_of_ne hp, ha, hd ha, hdel, hno]
    · have hr : Rt r := ⟨ha, hdel⟩
      simp [quot_of_ne hp, quot_of_ne (hrt hr), quot_of_ne (hd ha).ne', ha, hd ha, hdel, hr]
  · have hno : ¬Rt r := fun h => ha h.1
    simp [quot_of_ne hp, ha, hno, h0 ha]

/-! ## The script -/

/-- The rows after the second pass. -/
def prepared (linespeed : ℚ) (rows : List Row) : List Row :=
  rows.map fun r => delayed linespeed (withDefaults r)

/-- The totals of the first pass. -/
def sums (rows : List Row) : Sums := passState addUp {} rows

/-- The greatest delay that is not given. -/
def dmax (linespeed : ℚ) (rows : List Row) : ℚ :=
  passState (delayStep linespeed) 0 (rows.map withDefaults)

/-- What can be handed out. -/
def budget (linespeed : ℚ) (rows : List Row) : ℚ :=
  dmax linespeed rows * (linespeed - (sums rows).allocated)

theorem passState_addUp (s : Sums) (rows : List Row) : passState addUp s rows =
    ⟨s.allocated + (rows.map (·.avgrate)).sum,
      s.sumPrio + (rows.map fun r => (withDefaults r).prio).sum,
      s.sumRtprio + (rows.map fun r => if Rt r then (withDefaults r).prio else 0).sum⟩ := by
  induction rows generalizing s with
  | nil => simp [passState]
  | cons r rows ih =>
      have ih := ih (addUp s r).2
      rw [passState, List.foldl_cons, ← passState, ih, addUp_snd]
      simp [add_assoc]

theorem sums_eq (rows : List Row) : sums rows =
    ⟨(rows.map (·.avgrate)).sum, (rows.map fun r => (withDefaults r).prio).sum,
      (rows.map fun r => if Rt r then (withDefaults r).prio else 0).sum⟩ := by
  rw [sums, passState_addUp]
  simp

theorem prio_pos (r : Row) : 0 < (withDefaults r).prio := by
  unfold withDefaults
  dsimp only
  split
  · assumption
  · exact one_pos

theorem pktsize_pos (r : Row) : 0 < (withDefaults r).pktsize := by
  unfold withDefaults
  dsimp only
  split
  · assumption
  · norm_num

section Delayed

variable (linespeed : ℚ) (r : Row)

@[simp] theorem delayed_prio : (delayed linespeed r).prio = r.prio := by
  unfold delayed
  split <;> rfl

@[simp] theorem delayed_avgrate : (delayed linespeed r).avgrate = r.avgrate := by
  unfold delayed
  split <;> rfl

@[simp] theorem delayed_delay : (delayed linespeed r).delay = r.delay := by
  unfold delayed
  split <;> rfl

@[simp] theorem rt_withDefaults : Rt (withDefaults r) ↔ Rt r := Iff.rfl

@[simp] theorem rt_delayed : Rt (delayed linespeed r) ↔ Rt r := by
  rw [Rt, Rt, delayed_avgrate, delayed_delay]

end Delayed

theorem delayed_d_pos {linespeed : ℚ} (hl : 0 < linespeed) {r : Row} (hp : 0 < r.pktsize)
    (hr : 0 < r.avgrate) : 0 < (delayed linespeed r).d := by
  rw [delayed, if_pos hr]
  dsimp only
  split
  · assumption
  · positivity

theorem sum_pos_of_mem {α : Type*} {f : α → ℚ} {l : List α} (hf : ∀ a ∈ l, 0 ≤ f a) {a : α}
    (ha : a ∈ l) (hpos : 0 < f a) : f a ≤ (l.map f).sum ∧ 0 < (l.map f).sum := by
  have hle : f a ≤ (l.map f).sum :=
    List.single_le_sum (by simpa using hf) _ (List.mem_map_of_mem ha)
  exact ⟨hle, lt_of_lt_of_le hpos hle⟩

theorem sumPrio_pos {rows : List Row} (hne : rows ≠ []) : 0 < (sums rows).sumPrio := by
  obtain ⟨r, hr⟩ := List.exists_mem_of_ne_nil rows hne
  rw [sums_eq]
  exact (sum_pos_of_mem (f := fun r => (withDefaults r).prio) (fun a _ => (prio_pos a).le) hr
    (prio_pos r)).2

/-- A real-time class is one of those whose priorities are added up. -/
theorem prio_le_sumRtprio {rows : List Row} {r : Row} (hr : r ∈ rows) (hrt : Rt r) :
    (withDefaults r).prio ≤ (sums rows).sumRtprio := by
  have h0 : ∀ a ∈ rows, 0 ≤ if Rt a then (withDefaults a).prio else 0 := by
    intro a _
    split
    · exact (prio_pos a).le
    · exact le_refl 0
  have hle := sum_pos_of_mem h0 hr (by rw [if_pos hrt]; exact prio_pos r)
  rw [if_pos hrt] at hle
  rw [sums_eq]
  exact hle.1

theorem sumRtprio_pos {rows : List Row} {r : Row} (hr : r ∈ rows) (hrt : Rt r) :
    0 < (sums rows).sumRtprio :=
  lt_of_lt_of_le (prio_pos r) (prio_le_sumRtprio hr hrt)

theorem readLines_d {linespeed : ℚ} {lines : List Line} {r : Row}
    (hr : r ∈ readLines linespeed lines) : r.d = 0 := by
  obtain ⟨l, _, rfl⟩ := List.mem_map.mp hr
  rfl

/-- The script always comes to its rates. -/
theorem tcrules_eq (linespeed : ℚ) (lines : List Line) :
    let ls := speed linespeed
    let rows := readLines ls lines
    tcrules linespeed lines =
      some ⟨ls, (pass (allocateStep ls (sums rows)) (budget ls rows) (prepared ls rows)).1,
        (sums rows).allocated, dmax ls rows⟩ := by
  intro ls rows
  have hl : 0 < ls := speed_pos linespeed
  have h1 : passM (fun s r => some (addUp s r)) {} rows =
      some (rows.map withDefaults, sums rows) := by
    rw [passM_eq fun _ _ _ => rfl, pass_eq_map addUp_fst]
    rfl
  have h2 : passM (setDelay ls) 0 (rows.map withDefaults) =
      some (prepared ls rows, dmax ls rows) := by
    rw [passM_eq fun r _ s => setDelay_eq hl s r,
      pass_eq_map (h := delayed ls) fun _ _ => rfl, List.map_map]
    rfl
  have h3 : passM (allocate ls (sums rows)) (budget ls rows) (prepared ls rows) =
      some (pass (allocateStep ls (sums rows)) (budget ls rows) (prepared ls rows)) := by
    refine passM_eq (fun r' hr' => ?_) _
    obtain ⟨r, hr, rfl⟩ := List.mem_map.mp hr'
    refine allocate_eq (sumPrio_pos (List.ne_nil_of_mem hr)).ne' (fun hrt => ?_) (fun ha => ?_)
      fun ha => ?_
    · exact (sumRtprio_pos hr ((rt_delayed _ (withDefaults r)).mp hrt)).ne'
    · exact delayed_d_pos hl (pktsize_pos r) (by simpa using ha)
    · rw [delayed, if_neg (by simpa using ha)]
      exact (readLines_d hr :)
  change (passM (fun s r => some (addUp s r)) {} rows).bind _ = _
  rw [h1]
  change (passM (setDelay ls) 0 (rows.map withDefaults)).bind _ = _
  rw [h2]
  change (passM (allocate ls (sums rows)) (budget ls rows) (prepared ls rows)).bind _ = _
  rw [h3]
  rfl

/-! ## The budget -/

/-- What a real-time class may send above its rate. -/
def excess (x : Row) : ℚ := if Rt x then x.d * (x.rtm1 - x.rtm2) else 0

section Allotted

variable (linespeed : ℚ) (s : Sums) (dsAvail : ℚ) (r : Row)

@[simp] theorem rt_allotted : Rt (allotted linespeed s dsAvail r) ↔ Rt r := Iff.rfl

@[simp] theorem allotted_lsm2 :
    (allotted linespeed s dsAvail r).lsm2 = linespeed * r.prio / s.sumPrio := rfl

theorem allotted_rtm1 (hr : Rt r) :
    (allotted linespeed s dsAvail r).rtm1 = r.rtm2 + share s dsAvail r / r.d := if_pos hr

/-- What a class has above its rate, for the time of its delay, is its share. -/
theorem excess_allotted (hd : Rt r → r.d ≠ 0) :
    excess (allotted linespeed s dsAvail r) = share s dsAvail r := by
  unfold excess
  by_cases hr : Rt r
  · rw [if_pos ((rt_allotted _ _ _ r).mpr hr), allotted_rtm1 _ _ _ r hr]
    change r.d * (r.rtm2 + share s dsAvail r / r.d - r.rtm2) = share s dsAvail r
    rw [add_sub_cancel_left, mul_div_cancel₀ _ (hd hr)]
  · rw [if_neg fun h => hr ((rt_allotted _ _ _ r).mp h), share, if_neg hr]

end Allotted

theorem share_nonneg {s : Sums} {dsAvail : ℚ} {r : Row} (ha : 0 ≤ dsAvail) (hp : 0 ≤ r.prio)
    (hs : 0 ≤ s.sumRtprio) : 0 ≤ share s dsAvail r := by
  unfold share
  split
  · positivity
  · exact le_refl 0

/-- A share is a part of what is left. -/
theorem share_le {s : Sums} {dsAvail : ℚ} {r : Row} (ha : 0 ≤ dsAvail)
    (hp : Rt r → r.prio ≤ s.sumRtprio) (hs : Rt r → 0 < s.sumRtprio) :
    share s dsAvail r ≤ dsAvail := by
  unfold share
  split
  · rename_i hr
    rw [div_le_iff₀ (hs hr)]
    exact mul_le_mul_of_nonneg_left (hp hr) ha
  · exact ha

/-- The greatest delay is that of a real-time class, if there is one. -/
theorem dmax_nonneg (linespeed : ℚ) (rows : List Row) : 0 ≤ dmax linespeed rows := by
  refine passState_invariant (I := (0 ≤ ·)) (fun r _ m hm => ?_) (le_refl 0)
  unfold delayStep
  dsimp only
  split
  · rename_i h
    exact hm.trans h.2.le
  · exact hm

theorem mem_prepared {linespeed : ℚ} {rows : List Row} {r : Row} (hr : r ∈ prepared linespeed rows)
    (hl : 0 < linespeed) :
    0 < r.prio ∧ (Rt r → r.prio ≤ (sums rows).sumRtprio) ∧ (Rt r → 0 < r.d) := by
  obtain ⟨a, ha, rfl⟩ := List.mem_map.mp hr
  refine ⟨?_, fun hrt => ?_, fun hrt => ?_⟩
  · rw [delayed_prio]
    exact prio_pos a
  · rw [delayed_prio]
    exact prio_le_sumRtprio ha ((rt_delayed _ (withDefaults a)).mp hrt)
  · exact delayed_d_pos hl (pktsize_pos a) ((rt_delayed _ (withDefaults a)).mp hrt).1

/-- What the rates keep to. -/
structure Bounded (r : Rates) : Prop where
  handed_out : ((r.rows.filter Rt).map fun x => x.d * (x.rtm1 - x.rtm2)).sum ≤
    r.dmax * (r.linespeed - r.allocated)
  rtm2_le : ∀ x ∈ r.rows, Rt x → x.rtm2 ≤ x.rtm1
  linkshare : (r.rows.map (·.lsm2)).sum = r.linespeed

theorem sum_excess (rows : List Row) :
    ((rows.filter Rt).map fun x => x.d * (x.rtm1 - x.rtm2)).sum = (rows.map excess).sum := by
  induction rows with
  | nil => rfl
  | cons r rows ih =>
      by_cases hr : Rt r
      · simp [hr, ih, excess]
      · simp [hr, ih, excess]

/-- The line speed is shared by the priorities. -/
theorem sum_lsm2 {linespeed : ℚ} {rows : List Row} (hne : rows ≠ []) (dsAvail : ℚ) :
    ((pass (allocateStep linespeed (sums rows)) dsAvail (prepared linespeed rows)).1.map
      (·.lsm2)).sum = linespeed := by
  have hsum := sumPrio_pos hne
  have hrow : ∀ m r, (allocateStep linespeed (sums rows) m r).1.lsm2 =
      r.prio * (linespeed / (sums rows).sumPrio) := by
    intro m r
    rw [allocateStep, allotted_lsm2, mul_comm linespeed, mul_div_assoc]
  have hprio : (prepared linespeed rows).map (fun r => r.prio * (linespeed / (sums rows).sumPrio)) =
      rows.map fun r => (withDefaults r).prio * (linespeed / (sums rows).sumPrio) := by
    simp [prepared]
  have hs : (rows.map fun r => (withDefaults r).prio).sum = (sums rows).sumPrio := by
    rw [sums_eq]
  rw [map_pass (w := fun x : Row => x.lsm2) hrow, hprio, List.sum_map_mul_right, hs]
  exact mul_div_cancel₀ _ hsum.ne'

/-- What a class gets. -/
structure Shares where
  rtm1 : ℚ
  rtm2 : ℚ
  lsm1 : ℚ
  lsm2 : ℚ
  d : ℚ
  deriving DecidableEq

def Row.shares (r : Row) : Shares := ⟨r.rtm1, r.rtm2, r.lsm1, r.lsm2, r.d⟩

/-- A line that names a class. -/
abbrev Class := { l : Line // l.cls ≠ "" }

variable {n : ℕ}

/-- What the class at an index gets. -/
def sharesOf (linespeed : ℚ) (c : Fin n → Class) (i : Fin n) : Option Shares := do
  let r ← tcrules linespeed (List.ofFn fun i => (c i).1)
  let row ← r.rows[i.1]?
  some row.shares

/-- Every class gets the same in every order of the classes. -/
def OrderFree (linespeed : ℚ) (c : Fin n → Class) : Prop :=
  ∀ (σ : Equiv.Perm (Fin n)) (i : Fin n), sharesOf linespeed (c ∘ σ) i = sharesOf linespeed c (σ i)

/-- The rows of the classes. -/
def rowsOf (linespeed : ℚ) (c : Fin n → Class) : List Row :=
  List.ofFn fun i => rowOf (speed linespeed) (c i).1

theorem readLines_ofFn (linespeed : ℚ) (c : Fin n → Class) :
    readLines (speed linespeed) (List.ofFn fun i => (c i).1) = rowsOf linespeed c := by
  have hall : (List.ofFn fun i => (c i).1).filter (·.cls ≠ "") = List.ofFn fun i => (c i).1 := by
    refine List.filter_eq_self.mpr fun l hl => ?_
    obtain ⟨i, rfl⟩ := List.mem_ofFn.mp hl
    simpa using (c i).2
  rw [readLines, hall, List.map_ofFn]
  rfl

/-- What the classes before an index leave. -/
def leftFor (linespeed : ℚ) (c : Fin n → Class) (i : Fin n) : ℚ :=
  let ls := speed linespeed
  let rows := rowsOf linespeed c
  passState (allocateStep ls (sums rows)) (budget ls rows) ((prepared ls rows).take i)

theorem sharesOf_eq (linespeed : ℚ) (c : Fin n → Class) (i : Fin n) :
    sharesOf linespeed c i = some (allotted (speed linespeed) (sums (rowsOf linespeed c))
      (leftFor linespeed c i) (delayed (speed linespeed)
        (withDefaults (rowOf (speed linespeed) (c i).1)))).shares := by
  have hget : (prepared (speed linespeed) (rowsOf linespeed c))[i.1]? =
      some (delayed (speed linespeed) (withDefaults (rowOf (speed linespeed) (c i).1))) := by
    simp [prepared, rowsOf]
  unfold sharesOf
  rw [tcrules_eq, readLines_ofFn]
  simp [pass_getElem, hget, leftFor, allocateStep]

theorem rowsOf_perm (linespeed : ℚ) (c : Fin n → Class) (σ : Equiv.Perm (Fin n)) :
    (rowsOf linespeed (c ∘ σ)).Perm (rowsOf linespeed c) :=
  Equiv.Perm.ofFn_comp_perm σ fun i => rowOf (speed linespeed) (c i).1

/-- The totals do not depend on the order. -/
theorem sums_perm {rows rows' : List Row} (h : rows.Perm rows') : sums rows = sums rows' := by
  rw [sums_eq, sums_eq, (h.map _).sum_eq, (h.map _).sum_eq, (h.map _).sum_eq]

theorem delayStep_snd (linespeed m : ℚ) (r : Row) :
    (delayStep linespeed m r).2 = if Rt r then max m (delayed linespeed r).d else m := by
  by_cases hr : Rt r
  · simp only [delayStep, hr, true_and, if_true, max_def_lt]
  · simp only [delayStep, hr, false_and, if_false]

theorem dmax_perm (linespeed : ℚ) {rows rows' : List Row} (h : rows.Perm rows') :
    dmax linespeed rows = dmax linespeed rows' := by
  refine passState_perm (fun m a b => ?_) (h.map withDefaults) 0
  simp only [delayStep_snd]
  by_cases ha : Rt a
  · by_cases hb : Rt b
    · simp only [ha, hb, if_true, max_right_comm]
    · simp only [ha, hb, if_true, if_false]
  · simp only [ha, if_false]

theorem budget_perm (linespeed : ℚ) {rows rows' : List Row} (h : rows.Perm rows') :
    budget linespeed rows = budget linespeed rows' := by
  rw [budget, budget, dmax_perm linespeed h, sums_perm h]

/-- The part of the budget that a class leaves. -/
def leaves (s : Sums) (r : Row) : ℚ := if Rt r then 1 - r.prio / s.sumRtprio else 1

theorem passState_allocateStep (linespeed : ℚ) (s : Sums) (m : ℚ) (rows : List Row) :
    passState (allocateStep linespeed s) m rows = m * (rows.map (leaves s)).prod := by
  induction rows generalizing m with
  | nil => simp [passState]
  | cons r rows ih =>
      have hstep : (allocateStep linespeed s m r).2 = m * leaves s r := by
        unfold allocateStep share leaves
        dsimp only
        split
        · rw [mul_sub, mul_one, mul_div_assoc]
        · rw [sub_zero, mul_one]
      rw [passState, List.foldl_cons, ← passState, hstep, ih, List.map_cons, List.prod_cons, mul_assoc]

/-- A product of fractions is a fraction. -/
theorem prod_le_one {l : List ℚ} (hl : ∀ x ∈ l, 0 ≤ x ∧ x ≤ 1) : l.prod ≤ 1 := by
  induction l with
  | nil => exact le_refl 1
  | cons a l ih =>
      have hrest : ∀ x ∈ l, 0 ≤ x ∧ x ≤ 1 := fun x hx => hl x (List.mem_cons_of_mem _ hx)
      have ha := hl a List.mem_cons_self
      rw [List.prod_cons]
      exact mul_le_one₀ ha.2 (List.prod_nonneg fun x hx => (hrest x hx).1) (ih hrest)

/-- A product of fractions is at most each of them. -/
theorem prod_le_of_mem {l : List ℚ} (hl : ∀ x ∈ l, 0 ≤ x ∧ x ≤ 1) {y : ℚ} (hy : y ∈ l) :
    l.prod ≤ y := by
  induction l with
  | nil => exact absurd hy List.not_mem_nil
  | cons a l ih =>
      have hrest : ∀ x ∈ l, 0 ≤ x ∧ x ≤ 1 := fun x hx => hl x (List.mem_cons_of_mem _ hx)
      have ha := hl a List.mem_cons_self
      have h0 : 0 ≤ l.prod := List.prod_nonneg fun x hx => (hrest x hx).1
      rw [List.prod_cons]
      rcases List.mem_cons.mp hy with rfl | hy
      · exact mul_le_of_le_one_right ha.1 (prod_le_one hrest)
      · exact (mul_le_of_le_one_left h0 ha.2).trans (ih hrest hy)

/-- What a class gets depends on what is left for it only if it is a real-time class. -/
theorem shares_allotted_iff {linespeed : ℚ} {s : Sums} {r : Row} (hp : r.prio ≠ 0)
    (hs : Rt r → s.sumRtprio ≠ 0) (hd : Rt r → r.d ≠ 0) (m m' : ℚ) :
    (allotted linespeed s m r).shares = (allotted linespeed s m' r).shares ↔
      (Rt r → m = m') := by
  constructor
  · intro h hr
    have h1 : (allotted linespeed s m r).rtm1 = (allotted linespeed s m' r).rtm1 :=
      congrArg Shares.rtm1 h
    rw [allotted_rtm1 _ _ _ _ hr, allotted_rtm1 _ _ _ _ hr, share, share, if_pos hr, if_pos hr,
      add_right_inj, div_left_inj' (hd hr), div_left_inj' (hs hr)] at h1
    exact mul_right_cancel₀ hp h1
  · intro h
    by_cases hr : Rt r
    · rw [h hr]
    · simp only [allotted, hr, if_false]

/-- The row of a class after the second pass. -/
def preparedRow (linespeed : ℚ) (c : Class) : Row :=
  delayed (speed linespeed) (withDefaults (rowOf (speed linespeed) c.1))

/-- A line of a real-time class without a given delay. -/
def RtLine (l : Line) : Prop := 0 < l.avgrate ∧ ¬0 < l.delay

theorem rt_rowOf (linespeed : ℚ) (l : Line) : Rt (rowOf (speed linespeed) l) ↔ RtLine l := by
  have hl := speed_pos linespeed
  have hrate : 0 < l.avgrate * speed linespeed / 100 ↔ 0 < l.avgrate := by
    rw [div_pos_iff_of_pos_right (by norm_num), mul_pos_iff_of_pos_right hl]
  exact and_congr hrate Iff.rfl

theorem rt_preparedRow (linespeed : ℚ) (c : Class) : Rt (preparedRow linespeed c) ↔ RtLine c.1 :=
  (rt_delayed _ _).trans (rt_rowOf linespeed c.1)

theorem prepared_rowsOf (linespeed : ℚ) (c : Fin n → Class) :
    prepared (speed linespeed) (rowsOf linespeed c) =
      List.ofFn fun i => preparedRow linespeed (c i) := by
  rw [prepared, rowsOf, List.map_ofFn]
  rfl

theorem mem_take_ofFn {α : Type*} {f : Fin n → α} {j : Nat} {x : α} :
    x ∈ (List.ofFn f).take j ↔ ∃ i : Fin n, i.1 < j ∧ f i = x := by
  rw [List.mem_take_iff_getElem]
  constructor
  · rintro ⟨i, hi, rfl⟩
    rw [List.length_ofFn, lt_min_iff] at hi
    exact ⟨⟨i, hi.2⟩, hi.1, by simp⟩
  · rintro ⟨i, hi, rfl⟩
    exact ⟨i, by rw [List.length_ofFn]; exact lt_min hi i.2, by simp⟩

/-- The order is free when what is left for a real-time class is. -/
theorem orderFree_iff_leftFor (linespeed : ℚ) (c : Fin n → Class) : OrderFree linespeed c ↔
    ∀ (σ : Equiv.Perm (Fin n)) (i : Fin n), RtLine (c (σ i)).1 →
      leftFor linespeed (c ∘ σ) i = leftFor linespeed c (σ i) := by
  refine forall_congr' fun σ => forall_congr' fun i => ?_
  have hmem : preparedRow linespeed (c (σ i)) ∈
      prepared (speed linespeed) (rowsOf linespeed c) := by
    rw [prepared_rowsOf]
    exact List.mem_ofFn.mpr ⟨σ i, rfl⟩
  obtain ⟨hp, hle, hd⟩ := mem_prepared hmem (speed_pos linespeed)
  rw [sharesOf_eq, sharesOf_eq, sums_perm (rowsOf_perm linespeed c σ), Option.some_inj]
  exact (shares_allotted_iff hp.ne' (fun h => (hp.trans_le (hle h)).ne') (fun h => (hd h).ne')
    _ _).trans (imp_congr_left (rt_preparedRow linespeed (c (σ i))))

theorem leftFor_eq (linespeed : ℚ) (c : Fin n → Class) (i : Fin n) :
    leftFor linespeed c i = budget (speed linespeed) (rowsOf linespeed c) *
      (((prepared (speed linespeed) (rowsOf linespeed c)).take i).map
        (leaves (sums (rowsOf linespeed c)))).prod :=
  passState_allocateStep _ _ _ _

/-- The first real-time class finds the whole budget. -/
theorem leftFor_first {linespeed : ℚ} {c : Fin n → Class} {i : Fin n}
    (hi : ∀ k < i, ¬RtLine (c k).1) :
    leftFor linespeed c i = budget (speed linespeed) (rowsOf linespeed c) := by
  rw [leftFor_eq, List.prod_eq_one, mul_one]
  intro x hx
  obtain ⟨r, hr, rfl⟩ := List.mem_map.mp hx
  rw [prepared_rowsOf] at hr
  obtain ⟨k, hk, rfl⟩ := mem_take_ofFn.mp hr
  exact if_neg fun h => hi k hk ((rt_preparedRow linespeed (c k)).mp h)

/-- A real-time class behind another one finds less than the whole budget. -/
theorem leftFor_lt (linespeed : ℚ) {c : Fin n → Class} {k j : Fin n} (hk : RtLine (c k).1)
    (hkj : k < j) : ∃ q < 1,
      leftFor linespeed c j = budget (speed linespeed) (rowsOf linespeed c) * q := by
  refine ⟨_, ?_, leftFor_eq linespeed c j⟩
  have hall : ∀ x ∈ ((prepared (speed linespeed) (rowsOf linespeed c)).take j).map
      (leaves (sums (rowsOf linespeed c))), 0 ≤ x ∧ x ≤ 1 := by
    intro x hx
    obtain ⟨r, hr, rfl⟩ := List.mem_map.mp hx
    obtain ⟨hp, hle, _⟩ := mem_prepared (List.mem_of_mem_take hr) (speed_pos linespeed)
    unfold leaves
    split
    · rename_i hrt
      have hs := hp.trans_le (hle hrt)
      exact ⟨sub_nonneg.mpr ((div_le_one hs).mpr (hle hrt)), sub_le_self 1 (div_nonneg hp.le hs.le)⟩
    · exact ⟨zero_le_one, le_refl 1⟩
  have hmem : preparedRow linespeed (c k) ∈
      (prepared (speed linespeed) (rowsOf linespeed c)).take j := by
    rw [prepared_rowsOf]
    exact mem_take_ofFn.mpr ⟨k, hkj, rfl⟩
  obtain ⟨hp, hle, _⟩ := mem_prepared (List.mem_of_mem_take hmem) (speed_pos linespeed)
  have hrt := (rt_preparedRow linespeed (c k)).mpr hk
  refine (prod_le_of_mem hall (List.mem_map_of_mem hmem)).trans_lt ?_
  rw [leaves, if_pos hrt]
  exact sub_lt_self 1 (div_pos hp (hp.trans_le (hle hrt)))

/-- No delay of a real-time class exceeds the greatest one. -/
theorem le_passState_delayStep (linespeed m : ℚ) {rows : List Row} {r : Row} (hr : r ∈ rows)
    (hrt : Rt r) : (delayed linespeed r).d ≤ passState (delayStep linespeed) m rows := by
  induction rows generalizing m with
  | nil => exact absurd hr List.not_mem_nil
  | cons a rows ih =>
      rcases List.mem_cons.mp hr with rfl | hr
      · have hhead : (delayed linespeed r).d ≤ (delayStep linespeed m r).2 := by
          rw [delayStep_snd, if_pos hrt]
          exact le_max_right _ _
        change _ ≤ passState (delayStep linespeed) (delayStep linespeed m r).2 rows
        refine passState_invariant (I := ((delayed linespeed r).d ≤ ·)) (fun b _ m hm => ?_) hhead
        rw [delayStep_snd]
        split
        · exact hm.trans (le_max_left _ _)
        · exact hm
      · exact ih _ hr

theorem allocated_rowsOf (linespeed : ℚ) (c : Fin n → Class) :
    (sums (rowsOf linespeed c)).allocated =
      (∑ i, (c i).1.avgrate) * (speed linespeed / 100) := by
  rw [sums_eq, rowsOf, List.map_ofFn, List.sum_ofFn, Finset.sum_mul]
  change ∑ i, (c i).1.avgrate * speed linespeed / 100 = _
  exact Finset.sum_congr rfl fun i _ => mul_div_assoc (c i).1.avgrate (speed linespeed) 100

/-- There is a budget if there is a real-time class and the rates leave something. -/
theorem budget_eq_zero_iff (linespeed : ℚ) {c : Fin n → Class} {i : Fin n}
    (hi : RtLine (c i).1) : budget (speed linespeed) (rowsOf linespeed c) = 0 ↔
      ∑ i, (c i).1.avgrate = 100 := by
  have hl := speed_pos linespeed
  have hrow : withDefaults (rowOf (speed linespeed) (c i).1) ∈
      (rowsOf linespeed c).map withDefaults :=
    List.mem_map_of_mem (List.mem_ofFn.mpr ⟨i, rfl⟩)
  have hrt : Rt (withDefaults (rowOf (speed linespeed) (c i).1)) :=
    (rt_rowOf linespeed (c i).1).mpr hi
  have hd : 0 < dmax (speed linespeed) (rowsOf linespeed c) :=
    (delayed_d_pos hl (pktsize_pos _) hrt.1).trans_le
      (le_passState_delayStep _ 0 hrow hrt)
  have hrate (x : ℚ) : speed linespeed - x * (speed linespeed / 100) =
      (100 - x) * (speed linespeed / 100) := by
    rw [sub_mul, mul_div_cancel₀ _ (by norm_num)]
  have hne : speed linespeed / 100 ≠ 0 := (div_pos hl (by norm_num)).ne'
  rw [budget, allocated_rowsOf, hrate, mul_eq_zero, mul_eq_zero, or_iff_right hd.ne',
    or_iff_left hne, sub_eq_zero]
  exact eq_comm

/-- The order is free when at most one class takes from the budget, or there is none. -/
theorem tcrules_orderFree (linespeed : ℚ) (c : Fin n → Class) : OrderFree linespeed c ↔
    (∀ i j, RtLine (c i).1 → RtLine (c j).1 → i = j) ∨ ∑ i, (c i).1.avgrate = 100 := by
  rw [orderFree_iff_leftFor]
  constructor
  · intro h
    by_contra hno
    obtain ⟨hex, hsum⟩ := not_or.mp hno
    simp only [not_forall] at hex
    obtain ⟨i, j, hi, hj, hij⟩ := hex
    -- The first real-time class changes places with another one.
    obtain ⟨a, ha, hmin⟩ := wellFounded_lt.has_min {k | RtLine (c k).1} ⟨i, hi⟩
    have hfirst : ∀ k < a, ¬RtLine (c k).1 := fun k hk hrt => hmin k hrt hk
    obtain ⟨b, hb, hab⟩ : ∃ b, RtLine (c b).1 ∧ a < b := by
      by_cases hai : a = i
      · exact ⟨j, hj, lt_of_le_of_ne (not_lt.mp (hmin j hj)) (hai ▸ hij)⟩
      · exact ⟨i, hi, lt_of_le_of_ne (not_lt.mp (hmin i hi)) hai⟩
    have hswap : Equiv.swap a b b = a := Equiv.swap_apply_right a b
    have hka : RtLine ((c ∘ Equiv.swap a b) a).1 := by
      rw [Function.comp_apply, Equiv.swap_apply_left]
      exact hb
    obtain ⟨q, hq, hleft⟩ := leftFor_lt linespeed hka hab
    have h := h (Equiv.swap a b) b (hswap.symm ▸ ha)
    rw [hswap, leftFor_first hfirst, hleft, budget_perm _ (rowsOf_perm linespeed c _)] at h
    have hbudget : budget (speed linespeed) (rowsOf linespeed c) ≠ 0 := fun h0 =>
      hsum ((budget_eq_zero_iff linespeed ha).mp h0)
    exact hq.ne (mul_right_eq_self₀.mp h |>.resolve_right hbudget)
  · rintro (hone | hsum) σ i hi
    · have hσ : ∀ k < i, ¬RtLine ((c ∘ σ) k).1 := fun k hk hrt =>
        hk.ne (σ.injective (hone _ _ hrt hi))
      have hc : ∀ k < σ i, ¬RtLine (c k).1 := fun k hk hrt => hk.ne (hone _ _ hrt hi)
      rw [leftFor_first hσ, leftFor_first hc, budget_perm _ (rowsOf_perm linespeed c σ)]
    · have h0 := (budget_eq_zero_iff linespeed hi).mpr hsum
      rw [leftFor_eq, leftFor_eq, budget_perm _ (rowsOf_perm linespeed c σ), h0, zero_mul, zero_mul]

/-- Two equal classes get different shares. -/
theorem tcrules_order :
    ¬OrderFree 1000 (fun _ : Fin 2 => (⟨⟨"10", 1, 10, 0, 0, 0⟩, by decide⟩ : Class)) := by
  intro h
  have h := h (Equiv.swap 0 1) 0
  revert h
  decide +kernel

end UbntSdk.Qos
