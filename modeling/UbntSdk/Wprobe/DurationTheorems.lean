/-
UbntSdk.Wprobe.DurationTheorems — the duration of a measurement.

`wprobe_send_item_value` reports `last - first`. `WPROBE_SET` stores the time
in `first`, twice, and nothing stores one in `last`: what is reported is the
time of the last update, counted down from 0 (`history_first_last`,
`duration_wrong`).
-/
import UbntSdk.Wprobe.ScaleTheorems
import UbntSdk.Wprobe.Dump

namespace UbntSdk.Wprobe

/-! ## Histories of a value -/

/-- What happens to a value between two resets: the driver sets it, or the
statistics are updated, with or without scaling. -/
inductive ValueStep where
  | set (msecs : UInt32) (num : UInt64) (str : Option (List UInt8))
  | stats (dev : Iface) (now : UInt64) (scale : Bool)

def ValueStep.apply (item : Item) (v : Value) : ValueStep → Value
  | .set msecs num str => wprobeSet item item.type num str msecs v
  | .stats dev now scale =>
      if scale then scaleValue dev now item (updateValue item.type v) else updateValue item.type v

/-- The value after a reset and these steps. -/
def history (item : Item) (steps : List ValueStep) : Value :=
  steps.foldl (fun v step => step.apply item v) .zero

def ValueStep.time : ValueStep → Option UInt32
  | .set msecs _ _ => some msecs
  | .stats _ _ _ => none

/-- The times of the updates. -/
def times (steps : List ValueStep) : List UInt32 := steps.filterMap ValueStep.time

theorem updateValue_times (ty : Attr) (v : Value) :
    (updateValue ty v).first = v.first ∧ (updateValue ty v).last = v.last := by
  unfold updateValue
  split
  · dsimp only
    split <;> exact ⟨rfl, rfl⟩
  · exact ⟨rfl, rfl⟩

theorem scaleValue_times (dev : Iface) (now : UInt64) (item : Item) (v : Value) :
    (scaleValue dev now item v).first = v.first ∧ (scaleValue dev now item v).last = v.last := by
  unfold scaleValue
  split <;> exact ⟨rfl, rfl⟩

theorem stats_times (item : Item) (v : Value) (dev : Iface) (now : UInt64) (scale : Bool) :
    (ValueStep.apply item v (.stats dev now scale)).first = v.first ∧
      (ValueStep.apply item v (.stats dev now scale)).last = v.last := by
  obtain ⟨hfirst, hlast⟩ := updateValue_times item.type v
  unfold ValueStep.apply
  cases scale with
  | false => exact ⟨hfirst, hlast⟩
  | true =>
      obtain ⟨hscaled, hscaledLast⟩ := scaleValue_times dev now item (updateValue item.type v)
      exact ⟨hscaled.trans hfirst, hscaledLast.trans hlast⟩

theorem wprobeSet_times (item : Item) (num : UInt64) (str : Option (List UInt8)) (msecs : UInt32)
    (v : Value) :
    (wprobeSet item item.type num str msecs v).first = msecs.toUInt64 ∧
      (wprobeSet item item.type num str msecs v).last = v.last := by
  unfold wprobeSet
  rw [if_neg (not_not_intro rfl)]
  refine ⟨rfl, ?_⟩
  dsimp only
  split <;> rfl

/-- The first time is that of the last update, and there is no last time. -/
theorem history_first_last (item : Item) (steps : List ValueStep) :
    (history item steps).first = ((times steps).getLast?.elim 0 (·.toUInt64)) ∧
      (history item steps).last = 0 := by
  induction steps using List.reverseRecOn with
  | nil => exact ⟨rfl, rfl⟩
  | append_singleton steps step ih =>
      have hstep : history item (steps ++ [step]) = step.apply item (history item steps) := by
        rw [history, List.foldl_append]
        rfl
      rw [hstep]
      cases step with
      | set msecs num str =>
          obtain ⟨hfirst, hlast⟩ := wprobeSet_times item num str msecs (history item steps)
          have htimes : times (steps ++ [.set msecs num str]) = times steps ++ [msecs] := by
            rw [times, List.filterMap_append]
            rfl
          rw [htimes, List.getLast?_append]
          exact ⟨hfirst, hlast.trans ih.2⟩
      | stats dev now scale =>
          obtain ⟨hfirst, hlast⟩ := stats_times item (history item steps) dev now scale
          have htimes : times (steps ++ [.stats dev now scale]) = times steps := by
            rw [times, List.filterMap_append]
            exact List.append_nil _
          rw [htimes]
          exact ⟨hfirst.trans ih.1, hlast.trans ih.2⟩

/-! ## Snapshots -/

theorem updateStats_times (dev : Iface) (now : UInt64) (items : List Item) (val : Nat → Value)
    (i : Nat) : (updateStats dev now items val i).first = (val i).first ∧
      (updateStats dev now items val i).last = (val i).last := by
  have hitems : ∀ (f : Item → Value → Value) (val : Nat → Value),
      (∀ item v, (f item v).first = v.first ∧ (f item v).last = v.last) →
        (forItems items f val i).first = (val i).first ∧
          (forItems items f val i).last = (val i).last := by
    intro f val hf
    unfold forItems
    cases items[i]? with
    | none => exact ⟨rfl, rfl⟩
    | some item => exact hf item (val i)
  obtain ⟨hfirst, hlast⟩ := hitems (fun item => updateValue item.type) val
    fun item v => updateValue_times item.type v
  unfold updateStats
  dsimp only
  split
  · obtain ⟨hscaled, hscaledLast⟩ := hitems (scaleValue dev now)
      (forItems items (fun item => updateValue item.type) val)
      fun item v => scaleValue_times dev now item v
    exact ⟨hscaled.trans hfirst, hscaledLast.trans hlast⟩
  · exact ⟨hfirst, hlast⟩

theorem items_setVals (dev : Iface) (l : Option Nat) (val : Nat → Value) :
    (dev.setVals l val).items l = dev.items l := by
  cases l <;> rfl

theorem copyVals_setVals {dev : Iface} {l : Option Nat}
    (hl : l.all (· < dev.links.length) = true) {i : Nat} (hi : i < (dev.items l).length)
    (val dst : Nat → Value) :
    copyVals ((dev.setVals l val).items l).length ((dev.setVals l val).vals l) dst i = val i := by
  rw [items_setVals, vals_setVals _ hl, copyVals, if_pos hi]

/-- Data taken from the driver keeps its times. -/
theorem syncData_times (dev : Iface) (l : Option Nat) (query : Bool) (sync : SyncData)
    (now : UInt64) :
    ∃ (dev' : Iface) (val : Nat → Value), syncData dev l query sync now = dev'.setVals l val ∧
      dev'.links = dev.links ∧ dev'.items l = dev.items l ∧
      ∀ i, (val i).first = ((sync (dev.vals l)).2 i).first ∧
        (val i).last = ((sync (dev.vals l)).2 i).last := by
  have hitems : ∀ queryVal : Nat → Value,
      ({ dev with queryVal := queryVal } : Iface).items l = dev.items l := by
    intro queryVal
    cases l <;> rfl
  unfold syncData
  by_cases herr : (sync (dev.vals l)).1 = 0
  · cases query with
    | false =>
        exact ⟨dev, _, if_neg (not_not.mpr herr), rfl, rfl, updateStats_times _ _ _ _⟩
    | true =>
        exact ⟨_, _, if_neg (not_not.mpr herr), rfl, hitems _, updateStats_times _ _ _ _⟩
  · exact ⟨dev, _, if_pos herr, rfl, rfl, fun i => ⟨rfl, rfl⟩⟩

/-- A snapshot has the times that the driver left. -/
theorem snapshot_times {dev : Iface} {l : Option Nat} (hl : l.all (· < dev.links.length) = true)
    (sync : SyncData) (now : UInt64) {i : Nat} (hi : i < (dev.items l).length) :
    ((snapshot dev l sync now).queryVal i).first = ((sync (dev.vals l)).2 i).first ∧
      ((snapshot dev l sync now).queryVal i).last = ((sync (dev.vals l)).2 i).last := by
  obtain ⟨dev', val, hsync, hlinks, hitems, htimes⟩ := syncData_times dev l true sync now
  unfold snapshot
  dsimp only
  rw [hsync, copyVals_setVals (hlinks ▸ hl) (hitems ▸ hi)]
  exact htimes i

/-- The duration that is reported for updates at these times is not the time
between the first and the last. -/
theorem duration_wrong {dev : Iface} {l : Option Nat} (hl : l.all (· < dev.links.length) = true)
    {i : Nat} {item : Item} (hitem : (dev.items l)[i]? = some item) {sync : SyncData}
    {steps : List ValueStep} (hvalue : (sync (dev.vals l)).2 i = history item steps)
    (hne : times steps ≠ []) (hsorted : (times steps).Pairwise (· ≤ ·))
    (hpos : ∀ t ∈ times steps, t ≠ 0) (flags : UInt32) (now : UInt64) :
    (valueRecord item i flags ((snapshot dev l sync now).queryVal i)).duration ≠
      ((times steps).getLast hne).toUInt64 - ((times steps).head hne).toUInt64 := by
  have hi := (List.getElem?_eq_some_iff.mp hitem).1
  obtain ⟨hfirst, hlast⟩ := snapshot_times hl sync now hi
  obtain ⟨htime, hnever⟩ := history_first_last item steps
  have hlastpos : (times steps).getLast hne ≠ 0 := hpos _ (List.getLast_mem hne)
  have hle : (times steps).head hne ≤ (times steps).getLast hne := by
    clear hlastpos htime
    generalize times steps = ts at hne hsorted
    cases ts with
    | nil => exact absurd rfl hne
    | cons t rest =>
        rcases List.mem_cons.mp (List.getLast_mem hne) with heq | hmem
        · rw [heq]
          exact UInt32.le_refl _
        · exact (List.pairwise_cons.mp hsorted).1 _ hmem
  intro heq
  change _ - _ = _ at heq
  rw [hlast, hfirst, hvalue, hnever, htime, List.getLast?_eq_some_getLast hne] at heq
  generalize (times steps).getLast hne = t at hlastpos hle heq
  generalize (times steps).head hne = t₀ at hle heq
  have hlt : t.toNat < 2 ^ 32 := t.toNat_lt
  have hpos : t.toNat ≠ 0 := fun hzero => hlastpos (UInt32.toNat_inj.mp hzero)
  have hnat := congrArg UInt64.toNat heq
  simp only [Option.elim_some, UInt64.toNat_sub, UInt32.toNat_toUInt64, UInt64.toNat_zero] at hnat
  rw [UInt32.le_iff_toNat_le] at hle
  omega

/-- An interface with one item, which the driver sets at 5 ms and at 9 ms. -/
def measured : Iface := addIface [0x61] none [] [counter]
def twoUpdates : List ValueStep := [.set 5 1 none, .set 9 2 none]
def driver : SyncData := fun _ => (0, fun _ => history counter twoUpdates)

theorem twoUpdates_ne : times twoUpdates ≠ [] := by decide

theorem duration_wrong_twice :
    (valueRecord counter 0 0 ((snapshot measured none driver 0).queryVal 0)).duration ≠
      ((times twoUpdates).getLast twoUpdates_ne).toUInt64 -
        ((times twoUpdates).head twoUpdates_ne).toUInt64 := by
  have hitem : (measured.items none)[0]? = some counter := rfl
  have hvalue : (driver (measured.vals none)).2 0 = history counter twoUpdates := rfl
  have htimes : times twoUpdates = [5, 9] := rfl
  have hpos : ∀ t ∈ times twoUpdates, t ≠ 0 := by simp [htimes]
  exact duration_wrong rfl hitem hvalue twoUpdates_ne (by decide) hpos 0 0

/-- What is reported is 2^64 - 9, not 4. -/
theorem duration_wraps :
    (valueRecord counter 0 0 ((snapshot measured none driver 0).queryVal 0)).duration =
      18446744073709551607 ∧ (9 : UInt32).toUInt64 - (5 : UInt32).toUInt64 = 4 := by
  decide +kernel

end UbntSdk.Wprobe
