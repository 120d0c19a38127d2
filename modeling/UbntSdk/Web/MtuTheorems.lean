/-
UbntSdk.Web.MtuTheorems — when `updateStatuses` leaves no VLAN with a larger
MTU than its parent has.

The loop is a pass of `UbntSdk.Lib.Capping` over the links between the entries
of parents and VLANs (`updateStatuses_eq`). Two MTUs that are both text are
compared as text, which is not the order of the numbers if they have different
lengths; and a VLAN that is the parent of an earlier VLAN can be lowered below
it. The loop settles where its steps are in order.
-/
import UbntSdk.Lib.Capping
import UbntSdk.Web.Mtu

namespace UbntSdk.Web

open UbntSdk.Lib.Js UbntSdk.Lib.Capping

namespace Mtu

theorem less_self (a : Mtu) : less a a = false := by
  obtain ⟨v, hv⟩ := a
  cases v with
  | text t => simp [less, Primitive.less]
  | number n => exact Number.lt_self n

/-- The comparison is right, unless it is one of texts. -/
theorem less_number {a b : Mtu} (h : ∀ t t', a.val = .text t → b.val ≠ .text t') :
    less a b = numLess num a b := by
  obtain ⟨v, hv⟩ := a
  obtain ⟨w, hw⟩ := b
  have hrank := Number.lt_iff_rank hv hw
  rw [Bool.eq_iff_iff]
  refine Iff.trans ?_ decide_eq_true_iff.symm
  cases v with
  | text t =>
      cases w with
      | text t' => exact absurd rfl (h t t' rfl)
      | number n => exact hrank
  | number n =>
      cases w with
      | text t => exact hrank
      | number n' => exact hrank

end Mtu

namespace MtuConf

/-- The MTUs of the records. -/
def mtus (c : MtuConf) (r : Nat) : Mtu := (c.records r).mtu

/-- The links between the entries of the parents and those of the VLANs. -/
def links (c : MtuConf) : List (Link Nat) :=
  c.vlan.filterMap fun v => (c.entries v).map fun e => ⟨e.1, e.2⟩

/-- No VLAN has a larger MTU than its parent. -/
def Below (c : MtuConf) : Prop :=
  ∀ v ∈ c.vlan, ∀ e ∈ c.entries v, (c.mtus e.2).num ≤ (c.mtus e.1).num

/-- What `updateStatuses` is to do. -/
structure Settled (c : MtuConf) : Prop where
  below : c.updateStatuses.Below
  kept : ∀ v ∈ c.vlan, ∀ e ∈ c.entries v, (c.mtus e.2).num ≤ (c.mtus e.1).num →
    c.updateStatuses.mtus e.2 = c.mtus e.2
  again : c.updateStatuses.updateStatuses = c.updateStatuses

/-- Every VLAN that the loop comes to, as far as it goes by the numbers, is
compared as the numbers are; and if it is lowered, then it had a larger MTU than
its parent from the start and stays above no earlier VLAN that it is the parent
of. -/
def InOrder (c : MtuConf) : Prop := Orderly Mtu.num Mtu.less c.links c.mtus

/-! ## The loop as a pass -/

/-- The configuration with other MTUs. -/
def withMtus (c : MtuConf) (m : Nat → Mtu) : MtuConf :=
  { c with records := fun r => { c.records r with mtu := m r } }

@[simp] theorem withMtus_mtus (c : MtuConf) (m : Nat → Mtu) : (c.withMtus m).mtus = m := rfl

@[simp] theorem withMtus_self (c : MtuConf) : c.withMtus c.mtus = c := rfl

@[simp] theorem withMtus_withMtus (c : MtuConf) (m m' : Nat → Mtu) :
    (c.withMtus m).withMtus m' = c.withMtus m' := rfl

@[simp] theorem withMtus_entries (c : MtuConf) (m : Nat → Mtu) :
    (c.withMtus m).entries = c.entries := rfl

@[simp] theorem withMtus_links (c : MtuConf) (m : Nat → Mtu) : (c.withMtus m).links = c.links := rfl

@[simp] theorem withMtus_vlan (c : MtuConf) (m : Nat → Mtu) : (c.withMtus m).vlan = c.vlan := rfl

theorem setMtu_eq (c : MtuConf) (r : Nat) (mtu : Mtu) :
    c.setMtu r mtu = c.withMtus (Function.update c.mtus r mtu) := by
  unfold setMtu withMtus
  congr 1
  funext k
  by_cases hk : k = r
  · subst hk
    simp
  · simp [hk, mtus]

/-- A step of the loop, at a VLAN with both entries. -/
theorem updateVlan_some {c : MtuConf} {v : VlanObj} {e : Nat × Nat} (h : c.entries v = some e) :
    c.updateVlan v = c.withMtus (cap Mtu.less c.mtus ⟨e.1, e.2⟩) := by
  by_cases hless : (c.mtus e.1).less (c.mtus e.2)
  · rw [cap, if_pos hless, ← setMtu_eq]
    simp only [updateVlan, h]
    exact if_pos hless
  · rw [cap, if_neg hless]
    simp only [updateVlan, h]
    exact if_neg hless

theorem foldl_updateVlan (c : MtuConf) (vlan : List VlanObj) (m : Nat → Mtu) :
    vlan.foldl updateVlan (c.withMtus m) = c.withMtus (capAll Mtu.less m
      (vlan.filterMap fun v => (c.entries v).map fun e => ⟨e.1, e.2⟩)) := by
  induction vlan generalizing m with
  | nil => rfl
  | cons v vlan ih =>
      rw [List.foldl_cons]
      cases h : c.entries v with
      | none =>
          have hstep : (c.withMtus m).updateVlan v = c.withMtus m := by simp [updateVlan, h]
          rw [hstep, ih]
          simp [h]
      | some e =>
          rw [updateVlan_some (c := c.withMtus m) h, withMtus_mtus, withMtus_withMtus, ih]
          simp [h, capAll_cons]

/-- The loop is a pass over the links. -/
theorem updateStatuses_eq (c : MtuConf) :
    c.updateStatuses = c.withMtus (capAll Mtu.less c.mtus c.links) :=
  foldl_updateVlan c c.vlan c.mtus

theorem forall_links (c : MtuConf) (p : Nat → Nat → Prop) :
    (∀ l ∈ c.links, p l.parent l.child) ↔ ∀ v ∈ c.vlan, ∀ e ∈ c.entries v, p e.1 e.2 := by
  constructor
  · intro h v hv e he
    refine h ⟨e.1, e.2⟩ (List.mem_filterMap.mpr ⟨v, hv, ?_⟩)
    rw [Option.mem_def.mp he, Option.map_some]
  · intro h l hl
    obtain ⟨v, hv, hl⟩ := List.mem_filterMap.mp hl
    obtain ⟨e, he, rfl⟩ := Option.map_eq_some_iff.mp hl
    exact h v hv e he

/-- The loop does what it is to do exactly if the pass settles. -/
theorem settled_iff (c : MtuConf) : c.Settled ↔ Settles Mtu.num Mtu.less c.links c.mtus := by
  have hbelow := forall_links c fun p k =>
    (capAll Mtu.less c.mtus c.links k).num ≤ (capAll Mtu.less c.mtus c.links p).num
  have hkept := forall_links c fun p k =>
    (c.mtus k).num ≤ (c.mtus p).num → capAll Mtu.less c.mtus c.links k = c.mtus k
  have hagain : c.updateStatuses.updateStatuses = c.updateStatuses ↔
      capAll Mtu.less (capAll Mtu.less c.mtus c.links) c.links =
        capAll Mtu.less c.mtus c.links := by
    rw [updateStatuses_eq, updateStatuses_eq]
    exact ⟨fun h => congrArg mtus h, fun h => congrArg c.withMtus h⟩
  constructor
  · intro h
    refine ⟨hbelow.mpr ?_, hkept.mpr ?_, hagain.mp h.again⟩
    · have hb := h.below
      rw [updateStatuses_eq] at hb
      exact hb
    · have hk := h.kept
      rw [updateStatuses_eq] at hk
      exact hk
  · intro h
    refine ⟨?_, ?_, hagain.mpr h.again⟩
    · rw [updateStatuses_eq]
      exact hbelow.mp h.below
    · rw [updateStatuses_eq]
      exact hkept.mp h.kept

/-! ## When it settles -/

/-- Where no VLAN is a parent, only the comparisons of the MTUs matter. -/
theorem inOrder_iff_of_flat {c : MtuConf} (hnodup : (c.links.map Link.child).Nodup)
    (hflat : ∀ l ∈ c.links, ∀ l' ∈ c.links, l.parent ≠ l'.child) :
    c.InOrder ↔ ∀ v ∈ c.vlan, ∀ e ∈ c.entries v,
      (c.mtus e.1).less (c.mtus e.2) = true ↔ (c.mtus e.1).num < (c.mtus e.2).num :=
  (orderly_iff_of_flat hnodup hflat).trans
    (forall_links c fun p k => (c.mtus p).less (c.mtus k) = true ↔ (c.mtus p).num < (c.mtus k).num)

/-- `updateStatuses` settles if its steps are in order, and only then if no two
VLANs have the same entry. -/
theorem updateStatuses_settled (c : MtuConf) : (c.InOrder → c.Settled) ∧
    ((c.links.map Link.child).Nodup → (c.Settled ↔ c.InOrder)) := by
  rw [settled_iff]
  exact ⟨Orderly.settles Mtu.less_self, orderly_iff Mtu.less_self⟩

/-- The VLAN 5 of `eth0`. -/
def eth0Vlan (parentMtu vlanMtu : Mtu) : MtuConf where
  netconf := [0, 1]
  records r :=
    if r = 0 then ⟨"eth0".toList, true, parentMtu⟩ else ⟨"eth0.5".toList, true, vlanMtu⟩
  vlan := [⟨"eth0".toList, ['5'], [], true⟩]

theorem eth0Vlan_links (a b : Mtu) : (eth0Vlan a b).links = [⟨0, 1⟩] := rfl

theorem eth0Vlan_nodup (a b : Mtu) : ((eth0Vlan a b).links.map Link.child).Nodup := by
  simp [eth0Vlan_links]

/-- The comparison of numbers is right. -/
theorem eth0Vlan_inOrder {a b : Mtu} (h : ∀ t t', a.val = .text t → b.val ≠ .text t') :
    (eth0Vlan a b).InOrder := by
  refine (inOrder_iff_of_flat (eth0Vlan_nodup a b) (by simp [eth0Vlan_links])).mpr ?_
  intro v hv e he
  obtain rfl := List.mem_singleton.mp hv
  obtain rfl : (0, 1) = e := Option.some.inj he
  change a.less b = true ↔ a.num < b.num
  rw [Mtu.less_number h]
  exact decide_eq_true_iff

theorem updateStatuses_settled_number :
    (eth0Vlan ⟨.text "900".toList, by decide +kernel⟩
      ⟨.number (.finite 1500), by decide⟩).Settled ∧
      ((eth0Vlan ⟨.text "900".toList, by decide +kernel⟩
        ⟨.number (.finite 1500), by decide⟩).Settled ↔
      (eth0Vlan ⟨.text "900".toList, by decide +kernel⟩
        ⟨.number (.finite 1500), by decide⟩).InOrder) :=
  ⟨(updateStatuses_settled _).1 (eth0Vlan_inOrder (by simp)),
    (updateStatuses_settled _).2 (eth0Vlan_nodup _ _)⟩

/-- The text `900` is not below the text `1500`. -/
theorem not_settled_texts :
    ¬(eth0Vlan ⟨.text "900".toList, by decide +kernel⟩
      ⟨.text "1500".toList, by decide +kernel⟩).Settled := by
  intro h
  have hlt : numLess Mtu.num (⟨.text "900".toList, by decide +kernel⟩ : Mtu)
      ⟨.text "1500".toList, by decide +kernel⟩ = true := by decide +kernel
  exact not_lt.mpr (h.below _ (List.mem_singleton_self _) (0, 1) rfl) (of_decide_eq_true hlt)

end MtuConf

end UbntSdk.Web
