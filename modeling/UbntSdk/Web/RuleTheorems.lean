/-
UbntSdk.Web.RuleTheorems — the ebtables rules of bridged interfaces.

The VLANs of a bridged interface have a rule each, and a bridged wireless
interface has an ARPNAT entry. `RulesMatch` says that the lists have these and
no others. The calls edit the lists in either order: a VLAN may come before or
after its interface becomes a port, so each of the two looks for the other.

The two do not look in the same way. A port with a dot in its name gets no
rules, and a port without a name is none; the rules of a port go wherever it
was removed from, and of two ARPNAT entries the first one. Where there is no
section for VLANs, a port that is removed may stay without its entry. `Tidy` is
what a call relies on, and a run of tidy calls keeps the rules (`rules_reached`).

What a call does to the lists is one lemma for each (`addBridgePort_lists`,
`removeBridgePort_lists`), for calls that throw as well; `rulesMatch_…` says of
each list what is counted in it, and `rules_step` puts the calls together.
-/
import Mathlib.Data.List.Pairwise
import UbntSdk.Web.InterfaceTheorems

namespace UbntSdk.Web

/-! ## Rules -/

theorem same_iff {v o : VlanObj} : v.same o = true ↔ o.devname = v.devname ∧ o.id = v.id := by
  simp [VlanObj.same]

theorem same_self (v : VlanObj) : v.same v = true := same_iff.mpr ⟨rfl, rfl⟩

/-- A rule belongs to one VLAN. -/
theorem same_congr {v w o : VlanObj} (hv : v.same o = true) (hw : w.same o = true) :
    v.same w = true := by
  rw [same_iff] at hv hw ⊢
  exact ⟨hw.1.symm.trans hv.1, hw.2.symm.trans hv.2⟩

/-- The rules and the ARPNAT entries are those of the bridged interfaces. -/
structure RulesMatch (s : Net) : Prop where
  vlans : ∀ v ∈ s.vlanObjs, v.devname ∈ s.getPorts → s.ebVlan.objs.countP v.same = 1
  rules : ∀ o ∈ s.ebVlan.objs, o.devname ∈ s.getPorts ∧ ∃ v ∈ s.vlanObjs, v.same o = true
  arpnat : ∀ d, d.hasText ATH = true →
    s.arpnat.objs.countP (fun o => o.devname = d && o.enabled) = if d ∈ s.getPorts then 1 else 0

/-- No two VLANs have the same interface. -/
def DistinctVlans (s : Net) : Prop := s.vlanObjs.Pairwise fun v o => v.same o = false

namespace Net

/-- The interface is one that rules are about. -/
def Ruled (s : Net) (d : Str) : Prop :=
  d.hasText ATH = true ∨ ∃ v ∈ s.vlanObjs, v.devname = d

section

variable {s t : Net} {d e : Str} {i : Nat} {b b' : BridgeObj}

/-- Interfaces without rules may become ports, or no ports any more. -/
theorem rulesMatch_of_ports (h : RulesMatch s) (hvlan : t.vlanObjs = s.vlanObjs)
    (heb : t.ebVlan.objs = s.ebVlan.objs) (harpnat : t.arpnat.objs = s.arpnat.objs)
    (hports : ∀ d, s.Ruled d → (d ∈ t.getPorts ↔ d ∈ s.getPorts)) : RulesMatch t := by
  refine ⟨fun v hv hport => ?_, fun o ho => ?_, fun d hd => ?_⟩
  · rw [hvlan] at hv
    rw [heb]
    exact h.vlans v hv ((hports _ (Or.inr ⟨v, hv, rfl⟩)).mp hport)
  · rw [heb] at ho
    obtain ⟨hport, v, hv, hsame⟩ := h.rules o ho
    refine ⟨(hports _ (Or.inr ⟨v, hv, ?_⟩)).mpr hport, v, by rw [hvlan]; exact hv, hsame⟩
    exact (same_iff.mp hsame).1.symm
  · rw [harpnat, h.arpnat d hd]
    simp only [hports d (Or.inl hd)]

/-! ### Interfaces come and go -/

/-- What the rules are about. -/
def ruleLists (s : Net) :
    List BridgeObj × Option (Section VlanObj) × Section VlanObj × Section RuleObj :=
  (s.bridges, s.vlan, s.ebVlan, s.arpnat)

theorem vlan_of_lists (h : t.ruleLists = s.ruleLists) : t.vlan = s.vlan := by
  simp only [ruleLists, Prod.mk.injEq] at h
  exact h.2.1

theorem noVlanSection_congr (hvlan : t.vlan = s.vlan) : t.noVlanSection d = s.noVlanSection d := by
  rw [noVlanSection, noVlanSection, hvlan]

theorem vlanObjs_congr (hvlan : t.vlan = s.vlan) : t.vlanObjs = s.vlanObjs := by
  rw [vlanObjs, vlanObjs, hvlan]

/-- Without the section there is nothing to take away. -/
theorem vlanObjs_erase (hvlan : t.vlan = s.vlan.map fun vlan =>
    ⟨vlan.enabled, vlan.objs.eraseIdx i⟩) : t.vlanObjs = s.vlanObjs.eraseIdx i := by
  rw [vlanObjs, vlanObjs, hvlan]
  cases s.vlan with
  | none => rfl
  | some vlan => rfl

theorem rulesMatch_congr (hlists : t.ruleLists = s.ruleLists) (h : RulesMatch s) : RulesMatch t := by
  simp only [ruleLists, Prod.mk.injEq] at hlists
  obtain ⟨hbridges, hvlan, heb, harpnat⟩ := hlists
  refine rulesMatch_of_ports h (vlanObjs_congr hvlan) (by rw [heb]) (by rw [harpnat]) fun d _ => ?_
  rw [getPorts, hbridges, getPorts]

theorem useIfc_lists {role : Option Str} : (s.useIfc d role).ruleLists = s.ruleLists := by
  unfold useIfc
  split
  · dsimp only
    split <;> rfl
  · rfl

theorem addIfc_lists : (s.addIfc d).ruleLists = s.ruleLists := by
  unfold addIfc
  split <;> rfl

theorem removeIfc_lists : (s.removeIfc d).ruleLists = s.ruleLists := by
  unfold removeIfc
  split
  · rfl
  · dsimp only
    rw [useIfc_lists]
    split <;> rfl

theorem clearIfc_lists : (s.clearIfc d).ruleLists = s.ruleLists := by
  unfold clearIfc
  split <;> rfl

/-! ### VLANs -/

theorem rulesMatch_addVlan {v : VlanObj} (h : RulesMatch s)
    (hnew : ∀ o ∈ s.vlanObjs, v.same o = false) : RulesMatch (s.addVlan v) := by
  have hnone : s.ebVlan.objs.countP v.same = 0 := by
    refine List.countP_eq_zero.mpr fun o ho hsame => ?_
    obtain ⟨_, w, hw, hwo⟩ := h.rules o ho
    have hvw := same_congr hsame hwo
    rw [hnew w hw] at hvw
    cases hvw
  have hother : ∀ w ∈ s.vlanObjs, ¬ w.same v = true := by
    intro w hw hsame
    have hvw := same_congr (same_self v) hsame
    rw [hnew w hw] at hvw
    cases hvw
  unfold addVlan
  refine rulesMatch_congr addIfc_lists ?_
  by_cases hport : v.devname ∈ s.getPorts
  · simp only [hport, if_true]
    refine ⟨fun w hw hwport => ?_, fun o ho => ?_, h.arpnat⟩
    · change w ∈ s.vlanObjs ++ [v] at hw
      change w.devname ∈ s.getPorts at hwport
      change (s.ebVlan.objs ++ [v]).countP w.same = 1
      rw [List.countP_append, List.countP_singleton]
      rcases List.mem_append.mp hw with hw | hw
      · rw [h.vlans w hw hwport, if_neg (hother w hw)]
      · rw [List.mem_singleton.mp hw, hnone, if_pos (same_self v)]
    · change o ∈ s.ebVlan.objs ++ [v] at ho
      change o.devname ∈ s.getPorts ∧ ∃ w ∈ s.vlanObjs ++ [v], w.same o = true
      rcases List.mem_append.mp ho with ho | ho
      · obtain ⟨hoport, w, hw, hwo⟩ := h.rules o ho
        exact ⟨hoport, w, List.mem_append_left _ hw, hwo⟩
      · rw [List.mem_singleton.mp ho]
        exact ⟨hport, v, by simp, same_self v⟩
  · simp only [hport, if_false]
    refine ⟨fun w hw hwport => ?_, fun o ho => ?_, h.arpnat⟩
    · change w ∈ s.vlanObjs ++ [v] at hw
      change w.devname ∈ s.getPorts at hwport
      rcases List.mem_append.mp hw with hw | hw
      · exact h.vlans w hw hwport
      · rw [List.mem_singleton.mp hw] at hwport
        exact absurd hwport hport
    · obtain ⟨hoport, w, hw, hwo⟩ := h.rules o ho
      exact ⟨hoport, w, List.mem_append_left _ hw, hwo⟩

theorem countP_removeRules {v w : VlanObj} (hvw : v.same w = false) :
    (s.removeRules v).ebVlan.objs.countP w.same = s.ebVlan.objs.countP w.same := by
  change (s.ebVlan.objs.filter fun o => !v.same o).countP w.same = _
  rw [List.countP_filter]
  refine List.countP_congr fun o _ => ?_
  constructor
  · intro hboth
    rw [Bool.and_eq_true] at hboth
    exact hboth.1
  · intro hwo
    have hvo : v.same o = false := by
      by_contra hc
      rw [Bool.not_eq_false] at hc
      rw [same_congr hc hwo] at hvw
      cases hvw
    rw [hwo, hvo]
    rfl

theorem rulesMatch_removeVlan (h : RulesMatch s) (hdistinct : DistinctVlans s)
    (ht : s.removeVlan i = some t) : RulesMatch t := by
  unfold removeVlan at ht
  obtain ⟨v, hv, ht⟩ := Option.bind_eq_some_iff.mp ht
  cases ht
  obtain ⟨hi, hget⟩ := List.getElem?_eq_some_iff.mp hv
  have hsplit : s.vlanObjs = s.vlanObjs.take i ++ v :: s.vlanObjs.drop (i + 1) := by
    rw [← hget, ← List.drop_eq_getElem_cons hi, List.take_append_drop]
  have herase : s.vlanObjs.eraseIdx i = s.vlanObjs.take i ++ s.vlanObjs.drop (i + 1) :=
    List.eraseIdx_eq_take_drop_succ _ _
  have hother : ∀ w ∈ s.vlanObjs.eraseIdx i, v.same w = false := by
    intro w hw
    rw [DistinctVlans, hsplit, List.pairwise_append] at hdistinct
    obtain ⟨_, htail, hcross⟩ := hdistinct
    rw [herase] at hw
    rcases List.mem_append.mp hw with hw | hw
    · have hwv := hcross w hw v List.mem_cons_self
      by_contra hc
      rw [Bool.not_eq_false] at hc
      rw [same_congr (same_self w) hc] at hwv
      cases hwv
    · exact (List.pairwise_cons.mp htail).1 w hw
  refine rulesMatch_congr removeIfc_lists ⟨fun w hw hport => ?_, fun o ho => ?_, h.arpnat⟩
  · rw [vlanObjs_erase (s := s) rfl] at hw
    change (s.removeRules v).ebVlan.objs.countP w.same = 1
    rw [countP_removeRules (hother w hw)]
    exact h.vlans w (List.mem_of_mem_eraseIdx hw) hport
  · change o ∈ s.ebVlan.objs.filter fun o => !v.same o at ho
    obtain ⟨ho, hnot⟩ := List.mem_filter.mp ho
    obtain ⟨hport, w, hw, hwo⟩ := h.rules o ho
    refine ⟨hport, w, ?_, hwo⟩
    rw [vlanObjs_erase (s := s) rfl, herase]
    rw [hsplit] at hw
    rcases List.mem_append.mp hw with hw | hw
    · exact List.mem_append_left _ hw
    · rcases List.mem_cons.mp hw with rfl | hw
      · rw [hwo] at hnot
        cases hnot
      · exact List.mem_append_right _ hw

theorem rulesMatch_addBridge (h : RulesMatch s) : RulesMatch s.addBridge := by
  refine rulesMatch_congr addIfc_lists (rulesMatch_of_ports h rfl rfl rfl fun d _ => ?_)
  simp [getPorts, BridgeObj.getPorts]

end

end Net

/-! ## Entries of an interface -/

section Entries

variable {rules : List RuleObj} {d e : Str}

theorem countP_changeFirst_other (he : e ≠ d) : ∀ {rules : List RuleObj},
    (changeFirst (·.devname = d) (fun o => { o with enabled := true }) rules).countP
      (fun o => o.devname = e && o.enabled) = rules.countP fun o => o.devname = e && o.enabled := by
  intro rules
  induction rules with
  | nil => rfl
  | cons o rest ih =>
      rw [changeFirst]
      split
      · rename_i ho
        have hne : ¬ o.devname = e := fun h => he (h.symm.trans (by simpa using ho))
        simp [hne]
      · simp [List.countP_cons, ih]

theorem countP_changeFirst_self : ∀ {rules : List RuleObj},
    rules.countP (fun o => o.devname = d && o.enabled) = 0 → rules.any (·.devname = d) = true →
    (changeFirst (·.devname = d) (fun o => { o with enabled := true }) rules).countP
      (fun o => o.devname = d && o.enabled) = 1 := by
  intro rules
  induction rules with
  | nil => intro _ h; cases h
  | cons o rest ih =>
      intro hzero hany
      rw [List.countP_cons] at hzero
      rw [changeFirst]
      split
      · rename_i ho
        have hrest : rest.countP (fun o => o.devname = d && o.enabled) = 0 := by omega
        simpa [List.countP_cons, hrest] using ho
      · rename_i ho
        have hne : ¬ o.devname = d := by simpa using ho
        have hany' : rest.any (·.devname = d) = true := by simpa [hne] using hany
        simpa [List.countP_cons, hne] using ih (by omega) hany'

/-- The entry of an interface that had none enabled. -/
theorem countP_enableRule_self (h : rules.countP (fun o => o.devname = d && o.enabled) = 0) :
    (Net.enableRule rules d).countP (fun o => o.devname = d && o.enabled) = 1 := by
  unfold Net.enableRule
  split
  · rename_i hany
    exact countP_changeFirst_self h hany
  · rw [List.countP_append, h]
    simp

theorem countP_enableRule_other (he : e ≠ d) :
    (Net.enableRule rules d).countP (fun o => o.devname = e && o.enabled) =
      rules.countP fun o => o.devname = e && o.enabled := by
  unfold Net.enableRule
  split
  · exact countP_changeFirst_other he
  · have hne : ¬ d = e := fun h => he h.symm
    rw [List.countP_append]
    simp [hne]

theorem countP_eraseP_other (he : e ≠ d) :
    (rules.eraseP (·.devname = d)).countP (fun o => o.devname = e && o.enabled) =
      rules.countP fun o => o.devname = e && o.enabled := by
  induction rules with
  | nil => rfl
  | cons o rest ih =>
      by_cases ho : o.devname = d
      · have hne : ¬ o.devname = e := fun h => he (h.symm.trans ho)
        rw [List.eraseP_cons_of_pos (by simpa using ho)]
        simp [hne]
      · rw [List.eraseP_cons_of_neg (by simpa using ho), List.countP_cons, List.countP_cons, ih]

/-- The enabled entry goes, if it is the first one. -/
theorem countP_eraseP_self {n : Nat}
    (h : rules.countP (fun o => o.devname = d && o.enabled) = n) (hn : n ≤ 1)
    (hfirst : n = 1 → ∀ o, rules.find? (·.devname = d) = some o → o.enabled = true) :
    (rules.eraseP (·.devname = d)).countP (fun o => o.devname = d && o.enabled) = 0 := by
  induction rules with
  | nil => rfl
  | cons o rest ih =>
      rw [List.countP_cons] at h
      by_cases ho : o.devname = d
      · rw [List.eraseP_cons_of_pos (by simpa using ho)]
        by_cases hn1 : n = 1
        · have hon := hfirst hn1 o (List.find?_cons_of_pos (by simpa using ho))
          rw [if_pos (by simpa [hon] using ho)] at h
          omega
        · omega
      · have hrest : rest.countP (fun o => o.devname = d && o.enabled) = n := by
          rwa [if_neg (by simp [ho]), Nat.add_zero] at h
        rw [List.eraseP_cons_of_neg (by simpa using ho), List.countP_cons, if_neg (by simp [ho])]
        refine ih hrest fun hn1 p hp => hfirst hn1 p ?_
        rw [List.find?_cons_of_neg (by simpa using ho)]
        exact hp

theorem find?_eraseP_other (he : e ≠ d) :
    (rules.eraseP (·.devname = d)).find? (·.devname = e) = rules.find? (·.devname = e) := by
  induction rules with
  | nil => rfl
  | cons o rest ih =>
      by_cases ho : o.devname = d
      · have hne : ¬ o.devname = e := fun h => he (h.symm.trans ho)
        rw [List.eraseP_cons_of_pos (by simpa using ho),
          List.find?_cons_of_neg (by simpa using hne)]
      · rw [List.eraseP_cons_of_neg (by simpa using ho), List.find?_cons, List.find?_cons, ih]

end Entries

namespace Net

section

variable {s t : Net} {d e : Str} {i : Nat} {b b' : BridgeObj}

/-! ### Ports -/

theorem mem_getPorts_of_set (hb : s.bridges[i]? = some b) (ht : t.bridges = s.bridges.set i b') :
    e ∈ t.getPorts ↔ e ∈ b'.getPorts ∨ e ∈ (s.bridges.eraseIdx i).flatMap BridgeObj.getPorts := by
  rw [getPorts, ht, mem_getPorts_set hb]

/-- A port without a name is none. -/
theorem addPort_noName (hadd : b.addPort [] = some b') : e ∈ b'.getPorts ↔ e ∈ b.getPorts := by
  have hskip : ∀ ports : List PortObj,
      ((changeFirst (·.devname = []) (fun p => { p with status := true }) ports).filter
        (·.enabled)) = ports.filter (·.enabled) := by
    intro ports
    induction ports with
    | nil => rfl
    | cons p rest ih =>
        rw [changeFirst]
        split
        · rename_i hp
          have hname : p.devname = [] := by simpa using hp
          simp [PortObj.enabled, hname]
        · rw [List.filter_cons, List.filter_cons, ih]
  unfold BridgeObj.addPort at hadd
  split at hadd
  · cases hadd
    simp [BridgeObj.getPorts, PortObj.enabled]
  · split at hadd
    · cases hadd
    · cases hadd
      rw [BridgeObj.getPorts, BridgeObj.getPorts, hskip]

theorem addAthRules_fields :
    (s.addAthRules d).bridges = s.bridges ∧ (s.addAthRules d).vlan = s.vlan ∧
      (s.addAthRules d).ebVlan = s.ebVlan ∧ (s.addAthRules d).arpnat.objs =
        if d.hasText ATH = true then enableRule s.arpnat.objs d else s.arpnat.objs := by
  unfold addAthRules
  by_cases hath : d.hasText ATH = true <;> by_cases hdot : '.' ∈ d <;> simp [hath, hdot]

theorem addVlanRules_fields :
    (s.addVlanRules d).bridges = s.bridges ∧ (s.addVlanRules d).vlan = s.vlan ∧
      (s.addVlanRules d).ebVlan.objs =
        s.ebVlan.objs ++ (if '.' ∈ d then [] else s.vlanObjs.filter (·.devname = d)) ∧
      (s.addVlanRules d).arpnat = s.arpnat := by
  unfold addVlanRules
  by_cases hdot : '.' ∈ d <;> simp [hdot]

theorem vlanObjs_of_noVlanSection (h : s.noVlanSection d = true) : s.vlanObjs = [] := by
  rw [noVlanSection, Bool.and_eq_true] at h
  rw [vlanObjs, Option.isNone_iff_eq_none.mp h.2]
  rfl

/-- The rules of a new port. Without the section there are no VLANs, and the call
has thrown where it would have added nothing. -/
theorem addBridgePort_lists (hb : s.bridges[i]? = some b) (hadd : b.addPort d = some b')
    (ht : left (s.addBridgePort i d) = t) :
    t.bridges = s.bridges.set i b' ∧ t.vlan = s.vlan ∧
      t.ebVlan.objs =
        s.ebVlan.objs ++ (if '.' ∈ d then [] else s.vlanObjs.filter (·.devname = d)) ∧
      t.arpnat.objs =
        if d.hasText ATH = true then enableRule s.arpnat.objs d else s.arpnat.objs := by
  subst ht
  unfold addBridgePort
  rw [hb]
  dsimp only
  rw [hadd]
  dsimp only
  have hclear := clearIfc_lists (s := { s with bridges := s.bridges.set i b' }) (d := d)
  generalize clearIfc { s with bridges := s.bridges.set i b' } d = u at hclear
  simp only [ruleLists, Prod.mk.injEq] at hclear
  obtain ⟨hubridges, huvlan, hueb, huarpnat⟩ := hclear
  obtain ⟨hbridges, hvlan, heb, harpnat⟩ := addAthRules_fields (s := u) (d := d)
  rw [hubridges] at hbridges
  rw [huvlan] at hvlan
  rw [hueb] at heb
  rw [huarpnat] at harpnat
  generalize u.addAthRules d = w at hbridges hvlan heb harpnat
  cases hthrows : w.noVlanSection d with
  | true =>
      refine ⟨hbridges, hvlan, ?_, harpnat⟩
      rw [← vlanObjs_congr hvlan, vlanObjs_of_noVlanSection hthrows]
      simp [left, heb]
  | false =>
      rw [if_neg (by decide)]
      have hlists : ((w.addVlanRules d).useIfc d (some BRIDGE_PORT)).ruleLists =
          (w.addVlanRules d).ruleLists := useIfc_lists
      simp only [ruleLists, Prod.mk.injEq] at hlists
      obtain ⟨hbridges', hvlan', heb', harpnat'⟩ := hlists
      obtain ⟨hwbridges, hwvlan, hweb, hwarpnat⟩ := addVlanRules_fields (s := w) (d := d)
      refine ⟨?_, ?_, ?_, ?_⟩
      · exact hbridges'.trans (hwbridges.trans hbridges)
      · exact hvlan'.trans (hwvlan.trans hvlan)
      · rw [← vlanObjs_congr hvlan, ← heb, ← hweb]
        exact congrArg Section.objs heb'
      · rw [← harpnat, ← hwarpnat]
        exact congrArg Section.objs harpnat'

theorem removeRules_foldl_objs (vlans : List VlanObj) :
    (vlans.foldl removeRules s).ebVlan.objs =
      s.ebVlan.objs.filter fun o => vlans.all fun v => !v.same o := by
  induction vlans generalizing s with
  | nil => simp
  | cons v rest ih =>
      rw [List.foldl_cons, ih]
      change (s.ebVlan.objs.filter fun o => !v.same o).filter _ = _
      rw [List.filter_filter]
      refine List.filter_congr fun o _ => ?_
      rw [List.all_cons, Bool.and_comm]

theorem removeRules_foldl_frame (vlans : List VlanObj) :
    (vlans.foldl removeRules s).bridges = s.bridges ∧ (vlans.foldl removeRules s).vlan = s.vlan ∧
      (vlans.foldl removeRules s).arpnat = s.arpnat := by
  obtain ⟨rules, h⟩ := removeRules_foldl vlans (s := s)
  rw [h]
  exact ⟨rfl, rfl, rfl⟩

theorem removeAthRules_fields :
    (s.removeAthRules d).bridges = s.bridges ∧ (s.removeAthRules d).vlan = s.vlan ∧
      (s.removeAthRules d).ebVlan = s.ebVlan ∧ (s.removeAthRules d).arpnat.objs =
        if d.hasText ATH = true then s.arpnat.objs.eraseP (·.devname = d) else s.arpnat.objs := by
  unfold removeAthRules
  by_cases hath : d.hasText ATH = true <;> simp [hath]

theorem removeVlanRules_fields :
    (s.removeVlanRules d).bridges = s.bridges ∧ (s.removeVlanRules d).vlan = s.vlan ∧
      (s.removeVlanRules d).ebVlan.objs =
        (if '.' ∈ d then s.ebVlan.objs
          else s.ebVlan.objs.filter fun o =>
            (s.vlanObjs.filter (·.devname = d)).all fun v => !v.same o) ∧
      (s.removeVlanRules d).arpnat = s.arpnat := by
  unfold removeVlanRules
  by_cases hdot : '.' ∈ d <;> simp [hdot, removeRules_foldl_frame, removeRules_foldl_objs]

/-- A port is removed with its rules. A call that throws has come to the entries
of the radio only. -/
theorem removeBridgePort_lists (hb : s.bridges[i]? = some b) :
    (s.noVlanSection d = true ∧ s.removeBridgePort i d = .error (s.removeAthRules d)) ∨
    ∃ t, s.removeBridgePort i d = .ok t ∧
      t.bridges = s.bridges.set i (b.removePort d) ∧ t.vlan = s.vlan ∧
      t.ebVlan.objs =
        (if '.' ∈ d then s.ebVlan.objs
          else s.ebVlan.objs.filter fun o =>
            (s.vlanObjs.filter (·.devname = d)).all fun v => !v.same o) ∧
      t.arpnat.objs =
        if d.hasText ATH = true then s.arpnat.objs.eraseP (·.devname = d) else s.arpnat.objs := by
  obtain ⟨hbridges, hvlan, heb, harpnat⟩ := removeAthRules_fields (s := s) (d := d)
  unfold removeBridgePort
  rw [hb]
  dsimp only
  cases hthrows : (s.removeAthRules d).noVlanSection d with
  | true => exact .inl ⟨(noVlanSection_congr hvlan).symm.trans hthrows, if_pos rfl⟩
  | false =>
      obtain ⟨hbridges', hvlan', heb', harpnat'⟩ :=
        removeVlanRules_fields (s := s.removeAthRules d) (d := d)
      rw [heb, vlanObjs_congr hvlan] at heb'
      refine .inr ⟨_, if_neg (by decide), ?_, hvlan'.trans hvlan, heb', ?_⟩
      · exact congrArg (fun l : List BridgeObj => l.set i (b.removePort d))
          (hbridges'.trans hbridges)
      · exact (congrArg Section.objs harpnat').trans harpnat

/-- Where rules are added for a new port: it was no port, and if it has VLANs it
has a name without a dot. -/
structure Joins (s : Net) (i : Nat) (d : Str) : Prop where
  fresh : s.Ruled d → ∀ b, s.bridges[i]? = some b →
    ∀ p, b.ports.find? (·.devname = d) = some p → p.enabled = false → d ∉ b.getPorts
  plain : (d = [] ∨ '.' ∈ d) → d ∉ s.getPorts → ∀ v ∈ s.vlanObjs, v.devname ≠ d

/-- Each VLAN is itself the only one with its interface. -/
theorem countP_same_vlans {vlans : List VlanObj} {v : VlanObj}
    (hdistinct : vlans.Pairwise fun v o => v.same o = false) (hv : v ∈ vlans) :
    vlans.countP v.same = 1 := by
  induction vlans with
  | nil => cases hv
  | cons w rest ih =>
      obtain ⟨hw, hrest⟩ := List.pairwise_cons.mp hdistinct
      rw [List.countP_cons]
      rcases List.mem_cons.mp hv with rfl | hv
      · have hzero : rest.countP v.same = 0 :=
          List.countP_eq_zero.mpr fun o ho => by simp [hw o ho]
        rw [hzero, if_pos (same_self v)]
      · have hvw : ¬ v.same w = true := by
          intro hsame
          have hback := same_congr hsame (same_self w)
          have hwv := hw v hv
          rw [same_iff] at hback
          simp [VlanObj.same, hback.1, hback.2] at hwv
        rw [ih hrest hv, if_neg hvw]

theorem countP_same_vlansOf {v : VlanObj} (hdistinct : DistinctVlans s) (hv : v ∈ s.vlanObjs) :
    (s.vlanObjs.filter (·.devname = d)).countP v.same = if v.devname = d then 1 else 0 := by
  rw [List.countP_filter]
  split
  · rename_i hd
    rw [← countP_same_vlans hdistinct hv]
    refine List.countP_congr fun o _ => ?_
    rw [Bool.and_eq_true]
    refine ⟨And.left, fun hsame => ⟨hsame, ?_⟩⟩
    rw [(same_iff.mp hsame).1]
    simpa using hd
  · rename_i hd
    refine List.countP_eq_zero.mpr fun o _ hsame => hd ?_
    rw [Bool.and_eq_true] at hsame
    rw [← (same_iff.mp hsame.1).1]
    simpa using hsame.2

/-- A port that has rules and is added was no port of any bridge. -/
theorem not_port_of_joins (hb : s.bridges[i]? = some b) (hadd : b.addPort d = some b')
    (honce : d ∉ (s.bridges.eraseIdx i).flatMap BridgeObj.getPorts) (hjoins : s.Joins i d)
    (hruled : s.Ruled d) : d ∉ s.getPorts := by
  rw [mem_getPorts_at hb, not_or]
  refine ⟨?_, honce⟩
  unfold BridgeObj.addPort at hadd
  split at hadd
  · rename_i hnone
    rw [mem_getPorts]
    rintro ⟨p, hp, _, hname⟩
    exact absurd hname (by simpa using List.find?_eq_none.mp hnone p hp)
  · rename_i p hfind
    split at hadd
    · cases hadd
    · rename_i hoff
      exact hjoins.fresh hruled b hb p hfind (by simpa using hoff)

/-- One new port, with the rules for its VLANs and with its entry. -/
theorem rulesMatch_newPort (h : RulesMatch s) (hdistinct : DistinctVlans s)
    (hvlan : t.vlanObjs = s.vlanObjs) (hnew : d ∉ s.getPorts) (hd : d ∈ t.getPorts)
    (hports : ∀ e, e ≠ d → (e ∈ t.getPorts ↔ e ∈ s.getPorts))
    (hplain : ∀ v ∈ s.vlanObjs, v.devname = d → '.' ∉ d)
    (heb : t.ebVlan.objs =
      s.ebVlan.objs ++ (if '.' ∈ d then [] else s.vlanObjs.filter (·.devname = d)))
    (harpnat : t.arpnat.objs =
      if d.hasText ATH = true then enableRule s.arpnat.objs d else s.arpnat.objs) :
    RulesMatch t := by
  refine ⟨fun v hv hport => ?_, fun o ho => ?_, fun e he => ?_⟩
  · rw [hvlan] at hv
    rw [heb, List.countP_append]
    by_cases hvd : v.devname = d
    · have hzero : s.ebVlan.objs.countP v.same = 0 := by
        refine List.countP_eq_zero.mpr fun o ho hsame => hnew ?_
        rw [← hvd, ← (same_iff.mp hsame).1]
        exact (h.rules o ho).1
      rw [hzero, if_neg (hplain v hv hvd), countP_same_vlansOf hdistinct hv, if_pos hvd]
    · rw [h.vlans v hv ((hports _ hvd).mp hport)]
      split
      · rfl
      · rw [countP_same_vlansOf hdistinct hv, if_neg hvd]
  · rw [heb] at ho
    rw [hvlan]
    rcases List.mem_append.mp ho with ho | ho
    · obtain ⟨hport, v, hv, hsame⟩ := h.rules o ho
      have hod : o.devname ≠ d := fun heq => hnew (heq ▸ hport)
      exact ⟨(hports _ hod).mpr hport, v, hv, hsame⟩
    · split at ho
      · cases ho
      · obtain ⟨ho, hod⟩ := List.mem_filter.mp ho
        have hod : o.devname = d := by simpa using hod
        exact ⟨hod ▸ hd, o, ho, same_self o⟩
  · rw [harpnat]
    by_cases hed : e = d
    · subst hed
      have hzero := h.arpnat e he
      rw [if_neg hnew] at hzero
      rw [if_pos he, if_pos hd, countP_enableRule_self hzero]
    · simp only [hports e hed, ← h.arpnat e he]
      split
      · exact countP_enableRule_other hed
      · rfl

theorem rulesMatch_addBridgePort (h : RulesMatch s) (hdistinct : DistinctVlans s)
    (honce : d ∉ (s.bridges.eraseIdx i).flatMap BridgeObj.getPorts) (hjoins : s.Joins i d) :
    RulesMatch (left (s.addBridgePort i d)) := by
  cases hb : s.bridges[i]? with
  | none =>
      rw [addBridgePort, hb]
      exact h
  | some b =>
  cases hadd : b.addPort d with
  | none =>
      rw [addBridgePort, hb]
      dsimp only
      rw [hadd]
      exact h
  | some b' =>
      obtain ⟨hbridges, hsection, heb, harpnat⟩ := addBridgePort_lists hb hadd rfl
      have hvlan := vlanObjs_congr hsection
      generalize left (s.addBridgePort i d) = t at hbridges hvlan heb harpnat
      have hports : ∀ e, e ≠ d → (e ∈ t.getPorts ↔ e ∈ s.getPorts) := by
        intro e he
        rw [mem_getPorts_of_set hb hbridges, mem_getPorts_at hb]
        by_cases hd : d = []
        · subst hd
          rw [addPort_noName hadd]
        · rw [addPort_getPorts hd hadd, or_iff_left he]
      by_cases hruled : s.Ruled d
      · have hnew := not_port_of_joins hb hadd honce hjoins hruled
        have hvlans : ∀ v ∈ s.vlanObjs, v.devname = d → d ≠ [] ∧ '.' ∉ d := by
          intro v hv hname
          rw [← not_or]
          exact fun hbad => hjoins.plain hbad hnew v hv hname
        have hname : d ≠ [] := by
          rcases hruled with hath | ⟨v, hv, hvd⟩
          · intro hd
            subst hd
            exact absurd hath (by decide)
          · exact (hvlans v hv hvd).1
        have hd : d ∈ t.getPorts := by
          rw [mem_getPorts_of_set hb hbridges, addPort_getPorts hname hadd]
          exact Or.inl (Or.inr rfl)
        exact rulesMatch_newPort h hdistinct hvlan hnew hd hports
          (fun v hv hvd => (hvlans v hv hvd).2) heb harpnat
      · have hnone : s.vlanObjs.filter (·.devname = d) = [] := by
          refine List.filter_eq_nil_iff.mpr fun v hv hvd => hruled (Or.inr ⟨v, hv, ?_⟩)
          simpa using hvd
        refine rulesMatch_of_ports h hvlan ?_ ?_ fun e he => ?_
        · rw [heb, hnone, ite_self, List.append_nil]
        · rw [harpnat, if_neg fun hath => hruled (Or.inl hath)]
        · exact hports e fun hed => hruled (hed ▸ he)

/-- Where the rules of a port go with it: the interface is no port any more, its
VLANs have rules that are looked for, and the entry found is the enabled one. The
entry of a port of the radio must not go alone. -/
structure Leaves (s : Net) (i : Nat) (d : Str) : Prop where
  gone : s.Ruled d → d ∉ s.portsWithout i d
  plain : '.' ∈ d → ∀ v ∈ s.vlanObjs, v.devname ≠ d
  entry : d.hasText ATH = true →
    ∀ o, s.arpnat.objs.find? (·.devname = d) = some o → o.enabled = true
  goesOn : d.hasText ATH = true → s.noVlanSection d = false

/-- A wireless interface that is no port has no entry that could go. -/
theorem rulesMatch_removeAthRules (h : RulesMatch s) (hd : d.hasText ATH = true → d ∉ s.getPorts) :
    RulesMatch (s.removeAthRules d) := by
  obtain ⟨hbridges, hvlan, heb, harpnat⟩ := removeAthRules_fields (s := s) (d := d)
  have hports : (s.removeAthRules d).getPorts = s.getPorts := by rw [getPorts, hbridges, getPorts]
  refine ⟨fun v hv hport => ?_, fun o ho => ?_, fun e he => ?_⟩
  · rw [vlanObjs_congr hvlan] at hv
    rw [hports] at hport
    rw [heb]
    exact h.vlans v hv hport
  · rw [heb] at ho
    rw [hports, vlanObjs_congr hvlan]
    exact h.rules o ho
  · rw [hports, harpnat]
    by_cases hed : e = d
    · subst hed
      have hzero := h.arpnat e he
      rw [if_neg (hd he)] at hzero ⊢
      rw [if_pos he]
      exact countP_eraseP_self hzero (by decide) fun hone => by cases hone
    · rw [← h.arpnat e he]
      split
      · exact countP_eraseP_other hed
      · rfl

/-- One port less, without the rules for its VLANs and its entry. -/
theorem rulesMatch_removedPort (h : RulesMatch s) (hleaves : d ∈ s.getPorts → s.Leaves i d)
    (hvlan : t.vlanObjs = s.vlanObjs) (hgone : s.Ruled d → d ∉ t.getPorts)
    (hports : ∀ e, e ≠ d → (e ∈ t.getPorts ↔ e ∈ s.getPorts))
    (heb : t.ebVlan.objs =
      (if '.' ∈ d then s.ebVlan.objs
        else s.ebVlan.objs.filter fun o =>
          (s.vlanObjs.filter (·.devname = d)).all fun v => !v.same o))
    (harpnat : t.arpnat.objs =
      if d.hasText ATH = true then s.arpnat.objs.eraseP (·.devname = d) else s.arpnat.objs) :
    RulesMatch t := by
  refine ⟨fun v hv hport => ?_, fun o ho => ?_, fun e he => ?_⟩
  · rw [hvlan] at hv
    have hvd : v.devname ≠ d := fun heq => hgone (Or.inr ⟨v, hv, heq⟩) (heq ▸ hport)
    rw [heb, ← h.vlans v hv ((hports _ hvd).mp hport)]
    split
    · rfl
    · rw [List.countP_filter]
      refine List.countP_congr fun o _ => ?_
      rw [Bool.and_eq_true]
      refine ⟨And.left, fun hsame => ⟨hsame, List.all_eq_true.mpr fun w hw => ?_⟩⟩
      have hwd : w.devname = d := by simpa using (List.mem_filter.mp hw).2
      have hne : ¬ o.devname = w.devname := by
        rw [(same_iff.mp hsame).1, hwd]
        exact hvd
      simp [VlanObj.same, hne]
  · rw [hvlan]
    rw [heb] at ho
    have hold : o ∈ s.ebVlan.objs := by
      split at ho
      · exact ho
      · exact (List.mem_filter.mp ho).1
    obtain ⟨hport, v, hv, hsame⟩ := h.rules o hold
    have hod : o.devname ≠ d := by
      intro heq
      have hvd : v.devname = d := (same_iff.mp hsame).1.symm.trans heq
      have hdot : '.' ∉ d := fun hdot => (hleaves (heq ▸ hport)).plain hdot v hv hvd
      rw [if_neg hdot] at ho
      have hall := List.all_eq_true.mp (List.mem_filter.mp ho).2 v
        (List.mem_filter.mpr ⟨hv, by simpa using hvd⟩)
      rw [hsame] at hall
      cases hall
    exact ⟨(hports _ hod).mpr hport, v, hv, hsame⟩
  · rw [harpnat]
    by_cases hed : e = d
    · subst hed
      rw [if_pos he, if_neg (hgone (Or.inl he))]
      refine countP_eraseP_self (h.arpnat e he) (by split <;> decide) fun hone => ?_
      have hport : e ∈ s.getPorts := by
        by_contra hno
        rw [if_neg hno] at hone
        cases hone
      exact (hleaves hport).entry he
    · simp only [hports e hed, ← h.arpnat e he]
      split
      · exact countP_eraseP_other hed
      · rfl

theorem rulesMatch_removeBridgePort (h : RulesMatch s) (hb : s.bridges[i]? = some b)
    (hleaves : d ∈ s.getPorts → s.Leaves i d) :
    (∃ t, s.removeBridgePort i d = .error t ∧ RulesMatch t ∧ t.vlan = s.vlan) ∨
    ∃ t, s.removeBridgePort i d = .ok t ∧ RulesMatch t ∧
      t.bridges = s.bridges.set i (b.removePort d) ∧ t.vlan = s.vlan ∧
      t.arpnat.objs =
        if d.hasText ATH = true then s.arpnat.objs.eraseP (·.devname = d) else s.arpnat.objs := by
  obtain ⟨hthrows, hcall⟩ | ⟨t, hcall, hbridges, hsection, heb, harpnat⟩ :=
    removeBridgePort_lists (d := d) hb
  · refine .inl ⟨_, hcall, rulesMatch_removeAthRules h fun hath hport => ?_,
      removeAthRules_fields.2.1⟩
    rw [(hleaves hport).goesOn hath] at hthrows
    cases hthrows
  refine .inr ⟨t, hcall, ?_, hbridges, hsection, harpnat⟩
  have hports : ∀ e, e ≠ d → (e ∈ t.getPorts ↔ e ∈ s.getPorts) := by
    intro e he
    rw [mem_getPorts_of_set hb hbridges, mem_getPorts_at hb, removePort_getPorts he]
  have hgone : s.Ruled d → d ∉ t.getPorts := by
    intro hruled hmem
    have hwithout : s.portsWithout i d = t.getPorts := by
      rw [portsWithout, hb]
      dsimp only
      rw [← hbridges, getPorts]
    have hport : d ∈ s.getPorts := by
      rw [mem_getPorts_of_set hb hbridges] at hmem
      rw [mem_getPorts_at hb]
      exact hmem.imp removePort_sub id
    exact (hleaves hport).gone hruled (hwithout ▸ hmem)
  exact rulesMatch_removedPort h hleaves (vlanObjs_congr hsection) hgone hports heb harpnat

/-- What holds of one port still holds when another one has left. -/
theorem Leaves.next (hb : s.bridges[i]? = some b) (hport : e ∈ t.getPorts) (he : s.Leaves i e)
    (hd : s.Ruled d → d ∉ t.getPorts) (hbridges : t.bridges = s.bridges.set i (b.removePort d))
    (hvlan : t.vlan = s.vlan)
    (harpnat : t.arpnat.objs =
      if d.hasText ATH = true then s.arpnat.objs.eraseP (·.devname = d) else s.arpnat.objs) :
    t.Leaves i e := by
  have hi : i < s.bridges.length := (List.getElem?_eq_some_iff.mp hb).1
  have hbt : t.bridges[i]? = some (b.removePort d) := by
    rw [hbridges]
    exact List.getElem?_set_self hi
  have hruled : t.Ruled e → s.Ruled e := by
    rw [Ruled, vlanObjs_congr hvlan]
    exact id
  refine ⟨fun hte hmem => ?_, by rw [vlanObjs_congr hvlan]; exact he.plain, fun hath o ho => ?_,
    by rw [noVlanSection_congr hvlan]; exact he.goesOn⟩
  · have hne : e ≠ d := fun heq => hd (heq ▸ hruled hte) (heq ▸ hport)
    have hcomm : (b.removePort d).removePort e = (b.removePort e).removePort d := by
      simp only [BridgeObj.removePort]
      rw [List.eraseP_comm]
      intro p _
      by_cases hp : p.devname = d
      · right
        simpa [hp] using fun h => hne h.symm
      · left
        simpa using hp
    refine he.gone (hruled hte) ?_
    rw [portsWithout, hbt] at hmem
    rw [portsWithout, hb]
    dsimp only at hmem ⊢
    rw [hbridges, List.set_set, hcomm, mem_getPorts_set hb] at hmem
    rw [mem_getPorts_set hb]
    exact hmem.imp removePort_sub id
  · have hne : e ≠ d := fun heq => hd (heq ▸ Or.inl hath) (heq ▸ hport)
    refine he.entry hath o ?_
    rw [harpnat] at ho
    split at ho
    · rwa [find?_eraseP_other hne] at ho
    · exact ho

/-- The loop of `removeBridge`. -/
theorem rulesMatch_removePorts : ∀ {l : List Str} {s : Net} {b : BridgeObj}, RulesMatch s →
    s.bridges[i]? = some b → (∀ d ∈ l, d ∈ s.getPorts → s.Leaves i d) →
    (∃ t, l.foldlM (fun s port => s.removeBridgePort i port) s = .error t ∧ RulesMatch t ∧
      t.vlan = s.vlan) ∨
    ∃ t b', l.foldlM (fun s port => s.removeBridgePort i port) s = .ok t ∧ RulesMatch t ∧
      t.bridges = s.bridges.set i b' ∧ t.vlan = s.vlan ∧
      ∀ e ∈ b'.getPorts, e ∈ b.getPorts ∧ (s.Ruled e → e ∉ l) := by
  intro l
  induction l with
  | nil =>
      intro s b h hb _
      obtain ⟨hi, hget⟩ := List.getElem?_eq_some_iff.mp hb
      refine .inr ⟨s, b, rfl, h, ?_, rfl, fun e he => ⟨he, fun _ => List.not_mem_nil⟩⟩
      rw [← hget]
      exact (List.set_getElem_self hi).symm
  | cons d rest ih =>
      intro s b h hb hleaves
      have hleaves_d := hleaves d List.mem_cons_self
      obtain ⟨t, ht, hmatch, hvlan⟩ | ⟨t, ht, hmatch, hbridges, hvlan, harpnat⟩ :=
        rulesMatch_removeBridgePort h hb hleaves_d
      · exact .inl ⟨t, by rw [List.foldlM_cons, ht]; rfl, hmatch, hvlan⟩
      have hi : i < s.bridges.length := (List.getElem?_eq_some_iff.mp hb).1
      have hbt : t.bridges[i]? = some (b.removePort d) := by
        rw [hbridges]
        exact List.getElem?_set_self hi
      have hsub : ∀ e ∈ t.getPorts, e ∈ s.getPorts := by
        intro e he
        rw [mem_getPorts_of_set hb hbridges] at he
        rw [mem_getPorts_at hb]
        exact he.imp removePort_sub id
      have hgone : s.Ruled d → d ∉ t.getPorts := by
        intro hruled hmem
        refine (hleaves_d (hsub d hmem)).gone hruled ?_
        rw [portsWithout, hb]
        dsimp only
        rw [← hbridges]
        exact hmem
      have hleaves' : ∀ e ∈ rest, e ∈ t.getPorts → t.Leaves i e := by
        intro e he hport
        exact (hleaves e (List.mem_cons_of_mem _ he) (hsub e hport)).next hb hport hgone hbridges
          hvlan harpnat
      obtain ⟨u, hu, hmatchu, hvlanu⟩ | ⟨u, b', hu, hmatchu, hbridgesu, hvlanu, hports⟩ :=
        ih hmatch hbt hleaves'
      · exact .inl ⟨u, by rw [List.foldlM_cons, ht]; exact hu, hmatchu, hvlanu.trans hvlan⟩
      refine .inr ⟨u, b', ?_, hmatchu, ?_, hvlanu.trans hvlan, fun e he => ?_⟩
      · rw [List.foldlM_cons, ht]
        exact hu
      · rw [hbridgesu, hbridges, List.set_set]
      · obtain ⟨hmem, hnot⟩ := hports e he
        refine ⟨removePort_sub hmem, fun hruled hcons => ?_⟩
        rcases List.mem_cons.mp hcons with rfl | hlater
        · refine hgone hruled ?_
          rw [mem_getPorts_of_set hb hbridges]
          exact Or.inl hmem
        · refine hnot ?_ hlater
          rw [Ruled, vlanObjs_congr hvlan]
          exact hruled

theorem rulesMatch_removeBridge (h : RulesMatch s)
    (hleaves : ∀ b, s.bridges[i]? = some b → ∀ d ∈ b.getPorts, s.Leaves i d) :
    RulesMatch (left (s.removeBridge i)) ∧ (left (s.removeBridge i)).vlan = s.vlan := by
  unfold removeBridge
  cases hb : s.bridges[i]? with
  | none => exact ⟨h, rfl⟩
  | some b =>
  dsimp only
  obtain ⟨u, hu, hmatch, hvlan⟩ | ⟨u, b', hu, hmatch, hbridges, hvlan, hports⟩ :=
    rulesMatch_removePorts h hb fun d hd _ => hleaves b hb d hd
  · rw [hu]
    exact ⟨hmatch, hvlan⟩
  rw [hu]
  change RulesMatch (removeIfc _ _) ∧ (removeIfc _ _).vlan = s.vlan
  have hi : i < s.bridges.length := (List.getElem?_eq_some_iff.mp hb).1
  have hbu : u.bridges[i]? = some b' := by
    rw [hbridges]
    exact List.getElem?_set_self hi
  have hlists := removeIfc_lists (s := { u with bridges := u.bridges.eraseIdx i }) (d := b.devname)
  refine ⟨rulesMatch_congr hlists (rulesMatch_of_ports hmatch rfl rfl rfl fun e he => ?_), ?_⟩
  · change e ∈ (u.bridges.eraseIdx i).flatMap BridgeObj.getPorts ↔ e ∈ u.getPorts
    rw [mem_getPorts_at hbu]
    refine (or_iff_right fun hleft => ?_).symm
    have hruled : s.Ruled e := by
      rw [Ruled, ← vlanObjs_congr hvlan]
      exact he
    exact (hports e hleft).2 hruled (hports e hleft).1
  · simp only [ruleLists, Prod.mk.injEq] at hlists
    rw [hlists.2.1]
    exact hvlan

/-! ### The VLANs of a call -/

theorem distinctVlans_addVlan {v : VlanObj} (h : DistinctVlans s)
    (hnew : ∀ o ∈ s.vlanObjs, v.same o = false) : DistinctVlans (s.addVlan v) := by
  have hvlan : (s.addVlan v).vlanObjs = s.vlanObjs ++ [v] := by
    rw [addVlan, vlanObjs_congr (vlan_of_lists addIfc_lists)]
    split <;> rfl
  rw [DistinctVlans, hvlan, List.pairwise_append]
  refine ⟨h, List.pairwise_singleton _ _, fun o ho w hw => ?_⟩
  rw [List.mem_singleton.mp hw]
  by_contra hc
  rw [Bool.not_eq_false] at hc
  have hback := same_congr hc (same_self v)
  have hvo := hnew o ho
  rw [same_iff] at hback
  simp [VlanObj.same, hback.1, hback.2] at hvo

theorem distinctVlans_removeVlan (h : DistinctVlans s) (ht : s.removeVlan i = some t) :
    DistinctVlans t := by
  unfold removeVlan at ht
  obtain ⟨v, _, ht⟩ := Option.bind_eq_some_iff.mp ht
  have ht := (Option.some.inj ht).symm
  subst ht
  rw [DistinctVlans, vlanObjs_congr (vlan_of_lists removeIfc_lists), vlanObjs_erase (s := s) rfl]
  exact List.Pairwise.sublist (List.eraseIdx_sublist _ _) h

theorem addBridgePort_vlan : (left (s.addBridgePort i d)).vlan = s.vlan := by
  cases hb : s.bridges[i]? with
  | none =>
      rw [addBridgePort, hb]
      rfl
  | some b =>
      cases hadd : b.addPort d with
      | none =>
          rw [addBridgePort, hb]
          dsimp only
          rw [hadd]
          rfl
      | some b' => exact (addBridgePort_lists hb hadd rfl).2.1

end

end Net

/-! ## Runs -/

/-- The calls that edit VLANs, bridges and their ports: a new VLAN is not there
yet, and a new port is none of another bridge. -/
def Op.EditsRules (s : Net) : Op → Prop
  | .addVlan v => ∀ o ∈ s.vlanObjs, v.same o = false
  | .addBridgePort i d => d ∉ (s.bridges.eraseIdx i).flatMap BridgeObj.getPorts
  | .removeVlan _ | .addBridge | .removeBridge _ | .removeBridgePort _ _ => True
  | _ => False

/-- What such a call relies on. -/
def Op.Tidy (s : Net) : Op → Prop
  | .addBridgePort i d => s.Joins i d
  | .removeBridgePort i d => d ∈ s.getPorts → s.Leaves i d
  | .removeBridge i => ∀ b, s.bridges[i]? = some b → ∀ d ∈ b.getPorts, s.Leaves i d
  | _ => True

theorem rules_step {s : Net} {op : Op} (h : RulesMatch s) (hdistinct : DistinctVlans s)
    (hedits : op.EditsRules s) (htidy : op.Tidy s) :
    RulesMatch (s.step op) ∧ DistinctVlans (s.step op) := by
  have hcall : ∀ {o : Option Net}, (∀ t, o = some t → RulesMatch t ∧ DistinctVlans t) →
      RulesMatch (Net.left (s.orThrow o)) ∧ DistinctVlans (Net.left (s.orThrow o)) := by
    intro o ho
    cases o with
    | none => exact ⟨h, hdistinct⟩
    | some t => exact ho t rfl
  have hkept : ∀ {t : Net}, t.vlan = s.vlan → DistinctVlans t := by
    intro t ht
    rw [DistinctVlans, Net.vlanObjs_congr ht]
    exact hdistinct
  cases op with
  | addVlan v =>
      exact ⟨Net.rulesMatch_addVlan h hedits, Net.distinctVlans_addVlan hdistinct hedits⟩
  | removeVlan i =>
      exact hcall fun t ht => ⟨Net.rulesMatch_removeVlan h hdistinct ht,
        Net.distinctVlans_removeVlan hdistinct ht⟩
  | addBridge =>
      have hvlan : s.addBridge.vlan = s.vlan := by
        rw [Net.addBridge, Net.vlan_of_lists Net.addIfc_lists]
      exact ⟨Net.rulesMatch_addBridge h, hkept hvlan⟩
  | removeBridge i =>
      obtain ⟨hmatch, hvlan⟩ := Net.rulesMatch_removeBridge h htidy
      exact ⟨hmatch, hkept hvlan⟩
  | addBridgePort i d =>
      exact ⟨Net.rulesMatch_addBridgePort h hdistinct hedits htidy, hkept Net.addBridgePort_vlan⟩
  | removeBridgePort i d =>
      change RulesMatch (Net.left (s.removeBridgePort i d)) ∧ DistinctVlans _
      cases hb : s.bridges[i]? with
      | none =>
          rw [Net.step, Net.call, Net.removeBridgePort, hb]
          exact ⟨h, hdistinct⟩
      | some b =>
          obtain ⟨t, ht, hmatch, hvlan⟩ | ⟨t, ht, hmatch, _, hvlan, _⟩ :=
            Net.rulesMatch_removeBridgePort h hb htidy
          · rw [Net.step, Net.call, ht]
            exact ⟨hmatch, hkept hvlan⟩
          · rw [Net.step, Net.call, ht]
            exact ⟨hmatch, hkept hvlan⟩
  | _ => exact hedits.elim

/-- One call on VLANs or bridges, and one that finds what it relies on. -/
def EditStep (s t : Net) : Prop := ∃ op : Op, op.EditsRules s ∧ t = s.step op

def TidyStep (s t : Net) : Prop := ∃ op : Op, op.EditsRules s ∧ op.Tidy s ∧ t = s.step op

/-- In every state of a run of tidy calls the rules are those of the bridged
interfaces. -/
theorem rules_reached {s t : Net} (h : RulesMatch s) (hdistinct : DistinctVlans s)
    (hrun : Relation.ReflTransGen TidyStep s t) : RulesMatch t := by
  suffices hboth : RulesMatch t ∧ DistinctVlans t from hboth.1
  induction hrun with
  | refl => exact ⟨h, hdistinct⟩
  | tail _ hstep ih =>
      obtain ⟨op, hedits, htidy, rfl⟩ := hstep
      exact rules_step ih.1 ih.2 hedits htidy

/-- A configuration without VLANs and bridges. -/
theorem router_rules : RulesMatch router ∧ DistinctVlans router := by
  refine ⟨⟨fun v hv => ?_, fun o ho => ?_, fun d _ => rfl⟩, List.Pairwise.nil⟩
  · cases hv
  · cases ho

/-- A VLAN of the VLAN of the wired interface. -/
def vlan7 : VlanObj := ⟨vlan5.getFullDevname, ['7'], [], true⟩

theorem bridged_rules :
    RulesMatch (router.run [.addBridge, .addVlan vlan5, .addBridgePort 0 eth0]) := by
  have hport : Op.EditsRules (router.run [.addBridge, .addVlan vlan5]) (.addBridgePort 0 eth0) := by
    change eth0 ∉ _
    decide +kernel
  have hjoins : Op.Tidy (router.run [.addBridge, .addVlan vlan5]) (.addBridgePort 0 eth0) := by
    refine ⟨fun _ b hb p hp => ?_, fun hname => absurd hname (by decide)⟩
    have hports : b = ⟨br0, true, false, []⟩ := by
      have hfirst : (router.run [.addBridge, .addVlan vlan5]).bridges[0]? =
          some ⟨br0, true, false, []⟩ := by decide +kernel
      exact Option.some.inj (hb.symm.trans hfirst)
    rw [hports] at hp
    cases hp
  have hvlan : Op.EditsRules (router.step .addBridge) (.addVlan vlan5) := by
    intro o ho
    cases ho
  have h₁ : TidyStep router (router.step .addBridge) := ⟨.addBridge, trivial, trivial, rfl⟩
  have h₂ : TidyStep (router.step .addBridge) (router.run [.addBridge, .addVlan vlan5]) :=
    ⟨.addVlan vlan5, hvlan, trivial, rfl⟩
  exact rules_reached router_rules.1 router_rules.2
    (((Relation.ReflTransGen.single h₁).tail h₂).tail ⟨.addBridgePort 0 eth0, hport, hjoins, rfl⟩)

/-- Without the section the entry of the radio goes, and its port stays. -/
theorem noVlanSection_rules : (RulesMatch router ∧ DistinctVlans router) ∧
    Relation.ReflTransGen EditStep router
      (router.run [.addBridge, .addBridgePort 0 ath0, .removeBridgePort 0 ath0]) ∧
    ¬ RulesMatch (router.run [.addBridge, .addBridgePort 0 ath0, .removeBridgePort 0 ath0]) := by
  refine ⟨router_rules, ?_, fun h => ?_⟩
  · have h₁ : EditStep router (router.step .addBridge) := ⟨.addBridge, trivial, rfl⟩
    have h₂ : EditStep (router.step .addBridge)
        (router.run [.addBridge, .addBridgePort 0 ath0]) := by
      refine ⟨.addBridgePort 0 ath0, ?_, rfl⟩
      change ath0 ∉ _
      decide +kernel
    exact ((Relation.ReflTransGen.single h₁).tail h₂).tail ⟨.removeBridgePort 0 ath0, trivial, rfl⟩
  · have hone := h.arpnat ath0 (by decide)
    rw [if_pos (by decide +kernel)] at hone
    exact absurd hone (by decide +kernel)

/-- A VLAN of a VLAN, whose parent becomes a port. -/
def nestedVlan : List Op :=
  [.addBridge, .addVlan vlan5, .addVlan vlan7, .addBridgePort 0 vlan5.getFullDevname]

/-- The VLAN of a bridged interface with a dot in its name has no rule. -/
theorem nestedVlan_rules : (RulesMatch router ∧ DistinctVlans router) ∧
    Relation.ReflTransGen EditStep router (router.run nestedVlan) ∧
    ¬ RulesMatch (router.run nestedVlan) := by
  refine ⟨router_rules, ?_, fun h => ?_⟩
  · have h₁ : EditStep router (router.run (nestedVlan.take 1)) := ⟨.addBridge, trivial, rfl⟩
    have h₂ : EditStep (router.run (nestedVlan.take 1)) (router.run (nestedVlan.take 2)) := by
      refine ⟨.addVlan vlan5, fun o ho => ?_, rfl⟩
      cases ho
    have h₃ : EditStep (router.run (nestedVlan.take 2)) (router.run (nestedVlan.take 3)) := by
      refine ⟨.addVlan vlan7, ?_, rfl⟩
      change ∀ o ∈ _, _
      decide +kernel
    have h₄ : EditStep (router.run (nestedVlan.take 3)) (router.run nestedVlan) := by
      refine ⟨.addBridgePort 0 vlan5.getFullDevname, ?_, rfl⟩
      change vlan5.getFullDevname ∉ _
      decide +kernel
    exact (((Relation.ReflTransGen.single h₁).tail h₂).tail h₃).tail h₄
  · have hone := h.vlans vlan7 (by decide +kernel) (by decide +kernel)
    have hnone : (router.run nestedVlan).ebVlan.objs.countP vlan7.same = 0 := by decide +kernel
    rw [hnone] at hone
    cases hone

end UbntSdk.Web
