/-
UbntSdk.Web.MgmtVlanTheorems — when the management VLAN is what was set, and
leaves nothing behind.

`Sections` is what bridges, VLANs and filter rules consist of, and each call of
the model is one edit of it. `setMgmtVlan` relies on the section `vlan`. It makes
a bridge by whatever name is next, and means `br1`. It finds the VLANs and the
rules that it is to remove by their names, and removes those that were there
before. `MgmtReady` is what it needs, and `mgmtLaw_iff` that it needs no less.

The loops go over the interfaces of the board, and their invariants say what has
been made, or removed, for those that were come to (`addMgmtPort_step`). For the
other direction, a call that made the management bridge must have found its name
free, as the number of bridges tells (`MgmtSet.next`).
-/
import Mathlib.Data.List.Infix
import UbntSdk.Lib.Loop
import UbntSdk.Web.MgmtVlan
import UbntSdk.Web.RuleTheorems

namespace UbntSdk.Web

/-! ## Names -/

/-- A name of an interface that is no VLAN. -/
def PlainName (d : Str) : Prop := d ≠ [] ∧ '.' ∉ d

/-- An id that makes a VLAN of any interface. -/
theorem plainName_of_valid {id : Str} (h : (VlanObj.mk "eth0".toList id [] false).valid = true) :
    PlainName id ∧ ∀ c ∈ id, c.isDigit = true := by
  simp only [VlanObj.valid, Bool.not_eq_true', Bool.or_eq_false_iff, Bool.not_eq_false',
    List.isEmpty_eq_false_iff, List.all_eq_true] at h
  obtain ⟨⟨⟨hne, hdigits⟩, -⟩, -⟩ := h
  exact ⟨⟨hne, fun hdot => absurd (hdigits _ hdot) (by decide)⟩, hdigits⟩

section Names

variable {id d e : Str}

theorem mgmtVlan_full (hid : PlainName id) (hd : PlainName d) :
    (mgmtVlan id d).getFullDevname = d ++ '.' :: id := by
  simp [mgmtVlan, VlanObj.getFullDevname, hid.1, hd.1]

theorem isVlan_full (hid : PlainName id) (hd : PlainName d) :
    '.' ∈ (mgmtVlan id d).getFullDevname := by
  simp [mgmtVlan_full hid hd]

theorem takeWhile_full (hd : PlainName d) : (d ++ '.' :: id).takeWhile (· ≠ '.') = d := by
  rw [List.takeWhile_append_of_pos]
  · simp
  · intro c hc
    exact decide_eq_true fun heq => hd.2 (heq ▸ hc)

theorem getParent_full (hid : PlainName id) (hd : PlainName d) :
    getParent (mgmtVlan id d).getFullDevname = d := by
  rw [mgmtVlan_full hid hd, getParent, takeWhile_full hd]

theorem getId_full (hid : PlainName id) (hd : PlainName d) :
    getId (mgmtVlan id d).getFullDevname = some id := by
  have hdrop : (d ++ '.' :: id).dropWhile (· ≠ '.') = '.' :: id := by
    rw [List.dropWhile_append_of_pos]
    · simp
    · intro c hc
      exact decide_eq_true fun heq => hd.2 (heq ▸ hc)
  have htake : id.takeWhile (· ≠ '.') = id := by
    rw [List.takeWhile_eq_self_iff]
    intro c hc
    exact decide_eq_true fun heq => hid.2 (heq ▸ hc)
  simp only [mgmtVlan_full hid hd, getId, hdrop, htake]

/-- The interface can be read off the name of its VLAN. -/
theorem full_injective (hid : PlainName id) (hd : PlainName d) (he : PlainName e)
    (h : (mgmtVlan id d).getFullDevname = (mgmtVlan id e).getFullDevname) : d = e := by
  rw [← getParent_full hid hd, h, getParent_full hid he]

/-! ### The interfaces of the board -/

theorem not_hasText {s : Str} (h : 'a' ∉ s) : s.hasText ATH = false := by
  rw [Str.hasText, List.any_eq_false]
  intro t ht hprefix
  refine h (((List.mem_tails _ _).mp ht).subset ?_)
  exact (List.isPrefixOf_iff_prefix.mp hprefix).subset (List.mem_cons_self)

def ethName (i : Nat) : Str := ['e', 't', 'h'] ++ Nat.toDigits 10 i

theorem boardInterfaces_eq (phycount : Nat) :
    boardInterfaces phycount = (List.range phycount).map ethName ++ [ath0] := rfl

theorem ethName_digit {i : Nat} {c : Char} (h : c ∈ ethName i) :
    c ∈ ['e', 't', 'h'] ∨ c.isDigit = true := by
  rcases List.mem_append.mp h with h | h
  · exact .inl h
  · exact .inr (Nat.isDigit_of_mem_toDigits (by decide) (by decide) h)

theorem board_plain (phycount : Nat) : ∀ d ∈ boardInterfaces phycount, PlainName d := by
  intro d hd
  rw [boardInterfaces_eq, List.mem_append, List.mem_map, List.mem_singleton] at hd
  rcases hd with ⟨i, -, rfl⟩ | rfl
  · refine ⟨by simp [ethName], fun hdot => ?_⟩
    rcases ethName_digit hdot with hc | hc
    · exact absurd hc (by decide)
    · exact absurd hc (by decide)
  · exact ⟨by decide, by decide⟩

theorem board_nodup (phycount : Nat) : (boardInterfaces phycount).Nodup := by
  have hinj : Function.Injective ethName := by
    intro i j hij
    have hdigits := List.append_cancel_left hij
    rw [← Lib.Js.value_toDigits i, hdigits, Lib.Js.value_toDigits]
  rw [boardInterfaces_eq, List.nodup_append]
  refine ⟨(List.nodup_range).map hinj, List.nodup_singleton _, ?_⟩
  intro d hd e he heq
  obtain ⟨i, -, rfl⟩ := List.mem_map.mp hd
  rw [List.mem_singleton.mp he] at heq
  exact absurd (congrArg List.head? heq) (by simp [ethName, ath0])

/-- The interfaces are come to one after the other. -/
theorem board_split {phycount : Nat} {done todo : List Str} {p : Str}
    (h : boardInterfaces phycount = done ++ p :: todo) :
    (∀ q ∈ done, PlainName q) ∧ PlainName p ∧ p ∉ done := by
  have hplain := board_plain phycount
  have hnodup := board_nodup phycount
  rw [h] at hplain hnodup
  refine ⟨fun q hq => hplain q (List.mem_append_left _ hq), hplain p (by simp), fun hmem => ?_⟩
  exact (List.nodup_append.mp hnodup).2.2 p hmem p List.mem_cons_self rfl

/-- What is still to come, before and after one of them. -/
theorem drop_split {l done todo : List Str} {p : Str} (h : l = done ++ p :: todo) :
    l.drop done.length = p :: todo ∧ l.drop (done ++ [p]).length = todo := by
  constructor
  · rw [h, List.drop_left]
  · rw [h, List.append_cons done p todo, List.drop_left]

/-- Only the wireless interface has rules. -/
theorem ethName_no_rules (hid : PlainName id) (hdigits : ∀ c ∈ id, c.isDigit = true)
    {phycount i : Nat} (hi : i < phycount) :
    (mgmtVlan id (ethName i)).getFullDevname.hasText ATH = false := by
  have hplain := board_plain phycount (ethName i) (by
    rw [boardInterfaces_eq]
    exact List.mem_append_left _ (List.mem_map_of_mem (List.mem_range.mpr hi)))
  rw [mgmtVlan_full hid hplain]
  refine not_hasText fun hmem => ?_
  rw [List.mem_append, List.mem_cons] at hmem
  rcases hmem with hmem | hmem | hmem
  · rcases ethName_digit hmem with hc | hc
    · exact absurd hc (by decide)
    · exact absurd hc (by decide)
  · exact absurd hmem (by decide)
  · exact absurd (hdigits _ hmem) (by decide)

theorem ath0_rules (hid : PlainName id) :
    (mgmtVlan id ath0).getFullDevname.hasText ATH = true := by
  rw [mgmtVlan_full hid ⟨by decide, by decide⟩]
  simp [Str.hasText, ath0, ATH]

/-- A loop over the board that does nothing for wired interfaces. -/
theorem foldl_board {β : Type} {f : β → Str → β} {phycount : Nat}
    (h : ∀ b, ∀ i < phycount, f b (ethName i) = b) (b : β) :
    (boardInterfaces phycount).foldl f b = f b ath0 := by
  have hskip : ∀ l : List Nat, (∀ i ∈ l, i < phycount) → (l.map ethName).foldl f b = b := by
    intro l hl
    induction l with
    | nil => rfl
    | cons i l ih =>
        rw [List.forall_mem_cons] at hl
        rw [List.map_cons, List.foldl_cons, h b i hl.1]
        exact ih hl.2
  rw [boardInterfaces_eq, List.foldl_append, hskip _ fun i hi => List.mem_range.mp hi]
  rfl

end Names

namespace Net

/-- The objects of the bridges, the VLANs and the filter rules. -/
structure Sections where
  isBridge : Bool
  bridges : List BridgeObj
  vlan : List VlanObj
  ebVlan : List VlanObj
  arpnat : List RuleObj
  eap : List RuleObj

def sections (s : Net) : Sections where
  isBridge := s.isBridge
  bridges := s.bridges
  vlan := s.vlanObjs
  ebVlan := s.ebVlan.objs
  arpnat := s.arpnat.objs
  eap := s.eap.objs

/-- The interface of the management. -/
def mlanName (s : Net) : Str := (s.records s.mlan).devname

section

variable {s t : Net} {d : Str} {i : Nat}

/-! ## Interfaces -/

theorem sections_congr (hlists : t.ruleLists = s.ruleLists)
    (hrest : (t.isBridge, t.eap) = (s.isBridge, s.eap)) : t.sections = s.sections := by
  simp only [ruleLists, Prod.mk.injEq] at hlists hrest
  obtain ⟨hbridges, hvlan, heb, harpnat⟩ := hlists
  rw [sections, sections, hbridges, vlanObjs_congr hvlan, heb, harpnat, hrest.1, hrest.2]

theorem useIfc_sections (role : Option Str) : (s.useIfc d role).sections = s.sections := by
  refine sections_congr useIfc_lists ?_
  unfold useIfc
  split
  · dsimp only
    split <;> rfl
  · rfl

theorem addIfc_sections : (s.addIfc d).sections = s.sections := by
  refine sections_congr addIfc_lists ?_
  unfold addIfc
  split <;> rfl

theorem removeIfc_sections : (s.removeIfc d).sections = s.sections := by
  unfold removeIfc
  split
  · rfl
  · rw [useIfc_sections]
    split <;> rfl

theorem clearIfc_sections : (s.clearIfc d).sections = s.sections := by
  refine sections_congr clearIfc_lists ?_
  unfold clearIfc
  split <;> rfl

/-! ## The management interface -/

theorem setRecord_mlanName (r : Nat) {f : NetconfObj → NetconfObj}
    (hf : ∀ o, (f o).devname = o.devname) : (s.setRecord r f).mlanName = s.mlanName := by
  unfold mlanName
  change ((s.setRecord r f).records s.mlan).devname = _
  by_cases hk : s.mlan = r
  · rw [hk, setRecord_self, hf]
  · rw [setRecord_of_ne s f hk]

theorem useIfc_mlanName (role : Option Str) : (s.useIfc d role).mlanName = s.mlanName := by
  have hfree : ∀ (u : Net) (l : List Str), mlanName { u with freeIfc := l } = u.mlanName :=
    fun _ _ => rfl
  unfold useIfc
  split
  · dsimp only
    rw [hfree]
    split
    · exact setRecord_mlanName _ fun _ => rfl
    · rfl
  · rfl

theorem unuseIfc_mlanName : (s.unuseIfc d).mlanName = s.mlanName := by
  unfold unuseIfc mlanName
  dsimp only
  split <;> rfl

theorem takeOver_keeps (plain : List Nat) (item : Nat) :
    (s.takeOver plain item).sections = s.sections ∧
      (s.takeOver plain item).mlanName = s.mlanName := by
  unfold takeOver
  split
  · rename_i c _
    refine ⟨rfl, ?_⟩
    dsimp only
    rw [setRecord_mlanName item, setRecord_mlanName c]
    · exact fun _ => rfl
    · exact fun _ => rfl
  · exact ⟨rfl, rfl⟩

theorem restore_keeps (plain : List Nat) (a : Nat) :
    (s.restore plain d a).sections = s.sections ∧
      (s.restore plain d a).mlanName = s.mlanName := by
  unfold restore
  split
  · exact ⟨rfl, setRecord_mlanName _ fun _ => rfl⟩
  · refine ⟨rfl, ?_⟩
    dsimp only
    rw [setRecord_mlanName s.next]
    · exact congrArg NetconfObj.devname (addRecord_of_ne s d (Nat.ne_of_lt s.mlan_lt))
    · exact fun _ => rfl

/-- The management comes to the interface, and nothing else changes of what
bridges and VLANs are. -/
theorem setMlanIfc_spec (hbridge : s.isBridge = true) (d : Str) :
    ∃ t, s.setMlanIfc d = some t ∧ t.sections = s.sections ∧ t.mlanName = d := by
  have hnow : s.nowEnabled d = some true := if_pos hbridge
  simp only [setMlanIfc, hnow, Option.bind_eq_bind, Option.bind_some, Option.pure_def]
  split
  · rename_i hsame
    exact ⟨s, rfl, rfl, hsame.2⟩
  · refine ⟨_, rfl, ?_⟩
    have hset : (s.setRecord s.mlan fun o =>
        { o with enabled := true, devname := d }).mlanName = d :=
      congrArg NetconfObj.devname (setRecord_self s s.mlan _)
    rw [if_pos trivial, useIfc_sections, useIfc_mlanName, (takeOver_keeps _ _).1,
      (takeOver_keeps _ _).2]
    split
    · rw [unuseIfc_mlanName, (restore_keeps _ _).2]
      exact ⟨(restore_keeps _ _).1, hset⟩
    · exact ⟨rfl, hset⟩

/-! ## VLANs and ports -/

theorem addVlan_sections (v : VlanObj) : (s.addVlan v).sections = { s.sections with
    vlan := s.vlanObjs ++ [v]
    ebVlan := if v.devname ∈ s.getPorts then s.ebVlan.objs ++ [v] else s.ebVlan.objs } := by
  unfold addVlan
  rw [addIfc_sections]
  split <;> rfl

theorem removeVlan_sections {v : VlanObj} (hv : s.vlanObjs[i]? = some v) :
    ∃ t, s.removeVlan i = some t ∧ t.sections = { s.sections with
      vlan := s.vlanObjs.eraseIdx i
      ebVlan := s.ebVlan.objs.filter fun o => !v.same o } := by
  refine ⟨_, by rw [removeVlan, hv]; rfl, ?_⟩
  rw [removeIfc_sections, sections, vlanObjs_erase (s := s) rfl]
  rfl

theorem addBridge_sections : s.addBridge.sections = { s.sections with
    bridges := s.bridges ++ [⟨s.newBridgeName, true, false, []⟩] } := by
  unfold addBridge
  rw [addIfc_sections]
  rfl

/-- The rules of a port that is a VLAN. -/
theorem addAthRules_sections (hdot : '.' ∈ d) : (s.addAthRules d).sections = { s.sections with
    arpnat := if d.hasText ATH then enableRule s.arpnat.objs d else s.arpnat.objs } := by
  unfold addAthRules
  by_cases hath : d.hasText ATH = true <;> simp [hath, hdot, sections, vlanObjs]

theorem removeAthRules_sections :
    (s.removeAthRules d).sections = { s.sections with
      arpnat := if d.hasText ATH then s.arpnat.objs.eraseP (·.devname = d) else s.arpnat.objs
      eap := if d.hasText ATH then s.eap.objs.eraseP (·.devname = d) else s.eap.objs } := by
  unfold removeAthRules
  by_cases hath : d.hasText ATH = true <;> simp [hath, sections, vlanObjs]

theorem addBridgePort_sections {b b' : BridgeObj} (hb : s.bridges[i]? = some b)
    (hadd : b.addPort d = some b') (hdot : '.' ∈ d) :
    ∃ t, s.addBridgePort i d = .ok t ∧ t.sections = { s.sections with
      bridges := s.bridges.set i b'
      arpnat := if d.hasText ATH then enableRule s.arpnat.objs d else s.arpnat.objs } := by
  refine ⟨_, by
    simp only [addBridgePort, hb, hadd, noVlanSection, addVlanRules, hdot, if_true, not_true,
      decide_false, Bool.false_and, Bool.false_eq_true, if_false]
    rfl, ?_⟩
  rw [useIfc_sections, addAthRules_sections hdot]
  have hclear := clearIfc_sections (s := { s with bridges := s.bridges.set i b' }) (d := d)
  rw [hclear]
  have harpnat : (clearIfc { s with bridges := s.bridges.set i b' } d).arpnat.objs =
      s.arpnat.objs := congrArg Sections.arpnat hclear
  rw [harpnat]
  rfl

theorem removeBridgePort_sections {b : BridgeObj} (hb : s.bridges[i]? = some b) (hdot : '.' ∈ d) :
    ∃ t, s.removeBridgePort i d = .ok t ∧ t.sections = { s.sections with
      bridges := s.bridges.set i (b.removePort d)
      arpnat := if d.hasText ATH then s.arpnat.objs.eraseP (·.devname = d) else s.arpnat.objs
      eap := if d.hasText ATH then s.eap.objs.eraseP (·.devname = d) else s.eap.objs } := by
  refine ⟨_, by
    simp only [removeBridgePort, hb, noVlanSection, removeVlanRules, hdot, if_true, not_true,
      decide_false, Bool.false_and, Bool.false_eq_true, if_false]
    rfl, ?_⟩
  have hrules := removeAthRules_sections (s := s) (d := d)
  have hbridges : (s.removeAthRules d).bridges = s.bridges := congrArg Sections.bridges hrules
  change { (s.removeAthRules d).sections with
    bridges := (s.removeAthRules d).bridges.set i (b.removePort d) } = _
  rw [hrules, hbridges]

/-! ## The bridge is made -/

/-- The bridge with the VLANs of some interfaces. -/
def mgmtBridge (name id : Str) (ports : List Str) : BridgeObj :=
  ⟨name, true, false, ports.map fun p => ⟨(mgmtVlan id p).getFullDevname, true⟩⟩

/-- The ARPNAT entry that comes with such a port, and that goes with it. -/
def addRule (id : Str) (rules : List RuleObj) (p : Str) : List RuleObj :=
  if (mgmtVlan id p).getFullDevname.hasText ATH then
    enableRule rules (mgmtVlan id p).getFullDevname
  else rules

def dropRule (id : Str) (rules : List RuleObj) (p : Str) : List RuleObj :=
  if (mgmtVlan id p).getFullDevname.hasText ATH then
    rules.eraseP (·.devname = (mgmtVlan id p).getFullDevname)
  else rules

/-- The ports of the bridges. -/
def Sections.ports (S : Sections) : List Str := S.bridges.flatMap BridgeObj.getPorts

/-- What there is when some interfaces have come to the new bridge. -/
def Sections.withMgmt (S : Sections) (name id : Str) (done : List Str) : Sections :=
  { S with
    bridges := S.bridges ++ [mgmtBridge name id done]
    vlan := S.vlan ++ done.map (mgmtVlan id)
    ebVlan := S.ebVlan ++ (done.filter (· ∈ S.ports)).map (mgmtVlan id)
    arpnat := done.foldl (addRule id) S.arpnat }

variable {id name : Str} {S : Sections}

theorem mgmtBridge_getPorts (hid : PlainName id) {ports : List Str}
    (hports : ∀ p ∈ ports, PlainName p) : (mgmtBridge name id ports).getPorts =
      ports.map fun p => (mgmtVlan id p).getFullDevname := by
  have hfilter : (mgmtBridge name id ports).ports.filter (·.enabled) =
      (mgmtBridge name id ports).ports := by
    rw [List.filter_eq_self]
    intro port hport
    obtain ⟨p, hp, rfl⟩ := List.mem_map.mp hport
    simp [PortObj.enabled, mgmtVlan_full hid (hports p hp)]
  rw [BridgeObj.getPorts, hfilter, mgmtBridge, List.map_map]
  rfl

theorem addMgmtPort_step (hid : PlainName id) {done : List Str} {p : Str}
    (hdone : ∀ q ∈ done, PlainName q) (hp : PlainName p) (hnew : p ∉ done)
    (hs : s.sections = S.withMgmt name id done) :
    ∃ t, addMgmtPort id S.bridges.length s p = some t ∧
      t.sections = S.withMgmt name id (done ++ [p]) := by
  have hbridges : s.bridges = S.bridges ++ [mgmtBridge name id done] :=
    congrArg Sections.bridges hs
  have hvlan := addVlan_sections (s := s) (mgmtVlan id p)
  have hplace : (s.addVlan (mgmtVlan id p)).bridges[S.bridges.length]? =
      some (mgmtBridge name id done) := by
    have hsame : (s.addVlan (mgmtVlan id p)).bridges = s.bridges :=
      congrArg Sections.bridges hvlan
    rw [hsame, hbridges]
    simp
  have hfind : (mgmtBridge name id done).ports.find?
      (·.devname = (mgmtVlan id p).getFullDevname) = none := by
    rw [List.find?_eq_none]
    intro port hport hsame
    obtain ⟨q, hq, rfl⟩ := List.mem_map.mp hport
    exact hnew (full_injective hid (hdone q hq) hp (of_decide_eq_true hsame) ▸ hq)
  have hadd : (mgmtBridge name id done).addPort (mgmtVlan id p).getFullDevname =
      some (mgmtBridge name id (done ++ [p])) := by
    rw [BridgeObj.addPort, hfind]
    simp [mgmtBridge]
  obtain ⟨t, ht, hsections⟩ := addBridgePort_sections hplace hadd (isVlan_full hid hp)
  refine ⟨t, Lib.toOption_eq_some.mpr ht, hsections.trans ?_⟩
  have hports : (mgmtVlan id p).devname ∈ s.getPorts ↔ p ∈ S.ports := by
    rw [getPorts, hbridges, List.flatMap_append, List.flatMap_singleton,
      mgmtBridge_getPorts hid hdone, List.mem_append]
    refine or_iff_left fun hmem => ?_
    obtain ⟨q, hq, heq⟩ := List.mem_map.mp hmem
    have hdot := isVlan_full hid (hdone q hq)
    rw [heq] at hdot
    exact hp.2 hdot
  have hvlans : s.vlanObjs = S.vlan ++ done.map (mgmtVlan id) := congrArg Sections.vlan hs
  have hrules : s.ebVlan.objs = S.ebVlan ++ (done.filter (· ∈ S.ports)).map (mgmtVlan id) :=
    congrArg Sections.ebVlan hs
  have harpnat : (s.addVlan (mgmtVlan id p)).arpnat.objs = done.foldl (addRule id) S.arpnat :=
    (congrArg Sections.arpnat hvlan).trans (congrArg Sections.arpnat hs)
  have hbridges' : (s.addVlan (mgmtVlan id p)).bridges = S.bridges ++ [mgmtBridge name id done] :=
    (congrArg Sections.bridges hvlan).trans hbridges
  rw [hvlan, hs, hvlans, hrules, harpnat, hbridges']
  by_cases hport : p ∈ S.ports
  · rw [if_pos (hports.mpr hport)]
    simp [Sections.withMgmt, hport, List.foldl_append, addRule]
  · rw [if_neg (hports.not.mpr hport)]
    simp [Sections.withMgmt, hport, List.foldl_append, addRule]

theorem addMgmtBridge_spec (hid : PlainName id) (phycount : Nat) :
    ∃ t, s.addMgmtBridge phycount id = some t ∧
      t.sections = s.sections.withMgmt s.newBridgeName id (boardInterfaces phycount) := by
  refine Lib.foldlM_of_prefix
    (fun done (t : Net) => t.sections = s.sections.withMgmt s.newBridgeName id done) ?_ ?_
  · rw [addBridge_sections]
    simp [Sections.withMgmt, sections, mgmtBridge]
  · intro done p todo t hboard ht
    obtain ⟨hdone, hp, hnew⟩ := board_split hboard
    exact addMgmtPort_step hid hdone hp hnew ht

/-! ## The bridge is removed -/

theorem removePort_head (id p : Str) (ports : List Str) :
    (mgmtBridge name id (p :: ports)).removePort (mgmtVlan id p).getFullDevname =
      mgmtBridge name id ports := by
  simp [BridgeObj.removePort, mgmtBridge]

/-- The ports of the bridge are removed, and then the bridge. -/
theorem removeMgmtBridge_spec (hid : PlainName id) {phycount : Nat}
    (hs : s.sections = { S with
      bridges := S.bridges ++ [mgmtBridge name id (boardInterfaces phycount)] }) :
    ∃ t, s.removeBridge S.bridges.length = .ok t ∧ t.sections = { S with
      arpnat := (boardInterfaces phycount).foldl (dropRule id) S.arpnat
      eap := (boardInterfaces phycount).foldl (dropRule id) S.eap } := by
  have hplace : s.bridges[S.bridges.length]? =
      some (mgmtBridge name id (boardInterfaces phycount)) := by
    have hbridges : s.bridges = S.bridges ++ [mgmtBridge name id (boardInterfaces phycount)] :=
      congrArg Sections.bridges hs
    rw [hbridges]
    simp
  have hloop : ∃ t, (boardInterfaces phycount).foldlM (fun s p =>
        (s.removeBridgePort S.bridges.length (mgmtVlan id p).getFullDevname).toOption) s = some t ∧
      t.sections = { S with
        bridges := S.bridges ++ [mgmtBridge name id ((boardInterfaces phycount).drop
          (boardInterfaces phycount).length)]
        arpnat := (boardInterfaces phycount).foldl (dropRule id) S.arpnat
        eap := (boardInterfaces phycount).foldl (dropRule id) S.eap } := by
    refine Lib.foldlM_of_prefix (fun done (t : Net) => t.sections = { S with
      bridges := S.bridges ++ [mgmtBridge name id ((boardInterfaces phycount).drop done.length)]
      arpnat := done.foldl (dropRule id) S.arpnat
      eap := done.foldl (dropRule id) S.eap }) hs ?_
    intro done p todo t hboard ht
    obtain ⟨hdone, hp, hnew⟩ := board_split hboard
    obtain ⟨hrest, hrest'⟩ := drop_split hboard
    rw [hrest] at ht
    have hbridges : t.bridges = S.bridges ++ [mgmtBridge name id (p :: todo)] :=
      congrArg Sections.bridges ht
    have harpnat : t.arpnat.objs = done.foldl (dropRule id) S.arpnat :=
      congrArg Sections.arpnat ht
    have heap : t.eap.objs = done.foldl (dropRule id) S.eap := congrArg Sections.eap ht
    obtain ⟨u, hu, hsections⟩ := removeBridgePort_sections (s := t) (i := S.bridges.length)
      (b := mgmtBridge name id (p :: todo)) (by rw [hbridges]; simp) (isVlan_full hid hp)
    refine ⟨u, Lib.toOption_eq_some.mpr hu, hsections.trans ?_⟩
    rw [ht, hrest', hbridges, harpnat, heap, removePort_head]
    simp [dropRule]
  obtain ⟨t, ht, hsections⟩ := hloop
  rw [← Lib.toOption_foldlM, Lib.toOption_eq_some] at ht
  have hports : (mgmtBridge name id (boardInterfaces phycount)).getPorts =
      (boardInterfaces phycount).map fun p => (mgmtVlan id p).getFullDevname :=
    mgmtBridge_getPorts hid (board_plain phycount)
  refine ⟨_, by
    rw [removeBridge, hplace]
    simp only [hports, List.foldlM_map, ht]
    rfl, ?_⟩
  rw [removeIfc_sections]
  have hbridges : t.bridges = S.bridges ++ [mgmtBridge name id ((boardInterfaces phycount).drop
      (boardInterfaces phycount).length)] := congrArg Sections.bridges hsections
  change { t.sections with bridges := t.bridges.eraseIdx S.bridges.length } = _
  rw [hsections, hbridges, List.drop_length, List.eraseIdx_append_of_length_le le_rfl,
    Nat.sub_self]
  simp

/-- The first VLAN of that name is the one that was made. -/
theorem findByFullDevname_spec (hid : PlainName id) {p : Str} (hp : PlainName p)
    (hnone : ∀ v ∈ S.vlan, ¬(v.devname = p ∧ v.id = id)) {todo : List Str}
    (hs : s.vlanObjs = S.vlan ++ (p :: todo).map (mgmtVlan id)) :
    s.findByFullDevname (mgmtVlan id p).getFullDevname = some S.vlan.length := by
  rw [findByFullDevname, getParent_full hid hp, getId_full hid hp, hs]
  have hfirst : S.vlan.findIdx? (fun v => v.devname = p && some v.id = some id) = none := by
    rw [List.findIdx?_eq_none_iff]
    intro v hv
    simpa using hnone v hv
  rw [List.findIdx?_append, hfirst]
  simp [mgmtVlan, List.findIdx?_cons]

/-- The VLANs of the board are removed, and their rules with them. -/
theorem removeMgmtVlans_spec (hid : PlainName id) {phycount : Nat}
    (hnone : ∀ v ∈ S.vlan, ∀ p ∈ boardInterfaces phycount, ¬(v.devname = p ∧ v.id = id))
    (hs : s.sections = { S with
      vlan := S.vlan ++ (boardInterfaces phycount).map (mgmtVlan id) }) :
    ∃ t, (boardInterfaces phycount).foldlM (fun s p => do
        s.removeVlan (← s.findByFullDevname (mgmtVlan id p).getFullDevname)) s = some t ∧
      t.sections = { S with
        ebVlan := S.ebVlan.filter fun o =>
          (boardInterfaces phycount).all fun p => !(mgmtVlan id p).same o } := by
  have hloop : ∃ t, (boardInterfaces phycount).foldlM (fun s p => do
        s.removeVlan (← s.findByFullDevname (mgmtVlan id p).getFullDevname)) s = some t ∧
      t.sections = { S with
        vlan := S.vlan ++ ((boardInterfaces phycount).drop
          (boardInterfaces phycount).length).map (mgmtVlan id)
        ebVlan := S.ebVlan.filter fun o =>
          (boardInterfaces phycount).all fun p => !(mgmtVlan id p).same o } := by
    refine Lib.foldlM_of_prefix (fun done (t : Net) => t.sections = { S with
      vlan := S.vlan ++ ((boardInterfaces phycount).drop done.length).map (mgmtVlan id)
      ebVlan := S.ebVlan.filter fun o => done.all fun p => !(mgmtVlan id p).same o }) ?_ ?_
    · simpa using hs
    · intro done p todo t hboard ht
      obtain ⟨-, hp, -⟩ := board_split hboard
      obtain ⟨hrest, hrest'⟩ := drop_split hboard
      rw [hrest] at ht
      have hvlan : t.vlanObjs = S.vlan ++ (p :: todo).map (mgmtVlan id) :=
        congrArg Sections.vlan ht
      have hrules : t.ebVlan.objs = S.ebVlan.filter fun o =>
          done.all fun p => !(mgmtVlan id p).same o := congrArg Sections.ebVlan ht
      have hfind := findByFullDevname_spec hid hp
        (fun v hv => hnone v hv p (by rw [hboard]; simp)) hvlan
      obtain ⟨u, hu, hsections⟩ := removeVlan_sections (s := t) (i := S.vlan.length)
        (v := mgmtVlan id p) (by rw [hvlan]; simp)
      refine ⟨u, by rw [hfind]; exact hu, hsections.trans ?_⟩
      rw [ht, hrest', hvlan, hrules, List.filter_filter,
        List.eraseIdx_append_of_length_le le_rfl, Nat.sub_self]
      simp [Bool.and_comm]
  obtain ⟨t, ht, hsections⟩ := hloop
  refine ⟨t, ht, hsections.trans ?_⟩
  rw [List.drop_length]
  simp

/-! ## The calls -/

/-- Without a bridge `br1`, a new bridge is made by its own name. -/
theorem setMgmtVlan_spec (hbridge : s.isBridge = true)
    (hvalid : (VlanObj.mk "eth0".toList id [] false).valid = true) (hsection : s.vlan.isSome = true)
    (hnone : s.findBridge br1Name = none) (phycount : Nat) :
    ∃ t, s.setMgmtVlan phycount id = some t ∧
      t.sections = s.sections.withMgmt s.newBridgeName id (boardInterfaces phycount) ∧
      t.mlanName = br1Name := by
  obtain ⟨hid, -⟩ := plainName_of_valid hvalid
  obtain ⟨t, ht, hsections⟩ := addMgmtBridge_spec (s := s) hid phycount
  have hbridge' : t.isBridge = true := (congrArg Sections.isBridge hsections).trans hbridge
  obtain ⟨u, hu, hkeep, hname⟩ := setMlanIfc_spec hbridge' br1Name
  refine ⟨u, ?_, hkeep.trans hsections, hname⟩
  have hne : id.isEmpty = false := List.isEmpty_eq_false_iff.mpr hid.1
  obtain ⟨vlan, hvlan⟩ := Option.isSome_iff_exists.mp hsection
  rw [setMgmtVlan, hvalid, hne, hvlan]
  simp [dropMgmtBridge, hnone, ht, hu]

/-- The bridge and its VLANs are removed by their names. -/
theorem clearMgmtVlan_spec (hbridge : S.isBridge = true) (hid : PlainName id) {phycount : Nat}
    (hname : ∀ b ∈ S.bridges, b.devname ≠ br1Name)
    (hnone : ∀ v ∈ S.vlan, ∀ p ∈ boardInterfaces phycount, ¬(v.devname = p ∧ v.id = id))
    (hs : s.sections = S.withMgmt br1Name id (boardInterfaces phycount)) :
    ∃ t, s.setMgmtVlan phycount [] = some t ∧ t.mlanName = br0Name ∧ t.sections = { S with
      ebVlan := (S.withMgmt br1Name id (boardInterfaces phycount)).ebVlan.filter fun o =>
        (boardInterfaces phycount).all fun p => !(mgmtVlan id p).same o
      arpnat := (boardInterfaces phycount).foldl (dropRule id)
        ((boardInterfaces phycount).foldl (addRule id) S.arpnat)
      eap := (boardInterfaces phycount).foldl (dropRule id) S.eap } := by
  have hbridges : s.bridges =
      S.bridges ++ [mgmtBridge br1Name id (boardInterfaces phycount)] :=
    congrArg Sections.bridges hs
  have hfind : s.findBridge br1Name = some S.bridges.length := by
    have hfirst : S.bridges.findIdx? (fun b => b.devname = br1Name) = none := by
      rw [List.findIdx?_eq_none_iff]
      intro b hb
      simpa using hname b hb
    rw [findBridge, hbridges, List.findIdx?_append, hfirst]
    simp [mgmtBridge]
  have hplace : s.bridges[S.bridges.length]? =
      some (mgmtBridge br1Name id (boardInterfaces phycount)) := by
    rw [hbridges]
    simp
  have hports : (mgmtBridge br1Name id (boardInterfaces phycount)).getPorts =
      (boardInterfaces phycount).map fun p => (mgmtVlan id p).getFullDevname :=
    mgmtBridge_getPorts hid (board_plain phycount)
  have hmode : s.isBridge = true := (congrArg Sections.isBridge hs).trans hbridge
  obtain ⟨s₁, hs₁, hkeep₁, -⟩ := setMlanIfc_spec hmode br0Name
  obtain ⟨s₂, hs₂, hsections₂⟩ := removeMgmtBridge_spec (s := s₁)
    (S := { S.withMgmt br1Name id (boardInterfaces phycount) with bridges := S.bridges })
    hid (hkeep₁.trans hs)
  obtain ⟨s₃, hs₃, hsections₃⟩ := removeMgmtVlans_spec (s := s₂) (S := { S with
      ebVlan := (S.withMgmt br1Name id (boardInterfaces phycount)).ebVlan
      arpnat := (boardInterfaces phycount).foldl (dropRule id)
        ((boardInterfaces phycount).foldl (addRule id) S.arpnat)
      eap := (boardInterfaces phycount).foldl (dropRule id) S.eap }) hid hnone hsections₂
  have hmode₃ : s₃.isBridge = true := (congrArg Sections.isBridge hsections₃).trans hbridge
  obtain ⟨s₄, hs₄, hkeep₄, hname₄⟩ := setMlanIfc_spec hmode₃ br0Name
  refine ⟨s₄, ?_, hname₄, hkeep₄.trans hsections₃⟩
  have hdrop : s.dropMgmtBridge = some s₃ := by
    simp only [dropMgmtBridge, hfind, hplace, Option.bind_eq_bind, Option.bind_some, hs₁, hs₂,
      Except.toOption, hports, List.foldlM_map]
    exact hs₃
  simp [setMgmtVlan, hdrop, hs₄]

/-! ## What the calls need -/

/-- The number of a new bridge is above the others. -/
theorem lt_newNo (bridges : List BridgeObj) (n : Nat) :
    n ≤ bridges.foldl (fun newNo b => match parseNo (b.devname.drop 2) with
      | some no => if newNo ≤ no then no + 1 else newNo
      | none => newNo) n ∧
    ∀ b ∈ bridges, ∀ no, parseNo (b.devname.drop 2) = some no →
      no < bridges.foldl (fun newNo b => match parseNo (b.devname.drop 2) with
        | some no => if newNo ≤ no then no + 1 else newNo
        | none => newNo) n := by
  induction bridges generalizing n with
  | nil => exact ⟨le_rfl, by simp⟩
  | cons b bridges ih =>
      rw [List.foldl_cons]
      cases hno : parseNo (b.devname.drop 2) with
      | none =>
          obtain ⟨hle, hrest⟩ := ih n
          refine ⟨hle, List.forall_mem_cons.mpr ⟨fun no hb => ?_, hrest⟩⟩
          rw [hno] at hb
          cases hb
      | some k =>
          obtain ⟨hle, hrest⟩ := ih (if n ≤ k then k + 1 else n)
          refine ⟨le_trans (by split <;> omega) hle,
            List.forall_mem_cons.mpr ⟨fun no hb => ?_, hrest⟩⟩
          rw [hno] at hb
          obtain rfl := Option.some.inj hb
          refine lt_of_lt_of_le ?_ hle
          split <;> omega

/-- If `br1` is next, there is no `br1`. -/
theorem not_br1_of_newBridgeName (h : s.newBridgeName = br1Name) :
    ∀ b ∈ s.bridges, b.devname ≠ br1Name := by
  intro b hb hname
  have hlt := (lt_newNo s.bridges 0).2 b hb 1 (by rw [hname]; decide)
  have hdigits : Nat.toDigits 10 (s.bridges.foldl (fun newNo b =>
      match parseNo (b.devname.drop 2) with
      | some no => if newNo ≤ no then no + 1 else newNo
      | none => newNo) 0) = ['1'] :=
    List.append_cancel_left (show ['b', 'r'] ++ _ = ['b', 'r'] ++ ['1'] from h)
  have hvalue := congrArg (Lib.Js.value 10) hdigits
  rw [Lib.Js.value_toDigits] at hvalue
  rw [hvalue] at hlt
  exact absurd hlt (by decide)

theorem getMgmtVlan_spec (hid : PlainName id) {phycount : Nat}
    (hname : ∀ b ∈ S.bridges, b.devname ≠ br1Name)
    (hs : s.sections = S.withMgmt br1Name id (boardInterfaces phycount)) :
    s.getMgmtVlan phycount = some id := by
  have hbridges : s.bridges =
      S.bridges ++ [mgmtBridge br1Name id (boardInterfaces phycount)] :=
    congrArg Sections.bridges hs
  have hfind : s.bridges.find? (fun b => b.devname = br1Name) =
      some (mgmtBridge br1Name id (boardInterfaces phycount)) := by
    have hfirst : S.bridges.find? (fun b => b.devname = br1Name) = none := by
      rw [List.find?_eq_none]
      intro b hb
      simpa using hname b hb
    rw [hbridges, List.find?_append, hfirst]
    simp [mgmtBridge]
  have hplain := board_plain phycount
  have hports : (mgmtBridge br1Name id (boardInterfaces phycount)).getPorts =
      (boardInterfaces phycount).map fun p => (mgmtVlan id p).getFullDevname :=
    mgmtBridge_getPorts hid hplain
  obtain ⟨p, rest, hboard⟩ := List.exists_cons_of_ne_nil
    (show boardInterfaces phycount ≠ [] by simp [boardInterfaces])
  rw [hboard] at hplain
  obtain ⟨hp, hrest⟩ := List.forall_mem_cons.mp hplain
  have hall : ((rest.map fun p => (mgmtVlan id p).getFullDevname).all fun port =>
      getId port = getId (mgmtVlan id p).getFullDevname) = true := by
    rw [List.all_map, List.all_eq_true]
    intro q hq
    simp [getId_full hid hp, getId_full hid (hrest q hq)]
  -- The VLANs that were made are in the section.
  have hvlans : s.vlanObjs = S.vlan ++ (boardInterfaces phycount).map (mgmtVlan id) :=
    congrArg Sections.vlan hs
  have hsection : s.vlan.isSome = true := by
    cases hvlan : s.vlan with
    | none =>
        rw [vlanObjs, hvlan, hboard] at hvlans
        simp at hvlans
    | some vlan => rfl
  obtain ⟨vlan, hvlan⟩ := Option.isSome_iff_exists.mp hsection
  rw [getMgmtVlan, hfind, hvlan]
  simp only [Option.bind_eq_bind, Option.bind_some, hports]
  rw [hboard, List.map_cons, List.head?_cons, Option.bind_some, List.tail_cons, hall,
    getId_full hid hp]
  simp [isVlan, isVlan_full hid hp]

/-! ### What is left of the rules -/

theorem length_changeFirst {α : Type} (p : α → Bool) (f : α → α) (l : List α) :
    (changeFirst p f l).length = l.length := by
  induction l with
  | nil => rfl
  | cons a l ih =>
      rw [changeFirst]
      split
      · rfl
      · rw [List.length_cons, ih, List.length_cons]

theorem mem_changeFirst_devname {rules : List RuleObj} (h : rules.any (·.devname = d) = true) :
    ∃ o ∈ changeFirst (·.devname = d) (fun o => { o with enabled := true }) rules,
      o.devname = d := by
  induction rules with
  | nil => cases h
  | cons o rules ih =>
      rw [changeFirst]
      by_cases ho : o.devname = d
      · rw [if_pos (decide_eq_true ho)]
        exact ⟨_, List.mem_cons_self, ho⟩
      · rw [if_neg (by simpa using ho)]
        obtain ⟨o', ho', hname⟩ := ih (by simpa [ho] using h)
        exact ⟨o', List.mem_cons_of_mem _ ho', hname⟩

/-- An entry that comes and goes takes one with it that was there before. -/
theorem eraseP_enableRule_iff {rules : List RuleObj} :
    (enableRule rules d).eraseP (·.devname = d) = rules ↔ ∀ o ∈ rules, o.devname ≠ d := by
  unfold enableRule
  by_cases hany : rules.any (·.devname = d) = true
  · rw [if_pos hany]
    have hmem : ∃ o ∈ rules, o.devname = d := by simpa using hany
    refine iff_of_false (fun heq => ?_) fun hnone => ?_
    · obtain ⟨o, ho, hname⟩ := mem_changeFirst_devname hany
      have hlength := congrArg List.length heq
      rw [List.length_eraseP_of_mem ho (by simpa using hname), length_changeFirst] at hlength
      have hpos : 0 < rules.length := List.length_pos_of_mem hmem.choose_spec.1
      omega
    · obtain ⟨o, ho, hname⟩ := hmem
      exact hnone o ho hname
  · rw [if_neg hany]
    have hnone : ∀ o ∈ rules, o.devname ≠ d := by simpa using hany
    refine iff_of_true ?_ hnone
    rw [List.eraseP_append_right _ (by simpa using hnone)]
    simp

theorem filter_rules_iff {board : List Str} {rules : List VlanObj} {q : Str → Bool} :
    ((rules ++ (board.filter q).map (mgmtVlan id)).filter fun o =>
        board.all fun p => !(mgmtVlan id p).same o) = rules ↔
      ∀ o ∈ rules, ∀ p ∈ board, ¬(o.devname = p ∧ o.id = id) := by
  have hnew : (((board.filter q).map (mgmtVlan id)).filter fun o =>
      board.all fun p => !(mgmtVlan id p).same o) = [] := by
    rw [List.filter_eq_nil_iff]
    intro o ho hall
    obtain ⟨p, hp, rfl⟩ := List.mem_map.mp ho
    have hnot := List.all_eq_true.mp hall p (List.mem_filter.mp hp).1
    rw [same_self] at hnot
    cases hnot
  rw [List.filter_append, hnew, List.append_nil, List.filter_eq_self]
  simp only [List.all_eq_true, Bool.not_eq_true', ← Bool.not_eq_true, same_iff]
  rfl

/-! ### The law -/

/-- What there is after `setMgmtVlan(id)`. -/
structure MgmtSet (s t : Net) (phycount : Nat) (id : Str) : Prop where
  get : t.getMgmtVlan phycount = some id
  /-- The management is at the bridge that was made; the others are as before. -/
  bridge : ∃ b, t.bridges = s.bridges ++ [b] ∧ t.mlanName = b.devname ∧
    b.getPorts = (boardInterfaces phycount).map fun p => (mgmtVlan id p).getFullDevname
  /-- The VLANs are as before, with those that were made. -/
  vlans : t.vlanObjs = s.vlanObjs ++ (boardInterfaces phycount).map (mgmtVlan id)
  /-- And those are the ones that are found by the names of the ports. -/
  found : ∀ p ∈ boardInterfaces phycount,
    ∀ i ∈ t.findByFullDevname (mgmtVlan id p).getFullDevname, s.vlanObjs.length ≤ i

/-- What there is after `setMgmtVlan('')`. -/
structure MgmtCleared (s u : Net) : Prop where
  mlan : u.mlanName = br0Name
  bridges : u.bridges = s.bridges
  vlans : u.vlanObjs = s.vlanObjs
  ebVlan : u.ebVlan.objs = s.ebVlan.objs
  arpnat : u.arpnat.objs = s.arpnat.objs
  eap : u.eap.objs = s.eap.objs

/-- What the management VLAN is to be, once set and once cleared. -/
def MgmtLaw (s : Net) (phycount : Nat) (id : Str) : Prop :=
  ∃ t u, s.setMgmtVlan phycount id = some t ∧ MgmtSet s t phycount id ∧
    t.setMgmtVlan phycount [] = some u ∧ MgmtCleared s u

/-- What it needs: there is a section for VLANs, the next bridge is `br1`, and
there is nothing by the names of the VLANs that are made. -/
structure MgmtReady (s : Net) (phycount : Nat) (id : Str) : Prop where
  hasSection : s.vlan.isSome = true
  next : s.newBridgeName = br1Name
  vlans : ∀ v ∈ s.vlanObjs, ∀ p ∈ boardInterfaces phycount, ¬(v.devname = p ∧ v.id = id)
  ebVlan : ∀ o ∈ s.ebVlan.objs, ∀ p ∈ boardInterfaces phycount, ¬(o.devname = p ∧ o.id = id)
  arpnat : ∀ o ∈ s.arpnat.objs, o.devname ≠ (mgmtVlan id ath0).getFullDevname
  eap : ∀ o ∈ s.eap.objs, o.devname ≠ (mgmtVlan id ath0).getFullDevname

/-- The first VLAN of a name is a new one, where there was none. -/
theorem found_iff (hid : PlainName id) {p : Str} (hp : PlainName p) {vlans new : List VlanObj}
    (ht : t.vlanObjs = vlans ++ new) :
    (∀ i ∈ t.findByFullDevname (mgmtVlan id p).getFullDevname, vlans.length ≤ i) ↔
      ∀ v ∈ vlans, ¬(v.devname = p ∧ v.id = id) := by
  rw [findByFullDevname, getParent_full hid hp, getId_full hid hp, ht, List.findIdx?_append]
  cases hfirst : vlans.findIdx? fun v => v.devname = p && some v.id = some id with
  | none =>
      rw [List.findIdx?_eq_none_iff] at hfirst
      refine iff_of_true (fun i hi => ?_) fun v hv => by simpa using hfirst v hv
      obtain ⟨j, -, rfl⟩ := Option.map_eq_some_iff.mp hi
      exact Nat.le_add_left _ _
  | some k =>
      obtain ⟨hlt, hv, -⟩ := List.findIdx?_eq_some_iff_getElem.mp hfirst
      refine iff_of_false (fun h => absurd (h k rfl) (not_le.mpr hlt)) fun h => ?_
      exact h _ (List.getElem_mem hlt) (by simpa using hv)

theorem foldl_addRule (hid : PlainName id) (hdigits : ∀ c ∈ id, c.isDigit = true)
    (phycount : Nat) (rules : List RuleObj) :
    (boardInterfaces phycount).foldl (addRule id) rules =
      enableRule rules (mgmtVlan id ath0).getFullDevname := by
  rw [foldl_board, addRule, if_pos (ath0_rules hid)]
  intro rules i hi
  rw [addRule, ethName_no_rules hid hdigits hi]
  rfl

theorem foldl_dropRule (hid : PlainName id) (hdigits : ∀ c ∈ id, c.isDigit = true)
    (phycount : Nat) (rules : List RuleObj) :
    (boardInterfaces phycount).foldl (dropRule id) rules =
      rules.eraseP (·.devname = (mgmtVlan id ath0).getFullDevname) := by
  rw [foldl_board, dropRule, if_pos (ath0_rules hid)]
  intro rules i hi
  rw [dropRule, ethName_no_rules hid hdigits hi]
  rfl

/-- The mode and the number of bridges. -/
def size (s : Net) : Bool × Nat := (s.isBridge, s.bridges.length)

theorem size_congr (h : t.sections = s.sections) : t.size = s.size := by
  have hmode : t.isBridge = s.isBridge := congrArg Sections.isBridge h
  have hbridges : t.bridges = s.bridges := congrArg Sections.bridges h
  rw [size, size, hmode, hbridges]

theorem removeBridgePort_size (ht : s.removeBridgePort i d = .ok t) : t.size = s.size := by
  unfold removeBridgePort at ht
  cases hb : s.bridges[i]? with
  | none => simp [hb] at ht
  | some b =>
      simp only [hb] at ht
      split at ht
      · cases ht
      · obtain rfl := Except.ok.inj ht
        obtain ⟨rules, hrules⟩ := removeVlanRules_eq (s := s.removeAthRules d) (d := d)
        obtain ⟨arpnat, eap, hath⟩ := removeAthRules_eq (s := s) (d := d)
        rw [hrules, hath]
        simp [size, unuseIfc]

theorem removeVlan_size (ht : s.removeVlan i = some t) : t.size = s.size := by
  unfold removeVlan at ht
  obtain ⟨v, _, ht⟩ := Option.bind_eq_some_iff.mp ht
  obtain rfl := Option.some.inj ht
  rw [size_congr removeIfc_sections]
  rfl

theorem removeBridge_size (ht : s.removeBridge i = .ok t) :
    (t.isBridge, t.bridges.length + 1) = s.size := by
  unfold removeBridge at ht
  cases hb : s.bridges[i]? with
  | none => simp [hb] at ht
  | some b =>
  simp only [hb] at ht
  have hloop : ∃ u, (b.getPorts.foldlM (fun s port => s.removeBridgePort i port) s) = .ok u ∧
      t = removeIfc { u with bridges := u.bridges.eraseIdx i } b.devname := by
    cases hu : b.getPorts.foldlM (fun s port => s.removeBridgePort i port) s with
    | error u =>
        rw [hu] at ht
        cases ht
    | ok u =>
        rw [hu] at ht
        exact ⟨u, rfl, (Except.ok.inj ht).symm⟩
  obtain ⟨u, hu, rfl⟩ := hloop
  rw [← Lib.toOption_eq_some, Lib.toOption_foldlM] at hu
  have hsize : u.size = s.size :=
    Lib.foldlM_keeps (fun _ _ _ hstep =>
      removeBridgePort_size (Lib.toOption_eq_some.mp hstep)) hu
  have hlt : i < u.bridges.length := by
    obtain ⟨hlt, -⟩ := List.getElem?_eq_some_iff.mp hb
    exact lt_of_lt_of_eq hlt (congrArg Prod.snd hsize).symm
  have hafter := size_congr (removeIfc_sections (d := b.devname)
    (s := { u with bridges := u.bridges.eraseIdx i }))
  have hmode := congrArg Prod.fst hafter
  have hlength := congrArg Prod.snd hafter
  simp only [size] at hmode hlength
  rw [hmode, hlength, ← hsize, List.length_eraseIdx_of_lt hlt, Nat.sub_add_cancel (by omega)]
  rfl

/-- A call that has made a VLAN has found the section. -/
theorem section_of_setMgmtVlan (hid : PlainName id) {phycount : Nat}
    (ht : s.setMgmtVlan phycount id = some t) : s.vlan.isSome = true := by
  cases hvlan : s.vlan with
  | none =>
      rw [setMgmtVlan, hvlan, List.isEmpty_eq_false_iff.mpr hid.1] at ht
      cases ht
  | some vlan => rfl

/-- Where there is a `br1` already, it is removed for the new bridge. -/
theorem setMgmtVlan_length (hbridge : s.isBridge = true)
    (hvalid : (VlanObj.mk "eth0".toList id [] false).valid = true) {phycount k : Nat}
    (hk : s.findBridge br1Name = some k) (ht : s.setMgmtVlan phycount id = some t) :
    t.bridges.length = s.bridges.length := by
  obtain ⟨hid, -⟩ := plainName_of_valid hvalid
  have hne : id.isEmpty = false := List.isEmpty_eq_false_iff.mpr hid.1
  obtain ⟨vlan, hvlan⟩ := Option.isSome_iff_exists.mp (section_of_setMgmtVlan hid ht)
  rw [setMgmtVlan, hvalid, hne, hvlan] at ht
  obtain ⟨s₃, hs₃, ht⟩ := Option.bind_eq_some_iff.mp ht
  simp only [dropMgmtBridge, hk] at hs₃
  obtain ⟨b, -, hs₃⟩ := Option.bind_eq_some_iff.mp hs₃
  obtain ⟨s₁, hs₁, hs₃⟩ := Option.bind_eq_some_iff.mp hs₃
  obtain ⟨s₂, hs₂, hs₃⟩ := Option.bind_eq_some_iff.mp hs₃
  obtain ⟨s₁', hs₁', hkeep, -⟩ := setMlanIfc_spec hbridge br0Name
  obtain rfl : s₁ = s₁' := Option.some.inj (hs₁.symm.trans hs₁')
  have hdropped : s₃.size = s₂.size := by
    refine Lib.foldlM_keeps (fun _ _ _ hstep => ?_) hs₃
    obtain ⟨i, -, hstep⟩ := Option.bind_eq_some_iff.mp hstep
    exact removeVlan_size hstep
  have hremoved : (s₃.isBridge, s₃.bridges.length + 1) = s.size := by
    rw [← size_congr hkeep, ← removeBridge_size (Lib.toOption_eq_some.mp hs₂)]
    exact congrArg (fun z : Bool × Nat => (z.1, z.2 + 1)) hdropped
  obtain ⟨s₄, hs₄, hsections⟩ := addMgmtBridge_spec (s := s₃) hid phycount
  have hmode : s₄.isBridge = true :=
    (congrArg Sections.isBridge hsections).trans ((congrArg Prod.fst hremoved).trans hbridge)
  obtain ⟨s₅, hs₅, hkeep₅, -⟩ := setMlanIfc_spec hmode br1Name
  simp only [Bool.false_eq_true, if_false, hs₄, Option.bind_eq_bind, Option.bind_some] at ht
  obtain rfl : t = s₅ := Option.some.inj (ht.symm.trans hs₅)
  have hadded : t.bridges = s₃.bridges ++
      [mgmtBridge s₃.newBridgeName id (boardInterfaces phycount)] :=
    congrArg Sections.bridges (hkeep₅.trans hsections)
  rw [hadded, List.length_append, List.length_singleton]
  exact congrArg Prod.snd hremoved

/-- If the bridge that is made is the one of the management, then it was next. -/
theorem MgmtSet.next {phycount : Nat} (h : MgmtSet s t phycount id) (hbridge : s.isBridge = true)
    (hvalid : (VlanObj.mk "eth0".toList id [] false).valid = true)
    (ht : s.setMgmtVlan phycount id = some t) : s.newBridgeName = br1Name ∧
      t.sections = s.sections.withMgmt br1Name id (boardInterfaces phycount) := by
  obtain ⟨b, hbridges, hmlan, -⟩ := h.bridge
  -- There was no `br1`, since all bridges are still there.
  have hnone : s.findBridge br1Name = none := by
    cases hfind : s.findBridge br1Name with
    | none => rfl
    | some k =>
        have hlength := setMgmtVlan_length hbridge hvalid hfind ht
        rw [hbridges, List.length_append] at hlength
        simp at hlength
  obtain ⟨t', ht', hsections, hname⟩ := setMgmtVlan_spec hbridge hvalid
    (section_of_setMgmtVlan (plainName_of_valid hvalid).1 ht) hnone phycount
  obtain rfl : t = t' := Option.some.inj (ht.symm.trans ht')
  have hlast : b = mgmtBridge s.newBridgeName id (boardInterfaces phycount) := by
    have hall : t.bridges = s.bridges ++ [mgmtBridge s.newBridgeName id
      (boardInterfaces phycount)] := congrArg Sections.bridges hsections
    rw [hbridges] at hall
    simpa using List.append_cancel_left hall
  have hnext : s.newBridgeName = br1Name := by
    rw [← hname, hmlan, hlast]
    rfl
  exact ⟨hnext, hnext ▸ hsections⟩

/-- The management VLAN is as it is to be, exactly if it has what it needs. -/
theorem mgmtLaw_iff (hbridge : s.isBridge = true)
    (hvalid : (VlanObj.mk "eth0".toList id [] false).valid = true) (phycount : Nat) :
    MgmtLaw s phycount id ↔ MgmtReady s phycount id := by
  obtain ⟨hid, hdigits⟩ := plainName_of_valid hvalid
  have hplain := board_plain phycount
  constructor
  · rintro ⟨t, u, ht, hset, hu, hcleared⟩
    obtain ⟨hnext, hsections⟩ := hset.next hbridge hvalid ht
    have hvlans : ∀ v ∈ s.vlanObjs, ∀ p ∈ boardInterfaces phycount,
        ¬(v.devname = p ∧ v.id = id) := fun v hv p hp =>
      (found_iff hid (hplain p hp) hset.vlans).mp (hset.found p hp) v hv
    obtain ⟨u', hu', -, hend⟩ := clearMgmtVlan_spec (S := s.sections) hbridge hid
      (not_br1_of_newBridgeName hnext) hvlans hsections
    obtain rfl : u = u' := Option.some.inj (hu.symm.trans hu')
    have heb := (congrArg Sections.ebVlan hend).symm.trans hcleared.ebVlan
    have harpnat := (congrArg Sections.arpnat hend).symm.trans hcleared.arpnat
    have heap := (congrArg Sections.eap hend).symm.trans hcleared.eap
    simp only [foldl_addRule hid hdigits, foldl_dropRule hid hdigits] at harpnat heap
    exact ⟨section_of_setMgmtVlan hid ht, hnext, hvlans, filter_rules_iff.mp heb, eraseP_enableRule_iff.mp harpnat,
      fun o ho => by simpa using List.eraseP_eq_self_iff.mp heap o ho⟩
  · intro h
    have hnames := not_br1_of_newBridgeName h.next
    have hnone : s.findBridge br1Name = none := by
      rw [findBridge, List.findIdx?_eq_none_iff]
      intro b hb
      simpa using hnames b hb
    obtain ⟨t, ht, hsections, hname⟩ := setMgmtVlan_spec hbridge hvalid h.hasSection hnone phycount
    rw [h.next] at hsections
    obtain ⟨u, hu, hmlan, hend⟩ := clearMgmtVlan_spec (S := s.sections) hbridge hid hnames
      h.vlans hsections
    simp only [foldl_addRule hid hdigits, foldl_dropRule hid hdigits] at hend
    have hvlans : t.vlanObjs = s.vlanObjs ++ (boardInterfaces phycount).map (mgmtVlan id) :=
      congrArg Sections.vlan hsections
    refine ⟨t, u, ht, ⟨?_, ?_, hvlans, ?_⟩, hu, ⟨hmlan, ?_, ?_, ?_, ?_, ?_⟩⟩
    · exact getMgmtVlan_spec hid hnames hsections
    · exact ⟨_, congrArg Sections.bridges hsections, hname, mgmtBridge_getPorts hid hplain⟩
    · exact fun p hp => (found_iff hid (hplain p hp) hvlans).mpr fun v hv => h.vlans v hv p hp
    · exact congrArg Sections.bridges hend
    · exact congrArg Sections.vlan hend
    · exact (congrArg Sections.ebVlan hend).trans (filter_rules_iff.mpr h.ebVlan)
    · exact (congrArg Sections.arpnat hend).trans (eraseP_enableRule_iff.mpr h.arpnat)
    · refine (congrArg Sections.eap hend).trans (List.eraseP_eq_self_iff.mpr fun o ho => ?_)
      simpa using h.eap o ho

theorem mlan_below_next : 2 < 3 := by decide

/-- A bridge of the two interfaces. -/
def bridgeMode : Net where
  isBridge := true
  interfaces := [ath0, br0Name, eth0]
  freeIfc := []
  wan := none
  mlan := 2
  lan := fun _ => none
  netconf := [0, 1, 2]
  records := fun
    | 0 => ⟨eth0, BRIDGE_PORT, true, none, none, false, false, 0⟩
    | 1 => ⟨ath0, BRIDGE_PORT, true, none, none, false, false, 1⟩
    | _ => ⟨br0Name, MLAN, true, none, none, false, false, 2⟩
  aliases := fun _ => []
  next := 3
  bridges := [⟨br0Name, true, false, [⟨eth0, true⟩, ⟨ath0, true⟩]⟩]
  vlan := some ⟨false, []⟩
  ebVlan := ⟨false, []⟩
  arpnat := ⟨true, [⟨ath0, true⟩]⟩
  eap := ⟨true, [⟨ath0, true⟩]⟩
  wan_ne := by decide
  wan_lt := by decide
  mlan_lt := mlan_below_next

theorem bridgeMode_ready : MgmtReady bridgeMode 1 ['5'] where
  hasSection := rfl
  next := by decide +kernel
  vlans := by simp [bridgeMode, vlanObjs]
  ebVlan := by simp [bridgeMode]
  arpnat := by simp [bridgeMode, mgmtVlan, VlanObj.getFullDevname, ath0]
  eap := by simp [bridgeMode, mgmtVlan, VlanObj.getFullDevname, ath0]

theorem bridgeMode_law : MgmtLaw bridgeMode 1 ['5'] :=
  (mgmtLaw_iff rfl (by decide +kernel) 1).mpr bridgeMode_ready

/-- With two more bridges and the first of them removed, the next one is `br3`. -/
theorem not_mgmtLaw_br3 :
    ¬MgmtLaw (bridgeMode.run [.addBridge, .addBridge, .removeBridge 1]) 1 ['5'] := by
  rintro ⟨t, -, ht, hset, -⟩
  have hnext := (hset.next (by decide +kernel) (by decide +kernel) ht).1
  exact absurd hnext (by decide +kernel)

end

end Net

end UbntSdk.Web
