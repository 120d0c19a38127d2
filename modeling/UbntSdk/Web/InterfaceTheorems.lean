/-
UbntSdk.Web.InterfaceTheorems — the interfaces of the network model and the
free ones among them.

What an interface is used for is spread over the model: the two items and
their records, the LANs and the ports of the bridges. `Uses` puts it together,
and `Books` is the invariant: the two lists are a `Lib.FreeList` of the
interfaces and their uses. Most functions leave the uses alone
(`uses_eq`); each of the others is one rule of the free list.

No call checks what it relies on. `Careful` is what it relies on in the state
in which it is made, and a run of careful calls keeps the books
(`books_reached`). A call that throws is a step, too: `removeBridgePort` without a
section `vlan` has not come to the ports yet, but `addBridgePort` has added its
port and not taken the interface, so it relies on the section.
-/
import Mathlib.Logic.Relation
import UbntSdk.Lib.FreeList
import UbntSdk.Web.Network

namespace UbntSdk.Web

open UbntSdk.Lib

/-! ## Uses -/

/-- What interfaces are used for. -/
structure Uses where
  wan : Option Str
  mlan : Option Str
  lan : Str → Bool
  ports : List Str

def Uses.Has (u : Uses) (d : Str) : Prop :=
  u.wan = some d ∨ u.mlan = some d ∨ u.lan d = true ∨ d ∈ u.ports

instance (u : Uses) (d : Str) : Decidable (u.Has d) := inferInstanceAs (Decidable (_ ∨ _ ∨ _ ∨ _))

theorem Uses.Has.mono {u v : Uses} {d : Str} (hwan : u.wan = some d → v.wan = some d)
    (hmlan : u.mlan = some d → v.mlan = some d) (hlan : u.lan d = true → v.lan d = true)
    (hports : d ∈ u.ports → d ∈ v.ports) (h : u.Has d) : v.Has d := by
  rcases h with h | h | h | h
  · exact Or.inl (hwan h)
  · exact Or.inr (Or.inl (hmlan h))
  · exact Or.inr (Or.inr (Or.inl (hlan h)))
  · exact Or.inr (Or.inr (Or.inr (hports h)))

namespace Net

/-- The interface of a record that is enabled. -/
def active (o : NetconfObj) : Option Str := if o.enabled then some o.devname else none

def uses (s : Net) : Uses where
  wan := s.wan.bind fun w => active (s.records w)
  mlan := active (s.records s.mlan)
  lan := fun d => (s.lan d).isSome
  ports := s.getPorts

/-- The invariant: interfaces and free interfaces. -/
def Books (s : Net) : Prop := FreeList s.interfaces s.freeIfc s.uses.Has

/-- Uses are read off the two records, the LANs and the bridges. -/
theorem uses_eq {s t : Net} (hwan : t.wan = s.wan) (hmlan : t.mlan = s.mlan) (hlan : t.lan = s.lan)
    (hbridges : t.bridges = s.bridges)
    (hrecords : ∀ r, s.wan = some r ∨ s.mlan = r → active (t.records r) = active (s.records r)) :
    t.uses = s.uses := by
  have hm := hrecords s.mlan (Or.inr rfl)
  have hw : (s.wan.bind fun w => active (t.records w)) = s.wan.bind fun w => active (s.records w) := by
    cases hcase : s.wan with
    | none => rfl
    | some w => exact hrecords w (Or.inl hcase)
  simp only [uses, hwan, hmlan, hlan, hw, hm, getPorts, hbridges]

section

variable {s : Net} {d : Str}

theorem setRecord_uses {r : Nat} {f : NetconfObj → NetconfObj}
    (h : s.wan = some r ∨ s.mlan = r → active (f (s.records r)) = active (s.records r)) :
    (s.setRecord r f).uses = s.uses := by
  refine uses_eq rfl rfl rfl rfl fun k hk => ?_
  by_cases hkr : k = r
  · subst hkr
    rw [setRecord_self]
    exact h hk
  · rw [setRecord_of_ne s f hkr]

theorem addRecord_uses : (s.addRecord d).uses = s.uses := by
  refine uses_eq rfl rfl rfl rfl fun k hk => ?_
  have hne : k ≠ s.next := by
    rcases hk with hk | hk
    · exact Nat.ne_of_lt (s.wan_lt k hk)
    · exact hk ▸ Nat.ne_of_lt s.mlan_lt
  rw [addRecord_of_ne s d hne]

theorem clearRecord_uses {r : Nat} : (s.clearRecord r).uses = s.uses :=
  (setRecord_uses fun _ => rfl).trans (uses_eq rfl rfl rfl rfl fun _ _ => rfl)

theorem clearIfc_frame : (s.clearIfc d).uses = s.uses ∧
    (s.clearIfc d).interfaces = s.interfaces ∧ (s.clearIfc d).freeIfc = s.freeIfc ∧
    (s.clearIfc d).vlan = s.vlan := by
  unfold clearIfc
  split
  · exact ⟨clearRecord_uses, rfl, rfl, rfl⟩
  · exact ⟨rfl, rfl, rfl, rfl⟩

/-! ### `useIfc` and `unuseIfc` -/

theorem useIfc_uses {role : Option Str} : (s.useIfc d role).uses = s.uses := by
  unfold useIfc
  split
  · dsimp only
    split
    · rename_i role r _
      have hset : (s.setRecord r fun o => { o with role := role }).uses = s.uses :=
        setRecord_uses fun _ => rfl
      exact (uses_eq rfl rfl rfl rfl fun _ _ => rfl).trans hset
    · exact uses_eq rfl rfl rfl rfl fun _ _ => rfl
  · rfl

theorem useIfc_interfaces {role : Option Str} : (s.useIfc d role).interfaces = s.interfaces := by
  unfold useIfc
  split
  · dsimp only
    split <;> rfl
  · rfl

theorem useIfc_freeIfc {role : Option Str} : (s.useIfc d role).freeIfc = s.freeIfc.erase d := by
  unfold useIfc
  split
  · dsimp only
    split <;> rfl
  · rename_i hnot
    exact (List.erase_of_not_mem hnot).symm

theorem unuseIfc_uses : (s.unuseIfc d).uses = s.uses := by
  refine uses_eq rfl rfl rfl rfl fun k _ => ?_
  dsimp only [unuseIfc]
  split <;> rfl

theorem sortNames_perm (l : List Str) : (sortNames (l ++ [d])).Perm (d :: l) :=
  (List.perm_insertionSort _ _).trans (List.perm_append_singleton d l)

theorem unuseIfc_freeIfc : (s.unuseIfc d).freeIfc.Perm (d :: s.freeIfc) := sortNames_perm s.freeIfc

/-- An interface is given back. -/
theorem books_unuseIfc {u : Uses} (h : FreeList s.interfaces s.freeIfc u.Has)
    (hd : d ∈ s.interfaces) (hbefore : u.Has d) (hafter : ¬ s.uses.Has d)
    (hother : ∀ e, e ≠ d → (s.uses.Has e ↔ u.Has e)) : Books (s.unuseIfc d) := by
  rw [Books, unuseIfc_uses]
  exact h.give unuseIfc_freeIfc hd hbefore hafter hother

/-- An interface is taken. -/
theorem books_useIfc {u : Uses} {role : Option Str} (h : FreeList s.interfaces s.freeIfc u.Has)
    (hafter : d ∈ s.interfaces → s.uses.Has d) (hother : ∀ e, e ≠ d → (s.uses.Has e ↔ u.Has e)) :
    Books (s.useIfc d role) := by
  rw [Books, useIfc_uses, useIfc_interfaces, useIfc_freeIfc]
  exact h.take hafter hother

/-! ### Interfaces -/

/-- Nothing has the name of a new interface, and the record that is enabled for
it is not that of the WAN or the management. -/
structure Unclaimed (s : Net) (d : Str) : Prop where
  new : d ∉ s.interfaces
  unused : ¬ s.uses.Has d
  record : ∀ r, s.findByDevname d = some r → s.wan ≠ some r ∧ s.mlan ≠ r

theorem books_addIfc (h : Books s) (hun : s.Unclaimed d) : Books (s.addIfc d) := by
  have hrecord : ∃ t : Net, s.addIfc d =
      unuseIfc { t with interfaces := sortNames (t.interfaces ++ [d]) } d ∧
      t.uses = s.uses ∧ t.interfaces = s.interfaces ∧ t.freeIfc = s.freeIfc := by
    cases hfind : s.findByDevname d with
    | none => exact ⟨s.addRecord d, by rw [addIfc, hfind], addRecord_uses, rfl, rfl⟩
    | some r =>
        obtain ⟨hw, hm⟩ := hun.record r hfind
        refine ⟨s.setRecord r fun o => { o with enabled := true }, by rw [addIfc, hfind],
          setRecord_uses fun hr => ?_, rfl, rfl⟩
        rcases hr with hr | hr
        · exact absurd hr hw
        · exact absurd hr hm
  obtain ⟨t, ht, huses, hinterfaces, hfree⟩ := hrecord
  have hsame : ({ t with interfaces := sortNames (t.interfaces ++ [d]) } : Net).uses = s.uses :=
    (uses_eq rfl rfl rfl rfl fun _ _ => rfl).trans huses
  rw [ht, Books, unuseIfc_uses, hsame]
  refine FreeList.enter h ?_ ?_ hun.new hun.unused fun _ _ => Iff.rfl
  · rw [← hinterfaces]
    exact sortNames_perm t.interfaces
  · rw [← hfree]
    exact unuseIfc_freeIfc

/-- An interface goes, with what it is used for. -/
theorem books_removeIfc (h : Books s) : Books (s.removeIfc d) := by
  cases hfind : s.findByDevname d with
  | none =>
      rw [removeIfc, hfind]
      exact h
  | some r =>
      have hname : (s.records r).devname = d := by
        simpa using List.find?_some hfind
      have hrecord : ∃ t : Net, s.removeIfc d =
          useIfc { t with interfaces := t.interfaces.erase d } d none ∧
          (∀ e, e ≠ d → (t.uses.Has e ↔ s.uses.Has e)) ∧ t.interfaces = s.interfaces ∧
          t.freeIfc = s.freeIfc := by
        by_cases hrole : (s.records r).role = MLAN ∨ (s.records r).role = WAN
        · refine ⟨s.setRecord r fun o => { o with enabled := false }, ?_, fun e he => ?_, rfl, rfl⟩
          · rw [removeIfc, hfind]
            simp only [hrole, if_true]
          · have hactive : ∀ k, active ((s.setRecord r fun o => { o with enabled := false }).records k) =
                some e ↔ active (s.records k) = some e := by
              intro k
              by_cases hk : k = r
              · subst hk
                rw [setRecord_self]
                refine iff_of_false (fun hc => ?_) fun hc => ?_
                · cases hc
                · unfold active at hc
                  split at hc
                  · exact he (by rw [← Option.some.inj hc, hname])
                  · cases hc
              · rw [setRecord_of_ne s _ hk]
            have hwan : (s.setRecord r fun o => { o with enabled := false }).uses.wan = some e ↔
                s.uses.wan = some e := by
              change (s.wan.bind _) = some e ↔ (s.wan.bind _) = some e
              cases s.wan with
              | none => exact Iff.rfl
              | some w => exact hactive w
            exact or_congr hwan (or_congr (hactive s.mlan) Iff.rfl)
        · refine ⟨{ s with netconf := s.netconf.erase r }, ?_, fun e _ => Iff.rfl, rfl, rfl⟩
          rw [removeIfc, hfind]
          simp only [hrole, if_false]
      obtain ⟨t, ht, hother, hinterfaces, hfree⟩ := hrecord
      rw [ht, Books, useIfc_uses, useIfc_interfaces, useIfc_freeIfc]
      change FreeList (t.interfaces.erase d) (t.freeIfc.erase d) t.uses.Has
      rw [hinterfaces, hfree]
      exact FreeList.leave h hother

end

end Net

/-! ## Bridges -/

theorem mem_getPorts {b : BridgeObj} {d : Str} :
    d ∈ b.getPorts ↔ ∃ p ∈ b.ports, p.enabled = true ∧ p.devname = d := by
  simp only [BridgeObj.getPorts, List.mem_map, List.mem_filter, and_assoc]

/-- A port that is found disabled is enabled. -/
theorem mem_changeFirst {d e : Str} (hd : d ≠ []) : ∀ {ports : List PortObj} {p : PortObj},
    ports.find? (·.devname = d) = some p → p.enabled = false →
    ((∃ q ∈ changeFirst (·.devname = d) (fun p => { p with status := true }) ports,
        q.enabled = true ∧ q.devname = e) ↔
      (∃ q ∈ ports, q.enabled = true ∧ q.devname = e) ∨ e = d) := by
  intro ports
  induction ports with
  | nil => intro p h; cases h
  | cons q rest ih =>
      intro p hfind hoff
      by_cases hq : q.devname = d
      · have hp : q = p := by
          rw [List.find?_cons_of_pos (by simpa using hq)] at hfind
          exact Option.some.inj hfind
        subst hp
        have hon : (⟨d, true⟩ : PortObj).enabled = true := by simpa [PortObj.enabled] using hd
        rw [changeFirst, if_pos (by simpa using hq)]
        simp only [List.mem_cons, exists_eq_or_imp, hq, hon, true_and, hoff, Bool.false_eq_true,
          false_and, false_or]
        rw [or_comm, eq_comm (a := d)]
      · rw [List.find?_cons_of_neg (by simpa using hq)] at hfind
        rw [changeFirst, if_neg (by simpa using hq)]
        simp only [List.mem_cons, exists_eq_or_imp, ih hfind hoff]
        rw [or_assoc]

theorem addPort_getPorts {b b' : BridgeObj} {d e : Str} (hd : d ≠ []) (h : b.addPort d = some b') :
    e ∈ b'.getPorts ↔ e ∈ b.getPorts ∨ e = d := by
  unfold BridgeObj.addPort at h
  split at h
  · cases h
    have hon : (⟨d, true⟩ : PortObj).enabled = true := by simpa [PortObj.enabled] using hd
    simp only [mem_getPorts, List.mem_append, List.mem_singleton, or_and_right, exists_or,
      exists_eq_left, hon, true_and]
    rw [eq_comm (a := d)]
  · rename_i p hfind
    split at h
    · cases h
    · rename_i hoff
      cases h
      rw [mem_getPorts, mem_getPorts]
      exact mem_changeFirst hd hfind (by simpa using hoff)

/-- Only the entry of the port is removed. -/
theorem removePort_getPorts {b : BridgeObj} {d e : Str} (h : e ≠ d) :
    e ∈ (b.removePort d).getPorts ↔ e ∈ b.getPorts := by
  rw [mem_getPorts, mem_getPorts]
  refine exists_congr fun p => ?_
  constructor
  · intro hp
    exact ⟨List.mem_of_mem_eraseP hp.1, hp.2⟩
  · intro hp
    refine ⟨(List.mem_eraseP_of_neg ?_).mpr hp.1, hp.2⟩
    rw [hp.2.2]
    simpa using h

theorem removePort_sub {b : BridgeObj} {d e : Str} (h : e ∈ (b.removePort d).getPorts) :
    e ∈ b.getPorts := by
  obtain ⟨p, hp, hrest⟩ := mem_getPorts.mp h
  exact mem_getPorts.mpr ⟨p, List.mem_of_mem_eraseP hp, hrest⟩

namespace Net

section

variable {s : Net} {i : Nat} {d e : Str} {b b' : BridgeObj}

/-- The ports of a bridge and those of the others. -/
theorem mem_getPorts_set (hb : s.bridges[i]? = some b) :
    e ∈ ((s.bridges.set i b').flatMap BridgeObj.getPorts) ↔
      e ∈ b'.getPorts ∨ e ∈ (s.bridges.eraseIdx i).flatMap BridgeObj.getPorts := by
  obtain ⟨hi, _⟩ := List.getElem?_eq_some_iff.mp hb
  rw [List.set_eq_take_append_cons_drop, if_pos hi, List.eraseIdx_eq_take_drop_succ]
  simp only [List.flatMap_append, List.flatMap_cons, List.mem_append]
  tauto

theorem mem_getPorts_at (hb : s.bridges[i]? = some b) :
    e ∈ s.getPorts ↔
      e ∈ b.getPorts ∨ e ∈ (s.bridges.eraseIdx i).flatMap BridgeObj.getPorts := by
  obtain ⟨hi, hget⟩ := List.getElem?_eq_some_iff.mp hb
  have hset : s.bridges.set i b = s.bridges := by
    rw [← hget]
    exact List.set_getElem_self hi
  rw [getPorts, ← mem_getPorts_set hb, hset]

/-- The ports when one entry of the bridge at `i` is removed. -/
def portsWithout (s : Net) (i : Nat) (d : Str) : List Str :=
  match s.bridges[i]? with
  | none => s.getPorts
  | some b => (s.bridges.set i (b.removePort d)).flatMap BridgeObj.getPorts

/-! ### Rules change nothing else -/

theorem removeRules_foldl (vlans : List VlanObj) :
    ∃ rules, vlans.foldl removeRules s = { s with ebVlan := rules } := by
  induction vlans generalizing s with
  | nil => exact ⟨s.ebVlan, rfl⟩
  | cons v rest ih =>
      obtain ⟨rules, h⟩ := ih (s := s.removeRules v)
      exact ⟨rules, h⟩

theorem addAthRules_eq : ∃ arpnat eap,
    s.addAthRules d = { s with arpnat := arpnat, eap := eap } := by
  unfold addAthRules
  by_cases hath : d.hasText ATH = true
  · by_cases hdot : '.' ∈ d
    · simp only [hath, if_true, hdot]
      exact ⟨_, _, rfl⟩
    · simp only [hath, if_true, hdot, if_false]
      exact ⟨_, _, rfl⟩
  · simp only [hath]
    exact ⟨_, _, rfl⟩

theorem addVlanRules_eq : ∃ rules, s.addVlanRules d = { s with ebVlan := rules } := by
  unfold addVlanRules
  split
  · exact ⟨_, rfl⟩
  · exact ⟨_, rfl⟩

theorem removeAthRules_eq : ∃ arpnat eap,
    s.removeAthRules d = { s with arpnat := arpnat, eap := eap } := by
  unfold removeAthRules
  split
  · exact ⟨_, _, rfl⟩
  · exact ⟨_, _, rfl⟩

theorem removeVlanRules_eq : ∃ rules, s.removeVlanRules d = { s with ebVlan := rules } := by
  unfold removeVlanRules
  split
  · exact ⟨_, rfl⟩
  · exact removeRules_foldl _

/-! ### Ports -/

/-- The interface is there, and this port is all that it is used for. -/
structure PortOnly (s : Net) (i : Nat) (d : Str) : Prop where
  exist : d ∈ s.interfaces
  port : d ∈ s.getPorts
  only : ¬ Uses.Has { s.uses with ports := s.portsWithout i d } d

theorem books_addBridgePort (h : Books s) (hd : d ≠ []) (hvlan : s.noVlanSection d = false) :
    Books (left (s.addBridgePort i d)) := by
  unfold addBridgePort
  cases hb : s.bridges[i]? with
  | none => exact h
  | some b =>
      dsimp only
      cases hadd : b.addPort d with
      | none => exact h
      | some b' =>
          dsimp only
          obtain ⟨huses, hinterfaces, hfree, hsection⟩ := clearIfc_frame
            (s := { s with bridges := s.bridges.set i b' }) (d := d)
          generalize clearIfc { s with bridges := s.bridges.set i b' } d = u
            at huses hinterfaces hfree hsection
          obtain ⟨arpnat, eap, hath⟩ := addAthRules_eq (s := u) (d := d)
          have hgoes : (u.addAthRules d).noVlanSection d = false := by
            rw [hath, ← hvlan, noVlanSection, noVlanSection]
            exact congrArg (fun v => ('.' ∉ d && Option.isNone v)) hsection
          rw [if_neg (by simp [hgoes])]
          obtain ⟨rules, hrules⟩ := addVlanRules_eq (s := u.addAthRules d) (d := d)
          rw [hrules, hath]
          change Books (useIfc _ _ _)
          have hsame : ({ u with ebVlan := rules, arpnat := arpnat, eap := eap } : Net).uses =
              ({ s with bridges := s.bridges.set i b' } : Net).uses :=
            (uses_eq rfl rfl rfl rfl fun _ _ => rfl).trans huses
          have hports : ∀ e, (({ s with bridges := s.bridges.set i b' } : Net).uses.Has e ↔
              s.uses.Has e ∨ e = d) := by
            intro e
            have hmem : e ∈ (s.bridges.set i b').flatMap BridgeObj.getPorts ↔
                e ∈ s.getPorts ∨ e = d := by
              rw [mem_getPorts_set hb, mem_getPorts_at hb, addPort_getPorts hd hadd]
              tauto
            change _ ∨ _ ∨ _ ∨ e ∈ (s.bridges.set i b').flatMap BridgeObj.getPorts ↔ _
            rw [hmem]
            change _ ↔ (_ ∨ _ ∨ _ ∨ _) ∨ e = d
            simp only [or_assoc]
            rfl
          refine books_useIfc (u := s.uses) ?_ (fun _ => ?_) fun e he => ?_
          · change FreeList u.interfaces u.freeIfc _
            rw [hinterfaces, hfree]
            exact h
          · rw [hsame, hports]
            exact Or.inr rfl
          · rw [hsame, hports]
            exact or_iff_left he

/-- A port is removed; what is left of the bridge has no other port less. A call
that throws has not come to the bridge. -/
theorem books_removeBridgePort (h : Books s) (hb : s.bridges[i]? = some b) (honly : s.PortOnly i d) :
    (∃ t, s.removeBridgePort i d = .error t ∧ Books t) ∨
    ∃ t, s.removeBridgePort i d = .ok t ∧ Books t ∧ t.bridges = s.bridges.set i (b.removePort d) ∧
      t.interfaces = s.interfaces ∧
      t.uses = { s.uses with ports := s.portsWithout i d } := by
  obtain ⟨arpnat, eap, hath⟩ := removeAthRules_eq (s := s) (d := d)
  unfold removeBridgePort
  rw [hb]
  dsimp only
  cases hthrows : (s.removeAthRules d).noVlanSection d with
  | true =>
      refine .inl ⟨_, if_pos rfl, ?_⟩
      rw [hath]
      exact h
  | false =>
      obtain ⟨rules, hrules⟩ := removeVlanRules_eq (s := s.removeAthRules d) (d := d)
      rw [if_neg (by decide), hrules, hath]
      have hwithout :
          s.portsWithout i d = (s.bridges.set i (b.removePort d)).flatMap BridgeObj.getPorts := by
        rw [portsWithout, hb]
      have huses : Net.uses { s with
          ebVlan := rules, arpnat := arpnat, eap := eap, bridges := s.bridges.set i (b.removePort d) } =
          { s.uses with ports := s.portsWithout i d } := by
        rw [hwithout]
        rfl
      refine .inr ⟨_, rfl, ?_, rfl, rfl, unuseIfc_uses.trans huses⟩
      refine books_unuseIfc h honly.exist (Or.inr (Or.inr (Or.inr honly.port))) ?_ ?_
      · rw [huses]
        exact honly.only
      · intro e he
        rw [huses]
        have hmem : e ∈ s.portsWithout i d ↔ e ∈ s.getPorts := by
          rw [hwithout, mem_getPorts_set hb, mem_getPorts_at hb, removePort_getPorts he]
        exact or_congr Iff.rfl (or_congr Iff.rfl (or_congr Iff.rfl hmem))

/-- A bridge that has every port once. -/
theorem getPorts_nodup {ports : List PortObj} {st en : Bool} {name : Str}
    (h : ∀ d ∈ (BridgeObj.mk name en st ports).getPorts,
      d ∉ ((BridgeObj.mk name en st ports).removePort d).getPorts) :
    (BridgeObj.mk name en st ports).getPorts.Nodup := by
  induction ports with
  | nil => exact List.nodup_nil
  | cons p rest ih =>
      have hrest : ∀ d ∈ (BridgeObj.mk name en st rest).getPorts, p.devname ≠ d := by
        intro d hd heq
        have hmem : d ∈ (BridgeObj.mk name en st (p :: rest)).getPorts := by
          obtain ⟨q, hq, hrest⟩ := mem_getPorts.mp hd
          exact mem_getPorts.mpr ⟨q, List.mem_cons_of_mem _ hq, hrest⟩
        have hnot := h d hmem
        rw [BridgeObj.removePort, List.eraseP_cons_of_pos (by simpa using heq)] at hnot
        exact hnot hd
      have hih : (BridgeObj.mk name en st rest).getPorts.Nodup := by
        refine ih fun d hd hmem => ?_
        have hne := hrest d hd
        have hcons : d ∈ (BridgeObj.mk name en st (p :: rest)).getPorts := by
          obtain ⟨q, hq, hlast⟩ := mem_getPorts.mp hd
          exact mem_getPorts.mpr ⟨q, List.mem_cons_of_mem _ hq, hlast⟩
        refine h d hcons ?_
        rw [BridgeObj.removePort, List.eraseP_cons_of_neg (by simpa using hne)]
        obtain ⟨q, hq, hlast⟩ := mem_getPorts.mp hmem
        exact mem_getPorts.mpr ⟨q, List.mem_cons_of_mem _ hq, hlast⟩
      by_cases hp : p.enabled = true
      · have hcons : (BridgeObj.mk name en st (p :: rest)).getPorts =
            p.devname :: (BridgeObj.mk name en st rest).getPorts := by
          simp [BridgeObj.getPorts, hp]
        rw [hcons, List.nodup_cons]
        exact ⟨fun hmem => hrest _ hmem rfl, hih⟩
      · have hcons : (BridgeObj.mk name en st (p :: rest)).getPorts =
            (BridgeObj.mk name en st rest).getPorts := by
          simp [BridgeObj.getPorts, hp]
        rw [hcons]
        exact hih

/-- One port is removed: the others are still all that their interfaces are
used for. -/
theorem PortOnly.next {t : Net} (hb : s.bridges[i]? = some b) (he : s.PortOnly i e) (hne : e ≠ d)
    (hbridges : t.bridges = s.bridges.set i (b.removePort d)) (hinterfaces : t.interfaces = s.interfaces)
    (huses : t.uses = { s.uses with ports := s.portsWithout i d }) : t.PortOnly i e := by
  have hi : i < s.bridges.length := (List.getElem?_eq_some_iff.mp hb).1
  have hbt : t.bridges[i]? = some (b.removePort d) := by
    rw [hbridges]
    exact List.getElem?_set_self hi
  have hcomm : (b.removePort d).removePort e = (b.removePort e).removePort d := by
    simp only [BridgeObj.removePort]
    rw [List.eraseP_comm]
    intro p _
    by_cases hp : p.devname = d
    · right
      simpa [hp] using fun h => hne h.symm
    · left
      simpa using hp
  have hports : t.uses.ports = t.getPorts := rfl
  refine ⟨hinterfaces ▸ he.exist, ?_, fun h => he.only ?_⟩
  · have hmem := he.port
    rw [← hports, huses]
    change e ∈ s.portsWithout i d
    rw [portsWithout, hb]
    dsimp only
    rw [mem_getPorts_set hb, removePort_getPorts hne, ← mem_getPorts_at hb]
    exact hmem
  · rw [huses] at h
    refine Uses.Has.mono (u := { s.uses with ports := t.portsWithout i e }) id id id
      (fun hmem => ?_) h
    change e ∈ t.portsWithout i e at hmem
    change e ∈ s.portsWithout i e
    rw [portsWithout, hbt] at hmem
    rw [portsWithout, hb]
    dsimp only at hmem ⊢
    rw [hbridges, List.set_set, hcomm, mem_getPorts_set hb] at hmem
    rw [mem_getPorts_set hb]
    exact hmem.imp removePort_sub id

/-- The loop of `removeBridge`. -/
theorem books_removePorts : ∀ {l : List Str} {s : Net} {b : BridgeObj}, Books s →
    s.bridges[i]? = some b → l.Nodup → (∀ d ∈ l, s.PortOnly i d) →
    (∃ t, l.foldlM (fun s port => s.removeBridgePort i port) s = .error t ∧ Books t) ∨
    ∃ t b', l.foldlM (fun s port => s.removeBridgePort i port) s = .ok t ∧ Books t ∧
      t.bridges = s.bridges.set i b' ∧ ∀ e ∈ b'.getPorts, e ∈ b.getPorts ∧ e ∉ l := by
  intro l
  induction l with
  | nil =>
      intro s b h hb _ _
      obtain ⟨hi, hget⟩ := List.getElem?_eq_some_iff.mp hb
      refine .inr ⟨s, b, rfl, h, ?_, fun e he => ⟨he, List.not_mem_nil⟩⟩
      rw [← hget]
      exact (List.set_getElem_self hi).symm
  | cons d rest ih =>
      intro s b h hb hnodup honly
      obtain ⟨hd, hrest⟩ := List.nodup_cons.mp hnodup
      have honly_d := honly d List.mem_cons_self
      obtain ⟨t, ht, hbooks⟩ | ⟨t, ht, hbooks, hbridges, hinterfaces, huses⟩ :=
        books_removeBridgePort h hb honly_d
      · exact .inl ⟨t, by rw [List.foldlM_cons, ht]; rfl, hbooks⟩
      have hi : i < s.bridges.length := (List.getElem?_eq_some_iff.mp hb).1
      have hbt : t.bridges[i]? = some (b.removePort d) := by
        rw [hbridges]
        exact List.getElem?_set_self hi
      have honly' : ∀ e ∈ rest, t.PortOnly i e := by
        intro e he
        have hne : e ≠ d := fun heq => hd (heq ▸ he)
        exact (honly e (List.mem_cons_of_mem _ he)).next hb hne hbridges hinterfaces huses
      obtain ⟨u, hu, hbooksu⟩ | ⟨u, b', hu, hbooksu, hbridgesu, hports⟩ :=
        ih hbooks hbt hrest honly'
      · exact .inl ⟨u, by rw [List.foldlM_cons, ht]; exact hu, hbooksu⟩
      refine .inr ⟨u, b', ?_, hbooksu, ?_, fun e he => ?_⟩
      · rw [List.foldlM_cons, ht]
        exact hu
      · rw [hbridgesu, hbridges, List.set_set]
      · obtain ⟨hmem, hnot⟩ := hports e he
        refine ⟨removePort_sub hmem, fun hcons => ?_⟩
        rcases List.mem_cons.mp hcons with rfl | hlater
        · refine honly_d.only (Or.inr (Or.inr (Or.inr ?_)))
          change e ∈ s.portsWithout i e
          rw [portsWithout, hb]
          dsimp only
          rw [mem_getPorts_set hb]
          exact Or.inl hmem
        · exact hnot hlater

theorem books_removeBridge (h : Books s)
    (honly : ∀ b, s.bridges[i]? = some b → ∀ d ∈ b.getPorts, s.PortOnly i d) :
    Books (left (s.removeBridge i)) := by
  unfold removeBridge
  cases hb : s.bridges[i]? with
  | none => exact h
  | some b =>
      dsimp only
      have hnodup : b.getPorts.Nodup := by
        refine getPorts_nodup fun d hd hmem => (honly b hb d hd).only (Or.inr (Or.inr (Or.inr ?_)))
        change d ∈ s.portsWithout i d
        rw [portsWithout, hb]
        dsimp only
        rw [mem_getPorts_set hb]
        exact Or.inl hmem
      obtain ⟨u, hu, hbooks⟩ | ⟨u, b', hu, hbooks, hbridges, hports⟩ :=
        books_removePorts h hb hnodup (honly b hb)
      · rw [hu]
        exact hbooks
      rw [hu]
      change Books (removeIfc _ _)
      have hi : i < s.bridges.length := (List.getElem?_eq_some_iff.mp hb).1
      have hbu : u.bridges[i]? = some b' := by
        rw [hbridges]
        exact List.getElem?_set_self hi
      refine books_removeIfc (hbooks.congr fun e _ => ?_)
      have hmem : e ∈ (u.bridges.eraseIdx i).flatMap BridgeObj.getPorts ↔ e ∈ u.getPorts := by
        rw [mem_getPorts_at hbu]
        exact (or_iff_right fun hleft => (hports e hleft).2 (hports e hleft).1).symm
      exact or_congr Iff.rfl (or_congr Iff.rfl (or_congr Iff.rfl hmem))

/-! ### VLANs and new bridges -/

theorem books_addVlan {v : VlanObj} (h : Books s) (hun : s.Unclaimed v.getFullDevname) :
    Books (s.addVlan v) := by
  unfold addVlan
  dsimp only
  split
  · exact books_addIfc h ⟨hun.new, hun.unused, hun.record⟩
  · exact books_addIfc h ⟨hun.new, hun.unused, hun.record⟩

theorem books_removeVlan {t : Net} (h : Books s) (ht : s.removeVlan i = some t) : Books t := by
  unfold removeVlan at ht
  obtain ⟨v, hv, ht⟩ := Option.bind_eq_some_iff.mp ht
  cases ht
  exact books_removeIfc h

theorem books_addBridge (h : Books s) (hun : s.Unclaimed s.newBridgeName) : Books s.addBridge := by
  have huses : Net.uses { s with bridges := s.bridges ++ [⟨s.newBridgeName, true, false, []⟩] } =
      s.uses := by
    have hports : Net.getPorts { s with bridges := s.bridges ++ [⟨s.newBridgeName, true, false, []⟩] } =
        s.getPorts := by
      simp [getPorts, BridgeObj.getPorts]
    simp only [uses, hports]
  refine books_addIfc ?_ ⟨hun.new, ?_, hun.record⟩
  · rw [Books, huses]
    exact h
  · rw [huses]
    exact hun.unused

/-! ### LANs -/

theorem books_addLan (h : Books s) : Books (s.addLan d) := by
  unfold addLan
  split
  · exact h
  · rename_i r _
    refine books_useIfc (u := s.uses) h (fun _ => ?_) fun e he => ?_
    · refine Or.inr (Or.inr (Or.inl ?_))
      change (Function.update s.lan d (some r) d).isSome = true
      rw [Function.update_self]
      rfl
    · have hlan : (Function.update s.lan d (some r) e).isSome = (s.lan e).isSome := by
        rw [Function.update_of_ne he]
      change _ ∨ _ ∨ (Function.update s.lan d (some r) e).isSome = true ∨ _ ↔ _
      rw [hlan]
      exact Iff.rfl

/-- The interface is there, and it is used as a LAN and for nothing else. -/
structure LanOnly (s : Net) (d : Str) : Prop where
  exist : d ∈ s.interfaces
  only : ¬ Uses.Has { s.uses with lan := fun _ => false } d

theorem books_removeLan {t : Net} (h : Books s) (honly : (s.lan d).isSome → s.LanOnly d)
    (ht : s.removeLan d = some t) : Books t := by
  unfold removeLan at ht
  obtain ⟨r, hr, ht⟩ := Option.bind_eq_some_iff.mp ht
  have hsome : (s.lan d).isSome = true := by rw [hr]; rfl
  cases ht
  have huses : Net.uses ((s.setRecord r fun o => { o with role := [] }).clearRecord r) = s.uses :=
    clearRecord_uses.trans (setRecord_uses fun _ => rfl)
  generalize hu : (s.setRecord r fun o => { o with role := [] }).clearRecord r = u at huses
  have hinterfaces : u.interfaces = s.interfaces := by rw [← hu]; rfl
  have hfree : u.freeIfc = s.freeIfc := by rw [← hu]; rfl
  have hlan : u.lan = s.lan := by rw [← hu]; rfl
  have hafter : Net.uses { u with lan := Function.update u.lan d none } =
      { s.uses with lan := fun e => (Function.update s.lan d none e).isSome } := by
    rw [← huses, ← hlan]
    rfl
  refine books_unuseIfc (u := s.uses) ?_ ?_ (Or.inr (Or.inr (Or.inl hsome))) ?_ fun e he => ?_
  · change FreeList u.interfaces u.freeIfc _
    rw [hinterfaces, hfree]
    exact h
  · change d ∈ u.interfaces
    rw [hinterfaces]
    exact (honly hsome).exist
  · rw [hafter]
    refine fun hmem => (honly hsome).only (Uses.Has.mono
      (u := { s.uses with lan := fun e => (Function.update s.lan d none e).isSome }) id id
      (fun hl => ?_) id hmem)
    change (Function.update s.lan d none d).isSome = true at hl
    rw [Function.update_self] at hl
    cases hl
  · rw [hafter]
    change _ ∨ _ ∨ (Function.update s.lan d none e).isSome = true ∨ _ ↔ _
    rw [Function.update_of_ne he]
    exact Iff.rfl

/-! ### Records that are left and taken -/

theorem active_takeOver {plain : List Nat} {item k : Nat} :
    active ((s.takeOver plain item).records k) =
      if plain.head? = some k then none else active (s.records k) := by
  unfold takeOver
  cases hhead : plain.head? with
  | none => rw [if_neg (by simp)]
  | some c =>
      have halias : ∀ t : Net, ∀ a, active ((t.setRecord item fun o => { o with aliasRef := a }).records k) =
          active (t.records k) := by
        intro t a
        by_cases hk : k = item
        · subst hk
          rw [setRecord_self]
          rfl
        · rw [setRecord_of_ne t _ hk]
      dsimp only
      rw [halias]
      by_cases hk : k = c
      · subst hk
        rw [setRecord_self, if_pos rfl]
        rfl
      · rw [setRecord_of_ne s _ hk, if_neg (by simpa using fun h => hk h.symm)]

theorem active_restore {plain : List Nat} {a k : Nat} (hk : k ≠ s.next) :
    active ((s.restore plain d a).records k) =
      if plain.head? = some k then some (s.records k).devname else active (s.records k) := by
  unfold restore
  cases hhead : plain.head? with
  | none =>
      dsimp only
      rw [setRecord_of_ne _ _ hk, addRecord_of_ne s d hk, if_neg (by simp)]
  | some p =>
      dsimp only
      by_cases hp : k = p
      · subst hp
        rw [setRecord_self, if_pos rfl]
        rfl
      · rw [setRecord_of_ne s _ hp, if_neg (by simpa using fun h => hp h.symm)]

/-- Both leave all but the records alone. -/
theorem takeOver_frame (plain : List Nat) (item : Nat) : (s.takeOver plain item).wan = s.wan ∧
    (s.takeOver plain item).mlan = s.mlan ∧ (s.takeOver plain item).lan = s.lan ∧
    (s.takeOver plain item).bridges = s.bridges ∧ (s.takeOver plain item).interfaces = s.interfaces ∧
    (s.takeOver plain item).freeIfc = s.freeIfc ∧ (s.takeOver plain item).next = s.next := by
  unfold takeOver
  split <;> exact ⟨rfl, rfl, rfl, rfl, rfl, rfl, rfl⟩

theorem restore_frame (plain : List Nat) (a : Nat) : (s.restore plain d a).wan = s.wan ∧
    (s.restore plain d a).mlan = s.mlan ∧ (s.restore plain d a).lan = s.lan ∧
    (s.restore plain d a).bridges = s.bridges ∧ (s.restore plain d a).interfaces = s.interfaces ∧
    (s.restore plain d a).freeIfc = s.freeIfc := by
  unfold restore
  split <;> exact ⟨rfl, rfl, rfl, rfl, rfl, rfl⟩

theorem devname_of_findPlain {r : Nat} (h : (s.findPlain d).head? = some r) :
    (s.records r).devname = d := by
  have hmem := List.mem_of_mem_head? (Option.mem_def.mpr h)
  have hboth := (List.mem_filter.mp hmem).2
  simp only [Bool.and_eq_true, decide_eq_true_eq] at hboth
  exact hboth.1

theorem active_some {o : NetconfObj} (h : active o = some d) : o.enabled = true ∧ o.devname = d := by
  unfold active at h
  split at h
  · rename_i hen
    exact ⟨hen, Option.some.inj h⟩
  · cases h

/-! ### The WAN -/

/-- The WAN is enabled, its interface is there and used for nothing else, and
the plain record of the interface is not the one of the management. -/
structure WanOnly (s : Net) (prev : Str) : Prop where
  enabled : s.uses.wan = some prev
  exist : prev ∈ s.interfaces
  only : ¬ Uses.Has { s.uses with wan := none } prev
  record : (s.findPlain prev).head? ≠ some s.mlan

theorem books_setWanIfc {t : Net} (h : Books s) (hfree : d ∈ s.freeIfc)
    (honly : ∀ w, s.wan = some w → (s.records w).devname ≠ d → s.WanOnly (s.records w).devname)
    (ht : s.setWanIfc d = some t) : Books t := by
  unfold setWanIfc at ht
  obtain ⟨w, hw, ht⟩ := Option.bind_eq_some_iff.mp ht
  dsimp only at ht
  split at ht
  · cases ht
    exact h
  · rename_i hne
    cases ht
    have hwan := honly w hw hne
    generalize hprev : (s.records w).devname = prev at hwan hne
    have hunused : ¬ s.uses.Has d := (h.mem_free d (h.mem_all d hfree)).mp hfree
    have hwm : w ≠ s.mlan := fun heq => s.wan_ne (heq ▸ hw)
    have hactive : active (s.records w) = some prev := by
      have henabled := hwan.enabled
      change s.wan.bind _ = some prev at henabled
      rwa [hw] at henabled
    -- the record of the WAN is renamed
    generalize hs₁ : (s.setRecord w fun o => { o with devname := d }) = s₁
    have hw₁ : active (s₁.records w) = some d := by
      rw [← hs₁, setRecord_self, active, (active_some hactive).1]
      rfl
    have hm₁ : s₁.records s.mlan = s.records s.mlan := by
      rw [← hs₁, setRecord_of_ne s _ hwm.symm]
    have hframe₁ : s₁.wan = s.wan ∧ s₁.mlan = s.mlan ∧ s₁.lan = s.lan ∧ s₁.bridges = s.bridges ∧
        s₁.interfaces = s.interfaces ∧ s₁.freeIfc = s.freeIfc ∧ s₁.next = s.next := by
      rw [← hs₁]
      exact ⟨rfl, rfl, rfl, rfl, rfl, rfl, rfl⟩
    -- the plain record of the new interface is disabled
    generalize hs₂ : s₁.takeOver (s.findPlain d) w = s₂
    have hw₂ : active (s₂.records w) = some d := by
      have hother : (s.findPlain d).head? ≠ some w := fun hc => hne (hprev ▸ devname_of_findPlain hc)
      rw [← hs₂, active_takeOver, if_neg hother, hw₁]
    have hm₂ : active (s₂.records s.mlan) = active (s.records s.mlan) := by
      rw [← hs₂, active_takeOver, hm₁]
      split
      · rename_i hc
        cases hm : active (s.records s.mlan) with
        | none => rfl
        | some e =>
            have hname := (active_some hm).2
            rw [devname_of_findPlain hc] at hname
            subst hname
            exact absurd (Or.inr (Or.inl hm)) hunused
      · rfl
    have hframe₂ := s₁.takeOver_frame (s.findPlain d) w
    rw [hs₂] at hframe₂
    obtain ⟨f1, f2, f3, f4, f5, f6, f7⟩ := hframe₁
    obtain ⟨g1, g2, g3, g4, g5, g6, g7⟩ := hframe₂
    -- that of the old one is enabled
    generalize hs₃ : s₂.restore (s.findPlain prev) prev (s.records w).aliasRef = s₃
    have hnext : s₂.next = s.next := g7.trans f7
    have hw₃ : active (s₃.records w) = some d := by
      have hlt : w ≠ s₂.next := by
        rw [hnext]
        exact Nat.ne_of_lt (s.wan_lt w hw)
      rw [← hs₃, active_restore hlt, hw₂]
      split
      · rw [(active_some hw₂).2]
      · rfl
    have hm₃ : active (s₃.records s.mlan) = active (s.records s.mlan) := by
      have hlt : s.mlan ≠ s₂.next := by
        rw [hnext]
        exact Nat.ne_of_lt s.mlan_lt
      rw [← hs₃, active_restore hlt, if_neg hwan.record, hm₂]
    obtain ⟨k1, k2, k3, k4, k5, k6⟩ := s₂.restore_frame (d := prev) (s.findPlain prev) (s.records w).aliasRef
    rw [hs₃] at k1 k2 k3 k4 k5 k6
    have huses : s₃.uses = { s.uses with wan := some d } := by
      have hwan₃ : s₃.wan = some w := by rw [k1, g1, f1, hw]
      have hmlan₃ : s₃.mlan = s.mlan := by rw [k2, g2, f2]
      simp only [uses, hwan₃, hmlan₃, Option.bind_some, hw₃, hm₃, k3, g3, f3, getPorts, k4, g4, f4]
    have hgive : FreeList s₃.interfaces (s₃.unuseIfc prev).freeIfc
        (Uses.Has { s.uses with wan := none }) := by
      rw [k5, g5, f5]
      refine FreeList.give h ?_ hwan.exist (Or.inl hwan.enabled) hwan.only fun e he => ?_
      · rw [← f6, ← g6, ← k6]
        exact unuseIfc_freeIfc
      · have hleft : ¬ s.uses.wan = some e := by
          rw [hwan.enabled]
          exact fun hc => he (Option.some.inj hc).symm
        exact or_congr (iff_of_false (fun hc => by cases hc) hleft) Iff.rfl
    refine books_useIfc hgive (fun _ => ?_) fun e he => ?_
    · rw [unuseIfc_uses, huses]
      exact Or.inl rfl
    · rw [unuseIfc_uses, huses]
      have hleft : ¬ some d = some e := fun hc => he (Option.some.inj hc).symm
      exact or_congr (iff_of_false hleft fun hc => by cases hc) Iff.rfl

/-! ### The management interface -/

/-- The interface of the management is there and used for nothing else, and its
plain record is neither that of the management nor that of the WAN. -/
structure MlanOnly (s : Net) (prev : Str) : Prop where
  exist : prev ∈ s.interfaces
  only : ¬ Uses.Has { s.uses with mlan := none } prev
  record : ∀ r, s.wan = some r ∨ s.mlan = r → (s.findPlain prev).head? ≠ some r

/-- What `setMlanIfc` relies on: when the management leaves an interface, when
it comes to another one, and when it is disabled where it is. -/
structure MlanReady (s : Net) (d : Str) : Prop where
  leaves : ∀ prev, s.uses.mlan = some prev → prev ≠ d → s.MlanOnly prev
  comes : s.nowEnabled d = some true → s.uses.mlan ≠ some d → (s.findPlain d).head? ≠ some s.mlan
  stops : s.nowEnabled d = some false → s.uses.mlan = some d →
    Uses.Has { s.uses with mlan := none } d

theorem restore_uses {plain : List Nat} {a : Nat}
    (h : ∀ r, s.wan = some r ∨ s.mlan = r → plain.head? ≠ some r) :
    (s.restore plain d a).uses = s.uses := by
  obtain ⟨hwan, hmlan, hlan, hbridges, _, _⟩ := s.restore_frame (d := d) plain a
  refine uses_eq hwan hmlan hlan hbridges fun r hr => ?_
  have hlt : r ≠ s.next := by
    rcases hr with hr | hr
    · exact Nat.ne_of_lt (s.wan_lt r hr)
    · exact hr ▸ Nat.ne_of_lt s.mlan_lt
  rw [active_restore hlt, if_neg (h r hr)]

/-- The record of the management gets another state. -/
theorem setMlan_uses {now : Bool} :
    (s.setRecord s.mlan fun o => { o with enabled := now, devname := d }).uses =
      { s.uses with mlan := if now then some d else none } := by
  have hm : active ((s.setRecord s.mlan fun o => { o with enabled := now, devname := d }).records s.mlan) =
      if now then some d else none := by
    rw [setRecord_self]
    rfl
  have hw : (s.wan.bind fun w =>
      active ((s.setRecord s.mlan fun o => { o with enabled := now, devname := d }).records w)) =
      s.wan.bind fun w => active (s.records w) := by
    cases hcase : s.wan with
    | none => rfl
    | some w =>
        have hne : w ≠ s.mlan := fun heq => s.wan_ne (heq ▸ hcase)
        simp only [Option.bind_some, setRecord_of_ne s _ hne]
  rw [uses]
  change Uses.mk _ (active ((s.setRecord s.mlan fun o => { o with enabled := now, devname := d }).records
    s.mlan)) _ _ = _
  rw [hm]
  change Uses.mk (s.wan.bind fun w => active ((s.setRecord s.mlan fun o =>
    { o with enabled := now, devname := d }).records w)) _ _ _ = _
  rw [hw]
  rfl

/-- The management comes to an interface. -/
theorem books_comes {u : Uses} {m : Nat} (h : FreeList s.interfaces s.freeIfc u.Has) (hm : s.mlan = m)
    (huses : s.uses = { u with mlan := some d }) (hnone : u.mlan = none) {plain : List Nat}
    (hplain : ∀ w e, s.wan = some w → plain.head? = some w → s.uses.wan = some e → e = d)
    (hrecord : plain.head? ≠ some m) :
    Books ((s.takeOver plain m).useIfc d none) := by
  obtain ⟨hwan, hmlan, hlan, hbridges, hinterfaces, hfree, _⟩ := s.takeOver_frame plain m
  have hm' : (s.takeOver plain m).uses.mlan = some d := by
    change active ((s.takeOver plain m).records (s.takeOver plain m).mlan) = some d
    rw [active_takeOver, hmlan, hm, if_neg hrecord, ← hm]
    exact congrArg Uses.mlan huses
  have hw' : ∀ e, e ≠ d → ((s.takeOver plain m).uses.wan = some e ↔ s.uses.wan = some e) := by
    intro e he
    change ((s.takeOver plain m).wan.bind fun w => active ((s.takeOver plain m).records w)) = some e ↔
      (s.wan.bind fun w => active (s.records w)) = some e
    rw [hwan]
    cases hcase : s.wan with
    | none => exact Iff.rfl
    | some w =>
        simp only [Option.bind_some, active_takeOver]
        split
        · rename_i hc
          refine iff_of_false (fun hn => by cases hn) fun hn => he (hplain w e hcase hc ?_)
          change (s.wan.bind _) = some e
          rw [hcase]
          exact hn
        · exact Iff.rfl
  have hl' : (s.takeOver plain m).uses.lan = s.uses.lan := by
    change (fun d => ((s.takeOver plain m).lan d).isSome) = fun d => (s.lan d).isSome
    rw [hlan]
  have hp' : (s.takeOver plain m).uses.ports = s.uses.ports := by
    change (s.takeOver plain m).getPorts = s.getPorts
    rw [getPorts, hbridges, getPorts]
  refine books_useIfc (u := u) ?_ (fun _ => Or.inr (Or.inl hm')) fun e he => ?_
  · rw [hinterfaces, hfree]
    exact h
  · have hleft : ¬ some d = some e := fun hc => he (Option.some.inj hc).symm
    have hleft' : ¬ u.mlan = some e := by rw [hnone]; exact fun hc => by cases hc
    rw [Uses.Has, hw' e he, hm', hl', hp', huses]
    exact or_congr Iff.rfl (or_congr (iff_of_false hleft hleft') Iff.rfl)

theorem books_setMlanIfc {t : Net} (h : Books s) (hready : s.MlanReady d)
    (ht : s.setMlanIfc d = some t) : Books t := by
  unfold setMlanIfc at ht
  obtain ⟨now, hnow, ht⟩ := Option.bind_eq_some_iff.mp ht
  dsimp only at ht
  split at ht
  · cases ht
    exact h
  · rename_i hchange
    have ht := (Option.some.inj ht).symm
    have hmlan : s.uses.mlan = active (s.records s.mlan) := rfl
    generalize hprev : (s.records s.mlan).devname = prev at ht hchange
    generalize hen : (s.records s.mlan).enabled = prevEnabled at ht hchange
    have hmlan' : s.uses.mlan = if prevEnabled then some prev else none := by
      rw [hmlan, active, hen, hprev]
    -- the record of the management is changed
    have huses₁ : (s.setRecord s.mlan fun o => { o with enabled := now, devname := d }).uses =
        { s.uses with mlan := if now then some d else none } := s.setMlan_uses
    generalize hs₁ : (s.setRecord s.mlan fun o => { o with enabled := now, devname := d }) = s₁ at ht huses₁
    have hwan₁ : s₁.wan = s.wan := by rw [← hs₁]; rfl
    have hmlan₁ : s₁.mlan = s.mlan := by rw [← hs₁]; rfl
    have hint₁ : s₁.interfaces = s.interfaces := by rw [← hs₁]; rfl
    have hfree₁ : s₁.freeIfc = s.freeIfc := by rw [← hs₁]; rfl
    have hplain : ∀ u : Uses, u.wan = s.uses.wan → ∀ w e, s.wan = some w →
        (s.findPlain d).head? = some w → u.wan = some e → e = d := by
      intro u hu w e hw hhead he
      rw [hu] at he
      change (s.wan.bind _) = some e at he
      rw [hw] at he
      rw [← (active_some he).2]
      exact devname_of_findPlain hhead
    -- the interface that it leaves is given back
    have hleft : ∃ s₂ : Net, (if prevEnabled = true ∧ prev ≠ d then
          (s₁.restore (s.findPlain prev) prev (s.records s.mlan).aliasRef).unuseIfc prev else s₁) = s₂ ∧
        s₂.wan = s.wan ∧ s₂.mlan = s.mlan ∧ s₂.uses = s₁.uses ∧
        (s.uses.mlan ≠ some d → FreeList s₂.interfaces s₂.freeIfc (Uses.Has { s.uses with mlan := none })) ∧
        (s.uses.mlan = some d → s₂ = s₁) := by
      by_cases hleave : prevEnabled = true ∧ prev ≠ d
      · have hbefore : s.uses.mlan = some prev := by rw [hmlan', if_pos hleave.1]
        have honly := hready.leaves prev hbefore hleave.2
        have hrest : (s₁.restore (s.findPlain prev) prev (s.records s.mlan).aliasRef).uses = s₁.uses :=
          restore_uses fun r hr => honly.record r (by rwa [hwan₁, hmlan₁] at hr)
        obtain ⟨k1, k2, _, _, k5, k6⟩ :=
          s₁.restore_frame (d := prev) (s.findPlain prev) (s.records s.mlan).aliasRef
        refine ⟨_, if_pos hleave, k1.trans hwan₁, k2.trans hmlan₁, unuseIfc_uses.trans hrest,
          fun _ => ?_, fun hd => ?_⟩
        · change FreeList (s₁.restore _ prev _).interfaces _ _
          rw [k5, hint₁]
          refine FreeList.give h ?_ honly.exist (Or.inr (Or.inl hbefore)) honly.only fun e he => ?_
          · rw [← hfree₁, ← k6]
            exact unuseIfc_freeIfc
          · have hnot : ¬ s.uses.mlan = some e := by
              rw [hbefore]
              exact fun hc => he (Option.some.inj hc).symm
            exact or_congr Iff.rfl (or_congr (iff_of_false (fun hc => by cases hc) hnot) Iff.rfl)
        · rw [hbefore] at hd
          exact absurd (Option.some.inj hd) hleave.2
      · refine ⟨s₁, if_neg hleave, hwan₁, hmlan₁, rfl, fun hd => ?_, fun _ => rfl⟩
        have hnone : s.uses.mlan = none := by
          rw [hmlan'] at hd ⊢
          cases prevEnabled with
          | false => rfl
          | true => exact absurd ⟨rfl, fun hc => hd (by rw [hc]; rfl)⟩ hleave
        rw [hint₁, hfree₁]
        exact h.congr fun e _ => by rw [← hnone]
    obtain ⟨s₂, hs₂, hwan₂, hmlan₂, huses₂, hbooks₂, hstay⟩ := hleft
    rw [hs₂] at ht
    rw [huses₁] at huses₂
    cases now with
    | true =>
        rw [if_pos rfl] at ht huses₂
        have hnot : s.uses.mlan ≠ some d := by
          rw [hmlan']
          intro hc
          cases prevEnabled with
          | false => cases hc
          | true => exact hchange ⟨rfl, Option.some.inj hc⟩
        rw [hmlan₂] at ht
        subst ht
        refine books_comes (hbooks₂ hnot) hmlan₂ huses₂ rfl ?_ (hready.comes hnow hnot)
        intro w e hw
        exact hplain s₂.uses (by rw [huses₂]) w e (by rw [← hwan₂, hw])
    | false =>
        rw [if_neg (by decide)] at ht huses₂
        subst ht
        by_cases hd : s.uses.mlan = some d
        · -- it is disabled where it is
          have hstop := hready.stops hnow hd
          rw [hstay hd, Books, hint₁, hfree₁, ← hstay hd, huses₂]
          refine h.congr fun e _ => ?_
          by_cases he : e = d
          · subst he
            exact iff_of_true hstop (Or.inr (Or.inl hd))
          · have hnot : ¬ s.uses.mlan = some e := by
              rw [hd]
              exact fun hc => he (Option.some.inj hc).symm
            exact or_congr Iff.rfl (or_congr (iff_of_false (fun hc => by cases hc) hnot) Iff.rfl)
        · rw [Books, huses₂]
          exact hbooks₂ hd

end

end Net

/-! ## Runs -/

/-- How the page calls: a new VLAN is not there yet, and an interface that is
to be used is free, or that of the WAN for the management. -/
def Op.Called (s : Net) : Op → Prop
  | .addVlan v => ∀ o ∈ s.vlanObjs, v.same o = false
  | .addBridgePort _ d => d ∈ s.freeIfc
  | .addLan d => d ∈ s.freeIfc
  | .setWanIfc d => d ∈ s.freeIfc
  | .setMlanIfc d => d ∈ s.freeIfc ∨ ∃ w, s.wan = some w ∧ (s.records w).devname = d
  | _ => True

/-- What a call relies on. -/
def Op.Careful (s : Net) : Op → Prop
  | .addVlan v => s.Unclaimed v.getFullDevname
  | .removeVlan _ => True
  | .addBridge => s.Unclaimed s.newBridgeName
  | .removeBridge i => ∀ b, s.bridges[i]? = some b → ∀ d ∈ b.getPorts, s.PortOnly i d
  | .addBridgePort _ d => d ≠ [] ∧ s.noVlanSection d = false
  | .removeBridgePort i d => i < s.bridges.length → s.PortOnly i d
  | .addLan _ => True
  | .removeLan d => (s.lan d).isSome → s.LanOnly d
  | .setWanIfc d =>
      ∀ w, s.wan = some w → (s.records w).devname ≠ d → s.WanOnly (s.records w).devname
  | .setMlanIfc d => s.MlanReady d

theorem books_step {s : Net} {op : Op} (h : s.Books) (hcalled : op.Called s) (hop : op.Careful s) :
    (s.step op).Books := by
  have hcall : ∀ {o : Option Net}, (∀ t, o = some t → t.Books) → (Net.left (s.orThrow o)).Books := by
    intro o ho
    cases o with
    | none => exact h
    | some t => exact ho t rfl
  cases op with
  | addVlan v => exact Net.books_addVlan h hop
  | removeVlan i => exact hcall fun t ht => Net.books_removeVlan h ht
  | addBridge => exact Net.books_addBridge h hop
  | removeBridge i => exact Net.books_removeBridge h hop
  | addBridgePort i d => exact Net.books_addBridgePort h hop.1 hop.2
  | removeBridgePort i d =>
      change Net.Books (Net.left (s.removeBridgePort i d))
      cases hb : s.bridges[i]? with
      | none =>
          rw [Net.removeBridgePort, hb]
          exact h
      | some b =>
          obtain ⟨hi, _⟩ := List.getElem?_eq_some_iff.mp hb
          obtain ⟨t, ht, hbooks⟩ | ⟨t, ht, hbooks, _⟩ := Net.books_removeBridgePort h hb (hop hi)
          · rw [ht]
            exact hbooks
          · rw [ht]
            exact hbooks
  | addLan d => exact Net.books_addLan h
  | removeLan d => exact hcall fun t ht => Net.books_removeLan h hop ht
  | setWanIfc d => exact hcall fun t ht => Net.books_setWanIfc h hcalled hop ht
  | setMlanIfc d => exact hcall fun t ht => Net.books_setMlanIfc h hop ht

/-- One call, and one that finds what it relies on. -/
def CalledStep (s t : Net) : Prop := ∃ op : Op, op.Called s ∧ t = s.step op

def CarefulStep (s t : Net) : Prop := ∃ op : Op, op.Called s ∧ op.Careful s ∧ t = s.step op

/-- In every state of a run of careful calls the books are right. -/
theorem books_reached {s t : Net} (h : s.Books) (hrun : Relation.ReflTransGen CarefulStep s t) :
    t.Books := by
  induction hrun with
  | refl => exact h
  | tail _ hstep ih =>
      obtain ⟨op, hcalled, hop, rfl⟩ := hstep
      exact books_step ih hcalled hop

def ath0 : Str := ['a', 't', 'h', '0']
def eth0 : Str := ['e', 't', 'h', '0']
def br0 : Str := ['b', 'r', '0']

/-- A router with two interfaces: the WAN has its record and the management has
one of its own, which is disabled. -/
def router : Net where
  isBridge := false
  interfaces := [ath0, eth0]
  freeIfc := [ath0]
  wan := some 0
  mlan := 2
  lan := fun _ => none
  netconf := [0, 1, 2]
  records := fun
    | 0 => ⟨eth0, WAN, true, none, none, false, false, 0⟩
    | 1 => ⟨ath0, [], true, none, none, false, false, 1⟩
    | _ => ⟨eth0, MLAN, false, none, none, false, false, 2⟩
  aliases := fun _ => []
  next := 3
  bridges := []
  vlan := none
  ebVlan := ⟨false, []⟩
  arpnat := ⟨false, []⟩
  eap := ⟨false, []⟩
  wan_ne := by decide
  wan_lt := by decide
  mlan_lt := by decide

theorem router_books : router.Books where
  all_nodup := by decide
  free_nodup := by decide
  mem_all := by decide
  mem_free := by decide

/-- A VLAN of the wired interface, and the section with it. -/
def vlan5 : VlanObj := ⟨eth0, ['5'], [], true⟩

theorem bridged_books :
    (router.run [.addBridge, .addVlan vlan5, .addBridgePort 0 ath0]).Books := by
  have hbridge : Op.Careful router .addBridge := ⟨by decide, by decide, fun r hr => by cases hr⟩
  have hvlan : Op.Careful (router.step .addBridge) (.addVlan vlan5) := by
    refine ⟨by decide +kernel, by decide +kernel, fun r hr => ?_⟩
    have hnone : (router.step .addBridge).findByDevname vlan5.getFullDevname = none := by
      decide +kernel
    rw [hnone] at hr
    cases hr
  have hnew : Op.Called (router.step .addBridge) (.addVlan vlan5) := by
    intro o ho
    cases ho
  have hport : Op.Careful (router.run [.addBridge, .addVlan vlan5]) (.addBridgePort 0 ath0) :=
    ⟨fun h => absurd h (by decide), by decide +kernel⟩
  have hcalled : Op.Called (router.run [.addBridge, .addVlan vlan5]) (.addBridgePort 0 ath0) := by
    change ath0 ∈ (router.run [.addBridge, .addVlan vlan5]).freeIfc
    decide +kernel
  exact books_reached router_books
    (((Relation.ReflTransGen.single ⟨.addBridge, trivial, hbridge, rfl⟩).tail
      ⟨.addVlan vlan5, hnew, hvlan, rfl⟩).tail ⟨.addBridgePort 0 ath0, hcalled, hport, rfl⟩)

/-- Without the section the port is added, but its interface is still free. -/
theorem noVlanSection_books : Relation.ReflTransGen CalledStep router
      (router.run [.addBridge, .addBridgePort 0 ath0]) ∧
    ¬ (router.run [.addBridge, .addBridgePort 0 ath0]).Books := by
  have hcalled : Op.Called (router.step .addBridge) (.addBridgePort 0 ath0) := by
    change ath0 ∈ (router.step .addBridge).freeIfc
    decide
  refine ⟨(Relation.ReflTransGen.single ⟨.addBridge, trivial, rfl⟩).tail
    ⟨.addBridgePort 0 ath0, hcalled, rfl⟩, fun h => ?_⟩
  have hfree : ath0 ∈ (router.run [.addBridge, .addBridgePort 0 ath0]).freeIfc := by decide +kernel
  have hport : (router.run [.addBridge, .addBridgePort 0 ath0]).uses.Has ath0 := by decide +kernel
  exact (h.mem_free ath0 (h.mem_all ath0 hfree)).mp hfree hport

/-- The WAN and the management come to a bridge and leave it, and the bridge is
removed and added again. -/
def bridgeTwice : List Op :=
  [.addBridge, .setWanIfc br0, .setMlanIfc br0, .setWanIfc eth0, .removeBridge 0, .addBridge]

/-- The record of the management is enabled for the new bridge, which is free. -/
theorem bridgeTwice_books : router.Books ∧
    Relation.ReflTransGen CalledStep router (router.run bridgeTwice) ∧
    ¬ (router.run bridgeTwice).Books := by
  have hwan : br0 ∈ (router.run [.addBridge]).freeIfc := by decide +kernel
  have hmlan : br0 = ((router.run [.addBridge, .setWanIfc br0]).records 0).devname := by
    decide +kernel
  have hback : eth0 ∈ (router.run [.addBridge, .setWanIfc br0, .setMlanIfc br0]).freeIfc := by
    decide +kernel
  refine ⟨router_books, ?_, fun h => ?_⟩
  · have h₁ : CalledStep router (router.run [.addBridge]) := ⟨.addBridge, trivial, rfl⟩
    have h₂ : CalledStep (router.run [.addBridge]) (router.run (bridgeTwice.take 2)) :=
      ⟨.setWanIfc br0, hwan, rfl⟩
    have h₃ : CalledStep (router.run (bridgeTwice.take 2)) (router.run (bridgeTwice.take 3)) :=
      ⟨.setMlanIfc br0, Or.inr ⟨0, by decide +kernel, hmlan.symm⟩, rfl⟩
    have h₄ : CalledStep (router.run (bridgeTwice.take 3)) (router.run (bridgeTwice.take 4)) :=
      ⟨.setWanIfc eth0, hback, rfl⟩
    have h₅ : CalledStep (router.run (bridgeTwice.take 4)) (router.run (bridgeTwice.take 5)) :=
      ⟨.removeBridge 0, trivial, rfl⟩
    have h₆ : CalledStep (router.run (bridgeTwice.take 5)) (router.run bridgeTwice) :=
      ⟨.addBridge, trivial, rfl⟩
    exact ((((Relation.ReflTransGen.single h₁).tail h₂).tail h₃).tail h₄).tail h₅ |>.tail h₆
  · have hfree : br0 ∈ (router.run bridgeTwice).freeIfc := by decide +kernel
    have hused : (router.run bridgeTwice).uses.Has br0 := by decide +kernel
    exact (h.mem_free br0 (h.mem_all br0 hfree)).mp hfree hused

end UbntSdk.Web
