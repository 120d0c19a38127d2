/-
UbntSdk.Web.IpModeTheorems — when the mode that was set is the mode that is
read.

A client that the item has not looked up is neither found by `setStatic` nor
stopped by the other modes, and `setPppoe` takes the first client of any
interface without enabling it. `CallOk` says what a call needs in the state
before it, and `readsBack_iff` that a run of calls reads back what was set, from
first to last, exactly if all of its calls are so.
-/
import UbntSdk.Web.IpMode

namespace UbntSdk.Web

namespace Clients

variable {α : Type}

/-- The client of the item, looked up if it is not known, is enabled. -/
def isEnabled (t : Clients α) (devname : Str) : Bool := (t.lookup devname).objEnabled

/-- There is such a client, but the item has not looked it up. -/
def unread (t : Clients α) (devname : Str) : Bool := t.ref.isNone && t.isEnabled devname

/-- The client of the item is one of this interface. -/
def Own (t : Clients α) (devname : Str) : Prop :=
  ∀ i ∈ t.ref, ∃ o, t.obj i = some o ∧ o.devname = some devname

/-- The clients of other interfaces are as before. -/
def Kept (devname : Str) (t t' : Clients α) : Prop :=
  ∀ i o, t.obj i = some o → o.devname ≠ some devname → t'.obj i = some o

variable {t : Clients α} {devname : Str}

theorem Kept.of_objs {t' : Clients α} (h : t'.objs = t.objs) : Kept devname t t' := by
  intro i o ho _
  rwa [obj, h]

theorem Kept.trans {t' t'' : Clients α} (h : Kept devname t t') (h' : Kept devname t' t'') :
    Kept devname t t'' := fun i o ho hne => h' i o (h i o ho hne) hne

/-! ### Changes -/

@[simp] theorem change_ref (t : Clients α) (f : ClientObj α → ClientObj α) :
    (t.change f).ref = t.ref := by
  unfold change
  split <;> simp_all

@[simp] theorem change_enabled (t : Clients α) (f : ClientObj α → ClientObj α) :
    (t.change f).enabled = t.enabled := by
  unfold change
  split <;> rfl

theorem change_of_none (h : t.ref = none) (f : ClientObj α → ClientObj α) : t.change f = t := by
  simp [change, h]

theorem change_obj {i : Nat} (h : t.ref = some i) (f : ClientObj α → ClientObj α) (j : Nat) :
    (t.change f).obj j = if i = j then (t.obj j).map f else t.obj j := by
  unfold change obj
  simp only [h, List.getElem?_modify]
  split
  · rcases t.objs[j]? with _ | _ | o <;> rfl
  · rcases t.objs[j]? with _ | _ | o <;> rfl

/-- Own clients stay own when their names change with the item. -/
theorem Own.change (h : t.Own devname) {f : ClientObj α → ClientObj α} {devname' : Str}
    (hf : ∀ o, o.devname = some devname → (f o).devname = some devname') :
    (t.change f).Own devname' := by
  intro i hi
  rw [change_ref] at hi
  obtain ⟨o, ho, hname⟩ := h i hi
  exact ⟨f o, by rw [change_obj hi, if_pos rfl, ho, Option.map_some], hf o hname⟩

theorem Own.kept_change (h : t.Own devname) (f : ClientObj α → ClientObj α) :
    Kept devname t (t.change f) := by
  intro j o ho hne
  cases href : t.ref with
  | none => rwa [change_of_none href]
  | some i =>
      rw [change_obj href, if_neg]
      · exact ho
      · rintro rfl
        obtain ⟨o', ho', hname⟩ := h i href
        rw [ho] at ho'
        exact hne (Option.some.inj ho' ▸ hname)

/-- Whether the client of the item is enabled after a change. -/
theorem objEnabled_change (h : t.Own devname) {f : ClientObj α → ClientObj α} {b : Bool}
    (hf : ∀ o, (f o).enabled = b) (href : t.ref ≠ none) : (t.change f).objEnabled = b := by
  obtain ⟨i, hi⟩ := Option.ne_none_iff_exists'.mp href
  obtain ⟨o, ho, -⟩ := h i hi
  simp [objEnabled, hi, change_obj hi, ho, hf]

theorem objEnabled_rename (t : Clients α) (devname : Str) :
    (t.rename devname).objEnabled = t.objEnabled := by
  cases href : t.ref with
  | none => rw [rename, change_of_none href]
  | some i =>
      simp only [objEnabled, rename, change_ref, href, Option.any_some, change_obj href, if_pos]
      cases t.obj i <;> rfl

/-! ### Looking up -/

@[simp] theorem lookup_enabled (t : Clients α) (devname : Str) :
    (t.lookup devname).enabled = t.enabled := by
  unfold lookup
  split <;> rfl

@[simp] theorem lookup_objs (t : Clients α) (devname : Str) :
    (t.lookup devname).objs = t.objs := by
  unfold lookup
  split <;> rfl

theorem lookup_of_ne (h : t.ref ≠ none) (devname : Str) : t.lookup devname = t := if_neg h

theorem isEnabled_of_ne (h : t.ref ≠ none) (devname : Str) :
    t.isEnabled devname = t.objEnabled := by
  rw [isEnabled, lookup_of_ne h]

theorem lookup_lookup (t : Clients α) (devname : Str) :
    (t.lookup devname).lookup devname = t.lookup devname := by
  by_cases href : t.ref = none
  · simp [lookup, href, findByDevname]
  · rw [lookup_of_ne href, lookup_of_ne href]

@[simp] theorem isEnabled_lookup (t : Clients α) (devname : Str) :
    (t.lookup devname).isEnabled devname = t.isEnabled devname := by
  rw [isEnabled, lookup_lookup, isEnabled]

/-- What is found has the devname. -/
theorem findByDevname_obj {i : Nat} (h : t.findByDevname devname = some i) :
    ∃ o, t.obj i = some o ∧ o.devname = some devname := by
  obtain ⟨hlt, hp, -⟩ := List.findIdx?_eq_some_iff_getElem.mp h
  obtain ⟨o, ho, hname⟩ := Option.any_eq_true _ _ |>.mp hp
  exact ⟨o, by simp [obj, List.getElem?_eq_getElem hlt, ho], of_decide_eq_true hname⟩

theorem Own.lookup (h : t.Own devname) : (t.lookup devname).Own devname := by
  unfold Clients.lookup
  split
  · intro i hi
    exact findByDevname_obj hi
  · exact h

/-- Whether the section is enabled does not matter for its client. -/
theorem isEnabled_withEnabled (t : Clients α) (b : Bool) (devname : Str) :
    Clients.isEnabled { t with enabled := b } devname = t.isEnabled devname := by
  unfold isEnabled lookup
  split <;> rfl

/-! ### Stopping -/

@[simp] theorem stop_ref (t : Clients α) : t.stop.ref = t.ref := by
  unfold stop
  split
  · exact change_ref t _
  · rfl

@[simp] theorem stop_enabled (t : Clients α) : t.stop.enabled = t.enabled := by
  unfold stop
  split
  · exact change_enabled t _
  · rfl

theorem Own.stop (h : t.Own devname) : t.stop.Own devname := by
  unfold Clients.stop
  split
  · exact h.change fun _ ho => ho
  · exact h

theorem Own.kept_stop (h : t.Own devname) : Kept devname t t.stop := by
  unfold Clients.stop
  split
  · exact h.kept_change _
  · exact Kept.of_objs rfl

/-- Only a client that was not looked up is not stopped. -/
theorem Own.isEnabled_stop (h : t.Own devname) (devname' : Str) :
    t.stop.isEnabled devname' = t.unread devname' := by
  unfold unread
  cases href : t.ref with
  | none =>
      have hoff : t.objEnabled = false := by simp [objEnabled, href]
      have hstop : t.stop = t := if_neg (by rw [hoff]; exact Bool.false_ne_true)
      rw [hstop, Option.isNone_none, Bool.true_and]
  | some i =>
      have hne : t.ref ≠ none := by simp [href]
      rw [isEnabled_of_ne (by rwa [stop_ref]), Option.isNone_some, Bool.false_and, Clients.stop]
      split
      · exact objEnabled_change h (fun _ => rfl) hne
      · rename_i hoff
        exact Bool.not_eq_true _ ▸ hoff

theorem objEnabled_of_unread (h : t.unread devname = true) : t.objEnabled = false := by
  have href : t.ref = none := Option.isNone_iff_eq_none.mp (Bool.and_eq_true_iff.mp h).1
  simp [objEnabled, href]

theorem isEnabled_rename (t : Clients α) (devname devname' : Str) :
    (t.rename devname).isEnabled devname' = t.isEnabled devname' := by
  by_cases href : t.ref = none
  · rw [rename, change_of_none href]
  · rw [isEnabled_of_ne href, isEnabled_of_ne, objEnabled_rename]
    rwa [rename, change_ref]

/-- A section is stopped as its client is. -/
theorem stopSection_eq (t : Clients α) :
    t.stopSection = { t.stop with enabled := if t.objEnabled then false else t.enabled } := by
  unfold stopSection stop
  split <;> rfl

theorem stopSection_enabled (h : t.unread devname = true) : t.stopSection.enabled = t.enabled := by
  rw [stopSection_eq, objEnabled_of_unread h]
  rfl

theorem Own.stopSection (h : t.Own devname) : t.stopSection.Own devname := by
  rw [stopSection_eq]
  exact h.stop

theorem Own.kept_stopSection (h : t.Own devname) : Kept devname t t.stopSection := by
  rw [stopSection_eq]
  exact h.kept_stop

theorem Own.isEnabled_stopSection (h : t.Own devname) (devname' : Str) :
    t.stopSection.isEnabled devname' = t.unread devname' := by
  rw [stopSection_eq, ← h.isEnabled_stop]
  exact isEnabled_withEnabled t.stop _ devname'

/-! ### Taking a client -/

theorem obj_append (t : Clients α) {i : Nat} {o : ClientObj α} (h : t.obj i = some o)
    (o' : ClientObj α) : (t.add o').obj i = some o := by
  have hlt : i < t.objs.length := by
    by_contra hge
    simp [obj, List.getElem?_eq_none (not_lt.mp hge)] at h
  rwa [obj, add, List.getElem?_append_left hlt]

theorem obj_add (t : Clients α) (o : ClientObj α) : (t.add o).obj t.objs.length = some o := by
  simp [obj, add]

theorem own_add (t : Clients α) {o : ClientObj α} (h : o.devname = some devname) :
    (t.add o).Own devname := by
  intro i hi
  obtain rfl := Option.some.inj hi
  exact ⟨o, obj_add t o, h⟩

theorem kept_add (t : Clients α) (o : ClientObj α) : Kept devname t (t.add o) :=
  fun _ _ ho _ => t.obj_append ho o

/-- There is an object at the first place. -/
theorem first_obj {i : Nat} (h : t.first = some i) : ∃ o, t.obj i = some o := by
  obtain ⟨hlt, hp, -⟩ := List.findIdx?_eq_some_iff_getElem.mp h
  obtain ⟨o, ho⟩ := Option.isSome_iff_exists.mp hp
  exact ⟨o, by simp [obj, List.getElem?_eq_getElem hlt, ho]⟩

end Clients

namespace NetItem

open Clients

/-! ## What a run is to do -/

/-- The mode of the last `setIpMode`. -/
def lastMode (last : Option IpMode) : Call → Option IpMode
  | .setIpMode mode _ => some mode
  | _ => last

/-- The mode that was set is read, and no two clients of the item are enabled. -/
structure Good (last : Option IpMode) (s : NetItem) : Prop where
  mode : ∀ m ∈ last, s.getIpMode.1 = m
  one : ¬(s.dhcpc.isEnabled s.devname = true ∧ s.ppp.isEnabled s.devname = true)

/-- The clients of other interfaces are as before. -/
def OthersKept (s s' : NetItem) : Prop :=
  s.dhcpc.Kept s.devname s'.dhcpc ∧ s.ppp.Kept s.devname s'.ppp

/-- In every state of the run, and at every call. -/
def ReadsBack (last : Option IpMode) (s : NetItem) : List Call → Prop
  | [] => Good last s
  | c :: calls => Good last s ∧ OthersKept s (s.call c) ∧
      ReadsBack (lastMode last c) (s.call c) calls

/-- What a call needs in the state before it. -/
def CallOk (last : Option IpMode) (s : NetItem) : Call → Prop
  | .getIpMode => True
  | .setIpMode .Static _ =>
      ¬(s.dhcpc.enabled ∧ s.dhcpc.unread s.devname) ∧ ¬(s.ppp.enabled ∧ s.ppp.unread s.devname) ∧
        ¬(s.dhcpc.unread s.devname ∧ s.ppp.unread s.devname)
  | .setIpMode .Dhcpc _ => ¬s.ppp.unread s.devname
  | .setIpMode .Pppoe _ =>
      ¬s.dhcpc.unread s.devname ∧ (s.ppp.ref = none → ∀ i ∈ s.ppp.first, ∀ o ∈ s.ppp.obj i,
        o.devname = some s.devname ∧ o.enabled)
  | .setDevname devname =>
      ¬(s.dhcpc.isEnabled devname ∧ s.ppp.isEnabled devname) ∧ (last = some .Static →
        ¬(s.dhcpc.enabled ∧ s.dhcpc.isEnabled devname) ∧ ¬(s.ppp.enabled ∧ s.ppp.isEnabled devname))

/-- All calls of a run are so. -/
def CallsOk (last : Option IpMode) (s : NetItem) : List Call → Prop
  | [] => True
  | c :: calls => CallOk last s c ∧ CallsOk (lastMode last c) (s.call c) calls

/-- What holds in every state of a run. -/
structure Inv (last : Option IpMode) (s : NetItem) : Prop where
  dhcpc : s.dhcpc.Own s.devname
  ppp : s.ppp.Own s.devname
  dhcpc_ref : last = some .Dhcpc → s.dhcpc.ref ≠ none
  ppp_ref : last = some .Pppoe → s.ppp.ref ≠ none

/-! ## The mode that is read -/

/-- The mode that is read: DHCP before PPPoE, and static if neither section is on with an
enabled client. -/
theorem getIpMode_mode (s : NetItem) : s.getIpMode.1 =
    if s.dhcpc.enabled && s.dhcpc.isEnabled s.devname then .Dhcpc
    else if s.ppp.enabled && s.ppp.isEnabled s.devname then .Pppoe
    else .Static := by
  simp [getIpMode, isEnabled]

/-- The mode is read back and the two clients are not both enabled. -/
theorem good_some (m : IpMode) (s : NetItem) : Good (some m) s ↔ s.getIpMode.1 = m ∧
    ¬(s.dhcpc.isEnabled s.devname = true ∧ s.ppp.isEnabled s.devname = true) := by
  constructor
  · intro h
    exact ⟨h.mode m rfl, h.one⟩
  · rintro ⟨hmode, hone⟩
    exact ⟨fun m' hm' => Option.some.inj hm' ▸ hmode, hone⟩

theorem good_static_iff (s : NetItem) : Good (some .Static) s ↔
    ¬(s.dhcpc.enabled = true ∧ s.dhcpc.isEnabled s.devname = true) ∧
      ¬(s.ppp.enabled = true ∧ s.ppp.isEnabled s.devname = true) ∧
        ¬(s.dhcpc.isEnabled s.devname = true ∧ s.ppp.isEnabled s.devname = true) := by
  rw [good_some, getIpMode_mode]
  cases s.dhcpc.enabled <;> cases s.dhcpc.isEnabled s.devname <;> cases s.ppp.enabled <;>
    cases s.ppp.isEnabled s.devname <;> simp

theorem good_dhcpc_iff (s : NetItem) : Good (some .Dhcpc) s ↔
    s.dhcpc.enabled = true ∧ s.dhcpc.isEnabled s.devname = true ∧
      ¬s.ppp.isEnabled s.devname = true := by
  rw [good_some, getIpMode_mode]
  cases s.dhcpc.enabled <;> cases s.dhcpc.isEnabled s.devname <;> cases s.ppp.enabled <;>
    cases s.ppp.isEnabled s.devname <;> simp

theorem good_pppoe_iff (s : NetItem) : Good (some .Pppoe) s ↔
    s.ppp.enabled = true ∧ s.ppp.isEnabled s.devname = true ∧
      ¬s.dhcpc.isEnabled s.devname = true := by
  rw [good_some, getIpMode_mode]
  cases s.dhcpc.enabled <;> cases s.dhcpc.isEnabled s.devname <;> cases s.ppp.enabled <;>
    cases s.ppp.isEnabled s.devname <;> simp

/-! ## Taking a client -/

/-- After `setDhcpc` there is a client of the item, its section is on, and the clients of
others are as they were. -/
theorem takeDhcpc_spec {s : NetItem} (h : s.dhcpc.Own s.devname) :
    s.takeDhcpc.Own s.devname ∧ s.takeDhcpc.ref ≠ none ∧ s.takeDhcpc.enabled = true ∧
      s.dhcpc.Kept s.devname s.takeDhcpc := by
  unfold takeDhcpc
  by_cases href : s.dhcpc.ref = none
  · simp only [href, if_true]
    split
    · rename_i i hfind
      have hown : Clients.Own { s.dhcpc with enabled := true, ref := some i } s.devname := by
        intro j hj
        obtain rfl := Option.some.inj hj
        exact findByDevname_obj hfind
      exact ⟨hown.change fun _ _ => rfl, by simp [rename], by simp [rename], hown.kept_change _⟩
    · exact ⟨own_add _ rfl, by simp [add], by simp [add], kept_add _ _⟩
  · simp only [href, if_false]
    exact ⟨h, href, trivial, Kept.of_objs rfl⟩

theorem takePpp_spec {s : NetItem} (h : s.ppp.Own s.devname) :
    s.takePpp.Own s.devname ∧ s.takePpp.ref ≠ none ∧ s.takePpp.enabled = true := by
  unfold takePpp
  by_cases href : s.ppp.ref = none
  · simp only [href, if_true]
    split
    · rename_i i hfirst
      obtain ⟨o, ho⟩ := first_obj hfirst
      refine ⟨?_, by simp [rename], by simp [rename]⟩
      intro j hj
      rw [rename, change_ref] at hj
      exact ⟨{ o with devname := some s.devname }, by
        rw [rename, change_obj hj, if_pos rfl]
        obtain rfl := Option.some.inj hj
        exact congrArg (Option.map _) ho, rfl⟩
    · exact ⟨own_add _ rfl, by simp [add], by simp [add]⟩
  · simp only [href, if_false]
    have hown : Clients.Own { s.ppp with enabled := true } s.devname := h
    exact ⟨hown.change fun _ ho => ho, by simpa [enable] using href, by simp [enable]⟩

/-- The client that is taken is enabled, and no other interface's, if it is so. -/
theorem takePpp_iff {s : NetItem} (h : s.ppp.Own s.devname) :
    s.takePpp.objEnabled = true ∧ s.ppp.Kept s.devname s.takePpp ↔
      (s.ppp.ref = none → ∀ i ∈ s.ppp.first, ∀ o ∈ s.ppp.obj i,
        o.devname = some s.devname ∧ o.enabled = true) := by
  unfold takePpp
  by_cases href : s.ppp.ref = none
  · simp only [href, if_true, true_implies]
    split
    · rename_i i hfirst
      obtain ⟨o, ho⟩ := first_obj hfirst
      have hplace : s.ppp.first = some i := hfirst
      have hobj : s.ppp.obj i = some o := ho
      have honly : (∀ i ∈ s.ppp.first, ∀ o ∈ s.ppp.obj i,
          o.devname = some s.devname ∧ o.enabled = true) ↔
          o.devname = some s.devname ∧ o.enabled = true := by
        simp [hplace, hobj]
      rw [honly, objEnabled_rename, and_comm]
      have henabled : Clients.objEnabled { s.ppp with enabled := true, ref := some i } =
          (s.ppp.obj i).any (·.enabled) := rfl
      rw [henabled, hobj, Option.any_some]
      refine and_congr ?_ Iff.rfl
      constructor
      · intro hkept
        by_contra hne
        have hafter := hkept i o ho hne
        rw [rename, change_obj rfl, if_pos rfl] at hafter
        obtain ⟨o', -, rfl⟩ := Option.map_eq_some_iff.mp hafter
        exact hne rfl
      · intro hname
        have hown : Clients.Own { s.ppp with enabled := true, ref := some i } s.devname := by
          intro j hj
          obtain rfl := Option.some.inj hj
          exact ⟨o, ho, hname⟩
        exact hown.kept_change _
    · rename_i hfirst
      have hplace : s.ppp.first = none := hfirst
      simp only [hplace, Option.mem_def, reduceCtorEq, false_implies, implies_true, iff_true]
      refine ⟨?_, kept_add _ _⟩
      simp [objEnabled, obj, add, newPppObj]
  · simp only [href, if_false, false_implies, iff_true]
    have hown : Clients.Own { s.ppp with enabled := true } s.devname := h
    exact ⟨objEnabled_change hown (fun _ => rfl) href, hown.kept_change _⟩

/-! ## The calls -/

section Calls

variable {last : Option IpMode} {s : NetItem}

theorem Inv.call_static (h : Inv last s) (b : Bool) :
    Good (some .Static) (s.setIpMode .Static b) ∧ OthersKept s (s.setIpMode .Static b) ↔
      CallOk last s (.setIpMode .Static b) := by
  have hkept : OthersKept s (s.setIpMode .Static b) :=
    ⟨h.dhcpc.kept_stop, h.ppp.kept_stopSection⟩
  have hdhcpc : (s.setIpMode .Static b).dhcpc = s.dhcpc.stop := rfl
  have hppp : (s.setIpMode .Static b).ppp = s.ppp.stopSection := rfl
  have hname : (s.setIpMode .Static b).devname = s.devname := rfl
  have hsection : s.ppp.stopSection.enabled = true ∧ s.ppp.unread s.devname = true ↔
      s.ppp.enabled = true ∧ s.ppp.unread s.devname = true :=
    and_congr_left fun hunread => by rw [stopSection_enabled hunread]
  rw [good_static_iff, and_iff_left hkept, hdhcpc, hppp, hname, stop_enabled,
    h.dhcpc.isEnabled_stop, h.ppp.isEnabled_stopSection, hsection]
  rfl

theorem Inv.call_dhcpc (h : Inv last s) (b : Bool) :
    Good (some .Dhcpc) (s.setIpMode .Dhcpc b) ∧ OthersKept s (s.setIpMode .Dhcpc b) ↔
      CallOk last s (.setIpMode .Dhcpc b) := by
  obtain ⟨hown, href, henabled, htaken⟩ := takeDhcpc_spec h.dhcpc
  have hdhcpc : (s.setIpMode .Dhcpc b).dhcpc = s.takeDhcpc.enable true := rfl
  have hppp : (s.setIpMode .Dhcpc b).ppp = s.ppp.stopSection := rfl
  have hname : (s.setIpMode .Dhcpc b).devname = s.devname := rfl
  have hkept : OthersKept s (s.setIpMode .Dhcpc b) :=
    ⟨htaken.trans (hown.kept_change _), h.ppp.kept_stopSection⟩
  have hon : (s.takeDhcpc.enable true).isEnabled s.devname = true := by
    rw [isEnabled_of_ne (by rwa [enable, change_ref])]
    exact objEnabled_change hown (fun _ => rfl) href
  have hsection : (s.takeDhcpc.enable true).enabled = true := by
    rw [enable, change_enabled, henabled]
  rw [good_dhcpc_iff, and_iff_left hkept, hdhcpc, hppp, hname, h.ppp.isEnabled_stopSection]
  simp [hon, hsection, CallOk]

theorem Inv.call_pppoe (h : Inv last s) (b : Bool) :
    Good (some .Pppoe) (s.setIpMode .Pppoe b) ∧ OthersKept s (s.setIpMode .Pppoe b) ↔
      CallOk last s (.setIpMode .Pppoe b) := by
  obtain ⟨-, href, henabled⟩ := takePpp_spec h.ppp
  have hdhcpc : (s.setIpMode .Pppoe b).dhcpc = s.dhcpc.stop := rfl
  have hppp : (s.setIpMode .Pppoe b).ppp = s.takePpp := rfl
  have hname : (s.setIpMode .Pppoe b).devname = s.devname := rfl
  have hkept : OthersKept s (s.setIpMode .Pppoe b) ↔ s.ppp.Kept s.devname s.takePpp :=
    and_iff_right h.dhcpc.kept_stop
  rw [good_pppoe_iff, hkept, hdhcpc, hppp, hname, h.dhcpc.isEnabled_stop, isEnabled_of_ne href]
  change _ ↔ _ ∧ _
  rw [← takePpp_iff h.ppp]
  constructor
  · rintro ⟨⟨-, hon, hunread⟩, htaken⟩
    exact ⟨hunread, hon, htaken⟩
  · rintro ⟨hunread, hon, htaken⟩
    exact ⟨⟨henabled, hon, hunread⟩, htaken⟩

theorem Good.call_getIpMode (h : Good last s) :
    Good last s.getIpMode.2 ∧ OthersKept s s.getIpMode.2 := by
  have hdhcpc : s.getIpMode.2.dhcpc = s.dhcpc.lookup s.devname := rfl
  have hppp : s.getIpMode.2.ppp = s.ppp.lookup s.devname := rfl
  have hname : s.getIpMode.2.devname = s.devname := rfl
  refine ⟨⟨fun m hm => ?_, ?_⟩, Kept.of_objs (lookup_objs _ _), Kept.of_objs (lookup_objs _ _)⟩
  · rw [← h.mode m hm, getIpMode_mode, getIpMode_mode, hdhcpc, hppp, hname, lookup_enabled,
      lookup_enabled, isEnabled_lookup, isEnabled_lookup]
  · rw [hdhcpc, hppp, hname, isEnabled_lookup, isEnabled_lookup]
    exact h.one

/-- A new name matters for a client that is not looked up yet: the next read looks for the
new name. -/
theorem Inv.call_setDevname (h : Inv last s) (hgood : Good last s) (devname : Str) :
    Good last (s.setDevname devname) ∧ OthersKept s (s.setDevname devname) ↔
      CallOk last s (.setDevname devname) := by
  have hdhcpc : (s.setDevname devname).dhcpc = s.dhcpc.rename devname := rfl
  have hppp : (s.setDevname devname).ppp = s.ppp.rename devname := rfl
  have hname : (s.setDevname devname).devname = devname := rfl
  have hkept : OthersKept s (s.setDevname devname) :=
    ⟨h.dhcpc.kept_change _, h.ppp.kept_change _⟩
  rw [and_iff_left hkept]
  rcases last with _ | _ | _ | _
  · constructor
    · intro hnew
      have hone := hnew.one
      rw [hdhcpc, hppp, hname, isEnabled_rename, isEnabled_rename] at hone
      exact ⟨hone, fun hlast => (nomatch hlast)⟩
    · intro hok
      refine ⟨fun _ hm => (nomatch hm), ?_⟩
      rw [hdhcpc, hppp, hname, isEnabled_rename, isEnabled_rename]
      exact hok.1
  · rw [good_static_iff, hdhcpc, hppp, hname, isEnabled_rename, isEnabled_rename, rename, rename,
      change_enabled, change_enabled]
    simp only [CallOk, true_implies]
    tauto
  · obtain ⟨henabled, hon, -⟩ := (good_dhcpc_iff s).mp hgood
    have href := h.dhcpc_ref rfl
    rw [isEnabled_of_ne href] at hon
    rw [good_dhcpc_iff, hdhcpc, hppp, hname, isEnabled_rename, isEnabled_rename, rename,
      change_enabled, isEnabled_of_ne href]
    simp [CallOk, henabled, hon, isEnabled_of_ne href]
  · obtain ⟨henabled, hon, -⟩ := (good_pppoe_iff s).mp hgood
    have href := h.ppp_ref rfl
    rw [isEnabled_of_ne href] at hon
    rw [good_pppoe_iff, hdhcpc, hppp, hname, isEnabled_rename, isEnabled_rename, rename,
      change_enabled, isEnabled_of_ne href]
    simp [CallOk, henabled, hon, isEnabled_of_ne href]

/-- A call keeps what it is to keep exactly if it is a good one. -/
theorem Inv.call_iff (h : Inv last s) (hgood : Good last s) (c : Call) :
    Good (lastMode last c) (s.call c) ∧ OthersKept s (s.call c) ↔ CallOk last s c := by
  cases c with
  | setIpMode mode b =>
      cases mode with
      | Static => exact h.call_static b
      | Dhcpc => exact h.call_dhcpc b
      | Pppoe => exact h.call_pppoe b
  | getIpMode => exact iff_of_true (hgood.call_getIpMode) trivial
  | setDevname devname => exact h.call_setDevname hgood devname

/-- Any call keeps the client of the item one of its interface. -/
theorem Inv.call (h : Inv last s) (c : Call) : Inv (lastMode last c) (s.call c) := by
  cases c with
  | setIpMode mode b =>
      cases mode with
      | Static =>
          exact ⟨h.dhcpc.stop, h.ppp.stopSection, fun hlast => (nomatch hlast),
            fun hlast => (nomatch hlast)⟩
      | Dhcpc =>
          obtain ⟨hown, href, -⟩ := takeDhcpc_spec h.dhcpc
          refine ⟨hown.change fun _ ho => ho, h.ppp.stopSection, fun _ => ?_,
            fun hlast => (nomatch hlast)⟩
          change (s.takeDhcpc.enable true).ref ≠ none
          rwa [enable, change_ref]
      | Pppoe =>
          obtain ⟨hown, href, -⟩ := takePpp_spec h.ppp
          exact ⟨h.dhcpc.stop, hown, fun hlast => (nomatch hlast), fun _ => href⟩
  | getIpMode =>
      refine ⟨h.dhcpc.lookup, h.ppp.lookup, fun hlast => ?_, fun hlast => ?_⟩
      · change (s.dhcpc.lookup s.devname).ref ≠ none
        rw [lookup_of_ne (h.dhcpc_ref hlast)]
        exact h.dhcpc_ref hlast
      · change (s.ppp.lookup s.devname).ref ≠ none
        rw [lookup_of_ne (h.ppp_ref hlast)]
        exact h.ppp_ref hlast
  | setDevname devname =>
      refine ⟨h.dhcpc.change fun _ _ => rfl, h.ppp.change fun _ _ => rfl, fun hlast => ?_,
        fun hlast => ?_⟩
      · change (s.dhcpc.rename devname).ref ≠ none
        rw [rename, change_ref]
        exact h.dhcpc_ref hlast
      · change (s.ppp.rename devname).ref ≠ none
        rw [rename, change_ref]
        exact h.ppp_ref hlast

end Calls

/-! ## Runs -/

/-- The run lemma: from the first call to the last, by induction over the calls with `Inv`
and the mode that is set. -/
theorem Inv.readsBack_iff {last : Option IpMode} {s : NetItem} (h : Inv last s)
    (calls : List Call) : ReadsBack last s calls ↔ Good last s ∧ CallsOk last s calls := by
  induction calls generalizing last s with
  | nil => exact (and_iff_left trivial).symm
  | cons c calls ih =>
      change Good last s ∧ OthersKept s (s.call c) ∧ _ ↔ Good last s ∧ CallOk last s c ∧ _
      refine and_congr_right fun hgood => ?_
      rw [ih (h.call c), ← h.call_iff hgood c]
      tauto

/-- The devnames that the item has at the calls. -/
def devnames (s : NetItem) : List Call → List Str
  | [] => []
  | c :: calls => s.devname :: (s.call c).devnames calls

/-- A client of an interface that the item never has is the same at the end. -/
theorem ReadsBack.others_kept {last : Option IpMode} {s : NetItem} {calls : List Call}
    (h : ReadsBack last s calls) {i : Nat} :
    (∀ o, s.dhcpc.obj i = some o → (∀ name ∈ s.devnames calls, o.devname ≠ some name) →
        (calls.foldl call s).dhcpc.obj i = some o) ∧
      ∀ o, s.ppp.obj i = some o → (∀ name ∈ s.devnames calls, o.devname ≠ some name) →
        (calls.foldl call s).ppp.obj i = some o := by
  induction calls generalizing last s with
  | nil => exact ⟨fun _ ho _ => ho, fun _ ho _ => ho⟩
  | cons c calls ih =>
      obtain ⟨-, ⟨hdhcpc, hppp⟩, hrest⟩ := h
      obtain ⟨ihdhcpc, ihppp⟩ := ih hrest
      constructor
      · intro o ho hnames
        obtain ⟨hne, hnames⟩ := List.forall_mem_cons.mp hnames
        exact ihdhcpc o (hdhcpc i o ho hne) hnames
      · intro o ho hnames
        obtain ⟨hne, hnames⟩ := List.forall_mem_cons.mp hnames
        exact ihppp o (hppp i o ho hne) hnames

theorem inv_fresh (s : NetItem) : Inv none s.fresh :=
  ⟨fun _ hi => (nomatch hi), fun _ hi => (nomatch hi), fun hlast => (nomatch hlast),
    fun hlast => (nomatch hlast)⟩

/-- A run of an item that was just made reads back what it sets, if its calls are
good ones, and only then. -/
theorem fresh_readsBack_iff (s : NetItem) (calls : List Call) :
    ReadsBack none s.fresh calls ↔
      ¬(s.fresh.dhcpc.isEnabled s.devname = true ∧ s.fresh.ppp.isEnabled s.devname = true) ∧
        CallsOk none s.fresh calls := by
  rw [(inv_fresh s).readsBack_iff]
  refine and_congr_left' ⟨fun h => h.one, fun h => ⟨fun _ hm => (nomatch hm), h⟩⟩

/-- An item for `eth0`, with a PPPoE client that is disabled. -/
def eth0Item : NetItem where
  netconfObj :=
    { devname := "eth0".toList, role := WAN, enabled := true, ip := none, netmask := none,
      autoip := false, hwaddr := false, aliasRef := 0 }
  ipMode := none
  dhcpc := { enabled := false, objs := [], ref := none }
  ppp :=
    { enabled := false,
      objs := [some { newPppObj "eth0".toList with enabled := false }],
      ref := none }
  dhcpdObj := none
  dhcpRelayClientObj := none
  masqObj := none
  dmzObj := none
  mgmtObj := none
  tcpmss := none
  route := none

/-- The client is taken and stays disabled. -/
theorem not_readsBack_pppoe : ¬ReadsBack none eth0Item.fresh [.setIpMode .Pppoe false] := by
  intro h
  have hmode := h.2.2.mode .Pppoe rfl
  exact absurd hmode (by decide)

end NetItem

end UbntSdk.Web
