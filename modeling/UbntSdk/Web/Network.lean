/-
UbntSdk.Web.Network — the network model behind the network page
(`package/ubnt-web/src/ubnt.net.js`), and the sections that it edits
(`ubnt.cfg.js`).

The `netconf` objects are shared: the list `netconf`, `net.wan`, `net.mlan`
and the items of `net.lan` refer to the same ones. A reference is a number and
`records` is what it refers to; `setWanIfc` and `setMlanIfc` exchange the alias
sections of such objects, which are references too. A VLAN and a bridge are
given by their place in their list, the objects of the other lists are used
by one list only.

* The sections `bridge` and `netconf` are there, as in all texts that the device
  comes with. The section `vlan` is not, until `addVlan` or another page makes it,
  and `addBridgePort` and `removeBridgePort` throw a `TypeError` where they look
  for the VLANs of a port without it. They have then made half of their changes:
  their result is the model as it is left, at the end or where they threw. The
  other functions throw before they have changed anything, and have the result
  `none` then.
* Events are left out: what the page does on one is again a call of these
  functions. So are the DHCP, PPP, NAT and other objects that an item renames
  or disables along with its interface; nothing here reads them.
* Names are sorted by their characters. The number of a bridge is exact.
-/
import Mathlib.Data.Char
import Mathlib.Data.List.Sort
import Mathlib.Logic.Function.Basic
import UbntSdk.Web.Config

namespace UbntSdk.Web

/-! ## The sections -/

/-- A section with a status and a list of objects. -/
structure Section (α : Type) where
  enabled : Bool
  objs : List α
  deriving DecidableEq

structure AliasObj where
  ip : Str
  netmask : Str
  comment : Str
  enabled : Bool
  deriving DecidableEq

/-- `netconfObj`; `aliasRef` refers to a list of aliases. -/
structure NetconfObj where
  devname : Str
  role : Str
  enabled : Bool
  ip : Option Str
  netmask : Option Str
  autoip : Bool
  hwaddr : Bool
  aliasRef : Nat
  deriving DecidableEq

structure PortObj where
  devname : Str
  status : Bool
  deriving DecidableEq

/-- `valid() && status == "enabled"`: a port without a name is not valid. -/
def PortObj.enabled (p : PortObj) : Bool := !p.devname.isEmpty && p.status

structure BridgeObj where
  devname : Str
  enabled : Bool
  stp : Bool
  ports : List PortObj
  deriving DecidableEq

structure VlanObj where
  devname : Str
  id : Str
  comment : Str
  enabled : Bool
  deriving DecidableEq

/-- `arpnatObj` and `eapObj`. -/
structure RuleObj where
  devname : Str
  enabled : Bool
  deriving DecidableEq

def VlanObj.getFullDevname (v : VlanObj) : Str :=
  if v.devname.isEmpty || v.id.isEmpty then [] else v.devname ++ '.' :: v.id

/-- The rule of a VLAN is a copy of it, and found by these two. -/
def VlanObj.same (v o : VlanObj) : Bool := o.devname = v.devname && o.id = v.id

/-- The first object with a property is changed. -/
def changeFirst {α : Type} (p : α → Bool) (f : α → α) : List α → List α
  | [] => []
  | a :: l => if p a then f a :: l else a :: changeFirst p f l

def BridgeObj.getPorts (b : BridgeObj) : List Str :=
  (b.ports.filter (·.enabled)).map (·.devname)

/-- `addPort`, with `none` where it returns `null`. -/
def BridgeObj.addPort (b : BridgeObj) (devname : Str) : Option BridgeObj :=
  match b.ports.find? (·.devname = devname) with
  | none => some { b with ports := b.ports ++ [⟨devname, true⟩] }
  | some p =>
      if p.enabled then none
      else some { b with
        ports := changeFirst (·.devname = devname) (fun p => { p with status := true }) b.ports }

def BridgeObj.removePort (b : BridgeObj) (devname : Str) : BridgeObj :=
  { b with ports := b.ports.eraseP (·.devname = devname) }

/-! ## The model -/

structure Net where
  isBridge : Bool
  interfaces : List Str
  freeIfc : List Str
  wan : Option Nat
  mlan : Nat
  lan : Str → Option Nat
  netconf : List Nat
  records : Nat → NetconfObj
  aliases : Nat → List AliasObj
  next : Nat
  bridges : List BridgeObj
  /-- `config.vlan`, if it is defined. -/
  vlan : Option (Section VlanObj)
  ebVlan : Section VlanObj
  arpnat : Section RuleObj
  eap : Section RuleObj
  /-- The two items have objects of their own, and a new object is neither. -/
  wan_ne : wan ≠ some mlan
  wan_lt : ∀ w ∈ wan, w < next
  mlan_lt : mlan < next

def MLAN : Str := ['m', 'l', 'a', 'n']
def WAN : Str := ['w', 'a', 'n']
def LAN : Str := ['l', 'a', 'n']
def BRIDGE_PORT : Str := "bridge_port".toList
def ATH : Str := ['a', 't', 'h']

/-- `indexOf(t) != -1`. -/
def Str.hasText (s t : Str) : Bool := s.tails.any (t.isPrefixOf ·)

/-- `Array.sort` of names. -/
def sortNames (l : List Str) : List Str := l.insertionSort (· ≤ ·)

namespace Net

/-! ### `config.netconf` -/

def findByDevname (s : Net) (devname : Str) : Option Nat :=
  s.netconf.find? fun r => (s.records r).devname = devname

/-- `config.netconf.find({ devname: devname, role: "" })`. -/
def findPlain (s : Net) (devname : Str) : List Nat :=
  s.netconf.filter fun r => (s.records r).devname = devname && (s.records r).role.isEmpty

def setRecord (s : Net) (r : Nat) (f : NetconfObj → NetconfObj) : Net :=
  { s with records := Function.update s.records r (f (s.records r)) }

@[simp] theorem setRecord_self (s : Net) (r : Nat) (f : NetconfObj → NetconfObj) :
    (s.setRecord r f).records r = f (s.records r) := Function.update_self r _ _

theorem setRecord_of_ne (s : Net) {r k : Nat} (f : NetconfObj → NetconfObj) (h : k ≠ r) :
    (s.setRecord r f).records k = s.records k := Function.update_of_ne h _ _

/-- `config.netconf.add(config.netconf.create(devname, ""))`. -/
def addRecord (s : Net) (devname : Str) : Net :=
  { s with
    records := Function.update s.records s.next
      { devname, role := [], enabled := true, ip := none, netmask := none, autoip := false,
        hwaddr := false, aliasRef := s.next }
    aliases := Function.update s.aliases s.next []
    netconf := s.netconf ++ [s.next]
    next := s.next + 1
    wan_lt := fun w hw => Nat.lt_succ_of_lt (s.wan_lt w hw)
    mlan_lt := Nat.lt_succ_of_lt s.mlan_lt }

theorem addRecord_of_ne (s : Net) (devname : Str) {k : Nat} (h : k ≠ s.next) :
    (s.addRecord devname).records k = s.records k := Function.update_of_ne h _ _

/-- `clear` of a `netconfObj`. -/
def clearRecord (s : Net) (r : Nat) : Net :=
  let s := { s with aliases := Function.update s.aliases (s.records r).aliasRef [] }
  s.setRecord r fun o =>
    { o with ip := some "0.0.0.0".toList, netmask := some "255.255.255.0".toList, autoip := false,
             hwaddr := false }

def clearIfc (s : Net) (devname : Str) : Net :=
  match s.findByDevname devname with
  | some r => s.clearRecord r
  | none => s

/-- `config.bridge.getPorts()`. -/
def getPorts (s : Net) : List Str := s.bridges.flatMap BridgeObj.getPorts

/-! ### `useIfc` and `unuseIfc` -/

def useIfc (s : Net) (devname : Str) (role : Option Str) : Net :=
  if devname ∈ s.freeIfc then
    let s :=
      match role, (s.findPlain devname).head? with
      | some role, some r => s.setRecord r fun o => { o with role := role }
      | _, _ => s
    { s with freeIfc := s.freeIfc.erase devname }
  else s

/-- The role is taken from all records of the interface but those of the WAN
and the management interface. -/
def unuseIfc (s : Net) (devname : Str) : Net :=
  { s with
    records := fun r =>
      let o := s.records r
      if r ∈ s.netconf ∧ o.devname = devname ∧ o.role ≠ MLAN ∧ o.role ≠ WAN then
        { o with role := [] }
      else o
    freeIfc := sortNames (s.freeIfc ++ [devname]) }

/-! ### Interfaces -/

def addIfc (s : Net) (devname : Str) : Net :=
  let s :=
    match s.findByDevname devname with
    | none => s.addRecord devname
    | some r => s.setRecord r fun o => { o with enabled := true }
  unuseIfc { s with interfaces := sortNames (s.interfaces ++ [devname]) } devname

def removeIfc (s : Net) (devname : Str) : Net :=
  match s.findByDevname devname with
  | none => s
  | some r =>
      let role := (s.records r).role
      let s :=
        if role = MLAN ∨ role = WAN then s.setRecord r fun o => { o with enabled := false }
        else { s with netconf := s.netconf.erase r }
      useIfc { s with interfaces := s.interfaces.erase devname } devname none

/-! ### VLANs -/

/-- The VLANs; there are none without a section. -/
def vlanObjs (s : Net) : List VlanObj := (s.vlan.map Section.objs).getD []

/-- The section is made if need be. -/
def addVlan (s : Net) (v : VlanObj) : Net :=
  let s :=
    if v.devname ∈ s.getPorts then { s with ebVlan := ⟨true, s.ebVlan.objs ++ [v]⟩ } else s
  addIfc { s with vlan := some ⟨true, s.vlanObjs ++ [v]⟩ } v.getFullDevname

/-- The rules of a VLAN are removed. -/
def removeRules (s : Net) (v : VlanObj) : Net :=
  let objs := s.ebVlan.objs.filter fun o => !v.same o
  { s with ebVlan := ⟨!objs.isEmpty, objs⟩ }

/-- `removeVlan` of the VLAN at this place. -/
def removeVlan (s : Net) (i : Nat) : Option Net := do
  let v ← s.vlanObjs[i]?
  let s := s.removeRules v
  return removeIfc
    { s with vlan := s.vlan.map fun vlan => ⟨vlan.enabled, vlan.objs.eraseIdx i⟩ } v.getFullDevname

/-! ### Bridges -/

/-- White space in front of a number. -/
def jsSpace (c : Char) : Bool := c.toNat ∈ [9, 10, 11, 12, 13, 32, 160, 0x2028, 0x2029, 0xfeff]

def digitValue (c : Char) : Option Nat :=
  if '0' ≤ c && c ≤ '9' then some (c.toNat - 48)
  else if 'a' ≤ c && c ≤ 'f' then some (c.toNat - 87)
  else if 'A' ≤ c && c ≤ 'F' then some (c.toNat - 55)
  else none

/-- The number in front of a text, if there is a digit. -/
def digits (base : Nat) (t : Str) : Option Nat :=
  let values := (t.map digitValue).takeWhile fun v => v.any (· < base)
  if values.isEmpty then none else some (values.foldl (fun n v => base * n + v.getD 0) 0)

def unsigned : Str → Option Nat
  | '0' :: 'x' :: t => digits 16 t
  | '0' :: 'X' :: t => digits 16 t
  | t => digits 10 t

/-- `parseInt` of a text, or `none` for `NaN` and for a number below 0. -/
def parseNo (text : Str) : Option Nat :=
  match text.dropWhile jsSpace with
  | '-' :: t => (unsigned t).filter (· = 0)
  | '+' :: t => unsigned t
  | t => unsigned t

/-- The name that `config.bridge.add` chooses. -/
def newBridgeName (s : Net) : Str :=
  let newNo := s.bridges.foldl (fun newNo b =>
    match parseNo (b.devname.drop 2) with
    | some no => if newNo ≤ no then no + 1 else newNo
    | none => newNo) 0
  ['b', 'r'] ++ Nat.toDigits 10 newNo

def addBridge (s : Net) : Net :=
  addIfc { s with bridges := s.bridges ++ [⟨s.newBridgeName, true, false, []⟩] } s.newBridgeName

/-- The object of an interface is enabled, or a new one is added. -/
def enableRule (rules : List RuleObj) (devname : Str) : List RuleObj :=
  if rules.any (·.devname = devname) then
    changeFirst (·.devname = devname) (fun o => { o with enabled := true }) rules
  else rules ++ [⟨devname, true⟩]

/-- The entries that come with a bridge port of the radio. -/
def addAthRules (s : Net) (devname : Str) : Net :=
  if devname.hasText ATH then
    let s := { s with arpnat := { s.arpnat with objs := enableRule s.arpnat.objs devname } }
    if '.' ∈ devname then s else { s with eap := ⟨true, enableRule s.eap.objs devname⟩ }
  else s

/-- The rules of the VLANs of a bridge port. -/
def addVlanRules (s : Net) (devname : Str) : Net :=
  if '.' ∈ devname then s
  else
    let vlans := s.vlanObjs.filter (·.devname = devname)
    { s with ebVlan := ⟨s.ebVlan.enabled || !vlans.isEmpty, s.ebVlan.objs ++ vlans⟩ }

/-- `config.vlan.find` is called for a port, and `config.vlan` is not defined. -/
def noVlanSection (s : Net) (devname : Str) : Bool := '.' ∉ devname && s.vlan.isNone

/-- `addBridgePort` for the bridge at this place. -/
def addBridgePort (s : Net) (i : Nat) (devname : Str) : Except Net Net :=
  match s.bridges[i]? with
  | none => .error s
  | some b =>
      match b.addPort devname with
      | none => .ok s
      | some b =>
          let s := clearIfc { s with bridges := s.bridges.set i b } devname
          let s := s.addAthRules devname
          if s.noVlanSection devname then .error s
          else .ok (useIfc (s.addVlanRules devname) devname (some BRIDGE_PORT))

/-- The entries that go with a bridge port of the radio. -/
def removeAthRules (s : Net) (devname : Str) : Net :=
  if devname.hasText ATH then
    let eap := s.eap.objs.eraseP (·.devname = devname)
    { s with
      arpnat := { s.arpnat with objs := s.arpnat.objs.eraseP (·.devname = devname) }
      eap := ⟨if s.eap.objs.any (·.devname = devname) then !eap.isEmpty else s.eap.enabled, eap⟩ }
  else s

/-- The rules that go with the VLANs of a bridge port. -/
def removeVlanRules (s : Net) (devname : Str) : Net :=
  if '.' ∈ devname then s
  else (s.vlanObjs.filter (·.devname = devname)).foldl removeRules s

/-- `removeBridgePort` for the bridge at this place. -/
def removeBridgePort (s : Net) (i : Nat) (devname : Str) : Except Net Net :=
  match s.bridges[i]? with
  | none => .error s
  | some b =>
      let s := s.removeAthRules devname
      if s.noVlanSection devname then .error s
      else
        let s := s.removeVlanRules devname
        .ok (unuseIfc { s with bridges := s.bridges.set i (b.removePort devname) } devname)

/-- `removeBridge` of the bridge at this place. -/
def removeBridge (s : Net) (i : Nat) : Except Net Net :=
  match s.bridges[i]? with
  | none => .error s
  | some b => do
      let s ← b.getPorts.foldlM (fun s port => s.removeBridgePort i port) s
      return removeIfc { s with bridges := s.bridges.eraseIdx i } b.devname

/-! ### LAN, WAN and management -/

/-- Nothing happens without a record of the interface. -/
def addLan (s : Net) (devname : Str) : Net :=
  match s.findByDevname devname with
  | none => s
  | some r => useIfc { s with lan := Function.update s.lan devname (some r) } devname (some LAN)

def removeLan (s : Net) (devname : Str) : Option Net := do
  let r ← s.lan devname
  let s := (s.setRecord r fun o => { o with role := [] }).clearRecord r
  return unuseIfc { s with lan := Function.update s.lan devname none } devname

/-- The record of an interface that the WAN or the management leaves is
enabled again, with the aliases it had. -/
def restore (s : Net) (plain : List Nat) (devname : Str) (aliasRef : Nat) : Net :=
  match plain.head? with
  | some p => s.setRecord p fun o => { o with enabled := true, aliasRef := aliasRef }
  | none =>
      let n := s.next
      (s.addRecord devname).setRecord n fun o => { o with aliasRef := aliasRef }

/-- The record of an interface that the WAN or the management `item` takes is
disabled, and its aliases are taken over. -/
def takeOver (s : Net) (plain : List Nat) (item : Nat) : Net :=
  match plain.head? with
  | some c =>
      let s := s.setRecord c fun o => { o with enabled := false }
      s.setRecord item fun o => { o with aliasRef := (s.records c).aliasRef }
  | none => s

def setWanIfc (s : Net) (devname : Str) : Option Net := do
  let w ← s.wan
  let prev := (s.records w).devname
  if prev = devname then return s
  else
    let prevPlain := s.findPlain prev
    let currPlain := s.findPlain devname
    let aliasRef := (s.records w).aliasRef
    let s := s.setRecord w fun o => { o with devname := devname }
    let s := s.takeOver currPlain w
    let s := s.restore prevPlain prev aliasRef
    return (s.unuseIfc prev).useIfc devname none

/-- The name of the WAN interface, where it is needed. -/
def nowEnabled (s : Net) (devname : Str) : Option Bool :=
  if s.isBridge then some true
  else s.wan.map fun w => devname ≠ (s.records w).devname

def setMlanIfc (s : Net) (devname : Str) : Option Net := do
  let now ← s.nowEnabled devname
  let prevEnabled := (s.records s.mlan).enabled
  let prev := (s.records s.mlan).devname
  if prevEnabled = now ∧ prev = devname then return s
  else
    let prevPlain := s.findPlain prev
    let currPlain := s.findPlain devname
    let aliasRef := (s.records s.mlan).aliasRef
    let s := s.setRecord s.mlan fun o => { o with enabled := now, devname := devname }
    let s := if prevEnabled ∧ prev ≠ devname then (s.restore prevPlain prev aliasRef).unuseIfc prev
      else s
    return if now then (s.takeOver currPlain s.mlan).useIfc devname none else s

end Net

/-! ## Operations -/

/-- The calls of the page. -/
inductive Op where
  | addVlan (v : VlanObj)
  | removeVlan (i : Nat)
  | addBridge
  | removeBridge (i : Nat)
  | addBridgePort (i : Nat) (devname : Str)
  | removeBridgePort (i : Nat) (devname : Str)
  | addLan (devname : Str)
  | removeLan (devname : Str)
  | setWanIfc (devname : Str)
  | setMlanIfc (devname : Str)
  deriving DecidableEq

/-- A function that throws before it has changed anything. -/
def Net.orThrow (s : Net) : Option Net → Except Net Net
  | none => .error s
  | some t => .ok t

def Net.call (s : Net) : Op → Except Net Net
  | .addVlan v => .ok (s.addVlan v)
  | .removeVlan i => s.orThrow (s.removeVlan i)
  | .addBridge => .ok s.addBridge
  | .removeBridge i => s.removeBridge i
  | .addBridgePort i devname => s.addBridgePort i devname
  | .removeBridgePort i devname => s.removeBridgePort i devname
  | .addLan devname => .ok (s.addLan devname)
  | .removeLan devname => s.orThrow (s.removeLan devname)
  | .setWanIfc devname => s.orThrow (s.setWanIfc devname)
  | .setMlanIfc devname => s.orThrow (s.setMlanIfc devname)

/-- The model behind a call: at its end, or where it threw. -/
def Net.left : Except Net Net → Net
  | .ok s => s
  | .error s => s

def Net.step (s : Net) (op : Op) : Net := Net.left (s.call op)

def Net.run (s : Net) (ops : List Op) : Net := ops.foldl Net.step s

end UbntSdk.Web
