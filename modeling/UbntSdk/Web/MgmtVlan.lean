/-
UbntSdk.Web.MgmtVlan — the VLAN for the management of a bridge
(`package/ubnt-web/src/ubnt.net.js`): `getMgmtVlan` and `setMgmtVlan`, which
put the VLANs of all interfaces of the board into a bridge of their own.

* `phycount` is the number of wired interfaces, `g_board.board.phycount`.
* The id is text, and empty where it is not given.
* A call that ends with a `TypeError` has the result `none`, whatever it changed.
  A call with an id does so at once, if there is no section `vlan`.
-/
import UbntSdk.Lib.JsText
import UbntSdk.Web.Network

namespace UbntSdk.Web

/-! ## Names of VLANs -/

/-- `ifc.indexOf('.') != -1`. -/
def isVlan (ifc : Str) : Bool := '.' ∈ ifc

/-- `ifc.split('.')[0]`. -/
def getParent (ifc : Str) : Str := ifc.takeWhile (· ≠ '.')

/-- `ifc.split('.')[1]`. -/
def getId (ifc : Str) : Option Str :=
  match ifc.dropWhile (· ≠ '.') with
  | [] => none
  | _ :: rest => some (rest.takeWhile (· ≠ '.'))

/-- `valid` of a `vlanObj`. -/
def VlanObj.valid (v : VlanObj) : Bool :=
  let id := Lib.Js.parseInt v.id
  !(v.id.isEmpty || !v.id.all (·.isDigit) || id.lt 2 || Lib.Js.Number.lt 4094 id)

/-- `config.getInterfaces(['board'])`. -/
def boardInterfaces (phycount : Nat) : List Str :=
  (List.range phycount).map (fun i => ['e', 't', 'h'] ++ Nat.toDigits 10 i) ++
    [['a', 't', 'h', '0']]

def br0Name : Str := ['b', 'r', '0']
def br1Name : Str := ['b', 'r', '1']

/-- `vlan.create(devname, id, 'For Management', true)`. -/
def mgmtVlan (id devname : Str) : VlanObj := ⟨devname, id, "For Management".toList, true⟩

namespace Net

/-- `config.bridge.findByDevname(devname)`. -/
def findBridge (s : Net) (devname : Str) : Option Nat :=
  s.bridges.findIdx? fun b => b.devname = devname

/-- `config.vlan.findByFullDevname(vlanDevname)`. -/
def findByFullDevname (s : Net) (vlanDevname : Str) : Option Nat :=
  s.vlanObjs.findIdx? fun v => v.devname = getParent vlanDevname && some v.id = getId vlanDevname

def getMgmtVlan (s : Net) (phycount : Nat) : Option Str := do
  let b ← s.bridges.find? fun b => b.devname = br1Name
  let _ ← s.vlan
  let port ← b.getPorts.head?
  if b.getPorts.length = (boardInterfaces phycount).length ∧ isVlan port then
    if b.getPorts.tail.all fun p => getId p = getId port then getId port else none
  else none

/-- The bridge `br1` is removed, along with the VLANs that are its ports. -/
def dropMgmtBridge (s : Net) : Option Net :=
  match s.findBridge br1Name with
  | none => some s
  | some i => do
      let b ← s.bridges[i]?
      let s ← s.setMlanIfc br0Name
      let s ← (s.removeBridge i).toOption
      b.getPorts.foldlM (fun s port => do s.removeVlan (← s.findByFullDevname port)) s

/-- A VLAN of the interface becomes a port of the bridge at this place. -/
def addMgmtPort (id : Str) (i : Nat) (s : Net) (port : Str) : Option Net :=
  ((s.addVlan (mgmtVlan id port)).addBridgePort i (mgmtVlan id port).getFullDevname).toOption

/-- A new bridge has a VLAN of every interface of the board. -/
def addMgmtBridge (s : Net) (phycount : Nat) (id : Str) : Option Net :=
  (boardInterfaces phycount).foldlM (addMgmtPort id s.bridges.length) s.addBridge

def setMgmtVlan (s : Net) (phycount : Nat) (id : Str) : Option Net :=
  if !id.isEmpty && s.vlan.isNone then none
  else if !id.isEmpty && !(VlanObj.mk "eth0".toList id [] false).valid then some s
  else do
    let s ← s.dropMgmtBridge
    let s ← if id.isEmpty then some s else s.addMgmtBridge phycount id
    s.setMlanIfc (if id.isEmpty then br0Name else br1Name)

end Net

end UbntSdk.Web
