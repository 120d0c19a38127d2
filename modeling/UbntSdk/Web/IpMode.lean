/-
UbntSdk.Web.IpMode — the IP mode of a network item
(`package/ubnt-web/src/ubnt.net.js`): `getIpMode`, `setIpMode` and
`setDevname`, with the sections `dhcpc` and `ppp` that they look into
(`ubnt.cfg.js`).

An item looks its DHCP client and its PPPoE client up when it first needs them,
and keeps them. `Clients` is one of the two sections with the client that the
item keeps, which is given by its place in `objs`: the calls add objects at the
end and remove none.

* `objs` may have holes, which are `none`. A property that an object does not
  have is `none` too.
* A section that is missing is made by `config.get`: it is disabled and empty.
* The objects of other sections that the item refers to, and renames along with
  itself, are given by their devname.
-/
import Mathlib.Data.List.Basic
import UbntSdk.Web.Mtu

namespace UbntSdk.Web

/-! ## The sections -/

/-- A `dhcpcObj` or a `pppObj`, with its own properties. -/
structure ClientObj (α : Type) where
  devname : Option Str
  enabled : Bool
  props : α
  deriving DecidableEq

structure DhcpcProps where
  fallback : Option Str
  fallback_netmask : Option Str
  deriving DecidableEq

structure PppProps where
  name : Option Str
  password : Option Str
  pppoe_service : Option Str
  mppe128 : Bool
  mtu : Option Primitive
  mru : Option Primitive
  deriving DecidableEq

/-- `dhcpc` with `dhcpcObj` of the item, or `ppp` with its `pppObj`. -/
structure Clients (α : Type) where
  enabled : Bool
  objs : List (Option (ClientObj α))
  ref : Option Nat
  deriving DecidableEq

namespace Clients

variable {α : Type}

/-- The object at a place. -/
def obj (t : Clients α) (i : Nat) : Option (ClientObj α) := t.objs[i]?.join

/-- `find({ devname: devname })[0]` or `findByDevname(devname)`. -/
def findByDevname (t : Clients α) (devname : Str) : Option Nat :=
  t.objs.findIdx? fun o => o.any fun o => o.devname = some devname

/-- `find({ })[0]`. -/
def first (t : Clients α) : Option Nat := t.objs.findIdx? (·.isSome)

/-- The object of the item is there and is enabled. -/
def objEnabled (t : Clients α) : Bool := t.ref.any fun i => (t.obj i).any (·.enabled)

/-- The object of the item is looked up, unless it is known. -/
def lookup (t : Clients α) (devname : Str) : Clients α :=
  if t.ref = none then { t with ref := t.findByDevname devname } else t

/-- The object of the item is changed, if there is one. -/
def change (t : Clients α) (f : ClientObj α → ClientObj α) : Clients α :=
  match t.ref with
  | none => t
  | some i => { t with objs := t.objs.modify i (Option.map f) }

def rename (t : Clients α) (devname : Str) : Clients α :=
  t.change fun o => { o with devname := some devname }

def enable (t : Clients α) (enabled : Bool) : Clients α := t.change fun o => { o with enabled }

/-- The object of the item is disabled, if it is there and is enabled. -/
def stop (t : Clients α) : Clients α := if t.objEnabled then t.enable false else t

/-- The section is disabled along with the object. -/
def stopSection (t : Clients α) : Clients α :=
  if t.objEnabled then { t.enable false with enabled := false } else t

/-- A new object becomes the one of the item. -/
def add (t : Clients α) (o : ClientObj α) : Clients α :=
  { t with objs := t.objs ++ [some o], ref := some t.objs.length }

end Clients

/-- `dhcpc.create(devname, '192.168.1.20', '255.255.255.0', true)`. -/
def newDhcpcObj (devname : Str) : ClientObj DhcpcProps where
  devname := some devname
  enabled := true
  props :=
    { fallback := some "192.168.1.20".toList,
      fallback_netmask := some "255.255.255.0".toList }

/-- `ppp.create(devname, "", "", "", false, 1492, 1492, true)`. -/
def newPppObj (devname : Str) : ClientObj PppProps where
  devname := some devname
  enabled := true
  props :=
    { name := some [], password := some [], pppoe_service := some [], mppe128 := false,
      mtu := some (.number 1492), mru := some (.number 1492) }

/-! ## The item -/

inductive IpMode where
  | Static
  | Dhcpc
  | Pppoe
  deriving DecidableEq

/-- The item and the sections of the configuration that it edits. -/
structure NetItem where
  netconfObj : NetconfObj
  ipMode : Option IpMode
  dhcpc : Clients DhcpcProps
  ppp : Clients PppProps
  dhcpdObj : Option Str
  dhcpRelayClientObj : Option Str
  masqObj : Option Str
  dmzObj : Option Str
  mgmtObj : Option Str
  /-- `iptables.sys.tcpmss` and `route.1`, and whether they are enabled. -/
  tcpmss : Option Bool
  route : Option Bool
  deriving DecidableEq

namespace NetItem

def devname (s : NetItem) : Str := s.netconfObj.devname

def getNatDevname (s : NetItem) : Str :=
  if s.ipMode = some .Pppoe then "ppp+".toList else s.devname

def updateNatDevname (s : NetItem) : NetItem :=
  { s with
    masqObj := s.masqObj.map fun _ => s.getNatDevname
    dmzObj := s.dmzObj.map fun _ => s.getNatDevname
    mgmtObj := s.mgmtObj.map fun _ => s.getNatDevname }

def setDevname (s : NetItem) (devname : Str) : NetItem :=
  updateNatDevname { s with
    netconfObj := { s.netconfObj with devname }
    dhcpc := s.dhcpc.rename devname
    ppp := s.ppp.rename devname
    dhcpdObj := s.dhcpdObj.map fun _ => devname
    dhcpRelayClientObj := s.dhcpRelayClientObj.map fun _ => devname }

/-- `getIpMode`, which returns what it makes `ipMode`. -/
def getIpMode (s : NetItem) : IpMode × NetItem :=
  let dhcpc := s.dhcpc.lookup s.devname
  let ppp := s.ppp.lookup s.devname
  let ipMode :=
    if dhcpc.enabled && dhcpc.objEnabled then .Dhcpc
    else if ppp.enabled && ppp.objEnabled then .Pppoe
    else .Static
  (ipMode, { s with ipMode := some ipMode, dhcpc, ppp })

def stopDhcpc (s : NetItem) : NetItem := { s with dhcpc := s.dhcpc.stop }

def stopPpp (s : NetItem) : NetItem := { s with ppp := s.ppp.stopSection }

def setStatic (s : NetItem) : NetItem :=
  { s.stopDhcpc.stopPpp with tcpmss := s.tcpmss.map fun _ => false }

/-- The DHCP client that is found or made for the item. -/
def takeDhcpc (s : NetItem) : Clients DhcpcProps :=
  let dhcpc := { s.dhcpc with enabled := true }
  if dhcpc.ref = none then
    match dhcpc.findByDevname s.devname with
    | some i => { dhcpc with ref := some i }.rename s.devname
    | none => dhcpc.add (newDhcpcObj s.devname)
  else dhcpc

def setDhcpc (s : NetItem) (handleDefaultRoute : Bool) : NetItem :=
  let s := { s with
    dhcpc := s.takeDhcpc.enable true
    netconfObj := { s.netconfObj with ip := some "0.0.0.0".toList } }
  { s.stopPpp with
    route := if handleDefaultRoute then some false else s.route
    tcpmss := s.tcpmss.map fun _ => false }

/-- The PPPoE client that is found or made for the item. The first that is found
is taken, whatever its interface, and it is not enabled. -/
def takePpp (s : NetItem) : Clients PppProps :=
  let ppp := { s.ppp with enabled := true }
  if ppp.ref = none then
    match ppp.first with
    | some i => { ppp with ref := some i }.rename s.devname
    | none => ppp.add (newPppObj s.devname)
  else ppp.enable true

def setPppoe (s : NetItem) (handleDefaultRoute : Bool) : NetItem :=
  let s := { s with
    ppp := s.takePpp
    tcpmss := some true
    netconfObj :=
      { s.netconfObj with ip := some "0.0.0.0".toList, netmask := some "255.255.255.255".toList } }
  { s.stopDhcpc with route := if handleDefaultRoute then some false else s.route }

def setIpMode (s : NetItem) (mode : IpMode) (handleDefaultRoute : Bool) : NetItem :=
  let s := { s with ipMode := some mode }
  updateNatDevname <|
    match mode with
    | .Static => s.setStatic
    | .Dhcpc => s.setDhcpc handleDefaultRoute
    | .Pppoe => s.setPppoe handleDefaultRoute

/-- A call on the item. -/
inductive Call where
  | setIpMode (mode : IpMode) (handleDefaultRoute : Bool)
  | getIpMode
  | setDevname (devname : Str)

def call (s : NetItem) : Call → NetItem
  | .setIpMode mode handleDefaultRoute => s.setIpMode mode handleDefaultRoute
  | .getIpMode => s.getIpMode.2
  | .setDevname devname => s.setDevname devname

/-- An item that was just made has looked nothing up. -/
def fresh (s : NetItem) : NetItem :=
  { s with
    ipMode := none
    dhcpc := { s.dhcpc with ref := none }
    ppp := { s.ppp with ref := none } }

end NetItem

end UbntSdk.Web
