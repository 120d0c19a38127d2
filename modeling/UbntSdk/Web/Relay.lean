/-
UbntSdk.Web.Relay — the DHCP server and the DHCP relay of a LAN
(`package/ubnt-web/src/ubnt.net.js`): `getDhcpServer`, `setDhcpServer`, and
what `removeNonExistingIfc` and `removeDuplicates` do to their sections when
the model is loaded.

The clients and the servers of the relay are two arrays, and the server of a
client is at the index that the client's `getIdx` returns. An object is found
by reference; an array may have holes, which are `none`.

* A call that ends with a `TypeError` keeps what it has changed by then.
* An item that was made for a LAN can be called after the LAN is removed or
  made anew, so the items are kept in a list.
* A property that an object does not have is `none`. The other properties of
  the objects are left out; nothing here reads them.
-/
import UbntSdk.Web.Network

namespace UbntSdk.Web

/-! ## The sections -/

/-- An object of `dhcpd`, `dhcprelay.client` or `dhcprelay.server`. Only
servers have an address, and `getIdx` is asked of clients only. -/
structure DhcpObj where
  devname : Option Str
  ip : Option Str
  enabled : Bool
  getIdx : Nat
  deriving DecidableEq

/-- `create` of these sections. -/
def DhcpObj.create (devname : Str) (enabled : Bool) : DhcpObj := ⟨some devname, none, enabled, 0⟩

/-- The array `objs` and the objects by reference. -/
structure Objs where
  objs : List (Option Nat)
  obj : Nat → DhcpObj
  next : Nat

namespace Objs

/-- `grep` with a test of the interface. -/
def grepDevname (t : Objs) (p : Option Str → Bool) : List Nat :=
  (t.objs.filterMap id).filter fun r => p (t.obj r).devname

/-- `enabled` with an argument, of the object if there is one. -/
def enable (t : Objs) (ref : Option Nat) (enabled : Bool) : Objs :=
  match ref with
  | none => t
  | some r => { t with obj := Function.update t.obj r { t.obj r with enabled := enabled } }

/-- A new object, which is the one at `t.next`. -/
def new (t : Objs) (o : DhcpObj) : Objs :=
  { t with obj := Function.update t.obj t.next o, next := t.next + 1 }

/-- `objs[i] = o`. -/
def put (t : Objs) (i r : Nat) : Objs :=
  { t with
    objs :=
      if i < t.objs.length then t.objs.set i (some r)
      else t.objs ++ List.replicate (i - t.objs.length) none ++ [some r] }

/-- `add` of a new object. -/
def add (t : Objs) (o : DhcpObj) : Objs :=
  { t.new { o with getIdx := t.objs.length } with objs := t.objs ++ [some t.next] }

end Objs

structure Dhcp where
  dhcpdEnabled : Bool
  relayEnabled : Bool
  dhcpd : Objs
  client : Objs
  server : Objs

/-! ## Loading -/

def PPP : Str := "ppp+".toList

/-- The loop over the sections in `removeNonExistingIfc`. It names `dhcpd` and
`dhcprelay.server`, and `dhcpcrelay.client`, which is no section. -/
def Dhcp.removeNonExistingIfc (d : Dhcp) (ifcs : List Str) : Dhcp :=
  let validIfc (devname : Option Str) : Bool := devname.any (· ∈ ifcs)
  { d with
    dhcpd := { d.dhcpd with objs := (d.dhcpd.grepDevname validIfc).map some }
    server := { d.server with objs := (d.server.grepDevname validIfc).map some } }

/-- The objects with an interface that was not found before. -/
def firstOfEach (obj : Nat → DhcpObj) : List (Option Str) → List Nat → List Nat
  | _, [] => []
  | found, r :: rs =>
      if (obj r).devname ∈ found then firstOfEach obj found rs
      else r :: firstOfEach obj (found ++ [(obj r).devname]) rs

/-- `removeDuplicates`. -/
def Dhcp.removeDuplicates (d : Dhcp) : Dhcp :=
  if 1 < d.dhcpd.objs.length then
    { d with
      dhcpd := { d.dhcpd with
        objs := (firstOfEach d.dhcpd.obj [] (d.dhcpd.objs.filterMap id)).map some } }
  else d

/-- An item of `net.lan`. The sections are properties of it once
`getDhcpServer` was called. -/
structure LanItem where
  netconfObj : Nat
  fetched : Bool
  dhcpdObj : Option Nat
  dhcpRelayClientObj : Option Nat
  dhcpRelayServerObj : Option Nat
  deriving DecidableEq

/-- `netitem`. -/
def netitem (netconfObj : Nat) : LanItem := ⟨netconfObj, false, none, none, none⟩

structure Relay extends Dhcp where
  net : Net
  items : List LanItem
  lan : Str → Option Nat

namespace Relay

/-- The interfaces that objects may have. -/
def validIfcs (net : Net) (ppp : Bool) : List Str := net.interfaces ++ if ppp then [PPP] else []

/-- The model of a configuration: `ppp` says whether PPP is enabled, and
`lans` are the `netconf` objects with the role of a LAN. -/
def load (net : Net) (lans : List Nat) (ppp : Bool) (d : Dhcp) : Relay where
  toDhcp := (d.removeNonExistingIfc (validIfcs net ppp)).removeDuplicates
  net := net
  items := lans.map netitem
  lan := lans.zipIdx.foldl
    (fun lan item => Function.update lan (net.records item.1).devname (some item.2)) fun _ => none

/-! ## Calls -/

inductive DhcpMode where
  | disabled | enabled | relay
  deriving DecidableEq

def setItem (s : Relay) (i : Nat) (item : LanItem) : Relay := { s with items := s.items.set i item }

def devname (s : Relay) (item : LanItem) : Str := (s.net.records item.netconfObj).devname

/-- `find({ devname: devname })[0]`, or what the item had. -/
def fetch (t : Objs) (devname : Str) (had : Option Nat) : Option Nat :=
  (t.grepDevname (· = some devname)).head?.or had

/-- `getDhcpServer` of an item. -/
def getDhcpServer (s : Relay) (i : Nat) (item : LanItem) : Relay × DhcpMode :=
  let item :=
    { item with
      fetched := true
      dhcpdObj := fetch s.dhcpd (s.devname item) item.dhcpdObj
      dhcpRelayClientObj := fetch s.client (s.devname item) item.dhcpRelayClientObj }
  if s.dhcpdEnabled && item.dhcpdObj.any fun r => (s.dhcpd.obj r).enabled then
    (s.setItem i item, .enabled)
  else if s.relayEnabled && item.dhcpRelayClientObj.any fun r => (s.client.obj r).enabled then
    let server := item.dhcpRelayClientObj.bind fun r => (s.server.objs[(s.client.obj r).getIdx]?).join
    (s.setItem i { item with dhcpRelayServerObj := server }, .relay)
  else (s.setItem i item, .disabled)

/-- The client and the server of an item are disabled. -/
def disableRelay (s : Relay) (item : LanItem) : Relay :=
  { s with
    client := s.client.enable item.dhcpRelayClientObj false
    server := s.server.enable item.dhcpRelayServerObj false }

/-- A client and its server are added for an item. -/
def addRelay (s : Relay) (i : Nat) (item : LanItem) : Relay :=
  let client := s.client.next
  let server := s.server.next
  let idx := s.client.objs.length
  setItem
    { s with
      client := s.client.add (.create (s.devname item) true)
      server := (s.server.new (.create [] true)).put idx server } i
    { item with dhcpRelayClientObj := some client, dhcpRelayServerObj := some server }

/-- `setDhcpServer` of an item. Without the sections, `dhcpd` and `dhcpRelay`
of the item are undefined; and its server may be when it has a client. -/
def setDhcpServer (s : Relay) (i : Nat) (item : LanItem) : DhcpMode → Relay
  | .disabled => disableRelay { s with dhcpd := s.dhcpd.enable item.dhcpdObj false } item
  | .enabled =>
      if ¬item.fetched then s
      else
        let s := disableRelay { s with dhcpdEnabled := true } item
        match item.dhcpdObj with
        | none =>
            setItem { s with dhcpd := s.dhcpd.add (.create (s.devname item) true) } i
              { item with dhcpdObj := some s.dhcpd.next }
        | some r => { s with dhcpd := s.dhcpd.enable (some r) true }
  | .relay =>
      let s := { s with dhcpd := s.dhcpd.enable item.dhcpdObj false }
      if ¬item.fetched then s
      else
        let s := { s with relayEnabled := true }
        match item.dhcpRelayClientObj with
        | none => s.addRelay i item
        | some r =>
            { s with
              client := s.client.enable (some r) true
              server := s.server.enable item.dhcpRelayServerObj true }

def addLan (s : Relay) (devname : Str) : Relay :=
  match s.net.findByDevname devname with
  | none => s
  | some r =>
      { s with
        net := s.net.addLan devname
        items := s.items ++ [netitem r]
        lan := Function.update s.lan devname (some s.items.length) }

def removeLan (s : Relay) (devname : Str) : Relay :=
  match (s.lan devname).bind fun i => s.items[i]?.map fun item => (i, item) with
  | none => s
  | some (i, item) =>
      let s := s.setDhcpServer i item .disabled
      { s with
        net := (s.net.removeLan devname).getD s.net
        lan := Function.update s.lan devname none }

/-- The calls; an item is given by its place in the list. -/
inductive Call where
  | addLan (devname : Str)
  | removeLan (devname : Str)
  | getDhcpServer (i : Nat)
  | setDhcpServer (i : Nat) (mode : DhcpMode)
  deriving DecidableEq

def step (s : Relay) : Call → Relay
  | .addLan devname => s.addLan devname
  | .removeLan devname => s.removeLan devname
  | .getDhcpServer i =>
      match s.items[i]? with
      | none => s
      | some item => (s.getDhcpServer i item).1
  | .setDhcpServer i mode =>
      match s.items[i]? with
      | none => s
      | some item => s.setDhcpServer i item mode

def run (s : Relay) (calls : List Call) : Relay := calls.foldl step s

end Relay

end UbntSdk.Web
