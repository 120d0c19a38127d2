/-
UbntSdk.Web.Mtu — the MTUs of VLANs (`package/ubnt-web/src/ubnt.net.js`, at the
end of what `updateStatuses` does for bridges and VLANs).

An MTU is what a form or a configuration file gives: text, or a number. `<` of
JavaScript compares two texts as texts, and anything else as numbers.

* The entries of `netconf` are references to records. `records` is what they
  refer to, of which only the devname, the status and the MTU are read here.
* Text that reads as no number is no MTU, and neither is `NaN`.
-/
import Mathlib.Data.List.Lex
import Mathlib.Logic.Function.Basic
import UbntSdk.Lib.JsText
import UbntSdk.Web.Network

namespace UbntSdk.Web

open UbntSdk.Lib.Js

/-- What a property holds. -/
inductive Primitive where
  | text (t : Str)
  | number (n : Number)
  deriving DecidableEq

def Primitive.toNumber : Primitive → Number
  | text t => Lib.Js.toNumber t
  | number n => n

/-- `<`. -/
def Primitive.less : Primitive → Primitive → Bool
  | text t, text t' => t < t'
  | v, v' => Number.lt v.toNumber v'.toNumber

/-- A value that is a number or reads as one. -/
def Mtu := { v : Primitive // v.toNumber ≠ .nan }

namespace Mtu

instance : DecidableEq Mtu := inferInstanceAs (DecidableEq (Subtype _))

def less (a b : Mtu) : Bool := a.val.less b.val

/-- What an MTU is as a number. -/
def num (a : Mtu) : WithBot (WithTop ℚ) := a.val.toNumber.rank

end Mtu

/-- What is read of a `netconfObj` here. -/
structure MtuObj where
  devname : Str
  enabled : Bool
  mtu : Mtu
  deriving DecidableEq

/-- `config.netconf` and `config.vlan`. -/
structure MtuConf where
  netconf : List Nat
  records : Nat → MtuObj
  vlan : List VlanObj

namespace MtuConf

/-- `config.netconf.findByDevname(devname, true)`. -/
def findEnabled (c : MtuConf) (devname : Str) : Option Nat :=
  c.netconf.find? fun r => (c.records r).devname = devname && (c.records r).enabled

/-- The entries of the parent of a VLAN and of the VLAN, where both are found. -/
def entries (c : MtuConf) (v : VlanObj) : Option (Nat × Nat) :=
  match c.findEnabled v.devname, c.findEnabled v.getFullDevname with
  | some parentNetconf, some vlanNetconf => some (parentNetconf, vlanNetconf)
  | _, _ => none

def setMtu (c : MtuConf) (r : Nat) (mtu : Mtu) : MtuConf :=
  { c with records := Function.update c.records r { c.records r with mtu } }

def updateVlan (c : MtuConf) (v : VlanObj) : MtuConf :=
  match c.entries v with
  | some (parentNetconf, vlanNetconf) =>
      if (c.records parentNetconf).mtu.less (c.records vlanNetconf).mtu then
        c.setMtu vlanNetconf (c.records parentNetconf).mtu
      else c
  | none => c

/-- The loop over the VLANs, whether they are enabled or not. -/
def updateStatuses (c : MtuConf) : MtuConf := c.vlan.foldl updateVlan c

end MtuConf

end UbntSdk.Web
