/-
UbntSdk.Wprobe.Iface — interfaces, links and their statistics in the wireless
probe (`package/wprobe/src/kernel/wprobe-core.c`, `linux/wprobe.h`).

An array of values is a function from the index; only the entries below the
number of items are used. A value keeps what the driver last measured and
the sums over all measurements; the union of a value is read as a number or
as a string, whichever the type of the item says.

The driver's `sync_data` is a parameter of each call, and so is the time.
-/
import UbntSdk.Wprobe.Filter
import Mathlib.Data.Fintype.Pi
import Mathlib.Data.UInt

namespace UbntSdk.Wprobe

open UbntSdk.Lib

/-- `enum wprobe_attr`. -/
inductive Attr where
  | unspec | interface | mac | flags
  | id | name | type | duration
  | valString | valS8 | valS16 | valS32 | valS64 | valU8 | valU16 | valU32 | valU64
  | valSum | valSumSq | valSamples | valScaleTime
  | interval | samplesMin | samplesMax | samplesScaleM | samplesScaleD | filter
  | filterGroup | rxcount | txcount
  deriving DecidableEq

/-! ## Items and values -/

def WPROBE_F_KEEPSTAT : UInt32 := 0x1
def WPROBE_F_RESET : UInt32 := 0x2

/-- `struct wprobe_item`. -/
structure Item where
  name : List UInt8
  type : Attr
  flags : UInt32
  deriving DecidableEq

/-- `struct wprobe_value`. -/
structure Value where
  pending : Bool
  num : UInt64
  str : Option (List UInt8)
  s : Int64
  ss : Int64
  n : UInt32
  first : UInt64
  last : UInt64
  scaleTimestamp : UInt64
  deriving DecidableEq

/-- All bytes 0. -/
def Value.zero : Value := ⟨false, 0, none, 0, 0, 0, 0, 0, 0⟩

/-- `WPROBE_SET` in a block that `WPROBE_FILL_BEGIN` opened at `msecs`, which is
what `jiffies_to_msecs` returns: the union gets the value. A value of another
type ends the block. -/
def wprobeSet (item : Item) (ty : Attr) (num : UInt64) (str : Option (List UInt8))
    (msecs : UInt32) (v : Value) : Value :=
  if item.type ≠ ty then v
  else
    let v := { v with pending := true, num := num, str := str }
    let v := if v.first = 0 then { v with first := msecs.toUInt64 } else v
    { v with first := msecs.toUInt64 }

/-- A hardware address. -/
abbrev Addr := Fin 6 → UInt8

/-- `struct wprobe_link`. -/
structure Link where
  addr : Addr
  flags : UInt32
  val : Nat → Value

/-- `struct wprobe_iface`. -/
structure Iface where
  name : List UInt8
  addr : Option Addr
  linkItems : List Item
  globalItems : List Item
  links : List Link
  val : Nat → Value
  queryVal : Nat → Value
  activeFilter : Option Filter
  measureInterval : UInt32
  /-- The timer of the next measurement is pending. -/
  measureTimer : Bool
  scaleMin : UInt32
  scaleMax : UInt32
  scaleM : UInt32
  scaleD : UInt32

/-- `wprobe_find_link`: the index of the link. -/
def findLink (dev : Iface) (mac : Addr) : Option Nat := dev.links.findIdx? (·.addr = mac)

/-- `wprobe_get_dev`: the index of the interface; no name finds none. -/
def getDev (ifs : List Iface) (name : Option (List UInt8)) : Option Nat :=
  name.bind fun name => ifs.findIdx? (·.name = name)

/-! ## Statistics -/

/-- The measured number as `s64`; none for the types that have no average. -/
def sample (ty : Attr) (v : Value) : Option Int64 :=
  match ty with
  | .valS8 => some v.num.toUInt8.toInt8.toInt64
  | .valS16 => some v.num.toUInt16.toInt16.toInt64
  | .valS32 => some v.num.toUInt32.toInt32.toInt64
  | .valS64 => some v.num.toInt64
  | .valU8 => some v.num.toUInt8.toUInt64.toInt64
  | .valU16 => some v.num.toUInt16.toUInt64.toInt64
  | .valU32 => some v.num.toUInt32.toUInt64.toInt64
  | .valU64 => some v.num.toInt64
  | _ => none

/-- The body of the loop of `wprobe_update_stats`. -/
def updateValue (ty : Attr) (v : Value) : Value :=
  if v.pending then
    let v := { v with n := v.n + 1 }
    match sample ty v with
    | some x => { v with s := v.s + x, ss := v.ss + x * x, pending := false }
    | none => v
  else v

/-- An entry asks for the values to be scaled down. -/
def wantsScale (dev : Iface) (item : Item) (v : Value) : Bool :=
  v.pending && item.flags &&& WPROBE_F_KEEPSTAT ≠ 0 && 0 < dev.scaleMax && dev.scaleMax < v.n + 1

/-- The body of the loop of `wprobe_scale_stats`. -/
def scaleValue (dev : Iface) (now : UInt64) (item : Item) (v : Value) : Value :=
  if item.flags &&& WPROBE_F_KEEPSTAT = 0 ∨ v.n ≤ dev.scaleMin then v
  else
    { v with
      s := v.s * dev.scaleM.toUInt64.toInt64 / dev.scaleD.toInt32.toInt64
      ss := v.ss * dev.scaleM.toUInt64.toInt64 / dev.scaleD.toInt32.toInt64
      n := v.n * dev.scaleM / dev.scaleD
      scaleTimestamp := now }

/-- A loop over the items, with the entry of each. -/
def forItems (items : List Item) (f : Item → Value → Value) (val : Nat → Value) : Nat → Value :=
  fun i => (items[i]?).elim (val i) fun item => f item (val i)

/-- `wprobe_update_stats`, with `wprobe_scale_stats`. -/
def updateStats (dev : Iface) (now : UInt64) (items : List Item) (val : Nat → Value) : Nat → Value :=
  let scale := items.zipIdx.any fun (item, i) => wantsScale dev item (val i)
  let val := forItems items (fun item => updateValue item.type) val
  if scale then forItems items (scaleValue dev now) val else val

/-! ## Taking data from the driver -/

/-- `sync_data`: the error code, and what it leaves in the values. -/
abbrev SyncData := (Nat → Value) → Int × (Nat → Value)

/-- The items and the values of a link, or those of the interface. -/
def Iface.items (dev : Iface) (l : Option Nat) : List Item :=
  if l.isSome then dev.linkItems else dev.globalItems

def Iface.vals (dev : Iface) (l : Option Nat) : Nat → Value :=
  match l with
  | some k => (dev.links[k]?).elim (fun _ => .zero) (·.val)
  | none => dev.val

def Iface.setVals (dev : Iface) (l : Option Nat) (val : Nat → Value) : Iface :=
  match l with
  | some k => { dev with links := dev.links.modify k fun link => { link with val } }
  | none => { dev with val }

/-- `memcpy` of `n` values. -/
def copyVals (n : Nat) (src dst : Nat → Value) : Nat → Value := fun i => if i < n then src i else dst i

/-- `wprobe_sync_data`. An error of the driver is not handed on. -/
def syncData (dev : Iface) (l : Option Nat) (query : Bool) (sync : SyncData) (now : UInt64) : Iface :=
  let n := (dev.items l).length
  let (err, val) := sync (dev.vals l)
  if err ≠ 0 then dev.setVals l val
  else
    let dev := if query then { dev with queryVal := copyVals n val dev.queryVal } else dev
    dev.setVals l (updateStats dev now (dev.items l) val)

end UbntSdk.Wprobe
