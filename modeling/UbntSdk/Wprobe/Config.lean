/-
UbntSdk.Wprobe.Config — the configuration request of the wireless probe
(`package/wprobe/src/kernel/wprobe-core.c`): `wprobe_set_config` and
`wprobe_update_auto_measurement`.

The request is what the function reads of the netlink attributes. The
attributes are applied one after another to the interface; `goto done`
leaves the interface as the attributes before have made it. Each of these
steps has a definition of its own. The old filter is freed at the end; here
it is only no longer installed.
-/
import UbntSdk.Wprobe.Iface

namespace UbntSdk.Wprobe

open UbntSdk.Lib

def WPROBE_MIN_INTERVAL : UInt32 := 100

/-- The attributes of a configuration request. A filter is the memory with
the blob and its length. -/
structure ConfigRequest where
  interface : Option (List UInt8)
  mac : Option Addr
  flags : Option UInt32
  samplesMin : Option UInt32
  samplesMax : Option UInt32
  samplesScaleM : Option UInt32
  samplesScaleD : Option UInt32
  filter : Option (Memory × Nat)
  interval : Option UInt64

/-- `memset(val, 0, sizeof(struct wprobe_value) * n)`. -/
def clearVals (n : Nat) (val : Nat → Value) : Nat → Value := copyVals n (fun _ => .zero) val

/-- `flags & BIT(WPROBE_F_RESET)`: the flag is itself a mask, and `BIT` of it
is another bit. -/
def ConfigRequest.reset (req : ConfigRequest) : Bool :=
  req.flags.any fun flags => flags &&& (1 <<< WPROBE_F_RESET) ≠ 0

/-- The values of the interface and of all its links are set to 0. -/
def configReset (req : ConfigRequest) (dev : Iface) : Iface :=
  if req.reset then
    { dev with
      val := clearVals dev.globalItems.length dev.val
      links := dev.links.map fun l => { l with val := clearVals dev.linkItems.length l.val } }
  else dev

/-- Scaling is off, or the bounds are in order. -/
def samplesOk (scaleMin scaleMax : UInt32) : Bool :=
  (scaleMin = 0 && scaleMax = 0) || (scaleMin ≠ 0 && scaleMax ≠ 0 && scaleMin < scaleMax)

/-- The numbers of samples; one that is not in the request is that of the
interface. -/
def configSamples (req : ConfigRequest) (dev : Iface) : Option Iface :=
  if req.samplesMin.isSome || req.samplesMax.isSome then
    let scaleMin := req.samplesMin.getD dev.scaleMin
    let scaleMax := req.samplesMax.getD dev.scaleMax
    if samplesOk scaleMin scaleMax then some { dev with scaleMin, scaleMax } else none
  else some dev

/-- The factor of the scaling; only used when both parts are there. -/
def configScale (req : ConfigRequest) (dev : Iface) : Option Iface :=
  match req.samplesScaleM, req.samplesScaleD with
  | some scaleM, some scaleD =>
      if scaleD = 0 ∨ scaleD < scaleM then none else some { dev with scaleM, scaleD }
  | _, _ => some dev

/-- The filter is taken out, and what `wprobe_set_filter` makes of the blob
is put in; its error is not looked at. -/
def configFilter (k : Kernel) (req : ConfigRequest) (dev : Iface) : Iface :=
  match req.filter with
  | some (mem, len) =>
      let dev := { dev with activeFilter := none }
      if 0 < len then
        match setFilter k mem len with
        | .ok f => { dev with activeFilter := some f }
        | .error _ => dev
      else dev
  | none => dev

/-- `wprobe_update_auto_measurement`. -/
def updateAutoMeasurement (dev : Iface) (interval : UInt32) : Int × Iface :=
  if interval ≠ 0 ∧ interval < WPROBE_MIN_INTERVAL then (-EINVAL, dev)
  else
    let dev :=
      if interval = 0 ∧ dev.measureInterval ≠ 0 then { dev with measureTimer := false } else dev
    let dev := { dev with measureInterval := interval }
    if interval = 0 then (0, dev) else (0, { dev with measureTimer := true })

/-- The interval of the request is cut to 32 bits. -/
def configInterval (req : ConfigRequest) (dev : Iface) : Int × Iface :=
  match req.interval with
  | some interval => updateAutoMeasurement dev interval.toUInt32
  | none => (0, dev)

/-- `wprobe_set_config` for the interface that was found. -/
def setConfigDev (k : Kernel) (req : ConfigRequest) (dev : Iface) : Int × Iface :=
  if req.mac.isSome then (-EINVAL, dev)
  else
    let dev := configReset req dev
    match configSamples req dev with
    | none => (-EINVAL, dev)
    | some dev =>
        match configScale req dev with
        | none => (-EINVAL, dev)
        | some dev => configInterval req (configFilter k req dev)

/-- `wprobe_set_config`: the error code, and the interfaces. -/
def setConfig (k : Kernel) (req : ConfigRequest) (ifs : List Iface) : Int × List Iface :=
  match getDev ifs req.interface with
  | none => (-ENOENT, ifs)
  | some j =>
      match ifs[j]? with
      | none => (-ENOENT, ifs)
      | some dev =>
          let (err, dev) := setConfigDev k req dev
          (err, ifs.set j dev)

end UbntSdk.Wprobe
