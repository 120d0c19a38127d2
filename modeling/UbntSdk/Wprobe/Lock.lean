/-
UbntSdk.Wprobe.Lock — the handlers of the wireless probe with their steps on
`dev->lock` (`package/wprobe/src/kernel/wprobe-core.c`).

Each handler is one of the functions of the other modules again, with the
steps in their places: `spin_lock_irqsave` and `spin_unlock_irqrestore` are
`acquire` and `release`, `del_timer_sync` is `wait`, since the handler of the
timer takes the lock, and `synchronize_rcu` is `sleep`. `mod_timer` does not
wait. The driver's `sync_data` has no step on this lock.
-/
import UbntSdk.Lib.Locking
import UbntSdk.Wprobe.Config
import UbntSdk.Wprobe.Dump

namespace UbntSdk.Wprobe

open UbntSdk.Lib Locks

/-- `wprobe_sync_data`. -/
def syncDataL (dev : Iface) (l : Option Nat) (query : Bool) (sync : SyncData) (now : UInt64) :
    Locks Iface := do
  step .acquire
  let dev := syncData dev l query sync now
  step .release
  return dev

/-! ## wprobe_dump_info -/

/-- The first call of a dump, from the lookup of the link on. -/
def startInfoL (dev : Iface) (req : InfoRequest) (sync : SyncData) (now : UInt64) :
    Locks (Except Int (Iface × InfoArgs)) :=
  match requestLink dev req with
  | .error err => return .error err
  | .ok (l, vflags) => do
      let mut dev := dev
      if req.cmd = .getInfo then
        step .acquire
        dev ← syncDataL dev l true sync now
        dev := { dev with queryVal := copyVals (dev.items l).length (dev.vals l) dev.queryVal }
        step .release
      return .ok (dev, ⟨l, requestFlags req vflags, 0⟩)

/-- `wprobe_dump_info` for an interface that was found. -/
def dumpInfoL (dev : Iface) (req : InfoRequest) (sync : SyncData) (now : UInt64)
    (cb : Option InfoArgs) (room : Nat) :
    Locks (Except Int (Iface × Option (Page InfoRecord InfoArgs))) := do
  let started ←
    match cb with
    | none => startInfoL dev req sync now
    | some args => pure (checkLink dev args)
  return started.map fun (dev, args) =>
    let page := resume sendItem (infoRecords dev req.cmd args.vflags) args.i room
    (dev, page.map fun page => ⟨page.records, { args with i := page.next }, page.len⟩)

/-! ## wprobe_measure and wprobe_measure_timer -/

/-- `wprobe_measure` for an interface that was found. -/
def measureL (dev : Iface) (mac : Option Addr) (sync : SyncData) (now : UInt64) :
    Locks (Int × Iface) :=
  match mac with
  | none => do
      let dev ← syncDataL dev none false sync now
      return (0, dev)
  | some mac =>
      match findLink dev mac with
      | none => return (-ENOENT, dev)
      | some l => do
          let dev ← syncDataL dev (some l) false sync now
          return (0, dev)

def measureTimerL (dev : Iface) (sync : SyncData) (now : UInt64) : Locks Iface :=
  syncDataL { dev with measureTimer := true } none false sync now

/-! ## wprobe_set_config -/

/-- `wprobe_update_auto_measurement`. -/
def updateAutoMeasurementL (dev : Iface) (interval : UInt32) : Locks (Int × Iface) := do
  if interval ≠ 0 ∧ interval < WPROBE_MIN_INTERVAL then
    return (-EINVAL, dev)
  let mut dev := dev
  if interval = 0 ∧ dev.measureInterval ≠ 0 then
    step .wait
    dev := { dev with measureTimer := false }
  dev := { dev with measureInterval := interval }
  if interval = 0 then
    return (0, dev)
  return (0, { dev with measureTimer := true })

/-- The part behind the filter. -/
def configIntervalL (req : ConfigRequest) (dev : Iface) : Locks (Int × Iface) :=
  match req.interval with
  | some interval => updateAutoMeasurementL dev interval.toUInt32
  | none => return (0, dev)

/-- The part under the lock, and whether there is an old filter to be freed. -/
def setConfigDevL (k : Kernel) (req : ConfigRequest) (dev : Iface) : Locks ((Int × Iface) × Bool) :=
  if req.mac.isSome then return ((-EINVAL, dev), false)
  else
    let dev := configReset req dev
    match configSamples req dev with
    | none => return ((-EINVAL, dev), false)
    | some dev =>
        match configScale req dev with
        | none => return ((-EINVAL, dev), false)
        | some dev => do
            let filterFree := req.filter.isSome && dev.activeFilter.isSome
            let result ← configIntervalL req (configFilter k req dev)
            return (result, filterFree)

/-- `wprobe_set_config` for an interface that was found. -/
def setConfigL (k : Kernel) (req : ConfigRequest) (dev : Iface) : Locks (Int × Iface) := do
  step .acquire
  let (result, filterFree) ← setConfigDevL k req dev
  step .release
  if filterFree then
    step .sleep
  return result

/-! ## Calls -/

/-- A handler is called, with the interface that it looks up or is given. The
first call of a dump may find an attribute that is not well formed. -/
inductive Call where
  | startInfo (name : Option (List UInt8)) (parsed : Bool) (req : InfoRequest) (sync : SyncData)
      (now : UInt64) (room : Nat)
  | resumeInfo (dev : Nat) (req : InfoRequest) (args : InfoArgs) (room : Nat)
  | measure (name : Option (List UInt8)) (mac : Option Addr) (sync : SyncData) (now : UInt64)
  | config (req : ConfigRequest)
  | timer (dev : Nat) (sync : SyncData) (now : UInt64)

/-- The interface that a call works on. -/
def Call.dev (ifs : List Iface) : Call → Option Nat
  | .startInfo name parsed _ _ _ _ => if parsed then getDev ifs name else none
  | .resumeInfo dev _ _ _ => some dev
  | .measure name _ _ _ => getDev ifs name
  | .config req => getDev ifs req.interface
  | .timer dev _ _ => some dev

/-- What the handler does to the interface. -/
def Call.handle (k : Kernel) (dev : Iface) : Call → Locks Iface
  | .startInfo _ _ req sync now room => do
      let result ← dumpInfoL dev req sync now none room
      return match result with
        | .ok (dev, _) => dev
        | .error _ => dev
  | .resumeInfo _ req args room => do
      let result ← dumpInfoL dev req (fun val => (0, val)) 0 (some args) room
      return match result with
        | .ok (dev, _) => dev
        | .error _ => dev
  | .measure _ mac sync now => do
      let (_, dev) ← measureL dev mac sync now
      return dev
  | .config req => do
      let (_, dev) ← setConfigL k req dev
      return dev
  | .timer _ sync now => measureTimerL dev sync now

/-- A call, with the interfaces; without an interface nothing happens. -/
def Call.run (k : Kernel) (ifs : List Iface) (call : Call) : Locks (List Iface) :=
  match call.dev ifs with
  | none => return ifs
  | some j =>
      match ifs[j]? with
      | none => return ifs
      | some dev => do
          let dev ← call.handle k dev
          return ifs.set j dev

end UbntSdk.Wprobe
