/-
UbntSdk.Wprobe.LockTheorems — which calls keep to the rules of `dev->lock`.

The handlers with their steps do what the handlers do (`dumpInfoL_result`,
`setConfigL_result`). Two of them break the rules: the first call of a
`WPROBE_CMD_GET_INFO` dump takes the lock and then calls `wprobe_sync_data`,
which takes it again, and a configuration request that turns the measurement
off stops the timer under the lock. `locks_disciplined_iff` says that these
are all.
-/
import UbntSdk.Wprobe.ConfigTheorems
import UbntSdk.Wprobe.Lock

namespace UbntSdk.Wprobe

open UbntSdk.Lib Locks

/-! ## The handlers do what they do without the steps -/

theorem startInfoL_result (dev : Iface) (req : InfoRequest) (sync : SyncData) (now : UInt64) :
    (startInfoL dev req sync now).result = startInfo dev req sync now := by
  unfold startInfoL startInfo
  cases requestLink dev req with
  | error err => rfl
  | ok found =>
      obtain ⟨l, vflags⟩ := found
      dsimp only
      split <;> rfl

theorem dumpInfoL_result (dev : Iface) (req : InfoRequest) (sync : SyncData) (now : UInt64)
    (cb : Option InfoArgs) (room : Nat) :
    (dumpInfoL dev req sync now cb room).result = dumpInfo dev req sync now cb room := by
  unfold dumpInfoL dumpInfo
  cases cb with
  | none =>
      simp only [bind_result, pure_result, startInfoL_result]
  | some args => rfl

theorem updateAutoMeasurementL_result (dev : Iface) (interval : UInt32) :
    (updateAutoMeasurementL dev interval).result = updateAutoMeasurement dev interval := by
  unfold updateAutoMeasurementL updateAutoMeasurement
  by_cases hbad : interval ≠ 0 ∧ interval < WPROBE_MIN_INTERVAL
  · simp only [if_pos hbad, pure_result]
  · by_cases hstop : interval = 0 ∧ dev.measureInterval ≠ 0
    · simp only [if_neg hbad, if_pos hstop]
      by_cases hzero : interval = 0 <;> simp [hzero]
    · simp only [if_neg hbad, if_neg hstop]
      by_cases hzero : interval = 0 <;> simp [hzero]

theorem setConfigDevL_result (k : Kernel) (req : ConfigRequest) (dev : Iface) :
    (setConfigDevL k req dev).result.1 = setConfigDev k req dev := by
  have hinterval : ∀ dev : Iface, (configIntervalL req dev).result = configInterval req dev := by
    intro dev
    unfold configIntervalL configInterval
    cases req.interval with
    | none => rfl
    | some interval => exact updateAutoMeasurementL_result dev interval.toUInt32
  unfold setConfigDevL setConfigDev
  split
  · rfl
  · dsimp only
    cases configSamples req (configReset req dev) with
    | none => rfl
    | some dev =>
        dsimp only
        cases configScale req dev with
        | none => rfl
        | some dev => exact hinterval _

theorem setConfigL_result (k : Kernel) (req : ConfigRequest) (dev : Iface) :
    (setConfigL k req dev).result = setConfigDev k req dev := by
  rw [← setConfigDevL_result]
  unfold setConfigL
  simp only [bind_result]
  split <;> rfl

/-! ## Steps -/

/-- The first call of a dump finds what it looks for. -/
def Found (req : InfoRequest) (dev : Iface) : Prop :=
  req.cmd = .getInfo ∧ ∀ mac ∈ req.mac, findLink dev mac ≠ none

theorem startInfoL_steps (dev : Iface) (req : InfoRequest) (sync : SyncData) (now : UInt64) :
    (Found req dev ∧
        (startInfoL dev req sync now).steps = [.acquire, .acquire, .release, .release]) ∨
      ¬Found req dev ∧ (startInfoL dev req sync now).steps = [] := by
  unfold startInfoL requestLink Found
  cases hcmd : req.cmd with
  | getList =>
      right
      simp
  | getInfo =>
      cases hmac : req.mac with
      | none =>
          left
          simp [syncDataL]
      | some mac =>
          cases hlink : findLink dev mac with
          | none =>
              right
              simp [hlink]
          | some l =>
              left
              simp [hlink, syncDataL]

/-- The request stops the timer. -/
def StopsTimer (req : ConfigRequest) (dev : Iface) : Prop :=
  req.mac = none ∧ ¬BadSamples req dev ∧ ¬BadScale req ∧
    (∃ i ∈ req.interval, i.toUInt32 = 0) ∧ dev.measureInterval ≠ 0

theorem updateAutoMeasurementL_steps (dev : Iface) (interval : UInt32) :
    (updateAutoMeasurementL dev interval).steps =
      if interval = 0 ∧ dev.measureInterval ≠ 0 then [.wait] else [] := by
  unfold updateAutoMeasurementL
  by_cases hbad : interval ≠ 0 ∧ interval < WPROBE_MIN_INTERVAL
  · simp [hbad.1, hbad.2]
  · by_cases hstop : interval = 0 ∧ dev.measureInterval ≠ 0
    · simp [hstop.1, hstop.2]
    · simp only [if_neg hbad, if_neg hstop]
      by_cases hzero : interval = 0 <;> simp [hzero]

/-- The part under the lock, up to the interval. -/
theorem setConfigDevL_steps (k : Kernel) (req : ConfigRequest) (dev : Iface) :
    (StopsTimer req dev ∧ (setConfigDevL k req dev).steps = [.wait]) ∨
      ¬StopsTimer req dev ∧ (setConfigDevL k req dev).steps = [] := by
  obtain ⟨val, links, hreset, _⟩ := configReset_spec req dev
  unfold setConfigDevL StopsTimer
  cases hmac : req.mac with
  | some mac =>
      right
      simp
  | none =>
      rw [hreset]
      by_cases hs : BadSamples req dev
      · right
        simp [configSamples_bad { dev with val, links } hs, hs]
      · by_cases hm : BadScale req
        · right
          simp [configSamples_good { dev with val, links } hs, configScale_bad hm, hm]
        · simp only [configSamples_good { dev with val, links } hs, configScale_good hm,
            configFilter_eq, configIntervalL, hs, hm]
          cases hinterval : req.interval with
          | none =>
              right
              simp
          | some interval =>
              by_cases hstop : interval.toUInt32 = 0 ∧ dev.measureInterval ≠ 0
              · left
                simp [updateAutoMeasurementL_steps, hstop.1, hstop.2]
              · right
                rw [not_and, not_not] at hstop
                simpa [updateAutoMeasurementL_steps] using hstop

/-- A configuration request releases the lock on every path. -/
theorem setConfigL_disciplined_iff (k : Kernel) (req : ConfigRequest) (dev : Iface) :
    Disciplined (setConfigL k req dev).steps ↔ ¬StopsTimer req dev := by
  have hsteps : (setConfigL k req dev).steps =
      [.acquire] ++ (setConfigDevL k req dev).steps ++ [.release] ++
        if (setConfigDevL k req dev).result.2 then [.sleep] else [] := by
    unfold setConfigL
    simp only [bind_steps, step_steps, List.append_assoc]
    congr 3
    split <;> rfl
  rw [hsteps]
  rcases setConfigDevL_steps k req dev with ⟨hstops, heq⟩ | ⟨hkeeps, heq⟩
  · rw [heq]
    refine iff_of_false ?_ (not_not_intro hstops)
    split <;> decide
  · rw [heq]
    refine iff_of_true ?_ hkeeps
    split <;> decide

theorem syncDataL_disciplined (dev : Iface) (l : Option Nat) (query : Bool) (sync : SyncData)
    (now : UInt64) : Disciplined (syncDataL dev l query sync now).steps := rfl

theorem measureL_disciplined (dev : Iface) (mac : Option Addr) (sync : SyncData) (now : UInt64) :
    Disciplined (measureL dev mac sync now).steps := by
  unfold measureL
  cases mac with
  | none => rfl
  | some mac =>
      dsimp only
      cases findLink dev mac <;> rfl

theorem dumpInfoL_disciplined_iff (dev : Iface) (req : InfoRequest) (sync : SyncData) (now : UInt64)
    (room : Nat) : Disciplined (dumpInfoL dev req sync now none room).steps ↔ ¬Found req dev := by
  have hsteps : (dumpInfoL dev req sync now none room).steps = (startInfoL dev req sync now).steps := by
    unfold dumpInfoL
    simp only [bind_steps, pure_steps, List.append_nil]
  rw [hsteps]
  rcases startInfoL_steps dev req sync now with ⟨hfound, heq⟩ | ⟨hnone, heq⟩
  · rw [heq]
    exact iff_of_false (by decide) (not_not_intro hfound)
  · rw [heq]
    exact iff_of_true (by decide) hnone

/-! ## Runs -/

/-- The call takes the lock once, if at all, and does not stop the timer. -/
def Call.Safe (dev : Iface) : Call → Prop
  | .startInfo _ _ req _ _ _ => ¬Found req dev
  | .config req => ¬StopsTimer req dev
  | .resumeInfo _ _ _ _ | .measure _ _ _ _ | .timer _ _ _ => True

theorem handle_disciplined_iff (k : Kernel) (dev : Iface) (call : Call) :
    Disciplined (call.handle k dev).steps ↔ call.Safe dev := by
  cases call with
  | startInfo name parsed req sync now room =>
      rw [Call.Safe, ← dumpInfoL_disciplined_iff dev req sync now room, Call.handle, bind_steps]
      simp only [pure_steps, List.append_nil]
  | resumeInfo j req args room => exact iff_of_true rfl trivial
  | measure name mac sync now =>
      refine iff_of_true ?_ trivial
      have hmeasure := measureL_disciplined dev mac sync now
      rw [Call.handle, bind_steps]
      simpa only [pure_steps, List.append_nil] using hmeasure
  | config req =>
      rw [Call.Safe, ← setConfigL_disciplined_iff k, Call.handle, bind_steps]
      simp only [pure_steps, List.append_nil]
  | timer j sync now => exact iff_of_true rfl trivial

/-- The call is safe for the interface that it finds. -/
def Call.SafeIn (ifs : List Iface) (call : Call) : Prop :=
  ∀ j dev, call.dev ifs = some j → ifs[j]? = some dev → call.Safe dev

theorem run_disciplined_iff (k : Kernel) (ifs : List Iface) (call : Call) :
    Disciplined (call.run k ifs).steps ↔ call.SafeIn ifs := by
  unfold Call.run Call.SafeIn
  cases hdev : call.dev ifs with
  | none => exact iff_of_true rfl fun j dev hj => by cases hj
  | some j =>
      dsimp only
      cases hget : ifs[j]? with
      | none =>
          refine iff_of_true rfl fun i dev hi hdev => ?_
          cases hi
          rw [hget] at hdev
          cases hdev
      | some dev =>
          simp only [bind_steps, pure_steps, List.append_nil, handle_disciplined_iff]
          constructor
          · intro hsafe i other hi hother
            cases hi
            rw [hget] at hother
            cases hother
            exact hsafe
          · exact fun h => h j dev rfl hget

/-- The steps of each call of a run. -/
def traces (k : Kernel) : List Iface → List Call → List (List LockStep)
  | _, [] => []
  | ifs, call :: calls => (call.run k ifs).steps :: traces k (call.run k ifs).result calls

/-- Each call of a run is safe in the state that it finds. -/
def SafeRun (k : Kernel) : List Iface → List Call → Prop
  | _, [] => True
  | ifs, call :: calls => call.SafeIn ifs ∧ SafeRun k (call.run k ifs).result calls

/-- A run keeps to the rules of the lock if its calls are safe. -/
theorem locks_disciplined_iff (k : Kernel) (ifs : List Iface) (calls : List Call) :
    (∀ steps ∈ traces k ifs calls, Disciplined steps) ↔ SafeRun k ifs calls := by
  induction calls generalizing ifs with
  | nil => simp [traces, SafeRun]
  | cons call calls ih =>
      rw [traces, List.forall_mem_cons, run_disciplined_iff, ih, SafeRun]

/-- A request for the values of the interface, and one that turns the
measurement off. -/
def getInfo : Call := .startInfo (some [0x61]) true ⟨.getInfo, none, none⟩ (fun val => (0, val)) 0 4096
def turnOff : Call := .config { noConfig with interval := some 0 }

/-- The first call waits for the lock that it holds, the second one for a timer
whose handler may wait for the lock. -/
theorem locks_fail :
    traces trusting [{ filtered with measureInterval := 100 }] [getInfo] =
      [[.acquire, .acquire, .release, .release]] ∧
    traces trusting [{ filtered with measureInterval := 100 }] [turnOff] =
      [[.acquire, .wait, .release]] ∧
    ¬Disciplined [.acquire, .acquire, .release, .release] ∧
    ¬Disciplined [.acquire, .wait, .release] := by
  refine ⟨by decide +kernel, by decide +kernel, by decide, by decide⟩

end UbntSdk.Wprobe
