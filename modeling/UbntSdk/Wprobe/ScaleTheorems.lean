/-
UbntSdk.Wprobe.ScaleTheorems — the scaling of the statistics over whole runs.

A run is any order of configuration requests, links that come and go, and
updates of the statistics. The bounds and the factor stay as the request
checks them (`SettingsOk`), whether the requests are accepted or not. The
arithmetic of `wprobe_scale_stats` is narrower than the check: the number of
samples is multiplied in 32 bits and `div_s64` takes the divisor as `s32`,
while any `u32` passes. A run scales as it should exactly when each entry it
scales is `Safe`.
-/
import UbntSdk.Wprobe.ConfigTheorems

namespace UbntSdk.Wprobe

open UbntSdk.Lib

/-! ## The arithmetic of a scaled sum -/

/-- A number that `s64` holds. -/
def InS64 (x : Int) : Prop := -2 ^ 63 ≤ x ∧ x < 2 ^ 63

/-- `val.s *= m; val.s = div_s64(val.s, d)`. -/
def scaleSum (m d : UInt32) (s : Int64) : Int64 := s * m.toUInt64.toInt64 / d.toInt32.toInt64

theorem toInt_factor (m : UInt32) : m.toUInt64.toInt64.toInt = m.toNat := by
  have hm := m.toNat_lt
  have hval : m.toUInt64.toInt64.toBitVec.toNat = m.toNat := UInt32.toNat_toUInt64 m
  rw [Int64.toInt, BitVec.toInt, hval, if_pos (by omega)]

/-- The divisor is read as signed. -/
theorem toInt_divisor (d : UInt32) :
    d.toInt32.toInt64.toInt =
      if d.toNat < 2 ^ 31 then (d.toNat : Int) else -(2 ^ 32 - d.toNat : ℕ) := by
  have hd := d.toNat_lt
  have hval : d.toInt32.toBitVec.toNat = d.toNat := rfl
  rw [Int32.toInt_toInt64, Int32.toInt, BitVec.toInt, hval]
  split <;> split <;> omega

theorem bmod_inS64 {x : Int} (h : InS64 x) : x.bmod (2 ^ 64) = x := by
  obtain ⟨hlo, hhi⟩ := h
  exact Int.bmod_eq_of_le (by omega) (by omega)

theorem toInt_scaleSum {m d : UInt32} {s : Int64} (h : InS64 (s.toInt * m.toNat)) :
    (scaleSum m d s).toInt =
      ((s.toInt * m.toNat).tdiv d.toInt32.toInt64.toInt).bmod (2 ^ 64) := by
  rw [scaleSum, Int64.toInt_div, Int64.toInt_mul, toInt_factor, bmod_inS64 h]

/-- A quotient is no longer than what was divided. -/
theorem inS64_tdiv {x : Int} (h : InS64 x) (d : Nat) : InS64 (x.tdiv d) := by
  obtain ⟨hlo, hhi⟩ := h
  obtain ⟨n, rfl | rfl⟩ := x.eq_nat_or_neg
  · have hle := Nat.div_le_self n d
    rw [← Int.ofNat_tdiv]
    generalize n / d = q at hle ⊢
    exact ⟨by omega, by omega⟩
  · have hle := Nat.div_le_self n d
    rw [Int.neg_tdiv, ← Int.ofNat_tdiv]
    generalize n / d = q at hle ⊢
    exact ⟨by omega, by omega⟩

/-- Division by `-e` in 64 bits is division by `d` only where both give 0:
elsewhere the sign is wrong. -/
theorem bmod_tdiv_neg_iff {x : Int} (h : InS64 x) {e d : Nat} (he : 0 < e) (hed : e ≤ d)
    (hd : 1 < d) : (x.tdiv (-(e : Int))).bmod (2 ^ 64) = x.tdiv d ↔ x.natAbs < e := by
  obtain ⟨hlo, hhi⟩ := h
  rw [Int.tdiv_neg]
  obtain ⟨n, rfl | rfl⟩ := x.eq_nat_or_neg
  · have hle := Nat.div_le_self n e
    have hzero : n / e = 0 ↔ n < e := Nat.div_eq_zero_iff_lt he
    have hord : n / d ≤ n / e := Nat.div_le_div_left hed he
    rw [← Int.ofNat_tdiv, ← Int.ofNat_tdiv, Int.natAbs_natCast, ← hzero]
    generalize n / e = q at hle hord ⊢
    generalize n / d = r at hord ⊢
    rw [bmod_inS64 ⟨by omega, by omega⟩]
    omega
  · have hle := Nat.div_le_self n e
    have hzero : n / e = 0 ↔ n < e := Nat.div_eq_zero_iff_lt he
    have hord : n / d ≤ n / e := Nat.div_le_div_left hed he
    have hhalf : n / d ≤ n / 2 := Nat.div_le_div_left hd (by omega)
    rw [Int.neg_tdiv, Int.neg_tdiv, neg_neg, ← Int.ofNat_tdiv, ← Int.ofNat_tdiv, Int.natAbs_neg,
      Int.natAbs_natCast, ← hzero]
    generalize n / e = q at hle hord ⊢
    generalize n / d = r at hord hhalf ⊢
    rcases Nat.lt_or_ge q (2 ^ 63) with hq | hq
    · rw [bmod_inS64 ⟨by omega, by omega⟩]
      omega
    · -- The least number by -1 wraps around to itself.
      obtain rfl : q = 2 ^ 63 := by omega
      have hwrap : ((2 ^ 63 : ℕ) : Int).bmod (2 ^ 64) = -2 ^ 63 := by decide
      rw [hwrap]
      omega

/-- A sum that fits is divided as it should exactly when the divisor is not
negative, or the quotient is 0 anyway. -/
theorem scaleSum_right_iff {m d : UInt32} {s : Int64} (h : InS64 (s.toInt * m.toNat)) :
    (scaleSum m d s).toInt = (s.toInt * m.toNat).tdiv d.toNat ↔
      d.toNat < 2 ^ 31 ∨ (s.toInt * m.toNat).natAbs < 2 ^ 32 - d.toNat := by
  have hd := d.toNat_lt
  rw [toInt_scaleSum h, toInt_divisor]
  by_cases hpos : d.toNat < 2 ^ 31
  · rw [if_pos hpos, bmod_inS64 (inS64_tdiv h d.toNat)]
    simp only [hpos, true_or]
  · rw [if_neg hpos, bmod_tdiv_neg_iff h (by omega) (by omega) (by omega)]
    simp only [hpos, false_or]

/-- The number of samples, when the product fits. -/
theorem toNat_scaled {n m d : UInt32} (h : n.toNat * m.toNat < 2 ^ 32) :
    (n * m / d).toNat = n.toNat * m.toNat / d.toNat := by
  rw [UInt32.toNat_div, UInt32.toNat_mul, Nat.mod_eq_of_lt h]

/-- The number of samples does not grow, whatever it wraps to. -/
theorem scaled_le (n m d : UInt32) (hmd : m ≤ d) : n * m / d ≤ n := by
  rw [UInt32.le_iff_toNat_le] at hmd ⊢
  rw [UInt32.toNat_div, UInt32.toNat_mul]
  calc n.toNat * m.toNat % 2 ^ 32 / d.toNat
      ≤ n.toNat * m.toNat / d.toNat := Nat.div_le_div_right (Nat.mod_le _ _)
    _ ≤ n.toNat * d.toNat / d.toNat := Nat.div_le_div_right (Nat.mul_le_mul_left _ hmd)
    _ ≤ n.toNat := Nat.div_le_of_le_mul (le_of_eq (Nat.mul_comm _ _))

/-! ## Runs -/

/-- `wprobe_add_iface`: the defaults, and all values 0. -/
def addIface (name : List UInt8) (addr : Option Addr) (linkItems globalItems : List Item) : Iface where
  name
  addr
  linkItems
  globalItems
  links := []
  val := fun _ => .zero
  queryVal := fun _ => .zero
  activeFilter := none
  measureInterval := 0
  measureTimer := false
  scaleMin := 20
  scaleMax := (1 : UInt32) <<< 31
  scaleM := 1
  scaleD := 10

/-- What happens to an interface: a configuration request, a link that comes
or goes, data taken from the driver, and the exported `wprobe_update_stats`. -/
inductive Event where
  | config (req : ConfigRequest)
  | addLink (addr : Addr) (flags : UInt32)
  | removeLink (j : Nat)
  | sync (l : Option Nat) (query : Bool) (driver : SyncData) (now : UInt64)
  | stats (l : Option Nat) (now : UInt64)

def Event.apply (k : Kernel) (dev : Iface) : Event → Iface
  | .config req => (setConfigDev k req dev).2
  | .addLink addr flags => { dev with links := dev.links ++ [⟨addr, flags, fun _ => .zero⟩] }
  | .removeLink j => { dev with links := dev.links.eraseIdx j }
  | .sync l query driver now => syncData dev l query driver now
  | .stats l now => dev.setVals l (updateStats dev now (dev.items l) (dev.vals l))

/-- The values that `wprobe_update_stats` is called with, if it is, and the
time. A link is one of the interface. -/
def Event.update (dev : Iface) : Event → Option (Option Nat × (Nat → Value) × UInt64)
  | .sync l _ driver now =>
      if (driver (dev.vals l)).1 = 0 ∧ l.all (· < dev.links.length) then
        some (l, (driver (dev.vals l)).2, now)
      else none
  | .stats l now => if l.all (· < dev.links.length) then some (l, dev.vals l, now) else none
  | _ => none

/-- A property of each step of a run. -/
def Along (k : Kernel) (P : Iface → Event → Prop) : Iface → List Event → Prop
  | _, [] => True
  | dev, e :: es => P dev e ∧ Along k P (e.apply k dev) es

/-- Scaling is off, or the bounds are in order; the factor is at most 1. -/
def SettingsOk (dev : Iface) : Prop :=
  ((dev.scaleMin = 0 ∧ dev.scaleMax = 0) ∨ (0 < dev.scaleMin ∧ dev.scaleMin < dev.scaleMax)) ∧
    dev.scaleD ≠ 0 ∧ dev.scaleM ≤ dev.scaleD

/-- Entry `i` is scaled: it keeps statistics, it has enough samples, and some
entry has too many. -/
def Scales (dev : Iface) (items : List Item) (val : Nat → Value) (i : Nat) (item : Item) : Prop :=
  items[i]? = some item ∧ item.flags &&& WPROBE_F_KEEPSTAT ≠ 0 ∧
    dev.scaleMin < (updateValue item.type (val i)).n ∧
    ∃ j other, items[j]? = some other ∧ wantsScale dev other (val j) = true

/-- A sum is multiplied without overflow and divided. -/
def SumRight (dev : Iface) (s s' : Int64) : Prop :=
  InS64 (s.toInt * dev.scaleM.toNat) ∧
    s'.toInt = (s.toInt * dev.scaleM.toNat).tdiv dev.scaleD.toNat

/-- `v'` is `v` scaled as it should be. -/
structure ScaledRight (dev : Iface) (v v' : Value) : Prop where
  divisor : dev.scaleD ≠ 0
  product : v.n.toNat * dev.scaleM.toNat < 2 ^ 32
  samples : v'.n.toNat = v.n.toNat * dev.scaleM.toNat / dev.scaleD.toNat
  shrinks : v'.n ≤ v.n
  sum : SumRight dev v.s v'.s
  sumSq : SumRight dev v.ss v'.ss

/-- The settings are in order before and after the step, and every entry that
the step scales is scaled as it should be. -/
def StepRight (k : Kernel) (dev : Iface) (e : Event) : Prop :=
  SettingsOk dev ∧ SettingsOk (e.apply k dev) ∧
    ∀ l val now, e.update dev = some (l, val, now) →
      ∀ i item, Scales dev (dev.items l) val i item →
        ScaledRight dev (updateValue item.type (val i)) ((e.apply k dev).vals l i)

/-- A sum that the arithmetic has room for: the product fits in 64 bits, and
a divisor that `s32` does not hold is not reached. -/
def SafeSum (dev : Iface) (s : Int64) : Prop :=
  InS64 (s.toInt * dev.scaleM.toNat) ∧
    (dev.scaleD.toNat < 2 ^ 31 ∨
      (s.toInt * dev.scaleM.toNat).natAbs < 2 ^ 32 - dev.scaleD.toNat)

/-- An entry that the arithmetic has room for. -/
def Safe (dev : Iface) (v : Value) : Prop :=
  v.n.toNat * dev.scaleM.toNat < 2 ^ 32 ∧ SafeSum dev v.s ∧ SafeSum dev v.ss

/-- Every entry that the step scales is safe. -/
def StepSafe (dev : Iface) (e : Event) : Prop :=
  ∀ l val now, e.update dev = some (l, val, now) →
    ∀ i item, Scales dev (dev.items l) val i item → Safe dev (updateValue item.type (val i))

/-! ## The settings -/

theorem settingsOk_addIface (name : List UInt8) (addr : Option Addr)
    (linkItems globalItems : List Item) :
    SettingsOk (addIface name addr linkItems globalItems) := by
  simp only [SettingsOk, addIface]
  decide

theorem samplesOk_iff (scaleMin scaleMax : UInt32) :
    samplesOk scaleMin scaleMax = true ↔
      (scaleMin = 0 ∧ scaleMax = 0) ∨ (0 < scaleMin ∧ scaleMin < scaleMax) := by
  simp only [samplesOk, Bool.or_eq_true, Bool.and_eq_true, decide_eq_true_eq, ne_eq,
    UInt32.lt_iff_toNat_lt, ← UInt32.toNat_inj]
  simp only [UInt32.reduceToNat]
  omega

/-- The bounds that a request leaves when they are not rejected. -/
theorem samplesOk_of_good {req : ConfigRequest} {dev : Iface} (h : SettingsOk dev)
    (hs : ¬BadSamples req dev) :
    samplesOk (req.samplesMin.getD dev.scaleMin) (req.samplesMax.getD dev.scaleMax) = true := by
  by_cases hsome : req.samplesMin.isSome ∨ req.samplesMax.isSome
  · exact Bool.of_not_eq_false fun hok => hs ⟨hsome, hok⟩
  · have hnone : req.samplesMin = none ∧ req.samplesMax = none := by simpa using hsome
    rw [hnone.1, hnone.2]
    exact (samplesOk_iff _ _).mpr h.1

/-- The factor that a request leaves when it is not rejected. -/
theorem scaleOf_ok {req : ConfigRequest} {dev : Iface} (h : SettingsOk dev) (hm : ¬BadScale req) :
    (scaleOf req dev).2 ≠ 0 ∧ (scaleOf req dev).1 ≤ (scaleOf req dev).2 := by
  unfold scaleOf
  split
  · rename_i m d hsm hsd
    constructor
    · intro hd
      exact hm ⟨m, hsm, d, hsd, .inl hd⟩
    · exact UInt32.not_lt.mp fun hlt => hm ⟨m, hsm, d, hsd, .inr hlt⟩
  · exact h.2

/-- The last step of a request writes the interval and the timer. -/
theorem configInterval_spec (req : ConfigRequest) (dev : Iface) :
    ∃ measureInterval measureTimer,
      (configInterval req dev).2 = { dev with measureInterval, measureTimer } := by
  unfold configInterval updateAutoMeasurement
  split
  · split
    · exact ⟨_, _, rfl⟩
    · dsimp only
      split <;> split <;> exact ⟨_, _, rfl⟩
  · exact ⟨_, _, rfl⟩

/-- The bounds and the factor. -/
def Iface.settings (dev : Iface) : UInt32 × UInt32 × UInt32 × UInt32 :=
  (dev.scaleMin, dev.scaleMax, dev.scaleM, dev.scaleD)

theorem settings_setVals (dev : Iface) (l : Option Nat) (val : Nat → Value) :
    (dev.setVals l val).settings = dev.settings := by
  cases l with
  | none => rfl
  | some j => rfl

/-- Data taken from the driver goes to the values and to those of the query. -/
theorem syncData_spec (dev : Iface) (l : Option Nat) (query : Bool) (driver : SyncData)
    (now : UInt64) :
    ∃ queryVal val, syncData dev l query driver now = ({ dev with queryVal } : Iface).setVals l val ∧
      ((driver (dev.vals l)).1 = 0 →
        val = updateStats dev now (dev.items l) (driver (dev.vals l)).2) := by
  unfold syncData
  by_cases herr : (driver (dev.vals l)).1 = 0
  · cases query with
    | false => exact ⟨_, _, if_neg (not_not.mpr herr), fun _ => rfl⟩
    | true => exact ⟨_, _, if_neg (not_not.mpr herr), fun _ => rfl⟩
  · exact ⟨dev.queryVal, _, if_pos herr, fun h => absurd h herr⟩

/-- What a step does to the settings: nothing, or it is a request with good
bounds, and the factor stays or is a good one too. -/
theorem settings_cases (k : Kernel) (dev : Iface) (e : Event) :
    (e.apply k dev).settings = dev.settings ∨
      ∃ req m d, e = .config req ∧ ¬BadSamples req dev ∧
        (e.apply k dev).settings =
          (req.samplesMin.getD dev.scaleMin, req.samplesMax.getD dev.scaleMax, m, d) ∧
        ((m, d) = (dev.scaleM, dev.scaleD) ∨ ¬BadScale req ∧ (m, d) = scaleOf req dev) := by
  cases e with
  | addLink addr flags => exact .inl rfl
  | removeLink j => exact .inl rfl
  | stats l now => exact .inl (settings_setVals dev l _)
  | sync l query driver now =>
      obtain ⟨queryVal, val, hsync, -⟩ := syncData_spec dev l query driver now
      rw [Event.apply, hsync]
      exact .inl (settings_setVals { dev with queryVal } l val)
  | config req =>
      cases hmac : req.mac with
      | some mac => exact .inl (by simp [Event.apply, setConfigDev, hmac])
      | none =>
          obtain ⟨val, links, hr, -⟩ := configReset_spec req dev
          by_cases hs : BadSamples req dev
          · rw [Event.apply, setConfigDev_badSamples k hmac hs, hr]
            exact .inl rfl
          right
          by_cases hm : BadScale req
          · rw [Event.apply, setConfigDev_badScale k hmac hs hm, hr]
            exact ⟨req, _, _, rfl, hs, rfl, .inl rfl⟩
          · obtain ⟨interval, timer, hi⟩ := configInterval_spec req { configReset req dev with
              scaleMin := req.samplesMin.getD dev.scaleMin
              scaleMax := req.samplesMax.getD dev.scaleMax
              scaleM := (scaleOf req dev).1
              scaleD := (scaleOf req dev).2
              activeFilter := req.filter.elim dev.activeFilter (filterOf k) }
            rw [Event.apply, setConfigDev_applied k hmac hs hm, hi]
            exact ⟨req, _, _, rfl, hs, rfl, .inr ⟨hm, rfl⟩⟩

theorem SettingsOk.congr {dev dev' : Iface} (h : SettingsOk dev)
    (hset : dev'.settings = dev.settings) : SettingsOk dev' := by
  simp only [Iface.settings, Prod.mk.injEq] at hset
  obtain ⟨hmin, hmax, hm, hd⟩ := hset
  rw [SettingsOk, hmin, hmax, hm, hd]
  exact h

/-- Every step keeps the settings in order, a request accepted or not. -/
theorem settingsOk_apply (k : Kernel) {dev : Iface} (h : SettingsOk dev) (e : Event) :
    SettingsOk (e.apply k dev) := by
  rcases settings_cases k dev e with hsame | ⟨req, m, d, rfl, hs, hset, hfactor⟩
  · exact h.congr hsame
  · simp only [Iface.settings, Prod.mk.injEq] at hset
    obtain ⟨hmin, hmax, hm, hd⟩ := hset
    have hsamples := (samplesOk_iff _ _).mp (samplesOk_of_good h hs)
    rw [SettingsOk, hmin, hmax, hm, hd]
    refine ⟨hsamples, ?_⟩
    rcases hfactor with hkeep | ⟨hgood, hof⟩
    · obtain ⟨rfl, rfl⟩ := Prod.mk.inj hkeep
      exact h.2
    · have hok := scaleOf_ok h hgood
      rw [← hof] at hok
      exact hok

/-! ## A scaling step -/

theorem scaleValue_eq {dev : Iface} {item : Item} {v : Value} (now : UInt64)
    (hkeep : item.flags &&& WPROBE_F_KEEPSTAT ≠ 0) (hn : dev.scaleMin < v.n) :
    scaleValue dev now item v =
      { v with
        s := scaleSum dev.scaleM dev.scaleD v.s
        ss := scaleSum dev.scaleM dev.scaleD v.ss
        n := v.n * dev.scaleM / dev.scaleD
        scaleTimestamp := now } := by
  rw [scaleValue, if_neg]
  · rfl
  · rintro (h | h)
    · exact hkeep h
    · exact absurd h (UInt32.not_le.mpr hn)

/-- An entry is scaled as it should be exactly when it is safe. -/
theorem scaledRight_iff {dev : Iface} (h : SettingsOk dev) {item : Item} {v : Value} (now : UInt64)
    (hkeep : item.flags &&& WPROBE_F_KEEPSTAT ≠ 0) (hn : dev.scaleMin < v.n) :
    ScaledRight dev v (scaleValue dev now item v) ↔ Safe dev v := by
  rw [scaleValue_eq now hkeep hn]
  constructor
  · intro hr
    obtain ⟨hs, hs'⟩ := hr.sum
    obtain ⟨hss, hss'⟩ := hr.sumSq
    exact ⟨hr.product, ⟨hs, (scaleSum_right_iff hs).mp hs'⟩, ⟨hss, (scaleSum_right_iff hss).mp hss'⟩⟩
  · intro hsafe
    obtain ⟨hp, ⟨hs, hs'⟩, hss, hss'⟩ := hsafe
    exact ⟨h.2.1, hp, toNat_scaled hp, scaled_le _ _ _ h.2.2,
      ⟨hs, (scaleSum_right_iff hs).mpr hs'⟩, ⟨hss, (scaleSum_right_iff hss).mpr hss'⟩⟩

/-- An entry that is scaled is first updated. -/
theorem updateStats_scales {dev : Iface} {items : List Item} {val : Nat → Value} {i : Nat}
    {item : Item} (now : UInt64) (h : Scales dev items val i item) :
    updateStats dev now items val i = scaleValue dev now item (updateValue item.type (val i)) := by
  obtain ⟨hi, -, -, j, other, hj, hwants⟩ := h
  rw [updateStats, if_pos]
  · simp [forItems, hi]
  · rw [List.any_eq_true]
    exact ⟨(other, j), List.mem_zipIdx_iff_getElem?.mpr hj, hwants⟩

theorem vals_setVals (dev : Iface) {l : Option Nat} (h : l.all (· < dev.links.length) = true)
    (val : Nat → Value) : (dev.setVals l val).vals l = val := by
  cases l with
  | none => rfl
  | some j =>
      have hj : j < dev.links.length := by simpa using h
      simp [Iface.setVals, Iface.vals, hj]

/-- What an update leaves in the values. -/
theorem vals_apply (k : Kernel) {dev : Iface} {e : Event} {l : Option Nat} {val : Nat → Value}
    {now : UInt64} (h : e.update dev = some (l, val, now)) :
    (e.apply k dev).vals l = updateStats dev now (dev.items l) val := by
  cases e with
  | config req => simp [Event.update] at h
  | addLink addr flags => simp [Event.update] at h
  | removeLink j => simp [Event.update] at h
  | stats l' now' =>
      simp only [Event.update, Option.ite_none_right_eq_some, Option.some.injEq, Prod.mk.injEq] at h
      obtain ⟨hl, rfl, rfl, rfl⟩ := h
      exact vals_setVals dev hl _
  | sync l' query driver now' =>
      simp only [Event.update, Option.ite_none_right_eq_some, Option.some.injEq, Prod.mk.injEq] at h
      obtain ⟨⟨herr, hl⟩, rfl, rfl, rfl⟩ := h
      obtain ⟨queryVal, val, hsync, hval⟩ := syncData_spec dev l' query driver now'
      rw [Event.apply, hsync, ← hval herr]
      exact vals_setVals { dev with queryVal } hl val

theorem stepRight_iff (k : Kernel) {dev : Iface} (h : SettingsOk dev) (e : Event) :
    StepRight k dev e ↔ StepSafe dev e := by
  have hright : ∀ l val now, e.update dev = some (l, val, now) →
      ∀ i item, Scales dev (dev.items l) val i item →
        (ScaledRight dev (updateValue item.type (val i)) ((e.apply k dev).vals l i) ↔
          Safe dev (updateValue item.type (val i))) := by
    intro l val now hup i item hsc
    rw [vals_apply k hup, updateStats_scales now hsc]
    exact scaledRight_iff h now hsc.2.1 hsc.2.2.1
  constructor
  · intro hr l val now hup i item hsc
    exact (hright l val now hup i item hsc).mp (hr.2.2 l val now hup i item hsc)
  · intro hsafe
    refine ⟨h, settingsOk_apply k h e, ?_⟩
    intro l val now hup i item hsc
    exact (hright l val now hup i item hsc).mpr (hsafe l val now hup i item hsc)

theorem along_right_iff (k : Kernel) {dev : Iface} (h : SettingsOk dev) (es : List Event) :
    Along k (StepRight k) dev es ↔ Along k StepSafe dev es := by
  induction es generalizing dev with
  | nil => rfl
  | cons e es ih => rw [Along, Along, stepRight_iff k h e, ih (settingsOk_apply k h e)]

/-- From the registration of an interface on, whatever is configured and
measured: all is scaled as it should be exactly when each entry that is
scaled is safe. -/
theorem scaling_right_iff (k : Kernel) (name : List UInt8) (addr : Option Addr)
    (linkItems globalItems : List Item) (es : List Event) :
    Along k (StepRight k) (addIface name addr linkItems globalItems) es ↔
      Along k StepSafe (addIface name addr linkItems globalItems) es :=
  along_right_iff k (settingsOk_addIface name addr linkItems globalItems) es

/-! ## The default factor -/

theorem safe_of_unit {dev : Iface} (hm : dev.scaleM = 1) (hd : dev.scaleD.toNat < 2 ^ 31)
    (v : Value) : Safe dev v := by
  have hsum : ∀ s : Int64, SafeSum dev s := by
    intro s
    have hlo := s.le_toInt
    have hhi := s.toInt_lt
    have hone : s.toInt * dev.scaleM.toNat = s.toInt := by simp [hm]
    exact ⟨by rw [hone]; exact ⟨hlo, hhi⟩, .inl hd⟩
  refine ⟨?_, hsum v.s, hsum v.ss⟩
  rw [hm]
  simpa using v.n.toNat_lt

/-- The factor is as `wprobe_add_iface` sets it. -/
def DefaultFactor (dev : Iface) : Prop := dev.scaleM = 1 ∧ dev.scaleD = 10

/-- A request without a whole factor. -/
def Event.keepsFactor : Event → Prop
  | .config req => req.samplesScaleM = none ∨ req.samplesScaleD = none
  | _ => True

theorem defaultFactor_apply (k : Kernel) {dev : Iface} (h : DefaultFactor dev) {e : Event}
    (he : e.keepsFactor) : DefaultFactor (e.apply k dev) := by
  rcases settings_cases k dev e with hsame | ⟨req, m, d, rfl, -, hset, hfactor⟩
  · simp only [Iface.settings, Prod.mk.injEq] at hsame
    rw [DefaultFactor, hsame.2.2.1, hsame.2.2.2]
    exact h
  · simp only [Iface.settings, Prod.mk.injEq] at hset
    rw [DefaultFactor, hset.2.2.1, hset.2.2.2]
    have hold : (m, d) = (dev.scaleM, dev.scaleD) := by
      rcases hfactor with hkeep | ⟨-, hof⟩
      · exact hkeep
      · rcases he with hn | hn <;> simpa [scaleOf, hn] using hof
    obtain ⟨rfl, rfl⟩ := Prod.mk.inj hold
    exact h

/-- As long as no request gives a factor, all is scaled as it should be. -/
theorem along_right_of_defaultFactor (k : Kernel) {dev : Iface} (hset : SettingsOk dev)
    (h : DefaultFactor dev) {es : List Event} (hes : ∀ e ∈ es, e.keepsFactor) :
    Along k (StepRight k) dev es := by
  induction es generalizing dev with
  | nil => trivial
  | cons e es ih =>
      obtain ⟨he, hes⟩ := List.forall_mem_cons.mp hes
      refine ⟨(stepRight_iff k hset e).mpr ?_,
        ih (settingsOk_apply k hset e) (defaultFactor_apply k h he) hes⟩
      intro l val now _ i item _
      exact safe_of_unit h.1 (by rw [h.2]; decide) _

/-- A counter of one byte that keeps statistics. -/
def counter : Item := ⟨[0x62], .valU8, WPROBE_F_KEEPSTAT⟩

/-- The driver reports the value 5. -/
def measureFive : Event :=
  .sync none false (fun val => (0, fun i => { val i with pending := true, num := 5 })) 0

/-- Scaling starts at three samples, by the factor `2 ^ 31 / 2 ^ 31`. -/
def halfRange : ConfigRequest :=
  { noConfig with
    samplesMin := some 1
    samplesMax := some 2
    samplesScaleM := some (2 ^ 31)
    samplesScaleD := some (2 ^ 31) }

/-- The request is accepted. Three samples become one, and the sum of 15
changes its sign. -/
theorem scaling_fails_halfRange :
    let dev := addIface [0x61] none [] [counter]
    let es := [.config halfRange, measureFive, measureFive, measureFive]
    ¬Along trusting (StepRight trusting) dev es ∧
      (setConfigDev trusting halfRange dev).1 = 0 ∧
      ((es.foldl (Event.apply trusting) dev).val 0).n = 1 ∧
      ((es.foldl (Event.apply trusting) dev).val 0).s = -15 := by
  refine ⟨?_, by decide +kernel, by decide +kernel, by decide +kernel⟩
  intro h
  obtain ⟨-, -, -, ⟨-, -, hthird⟩, -⟩ := h
  have hscales := hthird none _ 0 rfl 0 counter
    ⟨rfl, by decide, by decide +kernel, 0, counter, rfl, by decide +kernel⟩
  exact absurd hscales.product (by decide +kernel)

end UbntSdk.Wprobe
