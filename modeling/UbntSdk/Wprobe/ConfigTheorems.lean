/-
UbntSdk.Wprobe.ConfigTheorems — when a configuration request is
all-or-nothing.

`wprobe_set_config` checks an attribute right before it applies it, so an
attribute that is rejected comes after others that are already in place.
And `wprobe_set_filter` is called when the old filter is already taken out,
and its error is not looked at.

For each step there is the condition under which it rejects its attribute
and the condition under which it changes nothing. The request is
all-or-nothing exactly when every step in front of one that rejects changes
nothing, and no filter is installed when a blob is rejected.
-/
import UbntSdk.Wprobe.Config

namespace UbntSdk.Wprobe

open UbntSdk.Lib

/-! ## What a step rejects, and when it changes nothing -/

/-- The numbers of samples are rejected. -/
def BadSamples (req : ConfigRequest) (dev : Iface) : Prop :=
  (req.samplesMin.isSome ∨ req.samplesMax.isSome) ∧
    samplesOk (req.samplesMin.getD dev.scaleMin) (req.samplesMax.getD dev.scaleMax) = false

/-- The factor of the scaling is rejected. -/
def BadScale (req : ConfigRequest) : Prop :=
  ∃ m ∈ req.samplesScaleM, ∃ d ∈ req.samplesScaleD, d = 0 ∨ d < m

/-- The interval is rejected. -/
def BadInterval (req : ConfigRequest) : Prop :=
  ∃ i ∈ req.interval, i.toUInt32 ≠ 0 ∧ i.toUInt32 < WPROBE_MIN_INTERVAL

/-- The request has a filter blob and `wprobe_set_filter` rejects it. -/
def Rejected (k : Kernel) (req : ConfigRequest) : Prop :=
  ∃ mem len e, req.filter = some (mem, len) ∧ 0 < len ∧ setFilter k mem len = .error e

/-- No reset is asked for, or all values are 0 already. -/
def ResetKeeps (req : ConfigRequest) (dev : Iface) : Prop :=
  req.reset = true → (∀ i < dev.globalItems.length, dev.val i = .zero) ∧
    ∀ l ∈ dev.links, ∀ i < dev.linkItems.length, l.val i = .zero

/-- The numbers of samples are those of the interface. -/
def SamplesKeep (req : ConfigRequest) (dev : Iface) : Prop :=
  (∀ n ∈ req.samplesMin, n = dev.scaleMin) ∧ ∀ n ∈ req.samplesMax, n = dev.scaleMax

/-- The factor is that of the interface. -/
def ScaleKeeps (req : ConfigRequest) (dev : Iface) : Prop :=
  ∀ m ∈ req.samplesScaleM, ∀ d ∈ req.samplesScaleD, m = dev.scaleM ∧ d = dev.scaleD

/-- The filter that a blob leaves installed. -/
def filterOf (k : Kernel) (blob : Memory × Nat) : Option Filter :=
  if 0 < blob.2 then (setFilter k blob.1 blob.2).toOption else none

/-- No filter is sent, or it is what is installed. -/
def FilterKeeps (k : Kernel) (req : ConfigRequest) (dev : Iface) : Prop :=
  ∀ blob ∈ req.filter, dev.activeFilter = filterOf k blob

/-! ## The steps -/

theorem clearVals_eq_self_iff (n : Nat) (val : Nat → Value) :
    clearVals n val = val ↔ ∀ i < n, val i = .zero := by
  constructor
  · intro h i hi
    rw [← h]
    simp [clearVals, copyVals, hi]
  · intro h
    funext i
    by_cases hi : i < n
    · simp [clearVals, copyVals, hi, h i hi]
    · simp [clearVals, copyVals, hi]

theorem clearLinks_eq_self_iff (n : Nat) (links : List Link) :
    links.map (fun l => { l with val := clearVals n l.val }) = links ↔
      ∀ l ∈ links, ∀ i < n, l.val i = .zero := by
  rw [← List.map_id links, List.map_map, List.map_inj_left, List.map_id]
  constructor
  · intro h l hl
    exact (clearVals_eq_self_iff n l.val).mp (congrArg Link.val (h l hl))
  · intro h l hl
    have hv := (clearVals_eq_self_iff n l.val).mpr (h l hl)
    simp [hv]

/-- The reset writes the values and the links. -/
theorem configReset_spec (req : ConfigRequest) (dev : Iface) :
    ∃ val links, configReset req dev = { dev with val, links } ∧
      ((val = dev.val ∧ links = dev.links) ↔ ResetKeeps req dev) := by
  by_cases h : req.reset = true
  · refine ⟨_, _, if_pos h, ?_⟩
    simp only [ResetKeeps, h, clearVals_eq_self_iff, clearLinks_eq_self_iff, true_implies]
  · exact ⟨dev.val, dev.links, if_neg h, by simp [ResetKeeps, h]⟩

theorem configSamples_bad {req : ConfigRequest} (dev : Iface) (h : BadSamples req dev) :
    configSamples req dev = none := by
  obtain ⟨hsome, hok⟩ := h
  simp [configSamples, hsome, hok]

theorem configSamples_good {req : ConfigRequest} (dev : Iface) (h : ¬BadSamples req dev) :
    configSamples req dev = some { dev with
      scaleMin := req.samplesMin.getD dev.scaleMin
      scaleMax := req.samplesMax.getD dev.scaleMax } := by
  by_cases hsome : req.samplesMin.isSome ∨ req.samplesMax.isSome
  · have hok : samplesOk (req.samplesMin.getD dev.scaleMin) (req.samplesMax.getD dev.scaleMax) :=
      Bool.of_not_eq_false fun hok => h ⟨hsome, hok⟩
    simp [configSamples, hsome, hok]
  · have hnone : req.samplesMin = none ∧ req.samplesMax = none := by simpa using hsome
    simp [configSamples, hnone]

/-- The factor that the request leaves. -/
def scaleOf (req : ConfigRequest) (dev : Iface) : UInt32 × UInt32 :=
  match req.samplesScaleM, req.samplesScaleD with
  | some m, some d => (m, d)
  | _, _ => (dev.scaleM, dev.scaleD)

theorem configScale_bad {req : ConfigRequest} (h : BadScale req) (dev : Iface) :
    configScale req dev = none := by
  obtain ⟨m, hm, d, hd, hbad⟩ := h
  simp only [Option.mem_def] at hm hd
  simp only [configScale, hm, hd, if_pos hbad]

theorem configScale_good {req : ConfigRequest} (h : ¬BadScale req) (dev : Iface) :
    configScale req dev =
      some { dev with scaleM := (scaleOf req dev).1, scaleD := (scaleOf req dev).2 } := by
  cases hm : req.samplesScaleM with
  | none => simp [configScale, scaleOf, hm]
  | some m =>
      cases hd : req.samplesScaleD with
      | none => simp [configScale, scaleOf, hm, hd]
      | some d =>
          have hgood : ¬(d = 0 ∨ d < m) := fun hbad => h ⟨m, hm, d, hd, hbad⟩
          simp only [configScale, scaleOf, hm, hd, if_neg hgood]

theorem scaleOf_keeps_iff (req : ConfigRequest) (dev : Iface) :
    ((scaleOf req dev).1 = dev.scaleM ∧ (scaleOf req dev).2 = dev.scaleD) ↔ ScaleKeeps req dev := by
  cases hm : req.samplesScaleM with
  | none => simp [scaleOf, ScaleKeeps, hm]
  | some m =>
      cases hd : req.samplesScaleD with
      | none => simp [scaleOf, ScaleKeeps, hm, hd]
      | some d => simp [scaleOf, ScaleKeeps, hm, hd]

theorem getD_eq_iff (o : Option UInt32) (n : UInt32) : o.getD n = n ↔ ∀ m ∈ o, m = n := by
  cases o <;> simp

/-- The filter that the request leaves. -/
theorem configFilter_eq (k : Kernel) (req : ConfigRequest) (dev : Iface) :
    configFilter k req dev =
      { dev with activeFilter := req.filter.elim dev.activeFilter (filterOf k) } := by
  cases hf : req.filter with
  | none => simp [configFilter, hf]
  | some blob =>
      obtain ⟨mem, len⟩ := blob
      by_cases hl : 0 < len
      · cases hs : setFilter k mem len <;>
          simp [configFilter, filterOf, Except.toOption, hf, hl, hs]
      · simp [configFilter, filterOf, hf, hl]

theorem filterOf_keeps_iff (k : Kernel) (req : ConfigRequest) (dev : Iface) :
    req.filter.elim dev.activeFilter (filterOf k) = dev.activeFilter ↔ FilterKeeps k req dev := by
  cases hf : req.filter with
  | none => simp [FilterKeeps, hf]
  | some blob => simp [FilterKeeps, hf, eq_comm]

/-- The last step fails before it writes. -/
theorem configInterval_bad {req : ConfigRequest} (h : BadInterval req) (dev : Iface) :
    configInterval req dev = (-EINVAL, dev) := by
  obtain ⟨i, hi, hbad⟩ := h
  simp only [Option.mem_def] at hi
  simp [configInterval, updateAutoMeasurement, hi, hbad]

theorem configInterval_good {req : ConfigRequest} (h : ¬BadInterval req) (dev : Iface) :
    (configInterval req dev).1 = 0 ∧
      (configInterval req dev).2.activeFilter = dev.activeFilter := by
  cases hi : req.interval with
  | none => simp [configInterval, hi]
  | some i =>
      have hgood : ¬(i.toUInt32 ≠ 0 ∧ i.toUInt32 < WPROBE_MIN_INTERVAL) :=
        fun hbad => h ⟨i, hi, hbad⟩
      simp only [configInterval, hi, updateAutoMeasurement, if_neg hgood]
      split <;> split <;> simp

/-! ## A request to one interface -/

/-- The fields that a request writes, apart from the interval. -/
theorem update_eq_self_iff (dev : Iface) (val : Nat → Value) (links : List Link)
    (scaleMin scaleMax scaleM scaleD : UInt32) (activeFilter : Option Filter) :
    ({ dev with val, links, scaleMin, scaleMax, scaleM, scaleD, activeFilter } : Iface) = dev ↔
      (val = dev.val ∧ links = dev.links) ∧ (scaleMin = dev.scaleMin ∧ scaleMax = dev.scaleMax) ∧
      (scaleM = dev.scaleM ∧ scaleD = dev.scaleD) ∧ activeFilter = dev.activeFilter := by
  cases dev
  simp only [Iface.mk.injEq]
  tauto

/-- Nothing is left of a request that fails, and a rejected blob leaves the
filter. -/
def AllOrNothingDev (k : Kernel) (req : ConfigRequest) (dev : Iface) : Prop :=
  ((setConfigDev k req dev).1 ≠ 0 → (setConfigDev k req dev).2 = dev) ∧
    (Rejected k req → (setConfigDev k req dev).2.activeFilter = dev.activeFilter)

/-- Every step in front of one that rejects its attribute changes nothing. -/
structure Harmless (k : Kernel) (req : ConfigRequest) (dev : Iface) : Prop where
  samples : BadSamples req dev → ResetKeeps req dev
  scale : ¬BadSamples req dev → BadScale req → ResetKeeps req dev ∧ SamplesKeep req dev
  filter : ¬BadSamples req dev → ¬BadScale req → Rejected k req → dev.activeFilter = none
  interval : ¬BadSamples req dev → ¬BadScale req → BadInterval req →
    ResetKeeps req dev ∧ SamplesKeep req dev ∧ ScaleKeeps req dev ∧ FilterKeeps k req dev

theorem setConfigDev_badSamples (k : Kernel) {req : ConfigRequest} {dev : Iface}
    (hmac : req.mac = none) (h : BadSamples req dev) :
    setConfigDev k req dev = (-EINVAL, configReset req dev) := by
  obtain ⟨val, links, hr, -⟩ := configReset_spec req dev
  have hbad := configSamples_bad { dev with val, links } h
  simp [setConfigDev, hmac, hr, hbad]

theorem setConfigDev_badScale (k : Kernel) {req : ConfigRequest} {dev : Iface}
    (hmac : req.mac = none) (hs : ¬BadSamples req dev) (h : BadScale req) :
    setConfigDev k req dev = (-EINVAL, { configReset req dev with
      scaleMin := req.samplesMin.getD dev.scaleMin
      scaleMax := req.samplesMax.getD dev.scaleMax }) := by
  obtain ⟨val, links, hr, -⟩ := configReset_spec req dev
  have hgood := configSamples_good { dev with val, links } hs
  simp [setConfigDev, hmac, hr, hgood, configScale_bad h]

/-- All is applied up to the interval. -/
theorem setConfigDev_applied (k : Kernel) {req : ConfigRequest} {dev : Iface}
    (hmac : req.mac = none) (hs : ¬BadSamples req dev) (hm : ¬BadScale req) :
    setConfigDev k req dev = configInterval req { configReset req dev with
      scaleMin := req.samplesMin.getD dev.scaleMin
      scaleMax := req.samplesMax.getD dev.scaleMax
      scaleM := (scaleOf req dev).1
      scaleD := (scaleOf req dev).2
      activeFilter := req.filter.elim dev.activeFilter (filterOf k) } := by
  obtain ⟨val, links, hr, -⟩ := configReset_spec req dev
  have hgood := configSamples_good { dev with val, links } hs
  simp [setConfigDev, hmac, hr, hgood, configScale_good hm, configFilter_eq, scaleOf]

/-- A blob that is rejected leaves no filter. -/
theorem Rejected.filterOf {k : Kernel} {req : ConfigRequest} (h : Rejected k req)
    (old : Option Filter) : req.filter.elim old (filterOf k) = none := by
  obtain ⟨mem, len, e, hf, hl, he⟩ := h
  simp [hf, Wprobe.filterOf, hl, he, Except.toOption]

theorem samplesKeep_iff (req : ConfigRequest) (dev : Iface) :
    (req.samplesMin.getD dev.scaleMin = dev.scaleMin ∧
      req.samplesMax.getD dev.scaleMax = dev.scaleMax) ↔ SamplesKeep req dev := by
  simp only [getD_eq_iff, SamplesKeep]

theorem einval_ne_zero : EINVAL ≠ 0 := by decide

/-- Stopped at the samples: the reset was done. -/
theorem allOrNothingDev_badSamples (k : Kernel) {req : ConfigRequest} {dev : Iface}
    (hmac : req.mac = none) (h : BadSamples req dev) :
    AllOrNothingDev k req dev ↔ ResetKeeps req dev := by
  obtain ⟨val, links, hr, hkeep⟩ := configReset_spec req dev
  have hsame := update_eq_self_iff dev val links dev.scaleMin dev.scaleMax dev.scaleM dev.scaleD
    dev.activeFilter
  rw [AllOrNothingDev, setConfigDev_badSamples k hmac h, hr]
  simp [einval_ne_zero, hsame, hkeep]

/-- Stopped at the factor: the reset was done and the samples are set. -/
theorem allOrNothingDev_badScale (k : Kernel) {req : ConfigRequest} {dev : Iface}
    (hmac : req.mac = none) (hs : ¬BadSamples req dev) (h : BadScale req) :
    AllOrNothingDev k req dev ↔ ResetKeeps req dev ∧ SamplesKeep req dev := by
  obtain ⟨val, links, hr, hkeep⟩ := configReset_spec req dev
  have hsame := update_eq_self_iff dev val links (req.samplesMin.getD dev.scaleMin)
    (req.samplesMax.getD dev.scaleMax) dev.scaleM dev.scaleD dev.activeFilter
  rw [AllOrNothingDev, setConfigDev_badScale k hmac hs h, hr]
  simp [einval_ne_zero, hsame, hkeep, samplesKeep_iff]

/-- Stopped at the interval: all else is set. A blob that was rejected has
no filter to leave only if there was none. -/
theorem allOrNothingDev_badInterval (k : Kernel) {req : ConfigRequest} {dev : Iface}
    (hmac : req.mac = none) (hs : ¬BadSamples req dev) (hm : ¬BadScale req)
    (h : BadInterval req) :
    AllOrNothingDev k req dev ↔
      ResetKeeps req dev ∧ SamplesKeep req dev ∧ ScaleKeeps req dev ∧ FilterKeeps k req dev := by
  obtain ⟨val, links, hr, hkeep⟩ := configReset_spec req dev
  have hsame := update_eq_self_iff dev val links (req.samplesMin.getD dev.scaleMin)
    (req.samplesMax.getD dev.scaleMax) (scaleOf req dev).1 (scaleOf req dev).2
    (req.filter.elim dev.activeFilter (filterOf k))
  rw [AllOrNothingDev, setConfigDev_applied k hmac hs hm, configInterval_bad h, hr]
  simp only [hsame, hkeep, samplesKeep_iff, scaleOf_keeps_iff, filterOf_keeps_iff]
  simp only [ne_eq, neg_eq_zero, einval_ne_zero, not_false_eq_true, true_implies]
  exact ⟨fun hall => hall.1, fun hall => ⟨hall, fun _ => hall.2.2.2⟩⟩

/-- Nothing was rejected but perhaps the blob. -/
theorem allOrNothingDev_good (k : Kernel) {req : ConfigRequest} {dev : Iface}
    (hmac : req.mac = none) (hs : ¬BadSamples req dev) (hm : ¬BadScale req)
    (hi : ¬BadInterval req) :
    AllOrNothingDev k req dev ↔ (Rejected k req → dev.activeFilter = none) := by
  rw [AllOrNothingDev, setConfigDev_applied k hmac hs hm, (configInterval_good hi _).1,
    (configInterval_good hi _).2]
  constructor
  · intro h hrej
    rw [← h.2 hrej, hrej.filterOf]
  · intro h
    refine ⟨fun hne => absurd rfl hne, fun hrej => ?_⟩
    rw [h hrej, hrej.filterOf]

theorem FilterKeeps.rejected {k : Kernel} {req : ConfigRequest} {dev : Iface}
    (h : FilterKeeps k req dev) (hrej : Rejected k req) : dev.activeFilter = none := by
  rw [← (filterOf_keeps_iff k req dev).mpr h, hrej.filterOf]

theorem allOrNothingDev_iff (k : Kernel) {req : ConfigRequest} (dev : Iface)
    (hmac : req.mac = none) : AllOrNothingDev k req dev ↔ Harmless k req dev := by
  by_cases hs : BadSamples req dev
  · rw [allOrNothingDev_badSamples k hmac hs]
    exact ⟨fun h => ⟨fun _ => h, fun hn => absurd hs hn, fun hn => absurd hs hn,
      fun hn => absurd hs hn⟩, fun h => h.samples hs⟩
  by_cases hm : BadScale req
  · rw [allOrNothingDev_badScale k hmac hs hm]
    exact ⟨fun h => ⟨fun hb => absurd hb hs, fun _ _ => h, fun _ hn => absurd hm hn,
      fun _ hn => absurd hm hn⟩, fun h => h.scale hs hm⟩
  by_cases hi : BadInterval req
  · rw [allOrNothingDev_badInterval k hmac hs hm hi]
    exact ⟨fun h => ⟨fun hb => absurd hb hs, fun _ hb => absurd hb hm,
      fun _ _ hrej => h.2.2.2.rejected hrej, fun _ _ _ => h⟩, fun h => h.interval hs hm hi⟩
  · rw [allOrNothingDev_good k hmac hs hm hi]
    exact ⟨fun h => ⟨fun hb => absurd hb hs, fun _ hb => absurd hb hm, fun _ _ => h,
      fun _ _ hb => absurd hb hi⟩, fun h => h.filter hs hm⟩

/-! ## A request -/

/-- If `wprobe_set_config` returns an error, all interfaces are as before;
and a rejected blob leaves all filters. -/
def AllOrNothing (k : Kernel) (req : ConfigRequest) (ifs : List Iface) : Prop :=
  ((setConfig k req ifs).1 ≠ 0 → (setConfig k req ifs).2 = ifs) ∧
    (Rejected k req →
      (setConfig k req ifs).2.map (·.activeFilter) = ifs.map (·.activeFilter))

/-- The interface that a request is for. -/
def Concerns (req : ConfigRequest) (ifs : List Iface) (dev : Iface) : Prop :=
  ∃ j ∈ getDev ifs req.interface, ifs[j]? = some dev

theorem setConfig_of_not_concerns (k : Kernel) {req : ConfigRequest} {ifs : List Iface}
    (h : ∀ dev, ¬Concerns req ifs dev) : (setConfig k req ifs).2 = ifs := by
  unfold setConfig
  split
  · rfl
  · rename_i j hj
    split
    · rfl
    · rename_i dev hdev
      exact absurd ⟨j, hj, hdev⟩ (h dev)

/-- What is read off each interface is as before when it is so for the one
that was replaced. -/
theorem map_set_eq_iff {ifs : List Iface} {j : Nat} {dev : Iface} (hdev : ifs[j]? = some dev)
    (dev' : Iface) (f : Iface → β) : (ifs.set j dev').map f = ifs.map f ↔ f dev' = f dev := by
  obtain ⟨hj, hget⟩ := List.getElem?_eq_some_iff.mp hdev
  constructor
  · intro h
    have hat : ((ifs.set j dev').map f)[j]? = (ifs.map f)[j]? := by rw [h]
    simpa [hj, hget] using hat
  · intro h
    rw [List.map_set, h, ← hget]
    simp [← List.map_set]

theorem allOrNothing_of_concerns (k : Kernel) {req : ConfigRequest} {ifs : List Iface}
    {dev : Iface} (h : Concerns req ifs dev) :
    AllOrNothing k req ifs ↔ AllOrNothingDev k req dev := by
  obtain ⟨j, hj, hdev⟩ := h
  have hset : setConfig k req ifs =
      ((setConfigDev k req dev).1, ifs.set j (setConfigDev k req dev).2) := by
    simp only [Option.mem_def] at hj
    simp [setConfig, hj, hdev]
  have hid := map_set_eq_iff hdev (setConfigDev k req dev).2 id
  simp only [List.map_id, id] at hid
  rw [AllOrNothing, AllOrNothingDev, hset, hid, map_set_eq_iff hdev]

/-- A request is all-or-nothing exactly when, for the interface it is for,
every step in front of one that rejects changes nothing. -/
theorem allOrNothing_iff (k : Kernel) (req : ConfigRequest) (ifs : List Iface) :
    AllOrNothing k req ifs ↔
      (req.mac = none → ∀ dev, Concerns req ifs dev → Harmless k req dev) := by
  by_cases hex : ∃ dev, Concerns req ifs dev
  · obtain ⟨dev, hdev⟩ := hex
    rw [allOrNothing_of_concerns k hdev]
    cases hmac : req.mac with
    | some mac => simp [AllOrNothingDev, setConfigDev, hmac]
    | none =>
        rw [allOrNothingDev_iff k dev hmac]
        constructor
        · intro h _ dev' hdev'
          obtain ⟨j, hj, hat⟩ := hdev
          obtain ⟨j', hj', hat'⟩ := hdev'
          obtain rfl : j = j' := Option.mem_unique hj hj'
          obtain rfl : dev = dev' := by simpa [hat] using hat'
          exact h
        · intro h
          exact h rfl dev hdev
  · have hno : ∀ dev, ¬Concerns req ifs dev := fun dev hdev => hex ⟨dev, hdev⟩
    have hsame := setConfig_of_not_concerns k hno
    constructor
    · intro _ _ dev hdev
      exact absurd hdev (hno dev)
    · intro _
      exact ⟨fun _ => hsame, fun _ => by rw [hsame]⟩

/-- An interface without items, with a filter installed. -/
def filtered : Iface where
  name := [0x61]
  addr := none
  linkItems := []
  globalItems := []
  links := []
  val := fun _ => .zero
  queryVal := fun _ => .zero
  activeFilter := some ⟨[]⟩
  measureInterval := 0
  measureTimer := false
  scaleMin := 0
  scaleMax := 0
  scaleM := 1
  scaleD := 10

def trusting : Kernel where
  order := .little
  skChkFilter := fun _ => true
  kmalloc := fun _ => true
  heap := fun _ => 0

def noConfig : ConfigRequest := ⟨some [0x61], none, none, none, none, none, none, none, none⟩

/-- An interval of 50 ms alone is refused and leaves no trace. -/
theorem allOrNothing_intervalAlone :
    AllOrNothing trusting { noConfig with interval := some 50 } [filtered] ∧
      (setConfig trusting { noConfig with interval := some 50 } [filtered]).1 = -EINVAL := by
  refine ⟨(allOrNothing_iff _ _ _).mpr fun _ dev _ => ⟨?_, ?_, ?_, ?_⟩, by decide +kernel⟩
  · rintro ⟨hsome, -⟩
    simp [noConfig] at hsome
  · rintro - ⟨m, hm, -⟩
    simp [noConfig] at hm
  · rintro - - ⟨mem, len, e, hf, -⟩
    simp [noConfig] at hf
  · rintro - - -
    simp [ResetKeeps, SamplesKeep, ScaleKeeps, FilterKeeps, ConfigRequest.reset, noConfig]

/-- Bounds for the samples stay behind when the interval of 50 ms is
refused; and a blob of one byte takes the filter away. -/
theorem allOrNothing_fails_late :
    ¬AllOrNothing trusting
        { noConfig with samplesMin := some 1, samplesMax := some 5, interval := some 50 }
        [filtered] ∧
      ¬AllOrNothing trusting { noConfig with filter := some (fun _ => 0, 1) } [filtered] := by
  constructor
  · intro h
    have hsame := congrArg (List.map (·.scaleMax)) (h.1 (by decide +kernel))
    revert hsame
    decide +kernel
  · intro h
    have hrej : Rejected trusting { noConfig with filter := some (fun _ => 0, 1) } :=
      ⟨fun _ => 0, 1, -EINVAL, rfl, by decide, rfl⟩
    have hsame := h.2 hrej
    revert hsame
    decide +kernel

end UbntSdk.Wprobe
