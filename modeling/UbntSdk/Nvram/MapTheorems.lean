/-
UbntSdk.Nvram.MapTheorems — the store as a finite map, over whole runs.

`MapProperty` is what a caller of libnvram relies on after a run of calls:
names are unique and sit in the bucket `hash(name) mod 257`, `nvram_get`
is the last successful set unless an unset came later, calls on one name
leave the others alone, `nvram_getall` lists each live pair once, and a
failed set changes nothing.

Everything but the bucket holds in every run. The bucket does not, because
of the expansion of `NVRAM_ARRAYSIZE`; `bucket_agrees_iff` says for which
hashes it still is the bucket meant. `mapProperty_iff` is the exact
condition for whole runs.
-/
import UbntSdk.Nvram.FlashTheorems

namespace UbntSdk.Nvram

open UbntSdk.Lib

/-! ## Where a run starts -/

/-- The table is what `_nvram_rehash` built from some image. -/
def Rehashed (h : Store) : Prop := ∃ m, nvramRehash m = some h

/-- A run starts from an empty or a rehashed table. -/
def Start (h : Store) : Prop := h = Store.empty ∨ Rehashed h

theorem setMissing_ok {h : Store} (hok : h.Ok) (name value : CStr) :
    (setMissing h name value).Ok := by
  unfold setMissing
  split
  · exact hok
  · exact nvramSet_ok hok name value

theorem setSdram_ok {h : Store} (hok : h.Ok) (hd : Header) : (setSdram hd h).Ok :=
  setMissing_ok (setMissing_ok (setMissing_ok (setMissing_ok hok _ _) _ _) _ _) _ _

/-- One pass of the parsing loop only sets a variable. -/
theorem rehashBody_ok {m : List UInt8} {s t : Nat × Store} (hok : s.2.Ok)
    (h : rehashBody m s = .next t) : t.2.Ok := by
  obtain ⟨name, h₀⟩ := s
  simp only [rehashBody] at h
  split at h
  · cases h
  · split at h
    · cases h
    · split at h
      · cases h
      · split at h
        · cases h
          exact nvramSet_ok hok _ _
        · cases h

/-- The loop leaves with the tables it has. -/
theorem rehashBody_stop {m : List UInt8} {s : Nat × Store} {r : Store}
    (h : rehashBody m s = .stop r) : r = s.2 := by
  obtain ⟨name, h₀⟩ := s
  simp only [rehashBody] at h
  split at h
  · cases h
  · split at h
    · cases h
      rfl
    · split at h
      · cases h
      · split at h
        · cases h
        · cases h
          rfl

/-- Whatever is in flash, a rehashed table is well formed. -/
theorem rehashed_ok {h : Store} (hr : Rehashed h) : h.Ok := by
  obtain ⟨m, hm⟩ := hr
  rw [nvramRehash] at hm
  cases hl : rehashLoop m with
  | fault => simp [hl] at hm
  | running => simp [hl] at hm
  | done h₀ =>
      have hok : h₀.Ok := by
        obtain ⟨t, ht, hstop⟩ := (reaches_of_run _ _).2 h₀ hl
        rw [rehashBody_stop hstop]
        exact @Reaches.invariant _ _ _ (fun s => s.2.Ok) _ _ ht empty_ok
          fun u v _ hu huv => rehashBody_ok hu huv
      obtain ⟨hd, hhd⟩ := readHeader_isSome m
      simp only [hl, hhd] at hm
      cases hm
      exact setSdram_ok hok hd

theorem start_ok {h : Store} (hs : Start h) : h.Ok := by
  rcases hs with rfl | hr
  · exact empty_ok
  · exact rehashed_ok hr

/-! ## The bucket -/

/-- The bucket the code computes is the one meant, `hash(name) mod 257`. -/
def Agrees (name : CStr) : Prop := (hash name).toNat % 1028 ∈ [0, 342, 685, 1027]

instance (name : CStr) : Decidable (Agrees name) := inferInstanceAs (Decidable (_ ∈ _))

theorem bucket_agrees_iff (name : CStr) :
    (bucket name).val = (hash name).toNat % 257 ↔ Agrees name := by
  have hmod : (hash name).toNat % 257 = (hash name).toNat % 1028 % 257 :=
    (Nat.mod_mod_of_dvd _ (by decide)).symm
  have hlt : (hash name).toNat % 1028 < 1028 := Nat.mod_lt _ (by decide)
  simp only [bucket, NVRAM_BUCKETS, sizeofPointer, Nat.reduceMul, Agrees, List.mem_cons,
    List.not_mem_nil, or_false, hmod]
  generalize (hash name).toNat % 1028 = r at hlt ⊢
  have hquot : r / 257 = 0 ∨ r / 257 = 1 ∨ r / 257 = 2 ∨ r / 257 = 3 := by omega
  rcases hquot with hq | hq | hq | hq <;> omega

/-! ## The property -/

/-- The call is about the name. -/
def Op.isOn (name : CStr) : Op → Prop
  | .set n _ => n = name
  | .unset n => n = some name
  | .get n => n = some name
  | .getall => False

/-- What holds of the table after the calls `ops`. -/
structure MapProperty (start : Store) (ops : List Op) : Prop where
  placed : ∀ i, ∀ t ∈ (runOps start ops).nvramHash i, i.val = (hash t.name).toNat % 257
  unique : ((entries (runOps start ops).nvramHash).map Tuple.name).Nodup
  get : ∀ name, nvramGet (runOps start ops) (some name)
    = expected (fun n => nvramGet start (some n)) ops name
  frame : ∀ op name, ¬ op.isOn name →
    nvramGet (step (runOps start ops) op) (some name) = nvramGet (runOps start ops) (some name)
  getall : (nvramGetall (runOps start ops)).Nodup ∧ ∀ t, t ∈ nvramGetall (runOps start ops) ↔
    nvramGet (runOps start ops) (some t.name) = some t.value
  code : ∀ name value, (nvramSet (runOps start ops) name value).1 = 0 ↔ Fits value
  failed : ∀ name value, (nvramSet (runOps start ops) name value).1 ≠ 0 →
    (nvramSet (runOps start ops) name value).2 = runOps start ops

/-- A call that is not about a name has no effect on it. -/
theorem effectOn_of_not_isOn {op : Op} {name : CStr} (h : ¬ op.isOn name) :
    op.effectOn name = none := by
  cases op with
  | set n value => exact if_neg fun hc => h hc.1
  | unset n =>
      cases n with
      | none => rfl
      | some n => exact if_neg fun hc => h (congrArg some hc)
  | get n => rfl
  | getall => rfl

/-- All of the property but the bucket holds after every run. -/
theorem mapProperty_of_placed {start : Store} (hok : start.Ok) {ops : List Op}
    (hplaced : ∀ i, ∀ t ∈ (runOps start ops).nvramHash i, i.val = (hash t.name).toNat % 257) :
    MapProperty start ops where
  placed := hplaced
  unique := entries_nodup (runOps_ok hok ops)
  get := get_runOps hok ops
  frame := by
    intro op name hnot
    rw [get_step (runOps_ok hok ops), effectOn_of_not_isOn hnot]
    rfl
  getall := by
    have hrun := runOps_ok hok ops
    rw [nvramGetall_eq]
    refine ⟨List.nodup_reverse.mpr ((entries_nodup hrun).of_map _), fun t => ?_⟩
    rw [List.mem_reverse, mem_entries_get hrun]
  code := by
    intro name value
    rw [nvramSet_code]
    by_cases hf : Fits value <;> simp [hf]
  failed := fun name value hfail => nvramSet_failed hfail

/-- The tuples are in the bucket meant iff all names are among those that
agree. -/
theorem placed_iff {h : Store} (hok : h.Ok) :
    (∀ i, ∀ t ∈ h.nvramHash i, i.val = (hash t.name).toNat % 257) ↔
      ∀ name, nvramGet h (some name) ≠ none → Agrees name := by
  constructor
  · intro hplaced name hlive
    obtain ⟨value, hvalue⟩ := Option.ne_none_iff_exists'.mp hlive
    have hmem : (⟨name, value⟩ : Tuple) ∈ entries h.nvramHash :=
      (mem_entries_get hok ⟨name, value⟩).mpr hvalue
    obtain ⟨i, _, hi⟩ := List.mem_flatMap.mp hmem
    have hbucket := hok.placed i _ hi
    rw [← bucket_agrees_iff, hbucket]
    exact hplaced i _ hi
  · intro hagree i t ht
    have hmem : t ∈ entries h.nvramHash :=
      List.mem_flatMap.mpr ⟨i, List.mem_finRange i, ht⟩
    have hlive := (mem_entries_get hok t).mp hmem
    have hbucket := hok.placed i t ht
    rw [← hbucket, bucket_agrees_iff]
    exact hagree t.name (by rw [hlive]; exact Option.some_ne_none _)

/-- A run keeps "all names agree" if every successful set is of such a
name. -/
theorem agrees_runOps {start : Store} (hok : start.Ok)
    (hstart : ∀ name, nvramGet start (some name) ≠ none → Agrees name) {ops : List Op}
    (hops : ∀ name value, Op.set name value ∈ ops → Fits value → Agrees name) :
    ∀ name, nvramGet (runOps start ops) (some name) ≠ none → Agrees name := by
  induction ops generalizing start with
  | nil => exact hstart
  | cons op ops ih =>
      refine ih (step_ok hok op) (fun name hlive => ?_)
        fun name value hmem => hops name value (List.mem_cons_of_mem _ hmem)
      rw [get_step hok] at hlive
      cases heff : op.effectOn name with
      | none => exact hstart name (by rwa [heff] at hlive)
      | some v =>
          cases op with
          | set n value =>
              simp only [Op.effectOn] at heff
              split at heff
              · rename_i hc
                rw [← hc.1]
                exact hops n value List.mem_cons_self hc.2
              · cases heff
          | unset n =>
              cases n with
              | none => cases heff
              | some n =>
                  simp only [Op.effectOn] at heff
                  split at heff
                  · cases heff
                    simp [Op.effectOn, *] at hlive
                  · cases heff
          | get n => cases heff
          | getall => cases heff

/-- The property holds in every state of a run iff the names in the table
at the start and the names the run sets have a hash that is 0, 342, 685 or
1027 modulo 1028. -/
theorem mapProperty_iff (start : Store) (hstart : Start start) (ops : List Op) :
    (∀ done, done <+: ops → MapProperty start done) ↔
      (∀ name, nvramGet start (some name) ≠ none → Agrees name) ∧
      (∀ name value, Op.set name value ∈ ops → Fits value → Agrees name) := by
  have hok := start_ok hstart
  constructor
  · intro hall
    refine ⟨(placed_iff hok).mp (hall [] List.nil_prefix).placed, fun name value hmem hfits => ?_⟩
    -- the state right after the set shows where its tuple went
    obtain ⟨before, after, rfl⟩ := List.append_of_mem hmem
    have hprop := hall (before ++ [Op.set name value]) ⟨after, by simp⟩
    have hlive : nvramGet (runOps start (before ++ [Op.set name value])) (some name)
        = some value := by
      rw [runOps, List.foldl_append]
      show nvramGet (nvramSet (runOps start before) name value).2 (some name) = some value
      rw [get_set (runOps_ok hok before), if_pos ⟨rfl, hfits⟩]
    exact (placed_iff (runOps_ok hok _)).mp hprop.placed name
      (by rw [hlive]; exact Option.some_ne_none _)
  · rintro ⟨hnames, hsets⟩ done hdone
    refine mapProperty_of_placed hok ((placed_iff (runOps_ok hok done)).mpr ?_)
    exact agrees_runOps hok hnames fun name value hmem => hsets name value (hdone.subset hmem)

/-- `km` hashes to 3426, which is 342 modulo 1028. -/
theorem mapProperty_km :
    Start Store.empty ∧ MapProperty Store.empty [Op.set (text ['k', 'm']) (text ['x'])] := by
  refine ⟨Or.inl rfl,
    (mapProperty_iff Store.empty (Or.inl rfl) _).mpr ⟨?_, ?_⟩ _ List.prefix_rfl⟩
  · intro name hlive
    exact absurd rfl hlive
  · intro name value hmem _
    have heq : Op.set name value = Op.set (text ['k', 'm']) (text ['x']) := by simpa using hmem
    cases heq
    decide

/-- Setting the variable `a` puts it into bucket 24, but `hash("a")` is 97. -/
theorem mapProperty_fails_a :
    Start Store.empty ∧ ¬ MapProperty Store.empty [Op.set (text ['a']) (text ['b'])] := by
  refine ⟨Or.inl rfl, fun h => ?_⟩
  have hok : (runOps Store.empty [Op.set (text ['a']) (text ['b'])]).Ok := runOps_ok empty_ok _
  have hlive : nvramGet (runOps Store.empty [Op.set (text ['a']) (text ['b'])])
      (some (text ['a'])) ≠ none := by
    rw [get_runOps empty_ok]
    decide
  exact absurd ((placed_iff hok).mp h.placed _ hlive) (by decide)

end UbntSdk.Nvram
