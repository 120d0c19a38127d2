/-
UbntSdk.Nvram.StoreTheorems — the variable table is a finite map.

`walkChain` is specified once: it splits the chain at the first tuple of
the name, or finds none. From that each call gets one inversion lemma
(`nvramSet_cases`, `nvramUnset_cases`) which says what it does to the
table, and the hash-table library turns these edits into map updates
(`get_set`, `get_unset`).

`step_ok` is what one call preserves, `runOps_ok` what a whole run
preserves. `get_runOps` is the refinement: after any run a name has the
value of the last successful set, unless an unset came after it.
-/
import UbntSdk.Nvram.Store

namespace UbntSdk.Nvram

open UbntSdk.Lib

/-- The representation invariant of the table, for the bucket function the
code computes. -/
def Store.Ok (h : Store) : Prop := WellPlaced Tuple.name bucket h.nvramHash

/-- The value fits, so `_nvram_realloc` does not give up. -/
def Fits (value : CStr) : Prop := value.strlen + 1 ≤ NVRAM_SPACE

instance (value : CStr) : Decidable (Fits value) := inferInstanceAs (Decidable (_ ≤ _))

theorem empty_ok : Store.empty.Ok := wellPlaced_empty

/-! ## One chain -/

/-- The walk stops at a tuple of the name, at its place in the chain. -/
theorem walkChain_found {c : List Tuple} {name : CStr} {before after : List Tuple} {t : Tuple}
    (h : walkChain c name = (before, some (t, after))) :
    c = before ++ t :: after ∧ t.name = name := by
  induction c generalizing before with
  | nil => simp [walkChain] at h
  | cons u rest ih =>
      rw [walkChain] at h
      split at h
      · rename_i heq
        obtain ⟨rfl, rfl, rfl⟩ : before = [] ∧ t = u ∧ after = rest := by
          simpa [eq_comm] using h
        exact ⟨rfl, heq⟩
      · obtain ⟨hbefore, hfound⟩ := Prod.mk.inj h
        obtain ⟨hrest, hname⟩ := ih (Prod.ext rfl hfound)
        refine ⟨?_, hname⟩
        rw [← hbefore, List.cons_append, ← hrest]

/-- A walk that finds nothing went past every tuple of the chain. -/
theorem walkChain_none {c : List Tuple} {name : CStr} {before : List Tuple}
    (h : walkChain c name = (before, none)) : ∀ t ∈ c, t.name ≠ name := by
  induction c generalizing before with
  | nil => exact fun t ht => absurd ht List.not_mem_nil
  | cons u rest ih =>
      rw [walkChain] at h
      split at h
      · simp at h
      · rename_i hne
        obtain ⟨_, hfound⟩ := Prod.mk.inj h
        intro t ht
        rcases List.mem_cons.mp ht with rfl | ht
        · exact hne
        · exact ih (Prod.ext rfl hfound) t ht

/-- `nvram_get` is the lookup of the hash table. -/
theorem nvramGet_eq {h : Store} (hok : h.Ok) (name : CStr) :
    nvramGet h (some name)
      = (lookup Tuple.name bucket h.nvramHash name).map Tuple.value := by
  rw [nvramGet]
  cases hw : walkChain (h.nvramHash (bucket name)) name with
  | mk before found =>
      cases found with
      | none =>
          have hnone : lookup Tuple.name bucket h.nvramHash name = none :=
            lookup_eq_none.mpr (walkChain_none hw)
          rw [hnone]
          rfl
      | some p =>
          obtain ⟨t, after⟩ := p
          obtain ⟨hchain, rfl⟩ := walkChain_found hw
          rw [lookup_chain hchain hok]
          rfl

/-! ## What one call does to the table -/

/-- The three ends of `nvram_set`: the value is too long and nothing
changes, the tuple of the name gets the value in place, or a new tuple is
linked in front of its chain. -/
theorem nvramSet_cases (h : Store) (name value : CStr) :
    (¬ Fits value ∧ nvramSet h name value = (-12, h)) ∨
    (Fits value ∧ ∃ before t after,
      h.nvramHash (bucket name) = before ++ t :: after ∧ t.name = name ∧
      nvramSet h name value = (0, { h with
        nvramHash := Function.update h.nvramHash (bucket name)
          (before ++ ⟨name, value⟩ :: after) })) ∨
    (Fits value ∧ lookup Tuple.name bucket h.nvramHash name = none ∧
      nvramSet h name value = (0, { h with
        nvramHash := Function.update h.nvramHash (bucket name)
          (⟨name, value⟩ :: h.nvramHash (bucket name)) })) := by
  by_cases hfits : Fits value
  · have hlong : ¬ value.strlen + 1 > NVRAM_SPACE := Nat.not_lt.mpr hfits
    cases hw : walkChain (h.nvramHash (bucket name)) name with
    | mk before found =>
        cases found with
        | none =>
            refine Or.inr (Or.inr ⟨hfits, lookup_eq_none.mpr (walkChain_none hw), ?_⟩)
            simp [nvramSet, hw, nvramRealloc, hlong]
        | some p =>
            obtain ⟨t, after⟩ := p
            obtain ⟨hchain, rfl⟩ := walkChain_found hw
            refine Or.inr (Or.inl ⟨hfits, before, t, after, hchain, rfl, ?_⟩)
            -- the old string is kept when it already is the value
            have hsame : (if t.value = value then t else { t with value }) = ⟨t.name, value⟩ := by
              split
              · rename_i heq
                rw [← heq]
              · rfl
            simp only [nvramSet, hw, nvramRealloc, hlong, if_false, Option.map_some, hsame]
  · refine Or.inl ⟨hfits, ?_⟩
    have hlong : value.strlen + 1 > NVRAM_SPACE := Nat.lt_of_not_le hfits
    simp [nvramSet, nvramRealloc, hlong]

/-- The two ends of `nvram_unset` on a name. -/
theorem nvramUnset_cases (h : Store) (name : CStr) :
    (lookup Tuple.name bucket h.nvramHash name = none ∧ nvramUnset h (some name) = (0, h)) ∨
    (∃ before t after, h.nvramHash (bucket name) = before ++ t :: after ∧ t.name = name ∧
      nvramUnset h (some name) = (0, {
        nvramHash := Function.update h.nvramHash (bucket name) (before ++ after),
        nvramDead := t :: h.nvramDead })) := by
  cases hw : walkChain (h.nvramHash (bucket name)) name with
  | mk before found =>
      cases found with
      | none =>
          refine Or.inl ⟨lookup_eq_none.mpr (walkChain_none hw), ?_⟩
          simp [nvramUnset, hw]
      | some p =>
          obtain ⟨t, after⟩ := p
          obtain ⟨hchain, hname⟩ := walkChain_found hw
          refine Or.inr ⟨before, t, after, hchain, hname, ?_⟩
          simp [nvramUnset, hw]

/-- The return code says whether the value fits. -/
theorem nvramSet_code (h : Store) (name value : CStr) :
    (nvramSet h name value).1 = if Fits value then 0 else -12 := by
  rcases nvramSet_cases h name value with ⟨hf, heq⟩ | ⟨hf, _, _, _, _, _, heq⟩ | ⟨hf, _, heq⟩ <;>
    rw [heq] <;> simp [hf]

/-- A set that fails changes nothing. -/
theorem nvramSet_failed {h : Store} {name value : CStr} (hfail : (nvramSet h name value).1 ≠ 0) :
    (nvramSet h name value).2 = h := by
  rcases nvramSet_cases h name value with ⟨_, heq⟩ | ⟨_, _, _, _, _, _, heq⟩ | ⟨_, _, heq⟩
  · rw [heq]
  · exact absurd (by rw [heq]) hfail
  · exact absurd (by rw [heq]) hfail

theorem nvramSet_ok {h : Store} (hok : h.Ok) (name value : CStr) :
    (nvramSet h name value).2.Ok := by
  rcases nvramSet_cases h name value with
    ⟨_, heq⟩ | ⟨_, before, t, after, hchain, rfl, heq⟩ | ⟨_, hnew, heq⟩
  · rw [heq]
    exact hok
  · rw [heq]
    exact WellPlaced.replace hchain hok rfl
  · rw [heq]
    exact WellPlaced.push (e := ⟨name, value⟩) hok hnew

theorem nvramUnset_ok {h : Store} (hok : h.Ok) (name : Option CStr) :
    (nvramUnset h name).2.Ok := by
  cases name with
  | none => exact hok
  | some name =>
      rcases nvramUnset_cases h name with ⟨_, heq⟩ | ⟨before, t, after, hchain, rfl, heq⟩
      · rw [heq]
        exact hok
      · rw [heq]
        exact WellPlaced.unlink hchain hok

/-- A successful set binds its name and no other. -/
theorem get_set {h : Store} (hok : h.Ok) (name value k : CStr) :
    nvramGet (nvramSet h name value).2 (some k)
      = if k = name ∧ Fits value then some value else nvramGet h (some k) := by
  rw [nvramGet_eq (nvramSet_ok hok name value), nvramGet_eq hok]
  rcases nvramSet_cases h name value with
    ⟨hf, heq⟩ | ⟨hf, before, t, after, hchain, rfl, heq⟩ | ⟨hf, hnew, heq⟩
  · simp [heq, hf]
  · rw [heq]
    show (lookup Tuple.name bucket (Function.update h.nvramHash (bucket t.name)
      (before ++ ⟨t.name, value⟩ :: after)) k).map Tuple.value = _
    rw [lookup_replace hchain hok (show (⟨t.name, value⟩ : Tuple).name = t.name from rfl)]
    split <;> simp_all
  · rw [heq]
    show (lookup Tuple.name bucket (Function.update h.nvramHash (bucket name)
      (⟨name, value⟩ :: h.nvramHash (bucket name))) k).map Tuple.value = _
    rw [lookup_push (e := (⟨name, value⟩ : Tuple))]
    split <;> simp_all

/-- An unset removes its name and no other. -/
theorem get_unset {h : Store} (hok : h.Ok) (name k : CStr) :
    nvramGet (nvramUnset h (some name)).2 (some k)
      = if k = name then none else nvramGet h (some k) := by
  rw [nvramGet_eq (nvramUnset_ok hok (some name)), nvramGet_eq hok]
  rcases nvramUnset_cases h name with ⟨hnone, heq⟩ | ⟨before, t, after, hchain, rfl, heq⟩
  · rw [heq]
    split
    · rename_i hk
      rw [hk, hnone]
      rfl
    · rfl
  · rw [heq]
    show (lookup Tuple.name bucket (Function.update h.nvramHash (bucket t.name)
      (before ++ after)) k).map Tuple.value = _
    rw [lookup_unlink hchain hok]
    split <;> simp_all

/-! ## The listing -/

/-- `nvram_getall` lists the tables' entries, last bucket first. -/
theorem nvramGetall_eq (h : Store) : nvramGetall h = (entries h.nvramHash).reverse := by
  have hchain : ∀ (c l : List Tuple), c.foldl (fun l t => t :: l) l = c.reverse ++ l := by
    intro c
    induction c with
    | nil => exact fun l => rfl
    | cons t c ih =>
        intro l
        rw [List.foldl_cons, ih, List.reverse_cons, List.append_assoc]
        rfl
  have hall : ∀ (is : List (Fin NVRAM_BUCKETS)) (l : List Tuple),
      is.foldl (fun l i => (h.nvramHash i).foldl (fun l t => t :: l) l) l
        = (is.flatMap h.nvramHash).reverse ++ l := by
    intro is
    induction is with
    | nil => exact fun l => rfl
    | cons i is ih =>
        intro l
        rw [List.foldl_cons, hchain, ih, List.flatMap_cons, List.reverse_append,
          List.append_assoc]
  rw [nvramGetall, hall, List.append_nil, entries]

/-- Under the invariant the entries are the graph of `nvram_get`. -/
theorem mem_entries_get {h : Store} (hok : h.Ok) (t : Tuple) :
    t ∈ entries h.nvramHash ↔ nvramGet h (some t.name) = some t.value := by
  rw [mem_entries_iff hok, nvramGet_eq hok]
  constructor
  · intro hl
    rw [hl]
    rfl
  · intro hl
    obtain ⟨u, hu, hvalue⟩ := Option.map_eq_some_iff.mp hl
    have hname : u.name = t.name := by
      have hfind := List.find?_some hu
      simpa using hfind
    rw [hu]
    cases u
    cases t
    simp_all

/-! ## Runs -/

theorem step_ok {h : Store} (hok : h.Ok) (op : Op) : (step h op).Ok := by
  cases op with
  | set name value => exact nvramSet_ok hok name value
  | unset name => exact nvramUnset_ok hok name
  | get name => exact hok
  | getall => exact hok

theorem runOps_ok {h : Store} (hok : h.Ok) (ops : List Op) : (runOps h ops).Ok := by
  induction ops generalizing h with
  | nil => exact hok
  | cons op ops ih => exact ih (step_ok hok op)

/-- What a call does to one name: bind it, remove it, or nothing. -/
def Op.effectOn (name : CStr) : Op → Option (Option CStr)
  | .set n value => if n = name ∧ Fits value then some (some value) else none
  | .unset (some n) => if n = name then some none else none
  | .unset none => none
  | .get _ => none
  | .getall => none

/-- The value of a name after a run, read off the calls: the last effect on
the name, or its value at the start. -/
def expected (start : CStr → Option CStr) (ops : List Op) (name : CStr) : Option CStr :=
  ((ops.filterMap (Op.effectOn name)).getLast?).getD (start name)

theorem get_step {h : Store} (hok : h.Ok) (op : Op) (name : CStr) :
    nvramGet (step h op) (some name)
      = (op.effectOn name).getD (nvramGet h (some name)) := by
  cases op with
  | set n value =>
      show nvramGet (nvramSet h n value).2 (some name) = _
      rw [get_set hok, Op.effectOn]
      by_cases hn : n = name
      · subst hn
        by_cases hf : Fits value <;> simp [hf]
      · have hn' : ¬ name = n := fun h => hn h.symm
        simp [hn, hn']
  | unset n =>
      cases n with
      | none => rfl
      | some n =>
          show nvramGet (nvramUnset h (some n)).2 (some name) = _
          rw [get_unset hok, Op.effectOn]
          by_cases hn : n = name
          · subst hn
            simp
          · have hn' : ¬ name = n := fun h => hn h.symm
            simp [hn, hn']
  | get n => rfl
  | getall => rfl

/-- The refinement over whole runs. -/
theorem get_runOps {h : Store} (hok : h.Ok) (ops : List Op) (name : CStr) :
    nvramGet (runOps h ops) (some name)
      = expected (fun n => nvramGet h (some n)) ops name := by
  induction ops generalizing h with
  | nil => rfl
  | cons op ops ih =>
      show nvramGet (runOps (step h op) ops) (some name) = _
      rw [ih (step_ok hok op), expected, expected, get_step hok, List.filterMap_cons]
      cases op.effectOn name with
      | none => rfl
      | some v => rw [List.getLast?_cons, Option.getD_some]; rfl

end UbntSdk.Nvram
