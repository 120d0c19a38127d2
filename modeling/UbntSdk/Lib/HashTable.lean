/-
UbntSdk.Lib.HashTable — chained hash tables as finite maps.

A table is an array of chains, `Fin n → List E`. An entry has a key, a key
has a bucket. `WellPlaced` is the representation invariant: every entry is
in the bucket of its key and no chain holds a key twice. Under it the table
is a finite map (`lookup`), and the three ways a program edits a chain are
three map updates: linking a new entry in front (`WellPlaced.push`),
replacing an entry in place (`WellPlaced.replace`) and unlinking one
(`WellPlaced.unlink`). Each of these comes with the lookup of the result.

`entries` walks all buckets in order; it lists the map's graph, each key
once (`mem_entries_iff`, `entries_nodup`).

Nothing in this module names a program.
-/
import Mathlib.Algebra.Order.Ring.Int
import Mathlib.Data.List.FinRange
import Mathlib.Data.List.Nodup
import Mathlib.Logic.Function.Basic

namespace UbntSdk.Lib

section HashTable

variable {E K : Type} [DecidableEq K] {n : Nat} (key : E → K) (bucket : K → Fin n)

/-- The entry of a key: the first match in the key's chain. -/
def lookup (t : Fin n → List E) (k : K) : Option E :=
  (t (bucket k)).find? fun e => key e = k

/-- Every entry is in the bucket of its key, and no chain holds a key
twice. -/
structure WellPlaced (t : Fin n → List E) : Prop where
  placed : ∀ i, ∀ e ∈ t i, bucket (key e) = i
  nodup : ∀ i, ((t i).map key).Nodup

/-- All entries, bucket by bucket. -/
def entries (t : Fin n → List E) : List E := (List.finRange n).flatMap t

variable {key bucket}

omit [DecidableEq K] in
theorem wellPlaced_empty : WellPlaced key bucket fun _ => [] :=
  ⟨fun _ _ he => absurd he List.not_mem_nil, fun _ => List.nodup_nil⟩

theorem lookup_eq_none {t : Fin n → List E} {k : K} :
    lookup key bucket t k = none ↔ ∀ e ∈ t (bucket k), key e ≠ k := by
  simp [lookup, List.find?_eq_none]

/-- Rewriting another bucket does not change a key's entry. -/
theorem lookup_update_ne {t : Fin n → List E} {i : Fin n} {c : List E} {k : K}
    (h : bucket k ≠ i) : lookup key bucket (Function.update t i c) k = lookup key bucket t k := by
  rw [lookup, Function.update_of_ne h, lookup]

theorem lookup_update_self {t : Fin n → List E} {c : List E} (k : K) :
    lookup key bucket (Function.update t (bucket k) c) k = c.find? fun e => key e = k := by
  rw [lookup, Function.update_self]

omit [DecidableEq K] in
/-- A chain may be replaced by one that is placed and without repetitions. -/
theorem WellPlaced.update {t : Fin n → List E} (h : WellPlaced key bucket t) {i : Fin n}
    {c : List E} (hplaced : ∀ e ∈ c, bucket (key e) = i) (hnodup : (c.map key).Nodup) :
    WellPlaced key bucket (Function.update t i c) := by
  refine ⟨fun j e he => ?_, fun j => ?_⟩
  · by_cases hj : j = i
    · subst hj
      rw [Function.update_self] at he
      exact hplaced e he
    · rw [Function.update_of_ne hj] at he
      exact h.placed j e he
  · by_cases hj : j = i
    · subst hj
      rw [Function.update_self]
      exact hnodup
    · rw [Function.update_of_ne hj]
      exact h.nodup j

/-! ## Linking a new entry -/

theorem WellPlaced.push {t : Fin n → List E} (h : WellPlaced key bucket t) {e : E}
    (hnew : lookup key bucket t (key e) = none) :
    WellPlaced key bucket (Function.update t (bucket (key e)) (e :: t (bucket (key e)))) := by
  refine h.update (fun x hx => ?_) ?_
  · rcases List.mem_cons.mp hx with rfl | hx
    · rfl
    · exact h.placed _ x hx
  · rw [List.map_cons, List.nodup_cons]
    refine ⟨fun hmem => ?_, h.nodup _⟩
    obtain ⟨x, hx, hkey⟩ := List.mem_map.mp hmem
    exact lookup_eq_none.mp hnew x hx hkey

theorem lookup_push {t : Fin n → List E} {e : E} (k : K) :
    lookup key bucket (Function.update t (bucket (key e)) (e :: t (bucket (key e)))) k
      = if k = key e then some e else lookup key bucket t k := by
  by_cases hk : k = key e
  · subst hk
    rw [lookup_update_self, if_pos rfl]
    simp
  · rw [if_neg hk]
    by_cases hb : bucket k = bucket (key e)
    · rw [← hb, lookup_update_self, lookup]
      have hne : ¬ key e = k := fun h => hk h.symm
      simp [hne]
    · rw [lookup_update_ne hb]

/-! ## Replacing and unlinking an entry -/

section Edit

variable {t : Fin n → List E} {e : E} {before after : List E}
  (hchain : t (bucket (key e)) = before ++ e :: after)

include hchain

omit [DecidableEq K] in
theorem WellPlaced.replace (h : WellPlaced key bucket t) {e' : E} (hkey : key e' = key e) :
    WellPlaced key bucket
      (Function.update t (bucket (key e)) (before ++ e' :: after)) := by
  have hplaced := h.placed (bucket (key e))
  have hnodup := h.nodup (bucket (key e))
  rw [hchain] at hplaced hnodup
  refine h.update (fun x hx => ?_) ?_
  · rcases List.mem_append.mp hx with hx | hx
    · exact hplaced x (List.mem_append_left _ hx)
    · rcases List.mem_cons.mp hx with rfl | hx
      · rw [hkey]
      · exact hplaced x (List.mem_append_right _ (List.mem_cons_of_mem _ hx))
  · simpa [hkey] using hnodup

omit [DecidableEq K] in
theorem WellPlaced.unlink (h : WellPlaced key bucket t) :
    WellPlaced key bucket (Function.update t (bucket (key e)) (before ++ after)) := by
  have hplaced := h.placed (bucket (key e))
  have hnodup := h.nodup (bucket (key e))
  rw [hchain] at hplaced hnodup
  have hsub : (before ++ after).Sublist (before ++ e :: after) :=
    (List.Sublist.refl before).append (List.sublist_cons_self e after)
  exact h.update (fun x hx => hplaced x (hsub.subset hx)) (hnodup.sublist (hsub.map key))

omit [DecidableEq K] in
/-- No other entry of the chain has the key of the edited one. -/
theorem WellPlaced.key_ne (h : WellPlaced key bucket t) :
    (∀ x ∈ before, key x ≠ key e) ∧ ∀ x ∈ after, key x ≠ key e := by
  have hnodup := h.nodup (bucket (key e))
  rw [hchain, List.map_append, List.map_cons, List.nodup_append] at hnodup
  obtain ⟨_, htail, hdisj⟩ := hnodup
  refine ⟨fun x hx hxe => ?_, fun x hx hxe => ?_⟩
  · exact hdisj (key x) (List.mem_map_of_mem hx) (key e) (by simp) hxe
  · rw [List.nodup_cons] at htail
    exact htail.1 (hxe ▸ List.mem_map_of_mem hx)

theorem lookup_replace (h : WellPlaced key bucket t) {e' : E} (hkey : key e' = key e) (k : K) :
    lookup key bucket (Function.update t (bucket (key e)) (before ++ e' :: after)) k
      = if k = key e then some e' else lookup key bucket t k := by
  obtain ⟨hbefore, _⟩ := h.key_ne hchain
  by_cases hk : k = key e
  · subst hk
    have hnone : before.find? (fun x => key x = key e) = none := by
      simpa [List.find?_eq_none] using hbefore
    rw [lookup_update_self, if_pos rfl, List.find?_append, hnone]
    simp [hkey]
  · rw [if_neg hk]
    by_cases hb : bucket k = bucket (key e)
    · have hne : ¬ key e = k := fun h => hk h.symm
      rw [← hb, lookup_update_self, lookup, hb, hchain, List.find?_append, List.find?_append]
      simp [hkey, hne]
    · rw [lookup_update_ne hb]

theorem lookup_unlink (h : WellPlaced key bucket t) (k : K) :
    lookup key bucket (Function.update t (bucket (key e)) (before ++ after)) k
      = if k = key e then none else lookup key bucket t k := by
  obtain ⟨hbefore, hafter⟩ := h.key_ne hchain
  by_cases hk : k = key e
  · subst hk
    rw [lookup_update_self, if_pos rfl, List.find?_eq_none]
    intro x hx
    rcases List.mem_append.mp hx with hx | hx
    · simpa using hbefore x hx
    · simpa using hafter x hx
  · rw [if_neg hk]
    by_cases hb : bucket k = bucket (key e)
    · have hne : ¬ key e = k := fun h => hk h.symm
      rw [← hb, lookup_update_self, lookup, hb, hchain, List.find?_append, List.find?_append]
      simp [hne]
    · rw [lookup_update_ne hb]

/-- The edited entry is the one its key finds. -/
theorem lookup_chain (h : WellPlaced key bucket t) :
    lookup key bucket t (key e) = some e := by
  obtain ⟨hbefore, _⟩ := h.key_ne hchain
  have hnone : before.find? (fun x => key x = key e) = none := by
    simpa [List.find?_eq_none] using hbefore
  rw [lookup, hchain, List.find?_append, hnone]
  simp

end Edit

/-! ## The list of all entries -/

theorem mem_entries_iff {t : Fin n → List E} (h : WellPlaced key bucket t) {e : E} :
    e ∈ entries t ↔ lookup key bucket t (key e) = some e := by
  rw [entries, List.mem_flatMap]
  constructor
  · rintro ⟨i, _, he⟩
    have hi := h.placed i e he
    subst hi
    obtain ⟨before, after, hchain⟩ := List.append_of_mem he
    exact lookup_chain hchain h
  · intro hl
    exact ⟨bucket (key e), List.mem_finRange _, List.mem_of_find?_eq_some hl⟩

omit [DecidableEq K] in
theorem entries_nodup {t : Fin n → List E} (h : WellPlaced key bucket t) :
    ((entries t).map key).Nodup := by
  rw [entries, List.map_flatMap, List.nodup_flatMap]
  refine ⟨fun i _ => h.nodup i, ?_⟩
  refine (List.nodup_finRange n).imp_of_mem fun {i j} _ _ hij => ?_
  intro k hki hkj
  obtain ⟨x, hx, rfl⟩ := List.mem_map.mp hki
  obtain ⟨y, hy, hyx⟩ := List.mem_map.mp hkj
  have hi := h.placed i x hx
  have hj := h.placed j y hy
  exact hij (by rw [← hi, ← hj, hyx])

end HashTable

end UbntSdk.Lib
