/-
UbntSdk.Lib.Writers — a variable that writers set one after another.

A writer sets the variable (`set`), fills it with a default where it does not hold
(`fill`), or leaves it alone (`keep`). Where the writers agree the order is nothing
(`run_of_agree`, `run_of_fill`), and where every order gives the same they agree
(`set_of_perm`, `holds_of_perm`).

Nothing in this module names a program.
-/
import Mathlib.Algebra.Order.Ring.Int
import Mathlib.Data.List.Perm.Basic

namespace UbntSdk.Lib

/-- What a writer does to the variable. -/
inductive Writer (V : Type*) where
  | keep
  | fill
  | set (v : V)
  deriving DecidableEq

namespace Writer

variable {V α : Type*} (holds : V → Bool) (default : V)

/-- A value that does not hold counts as none for `fill`. -/
def apply : Writer V → Option V → Option V
  | keep, s => s
  | fill, s => if s.any holds then s else some default
  | set v, _ => some v

/-- The writers one after another. -/
def run (ws : List (Writer V)) (s : Option V) : Option V :=
  ws.foldl (fun s w => w.apply holds default s) s

variable {holds default}

@[simp] theorem run_nil (s : Option V) : run holds default [] s = s := rfl

@[simp] theorem run_cons (w : Writer V) (ws : List (Writer V)) (s : Option V) :
    run holds default (w :: ws) s = run holds default ws (w.apply holds default s) := rfl

theorem run_concat (ws : List (Writer V)) (w : Writer V) (s : Option V) :
    run holds default (ws ++ [w]) s = w.apply holds default (run holds default ws s) :=
  List.foldl_concat _ _ _ _

/-- Writers that set the same value, which holds where one of them fills. -/
theorem run_of_agree {ws : List (Writer V)} {s : Option V} {v : V}
    (hset : ∀ u, set u ∈ ws → u = v) (hfill : fill ∈ ws → holds v)
    (hv : s = some v ∨ set v ∈ ws) : run holds default ws s = some v := by
  induction ws generalizing s with
  | nil => exact hv.resolve_right List.not_mem_nil
  | cons w ws ih =>
      have hset' : ∀ u, set u ∈ ws → u = v := fun u hu => hset u (List.mem_cons_of_mem w hu)
      have hfill' : fill ∈ ws → holds v := fun hmem => hfill (List.mem_cons_of_mem w hmem)
      rw [run_cons]
      by_cases hws : set v ∈ ws
      · exact ih hset' hfill' (.inr hws)
      · refine ih hset' hfill' (.inl ?_)
        cases w with
        | keep => exact hv.resolve_right (by simpa using hws)
        | fill =>
            rw [hv.resolve_right (by simpa using hws), apply]
            simp [hfill List.mem_cons_self]
        | set u => rw [hset u List.mem_cons_self, apply]

/-- Writers that leave the variable alone. -/
theorem run_of_keep {ws : List (Writer V)} (hset : ∀ u, set u ∉ ws) (hfill : fill ∉ ws)
    (s : Option V) : run holds default ws s = s := by
  induction ws with
  | nil => rfl
  | cons w ws ih =>
      have ih := ih (fun u hu => hset u (List.mem_cons_of_mem w hu))
        (fun hmem => hfill (List.mem_cons_of_mem w hmem))
      cases w with
      | keep => exact ih
      | fill => exact absurd List.mem_cons_self hfill
      | set u => exact absurd List.mem_cons_self (hset u)

theorem fill_fill (s : Option V) : fill.apply holds default (fill.apply holds default s) =
    fill.apply holds default s := by
  by_cases hs : s.any holds <;> simp [apply, hs]

/-- Writers that fill the variable, and none that sets it. -/
theorem run_of_fill {ws : List (Writer V)} (hset : ∀ u, set u ∉ ws) (hfill : fill ∈ ws)
    (s : Option V) : run holds default ws s = fill.apply holds default s := by
  induction ws generalizing s with
  | nil => cases hfill
  | cons w ws ih =>
      have hset' : ∀ u, set u ∉ ws := fun u hu => hset u (List.mem_cons_of_mem w hu)
      rw [run_cons]
      by_cases hws : fill ∈ ws
      · rw [ih hset' hws]
        cases w with
        | keep => rfl
        | fill => exact fill_fill s
        | set u => exact absurd List.mem_cons_self (hset u)
      · rw [run_of_keep hset' hws]
        rcases List.mem_cons.mp hfill with rfl | hmem
        · rfl
        · exact absurd hmem hws

/-- The variable has a value if it had one or a writer does not leave it alone. -/
theorem run_ne_none {ws : List (Writer V)} {s : Option V} :
    run holds default ws s ≠ none ↔ s ≠ none ∨ ∃ w ∈ ws, w ≠ keep := by
  induction ws generalizing s with
  | nil => simp
  | cons w ws ih =>
      have hw : w.apply holds default s ≠ none ↔ s ≠ none ∨ w ≠ keep := by
        cases w with
        | keep => simp [apply]
        | fill =>
            by_cases hs : s.any holds
            · have hne : s ≠ none := fun hnone => by simp [hnone] at hs
              simp [apply, hs, hne]
            · simp [apply, hs]
        | set v => simp [apply]
      rw [run_cons, ih, hw, or_assoc, List.exists_mem_cons_iff]

/-- There is an order with a given element at the end. -/
theorem exists_perm_concat {a : α} {l : List α} (h : a ∈ l) : ∃ l', (l' ++ [a]).Perm l := by
  obtain ⟨s, t, rfl⟩ := List.append_of_mem h
  refine ⟨s ++ t, ?_⟩
  rw [List.append_assoc]
  exact List.Perm.append_left s List.perm_append_comm

section

variable {f : α → Writer V} {l : List α} {s r : Option V}

/-- Where every order gives the same, the writers set the same. -/
theorem set_of_perm (h : ∀ l' : List α, l'.Perm l → run holds default (l'.map f) s = r) {a : α} {v : V}
    (ha : a ∈ l) (hset : f a = set v) : r = some v := by
  obtain ⟨l', hl'⟩ := exists_perm_concat ha
  rw [← h _ hl', List.map_append, List.map_singleton, run_concat, hset, apply]

/-- Where every order gives the same, a value that is set holds or is the default if
another writer fills. -/
theorem holds_of_perm (h : ∀ l' : List α, l'.Perm l → run holds default (l'.map f) s = r) {a b : α}
    {v : V} (ha : a ∈ l) (hset : f a = set v) (hb : b ∈ l) (hfill : f b = fill) :
    holds v ∨ v = default := by
  obtain ⟨l', hl'⟩ := exists_perm_concat hb
  have hab : a ∈ l' := by
    have hmem : a ∈ l' ++ [b] := hl'.mem_iff.mpr ha
    refine (List.mem_append.mp hmem).resolve_right fun hb => ?_
    rw [List.mem_singleton.mp hb, hfill] at hset
    cases hset
  obtain ⟨l'', hl''⟩ := exists_perm_concat hab
  have hlast := h _ ((hl''.append_right [b]).trans hl')
  rw [set_of_perm h ha hset, List.map_append, List.map_singleton, run_concat, hfill,
    List.map_append, List.map_singleton, run_concat, hset] at hlast
  by_cases hv : holds v
  · exact .inl hv
  · simp only [apply, Option.any_some, hv, Bool.false_eq_true, if_false] at hlast
    exact .inr (Option.some.inj hlast).symm

end

end Writer

end UbntSdk.Lib
