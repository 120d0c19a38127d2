/-
UbntSdk.Lib.Loop — a C loop as a step function.

A `Pass` is what one pass of a loop does: it goes on with new loop
variables, leaves the loop with a result, or makes an access it must not
make. `run body n s` is at most `n` passes from `s`; running out of them is
`Outcome.running`, so nothing is assumed about termination.

`Reaches body s t` says that the loop gets from `s` to `t`. The two
characterisations are what programs are verified with: a loop never faults
iff no state it reaches faults (`run_ne_fault_iff`), and it ends with a
result iff it reaches a state that stops with it (`run_done_iff`).
`Reaches.invariant` is the invariant rule, `run_done_of_variant` and
`run_ends_of_variant` are the rules for termination and
`run_running_of_invariant` the one for endless loops. Where the way of a loop
depends on a part of its state only, it ends if that part comes to no place
twice (`run_ends_of_acyclic`), and if it ends it did not (`no_cycle_before`).
`foldlM_of_prefix` is the invariant rule for a loop over a list that may fail;
one that may throw is such a loop, too (`toOption_foldlM`).

Nothing in this module names a program.
-/
import Mathlib.Algebra.Order.Ring.Int
import Mathlib.Data.Finset.Card
import Mathlib.Logic.Relation

namespace UbntSdk.Lib

/-- One pass of a loop with variables `σ` and result `ρ`. -/
inductive Pass (σ ρ : Type) where
  | fault
  | next (s : σ)
  | stop (r : ρ)

/-- What a bounded number of passes came to. -/
inductive Outcome (ρ : Type) where
  | fault
  | running
  | done (r : ρ)
  deriving DecidableEq

section Run

variable {σ ρ : Type} (body : σ → Pass σ ρ)

/-- At most `n` passes. -/
def run : Nat → σ → Outcome ρ
  | 0, _ => .running
  | n + 1, s =>
      match body s with
      | .fault => .fault
      | .next t => run n t
      | .stop r => .done r

/-- The loop gets from one state to the other. -/
def Reaches : σ → σ → Prop := Relation.ReflTransGen fun s t => body s = .next t

variable {body}

theorem run_next {n : Nat} {s t : σ} (h : body s = .next t) :
    run body (n + 1) s = run body n t := by
  rw [run, h]

theorem run_stop {n : Nat} {s : σ} {r : ρ} (h : body s = .stop r) :
    run body (n + 1) s = .done r := by
  rw [run, h]

theorem run_fault {n : Nat} {s : σ} (h : body s = .fault) :
    run body (n + 1) s = .fault := by
  rw [run, h]

/-- The invariant rule: what holds on entry and survives every pass holds
in every state the loop reaches. -/
theorem Reaches.invariant {inv : σ → Prop} {s t : σ} (h : Reaches body s t) (h0 : inv s)
    (hstep : ∀ u v, Reaches body s u → inv u → body u = .next v → inv v) : inv t := by
  induction h with
  | refl => exact h0
  | tail hu huv ih => exact hstep _ _ hu ih huv

theorem Reaches.head {s t u : σ} (hst : body s = .next t) (h : Reaches body t u) :
    Reaches body s u :=
  Relation.ReflTransGen.head hst h

theorem Reaches.tail {s t u : σ} (h : Reaches body s t) (htu : body t = .next u) :
    Reaches body s u :=
  Relation.ReflTransGen.tail h htu

theorem run_of_reaches {s t : σ} (h : Reaches body s t) :
    ∃ k, ∀ n, run body (n + k) s = run body n t := by
  induction h with
  | refl => exact ⟨0, fun _ => rfl⟩
  | tail _ htu ih =>
      obtain ⟨k, hk⟩ := ih
      refine ⟨k + 1, fun n => ?_⟩
      rw [show n + (k + 1) = n + 1 + k by omega, hk, run_next htu]

/-- A run that stops got to a state that stops, a run that faults to one
that faults. -/
theorem reaches_of_run : ∀ (n : Nat) (s : σ),
    (run body n s = .fault → ∃ t, Reaches body s t ∧ body t = .fault) ∧
    (∀ r, run body n s = .done r → ∃ t, Reaches body s t ∧ body t = .stop r) := by
  intro n
  induction n with
  | zero => intro s; exact ⟨fun h => (by cases h), fun r h => (by cases h)⟩
  | succ n ih =>
      intro s
      cases hb : body s with
      | fault =>
          rw [run_fault hb]
          exact ⟨fun _ => ⟨s, Relation.ReflTransGen.refl, hb⟩, fun r h => (by cases h)⟩
      | stop r₀ =>
          rw [run_stop hb]
          refine ⟨fun h => (by cases h), fun r h => ?_⟩
          cases h
          exact ⟨s, Relation.ReflTransGen.refl, hb⟩
      | next t =>
          rw [run_next hb]
          obtain ⟨hf, hd⟩ := ih t
          refine ⟨fun h => ?_, fun r h => ?_⟩
          · obtain ⟨u, hu, hbu⟩ := hf h
            exact ⟨u, hu.head hb, hbu⟩
          · obtain ⟨u, hu, hbu⟩ := hd r h
            exact ⟨u, hu.head hb, hbu⟩

theorem run_ne_fault_iff {s : σ} :
    (∀ n, run body n s ≠ .fault) ↔ ∀ t, Reaches body s t → body t ≠ .fault := by
  constructor
  · intro h t ht hb
    obtain ⟨k, hk⟩ := run_of_reaches ht
    exact h (1 + k) (by rw [hk, run_fault hb])
  · intro h n hn
    obtain ⟨t, ht, hb⟩ := (reaches_of_run n s).1 hn
    exact h t ht hb

theorem run_done_iff {s : σ} {r : ρ} :
    (∃ n, run body n s = .done r) ↔ ∃ t, Reaches body s t ∧ body t = .stop r := by
  constructor
  · rintro ⟨n, hn⟩
    exact (reaches_of_run n s).2 r hn
  · rintro ⟨t, ht, hb⟩
    obtain ⟨k, hk⟩ := run_of_reaches ht
    exact ⟨1 + k, by rw [hk, run_stop hb]⟩

/-- A loop that ends with a result does not fault, whatever the bound. -/
theorem run_ne_fault_of_done {n : Nat} {r : ρ} :
    ∀ {s : σ}, run body n s = .done r → ∀ k, run body k s ≠ .fault := by
  induction n with
  | zero => intro s h; cases h
  | succ n ih =>
      intro s h k
      cases k with
      | zero => simp [run]
      | succ k =>
          cases hb : body s with
          | fault => rw [run_fault hb] at h; cases h
          | stop r => rw [run_stop hb]; simp
          | next t =>
              rw [run_next hb] at h ⊢
              exact ih h k

/-- A loop has one result, whatever the bound. -/
theorem run_done_unique {n : Nat} {r r' : ρ} :
    ∀ {s : σ} {m : Nat}, run body n s = .done r → run body m s = .done r' → r = r' := by
  induction n with
  | zero => intro s m h; cases h
  | succ n ih =>
      intro s m h h'
      cases m with
      | zero => cases h'
      | succ m =>
          cases hb : body s with
          | fault => rw [run_fault hb] at h; cases h
          | stop r₀ =>
              rw [run_stop hb] at h h'
              exact Outcome.done.inj (h.symm.trans h')
          | next t =>
              rw [run_next hb] at h h'
              exact ih h h'

/-- The variant rule: a loop ends if, under its invariant, every pass stops
or brings the variant down. -/
theorem run_done_of_variant {inv : σ → Prop} {variant : σ → Nat}
    (hstep : ∀ u, inv u → (∃ r, body u = .stop r) ∨
      ∃ v, body u = .next v ∧ inv v ∧ variant v < variant u)
    {s : σ} (h0 : inv s) : ∃ n r, run body n s = .done r := by
  induction hv : variant s using Nat.strongRecOn generalizing s with
  | ind k ih =>
      rcases hstep s h0 with ⟨r, hr⟩ | ⟨t, ht, hinv, hlt⟩
      · exact ⟨1, r, run_stop hr⟩
      · obtain ⟨n, r, hn⟩ := ih (variant t) (hv ▸ hlt) hinv rfl
        exact ⟨n + 1, r, by rw [run_next ht, hn]⟩

/-- The variant rule for a loop that may fault: it does not run forever if
every pass that goes on brings the variant down. -/
theorem run_ends_of_variant {inv : σ → Prop} {variant : σ → Nat}
    (hstep : ∀ u v, inv u → body u = .next v → inv v ∧ variant v < variant u)
    {s : σ} (h0 : inv s) : ∃ n, run body n s ≠ .running := by
  induction hv : variant s using Nat.strongRecOn generalizing s with
  | ind k ih =>
      cases hb : body s with
      | fault => exact ⟨1, by rw [run_fault hb]; simp⟩
      | stop r => exact ⟨1, by rw [run_stop hb]; simp⟩
      | next t =>
          obtain ⟨hinv, hlt⟩ := hstep s t h0 hb
          obtain ⟨n, hn⟩ := ih (variant t) (hv ▸ hlt) hinv rfl
          exact ⟨n + 1, by rw [run_next hb]; exact hn⟩

/-- A loop whose every pass goes on under the invariant runs forever. -/
theorem run_running_of_invariant {inv : σ → Prop}
    (hstep : ∀ u, inv u → ∃ v, body u = .next v ∧ inv v)
    {s : σ} (h0 : inv s) (n : Nat) : run body n s = .running := by
  induction n generalizing s with
  | zero => rfl
  | succ n ih =>
      obtain ⟨t, ht, hinv⟩ := hstep s h0
      rw [run_next ht]
      exact ih hinv

/-- A loop ends if its way leads through finitely many places and through
none of them twice. -/
theorem run_ends_of_acyclic {α : Type} {place : σ → α} {way : α → α → Prop} (places : Finset α)
    (hstep : ∀ u v, body u = .next v → place u ∈ places ∧ way (place u) (place v)) {s : σ}
    (hacyclic : ∀ a, Relation.ReflTransGen way (place s) a → ¬Relation.TransGen way a a) :
    ∃ n, run body n s ≠ .running := by
  classical
  -- the places that are still ahead
  let ahead : α → Finset α := fun a => places.filter fun b => Relation.ReflTransGen way a b
  refine @run_ends_of_variant _ _ body (fun u => Relation.ReflTransGen way (place s) (place u))
    (fun u => (ahead (place u)).card) (fun u v hu huv => ?_) s Relation.ReflTransGen.refl
  obtain ⟨hmem, hway⟩ := hstep u v huv
  refine ⟨hu.tail hway, Finset.card_lt_card ((Finset.ssubset_iff_of_subset ?_).mpr ?_)⟩
  · intro b hb
    obtain ⟨hb, hvb⟩ := Finset.mem_filter.mp hb
    exact Finset.mem_filter.mpr ⟨hb, Relation.ReflTransGen.head hway hvb⟩
  · refine ⟨place u, Finset.mem_filter.mpr ⟨hmem, Relation.ReflTransGen.refl⟩, fun hb => ?_⟩
    exact hacyclic _ hu (Relation.TransGen.head' hway (Finset.mem_filter.mp hb).2)

end Run

/-- Where a way without forks ends, it has come to no place twice. -/
theorem no_cycle_before {α : Type} {way : α → α → Prop} (hfun : Relator.RightUnique way) {a b : α}
    (hab : Relation.ReflTransGen way a b) (hend : ∀ c, ¬way b c) : ¬Relation.TransGen way a a := by
  induction hab using Relation.ReflTransGen.head_induction_on with
  | refl =>
      intro hcycle
      obtain ⟨c, hbc, _⟩ := Relation.TransGen.head'_iff.mp hcycle
      exact hend c hbc
  | @head a c hac _ ih =>
      intro hcycle
      obtain ⟨d, had, hda⟩ := Relation.TransGen.head'_iff.mp hcycle
      obtain rfl := hfun had hac
      exact ih (Relation.TransGen.tail' hda hac)

/-! ## Loops over lists -/

/-- A loop over a list that may fail: where every element can be taken with the
invariant for those before it, the loop gets through. -/
theorem foldlM_of_prefix {σ α : Type*} {f : σ → α → Option σ} {l : List α}
    (I : List α → σ → Prop) {s : σ} (hstart : I [] s)
    (hstep : ∀ done a todo s, l = done ++ a :: todo → I done s →
      ∃ t, f s a = some t ∧ I (done ++ [a]) t) : ∃ t, l.foldlM f s = some t ∧ I l t := by
  have hrun : ∀ todo done s, l = done ++ todo → I done s →
      ∃ t, todo.foldlM f s = some t ∧ I l t := by
    intro todo
    induction todo with
    | nil =>
        intro done s hl h
        rw [List.append_nil] at hl
        exact ⟨s, rfl, hl ▸ h⟩
    | cons a todo ih =>
        intro done s hl h
        obtain ⟨t, ht, hnext⟩ := hstep done a todo s hl h
        obtain ⟨u, hu, hend⟩ := ih (done ++ [a]) t (by simp [hl]) hnext
        exact ⟨u, by rw [List.foldlM_cons, ht]; exact hu, hend⟩
  exact hrun l [] s rfl hstart

/-- What no pass of a loop over a list changes. -/
theorem foldlM_keeps {σ α β : Type*} {f : σ → α → Option σ} {g : σ → β}
    (hstep : ∀ s a t, f s a = some t → g t = g s) {l : List α} {s t : σ}
    (h : l.foldlM f s = some t) : g t = g s := by
  induction l generalizing s with
  | nil =>
      obtain rfl := Option.some.inj h
      rfl
  | cons a l ih =>
      rw [List.foldlM_cons] at h
      obtain ⟨u, hu, h⟩ := Option.bind_eq_some_iff.mp h
      rw [ih h, hstep s a u hu]

theorem toOption_eq_some {ε α : Type*} {x : Except ε α} {a : α} :
    x.toOption = some a ↔ x = .ok a := by
  cases x with
  | error e => exact iff_of_false (fun h => by cases h) fun h => by cases h
  | ok b => exact ⟨fun h => congrArg Except.ok (Option.some.inj h), fun h => by rw [h]; rfl⟩

/-- A loop that may throw, without what it throws. -/
theorem toOption_foldlM {ε σ α : Type*} {f : σ → α → Except ε σ} (l : List α) (s : σ) :
    (l.foldlM f s).toOption = l.foldlM (fun s a => (f s a).toOption) s := by
  induction l generalizing s with
  | nil => rfl
  | cons a l ih =>
      rw [List.foldlM_cons, List.foldlM_cons]
      cases f s a with
      | error e => rfl
      | ok t => exact ih t

end UbntSdk.Lib
