/-
UbntSdk.Lib.Pass — loops that rewrite the elements of a list one after another and
carry a state from one to the next.

`passM` is the loop as a script runs it, where a step may fail. Where no step fails
it is `pass` (`passM_eq`), and there the result at an index is the step at the state
that the elements before it lead to (`pass_getElem`). `pass_sum` is about a state
that the steps hand out, `pass_invariant` about one that keeps a property, and
`map_pass` about results that do not depend on it.

Nothing in this module names a program.
-/
import Mathlib.Algebra.BigOperators.Group.List.Basic
import Mathlib.Algebra.Order.Ring.Int
import Mathlib.Tactic.Common

namespace UbntSdk.Lib

variable {α β σ : Type*}

/-- The loop, where a step may fail. -/
def passM (f : σ → α → Option (β × σ)) : σ → List α → Option (List β × σ)
  | s, [] => some ([], s)
  | s, a :: l => do
      let (b, s) ← f s a
      let (bs, s) ← passM f s l
      some (b :: bs, s)

/-- The loop. -/
def pass (g : σ → α → β × σ) : σ → List α → List β × σ
  | s, [] => ([], s)
  | s, a :: l =>
      let (b, s) := g s a
      let (bs, s) := pass g s l
      (b :: bs, s)

/-- The state that the elements of a list lead to. -/
def passState (g : σ → α → β × σ) (s : σ) (l : List α) : σ := l.foldl (fun s a => (g s a).2) s

@[simp] theorem pass_nil (g : σ → α → β × σ) (s : σ) : pass g s [] = ([], s) := rfl

@[simp] theorem pass_cons (g : σ → α → β × σ) (s : σ) (a : α) (l : List α) :
    pass g s (a :: l) = ((g s a).1 :: (pass g (g s a).2 l).1, (pass g (g s a).2 l).2) := rfl

/-- Where no step fails. -/
theorem passM_eq {f : σ → α → Option (β × σ)} {g : σ → α → β × σ} {l : List α}
    (h : ∀ a ∈ l, ∀ s, f s a = some (g s a)) (s : σ) : passM f s l = some (pass g s l) := by
  induction l generalizing s with
  | nil => rfl
  | cons a l ih =>
      rw [passM, h a List.mem_cons_self s]
      have ih := ih (fun b hb => h b (List.mem_cons_of_mem _ hb)) (g s a).2
      simp [ih]

theorem pass_snd (g : σ → α → β × σ) (s : σ) (l : List α) : (pass g s l).2 = passState g s l := by
  induction l generalizing s with
  | nil => rfl
  | cons a l ih => exact ih _

/-- What does not depend on the state. -/
theorem map_pass {γ : Type*} {g : σ → α → β × σ} {w : β → γ} {h : α → γ}
    (hg : ∀ s a, w (g s a).1 = h a) (s : σ) (l : List α) : (pass g s l).1.map w = l.map h := by
  induction l generalizing s with
  | nil => rfl
  | cons a l ih => rw [pass_cons, List.map_cons, List.map_cons, hg, ih]

/-- A loop whose results do not depend on the state. -/
theorem pass_eq_map {g : σ → α → β × σ} {h : α → β} (hg : ∀ s a, (g s a).1 = h a) (s : σ)
    (l : List α) : pass g s l = (l.map h, passState g s l) := by
  have hfst : (pass g s l).1 = l.map h := by
    rw [← map_pass (w := id) hg s l, List.map_id]
  rw [← hfst, ← pass_snd]

/-- What a step takes out of the state goes into its result. -/
theorem pass_sum {M : Type*} [AddCommMonoid M] {g : σ → α → β × σ} {w : β → M} {v : σ → M}
    {l : List α} (h : ∀ a ∈ l, ∀ s, w (g s a).1 + v (g s a).2 = v s) (s : σ) :
    ((pass g s l).1.map w).sum + v (pass g s l).2 = v s := by
  induction l generalizing s with
  | nil => simp
  | cons a l ih =>
      have ih := ih (fun b hb => h b (List.mem_cons_of_mem _ hb)) (g s a).2
      rw [pass_cons, List.map_cons, List.sum_cons, add_assoc, ih, h a List.mem_cons_self]

/-- An invariant of the state, and what it says about the results. -/
theorem pass_invariant {g : σ → α → β × σ} {I : σ → Prop} {l : List α}
    (h : ∀ a ∈ l, ∀ s, I s → I (g s a).2) {s : σ} (hs : I s) :
    I (pass g s l).2 ∧ ∀ b ∈ (pass g s l).1, ∃ a ∈ l, ∃ t, I t ∧ b = (g t a).1 := by
  induction l generalizing s with
  | nil => exact ⟨hs, fun b hb => absurd hb List.not_mem_nil⟩
  | cons a l ih =>
      obtain ⟨hend, hmem⟩ := ih (fun b hb => h b (List.mem_cons_of_mem _ hb))
        (h a List.mem_cons_self s hs)
      refine ⟨hend, fun b hb => ?_⟩
      rcases List.mem_cons.mp hb with rfl | hb
      · exact ⟨a, List.mem_cons_self, s, hs, rfl⟩
      · obtain ⟨a', ha', t, ht, rfl⟩ := hmem b hb
        exact ⟨a', List.mem_cons_of_mem _ ha', t, ht, rfl⟩

@[simp] theorem length_pass (g : σ → α → β × σ) (s : σ) (l : List α) :
    (pass g s l).1.length = l.length := by
  induction l generalizing s with
  | nil => rfl
  | cons a l ih => simp [ih]

/-- The result at an index. -/
theorem pass_getElem (g : σ → α → β × σ) (s : σ) (l : List α) (i : Nat) :
    (pass g s l).1[i]? = l[i]?.map fun a => (g (passState g s (l.take i)) a).1 := by
  induction l generalizing s i with
  | nil => simp
  | cons a l ih =>
      cases i with
      | zero => simp [passState]
      | succ i => simpa [passState] using ih _ i

/-- An invariant of the state. -/
theorem passState_invariant {g : σ → α → β × σ} {I : σ → Prop} {l : List α}
    (h : ∀ a ∈ l, ∀ s, I s → I (g s a).2) {s : σ} (hs : I s) : I (passState g s l) :=
  pass_snd g s l ▸ (pass_invariant h hs).1

/-- Where steps can be exchanged, the order of the elements does not matter to the state. -/
theorem passState_perm {g : σ → α → β × σ} (hg : ∀ s a b, (g (g s a).2 b).2 = (g (g s b).2 a).2)
    {l l' : List α} (h : l.Perm l') (s : σ) : passState g s l = passState g s l' :=
  h.foldl_eq' (fun a _ b _ s => hg s a b) s

end UbntSdk.Lib
