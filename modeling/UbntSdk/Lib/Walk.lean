/-
UbntSdk.Lib.Walk — going through a linked list and unlinking on the way.

A kernel list is searched with `hlist_for_each_entry_safe`: the body may
unlink the node it is at, may change it, and may leave the loop with a
pointer to it. `walk visit xs` is such a loop, where `visit` says what the
body does with one node. Its result keeps the nodes before and after the
one found apart, so that the caller can go on and change the node through
the pointer.

`Pruned keep gone xs ys` says what such a loop may have done to the nodes
it passed: each one is changed as `keep` allows or, if it is `gone`,
unlinked. `walk_hit` and `walk_miss` are all that is needed of `walk`.

Nothing in this module names a program.
-/
import Mathlib.Algebra.Order.Ring.Int
import Mathlib.Data.List.Basic
import Mathlib.Data.List.Nodup

namespace UbntSdk.Lib

/-- What the body does with a node. -/
inductive Visit (α : Type) where
  | unlink
  | keep (x : α)
  | found (x : α)

/-- The list after the loop, split at the node that was found. -/
inductive Walk (α : Type) where
  | miss (xs : List α)
  | hit (before : List α) (x : α) (after : List α)
  deriving DecidableEq

namespace Walk

variable {α : Type}

def push (y : α) : Walk α → Walk α
  | .miss xs => .miss (y :: xs)
  | .hit before x after => .hit (y :: before) x after

/-- The nodes after the loop. -/
def toList : Walk α → List α
  | .miss xs => xs
  | .hit before x after => before ++ x :: after

/-- What the pointer points to. -/
def node? : Walk α → Option α
  | .miss _ => none
  | .hit _ x _ => some x

end Walk

section

variable {α β : Type}

def walk (visit : α → Visit α) : List α → Walk α
  | [] => .miss []
  | x :: xs =>
      match visit x with
      | .unlink => walk visit xs
      | .keep y => (walk visit xs).push y
      | .found y => .hit [] y xs

/-- What a loop did to the nodes it passed. -/
inductive Pruned (keep : α → α → Prop) (gone : α → Prop) : List α → List α → Prop
  | nil : Pruned keep gone [] []
  | keep {x y : α} {xs ys : List α} (h : keep x y) (hrest : Pruned keep gone xs ys) :
      Pruned keep gone (x :: xs) (y :: ys)
  | unlink {x : α} {xs ys : List α} (h : gone x) (hrest : Pruned keep gone xs ys) :
      Pruned keep gone (x :: xs) ys

namespace Pruned

variable {keep : α → α → Prop} {gone : α → Prop} {xs ys : List α}

theorem refl (h : ∀ x, keep x x) : ∀ xs, Pruned keep gone xs xs
  | [] => .nil
  | x :: xs => .keep (h x) (refl h xs)

theorem append {xs' ys' : List α} (h : Pruned keep gone xs ys) (h' : Pruned keep gone xs' ys') :
    Pruned keep gone (xs ++ xs') (ys ++ ys') := by
  induction h with
  | nil => exact h'
  | keep hk _ ih => exact .keep hk ih
  | unlink hg _ ih => exact .unlink hg ih

theorem mono {keep' : α → α → Prop} {gone' : α → Prop} (hk : ∀ x y, keep x y → keep' x y)
    (hg : ∀ x, gone x → gone' x) (h : Pruned keep gone xs ys) : Pruned keep' gone' xs ys := by
  induction h with
  | nil => exact .nil
  | keep h _ ih => exact .keep (hk _ _ h) ih
  | unlink h _ ih => exact .unlink (hg _ h) ih

/-- No node is new. -/
theorem mem_after (h : Pruned keep gone xs ys) {y : α} (hy : y ∈ ys) : ∃ x ∈ xs, keep x y := by
  induction h with
  | nil => cases hy
  | keep hk _ ih =>
      rcases List.mem_cons.mp hy with rfl | hy
      · exact ⟨_, List.mem_cons_self, hk⟩
      · obtain ⟨x, hx, hxy⟩ := ih hy
        exact ⟨x, List.mem_cons_of_mem _ hx, hxy⟩
  | unlink _ _ ih =>
      obtain ⟨x, hx, hxy⟩ := ih hy
      exact ⟨x, List.mem_cons_of_mem _ hx, hxy⟩

/-- A node that is not gone is still there. -/
theorem mem_before (h : Pruned keep gone xs ys) {x : α} (hx : x ∈ xs) :
    gone x ∨ ∃ y ∈ ys, keep x y := by
  induction h with
  | nil => cases hx
  | keep hk _ ih =>
      rcases List.mem_cons.mp hx with rfl | hx
      · exact Or.inr ⟨_, List.mem_cons_self, hk⟩
      · rcases ih hx with hg | ⟨y, hy, hxy⟩
        · exact Or.inl hg
        · exact Or.inr ⟨y, List.mem_cons_of_mem _ hy, hxy⟩
  | unlink hg _ ih =>
      rcases List.mem_cons.mp hx with rfl | hx
      · exact Or.inl hg
      · exact ih hx

/-- A key that no visit changes. -/
theorem map_sublist {f : α → β} (hf : ∀ x y, keep x y → f y = f x) (h : Pruned keep gone xs ys) :
    (ys.map f).Sublist (xs.map f) := by
  induction h with
  | nil => exact List.Sublist.slnil
  | keep hk _ ih =>
      rw [List.map_cons, List.map_cons, hf _ _ hk]
      exact ih.cons_cons _
  | unlink _ _ ih => exact ih.cons _

end Pruned

variable {visit : α → Visit α} {xs : List α}

/-- Nothing is found: no node answers, and all were passed. -/
theorem walk_miss {ys : List α} (h : walk visit xs = .miss ys) :
    (∀ x ∈ xs, ∀ y, visit x ≠ .found y) ∧
    Pruned (fun x y => visit x = .keep y) (fun x => visit x = .unlink) xs ys := by
  induction xs generalizing ys with
  | nil =>
      cases h
      exact ⟨fun x hx => (by cases hx), .nil⟩
  | cons x xs ih =>
      rw [walk] at h
      cases hv : visit x with
      | unlink =>
          simp only [hv] at h
          obtain ⟨hnone, hpruned⟩ := ih h
          exact ⟨List.forall_mem_cons.mpr ⟨by simp [hv], hnone⟩, .unlink hv hpruned⟩
      | found y =>
          simp only [hv] at h
          cases h
      | keep y =>
          simp only [hv] at h
          cases hw : walk visit xs with
          | hit before z after =>
              rw [hw] at h
              cases h
          | miss zs =>
              rw [hw] at h
              cases h
              obtain ⟨hnone, hpruned⟩ := ih hw
              exact ⟨List.forall_mem_cons.mpr ⟨by simp [hv], hnone⟩, .keep hv hpruned⟩

/-- A node is found: it is the first that answers, the nodes before it were
passed, and those behind it were not looked at. -/
theorem walk_hit {before after : List α} {y : α} (h : walk visit xs = .hit before y after) :
    ∃ pre x, xs = pre ++ x :: after ∧ visit x = .found y ∧
      (∀ z ∈ pre, ∀ w, visit z ≠ .found w) ∧
      Pruned (fun x y => visit x = .keep y) (fun x => visit x = .unlink) pre before := by
  induction xs generalizing before with
  | nil => cases h
  | cons x xs ih =>
      rw [walk] at h
      cases hv : visit x with
      | unlink =>
          simp only [hv] at h
          obtain ⟨pre, z, hxs, hz, hnone, hpruned⟩ := ih h
          exact ⟨x :: pre, z, by rw [hxs]; rfl, hz, List.forall_mem_cons.mpr ⟨by simp [hv], hnone⟩,
            .unlink hv hpruned⟩
      | found y' =>
          simp only [hv] at h
          cases h
          exact ⟨[], x, rfl, hv, fun z hz => (by cases hz), .nil⟩
      | keep y' =>
          simp only [hv] at h
          cases hw : walk visit xs with
          | miss zs =>
              rw [hw] at h
              cases h
          | hit before' z' after' =>
              rw [hw] at h
              cases h
              obtain ⟨pre, z, hxs, hz, hnone, hpruned⟩ := ih hw
              exact ⟨x :: pre, z, by rw [hxs]; rfl, hz,
                List.forall_mem_cons.mpr ⟨by simp [hv], hnone⟩, .keep hv hpruned⟩

end

end UbntSdk.Lib
