/-
UbntSdk.Lib.Updates — updates that may be made in any order.

`f s a` is the state after the update `a`. The updates of a list commute in the
states that some invariant describes, so what a list leads to depends on its
members alone (`foldl_eq_of_mem_iff`), and updates that are repeated later may
be left out (`foldl_absorb`).
-/
import Mathlib.Algebra.Order.Ring.Int
import Mathlib.Data.List.Basic

namespace UbntSdk.Lib

variable {σ α : Type}

/-- The updates in `U` keep `Inv`, and commute where it holds. -/
structure Commuting (f : σ → α → σ) (Inv : σ → Prop) (U : α → Prop) : Prop where
  keep : ∀ s a, U a → Inv s → Inv (f s a)
  comm : ∀ s a b, U a → U b → Inv s → f (f s a) b = f (f s b) a
  idem : ∀ s a, U a → Inv s → f (f s a) a = f s a

namespace Commuting

variable {f : σ → α → σ} {Inv : σ → Prop} {U : α → Prop} (h : Commuting f Inv U)
include h

/-- An update before the others is one after them. -/
theorem foldl_step {l : List α} (hl : ∀ a ∈ l, U a) {s : σ} (hs : Inv s) {a : α} (ha : U a) :
    l.foldl f (f s a) = f (l.foldl f s) a := by
  induction l generalizing s with
  | nil => rfl
  | cons b l ih =>
      have hb := hl b (List.mem_cons_self ..)
      rw [List.foldl_cons, List.foldl_cons, h.comm s a b ha hb hs]
      exact ih (fun c hc => hl c (List.mem_cons_of_mem _ hc)) (h.keep s b hb hs)

/-- An update that is made again does not count. -/
theorem foldl_absorb {l : List α} (hl : ∀ a ∈ l, U a) {s : σ} (hs : Inv s) {a : α} (ha : a ∈ l) :
    l.foldl f (f s a) = l.foldl f s := by
  induction l generalizing s with
  | nil => cases ha
  | cons b l ih =>
      have hb := hl b (List.mem_cons_self ..)
      have hrest : ∀ c ∈ l, U c := by
        intro c hc
        exact hl c (List.mem_cons_of_mem _ hc)
      rw [List.foldl_cons, List.foldl_cons]
      rcases List.mem_cons.mp ha with rfl | hmem
      · rw [h.idem s a hb hs]
      · rw [h.comm s a b (hl a ha) hb hs]
        exact ih hrest (h.keep s b hb hs) hmem

theorem foldl_absorb_all {l l' : List α} (hl' : ∀ a ∈ l', U a) (hsub : l ⊆ l') {s : σ}
    (hs : Inv s) : l'.foldl f (l.foldl f s) = l'.foldl f s := by
  induction l generalizing s with
  | nil => rfl
  | cons a l ih =>
      have ha := hsub (List.mem_cons_self ..)
      rw [List.foldl_cons, ih (fun b hb => hsub (List.mem_cons_of_mem _ hb)) (h.keep s a (hl' a ha) hs),
        h.foldl_absorb hl' hs ha]

/-- The two lists in either order. -/
theorem foldl_comm {l l' : List α} (hl : ∀ a ∈ l, U a) (hl' : ∀ a ∈ l', U a) {s : σ} (hs : Inv s) :
    l'.foldl f (l.foldl f s) = l.foldl f (l'.foldl f s) := by
  induction l generalizing s with
  | nil => rfl
  | cons a l ih =>
      have ha := hl a (List.mem_cons_self ..)
      rw [List.foldl_cons, List.foldl_cons,
        ih (fun b hb => hl b (List.mem_cons_of_mem _ hb)) (h.keep s a ha hs), h.foldl_step hl' hs ha]

/-- What the updates lead to depends on the members of the list. -/
theorem foldl_eq_of_mem_iff {l l' : List α} (hl : ∀ a ∈ l, U a) (hmem : ∀ a, a ∈ l ↔ a ∈ l') {s : σ}
    (hs : Inv s) : l.foldl f s = l'.foldl f s := by
  have hl' : ∀ a ∈ l', U a := by
    intro a ha
    exact hl a ((hmem a).mpr ha)
  calc l.foldl f s = l.foldl f (l'.foldl f s) :=
        (h.foldl_absorb_all hl (fun a ha => (hmem a).mpr ha) hs).symm
    _ = l'.foldl f (l.foldl f s) := (h.foldl_comm hl hl' hs).symm
    _ = l'.foldl f s := h.foldl_absorb_all hl' (fun a ha => (hmem a).mp ha) hs

end Commuting

end UbntSdk.Lib
