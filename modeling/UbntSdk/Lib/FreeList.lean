/-
UbntSdk.Lib.FreeList — a list of things, and the list of those that nobody
uses.

`FreeList all free used` says that the two lists have no duplicates and that
`free` has exactly the unused things of `all`. There is one rule for each way
to keep it: a thing is taken into use or given back, comes or goes. The lists
are given up to their order, so the rules also serve lists that are sorted
again after each change. What `used` says of other things may not change.

Nothing in this module names a program.
-/
import Mathlib.Algebra.Order.Ring.Int
import Mathlib.Data.List.Nodup
import Mathlib.Data.List.Perm.Basic

namespace UbntSdk.Lib

structure FreeList {α : Type} (all free : List α) (used : α → Prop) : Prop where
  all_nodup : all.Nodup
  free_nodup : free.Nodup
  mem_all : ∀ a ∈ free, a ∈ all
  mem_free : ∀ a ∈ all, (a ∈ free ↔ ¬ used a)

namespace FreeList

variable {α : Type} {all free free' all' : List α} {used used' : α → Prop} {x : α}

/-- What is used may be said in other words. -/
theorem congr (h : FreeList all free used) (hused : ∀ a ∈ all, (used' a ↔ used a)) :
    FreeList all free used' := by
  refine ⟨h.all_nodup, h.free_nodup, h.mem_all, fun a ha => ?_⟩
  rw [h.mem_free a ha, hused a ha]

/-- A thing that nobody uses any more is free. -/
theorem give (h : FreeList all free used) (hfree : free'.Perm (x :: free)) (hx : x ∈ all)
    (hbefore : used x) (hafter : ¬ used' x) (hused : ∀ a, a ≠ x → (used' a ↔ used a)) :
    FreeList all free' used' := by
  have hnot : x ∉ free := fun hmem => (h.mem_free x hx).mp hmem hbefore
  refine ⟨h.all_nodup, ?_, fun a ha => ?_, fun a ha => ?_⟩
  · rw [hfree.nodup_iff, List.nodup_cons]
    exact ⟨hnot, h.free_nodup⟩
  · rw [hfree.mem_iff, List.mem_cons] at ha
    rcases ha with rfl | ha
    · exact hx
    · exact h.mem_all a ha
  · rw [hfree.mem_iff, List.mem_cons]
    by_cases hax : a = x
    · subst hax
      exact iff_of_true (Or.inl rfl) hafter
    · rw [hused a hax, ← h.mem_free a ha]
      exact ⟨fun hm => hm.resolve_left hax, Or.inr⟩

/-- A new thing, not used, is free. -/
theorem enter (h : FreeList all free used) (hall : all'.Perm (x :: all))
    (hfree : free'.Perm (x :: free)) (hnew : x ∉ all) (hafter : ¬ used' x)
    (hused : ∀ a, a ≠ x → (used' a ↔ used a)) : FreeList all' free' used' := by
  refine ⟨?_, ?_, fun a ha => ?_, fun a ha => ?_⟩
  · rw [hall.nodup_iff, List.nodup_cons]
    exact ⟨hnew, h.all_nodup⟩
  · rw [hfree.nodup_iff, List.nodup_cons]
    exact ⟨fun hmem => hnew (h.mem_all x hmem), h.free_nodup⟩
  · rw [hfree.mem_iff, List.mem_cons] at ha
    rw [hall.mem_iff, List.mem_cons]
    exact ha.imp id (h.mem_all a)
  · rw [hall.mem_iff, List.mem_cons] at ha
    rw [hfree.mem_iff, List.mem_cons]
    by_cases hax : a = x
    · subst hax
      exact iff_of_true (Or.inl rfl) hafter
    · rw [hused a hax, ← h.mem_free a (ha.resolve_left hax)]
      exact ⟨fun hm => hm.resolve_left hax, Or.inr⟩

variable [BEq α] [LawfulBEq α]

/-- A thing that comes into use is not free. -/
theorem take (h : FreeList all free used) (hx : x ∈ all → used' x)
    (hused : ∀ a, a ≠ x → (used' a ↔ used a)) : FreeList all (free.erase x) used' := by
  refine ⟨h.all_nodup, h.free_nodup.erase x, fun a ha => h.mem_all a (List.mem_of_mem_erase ha),
    fun a ha => ?_⟩
  rw [h.free_nodup.mem_erase_iff]
  by_cases hax : a = x
  · subst hax
    exact iff_of_false (fun hm => hm.1 rfl) (not_not_intro (hx ha))
  · rw [hused a hax, ← h.mem_free a ha]
    exact and_iff_right hax

/-- A thing that is no longer there is not free. -/
theorem leave (h : FreeList all free used) (hused : ∀ a, a ≠ x → (used' a ↔ used a)) :
    FreeList (all.erase x) (free.erase x) used' := by
  refine ⟨h.all_nodup.erase x, h.free_nodup.erase x, fun a ha => ?_, fun a ha => ?_⟩
  · rw [h.free_nodup.mem_erase_iff] at ha
    exact (h.all_nodup.mem_erase_iff).mpr ⟨ha.1, h.mem_all a ha.2⟩
  · obtain ⟨hax, hmem⟩ := (h.all_nodup.mem_erase_iff).mp ha
    rw [h.free_nodup.mem_erase_iff, hused a hax, ← h.mem_free a hmem]
    exact and_iff_right hax

end FreeList

end UbntSdk.Lib
