/-
UbntSdk.Lib.Keyed — elements that are found by a key.

A list may hold several elements with one key; they are found first come,
first served. `takeKey` takes the first one out, and for each key what it
leaves is known (`takeKey_some`). Two lists are permutations when they are for
each key (`perm_of_withKey`).

Nothing in this module names a program.
-/
import Mathlib.Algebra.Order.Ring.Int
import Mathlib.Data.List.Basic

namespace UbntSdk.Lib

variable {α κ : Type} [DecidableEq κ] (key : α → κ)

/-- The elements with a key. -/
def withKey (k : κ) (l : List α) : List α := l.filter fun a => key a = k

/-- The first element with a key, and the list without it. -/
def takeKey (k : κ) : List α → Option (α × List α)
  | [] => none
  | a :: l =>
      if key a = k then some (a, l)
      else (takeKey k l).map fun found => (found.1, a :: found.2)

@[simp] theorem withKey_nil (k : κ) : withKey key k [] = [] := rfl

theorem withKey_cons (k : κ) (a : α) (l : List α) :
    withKey key k (a :: l) = if key a = k then a :: withKey key k l else withKey key k l := by
  simp [withKey, List.filter_cons]

@[simp] theorem withKey_append (k : κ) (l l' : List α) :
    withKey key k (l ++ l') = withKey key k l ++ withKey key k l' := by
  simp [withKey]

theorem mem_withKey {k : κ} {a : α} {l : List α} : a ∈ withKey key k l ↔ a ∈ l ∧ key a = k := by
  simp [withKey]

theorem takeKey_eq_none_iff (k : κ) (l : List α) : takeKey key k l = none ↔ withKey key k l = [] := by
  induction l with
  | nil => simp [takeKey]
  | cons a l ih => by_cases h : key a = k <;> simp [takeKey, withKey_cons, h, ih]

/-- The element is the first of its key, the others of the key are left, and
so is what has another key. -/
theorem takeKey_some {k : κ} {l rest : List α} {a : α} (h : takeKey key k l = some (a, rest)) :
    key a = k ∧ withKey key k l = a :: withKey key k rest ∧
      (∀ k', k' ≠ k → withKey key k' rest = withKey key k' l) ∧ l.Perm (a :: rest) := by
  induction l generalizing rest with
  | nil => cases h
  | cons b l ih =>
      by_cases hb : key b = k
      · rw [takeKey, if_pos hb, Option.some.injEq, Prod.mk.injEq] at h
        obtain ⟨rfl, rfl⟩ := h
        refine ⟨hb, ?_, ?_, List.Perm.refl _⟩
        · rw [withKey_cons, if_pos hb]
        · intro k' hne
          rw [withKey_cons, if_neg (by rw [hb]; exact hne.symm)]
      · rw [takeKey, if_neg hb, Option.map_eq_some_iff] at h
        obtain ⟨⟨a', rest'⟩, hfound, heq⟩ := h
        rw [Prod.mk.injEq] at heq
        obtain ⟨rfl, rfl⟩ := heq
        obtain ⟨hkey, hsame, hother, hperm⟩ := ih hfound
        refine ⟨hkey, ?_, ?_, ?_⟩
        · rw [withKey_cons, withKey_cons, if_neg hb, if_neg hb, hsame]
        · intro k' hne
          rw [withKey_cons, withKey_cons, hother k' hne]
        · exact (hperm.cons b).trans (List.Perm.swap a' b rest')

/-- Lists that are permutations for each key are permutations. -/
theorem perm_of_withKey [DecidableEq α] {l l' : List α}
    (h : ∀ k, (withKey key k l).Perm (withKey key k l')) : l.Perm l' := by
  rw [List.perm_iff_count]
  intro a
  have hcount : ∀ l : List α, List.count a (withKey key (key a) l) = List.count a l := by
    intro l
    exact List.count_filter (by simp)
  rw [← hcount l, ← hcount l']
  exact (h (key a)).count_eq a

end UbntSdk.Lib
