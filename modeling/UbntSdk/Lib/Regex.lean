/-
UbntSdk.Lib.Regex — regular expressions that match finitely many texts, and
powers.

`Lists r l` says that `l` lists the texts that `r` matches; a list is computed
along the expression. The language itself and its operations are Mathlib's.

Nothing in this module names a program.
-/
import Mathlib.Algebra.Order.Ring.Int
import Mathlib.Computability.RegularExpressions

namespace UbntSdk.Lib.Regex

variable {α : Type*} [DecidableEq α]

/-- One of the letters. -/
def anyOf (cs : List α) : RegularExpression α := cs.foldr (fun c r => .char c + r) 0

/-- The texts of `l` and no others. -/
def Lists (r : RegularExpression α) (l : List (List α)) : Prop := ∀ s, r.rmatch s = true ↔ s ∈ l

theorem lists_char (c : α) : Lists (.char c) [[c]] := by
  intro s
  rw [RegularExpression.char_rmatch_iff, List.mem_singleton]

theorem Lists.add {r r' : RegularExpression α} {l l' : List (List α)} (h : Lists r l)
    (h' : Lists r' l') : Lists (r + r') (l ++ l') := by
  intro s
  rw [RegularExpression.add_rmatch_iff, h, h', List.mem_append]

theorem Lists.mul {r r' : RegularExpression α} {l l' : List (List α)} (h : Lists r l)
    (h' : Lists r' l') : Lists (r * r') (l.flatMap fun t => l'.map (t ++ ·)) := by
  intro s
  rw [RegularExpression.mul_rmatch_iff]
  simp only [h _, h' _, List.mem_flatMap, List.mem_map]
  constructor
  · rintro ⟨t, u, rfl, ht, hu⟩
    exact ⟨t, ht, u, hu, rfl⟩
  · rintro ⟨t, ht, u, hu, rfl⟩
    exact ⟨t, u, rfl, ht, hu⟩

theorem lists_anyOf (cs : List α) : Lists (anyOf cs) (cs.map ([·])) := by
  induction cs with
  | nil =>
      intro s
      simp [anyOf]
  | cons c cs ih => exact (lists_char c).add ih

/-- A power matches that many texts behind each other. -/
theorem pow_rmatch_iff (r : RegularExpression α) (n : ℕ) (s : List α) :
    (r ^ n).rmatch s = true ↔ ∃ l : List (List α), l.length = n ∧ s = l.flatten ∧
      ∀ t ∈ l, r.rmatch t = true := by
  induction n generalizing s with
  | zero =>
      change (1 : RegularExpression α).rmatch s = true ↔ _
      rw [RegularExpression.one_rmatch_iff]
      constructor
      · rintro rfl
        exact ⟨[], rfl, rfl, by simp⟩
      · rintro ⟨l, hl, rfl, -⟩
        rw [List.length_eq_zero_iff.mp hl]
        rfl
  | succ n ih =>
      change (r ^ n * r).rmatch s = true ↔ _
      rw [RegularExpression.mul_rmatch_iff]
      simp only [ih]
      constructor
      · rintro ⟨t, u, rfl, ⟨l, hl, rfl, hall⟩, hu⟩
        refine ⟨l ++ [u], by simp [hl], by simp, fun t ht => ?_⟩
        rcases List.mem_append.mp ht with ht | ht
        · exact hall t ht
        · rwa [List.mem_singleton.mp ht]
      · rintro ⟨l, hl, rfl, hall⟩
        obtain ⟨l, u, rfl⟩ := (List.eq_nil_or_concat l).resolve_left (by
          rintro rfl
          simp at hl)
        refine ⟨l.flatten, u, by simp, ⟨l, by simpa using hl, rfl, fun t ht => ?_⟩, ?_⟩
        · exact hall t (by simp [ht])
        · exact hall u (by simp)

end UbntSdk.Lib.Regex
