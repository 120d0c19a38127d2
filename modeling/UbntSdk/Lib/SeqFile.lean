/-
UbntSdk.Lib.SeqFile — a file whose lines come from an iterator.

A reader asks for lines in chunks. Each chunk starts at the line where the
last one ended, which `start` finds by counting, and goes on with `next`.
`Follows` is what makes the two agree: `start` finds what `next` comes to.
Then the chunks do not matter, and a reader sees the lines once and in order
(`Shows.readChunks`).

Nothing in this module names a program.
-/
import Mathlib.Algebra.Order.Ring.Int
import Mathlib.Data.List.Basic

namespace UbntSdk.Lib

/-- The operations of such a file; `none` is the end. -/
structure SeqOps (Pos : Type) where
  start : Nat → Option Pos
  next : Pos → Option Pos

namespace SeqOps

variable {Pos α : Type} {ops : SeqOps Pos}

/-- `k` applications of `next`. -/
def advance (ops : SeqOps Pos) : Nat → Option Pos → Option Pos
  | 0, p => p
  | k + 1, p => (ops.advance k p).bind ops.next

/-- `start` finds what `next` comes to. -/
def Follows (ops : SeqOps Pos) : Prop := ∀ k, ops.start (k + 1) = (ops.start k).bind ops.next

/-- The lines from a position on, at most `n`. -/
def readFrom (ops : SeqOps Pos) : Nat → Option Pos → List Pos
  | 0, _ => []
  | _ + 1, none => []
  | n + 1, some p => p :: ops.readFrom n (ops.next p)

/-- Chunks of these sizes, one after the other, from the line `index` on. -/
def readChunks (ops : SeqOps Pos) : Nat → List Nat → List Pos
  | _, [] => []
  | index, n :: sizes =>
      let chunk := ops.readFrom n (ops.start index)
      chunk ++ ops.readChunks (index + chunk.length) sizes

theorem start_eq_advance (h : ops.Follows) (k : Nat) : ops.start k = ops.advance k (ops.start 0) := by
  induction k with
  | zero => rfl
  | succ k ih => rw [advance, ← ih, h]

/-- What the file shows: the lines are there for `start`. -/
structure Shows (ops : SeqOps Pos) (line : Pos → α) (lines : List α) : Prop where
  follows : ops.Follows
  at_start : ∀ k, (ops.start k).map line = lines[k]?

variable {line : Pos → α} {lines : List α}

theorem Shows.start_none_iff (h : ops.Shows line lines) (k : Nat) :
    ops.start k = none ↔ lines.length ≤ k := by
  rw [← List.getElem?_eq_none_iff, ← h.at_start, Option.map_eq_none_iff]

theorem Shows.readFrom (h : ops.Shows line lines) (n k : Nat) :
    (ops.readFrom n (ops.start k)).map line = (lines.drop k).take n := by
  induction n generalizing k with
  | zero => rfl
  | succ n ih =>
      have hline := h.at_start k
      cases hstart : ops.start k with
      | none =>
          have hle := (h.start_none_iff k).mp hstart
          rw [List.drop_eq_nil_of_le hle]
          rfl
      | some p =>
          rw [hstart, Option.map_some] at hline
          obtain ⟨hk, hget⟩ := List.getElem?_eq_some_iff.mp hline.symm
          have hnext : ops.next p = ops.start (k + 1) := by
            rw [h.follows, hstart]
            rfl
          rw [SeqOps.readFrom, List.map_cons, hnext, ih, List.drop_eq_getElem_cons hk, hget,
            List.take_succ_cons]

/-- Chunks of any sizes show the lines in order. -/
theorem Shows.readChunks (h : ops.Shows line lines) (sizes : List Nat) (index : Nat) :
    (ops.readChunks index sizes).map line = (lines.drop index).take sizes.sum := by
  induction sizes generalizing index with
  | nil => rfl
  | cons n sizes ih =>
      have hchunk := h.readFrom n index
      have hlength := congrArg List.length hchunk
      rw [List.length_map] at hlength
      rw [SeqOps.readChunks, List.map_append, ih, hchunk, List.sum_cons, hlength, List.take_add,
        List.drop_drop]
      by_cases hn : n ≤ (lines.drop index).length
      · rw [List.length_take_of_le hn]
      · have hlong : (lines.drop index).length ≤ n := by omega
        have hend : lines.length ≤ index + (lines.drop index).length := by
          rw [List.length_drop]
          omega
        have hover : lines.length ≤ index + n := by omega
        rw [List.take_of_length_le hlong, List.drop_eq_nil_of_le hend, List.drop_eq_nil_of_le hover]

end SeqOps

end UbntSdk.Lib
