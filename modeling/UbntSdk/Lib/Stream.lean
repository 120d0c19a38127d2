/-
UbntSdk.Lib.Stream — files that are written at a position, and loops over a buffer.

A write goes over what stands at the position; behind the end it leaves zeros
up to there. Where the position is between two parts of the file, a write goes
over the beginning of the second one (`write_append`), so a program that goes
back to fill in a field is described part by part.

`chunks` is what a loop with a buffer sees of its data. A loop that does the
same with two pieces as with both at once does not depend on the buffer
(`foldl_chunks`).

Nothing in this module names a program.
-/
import Mathlib.Data.List.TakeDrop
import Mathlib.Tactic.Common
import UbntSdk.Lib.Bytes

namespace UbntSdk.Lib

/-! ## Files with a position -/

structure Stream where
  bytes : List UInt8
  pos : Nat
  deriving DecidableEq

namespace Stream

/-- A file that has been created. -/
def empty : Stream := ⟨[], 0⟩

def seek (pos : Nat) (f : Stream) : Stream := { f with pos }

def write (data : List UInt8) (f : Stream) : Stream :=
  if data = [] then f
  else ⟨f.bytes.takeD f.pos 0 ++ (data ++ f.bytes.drop (f.pos + data.length)), f.pos + data.length⟩

/-- All that stands behind the position. -/
def rest (f : Stream) : List UInt8 := f.bytes.drop f.pos

@[simp] theorem write_nil (f : Stream) : write [] f = f := rfl

@[simp] theorem write_pos (data : List UInt8) (f : Stream) : (write data f).pos = f.pos + data.length := by
  rw [write]
  split
  · rename_i h
    rw [h, List.length_nil, Nat.add_zero]
  · rfl

/-- A write goes over what begins at the position. -/
theorem write_append (a b data : List UInt8) :
    write data ⟨a ++ b, a.length⟩ = ⟨a ++ (data ++ b.drop data.length), a.length + data.length⟩ := by
  rw [write]
  split
  · rename_i h
    rw [h, List.nil_append, List.length_nil, List.drop_zero, Nat.add_zero]
  · simp only [List.takeD_left, List.drop_length_add_append]

theorem write_empty (data : List UInt8) : write data empty = ⟨data, data.length⟩ := by
  simpa [empty] using write_append [] [] data

/-- A write at the end. -/
theorem write_end (a data : List UInt8) : write data ⟨a, a.length⟩ = ⟨a ++ data, (a ++ data).length⟩ := by
  have h := write_append a [] data
  rwa [List.append_nil, List.drop_nil, List.append_nil, ← List.length_append] at h

/-- A write over a field of the same size. -/
theorem write_over {b data : List UInt8} (h : b.length = data.length) (a c : List UInt8) :
    write data ⟨a ++ (b ++ c), a.length⟩ = ⟨a ++ (data ++ c), a.length + data.length⟩ := by
  rw [write_append, ← h, List.drop_left]

/-- A write behind the end of a file that is empty. -/
theorem write_hole {data : List UInt8} (h : data ≠ []) (n : Nat) :
    write data (seek n empty) = ⟨List.replicate n 0 ++ data, n + data.length⟩ := by
  rw [write, if_neg h]
  simp only [seek, empty, List.takeD_nil, List.drop_nil, List.append_nil]

/-- Two writes in a row are one. -/
theorem write_write (a b : List UInt8) (f : Stream) : write b (write a f) = write (a ++ b) f := by
  by_cases ha : a = []
  · rw [ha, write_nil, List.nil_append]
  by_cases hb : b = []
  · rw [hb, write_nil, List.append_nil]
  have htake : (f.bytes.takeD f.pos 0).length = f.pos := List.takeD_length f.pos f.bytes 0
  have hfirst : write a f = ⟨(f.bytes.takeD f.pos 0 ++ a) ++ f.bytes.drop (f.pos + a.length),
      (f.bytes.takeD f.pos 0 ++ a).length⟩ := by
    rw [write, if_neg ha, List.append_assoc, List.length_append, htake]
  rw [hfirst, write_append, write, if_neg (by simp [ha]), List.drop_drop, List.length_append, htake,
    List.length_append, List.append_assoc, List.append_assoc, Nat.add_assoc]

end Stream

/-! ## Chunks -/

variable {α σ : Type}

/-- What a loop with a buffer of `n` reads of `l`. -/
def chunks (n : Nat) (l : List α) : List (List α) :=
  if n = 0 ∨ l.length = 0 then [] else l.take n :: chunks n (l.drop n)
  termination_by l.length
  decreasing_by
    rw [List.length_drop]
    omega

theorem chunks_nil (n : Nat) : chunks n ([] : List α) = [] := by
  rw [chunks, if_pos (Or.inr List.length_nil)]

/-- A loop that does with two pieces what it does with both does not depend on
the size of its buffer. -/
theorem foldl_chunks {f : σ → List α → σ} {n : Nat} (hn : 0 < n) (hnil : ∀ s, f s [] = s)
    (happend : ∀ s a b, a.length = n → f s (a ++ b) = f (f s a) b) (s : σ) (l : List α) :
    (chunks n l).foldl f s = f s l := by
  induction hlen : l.length using Nat.strongRecOn generalizing s l with
  | _ k ih =>
      cases l with
      | nil => rw [chunks_nil, List.foldl_nil, hnil]
      | cons x l =>
          rw [chunks, if_neg (by simp; omega), List.foldl_cons]
          rw [ih ((x :: l).drop n).length (by simp at hlen ⊢; omega) _ _ rfl]
          by_cases hle : n ≤ (x :: l).length
          · rw [← happend _ _ _ (List.length_take_of_le hle), List.take_append_drop]
          · rw [List.drop_of_length_le (by omega), hnil, List.take_of_length_le (by omega)]

end UbntSdk.Lib
