/-
UbntSdk.Lib.Locking — what a thread does with one lock.

A computation in `Locks` records its steps on the lock next to its result.
`Disciplined` reads the record: the lock is not taken twice, nothing that
needs it is waited for while it is held, and it is free at the end.

A proof computes the record: `bind_steps` and `bind_result` are simp lemmas, which
take a computation apart at its binds, and what is left are the branches of the
program with a list of steps each, which `heldAfter` decides.

Nothing in this module names a program.
-/
import Mathlib.Algebra.Order.Ring.Int

namespace UbntSdk.Lib

/-- A step on the lock. `wait` waits for someone who may need the lock, and
`sleep` gives the processor away. -/
inductive LockStep where
  | acquire
  | release
  | wait
  | sleep
  deriving DecidableEq

/-- Whether the lock is held after a step; `none` where the step is wrong. -/
def LockStep.after (held : Bool) : LockStep → Option Bool
  | .acquire => if held then none else some true
  | .release => if held then some false else none
  | .wait => if held then none else some false
  | .sleep => if held then none else some false

/-- Whether the lock is held after some steps, if none of them is wrong. -/
def heldAfter (held : Bool) : List LockStep → Option Bool
  | [] => some held
  | s :: steps => (s.after held).bind (heldAfter · steps)

/-- From a free lock to a free lock, and no step is wrong. -/
def Disciplined (steps : List LockStep) : Prop := heldAfter false steps = some false

instance (steps : List LockStep) : Decidable (Disciplined steps) :=
  inferInstanceAs (Decidable (_ = _))

/-! ## Computations with steps -/

/-- A result, and the steps that were taken on the way to it. -/
structure Locks (α : Type) where
  steps : List LockStep
  result : α

namespace Locks

variable {α β : Type}

def step (s : LockStep) : Locks Unit := ⟨[s], ()⟩

instance : Monad Locks where
  pure a := ⟨[], a⟩
  bind m f := ⟨m.steps ++ (f m.result).steps, (f m.result).result⟩

@[simp] theorem step_steps (s : LockStep) : (step s).steps = [s] := rfl

@[simp] theorem pure_steps (a : α) : (pure a : Locks α).steps = [] := rfl

@[simp] theorem pure_result (a : α) : (pure a : Locks α).result = a := rfl

/-- The steps of one computation come before those of the next. -/
@[simp] theorem bind_steps (m : Locks α) (f : α → Locks β) :
    (m >>= f).steps = m.steps ++ (f m.result).steps := rfl

@[simp] theorem bind_result (m : Locks α) (f : α → Locks β) :
    (m >>= f).result = (f m.result).result := rfl

end Locks

end UbntSdk.Lib
