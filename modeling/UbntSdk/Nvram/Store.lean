/-
UbntSdk.Nvram.Store — the variable table of libnvram
(`package/nvram-brcm47xx/src/nvram.c`).

A handle keeps its variables in 257 hash chains and moves tuples it
unlinks to a dead list. A chain is the list of its tuples; the `prev`
pointer of the C loops is the split of the chain at the tuple found.

Two details of the source are kept. `hash` adds plain `char`s, which are
signed on the MIPS target. And the bucket index is not what it looks like:
`NVRAM_ARRAYSIZE(a)` expands to `sizeof(a)/sizeof(a[0])` without
parentheses, so `hash(name) % NVRAM_ARRAYSIZE(h->nvram_hash)` is
`(hash(name) % sizeof(h->nvram_hash)) / sizeof(h->nvram_hash[0])`.

`malloc` and `realloc` succeed.
-/
import UbntSdk.Lib.Bytes
import UbntSdk.Lib.HashTable

namespace UbntSdk.Nvram

open UbntSdk.Lib

def NVRAM_SPACE : Nat := 0x8000

/-- The number of chains, `257` in `struct nvram_handle`. -/
def NVRAM_BUCKETS : Nat := 257

/-- `sizeof` of a pointer on the 32-bit target. -/
def sizeofPointer : Nat := 4

/-- `struct nvram_tuple`. -/
structure Tuple where
  name : CStr
  value : CStr
  deriving DecidableEq

/-- The tables of `struct nvram_handle`. -/
structure Store where
  nvramHash : Fin NVRAM_BUCKETS → List Tuple
  nvramDead : List Tuple

/-- A freshly zeroed handle. -/
def Store.empty : Store where
  nvramHash := fun _ => []
  nvramDead := []

/-- A signed `char` converted to `uint32_t`. -/
def charToU32 (c : UInt8) : UInt32 :=
  if c < 128 then c.toUInt32 else c.toUInt32 + 0xffffff00

/-- `hash`. -/
def hash (s : CStr) : UInt32 := s.chars.foldl (fun h c => 31 * h + charToU32 c) 0

/-- The bucket index `hash(name) % NVRAM_ARRAYSIZE(h->nvram_hash)` as the
macro expands. -/
def bucket (name : CStr) : Fin NVRAM_BUCKETS :=
  ⟨(hash name).toNat % (NVRAM_BUCKETS * sizeofPointer) / sizeofPointer, by
    have h : (hash name).toNat % (NVRAM_BUCKETS * sizeofPointer)
        < NVRAM_BUCKETS * sizeofPointer := Nat.mod_lt _ (by decide)
    exact Nat.div_lt_of_lt_mul (by rw [Nat.mul_comm]; exact h)⟩

/-- The loop that looks a name up in a chain: the tuples in front of the
match, and the match with the tuples behind it. -/
def walkChain : List Tuple → CStr → List Tuple × Option (Tuple × List Tuple)
  | [], _ => ([], none)
  | t :: rest, name =>
      if t.name = name then ([], some (t, rest))
      else
        let (before, found) := walkChain rest name
        (t :: before, found)

/-- `nvram_get`; the name may be `NULL`. -/
def nvramGet (h : Store) : Option CStr → Option CStr
  | none => none
  | some name =>
      match (walkChain (h.nvramHash (bucket name)) name).2 with
      | some (t, _) => some t.value
      | none => none

/-- What `_nvram_realloc` returns: the tuple it was given, or a new one. -/
inductive Realloced where
  | same (t : Tuple)
  | fresh (t : Tuple)
  deriving DecidableEq

/-- `_nvram_realloc`; `none` is its `NULL`. -/
def nvramRealloc (t : Option Tuple) (name value : CStr) : Option Realloced :=
  if value.strlen + 1 > NVRAM_SPACE then none
  else
    match t with
    | none => some (.fresh { name, value })
    | some t => some (.same (if t.value = value then t else { t with value }))

/-- `nvram_set`: the return code and the tables. -/
def nvramSet (h : Store) (name value : CStr) : Int × Store :=
  let i := bucket name
  let (before, found) := walkChain (h.nvramHash i) name
  match nvramRealloc (found.map Prod.fst) name value with
  | none => (-12, h)
  | some u =>
      match found, u with
      | some (_, after), .same u =>
          (0, { h with nvramHash := Function.update h.nvramHash i (before ++ u :: after) })
      | some (t, after), .fresh u =>
          (0, { nvramHash := Function.update h.nvramHash i (u :: (before ++ after)),
                nvramDead := t :: h.nvramDead })
      | none, .same u | none, .fresh u =>
          (0, { h with nvramHash := Function.update h.nvramHash i (u :: h.nvramHash i) })

/-- `nvram_unset`; the name may be `NULL`. -/
def nvramUnset (h : Store) : Option CStr → Int × Store
  | none => (0, h)
  | some name =>
      let i := bucket name
      let (before, found) := walkChain (h.nvramHash i) name
      match found with
      | some (t, after) =>
          (0, { nvramHash := Function.update h.nvramHash i (before ++ after),
                nvramDead := t :: h.nvramDead })
      | none => (0, h)

/-- `nvram_getall`: the copies are linked in front as the chains are
walked, so the list comes out backwards. -/
def nvramGetall (h : Store) : List Tuple :=
  (List.finRange NVRAM_BUCKETS).foldl
    (fun l i => (h.nvramHash i).foldl (fun l t => t :: l) l) []

/-! ## Runs -/

/-- A call on the table. -/
inductive Op where
  | set (name value : CStr)
  | unset (name : Option CStr)
  | get (name : Option CStr)
  | getall
  deriving DecidableEq

/-- The tables after a call. -/
def step (h : Store) : Op → Store
  | .set name value => (nvramSet h name value).2
  | .unset name => (nvramUnset h name).2
  | .get _ => h
  | .getall => h

/-- The tables after a sequence of calls. -/
def runOps (h : Store) (ops : List Op) : Store := ops.foldl step h

end UbntSdk.Nvram
