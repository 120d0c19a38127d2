/-
UbntSdk.Mtd.Fis — replacing partitions in the FIS directory
(`package/mtd/src/fis.c`).

The directory is one erase block, mapped into memory: a table of 256-byte
slots, here a list, with descriptors in front and the rest blank. A
pointer into it is an index, and the end of the mapping is the length of
the list. `none` is an access outside of the mapping, or through NULL.

`redboot` is only used in code that is not compiled (`notyet`) and left
out.
-/
import Mathlib.Algebra.Order.Ring.Int
import Mathlib.Tactic.Common

namespace UbntSdk.Mtd

/-- `struct fis_image_desc`. -/
structure FisDesc where
  name : Vector UInt8 16
  flashBase : UInt32
  memBase : UInt32
  size : UInt32
  entryPoint : UInt32
  dataLength : UInt32
  pad : Vector UInt8 212
  crcDesc : UInt32
  crcFile : UInt32
  deriving DecidableEq

/-- `struct fis_part`, without the `offset` nothing uses. -/
structure FisPart where
  name : Vector UInt8 16
  loadaddr : UInt32
  size : UInt32

/-- A name up to its NUL. Two names are the same for `strncmp` with their
size if these are equal. -/
def cName (name : Vector UInt8 16) : List UInt8 := name.toList.takeWhile (· != 0)

/-- `"FIS directory"`. -/
def FIS_DIRECTORY : List UInt8 :=
  [0x46, 0x49, 0x53, 0x20, 0x64, 0x69, 0x72, 0x65, 0x63, 0x74, 0x6f, 0x72, 0x79]

namespace FisDesc

/-- Every byte 0xff. -/
def blank : FisDesc where
  name := Vector.replicate 16 0xff
  flashBase := 0xffffffff
  memBase := 0xffffffff
  size := 0xffffffff
  entryPoint := 0xffffffff
  dataLength := 0xffffffff
  pad := Vector.replicate 212 0xff
  crcDesc := 0xffffffff
  crcFile := 0xffffffff

/-- A slot at which the loops over the table stop. -/
def isEnd (d : FisDesc) : Bool := d.name[0] == 0 || d.name[0] == 0xff

def isFisdir (d : FisDesc) : Bool := cName d.name == FIS_DIRECTORY

/-- The descriptor of one of these partitions. -/
def isOneOf (old : List FisPart) (d : FisDesc) : Bool :=
  old.any fun p => cName d.name == cName p.name

end FisDesc

/-! ## Validation -/

/-- The loop of `fis_validate` that counts. -/
def countFound (old : List FisPart) : List FisDesc → Nat
  | [] => 0
  | d :: rest =>
      if d.isEnd then 0
      else if d.isOneOf old then countFound old rest + 1
      else countFound old rest

/-- `fis_validate` on a directory that can be opened. -/
def fisValidate (table : List FisDesc) (old new : List FisPart) : Int :=
  if new.dropLast.any (·.size == 0) then -1
  else if countFound old table = old.length then 1
  else -1

/-! ## The update -/

/-- The variables of the loop of `fis_remap`. -/
structure Scan where
  desc : Nat
  fisdir : Option Nat
  first : Option Nat
  last : Option Nat
  size : UInt32

/-- One descriptor. -/
def Scan.visit (old : List FisPart) (s : Scan) (d : FisDesc) : Scan where
  desc := s.desc + 1
  fisdir := if d.isFisdir then some s.desc else s.fisdir
  first := if d.isOneOf old then (match s.first with
    | none => some s.desc
    | some i => some i) else s.first
  last := if d.isOneOf old then some s.desc else s.last
  size := if d.isOneOf old then s.size + d.size else s.size

/-- The loop. -/
def scanTable (old : List FisPart) (s : Scan) : List FisDesc → Scan
  | [] => s
  | d :: rest => if d.isEnd then s else scanTable old (s.visit old d) rest

/-- The size fixup: what lies between the last old partition and the
descriptor `desc`. -/
def sizeFixup (last : FisDesc) : Option FisDesc → UInt32
  | none => 0
  | some desc =>
      if last.flashBase < desc.flashBase - last.size then
        (desc.flashBase - last.flashBase) - last.size
      else 0

/-- `memmove` of `n` slots. -/
def memmove (table : List FisDesc) (dst src n : Nat) : Option (List FisDesc) :=
  if dst + n ≤ table.length ∧ src + n ≤ table.length then
    some (table.take dst ++ ((table.drop src).take n ++ table.drop (dst + n)))
  else none

/-- `memset(_, 0xff, _)` of `n` slots; a negative number is a huge one as
`size_t`. -/
def memsetBlank (table : List FisDesc) (dst : Nat) (n : Int) : Option (List FisDesc) :=
  if 0 ≤ n ∧ dst + n ≤ table.length then
    some (table.take dst ++ (List.replicate n.toNat FisDesc.blank ++ table.drop (dst + n.toNat)))
  else none

/-- Make room for the new entries: what is at `last` goes to `desc`. -/
def shiftTail (table : List FisDesc) (desc last : Nat) : Option (List FisDesc) :=
  if desc ≠ last then do
    let tmp := if desc > last then desc else last
    let table ← (if tmp ≤ table.length then memmove table desc last (table.length - tmp) else none)
    if desc < last then
      let tmp := table.length - (last - desc)
      memsetBlank table tmp ((tmp : Int) - table.length)
    else some table
  else some table

/-- The descriptor of a new partition at `offset`, when `size` is left. -/
def newDesc (p : FisPart) (offset size : UInt32) : FisDesc where
  name := p.name
  flashBase := offset
  memBase := p.loadaddr
  size := if p.size > 0 then p.size else size
  entryPoint := p.loadaddr
  dataLength := if p.size > 0 then p.size else size
  pad := Vector.replicate 212 0
  crcDesc := 0
  crcFile := 0

/-- The loop that writes the new descriptors. -/
def writeParts : List FisPart → Nat → UInt32 → UInt32 → List FisDesc → Option (List FisDesc)
  | [], _, _, _, table => some table
  | p :: rest, desc, offset, size, table =>
      let d := newDesc p offset size
      if desc < table.length then
        writeParts rest (desc + 1) (offset + d.size) (size - d.size) (table.set desc d)
      else none

/-- `fis_remap`: the return code and the table. -/
def fisRemap (opens : Bool) (table : List FisDesc) (old new : List FisPart) :
    Option (Int × List FisDesc) :=
  if opens then do
    let s := scanTable old ⟨0, none, none, none, 0⟩ table
    let first ← s.first
    let last ← s.last
    let firstDesc ← table[first]?
    let lastDesc ← table[last]?
    let desc := if s.desc - 1 = last then s.fisdir else some (s.desc - 1)
    let size := s.size + sizeFixup lastDesc (desc.bind (table[·]?))
    let table ← shiftTail table (first + new.length) (last + 1)
    let table ← writeParts new first firstDesc.flashBase size table
    return (0, table)
  else some (-1, table)

end UbntSdk.Mtd
