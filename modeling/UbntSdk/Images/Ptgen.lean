/-
UbntSdk.Images.Ptgen — the generator of partition tables
(`tools/firmware-utils/src/ptgen.c`).

The model starts where the options are parsed, on a little-endian host; `int`
has 32 bits, and `long` is as wide as the host has it. A conversion to a type
that is too small keeps the low bits, and so does arithmetic. The output can be
written, and what is printed is left out.
-/
import UbntSdk.Lib.Memory
import UbntSdk.Lib.Stream

namespace UbntSdk.Images.Ptgen

open UbntSdk.Lib

/-! ## Integers -/

/-- Hosts with a `long` of 32 bits and of 64 bits. -/
inductive LongSize where
  | ilp32
  | lp64
  deriving DecidableEq

def LongSize.bits : LongSize → Nat
  | ilp32 => 32
  | lp64 => 64

/-- A conversion to `unsigned long`. -/
def LongSize.toUlong (l : LongSize) (x : Int) : Int := x % 2 ^ l.bits

/-- A conversion to `long`. -/
def LongSize.toLong (l : LongSize) (x : Int) : Int := (x + 2 ^ (l.bits - 1)) % 2 ^ l.bits - 2 ^ (l.bits - 1)

/-- A conversion to `unsigned int`. -/
def toUint (x : Int) : UInt32 := UInt32.ofNat (x % 2 ^ 32).toNat

/-- The low byte of an integer. -/
def lowByte (x : Int) : Nat := (x % 256).toNat

/-! ## Entries -/

/-- The three bytes of a CHS value. -/
structure Chs where
  c0 : UInt8
  c1 : UInt8
  c2 : UInt8
  deriving DecidableEq

/-- `struct pte`. -/
structure Pte where
  active : UInt8
  chsStart : Chs
  type : UInt8
  chsEnd : Chs
  start : UInt32
  length : UInt32
  deriving DecidableEq

/-- What `memset` leaves. -/
def Pte.zero : Pte := ⟨0, ⟨0, 0, 0⟩, 0, ⟨0, 0, 0⟩, 0, 0⟩

/-- `struct partinfo`. -/
structure PartInfo where
  size : Nat
  type : UInt8
  deriving DecidableEq

/-- The global variables `heads` and `sectors`. -/
structure Geometry where
  heads : Int
  sectors : Int
  deriving DecidableEq

/-- `to_chs`. The operators act on each bit, so the low bytes are enough. -/
def toChs (g : Geometry) (sect : Int) : Chs :=
  let s := sect.tmod g.sectors + 1
  let sect := sect.tdiv g.sectors
  let h := sect.tmod g.heads
  let sect := sect.tdiv g.heads
  let c := wrap32 sect
  ⟨UInt8.ofNat (lowByte h), UInt8.ofNat (lowByte s ||| (lowByte (c / 4) &&& 0xC0)), UInt8.ofNat (lowByte c)⟩

/-- `round_to_cyl`. -/
def roundToCyl (l : LongSize) (g : Geometry) (sect : Int) : Int :=
  let cylSize := g.heads * g.sectors
  l.toUlong (sect + cylSize - sect.tmod cylSize)

/-- What `gen_ptable` fills in for partition `i`. -/
def pteOf (g : Geometry) (active : Int) (i : Nat) (type : UInt8) (start len : Int) : Pte where
  active := if (i : Int) + 1 = active then 0x80 else 0
  chsStart := toChs g start
  type := type
  chsEnd := toChs g (wrap32 (start + len - 1))
  start := toUint start
  length := toUint len

/-- The loop of `gen_ptable`, from partition `i` on. -/
def genEntries (l : LongSize) (g : Geometry) (active : Int) : Nat → Int → List PartInfo → Option (List Pte)
  | _, _, [] => some []
  | i, sect, part :: parts =>
      if part.size = 0 then none
      else
        let start := wrap32 (l.toUlong (sect + g.sectors))
        let sect := roundToCyl l g (l.toLong (start + part.size * 2))
        let len := wrap32 (sect - start)
        (pteOf g active i part.type start len :: ·) <$> genEntries l g active (i + 1) sect parts

/-! ## The table -/

def Chs.bytes (c : Chs) : List UInt8 := [c.c0, c.c1, c.c2]

def Pte.bytes (e : Pte) : List UInt8 :=
  [e.active] ++ (e.chsStart.bytes ++ ([e.type] ++ (e.chsEnd.bytes ++ (le32 e.start ++ le32 e.length))))

/-- `gen_ptable`: the file that it leaves. -/
def genPtable (l : LongSize) (g : Geometry) (active : Int) (parts : List PartInfo) : Option (List UInt8) :=
  (genEntries l g active 0 0 parts).map fun pte =>
    let pte := pte ++ List.replicate (4 - pte.length) Pte.zero
    let fd := (Stream.empty.seek 446).write (pte.flatMap Pte.bytes)
    ((fd.seek 510).write [0x55, 0xaa]).bytes

end UbntSdk.Images.Ptgen
