/-
UbntSdk.Firmware.Split — the firmware image reader of
`tools/ubnt-mkfwimage` (`fwsplit.c`).

`fw_parse` gets the mapped file as a pointer and a size and walks the part
records with pointer arithmetic. A pointer is modelled by its offset from
`base`; sums of pointers are taken modulo `ptrMod`, the size of the host's
address space (2^32 or 2^64), which is also the modulus of the
`unsigned long` comparison in the bounds check. Every dereference of the
mapped file is a `peek?`: a result `none` is a read outside of it.

The walk need not end (see the loop), so it is a `Lib.run` of one pass,
for any number of passes. `debug` is 0, its default: the `DEBUG` lines
are not modelled. The `INFO` and `WARN` lines are: a `WARN` about a part
prints the part's name with `%s`, which reads the file up to a NUL.
-/
import UbntSdk.Firmware.Image
import UbntSdk.Lib.Loop

namespace UbntSdk.Firmware

open UbntSdk.Lib

def MAX_PARTS : Nat := 8

/-- `fw_part_t`: three pointers into the image and the data size. -/
structure FwPart where
  header : Nat
  data : Nat
  dataSize : UInt32
  signature : Nat
  deriving DecidableEq

/-- A `WARN` line `fw_parse` prints. -/
inductive Warning where
  | partCrc (name : CStr)
  | signatureCrc
  deriving DecidableEq

/-- `fw_t`; an entry of `parts` that `memset` zeroed and nothing filled is
`none`. -/
structure Fw where
  size : UInt32
  version : List UInt8
  parts : List (Option FwPart)
  partCount : Nat
  deriving DecidableEq

/-- What `fw_parse` has done when it stops: its return code, the `fw_t` it
filled and the warnings it printed. -/
structure Parsed where
  ret : Int
  fw : Fw
  warnings : List Warning
  deriving DecidableEq

/-- The loop variables of `fw_parse`. -/
structure Walk where
  p : Nat
  i : Nat
  parts : List (Option FwPart)
  warnings : List Warning
  deriving DecidableEq

/-- The outcome of one pass of the loop: `END.` found, the bounds check
failed, or the next record. -/
inductive FwPass where
  | atEnd
  | outOfBounds (w : Walk)
  | next (w : Walk)
  deriving DecidableEq

section Reader

variable (crc32 : List UInt8 → UInt32) (ptrMod : Nat) (base : List UInt8)

/-- `fw_check_header`: whether the header's CRC matches. -/
def fwCheckHeader : Option Bool := do
  let body ← peek? base 0 (sizeofHeader - 2 * 4)
  let stored ← u32be? base 260
  return crc32 body == stored

/-- The branch of the loop for a `PART` record below the capacity: fill
`parts[i]`, compare the CRC, and on a mismatch print the name. -/
def fwFillPart (w : Walk) : Option Walk := do
  let dataSize ← u32be? base (w.p + 48)
  let data := (w.p + sizeofPart) % ptrMod
  let signature := (data + dataSize.toNat) % ptrMod
  let body ← peek? base w.p ((dataSize.toNat + sizeofPart) % 2 ^ 32)
  let stored ← u32be? base signature
  let parts := w.parts.set w.i (some { header := w.p, data, dataSize, signature })
  if crc32 body ≠ stored then
    let name ← cstr? base (w.p + 4)
    return { w with parts, warnings := w.warnings ++ [.partCrc name] }
  else
    return { w with parts }

/-- One pass of the loop of `fw_parse`, its condition included. -/
def fwPass (w : Walk) : Option FwPass := do
  let magic ← peek? base w.p MAGIC_LENGTH
  if magic = MAGIC_END then return .atEnd
  else
    let w' ← if magic = MAGIC_PART ∧ w.i < MAX_PARTS then fwFillPart crc32 ptrMod base w
      else some w
    let dataSize ← u32be? base (w.p + 48)
    let p := (w.p + sizeofPart + dataSize.toNat + sizeofPartCrc) % ptrMod
    if p ≥ base.length then return .outOfBounds { w' with p }
    else return .next { w' with p, i := w.i + 1 }

/-- `fw_parse` after the loop: the signature's magic and CRC. -/
def fwCheckSignature (w : Walk) : Option (Int × List Warning) := do
  let magic ← peek? base w.p MAGIC_LENGTH
  if magic ≠ MAGIC_END then return (-4, w.warnings)
  else
    let body ← peek? base 0 w.p
    let stored ← u32be? base (w.p + 4)
    if crc32 body ≠ stored then return (0, w.warnings ++ [.signatureCrc])
    else return (0, w.warnings)

/-- The `fw_t` after the `memset` and the version copy. -/
def fwEmpty : Fw where
  size := UInt32.ofNat base.length
  version := (base.drop 4).take 256
  parts := List.replicate MAX_PARTS none
  partCount := 0

/-- One pass of the loop, with what follows the loop when it is left. -/
def fwBody (w : Walk) : Pass Walk Parsed :=
  match fwPass crc32 ptrMod base w with
  | none => .fault
  | some (.outOfBounds w') =>
      .stop { ret := -3, fw := { fwEmpty base with parts := w'.parts }, warnings := w'.warnings }
  | some (.next w') => .next w'
  | some .atEnd =>
      match fwCheckSignature crc32 base w with
      | none => .fault
      | some (ret, warnings) =>
          .stop { ret, warnings,
                  fw := { fwEmpty base with parts := w.parts, partCount := w.i } }

/-- The loop variables on entry. -/
def fwWalkStart : Walk where
  p := sizeofHeader
  i := 0
  parts := List.replicate MAX_PARTS none
  warnings := []

/-- `fw_parse(base, size, fw)` with `fw` not NULL, run for at most `fuel`
passes of its loop. A bad header CRC returns before `fw` is touched. -/
def fwParse (fuel : Nat) : Outcome Parsed :=
  match fwCheckHeader crc32 base with
  | none => .fault
  | some false =>
      .done { ret := -2, warnings := [],
              fw := { size := 0, version := [], parts := [], partCount := 0 } }
  | some true => run (fwBody crc32 ptrMod base) fuel fwWalkStart

end Reader

/-! ## `fw_split` -/

/-- The entries the two loops of `fw_split` dereference; `none` when one of
them is past the array or was never filled. -/
def fwSplitEntries (fw : Fw) : Option (List FwPart) :=
  (List.range fw.partCount).mapM fun i => (fw.parts[i]?).join

end UbntSdk.Firmware
