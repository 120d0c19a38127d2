/-
UbntSdk.Firmware.Image — the firmware image writer of
`tools/ubnt-mkfwimage` (`fw.h`, `ubnt-mkfwimage.c`).

An image is a 268 byte `header_t`, one record per part (a 56 byte
`part_t`, the part's data, an 8 byte `part_crc_t`) and a 12 byte
`signature_t`. `buildImage` allocates one zeroed buffer for all of it and
fills it in place; every store is a `poke?` at the C offset, so `none` is
a store outside that buffer.

`crc32` is zlib's `crc32(0L, …)`, a parameter: a function of the byte
string. The file system and the C library calls that can fail are the
`Env`.
-/
import UbntSdk.Lib.Bytes

namespace UbntSdk.Firmware

open UbntSdk.Lib

/-! ## `fw.h` -/

def MAGIC_HEADER : List UInt8 := [0x4f, 0x50, 0x45, 0x4e]
def MAGIC_PART : List UInt8 := [0x50, 0x41, 0x52, 0x54]
def MAGIC_END : List UInt8 := [0x45, 0x4e, 0x44, 0x2e]

def MAGIC_LENGTH : Nat := 4

/-- `sizeof(header_t)`: magic 4, version 256, crc 4, pad 4. -/
def sizeofHeader : Nat := 268

/-- `sizeof(part_t)`: magic 4, name 16, pad 12, then memaddr, index,
baseaddr, entryaddr, data_size and part_size at 32, 36, 40, 44, 48, 52. -/
def sizeofPart : Nat := 56

/-- `sizeof(part_crc_t)`. -/
def sizeofPartCrc : Nat := 8

/-- `sizeof(signature_t)`: magic 4, crc 4, pad 4. -/
def sizeofSignature : Nat := 12

/-! ## The layout -/

def MAX_SECTIONS : Nat := 8

/-- `part_data_t`. `stSize` is `stats.st_size`, which
`validate_image_layout` fills in. -/
structure PartData where
  partitionName : CStr
  partitionIndex : UInt32
  partitionBaseaddr : UInt32
  partitionMemaddr : UInt32
  partitionEntryaddr : UInt32
  partitionLength : UInt32
  filename : CStr
  stSize : Nat
  deriving DecidableEq

/-- `image_info_t`, less the output file's name; `part_count` is the length
of `parts`. -/
structure ImageInfo where
  version : CStr
  parts : List PartData
  deriving DecidableEq

/-- What the tool asks of its surroundings: the files that exist (`stat`
succeeds on exactly these), which of them cannot be opened or mapped, and
whether `calloc`, `fopen` and `fwrite` succeed. `fwriteStops` is the
number of bytes a failing `fwrite` leaves in the output file. -/
structure Env where
  content : CStr → Option (List UInt8)
  openFails : CStr → Bool
  mmapFails : CStr → Bool
  callocFails : Nat → Bool
  fopenFails : Bool
  fwriteStops : Option Nat

/-- The body of `validate_image_layout`'s loop. -/
def validatePart (env : Env) (d : PartData) : Except Int PartData :=
  let len := d.partitionName.strlen
  if len = 0 ∨ len > 16 then .error (-1)
  else
    match env.content d.filename with
    | none => .error (-2)
    | some data =>
        if data.length = 0 then .error (-3)
        else if data.length > d.partitionLength.toNat then .error (-4)
        else .ok { d with stSize := data.length }

/-- `validate_image_layout`: the error code, or the layout with its stats
filled in. -/
def validateImageLayout (env : Env) (im : ImageInfo) : Except Int ImageInfo :=
  if im.parts.length = 0 ∨ im.parts.length > MAX_SECTIONS then .error (-1)
  else do
    let parts ← im.parts.mapM (validatePart env)
    return { im with parts := parts }

/-! ## Writing the image -/

section Writer

variable (crc32 : List UInt8 → UInt32)

/-- `write_header`. The CRC covers all but the last two words. -/
def writeHeader (mem : List UInt8) (version : CStr) : Option (List UInt8) := do
  let mem ← poke? mem 0 (List.replicate sizeofHeader 0)
  let mem ← poke? mem 0 MAGIC_HEADER
  let mem ← poke? mem 4 (strncpy version 256)
  let body ← peek? mem 0 (sizeofHeader - 2 * 4)
  let mem ← poke? mem 260 (be32 (crc32 body))
  poke? mem 264 (be32 0)

/-- `write_signature`: the CRC covers everything in front of it. -/
def writeSignature (mem : List UInt8) (sigOffset : Nat) : Option (List UInt8) := do
  let mem ← poke? mem sigOffset (List.replicate sizeofSignature 0)
  let mem ← poke? mem sigOffset MAGIC_END
  let body ← peek? mem 0 sigOffset
  let mem ← poke? mem (sigOffset + 4) (be32 (crc32 body))
  poke? mem (sigOffset + 8) (be32 0)

/-- `write_part` from the `memcpy` on: the data, then the fields of
`part_t` in the order the code stores them, then the CRC. The length zlib
gets is its `uInt` parameter. -/
def fillPart (mem : List UInt8) (p : Nat) (d : PartData) (data : List UInt8) :
    Option (List UInt8) := do
  let mem ← poke? mem (p + sizeofPart) data
  let mem ← poke? mem (p + 4) (List.replicate 16 0)
  let mem ← poke? mem p MAGIC_PART
  let mem ← poke? mem (p + 4) (strncpy d.partitionName 16)
  let mem ← poke? mem (p + 36) (be32 d.partitionIndex)
  let mem ← poke? mem (p + 48) (be32 (UInt32.ofNat d.stSize))
  let mem ← poke? mem (p + 52) (be32 d.partitionLength)
  let mem ← poke? mem (p + 40) (be32 d.partitionBaseaddr)
  let mem ← poke? mem (p + 32) (be32 d.partitionMemaddr)
  let mem ← poke? mem (p + 44) (be32 d.partitionEntryaddr)
  let body ← peek? mem p ((d.stSize + sizeofPart) % 2 ^ 32)
  let mem ← poke? mem (p + sizeofPart + d.stSize) (be32 (crc32 body))
  poke? mem (p + sizeofPart + d.stSize + 4) (be32 0)

/-- `write_part`: its return code and the buffer it leaves. -/
def writePart (env : Env) (mem : List UInt8) (p : Nat) (d : PartData) :
    Option (Int × List UInt8) :=
  match env.content d.filename with
  | none => some (-1, mem)
  | some file =>
      if env.openFails d.filename then some (-1, mem)
      else if env.mmapFails d.filename then some (-2, mem)
      else do
        let data ← peek? file 0 d.stSize
        let mem ← fillPart crc32 mem p d data
        return (0, mem)

/-- The part loop of `build_image`. A failing `write_part` is reported and
the loop goes on: the return code is dropped here as it is there. -/
def writeParts (env : Env) : List UInt8 → Nat → List PartData → Option (List UInt8)
  | mem, _, [] => some mem
  | mem, p, d :: rest => do
      let (_, mem) ← writePart crc32 env mem p d
      writeParts env mem (p + sizeofPart + d.stSize + sizeofPartCrc) rest

/-- The `u_int32_t` buffer size `build_image` adds up. -/
def memSize (im : ImageInfo) : Nat :=
  im.parts.foldl
    (fun size d => (size + (sizeofPart + d.stSize + sizeofPartCrc)) % 2 ^ 32)
    (sizeofHeader + sizeofSignature)

/-- `build_image`: its return code and the output file it leaves, if any. -/
def buildImage (env : Env) (im : ImageInfo) : Option (Int × Option (List UInt8)) :=
  let size := memSize im
  if env.callocFails size then some (-1, none)
  else do
    let mem ← writeHeader crc32 (List.replicate size 0) im.version
    let mem ← writeParts crc32 env mem sizeofHeader im.parts
    let mem ← writeSignature crc32 mem ((size + 2 ^ 32 - sizeofSignature) % 2 ^ 32)
    if env.fopenFails then return (-10, none)
    else
      match env.fwriteStops with
      | some n => return (-11, some (mem.take n))
      | none => return (0, some mem)

end Writer

end UbntSdk.Firmware
