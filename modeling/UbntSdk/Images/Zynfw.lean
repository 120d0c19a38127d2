/-
UbntSdk.Images.Zynfw — the writer of ZyNOS firmware images
(`tools/firmware-utils/src/mkzynfw.c`, `zynos.h`).

The model starts where an option is split: each `-b` and `-r` has a file name
and perhaps an alignment. A file system is a partial function from names to
contents, which do not change while the program runs. The host has the order
of a PC, and the output can always be written. Files and padding go out
through buffers, and the checksum goes on from byte to byte, so that each of
them is one write here.

Offsets are offsets in the flash, of which the image takes the part from
`romio_offs` on. `starts` has no counterpart in the source: it records the
position in the output at which each raw block is written.
-/
import UbntSdk.Lib.Align
import UbntSdk.Lib.Words

namespace UbntSdk.Images.Zynfw

open UbntSdk.Lib

def MAX_NUM_BLOCKS : Nat := 8
def MMAP_DATA_SIZE : UInt32 := 1024
def MMAP_ALIGN : UInt32 := 16
def BOOTEXT_DEF_SIZE : UInt32 := 0x18000
def OBJECT_TYPE_BOOTEXT : UInt8 := 0x03
def ROMBIN_FLAG_OCSUM : UInt8 := 0x40

/-- `sizeof(struct zyn_rombin_hdr)`. -/
def sizeofRombinHdr : UInt32 := 48

/-- `sizeof(struct zyn_mmt_hdr)`. -/
def sizeofMmtHdr : UInt32 := 24

/-! ## Boards -/

/-- `struct board_info`, less the names. -/
structure BoardInfo where
  vendor : UInt16
  model : UInt16
  flashBase : UInt32
  flashSize : UInt32
  codeStart : UInt32
  romioOffs : UInt32
  bootextSize : UInt32
  deriving DecidableEq

def ZYNOS_VENDOR_ID_ZYXEL : UInt16 := 0
def ZYNOS_VENDOR_ID_O2 : UInt16 := 10
def ADM5120_FLASH_BASE : UInt32 := 0xBFC00000
def ADM5120_CODE_START : UInt32 := 0x80008000
def AR7_FLASH_BASE : UInt32 := 0xB0000000
def ATHEROS_FLASH_BASE : UInt32 := 0xBFC00000
def ATHEROS_CODE_START : UInt32 := 0x80e00000

/-- `MID`: a model number in the other byte order. -/
def MID (x : UInt16) : UInt16 := ((x &&& 0xFF) <<< 8) ||| ((x &&& 0xFF00) >>> 8)

/-- `BOARD`; the flash size is in MiB. -/
def BOARD (v m : UInt16) (fb fs cs fo : UInt32) : BoardInfo where
  vendor := v
  model := m
  flashBase := fb
  flashSize := fs <<< 20
  codeStart := cs
  romioOffs := fo
  bootextSize := BOOTEXT_DEF_SIZE

def ADMBOARD1 (m : UInt16) (fs : UInt32) : BoardInfo :=
  BOARD ZYNOS_VENDOR_ID_ZYXEL m ADM5120_FLASH_BASE fs ADM5120_CODE_START 0x8000

def ADMBOARD2 (m : UInt16) (fs : UInt32) : BoardInfo :=
  BOARD ZYNOS_VENDOR_ID_ZYXEL m ADM5120_FLASH_BASE fs ADM5120_CODE_START 0x10000

def ATHEROSBOARD1 (m : UInt16) (fs : UInt32) : BoardInfo :=
  BOARD ZYNOS_VENDOR_ID_ZYXEL m ATHEROS_FLASH_BASE fs ATHEROS_CODE_START 0x30000

/-- `boards`, in the order of the source. -/
def boards : List BoardInfo :=
  [ADMBOARD2 (MID 221) 4, ADMBOARD2 (MID 4097) 4, ADMBOARD2 (MID 61952) 4, ADMBOARD2 (MID 44801) 4,
   ADMBOARD2 (MID 62208) 4, ADMBOARD2 (MID 64512) 4, ADMBOARD2 (MID 62464) 4,
   ADMBOARD1 (MID 61855) 2, ADMBOARD1 (MID 61855) 2, ADMBOARD1 (MID 62879) 2, ADMBOARD1 (MID 56735) 4,
   ADMBOARD1 (MID 62367) 2, ADMBOARD1 (MID 57344) 4, ADMBOARD1 (MID 57600) 4, ADMBOARD1 (MID 61343) 4,
   ADMBOARD1 (MID 60831) 4, ADMBOARD1 (MID 9472) 4, ADMBOARD1 (MID 56479) 4, ADMBOARD1 (MID 60831) 4,
   -- P-2602HW-D1A and O2SURF
   ⟨ZYNOS_VENDOR_ID_ZYXEL, MID 6301, AR7_FLASH_BASE, 4 * 1024 * 1024, 0x94008000, 0x20000, BOOTEXT_DEF_SIZE⟩,
   ⟨ZYNOS_VENDOR_ID_O2, MID 30464, AR7_FLASH_BASE, 8 * 1024 * 1024, 0x94014000, 0x40000, BOOTEXT_DEF_SIZE⟩,
   ATHEROSBOARD1 (MID 59392) 4]

/-! ## Blocks -/

/-- `BLOCK_TYPE_BOOTEXT` and `BLOCK_TYPE_RAW`. -/
inductive BlockType where
  | bootext
  | raw
  deriving DecidableEq

/-- `struct fw_block`, less the fields that are never read. -/
structure FwBlock where
  align : UInt32
  fileName : List Char
  fileSize : UInt32
  type : BlockType
  deriving DecidableEq

/-- A `-b` or `-r` option. -/
structure OptBlock where
  type : BlockType
  fileName : List Char
  align : Option UInt32
  deriving DecidableEq

/-- A file system. -/
abbrev Files := List Char → Option (List UInt8)

/-- `parse_opt_block`. The alignment of a boot extension is not read, and a
second one is kept as a block that nothing uses. -/
def parseOptBlock (blocks : List FwBlock) (o : OptBlock) : Option (List FwBlock) :=
  if blocks.length ≥ MAX_NUM_BLOCKS then none
  else if o.fileName = [] then none
  else
    some (blocks ++ [⟨if o.type = .bootext then 0 else o.align.getD 0, o.fileName, 0, o.type⟩])

/-- `block_stat_file`. -/
def blockStatFile (fs : Files) (block : FwBlock) : Option FwBlock := do
  let content ← fs block.fileName
  return { block with fileSize := content.length.toUInt32 }

/-- `bootext_block`: the first boot extension. -/
def bootextBlock (blocks : List FwBlock) : Option FwBlock :=
  blocks.find? (·.type = .bootext)

/-- `calc_block_offsets`, with the offsets that it finds for the blocks. -/
def calcBlockOffsets (board : BoardInfo) (type : BlockType) : UInt32 → List FwBlock → Option (List UInt32)
  | _, [] => some []
  | offset, block :: blocks =>
      if block.type ≠ type then calcBlockOffsets board type offset blocks
      else
        let nextOffs := align32 offset block.align
        let avail := board.flashSize - board.romioOffs - nextOffs
        if nextOffs + block.fileSize > avail then none
        -- the padding is not added
        else (nextOffs :: ·) <$> calcBlockOffsets board type (offset + block.fileSize) blocks

/-- `process_blocks`: the blocks with their sizes, and the offsets. Without a
boot extension the program reads through a null pointer. -/
def processBlocks (fs : Files) (board : BoardInfo) (blocks : List FwBlock) :
    Option (List FwBlock × List UInt32) := do
  let blocks ← blocks.mapM (blockStatFile fs)
  let bootext ← bootextBlock blocks
  let offs ← calcBlockOffsets board .raw (board.romioOffs + bootext.fileSize) blocks
  return (blocks, offs)

/-! ## The checksum -/

/-- `struct csum_state`. -/
structure CsumState where
  odd : Bool
  sum : UInt32
  tmp : UInt32
  deriving DecidableEq

/-- `csum_init`. -/
def csumInit : CsumState := ⟨false, 0, 0⟩

/-- The addition of a half word in `csum_update`. -/
def csumAdd (sum hi : UInt32) (lo : UInt8) : UInt32 :=
  let sum := sum + ((hi <<< 8) + lo.toUInt32)
  if sum > 0xFFFF then (sum + 1) &&& 0xFFFF else sum

/-- The loop of `csum_update` and what follows it. -/
def csumLoop : List UInt8 → CsumState → CsumState
  | [], css => css
  | [a], css => { css with tmp := a.toUInt32, odd := true }
  | a :: b :: rest, css => csumLoop rest { css with sum := csumAdd css.sum a.toUInt32 b }

/-- `csum_update`. -/
def csumUpdate (p : List UInt8) (css : CsumState) : CsumState :=
  match p with
  | [] => css
  | a :: rest =>
      if css.odd then csumLoop rest { css with sum := csumAdd css.sum css.tmp a, odd := false }
      else csumLoop (a :: rest) css

/-- `csum_get`. -/
def csumGet (css : CsumState) : UInt16 := (csumUpdate [0] css).sum.toUInt16

/-- `csum_buf`. -/
def csumBuf (p : List UInt8) : UInt16 := csumGet (csumUpdate p csumInit)

/-! ## Output -/

/-- The output file and the checksum. -/
structure Out where
  outfile : List UInt8
  css : CsumState
  starts : List Nat
  deriving DecidableEq

/-- `write_out_data` with a checksum. -/
def writeOutData (data : List UInt8) (o : Out) : Out :=
  { o with outfile := o.outfile ++ data, css := csumUpdate data o.css }

/-- `write_out_padding`. -/
def writeOutPadding (len : UInt32) (padc : UInt8) (o : Out) : Out :=
  writeOutData (List.replicate len.toNat padc) o

/-- `write_out_block`. -/
def writeOutBlock (fs : Files) (block : FwBlock) (o : Out) : Option Out := do
  let content ← fs block.fileName
  return writeOutData (content.take block.fileSize.toNat) o

/-- `struct zyn_rombin_hdr`, with the fields that are not zero. -/
structure RombinHdr where
  addr : UInt32
  type : UInt8
  osize : UInt32
  flags : UInt8
  ocsum : UInt16
  mmapAddr : UInt32
  deriving DecidableEq

/-- The header as `write_out_header` stores it. -/
def RombinHdr.bytes (h : RombinHdr) : List UInt8 :=
  be32 h.addr ++ ([0, 0] ++ ([0x53, 0x49, 0x47] ++ ([h.type] ++ (be32 h.osize ++ (be32 0 ++
    ([h.flags, 0] ++ (word16 .big h.ocsum ++ (word16 .big 0 ++ (List.replicate 15 0 ++
      (be32 h.mmapAddr ++ (be32 0 ++ [0])))))))))))

/-- What `sprintf` writes for a label and some numbers, with the zero behind. -/
def sprintfZ (label : List Char) (ns : List Nat) : List UInt8 :=
  (label ++ ns.flatMap fun n => ' ' :: Nat.toDigits 10 n).map (·.toNat.toUInt8) ++ [0]

/-- The user data of the memory map. `BE16_TO_HOST` undoes `MID`. -/
def userData (board : BoardInfo) : List UInt8 :=
  sprintfZ ['V', 'e', 'n', 'd', 'o', 'r'] [1, board.vendor.toNat] ++
    (sprintfZ ['M', 'o', 'd', 'e', 'l'] [1, (MID board.model).toNat] ++
      sprintfZ ['H', 'w', 'V', 'e', 'r', 'R', 'a', 'n', 'g', 'e'] [2, 0, 0])

/-- The buffer of `write_out_mmap`. -/
def mmapBytes (board : BoardInfo) (addr : UInt32) : List UInt8 :=
  let data := userData board
  let userSize : UInt32 := sizeofMmtHdr + data.length.toUInt32
  -- the checksum goes `user_size` bytes beyond the header
  let csum := csumBuf (data ++ List.replicate sizeofMmtHdr.toNat 0)
  let buf := word16 .big 0 ++ (be32 (addr + sizeofMmtHdr) ++ (be32 (addr + userSize) ++
    (word16 .big csum ++ (List.replicate 12 0 ++ data))))
  buf ++ List.replicate (MMAP_DATA_SIZE.toNat - buf.length) 0

/-- The loop of `write_out_image` over the raw blocks. -/
def writeOutRaw (fs : Files) : UInt32 → List FwBlock → Out → Option (UInt32 × Out)
  | offset, [], o => some (offset, o)
  | offset, block :: blocks, o =>
      if block.type = .bootext then writeOutRaw fs offset blocks o
      else do
        let padlen := align32 offset block.align - offset
        let o := writeOutPadding padlen 0xFF o
        let o := { o with starts := o.starts ++ [o.outfile.length] }
        let o ← writeOutBlock fs block o
        writeOutRaw fs (offset + padlen + block.fileSize) blocks o

/-- `read_magic`; what the file does not have stays zero. -/
def readMagic (fs : Files) (bootext : FwBlock) : Option UInt16 := do
  let content ← fs bootext.fileName
  return ofWord16 .big ((content ++ [0, 0]).take 2)

/-- The end of the boot extension: `write_out_image` up to its loop, with the
offset and the address of the memory map. -/
def writeOutBootext (fs : Files) (board : BoardInfo) (bootext : FwBlock) (hdr : RombinHdr) :
    Option (UInt32 × UInt32 × Out) := do
  let offset := board.romioOffs + sizeofRombinHdr
  let o ← writeOutBlock fs bootext ⟨hdr.bytes, csumInit, []⟩
  let offset := offset + bootext.fileSize
  if offset > board.romioOffs + board.bootextSize then none
  else
    let padlen := align32 offset MMAP_ALIGN - offset
    let o := writeOutPadding padlen 0xFF o
    let offset := offset + padlen
    let mmapAddr := board.flashBase + offset
    let o := writeOutData (mmapBytes board mmapAddr) o
    let offset := offset + MMAP_DATA_SIZE
    if offset - board.romioOffs < board.bootextSize then
      let padlen := board.romioOffs + board.bootextSize - offset
      return (offset + padlen, mmapAddr, writeOutPadding padlen 0xFF o)
    else return (offset, mmapAddr, o)

/-- `write_out_image`: the image and where its raw blocks start. -/
def writeOutImage (fs : Files) (board : BoardInfo) (blocks : List FwBlock) :
    Option (List UInt8 × List Nat) := do
  let hdr : RombinHdr := ⟨board.codeStart, OBJECT_TYPE_BOOTEXT, 0, ROMBIN_FLAG_OCSUM, 0, 0⟩
  let bootext ← bootextBlock blocks
  let (offset, mmapAddr, o) ← writeOutBootext fs board bootext hdr
  let (offset, o) ← writeOutRaw fs offset blocks o
  let o := writeOutPadding (align32 offset 4 - offset) 0xFF o
  let csum := csumGet o.css
  let ocsum ← readMagic fs bootext
  let t := if csum ≤ ocsum then ocsum - csum else ocsum - csum - 1
  let hdr := { hdr with mmapAddr := mmapAddr, osize := 2, ocsum := ocsum }
  -- the header is written again over the first one
  return (hdr.bytes ++ (o.outfile ++ word16 .big t).drop hdr.bytes.length, o.starts)

/-- The program behind the choice of a board: the offsets of `process_blocks`,
the image and where its raw blocks start. -/
def mkzynfw (fs : Files) (board : BoardInfo) (opts : List OptBlock) :
    Option (List UInt32 × List UInt8 × List Nat) := do
  let blocks ← opts.foldlM parseOptBlock []
  let (blocks, offs) ← processBlocks fs board blocks
  let (image, starts) ← writeOutImage fs board blocks
  return (offs, image, starts)

end UbntSdk.Images.Zynfw
