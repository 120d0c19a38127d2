/-
UbntSdk.Images.Csysimg — the writer of CSYS firmware images
(`tools/firmware-utils/src/mkcsysimg.c`, `csysimg.h`).

The model starts where an option is split at its colons and its numbers are
converted; one that is no number ends the program there. A file system is a
partial function from names to contents, which do not change while the
program runs. The host has the order of a PC, and the output can always be
written.

The blocks that `boot_block`, `conf_block`, `webp_block` and `code_block`
point to are kept apart from the others in the array `blocks`, which are the
extra blocks and those whose kind was already there. A ninth block is stored
behind the end of the array; what it overwrites there is not modelled.
-/
import UbntSdk.Images.Mylofw

namespace UbntSdk.Images.Csysimg

open UbntSdk.Lib
open UbntSdk.Images.Mylofw (chunks)

def MAX_NUM_BLOCKS : Nat := 8
def FILE_BUF_LEN : Nat := 16 * 1024
def DEFAULT_BLOCK_ALIGN : UInt32 := 0x10000
def CSUM_SIZE_8 : UInt32 := 1
def CSUM_SIZE_16 : UInt32 := 2
def ADM_CODE_ADDR : UInt32 := 0x80500000
def ADM_WEBP_ADDR : UInt32 := 0x10000
def ADM_BOOT_SIZE : UInt32 := 0x8000
def ADM_CONF_SIZE : UInt32 := 0x8000

/-- `sizeof(struct csys_header)`. -/
def sizeofCsysHeader : UInt32 := 12

/-- The bytes of a signature. -/
def sig (s : String) : List UInt8 := s.toList.map (·.toNat.toUInt8)

/-! ## Boards -/

/-- `struct board_info`, less the names and the fields that are never read. -/
structure BoardInfo where
  flashSize : UInt32
  sigWebp : List UInt8
  bootSize : UInt32
  confSize : UInt32
  webpSizeMax : UInt32
  addrCode : UInt32
  addrWebp : UInt32

/-- `BOARD_ADM`; the flash size is in MiB. -/
def BOARD_ADM (f : UInt32) (sigw : String) : BoardInfo where
  flashSize := f <<< 20
  sigWebp := sig sigw
  bootSize := ADM_BOOT_SIZE
  confSize := ADM_CONF_SIZE
  webpSizeMax := 3 * 0x10000
  addrCode := ADM_CODE_ADDR
  addrWebp := ADM_WEBP_ADDR

/-- `boards`, in the order of the source. -/
def boards : List BoardInfo := [
   -- Edimax
   BOARD_ADM 2 "WB4K", BOARD_ADM 2 "WBKP", BOARD_ADM 2 "WBGW", BOARD_ADM 2 "WBIP", BOARD_ADM 2 "2-K-",
   BOARD_ADM 2 "2-KP", BOARD_ADM 4 "2-WG", BOARD_ADM 4 "2-WP", BOARD_ADM 2 "4--K", BOARD_ADM 2 "4-KP",
   BOARD_ADM 4 "4-WP", BOARD_ADM 2 "EWAS", BOARD_ADM 2 "4000", BOARD_ADM 2 "5010", BOARD_ADM 2 "5011",
   -- Hawking
   BOARD_ADM 2 "2-K-", BOARD_ADM 4 "2-WG",
   -- Planet
   BOARD_ADM 2 "WB4K", BOARD_ADM 2 "2-K-",
   -- Conceptronic
   BOARD_ADM 2 "WBIP"]

def SIG_CSYS : List UInt8 := sig "CSYS"

/-! ## Blocks -/

/-- `BLOCK_TYPE_BOOT` to `BLOCK_TYPE_XTRA`. -/
inductive BlockType where
  | boot
  | conf
  | webp
  | code
  | xtra
  deriving DecidableEq

/-- `struct csys_block`; `css` is a variable of `block_writeout`. -/
structure CsysBlock where
  type : BlockType
  needFile : Bool
  fileName : Option (List Char)
  fileSize : UInt32
  sig : List UInt8
  addr : UInt32
  addrSet : Bool
  align : UInt32
  alignSet : Bool
  padc : UInt8
  size : UInt32
  sizeHdr : UInt32
  sizeCsum : UInt32
  sizeAvail : UInt32
  deriving DecidableEq

/-- An element of the array at the start: type 0 is the boot type. -/
def CsysBlock.zero : CsysBlock :=
  ⟨.boot, false, none, 0, [0, 0, 0, 0], 0, false, 0, false, 0, 0, 0, 0, 0⟩

/-- The array and the pointers into it. -/
structure Csys where
  boot : Option CsysBlock
  conf : Option CsysBlock
  webp : Option CsysBlock
  code : Option CsysBlock
  rest : List CsysBlock
  deriving DecidableEq

namespace Csys

/-- No blocks. -/
def empty : Csys := ⟨none, none, none, none, []⟩

/-- All elements of the array. -/
def all (st : Csys) : List CsysBlock :=
  st.boot.toList ++ (st.conf.toList ++ (st.webp.toList ++ (st.code.toList ++ st.rest)))

/-- `num_blocks`. -/
def numBlocks (st : Csys) : Nat := st.all.length

/-- The same for every block. -/
def mapM (f : CsysBlock → Option CsysBlock) (st : Csys) : Option Csys := do
  let boot ← st.boot.mapM f
  let conf ← st.conf.mapM f
  let webp ← st.webp.mapM f
  let code ← st.code.mapM f
  let rest ← st.rest.mapM f
  return ⟨boot, conf, webp, code, rest⟩

def map (f : CsysBlock → CsysBlock) (st : Csys) : Csys :=
  ⟨st.boot.map f, st.conf.map f, st.webp.map f, st.code.map f, st.rest.map f⟩

end Csys

/-! ## Options -/

/-- An option `-b`, `-c`, `-w`, `-r` or `-x`: the first argument, and the
numbers of the others, of which some are empty. -/
structure OptBlock where
  ch : BlockType
  fileName : List Char
  args : List (Option UInt32)

/-- A file system. -/
abbrev Files := List Char → Option (List UInt8)

/-- The fields that depend on the option letter. -/
def blockFor (ch : BlockType) : CsysBlock :=
  let block := { CsysBlock.zero with needFile := true, padc := 0xFF, type := ch }
  match ch with
  | .webp => { block with sizeHdr := sizeofCsysHeader, sizeCsum := CSUM_SIZE_8, needFile := false }
  | .code => { block with sizeHdr := sizeofCsysHeader, sizeCsum := CSUM_SIZE_16 }
  | _ => block

/-- The file name in `parse_opt_block`. -/
def parseFile (fileName : List Char) (block : CsysBlock) : Option CsysBlock :=
  if fileName ≠ [] then some { block with fileName := some fileName }
  else if block.needFile then none
  else some block

/-- The start address, which only a block with a header has. -/
def parseAddr (arg : Option UInt32) (block : CsysBlock) : CsysBlock :=
  match arg with
  | some addr => { block with addr := addr, addrSet := true }
  | none => block

/-- The alignment. -/
def parseAlign (arg : Option UInt32) (block : CsysBlock) : CsysBlock :=
  match arg with
  | some align => { block with align := align, alignSet := true }
  | none => block

/-- The padding character. -/
def parsePadc (arg : Option UInt32) (block : CsysBlock) : Option CsysBlock :=
  match arg with
  | some padc => if padc ≥ 0x100 then none else some { block with padc := padc.toUInt8 }
  | none => some block

/-- The second half of `parse_opt_block`: the arguments. -/
def parseArgs (o : OptBlock) (block : CsysBlock) : Option CsysBlock :=
  (parseFile o.fileName block).bind fun block =>
    if block.sizeHdr ≠ 0 then
      parsePadc (o.args.tail.tail.headD none)
        (parseAlign (o.args.tail.headD none) (parseAddr (o.args.headD none) block))
    else parsePadc (o.args.tail.headD none) (parseAlign (o.args.headD none) block)

/-- `parse_opt_block`. A second block of a kind is stored with the defaults
only, and no pointer to it. -/
def parseOptBlock (st : Csys) (o : OptBlock) : Option Csys :=
  if st.numBlocks > MAX_NUM_BLOCKS then none
  else
    let again := parseArgs o { CsysBlock.zero with needFile := true, padc := 0xFF }
    let first := parseArgs o (blockFor o.ch)
    let store := fun (block : CsysBlock) => { st with rest := st.rest ++ [block] }
    match o.ch with
    | .boot =>
        if st.boot.isSome then again.map store else first.map fun b => { st with boot := some b }
    | .conf =>
        if st.conf.isSome then again.map store else first.map fun b => { st with conf := some b }
    | .webp =>
        if st.webp.isSome then again.map store else first.map fun b => { st with webp := some b }
    | .code =>
        if st.code.isSome then again.map store else first.map fun b => { st with code := some b }
    | .xtra => first.map store

/-! ## Sizes -/

/-- `align`. -/
def align (base alignment : UInt32) : UInt32 :=
  if alignment ≠ 0 then (base + alignment - 1) &&& ~~~(alignment - 1) else base

/-- `block_stat_file`. -/
def blockStatFile (fs : Files) (block : CsysBlock) : Option CsysBlock :=
  match block.fileName with
  | none => some block
  | some name => (fs name).map fun content => { block with fileSize := content.length.toUInt32 }

/-- What `process_blocks` does to the web block and to the code block: the
first lines of the two branches. -/
def placeBlock (sig : List UInt8) (addr offs : UInt32) (block : CsysBlock) : CsysBlock :=
  let block := { block with
    sig := sig.take 4
    addr := if block.addrSet then block.addr else addr
    align := if block.alignSet then block.align else DEFAULT_BLOCK_ALIGN }
  { block with
    size := align (offs + block.fileSize + block.sizeHdr + block.sizeCsum) block.align - offs }

/-- The same for an extra block, which has no header and no checksum. -/
def placeXtra (offs : UInt32) (block : CsysBlock) : CsysBlock :=
  let block := { block with align := if block.alignSet then block.align else DEFAULT_BLOCK_ALIGN }
  { block with size := align (offs + block.fileSize) block.align - offs }

/-- The loop over the extra blocks: the blocks, and whether one of them is
too big. -/
def placeRest (flashSize : UInt32) : UInt32 → List CsysBlock → List CsysBlock × Bool
  | _, [] => ([], false)
  | offs, block :: rest =>
      if block.type ≠ .xtra then
        let (rest, big) := placeRest flashSize offs rest
        (block :: rest, big)
      else
        let block := placeXtra offs block
        let offs := offs + block.size
        let (rest, big) := placeRest flashSize offs rest
        (block :: rest, offs > flashSize || big)

/-- The body of the last loop of `process_blocks`. -/
def setAvail (block : CsysBlock) : CsysBlock :=
  { block with sizeAvail := block.size - block.sizeHdr - block.sizeCsum }

/-- The size of a block that may not be there. -/
def sizeOf (block : Option CsysBlock) : UInt32 := block.elim 0 (·.size)

/-- `process_blocks` behind the collection of the file sizes: whether the
image is invalid, and the blocks with their sizes. -/
def layout (board : BoardInfo) (st : Csys) : Bool × Csys :=
  let boot := st.boot.map fun b => { b with size := board.bootSize }
  let offs := board.bootSize
  let conf := st.conf.map fun b => { b with size := board.confSize }
  let offs := offs + board.confSize
  let webp := st.webp.map (placeBlock board.sigWebp board.addrWebp offs)
  let webpEnd := offs + sizeOf webp
  let code := st.code.map (placeBlock SIG_CSYS board.addrCode webpEnd)
  let codeEnd := webpEnd + sizeOf code
  let (rest, restBig) := placeRest board.flashSize codeEnd st.rest
  let placed := Csys.map setAvail ⟨boot, conf, webp, code, rest⟩
  let invalid :=
    boot.any (fun b => b.fileSize > board.bootSize) ||
    conf.any (fun b => b.fileSize > board.confSize) ||
    webp.any (fun b => b.size > board.webpSizeMax || webpEnd > board.flashSize) ||
    code.any (fun _ => codeEnd > board.flashSize) || restBig ||
    placed.all.any (fun b => b.sizeAvail < b.fileSize)
  (invalid, placed)

/-- `process_blocks`. -/
def processBlocks (fs : Files) (board : BoardInfo) (st : Csys) : Option (Bool × Csys) := do
  let st ← st.mapM (blockStatFile fs)
  return layout board st

/-! ## Checksums -/

/-- `struct csum_state`. -/
structure CsumState where
  size : UInt32
  val : UInt16
  tmp : UInt16
  odd : Bool

/-- `csum_init`. -/
def csumInit (size : UInt32) : CsumState := ⟨size, 0, 0, false⟩

/-- `csum8_update`. -/
def csum8Update (p : List UInt8) (css : CsumState) : CsumState :=
  p.foldl (fun css b => { css with val := css.val + b.toUInt16 }) css

/-- `csum8_get`. -/
def csum8Get (css : CsumState) : UInt16 := ~~~(css.val.toUInt8.toUInt16) + 1

/-- The loop and the end of `csum16_update`. -/
def csum16Words : List UInt8 → CsumState → CsumState
  | [], css => css
  | [a], css => { css with tmp := a.toUInt16, odd := true }
  | a :: b :: rest, css =>
      csum16Words rest { css with val := css.val + (a.toUInt16 + (b.toUInt16 <<< 8)) }

/-- `csum16_update`; it is never called with no bytes. -/
def csum16Update (p : List UInt8) (css : CsumState) : CsumState :=
  match p with
  | [] => css
  | a :: rest =>
      if css.odd then
        csum16Words rest { css with val := css.val + (css.tmp + (a.toUInt16 <<< 8)), odd := false }
      else csum16Words (a :: rest) css

/-- `csum16_get`. -/
def csum16Get (css : CsumState) : UInt16 := ~~~(csum16Update [0] css).val + 1

/-- `csum_update`. -/
def csumUpdate (p : List UInt8) (css : CsumState) : CsumState :=
  if css.size = CSUM_SIZE_8 then csum8Update p css
  else if css.size = CSUM_SIZE_16 then csum16Update p css
  else css

/-- `csum_get`. Its result is not initialized for other sizes. -/
def csumGet (css : CsumState) : UInt16 :=
  if css.size = CSUM_SIZE_8 then csum8Get css
  else if css.size = CSUM_SIZE_16 then csum16Get css
  else 0

/-! ## Output -/

/-- The output file, and the checksum that the pointer `css` leads to. -/
structure Out where
  outfile : List UInt8
  css : Option CsumState

/-- `write_out_data` with `block->css`. -/
def writeOutData (data : List UInt8) (o : Out) : Out :=
  ⟨o.outfile ++ data, o.css.map (csumUpdate data)⟩

/-- `write_out_data` without a checksum. -/
def writePlain (data : List UInt8) (o : Out) : Out := { o with outfile := o.outfile ++ data }

/-- A loop that writes data from a buffer of `buflen` bytes. -/
def writeLoop (buflen : Nat) (data : List UInt8) (o : Out) : Out :=
  (chunks buflen data.length data).foldl (fun o buf => writeOutData buf o) o

/-- `write_out_padding`. -/
def writeOutPadding (len : UInt32) (padc : UInt8) (o : Out) : Out :=
  writeLoop 512 (List.replicate len.toNat padc) o

/-- `block_writeout_hdr`. -/
def blockWriteoutHdr (block : CsysBlock) (o : Out) : Out :=
  if block.sizeHdr = 0 then o
  else writePlain (block.sig ++ (le32 block.addr ++ le32 (block.align - block.sizeHdr))) o

/-- `block_writeout_file`. -/
def blockWriteoutFile (fs : Files) (block : CsysBlock) (o : Out) : Option Out :=
  match block.fileName with
  | none => some o
  | some name =>
      if block.fileSize = 0 then some o
      else (fs name).map fun content =>
        writeLoop FILE_BUF_LEN (content.take block.fileSize.toNat) o

/-- `block_writeout_data`. -/
def blockWriteoutData (fs : Files) (block : CsysBlock) (o : Out) : Option Out :=
  (blockWriteoutFile fs block o).map fun o =>
    writeOutPadding (block.sizeAvail - block.fileSize) block.padc o

/-- `block_writeout_csum`. -/
def blockWriteoutCsum (block : CsysBlock) (o : Out) : Out :=
  if block.sizeCsum = 0 then o
  else
    match o.css with
    | none => o
    | some css => writePlain ((le16 (csumGet css)).take block.sizeCsum.toNat) o

/-- `block_writeout`. -/
def blockWriteout (fs : Files) (block : CsysBlock) (o : Out) : Option Out := do
  let o := blockWriteoutHdr block { o with css := none }
  let o := if block.sizeCsum ≠ 0 then { o with css := some (csumInit block.sizeCsum) } else o
  let o ← blockWriteoutData fs block o
  return blockWriteoutCsum block o

/-- The blocks that `write_out_blocks` writes, in its order. -/
def Csys.written (st : Csys) : List CsysBlock :=
  st.boot.toList ++ (st.conf.toList ++ (st.webp.toList ++ (st.code.toList ++
    st.rest.filter fun b => b.type = .xtra)))

/-- `write_out_blocks`. -/
def writeOutBlocks (fs : Files) (st : Csys) : Option (List UInt8) :=
  (st.written.foldlM (fun o block => blockWriteout fs block o) ⟨[], none⟩).map (·.outfile)

end UbntSdk.Images.Csysimg
