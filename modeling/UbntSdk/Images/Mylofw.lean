/-
UbntSdk.Images.Mylofw — the writer of MyLoader firmware images
(`tools/firmware-utils/src/mkmylofw.c`, `myloader.h`).

The model starts where the options are parsed: `fw_header`, the partitions,
the blocks and the board are given. A file system is a partial function from
names to contents, which do not change while the program runs; `stat` and
`fopen` fail for a name that is not there. The output can always be written.
`size_t` has 64 bits.

`ALIGN` has no parentheses around its body, so in `ALIGN(len,4) - block->size`
the subtraction comes first.
-/
import UbntSdk.Lib.Crc
import UbntSdk.Lib.Words

namespace UbntSdk.Images.Mylofw

open UbntSdk.Lib

def MAX_FW_BLOCKS : Nat := 32
def MYLO_MAX_PARTITIONS : Nat := 8
def MYLO_MAGIC_FIRMWARE : UInt32 := 0x4C594D00
def MYLO_MAGIC_PARTITIONS : UInt32 := 0x20021103
def FILE_BUF_LEN : Nat := 16 * 1024
def BLOCK_FLAG_HAVEHDR : UInt32 := 0x0001
def FW_DESC_TYPE_USED : UInt32 := 1
def PARTITION_TYPE_USED : UInt16 := 1

/-- `sizeof(struct mylo_partition_table)`. -/
def sizeofPartitionTable : UInt32 := 144

/-- `sizeof(struct mylo_partition_header)`. -/
def sizeofPartitionHeader : UInt32 := 8

/-- `struct fw_block`, less the `crc` that is filled in on the way. A block
without a file has no flags either, and `fw_blocks` is zeroed. -/
structure FwBlock where
  addr : UInt32
  blocklen : UInt32
  flags : UInt32
  name : Option (List Char)
  size : UInt32
  bare : name = none → flags = 0 ∧ size = 0
  deriving DecidableEq

/-- `struct mylo_partition` in the order of the host. -/
structure MyloPartition where
  flags : UInt16
  addr : UInt32
  size : UInt32
  param : UInt32
  deriving DecidableEq

/-- The fields of a `struct cpx_board` that the writer reads. -/
structure CpxBoard where
  partOffset : UInt32
  partSize : UInt32
  deriving DecidableEq

/-- `struct mylo_fw_header`, less the magic, the reserved words and the crc. -/
structure FwHeader where
  vid : UInt16
  did : UInt16
  svid : UInt16
  sdid : UInt16
  rev : UInt32
  fwhi : UInt32
  fwlo : UInt32
  flags : UInt32
  deriving DecidableEq

/-- `struct mylo_fw_blockdesc`. -/
structure Blockdesc where
  type : UInt32
  addr : UInt32
  dlen : UInt32
  blen : UInt32
  deriving DecidableEq

/-! ## The CRC -/

/-- The polynomial of `init_crc_table`. -/
def crcPattern : UInt32 :=
  ([0, 1, 2, 4, 5, 7, 8, 10, 11, 12, 16, 22, 23, 26] : List UInt32).foldl (fun e p => e ||| ((1 : UInt32) <<< (31 - p))) 0

/-- The loop of `init_crc_table` for one byte, from `k = i | 256` on. -/
def tableLoop (e : UInt32) : Nat → UInt32 → Nat → UInt32
  | 0, c, _ => c
  | n + 1, c, k =>
      if k = 1 then c
      else
        let c := if c &&& 1 ≠ 0 then (c >>> 1) ^^^ e else c >>> 1
        tableLoop e n (if k &&& 1 ≠ 0 then c ^^^ e else c) (k >>> 1)

/-- `init_crc_table`: the entry of a byte. -/
def crc32Tab (i : Nat) : UInt32 := if i = 0 then 0 else tableLoop crcPattern 9 0 (i ||| 256)

/-- `update_crc`. -/
def updateCrc (p : List UInt8) (crc : UInt32) : UInt32 :=
  let t := p.foldl (fun (t : UInt32) b => crc32Tab ((t ^^^ b.toUInt32) &&& 0xff).toNat ^^^ (t >>> 8))
    (crc ^^^ 0xFFFFFFFF)
  t ^^^ 0xFFFFFFFF

/-! ## Input -/

/-- A file system. -/
abbrev Files := List Char → Option (List UInt8)

/-- `process_files` for one block. -/
def processFile (fs : Files) (flashSize : UInt32) (b : FwBlock) : Option FwBlock :=
  if b.addr + b.blocklen > flashSize then none
  else
    match b.name with
    | none => some b
    | some name => do
        let content ← fs name
        let blocklen := if b.blocklen = 0 then flashSize - b.addr else b.blocklen
        if content.length > blocklen.toNat then none
        else some ⟨b.addr, blocklen, b.flags, some name, content.length.toUInt32, nofun⟩

/-- `process_files`. -/
def processFiles (fs : Files) (flashSize : UInt32) (blocks : List FwBlock) : Option (List FwBlock) :=
  blocks.mapM (processFile fs flashSize)

/-- `process_partitions`. -/
def processPartitions (flashSize : UInt32) (parts : List MyloPartition) : Bool :=
  parts.all fun part => part.addr ≤ flashSize && part.addr + part.size ≤ flashSize

/-- The chunks in which a loop with a buffer of `buflen` bytes takes the bytes. -/
def chunks (buflen : Nat) : Nat → List UInt8 → List (List UInt8)
  | 0, _ => []
  | n + 1, bs => if bs = [] then [] else bs.take buflen :: chunks buflen n (bs.drop buflen)

/-- `get_file_crc`. -/
def getFileCrc (content : List UInt8) : UInt32 :=
  (chunks FILE_BUF_LEN content.length content).foldl (fun crc buf => updateCrc buf crc) 0

/-! ## Output -/

/-- The output file with its position, and the running CRC. -/
structure Out where
  outfile : List UInt8
  pos : Nat
  crc : UInt32
  deriving DecidableEq

/-- `write_out_data`, with or without a CRC. -/
def writeOutData (data : List UInt8) (summed : Bool) (o : Out) : Out where
  outfile := o.outfile.take o.pos ++ data ++ o.outfile.drop (o.pos + data.length)
  pos := o.pos + data.length
  crc := if summed then updateCrc data o.crc else o.crc

/-- A loop that writes data from a buffer of `buflen` bytes. -/
def writeLoop (buflen : Nat) (data : List UInt8) (o : Out) : Out :=
  (chunks buflen data.length data).foldl (fun o buf => writeOutData buf true o) o

def Blockdesc.bytes (d : Blockdesc) : List UInt8 :=
  le32 d.type ++ (le32 d.addr ++ (le32 d.dlen ++ le32 d.blen))

/-- `write_out_desc`. -/
def writeOutDesc (d : Blockdesc) (o : Out) : Out := writeOutData d.bytes true o

/-- `write_out_padding`. -/
def writeOutPadding (len : Nat) (padc : UInt8) (o : Out) : Out :=
  writeLoop 512 (List.replicate len padc) o

/-- `ALIGN(len,4) - block->size` with the `len` that is left by the loop. -/
def paddingLen (len : UInt64) (size : UInt32) : UInt64 :=
  (len + (4 - 1)) &&& (~~~(4 - 1 : UInt32) - size).toUInt64

/-- `write_out_file`. -/
def writeOutFile (fs : Files) (b : FwBlock) (o : Out) : Option Out :=
  match b.name with
  | none => some o
  | some name => do
      let content ← fs name
      let o :=
        if b.flags &&& BLOCK_FLAG_HAVEHDR ≠ 0 then
          writeOutData (le32 b.size ++ le32 (getFileCrc (content.take b.size.toNat))) true o
        else o
      let o := writeLoop FILE_BUF_LEN (content.take b.size.toNat) o
      -- the loop ends when nothing is left
      return writeOutPadding (paddingLen 0 b.size).toNat 0xFF o

/-- The header as `write_out_header` fills it in. -/
def FwHeader.bytes (h : FwHeader) (crc : UInt32) : List UInt8 :=
  le32 MYLO_MAGIC_FIRMWARE ++ (le32 crc ++ (List.replicate 8 0 ++ (le16 h.vid ++ (le16 h.did ++
    (le16 h.svid ++ (le16 h.sdid ++ (le32 h.rev ++ (le32 h.fwhi ++ (le32 h.fwlo ++ le32 h.flags)))))))))

/-- `write_out_header`. -/
def writeOutHeader (h : FwHeader) (crc : UInt32) (summed : Bool) (o : Out) : Out :=
  writeOutData (h.bytes crc) summed { o with pos := 0 }

def MyloPartition.bytes (p : MyloPartition) : List UInt8 :=
  le16 p.flags ++ (le16 PARTITION_TYPE_USED ++ (le32 p.addr ++ (le32 p.size ++ le32 p.param)))

/-- The `struct mylo_partition_table` of `write_out_partitions`. -/
def tableBytes (parts : List MyloPartition) : List UInt8 :=
  le32 MYLO_MAGIC_PARTITIONS ++ (List.replicate 12 0 ++ (parts.flatMap MyloPartition.bytes ++
    List.replicate (16 * (MYLO_MAX_PARTITIONS - parts.length)) 0))

/-- `write_out_partitions`. -/
def writeOutPartitions (parts : List MyloPartition) (o : Out) : Out :=
  if parts = [] then o else writeOutData (tableBytes parts) true o

/-- The descriptor that `write_out_blocks` makes for a block. -/
def descOf (b : FwBlock) : Blockdesc where
  type := FW_DESC_TYPE_USED
  addr := b.addr
  dlen :=
    let dlen := if b.flags &&& BLOCK_FLAG_HAVEHDR ≠ 0 then b.size + sizeofPartitionHeader else b.size
    (dlen + (4 - 1)) &&& ~~~(4 - 1)
  blen := b.blocklen

/-- The descriptor of the partition table. -/
def tableDesc (board : CpxBoard) : Blockdesc where
  type := FW_DESC_TYPE_USED
  addr := board.partOffset
  dlen := sizeofPartitionTable
  blen := board.partSize

def nullDesc : Blockdesc := ⟨0, 0, 0, 0⟩

/-- `write_out_blocks`. -/
def writeOutBlocks (fs : Files) (board : CpxBoard) (parts : List MyloPartition)
    (blocks : List FwBlock) (o : Out) : Option Out := do
  let o := if parts ≠ [] then writeOutDesc (tableDesc board) o else o
  let o := blocks.foldl (fun o b => writeOutDesc (descOf b) o) o
  let o := writeOutDesc nullDesc o
  let o := writeOutPartitions parts o
  blocks.foldlM (fun o b => writeOutFile fs b o) o

/-- The part of `main` behind the options: the bytes of the output file. The
options have too many partitions or blocks, or not. -/
def makeImage (fs : Files) (h : FwHeader) (board : CpxBoard) (flashSize : UInt32)
    (parts : List MyloPartition) (blocks : List FwBlock) : Option (List UInt8) :=
  if parts.length > MYLO_MAX_PARTITIONS ∨ blocks.length > MAX_FW_BLOCKS ∨ flashSize = 0 then none
  else do
    let blocks ← processFiles fs flashSize blocks
    if !processPartitions flashSize parts then none
    else
      let o ← writeOutBlocks fs board parts blocks (writeOutHeader h 0 true ⟨[], 0, 0⟩)
      return (writeOutHeader h o.crc false o).outfile

end UbntSdk.Images.Mylofw
