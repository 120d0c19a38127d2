/-
UbntSdk.Images.Casfw — the writer of images for CAS and NFS servers
(`tools/firmware-utils/src/mkcasfw.c`).

The model starts where `getopt` has cut the command line: an option is its
letter and its argument, and the other arguments are `operands`. A file system
is a partial function from names to contents, which do not change while the
program runs; the output can always be written. Messages are left out.

`Outcome.outfile` is what the program has left in the output file; it is `none`
also if the file is not touched, or unlinked.
-/
import UbntSdk.Lib.Stream
import UbntSdk.Lib.Words

namespace UbntSdk.Images.Casfw

open UbntSdk.Lib

def MAX_ARG_LEN : Nat := 1024
def FILE_BUF_LEN : Nat := 16 * 1024
def DEFAULT_PADC : UInt8 := 0xFF

/-- `sizeof(struct fwhdr_cas)`, which is also that of `struct fwhdr_nfs`. -/
def sizeofFwhdr : UInt32 := 32

def CAS_MAGIC1 : UInt32 := 0x5241AA55
def CAS_MAGIC2 : UInt32 := 0x524F4741
def CAS_MAGIC3 : UInt32 := 0xD3F22D4E

/-! ## Boards -/

inductive HeaderType where
  | nfs
  | cas
  deriving DecidableEq

/-- `HEADER_TYPE_NFS` and `HEADER_TYPE_CAS`. -/
def HeaderType.code : HeaderType → UInt32
  | nfs => 0
  | cas => 1

/-- `struct board_info`, less the long name. -/
structure BoardInfo where
  model : List Char
  headerType : HeaderType
  id : UInt32
  maxKernelSize : UInt32
  maxFsSize : UInt32
  deriving DecidableEq

def KERNEL_SIZE_CAS : UInt32 := 61 * 64 * 1024
def KERNEL_SIZE_NFS : UInt32 := 52 * 64 * 1024
def FS_SIZE_NFS : UInt32 := 9 * 64 * 1024

def BOARD_CAS (m : String) (i : UInt32) : BoardInfo := ⟨m.toList, .cas, i, KERNEL_SIZE_CAS, 0⟩
def BOARD_NFS (m : String) (i : UInt32) : BoardInfo := ⟨m.toList, .nfs, i, KERNEL_SIZE_NFS, FS_SIZE_NFS⟩

/-- `boards`, in the order of the source. -/
def boards : List BoardInfo :=
  [BOARD_CAS "CAS-630" 0x01000000, BOARD_CAS "CAS-630W" 0x01000000, BOARD_CAS "CAS-670" 0x01000000,
   BOARD_CAS "CAS-670W" 0x01000000, BOARD_NFS "NFS-101U" 0x01000000, BOARD_NFS "NFS-101WU" 0x01000003,
   BOARD_NFS "NFS-202U" 0x01000001, BOARD_NFS "NFS-202WU" 0x01000002, BOARD_NFS "CG-NSADP" 0x01000020,
   BOARD_NFS "CG-NSADPCR" 0x01000021, BOARD_CAS "DCS-950" 0x01010102, BOARD_CAS "DCS-950G" 0x01020102,
   BOARD_NFS "DNS-120" 0x01000030, BOARD_NFS "DNS-G120" 0x01000032, BOARD_NFS "DN-7013" 0x01000000,
   BOARD_NFS "LB-SS01TXU" 0x00000000, BOARD_NFS "MU-5000FS" 0x01000040, BOARD_CAS "WL-5420CAM" 0x020B0101,
   BOARD_CAS "WL-5460CAM" 0x020B0001, BOARD_CAS "LN-403" 0x01020402, BOARD_CAS "WL-401" 0x01010402,
   BOARD_CAS "EP-4001-MM" 0x01030A02, BOARD_CAS "EP-4002-MM" 0x01020A02, BOARD_CAS "EP-4011-MM" 0x01010A02,
   BOARD_CAS "EP-4012-MM" 0x01000A02, BOARD_NFS "TN-U100" 0x01000081, BOARD_NFS "TN-U200" 0x01000081]

/-- `find_board`, with `strcasecmp`. -/
def findBoard (model : List Char) : Option BoardInfo :=
  boards.find? fun board => model.map Char.toLower = board.model.map Char.toLower

/-! ## Globals -/

/-- `struct image_desc`, less what is never read. -/
structure ImageDesc where
  fileName : Option (List Char)
  fileSize : UInt32
  csum : UInt32
  outSize : UInt32
  padc : UInt8
  deriving DecidableEq

/-- The global variables. The fields of `header` are set with the board. -/
structure Globals where
  board : Option BoardInfo
  kernelImage : ImageDesc
  fsImage : ImageDesc
  invalidCausesError : Bool
  keepInvalidImages : Bool
  deriving DecidableEq

def globals : Globals := ⟨none, ⟨none, 0, 0, 0, 0⟩, ⟨none, 0, 0, 0, 0⟩, true, false⟩

inductive Exit where
  | success
  | failure
  deriving DecidableEq

structure Outcome where
  status : Exit
  outfile : Option (List UInt8)
  deriving DecidableEq

/-- An exit that leaves no output. -/
def failed : Outcome := ⟨.failure, none⟩

/-! ## Options -/

/-- A letter that is not in the option string is turned into `?`. -/
def getopt (c : Char) : Char := if c ∈ "BCdhKrvwx".toList then c else '?'

/-- `parse_opt_board`. -/
def parseOptBoard (arg : List Char) (g : Globals) : Option Globals :=
  if g.board.isSome then none
  else if arg.head? = some '-' then none
  else (findBoard arg).map fun board => { g with board := some board }

/-- The first argument that `parse_arg` finds, if it is not empty. -/
def fileArg (arg : List Char) : Option (List Char) :=
  let name := (arg.take (MAX_ARG_LEN - 1)).takeWhile (· ≠ ':')
  if name = [] then none else some name

/-- `parse_opt_image`. -/
def parseOptImage (ch : Char) (arg : List Char) (g : Globals) : Option Globals :=
  match ch with
  | 'K' =>
      if g.kernelImage.fileName.isSome then none
      else (fileArg arg).map fun name =>
        { g with kernelImage := { g.kernelImage with fileName := some name } }
  | 'F' =>
      if g.fsImage.fileName.isSome then none
      else (fileArg arg).map fun name => { g with fsImage := { g.fsImage with fileName := some name } }
  | _ => none

def orFail (g : Option Globals) : Except Outcome Globals := g.elim (.error failed) .ok

/-- One round of the loop of `main`. -/
def parseOpt (g : Globals) (o : Char × List Char) : Except Outcome Globals :=
  match getopt o.1 with
  | 'B' => orFail (parseOptBoard o.2 g)
  | 'd' => .ok { g with invalidCausesError := false }
  | 'C' => orFail (parseOptImage 'C' o.2 g)
  | 'K' => orFail (parseOptImage 'K' o.2 g)
  | 'k' => .ok { g with keepInvalidImages := true }
  | 'v' => .ok g
  | 'h' => .error ⟨.success, none⟩
  | _ => .error failed

/-! ## Sizes -/

/-- A file system. -/
abbrev Files := List Char → Option (List UInt8)

/-- What the functions return. -/
inductive Res where
  | ok
  | fatal
  | invalidImage
  deriving DecidableEq

def align (base alignment : UInt32) : UInt32 :=
  if alignment ≠ 0 then (base + alignment - 1) &&& ~~~(alignment - 1) else base

/-- `image_stat_file`. -/
def imageStatFile (fs : Files) (desc : ImageDesc) : Res × ImageDesc :=
  match desc.fileName with
  | none => (.ok, desc)
  | some name =>
      match fs name with
      | none => (.fatal, desc)
      | some content =>
          if content.length > desc.outSize.toNat then
            (.invalidImage, { desc with fileSize := desc.outSize })
          else
            let fileSize := UInt32.ofNat content.length
            (.ok, { desc with fileSize, outSize := align fileSize 1 })

/-- `process_images`. -/
def processImages (fs : Files) (board : BoardInfo) (g : Globals) : Res × Globals :=
  let (res, kernelImage) := imageStatFile fs
    { g.kernelImage with outSize := board.maxKernelSize, padc := DEFAULT_PADC }
  let g := { g with kernelImage }
  if res ≠ .ok then (res, g)
  else if g.fsImage.fileName.isNone then (.ok, g)
  else
    let (res, fsImage) := imageStatFile fs
      { g.fsImage with outSize := board.maxFsSize, padc := DEFAULT_PADC }
    (res, { g with fsImage })

/-! ## Output -/

/-- `csum32_update`. -/
def csum32Update : List UInt8 → UInt32 → UInt32
  | a :: b :: c :: d :: rest, val =>
      csum32Update rest
        (val ^^^ (a.toUInt32 + (b.toUInt32 <<< 8) + (c.toUInt32 <<< 16) + (d.toUInt32 <<< 24)))
  | _, val => val

/-- `struct csum_state`, without the size, which these functions do not read. -/
structure CsumState where
  val : UInt32
  tmp : UInt32
  odd : Bool

/-- `csum_init`. -/
def csumInit : CsumState := ⟨0, 0, false⟩

/-- The loop and the end of `csum16_update`. -/
def csum16Words : List UInt8 → CsumState → CsumState
  | [], css => css
  | [a], css => { css with tmp := a.toUInt32, odd := true }
  | a :: b :: rest, css =>
      let t := (a.toUInt32 + (b.toUInt32 <<< 8)).toUInt16
      csum16Words rest { css with val := css.val + t.toUInt32 }

/-- `csum16_update`. With a byte kept from the last call it reads one without
looking at the length. -/
def csum16Update (p : List UInt8) (css : CsumState) : Option CsumState :=
  if css.odd then
    match p with
    | [] => none
    | a :: rest =>
        let t := (css.tmp + (a.toUInt32 <<< 8)).toUInt16
        some (csum16Words rest { css with val := css.val + t.toUInt32, odd := false })
  else some (csum16Words p css)

/-- `csum16_get`. -/
def csum16Get (css : CsumState) : Option UInt16 := do
  let css ← csum16Update [0] css
  return (~~~css.val + 1).toUInt16

/-- `write_out_data` with a checksum of 32 bits. -/
def writeOutData (o : Stream × UInt32) (data : List UInt8) : Stream × UInt32 :=
  (o.1.write data, csum32Update data o.2)

/-- `write_out_padding`. -/
def writeOutPadding (len : UInt32) (padc : UInt8) (o : Stream × UInt32) : Stream × UInt32 :=
  (chunks 512 (List.replicate len.toNat padc)).foldl writeOutData o

/-- `image_writeout_file`. -/
def imageWriteoutFile (fs : Files) (desc : ImageDesc) (o : Stream × UInt32) : Option (Stream × UInt32) :=
  match desc.fileName with
  | none => some o
  | some name =>
      if desc.fileSize = 0 then some o
      else
        (fs name).map fun content =>
          (chunks FILE_BUF_LEN (content.take desc.fileSize.toNat)).foldl writeOutData o

/-- `image_writeout`. -/
def imageWriteout (fs : Files) (desc : ImageDesc) (outfile : Stream) : Option (Stream × ImageDesc) :=
  if desc.fileSize = 0 then some (outfile, desc)
  else
    (imageWriteoutFile fs desc (outfile, 0)).map fun o =>
      let o := writeOutPadding (desc.outSize - desc.fileSize) desc.padc o
      (o.1, { desc with csum := o.2 })

/-- The header that `write_out_header` fills in. -/
def headerBytes (board : BoardInfo) (kernel fs : ImageDesc) : List UInt8 :=
  match board.headerType with
  | .cas =>
      le32 board.headerType.code ++ (le32 sizeofFwhdr ++ (le32 kernel.outSize ++ (le32 board.id ++
        (le32 kernel.csum ++ (le32 CAS_MAGIC1 ++ (le32 CAS_MAGIC2 ++ le32 CAS_MAGIC3))))))
  | .nfs =>
      le32 board.headerType.code ++ (le32 sizeofFwhdr ++ (le32 kernel.outSize ++
        (le32 (sizeofFwhdr + kernel.outSize) ++ (le32 fs.outSize ++ (le32 kernel.csum ++ (le32 fs.csum ++
          le32 board.id))))))

/-- `write_out_header`. -/
def writeOutHeader (board : BoardInfo) (kernel fs : ImageDesc) (outfile : Stream) : Stream :=
  (outfile.seek 0).write (headerBytes board kernel fs)

/-- The header, the images, and the header again. -/
def writeOut (fs : Files) (board : BoardInfo) (kernel fsImage : ImageDesc) : Option (List UInt8) := do
  let outfile := writeOutHeader board kernel fsImage Stream.empty
  let (outfile, kernel) ← imageWriteout fs kernel outfile
  let (outfile, fsImage) ← imageWriteout fs fsImage outfile
  return (writeOutHeader board kernel fsImage outfile).bytes

/-- `main` behind the loop over the options. -/
def generate (fs : Files) (board : BoardInfo) (g : Globals) : Outcome :=
  let (res, g) := processImages fs board g
  if res = .fatal then failed
  else
    let status := if res = .invalidImage ∧ g.invalidCausesError then .failure else .success
    if res = .invalidImage ∧ ¬ g.keepInvalidImages then ⟨status, none⟩
    else
      match writeOut fs board g.kernelImage g.fsImage with
      | none => failed
      | some image => if status = .failure then failed else ⟨status, some image⟩

/-- `main`: the program. -/
def mkcasfw (fs : Files) (opts : List (Char × List Char)) (operands : List (List Char)) : Outcome :=
  match opts.foldlM parseOpt globals with
  | .error outcome => outcome
  | .ok g =>
      match g.board, operands with
      | some board, [_] => generate fs board g
      | _, _ => failed

end UbntSdk.Images.Casfw
