/-
UbntSdk.Images.MylofwOptions — the options of the writer of MyLoader images
(`tools/firmware-utils/src/mkmylofw.c`).

An option is its letter and its argument, as `getopt` finds them; the name of
the output file comes behind them. `-h`, which ends the program, and `-v` are
left out. `unsigned long` has 64 bits.

`parse_arg` does not set the pointers when the argument is empty. They are
taken for null pointers here.
-/
import UbntSdk.Images.Mylofw

namespace UbntSdk.Images.Mylofw

def MAX_ARG_COUNT : Nat := 32
def MAX_ARG_LEN : Nat := 1024
def VENID_COMPEX : UInt16 := 0x11F6
def PARTITION_FLAG_ACTIVE : UInt16 := 0x8000
def PARTITION_FLAG_PRELOAD : UInt16 := 0x0800
def PARTITION_FLAG_LZMA : UInt16 := 0x0100
def PARTITION_FLAG_HAVEHDR : UInt16 := 0x0002

/-! ## Boards -/

/-- `struct cpx_board`, less the texts that are only printed. -/
structure Board extends CpxBoard where
  model : List Char
  vid : UInt16
  did : UInt16
  svid : UInt16
  sdid : UInt16
  flashSize : UInt32
  deriving DecidableEq

/-- `CPX_BOARD`; the flash size is in MiB. -/
def CPX_BOARD (did : UInt16) (flash : UInt32) (model : String) (po ps : UInt32) : Board where
  partOffset := po
  partSize := ps
  model := model.toList
  vid := VENID_COMPEX
  did := did
  svid := VENID_COMPEX
  sdid := did
  flashSize := flash <<< 20

def CPX_BOARD_ADM (did : UInt16) (flash : UInt32) (model : String) : Board :=
  CPX_BOARD did flash model 0x10000 0x10000

def CPX_BOARD_AR71XX (did : UInt16) (flash : UInt32) (model : String) : Board :=
  CPX_BOARD did flash model 0x20000 0x8000

def boards : List Board := [
  CPX_BOARD_ADM 0x0489 4 "NP18A", CPX_BOARD_ADM 0x03E8 2 "NP26G8M", CPX_BOARD_ADM 0x03E9 4 "NP26G16M",
  CPX_BOARD_ADM 0x0078 4 "NP27G", CPX_BOARD_ADM 0x044C 4 "NP28G", CPX_BOARD_ADM 0x044E 4 "NP28GHS",
  CPX_BOARD_ADM 0x047E 4 "WP18", CPX_BOARD_ADM 0x0515 4 "WP54G", CPX_BOARD_ADM 0x0514 2 "WP54Gv1C",
  CPX_BOARD_ADM 0x0546 4 "WP54AG", CPX_BOARD_ADM 0x0555 4 "WPP54G", CPX_BOARD_ADM 0x0550 4 "WPP54AG",
  CPX_BOARD_AR71XX 0x0640 2 "WP543"]

/-- `find_board`; the case does not matter. -/
def findBoard (model : List Char) : Option Board :=
  boards.find? fun board => model.map Char.toLower = board.model.map Char.toLower

/-! ## Arguments -/

def isspace (c : Char) : Bool := c = ' ' || ('\t' ≤ c && c ≤ '\r')

/-- The value of a digit. -/
def digitVal (base : Nat) (c : Char) : Option Nat :=
  let value :=
    if '0' ≤ c && c ≤ '9' then some (c.toNat - 48)
    else if 'a' ≤ c && c ≤ 'f' then some (c.toNat - 87)
    else if 'A' ≤ c && c ≤ 'F' then some (c.toNat - 55)
    else none
  value.filter (· < base)

/-- The digits up to the end, of which there is at least one. -/
def digitsVal (base : Nat) (s : List Char) : Option Nat :=
  if s = [] then none
  else (s.mapM (digitVal base)).map fun ds => ds.foldl (fun n d => base * n + d) 0

/-- What `strtoul` with base 0 makes of a text that it takes to the end. -/
def strtoul (s : List Char) : Option UInt64 := do
  let (neg, s) :=
    match s.dropWhile isspace with
    | '-' :: s => (true, s)
    | '+' :: s => (false, s)
    | s => (false, s)
  let n ←
    match s with
    | '0' :: 'x' :: s => digitsVal 16 s
    | '0' :: 'X' :: s => digitsVal 16 s
    | '0' :: s => digitsVal 8 ('0' :: s)
    | s => digitsVal 10 s
  if n ≥ 2 ^ 64 then none
  else some (if neg then -n.toUInt64 else n.toUInt64)

/-- `str2u32`. -/
def str2u32 (arg : List Char) : Option UInt32 := (strtoul arg).map UInt64.toUInt32

/-- `str2u16`. -/
def str2u16 (arg : List Char) : Option UInt16 :=
  (str2u32 arg).bind fun t => if t ≥ 0x10000 then none else some t.toUInt16

/-- `parse_arg`. -/
def parseArg (arg : List Char) : List (List Char) :=
  if arg = [] then [] else ((arg.take (MAX_ARG_LEN - 1)).splitOn ':').take MAX_ARG_COUNT

/-- `argv[i]`, where an empty argument is not told from a missing one. -/
def argAt (argv : List (List Char)) (i : Nat) : List Char := argv.getD i []

/-- `required_arg`. -/
def requiredArg (arg : List Char) : Option Unit := if arg.head? = some '-' then none else some ()

/-- A number that must be there. -/
def neededU32 (arg : List Char) : Option UInt32 := if arg = [] then none else str2u32 arg

/-! ## Options -/

/-- What the options set. -/
structure Options where
  header : FwHeader
  board : Option Board
  flashSize : UInt32
  parts : List MyloPartition
  blocks : List FwBlock

/-- The header defaults. -/
def Options.start : Options where
  header := ⟨VENID_COMPEX, 0x0515, VENID_COMPEX, 0x0515, 0, 0x20000, 0x20000, 0⟩
  board := none
  flashSize := 0
  parts := []
  blocks := []

/-- An option with its argument. -/
inductive Opt where
  | block (arg : List Char)
  | board (arg : List Char)
  | flags (arg : List Char)
  | id (arg : List Char)
  | partition (arg : List Char)
  | rev (arg : List Char)
  | size (arg : List Char)
  deriving DecidableEq

/-- A block or a partition with a file gets a block in the image. -/
def fileBlock (addr blocklen : UInt32) (havehdr : Bool) (name : List Char) : FwBlock :=
  ⟨addr, blocklen, if havehdr then BLOCK_FLAG_HAVEHDR else 0, some name, 0, nofun⟩

/-- A block without a file. -/
def emptyBlock (addr blocklen : UInt32) : FwBlock := ⟨addr, blocklen, 0, none, 0, fun _ => ⟨rfl, rfl⟩⟩

/-- The block that the argument of `-b` describes. -/
def blockArg (arg : List Char) : Option FwBlock := do
  requiredArg arg
  let argv := parseArg arg
  let addr ← neededU32 (argAt argv 0)
  let blocklen ← neededU32 (argAt argv 1)
  if argv.length < 3 then return emptyBlock addr blocklen
  else if (argAt argv 2).any (· ≠ 'h') then none
  else if argAt argv 3 = [] then none
  else return fileBlock addr blocklen (argAt argv 2 ≠ []) (argAt argv 3)

/-- `parse_opt_block`. -/
def parseOptBlock (arg : List Char) (st : Options) : Option Options :=
  if st.blocks.length ≥ MAX_FW_BLOCKS then none
  else (blockArg arg).map fun b => { st with blocks := st.blocks ++ [b] }

/-- A letter of the flags of a partition. -/
def partitionFlag : Char → Option UInt16
  | 'a' => some PARTITION_FLAG_ACTIVE
  | 'p' => some PARTITION_FLAG_PRELOAD
  | 'l' => some PARTITION_FLAG_LZMA
  | 'h' => some PARTITION_FLAG_HAVEHDR
  | _ => none

/-- The loop over the letters. -/
def partitionFlags (letters : List Char) : Option UInt16 :=
  letters.foldlM (fun flags c => (partitionFlag c).map (flags ||| ·)) 0

/-- What the argument of `-p` says. -/
structure PartitionArg where
  addr : UInt32
  size : UInt32
  flags : UInt16
  param : UInt32
  file : List Char
  deriving DecidableEq

def partitionArg (arg : List Char) : Option PartitionArg := do
  requiredArg arg
  let argv := parseArg arg
  let addr ← neededU32 (argAt argv 0)
  let size ← neededU32 (argAt argv 1)
  let flags ← partitionFlags (argAt argv 2)
  let param ← if argAt argv 3 = [] then some 0 else str2u32 (argAt argv 3)
  return ⟨addr, size, flags, param, argAt argv 4⟩

namespace PartitionArg

/-- A partition without a size ends with the flash. -/
def sized (a : PartitionArg) (flashSize : UInt32) : UInt32 :=
  if a.size = 0 then flashSize - a.addr else a.size

def part (a : PartitionArg) (flashSize : UInt32) : MyloPartition :=
  ⟨a.flags, a.addr, a.sized flashSize, a.param⟩

/-- The block for the file of a partition. -/
def block (a : PartitionArg) (flashSize : UInt32) : FwBlock :=
  fileBlock a.addr (a.sized flashSize) (a.flags &&& PARTITION_FLAG_HAVEHDR ≠ 0) a.file

end PartitionArg

/-- `parse_opt_partition`. -/
def parseOptPartition (arg : List Char) (st : Options) : Option Options :=
  if st.parts.length ≥ MYLO_MAX_PARTITIONS then none
  else
    (partitionArg arg).bind fun a =>
      let st := { st with parts := st.parts ++ [a.part st.flashSize] }
      if a.file = [] then some st
      else if st.blocks.length = MAX_FW_BLOCKS then none
      else some { st with blocks := st.blocks ++ [a.block st.flashSize] }

/-- `parse_opt_board`. -/
def parseOptBoard (arg : List Char) (st : Options) : Option Options :=
  ((requiredArg arg).bind fun _ => findBoard arg).map fun board =>
    { st with
      board := some board
      header := { st.header with
        vid := board.vid, did := board.did, svid := board.svid, sdid := board.sdid }
      flashSize := board.flashSize }

/-- The argument of an option for one number. -/
def numberArg (arg : List Char) : Option UInt32 := (requiredArg arg).bind fun _ => str2u32 arg

/-- `parse_opt_size`. -/
def parseOptSize (arg : List Char) (st : Options) : Option Options :=
  (numberArg arg).map fun flashSize => { st with flashSize := flashSize }

/-- `parse_opt_flags`. -/
def parseOptFlags (arg : List Char) (st : Options) : Option Options :=
  (numberArg arg).map fun flags => { st with header := { st.header with flags := flags } }

/-- `parse_opt_rev`. -/
def parseOptRev (arg : List Char) (st : Options) : Option Options :=
  (numberArg arg).map fun rev => { st with header := { st.header with rev := rev } }

/-- What the argument of `-i` says. -/
structure IdArg where
  vid : UInt16
  did : UInt16
  svid : UInt16
  sdid : UInt16
  rev : UInt32

/-- The revision is taken from the whole argument. -/
def idArg (arg : List Char) : Option IdArg := do
  requiredArg arg
  let argv := parseArg arg
  let vid ← if argAt argv 0 = [] then none else str2u16 (argAt argv 0)
  let did ← if argAt argv 1 = [] then none else str2u16 (argAt argv 1)
  let svid ← if argAt argv 2 = [] then some vid else str2u16 (argAt argv 2)
  let sdid ← if argAt argv 3 = [] then some did else str2u16 (argAt argv 3)
  let rev ← if argAt argv 4 = [] then some 0 else str2u32 arg
  return ⟨vid, did, svid, sdid, rev⟩

/-- `parse_opt_id`. -/
def parseOptId (arg : List Char) (st : Options) : Option Options :=
  (idArg arg).map fun i =>
    { st with
      header := { st.header with
        vid := i.vid, did := i.did, svid := i.svid, sdid := i.sdid, rev := i.rev } }

def Opt.parse : Opt → Options → Option Options
  | .block arg => parseOptBlock arg
  | .board arg => parseOptBoard arg
  | .flags arg => parseOptFlags arg
  | .id arg => parseOptId arg
  | .partition arg => parseOptPartition arg
  | .rev arg => parseOptRev arg
  | .size arg => parseOptSize arg

/-- The loop over the options. -/
def parseOpts (opts : List Opt) (st : Options) : Option Options :=
  opts.foldlM (fun st opt => opt.parse st) st

/-- `main`: the bytes of the output file. -/
def mkmylofw (fs : Files) (opts : List Opt) : Option (List UInt8) := do
  let st ← parseOpts opts .start
  let board ← st.board
  makeImage fs st.header board.toCpxBoard st.flashSize st.parts st.blocks

end UbntSdk.Images.Mylofw
