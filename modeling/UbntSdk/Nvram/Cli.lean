/-
UbntSdk.Nvram.Cli — the command line of the nvram tool
(`package/nvram-brcm47xx/src/cli.c`).

`main` goes over its arguments twice. The first loop decides whether the
store is opened for writing; the second one performs the commands. Both
advance `i` inside their conditions, by `&& ++i < argc`.

The arguments from `argv[i]` on are a list; `++i` drops its head. The list
ends before `argv[argc]`, the null pointer: to compare it is a fault. What
the commands do to the store is `UbntSdk.Nvram.Store`; here a loop is the
list of its steps, each with the arguments it consumed. The percentage
that `do_info` prints is not modelled.
-/
import UbntSdk.Nvram.Flash

namespace UbntSdk.Nvram

open UbntSdk.Lib

/-! ## `do_info` -/

/-- What `do_info` prints. -/
structure Info where
  magic : UInt32
  len : UInt32
  crc8 : UInt32
  calculated : UInt8
  version : UInt32
  sdramInit : UInt32
  sdramConfig : UInt32
  sdramRefresh : UInt32
  ncdl : UInt32
  available : UInt32
  deriving DecidableEq

/-- `do_info`. -/
def doInfo (m : Mapping) : Option Info := do
  let hdr ← readHeader m
  let body ← peek? m.bytes (m.header + NVRAM_CRC_START_POSITION)
    (hdr.len - NVRAM_CRC_START_POSITION.toUInt32).toNat
  return { magic := hdr.magic
           len := hdr.len
           crc8 := hdr.crcVerInit &&& 0xff
           calculated := hndcrc8 body 0xff
           version := (hdr.crcVerInit >>> 8) &&& 0xff
           sdramInit := (hdr.crcVerInit >>> 16) &&& 0xffff
           sdramConfig := hdr.configRefresh &&& 0xffff
           sdramRefresh := (hdr.configRefresh >>> 16) &&& 0xffff
           ncdl := hdr.configNcdl
           available := NVRAM_SPACE.toUInt32 - hdr.len }

/-! ## The arguments -/

def wordShow : CStr := text ['s', 'h', 'o', 'w']

def wordInfo : CStr := text ['i', 'n', 'f', 'o']

def wordGet : CStr := text ['g', 'e', 't']

def wordUnset : CStr := text ['u', 'n', 's', 'e', 't']

def wordSet : CStr := text ['s', 'e', 't']

def wordCommit : CStr := text ['c', 'o', 'm', 'm', 'i', 't']

/-- `!strcmp(argv[i], word)`. -/
def isWord (word : CStr) : List CStr → Option Bool
  | [] => none
  | arg :: _ => some (arg = word)

/-- `!strcmp(argv[i], word) && ++i < argc`, and the arguments from
`argv[i]` on afterwards. -/
def takesOperand (word : CStr) (args : List CStr) : Option (Bool × List CStr) := do
  if ← isWord word args then return (args.tail ≠ [], args.tail)
  else return (false, args)

/-- A step of one of the loops: the arguments from the command on, and
those behind what the step consumed. -/
structure Step where
  start : List CStr
  stop : List CStr
  deriving DecidableEq

/-! ## The first loop -/

/-- The condition of the first loop, and the arguments from `argv[i]` on
afterwards. -/
def expectsWrite (args : List CStr) : Option (Bool × List CStr) := do
  let (set, args) ← takesOperand wordSet args
  if set then return (true, args)
  else
    let (unset, args) ← takesOperand wordUnset args
    if unset then return (true, args)
    else
      let commit ← isWord wordCommit args
      return (commit, args)

/-- What the first loop comes to: `write`, and its steps. -/
structure PreScan where
  write : Bool
  steps : List Step
  deriving DecidableEq

/-- One pass of the first loop. -/
def preScanBody : List CStr × List Step → Pass (List CStr × List Step) PreScan
  | (args, steps) =>
      if args = [] then .stop { write := false, steps }
      else
        match expectsWrite args with
        | none => .fault
        | some (write, rest) =>
            let steps := steps ++ [{ start := args, stop := rest.tail }]
            if write then .stop { write := true, steps }
            else .next (rest.tail, steps)

/-- The first loop of `main`. Every pass consumes an argument. -/
def preScan (args : List CStr) : Outcome PreScan :=
  run preScanBody (args.length + 1) (args, [])

/-! ## The second loop -/

inductive Command where
  | show
  | info
  | get (var : CStr)
  | unset (var : CStr)
  | set (pair : CStr)
  | commit
  deriving DecidableEq

/-- The commands that need the store to be opened for writing. -/
def Command.writes : Command → Bool
  | .set _ | .unset _ | .commit => true
  | .show | .info | .get _ => false

/-- The command at `argv[i]`, if it is one, and the arguments from
`argv[i]` on after the chain of conditions. -/
def command (args : List CStr) : Option (Option Command × List CStr) := do
  if ← isWord wordShow args then return (some .show, args)
  else if ← isWord wordInfo args then return (some .info, args)
  else
    let (get, args) ← takesOperand wordGet args
    if get then return (args.head?.map .get, args)
    else
      let (unset, args) ← takesOperand wordUnset args
      if unset then return (args.head?.map .unset, args)
      else
        let (set, args) ← takesOperand wordSet args
        if set then return (args.head?.map .set, args)
        else if ← isWord wordCommit args then return (some .commit, args)
        else return (none, args)

/-- What the second loop performs, in order; `unknown` is the argument that
stopped it. -/
structure Executed where
  commands : List (Command × Step)
  unknown : Option CStr
  deriving DecidableEq

/-- One pass of the second loop. -/
def executeBody : List CStr × List (Command × Step) →
    Pass (List CStr × List (Command × Step)) Executed
  | (args, commands) =>
      if args = [] then .stop { commands, unknown := none }
      else
        match command args with
        | none => .fault
        | some (none, rest) => .stop { commands, unknown := rest.head? }
        | some (some c, rest) =>
            .next (rest.tail, commands ++ [(c, { start := args, stop := rest.tail })])

/-- The second loop of `main`, once the store is open. -/
def execute (args : List CStr) : Outcome Executed :=
  run executeBody (args.length + 1) (args, [])

end UbntSdk.Nvram
