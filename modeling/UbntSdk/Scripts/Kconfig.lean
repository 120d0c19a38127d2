/-
UbntSdk.Scripts.Kconfig — the algebra of kernel configurations
(`scripts/kconfig.pl`).

A file is given as its lines without their ends, and the files as a partial
function from their names. The prefix is `CONFIG_`; the options `-n` and `-p`, which
choose another one, are left out, and so are the warnings. The arguments are `@arg`,
what is behind the options. A program that dies has no result.
-/
import Mathlib.Data.Char
import Mathlib.Data.List.Dedup
import Mathlib.Data.List.Lex
import UbntSdk.Scripts.Metadata

namespace UbntSdk.Scripts

/-! ## Patterns -/

/-- The text in front of the first separator and the text behind it. -/
def splitAtSep (sep : Str) : Str → Option (Str × Str)
  | [] => if sep = [] then some ([], []) else none
  | c :: s =>
      if sep.isPrefixOf (c :: s) then some ([], (c :: s).drop sep.length)
      else (splitAtSep sep s).map fun parts => (c :: parts.1, parts.2)

/-- `(.+?)` and a separator: the text in front is not empty. -/
def lazySplit (sep : Str) : Str → Option (Str × Str)
  | [] => none
  | c :: s => (splitAtSep sep s).map fun parts => (c :: parts.1, parts.2)

namespace Kconfig

def PREFIX : Str := "CONFIG_".toList

/-- `#undef`. -/
def undef : Str := "#undef".toList

def isNotSet : Str := " is not set".toList

/-- A hash of options and values. -/
abbrev Config := List (Str × Str)

/-- `keys`. -/
def keys (config : Config) : List Str := (config.map Prod.fst).dedup

/-! ## Files -/

/-- `/^$PREFIX(.+?)=(.+)/`. -/
def parseValue (line : Str) : Option (Str × Str) := do
  let rest ← after PREFIX line
  let (name, value) ← lazySplit ['='] rest
  if value = [] then none else some (name, value)

/-- `/^# $PREFIX(.+?) is not set/`. -/
def parseUnset (line : Str) : Option (Str × Str) := do
  let rest ← after ("# ".toList ++ PREFIX) line
  let (name, _) ← lazySplit isNotSet rest
  some (name, undef)

/-- What a line sets. -/
def parseLine (line : Str) : Option (Str × Str) := (parseValue line).or (parseUnset line)

/-- `set_config`. -/
def setConfig (config : Config) (idx newval : Str) (modPlus : Bool) : Config :=
  match config.lookup idx with
  | none => put config idx newval
  | some old =>
      if !modPlus || old = undef || newval = ['y'] then put config idx newval else config

/-- The loop for a line. -/
def loadLine (modPlus : Bool) (config : Config) (line : Str) : Config :=
  match parseLine line with
  | some (idx, newval) => setConfig config idx newval modPlus
  | none => config

/-- `load_config`, of the lines of the file. -/
def loadConfig (lines : List Str) (modPlus : Bool) : Config := lines.foldl (loadLine modPlus) []

/-! ## Operators -/

/-- An option gets the value of `f` from its name and the value that it has, or keeps
that. -/
def keyStep (f : Str → Option Str → Option Str) (config : Config) (k : Str) : Config :=
  match f k (config.lookup k) with
  | some v => put config k v
  | none => config

/-- A loop over keys. -/
def forKeys (f : Str → Option Str → Option Str) (ks : List Str) (config : Config) : Config :=
  ks.foldl (keyStep f) config

/-- `config_and`. -/
def configAnd (cfg1 cfg2 : Config) : Config :=
  forKeys (fun k _ =>
    match cfg1.lookup k, cfg2.lookup k with
    | some val1, some val2 => if truthy val2 ∧ val1 = val2 then some val1 else none
    | _, _ => none) (keys cfg1) []

/-- One turn of the outer loop of `config_add`. -/
def addTo (modPlus : Bool) (config cfg : Config) : Config :=
  forKeys (fun k old =>
    if modPlus ∧ old = some ['y'] then none else cfg.lookup k) (keys cfg) config

/-- `config_add`. -/
def configAdd (cfg1 cfg2 : Config) (modPlus : Bool) : Config :=
  [cfg1, cfg2].foldl (addTo modPlus) []

/-- `config_diff`. -/
def configDiff (cfg1 cfg2 : Config) (newOnly : Bool) : Config :=
  forKeys (fun k _ =>
    if cfg1.lookup k = none ∨ cfg1.lookup k ≠ cfg2.lookup k then
      if newOnly ∧ cfg1.lookup k = none ∧ cfg2.lookup k = some undef then none
      else cfg2.lookup k
    else none) (keys cfg2) []

/-- `config_sub`. -/
def configSub (cfg1 cfg2 : Config) : Config :=
  (keys cfg2).foldl (fun config k => config.filter (·.1 ≠ k)) cfg1

/-! ## Output -/

/-- `print_cfgline`. -/
def printCfgline (name val : Str) : Str :=
  if val = undef ∨ val = ['n'] then "# ".toList ++ PREFIX ++ name ++ isNotSet
  else PREFIX ++ name ++ ['='] ++ val

/-- `dump_config`: the lines that it prints. -/
def dumpConfig (cfg : Config) : List Str :=
  ((keys cfg).mergeSort (· ≤ ·)).map fun k => printCfgline k ((cfg.lookup k).getD [])

/-! ## Expressions -/

/-- `parse_expr`, with the arguments from `$pos` on; `n` is their number at first. -/
def parseExpr (files : Str → Option (List Str)) :
    Nat → List Str → Bool → Option (Config × List Str)
  | 0, _, _ => none
  | _, [], _ => none
  | n + 1, arg :: args, modPlus =>
      let two (modPlus2 : Bool) (op : Config → Config → Config) : Option (Config × List Str) := do
        let (arg1, args) ← parseExpr files n args false
        let (arg2, args) ← parseExpr files n args modPlus2
        some (op arg1 arg2, args)
      if !truthy arg then none
      else if arg = ['&'] then two false configAnd
      else if ['+'].isPrefixOf arg then two false (configAdd · · false)
      else if ['m', '+'].isPrefixOf arg then two true (configAdd · · true)
      else if arg = ['>'] then two false (configDiff · · false)
      else if arg = ['>', '+'] then two false (configDiff · · true)
      else if arg = ['-'] then two false configSub
      else (files arg).map fun lines => (loadConfig lines modPlus, args)

/-- `kconfig.pl`: the configuration that it prints, unless arguments are left. -/
def kconfig (files : Str → Option (List Str)) (args : List Str) : Option Config := do
  let (cfg, rest) ← parseExpr files args.length args false
  if rest.head?.any truthy then none else some cfg

end Kconfig

end UbntSdk.Scripts
