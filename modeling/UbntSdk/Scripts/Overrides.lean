/-
UbntSdk.Scripts.Overrides — what packages ask of the kernel
(`scripts/metadata.pl`): `gen_kconfig_overrides`.

Both files are given as their lines without their ends. A file that cannot be opened
is left out: the command then prints nothing.
-/
import UbntSdk.Scripts.Kconfig

namespace UbntSdk.Scripts

namespace Overrides

open Kconfig (Config keys PREFIX)

/-- `/^(CONFIG_.+?)=(.+)$/`: the option. -/
def cfgOption (line : Str) : Option Str :=
  (Kconfig.parseValue line).map fun found => PREFIX ++ found.1

/-- `%config`, of the lines of `$cfgfile`: the options that are set to 1. -/
def readConfig (cfgfile : List Str) : List Str := cfgfile.filterMap cfgOption

/-- `$config{"CONFIG_PACKAGE_$package"}`. A package that is not defined is the empty
text. -/
def enabled (config : List Str) (package : Str) : Bool :=
  config.contains ("CONFIG_PACKAGE_".toList ++ package)

/-- A word behind `Kernel-Config:`. -/
structure Listing where
  config : Str
  override : Bool
  val : Str
  deriving DecidableEq

/-- `/^(.+?)=(.+)$/`, or the option alone, which is `m`. -/
def parseListing (config : Str) : Listing :=
  match lazySplit ['='] config with
  | some (name, val) => if val = [] then ⟨config, false, ['m']⟩ else ⟨name, true, val⟩
  | none => ⟨config, false, ['m']⟩

/-- What a word does to `%kconfig`, for a package that is enabled or not. -/
def setKconfig (on : Bool) (kconfig : Config) (l : Listing) : Config :=
  if on ∧ l.config ≠ ['n'] then put kconfig l.config l.val
  else if l.override then kconfig
  else if (kconfig.lookup l.config).any truthy then kconfig
  else put kconfig l.config ['n']

/-- `/^Package:\s*(.+?)\s*$/`. -/
def packageLine (line : Str) : Option Str := (after "Package:".toList line).map packageName

/-- `/^Kernel-Config:\s*(.+?)\s*$/`, and the words. -/
def kernelConfigLine (line : Str) : List Str :=
  match after "Kernel-Config:".toList line with
  | some rest => words (packageName rest)
  | none => []

/-- `$package` and `%kconfig`. -/
structure State where
  package : Str
  kconfig : Config

/-- A line of the metadata. -/
def readLine (config : List Str) (s : State) (line : Str) : State :=
  let package := (packageLine line).getD s.package
  ⟨package, (kernelConfigLine line).foldl
    (fun kconfig word => setKconfig (enabled config package) kconfig (parseListing word)) s.kconfig⟩

/-- `%kconfig` at the end of the metadata. -/
def readMetadata (config pkginfo : List Str) : Config :=
  (pkginfo.foldl (readLine config) ⟨[], []⟩).kconfig

/-- The line that is printed for an option. -/
def printOption (kconfig val : Str) : Str :=
  if val = ['n'] then "# ".toList ++ kconfig ++ " is not set".toList
  else kconfig ++ ['='] ++ val

/-- The lines of a hash. -/
def printKconfig (kconfig : Config) : List Str :=
  ((keys kconfig).mergeSort (· ≤ ·)).map fun k => printOption k ((kconfig.lookup k).getD [])

/-- `gen_kconfig_overrides`: the lines that it prints. -/
def genKconfigOverrides (pkginfo cfgfile : List Str) : List Str :=
  printKconfig (readMetadata (readConfig cfgfile) pkginfo)

end Overrides

end UbntSdk.Scripts
