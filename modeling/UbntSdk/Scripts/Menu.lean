/-
UbntSdk.Scripts.Menu — the order of the packages in a menu
(`scripts/metadata.pl`): `find_package_dep`, `package_depends` and the comparison
of `print_package_config_category`.

`%package` is a list of names and packages. A field that is not defined is `none`;
an array that is empty counts as true in Perl, since the field is a reference. The
recursion has a depth `n` that it can use up; `depth` is always enough.
-/
import Mathlib.Data.Char
import Mathlib.Data.List.Lex
import UbntSdk.Lib.Dfs
import UbntSdk.Scripts.Metadata

namespace UbntSdk.Scripts

/-- What `$pkg` refers to, of the fields that the comparison reads. -/
structure MenuPkg where
  name : Str
  submenu : Str
  vdepends : Option (List Str)
  depends : Option (List Str)
  deriving DecidableEq

/-- `($pkg->{vdepends} or $pkg->{depends})`. -/
def MenuPkg.deps (pkg : MenuPkg) : Option (List Str) := pkg.vdepends <|> pkg.depends

/-- The dependency entries of a package. -/
def MenuPkg.entries (pkg : MenuPkg) : List Str := pkg.deps.getD []

/-- `%package`. -/
abbrev Packages := List (Str × MenuPkg)

section

variable (package : Packages)

/-- The loop of `__find_package_dep`; `depCheck` is `%dep_check`. -/
def findDeps (name : Str) (find : MenuPkg → List Str → Option (Bool × List Str)) :
    List Str → List Str → Option (Bool × List Str)
  | [], depCheck => some (false, depCheck)
  | dep :: deps, depCheck =>
      if dep ∈ depCheck then findDeps name find deps depCheck
      else if dep = name then some (true, dep :: depCheck)
      else
        match package.lookup dep with
        | none => findDeps name find deps (dep :: depCheck)
        | some pkg =>
            match find pkg (dep :: depCheck) with
            | none => none
            | some (true, depCheck) => some (true, depCheck)
            | some (false, depCheck) => findDeps name find deps depCheck

/-- `__find_package_dep`, to the depth `n`. -/
def findPackageDepIn (name : Str) : Nat → MenuPkg → List Str → Option (Bool × List Str)
  | 0, _, _ => none
  | n + 1, pkg, depCheck =>
      match pkg.deps with
      | none => some (false, depCheck)
      | some deps => findDeps package name (findPackageDepIn name n) deps depCheck

/-- `find_package_dep`, from what earlier searches left in `%dep_check`. -/
def findPackageDep (n : Nat) (_depCheck : List Str) (pkg : MenuPkg) (name : Str) :
    Option (Bool × List Str) :=
  findPackageDepIn package name n pkg []

/-- A depth that is never used up: the number of all entries, and one more. -/
def depth (pkg : MenuPkg) : Nat :=
  (pkg.entries ++ package.flatMap fun e => e.2.entries).length + 1

/-- `find_package_dep($pkg, $name) == 1`. -/
def finds (pkg : MenuPkg) (name : Str) : Bool :=
  (findPackageDep package (depth package pkg) [] pkg name).any (·.1)

/-- `package_depends`. -/
def packageDepends (a b : MenuPkg) : Int :=
  if a.submenu ≠ b.submenu then 0
  else if finds package a b.name then 1
  else if finds package b a.name then -1
  else 0

/-- `$a cmp $b`. -/
def cmp (a b : Str) : Int := if a < b then -1 else if a = b then 0 else 1

/-- The comparison of the packages of a menu. -/
def menuCompare (a b : MenuPkg) : Int :=
  let ret := packageDepends package a b
  if ret ≠ 0 then ret else cmp a.name b.name

end

/-! ## Marks of an entry -/

/-- What `/^(.+):(.+)$/` takes for `$2`, or all of a text that it does not meet. -/
def behindCondition (depend : Str) : Str :=
  match depend.reverse with
  | [] => depend
  | c :: front =>
      let back := c :: front.takeWhile (· ≠ ':')
      if back.length + 2 ≤ depend.length then back.reverse else depend

/-- What `mconf_depends` makes of an entry: it takes the flags and the condition
off. An entry with the flag `@` is a symbol, not a package. -/
def entryPackage (entry : Str) : Option Str :=
  let flags := entry.takeWhile fun c => c = '@' || c = '+'
  let depend := entry.dropWhile fun c => c = '@' || c = '+'
  if flags.contains '@' then none else some (behindCondition depend)

end UbntSdk.Scripts
