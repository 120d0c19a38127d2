/-
UbntSdk.Scripts.Metadata — the package metadata of the build scripts
(`scripts/metadata.pm`): `parse_package_metadata`.

The hash of a package is found by reference, which is its number in `pkgs`;
`%package` and `%srcpackage` hold such numbers. A file is given as its lines
without their ends. `parseField` says which of the patterns of the loop a line
meets, and no line meets two.

* A value that is not defined is the empty text; Perl takes both for false.
* The fields of a package that are only printed are left out, and so are
  `%preconfig` and the name of a category.
-/
import Mathlib.Algebra.Order.Ring.Int
import Mathlib.Data.List.Basic

namespace UbntSdk.Scripts

abbrev Str := List Char

theorem lawfulBEq_str : LawfulBEq Str := inferInstance

scoped instance (s : Str) (l : List Str) : Decidable (s ∈ l) :=
  @List.instDecidableMemOfLawfulBEq _ _ lawfulBEq_str s l

/-- What Perl takes for true. -/
def truthy (s : Str) : Bool := s ≠ [] && s ≠ ['0']

/-- `\s`. -/
def space (c : Char) : Bool := c = ' ' || ('\t' ≤ c && c ≤ '\r')

/-- `\w`. -/
def wordChar (c : Char) : Bool := c.isAlphanum || c = '_'

/-- `split /\s+/`, of a text that does not begin with white space or has
nothing else. -/
def words (s : Str) : List Str := (s.splitOnP space).filter (· ≠ [])

/-- `$h{$k} = $v`, with the hash as a list. -/
def put {α : Type} (h : List (Str × α)) (k : Str) (v : α) : List (Str × α) :=
  (k, v) :: h.filter (·.1 ≠ k)

/-! ## Packages -/

/-- What `$pkg` refers to. `builddependsFor` is the field `builddepends/TYPE`. -/
structure Pkg where
  name : Str
  src : Str
  makefile : Str
  subdir : Str
  depends : List Str
  builddepends : List Str
  builddependsFor : List (Str × List Str)
  buildtypes : List Str
  buildonly : Bool
  vdepends : Option (List Str)
  deriving DecidableEq

/-- `{}`. -/
def Pkg.empty : Pkg := ⟨[], [], [], [], [], [], [], [], false, none⟩

/-- What a file leaves in the hashes. `listed` are the packages in
`%category`. -/
structure Index where
  pkgs : List Pkg
  package : List (Str × Nat)
  srcpackage : List (Str × List Nat)
  subdir : List (Str × Str)
  listed : List Nat
  deriving DecidableEq

/-- `clear_packages`. -/
def Index.empty : Index := ⟨[], [], [], [], []⟩

/-- The package of a reference. -/
def Index.pkg (x : Index) (r : Nat) : Pkg := x.pkgs.getD r .empty

/-- `@{$srcpackage{$src}}`. -/
def Index.packagesOf (x : Index) (src : Str) : List Nat := (x.srcpackage.lookup src).getD []

/-! ## Lines -/

/-- What a line is for the loop. -/
inductive Field where
  | sourceMakefile (makefile subdir src : Str)
  | package (name : Str)
  | provides (vpkgs : List Str)
  | depends (deps : List Str)
  | buildOnly
  | buildDepends (deps : List Str)
  | buildDependsFor (type : Str) (deps : List Str)
  | buildTypes (types : List Str)
  | category
  | multiline
  | other
  deriving DecidableEq

/-- What is behind a prefix, unless that is nothing. -/
def after (key line : Str) : Option Str :=
  if key.isPrefixOf line then
    let rest := line.drop key.length
    if rest = [] then none else some rest
  else none

/-- The text in front of the last `/` and the text behind it. -/
def splitLast (s : Str) : Option (Str × Str) :=
  let back := s.reverse.takeWhile (· ≠ '/')
  match s.reverse.drop back.length with
  | _ :: front => some (front.reverse, back.reverse)
  | [] => none

/-- `(.+\/)([^\/]+)\/Makefile`: the path, the directory and the source. -/
def makefilePath (path : Str) : Option (Str × Str × Str) := do
  let (source, file) ← splitLast path
  let (dir, src) ← splitLast source
  if file = "Makefile".toList ∧ dir ≠ [] ∧ src ≠ [] then some (path, dir ++ ['/'], src) else none

/-- `\s*` and the path. A white space is part of the path where it would not
be one otherwise. -/
def makefileAfter (rest : Str) : Option (Str × Str × Str) :=
  let rest := rest.reverse.dropWhile space |>.reverse
  match makefilePath (rest.dropWhile space) with
  | some found => some found
  | none =>
      match (rest.takeWhile space).getLast? with
      | some c => makefilePath (c :: rest.dropWhile space)
      | none => none

/-- `\s*(.+?)\s*$`, of a text that is not empty. -/
def packageName (rest : Str) : Str :=
  let name := (rest.dropWhile space).reverse.dropWhile space |>.reverse
  if name = [] then rest.getLast?.toList else name

/-- `$subdir =~ s/^package\///`. -/
def stripPackage (subdir : Str) : Str :=
  if "package/".toList.isPrefixOf subdir then subdir.drop 8 else subdir

/-- `/^Build-Depends\/(\w+): \s*(.+)\s*$/`. -/
def buildDependsFor (line : Str) : Option (Str × Str) := do
  let rest ← after "Build-Depends/".toList line
  let type := rest.takeWhile wordChar
  if type = [] then none
  else (after ": ".toList (rest.drop type.length)).map fun value => (type, value)

/-- The pattern that a line meets. -/
def parseField (line : Str) : Field :=
  match (after "Source-Makefile: ".toList line).bind makefileAfter with
  | some (makefile, subdir, src) => .sourceMakefile makefile (stripPackage subdir) src
  | none =>
  match after "Package:".toList line with
  | some rest => .package (packageName rest)
  | none =>
  match after "Provides: ".toList line with
  | some rest => .provides (words rest)
  | none =>
  match after "Depends: ".toList line with
  | some rest => .depends (words rest)
  | none =>
  match after "Build-Only: ".toList line with
  | some _ => .buildOnly
  | none =>
  match after "Build-Depends: ".toList line with
  | some rest => .buildDepends (words rest)
  | none =>
  match buildDependsFor line with
  | some (type, rest) => .buildDependsFor type (words rest)
  | none =>
  match after "Build-Types:".toList line with
  | some rest => .buildTypes (words rest)
  | none =>
  if (after "Category: ".toList line).isSome then .category
  else if "Description: ".toList.isPrefixOf line || "Config:".toList.isPrefixOf line then .multiline
  else .other

/-! ## The loop -/

/-- The variables of `parse_package_metadata`. In `multiline`, the lines up to
one with `@@` are read by `get_multiline`. -/
structure Parser where
  index : Index
  pkg : Option Nat
  makefile : Str
  subdir : Str
  src : Str
  multiline : Bool
  deriving DecidableEq

def Parser.start : Parser := ⟨.empty, none, [], [], [], false⟩

namespace Parser

/-- A new hash, and its reference. -/
def alloc (p : Parser) (pkg : Pkg) : Parser × Nat :=
  ({ p with index := { p.index with pkgs := p.index.pkgs ++ [pkg] } }, p.index.pkgs.length)

def modify (p : Parser) (r : Nat) (f : Pkg → Pkg) : Parser :=
  { p with index := { p.index with pkgs := p.index.pkgs.modify r f } }

/-- `$pkg->{...}`, which makes a hash where there is none. -/
def current (p : Parser) : Parser × Nat :=
  match p.pkg with
  | some r => (p, r)
  | none =>
      let (p, r) := p.alloc .empty
      ({ p with pkg := some r }, r)

/-- `$pkg->{...} = ...`. -/
def setField (p : Parser) (f : Pkg → Pkg) : Parser :=
  let (p, r) := p.current
  p.modify r f

/-- `push @{$srcpackage{$src}}, $pkg`. -/
def pushSource (p : Parser) (r : Nat) : Parser :=
  { p with index := { p.index with
      srcpackage := put p.index.srcpackage p.src (p.index.packagesOf p.src ++ [r]) } }

/-- The fields that each new package has. -/
def newPkg (p : Parser) (name : Str) (vdepends : Option (List Str)) : Pkg :=
  { Pkg.empty with name, src := p.src, makefile := p.makefile, subdir := p.subdir, vdepends }

/-- The branch for `Package:`. -/
def package (p : Parser) (name : Str) : Parser :=
  let (p, r) := p.alloc (p.newPkg name none)
  pushSource
    { p with
      pkg := some r
      index := { p.index with package := put p.index.package name r } } r

/-- `$package{$vpkg} or $package{$vpkg} = {...}`. -/
def provided (p : Parser) (vpkg : Str) : Parser × Nat :=
  match p.index.package.lookup vpkg with
  | some r => (p, r)
  | none =>
      let (p, r) := p.alloc (p.newPkg vpkg (some []))
      ({ p with index := { p.index with package := put p.index.package vpkg r } }, r)

/-- The loop over `@vpkg`. -/
def provides (p : Parser) (name : Str) : List Str → Parser
  | [] => p
  | vpkg :: vpkgs =>
      let (p, r) := p.provided vpkg
      provides (p.modify r fun v => { v with vdepends := some (v.vdepends.getD [] ++ [name]) }) name
        vpkgs

/-- The loop for a line, once there is a source. -/
def field (p : Parser) : Field → Parser
  | .sourceMakefile _ _ _ => p
  | .package name => p.package name
  | .provides vpkgs =>
      let (p, r) := p.current
      p.provides (p.index.pkg r).name vpkgs
  | .depends deps => p.setField fun v => { v with depends := deps }
  | .buildOnly => p.setField fun v => { v with buildonly := true }
  | .buildDepends deps => p.setField fun v => { v with builddepends := deps }
  | .buildDependsFor type deps =>
      p.setField fun v => { v with builddependsFor := put v.builddependsFor type deps }
  | .buildTypes types => p.setField fun v => { v with buildtypes := types }
  | .category =>
      let (p, r) := p.current
      { p with index := { p.index with listed := p.index.listed ++ [r] } }
  | .multiline => { p with multiline := true }
  | .other => p

/-- The branch for `Source-Makefile:`. -/
def source (p : Parser) (makefile subdir src : Str) : Parser :=
  { p with
    makefile, subdir, src
    pkg := none
    index := { p.index with
      subdir := put p.index.subdir src subdir
      srcpackage := put p.index.srcpackage src [] } }

def sourced (p : Parser) : Field → Parser
  | .sourceMakefile makefile subdir src => p.source makefile subdir src
  | _ => p

/-- The loop for a line. -/
def line (p : Parser) (line : Str) : Parser :=
  if p.multiline then
    if "@@".toList.isPrefixOf line then { p with multiline := false } else p
  else
    let p := p.sourced (parseField line)
    if truthy p.src then p.field (parseField line) else p

end Parser

/-- `parse_package_metadata`, with the hashes cleared before. -/
def parsePackageMetadata (lines : List Str) : Index := (lines.foldl .line Parser.start).index

end UbntSdk.Scripts
