/-
UbntSdk.Scripts.Feeds — `feeds install` (`scripts/feeds`): `get_feed`,
`get_installed`, `lookup_package`, `install_package` and `install` with names
on the command line.

A package hash is found by the name of its feed and its number there. The
loop over the dependencies edits their texts in the hashes, so the texts are
in the state. `%srcpackage` is what the last call of `get_feed` has left.

* Linking succeeds. Warnings are left out, and so is what `-d` sets.
* `none` is a recursion that is deeper than the fuel.
* `tried` and `calls` are not in the source. They record the sources that were
  marked, and the calls of `install_package` with the marks that each one met.
-/
import UbntSdk.Scripts.Metadata

namespace UbntSdk.Scripts

/-- An item of `@feeds`. -/
structure Feed where
  type : Str
  name : Str
  deriving DecidableEq

/-- The keys of `%install_method`. -/
def installMethods : List Str :=
  ["src-svn", "src-cpy", "src-link", "src-git", "src-bzr", "src-hg"].map String.toList

/-- What `feeds install` finds: the feeds, whose names differ, their index
files, of which some may be missing, and `tmp/.packageinfo`. -/
structure World where
  feeds : List Feed
  files : Str → Option (List Str)
  packageinfo : List Str
  distinct : (feeds.map Feed.name).Nodup

/-- The source of a package: its feed, and what is linked. -/
structure Source where
  feed : Str
  path : Str
  src : Str
  deriving DecidableEq

/-- A package hash. -/
structure Ref where
  feed : Str
  num : Nat
  deriving DecidableEq

/-- What is marked: the keys of `%installed`, the sources that were marked in
this run, and those of them that were linked. -/
structure Marks where
  installed : List Str
  tried : List Source
  linked : List Source

/-- A call of `install_package`. -/
structure Call where
  feed : Option Feed
  name : Str

/-- The texts of the dependencies of each package. -/
abbrev Texts := Ref → List Str

structure State extends Marks where
  deps : Texts
  calls : List (Marks × Call)

namespace World

variable (w : World)

/-- `get_feed`, and what it leaves in `%feed`. -/
def getFeed (name : Str) : Option Index := (w.files name).map parsePackageMetadata

/-- The keys of `%installed` after `get_installed`. -/
def getInstalled : List Str := (parsePackageMetadata w.packageinfo).package.map Prod.fst

/-- `$feed{$feed}->{$name}`. -/
def find (feed name : Str) : Option Ref := do
  let index ← w.getFeed feed
  (index.package.lookup name).map (Ref.mk feed)

/-- What a reference refers to. -/
def pkg (r : Ref) : Pkg := ((w.getFeed r.feed).map (·.pkg r.num)).getD .empty

/-- `@{$srcpackage{$src}}`. -/
def srcpackage (src : Str) : List Ref :=
  match w.feeds.getLast? with
  | none => []
  | some last =>
      match w.getFeed last.name with
      | none => []
      | some index => (index.packagesOf src).map (Ref.mk last.name)

/-- `lookup_package`. -/
def lookupPackage (feed : Option Feed) (name : Str) : Option (Feed × Ref) :=
  (feed.toList ++ w.feeds).findSome? fun feed =>
    if truthy feed.name then (w.find feed.name name).map (Prod.mk feed) else none

end World

/-- `@{$vpkg->{depends}}, @{$vpkg->{builddepends}}, @{$vpkg->{"builddepends/host"}}`. -/
def Pkg.allDeps (p : Pkg) : List Str :=
  p.depends ++ p.builddepends ++ (p.builddependsFor.lookup "host".toList).getD []

/-- `$path =~ s/\/Makefile$//`. -/
def stripMakefile (path : Str) : Str :=
  if "/Makefile".toList.isSuffixOf path then path.take (path.length - 9) else path

/-- `$dep =~ s/^\+//`. -/
def stripPlus : Str → Str
  | '+' :: dep => dep
  | dep => dep

/-- `$dep =~ s/^.+://`. -/
def stripCondition (dep : Str) : Str :=
  let back := dep.reverse.takeWhile (· ≠ ':')
  if back.length + 2 ≤ dep.length then back.reverse else dep

/-- `$dep =~ s/\/.+$//`. -/
def stripSuffix (dep : Str) : Str :=
  let front := dep.takeWhile (· ≠ '/')
  if front.length + 2 ≤ dep.length then front else dep

/-- The name in a dependency. -/
def stripDep (dep : Str) : Str := stripSuffix (stripCondition (stripPlus dep))

namespace Texts

/-- The text at a place. -/
def text (deps : Texts) (at_ : Ref × Nat) : Str := (deps at_.1).getD at_.2 []

def edit (deps : Texts) (at_ : Ref × Nat) (dep : Str) : Texts := fun r =>
  if r = at_.1 then (deps r).set at_.2 dep else deps r

end Texts

/-- The loop over the dependencies. -/
def installDeps (install : State → Str → Option (Bool × State)) :
    List (Ref × Nat) → Bool → State → Option (Bool × State)
  | [], ret, s => some (ret, s)
  | at_ :: rest, ret, s =>
      if '@' ∈ s.deps.text at_ then installDeps install rest ret s
      else
        let dep := stripDep (s.deps.text at_)
        let s := { s with deps := s.deps.edit at_ dep }
        if truthy dep then
          match install s dep with
          | none => none
          | some (ok, s) => installDeps install rest (ret && ok) s
        else installDeps install rest ret s

namespace World

variable (w : World)

/-- The source of a package. -/
def sourceOf (r : Ref) (name : Str) : Source :=
  ⟨r.feed, stripMakefile (w.pkg r).makefile, if truthy (w.pkg r).src then (w.pkg r).src else name⟩

/-- Where the dependencies of a package are. -/
def depsAt (r : Ref) : List (Ref × Nat) :=
  (List.range (w.pkg r).allDeps.length).map (Prod.mk r)

/-- `install_package`: whether it returned 0. -/
def installPackage : Nat → State → Option Feed → Str → Option (Bool × State)
  | 0, _, _, _ => none
  | fuel + 1, s, feed, name =>
      let s := { s with calls := s.calls ++ [(s.toMarks, ⟨feed, name⟩)] }
      match w.lookupPackage feed name with
      | none => some (true, s)
      | some (feed, r) =>
          let pkg := w.pkg r
          if ¬truthy pkg.name then some (true, s)
          else
            let source := w.sourceOf r name
            if source.src ∈ s.installed then some (true, s)
            else if name ∈ s.installed then some (true, s)
            else
              let s := { s with installed := source.src :: s.installed, tried := s.tried ++ [source] }
              if feed.type ∉ installMethods then some (false, s)
              else if ¬truthy pkg.makefile then some (false, s)
              else
                installDeps (fun s dep => installPackage fuel s (some feed) dep)
                  ((w.srcpackage source.src ++ [r]).flatMap w.depsAt) true
                  { s with linked := s.linked ++ [source] }

/-- The state in which the first package is installed. -/
def start : State where
  installed := w.getInstalled
  tried := []
  linked := []
  deps := fun r => (w.pkg r).allDeps
  calls := []

/-- The feed that `-p` asks for. -/
def preferred (p : Str) : Option Feed := if truthy p then w.feeds.find? (·.name = p) else none

/-- The loop over `@ARGV`. -/
def installNames (fuel : Nat) (feed : Option Feed) : List Str → Bool → State → Option (Bool × State)
  | [], ret, s => some (ret, s)
  | name :: names, ret, s =>
      if truthy name then
        match w.installPackage fuel s feed name with
        | none => none
        | some (ok, s) => installNames fuel feed names (ret && ok) s
      else some (ret, s)

/-- `install`, without `-a`. -/
def install (fuel : Nat) (p : Str) (names : List Str) : Option (Bool × State) :=
  w.installNames fuel (w.preferred p) names true w.start

end World

end UbntSdk.Scripts
