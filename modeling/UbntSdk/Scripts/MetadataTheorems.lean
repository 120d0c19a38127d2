/-
UbntSdk.Scripts.MetadataTheorems — what holds of the hashes behind
`parse_package_metadata`, whatever the file.

`Parser.lines_induction` is the rule for a property of the parser: it is kept
by the two branches of the loop. Packages are only added, and what is set
later is no part of their source (`Parser.Grows`).

The property is `Parser.Ok`: every reference of a hash leads to a package that
has the name, or the source, that it stands under. Each field keeps it, by one
lemma (`field_ok`), and the induction on the lines makes it a fact about files
(`placed_of_lookup`, `src_of_packagesOf`), which the walks over the packages use.
-/
import UbntSdk.Scripts.Metadata

namespace UbntSdk.Scripts

/-! ## Hashes -/

/-- What a hash has after an element is set: that one, or one it had. -/
theorem mem_put {α : Type} {h : List (Str × α)} {k : Str} {v : α} {e : Str × α}
    (he : e ∈ put h k v) : e = (k, v) ∨ e ∈ h := by
  rcases List.mem_cons.mp he with heq | hold
  · exact .inl heq
  · exact .inr (List.mem_of_mem_filter hold)

theorem mem_of_lookup {α : Type} {h : List (Str × α)} {k : Str} {v : α}
    (hk : h.lookup k = some v) : (k, v) ∈ h := by
  induction h with
  | nil => cases hk
  | cons e h ih =>
      obtain ⟨k', v'⟩ := e
      rw [List.lookup_cons] at hk
      by_cases heq : k = k'
      · subst heq
        rw [beq_self_eq_true] at hk
        cases hk
        exact List.mem_cons_self ..
      · rw [beq_eq_false_iff_ne.mpr heq] at hk
        exact List.mem_cons_of_mem _ (ih hk)

/-! ## Lines -/

/-- The name of a package and where it comes from. -/
def Pkg.place (v : Pkg) : Str × Str × Str := (v.name, v.makefile, v.src)

/-- What can be said of a package that is found by its name. -/
def Pkg.Placed (v : Pkg) (name : Str) : Prop :=
  v.place.1 = name ∧ truthy v.place.2.1 ∧ truthy v.place.2.2

/-- A text of two characters is neither empty nor `0`. -/
theorem truthy_of_length {s : Str} (h : 2 ≤ s.length) : truthy s := by
  unfold truthy
  rw [Bool.and_eq_true, decide_eq_true_eq, decide_eq_true_eq]
  constructor
  · rintro rfl
    cases h
  · rintro rfl
    simp at h

/-- A path is split at one slash, and nothing of it is lost. -/
theorem splitLast_eq {s front back : Str} (h : splitLast s = some (front, back)) :
    s.length = front.length + 1 + back.length := by
  unfold splitLast at h
  dsimp only at h
  split at h
  · rename_i c rest hdrop
    cases h
    have hlen := congrArg List.length hdrop
    have hle := (List.takeWhile_prefix (p := (· ≠ '/')) (l := s.reverse)).length_le
    simp only [List.length_drop, List.length_reverse, List.length_cons] at hlen hle ⊢
    omega
  · cases h

/-- The path of a makefile has at least two slashes, so it is true. -/
theorem truthy_of_makefilePath {path : Str} {found : Str × Str × Str}
    (h : makefilePath path = some found) : truthy found.1 := by
  simp only [makefilePath, Option.bind_eq_bind, Option.bind_eq_some_iff,
    Option.ite_none_right_eq_some, Option.some.injEq] at h
  obtain ⟨⟨source, file⟩, hfile, ⟨dir, src⟩, hsrc, -, rfl⟩ := h
  have hlen := splitLast_eq hfile
  have hlen' := splitLast_eq hsrc
  refine truthy_of_length ?_
  dsimp only at hlen hlen' ⊢
  omega

/-- Only a line with a whole path starts a source. -/
theorem truthy_of_sourceMakefile {line makefile subdir src : Str}
    (h : parseField line = .sourceMakefile makefile subdir src) : truthy makefile := by
  unfold parseField at h
  split at h
  · rename_i found _ _ hfound
    cases h
    obtain ⟨rest, -, hrest⟩ := Option.bind_eq_some_iff.mp hfound
    unfold makefileAfter at hrest
    dsimp only at hrest
    split at hrest
    · rename_i found' hpath
      cases hrest
      exact truthy_of_makefilePath hpath
    · split at hrest
      · exact truthy_of_makefilePath hrest
      · cases hrest
  · -- No other pattern makes a path.
    repeat' split at h
    all_goals cases h

/-! ## The rule for the loop -/

namespace Parser

variable {p q : Parser}

/-- What the branches of the loop keep, the loop keeps. -/
theorem lines_induction {P : Parser → Prop} (lines : List Str)
    (hsource : ∀ p line makefile subdir src,
      parseField line = .sourceMakefile makefile subdir src → P p → P (p.source makefile subdir src))
    (hfield : ∀ p line, truthy p.src → P p → P (p.field (parseField line)))
    (hmulti : ∀ p, P p → P { p with multiline := false }) (hp : P p) :
    P (lines.foldl Parser.line p) := by
  induction lines generalizing p with
  | nil => exact hp
  | cons line lines ih =>
      refine ih ?_
      unfold Parser.line
      split
      · split
        · exact hmulti p hp
        · exact hp
      · have hnext : P (p.sourced (parseField line)) := by
          unfold sourced
          split
          · rename_i hline
            exact hsource p line _ _ _ hline hp
          · exact hp
        dsimp only
        split
        · rename_i hsrc
          exact hfield _ line hsrc hnext
        · exact hnext

/-! ## The sources of packages -/

/-- The packages are as before, in their places, and more may be there. -/
structure Grows (p q : Parser) : Prop where
  length : p.index.pkgs.length ≤ q.index.pkgs.length
  place : ∀ r < p.index.pkgs.length, (q.index.pkg r).place = (p.index.pkg r).place

theorem Grows.refl (p : Parser) : Grows p p := ⟨Nat.le_refl _, fun _ _ => rfl⟩

theorem Grows.src (h : Grows p q) {r : Nat} (hr : r < p.index.pkgs.length) :
    (q.index.pkg r).src = (p.index.pkg r).src :=
  congrArg (·.2.2) (h.place r hr)

theorem Grows.placed (h : Grows p q) {r : Nat} (hr : r < p.index.pkgs.length) {name : Str}
    (hplaced : (p.index.pkg r).Placed name) : (q.index.pkg r).Placed name := by
  unfold Pkg.Placed at hplaced ⊢
  rwa [h.place r hr]

/-- A new package comes behind the others. -/
theorem alloc_grows (p : Parser) (v : Pkg) : Grows p (p.alloc v).1 where
  length := by simp [alloc]
  place := fun r hr => by
    simp only [alloc, Index.pkg, List.getD_eq_getElem?_getD, List.getElem?_append_left hr]

theorem alloc_pkg (p : Parser) (v : Pkg) : (p.alloc v).1.index.pkg (p.alloc v).2 = v := by
  simp [alloc, Index.pkg]

theorem alloc_placed (hmakefile : truthy p.makefile) (hsrc : truthy p.src) (name : Str)
    (vdepends : Option (List Str)) :
    ((p.alloc (p.newPkg name vdepends)).1.index.pkg
      (p.alloc (p.newPkg name vdepends)).2).Placed name := by
  rw [alloc_pkg]
  exact ⟨rfl, hmakefile, hsrc⟩

/-- One package is changed, the others are not. -/
theorem modify_pkg (p : Parser) (r i : Nat) (f : Pkg → Pkg) (hi : i < p.index.pkgs.length) :
    (p.modify r f).index.pkg i = if r = i then f (p.index.pkg i) else p.index.pkg i := by
  simp only [modify, Index.pkg, List.getD_eq_getElem?_getD, List.getElem?_modify,
    List.getElem?_eq_getElem hi, Option.map_eq_map, Option.map_some, Option.getD_some]

theorem modify_grows (p : Parser) (r : Nat) {f : Pkg → Pkg} (hf : ∀ v, (f v).place = v.place) :
    Grows p (p.modify r f) where
  length := by simp [modify]
  place := fun i hi => by
    rw [modify_pkg p r i f hi]
    split
    · exact hf _
    · rfl

/-- The references lead to packages, those of `%srcpackage` to packages of the
source, and those of `%package` to packages that have the name and a place. -/
structure Ok (p : Parser) : Prop where
  makefile : truthy p.src → truthy p.makefile
  current : ∀ r, p.pkg = some r → r < p.index.pkgs.length
  package : ∀ e ∈ p.index.package, e.2 < p.index.pkgs.length ∧ (p.index.pkg e.2).Placed e.1
  srcpackage : ∀ e ∈ p.index.srcpackage, ∀ r ∈ e.2,
    r < p.index.pkgs.length ∧ (p.index.pkg r).src = e.1

/-- Nothing has been read. -/
theorem Ok.start : Parser.start.Ok where
  makefile := fun h => by cases h
  current := fun r h => by cases h
  package := fun e he => by cases he
  srcpackage := fun e he => by cases he

/-- The hashes stay, and the packages grow. -/
theorem Ok.grow (h : p.Ok) (hg : Grows p q) (hsame : (q.makefile, q.src) = (p.makefile, p.src))
    (hpkg : ∀ r, q.pkg = some r → r < q.index.pkgs.length)
    (hpackage : q.index.package = p.index.package)
    (hsrcpackage : q.index.srcpackage = p.index.srcpackage) : q.Ok where
  makefile := by
    obtain ⟨hmakefile, hsrc⟩ := Prod.mk.inj hsame
    rw [hmakefile, hsrc]
    exact h.makefile
  current := hpkg
  package := fun e he => by
    rw [hpackage] at he
    obtain ⟨hlt, hplaced⟩ := h.package e he
    exact ⟨Nat.lt_of_lt_of_le hlt hg.length, hg.placed hlt hplaced⟩
  srcpackage := fun e he r hr => by
    rw [hsrcpackage] at he
    obtain ⟨hlt, hsrc⟩ := h.srcpackage e he r hr
    exact ⟨Nat.lt_of_lt_of_le hlt hg.length, (hg.src hlt).trans hsrc⟩

/-- Where a field is set before any package, one is made for it. -/
theorem Ok.current_ok (h : p.Ok) : p.current.1.Ok ∧ Grows p p.current.1 ∧
    p.current.2 < p.current.1.index.pkgs.length ∧ p.current.1.src = p.src := by
  unfold Parser.current
  cases hpkg : p.pkg with
  | some r => exact ⟨h, .refl p, h.current r hpkg, rfl⟩
  | none =>
      have hg := alloc_grows p .empty
      refine ⟨h.grow (q := { (p.alloc .empty).1 with pkg := some (p.alloc .empty).2 })
        ⟨hg.length, hg.place⟩ rfl ?_ rfl rfl, ⟨hg.length, hg.place⟩, ?_, rfl⟩
      · intro r hr
        cases hr
        simp [alloc]
      · simp [alloc]

theorem Ok.modify (h : p.Ok) (r : Nat) {f : Pkg → Pkg} (hf : ∀ v, (f v).place = v.place) :
    (p.modify r f).Ok :=
  h.grow (modify_grows p r hf) rfl
    (fun i hi => Nat.lt_of_lt_of_le (h.current i hi) (modify_grows p r hf).length) rfl rfl

theorem Ok.setField (h : p.Ok) {f : Pkg → Pkg} (hf : ∀ v, (f v).place = v.place) :
    (p.setField f).Ok :=
  h.current_ok.1.modify _ hf

theorem lookup_mem_srcpackage {x : Index} {src : Str} {r : Nat} (hr : r ∈ x.packagesOf src) :
    ∃ rs, (src, rs) ∈ x.srcpackage ∧ r ∈ rs := by
  unfold Index.packagesOf at hr
  cases hlookup : x.srcpackage.lookup src with
  | none =>
      rw [hlookup] at hr
      cases hr
  | some rs =>
      rw [hlookup] at hr
      exact ⟨rs, mem_of_lookup hlookup, hr⟩

/-- A package is entered under its name and under its source. -/
theorem Ok.package_ok (h : p.Ok) (hsrc : truthy p.src) (name : Str) : (p.package name).Ok := by
  have hg := alloc_grows p (p.newPkg name none)
  have hnew := alloc_pkg p (p.newPkg name none)
  have hplaced := alloc_placed (h.makefile hsrc) hsrc name none
  have hlast : p.index.pkgs.length < (p.package name).index.pkgs.length := by
    simp [Parser.package, alloc, pushSource]
  constructor
  · exact h.makefile
  · intro r hr
    cases hr
    exact hlast
  · intro e he
    rcases mem_put he with rfl | hold
    · exact ⟨hlast, hplaced⟩
    · obtain ⟨hlt, hplaced⟩ := h.package e hold
      exact ⟨Nat.lt_trans hlt hlast, hg.placed hlt hplaced⟩
  · intro e he r hr
    rcases mem_put he with rfl | hold
    · rcases List.mem_append.mp hr with hmem | hmem
      · obtain ⟨rs, hrs, hr⟩ := lookup_mem_srcpackage hmem
        obtain ⟨hlt, hsame⟩ := h.srcpackage _ hrs r hr
        exact ⟨Nat.lt_trans hlt hlast, (hg.src hlt).trans hsame⟩
      · rw [List.mem_singleton.mp hmem]
        exact ⟨hlast, congrArg Pkg.src hnew⟩
    · obtain ⟨hlt, hsame⟩ := h.srcpackage e hold r hr
      exact ⟨Nat.lt_trans hlt hlast, (hg.src hlt).trans hsame⟩

/-- A virtual package is entered where it is first provided. -/
theorem Ok.provided_ok (h : p.Ok) (hsrc : truthy p.src) (vpkg : Str) :
    (p.provided vpkg).1.Ok ∧ (p.provided vpkg).1.src = p.src := by
  unfold provided
  cases hlookup : p.index.package.lookup vpkg with
  | some r => exact ⟨h, rfl⟩
  | none =>
      dsimp only
      have hg := alloc_grows p (p.newPkg vpkg (some []))
      have hplaced := alloc_placed (h.makefile hsrc) hsrc vpkg (some [])
      refine ⟨⟨h.makefile, fun r hr => Nat.lt_of_lt_of_le (h.current r hr) hg.length,
        fun e he => ?_, ?_⟩, rfl⟩
      · rcases mem_put he with rfl | hold
        · exact ⟨by simp [alloc], hplaced⟩
        · obtain ⟨hlt, hplaced⟩ := h.package e hold
          exact ⟨Nat.lt_of_lt_of_le hlt hg.length, hg.placed hlt hplaced⟩
      · intro e he r hr
        obtain ⟨hlt, hsame⟩ := h.srcpackage e he r hr
        exact ⟨Nat.lt_of_lt_of_le hlt hg.length, (hg.src hlt).trans hsame⟩

theorem Ok.provides_ok (h : p.Ok) (hsrc : truthy p.src) (name : Str) (vpkgs : List Str) :
    (p.provides name vpkgs).Ok := by
  induction vpkgs generalizing p with
  | nil => exact h
  | cons vpkg vpkgs ih =>
      obtain ⟨hok, hsame⟩ := h.provided_ok hsrc vpkg
      refine ih (hok.modify _ ?_) ?_
      · exact fun _ => rfl
      · exact (congrArg truthy hsame).trans hsrc

/-- A new source has no packages yet. -/
theorem Ok.source_ok (h : p.Ok) {makefile : Str} (hmakefile : truthy makefile) (subdir src : Str) :
    (p.source makefile subdir src).Ok where
  makefile := fun _ => hmakefile
  current := fun r hr => by cases hr
  package := h.package
  srcpackage := fun e he r hr => by
    rcases mem_put he with rfl | hold
    · cases hr
    · exact h.srcpackage e hold r hr

/-- One case for each field: only packages and what they provide touch the hashes. -/
theorem Ok.field_ok (h : p.Ok) (hsrc : truthy p.src) (f : Field) : (p.field f).Ok := by
  cases f with
  | package name => exact h.package_ok hsrc name
  | provides vpkgs =>
      obtain ⟨hok, -, -, hsame⟩ := h.current_ok
      exact hok.provides_ok ((congrArg truthy hsame).trans hsrc) _ vpkgs
  | depends deps => exact h.setField fun _ => rfl
  | buildOnly => exact h.setField fun _ => rfl
  | buildDepends deps => exact h.setField fun _ => rfl
  | buildDependsFor type deps => exact h.setField fun _ => rfl
  | buildTypes types => exact h.setField fun _ => rfl
  | category =>
      have hok := h.current_ok.1
      exact ⟨hok.makefile, hok.current, hok.package, hok.srcpackage⟩
  | sourceMakefile _ _ _ => exact h
  | multiline => exact ⟨h.makefile, h.current, h.package, h.srcpackage⟩
  | other => exact h

/-- The references are right behind any lines. -/
theorem ok_lines (lines : List Str) : (lines.foldl Parser.line Parser.start).Ok :=
  lines_induction lines (fun _ _ _ _ _ hline h => h.source_ok (truthy_of_sourceMakefile hline) _ _)
    (fun _ _ hsrc h => h.field_ok hsrc _)
    (fun _ h => ⟨h.makefile, h.current, h.package, h.srcpackage⟩) Ok.start

end Parser

/-! ## Files -/

/-- A package that is found by its name. -/
theorem placed_of_lookup {lines : List Str} {name : Str} {r : Nat}
    (h : (parsePackageMetadata lines).package.lookup name = some r) :
    r < (parsePackageMetadata lines).pkgs.length ∧
      ((parsePackageMetadata lines).pkg r).Placed name :=
  (Parser.ok_lines lines).package _ (mem_of_lookup h)

/-- The packages of a source have it. -/
theorem src_of_packagesOf {lines : List Str} {src : Str} {r : Nat}
    (h : r ∈ (parsePackageMetadata lines).packagesOf src) :
    ((parsePackageMetadata lines).pkg r).src = src := by
  obtain ⟨rs, hrs, hr⟩ := Parser.lookup_mem_srcpackage h
  exact ((Parser.ok_lines lines).srcpackage _ hrs r hr).2

end UbntSdk.Scripts
