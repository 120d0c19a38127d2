/-
UbntSdk.Scripts.MenuTheorems — the search for a dependency, and the order of the
menu.

`DependsOn` is what the entries of the packages say as they are stored, and
`find_package_dep` decides it (`findPackageDep_iff`), being the depth-first search
of the library (`findPackageDepIn_eq`). `Needs` is what they mean: the flag `+` and
the condition in front of a name are no part of it. The comparison puts what is
found first, and compares names otherwise; both together are an order under the
conditions of `menuCompare_order`.
-/
import UbntSdk.Lib.KeyOrder
import UbntSdk.Scripts.Menu
import UbntSdk.Scripts.MetadataTheorems

namespace UbntSdk.Scripts

open UbntSdk.Lib

variable {package : Packages}

/-! ## The search -/

/-- There is a path of entries from a package to a name. -/
inductive DependsOn (package : Packages) : MenuPkg → Str → Prop where
  | entry {pkg : MenuPkg} {name : Str} : name ∈ pkg.entries → DependsOn package pkg name
  | through {pkg pkg' : MenuPkg} {dep name : Str} : dep ∈ pkg.entries →
      package.lookup dep = some pkg' → DependsOn package pkg' name → DependsOn package pkg name

/-- The entries of the package of a name. -/
def nextDeps (package : Packages) (dep : Str) : Option (List Str) :=
  (package.lookup dep).map MenuPkg.entries

theorem findDeps_eq {name : Str} {find : MenuPkg → List Str → Option (Bool × List Str)}
    {search : List Str → List Str → Option (Bool × List Str)}
    (h : ∀ pkg depCheck, find pkg depCheck = search pkg.entries depCheck)
    (deps depCheck : List Str) : findDeps package name find deps depCheck =
      dfsLoop (nextDeps package) name search deps depCheck := by
  induction deps generalizing depCheck with
  | nil => rfl
  | cons dep deps ih =>
      rw [findDeps, dfsLoop]
      cases hl : package.lookup dep with
      | none =>
          have hnext : nextDeps package dep = none := by rw [nextDeps, hl]; rfl
          simp only [hnext, ih]
      | some pkg =>
          have hnext : nextDeps package dep = some pkg.entries := by rw [nextDeps, hl]; rfl
          simp only [hnext, ih, h]
          rcases search pkg.entries (dep :: depCheck) with _ | ⟨_ | _, _⟩
          · rfl
          · rfl
          · rfl

/-- The search is the depth-first search of the library. -/
theorem findPackageDepIn_eq (name : Str) (n : Nat) (pkg : MenuPkg) (depCheck : List Str) :
    findPackageDepIn package name n pkg depCheck =
      dfs (nextDeps package) name n pkg.entries depCheck := by
  induction n generalizing pkg depCheck with
  | zero => rfl
  | succ n ih =>
      rw [findPackageDepIn, dfs, MenuPkg.entries]
      cases pkg.deps with
      | none => rfl
      | some deps => exact findDeps_eq ih deps depCheck

theorem dependsOn_iff {pkg : MenuPkg} {name : Str} :
    DependsOn package pkg name ↔ Connected (nextDeps package) pkg.entries name := by
  constructor
  · intro h
    induction h with
    | entry hmem => exact ⟨_, hmem, .refl⟩
    | @through pkg pkg' dep name hmem hl _ ih =>
        exact ih.succ hmem (by rw [nextDeps, hl]; rfl)
  · rintro ⟨dep, hmem, hpath⟩
    induction hpath using Relation.ReflTransGen.head_induction_on generalizing pkg with
    | refl => exact .entry hmem
    | @head dep dep' hstep _ ih =>
        obtain ⟨l, hl, hmem'⟩ := hstep
        obtain ⟨pkg', hpkg', rfl⟩ := Option.map_eq_some_iff.mp hl
        exact .through hmem hpkg' (ih hmem')

/-- The depth is enough. -/
theorem findPackageDep_isSome (package : Packages) (depCheck : List Str) (pkg : MenuPkg)
    (name : Str) :
    (findPackageDep package (depth package pkg) depCheck pkg name).isSome = true := by
  set nodes := pkg.entries ++ package.flatMap fun e => e.2.entries with hnodes
  rw [findPackageDep, findPackageDepIn_eq]
  have hnext : ∀ d l, nextDeps package d = some l → ∀ e ∈ l, e ∈ nodes.toFinset := by
    intro d l hl e he
    obtain ⟨pkg', hpkg', rfl⟩ := Option.map_eq_some_iff.mp hl
    rw [List.mem_toFinset, hnodes]
    exact List.mem_append_right _ (List.mem_flatMap.mpr ⟨(d, pkg'), mem_of_lookup hpkg', he⟩)
  refine dfs_isSome hnext (fun e he => ?_) ?_
  · rw [List.mem_toFinset, hnodes]
    exact List.mem_append_left _ he
  · rw [unseen, List.toFinset_nil, Finset.sdiff_empty]
    exact Nat.lt_succ_of_le (List.toFinset_card_le nodes)

/-- `find_package_dep` comes to an end, and finds what a path of entries leads to,
whatever was searched before. -/
theorem findPackageDep_iff (package : Packages) (depCheck : List Str) (pkg : MenuPkg)
    (name : Str) :
    (∃ n, (findPackageDep package n depCheck pkg name).isSome = true) ∧
      ∀ n found s, findPackageDep package n depCheck pkg name = some (found, s) →
        (found = true ↔ DependsOn package pkg name) := by
  refine ⟨⟨_, findPackageDep_isSome package depCheck pkg name⟩, fun n found s h => ?_⟩
  rw [findPackageDep, findPackageDepIn_eq] at h
  rw [dependsOn_iff]
  exact dfs_iff h

theorem finds_iff {pkg : MenuPkg} {name : Str} :
    finds package pkg name = true ↔ DependsOn package pkg name := by
  obtain ⟨⟨found, s⟩, h⟩ := Option.isSome_iff_exists.mp
    (findPackageDep_isSome package [] pkg name)
  rw [finds, h]
  rw [findPackageDep, findPackageDepIn_eq] at h
  rw [dependsOn_iff]
  exact dfs_iff h


/-! ## What the entries mean -/

/-- An entry stands for a package: by its text, or by what is behind its marks. -/
def Refers (entry name : Str) : Prop := entry = name ∨ entryPackage entry = some name

/-- A package depends on a name, directly or through other packages. -/
inductive Needs (package : Packages) : MenuPkg → Str → Prop where
  | entry {pkg : MenuPkg} {e name : Str} : e ∈ pkg.entries → Refers e name →
      Needs package pkg name
  | through {pkg pkg' : MenuPkg} {e dep name : Str} : e ∈ pkg.entries → Refers e dep →
      package.lookup dep = some pkg' → Needs package pkg' name → Needs package pkg name

/-- No package depends on itself. -/
def Acyclic (package : Packages) : Prop :=
  ∀ name pkg, package.lookup name = some pkg → ¬Needs package pkg name

theorem DependsOn.needs {pkg : MenuPkg} {name : Str} (h : DependsOn package pkg name) :
    Needs package pkg name := by
  induction h with
  | entry hmem => exact .entry hmem (.inl rfl)
  | through hmem hl _ ih => exact .through hmem (.inl rfl) hl ih

theorem DependsOn.trans {pkg pkg' : MenuPkg} {dep name : Str} (h : DependsOn package pkg dep)
    (hl : package.lookup dep = some pkg') (h' : DependsOn package pkg' name) :
    DependsOn package pkg name := by
  induction h with
  | entry hmem => exact .through hmem hl h'
  | through hmem hnext _ ih => exact .through hmem hnext (ih hl)

theorem Needs.trans {pkg pkg' : MenuPkg} {dep name : Str} (h : Needs package pkg dep)
    (hl : package.lookup dep = some pkg') (h' : Needs package pkg' name) :
    Needs package pkg name := by
  induction h with
  | entry hmem href => exact .through hmem href hl h'
  | through hmem href hnext _ ih => exact .through hmem href hnext (ih hl)

/-! ## The comparison -/

theorem cmp_neg (a b : Str) : cmp a b = -cmp b a := by
  unfold cmp
  rcases lt_trichotomy a b with h | rfl | h
  · rw [if_pos h, if_neg h.not_gt, if_neg h.ne']
  · simp
  · rw [if_neg h.not_gt, if_neg h.ne', if_pos h]
    rfl

theorem cmp_le_zero {a b : Str} : cmp a b ≤ 0 ↔ a ≤ b := by
  unfold cmp
  rcases lt_trichotomy a b with h | rfl | h
  · simp [if_pos h, h.le]
  · simp
  · rw [if_neg h.not_gt, if_neg h.ne']
    simpa using h

theorem cmp_eq_one {a b : Str} : cmp a b = 1 ↔ b < a := by
  unfold cmp
  rcases lt_trichotomy a b with h | rfl | h
  · simp [if_pos h, h.not_gt]
  · simp
  · simp [if_neg h.not_gt, if_neg h.ne', h]

/-- The packages `pkgs` are those of the database, and of one submenu. -/
structure InMenu (package : Packages) (pkgs : List MenuPkg) : Prop where
  stored : ∀ p ∈ pkgs, package.lookup p.name = some p
  submenu : ∀ p ∈ pkgs, ∀ q ∈ pkgs, p.submenu = q.submenu

/-- The comparison is an order that puts dependencies first, and so does a sort by it. -/
structure MenuOrder (package : Packages) (pkgs : List MenuPkg) : Prop where
  antisymm : ∀ a ∈ pkgs, ∀ b ∈ pkgs, menuCompare package a b = -menuCompare package b a
  trans : ∀ a ∈ pkgs, ∀ b ∈ pkgs, ∀ c ∈ pkgs, menuCompare package a b ≤ 0 →
    menuCompare package b c ≤ 0 → menuCompare package a c ≤ 0
  after : ∀ a ∈ pkgs, ∀ b ∈ pkgs, Needs package a b.name → menuCompare package a b = 1
  sorted : ∀ l : List MenuPkg, l.Perm pkgs → l.Pairwise (menuCompare package · · ≤ 0) →
    l.Pairwise fun x y => ¬Needs package x y.name

/-- The path of entries that the search looks for. -/
def Above (package : Packages) (a b : MenuPkg) : Prop := DependsOn package a b.name

section Compare

variable {pkgs : List MenuPkg} {a b : MenuPkg}

theorem menuCompare_eq (hmenu : InMenu package pkgs) (ha : a ∈ pkgs) (hb : b ∈ pkgs) :
    menuCompare package a b =
      if finds package a b.name then 1
      else if finds package b a.name then -1 else cmp a.name b.name := by
  have hsub : ¬a.submenu ≠ b.submenu := not_not.mpr (hmenu.submenu a ha b hb)
  unfold menuCompare packageDepends
  rw [if_neg hsub]
  split
  · rfl
  split
  · rfl
  · rfl

theorem InMenu.above_asymm (hmenu : InMenu package pkgs) (hacyclic : Acyclic package)
    (ha : a ∈ pkgs) (hb : b ∈ pkgs) (hab : Above package a b) : ¬Above package b a := fun hba =>
  hacyclic a.name a (hmenu.stored a ha) (hab.trans (hmenu.stored b hb) hba).needs

theorem InMenu.above_trans {c : MenuPkg} (hmenu : InMenu package pkgs) (hb : b ∈ pkgs)
    (hab : Above package a b) (hbc : Above package b c) : Above package a c :=
  hab.trans (hmenu.stored b hb) hbc

theorem InMenu.eq_of_name (hmenu : InMenu package pkgs) (ha : a ∈ pkgs) (hb : b ∈ pkgs)
    (h : a.name = b.name) : a = b :=
  Option.some.inj ((hmenu.stored a ha).symm.trans (h ▸ hmenu.stored b hb))

/-- The comparison says that a package need not stand behind another one. -/
theorem menuCompare_le_zero (hmenu : InMenu package pkgs) (ha : a ∈ pkgs) (hb : b ∈ pkgs) :
    menuCompare package a b ≤ 0 ↔ NotBehind (Above package) MenuPkg.name a b := by
  rw [menuCompare_eq hmenu ha hb, NotBehind]
  by_cases hab : Above package a b
  · rw [if_pos (finds_iff.mpr hab)]
    simp [hab]
  · rw [if_neg (mt finds_iff.mp hab)]
    by_cases hba : Above package b a
    · rw [if_pos (finds_iff.mpr hba)]
      simp [hab, hba]
    · rw [if_neg (mt finds_iff.mp hba), cmp_le_zero]
      simp [hab, hba]

theorem menuCompare_antisymm (hmenu : InMenu package pkgs) (hacyclic : Acyclic package)
    (ha : a ∈ pkgs) (hb : b ∈ pkgs) : menuCompare package a b = -menuCompare package b a := by
  rw [menuCompare_eq hmenu ha hb, menuCompare_eq hmenu hb ha]
  by_cases hab : Above package a b
  · have hba := hmenu.above_asymm hacyclic ha hb hab
    rw [if_pos (finds_iff.mpr hab), if_neg (mt finds_iff.mp hba), if_pos (finds_iff.mpr hab)]
    rfl
  · rw [if_neg (mt finds_iff.mp hab), if_neg (mt finds_iff.mp hab)]
    split
    · rfl
    · exact cmp_neg _ _

theorem menuCompare_eq_one (hmenu : InMenu package pkgs) (ha : a ∈ pkgs) (hb : b ∈ pkgs) :
    menuCompare package a b = 1 ↔
      Above package a b ∨ ¬Above package b a ∧ b.name < a.name := by
  rw [menuCompare_eq hmenu ha hb]
  by_cases hab : Above package a b
  · rw [if_pos (finds_iff.mpr hab)]
    simp [hab]
  · rw [if_neg (mt finds_iff.mp hab)]
    by_cases hba : Above package b a
    · rw [if_pos (finds_iff.mpr hba)]
      simp [hab, hba]
    · rw [if_neg (mt finds_iff.mp hba), cmp_eq_one]
      simp [hab, hba]

end Compare

/-- Where the comparison puts dependencies first. -/
theorem after_iff {pkgs : List MenuPkg} (hacyclic : Acyclic package)
    (hmenu : InMenu package pkgs) :
    (∀ a ∈ pkgs, ∀ b ∈ pkgs, Needs package a b.name → menuCompare package a b = 1) ↔
      ∀ a ∈ pkgs, ∀ b ∈ pkgs, Needs package a b.name →
        DependsOn package a b.name ∨ b.name < a.name := by
  have hsees : ∀ a ∈ pkgs, ∀ b ∈ pkgs, Needs package a b.name → ¬Above package b a :=
    fun a ha b hb hab hba => hacyclic a.name a (hmenu.stored a ha)
      (hab.trans (hmenu.stored b hb) hba.needs)
  constructor
  · intro h a ha b hb hneeds
    exact ((menuCompare_eq_one hmenu ha hb).mp (h a ha b hb hneeds)).imp_right And.right
  · intro h a ha b hb hneeds
    refine (menuCompare_eq_one hmenu ha hb).mpr ((h a ha b hb hneeds).imp_right fun hlt => ?_)
    exact ⟨hsees a ha b hb hneeds, hlt⟩

/-- Where the comparison is transitive. -/
theorem trans_iff {pkgs : List MenuPkg} (hmenu : InMenu package pkgs) :
    (∀ a ∈ pkgs, ∀ b ∈ pkgs, ∀ c ∈ pkgs, menuCompare package a b ≤ 0 →
      menuCompare package b c ≤ 0 → menuCompare package a c ≤ 0) ↔
      ∀ a ∈ pkgs, ∀ b ∈ pkgs, ∀ m ∈ pkgs, DependsOn package a b.name → a.name < m.name →
        m.name < b.name → DependsOn package m a.name ∨ DependsOn package a m.name ∨
          DependsOn package m b.name ∨ DependsOn package b m.name := by
  have hcomplete := @notBehind_trans_iff _ _ _ (Above package) MenuPkg.name (· ∈ pkgs)
    (fun a b c _ hb _ hab hbc => hmenu.above_trans hb hab hbc)
    (fun a b ha hb h => hmenu.eq_of_name ha hb h)
  constructor
  · intro h a ha b hb m hm hab hlt₁ hlt₂
    refine hcomplete.mp (fun a b c ha hb hc hab hbc => ?_) a b m ha hb hm hab hlt₁ hlt₂
    rw [← menuCompare_le_zero hmenu ha hb] at hab
    rw [← menuCompare_le_zero hmenu hb hc] at hbc
    exact (menuCompare_le_zero hmenu ha hc).mp (h a ha b hb c hc hab hbc)
  · intro h a ha b hb c hc hab hbc
    rw [menuCompare_le_zero hmenu ha hb] at hab
    rw [menuCompare_le_zero hmenu hb hc] at hbc
    refine (menuCompare_le_zero hmenu ha hc).mpr (hcomplete.mpr ?_ a b c ha hb hc hab hbc)
    exact fun a b m ha hb hm hab hlt₁ hlt₂ => h a ha b hb m hm hab hlt₁ hlt₂

/-- Packages that can be numbered so that entries lead down do not depend on themselves. -/
theorem acyclic_of_rank (rank : Str → Nat)
    (h : ∀ x ∈ package, ∀ e ∈ x.2.entries,
      rank e < rank x.1 ∧ ∀ dep ∈ entryPackage e, rank dep < rank x.1) : Acyclic package := by
  have href : ∀ name pkg, package.lookup name = some pkg → ∀ e ∈ pkg.entries, ∀ dep, Refers e dep →
      rank dep < rank name := by
    intro name pkg hl e he dep hdep
    obtain ⟨hplain, hmarked⟩ := h (name, pkg) (mem_of_lookup hl) e he
    rcases hdep with rfl | hdep
    · exact hplain
    · exact hmarked dep hdep
  have hdown : ∀ pkg q, Needs package pkg q → ∀ name, package.lookup name = some pkg →
      rank q < rank name := by
    intro pkg q hneeds
    induction hneeds with
    | entry hmem hdep => exact fun name hl => href name _ hl _ hmem _ hdep
    | through hmem hdep hnext _ ih =>
        exact fun name hl => (ih _ hnext).trans (href name _ hl _ hmem _ hdep)
  exact fun name pkg hl hneeds => absurd (hdown pkg name hneeds name hl) (Nat.lt_irrefl _)

theorem not_needs_of_nil {pkg : MenuPkg} (h : pkg.entries = []) (name : Str) :
    ¬Needs package pkg name := by
  intro hneeds
  cases hneeds with
  | entry hmem _ =>
      rw [h] at hmem
      cases hmem
  | through hmem _ _ _ =>
      rw [h] at hmem
      cases hmem

/-- A package without a submenu. -/
def plainPkg (name : Str) (depends : List Str) : MenuPkg := ⟨name, [], none, some depends⟩

def packagesOf (pkgs : List MenuPkg) : Packages := pkgs.map fun p => (p.name, p)

/-- When the comparison of a menu is a consistent order. -/
theorem menuCompare_order {pkgs : List MenuPkg} (hacyclic : Acyclic package)
    (hmenu : InMenu package pkgs) : MenuOrder package pkgs ↔
      (∀ a ∈ pkgs, ∀ b ∈ pkgs, Needs package a b.name →
        DependsOn package a b.name ∨ b.name < a.name) ∧
      ∀ a ∈ pkgs, ∀ b ∈ pkgs, ∀ m ∈ pkgs, DependsOn package a b.name → a.name < m.name →
        m.name < b.name → DependsOn package m a.name ∨ DependsOn package a m.name ∨
          DependsOn package m b.name ∨ DependsOn package b m.name := by
  rw [← after_iff hacyclic hmenu, ← trans_iff hmenu]
  constructor
  · intro h
    exact ⟨h.after, h.trans⟩
  · rintro ⟨hafter, htrans⟩
    refine ⟨fun a ha b hb => menuCompare_antisymm hmenu hacyclic ha hb, htrans, hafter, ?_⟩
    intro l hperm hsorted
    refine hsorted.imp_of_mem fun {x y} hx hy hle hneeds => ?_
    rw [hafter x (hperm.mem_iff.mp hx) y (hperm.mem_iff.mp hy) hneeds] at hle
    exact absurd hle (by decide)

/-- Two packages, where the entry has a flag. -/
theorem menuCompare_order_flag :
    MenuOrder (packagesOf [plainPkg "lib".toList [], plainPkg "prog".toList ["+lib".toList]])
      [plainPkg "lib".toList [], plainPkg "prog".toList ["+lib".toList]] := by
  have hacyclic : Acyclic
      (packagesOf [plainPkg "lib".toList [], plainPkg "prog".toList ["+lib".toList]]) :=
    acyclic_of_rank (fun name => if name = "prog".toList then 1 else 0) (by decide)
  have hmenu : InMenu
      (packagesOf [plainPkg "lib".toList [], plainPkg "prog".toList ["+lib".toList]])
      [plainPkg "lib".toList [], plainPkg "prog".toList ["+lib".toList]] :=
    ⟨by decide, by decide⟩
  refine (menuCompare_order hacyclic hmenu).mpr ⟨fun a ha b hb hneeds => ?_, ?_⟩
  · have hnames : ∀ x ∈ [plainPkg "lib".toList [], plainPkg "prog".toList ["+lib".toList]],
        ∀ y ∈ [plainPkg "lib".toList [], plainPkg "prog".toList ["+lib".toList]],
          y.name < x.name ∨ x = y ∨ x.entries = [] := by decide
    rcases hnames a ha b hb with hlt | rfl | hnil
    · exact .inr hlt
    · exact absurd hneeds (hacyclic _ a (hmenu.stored a ha))
    · exact absurd hneeds (not_needs_of_nil hnil _)
  · have hnames : ∀ x ∈ [plainPkg "lib".toList [], plainPkg "prog".toList ["+lib".toList]],
        ∀ y ∈ [plainPkg "lib".toList [], plainPkg "prog".toList ["+lib".toList]],
        ∀ m ∈ [plainPkg "lib".toList [], plainPkg "prog".toList ["+lib".toList]],
          x.name < m.name → ¬m.name < y.name := by decide
    intro a ha b hb m hm _ hlt₁ hlt₂
    exact absurd hlt₂ (hnames a ha b hb m hm hlt₁)

/-- `a` depends on `z`, and `m` stands between them by its name. -/
theorem menuCompare_cycle :
    Acyclic (packagesOf
        [plainPkg "a".toList ["z".toList], plainPkg "m".toList [], plainPkg "z".toList []]) ∧
      InMenu (packagesOf
        [plainPkg "a".toList ["z".toList], plainPkg "m".toList [], plainPkg "z".toList []])
        [plainPkg "a".toList ["z".toList], plainPkg "m".toList [], plainPkg "z".toList []] ∧
      ¬MenuOrder (packagesOf
        [plainPkg "a".toList ["z".toList], plainPkg "m".toList [], plainPkg "z".toList []])
        [plainPkg "a".toList ["z".toList], plainPkg "m".toList [], plainPkg "z".toList []] := by
  refine ⟨acyclic_of_rank (fun name => if name = ['a'] then 1 else 0) (by decide),
    ⟨by decide, by decide⟩, fun h => ?_⟩
  have htrans := h.trans (plainPkg "a".toList ["z".toList]) (by decide)
    (plainPkg "m".toList []) (by decide) (plainPkg "z".toList []) (by decide)
  exact absurd (htrans (by decide) (by decide)) (by decide)

end UbntSdk.Scripts
