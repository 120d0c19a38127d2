/-
UbntSdk.Scripts.OverridesTheorems — the order of the packages and what they ask of the
kernel.

To each option a package is a writer (`Block.writer`), and the file is the run of its
writers (`lookup_readMetadata`). So the order is nothing where the packages agree, and
what they have to agree on is `Agree`.
-/
import Mathlib.Data.List.Sort
import UbntSdk.Lib.Writers
import UbntSdk.Scripts.KconfigTheorems
import UbntSdk.Scripts.Overrides

namespace UbntSdk.Scripts.Overrides

open Kconfig (Config keys mem_keys nodup_keys)
open Lib (Writer)

/-! ## Words -/

/-- There is no white space in a text. -/
def Solid (s : Str) : Prop := ∀ c ∈ s, space c = false

theorem solid_of_mem_splitOnP {s w : Str} (h : w ∈ s.splitOnP space) : Solid w := by
  induction s generalizing w with
  | nil =>
      rw [List.splitOnP_nil, List.mem_singleton] at h
      rw [h]
      exact fun c hc => absurd hc List.not_mem_nil
  | cons c s ih =>
      rw [List.splitOnP_cons_eq_if_modifyHead] at h
      split at h
      · rcases List.mem_cons.mp h with rfl | h
        · exact fun c hc => absurd hc List.not_mem_nil
        · exact ih h
      · rename_i hc
        cases hs : s.splitOnP space with
        | nil => exact absurd hs (List.splitOnP_ne_nil _ _)
        | cons first rest =>
            rw [hs] at h ih
            rcases List.mem_cons.mp h with rfl | h
            · intro d hd
              rcases List.mem_cons.mp hd with rfl | hd
              · simpa using hc
              · exact ih List.mem_cons_self d hd
            · exact ih (List.mem_cons_of_mem _ h)

theorem solid_of_mem_words {s w : Str} (h : w ∈ words s) : Solid w :=
  solid_of_mem_splitOnP (List.mem_filter.mp h).1

theorem solid_parseListing {w : Str} (h : Solid w) : Solid (parseListing w).config := by
  unfold parseListing
  cases w with
  | nil => exact h
  | cons c s =>
      cases hs : lazySplit ['='] (c :: s) with
      | none => exact h
      | some parts =>
          obtain ⟨⟨f, r⟩, hsplit, rfl⟩ := Option.map_eq_some_iff.mp hs
          dsimp only
          split
          · exact h
          · intro d hd
            have hfront : c :: f <+: c :: s := by
              rw [Kconfig.splitAtSep_eq hsplit]
              exact List.prefix_append (c :: f) _
            exact h d (hfront.subset hd)

/-! ## Blocks -/

/-- The lines in front of the first package, and those of each package. -/
def packageBlocks : List Str → List Str × List (List Str)
  | [] => ([], [])
  | line :: lines =>
      if (packageLine line).isSome then
        ([], (line :: (packageBlocks lines).1) :: (packageBlocks lines).2)
      else (line :: (packageBlocks lines).1, (packageBlocks lines).2)

/-- What a block says. The lines in front of the first package are those of a package
without a name. -/
structure Block where
  package : Str
  listings : List Listing

def readBlock (lines : List Str) : Block :=
  ⟨(lines.head?.bind packageLine).getD [], (lines.flatMap kernelConfigLine).map parseListing⟩

/-- Only the first line can name a package. -/
def IsBlock (lines : List Str) : Prop := ∀ line ∈ lines.tail, packageLine line = none

theorem packageBlocks_join (lines : List Str) :
    (packageBlocks lines).1 ++ (packageBlocks lines).2.flatten = lines := by
  induction lines with
  | nil => rfl
  | cons line lines ih =>
      rw [packageBlocks]
      split
      · rw [List.nil_append, List.flatten_cons, List.cons_append, ih]
      · rw [List.cons_append, ih]

theorem packageBlocks_front (lines : List Str) :
    ∀ line ∈ (packageBlocks lines).1, packageLine line = none := by
  induction lines with
  | nil => exact fun line hline => absurd hline List.not_mem_nil
  | cons line lines ih =>
      rw [packageBlocks]
      split
      · exact fun line hline => absurd hline List.not_mem_nil
      · rename_i hline
        exact List.forall_mem_cons.mpr ⟨Option.not_isSome_iff_eq_none.mp hline, ih⟩

theorem packageBlocks_blocks (lines : List Str) : ∀ block ∈ (packageBlocks lines).2,
    IsBlock block ∧ ∃ line, block.head? = some line ∧ (packageLine line).isSome := by
  induction lines with
  | nil => exact fun block hblock => absurd hblock List.not_mem_nil
  | cons line lines ih =>
      rw [packageBlocks]
      split
      · rename_i hline
        exact List.forall_mem_cons.mpr
          ⟨⟨packageBlocks_front lines, line, rfl, hline⟩, ih⟩
      · exact ih

theorem foldl_readLine {config lines : List Str}
    (h : ∀ line ∈ lines, packageLine line = none) (s : State) :
    lines.foldl (readLine config) s = ⟨s.package,
      ((lines.flatMap kernelConfigLine).map parseListing).foldl
        (setKconfig (enabled config s.package)) s.kconfig⟩ := by
  induction lines generalizing s with
  | nil => rfl
  | cons line lines ih =>
      obtain ⟨hline, hlines⟩ := List.forall_mem_cons.mp h
      rw [List.foldl_cons, ih hlines, readLine, hline, List.flatMap_cons, List.map_append,
        List.foldl_append, Option.getD_none]
      simp only [List.foldl_map]

theorem foldl_readBlock {config block : List Str} (hblock : IsBlock block) {line : Str}
    (hhead : block.head? = some line) (hline : (packageLine line).isSome) (s : State) :
    block.foldl (readLine config) s = ⟨(readBlock block).package,
      (readBlock block).listings.foldl
        (setKconfig (enabled config (readBlock block).package)) s.kconfig⟩ := by
  obtain ⟨rest, rfl⟩ := List.head?_eq_some_iff.mp hhead
  obtain ⟨package, hpackage⟩ := Option.isSome_iff_exists.mp hline
  have hblock : ∀ line ∈ rest, packageLine line = none := hblock
  rw [List.foldl_cons, foldl_readLine hblock, readLine, hpackage, readBlock, List.flatMap_cons,
    List.map_append, List.foldl_append]
  simp [hpackage, List.foldl_map]

/-! ## Writers -/

namespace Block

/-- The values that a block gives an option. -/
def values (b : Block) (o : Str) : List Str :=
  (b.listings.filter (·.config = o)).map (·.val)

/-- A block has an option without a value. -/
def bare (b : Block) (o : Str) : Bool := b.listings.any fun l => l.config = o && !l.override

/-- What a block does to an option, for a package that is enabled or not. -/
def writer (on : Bool) (o : Str) (b : Block) : Writer Str :=
  if on ∧ o ≠ ['n'] then
    match (b.values o).getLast? with
    | some v => .set v
    | none => .keep
  else if b.bare o then .fill
  else .keep

end Block

theorem lookup_setKconfig_on {o : Str} (ho : o ≠ ['n']) (kconfig : Config) (l : Listing) :
    (setKconfig true kconfig l).lookup o =
      if l.config = o then some l.val else kconfig.lookup o := by
  by_cases hl : l.config = o
  · subst hl
    simp [setKconfig, ho, lookup_put]
  · rw [if_neg hl]
    unfold setKconfig
    split
    · rw [lookup_put, if_neg (Ne.symm hl)]
    · split
      · rfl
      · split
        · rfl
        · rw [lookup_put, if_neg (Ne.symm hl)]

theorem lookup_setKconfig_off {on : Bool} {o : Str} (ho : ¬(on = true ∧ o ≠ ['n']))
    (kconfig : Config) (l : Listing) : (setKconfig on kconfig l).lookup o =
      if l.config = o && !l.override then
        Writer.fill.apply truthy ['n'] (kconfig.lookup o)
      else kconfig.lookup o := by
  by_cases hl : l.config = o
  · subst hl
    rw [setKconfig, if_neg ho]
    by_cases hoverride : l.override
    · simp [hoverride]
    · by_cases ht : (kconfig.lookup l.config).any truthy
      · simp [hoverride, ht, Writer.apply]
      · simp [hoverride, ht, Writer.apply, lookup_put]
  · simp only [hl, decide_false, Bool.false_and, Bool.false_eq_true, if_false]
    unfold setKconfig
    split
    · rw [lookup_put, if_neg (Ne.symm hl)]
    · split
      · rfl
      · split
        · rfl
        · rw [lookup_put, if_neg (Ne.symm hl)]

theorem lookup_listings_on {o : Str} (ho : o ≠ ['n']) (b : Block) (kconfig : Config) :
    (b.listings.foldl (setKconfig true) kconfig).lookup o =
      (b.values o).getLast?.or (kconfig.lookup o) := by
  obtain ⟨package, ls⟩ := b
  induction ls generalizing kconfig with
  | nil => rfl
  | cons l ls ih =>
      rw [List.foldl_cons, ih, lookup_setKconfig_on ho]
      by_cases hl : l.config = o
      · have hvalues : Block.values ⟨package, l :: ls⟩ o =
            l.val :: Block.values ⟨package, ls⟩ o := by
          simp [Block.values, hl]
        rw [if_pos hl, hvalues, List.getLast?_cons]
        cases (Block.values ⟨package, ls⟩ o).getLast? <;> rfl
      · simp [Block.values, hl]

theorem lookup_listings_off {on : Bool} {o : Str} (ho : ¬(on = true ∧ o ≠ ['n'])) (b : Block)
    (kconfig : Config) : (b.listings.foldl (setKconfig on) kconfig).lookup o =
      if b.bare o then Writer.fill.apply truthy ['n'] (kconfig.lookup o)
      else kconfig.lookup o := by
  obtain ⟨package, ls⟩ := b
  induction ls generalizing kconfig with
  | nil => rfl
  | cons l ls ih =>
      have hbare : Block.bare ⟨package, l :: ls⟩ o =
          ((l.config = o && !l.override) || Block.bare ⟨package, ls⟩ o) := rfl
      rw [List.foldl_cons, ih, lookup_setKconfig_off ho, hbare]
      cases hl : l.config = o && !l.override with
      | false => simp
      | true =>
          cases Block.bare ⟨package, ls⟩ o with
          | false => simp
          | true => simp [Writer.fill_fill]

/-- The listings of a block, as one writer. -/
theorem lookup_listings (on : Bool) (o : Str) (b : Block) (kconfig : Config) :
    (b.listings.foldl (setKconfig on) kconfig).lookup o =
      (b.writer on o).apply truthy ['n'] (kconfig.lookup o) := by
  by_cases ho : on = true ∧ o ≠ ['n']
  · rw [Block.writer, if_pos ho]
    obtain ⟨rfl, hn⟩ := ho
    rw [lookup_listings_on hn]
    cases (b.values o).getLast? <;> rfl
  · rw [lookup_listings_off ho, Block.writer, if_neg ho]
    cases b.bare o <;> rfl

/-- What the lines of a block do to an option. -/
def writerOf (config : List Str) (o : Str) (block : List Str) : Writer Str :=
  (readBlock block).writer (enabled config (readBlock block).package) o

/-- An option at the end of the metadata: the run of the blocks. -/
theorem lookup_readMetadata {front : List Str} {blocks : List (List Str)}
    (hfront : ∀ line ∈ front, packageLine line = none)
    (hblocks : ∀ block ∈ blocks, IsBlock block ∧
      ∃ line, block.head? = some line ∧ (packageLine line).isSome)
    (config : List Str) (o : Str) :
    (readMetadata config (front ++ blocks.flatten)).lookup o =
      Writer.run truthy ['n'] (blocks.map (writerOf config o))
        ((writerOf config o front).apply truthy ['n'] none) := by
  have hrun : ∀ s : State, ((blocks.flatten.foldl (readLine config) s).kconfig).lookup o =
      Writer.run truthy ['n'] (blocks.map (writerOf config o)) (s.kconfig.lookup o) := by
    induction blocks with
    | nil => exact fun s => rfl
    | cons block blocks ih =>
        intro s
        obtain ⟨⟨hblock, line, hhead, hline⟩, hblocks⟩ := List.forall_mem_cons.mp hblocks
        rw [List.flatten_cons, List.foldl_append, foldl_readBlock hblock hhead hline,
          ih hblocks, lookup_listings]
        rfl
  have hname : (readBlock front).package = [] := by
    cases front with
    | nil => rfl
    | cons line front => simp [readBlock, hfront line List.mem_cons_self]
  rw [readMetadata, List.foldl_append, hrun, foldl_readLine hfront, writerOf, hname]
  exact congrArg _ (lookup_listings _ o (readBlock front) [])

/-- An option that a block does something to is a word of its. -/
theorem solid_of_writerOf {config block : List Str} {o : Str}
    (h : writerOf config o block ≠ .keep) : Solid o := by
  have hword : ∀ l ∈ (readBlock block).listings, Solid l.config := by
    intro l hl
    obtain ⟨w, hw, rfl⟩ := List.mem_map.mp hl
    obtain ⟨line, -, hw⟩ := List.mem_flatMap.mp hw
    unfold kernelConfigLine at hw
    split at hw
    · exact solid_parseListing (solid_of_mem_words hw)
    · cases hw
  have hlisted : ∃ l ∈ (readBlock block).listings, l.config = o := by
    unfold writerOf Block.writer at h
    split at h
    · cases hv : ((readBlock block).values o).getLast? with
      | none => simp [hv] at h
      | some v =>
          obtain ⟨l, hl, -⟩ := List.mem_map.mp (List.mem_of_getLast? hv)
          obtain ⟨hmem, ho⟩ := List.mem_filter.mp hl
          exact ⟨l, hmem, of_decide_eq_true ho⟩
    · split at h
      · rename_i hbare
        obtain ⟨l, hmem, ho⟩ := List.any_eq_true.mp hbare
        exact ⟨l, hmem, of_decide_eq_true (Bool.and_eq_true_iff.mp ho).1⟩
      · exact absurd rfl h
  obtain ⟨l, hmem, rfl⟩ := hlisted
  exact hword l hmem

/-! ## Lines -/

theorem unset_ne {o : Str} (ho : Solid o) (v : Str) :
    "# ".toList ++ o ++ " is not set".toList ≠ o ++ ['='] ++ v := by
  intro h
  match o with
  | [] => exact absurd (List.cons.inj h).1 (by decide)
  | [c] => exact absurd (List.cons.inj (List.cons.inj h).2).1 (by decide)
  | c :: d :: o =>
      have hd : ' ' = d := (List.cons.inj (List.cons.inj h).2).1
      exact absurd (ho d (by simp)) (by rw [← hd]; decide)

/-- A line that sets an option is that of its value. -/
theorem printOption_eq_set {o : Str} (ho : Solid o) {v u : Str} :
    printOption o v = o ++ ['='] ++ u ↔ v ≠ ['n'] ∧ v = u := by
  unfold printOption
  split
  · rename_i hv
    exact ⟨fun h => absurd h (unset_ne ho u), fun h => absurd hv h.1⟩
  · rename_i hv
    rw [List.append_cancel_left_eq]
    exact ⟨fun h => ⟨hv, h⟩, fun h => h.2⟩

theorem printOption_inj {o : Str} (ho : Solid o) {v u : Str}
    (h : printOption o v = printOption o u) : v = u := by
  by_cases hu : u = ['n']
  · by_cases hv : v = ['n']
    · rw [hu, hv]
    · have hset := (printOption_eq_set ho).mpr ⟨hv, rfl⟩
      rw [h, printOption_eq_set ho] at hset
      exact hset.2.symm
  · have hset := (printOption_eq_set ho).mpr ⟨hu, rfl⟩
    rw [← h, printOption_eq_set ho] at hset
    exact hset.2

/-- Two hashes of the same options print the same where they are the same. -/
theorem printKconfig_eq_iff {k k' : Config} (hdom : ∀ o, k.lookup o ≠ none ↔ k'.lookup o ≠ none)
    (hsolid : ∀ o, k.lookup o ≠ none → Solid o) :
    printKconfig k = printKconfig k' ↔ ∀ o, k.lookup o = k'.lookup o := by
  have hkeys : (keys k).mergeSort (· ≤ ·) = (keys k').mergeSort (· ≤ ·) := by
    have hperm : (keys k).Perm (keys k') :=
      (List.perm_ext_iff_of_nodup (nodup_keys k) (nodup_keys k')).mpr fun o => by
        rw [mem_keys, mem_keys, hdom]
    refine List.Perm.eq_of_sortedLE (List.sortedLE_mergeSort) (List.sortedLE_mergeSort) ?_
    exact (List.mergeSort_perm _ _).trans (hperm.trans (List.mergeSort_perm _ _).symm)
  rw [printKconfig, printKconfig, ← hkeys, List.map_inj_left]
  constructor
  · intro h o
    by_cases ho : k.lookup o = none
    · have ho' : k'.lookup o = none := not_not.mp fun hne => (hdom o).mpr hne ho
      rw [ho, ho']
    · obtain ⟨v, hv⟩ := Option.ne_none_iff_exists'.mp ho
      obtain ⟨u, hu⟩ := Option.ne_none_iff_exists'.mp ((hdom o).mp ho)
      have hline := h o (List.mem_mergeSort.mpr (mem_keys.mpr ho))
      rw [hv, hu, Option.getD_some, Option.getD_some] at hline
      rw [hv, hu, printOption_inj (hsolid o ho) hline]
  · exact fun h o _ => by rw [h]

/-! ## Agreement -/

/-- The values that the enabled packages give an option. -/
def asked (config : List Str) (o : Str) (blocks : List (List Str)) : List Str :=
  blocks.flatMap fun block =>
    if enabled config (readBlock block).package then (readBlock block).values o else []

/-- The packages agree on the value `v` of an option. -/
structure AgreeOn (config : List Str) (front : List Str) (blocks : List (List Str))
    (o v : Str) : Prop where
  same : ∀ block ∈ blocks, ∀ u, (asked config o [block]).getLast? = some u → u = v
  unset : v = ['n'] → ∀ u ∈ asked config o (front :: blocks), u = ['n']
  builtin : ['y'] ∈ asked config o (front :: blocks) → v = ['y']
  zero : v = ['0'] → ∀ block ∈ blocks, enabled config (readBlock block).package = false →
    (readBlock block).bare o = false

/-- The packages agree: on the last value that is asked for, for every option but one
with the name `n`. -/
structure Agree (config : List Str) (front : List Str) (blocks : List (List Str)) : Prop where
  named : ∀ u ∈ asked config ['n'] (front :: blocks), u = ['n']
  agreeOn : ∀ o, o ≠ ['n'] → ∀ v, (asked config o (front :: blocks)).getLast? = some v →
    AgreeOn config front blocks o v

section

variable {config : List Str} {o : Str}

theorem asked_cons (block : List Str) (blocks : List (List Str)) :
    asked config o (block :: blocks) = asked config o [block] ++ asked config o blocks := by
  simp [asked]

theorem val_ne_nil (w : Str) : (parseListing w).val ≠ [] := by
  unfold parseListing
  split
  · split
    · nofun
    · assumption
  · nofun

theorem ne_nil_of_mem_asked {blocks : List (List Str)} {v : Str}
    (h : v ∈ asked config o blocks) : v ≠ [] := by
  obtain ⟨block, -, hv⟩ := List.mem_flatMap.mp h
  split at hv
  · obtain ⟨l, hl, rfl⟩ := List.mem_map.mp hv
    obtain ⟨w, -, rfl⟩ := List.mem_map.mp (List.mem_filter.mp hl).1
    exact val_ne_nil w
  · cases hv

/-- A block sets an option to the last value that it asks for. -/
theorem writerOf_eq_set (ho : o ≠ ['n']) {block : List Str} {v : Str} :
    writerOf config o block = .set v ↔ (asked config o [block]).getLast? = some v := by
  rw [writerOf, Block.writer, asked, List.flatMap_singleton]
  cases enabled config (readBlock block).package with
  | false => cases (readBlock block).bare o <;> simp
  | true =>
      rw [if_pos ⟨rfl, ho⟩, if_pos rfl]
      cases ((readBlock block).values o).getLast? <;> simp

theorem writerOf_eq_fill (ho : o ≠ ['n']) {block : List Str} :
    writerOf config o block = .fill ↔ enabled config (readBlock block).package = false ∧
      (readBlock block).bare o = true := by
  rw [writerOf, Block.writer]
  cases enabled config (readBlock block).package with
  | false => cases (readBlock block).bare o <;> simp
  | true =>
      rw [if_pos ⟨rfl, ho⟩]
      cases ((readBlock block).values o).getLast? <;> simp

/-- Nobody sets an option with the name `n`. -/
theorem writerOf_named_ne_set (block : List Str) (v : Str) :
    writerOf config ['n'] block ≠ .set v := by
  rw [writerOf, Block.writer, if_neg (by simp)]
  split <;> nofun

/-- The last value that is asked for is that of a block, or of the lines in front of
them. -/
theorem asked_getLast {front : List Str} {blocks : List (List Str)} {v : Str}
    (h : (asked config o (front :: blocks)).getLast? = some v) :
    (∃ block ∈ blocks, (asked config o [block]).getLast? = some v) ∨
      ((asked config o [front]).getLast? = some v ∧
        ∀ block ∈ blocks, asked config o [block] = []) := by
  induction blocks generalizing front with
  | nil => exact .inr ⟨h, fun block hblock => absurd hblock List.not_mem_nil⟩
  | cons block blocks ih =>
      rw [asked_cons, List.getLast?_append] at h
      cases hrest : (asked config o (block :: blocks)).getLast? with
      | some u =>
          rw [hrest, Option.some_or] at h
          rw [h] at hrest
          refine .inl ?_
          rcases ih hrest with ⟨found, hmem, hfound⟩ | ⟨hlast, -⟩
          · exact ⟨found, List.mem_cons_of_mem _ hmem, hfound⟩
          · exact ⟨block, List.mem_cons_self, hlast⟩
      | none =>
          rw [hrest, Option.none_or] at h
          have hnil := List.getLast?_eq_none_iff.mp hrest
          refine .inr ⟨h, fun found hfound => ?_⟩
          rw [asked, List.flatMap_eq_nil_iff] at hnil
          rw [asked, List.flatMap_singleton]
          exact hnil found hfound

/-- An option at the end, with the blocks in a given order. -/
def final (config : List Str) (front : List Str) (blocks : List (List Str)) (o : Str) :
    Option Str :=
  Writer.run truthy ['n'] (blocks.map (writerOf config o))
    ((writerOf config o front).apply truthy ['n'] none)

variable {front : List Str} {blocks : List (List Str)}

/-- Where the packages agree on a value the option has it, in every order. -/
theorem final_of_agreeOn (ho : o ≠ ['n']) {v : Str}
    (hv : (asked config o (front :: blocks)).getLast? = some v)
    (h : AgreeOn config front blocks o v) {blocks' : List (List Str)}
    (hperm : blocks'.Perm blocks) : final config front blocks' o = some v := by
  refine Writer.run_of_agree ?_ ?_ ?_
  · intro u hu
    obtain ⟨block, hmem, hset⟩ := List.mem_map.mp hu
    exact h.same block (hperm.mem_iff.mp hmem) u ((writerOf_eq_set ho).mp hset)
  · intro hfill
    obtain ⟨block, hmem, hfill⟩ := List.mem_map.mp hfill
    obtain ⟨hoff, hbare⟩ := (writerOf_eq_fill ho).mp hfill
    have hzero : v ≠ ['0'] := by
      intro hzero
      rw [h.zero hzero block (hperm.mem_iff.mp hmem) hoff] at hbare
      cases hbare
    simp [truthy, hzero, ne_nil_of_mem_asked (List.mem_of_getLast? hv)]
  · rcases asked_getLast hv with ⟨block, hmem, hlast⟩ | ⟨hlast, -⟩
    · have hset := (writerOf_eq_set ho).mpr hlast
      exact .inr (hset ▸ List.mem_map_of_mem (hperm.mem_iff.mpr hmem))
    · rw [(writerOf_eq_set ho).mpr hlast]
      exact .inl rfl

/-- Where nobody sets an option it is off or not there, in every order. -/
theorem final_of_no_set (h : ∀ block ∈ front :: blocks, ∀ v, writerOf config o block ≠ .set v) :
    (∀ blocks' : List (List Str), blocks'.Perm blocks →
      final config front blocks' o = final config front blocks o) ∧
    ∀ v, final config front blocks o = some v → v = ['n'] := by
  obtain ⟨hfront, hblocks⟩ := List.forall_mem_cons.mp h
  have hset : ∀ blocks' : List (List Str), blocks'.Perm blocks →
      ∀ v, Writer.set v ∉ blocks'.map (writerOf config o) := by
    intro blocks' hperm v hmem
    obtain ⟨block, hmem, hset⟩ := List.mem_map.mp hmem
    exact hblocks block (hperm.mem_iff.mp hmem) v hset
  have hfrontv : ∀ v, (writerOf config o front).apply truthy ['n'] none = some v → v = ['n'] := by
    intro v hv
    cases hw : writerOf config o front with
    | keep => rw [hw] at hv; cases hv
    | fill => rw [hw] at hv; exact (Option.some.inj hv).symm
    | set u => exact absurd hw (hfront u)
  by_cases hfill : Writer.fill ∈ blocks.map (writerOf config o)
  · have hfinal : ∀ blocks' : List (List Str), blocks'.Perm blocks → final config front blocks' o =
        Writer.fill.apply truthy ['n'] ((writerOf config o front).apply truthy ['n'] none) :=
      fun blocks' hperm => Writer.run_of_fill (hset blocks' hperm)
        ((hperm.map _).mem_iff.mpr hfill) _
    refine ⟨fun blocks' hperm => by rw [hfinal blocks' hperm, hfinal blocks (.refl _)], ?_⟩
    intro v hv
    rw [hfinal blocks (.refl _), Writer.apply] at hv
    split at hv
    · exact hfrontv v hv
    · exact (Option.some.inj hv).symm
  · have hfinal : ∀ blocks' : List (List Str), blocks'.Perm blocks → final config front blocks' o =
        (writerOf config o front).apply truthy ['n'] none :=
      fun blocks' hperm => Writer.run_of_keep (hset blocks' hperm)
        (fun hmem => hfill ((hperm.map _).mem_iff.mp hmem)) _
    refine ⟨fun blocks' hperm => by rw [hfinal blocks' hperm, hfinal blocks (.refl _)], ?_⟩
    intro v hv
    rw [hfinal blocks (.refl _)] at hv
    exact hfrontv v hv

/-- The packages decide about the option, whatever their order: it is enabled if one
of them asks for it, and built in if one asks for that. -/
structure Decided (config : List Str) (front : List Str) (blocks : List (List Str))
    (o : Str) : Prop where
  permuted : ∀ blocks' : List (List Str), blocks'.Perm blocks →
    final config front blocks' o = final config front blocks o
  enabled_iff : (∃ v, final config front blocks o = some v ∧ v ≠ ['n']) ↔
    ∃ u ∈ asked config o (front :: blocks), u ≠ ['n']
  builtin : ['y'] ∈ asked config o (front :: blocks) →
    final config front blocks o = some ['y']

/-- An option is enabled unless a value that is asked for is off. -/
theorem Decided.unset (h : Decided config front blocks o)
    (hfinal : final config front blocks o = some ['n']) :
    ∀ u ∈ asked config o (front :: blocks), u = ['n'] := by
  intro u hu
  by_contra hne
  obtain ⟨v, hv, hvn⟩ := h.enabled_iff.mpr ⟨u, hu, hne⟩
  exact hvn (Option.some.inj (hv.symm.trans hfinal))

theorem decided_of_agreeOn (ho : o ≠ ['n'])
    (h : ∀ v, (asked config o (front :: blocks)).getLast? = some v →
      AgreeOn config front blocks o v) : Decided config front blocks o := by
  cases hlast : (asked config o (front :: blocks)).getLast? with
  | none =>
      have hnil := List.getLast?_eq_none_iff.mp hlast
      have hset : ∀ block ∈ front :: blocks, ∀ v, writerOf config o block ≠ .set v := by
        intro block hmem v hset
        rw [asked, List.flatMap_eq_nil_iff] at hnil
        rw [writerOf_eq_set ho, asked, List.flatMap_singleton, hnil block hmem] at hset
        cases hset
      obtain ⟨hperm, hoff⟩ := final_of_no_set hset
      refine ⟨hperm, ?_, ?_⟩
      · rw [hnil]
        exact ⟨fun ⟨v, hv, hne⟩ => absurd (hoff v hv) hne, nofun⟩
      · rw [hnil]
        nofun
  | some v =>
      have hagree := h v hlast
      have hfinal : ∀ {blocks' : List (List Str)}, blocks'.Perm blocks →
          final config front blocks' o = some v :=
        fun hperm => final_of_agreeOn ho hlast hagree hperm
      refine ⟨fun blocks' hperm => by rw [hfinal hperm, hfinal (.refl _)], ?_, ?_⟩
      · rw [hfinal (.refl _)]
        constructor
        · rintro ⟨u, hu, hne⟩
          exact ⟨v, List.mem_of_getLast? hlast, Option.some.inj hu ▸ hne⟩
        · rintro ⟨u, hu, hne⟩
          exact ⟨v, rfl, fun hv => hne (hagree.unset hv u hu)⟩
      · intro hy
        rw [hfinal (.refl _), hagree.builtin hy]

/-- Where no block asks for an option none sets it. -/
theorem set_notMem (ho : o ≠ ['n']) (hnil : ∀ block ∈ blocks, asked config o [block] = []) :
    ∀ u, Writer.set u ∉ blocks.map (writerOf config o) := by
  intro u hmem
  obtain ⟨block, hmem, hset⟩ := List.mem_map.mp hmem
  rw [writerOf_eq_set ho, hnil block hmem] at hset
  cases hset

/-- A value from the lines in front of the blocks, where a block fills the option. -/
theorem final_of_fill (ho : o ≠ ['n']) {v : Str}
    (hfirst : (asked config o [front]).getLast? = some v)
    (hnil : ∀ block ∈ blocks, asked config o [block] = [])
    (hfill : Writer.fill ∈ blocks.map (writerOf config o)) :
    final config front blocks o = if truthy v then some v else some ['n'] := by
  rw [final, (writerOf_eq_set ho).mpr hfirst, Writer.run_of_fill (set_notMem ho hnil) hfill]
  rfl

/-- In every order the last value that is asked for is the one that the option has. -/
theorem Decided.final_eq (h : Decided config front blocks o) (ho : o ≠ ['n']) {v : Str}
    (hlast : (asked config o (front :: blocks)).getLast? = some v) :
    final config front blocks o = some v := by
  rcases asked_getLast hlast with ⟨block, hmem, hlast⟩ | ⟨hfirst, hnil⟩
  · exact Writer.set_of_perm h.permuted hmem ((writerOf_eq_set ho).mpr hlast)
  · by_cases hfill : Writer.fill ∈ blocks.map (writerOf config o)
    · have hfinal := final_of_fill ho hfirst hnil hfill
      by_cases hv : truthy v
      · rw [hfinal, if_pos hv]
      · rw [if_neg hv] at hfinal
        have hvn := h.unset hfinal v (List.mem_of_getLast? hlast)
        exact absurd (by rw [hvn]; decide) hv
    · rw [final, (writerOf_eq_set ho).mpr hfirst]
      exact Writer.run_of_keep (set_notMem ho hnil) hfill _

theorem Decided.agreeOn (h : Decided config front blocks o) (ho : o ≠ ['n']) {v : Str}
    (hlast : (asked config o (front :: blocks)).getLast? = some v) :
    AgreeOn config front blocks o v := by
  have hfinal := h.final_eq ho hlast
  constructor
  case same =>
    intro block hmem u hu
    have hset := Writer.set_of_perm h.permuted hmem ((writerOf_eq_set ho).mpr hu)
    exact Option.some.inj (hset.symm.trans hfinal)
  case unset =>
    rintro rfl
    exact h.unset hfinal
  case builtin =>
    intro hy
    exact Option.some.inj (hfinal.symm.trans (h.builtin hy))
  case zero =>
    rintro rfl block hmem hoff
    by_contra hbare
    have hfill : writerOf config o block = .fill :=
      (writerOf_eq_fill ho).mpr ⟨hoff, by simpa using hbare⟩
    rcases asked_getLast hlast with ⟨found, hfound, hlast'⟩ | ⟨hfirst, hnil⟩
    · have hset := (writerOf_eq_set ho).mpr hlast'
      rcases Writer.holds_of_perm h.permuted hfound hset hmem hfill with hzero | hzero
      · exact absurd hzero (by decide)
      · exact absurd hzero (by decide)
    · have hoff := final_of_fill ho hfirst hnil (hfill ▸ List.mem_map_of_mem hmem)
      rw [hfinal] at hoff
      exact absurd hoff (by decide)

theorem decided_named : Decided config front blocks ['n'] ↔
    ∀ u ∈ asked config ['n'] (front :: blocks), u = ['n'] := by
  have hset : ∀ block ∈ front :: blocks, ∀ v, writerOf config ['n'] block ≠ .set v :=
    fun block _ v => writerOf_named_ne_set block v
  obtain ⟨hperm, hoff⟩ := final_of_no_set hset
  constructor
  · intro h u hu
    by_contra hne
    obtain ⟨v, hv, hvn⟩ := h.enabled_iff.mpr ⟨u, hu, hne⟩
    exact hvn (hoff v hv)
  · intro h
    refine ⟨hperm, ?_, fun hy => absurd (h _ hy) (by decide)⟩
    exact ⟨fun ⟨v, hv, hvn⟩ => absurd (hoff v hv) hvn, fun ⟨u, hu, hne⟩ => absurd (h u hu) hne⟩

theorem decided_iff_agree :
    (∀ o, Decided config front blocks o) ↔ Agree config front blocks := by
  constructor
  · intro h
    exact ⟨decided_named.mp (h _), fun o ho v hlast => (h o).agreeOn ho hlast⟩
  · intro h o
    by_cases ho : o = ['n']
    · subst ho
      exact decided_named.mpr h.named
    · exact decided_of_agreeOn ho (h.agreeOn o ho)

end

/-! ## Order -/

/-- The line that is printed for an option. -/
def Prints (pkginfo cfgfile : List Str) (o line : Str) : Prop :=
  ∃ v, (readMetadata (readConfig cfgfile) pkginfo).lookup o = some v ∧ printOption o v = line

/-- The order of the packages is nothing, and the options are printed as the enabled
packages ask for them. -/
structure OrderFree (pkginfo cfgfile : List Str) : Prop where
  permuted : ∀ blocks' : List (List Str), blocks'.Perm (packageBlocks pkginfo).2 →
    genKconfigOverrides ((packageBlocks pkginfo).1 ++ blocks'.flatten) cfgfile =
      genKconfigOverrides pkginfo cfgfile
  enabled_iff : ∀ o, (∃ v, Prints pkginfo cfgfile o (o ++ ['='] ++ v)) ↔
    ∃ u ∈ asked (readConfig cfgfile) o
      ((packageBlocks pkginfo).1 :: (packageBlocks pkginfo).2), u ≠ ['n']
  builtin : ∀ o, ['y'] ∈ asked (readConfig cfgfile) o
      ((packageBlocks pkginfo).1 :: (packageBlocks pkginfo).2) →
    Prints pkginfo cfgfile o (o ++ ['='] ++ ['y'])

theorem lookup_permuted (config pkginfo : List Str) {blocks' : List (List Str)}
    (hperm : blocks'.Perm (packageBlocks pkginfo).2) (o : Str) :
    (readMetadata config ((packageBlocks pkginfo).1 ++ blocks'.flatten)).lookup o =
      final config (packageBlocks pkginfo).1 blocks' o :=
  lookup_readMetadata (packageBlocks_front pkginfo)
    (fun block hmem => packageBlocks_blocks pkginfo block (hperm.mem_iff.mp hmem)) config o

theorem lookup_pkginfo (config pkginfo : List Str) (o : Str) :
    (readMetadata config pkginfo).lookup o =
      final config (packageBlocks pkginfo).1 (packageBlocks pkginfo).2 o := by
  rw [← lookup_permuted config pkginfo (.refl _), packageBlocks_join]

theorem final_ne_none {config front : List Str} {blocks : List (List Str)} {o : Str} :
    final config front blocks o ≠ none ↔
      ∃ block ∈ front :: blocks, writerOf config o block ≠ .keep := by
  have hfront : (writerOf config o front).apply truthy ['n'] none ≠ none ↔
      writerOf config o front ≠ .keep := by
    cases writerOf config o front <;> simp [Writer.apply]
  rw [final, Writer.run_ne_none, hfront, List.exists_mem_cons_iff]
  simp only [List.mem_map, exists_exists_and_eq_and]

theorem solid_of_final {config front : List Str} {blocks : List (List Str)} {o : Str}
    (h : final config front blocks o ≠ none) : Solid o := by
  obtain ⟨block, -, hblock⟩ := final_ne_none.mp h
  exact solid_of_writerOf hblock

/-- An option is printed with a value where it has that and is not off. -/
theorem prints_set_iff {pkginfo cfgfile : List Str} {o v : Str} :
    Prints pkginfo cfgfile o (o ++ ['='] ++ v) ↔
      final (readConfig cfgfile) (packageBlocks pkginfo).1 (packageBlocks pkginfo).2 o =
        some v ∧ v ≠ ['n'] := by
  rw [Prints, lookup_pkginfo]
  constructor
  · rintro ⟨u, hu, hline⟩
    have hsolid : Solid o := solid_of_final (by rw [hu]; nofun)
    obtain ⟨hne, rfl⟩ := (printOption_eq_set hsolid).mp hline
    exact ⟨hu, hne⟩
  · rintro ⟨hv, hne⟩
    have hsolid : Solid o := solid_of_final (by rw [hv]; nofun)
    exact ⟨v, hv, (printOption_eq_set hsolid).mpr ⟨hne, rfl⟩⟩

/-- The order of the packages is nothing exactly where they agree. -/
theorem genKconfigOverrides_order_iff (pkginfo cfgfile : List Str) : OrderFree pkginfo cfgfile ↔
    Agree (readConfig cfgfile) (packageBlocks pkginfo).1 (packageBlocks pkginfo).2 := by
  have hprint : ∀ blocks' : List (List Str), blocks'.Perm (packageBlocks pkginfo).2 →
      (genKconfigOverrides ((packageBlocks pkginfo).1 ++ blocks'.flatten) cfgfile =
        genKconfigOverrides pkginfo cfgfile ↔
      ∀ o, final (readConfig cfgfile) (packageBlocks pkginfo).1 blocks' o =
        final (readConfig cfgfile) (packageBlocks pkginfo).1 (packageBlocks pkginfo).2 o) := by
    intro blocks' hperm
    rw [genKconfigOverrides, genKconfigOverrides, printKconfig_eq_iff]
    · simp only [lookup_permuted _ _ hperm, lookup_pkginfo]
    · intro o
      rw [lookup_permuted _ _ hperm, lookup_pkginfo, final_ne_none, final_ne_none]
      simp only [(hperm.cons _).mem_iff]
    · intro o ho
      rw [lookup_permuted _ _ hperm] at ho
      exact solid_of_final ho
  rw [← decided_iff_agree]
  constructor
  · intro h o
    refine ⟨fun blocks' hperm => (hprint blocks' hperm).mp (h.permuted blocks' hperm) o, ?_, ?_⟩
    · simp only [← prints_set_iff]
      exact h.enabled_iff o
    · intro hy
      exact (prints_set_iff.mp (h.builtin o hy)).1
  · intro h
    refine ⟨fun blocks' hperm => (hprint blocks' hperm).mpr fun o => (h o).permuted blocks' hperm,
      ?_, ?_⟩
    · intro o
      simp only [prints_set_iff]
      exact (h o).enabled_iff
    · intro o hy
      exact prints_set_iff.mpr ⟨(h o).builtin hy, by decide⟩

/-- A package that wants an option as a module, and one that wants it built in. -/
def asModule : List Str := ["Package: kmod-a".toList, "Kernel-Config: CONFIG_X".toList]

def asBuiltin : List Str := ["Package: kmod-b".toList, "Kernel-Config: CONFIG_X=y".toList]

def bothEnabled : List Str :=
  ["CONFIG_PACKAGE_kmod-a=y".toList, "CONFIG_PACKAGE_kmod-b=y".toList]

/-- The package that comes last decides. -/
theorem last_package_decides :
    packageBlocks (asModule ++ asBuiltin) = ([], [asModule, asBuiltin]) ∧
      genKconfigOverrides (asModule ++ asBuiltin) bothEnabled = ["CONFIG_X=y".toList] ∧
      genKconfigOverrides (asBuiltin ++ asModule) bothEnabled = ["CONFIG_X=m".toList] := by
  have hprint : ∀ v, v ≠ ['n'] →
      printKconfig [("CONFIG_X".toList, v)] = ["CONFIG_X".toList ++ ['='] ++ v] := by
    intro v hv
    have hkeys : keys [("CONFIG_X".toList, v)] = ["CONFIG_X".toList] := rfl
    rw [printKconfig, hkeys, List.mergeSort_singleton, List.map_singleton,
      List.lookup_cons_self, Option.getD_some, printOption, if_neg hv]
  have hfirst : readMetadata (readConfig bothEnabled) (asModule ++ asBuiltin) =
      [("CONFIG_X".toList, ['y'])] := by decide
  have hlast : readMetadata (readConfig bothEnabled) (asBuiltin ++ asModule) =
      [("CONFIG_X".toList, ['m'])] := by decide
  refine ⟨by decide, ?_, ?_⟩
  · rw [genKconfigOverrides, hfirst, hprint _ (by decide)]
    rfl
  · rw [genKconfigOverrides, hlast, hprint _ (by decide)]
    rfl

end UbntSdk.Scripts.Overrides
