/-
UbntSdk.Images.MylofwOptionTheorems — the options of the writer of MyLoader
images, in any order (`tools/firmware-utils/src/mkmylofw.c`).

`-p` and `-b` add partitions and blocks, the other options set the header, the
board and the flash size. The two kinds meet in one place only: a partition
without a size is given what is left of the flash when its option is parsed. So
a run is taken apart into the other options and what is added, each with the
flash size that its option has seen (`parseOpts_eq_some`).

From there on two things are read off: which commands are refused (`Accepted`,
`mkmylofw_isSome_iff`), and that two orders in which the partitions without a
size see different flash sizes cannot give one image (`mkmylofw_order_iff`), as
the table of the partitions tells the size.
-/
import UbntSdk.Images.MylofwOptions
import UbntSdk.Images.MylofwTheorems

namespace UbntSdk.Images.Mylofw

open UbntSdk.Lib

/-! ## Two kinds of options -/

/-- Options that add a partition or a block. -/
def Opt.isLayout : Opt → Bool
  | .block _ => true
  | .partition _ => true
  | _ => false

/-- Partitions and blocks that are added. -/
structure Added where
  parts : List MyloPartition
  blocks : List FwBlock

namespace Added

def nil : Added := ⟨[], []⟩

def append (a b : Added) : Added := ⟨a.parts ++ b.parts, a.blocks ++ b.blocks⟩

def join (l : List Added) : Added := l.foldr append nil

end Added

namespace Options

def add (st : Options) (a : Added) : Options :=
  { st with parts := st.parts ++ a.parts, blocks := st.blocks ++ a.blocks }

/-- There are not too many partitions or blocks. -/
def Room (st : Options) : Prop :=
  st.parts.length ≤ MYLO_MAX_PARTITIONS ∧ st.blocks.length ≤ MAX_FW_BLOCKS

@[simp] theorem add_flashSize (st : Options) (a : Added) : (st.add a).flashSize = st.flashSize := rfl

@[simp] theorem add_nil (st : Options) : st.add .nil = st := by
  simp [add, Added.nil]

theorem add_add (st : Options) (a b : Added) : (st.add a).add b = st.add (a.append b) := by
  simp [add, Added.append]

theorem Room.of_add {st : Options} {a : Added} (h : (st.add a).Room) : st.Room := by
  obtain ⟨hparts, hblocks⟩ := h
  simp only [add, List.length_append] at hparts hblocks
  exact ⟨by omega, by omega⟩

end Options

/-- What an option adds when it sees this flash size. -/
def Opt.adds (seen : UInt32) : Opt → Option Added
  | .block arg => (blockArg arg).map fun b => ⟨[], [b]⟩
  | .partition arg =>
      (partitionArg arg).map fun a => ⟨[a.part seen], if a.file = [] then [] else [a.block seen]⟩
  | _ => some .nil

/-- The flash size behind an option. -/
def Opt.flashAfter (seen : UInt32) : Opt → UInt32
  | .board arg => (findBoard arg).elim seen (·.flashSize)
  | .size arg => (numberArg arg).getD seen
  | _ => seen

/-- The options that add something, with the flash size that they see. -/
def seenBy (seen : UInt32) : List Opt → List (UInt32 × Opt)
  | [] => []
  | opt :: opts =>
      if opt.isLayout then (seen, opt) :: seenBy seen opts else seenBy (opt.flashAfter seen) opts

theorem parseOptBlock_iff {arg : List Char} {st st' : Options} (hroom : st.Room) :
    parseOptBlock arg st = some st' ↔
      ∃ a, (Opt.block arg).adds st.flashSize = some a ∧ (st.add a).Room ∧ st' = st.add a := by
  obtain ⟨hparts, hblocks⟩ := hroom
  simp only [parseOptBlock, Opt.adds, Option.map_eq_some_iff]
  split
  · rename_i hfull
    refine iff_of_false (by simp) ?_
    rintro ⟨-, ⟨b, -, rfl⟩, hroom, -⟩
    have hlen := hroom.2
    simp only [Options.add, List.length_append, List.length_cons, List.length_nil] at hlen
    omega
  · rename_i hfree
    constructor
    · intro h
      obtain ⟨b, hb, rfl⟩ := Option.map_eq_some_iff.mp h
      refine ⟨_, ⟨b, hb, rfl⟩, ⟨?_, ?_⟩, ?_⟩
      · simpa [Options.add] using hparts
      · simp only [Options.add, List.length_append, List.length_cons, List.length_nil]
        omega
      · simp [Options.add]
    · rintro ⟨-, ⟨b, hb, rfl⟩, -, rfl⟩
      simp [hb, Options.add]

theorem parseOptPartition_iff {arg : List Char} {st st' : Options} (hroom : st.Room) :
    parseOptPartition arg st = some st' ↔
      ∃ a, (Opt.partition arg).adds st.flashSize = some a ∧ (st.add a).Room ∧ st' = st.add a := by
  obtain ⟨hparts, hblocks⟩ := hroom
  simp only [parseOptPartition, Opt.adds, Option.map_eq_some_iff]
  split
  · rename_i hfull
    refine iff_of_false (by simp) ?_
    rintro ⟨-, ⟨a, -, rfl⟩, hroom, -⟩
    have hlen := hroom.1
    simp only [Options.add, List.length_append, List.length_cons, List.length_nil] at hlen
    omega
  · rename_i hfree
    simp only [Option.bind_eq_some_iff, exists_exists_and_eq_and]
    refine exists_congr fun a => and_congr_right fun _ => ?_
    by_cases hfile : a.file = []
    · simp only [if_pos hfile, Option.some.injEq, Options.Room, Options.add, List.append_nil,
        List.length_append, List.length_cons, List.length_nil]
      constructor
      · rintro rfl
        exact ⟨⟨by omega, hblocks⟩, rfl⟩
      · rintro ⟨-, rfl⟩
        rfl
    · simp only [if_neg hfile, Options.Room, Options.add, List.length_append, List.length_cons,
        List.length_nil]
      split
      · rename_i hfull
        refine iff_of_false (by simp) ?_
        rintro ⟨⟨-, hlen⟩, -⟩
        omega
      · rename_i hroom
        rw [Option.some.injEq]
        constructor
        · rintro rfl
          exact ⟨⟨by omega, by omega⟩, rfl⟩
        · rintro ⟨-, rfl⟩
          rfl

theorem parse_layout {opt : Opt} (hopt : opt.isLayout = true) {st st' : Options} (hroom : st.Room) :
    opt.parse st = some st' ↔
      ∃ a, opt.adds st.flashSize = some a ∧ (st.add a).Room ∧ st' = st.add a := by
  cases opt with
  | block arg => exact parseOptBlock_iff hroom
  | partition arg => exact parseOptPartition_iff hroom
  | _ => cases hopt

/-- The other options leave alone what is added. -/
theorem parse_add {opt : Opt} (hopt : opt.isLayout = false) (st : Options) (a : Added) :
    opt.parse (st.add a) = (opt.parse st).map (·.add a) := by
  cases opt with
  | block arg => cases hopt
  | partition arg => cases hopt
  | _ =>
      simp [Opt.parse, parseOptBoard, parseOptFlags, parseOptId, parseOptRev, parseOptSize,
        Options.add, Function.comp_def]

theorem parse_header {opt : Opt} (hopt : opt.isLayout = false) {st st' : Options}
    (h : opt.parse st = some st') :
    st'.parts = st.parts ∧ st'.blocks = st.blocks ∧ st'.flashSize = opt.flashAfter st.flashSize := by
  cases opt with
  | block arg => cases hopt
  | partition arg => cases hopt
  | board arg =>
      obtain ⟨board, hboard, rfl⟩ := Option.map_eq_some_iff.mp h
      obtain ⟨-, -, hfind⟩ := Option.bind_eq_some_iff.mp hboard
      refine ⟨rfl, rfl, ?_⟩
      rw [Opt.flashAfter, hfind]
      rfl
  | size arg =>
      obtain ⟨size, hsize, rfl⟩ := Option.map_eq_some_iff.mp h
      refine ⟨rfl, rfl, ?_⟩
      rw [Opt.flashAfter, hsize]
      rfl
  | flags arg =>
      obtain ⟨_, -, rfl⟩ := Option.map_eq_some_iff.mp h
      exact ⟨rfl, rfl, rfl⟩
  | id arg =>
      obtain ⟨_, -, rfl⟩ := Option.map_eq_some_iff.mp h
      exact ⟨rfl, rfl, rfl⟩
  | rev arg =>
      obtain ⟨_, -, rfl⟩ := Option.map_eq_some_iff.mp h
      exact ⟨rfl, rfl, rfl⟩

/-! ## Runs -/

/-- The options that set the header, the board and the flash size. -/
def headerOpts (opts : List Opt) : List Opt := opts.filter fun opt => !opt.isLayout

def layoutOpts (opts : List Opt) : List Opt := opts.filter Opt.isLayout

/-- What the options add, if all of them can be parsed. -/
def added (l : List (UInt32 × Opt)) : Option (List Added) := l.mapM fun e => e.2.adds e.1

theorem parseOpts_cons (opt : Opt) (opts : List Opt) (st : Options) :
    parseOpts (opt :: opts) st = (opt.parse st).bind (parseOpts opts) := rfl

theorem parseOpts_add {opts : List Opt} (h : ∀ opt ∈ opts, opt.isLayout = false) (st : Options)
    (a : Added) : parseOpts opts (st.add a) = (parseOpts opts st).map (·.add a) := by
  induction opts generalizing st with
  | nil => rfl
  | cons opt opts ih =>
      obtain ⟨hopt, hopts⟩ := List.forall_mem_cons.mp h
      rw [parseOpts_cons, parseOpts_cons, parse_add hopt, Option.map_bind, Option.bind_map]
      exact congrArg _ (funext fun st => ih hopts st)

theorem not_isLayout_of_mem {opt : Opt} {opts : List Opt} (h : opt ∈ headerOpts opts) :
    opt.isLayout = false := by
  simpa using (List.mem_filter.mp h).2

/-- The other options add nothing. -/
theorem parseOpts_header {opts : List Opt} (h : ∀ opt ∈ opts, opt.isLayout = false)
    {st side : Options} (hrun : parseOpts opts st = some side) :
    side.parts = st.parts ∧ side.blocks = st.blocks := by
  induction opts generalizing st with
  | nil =>
      cases hrun
      exact ⟨rfl, rfl⟩
  | cons opt opts ih =>
      obtain ⟨hopt, hopts⟩ := List.forall_mem_cons.mp h
      obtain ⟨st', hparse, hrest⟩ := Option.bind_eq_some_iff.mp hrun
      obtain ⟨hparts, hblocks, -⟩ := parse_header hopt hparse
      obtain ⟨hparts', hblocks'⟩ := ih hopts hrest
      exact ⟨hparts'.trans hparts, hblocks'.trans hblocks⟩

theorem added_cons (e : UInt32 × Opt) (l : List (UInt32 × Opt)) :
    added (e :: l) = (e.2.adds e.1).bind fun a => (added l).map (a :: ·) := by
  simp [added, List.mapM_cons, Option.map_eq_bind]

/-- All partitions and blocks that are added have a property. -/
structure Added.All (P : MyloPartition → Prop) (Q : FwBlock → Prop) (a : Added) : Prop where
  part : ∀ p ∈ a.parts, P p
  block : ∀ b ∈ a.blocks, Q b

/-- The same of an option that sees the flash size `seen`. -/
def Opt.AllAdded (P : MyloPartition → Prop) (Q : FwBlock → Prop) (seen : UInt32) : Opt → Prop
  | .block arg => ∀ b ∈ blockArg arg, Q b
  | .partition arg => ∀ a ∈ partitionArg arg, P (a.part seen) ∧ (a.file ≠ [] → Q (a.block seen))
  | _ => True

section

variable {P : MyloPartition → Prop} {Q : FwBlock → Prop}

theorem all_adds {seen : UInt32} {opt : Opt} {a : Added} (h : opt.adds seen = some a) :
    a.All P Q ↔ opt.AllAdded P Q seen := by
  cases opt with
  | block arg =>
      obtain ⟨b, hb, rfl⟩ := Option.map_eq_some_iff.mp h
      simp only [Opt.AllAdded, hb, Option.mem_def, Option.some.injEq, forall_eq']
      constructor
      · intro h
        exact h.block b (List.mem_singleton_self b)
      · intro h
        refine ⟨fun p hp => ?_, fun b' hb' => ?_⟩
        · cases hp
        · rwa [List.mem_singleton.mp hb']
  | partition arg =>
      obtain ⟨p, hp, rfl⟩ := Option.map_eq_some_iff.mp h
      simp only [Opt.AllAdded, hp, Option.mem_def, Option.some.injEq, forall_eq']
      constructor
      · intro h
        exact ⟨h.part _ (List.mem_singleton_self _), fun hfile => h.block (p.block seen) (by simp [hfile])⟩
      · rintro ⟨hpart, hblock⟩
        refine ⟨fun q hq => ?_, fun b hb => ?_⟩
        · rw [List.mem_singleton.mp hq]
          exact hpart
        · by_cases hfile : p.file = []
          · simp [hfile] at hb
          · obtain rfl : b = p.block seen := by simpa [hfile] using hb
            exact hblock hfile
  | _ =>
      cases h
      refine iff_of_true ⟨?_, ?_⟩ trivial
      · intro p hp
        cases hp
      · intro b hb
        cases hb

theorem all_join (l : List Added) : (Added.join l).All P Q ↔ ∀ a ∈ l, a.All P Q := by
  induction l with
  | nil =>
      refine iff_of_true ⟨?_, ?_⟩ (by simp)
      · intro p hp
        cases hp
      · intro b hb
        cases hb
  | cons a l ih =>
      rw [List.forall_mem_cons, ← ih]
      constructor
      · intro h
        refine ⟨⟨fun p hp => ?_, fun b hb => ?_⟩, ⟨fun p hp => ?_, fun b hb => ?_⟩⟩
        · exact h.part p (List.mem_append_left _ hp)
        · exact h.block b (List.mem_append_left _ hb)
        · exact h.part p (List.mem_append_right _ hp)
        · exact h.block b (List.mem_append_right _ hb)
      · rintro ⟨ha, hl⟩
        refine ⟨fun p hp => ?_, fun b hb => ?_⟩
        · exact (List.mem_append.mp hp).elim (ha.part p) (hl.part p)
        · exact (List.mem_append.mp hb).elim (ha.block b) (hl.block b)

theorem all_added {l : List (UInt32 × Opt)} {as : List Added} (h : added l = some as) :
    (Added.join as).All P Q ↔ ∀ e ∈ l, e.2.AllAdded P Q e.1 := by
  rw [all_join]
  induction l generalizing as with
  | nil =>
      cases h
      simp
  | cons e l ih =>
      rw [added_cons, Option.bind_eq_some_iff] at h
      obtain ⟨a, ha, hrest⟩ := h
      obtain ⟨as, has, rfl⟩ := Option.map_eq_some_iff.mp hrest
      rw [List.forall_mem_cons, List.forall_mem_cons, all_adds ha, ih has]

end

/-- A run is a run of the other options, and what is added. -/
theorem parseOpts_eq_some {opts : List Opt} {st st' : Options} (hroom : st.Room) :
    parseOpts opts st = some st' ↔
      ∃ l side, added (seenBy st.flashSize opts) = some l ∧
        parseOpts (headerOpts opts) st = some side ∧ (side.add (.join l)).Room ∧
          st' = side.add (.join l) := by
  induction opts generalizing st with
  | nil =>
      constructor
      · intro h
        cases h
        exact ⟨[], _, rfl, rfl, by simpa [Added.join] using hroom, by simp [Added.join]⟩
      · rintro ⟨l, side, hl, hside, -, rfl⟩
        cases hl
        cases hside
        simp [Added.join, parseOpts]
  | cons opt opts ih =>
      rw [parseOpts_cons, Option.bind_eq_some_iff]
      cases hopt : opt.isLayout with
      | true =>
          have hheader : headerOpts (opt :: opts) = headerOpts opts := by simp [headerOpts, hopt]
          rw [seenBy, if_pos hopt, added_cons, hheader]
          constructor
          · rintro ⟨st₁, hparse, hrun⟩
            obtain ⟨a, ha, hroom₁, rfl⟩ := (parse_layout hopt hroom).mp hparse
            obtain ⟨l, side, hl, hside, hroom', rfl⟩ := (ih hroom₁).mp hrun
            rw [parseOpts_add fun opt => not_isLayout_of_mem, Option.map_eq_some_iff] at hside
            obtain ⟨side, hside, rfl⟩ := hside
            rw [Options.add_flashSize] at hl
            rw [Options.add_add] at hroom' ⊢
            exact ⟨a :: l, side, by rw [ha, Option.bind_some, hl]; rfl, hside, hroom', rfl⟩
          · rintro ⟨_, side, hall, hside, hroom', rfl⟩
            obtain ⟨a, ha, hrest⟩ := Option.bind_eq_some_iff.mp hall
            obtain ⟨l, hl, rfl⟩ := Option.map_eq_some_iff.mp hrest
            have hjoin : side.add (.join (a :: l)) = (side.add a).add (.join l) :=
              (Options.add_add side a _).symm
            rw [hjoin] at hroom'
            obtain ⟨hparts, hblocks⟩ := parseOpts_header (fun opt => not_isLayout_of_mem) hside
            have hroom₁ : (st.add a).Room := by
              have hfirst := hroom'.of_add
              rwa [Options.Room, Options.add, hparts, hblocks] at hfirst
            refine ⟨st.add a, (parse_layout hopt hroom).mpr ⟨a, ha, hroom₁, rfl⟩, ?_⟩
            refine (ih hroom₁).mpr ⟨l, side.add a, hl, ?_, hroom', hjoin⟩
            rw [parseOpts_add fun opt => not_isLayout_of_mem, hside]
            rfl
      | false =>
          have hheader : headerOpts (opt :: opts) = opt :: headerOpts opts := by
            simp [headerOpts, hopt]
          rw [seenBy, if_neg (by simp [hopt]), hheader, parseOpts_cons]
          constructor
          · rintro ⟨st₁, hparse, hrun⟩
            obtain ⟨hparts, hblocks, hflash⟩ := parse_header hopt hparse
            have hroom₁ : st₁.Room := by rwa [Options.Room, hparts, hblocks]
            obtain ⟨l, side, hl, hside, hroom', rfl⟩ := (ih hroom₁).mp hrun
            rw [hflash] at hl
            exact ⟨l, side, hl, by rw [hparse]; exact hside, hroom', rfl⟩
          · rintro ⟨l, side, hl, hside, hroom', rfl⟩
            obtain ⟨st₁, hparse, hside⟩ := Option.bind_eq_some_iff.mp hside
            obtain ⟨hparts, hblocks, hflash⟩ := parse_header hopt hparse
            have hroom₁ : st₁.Room := by rwa [Options.Room, hparts, hblocks]
            rw [← hflash] at hl
            exact ⟨st₁, hparse, (ih hroom₁).mpr ⟨l, side, hl, hside, hroom', rfl⟩⟩

/-! ## Which commands are accepted -/

/-- The argument of an option can be parsed. -/
def Opt.wellFormed : Opt → Bool
  | .block arg => (blockArg arg).isSome
  | .board arg => (requiredArg arg).isSome && (findBoard arg).isSome
  | .flags arg => (numberArg arg).isSome
  | .id arg => (idArg arg).isSome
  | .partition arg => (partitionArg arg).isSome
  | .rev arg => (numberArg arg).isSome
  | .size arg => (numberArg arg).isSome

def Opt.isBoard : Opt → Bool
  | .board _ => true
  | _ => false

/-- The partitions that an option adds. -/
def Opt.numParts : Opt → Nat
  | .partition _ => 1
  | _ => 0

/-- The blocks that an option adds. -/
def Opt.numBlocks : Opt → Nat
  | .block _ => 1
  | .partition arg => if (partitionArg arg).any (·.file ≠ []) then 1 else 0
  | _ => 0

/-- The flash size in the end. -/
def flashSizeOf (opts : List Opt) : UInt32 := opts.foldl Opt.flashAfter 0

/-- A partition that lies in the flash, if its end does not wrap around. -/
def MyloPartition.Fits (flashSize : UInt32) (p : MyloPartition) : Prop :=
  p.addr ≤ flashSize ∧ p.addr + p.size ≤ flashSize

/-- A block that lies in the flash, if its end does not wrap around, with a file
that is there and no longer than the block. -/
def FwBlock.Fits (fs : Files) (flashSize : UInt32) (b : FwBlock) : Prop :=
  b.addr + b.blocklen ≤ flashSize ∧ ∀ name ∈ b.name, ∃ content ∈ fs name,
    content.length ≤ (if b.blocklen = 0 then flashSize - b.addr else b.blocklen).toNat

/-- The commands that are not refused: every option can be parsed, there are not
too many of them, the board and the flash size are known, and what is added fits. -/
structure Accepted (fs : Files) (opts : List Opt) : Prop where
  wellFormed : ∀ opt ∈ opts, opt.wellFormed = true
  parts : (opts.map Opt.numParts).sum ≤ MYLO_MAX_PARTITIONS
  blocks : (opts.map Opt.numBlocks).sum ≤ MAX_FW_BLOCKS
  board : ∃ opt ∈ opts, opt.isBoard = true
  flash : flashSizeOf opts ≠ 0
  fits : ∀ e ∈ seenBy 0 opts, e.2.AllAdded (·.Fits (flashSizeOf opts)) (·.Fits fs (flashSizeOf opts)) e.1

theorem adds_isSome {opt : Opt} (hopt : opt.isLayout = true) (seen : UInt32) :
    (opt.adds seen).isSome = opt.wellFormed := by
  cases opt with
  | block arg => rw [Opt.adds, Option.isSome_map, Opt.wellFormed]
  | partition arg => rw [Opt.adds, Option.isSome_map, Opt.wellFormed]
  | _ => cases hopt

theorem parse_isSome {opt : Opt} (hopt : opt.isLayout = false) (st : Options) :
    (opt.parse st).isSome = opt.wellFormed := by
  cases opt with
  | block arg => cases hopt
  | partition arg => cases hopt
  | board arg =>
      rw [Opt.parse, parseOptBoard, Option.isSome_map, Opt.wellFormed]
      cases requiredArg arg <;> rfl
  | flags arg => rw [Opt.parse, parseOptFlags, Option.isSome_map, Opt.wellFormed]
  | id arg => rw [Opt.parse, parseOptId, Option.isSome_map, Opt.wellFormed]
  | rev arg => rw [Opt.parse, parseOptRev, Option.isSome_map, Opt.wellFormed]
  | size arg => rw [Opt.parse, parseOptSize, Option.isSome_map, Opt.wellFormed]

theorem added_isSome (seen : UInt32) (opts : List Opt) :
    (added (seenBy seen opts)).isSome ↔ ∀ opt ∈ layoutOpts opts, opt.wellFormed = true := by
  induction opts generalizing seen with
  | nil => exact iff_of_true rfl (by simp [layoutOpts])
  | cons opt opts ih =>
      cases hopt : opt.isLayout with
      | true =>
          have hlayout : layoutOpts (opt :: opts) = opt :: layoutOpts opts := by simp [layoutOpts, hopt]
          rw [seenBy, if_pos hopt, added_cons, hlayout, List.forall_mem_cons, ← ih seen,
            ← adds_isSome hopt seen]
          cases opt.adds seen <;> simp
      | false =>
          have hlayout : layoutOpts (opt :: opts) = layoutOpts opts := by simp [layoutOpts, hopt]
          rw [seenBy, if_neg (by simp [hopt]), hlayout, ih]

/-- How many partitions and blocks are added. -/
theorem added_numbers {seen : UInt32} {opts : List Opt} {as : List Added}
    (h : added (seenBy seen opts) = some as) :
    (Added.join as).parts.length = (opts.map Opt.numParts).sum ∧
      (Added.join as).blocks.length = (opts.map Opt.numBlocks).sum := by
  induction opts generalizing seen as with
  | nil =>
      cases h
      exact ⟨rfl, rfl⟩
  | cons opt opts ih =>
      rw [List.map_cons, List.map_cons, List.sum_cons, List.sum_cons]
      cases hopt : opt.isLayout with
      | true =>
          rw [seenBy, if_pos hopt, added_cons, Option.bind_eq_some_iff] at h
          obtain ⟨a, ha, hrest⟩ := h
          obtain ⟨as, has, rfl⟩ := Option.map_eq_some_iff.mp hrest
          obtain ⟨hparts, hblocks⟩ := ih has
          have hone : a.parts.length = opt.numParts ∧ a.blocks.length = opt.numBlocks := by
            cases opt with
            | block arg =>
                obtain ⟨b, -, rfl⟩ := Option.map_eq_some_iff.mp ha
                exact ⟨rfl, rfl⟩
            | partition arg =>
                obtain ⟨p, hp, rfl⟩ := Option.map_eq_some_iff.mp ha
                refine ⟨rfl, ?_⟩
                by_cases hfile : p.file = [] <;> simp [Opt.numBlocks, hp, hfile]
            | _ => cases hopt
          change (a.parts ++ (Added.join as).parts).length = _ ∧
            (a.blocks ++ (Added.join as).blocks).length = _
          rw [List.length_append, List.length_append, hone.1, hone.2, hparts, hblocks]
          exact ⟨rfl, rfl⟩
      | false =>
          rw [seenBy, if_neg (by simp [hopt])] at h
          have hnone : opt.numParts = 0 ∧ opt.numBlocks = 0 := by
            cases opt with
            | block arg => cases hopt
            | partition arg => cases hopt
            | _ => exact ⟨rfl, rfl⟩
          rw [hnone.1, hnone.2, Nat.zero_add, Nat.zero_add]
          exact ih h

theorem parseOpts_isSome {opts : List Opt} (h : ∀ opt ∈ opts, opt.isLayout = false) (st : Options) :
    (parseOpts opts st).isSome ↔ ∀ opt ∈ opts, opt.wellFormed = true := by
  induction opts generalizing st with
  | nil => exact iff_of_true rfl (by simp)
  | cons opt opts ih =>
      obtain ⟨hopt, hopts⟩ := List.forall_mem_cons.mp h
      rw [parseOpts_cons, List.forall_mem_cons, ← parse_isSome hopt st]
      cases hparse : opt.parse st with
      | none => simp
      | some st' => simpa using ih hopts st'

/-- The board and the flash size behind the other options. -/
theorem parseOpts_known {opts : List Opt} (h : ∀ opt ∈ opts, opt.isLayout = false) {st side : Options}
    (hrun : parseOpts opts st = some side) :
    (side.board.isSome ↔ st.board.isSome ∨ ∃ opt ∈ opts, opt.isBoard = true) ∧
      side.flashSize = opts.foldl Opt.flashAfter st.flashSize := by
  induction opts generalizing st with
  | nil =>
      cases hrun
      exact ⟨by simp, rfl⟩
  | cons opt opts ih =>
      obtain ⟨hopt, hopts⟩ := List.forall_mem_cons.mp h
      obtain ⟨st', hparse, hrest⟩ := Option.bind_eq_some_iff.mp hrun
      obtain ⟨hboard, hflash⟩ := ih hopts hrest
      obtain ⟨-, -, hafter⟩ := parse_header hopt hparse
      have hone : st'.board.isSome ↔ st.board.isSome ∨ opt.isBoard = true := by
        cases opt with
        | block arg => cases hopt
        | partition arg => cases hopt
        | _ =>
            obtain ⟨_, -, rfl⟩ := Option.map_eq_some_iff.mp hparse
            simp [Opt.isBoard]
      rw [hboard, hone, or_assoc, hflash, hafter, List.foldl_cons]
      simp

/-- The options that add something do not change the flash size. -/
theorem flashAfter_layout {opt : Opt} (hopt : opt.isLayout = true) (seen : UInt32) :
    opt.flashAfter seen = seen := by
  cases opt with
  | block arg => rfl
  | partition arg => rfl
  | _ => cases hopt

theorem flashAfter_headerOpts (seen : UInt32) (opts : List Opt) :
    (headerOpts opts).foldl Opt.flashAfter seen = opts.foldl Opt.flashAfter seen := by
  induction opts generalizing seen with
  | nil => rfl
  | cons opt opts ih =>
      cases hopt : opt.isLayout with
      | true =>
          have hheader : headerOpts (opt :: opts) = headerOpts opts := by simp [headerOpts, hopt]
          rw [hheader, ih, List.foldl_cons, flashAfter_layout hopt]
      | false =>
          have hheader : headerOpts (opt :: opts) = opt :: headerOpts opts := by simp [headerOpts, hopt]
          rw [hheader, List.foldl_cons, ih, List.foldl_cons]

theorem processFile_iff {fs : Files} {flashSize : UInt32} {b : FwBlock} :
    (processFile fs flashSize b).isSome ↔ b.Fits fs flashSize := by
  rw [processFile, FwBlock.Fits]
  split
  · rename_i hlarge
    exact iff_of_false (by simp) fun h => absurd hlarge (UInt32.not_lt.mpr h.1)
  rename_i hnotlarge
  rw [and_iff_right (UInt32.not_lt.mp hnotlarge)]
  split
  · rename_i hname
    exact iff_of_true rfl fun name hmem => by rw [hname] at hmem; cases hmem
  · rename_i name hname
    simp only [hname, Option.mem_def, Option.some.injEq, forall_eq']
    cases hcontent : fs name with
    | none => simp
    | some content =>
        simp only [Option.bind_eq_bind, Option.bind_some, Option.some.injEq, exists_eq_left']
        generalize (if b.blocklen = 0 then flashSize - b.addr else b.blocklen) = blocklen
        split
        · rename_i hlong
          exact iff_of_false (by simp) (Nat.not_le.mpr hlong)
        · rename_i hshort
          exact iff_of_true rfl (Nat.not_lt.mp hshort)

theorem processFiles_iff {fs : Files} {flashSize : UInt32} {blocks : List FwBlock} :
    (processFiles fs flashSize blocks).isSome ↔ ∀ b ∈ blocks, b.Fits fs flashSize := by
  induction blocks with
  | nil => exact iff_of_true rfl (by simp)
  | cons b blocks ih =>
      rw [List.forall_mem_cons, ← processFile_iff, ← ih, processFiles, List.mapM_cons]
      change _ ↔ _ ∧ (blocks.mapM (processFile fs flashSize)).isSome
      cases processFile fs flashSize b <;> cases blocks.mapM (processFile fs flashSize) <;> simp

theorem processPartitions_iff {flashSize : UInt32} {parts : List MyloPartition} :
    processPartitions flashSize parts = true ↔ ∀ p ∈ parts, p.Fits flashSize := by
  simp [processPartitions, MyloPartition.Fits]

/-- The part of `main` behind the options refuses nothing but this. -/
theorem makeImage_isSome_iff {fs : Files} {h : FwHeader} {board : CpxBoard} {flashSize : UInt32}
    {parts : List MyloPartition} {blocks : List FwBlock} :
    (makeImage fs h board flashSize parts blocks).isSome ↔
      (parts.length ≤ MYLO_MAX_PARTITIONS ∧ blocks.length ≤ MAX_FW_BLOCKS ∧ flashSize ≠ 0) ∧
        (∀ p ∈ parts, p.Fits flashSize) ∧ ∀ b ∈ blocks, b.Fits fs flashSize := by
  rw [← processPartitions_iff, ← processFiles_iff]
  constructor
  · intro hsome
    rw [makeImage] at hsome
    split at hsome
    · cases hsome
    rename_i hcount
    simp only [not_or, Nat.not_lt, gt_iff_lt] at hcount
    refine ⟨hcount, ?_⟩
    cases hblocks : processFiles fs flashSize blocks with
    | none => simp [hblocks] at hsome
    | some blocks' =>
        refine ⟨?_, rfl⟩
        by_contra hrefused
        rw [Bool.not_eq_true] at hrefused
        simp [hblocks, hrefused] at hsome
  · rintro ⟨⟨hparts, hblocks, hflash⟩, hproc, hfiles⟩
    obtain ⟨blocks', hblocks'⟩ := Option.isSome_iff_exists.mp hfiles
    obtain ⟨file, hfile⟩ := makeImage_isSome h board (by
      rintro (hlt | hlt | hzero)
      · exact absurd hlt (Nat.not_lt.mpr hparts)
      · exact absurd hlt (Nat.not_lt.mpr hblocks)
      · exact hflash hzero) hblocks' hproc
    rw [hfile]
    rfl

theorem start_room : Options.start.Room := ⟨Nat.zero_le _, Nat.zero_le _⟩

theorem mem_split {opts : List Opt} {P : Opt → Prop} :
    (∀ opt ∈ opts, P opt) ↔ (∀ opt ∈ layoutOpts opts, P opt) ∧ ∀ opt ∈ headerOpts opts, P opt := by
  simp only [layoutOpts, headerOpts, List.mem_filter]
  constructor
  · exact fun h => ⟨fun opt hopt => h opt hopt.1, fun opt hopt => h opt hopt.1⟩
  · rintro ⟨hlayout, hheader⟩ opt hopt
    cases hkind : opt.isLayout with
    | true => exact hlayout opt ⟨hopt, hkind⟩
    | false => exact hheader opt ⟨hopt, by simp [hkind]⟩

theorem board_headerOpts {opts : List Opt} :
    (∃ opt ∈ headerOpts opts, opt.isBoard = true) ↔ ∃ opt ∈ opts, opt.isBoard = true := by
  simp only [headerOpts, List.mem_filter]
  constructor
  · rintro ⟨opt, ⟨hopt, -⟩, hboard⟩
    exact ⟨opt, hopt, hboard⟩
  · rintro ⟨opt, hopt, hboard⟩
    refine ⟨opt, ⟨hopt, ?_⟩, hboard⟩
    cases opt with
    | board arg => rfl
    | _ => cases hboard

/-- A command makes an image exactly when its options and files are accepted. -/
theorem mkmylofw_isSome_iff (fs : Files) (opts : List Opt) :
    (mkmylofw fs opts).isSome ↔ Accepted fs opts := by
  have hcases : (mkmylofw fs opts).isSome ↔ ∃ st, parseOpts opts .start = some st ∧
      ∃ board, st.board = some board ∧
        (makeImage fs st.header board.toCpxBoard st.flashSize st.parts st.blocks).isSome := by
    rw [mkmylofw]
    cases parseOpts opts .start with
    | none => simp
    | some st =>
        cases hboard : st.board with
        | none => simp [hboard]
        | some board => simp [hboard]
  rw [hcases]
  constructor
  · rintro ⟨st, hst, board, hboard, himage⟩
    obtain ⟨l, side, hl, hside, -, rfl⟩ := (parseOpts_eq_some start_room).mp hst
    change added (seenBy 0 opts) = some l at hl
    obtain ⟨hknown, hflash⟩ := parseOpts_known (fun opt => not_isLayout_of_mem) hside
    obtain ⟨hpartsNil, hblocksNil⟩ := parseOpts_header (fun opt => not_isLayout_of_mem) hside
    obtain ⟨hparts, hblocks⟩ := added_numbers hl
    have hsize : side.flashSize = flashSizeOf opts := hflash.trans (flashAfter_headerOpts 0 opts)
    obtain ⟨⟨hmaxParts, hmaxBlocks, hzero⟩, hfitParts, hfitBlocks⟩ := makeImage_isSome_iff.mp himage
    simp only [Options.add, hpartsNil, hblocksNil, Options.start, List.nil_append, hparts, hblocks,
      hsize] at hmaxParts hmaxBlocks hzero hfitParts hfitBlocks
    refine ⟨mem_split.mpr ⟨(added_isSome 0 opts).mp (by rw [hl]; rfl),
      (parseOpts_isSome (fun opt => not_isLayout_of_mem) .start).mp (by rw [hside]; rfl)⟩,
      hmaxParts, hmaxBlocks, ?_, hzero, (all_added hl).mp ⟨hfitParts, hfitBlocks⟩⟩
    have hsome : side.board.isSome := by
      change side.board = some board at hboard
      rw [hboard]
      rfl
    exact board_headerOpts.mp ((hknown.mp hsome).resolve_left (by simp [Options.start]))
  · rintro ⟨hwell, hmaxParts, hmaxBlocks, hboard, hzero, hfits⟩
    obtain ⟨hlayout, hheader⟩ := mem_split.mp hwell
    obtain ⟨l, hl⟩ := Option.isSome_iff_exists.mp ((added_isSome 0 opts).mpr hlayout)
    obtain ⟨side, hside⟩ := Option.isSome_iff_exists.mp
      ((parseOpts_isSome (fun opt => not_isLayout_of_mem) .start).mpr hheader)
    obtain ⟨hknown, hflash⟩ := parseOpts_known (fun opt => not_isLayout_of_mem) hside
    obtain ⟨hpartsNil, hblocksNil⟩ := parseOpts_header (fun opt => not_isLayout_of_mem) hside
    obtain ⟨hparts, hblocks⟩ := added_numbers hl
    have hsize : side.flashSize = flashSizeOf opts := hflash.trans (flashAfter_headerOpts 0 opts)
    obtain ⟨board, hsome⟩ := Option.isSome_iff_exists.mp
      (hknown.mpr (Or.inr (board_headerOpts.mpr hboard)))
    have hfitAll := (all_added hl).mpr hfits
    refine ⟨side.add (.join l), (parseOpts_eq_some start_room).mpr ⟨l, side, hl, hside, ?_, rfl⟩,
      board, hsome, makeImage_isSome_iff.mpr ?_⟩
    · simpa only [Options.Room, Options.add, hpartsNil, hblocksNil, Options.start, List.nil_append,
        hparts, hblocks] using And.intro hmaxParts hmaxBlocks
    · simpa only [Options.add, hpartsNil, hblocksNil, Options.start, List.nil_append, hparts, hblocks,
        hsize] using And.intro ⟨hmaxParts, hmaxBlocks, hzero⟩ ⟨hfitAll.part, hfitAll.block⟩

/-! ## The order of the options -/

/-- A partition that is given what is left of the flash. -/
def Opt.unsized : Opt → Bool
  | .partition arg => (partitionArg arg).any (·.size = 0)
  | _ => false

/-- The flash sizes that the partitions without a size see. -/
def unsizedSeen (l : List (UInt32 × Opt)) : List UInt32 := (l.filter (·.2.unsized)).map (·.1)

theorem seenBy_opts (seen : UInt32) (opts : List Opt) :
    (seenBy seen opts).map (·.2) = layoutOpts opts := by
  induction opts generalizing seen with
  | nil => rfl
  | cons opt opts ih =>
      rw [seenBy, layoutOpts, List.filter_cons]
      split
      · rw [List.map_cons, ih, layoutOpts]
      · rw [ih, layoutOpts]

theorem adds_congr {opt : Opt} (h : opt.unsized = false) (seen seen' : UInt32) :
    opt.adds seen = opt.adds seen' := by
  cases opt with
  | partition arg =>
      cases harg : partitionArg arg with
      | none => simp [Opt.adds, harg]
      | some a =>
          have hsize : a.size ≠ 0 := by simpa [Opt.unsized, harg] using h
          simp [Opt.adds, harg, PartitionArg.part, PartitionArg.block, PartitionArg.sized, hsize]
  | _ => rfl

/-- An option adds as much whatever the flash size, but a partition without a
size tells the flash size. -/
theorem adds_same {opt : Opt} {seen seen' : UInt32} {a a' : Added} (h : opt.adds seen = some a)
    (h' : opt.adds seen' = some a') :
    a.parts.length = a'.parts.length ∧ a.blocks.length = a'.blocks.length ∧
      (a.parts = a'.parts → opt.unsized = true → seen = seen') := by
  cases opt with
  | partition arg =>
      obtain ⟨p, hp, rfl⟩ := Option.map_eq_some_iff.mp h
      obtain ⟨p', hp', rfl⟩ := Option.map_eq_some_iff.mp h'
      obtain rfl := Option.some.inj (hp.symm.trans hp')
      refine ⟨rfl, ?_, fun hparts hunsized => ?_⟩
      · split <;> rfl
      · have hsize : p.size = 0 := by simpa [Opt.unsized, hp] using hunsized
        have hsized := congrArg (List.map MyloPartition.size) hparts
        simp only [PartitionArg.part, PartitionArg.sized, hsize, if_true, List.map_cons,
          List.map_nil, List.cons.injEq, and_true] at hsized
        have hadd := congrArg (· + p.addr) hsized
        simpa only [UInt32.sub_add_cancel] using hadd
  | block arg =>
      obtain ⟨_, -, rfl⟩ := Option.map_eq_some_iff.mp h
      obtain ⟨_, -, rfl⟩ := Option.map_eq_some_iff.mp h'
      exact ⟨rfl, rfl, fun _ h => by cases h⟩
  | _ =>
      cases h
      cases h'
      exact ⟨rfl, rfl, fun _ h => by cases h⟩

theorem unsizedSeen_cons (e : UInt32 × Opt) (l : List (UInt32 × Opt)) :
    unsizedSeen (e :: l) = if e.2.unsized then e.1 :: unsizedSeen l else unsizedSeen l := by
  simp only [unsizedSeen, List.filter_cons]
  split <;> rfl

theorem added_congr {l l' : List (UInt32 × Opt)} (hopts : l.map (·.2) = l'.map (·.2))
    (hseen : unsizedSeen l = unsizedSeen l') : added l = added l' := by
  induction l generalizing l' with
  | nil =>
      cases l' with
      | nil => rfl
      | cons e' l' => simp at hopts
  | cons e l ih =>
      cases l' with
      | nil => simp at hopts
      | cons e' l' =>
          obtain ⟨seen, opt⟩ := e
          obtain ⟨seen', opt'⟩ := e'
          obtain ⟨rfl, htail⟩ : opt = opt' ∧ l.map (·.2) = l'.map (·.2) := by simpa using hopts
          rw [unsizedSeen_cons, unsizedSeen_cons] at hseen
          rw [added_cons, added_cons]
          cases hunsized : opt.unsized with
          | true =>
              simp only [hunsized, if_true, List.cons.injEq] at hseen
              rw [hseen.1, ih htail hseen.2]
          | false =>
              simp only [hunsized, Bool.false_eq_true, if_false] at hseen
              rw [adds_congr hunsized seen seen', ih htail hseen]

theorem added_same {l l' : List (UInt32 × Opt)} (hopts : l.map (·.2) = l'.map (·.2))
    {as as' : List Added} (h : added l = some as) (h' : added l' = some as') :
    (Added.join as).parts.length = (Added.join as').parts.length ∧
      (Added.join as).blocks.length = (Added.join as').blocks.length ∧
        ((Added.join as).parts = (Added.join as').parts → unsizedSeen l = unsizedSeen l') := by
  induction l generalizing l' as as' with
  | nil =>
      cases l' with
      | nil =>
          cases h
          cases h'
          exact ⟨rfl, rfl, fun _ => rfl⟩
      | cons e' l' => simp at hopts
  | cons e l ih =>
      cases l' with
      | nil => simp at hopts
      | cons e' l' =>
          obtain ⟨seen, opt⟩ := e
          obtain ⟨seen', opt'⟩ := e'
          obtain ⟨rfl, htail⟩ : opt = opt' ∧ l.map (·.2) = l'.map (·.2) := by simpa using hopts
          rw [added_cons, Option.bind_eq_some_iff] at h h'
          obtain ⟨a, ha, hrest⟩ := h
          obtain ⟨a', ha', hrest'⟩ := h'
          obtain ⟨as, has, rfl⟩ := Option.map_eq_some_iff.mp hrest
          obtain ⟨as', has', rfl⟩ := Option.map_eq_some_iff.mp hrest'
          obtain ⟨hparts, hblocks, htells⟩ := adds_same ha ha'
          obtain ⟨hpartsRest, hblocksRest, hrestTells⟩ := ih htail has has'
          change (a.parts ++ (Added.join as).parts).length = (a'.parts ++ (Added.join as').parts).length ∧
            (a.blocks ++ (Added.join as).blocks).length = (a'.blocks ++ (Added.join as').blocks).length ∧
              (a.parts ++ (Added.join as).parts = a'.parts ++ (Added.join as').parts → _)
          refine ⟨by simp [hparts, hpartsRest], by simp [hblocks, hblocksRest], fun heq => ?_⟩
          obtain ⟨hfirst, hrest⟩ := List.append_inj heq hparts
          rw [unsizedSeen_cons, unsizedSeen_cons, hrestTells hrest]
          split
          · rename_i hunsized
            rw [htells hfirst hunsized]
          · rfl

/-- Images of one shape are equal only if their partitions are. -/
theorem makeImage_parts {fs : Files} {h : FwHeader} {board : CpxBoard} {flashSize : UInt32}
    {parts parts' : List MyloPartition} {blocks blocks' : List FwBlock} {file : List UInt8}
    (hparts : parts.length = parts'.length) (hblocks : blocks.length = blocks'.length)
    (hfile : makeImage fs h board flashSize parts blocks = some file)
    (hfile' : makeImage fs h board flashSize parts' blocks' = some file) : parts = parts' := by
  obtain ⟨hmax, bs, hproc, hlayout⟩ := makeImage_layout hfile
  obtain ⟨hmax', bs', hproc', hlayout'⟩ := makeImage_layout hfile'
  have hempty : parts = [] ↔ parts' = [] := by
    rw [← List.length_eq_zero_iff, ← List.length_eq_zero_iff, hparts]
  by_cases hnil : parts = []
  · rw [hnil, hempty.mp hnil]
  · have hnil' : parts' ≠ [] := fun h => hnil (hempty.mpr h)
    have hdescs : (descsOf board parts bs).length = (descsOf board parts' bs').length := by
      rw [descsOf, descsOf, if_pos hnil, if_pos hnil', List.length_append, List.length_append,
        List.length_map, List.length_map, ← hproc.length_eq, ← hproc'.length_eq, hblocks]
    rw [hlayout, layout, layout] at hlayout'
    obtain ⟨-, hrest⟩ := List.append_inj hlayout' (by rw [h.bytes_length, h.bytes_length])
    rw [descs_unique hdescs hrest] at hrest
    have hitems := List.append_cancel_left (List.append_cancel_left hrest)
    rw [itemsOf, itemsOf, if_pos hnil, if_pos hnil', List.flatten_append, List.flatten_append,
      List.flatten_singleton, List.flatten_singleton] at hitems
    obtain ⟨htable, -⟩ :=
      List.append_inj hitems (by rw [tableBytes_length hmax, tableBytes_length hmax'])
    exact tableBytes_unique hparts htable

/-- The partitions without a size see the same flash size in both orders. -/
def SeeSame (opts opts' : List Opt) : Prop :=
  unsizedSeen (seenBy 0 opts) = unsizedSeen (seenBy 0 opts')

theorem parseOpts_eq_of_seeSame {opts opts' : List Opt} (hlayout : layoutOpts opts = layoutOpts opts')
    (hheader : headerOpts opts = headerOpts opts') (h : SeeSame opts opts') :
    parseOpts opts .start = parseOpts opts' .start := by
  have hadded : added (seenBy 0 opts) = added (seenBy 0 opts') :=
    added_congr (by rw [seenBy_opts, seenBy_opts, hlayout]) h
  refine Option.ext fun st => ?_
  rw [parseOpts_eq_some start_room, parseOpts_eq_some start_room, hheader]
  change (∃ l side, added (seenBy 0 opts) = some l ∧ _) ↔ ∃ l side, added (seenBy 0 opts') = some l ∧ _
  rw [hadded]

theorem seeSame_of_image {fs : Files} {opts opts' : List Opt} {image : List UInt8}
    (hlayout : layoutOpts opts = layoutOpts opts') (hheader : headerOpts opts = headerOpts opts')
    (h : mkmylofw fs opts = some image) (h' : mkmylofw fs opts' = some image) :
    SeeSame opts opts' := by
  simp only [mkmylofw, Option.bind_eq_bind, Option.bind_eq_some_iff] at h h'
  obtain ⟨st, hst, board, hboard, hfile⟩ := h
  obtain ⟨st', hst', board', hboard', hfile'⟩ := h'
  obtain ⟨l, side, hl, hside, -, rfl⟩ := (parseOpts_eq_some start_room).mp hst
  obtain ⟨l', side', hl', hside', -, rfl⟩ := (parseOpts_eq_some start_room).mp hst'
  rw [hheader, hside'] at hside
  cases hside
  cases hboard.symm.trans hboard'
  obtain ⟨hparts, hblocks, htells⟩ :=
    added_same (by rw [seenBy_opts, seenBy_opts, hlayout]) hl hl'
  obtain ⟨hpartsNil, hblocksNil⟩ := parseOpts_header (fun opt => not_isLayout_of_mem) hside'
  have hsame := makeImage_parts (by simp [Options.add, hparts]) (by simp [Options.add, hblocks])
    hfile hfile'
  exact htells (List.append_cancel_left hsame)

/-- Two orders of the options give the same image, or none, exactly when the
partitions without a size see the same flash size, or when something else is
wrong with the options or the files in both orders. -/
theorem mkmylofw_order_iff (fs : Files) {opts opts' : List Opt}
    (hlayout : layoutOpts opts = layoutOpts opts') (hheader : headerOpts opts = headerOpts opts') :
    mkmylofw fs opts = mkmylofw fs opts' ↔
      SeeSame opts opts' ∨ ¬ Accepted fs opts ∧ ¬ Accepted fs opts' := by
  rw [← mkmylofw_isSome_iff, ← mkmylofw_isSome_iff, Option.not_isSome_iff_eq_none,
    Option.not_isSome_iff_eq_none]
  constructor
  · intro heq
    cases himage : mkmylofw fs opts with
    | none => exact .inr ⟨rfl, heq ▸ himage⟩
    | some image => exact .inl (seeSame_of_image hlayout hheader himage (heq ▸ himage))
  · rintro (hseen | ⟨hnone, hnone'⟩)
    · rw [mkmylofw, mkmylofw, parseOpts_eq_of_seeSame hlayout hheader hseen]
    · rw [hnone, hnone']

def noFiles : Files := fun _ => none

/-- `-B WP54G`. -/
def wp54g : Opt := .board ['W', 'P', '5', '4', 'G']

/-- `-p 0x10000:0`. -/
def restOfFlash : Opt := .partition ['0', 'x', '1', '0', '0', '0', '0', ':', '0']

/-- `-p 0x10000:0x1000`. -/
def sizedPartition : Opt :=
  .partition ['0', 'x', '1', '0', '0', '0', '0', ':', '0', 'x', '1', '0', '0', '0']

/-- A partition with a size may stand on either side of the board. -/
theorem mkmylofw_order_sizedPartition :
    mkmylofw noFiles [sizedPartition, wp54g] = mkmylofw noFiles [wp54g, sizedPartition] :=
  (mkmylofw_order_iff noFiles (by decide) (by decide)).mpr (.inl (by unfold SeeSame; decide +kernel))

/-- In front of the board, the rest of the flash is 4 GiB less its address. -/
theorem restOfFlash_order :
    mkmylofw noFiles [restOfFlash, wp54g] ≠ mkmylofw noFiles [wp54g, restOfFlash] := by
  intro heq
  have haccepted : (mkmylofw noFiles [restOfFlash, wp54g]).isSome = true := by decide +kernel
  obtain ⟨image, himage⟩ := Option.isSome_iff_exists.mp haccepted
  have hseen := seeSame_of_image (by decide) (by decide) himage (heq ▸ himage)
  have hleft : unsizedSeen (seenBy 0 [restOfFlash, wp54g]) = [0] := by decide +kernel
  have hright : unsizedSeen (seenBy 0 [wp54g, restOfFlash]) = [0x400000] := by decide +kernel
  rw [SeeSame, hleft, hright] at hseen
  cases hseen

/-! ## Bounds -/

/-- Partitions and blocks end with the flash at the latest, and no block
announces more data than it is long. -/
structure InBounds (flashSize : UInt32) (parts : List MyloPartition) (blocks : List FwBlock) :
    Prop where
  part : ∀ p ∈ parts, p.addr.toNat + p.size.toNat ≤ flashSize.toNat
  block : ∀ b ∈ blocks, b.addr.toNat + b.blocklen.toNat ≤ flashSize.toNat
  desc : ∀ b ∈ blocks, (descOf b).dlen ≤ (descOf b).blen

/-- The file with its header, rounded up to 4 bytes, is no longer than the block. -/
def HasRoom (fs : Files) (flashSize : UInt32) (b : FwBlock) : Prop :=
  ∀ name ∈ b.name, ∀ content ∈ fs name, (content.length + hdrLen b + 3) % 2 ^ 32 / 4 * 4 ≤
    (if b.blocklen = 0 then flashSize - b.addr else b.blocklen).toNat

/-- The condition on an option that sees the flash size `seen`. -/
def Opt.InFlash (fs : Files) (flashSize seen : UInt32) : Opt → Prop
  | .block arg => ∀ b ∈ blockArg arg,
      b.addr.toNat + b.blocklen.toNat < 2 ^ 32 ∧ HasRoom fs flashSize b
  | .partition arg => ∀ a ∈ partitionArg arg,
      (if a.size = 0 then a.addr ≤ seen else a.addr.toNat + a.size.toNat < 2 ^ 32) ∧
        (a.file ≠ [] → HasRoom fs flashSize (a.block seen))
  | _ => True

/-- A sum that was not too large as a word is not too large, unless it wrapped. -/
theorem sum_le_iff {a b limit : UInt32} (h : a + b ≤ limit) :
    a.toNat + b.toNat ≤ limit.toNat ↔ a.toNat + b.toNat < 2 ^ 32 := by
  have hlimit := limit.toNat_lt
  have hword := UInt32.le_iff_toNat_le.mp h
  rw [UInt32.toNat_add] at hword
  omega

theorem sized_iff (a : PartitionArg) (seen : UInt32) :
    a.addr.toNat + (a.sized seen).toNat < 2 ^ 32 ↔
      if a.size = 0 then a.addr ≤ seen else a.addr.toNat + a.size.toNat < 2 ^ 32 := by
  unfold PartitionArg.sized
  split
  · have haddr := a.addr.toNat_lt
    have hseen := seen.toNat_lt
    rw [UInt32.toNat_sub, UInt32.le_iff_toNat_le]
    omega
  · rfl

/-- Nothing that is added reaches over the end of the address space, and the
blocks have room for their files. -/
theorem inFlash_iff {fs : Files} {flashSize seen : UInt32} {opt : Opt} :
    opt.AllAdded (fun p => p.addr.toNat + p.size.toNat < 2 ^ 32)
      (fun b => b.addr.toNat + b.blocklen.toNat < 2 ^ 32 ∧ HasRoom fs flashSize b) seen ↔
      opt.InFlash fs flashSize seen := by
  cases opt with
  | partition arg =>
      refine forall₂_congr fun a _ => ?_
      rw [← sized_iff]
      exact and_congr_right fun hpart =>
        forall_congr' fun _ => ⟨fun hblock => hblock.2, fun hroom => ⟨hpart, hroom⟩⟩
  | _ => rfl

/-- What a block that `process_files` accepts is in the end. -/
theorem processFile_bounds {fs : Files} {flashSize : UInt32} {b b' : FwBlock}
    (h : processFile fs flashSize b = some b') :
    (b'.addr.toNat + b'.blocklen.toNat ≤ flashSize.toNat ∧ (descOf b').dlen ≤ (descOf b').blen) ↔
      b.addr.toNat + b.blocklen.toNat < 2 ^ 32 ∧ HasRoom fs flashSize b := by
  have hproc := processed_of_processFile h
  rw [processFile] at h
  split at h
  · cases h
  rename_i hnotlarge
  have hsum := sum_le_iff (UInt32.not_lt.mp hnotlarge)
  split at h
  · rename_i hname
    obtain rfl := Option.some.inj h
    obtain ⟨hflags, hsize⟩ := b.bare hname
    refine and_congr hsum (iff_of_true ?_ ?_)
    · simp [descOf, hflags, hsize]
    · intro name hmem
      rw [hname] at hmem
      cases hmem
  · rename_i name hname
    simp only [Option.bind_eq_bind, Option.bind_eq_some_iff] at h
    obtain ⟨content, hcontent, h⟩ := h
    have hdlen := descOf_dlen_toNat hproc hname hcontent
    generalize hlen : (if b.blocklen = 0 then flashSize - b.addr else b.blocklen) = blocklen at h
    split at h
    · cases h
    obtain rfl := Option.some.inj h
    refine and_congr ?_ ?_
    · by_cases hzero : b.blocklen = 0
      · -- The rest of the flash ends with the flash.
        have haddr := b.addr.toNat_lt
        have hle : b.addr.toNat ≤ flashSize.toNat := by
          rw [hzero, UInt32.add_zero] at hnotlarge
          exact UInt32.le_iff_toNat_le.mp (UInt32.not_lt.mp hnotlarge)
        rw [if_pos hzero] at hlen
        have hrest : (flashSize - b.addr).toNat = flashSize.toNat - b.addr.toNat :=
          UInt32.toNat_sub_of_le _ _ (UInt32.le_iff_toNat_le.mpr hle)
        rw [← hlen]
        change b.addr.toNat + (flashSize - b.addr).toNat ≤ flashSize.toNat ↔ _
        rw [hrest, hzero, UInt32.toNat_zero]
        omega
      · rw [if_neg hzero] at hlen
        rw [← hlen]
        exact hsum
    · rw [UInt32.le_iff_toNat_le, hdlen]
      simp only [HasRoom, hname, hcontent, Option.mem_def, Option.some.injEq, forall_eq', hlen]
      rfl

theorem processFiles_bounds {fs : Files} {flashSize : UInt32} {blocks blocks' : List FwBlock}
    (h : processFiles fs flashSize blocks = some blocks') :
    (∀ b ∈ blocks', b.addr.toNat + b.blocklen.toNat ≤ flashSize.toNat ∧
      (descOf b).dlen ≤ (descOf b).blen) ↔
        ∀ b ∈ blocks, b.addr.toNat + b.blocklen.toNat < 2 ^ 32 ∧ HasRoom fs flashSize b := by
  induction blocks generalizing blocks' with
  | nil =>
      obtain rfl : [] = blocks' := by simpa [processFiles] using h
      simp
  | cons b blocks ih =>
      simp only [processFiles, List.mapM_cons, Option.bind_eq_bind, Option.bind_eq_some_iff,
        Option.pure_def, Option.some.injEq] at h
      obtain ⟨b', hb', rest, hrest, rfl⟩ := h
      rw [List.forall_mem_cons, List.forall_mem_cons, processFile_bounds hb', ih hrest]

theorem processPartitions_bounds {flashSize : UInt32} {parts : List MyloPartition}
    (h : processPartitions flashSize parts = true) :
    (∀ p ∈ parts, p.addr.toNat + p.size.toNat ≤ flashSize.toNat) ↔
      ∀ p ∈ parts, p.addr.toNat + p.size.toNat < 2 ^ 32 := by
  refine forall₂_congr fun p hp => sum_le_iff ?_
  have hall := List.all_eq_true.mp h p hp
  rw [Bool.and_eq_true, decide_eq_true_eq, decide_eq_true_eq] at hall
  exact hall.2

/-- The checks that an accepted command has passed. -/
theorem processPartitions_of_image {fs : Files} {opts : List Opt} {st : Options} {blocks : List FwBlock}
    (haccepted : (mkmylofw fs opts).isSome = true) (hparse : parseOpts opts .start = some st)
    (hblocks : processFiles fs st.flashSize st.blocks = some blocks) :
    processPartitions st.flashSize st.parts = true := by
  obtain ⟨image, himage⟩ := Option.isSome_iff_exists.mp haccepted
  simp only [mkmylofw, hparse, Option.bind_eq_bind, Option.bind_some, Option.bind_eq_some_iff] at himage
  obtain ⟨board, -, himage⟩ := himage
  rw [makeImage] at himage
  split at himage
  · cases himage
  · simp only [hblocks, Option.bind_eq_bind, Option.bind_some] at himage
    by_contra hrefused
    simp [hrefused] at himage

/-- The partitions and blocks of an accepted command are in their bounds exactly
when no option has a sum that wraps, and the files fit with their headers. -/
theorem inBounds_iff {fs : Files} {opts : List Opt} {st : Options} {blocks : List FwBlock}
    (haccepted : (mkmylofw fs opts).isSome = true) (hparse : parseOpts opts .start = some st)
    (hblocks : processFiles fs st.flashSize st.blocks = some blocks) :
    InBounds st.flashSize st.parts blocks ↔
      ∀ e ∈ seenBy 0 opts, e.2.InFlash fs st.flashSize e.1 := by
  have hparted := processPartitions_of_image haccepted hparse hblocks
  obtain ⟨l, side, hl, hside, -, rfl⟩ := (parseOpts_eq_some start_room).mp hparse
  obtain ⟨hparts, hblocksNil⟩ := parseOpts_header (fun opt => not_isLayout_of_mem) hside
  have hjoinParts : (side.add (.join l)).parts = (Added.join l).parts := by
    simp [Options.add, hparts, Options.start]
  have hjoinBlocks : (side.add (.join l)).blocks = (Added.join l).blocks := by
    simp [Options.add, hblocksNil, Options.start]
  have hpartsIn := processPartitions_bounds hparted
  have hblocksIn := processFiles_bounds hblocks
  rw [hjoinParts] at hpartsIn
  rw [hjoinBlocks] at hblocksIn
  change added (seenBy 0 opts) = some l at hl
  simp only [← inFlash_iff]
  rw [← all_added hl]
  constructor
  · rintro ⟨hpart, hblock, hdesc⟩
    rw [hjoinParts] at hpart
    exact ⟨hpartsIn.mp hpart, hblocksIn.mp fun b hb => ⟨hblock b hb, hdesc b hb⟩⟩
  · rintro ⟨hpart, hblock⟩
    have hall := hblocksIn.mpr hblock
    refine ⟨?_, fun b hb => (hall b hb).1, fun b hb => (hall b hb).2⟩
    rw [hjoinParts]
    exact hpartsIn.mpr hpart

/-- `-b 0x20000:8::f`. -/
def fileInBlock : Opt :=
  .block ['0', 'x', '2', '0', '0', '0', '0', ':', '8', ':', ':', 'f']

/-- A file of five bytes. -/
def fiveBytes : Files := fun name => if name = ['f'] then some [1, 2, 3, 4, 5] else none

theorem inBounds_fileInBlock : ∃ st blocks, parseOpts [wp54g, fileInBlock] .start = some st ∧
    processFiles fiveBytes st.flashSize st.blocks = some blocks ∧
      (InBounds st.flashSize st.parts blocks ↔
        ∀ e ∈ seenBy 0 [wp54g, fileInBlock], e.2.InFlash fiveBytes st.flashSize e.1) := by
  have haccepted : (mkmylofw fiveBytes [wp54g, fileInBlock]).isSome = true := by decide +kernel
  have hparsed : (parseOpts [wp54g, fileInBlock] .start).isSome = true := by decide +kernel
  obtain ⟨st, hst⟩ := Option.isSome_iff_exists.mp hparsed
  have hprocessed : ((parseOpts [wp54g, fileInBlock] .start).bind fun st =>
      processFiles fiveBytes st.flashSize st.blocks).isSome = true := by decide +kernel
  obtain ⟨blocks, hblocks⟩ := Option.isSome_iff_exists.mp hprocessed
  rw [hst, Option.bind_some] at hblocks
  exact ⟨st, blocks, hst, hblocks, inBounds_iff haccepted hst hblocks⟩

/-- `-p 0x10000:0xFFFFFFF0`. -/
def wrapping : Opt :=
  .partition ['0', 'x', '1', '0', '0', '0', '0', ':', '0', 'x', 'F', 'F', 'F', 'F', 'F', 'F', 'F', '0']

/-- The partition ends 4 GiB above the address where the check sees its end. -/
theorem not_inBounds_wrapping : (mkmylofw noFiles [wp54g, wrapping]).isSome = true ∧
    ∃ st, parseOpts [wp54g, wrapping] .start = some st ∧
      ∀ blocks, ¬InBounds st.flashSize st.parts blocks := by
  refine ⟨by decide +kernel, ?_⟩
  have hparsed : (parseOpts [wp54g, wrapping] .start).map (fun st => (st.flashSize, st.parts)) =
      some (0x400000, [⟨0, 0x10000, 0xFFFFFFF0, 0⟩]) := by decide +kernel
  obtain ⟨st, hst, hfields⟩ := Option.map_eq_some_iff.mp hparsed
  obtain ⟨hflash, hparts⟩ := Prod.mk.inj hfields
  refine ⟨st, hst, fun blocks hin => ?_⟩
  have hend := hin.part ⟨0, 0x10000, 0xFFFFFFF0, 0⟩ (by simp [hparts])
  rw [hflash] at hend
  simp at hend

end UbntSdk.Images.Mylofw
