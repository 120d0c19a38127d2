/-
UbntSdk.Images.Fwimage — the partition plan of `firmware-utils`
(`mkfwimage.c`).

`create_image_layout` places the kernel at the start of the board's
firmware area and gives the rest to the root file system. Both files are
measured by `filelength`, which answers -1 for a file that cannot be
opened; all sums are 32-bit words. `part_data_t` and
`validate_image_layout` are those of `ubnt-mkfwimage.c`, line for line, and
are taken from `UbntSdk.Firmware.Image`.

`plan_iff` says which accepted plans are right: those for a board of the
table whose kernel can be opened and fits the area. The loop over the table
ends on its empty last entry, and nothing rejects that entry.
-/
import UbntSdk.Firmware.ImageTheorems

namespace UbntSdk.Images

open UbntSdk.Lib UbntSdk.Firmware

/-! ## The boards -/

/-- A character string constant. -/
def literal (cs : List Char) : CStr := CStr.ofBytes (cs.map fun c => UInt8.ofNat c.toNat)

/-- `fw_layout_t`. -/
structure FwLayout where
  name : CStr
  kernStart : UInt32
  kernEntry : UInt32
  firmwareMaxLength : UInt32
  deriving DecidableEq

/-- `fw_layout_data`, with its empty last entry. -/
def fwLayoutData : List FwLayout :=
  [{ name := literal ['X', 'S', '2'], kernStart := 0xbfc30000,
     kernEntry := 0x80041000, firmwareMaxLength := 0x00390000 },
   { name := literal ['X', 'S', '5'], kernStart := 0xbe030000,
     kernEntry := 0x80041000, firmwareMaxLength := 0x00390000 },
   { name := literal ['R', 'S'], kernStart := 0xbf030000,
     kernEntry := 0x80060000, firmwareMaxLength := 0x00640000 },
   { name := literal ['L', 'S', '-', 'S', 'R', '7', '1'], kernStart := 0xbf030000,
     kernEntry := 0x80060000, firmwareMaxLength := 0x00640000 },
   { name := literal ['X', 'S', '2', '-', '8'], kernStart := 0xa8030000,
     kernEntry := 0x80041000, firmwareMaxLength := 0x006C0000 },
   { name := literal [], kernStart := 0, kernEntry := 0, firmwareMaxLength := 0 }]

/-- Whether `strncmp(s, t, n)` is 0: the first `n` characters are the same,
or all up to and with the terminator. -/
def strncmpEq (s t : CStr) (n : Nat) : Bool := s.bytesZ.take n == t.bytesZ.take n

/-- The loop over the table. `n` is `sizeof(board_name)`, the size of a
pointer: `board_name` is a parameter, not an array. `none` is a walk past
the end of the table. -/
def findLayout (board : CStr) (n : Nat) : List FwLayout → Option FwLayout
  | [] => none
  | p :: rest =>
      if p.name.strlen ≠ 0 ∧ strncmpEq p.name board n = false then findLayout board n rest
      else some p

/-! ## The plan -/

def PATH_MAX : Nat := 4096

/-- What a `char[PATH_MAX]` array holds. -/
structure Path where
  str : CStr
  fits : str.strlen < PATH_MAX
  deriving DecidableEq

/-- `filelength`: the length from `ftell` as an `int`, then as the
`u_int32_t` it returns; -1 if the file cannot be opened. -/
def filelength (env : Env) (file : Path) : UInt32 :=
  match env.content file.str with
  | none => 0xFFFFFFFF
  | some data => if env.openFails file.str then 0xFFFFFFFF else UInt32.ofNat data.length

/-- The stores through `kernel`. The copy of a file name into another
array of the same size is the whole name. -/
def kernelPart (env : Env) (p : FwLayout) (kernelfile : Path) : PartData where
  partitionName := literal ['k', 'e', 'r', 'n', 'e', 'l']
  partitionIndex := 1
  partitionBaseaddr := p.kernStart
  partitionLength := filelength env kernelfile
  partitionMemaddr := p.kernEntry
  partitionEntryaddr := p.kernEntry
  filename := kernelfile.str
  stSize := 0

/-- The stores through `rootfs`. -/
def rootfsPart (p : FwLayout) (kernel : PartData) (rootfsfile : Path) : PartData where
  partitionName := literal ['r', 'o', 'o', 't', 'f', 's']
  partitionIndex := 2
  partitionBaseaddr := kernel.partitionBaseaddr + kernel.partitionLength
  partitionLength := p.firmwareMaxLength - kernel.partitionLength
  partitionMemaddr := 0
  partitionEntryaddr := 0
  filename := rootfsfile.str
  stSize := 0

/-- `create_image_layout`: the error code, or the layout with its two
parts; `none` is a read past the table. The first test compares an unsigned
length with 0. -/
def createImageLayout (env : Env) (n : Nat) (version : CStr) (kernelfile rootfsfile : Path)
    (board : CStr) : Option (Except Int ImageInfo) := do
  let p ← findLayout board n fwLayoutData
  let kernel := kernelPart env p kernelfile
  if kernel.partitionLength < 0 then return .error (-1)
  else if filelength env rootfsfile + kernel.partitionLength > p.firmwareMaxLength then
    return .error (-2)
  else return .ok { version, parts := [kernel, rootfsPart p kernel rootfsfile] }

/-- `main` after the options: the layout is created and then validated. -/
def plan (env : Env) (n : Nat) (version : CStr) (kernelfile rootfsfile : Path) (board : CStr) :
    Option (Except Int ImageInfo) := do
  match ← createImageLayout env n version kernelfile rootfsfile board with
  | .error e => return .error e
  | .ok im => return validateImageLayout env im

/-! ## What a plan must be -/

/-- The table has this layout for the board. -/
def Listed (board : CStr) (p : FwLayout) : Prop :=
  p ∈ fwLayoutData ∧ p.name = board ∧ p.name.strlen ≠ 0

/-- Kernel and root file system share the firmware area of `p`, and each
file fits its partition. All sums are sums of integers. -/
structure PlanOk (p : FwLayout) (kernel rootfs : PartData) : Prop where
  base : kernel.partitionBaseaddr = p.kernStart
  adjacent : kernel.partitionBaseaddr.toNat + kernel.partitionLength.toNat
    = rootfs.partitionBaseaddr.toNat
  inside : rootfs.partitionBaseaddr.toNat + rootfs.partitionLength.toNat
    ≤ p.kernStart.toNat + p.firmwareMaxLength.toNat
  noWrap : p.kernStart.toNat + p.firmwareMaxLength.toNat ≤ 2 ^ 32
  kernelFits : kernel.stSize ≤ kernel.partitionLength.toNat
  rootfsFits : rootfs.stSize ≤ rootfs.partitionLength.toNat

/-- The board is known, and the two parts are a plan for it. -/
def PlanSound (board : CStr) (im : ImageInfo) : Prop :=
  ∃ p kernel rootfs, Listed board p ∧ im.parts = [kernel, rootfs] ∧ PlanOk p kernel rootfs

/-- The kernel can be opened, and fits the firmware area. -/
def KernelFits (env : Env) (kernelfile : Path) (p : FwLayout) : Prop :=
  env.openFails kernelfile.str = false ∧
    ((env.content kernelfile.str).getD []).length ≤ p.firmwareMaxLength.toNat

/-! ## The table -/

theorem strncmpEq_mono {s t : CStr} {m n : Nat} (h : strncmpEq s t n = true) (hmn : m ≤ n) :
    strncmpEq s t m = true := by
  rw [strncmpEq, beq_iff_eq] at h ⊢
  have hcut := congrArg (List.take m) h
  rwa [List.take_take, List.take_take, Nat.min_eq_left hmn] at hcut

theorem strncmpEq_self (s : CStr) (n : Nat) : strncmpEq s s n = true := by
  simp [strncmpEq]

/-- A listed board is found, on hosts with pointers of 4 bytes and more:
the names differ in their first four characters. -/
theorem findLayout_listed {board : CStr} {p : FwLayout} {n : Nat} (h : Listed board p)
    (hn : 4 ≤ n) : findLayout board n fwLayoutData = some p := by
  obtain ⟨hmem, rfl, hne⟩ := h
  have hdiff : ∀ q ∈ fwLayoutData, ∀ q' ∈ fwLayoutData,
      strncmpEq q.name q'.name 4 = true → q = q' := by decide
  have hfind : ∀ l : List FwLayout, (∀ q ∈ l, q ∈ fwLayoutData) → p ∈ l →
      (∀ q ∈ l.takeWhile (· ≠ p), q.name.strlen ≠ 0) → findLayout p.name n l = some p := by
    intro l
    induction l with
    | nil => intro _ hp; cases hp
    | cons q rest ih =>
        intro hl hp hnames
        by_cases hqp : q = p
        · subst hqp
          rw [findLayout, if_neg]
          rw [strncmpEq_self]
          simp
        · have hstr : strncmpEq q.name p.name n = false := by
            by_contra heq
            rw [Bool.not_eq_false] at heq
            exact hqp (hdiff q (hl q (by simp)) p hmem (strncmpEq_mono heq hn))
          rw [List.takeWhile_cons_of_pos (by simpa using hqp)] at hnames
          rw [findLayout, if_pos ⟨hnames q (by simp), hstr⟩]
          refine ih (fun x hx => hl x (by simp [hx])) ?_
            fun x hx => hnames x (List.mem_cons_of_mem _ hx)
          rcases List.mem_cons.mp hp with rfl | hp
          · exact absurd rfl hqp
          · exact hp
  have hnames : ∀ p ∈ fwLayoutData, p.name.strlen ≠ 0 →
      ∀ q ∈ fwLayoutData.takeWhile (· ≠ p), q.name.strlen ≠ 0 := by decide
  exact hfind fwLayoutData (fun q hq => hq) hmem (hnames p hmem hne)

/-- Every area lies below the top of the address space. -/
theorem area_below : ∀ p ∈ fwLayoutData,
    p.kernStart.toNat + p.firmwareMaxLength.toNat < 2 ^ 32 - 1 := by decide

/-! ## Accepted plans -/

/-- What an accepted plan is made of. -/
theorem plan_accepted {env : Env} {n : Nat} {version board : CStr} {kernelfile rootfsfile : Path}
    {im : ImageInfo} (h : plan env n version kernelfile rootfsfile board = some (.ok im)) :
    ∃ p k r, findLayout board n fwLayoutData = some p ∧
      im.parts = [{ kernelPart env p kernelfile with stSize := k },
        { rootfsPart p (kernelPart env p kernelfile) rootfsfile with stSize := r }] ∧
      ∀ d ∈ im.parts, ValidPart env d := by
  cases hp : findLayout board n fwLayoutData with
  | none => simp [plan, createImageLayout, hp] at h
  | some p =>
      by_cases hbig : filelength env rootfsfile + (kernelPart env p kernelfile).partitionLength
          > p.firmwareMaxLength
      · simp [plan, createImageLayout, hp, hbig] at h
      · have hval : validateImageLayout env
            { version, parts := [kernelPart env p kernelfile,
                rootfsPart p (kernelPart env p kernelfile) rootfsfile] } = .ok im := by
          simpa [plan, createImageLayout, hp, hbig] using h
        obtain ⟨_, _, hv⟩ := validateImageLayout_ok hval
        refine ⟨p, ?_⟩
        simp only [validateImageLayout, List.mapM_cons, List.mapM_nil] at hval
        cases hk : validatePart env (kernelPart env p kernelfile) with
        | error e => rw [hk] at hval; cases hval
        | ok k =>
            cases hr : validatePart env (rootfsPart p (kernelPart env p kernelfile) rootfsfile) with
            | error e => rw [hk, hr] at hval; cases hval
            | ok r =>
                rw [hk, hr] at hval
                cases hval
                refine ⟨k.stSize, r.stSize, rfl, ?_, hv⟩
                simp only [List.cons.injEq, and_true]
                exact ⟨validatePart_fields hk, validatePart_fields hr⟩

/-- An accepted plan is a plan for its board exactly when the table has the
board, the kernel file can be opened and the kernel fits the area. -/
theorem plan_iff {env : Env} {n : Nat} (hn : 4 ≤ n) {version board : CStr}
    {kernelfile rootfsfile : Path} {im : ImageInfo}
    (h : plan env n version kernelfile rootfsfile board = some (.ok im)) :
    PlanSound board im ↔ ∃ p, Listed board p ∧ KernelFits env kernelfile p := by
  obtain ⟨p, k, r, hfind, hparts, hv⟩ := plan_accepted h
  have hkernel := hv { kernelPart env p kernelfile with stSize := k } (by simp [hparts])
  have hrootfs := hv { rootfsPart p (kernelPart env p kernelfile) rootfsfile with stSize := r }
    (by simp [hparts])
  -- the kernel's file is there, and as long as its stat says
  have hfile : env.content kernelfile.str = some (partData env (kernelPart env p kernelfile)) :=
    hkernel.exists_file
  have hsize : (partData env (kernelPart env p kernelfile)).length = k := hkernel.data_length
  have hkle : k ≤ (filelength env kernelfile).toNat := hkernel.data_le
  have hlen : env.openFails kernelfile.str = false → (filelength env kernelfile).toNat = k := by
    intro hopen
    have hk : k < 2 ^ 32 := Nat.lt_of_le_of_lt hkle (filelength env kernelfile).toNat_lt
    simp only [filelength, hfile, hopen, Bool.false_eq_true, if_false, hsize]
    exact UInt32.toNat_ofNat_of_lt' hk
  constructor
  · rintro ⟨q, kernel, rootfs, hlisted, hparts', hok⟩
    rw [hparts] at hparts'
    cases hparts'
    have hq := findLayout_listed hlisted hn
    rw [hfind] at hq
    cases hq
    have hfits : (filelength env kernelfile).toNat ≤ p.firmwareMaxLength.toNat := by
      have hadj := hok.adjacent
      have hin := hok.inside
      simp only [kernelPart] at hadj hin
      omega
    refine ⟨p, hlisted, ?_⟩
    have hopen : env.openFails kernelfile.str = false := by
      by_contra hfail
      rw [Bool.not_eq_false] at hfail
      have hmax := area_below p hlisted.1
      have hminus : (filelength env kernelfile).toNat = 2 ^ 32 - 1 := by
        simp only [filelength, hfile, hfail, if_true]
        rfl
      omega
    refine ⟨hopen, ?_⟩
    rw [hfile, Option.getD_some, hsize, ← hlen hopen]
    exact hfits
  · rintro ⟨q, hlisted, hopen, hfits⟩
    have hq := findLayout_listed hlisted hn
    rw [hfind] at hq
    cases hq
    rw [hfile, Option.getD_some, hsize] at hfits
    have harea := area_below p hlisted.1
    have hk := hlen hopen
    refine ⟨p, _, _, hlisted, hparts, rfl, ?_, ?_, by omega, hkernel.data_le, hrootfs.data_le⟩
    · simp only [kernelPart, rootfsPart, UInt32.toNat_add]
      omega
    · simp only [kernelPart, rootfsPart, UInt32.toNat_add]
      rw [UInt32.toNat_sub_of_le _ _ (UInt32.le_iff_toNat_le.mpr (by omega))]
      omega

/-! ## A kernel that cannot be opened -/

/-- Every file has one byte; those of `locked` cannot be opened. -/
def smallFilesEnv (locked : CStr → Bool) : Env where
  content := fun _ => some [0x2a]
  openFails := locked
  mmapFails := fun _ => false
  callocFails := fun _ => false
  fopenFails := false
  fwriteStops := none

def kernelPath : Path := ⟨literal ['k'], by decide⟩

def rootfsPath : Path := ⟨literal ['r'], by decide⟩

def boardXS2 : CStr := literal ['X', 'S', '2']

theorem plan_iff_small :
    4 ≤ 8 ∧ ∃ im, plan (smallFilesEnv fun _ => false) 8 (literal []) kernelPath rootfsPath boardXS2
      = some (.ok im) ∧ PlanSound boardXS2 im := by
  have hlisted : Listed boardXS2 (fwLayoutData.head (by decide)) := ⟨by decide, rfl, by decide⟩
  have hfits : KernelFits (smallFilesEnv fun _ => false) kernelPath
      (fwLayoutData.head (by decide)) := ⟨rfl, by decide⟩
  have hplan : ∃ im, plan (smallFilesEnv fun _ => false) 8 (literal []) kernelPath rootfsPath
      boardXS2 = some (.ok im) := ⟨_, rfl⟩
  obtain ⟨im, hplan⟩ := hplan
  exact ⟨by decide, im, hplan, (plan_iff (by decide) hplan).mpr ⟨_, hlisted, hfits⟩⟩

/-- The length -1 of a kernel that cannot be opened is accepted: the kernel
partition runs over the end of the address space. -/
theorem plan_lockedKernel :
    ∃ im, plan (smallFilesEnv (· == kernelPath.str)) 8 (literal []) kernelPath rootfsPath boardXS2
      = some (.ok im) ∧ ¬PlanSound boardXS2 im := by
  refine ⟨_, rfl, ?_⟩
  rintro ⟨p, kernel, rootfs, _, hparts, hok⟩
  cases hparts
  exact absurd hok.adjacent (by decide)

end UbntSdk.Images
