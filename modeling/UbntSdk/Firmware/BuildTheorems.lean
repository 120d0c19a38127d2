/-
UbntSdk.Firmware.BuildTheorems — when `build_image` keeps its promises.

Two promises, for every layout `validate_image_layout` accepted. The
buffer has the exact size of the image and holds every store
(`SizeSound`); and an image is left exactly when the tool succeeds, with
every record in it (`AllOrNothing`).

Both end at 4 GiB: `memSize` is a 32-bit sum. The second one also ends at
a part that cannot be read: `build_image` drops the return code of
`write_part`, goes on with the zeros of the record and signs them.

`buildImage_run` follows one call whatever the sizes are. The writers are
runs of accesses (`Spans`), so each works exactly when the end of its
record lies in the buffer; `StaysInside` collects these ends.
-/
import UbntSdk.Firmware.RoundTrip

namespace UbntSdk.Firmware

open UbntSdk.Lib

/-! ## The stores and the buffer -/

/-- The records that are written end inside a buffer of `size` bytes. -/
def RecordsInside (env : Env) (size : Nat) : Nat → List PartData → Prop
  | _, [] => True
  | p, d :: rest =>
      (env.Reads d → p + recordSize d ≤ size) ∧ RecordsInside env size (p + recordSize d) rest

/-- No store of `build_image` leaves its buffer. -/
def StaysInside (env : Env) (im : ImageInfo) : Prop :=
  sizeofHeader ≤ memSize im ∧ RecordsInside env (memSize im) sizeofHeader im.parts

section Spans

variable (crc32 : List UInt8 → UInt32)

theorem writeHeader_spans (version : CStr) :
    Spans sizeofHeader (writeHeader crc32 · version) := by
  have hlast : Spans sizeofHeader (poke? · 264 (be32 0)) := by
    have h := Spans.poke 264 (be32 0)
    rwa [be32_length] at h
  unfold writeHeader
  refine .store (by simp) (.store (by simp [sizeofHeader]) (.store (by simp [sizeofHeader]) ?_))
  refine .load (by simp [sizeofHeader]) fun body => ?_
  exact .store (by simp [sizeofHeader]) hlast

theorem fillPart_spans (p : Nat) (d : PartData) {data : List UInt8}
    (hlen : data.length = d.stSize) :
    Spans (p + recordSize d) (fillPart crc32 · p d data) := by
  have hcrc : (d.stSize + sizeofPart) % 2 ^ 32 ≤ d.stSize + sizeofPart := Nat.mod_le _ _
  have hlast := Spans.poke (p + sizeofPart + d.stSize + 4) (be32 0)
  have hend : p + sizeofPart + d.stSize + 4 + (be32 0).length = p + recordSize d := by
    simp only [be32_length, recordSize, sizeofPartCrc]
    omega
  rw [hend] at hlast
  simp only [sizeofPart] at hcrc
  unfold fillPart
  -- ten stores, then the read for the CRC and its store
  iterate 10
    refine .store (by
      simp only [be32_length, strncpy_length, List.length_replicate, MAGIC_PART_length, hlen,
        recordSize, sizeofPart, sizeofPartCrc]
      omega) ?_
  refine .load (by simp only [recordSize, sizeofPart, sizeofPartCrc]; omega) fun body => ?_
  exact .store (by simp only [be32_length, recordSize, sizeofPart, sizeofPartCrc]; omega) hlast

theorem writeSignature_spans (sigOffset : Nat) :
    Spans (sigOffset + sizeofSignature) (writeSignature crc32 · sigOffset) := by
  have hlast : Spans (sigOffset + sizeofSignature) (poke? · (sigOffset + 8) (be32 0)) := by
    have h := Spans.poke (sigOffset + 8) (be32 0)
    rwa [be32_length, Nat.add_assoc] at h
  unfold writeSignature
  refine .store (by simp) (.store (by simp [sizeofSignature]) ?_)
  refine .load (by simp [sizeofSignature]) fun body => ?_
  exact .store (by simp [sizeofSignature]) hlast

/-- One part in a buffer of any size: `write_part` works exactly when the
record it writes, if it writes one, lies in the buffer. -/
theorem writePart_run {env : Env} {d : PartData} (hv : ValidPart env d) (mem : List UInt8)
    (p : Nat) :
    ((env.Reads d → p + recordSize d ≤ mem.length) →
      ∃ ret mem', writePart crc32 env mem p d = some (ret, mem') ∧ mem'.length = mem.length) ∧
    (¬(env.Reads d → p + recordSize d ≤ mem.length) → writePart crc32 env mem p d = none) := by
  have hread : peek? (partData env d) 0 d.stSize = some (partData env d) := by
    simpa using peek?_append [] (partData env d) [] rfl hv.data_length.symm
  obtain ⟨hin, hout⟩ := fillPart_spans crc32 p d hv.data_length mem
  by_cases hr : env.Reads d
  · have hpart : writePart crc32 env mem p d
        = (fillPart crc32 mem p d (partData env d)).map ((0 : Int), ·) := by
      simp only [writePart, hv.exists_file, hr.1, hr.2, Bool.false_eq_true, if_false, hread,
        Option.bind_eq_bind, Option.bind_some, Option.map_eq_bind]
      rfl
    constructor
    · intro hle
      obtain ⟨mem', hmem', hlen⟩ := hin (hle hr)
      refine ⟨0, mem', ?_, hlen⟩
      simp only at hmem'
      rw [hpart, hmem', Option.map_some]
    · intro hgt
      simp only at hout
      rw [hpart, hout (by by_contra hle; exact hgt fun _ => by omega), Option.map_none]
  · constructor
    · intro _
      by_cases hopen : env.openFails d.filename = true
      · refine ⟨-1, mem, ?_, rfl⟩
        simp only [writePart, hv.exists_file, hopen, if_true]
      · have hmap : env.mmapFails d.filename = true := by
          by_contra hmap
          exact hr ⟨by simpa using hopen, by simpa using hmap⟩
        refine ⟨-2, mem, ?_, rfl⟩
        simp only [writePart, hv.exists_file, hopen, hmap, if_true]
        simp
    · intro hgt
      exact absurd (fun h => absurd h hr) hgt

/-- The part loop in a buffer of any size. -/
theorem writeParts_run {env : Env} : ∀ (parts : List PartData) (mem : List UInt8) (p : Nat),
    (∀ d ∈ parts, ValidPart env d) →
    (RecordsInside env mem.length p parts →
      ∃ mem', writeParts crc32 env mem p parts = some mem' ∧ mem'.length = mem.length) ∧
    (¬RecordsInside env mem.length p parts → writeParts crc32 env mem p parts = none) := by
  intro parts
  induction parts with
  | nil =>
      intro mem p _
      exact ⟨fun _ => ⟨mem, rfl, rfl⟩, fun h => absurd trivial h⟩
  | cons d rest ih =>
      intro mem p hv
      obtain ⟨hin, hout⟩ := writePart_run crc32 (hv d (by simp)) mem p
      have hp : p + sizeofPart + d.stSize + sizeofPartCrc = p + recordSize d := by
        rw [recordSize]
        omega
      by_cases hd : env.Reads d → p + recordSize d ≤ mem.length
      · obtain ⟨ret, mem', hpart, hlen⟩ := hin hd
        obtain ⟨hrin, hrout⟩ := ih mem' (p + recordSize d) fun x hx => hv x (by simp [hx])
        rw [hlen] at hrin hrout
        have hstep : writeParts crc32 env mem p (d :: rest)
            = writeParts crc32 env mem' (p + recordSize d) rest := by
          rw [writeParts, hpart, ← hp]
          rfl
        rw [hstep]
        exact ⟨fun h => hrin h.2, fun h => hrout fun hrest => h ⟨hd, hrest⟩⟩
      · constructor
        · intro h
          exact absurd h.1 hd
        · intro _
          rw [writeParts, hout hd]
          rfl

/-- One call of `build_image` after `calloc`, whatever the sizes are. -/
theorem buildImage_run {env : Env} {im : ImageInfo} (hv : ∀ d ∈ im.parts, ValidPart env d)
    (hpos : 0 < im.parts.length) (hcalloc : env.callocFails (memSize im) = false) :
    (StaysInside env im → ∃ mem : List UInt8, mem.length = memSize im ∧
      buildImage crc32 env im =
        if env.fopenFails then some (-10, none)
        else
          match env.fwriteStops with
          | some n => some (-11, some (mem.take n))
          | none => some (0, some mem)) ∧
    (¬StaysInside env im → buildImage crc32 env im = none) := by
  have hlt := memSize_lt hpos
  have hnocalloc : ¬env.callocFails (memSize im) = true := by simp [hcalloc]
  obtain ⟨hhin, hhout⟩ := writeHeader_spans crc32 im.version (List.replicate (memSize im) 0)
  simp only [List.length_replicate] at hhin hhout
  by_cases hhead : sizeofHeader ≤ memSize im
  · obtain ⟨mem, hmem, hlen⟩ := hhin hhead
    obtain ⟨hpin, hpout⟩ := writeParts_run crc32 im.parts mem sizeofHeader hv
    rw [hlen] at hpin hpout
    by_cases hrec : RecordsInside env (memSize im) sizeofHeader im.parts
    · refine ⟨fun _ => ?_, fun h => absurd ⟨hhead, hrec⟩ h⟩
      obtain ⟨mem', hmem', hlen'⟩ := hpin hrec
      have hoff : (memSize im + 2 ^ 32 - sizeofSignature) % 2 ^ 32
          = memSize im - sizeofSignature := by
        simp only [sizeofSignature, sizeofHeader] at hhead ⊢
        omega
      have hle : sizeofSignature ≤ memSize im := Nat.le_trans (by decide) hhead
      obtain ⟨mem'', hmem'', hlen''⟩ := (writeSignature_spans crc32
        (memSize im - sizeofSignature) mem').1 (by omega)
      refine ⟨mem'', by omega, ?_⟩
      simp only at hmem''
      rw [buildImage, if_neg hnocalloc, hoff, Option.bind_eq_bind, hmem, Option.bind_some,
        hmem', Option.bind_some, hmem'', Option.bind_some]
      rfl
    · refine ⟨fun h => absurd h.2 hrec, fun _ => ?_⟩
      rw [buildImage, if_neg hnocalloc, Option.bind_eq_bind, hmem, Option.bind_some,
        hpout hrec, Option.bind_none]
  · refine ⟨fun h => absurd h.1 hhead, fun _ => ?_⟩
    rw [buildImage, if_neg hnocalloc, Option.bind_eq_bind, hhout (by omega), Option.bind_none]

end Spans

/-! ## The size of the buffer -/

section Promises

variable (crc32 : List UInt8 → UInt32)

/-- The buffer has the size of the image, and no store leaves it. -/
def SizeSound (env : Env) (im : ImageInfo) : Prop :=
  memSize im = imageSize im ∧ buildImage crc32 env im ≠ none

theorem buildImage_ne_none {env : Env} {im : ImageInfo} (hv : ∀ d ∈ im.parts, ValidPart env d)
    (hsz : imageSize im < 2 ^ 32) : buildImage crc32 env im ≠ none := by
  rw [buildImage_any crc32 hv hsz]
  split
  · simp
  · split
    · simp
    · cases env.fwriteStops <;> simp

/-- The buffer of an accepted layout is right exactly below 4 GiB. -/
theorem buildImage_sizeSound {env : Env} (im₀ : ImageInfo) {im : ImageInfo}
    (hval : validateImageLayout env im₀ = .ok im) :
    SizeSound crc32 env im ↔ imageSize im < 2 ^ 32 := by
  obtain ⟨hpos, _, hv⟩ := validateImageLayout_ok hval
  constructor
  · intro h
    rw [← h.1]
    exact memSize_lt hpos
  · intro hsz
    exact ⟨memSize_eq hsz, buildImage_ne_none crc32 hv hsz⟩

theorem onePartImage_sizeSound :
    validateImageLayout oneFileEnv (onePartImage 0) = .ok (onePartImage 1) ∧
    SizeSound zlibCrc32 oneFileEnv (onePartImage 1) :=
  ⟨rfl, (buildImage_sizeSound zlibCrc32 (onePartImage 0) rfl).mpr (by decide)⟩

/-- A part file of 4 GiB less one byte, as large as a partition can be. -/
def hugeFile : List UInt8 := List.replicate 4294967295 0

theorem hugeFile_length : hugeFile.length = 4294967295 := List.length_replicate

def hugeFileEnv : Env := { oneFileEnv with content := fun _ => some hugeFile }

def hugePartImage (stSize : Nat) : ImageInfo where
  version := ⟨[], by decide⟩
  parts := [{ partitionName := ⟨[0x61], by decide⟩, partitionIndex := 0,
              partitionBaseaddr := 0, partitionMemaddr := 0, partitionEntryaddr := 0,
              partitionLength := 0xFFFFFFFF, filename := ⟨[], by decide⟩, stSize }]

/-- The sum of the sizes wraps around: the buffer has 343 bytes, and the
part is copied over its end. -/
theorem hugePartImage_wraps :
    validateImageLayout hugeFileEnv (hugePartImage 0) = .ok (hugePartImage 4294967295) ∧
    memSize (hugePartImage 4294967295) = 343 ∧
    imageSize (hugePartImage 4294967295) = 4294967639 ∧
    buildImage zlibCrc32 hugeFileEnv (hugePartImage 4294967295) = none ∧
    ¬SizeSound zlibCrc32 hugeFileEnv (hugePartImage 4294967295) := by
  have hval : validateImageLayout hugeFileEnv (hugePartImage 0)
      = .ok (hugePartImage 4294967295) := by
    simp only [validateImageLayout, hugePartImage, List.mapM_cons, List.mapM_nil, validatePart,
      hugeFileEnv, hugeFile_length, CStr.strlen]
    rfl
  have hmem : memSize (hugePartImage 4294967295) = 343 := by decide
  have himage : imageSize (hugePartImage 4294967295) = 4294967639 := by decide
  have hout : ¬StaysInside hugeFileEnv (hugePartImage 4294967295) := by
    rintro ⟨-, hrec⟩
    rw [hmem] at hrec
    simp only [hugePartImage, RecordsInside, recordSize] at hrec
    have hend := hrec.1 ⟨rfl, rfl⟩
    exact absurd hend (by decide)
  obtain ⟨hpos, _, hv⟩ := validateImageLayout_ok hval
  have hrun := (buildImage_run zlibCrc32 hv hpos rfl).2 hout
  refine ⟨hval, hmem, himage, hrun, ?_⟩
  intro h
  exact h.2 hrun

/-! ## All or nothing -/

/-- What a caller of `build_image` may rely on: success leaves the complete
image, an error leaves none. -/
def AllOrNothing (env : Env) (im : ImageInfo) : Prop :=
  ∃ ret output, buildImage crc32 env im = some (ret, output) ∧
    (∀ image, output = some image → ret = 0 ∧ image = imageBytes crc32 env im) ∧
    (output = none → ret ≠ 0)

theorem allOrNothing_of_image {env : Env} {im : ImageInfo} {image : List UInt8}
    (h : buildImage crc32 env im = some (0, some image)) :
    AllOrNothing crc32 env im ↔ image = imageBytes crc32 env im := by
  constructor
  · intro ⟨ret, output, hrun, himage, _⟩
    rw [h] at hrun
    cases hrun
    exact (himage image rfl).2
  · intro himage
    refine ⟨0, some image, h, ?_, by simp⟩
    intro _ hout
    cases hout
    exact ⟨rfl, himage⟩

/-- A hole is not a record: the record starts with its magic. -/
theorem recordOrHole_eq {env : Env} {d : PartData} :
    recordOrHole crc32 env d = partRecord crc32 d (partData env d) ↔ env.Reads d := by
  constructor
  · intro h
    by_contra hr
    rw [recordOrHole, if_neg hr] at h
    have hsize : recordSize d = d.stSize + 63 + 1 := by
      simp only [recordSize, sizeofPart, sizeofPartCrc]
      omega
    rw [hsize, List.replicate_succ, partRecord, partFields, MAGIC_PART] at h
    simp only [List.cons_append, List.cons.injEq] at h
    exact absurd h.1 (by decide)
  · intro hr
    rw [recordOrHole, if_pos hr]

theorem recordsOrHoles_eq {env : Env} : ∀ {parts : List PartData},
    (∀ d ∈ parts, ValidPart env d) →
    (recordsOrHoles crc32 env parts = partRecords crc32 env parts ↔
      ∀ d ∈ parts, env.Reads d) := by
  intro parts
  induction parts with
  | nil => intro _; simp [recordsOrHoles, partRecords]
  | cons d rest ih =>
      intro hv
      have hvd := hv d (by simp)
      have hrest := ih fun x hx => hv x (by simp [hx])
      have hlen : (recordOrHole crc32 env d).length
          = (partRecord crc32 d (partData env d)).length := by
        rw [recordOrHole_length crc32 hvd, partRecord_length, hvd.data_length, recordSize]
      simp only [recordsOrHoles, partRecords] at hrest ⊢
      rw [List.flatMap_cons, List.flatMap_cons, List.forall_mem_cons, ← hrest,
        ← recordOrHole_eq crc32]
      constructor
      · intro h
        exact List.append_inj h hlen
      · rintro ⟨hd, hr⟩
        rw [hd, hr]

/-- An image with a hole is not the image, although its signature checks. -/
theorem imageWithHoles_eq {env : Env} {im : ImageInfo} (hv : ∀ d ∈ im.parts, ValidPart env d) :
    imageWithHoles crc32 env im = imageBytes crc32 env im ↔ ∀ d ∈ im.parts, env.Reads d := by
  rw [← recordsOrHoles_eq crc32 hv]
  constructor
  · intro h
    have hlen : (headerBytes crc32 im.version ++ recordsOrHoles crc32 env im.parts).length
        = (imageFront crc32 env im).length := by
      rw [imageFront, List.length_append, List.length_append, recordsOrHoles_length crc32 hv,
        partRecords_length crc32 hv]
    have hfront := (List.append_inj h hlen).1
    exact List.append_cancel_left hfront
  · intro h
    rw [imageWithHoles, h]
    rfl

theorem imageBytes_length {env : Env} {im : ImageInfo} (hv : ∀ d ∈ im.parts, ValidPart env d) :
    (imageBytes crc32 env im).length = imageSize im := by
  rw [imageBytes, imageFront, List.length_append, List.length_append, headerBytes_length,
    partRecords_length crc32 hv, imageSize]
  simp only [signatureBytes, List.length_append, MAGIC_END_length, be32_length, sizeofSignature]
  omega

/-- `build_image` is all-or-nothing exactly in these cases: there is no
buffer; or there is no output file, and no store left the buffer; or the
image is below 4 GiB, it is written out, and every part file was read. -/
theorem buildImage_allOrNothing {env : Env} (im₀ : ImageInfo) {im : ImageInfo}
    (hval : validateImageLayout env im₀ = .ok im) :
    AllOrNothing crc32 env im ↔
      env.callocFails (memSize im) = true ∨
      (env.fopenFails = true ∧ StaysInside env im) ∨
      (env.fopenFails = false ∧ imageSize im < 2 ^ 32 ∧ env.fwriteStops = none ∧
        ∀ d ∈ im.parts, env.Reads d) := by
  obtain ⟨hpos, _, hv⟩ := validateImageLayout_ok hval
  by_cases hcalloc : env.callocFails (memSize im) = true
  · have hbuild : buildImage crc32 env im = some (-1, none) := by rw [buildImage, if_pos hcalloc]
    simp [AllOrNothing, hbuild, hcalloc]
  · rw [Bool.not_eq_true] at hcalloc
    have hsmall : imageSize im < 2 ^ 32 → StaysInside env im := by
      intro hsz
      by_contra hout
      exact buildImage_ne_none crc32 hv hsz ((buildImage_run crc32 hv hpos hcalloc).2 hout)
    by_cases hin : StaysInside env im
    · obtain ⟨mem, hlen, hbuild⟩ := (buildImage_run crc32 hv hpos hcalloc).1 hin
      cases hfopen : env.fopenFails with
      | true => simp [AllOrNothing, hbuild, hfopen, hin]
      | false =>
          cases hfwrite : env.fwriteStops with
          | some n => simp [AllOrNothing, hbuild, hfopen, hfwrite, hcalloc]
          | none =>
              have hrun : buildImage crc32 env im = some (0, some mem) := by
                simp [hbuild, hfopen, hfwrite]
              rw [allOrNothing_of_image crc32 hrun, hcalloc]
              by_cases hsz : imageSize im < 2 ^ 32
              · have hlt : imageSize im < 4294967296 := hsz
                have hmem : mem = imageWithHoles crc32 env im := by
                  have hany := buildImage_any crc32 hv hsz
                  rw [← memSize_eq hsz, hcalloc, hrun] at hany
                  simpa [hfopen, hfwrite] using hany
                simp [hmem, imageWithHoles_eq crc32 hv, hlt]
              · have hne : mem ≠ imageBytes crc32 env im := by
                  intro h
                  have hmem := memSize_lt hpos
                  rw [← hlen, h, imageBytes_length crc32 hv] at hmem
                  exact hsz hmem
                have hge : ¬imageSize im < 4294967296 := hsz
                simp [hne, hge]
    · have hbuild := (buildImage_run crc32 hv hpos hcalloc).2 hin
      have hbig : ¬imageSize im < 4294967296 := fun hsz => hin (hsmall hsz)
      simp [AllOrNothing, hbuild, hcalloc, hin, hbig]

theorem onePartImage_allOrNothing :
    validateImageLayout oneFileEnv (onePartImage 0) = .ok (onePartImage 1) ∧
    AllOrNothing zlibCrc32 oneFileEnv (onePartImage 1) :=
  ⟨rfl, (buildImage_allOrNothing zlibCrc32 (onePartImage 0) rfl).mpr
    (.inr (.inr ⟨rfl, by decide, rfl, by decide⟩))⟩

/-- The only part exists, but cannot be opened. -/
def lockedFileEnv : Env := { oneFileEnv with openFails := fun _ => true }

/-- A part that cannot be opened leaves a signed image with a hole, and the
tool reports success. -/
theorem lockedFile_hole :
    validateImageLayout lockedFileEnv (onePartImage 0) = .ok (onePartImage 1) ∧
    buildImage zlibCrc32 lockedFileEnv (onePartImage 1)
      = some (0, some (imageWithHoles zlibCrc32 lockedFileEnv (onePartImage 1))) ∧
    ¬AllOrNothing zlibCrc32 lockedFileEnv (onePartImage 1) := by
  have hval : validateImageLayout lockedFileEnv (onePartImage 0) = .ok (onePartImage 1) := rfl
  obtain ⟨_, _, hv⟩ := validateImageLayout_ok hval
  have hbuild := buildImage_any zlibCrc32 hv (by decide)
  refine ⟨hval, hbuild, ?_⟩
  intro ⟨ret, output, hrun, himage, _⟩
  rw [hbuild] at hrun
  cases hrun
  have hreads := (imageWithHoles_eq zlibCrc32 hv).mp (himage _ rfl).2
  exact absurd hreads (by decide)

end Promises

end UbntSdk.Firmware
