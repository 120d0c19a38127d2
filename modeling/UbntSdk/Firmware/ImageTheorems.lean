/-
UbntSdk.Firmware.ImageTheorems — what `build_image` writes.

`imageBytes` is the image format as a value: the header, one record per
part and the signature, each with its CRC. `buildImage_eq` says that the
writer of `UbntSdk.Firmware.Image`, which fills one zeroed buffer in place,
produces exactly that value when the layout was validated, the sum of the
sizes fits in 32 bits and no library call fails.

The proof goes through the buffer from front to back. Each writer gets a
buffer of the shape `done ++ (zeros ++ rest)` and turns its zeros into
fields: `writeHeader_eq`, `fillPart_eq`, `writeSignature_eq`. `writeParts_eq`
repeats `fillPart_eq` along the part list.
-/
import UbntSdk.Firmware.Image

namespace UbntSdk.Firmware

open UbntSdk.Lib

@[simp] theorem MAGIC_HEADER_length : MAGIC_HEADER.length = 4 := by decide
@[simp] theorem MAGIC_PART_length : MAGIC_PART.length = 4 := by decide
@[simp] theorem MAGIC_END_length : MAGIC_END.length = 4 := by decide

/-! ## The format as a value -/

/-- The bytes a part record takes in the image. -/
def recordSize (d : PartData) : Nat := sizeofPart + d.stSize + sizeofPartCrc

/-- The bytes all part records take. -/
def recordsSize (parts : List PartData) : Nat := (parts.map recordSize).sum

/-- The exact size of the image, without the 32-bit wrap of `memSize`. -/
def imageSize (im : ImageInfo) : Nat :=
  sizeofHeader + sizeofSignature + recordsSize im.parts

/-- The content of a part's file. -/
def partData (env : Env) (d : PartData) : List UInt8 := (env.content d.filename).getD []

/-- The header up to its CRC. -/
def headerBody (version : CStr) : List UInt8 := MAGIC_HEADER ++ strncpy version 256

/-- `part_t` of a part. -/
def partFields (d : PartData) : List UInt8 :=
  MAGIC_PART ++ (strncpy d.partitionName 16 ++ (List.replicate 12 0 ++
    (be32 d.partitionMemaddr ++ (be32 d.partitionIndex ++ (be32 d.partitionBaseaddr ++
      (be32 d.partitionEntryaddr ++ (be32 (UInt32.ofNat d.stSize) ++
        be32 d.partitionLength)))))))

@[simp] theorem partFields_length (d : PartData) : (partFields d).length = sizeofPart := by
  simp [partFields, sizeofPart]

section Format

variable (crc32 : List UInt8 → UInt32) (env : Env)

def headerBytes (version : CStr) : List UInt8 :=
  headerBody version ++ (be32 (crc32 (headerBody version)) ++ be32 0)

/-- A part record: header and data, then the CRC over both. -/
def partRecord (d : PartData) (data : List UInt8) : List UInt8 :=
  (partFields d ++ data) ++ (be32 (crc32 (partFields d ++ data)) ++ be32 0)

def partRecords (parts : List PartData) : List UInt8 :=
  parts.flatMap fun d => partRecord crc32 d (partData env d)

/-- The file of a part can be opened and mapped. -/
def Env.Reads (d : PartData) : Prop :=
  env.openFails d.filename = false ∧ env.mmapFails d.filename = false

instance (d : PartData) : Decidable (env.Reads d) :=
  inferInstanceAs (Decidable (_ ∧ _))

/-- What `write_part` leaves of a part: nothing, if the file cannot be read. -/
def recordOrHole (d : PartData) : List UInt8 :=
  if env.Reads d then partRecord crc32 d (partData env d) else List.replicate (recordSize d) 0

def recordsOrHoles (parts : List PartData) : List UInt8 :=
  parts.flatMap (recordOrHole crc32 env)

/-- Everything the signature's CRC covers. -/
def imageFront (im : ImageInfo) : List UInt8 :=
  headerBytes crc32 im.version ++ partRecords crc32 env im.parts

def signatureBytes (front : List UInt8) : List UInt8 :=
  MAGIC_END ++ (be32 (crc32 front) ++ be32 0)

def imageBytes (im : ImageInfo) : List UInt8 :=
  imageFront crc32 env im ++ signatureBytes crc32 (imageFront crc32 env im)

@[simp] theorem headerBytes_length (version : CStr) :
    (headerBytes crc32 version).length = sizeofHeader := by
  simp [headerBytes, headerBody, sizeofHeader]

@[simp] theorem partRecord_length (d : PartData) (data : List UInt8) :
    (partRecord crc32 d data).length = sizeofPart + data.length + sizeofPartCrc := by
  simp only [partRecord, List.length_append, partFields_length, be32_length, sizeofPartCrc]

end Format

/-! ## The layouts `validate_image_layout` accepts -/

/-- What the checks of `validate_image_layout` establish for one part. -/
structure ValidPart (env : Env) (d : PartData) : Prop where
  name_pos : 0 < d.partitionName.strlen
  name_le : d.partitionName.strlen ≤ 16
  exists_file : env.content d.filename = some (partData env d)
  data_length : (partData env d).length = d.stSize
  data_pos : 0 < d.stSize
  data_le : d.stSize ≤ d.partitionLength.toNat

theorem validatePart_ok {env : Env} {d d' : PartData} (h : validatePart env d = .ok d') :
    ValidPart env d' := by
  unfold validatePart at h
  dsimp only at h
  split at h
  · cases h
  · rename_i hname
    split at h
    · cases h
    · rename_i data hdata
      split at h
      · cases h
      · rename_i hempty
        split at h
        · cases h
        · rename_i hbig
          cases h
          have hpd : partData env { d with stSize := data.length } = data := by
            simp [partData, hdata]
          exact { name_pos := by simp only; omega
                  name_le := by simp only; omega
                  exists_file := by simp only [hdata, hpd]
                  data_length := by simp only [hpd]
                  data_pos := by simp only; omega
                  data_le := by simp only; omega }

/-- `validate_image_layout` fills in the size of the file and leaves the
rest of the part as it is. -/
theorem validatePart_fields {env : Env} {d d' : PartData} (h : validatePart env d = .ok d') :
    d' = { d with stSize := d'.stSize } := by
  unfold validatePart at h
  dsimp only at h
  split at h
  · cases h
  · split at h
    · cases h
    · split at h
      · cases h
      · split at h
        · cases h
        · cases h
          rfl

theorem validateParts_ok {env : Env} : ∀ {parts parts' : List PartData},
    parts.mapM (validatePart env) = .ok parts' →
    parts'.length = parts.length ∧ ∀ d ∈ parts', ValidPart env d := by
  intro parts
  induction parts with
  | nil =>
      intro parts' h
      cases h
      simp
  | cons d rest ih =>
      intro parts' h
      rw [List.mapM_cons] at h
      cases hd : validatePart env d with
      | error e => rw [hd] at h; cases h
      | ok d' =>
          cases hr : rest.mapM (validatePart env) with
          | error e => rw [hd, hr] at h; cases h
          | ok rest' =>
              rw [hd, hr] at h
              cases h
              obtain ⟨hlen, hall⟩ := ih hr
              refine ⟨by simp [hlen], fun x hx => ?_⟩
              rcases List.mem_cons.mp hx with rfl | hx
              · exact validatePart_ok hd
              · exact hall x hx

/-- An accepted layout has 1 to 8 parts and each passed its checks. -/
theorem validateImageLayout_ok {env : Env} {im im' : ImageInfo}
    (h : validateImageLayout env im = .ok im') :
    0 < im'.parts.length ∧ im'.parts.length ≤ MAX_SECTIONS ∧
      ∀ d ∈ im'.parts, ValidPart env d := by
  unfold validateImageLayout at h
  split at h
  · cases h
  · rename_i hcount
    cases hp : im.parts.mapM (validatePart env) with
    | error e => rw [hp] at h; cases h
    | ok parts' =>
        rw [hp] at h
        cases h
        obtain ⟨hlen, hall⟩ := validateParts_ok hp
        exact ⟨by simp only; omega, by simp only; omega, hall⟩

/-! ## The writers fill their fields -/

section Writers

variable (crc32 : List UInt8 → UInt32)

theorem writeHeader_eq (a rest : List UInt8) (version : CStr) (ha : a.length = sizeofHeader) :
    writeHeader crc32 (a ++ rest) version = some (headerBytes crc32 version ++ rest) := by
  have hz : List.replicate sizeofHeader (0 : UInt8)
      = List.replicate 4 0 ++ (List.replicate 256 0 ++ (List.replicate 4 0 ++
          List.replicate 4 0)) := by
    simp only [List.replicate_append_replicate]; rfl
  rw [writeHeader, poke?_head (by simpa using ha.symm), hz]
  simp (disch := simp only [List.length_replicate, strncpy_length, be32_length,
      MAGIC_HEADER_length, Nat.reduceLeDiff])
    only [poke?_head, poke?_skip, peek?_span, peek?_zero, List.append_assoc,
      List.append_nil, Option.map_some, Option.bind_eq_bind, Option.bind_some,
      Nat.reduceSub, Nat.reduceMul, Nat.sub_self, strncpy_length, be32_length,
      MAGIC_HEADER_length, sizeofHeader, headerBytes, headerBody]

/-- `write_part` turns the zeros of its record into the record. -/
theorem fillPart_eq (pre post : List UInt8) (d : PartData) (data : List UInt8)
    (hlen : data.length = d.stSize) (hsz : d.stSize + sizeofPart < 2 ^ 32) :
    fillPart crc32 (pre ++ (List.replicate (recordSize d) 0 ++ post)) pre.length d data
      = some (pre ++ (partRecord crc32 d data ++ post)) := by
  have hz : List.replicate (recordSize d) (0 : UInt8)
      = List.replicate 4 0 ++ (List.replicate 16 0 ++ (List.replicate 12 0 ++
          (List.replicate 4 0 ++ (List.replicate 4 0 ++ (List.replicate 4 0 ++
          (List.replicate 4 0 ++ (List.replicate 4 0 ++ (List.replicate 4 0 ++
          (List.replicate d.stSize 0 ++ (List.replicate 4 0 ++ List.replicate 4 0)))))))))) := by
    simp only [List.replicate_append_replicate, recordSize, sizeofPart, sizeofPartCrc]
    congr 1
    omega
  have hmod : (d.stSize + 56) % 2 ^ 32 = d.stSize + 56 := Nat.mod_eq_of_lt hsz
  have hcrc : pre.length + 56 + d.stSize = pre.length + (d.stSize + 56) := by omega
  have hpad : pre.length + (d.stSize + 56) + 4 = pre.length + (d.stSize + 60) := by omega
  rw [fillPart, hz]
  simp only [sizeofPart, hcrc, hpad, hmod, List.append_assoc, Option.bind_eq_bind]
  -- one access after the other: ten stores, the read for the CRC, two stores
  iterate 12
    refine bind_step (by
      simp (disch := simp only [hlen, List.length_replicate, strncpy_length, be32_length,
          MAGIC_PART_length, Nat.reduceLeDiff, Nat.le_add_right, Nat.le_refl])
        only [poke?_head, poke?_skip, peek?_skip, peek?_span, peek?_zero, List.append_nil,
          List.length_replicate, Option.map_some, Nat.reduceSub, Nat.reduceSubDiff,
          Nat.sub_self, Nat.add_sub_cancel_left, Nat.add_sub_cancel, strncpy_length,
          be32_length, MAGIC_PART_length, hlen]
      rfl) ?_
  simp (disch := simp only [hlen, List.length_replicate, strncpy_length, be32_length,
      MAGIC_PART_length, Nat.reduceLeDiff, Nat.le_add_right, Nat.le_refl])
    only [poke?_head, poke?_skip, List.length_replicate, Option.map_some, Nat.reduceSubDiff,
      Nat.sub_self, Nat.add_sub_cancel_left, strncpy_length, be32_length, MAGIC_PART_length, hlen]
  simp only [partRecord, partFields, List.append_assoc]

theorem writeSignature_eq (pre : List UInt8) :
    writeSignature crc32 (pre ++ List.replicate sizeofSignature 0) pre.length
      = some (pre ++ signatureBytes crc32 pre) := by
  have hz : List.replicate sizeofSignature (0 : UInt8)
      = List.replicate 4 0 ++ (List.replicate 4 0 ++ List.replicate 4 0) := by
    simp only [List.replicate_append_replicate]; rfl
  have hmem : poke? (pre ++ List.replicate sizeofSignature 0) pre.length
      (List.replicate sizeofSignature 0) = some (pre ++ List.replicate sizeofSignature 0) := by
    rw [poke?_skip (Nat.le_refl _), Nat.sub_self, poke?_all rfl, Option.map_some]
  rw [writeSignature, hmem, hz]
  simp (disch := simp)
    only [poke?_head, poke?_skip, poke?_all, peek?_span, peek?_zero, List.append_nil,
      Option.map_some, Option.bind_eq_bind, Option.bind_some, Nat.reduceSub, Nat.sub_self,
      Nat.add_sub_cancel_left, be32_length, MAGIC_END_length, signatureBytes]

/-! ## The whole image -/

/-- No call the writer makes fails: the buffer can be allocated, the part
files opened and mapped, the output file created and written. -/
structure Env.Works (env : Env) (im : ImageInfo) : Prop where
  calloc : env.callocFails (memSize im) = false
  opens : ∀ d ∈ im.parts, env.openFails d.filename = false
  maps : ∀ d ∈ im.parts, env.mmapFails d.filename = false
  fopen : env.fopenFails = false
  fwrite : env.fwriteStops = none

/-- `write_part` fills its record, or leaves it. -/
theorem writePart_eq {env : Env} (pre post : List UInt8) {d : PartData}
    (hv : ValidPart env d) (hsz : d.stSize + sizeofPart < 2 ^ 32) :
    ∃ ret, writePart crc32 env (pre ++ (List.replicate (recordSize d) 0 ++ post)) pre.length d
      = some (ret, pre ++ (recordOrHole crc32 env d ++ post)) := by
  have hread : peek? (partData env d) 0 d.stSize = some (partData env d) := by
    simpa using peek?_append [] (partData env d) [] rfl hv.data_length.symm
  simp only [writePart, hv.exists_file]
  by_cases hopen : env.openFails d.filename = true
  · refine ⟨-1, ?_⟩
    rw [if_pos hopen, recordOrHole, if_neg (fun h => by rw [h.1] at hopen; cases hopen)]
  · rw [Bool.not_eq_true] at hopen
    by_cases hmap : env.mmapFails d.filename = true
    · refine ⟨-2, ?_⟩
      rw [if_neg (by rw [hopen]; decide), if_pos hmap, recordOrHole,
        if_neg (fun h => by rw [h.2] at hmap; cases hmap)]
    · rw [Bool.not_eq_true] at hmap
      refine ⟨0, ?_⟩
      simp only [hopen, hmap, Bool.false_eq_true, if_false, hread, Option.bind_eq_bind,
        Option.bind_some, fillPart_eq crc32 pre post d _ hv.data_length hsz]
      rw [recordOrHole, if_pos ⟨hopen, hmap⟩]
      rfl

theorem recordOrHole_length {env : Env} {d : PartData} (hv : ValidPart env d) :
    (recordOrHole crc32 env d).length = recordSize d := by
  rw [recordOrHole]
  split
  · rw [partRecord_length, hv.data_length, recordSize]
  · rw [List.length_replicate]

/-- The part loop turns the zeros of the record area into the records, and
goes on after a part that it cannot read. -/
theorem writeParts_eq {env : Env} (post : List UInt8) : ∀ (parts : List PartData)
    (pre : List UInt8), (∀ d ∈ parts, ValidPart env d) → recordsSize parts < 2 ^ 32 →
    writeParts crc32 env (pre ++ (List.replicate (recordsSize parts) 0 ++ post)) pre.length parts
      = some (pre ++ (recordsOrHoles crc32 env parts ++ post)) := by
  intro parts
  induction parts with
  | nil =>
      intro pre _ _
      simp [writeParts, recordsSize, recordsOrHoles]
  | cons d rest ih =>
      intro pre hv hsz
      have hsum : recordsSize (d :: rest) = recordSize d + recordsSize rest := by
        simp [recordsSize]
      have hd : d.stSize + sizeofPart < 2 ^ 32 := by
        simp only [recordSize, sizeofPart, sizeofPartCrc] at hsum ⊢
        omega
      have hlen := recordOrHole_length crc32 (hv d (by simp))
      have hpos : pre.length + sizeofPart + d.stSize + sizeofPartCrc
          = (pre ++ recordOrHole crc32 env d).length := by
        rw [List.length_append, hlen, recordSize]
        omega
      obtain ⟨ret, hpart⟩ := writePart_eq crc32 pre (List.replicate (recordsSize rest) 0 ++ post)
        (hv d (by simp)) hd
      rw [hsum, ← List.replicate_append_replicate, List.append_assoc, writeParts, hpart]
      simp only [Option.bind_eq_bind, Option.bind_some]
      rw [hpos, ← List.append_assoc,
        ih (pre ++ recordOrHole crc32 env d) (fun x hx => hv x (by simp [hx])) (by omega)]
      simp [recordsOrHoles, List.append_assoc]

theorem recordsOrHoles_length {env : Env} : ∀ {parts : List PartData},
    (∀ d ∈ parts, ValidPart env d) →
    (recordsOrHoles crc32 env parts).length = recordsSize parts := by
  intro parts
  induction parts with
  | nil => intro _; simp [recordsOrHoles, recordsSize]
  | cons d rest ih =>
      intro hv
      have hrest := ih fun x hx => hv x (by simp [hx])
      simp only [recordsOrHoles, recordsSize] at hrest ⊢
      rw [List.flatMap_cons, List.length_append, hrest, recordOrHole_length crc32 (hv d (by simp)),
        List.map_cons, List.sum_cons]

theorem recordsOrHoles_of_reads {env : Env} : ∀ {parts : List PartData},
    (∀ d ∈ parts, env.Reads d) → recordsOrHoles crc32 env parts = partRecords crc32 env parts := by
  intro parts
  induction parts with
  | nil => intro _; rfl
  | cons d rest ih =>
      intro hreads
      have hrest := ih fun x hx => hreads x (by simp [hx])
      simp only [recordsOrHoles, partRecords] at hrest ⊢
      rw [List.flatMap_cons, List.flatMap_cons, hrest, recordOrHole, if_pos (hreads d (by simp))]

theorem memSize_fold : ∀ (parts : List PartData) (start : Nat),
    start + recordsSize parts < 2 ^ 32 →
    parts.foldl (fun size d => (size + (sizeofPart + d.stSize + sizeofPartCrc)) % 2 ^ 32) start
      = start + recordsSize parts := by
  intro parts
  induction parts with
  | nil => intro start _; simp [recordsSize]
  | cons d rest ih =>
      intro start hlt
      have hsum : recordsSize (d :: rest) = recordSize d + recordsSize rest := by
        simp [recordsSize]
      have hd : (start + (sizeofPart + d.stSize + sizeofPartCrc)) % 2 ^ 32
          = start + recordSize d := by
        rw [recordSize] at hsum ⊢
        exact Nat.mod_eq_of_lt (by omega)
      rw [List.foldl_cons, hd, ih (start + recordSize d) (by omega), hsum]
      omega

/-- While the image stays below 4 GiB the 32-bit sum is the exact size. -/
theorem memSize_eq {im : ImageInfo} (h : imageSize im < 2 ^ 32) : memSize im = imageSize im :=
  memSize_fold im.parts _ h

/-- The sum is a 32-bit word as soon as one part is added. -/
theorem memSize_lt {im : ImageInfo} (hpos : 0 < im.parts.length) : memSize im < 2 ^ 32 := by
  have hfold : ∀ (parts : List PartData) (start : Nat), 0 < parts.length →
      parts.foldl (fun size d => (size + (sizeofPart + d.stSize + sizeofPartCrc)) % 2 ^ 32) start
        < 2 ^ 32 := by
    intro parts
    induction parts with
    | nil => intro start h; cases h
    | cons d rest ih =>
        intro start _
        rw [List.foldl_cons]
        cases rest with
        | nil =>
            rw [List.foldl_nil]
            exact Nat.mod_lt _ (Nat.two_pow_pos 32)
        | cons d' rest' => exact ih _ (by simp)
  exact hfold im.parts _ hpos

theorem partRecords_length {env : Env} : ∀ {parts : List PartData},
    (∀ d ∈ parts, ValidPart env d) →
    (partRecords crc32 env parts).length = recordsSize parts := by
  intro parts
  induction parts with
  | nil => intro _; simp [partRecords, recordsSize]
  | cons d rest ih =>
      intro hv
      have hrest := ih fun x hx => hv x (by simp [hx])
      simp only [partRecords, recordsSize] at hrest ⊢
      rw [List.flatMap_cons, List.length_append, hrest, partRecord_length,
        (hv d (by simp)).data_length, List.map_cons, List.sum_cons, recordSize]

/-- The image with a hole for each part that cannot be read. -/
def imageWithHoles (env : Env) (im : ImageInfo) : List UInt8 :=
  let front := headerBytes crc32 im.version ++ recordsOrHoles crc32 env im.parts
  front ++ signatureBytes crc32 front

/-- What `build_image` does with a layout that fits, whatever fails. -/
theorem buildImage_any {env : Env} {im : ImageInfo} (hv : ∀ d ∈ im.parts, ValidPart env d)
    (hsz : imageSize im < 2 ^ 32) :
    buildImage crc32 env im =
      if env.callocFails (imageSize im) then some (-1, none)
      else if env.fopenFails then some (-10, none)
      else
        match env.fwriteStops with
        | some n => some (-11, some ((imageWithHoles crc32 env im).take n))
        | none => some (0, some (imageWithHoles crc32 env im)) := by
  have hbuf : List.replicate (imageSize im) (0 : UInt8)
      = List.replicate sizeofHeader 0 ++ (List.replicate (recordsSize im.parts) 0 ++
          List.replicate sizeofSignature 0) := by
    simp only [List.replicate_append_replicate, imageSize]
    congr 1
    omega
  have hrec : recordsSize im.parts < 2 ^ 32 := by rw [imageSize] at hsz; omega
  have hsig : (imageSize im + 2 ^ 32 - sizeofSignature) % 2 ^ 32
      = (headerBytes crc32 im.version ++ recordsOrHoles crc32 env im.parts).length := by
    rw [List.length_append, headerBytes_length, recordsOrHoles_length crc32 hv]
    simp only [imageSize, sizeofSignature, sizeofHeader] at hsz ⊢
    omega
  have hparts := writeParts_eq crc32 (List.replicate sizeofSignature 0) im.parts
    (headerBytes crc32 im.version) hv hrec
  rw [headerBytes_length] at hparts
  rw [buildImage, memSize_eq hsz]
  by_cases hcalloc : env.callocFails (imageSize im) = true
  · rw [if_pos hcalloc, if_pos hcalloc]
  · rw [if_neg hcalloc, if_neg hcalloc]
    simp only [hbuf, Option.bind_eq_bind,
      writeHeader_eq crc32 _ _ im.version (List.length_replicate : _ = sizeofHeader),
      Option.bind_some, hparts, hsig]
    rw [← List.append_assoc, writeSignature_eq]
    rfl

/-- `build_image` writes exactly `imageBytes`. -/
theorem buildImage_eq {env : Env} {im : ImageInfo} (hv : ∀ d ∈ im.parts, ValidPart env d)
    (hw : env.Works im) (hsz : imageSize im < 2 ^ 32) :
    buildImage crc32 env im = some (0, some (imageBytes crc32 env im)) := by
  have hcalloc := hw.calloc
  rw [memSize_eq hsz] at hcalloc
  have hreads : ∀ d ∈ im.parts, env.Reads d := fun d hd => ⟨hw.opens d hd, hw.maps d hd⟩
  rw [buildImage_any crc32 hv hsz, hcalloc, hw.fopen, hw.fwrite, imageWithHoles,
    recordsOrHoles_of_reads crc32 hreads]
  rfl

end Writers

end UbntSdk.Firmware
