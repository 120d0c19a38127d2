/-
UbntSdk.Firmware.RoundTrip — `fw_parse` inverts `build_image`.

Writer and reader are two programs. The writer knows its parts as a list;
the reader sees bytes and finds each record from the sizes in the one
before. `fwPass_record` is one pass of the reader's loop over a record the
writer wrote, at any place in the image; `run_records` repeats it along
the part list, and `fwParse_image` adds the header check in front and the
signature check behind.

What the reader recovers is a pointer per part. `partView` is what
`fw_split` reads through such a pointer; `partView_record` says that it is
the part the writer was given.
-/
import UbntSdk.Firmware.ImageTheorems
import UbntSdk.Firmware.Split
import UbntSdk.Lib.Crc

namespace UbntSdk.Firmware

open UbntSdk.Lib

/-! ## What a recovered part is -/

/-- The part as `fw_split` sees it through its `fw_part_t`: the fields of
the part's header after `ntohl`, the name as a string, and the data. -/
structure PartView where
  name : CStr
  index : UInt32
  baseaddr : UInt32
  memaddr : UInt32
  entryaddr : UInt32
  partSize : UInt32
  data : List UInt8
  deriving DecidableEq

/-- The reads of `fw_split` for one entry. -/
def partView (base : List UInt8) (e : FwPart) : Option PartView := do
  let name ← cstr? base (e.header + 4)
  let index ← u32be? base (e.header + 36)
  let baseaddr ← u32be? base (e.header + 40)
  let partSize ← u32be? base (e.header + 52)
  let memaddr ← u32be? base (e.header + 32)
  let entryaddr ← u32be? base (e.header + 44)
  let data ← peek? base e.data e.dataSize.toNat
  return { name, index, baseaddr, memaddr, entryaddr, partSize, data }

/-- The same record, from the layout the image was built from. -/
def layoutView (env : Env) (d : PartData) : PartView where
  name := d.partitionName
  index := d.partitionIndex
  baseaddr := d.partitionBaseaddr
  memaddr := d.partitionMemaddr
  entryaddr := d.partitionEntryaddr
  partSize := d.partitionLength
  data := partData env d

/-! ## One record -/

/-- The entry the reader makes for a part whose record starts at `off`. -/
def entryAt (off : Nat) (d : PartData) : FwPart where
  header := off
  data := off + sizeofPart
  dataSize := UInt32.ofNat d.stSize
  signature := off + sizeofPart + d.stSize

section Record

variable (crc32 : List UInt8 → UInt32)

/-- The data size field of a record. -/
theorem u32be?_dataSize (pre post : List UInt8) (d : PartData) (data : List UInt8) :
    u32be? (pre ++ (partRecord crc32 d data ++ post)) (pre.length + 48)
      = some (UInt32.ofNat d.stSize) := by
  simp (disch := simp)
    only [partRecord, partFields, List.append_assoc, u32be?_skip, u32be?_head,
      Nat.add_sub_cancel_left, Nat.reduceSub, MAGIC_PART_length, strncpy_length,
      List.length_replicate, be32_length]

/-- The name field and the zero padding behind it hold the name. -/
theorem cstr?_name (pre post : List UInt8) (d : PartData) (data : List UInt8)
    (hname : d.partitionName.strlen ≤ 16) :
    cstr? (pre ++ (partRecord crc32 d data ++ post)) (pre.length + 4)
      = some d.partitionName := by
  have hfield : ∀ rest : List UInt8,
      cstr? (pre ++ (MAGIC_PART ++ (strncpy d.partitionName 16 ++
        (List.replicate 12 0 ++ rest)))) (pre.length + 4) = some d.partitionName := by
    intro rest
    have hzeros : strncpy d.partitionName 16 ++ (List.replicate 12 0 ++ rest)
        = d.partitionName.chars ++
            0 :: (List.replicate (16 - d.partitionName.strlen + 11) 0 ++ rest) := by
      rw [strncpy, List.take_of_length_le hname, ← List.append_assoc,
        List.append_assoc _ _ (List.replicate 12 0), List.replicate_append_replicate,
        List.append_assoc, ← List.cons_append, ← List.replicate_succ]
    rw [hzeros, ← List.append_assoc]
    exact cstr?_append _ _ _ (by simp)
  simp only [partRecord, partFields, List.append_assoc]
  exact hfield _

/-- Through its entry a record reads back as the part it was written for. -/
theorem partView_record {env : Env} (pre post : List UInt8) {d : PartData}
    (hv : ValidPart env d) (hsz : d.stSize < 2 ^ 32) :
    partView (pre ++ (partRecord crc32 d (partData env d) ++ post)) (entryAt pre.length d)
      = some (layoutView env d) := by
  have hdata : peek? (pre ++ (partRecord crc32 d (partData env d) ++ post))
      (pre.length + sizeofPart) (UInt32.ofNat d.stSize).toNat = some (partData env d) := by
    rw [UInt32.toNat_ofNat_of_lt' hsz]
    simp only [partRecord, List.append_assoc]
    rw [← List.append_assoc]
    exact peek?_append _ _ _ (by simp) hv.data_length.symm
  rw [partView, entryAt]
  simp only [cstr?_name crc32 pre post d _ hv.name_le, hdata, Option.bind_eq_bind,
    Option.bind_some]
  simp (disch := simp)
    only [partRecord, partFields, List.append_assoc, u32be?_skip, u32be?_head,
      Nat.add_sub_cancel_left, Nat.reduceSub, Nat.sub_self, MAGIC_PART_length,
      strncpy_length, List.length_replicate, be32_length, Option.bind_some]
  rfl

/-! ## The reader's loop over the writer's records -/

variable {ptrMod : Nat}

/-- One pass over a record the writer wrote: the CRC matches, the entry is
filled, and the walk goes on behind the record. -/
theorem fwPass_record {env : Env} (pre post : List UInt8) {d : PartData} {w : Walk}
    (hv : ValidPart env d) (hp : w.p = pre.length) (hi : w.i < MAX_PARTS) (hpost : post ≠ [])
    (hend : pre.length + recordSize d < 2 ^ 32) (hptr : 2 ^ 32 ≤ ptrMod) :
    fwPass crc32 ptrMod (pre ++ (partRecord crc32 d (partData env d) ++ post)) w
      = some (.next { w with p := pre.length + recordSize d, i := w.i + 1,
                             parts := w.parts.set w.i (some (entryAt pre.length d)) }) := by
  simp only [recordSize, sizeofPart, sizeofPartCrc] at hend
  have hst : d.stSize < 2 ^ 32 := by omega
  have hmagic : peek? (pre ++ (partRecord crc32 d (partData env d) ++ post)) pre.length
      MAGIC_LENGTH = some MAGIC_PART := by
    simp only [partRecord, partFields, List.append_assoc]
    exact peek?_append _ _ _ rfl rfl
  have hsize := u32be?_dataSize crc32 pre post d (partData env d)
  have hbody : peek? (pre ++ (partRecord crc32 d (partData env d) ++ post)) pre.length
      ((d.stSize + sizeofPart) % 2 ^ 32) = some (partFields d ++ partData env d) := by
    rw [partRecord, List.append_assoc]
    refine peek?_append _ _ _ rfl ?_
    rw [List.length_append, partFields_length, hv.data_length]
    simp only [sizeofPart]
    omega
  have hstored : u32be? (pre ++ (partRecord crc32 d (partData env d) ++ post))
      (pre.length + sizeofPart + d.stSize)
        = some (crc32 (partFields d ++ partData env d)) := by
    simp only [partRecord, List.append_assoc]
    rw [← List.append_assoc, ← List.append_assoc]
    refine u32be?_append _ _ _ ?_
    simp only [List.length_append, partFields_length, hv.data_length]
  have hdata : (pre.length + sizeofPart) % ptrMod = pre.length + sizeofPart :=
    Nat.mod_eq_of_lt (by simp only [sizeofPart]; omega)
  have hsig : (pre.length + sizeofPart + d.stSize) % ptrMod
      = pre.length + sizeofPart + d.stSize :=
    Nat.mod_eq_of_lt (by simp only [sizeofPart]; omega)
  have hnext : (pre.length + sizeofPart + d.stSize + sizeofPartCrc) % ptrMod
      = pre.length + recordSize d := by
    rw [Nat.mod_eq_of_lt (by simp only [sizeofPart, sizeofPartCrc]; omega), recordSize]
    omega
  have hin : ¬ pre.length + recordSize d
      ≥ (pre ++ (partRecord crc32 d (partData env d) ++ post)).length := by
    have := List.length_pos_iff.mpr hpost
    rw [List.length_append, List.length_append, partRecord_length, hv.data_length, recordSize]
    omega
  have hfill : fwFillPart crc32 ptrMod (pre ++ (partRecord crc32 d (partData env d) ++ post)) w
      = some { w with parts := w.parts.set w.i (some (entryAt pre.length d)) } := by
    simp only [fwFillPart, hp, hsize, Option.bind_eq_bind, Option.bind_some,
      UInt32.toNat_ofNat_of_lt' hst, hbody, hdata, hsig, hstored, ne_eq, not_true_eq_false, if_false]
    rfl
  have hne : ¬ MAGIC_PART = MAGIC_END := by decide
  simp only [fwPass, hp, hmagic, Option.bind_eq_bind, Option.bind_some, hne, if_false, hi,
    and_self, if_true, hfill, hsize, UInt32.toNat_ofNat_of_lt' hst, hnext, hin]
  rfl

/-- The `parts` array after the walk over `parts`, the first of them at
offset `off` and index `i`. -/
def filledFrom : Nat → Nat → List PartData → List (Option FwPart) → List (Option FwPart)
  | _, _, [], slots => slots
  | i, off, d :: rest, slots =>
      filledFrom (i + 1) (off + recordSize d) rest (slots.set i (some (entryAt off d)))

theorem filledFrom_before : ∀ (parts : List PartData) (i off k : Nat)
    (slots : List (Option FwPart)), k < i → (filledFrom i off parts slots)[k]? = slots[k]? := by
  intro parts
  induction parts with
  | nil => intro i off k slots _; rfl
  | cons d rest ih =>
      intro i off k slots hk
      rw [filledFrom, ih (i + 1) _ k _ (by omega), List.getElem?_set_ne (by omega)]

/-- The `j`-th part of the walk fills slot `i + j`, from the offset its
predecessors' sizes add up to. -/
theorem filledFrom_getElem? : ∀ (parts : List PartData) (i off j : Nat)
    (slots : List (Option FwPart)) (d : PartData), parts[j]? = some d →
    i + parts.length ≤ slots.length →
    (filledFrom i off parts slots)[i + j]?
      = some (some (entryAt (off + recordsSize (parts.take j)) d)) := by
  intro parts
  induction parts with
  | nil => intro i off j slots d hj _; simp at hj
  | cons d₀ rest ih =>
      intro i off j slots d hj hlen
      simp only [List.length_cons] at hlen
      rw [filledFrom]
      cases j with
      | zero =>
          simp only [List.getElem?_cons_zero, Option.some.injEq] at hj
          subst hj
          simp only [Nat.add_zero, List.take_zero, recordsSize, List.map_nil, List.sum_nil]
          rw [filledFrom_before rest (i + 1) _ i _ (by omega),
            List.getElem?_set_self (by omega)]
      | succ j =>
          rw [List.getElem?_cons_succ] at hj
          have hstep := ih (i + 1) (off + recordSize d₀) j
            (slots.set i (some (entryAt off d₀))) d hj (by simp only [List.length_set]; omega)
          rw [show i + (j + 1) = i + 1 + j by omega, hstep]
          simp only [List.take_succ_cons, recordsSize, List.map_cons, List.sum_cons]
          rw [Nat.add_assoc]

/-- The walk over a run of records. -/
theorem run_records {env : Env} (post : List UInt8) (hpost : post ≠ [])
    (hptr : 2 ^ 32 ≤ ptrMod) : ∀ (parts : List PartData) (pre : List UInt8) (w : Walk) (fuel : Nat),
    (∀ d ∈ parts, ValidPart env d) → w.p = pre.length → w.i + parts.length ≤ MAX_PARTS →
    pre.length + recordsSize parts < 2 ^ 32 →
    run (fwBody crc32 ptrMod (pre ++ (partRecords crc32 env parts ++ post)))
        (fuel + parts.length) w
      = run (fwBody crc32 ptrMod (pre ++ (partRecords crc32 env parts ++ post))) fuel
          { w with p := pre.length + recordsSize parts, i := w.i + parts.length,
                   parts := filledFrom w.i pre.length parts w.parts } := by
  intro parts
  induction parts with
  | nil =>
      intro pre w fuel _ hp _ _
      obtain ⟨p, i, slots, ws⟩ := w
      simp only at hp
      subst hp
      simp [recordsSize, filledFrom]
  | cons d rest ih =>
      intro pre w fuel hv hp hi hsz
      have hsum : recordsSize (d :: rest) = recordSize d + recordsSize rest := by
        simp [recordsSize]
      simp only [List.length_cons] at hi
      have hvd := hv d (by simp)
      have hsplit : pre ++ (partRecords crc32 env (d :: rest) ++ post)
          = (pre ++ partRecord crc32 d (partData env d)) ++
              (partRecords crc32 env rest ++ post) := by
        simp [partRecords, List.append_assoc]
      have hlen : (pre ++ partRecord crc32 d (partData env d)).length
          = pre.length + recordSize d := by
        rw [List.length_append, partRecord_length, hvd.data_length, recordSize]
      have hne : partRecords crc32 env rest ++ post ≠ [] := by simp [hpost]
      have hpass := fwPass_record crc32 pre (partRecords crc32 env rest ++ post) hvd hp
        (by omega) hne (by omega) hptr
      rw [← List.append_assoc, ← hsplit] at hpass
      have hbody : fwBody crc32 ptrMod (pre ++ (partRecords crc32 env (d :: rest) ++ post)) w
          = .next { w with p := pre.length + recordSize d, i := w.i + 1,
                           parts := w.parts.set w.i (some (entryAt pre.length d)) } := by
        rw [fwBody, hpass]
      rw [List.length_cons, ← Nat.add_assoc, run_next hbody]
      rw [hsplit, ih (pre ++ partRecord crc32 d (partData env d)) _ fuel
        (fun x hx => hv x (by simp [hx])) hlen.symm (by simp only; omega) (by omega)]
      simp only [hlen, filledFrom, hsum]
      congr 2 <;> omega

end Record

/-! ## The round trip -/

section RoundTrip

variable (crc32 : List UInt8 → UInt32) {ptrMod : Nat} {env : Env} {im : ImageInfo}

theorem fwCheckHeader_image (version : CStr) (rest : List UInt8) :
    fwCheckHeader crc32 (headerBytes crc32 version ++ rest) = some true := by
  have hbody : peek? (headerBytes crc32 version ++ rest) 0 (sizeofHeader - 2 * 4)
      = some (headerBody version) := by
    rw [headerBytes, List.append_assoc]
    exact peek?_head (by simp [headerBody, sizeofHeader])
  have hstored : u32be? (headerBytes crc32 version ++ rest) 260
      = some (crc32 (headerBody version)) := by
    rw [headerBytes, List.append_assoc, List.append_assoc]
    exact u32be?_append _ _ _ (by simp [headerBody])
  simp only [fwCheckHeader, hbody, hstored, Option.bind_eq_bind, Option.bind_some]
  simp

/-- Behind the last record the loop stops and the signature checks. -/
theorem run_signature (front : List UInt8) (w : Walk) (fuel : Nat) (hp : w.p = front.length) :
    run (fwBody crc32 ptrMod (front ++ signatureBytes crc32 front)) (fuel + 1) w
      = .done { ret := 0, warnings := w.warnings,
                fw := { fwEmpty (front ++ signatureBytes crc32 front) with
                        parts := w.parts, partCount := w.i } } := by
  have hmagic : peek? (front ++ signatureBytes crc32 front) front.length MAGIC_LENGTH
      = some MAGIC_END := peek?_append _ _ _ rfl rfl
  have hbody : peek? (front ++ signatureBytes crc32 front) 0 front.length = some front :=
    peek?_head rfl
  have hstored : u32be? (front ++ signatureBytes crc32 front) (front.length + 4)
      = some (crc32 front) := by
    rw [signatureBytes, ← List.append_assoc]
    exact u32be?_append _ _ _ (by simp)
  have hpass : fwPass crc32 ptrMod (front ++ signatureBytes crc32 front) w = some .atEnd := by
    simp only [fwPass, hp, hmagic, Option.bind_eq_bind, Option.bind_some, if_true]
    rfl
  have hcheck : fwCheckSignature crc32 (front ++ signatureBytes crc32 front) w
      = some (0, w.warnings) := by
    simp only [fwCheckSignature, hp, hmagic, hbody, hstored, Option.bind_eq_bind,
      Option.bind_some, ne_eq, not_true_eq_false, if_false]
    rfl
  apply run_stop
  simp only [fwBody, hpass, hcheck]

/-- What `fw_parse` leaves after an image `build_image` wrote. -/
def parsedImage (env : Env) (im : ImageInfo) : Parsed where
  ret := 0
  warnings := []
  fw := { fwEmpty (imageBytes crc32 env im) with
          parts := filledFrom 0 sizeofHeader im.parts (List.replicate MAX_PARTS none),
          partCount := im.parts.length }

/-- `fw_parse` on an image, once it may make one pass per part and one for
the signature. -/
theorem fwParse_image (hv : ∀ d ∈ im.parts, ValidPart env d)
    (hcount : im.parts.length ≤ MAX_PARTS) (hsz : imageSize im < 2 ^ 32)
    (hptr : 2 ^ 32 ≤ ptrMod) (fuel : Nat) :
    fwParse crc32 ptrMod (imageBytes crc32 env im) (fuel + 1 + im.parts.length)
      = .done (parsedImage crc32 env im) := by
  have hshape : imageBytes crc32 env im
      = headerBytes crc32 im.version ++ (partRecords crc32 env im.parts ++
          signatureBytes crc32 (imageFront crc32 env im)) := by
    rw [imageBytes, imageFront, List.append_assoc]
  have hne : signatureBytes crc32 (imageFront crc32 env im) ≠ [] := by
    simp [signatureBytes, MAGIC_END]
  have hfront : (imageFront crc32 env im).length = sizeofHeader + recordsSize im.parts := by
    rw [imageFront, List.length_append, headerBytes_length, partRecords_length crc32 hv]
  have hrec : (headerBytes crc32 im.version).length + recordsSize im.parts < 2 ^ 32 := by
    rw [headerBytes_length]
    rw [imageSize] at hsz
    omega
  have hwalk := run_records crc32 _ hne hptr im.parts (headerBytes crc32 im.version)
    fwWalkStart (fuel + 1) hv (headerBytes_length crc32 im.version).symm
    (by simpa [fwWalkStart] using hcount) hrec
  rw [fwParse, hshape, fwCheckHeader_image]
  simp only
  rw [hwalk, ← hshape, imageBytes,
    run_signature crc32 _ _ fuel (by rw [hfront, headerBytes_length])]
  simp [parsedImage, fwWalkStart, headerBytes_length, imageBytes]

/-- The image from the record of the `j`-th part on. -/
theorem imageBytes_at_part {j : Nat} {d : PartData} (hv : ∀ d ∈ im.parts, ValidPart env d)
    (hj : im.parts[j]? = some d) :
    ∃ pre post, imageBytes crc32 env im = pre ++ (partRecord crc32 d (partData env d) ++ post) ∧
      pre.length = sizeofHeader + recordsSize (im.parts.take j) := by
  have hsplit : im.parts = im.parts.take j ++ d :: im.parts.drop (j + 1) := by
    obtain ⟨hlt, hget⟩ := List.getElem?_eq_some_iff.mp hj
    rw [← hget, ← List.drop_eq_getElem_cons hlt, List.take_append_drop]
  refine ⟨headerBytes crc32 im.version ++ partRecords crc32 env (im.parts.take j),
    partRecords crc32 env (im.parts.drop (j + 1)) ++
      signatureBytes crc32 (imageFront crc32 env im), ?_, ?_⟩
  · have hrec : partRecords crc32 env im.parts
        = partRecords crc32 env (im.parts.take j) ++ (partRecord crc32 d (partData env d) ++
            partRecords crc32 env (im.parts.drop (j + 1))) := by
      conv_lhs => rw [hsplit]
      simp [partRecords]
    have hfront : imageFront crc32 env im
        = headerBytes crc32 im.version ++ (partRecords crc32 env (im.parts.take j) ++
            (partRecord crc32 d (partData env d) ++
              partRecords crc32 env (im.parts.drop (j + 1)))) := by
      rw [imageFront, hrec]
    rw [imageBytes]
    generalize signatureBytes crc32 (imageFront crc32 env im) = sig
    rw [hfront]
    simp only [List.append_assoc]
  · rw [List.length_append, headerBytes_length, partRecords_length crc32
      (fun x hx => hv x (List.mem_of_mem_take hx))]

/-- **Firmware image round trip.** For a layout `validate_image_layout`
accepted, of an image below 4 GiB, on a host where no call of the writer
fails: `build_image` succeeds, and `fw_parse` on the bytes it wrote, on a
host with an address space of 2^32 bytes or more, stops after one pass per
part with return code 0 and no CRC warning, with as many parts, and every
part read through its entry is the part of the layout at the same index. -/
theorem fwParse_buildImage (im₀ : ImageInfo) (hptr : 2 ^ 32 ≤ ptrMod)
    (hval : validateImageLayout env im₀ = .ok im) (hw : env.Works im)
    (hsz : imageSize im < 2 ^ 32) :
    ∃ bytes out, buildImage crc32 env im = some (0, some bytes) ∧
      (∀ fuel, im.parts.length < fuel → fwParse crc32 ptrMod bytes fuel = .done out) ∧
      out.ret = 0 ∧ out.warnings = [] ∧ out.fw.partCount = im.parts.length ∧
      ∀ (j : Nat) (d : PartData), im.parts[j]? = some d →
        ∃ e, out.fw.parts[j]? = some (some e) ∧ partView bytes e = some (layoutView env d) := by
  obtain ⟨_, hcount, hv⟩ := validateImageLayout_ok hval
  refine ⟨imageBytes crc32 env im, parsedImage crc32 env im, buildImage_eq crc32 hv hw hsz,
    ?_, rfl, rfl, rfl, ?_⟩
  · intro fuel hfuel
    obtain ⟨k, rfl⟩ : ∃ k, fuel = k + 1 + im.parts.length := ⟨fuel - im.parts.length - 1, by omega⟩
    exact fwParse_image crc32 hv hcount hsz hptr k
  · intro j d hj
    obtain ⟨pre, post, hbytes, hpre⟩ := imageBytes_at_part crc32 hv hj
    have hvd := hv d (List.mem_of_getElem? hj)
    have hst : d.stSize < 2 ^ 32 := by
      have h₁ := hvd.data_le
      have h₂ := d.partitionLength.toNat_lt
      omega
    refine ⟨entryAt (sizeofHeader + recordsSize (im.parts.take j)) d, ?_, ?_⟩
    · have hslot := filledFrom_getElem? im.parts 0 sizeofHeader j
        (List.replicate MAX_PARTS none) d hj (by simpa [MAX_PARTS, MAX_SECTIONS] using hcount)
      rw [Nat.zero_add] at hslot
      exact hslot
    · rw [hbytes, ← hpre]
      exact partView_record crc32 pre post hvd hst

end RoundTrip

/-- A file system with the one-byte file `k`, on which every call works. -/
def oneFileEnv : Env where
  content := fun f => if f.chars = [0x6b] then some [0x2a] else none
  openFails := fun _ => false
  mmapFails := fun _ => false
  callocFails := fun _ => false
  fopenFails := false
  fwriteStops := none

/-- A layout of one part, of 16 bytes of name and one byte of data. -/
def onePartImage (stSize : Nat) : ImageInfo where
  version := ⟨[0x76, 0x31], by decide⟩
  parts := [{ partitionName := ⟨List.replicate 16 0x6b, by decide⟩, partitionIndex := 1,
              partitionBaseaddr := 0xbf020000, partitionMemaddr := 0x80041000,
              partitionEntryaddr := 0x80041000, partitionLength := 0x10000,
              filename := ⟨[0x6b], by decide⟩, stSize }]

theorem onePartImage_works : oneFileEnv.Works (onePartImage 1) where
  calloc := rfl
  opens := fun _ _ => rfl
  maps := fun _ _ => rfl
  fopen := rfl
  fwrite := rfl

theorem fwParse_buildImage_onePart :
    validateImageLayout oneFileEnv (onePartImage 0) = .ok (onePartImage 1) ∧
    imageSize (onePartImage 1) = 345 ∧
    ∃ bytes out, buildImage zlibCrc32 oneFileEnv (onePartImage 1) = some (0, some bytes) ∧
      (∀ fuel, 1 < fuel → fwParse zlibCrc32 (2 ^ 64) bytes fuel = .done out) ∧
      out.ret = 0 ∧ out.warnings = [] ∧ out.fw.partCount = 1 ∧
      ∀ (j : Nat) (d : PartData), (onePartImage 1).parts[j]? = some d →
        ∃ e, out.fw.parts[j]? = some (some e) ∧
          partView bytes e = some (layoutView oneFileEnv d) :=
  ⟨rfl, rfl, fwParse_buildImage zlibCrc32 (onePartImage 0) (by decide) rfl
    onePartImage_works (by decide)⟩

end UbntSdk.Firmware
