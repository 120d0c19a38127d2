/-
UbntSdk.Firmware.RebuildTheorems — an image that was split is built again.

`fw_split` of an image writes a file for each part and the descriptor that
names them (`doFwsplit_image`). `mkfwimage_splitFiles` follows the descriptor
through the second tool: its lines are scanned back, the layout is accepted,
and the records made of it are the records of the image.

The names of the data files are printed in full and scanned with
`%128[^\t\n]` behind white space, and all files share a directory with the
descriptor. `PrefixFits` says what that asks of the prefix.
-/
import UbntSdk.Firmware.LayoutTheorems

namespace UbntSdk.Firmware

open UbntSdk.Lib

/-! ## Images with all their parts -/

/-- The buffer size, wrapped around. -/
theorem memSize_mod {im : ImageInfo} (hpos : 0 < im.parts.length) :
    memSize im = imageSize im % 2 ^ 32 := by
  have hfold : ∀ (parts : List PartData) (start : Nat),
      parts.foldl (fun size d => (size + (sizeofPart + d.stSize + sizeofPartCrc)) % 2 ^ 32) start %
        2 ^ 32 = (start + recordsSize parts) % 2 ^ 32 := by
    intro parts
    induction parts with
    | nil => intro start; rfl
    | cons d rest ih =>
        intro start
        have hsum : recordsSize (d :: rest) = recordSize d + recordsSize rest := by
          simp [recordsSize]
        rw [List.foldl_cons, ih, Nat.mod_add_mod, hsum, recordSize]
        congr 1
        omega
  have hlt := memSize_lt hpos
  rw [← Nat.mod_eq_of_lt hlt]
  exact hfold im.parts _

/-- The records end inside the buffer when all of them are written. -/
theorem recordsSize_le_of_inside {env : Env} {size : Nat} : ∀ {parts : List PartData} {p : Nat},
    (∀ d ∈ parts, env.Reads d) → p ≤ size → RecordsInside env size p parts →
    p + recordsSize parts ≤ size := by
  intro parts
  induction parts with
  | nil => intro p _ hp _; exact hp
  | cons d rest ih =>
      intro p hreads _ hin
      have hsum : recordsSize (d :: rest) = recordSize d + recordsSize rest := by
        simp [recordsSize]
      have hend := ih (fun x hx => hreads x (List.mem_cons_of_mem _ hx))
        (hin.1 (hreads d List.mem_cons_self)) hin.2
      omega

/-- An image below 4 GiB, as it was written. -/
theorem buildImage_holes {crc32 : List UInt8 → UInt32} {env : Env} {im : ImageInfo}
    {bytes : List UInt8} (hv : ∀ d ∈ im.parts, ValidPart env d) (hsz : imageSize im < 2 ^ 32)
    (hbuild : buildImage crc32 env im = some (0, some bytes)) :
    bytes = imageWithHoles crc32 env im := by
  have hany := buildImage_any crc32 hv hsz
  rw [hbuild] at hany
  split at hany
  · cases hany
  · split at hany
    · cases hany
    · cases hfwrite : env.fwriteStops with
      | some n =>
          rw [hfwrite] at hany
          cases hany
      | none =>
          rw [hfwrite] at hany
          cases hany
          rfl

/-- An image for which every file was read is below 4 GiB and has no hole. -/
theorem buildImage_whole {crc32 : List UInt8 → UInt32} {env : Env} {im : ImageInfo}
    {bytes : List UInt8} (hv : ∀ d ∈ im.parts, ValidPart env d) (hpos : 0 < im.parts.length)
    (hreads : ∀ d ∈ im.parts, env.Reads d) (hbuild : buildImage crc32 env im = some (0, some bytes)) :
    imageSize im < 2 ^ 32 ∧ bytes = imageBytes crc32 env im := by
  have hcalloc : env.callocFails (memSize im) = false := by
    by_contra h
    rw [Bool.not_eq_false] at h
    rw [buildImage, if_pos h] at hbuild
    cases hbuild
  have hin : StaysInside env im := by
    by_contra h
    rw [(buildImage_run crc32 hv hpos hcalloc).2 h] at hbuild
    cases hbuild
  have hrecords := recordsSize_le_of_inside hreads hin.1 hin.2
  have hmem := memSize_lt hpos
  have hmod := memSize_mod hpos
  have hsz : imageSize im < 2 ^ 32 := by
    have hhead := hin.1
    simp only [imageSize, sizeofHeader, sizeofSignature] at hmod hrecords hhead ⊢
    omega
  refine ⟨hsz, ?_⟩
  rw [buildImage_holes hv hsz hbuild, imageWithHoles_eq crc32 hv]
  exact hreads

/-! ## Splitting an image -/

theorem mapM_of_forall {α β : Type} {m : Type → Type} [Monad m] [LawfulMonad m] {f : α → m β}
    {g : α → β} : ∀ {l : List α}, (∀ a ∈ l, f a = pure (g a)) → l.mapM f = pure (l.map g) := by
  intro l
  induction l with
  | nil => intro _; rfl
  | cons a rest ih =>
      intro h
      rw [List.mapM_cons, h a List.mem_cons_self, ih fun x hx => h x (List.mem_cons_of_mem _ hx)]
      simp

section Split

variable {crc32 : List UInt8 → UInt32} {ptrMod : Nat} {env : Env} {im : ImageInfo}

/-- The entries of an image, read one after the other, are its parts. -/
theorem fwSplit_views (hv : ∀ d ∈ im.parts, ValidPart env d)
    (hcount : im.parts.length ≤ MAX_SECTIONS) :
    ∃ entries, fwSplitEntries (parsedImage crc32 env im).fw = some entries ∧
      entries.mapM (partView (imageBytes crc32 env im)) = some (im.parts.map (layoutView env)) := by
  have hget : ∀ i : Fin im.parts.length, im.parts[i.1]? = some (im.parts.get i) := fun i =>
    List.getElem?_eq_getElem i.2
  have hview : ∀ i : Fin im.parts.length,
      partView (imageBytes crc32 env im)
        (entryAt (sizeofHeader + recordsSize (im.parts.take i.1)) (im.parts.get i)) =
        some (layoutView env (im.parts.get i)) := by
    intro i
    obtain ⟨pre, post, hbytes, hpre⟩ := imageBytes_at_part crc32 hv (hget i)
    have hvd := hv _ (List.get_mem im.parts i)
    have hst : (im.parts.get i).stSize < 2 ^ 32 := by
      have hle := hvd.data_le
      have hlt := (im.parts.get i).partitionLength.toNat_lt
      omega
    rw [hbytes, ← hpre]
    exact partView_record crc32 pre post hvd hst
  have hslot : ∀ i : Fin im.parts.length,
      ((parsedImage crc32 env im).fw.parts[i.1]?).join =
        some (entryAt (sizeofHeader + recordsSize (im.parts.take i.1)) (im.parts.get i)) := by
    intro i
    have hslot := filledFrom_getElem? im.parts 0 sizeofHeader i.1
      (List.replicate MAX_PARTS none) _ (hget i) (by simpa [MAX_PARTS, MAX_SECTIONS] using hcount)
    rw [Nat.zero_add] at hslot
    rw [parsedImage, hslot]
    rfl
  refine ⟨(List.finRange im.parts.length).map fun i =>
    entryAt (sizeofHeader + recordsSize (im.parts.take i.1)) (im.parts.get i), ?_, ?_⟩
  · have hrange : List.range im.parts.length = (List.finRange im.parts.length).map Fin.val := by
      simp
    rw [fwSplitEntries]
    change (List.range im.parts.length).mapM _ = _
    rw [hrange, List.mapM_map]
    exact mapM_of_forall fun i _ => hslot i
  · rw [List.mapM_map]
    refine (mapM_of_forall fun i _ => hview i).trans ?_
    have hparts : (List.finRange im.parts.length).map im.parts.get = im.parts := by simp
    conv_rhs => rw [← hparts]
    rw [List.map_map]
    rfl

/-- The files behind a split image. -/
def splitFiles (creates : CStr → Bool) (pre : CStr) (views : List PartView) (files : Files) :
    Files :=
  if creates (fileName pre TXT) then
    writeDataFiles creates pre views
      (Function.update files (fileName pre TXT) (some (descriptor pre views)))
  else files

theorem version_of_image (hver : im.version.strlen ≤ 255) :
    CStr.ofBytes (fwEmpty (imageBytes crc32 env im)).version = im.version := by
  have hfield : (fwEmpty (imageBytes crc32 env im)).version = strncpy im.version 256 := by
    have hshape : imageBytes crc32 env im = MAGIC_HEADER ++ (strncpy im.version 256 ++
        (be32 (crc32 (headerBody im.version)) ++ (be32 0 ++ (partRecords crc32 env im.parts ++
          signatureBytes crc32 (imageFront crc32 env im))))) := by
      rw [imageBytes]
      generalize signatureBytes crc32 (imageFront crc32 env im) = sig
      rw [imageFront, headerBytes]
      generalize be32 (crc32 (headerBody im.version)) = crc
      rw [headerBody]
      simp only [List.append_assoc]
    rw [fwEmpty, hshape]
    change ((MAGIC_HEADER ++ _).drop MAGIC_HEADER.length).take 256 = _
    rw [List.drop_left]
    exact List.take_left' (strncpy_length im.version 256)
  have hlen : im.version.chars.length ≤ 256 := by
    simp only [CStr.strlen] at hver
    omega
  have hpad : 256 - im.version.strlen = 255 - im.version.strlen + 1 := by omega
  apply CStr.ext_chars
  rw [hfield, strncpy, List.take_of_length_le hlen, hpad, List.replicate_succ]
  exact CStr.takeWhile_chars im.version _

/-- `do_fwsplit` of an image. -/
theorem doFwsplit_image (hv : ∀ d ∈ im.parts, ValidPart env d)
    (hcount : im.parts.length ≤ MAX_SECTIONS) (hsz : imageSize im < 2 ^ 32)
    (hptr : 2 ^ 32 ≤ ptrMod) (hver : im.version.strlen ≤ 255) (creates : CStr → Bool)
    (option : CStr) (files : Files) (fuel : Nat) :
    doFwsplit crc32 ptrMod (fuel + 1 + im.parts.length) creates (imageBytes crc32 env im) option files =
      .done (splitFiles creates (prefixOf option im.version) (im.parts.map (layoutView env)) files) := by
  have hlen : ¬ (imageBytes crc32 env im).length < sizeofHeader + sizeofSignature := by
    rw [imageBytes_length crc32 hv, imageSize]
    omega
  obtain ⟨entries, hentries, hviews⟩ := @fwSplit_views crc32 _ _ hv hcount
  have hversion : CStr.ofBytes (parsedImage crc32 env im).fw.version = im.version :=
    version_of_image hver
  have hret : ¬ (parsedImage crc32 env im).ret ≠ 0 := fun h => h rfl
  rw [doFwsplit, if_neg hlen, fwParse_image crc32 hv hcount hsz hptr fuel]
  simp only [hret, if_false, hversion]
  rw [fwSplit, splitFiles]
  by_cases hcreates : creates (fileName (prefixOf option im.version) TXT) = true
  · simp only [hcreates, if_true, hentries, hviews, Option.bind_eq_bind, Option.bind_some]
    rfl
  · rw [Bool.not_eq_true] at hcreates
    simp only [hcreates, Bool.false_eq_true, if_false]

/-- It comes to nothing else, however long it may run. -/
theorem doFwsplit_unique (hv : ∀ d ∈ im.parts, ValidPart env d)
    (hcount : im.parts.length ≤ MAX_SECTIONS) (hsz : imageSize im < 2 ^ 32)
    (hptr : 2 ^ 32 ≤ ptrMod) (hver : im.version.strlen ≤ 255) {creates : CStr → Bool}
    {option : CStr} {files files' : Files} {fuel : Nat}
    (h : doFwsplit crc32 ptrMod fuel creates (imageBytes crc32 env im) option files = .done files') :
    files' = splitFiles creates (prefixOf option im.version) (im.parts.map (layoutView env)) files := by
  have himage := @doFwsplit_image crc32 _ _ _ hv hcount hsz hptr hver creates option files 0
  have hparse := fwParse_image crc32 hv hcount hsz hptr 0
  have hlen : ¬ (imageBytes crc32 env im).length < sizeofHeader + sizeofSignature := by
    rw [imageBytes_length crc32 hv, imageSize]
    omega
  -- the reader's loop is the only part that the bound is for
  have hout : fwParse crc32 ptrMod (imageBytes crc32 env im) fuel = .done (parsedImage crc32 env im) := by
    cases hrun : fwParse crc32 ptrMod (imageBytes crc32 env im) fuel with
    | fault => rw [doFwsplit, if_neg hlen, hrun] at h; cases h
    | running => rw [doFwsplit, if_neg hlen, hrun] at h; cases h
    | done out =>
        congr 1
        unfold fwParse at hrun hparse
        split at hrun
        · cases hrun
        · rename_i hcheck
          rw [hcheck] at hparse
          rw [hrun] at hparse
          cases hparse
          rfl
        · rename_i hcheck
          rw [hcheck] at hparse
          exact run_done_unique hrun hparse
  rw [doFwsplit, if_neg hlen, hparse] at himage
  rw [doFwsplit, if_neg hlen, hout] at h
  rw [h] at himage
  cases himage
  rfl

end Split

/-! ## Building it again -/

/-- The image comes back from the two tools, whatever files were there. -/
def SplitRebuilds (crc32 : List UInt8 → UInt32) (ptrMod ulongMax : Nat) (creates : CStr → Bool)
    (files : Files) (option version : CStr) (bytes : List UInt8) : Prop :=
  ∃ fuel files', doFwsplit crc32 ptrMod fuel creates bytes option files = .done files' ∧
    mkfwimage crc32 ulongMax files' (fileName (prefixOf option version) TXT) version =
      some (0, some bytes)

/-- What the tools ask of a prefix for parts with these names. -/
structure PrefixFits (creates : CStr → Bool) (names : List CStr) (pre : CStr) : Prop where
  clean : CleanPrefix pre
  descriptor : creates (fileName pre TXT) = true
  fits : ∀ n ∈ names, pre.strlen + 1 + n.strlen ≤ 128
  notTxt : ∀ n ∈ names, n.chars ≠ TXT
  created : ∀ n ∈ names, creates (fileName pre n.chars) = true

/-- A part of the layout that the descriptor describes. -/
def rebuiltPart (pre : CStr) (d : PartData) : PartData :=
  { d with filename := fileName pre d.partitionName.chars }

theorem fileName_inj {pre : CStr} {a b : List UInt8} (ha : (0 : UInt8) ∉ a) (hb : (0 : UInt8) ∉ b)
    (hfa : pre.strlen + 1 + a.length ≤ 4095) (hfb : pre.strlen + 1 + b.length ≤ 4095)
    (h : fileName pre a = fileName pre b) : a = b := by
  have hchars := congrArg CStr.chars h
  rw [fileName_chars ha hfa, fileName_chars hb hfb] at hchars
  exact (List.cons.inj (List.append_cancel_left hchars)).2

theorem rebuiltPart_valid {env : Env} {files : Files} {pre : CStr} {d : PartData}
    (hv : ValidPart env d)
    (hfile : files (fileName pre d.partitionName.chars) = some (partData env d)) :
    validatePart (workingEnv files) (scannedPart pre (layoutView env d)) = .ok (rebuiltPart pre d) := by
  have hpos := hv.name_pos
  have hle := hv.name_le
  have hname : ¬ (d.partitionName.strlen = 0 ∨ d.partitionName.strlen > 16) := by omega
  have hlen := hv.data_length
  have hdpos := hv.data_pos
  have hdle := hv.data_le
  have hne : ¬ (partData env d).length = 0 := by omega
  have hfit : ¬ (partData env d).length > d.partitionLength.toNat := by omega
  simp only [validatePart, workingEnv, scannedPart, layoutView, hname, if_false, hfile, hne, hfit]
  rw [hlen]
  rfl

section Sufficient

variable {crc32 : List UInt8 → UInt32} {ptrMod ulongMax : Nat} {env : Env} {im : ImageInfo}

/-- The records do not depend on where the data was read from. -/
theorem imageBytes_rebuilt {files : Files} {pre : CStr}
    (hdata : ∀ d ∈ im.parts, files (fileName pre d.partitionName.chars) = some (partData env d)) :
    imageBytes crc32 (workingEnv files) { im with parts := im.parts.map (rebuiltPart pre) } =
      imageBytes crc32 env im := by
  have hrecords : ∀ {parts : List PartData},
      (∀ d ∈ parts, files (fileName pre d.partitionName.chars) = some (partData env d)) →
      partRecords crc32 (workingEnv files) (parts.map (rebuiltPart pre)) =
        partRecords crc32 env parts := by
    intro parts
    induction parts with
    | nil => intro _; rfl
    | cons d rest ih =>
        intro h
        have hsame : partData (workingEnv files) (rebuiltPart pre d) = partData env d := by
          change (files (fileName pre d.partitionName.chars)).getD [] = _
          rw [h d List.mem_cons_self]
          rfl
        have hrest := ih fun x hx => h x (List.mem_cons_of_mem _ hx)
        simp only [partRecords] at hrest ⊢
        rw [List.map_cons, List.flatMap_cons, List.flatMap_cons, hrest, hsame]
        rfl
  rw [imageBytes, imageBytes, imageFront, imageFront, hrecords hdata]

/-- The second tool, over the files of a split image. -/
theorem mkfwimage_splitFiles {creates : CStr → Bool} {pre : CStr} {files : Files}
    (hmax : 2 ^ 32 ≤ ulongMax + 1) (hv : ∀ d ∈ im.parts, ValidPart env d)
    (hpos : 0 < im.parts.length) (hcount : im.parts.length ≤ MAX_SECTIONS)
    (hsz : imageSize im < 2 ^ 32) (hplain : ∀ d ∈ im.parts, PlainName d.partitionName)
    (hnodup : (im.parts.map (·.partitionName)).Nodup)
    (hfits : PrefixFits creates (im.parts.map (·.partitionName)) pre) :
    mkfwimage crc32 ulongMax (splitFiles creates pre (im.parts.map (layoutView env)) files)
      (fileName pre TXT) im.version = some (0, some (imageBytes crc32 env im)) := by
  have hname : ∀ d ∈ im.parts, d.partitionName ∈ im.parts.map (·.partitionName) := fun d hd =>
    List.mem_map_of_mem hd
  have hroom : ∀ d ∈ im.parts, pre.strlen + 1 + d.partitionName.chars.length ≤ 4095 := by
    intro d hd
    have h := hfits.fits _ (hname d hd)
    simp only [CStr.strlen] at h ⊢
    omega
  have hroomTxt : pre.strlen + 1 + TXT.length ≤ 4095 := by
    have h := hfits.fits _ (hname _ (List.get_mem im.parts ⟨0, hpos⟩))
    have hlen : TXT.length = 3 := rfl
    omega
  have hnotTxt : ∀ v ∈ im.parts.map (layoutView env), fileName pre TXT ≠ fileName pre v.name.chars := by
    intro v hview h
    obtain ⟨d, hd, rfl⟩ := List.mem_map.mp hview
    have hchars := fileName_inj (by decide) d.partitionName.noNul hroomTxt (hroom d hd) h
    exact hfits.notTxt _ (hname d hd) hchars.symm
  have hfiles : (im.parts.map (layoutView env)).map (fun v => fileName pre v.name.chars) =
      (im.parts.map (·.partitionName)).map fun n => fileName pre n.chars := by
    rw [List.map_map, List.map_map]
    rfl
  have hdistinct : ((im.parts.map (layoutView env)).map fun v => fileName pre v.name.chars).Nodup := by
    rw [hfiles]
    refine List.Nodup.map_on ?_ hnodup
    intro a ha b hb h
    obtain ⟨d, hd, rfl⟩ := List.mem_map.mp ha
    obtain ⟨d', hd', rfl⟩ := List.mem_map.mp hb
    exact CStr.ext_chars (fileName_inj d.partitionName.noNul d'.partitionName.noNul (hroom d hd)
      (hroom d' hd') h)
  have hcreated : ∀ v ∈ im.parts.map (layoutView env), creates (fileName pre v.name.chars) = true := by
    intro v hview
    obtain ⟨d, hd, rfl⟩ := List.mem_map.mp hview
    exact hfits.created _ (hname d hd)
  rw [splitFiles, if_pos hfits.descriptor]
  generalize hstart : Function.update files (fileName pre TXT)
    (some (descriptor pre (im.parts.map (layoutView env)))) = start
  have hdescriptor : writeDataFiles creates pre (im.parts.map (layoutView env)) start
      (fileName pre TXT) = some (descriptor pre (im.parts.map (layoutView env))) := by
    rw [writeDataFiles_other hnotTxt, ← hstart, Function.update_self]
  have hdata : ∀ d ∈ im.parts, writeDataFiles creates pre (im.parts.map (layoutView env)) start
      (fileName pre d.partitionName.chars) = some (partData env d) := fun d hd =>
    writeDataFiles_own hdistinct hcreated _ (List.mem_map_of_mem hd)
  generalize writeDataFiles creates pre (im.parts.map (layoutView env)) start = files' at hdescriptor hdata
  have hparse : parseImageLayout ulongMax (descriptor pre (im.parts.map (layoutView env))) =
      some ((im.parts.map (layoutView env)).map (scannedPart pre)) := by
    refine parse_descriptor hmax hfits.clean ?_ ?_ (by rwa [List.length_map])
    · intro v hview
      obtain ⟨d, hd, rfl⟩ := List.mem_map.mp hview
      exact hplain d hd
    · intro v hview
      obtain ⟨d, hd, rfl⟩ := List.mem_map.mp hview
      exact hfits.fits _ (hname d hd)
  have hvalid : validateImageLayout (workingEnv files')
      ⟨im.version, (im.parts.map (layoutView env)).map (scannedPart pre)⟩ =
      .ok { im with parts := im.parts.map (rebuiltPart pre) } := by
    have hsome : ¬ (im.parts.length = 0 ∨ im.parts.length > MAX_SECTIONS) := by omega
    have hparts : ((im.parts.map (layoutView env)).map (scannedPart pre)).mapM
        (validatePart (workingEnv files')) = .ok (im.parts.map (rebuiltPart pre)) := by
      rw [List.mapM_map, List.mapM_map]
      exact mapM_of_forall fun d hd => rebuiltPart_valid (hv d hd) (hdata d hd)
    simp only [validateImageLayout, List.length_map, hsome, if_false, hparts]
    rfl
  obtain ⟨_, _, hv'⟩ := validateImageLayout_ok hvalid
  have hsz' : imageSize { im with parts := im.parts.map (rebuiltPart pre) } < 2 ^ 32 := by
    have hsame : imageSize { im with parts := im.parts.map (rebuiltPart pre) } = imageSize im := by
      rw [imageSize, imageSize, recordsSize, recordsSize, List.map_map]
      rfl
    rwa [hsame]
  have hbuild := buildImage_eq crc32 hv' ⟨rfl, fun _ _ => rfl, fun _ _ => rfl, rfl, rfl⟩ hsz'
  rw [imageBytes_rebuilt hdata] at hbuild
  rw [mkfwimage, hdescriptor]
  simp only [hparse, Option.bind_eq_bind, Option.bind_some, hvalid, hbuild]
  rfl

end Sufficient

end UbntSdk.Firmware
