/-
UbntSdk.Firmware.PrefixTheorems — for which prefixes a split image is built
again byte for byte.

An image that the second tool writes has parts whose files were scanned from
the descriptor (`mkfwimage_built`), and its bytes determine its parts
(`views_unique`). For each list of names there is one image whose parts hold
different bytes (`sampleImage`), so a rebuilt part shows which file it was read
from, and the prefix fits (`prefixFits_of_rebuilds`).

An image in which `build_image` left a hole never comes back: the second tool
reads its files and leaves none (`hole_not_rebuilt`).
-/
import UbntSdk.Firmware.RebuildTheorems

namespace UbntSdk.Firmware

open UbntSdk.Lib

/-! ## What a rebuilt image shows -/

theorem mem_of_mapM_ok {α β ε : Type} {f : α → Except ε β} : ∀ {l : List α} {l' : List β},
    l.mapM f = .ok l' → ∀ b ∈ l', ∃ a ∈ l, f a = .ok b := by
  intro l
  induction l with
  | nil =>
      intro l' h b hb
      cases h
      cases hb
  | cons a rest ih =>
      intro l' h b hb
      rw [List.mapM_cons] at h
      cases ha : f a with
      | error e => rw [ha] at h; cases h
      | ok c =>
          cases hr : rest.mapM f with
          | error e => rw [ha, hr] at h; cases h
          | ok cs =>
              rw [ha, hr] at h
              cases h
              rcases List.mem_cons.mp hb with rfl | hb
              · exact ⟨a, List.mem_cons_self, ha⟩
              · obtain ⟨x, hx, hfx⟩ := ih hr b hb
                exact ⟨x, List.mem_cons_of_mem _ hx, hfx⟩

/-- A file name that the conversion of the descriptor can give. -/
structure ScannedName (name : CStr) : Prop where
  le : name.strlen ≤ 128
  noTab : (9 : UInt8) ∉ name.chars
  noNewline : (10 : UInt8) ∉ name.chars
  noSpace : ∀ c ∈ name.chars.head?, isSpace c = false

theorem scannedName_of_scanSet {s word rest : List UInt8}
    (h : scanSet 128 [9, 10] (skipSpace s) = some (word, rest)) : ScannedName (CStr.ofBytes word) := by
  obtain ⟨_, hlen, hallowed, hsplit⟩ := scanSet_spec h
  have hsub : (CStr.ofBytes word).chars <+: word := List.takeWhile_prefix _
  refine ⟨Nat.le_trans hsub.length_le hlen, fun h9 => ?_, fun h10 => ?_, fun c hc => ?_⟩
  · exact hallowed 9 (hsub.subset h9) (by decide)
  · exact hallowed 10 (hsub.subset h10) (by decide)
  · have hhead : (skipSpace s).head? = some c := by
      obtain ⟨tl, htl⟩ := hsub
      rw [hsplit, ← htl]
      cases hchars : (CStr.ofBytes word).chars with
      | nil => rw [hchars] at hc; cases hc
      | cons x xs =>
          rw [hchars] at hc
          exact hc
    have hnot := List.head?_dropWhile_not isSpace s
    rw [← skipSpace, hhead] at hnot
    exact hnot

theorem scannedName_of_line {ulongMax : Nat} {line : List UInt8} {d : PartData}
    (h : scanLayoutLine ulongMax line = some (some d)) : ScannedName d.filename := by
  unfold scanLayoutLine at h
  split at h
  · cases h
  · split at h
    · cases h
    · have h := Option.some.inj h
      obtain ⟨_, _, h⟩ := Option.bind_eq_some_iff.mp h
      obtain ⟨_, _, h⟩ := Option.bind_eq_some_iff.mp h
      obtain ⟨_, _, h⟩ := Option.bind_eq_some_iff.mp h
      obtain ⟨_, _, h⟩ := Option.bind_eq_some_iff.mp h
      obtain ⟨_, _, h⟩ := Option.bind_eq_some_iff.mp h
      obtain ⟨⟨file, rest⟩, hfile, h⟩ := Option.bind_eq_some_iff.mp h
      cases h
      exact scannedName_of_scanSet hfile

theorem scannedName_of_lines {ulongMax : Nat} : ∀ {lines : List (List UInt8)} {count : Nat}
    {parts : List PartData}, parseLines ulongMax count lines = some parts →
    ∀ d ∈ parts, ScannedName d.filename := by
  intro lines
  induction lines with
  | nil =>
      intro count parts h d hd
      cases h
      cases hd
  | cons line rest ih =>
      intro count parts h d hd
      obtain ⟨part, hline, h⟩ := Option.bind_eq_some_iff.mp h
      cases part with
      | none => exact ih h d hd
      | some part =>
          dsimp only at h
          split at h
          · cases h
            cases hd
          · obtain ⟨parts', hrest, h⟩ := Option.bind_eq_some_iff.mp h
            cases h
            rcases List.mem_cons.mp hd with rfl | hd
            · exact scannedName_of_line hline
            · exact ih hrest d hd

/-- A run of the second tool that leaves an image. -/
theorem mkfwimage_built {crc32 : List UInt8 → UInt32} {ulongMax : Nat} {files : Files}
    {inputfile version : CStr} {bytes : List UInt8}
    (h : mkfwimage crc32 ulongMax files inputfile version = some (0, some bytes)) :
    ∃ text im, files inputfile = some text ∧ parseImageLayout ulongMax text ≠ some [] ∧
      (∀ d ∈ im.parts, ValidPart (workingEnv files) d ∧ ScannedName d.filename) ∧
      im.parts.length ≤ MAX_SECTIONS ∧ imageSize im < 2 ^ 32 ∧
      bytes = imageBytes crc32 (workingEnv files) im := by
  unfold mkfwimage at h
  split at h
  · cases h
  · rename_i text htext
    obtain ⟨parts, hparse, h⟩ := Option.bind_eq_some_iff.mp h
    dsimp only at h
    split at h
    · cases h
    · rename_i im hvalid
      obtain ⟨⟨ret, image⟩, hbuild, h⟩ := Option.bind_eq_some_iff.mp h
      have hpair := Option.some.inj h
      have hret : ret = 0 := by
        by_contra hne
        have hfst := congrArg Prod.fst hpair
        simp only [hne, if_false] at hfst
        exact absurd hfst (by decide)
      have himage : image = some bytes := congrArg Prod.snd hpair
      subst hret himage
      obtain ⟨hpos, hcount, hv⟩ := validateImageLayout_ok hvalid
      obtain ⟨hsz, hbytes⟩ := buildImage_whole hv hpos (fun _ _ => ⟨rfl, rfl⟩) hbuild
      unfold validateImageLayout at hvalid
      split at hvalid
      · cases hvalid
      · rename_i hsome
        cases hparts : parts.mapM (validatePart (workingEnv files)) with
        | error e => rw [hparts] at hvalid; cases hvalid
        | ok parts' =>
            rw [hparts] at hvalid
            cases hvalid
            refine ⟨text, _, htext, ?_, fun d hd => ⟨hv d hd, ?_⟩, hcount, hsz, hbytes⟩
            · intro hnil
              rw [hnil] at hparse
              cases hparse
              exact hsome (Or.inl rfl)
            · obtain ⟨d₀, hd₀, hok⟩ := mem_of_mapM_ok hparts d hd
              have hscanned := scannedName_of_lines hparse d₀ hd₀
              rw [validatePart_fields hok]
              exact hscanned

/-- Images with the same bytes have the same parts. -/
theorem views_unique {crc32 : List UInt8 → UInt32} {env env' : Env} {im im' : ImageInfo}
    (hv : ∀ d ∈ im.parts, ValidPart env d) (hv' : ∀ d ∈ im'.parts, ValidPart env' d)
    (hcount : im.parts.length ≤ MAX_SECTIONS) (hcount' : im'.parts.length ≤ MAX_SECTIONS)
    (hsz : imageSize im < 2 ^ 32) (hsz' : imageSize im' < 2 ^ 32)
    (h : imageBytes crc32 env im = imageBytes crc32 env' im') :
    im.parts.map (layoutView env) = im'.parts.map (layoutView env') := by
  have hparse := fwParse_image crc32 hv hcount hsz (Nat.le_refl (2 ^ 32)) im'.parts.length
  have hparse' := fwParse_image crc32 hv' hcount' hsz' (Nat.le_refl (2 ^ 32)) im.parts.length
  have hfuel : im.parts.length + 1 + im'.parts.length = im'.parts.length + 1 + im.parts.length := by
    omega
  rw [hfuel, ← h, hparse] at hparse'
  have hout : parsedImage crc32 env im = parsedImage crc32 env' im' := Outcome.done.inj hparse'
  obtain ⟨entries, hentries, hviews⟩ := @fwSplit_views crc32 _ _ hv hcount
  obtain ⟨entries', hentries', hviews'⟩ := @fwSplit_views crc32 _ _ hv' hcount'
  rw [hout, hentries'] at hentries
  cases hentries
  rw [h, hviews'] at hviews
  exact (Option.some.inj hviews).symm

/-! ## An image that shows where its parts came from -/

/-- Every file exists and holds its own name. -/
def sampleEnv : Env := workingEnv fun f => some f.chars

def sampleFile (i : Nat) : CStr := CStr.ofBytes [UInt8.ofNat (i + 1)]

def samplePart (stSize i : Nat) (name : CStr) : PartData where
  partitionName := name
  partitionIndex := 0
  partitionBaseaddr := 0
  partitionMemaddr := 0
  partitionEntryaddr := 0
  partitionLength := 1
  filename := sampleFile i
  stSize := stSize

def sampleImage (stSize : Nat) (version : CStr) (names : List CStr) : ImageInfo where
  version := version
  parts := names.mapIdx (samplePart stSize)

theorem sampleFile_chars : ∀ i < 8, (sampleFile i).chars = [UInt8.ofNat (i + 1)] := by decide

theorem sampleFile_inj : ∀ i < 8, ∀ j < 8, (sampleFile i).chars = (sampleFile j).chars → i = j := by
  decide

section Sample

variable {version : CStr} {names : List CStr}

theorem sampleImage_names (stSize : Nat) :
    (sampleImage stSize version names).parts.map (·.partitionName) = names := by
  refine List.ext_getElem (by simp [sampleImage]) fun i hi hi' => ?_
  simp [sampleImage, samplePart]

/-- The parts by their place. -/
theorem mem_sampleImage {stSize : Nat} {d : PartData}
    (h : d ∈ (sampleImage stSize version names).parts) :
    ∃ i, ∃ hi : i < names.length, d = samplePart stSize i (names.get ⟨i, hi⟩) := by
  obtain ⟨i, hi, rfl⟩ := List.mem_mapIdx.mp h
  exact ⟨i, hi, rfl⟩

theorem sampleImage_valid (hpos : 0 < names.length) (hcount : names.length ≤ MAX_SECTIONS)
    (hplain : ∀ n ∈ names, PlainName n) :
    validateImageLayout sampleEnv (sampleImage 0 version names) =
      .ok (sampleImage 1 version names) := by
  have hsome : ¬ ((sampleImage 0 version names).parts.length = 0 ∨
      (sampleImage 0 version names).parts.length > MAX_SECTIONS) := by
    rw [sampleImage, List.length_mapIdx]
    omega
  have hparts : (sampleImage 0 version names).parts.mapM (validatePart sampleEnv) =
      .ok ((sampleImage 0 version names).parts.map fun d => { d with stSize := 1 }) := by
    refine mapM_of_forall fun d hd => ?_
    obtain ⟨i, hi, rfl⟩ := mem_sampleImage hd
    have hname := hplain _ (List.get_mem names ⟨i, hi⟩)
    have hpos := hname.pos
    have hle := hname.le
    have hlen : ¬ ((names.get ⟨i, hi⟩).strlen = 0 ∨ (names.get ⟨i, hi⟩).strlen > 16) := by omega
    have hdata : (sampleFile i).chars = [UInt8.ofNat (i + 1)] :=
      sampleFile_chars i (Nat.lt_of_lt_of_le hi hcount)
    have hfit : ¬ 1 > (1 : UInt32).toNat := by decide
    simp only [validatePart, samplePart, hlen, if_false, sampleEnv, workingEnv, hdata,
      List.length_singleton, Nat.one_ne_zero, hfit]
    rfl
  have hstats : ((sampleImage 0 version names).parts.map fun d => { d with stSize := 1 }) =
      (sampleImage 1 version names).parts := by
    refine List.ext_getElem (by simp [sampleImage]) fun i hi hi' => ?_
    simp [sampleImage, samplePart]
  rw [validateImageLayout, if_neg hsome, hparts, hstats]
  rfl

theorem sampleImage_size (hcount : names.length ≤ MAX_SECTIONS) :
    imageSize (sampleImage 1 version names) < 2 ^ 32 := by
  have hsum : recordsSize (sampleImage 1 version names).parts = names.length * 65 := by
    have hmap : (sampleImage 1 version names).parts.map recordSize = List.replicate names.length 65 := by
      refine List.eq_replicate_iff.mpr ⟨by simp [sampleImage], fun b hb => ?_⟩
      obtain ⟨d, hd, rfl⟩ := List.mem_map.mp hb
      obtain ⟨i, hi, rfl⟩ := mem_sampleImage hd
      rfl
    rw [recordsSize, hmap, List.sum_replicate_nat]
  rw [imageSize, hsum]
  simp only [sizeofHeader, sizeofSignature, MAX_SECTIONS] at hcount ⊢
  omega

theorem sampleImage_built (crc32 : List UInt8 → UInt32) (hpos : 0 < names.length)
    (hcount : names.length ≤ MAX_SECTIONS) (hplain : ∀ n ∈ names, PlainName n) :
    buildImage crc32 sampleEnv (sampleImage 1 version names) =
      some (0, some (imageBytes crc32 sampleEnv (sampleImage 1 version names))) := by
  obtain ⟨_, _, hv⟩ := validateImageLayout_ok (@sampleImage_valid version _ hpos hcount hplain)
  exact buildImage_eq crc32 hv ⟨rfl, fun _ _ => rfl, fun _ _ => rfl, rfl, rfl⟩ (sampleImage_size hcount)

end Sample

/-- A name whose data file is written holds the data of a part in the end. -/
theorem writeDataFiles_written {creates : CStr → Bool} {pre f : CStr} (hf : creates f = true) :
    ∀ {views : List PartView} {files : Files}, (∃ v ∈ views, fileName pre v.name.chars = f) →
    ∃ v ∈ views, writeDataFiles creates pre views files f = some v.data := by
  intro views
  induction views with
  | nil =>
      intro files h
      obtain ⟨v, hv, _⟩ := h
      cases hv
  | cons w rest ih =>
      intro files h
      rw [writeDataFiles, List.foldl_cons]
      by_cases hlater : ∃ v ∈ rest, fileName pre v.name.chars = f
      · obtain ⟨v, hv, hdata⟩ := @ih _ hlater
        exact ⟨v, List.mem_cons_of_mem _ hv, hdata⟩
      · have hname : fileName pre w.name.chars = f := by
          obtain ⟨v, hv, hname⟩ := h
          rcases List.mem_cons.mp hv with rfl | hv
          · exact hname
          · exact absurd ⟨v, hv, hname⟩ hlater
        refine ⟨w, List.mem_cons_self, (writeDataFiles_other fun v hv heq => ?_).trans ?_⟩
        · exact hlater ⟨v, hv, heq.symm⟩
        · rw [hname, if_pos hf, Function.update_self]

/-- A single character is no line of a descriptor. -/
theorem parse_single {ulongMax : Nat} : ∀ i < 8,
    parseImageLayout ulongMax [UInt8.ofNat (i + 1)] = some [] := by
  intro i hi
  have hc : ∀ i < 8, UInt8.ofNat (i + 1) ≠ 0 ∧ UInt8.ofNat (i + 1) ≠ 9 ∧ UInt8.ofNat (i + 1) ≠ 10 := by
    decide
  obtain ⟨h0, h9, h10⟩ := hc i hi
  generalize UInt8.ofNat (i + 1) = c at h0 h9 h10
  have hlines : fgetsAll 1028 [c] = [[c]] := by
    simp [fgetsAll, fgetsFrom, h10]
  have hscan : scanLayoutLine ulongMax [c] = some none := by
    have hword : scanSet 32 [9] [c] = some ([c], []) := by
      have h := @scanSet_word 32 [9] [c] [] (by simp) (by simpa using h9) (by simp) (by simp)
      simpa using h
    have hline : [c].takeWhile (· != 0) = [c] := by simp [h0]
    rw [scanLayoutLine, hline, hword]
    rfl
  rw [parseImageLayout, hlines, parseLines, hscan]
  rfl

/-- The name of a data file, cut or not. -/
theorem fileName_take {pre : CStr} {ext : List UInt8} (hnul : (0 : UInt8) ∉ ext) :
    (fileName pre ext).chars = (pre.chars ++ 46 :: ext).take 4095 := by
  refine List.takeWhile_eq_self_iff.mpr fun c hc => ?_
  have hne : c ≠ 0 := by
    have hc := List.mem_of_mem_take hc
    simp only [List.mem_append, List.mem_cons] at hc
    rcases hc with hc | rfl | hc
    · exact fun h => pre.noNul (h ▸ hc)
    · decide
    · exact fun h => hnul (h ▸ hc)
  simpa using hne

/-- A scanned name that is the name of a data file is all of it. -/
theorem fits_of_scannedName {pre : CStr} {ext : List UInt8} (hnul : (0 : UInt8) ∉ ext)
    (h : ScannedName (fileName pre ext)) :
    CleanPrefix pre ∧ pre.strlen + 1 + ext.length ≤ 128 := by
  have hle := h.le
  rw [CStr.strlen, fileName_take hnul, List.length_take, List.length_append, List.length_cons] at hle
  have hlen : pre.strlen + 1 + ext.length ≤ 128 := by
    simp only [CStr.strlen]
    omega
  have hchars := fileName_chars hnul (Nat.le_trans hlen (by decide))
  refine ⟨⟨fun h9 => ?_, fun h10 => ?_, fun c hc => ?_⟩, hlen⟩
  · exact h.noTab (by rw [hchars]; exact List.mem_append_left _ h9)
  · exact h.noNewline (by rw [hchars]; exact List.mem_append_left _ h10)
  · refine h.noSpace c ?_
    rw [hchars]
    cases hpre : pre.chars with
    | nil => rw [hpre] at hc; cases hc
    | cons x xs =>
        rw [hpre] at hc
        exact hc

section Necessary

variable {crc32 : List UInt8 → UInt32} {ptrMod ulongMax : Nat} {creates : CStr → Bool}
  {option version : CStr} {names : List CStr}

/-- In the files of the split sample, only the data file of the part at `i`
holds the data of that part. -/
theorem splitFiles_sample (hcount : names.length ≤ MAX_SECTIONS) {pre f : CStr}
    (hdescriptor : creates (fileName pre TXT) = true) (i : Fin names.length)
    (h : splitFiles creates pre ((sampleImage 1 version names).parts.map (layoutView sampleEnv))
      (fun _ => none) f = some [UInt8.ofNat (i.1 + 1)]) :
    f = fileName pre (names.get i).chars ∧ creates f = true := by
  rw [splitFiles, if_pos hdescriptor] at h
  have hlt : ∀ k : Fin names.length, k.1 < 8 := fun k => Nat.lt_of_lt_of_le k.2 hcount
  rcases writeDataFiles_cases h with h | ⟨v, hview, hname, hcreates, hdata⟩
  · exfalso
    by_cases hf : f = fileName pre TXT
    · subst hf
      rw [Function.update_self] at h
      have hlen := congrArg List.length (Option.some.inj h)
      cases hparts : (sampleImage 1 version names).parts with
      | nil =>
          rw [hparts] at hlen
          simp [descriptor] at hlen
      | cons d rest =>
          rw [hparts] at hlen
          simp only [descriptor, descriptorLine, List.map_cons, List.flatMap_cons, List.length_append,
            List.length_cons, List.length_nil] at hlen
          omega
    · rw [Function.update_of_ne hf] at h
      cases h
  · obtain ⟨d, hd, rfl⟩ := List.mem_map.mp hview
    obtain ⟨j, hj, rfl⟩ := mem_sampleImage hd
    have hsame : (sampleFile i.1).chars = (sampleFile j).chars := by
      rw [sampleFile_chars i.1 (hlt i)]
      exact hdata
    have hij := sampleFile_inj i.1 (hlt i) j (hlt ⟨j, hj⟩) hsame
    subst hij
    exact ⟨hname, hcreates⟩

/-- The prefix fits, if the sample comes back. -/
theorem prefixFits_of_rebuilds (hptr : 2 ^ 32 ≤ ptrMod) (hver : version.strlen ≤ 255)
    (hpos : 0 < names.length) (hcount : names.length ≤ MAX_SECTIONS)
    (hplain : ∀ n ∈ names, PlainName n)
    (h : SplitRebuilds crc32 ptrMod ulongMax creates (fun _ => none) option version
      (imageBytes crc32 sampleEnv (sampleImage 1 version names))) :
    PrefixFits creates names (prefixOf option version) := by
  obtain ⟨fuel, files, hsplit, hmake⟩ := h
  obtain ⟨_, hcount', hv⟩ :=
    validateImageLayout_ok (@sampleImage_valid version _ hpos hcount hplain)
  have hsz := @sampleImage_size version _ hcount
  have hfiles := doFwsplit_unique hv hcount' hsz hptr hver hsplit
  obtain ⟨text, im, htext, hsome, hparts, hcountIm, hszIm, hbytes⟩ := mkfwimage_built hmake
  have hviews := views_unique hv (fun d hd => (hparts d hd).1) hcount' hcountIm hsz hszIm hbytes
  change files = splitFiles creates (prefixOf option version) _ _ at hfiles
  generalize prefixOf option version = pre at hfiles htext
  have hdescriptor : creates (fileName pre TXT) = true := by
    by_contra hno
    rw [hfiles, splitFiles, if_neg hno] at htext
    cases htext
  -- the part at `i` was read from its own data file
  have hown : ∀ i : Fin names.length, ScannedName (fileName pre (names.get i).chars) ∧
      creates (fileName pre (names.get i).chars) = true := by
    intro i
    have hmem : layoutView sampleEnv (samplePart 1 i.1 (names.get i)) ∈
        (sampleImage 1 version names).parts.map (layoutView sampleEnv) := by
      refine List.mem_map_of_mem (List.mem_mapIdx.mpr ⟨i.1, i.2, rfl⟩)
    rw [hviews] at hmem
    obtain ⟨d, hd, hview⟩ := List.mem_map.mp hmem
    obtain ⟨hvalid, hscanned⟩ := hparts d hd
    have hdata : partData (workingEnv files) d = [UInt8.ofNat (i.1 + 1)] :=
      (congrArg PartView.data hview).trans
        (sampleFile_chars i.1 (Nat.lt_of_lt_of_le i.2 hcount))
    have hfile : files d.filename = some [UInt8.ofNat (i.1 + 1)] := by
      rw [← hdata]
      exact hvalid.exists_file
    rw [hfiles] at hfile
    obtain ⟨hname, hcreates⟩ := splitFiles_sample hcount hdescriptor i hfile
    rw [← hname]
    exact ⟨hscanned, hcreates⟩
  have hfits : ∀ i : Fin names.length, CleanPrefix pre ∧ pre.strlen + 1 + (names.get i).strlen ≤ 128 :=
    fun i => fits_of_scannedName (names.get i).noNul (hown i).1
  have hnotTxt : ∀ i : Fin names.length, (names.get i).chars ≠ TXT := by
    intro i htxt
    have hwritten : ∃ v ∈ (sampleImage 1 version names).parts.map (layoutView sampleEnv),
        fileName pre v.name.chars = fileName pre TXT := by
      refine ⟨_, List.mem_map_of_mem (List.mem_mapIdx.mpr ⟨i.1, i.2, rfl⟩), ?_⟩
      rw [← htxt]
      rfl
    rw [hfiles, splitFiles, if_pos hdescriptor] at htext
    obtain ⟨v, hview, hdata⟩ := @writeDataFiles_written creates pre _ hdescriptor _
      (Function.update (fun _ => none) (fileName pre TXT) (some (descriptor pre
        ((sampleImage 1 version names).parts.map (layoutView sampleEnv))))) hwritten
    rw [hdata] at htext
    obtain ⟨d, hd, rfl⟩ := List.mem_map.mp hview
    obtain ⟨j, hj, rfl⟩ := mem_sampleImage hd
    have hj8 : j < 8 := Nat.lt_of_lt_of_le hj hcount
    have hsingle : text = [UInt8.ofNat (j + 1)] := by
      rw [← sampleFile_chars j hj8]
      exact (Option.some.inj htext).symm
    rw [hsingle] at hsome
    exact hsome (parse_single j hj8)
  have hindex : ∀ n ∈ names, ∃ i, names.get i = n := fun n hn => List.mem_iff_get.mp hn
  refine ⟨(hfits ⟨0, hpos⟩).1, hdescriptor, fun n hn => ?_, fun n hn => ?_, fun n hn => ?_⟩
  · obtain ⟨i, rfl⟩ := hindex n hn
    exact (hfits i).2
  · obtain ⟨i, rfl⟩ := hindex n hn
    exact hnotTxt i
  · obtain ⟨i, rfl⟩ := hindex n hn
    exact (hown i).2

end Necessary

/-! ## Images with a hole -/

section Holes

variable {crc32 : List UInt8 → UInt32}

/-- Where records and holes are followed by a signature and the whole is a row
of records, there is no hole. -/
theorem reads_of_records {env env' : Env} {a b : List UInt8} : ∀ {parts parts' : List PartData},
    (∀ d ∈ parts, ValidPart env d) → (∀ d ∈ parts', ValidPart env' d) →
    recordsOrHoles crc32 env parts ++ signatureBytes crc32 a =
      partRecords crc32 env' parts' ++ signatureBytes crc32 b →
    ∀ d ∈ parts, env.Reads d := by
  intro parts
  induction parts with
  | nil =>
      intro parts' _ _ _ d hd
      cases hd
  | cons d rest ih =>
      intro parts' hv hv' h
      have hrow : recordsOrHoles crc32 env (d :: rest) =
          recordOrHole crc32 env d ++ recordsOrHoles crc32 env rest := by
        simp [recordsOrHoles]
      rw [hrow, List.append_assoc] at h
      have hhole : ¬ env.Reads d →
          (recordOrHole crc32 env d ++ (recordsOrHoles crc32 env rest ++ signatureBytes crc32 a)).head? =
            some 0 := by
        intro hno
        have hsize : recordSize d = recordSize d - 1 + 1 := by
          simp only [recordSize, sizeofPart]
          omega
        rw [recordOrHole, if_neg hno, hsize, List.replicate_succ]
        rfl
      have hrecord : env.Reads d →
          (recordOrHole crc32 env d ++ (recordsOrHoles crc32 env rest ++ signatureBytes crc32 a)).head? =
            some 0x50 := by
        intro hyes
        rw [recordOrHole, if_pos hyes]
        rfl
      cases parts' with
      | nil =>
          -- no record begins like a signature
          have hend : (partRecords crc32 env' [] ++ signatureBytes crc32 b).head? = some 0x45 := rfl
          exfalso
          by_cases hreads : env.Reads d
          · have hhead := hrecord hreads
            rw [h, hend] at hhead
            exact absurd hhead (by decide)
          · have hhead := hhole hreads
            rw [h, hend] at hhead
            exact absurd hhead (by decide)
      | cons d' rest' =>
          have hrow' : partRecords crc32 env' (d' :: rest') =
              partRecord crc32 d' (partData env' d') ++ partRecords crc32 env' rest' := by
            simp [partRecords]
          rw [hrow', List.append_assoc] at h
          by_cases hreads : env.Reads d
          · rw [recordOrHole, if_pos hreads] at h
            have hvd := hv d List.mem_cons_self
            have hvd' := hv' d' List.mem_cons_self
            have hfield := u32be?_dataSize crc32 [] (recordsOrHoles crc32 env rest ++
              signatureBytes crc32 a) d (partData env d)
            have hfield' := u32be?_dataSize crc32 [] (partRecords crc32 env' rest' ++
              signatureBytes crc32 b) d' (partData env' d')
            rw [List.nil_append, h] at hfield
            rw [List.nil_append, hfield] at hfield'
            have hlt : d.stSize < 2 ^ 32 := Nat.lt_of_le_of_lt hvd.data_le d.partitionLength.toNat_lt
            have hlt' : d'.stSize < 2 ^ 32 := Nat.lt_of_le_of_lt hvd'.data_le d'.partitionLength.toNat_lt
            have hsize : d.stSize = d'.stSize := by
              have hnat := congrArg UInt32.toNat (Option.some.inj hfield')
              rwa [UInt32.toNat_ofNat_of_lt' hlt, UInt32.toNat_ofNat_of_lt' hlt'] at hnat
            have hlen : (partRecord crc32 d (partData env d)).length =
                (partRecord crc32 d' (partData env' d')).length := by
              rw [partRecord_length, partRecord_length, hvd.data_length, hvd'.data_length, hsize]
            have htail := (List.append_inj h hlen).2
            have hrest := ih (fun x hx => hv x (List.mem_cons_of_mem _ hx))
              (fun x hx => hv' x (List.mem_cons_of_mem _ hx)) htail
            intro x hx
            rcases List.mem_cons.mp hx with rfl | hx
            · exact hreads
            · exact hrest x hx
          · exfalso
            have hhead := hhole hreads
            rw [h] at hhead
            exact absurd hhead (by change some (0x50 : UInt8) ≠ some 0; decide)

/-- An image in which a part was left out does not come back. -/
theorem hole_not_rebuilt {ptrMod ulongMax : Nat} {creates : CStr → Bool} {env : Env} {im : ImageInfo}
    {bytes : List UInt8} {files : Files} {option : CStr} (hv : ∀ d ∈ im.parts, ValidPart env d)
    (hsz : imageSize im < 2 ^ 32) (hbuild : buildImage crc32 env im = some (0, some bytes))
    (h : SplitRebuilds crc32 ptrMod ulongMax creates files option im.version bytes) :
    ∀ d ∈ im.parts, env.Reads d := by
  obtain ⟨_, files', _, hmake⟩ := h
  obtain ⟨_, im', _, _, hparts, _, _, hbytes⟩ := mkfwimage_built hmake
  rw [buildImage_holes hv hsz hbuild, imageWithHoles, imageBytes, imageFront, List.append_assoc,
    List.append_assoc] at hbytes
  have hlen : (headerBytes crc32 im.version).length = (headerBytes crc32 im'.version).length := by
    rw [headerBytes_length, headerBytes_length]
  exact reads_of_records hv (fun d hd => (hparts d hd).1) (List.append_inj hbytes hlen).2

end Holes

/-! ## When an image comes back -/

/-- Every image with this version and these part names, for which all files
were read, comes back from any files exactly when the prefix fits. An image
with a hole does not come back. -/
theorem splitRebuilds_iff (crc32 : List UInt8 → UInt32) {ptrMod ulongMax : Nat}
    (creates : CStr → Bool) (option : CStr) {version : CStr} {names : List CStr}
    (hptr : 2 ^ 32 ≤ ptrMod) (hmax : 2 ^ 32 ≤ ulongMax + 1) (hver : version.strlen ≤ 255)
    (hpos : 0 < names.length) (hcount : names.length ≤ MAX_SECTIONS)
    (hplain : ∀ n ∈ names, PlainName n) (hnodup : names.Nodup) :
    ((∀ env im₀ im bytes files, validateImageLayout env im₀ = .ok im → im.version = version →
        im.parts.map (·.partitionName) = names → (∀ d ∈ im.parts, env.Reads d) →
        buildImage crc32 env im = some (0, some bytes) →
        SplitRebuilds crc32 ptrMod ulongMax creates files option version bytes) ↔
      PrefixFits creates names (prefixOf option version)) ∧
    (∀ env im₀ im bytes files, validateImageLayout env im₀ = .ok im → im.version = version →
        im.parts.map (·.partitionName) = names → imageSize im < 2 ^ 32 →
        ¬ (∀ d ∈ im.parts, env.Reads d) → buildImage crc32 env im = some (0, some bytes) →
        ¬ SplitRebuilds crc32 ptrMod ulongMax creates files option version bytes) := by
  refine ⟨⟨fun h => ?_, fun hfits => ?_⟩, ?_⟩
  · have hbuilt := @sampleImage_built version _ crc32 hpos hcount hplain
    exact prefixFits_of_rebuilds hptr hver hpos hcount hplain
      (h sampleEnv (sampleImage 0 version names) (sampleImage 1 version names) _ _
        (sampleImage_valid hpos hcount hplain) rfl (sampleImage_names 1) (fun _ _ => ⟨rfl, rfl⟩) hbuilt)
  · intro env im₀ im bytes files hval hversion hnames hreads hbuild
    subst hversion hnames
    obtain ⟨hpos', hcount', hv⟩ := validateImageLayout_ok hval
    obtain ⟨hsz, rfl⟩ := buildImage_whole hv hpos' hreads hbuild
    have hplain' : ∀ d ∈ im.parts, PlainName d.partitionName := fun d hd =>
      hplain _ (List.mem_map_of_mem hd)
    exact ⟨_, _, doFwsplit_image hv hcount' hsz hptr hver creates option files 0,
      mkfwimage_splitFiles hmax hv hpos' hcount' hsz hplain' hnodup hfits⟩
  · intro env im₀ im bytes files hval hversion _ hsz hhole hbuild h
    subst hversion
    exact hhole (hole_not_rebuilt (validateImageLayout_ok hval).2.2 hsz hbuild h)

def kernelName : CStr := ⟨[0x6b, 0x65, 0x72, 0x6e, 0x65, 0x6c], by decide⟩
def rootfsName : CStr := ⟨[0x72, 0x6f, 0x6f, 0x74, 0x66, 0x73], by decide⟩

theorem noNul_empty : (0 : UInt8) ∉ ([] : List UInt8) := by decide

def emptyOption : CStr := ⟨[], noNul_empty⟩

theorem noNul_v1 : (0 : UInt8) ∉ [0x76, 0x31] := by decide

def shortVersion : CStr := ⟨[0x76, 0x31], noNul_v1⟩

theorem kernelName_plain : PlainName kernelName where
  pos := by decide
  le := by decide
  noTab := by decide
  noNewline := by decide
  noSlash := by decide

theorem rootfsName_plain : PlainName rootfsName where
  pos := by decide
  le := by decide
  noTab := by decide
  noNewline := by decide
  noSlash := by decide

theorem twoNames_plain : ∀ n ∈ [kernelName, rootfsName], PlainName n := by
  intro n hn
  rcases List.mem_cons.mp hn with rfl | hn
  · exact kernelName_plain
  · rw [List.mem_singleton.mp hn]
    exact rootfsName_plain

theorem shortVersion_fits :
    PrefixFits (fun _ => true) [kernelName, rootfsName] (prefixOf emptyOption shortVersion) where
  clean := by
    refine ⟨by decide, by decide, fun c hc => ?_⟩
    have hv : c = 0x76 := (Option.mem_some_iff.mp hc).symm
    rw [hv]
    rfl
  descriptor := rfl
  fits := by decide
  notTxt := by decide
  created := fun _ _ => rfl

theorem splitRebuilds_twoNames :
    SplitRebuilds zlibCrc32 (2 ^ 64) (2 ^ 64 - 1) (fun _ => true) (fun _ => none) emptyOption
      shortVersion (imageBytes zlibCrc32 sampleEnv
        (sampleImage 1 shortVersion [kernelName, rootfsName])) :=
  (splitRebuilds_iff zlibCrc32 (fun _ => true) emptyOption (by decide) (by decide) (by decide)
    (by decide) (by decide) twoNames_plain (by decide)).1.mpr shortVersion_fits sampleEnv
    (sampleImage 0 shortVersion [kernelName, rootfsName]) _ _ _
    (sampleImage_valid (by decide) (by decide) twoNames_plain) rfl rfl (fun _ _ => ⟨rfl, rfl⟩)
    (sampleImage_built zlibCrc32 (by decide) (by decide) twoNames_plain)

/-- A version of 122 bytes, for an image of one part `kernel`: the name of the
data file has 129 bytes, and is cut when the descriptor is scanned. -/
def longVersion : CStr :=
  ⟨List.replicate 122 0x76, fun h => absurd (List.eq_of_mem_replicate h) (by decide)⟩

theorem longVersion_notRebuilt :
    validateImageLayout sampleEnv (sampleImage 0 longVersion [kernelName]) =
      .ok (sampleImage 1 longVersion [kernelName]) ∧
    (∀ d ∈ (sampleImage 1 longVersion [kernelName]).parts, sampleEnv.Reads d) ∧
    buildImage zlibCrc32 sampleEnv (sampleImage 1 longVersion [kernelName]) =
      some (0, some (imageBytes zlibCrc32 sampleEnv (sampleImage 1 longVersion [kernelName]))) ∧
    ¬ SplitRebuilds zlibCrc32 (2 ^ 64) (2 ^ 64 - 1) (fun _ => true) (fun _ => none) emptyOption
      longVersion (imageBytes zlibCrc32 sampleEnv (sampleImage 1 longVersion [kernelName])) := by
  have hplain : ∀ n ∈ [kernelName], PlainName n := by
    intro n hn
    rw [List.mem_singleton.mp hn]
    exact kernelName_plain
  refine ⟨sampleImage_valid (by decide) (by decide) hplain, fun _ _ => ⟨rfl, rfl⟩,
    sampleImage_built zlibCrc32 (by decide) (by decide) hplain, fun h => ?_⟩
  have hlen : longVersion.strlen = 122 := List.length_replicate
  have hfits := prefixFits_of_rebuilds (by decide) (by omega) (by decide) (by decide) hplain h
  have hname := hfits.fits kernelName List.mem_cons_self
  change longVersion.strlen + 1 + kernelName.strlen ≤ 128 at hname
  have hkernel : kernelName.strlen = 6 := rfl
  omega

end UbntSdk.Firmware
