/-
UbntSdk.Nvram.CommitTheorems — commit, reload and loss.

Two results about `nvram_commit` on every table a run can build.
`commit_reload` is the round trip: if no name holds a `=` and the strings
fit, every variable has its value after the commit and again after
`nvram_open` on the image, and at most the four `sdram_*` variables are
new. `commit_keeps_iff` says that these two conditions are exact: the
commit returns 0 in any case, and it loses a variable as soon as one of
them fails. A name with a `=` comes back as a shorter name, and the
`break` of the space check drops tuples without an error.

The proofs read the new table off `nvramCommit_spec`. `get_setAll` is what
the parser's sets make of the written tuples, `Adds` what the header
variables may add to it.
-/
import UbntSdk.Nvram.MapTheorems
import Mathlib.Data.List.Perm.Subperm

namespace UbntSdk.Nvram

open UbntSdk.Lib

/-! ## The table after the parser's sets -/

theorem setAll_ok {h : Store} (hok : h.Ok) (ts : List Tuple) : (setAll h ts).Ok := by
  induction ts generalizing h with
  | nil => exact hok
  | cons t ts ih => exact ih (nvramSet_ok hok t.name t.value)

/-- Setting tuples of different names: a name has the value of its tuple,
or the value it had. -/
theorem get_setAll {h : Store} (hok : h.Ok) {ts : List Tuple} (hnodup : (ts.map Tuple.name).Nodup)
    (hfits : ∀ t ∈ ts, Fits t.value) (k : CStr) :
    nvramGet (setAll h ts) (some k)
      = ((ts.find? fun t => t.name = k).map Tuple.value).or (nvramGet h (some k)) := by
  induction ts generalizing h with
  | nil => rfl
  | cons t ts ih =>
      rw [List.map_cons, List.nodup_cons] at hnodup
      obtain ⟨hnew, hnodup⟩ := hnodup
      have hfit : Fits t.value := hfits t List.mem_cons_self
      show nvramGet (setAll (nvramSet h t.name t.value).2 ts) (some k) = _
      rw [ih (nvramSet_ok hok _ _) hnodup fun u hu => hfits u (List.mem_cons_of_mem _ hu),
        get_set hok]
      by_cases hk : t.name = k
      · -- no later tuple has the name
        have hnone : ts.find? (fun u => u.name = k) = none := by
          rw [List.find?_eq_none]
          intro u hu hname
          refine hnew (List.mem_map.mpr ⟨u, hu, ?_⟩)
          rw [hk]
          simpa using hname
        simp [hk, hnone, hfit]
      · have hk' : ¬ k = t.name := fun h => hk h.symm
        simp [hk, hk']

/-- A name that is bound afterwards was bound before or is set. -/
theorem name_of_get_setAll {h : Store} (hok : h.Ok) {ts : List Tuple} {k : CStr}
    (hlive : nvramGet (setAll h ts) (some k) ≠ none) :
    nvramGet h (some k) ≠ none ∨ ∃ t ∈ ts, t.name = k := by
  induction ts generalizing h with
  | nil => exact Or.inl hlive
  | cons t ts ih =>
      rcases ih (nvramSet_ok hok t.name t.value) hlive with hget | ⟨u, hu, hname⟩
      · rw [get_set hok] at hget
        split at hget
        · rename_i hc
          exact Or.inr ⟨t, List.mem_cons_self, hc.1.symm⟩
        · exact Or.inl hget
      · exact Or.inr ⟨u, List.mem_cons_of_mem _ hu, hname⟩

/-! ## The variables of the header -/

/-- The second table has the variables of the first, and new ones only
under the names. -/
def Adds (names : List CStr) (h h' : Store) : Prop :=
  ∀ k, nvramGet h' (some k) = nvramGet h (some k) ∨ (nvramGet h (some k) = none ∧ k ∈ names)

theorem Adds.trans {names names' : List CStr} {h h' h'' : Store} (h₁ : Adds names h h')
    (h₂ : Adds names' h' h'') : Adds (names ++ names') h h'' := by
  intro k
  rcases h₁ k with heq₁ | ⟨hnone, hmem⟩
  · rcases h₂ k with heq₂ | ⟨hnone, hmem⟩
    · exact Or.inl (heq₂.trans heq₁)
    · exact Or.inr ⟨heq₁ ▸ hnone, List.mem_append_right _ hmem⟩
  · exact Or.inr ⟨hnone, List.mem_append_left _ hmem⟩

theorem setMissing_adds {h : Store} (hok : h.Ok) (name value : CStr) :
    Adds [name] h (setMissing h name value) := by
  intro k
  unfold setMissing
  split
  · exact Or.inl rfl
  · rename_i hnone
    rw [get_set hok]
    split
    · rename_i hc
      rw [hc.1]
      exact Or.inr ⟨hnone, List.mem_singleton_self name⟩
    · exact Or.inl rfl

/-- The names `_nvram_rehash` adds when they are missing. -/
def sdramNames : List CStr := [sdramInit, sdramConfig, sdramRefresh, sdramNcdl]

theorem setSdram_adds {h : Store} (hok : h.Ok) (hd : Header) :
    Adds sdramNames h (setSdram hd h) := by
  have hok₁ := setMissing_ok hok sdramInit (sprintfHex 4 ((hd.crcVerInit >>> 16) &&& 0xffff))
  have hok₂ := setMissing_ok hok₁ sdramConfig (sprintfHex 4 (hd.configRefresh &&& 0xffff))
  have hok₃ := setMissing_ok hok₂ sdramRefresh
    (sprintfHex 4 ((hd.configRefresh >>> 16) &&& 0xffff))
  exact (((setMissing_adds hok _ _).trans (setMissing_adds hok₁ _ _)).trans
    (setMissing_adds hok₂ _ _)).trans (setMissing_adds hok₃ _ _)

/-! ## The round trip -/

/-- In an image that fits, each string does. -/
theorem line_of_imageFits {ts : List Tuple} (h : ImageFits ts) {t : Tuple} (ht : t ∈ ts) :
    (line t).strlen + 1 ≤ DATA_ROOM := by
  obtain ⟨before, after, rfl⟩ := List.append_of_mem ht
  simp only [ImageFits, image_append, image_cons, List.length_append, CStr.bytesZ_length] at h
  omega

theorem fits_of_imageFits {ts : List Tuple} (h : ImageFits ts) {t : Tuple} (ht : t ∈ ts) :
    Fits t.value := by
  have hline := line_of_imageFits h ht
  have hstr := line_strlen t
  simp only [DATA_ROOM, NVRAM_SPACE, HEADER_SIZE] at hline
  simp only [Fits, NVRAM_SPACE]
  omega

/-- Parsing the strings of a whole table gives the table back, if no name
holds a `=`. -/
theorem reload_adds {h : Store} (hok : h.Ok)
    (hnames : ∀ t ∈ entries h.nvramHash, EQ ∉ t.name.chars)
    (hfits : ImageFits (entries h.nvramHash)) (hd : Header) :
    Adds sdramNames h
      (setSdram hd (setAll Store.empty ((entries h.nvramHash).map reparse))) := by
  have hsame : (entries h.nvramHash).map reparse = entries h.nvramHash :=
    (List.map_congr_left fun t ht => reparse_eq (hnames t ht)).trans (List.map_id' _)
  rw [hsame]
  have hget : ∀ k, nvramGet (setAll Store.empty (entries h.nvramHash)) (some k)
      = nvramGet h (some k) := by
    intro k
    rw [get_setAll empty_ok (entries_nodup hok) fun t ht => fits_of_imageFits hfits ht]
    cases hfind : (entries h.nvramHash).find? fun t => t.name = k with
    | some t =>
        have hmem := (mem_entries_get hok t).mp (List.mem_of_find?_eq_some hfind)
        have hname : t.name = k := by simpa using List.find?_some hfind
        rw [← hname, hmem]
        rfl
    | none =>
        cases hk : nvramGet h (some k) with
        | none => rfl
        | some value =>
            have hmem := (mem_entries_get hok ⟨k, value⟩).mpr hk
            have hne := List.find?_eq_none.mp hfind _ hmem
            simp at hne
  intro k
  rcases setSdram_adds (setAll_ok empty_ok _) hd k with heq | ⟨hnone, hmem⟩
  · exact Or.inl (heq.trans (hget k))
  · exact Or.inr ⟨(hget k).symm.trans hnone, hmem⟩

/-- Commit and reload: for every table a run builds, with no `=` in a name
and strings that fit, every name has its value after the commit and after
opening the image that was written, and only missing `sdram_*` names are
new. -/
theorem commit_reload (start : Store) (hstart : Start start) (ops : List Op) (m : Mapping)
    (hnames : ∀ t ∈ entries (runOps start ops).nvramHash, EQ ∉ t.name.chars)
    (hfits : ImageFits (entries (runOps start ops).nvramHash)) :
    ∃ h, nvramCommit ⟨m, runOps start ops⟩ = some (0, h) ∧
      Adds sdramNames (runOps start ops) h.store ∧
      ∀ m' : Mapping, m'.bytes = h.mmap.bytes →
        ∃ h', nvramOpen m' = some (some h') ∧ Adds sdramNames (runOps start ops) h'.store := by
  have hok := runOps_ok (start_ok hstart) ops
  obtain ⟨m₁, low, rest, hd, written, hcommit, harea, hmagic, _, _, hall⟩ :=
    nvramCommit_spec ⟨m, runOps start ops⟩
  have hwritten : written = entries (runOps start ops).nvramHash := hall hfits
  subst hwritten
  refine ⟨_, hcommit, reload_adds hok hnames hfits hd, fun m' hm' => ?_⟩
  have harea' : m'.Area low hd.bytes (image (entries (runOps start ops).nvramHash) ++ 0 :: rest) :=
    ⟨hm'.trans harea.bytes, harea.headSize, harea.dataSize⟩
  obtain ⟨m₂, hopen⟩ := nvramOpen_image harea' hmagic
  exact ⟨_, hopen, reload_adds hok hnames hfits hd⟩

/-- A blank erase block of the size of the NVRAM area. -/
def blankBlock : Mapping where
  addr := 0
  bytes := List.replicate NVRAM_SPACE 0xff
  space := by rw [List.length_replicate]
  aligned := by rw [List.length_replicate]; decide
  user := by rw [List.length_replicate]; decide

/-- The variable `a` with the value `b=` survives. -/
theorem commit_reload_a :
    ∃ h, nvramCommit ⟨blankBlock, runOps Store.empty [.set (text ['a']) (text ['b', '='])]⟩
        = some (0, h) ∧
      Adds sdramNames (runOps Store.empty [.set (text ['a']) (text ['b', '='])]) h.store ∧
      ∀ m' : Mapping, m'.bytes = h.mmap.bytes →
        ∃ h', nvramOpen m' = some (some h') ∧
          Adds sdramNames (runOps Store.empty [.set (text ['a']) (text ['b', '='])]) h'.store :=
  commit_reload Store.empty (Or.inl rfl) [.set (text ['a']) (text ['b', '='])] blankBlock
    (by decide) (by decide)

/-! ## Loss -/

/-- The strings of the NVRAM area up to the empty one. -/
def imageStrings (m : Mapping) : List (List UInt8) :=
  ((m.bytes.drop (m.header + HEADER_SIZE)).splitOn 0).takeWhile (· ≠ [])

theorem imageStrings_area {m : Mapping} {low head rest : List UInt8} {ts : List Tuple}
    (h : m.Area low head (image ts ++ 0 :: rest)) :
    imageStrings m = ts.map fun t => (line t).chars := by
  have hdrop : m.bytes.drop (m.header + HEADER_SIZE) = image ts ++ 0 :: rest := by
    rw [h.header_eq, ← h.headSize, h.bytes, ← List.length_append, ← List.append_assoc,
      List.drop_left]
  rw [imageStrings, hdrop]
  clear h hdrop
  induction ts with
  | nil =>
      rw [image_nil, List.nil_append, List.splitOn_eq_splitOnP]
      have hempty : (([] : List UInt8) ++ 0 :: rest).splitOnP (· == 0)
          = [] :: rest.splitOnP (· == 0) :=
        List.splitOnP_append_cons_of_forall_mem (by simp) 0 rfl rest
      rw [List.nil_append] at hempty
      rw [hempty]
      rfl
  | cons t ts ih =>
      have hnoNul : ∀ c ∈ (line t).chars, (c == (0 : UInt8)) = false := by
        intro c hc
        have hne : c ≠ 0 := fun h0 => (line t).noNul (h0 ▸ hc)
        simpa using hne
      have hne : (line t).chars ≠ [] := by simp [line]
      have hsplit : image (t :: ts) ++ 0 :: rest
          = (line t).chars ++ 0 :: (image ts ++ 0 :: rest) := by
        simp [CStr.bytesZ, List.append_assoc]
      rw [hsplit, List.splitOn_eq_splitOnP,
        List.splitOnP_append_cons_of_forall_mem hnoNul 0 rfl, List.takeWhile_cons_of_pos
        (by simpa using hne), ← List.splitOn_eq_splitOnP, ih]
      rfl

/-- Every variable that was live is in the image and in the new table. -/
def NoLoss (before : Store) (after : Handle) : Prop :=
  ∀ t : Tuple, nvramGet before (some t.name) = some t.value →
    (line t).chars ∈ imageStrings after.mmap ∧
    nvramGet after.store (some t.name) = some t.value

/-- Names that come out of the parser have no `=`. -/
theorem noEq_of_reload {hd : Header} {ts : List Tuple} {k : CStr}
    (h : nvramGet (setSdram hd (setAll Store.empty (ts.map reparse))) (some k) ≠ none) :
    EQ ∉ k.chars := by
  have hsdram : ∀ k ∈ sdramNames, EQ ∉ k.chars := by decide
  rcases setSdram_adds (setAll_ok empty_ok _) hd k with heq | ⟨_, hmem⟩
  · rw [heq] at h
    rcases name_of_get_setAll empty_ok h with hempty | ⟨u, hu, hname⟩
    · exact absurd rfl hempty
    · obtain ⟨t, _, rfl⟩ := List.mem_map.mp hu
      rw [← hname]
      intro hmem
      have hne := List.mem_takeWhile_imp hmem
      simp at hne
  · exact hsdram k hmem

/-- Tuples with names free of `=` have different strings. -/
theorem line_injective {t u : Tuple} (ht : EQ ∉ t.name.chars) (hu : EQ ∉ u.name.chars)
    (h : (line t).chars = (line u).chars) : t = u := by
  have hline : line t = line u := CStr.ext_chars h
  have hparse : reparse t = reparse u := by
    rw [reparse, hline]
    rfl
  rwa [reparse_eq ht, reparse_eq hu] at hparse

/-- The exact condition, for a committed handle. -/
theorem noLoss_iff {h : Store} (hok : h.Ok) {m : Mapping} {low rest : List UInt8} {hd : Header}
    {written : List Tuple} (harea : m.Area low hd.bytes (image written ++ 0 :: rest))
    (hroom : ImageFits written) (hsub : written.Sublist (entries h.nvramHash))
    (hall : ImageFits (entries h.nvramHash) → written = entries h.nvramHash) :
    NoLoss h ⟨m, setSdram hd (setAll Store.empty (written.map reparse))⟩ ↔
      (∀ t ∈ entries h.nvramHash, EQ ∉ t.name.chars) ∧ ImageFits (entries h.nvramHash) := by
  constructor
  · intro hkeep
    have hnames : ∀ t ∈ entries h.nvramHash, EQ ∉ t.name.chars := by
      intro t ht
      obtain ⟨_, hget⟩ := hkeep t ((mem_entries_get hok t).mp ht)
      refine @noEq_of_reload hd written t.name ?_
      rw [hget]
      exact Option.some_ne_none _
    refine ⟨hnames, ?_⟩
    -- every live tuple was written, so what was written is everything
    have hmem : ∀ t ∈ entries h.nvramHash, t ∈ written := by
      intro t ht
      obtain ⟨himage, _⟩ := hkeep t ((mem_entries_get hok t).mp ht)
      rw [imageStrings_area harea] at himage
      obtain ⟨u, hu, hline⟩ := List.mem_map.mp himage
      have heq : u = t := line_injective (hnames u (hsub.subset hu)) (hnames t ht) hline
      rwa [← heq]
    have hnodup : (entries h.nvramHash).Nodup := (entries_nodup hok).of_map _
    have hlen : (entries h.nvramHash).length ≤ written.length :=
      (List.subperm_of_subset hnodup hmem).length_le
    rw [← hsub.eq_of_length_le hlen]
    exact hroom
  · rintro ⟨hnames, hfits⟩ t hlive
    have hmem := (mem_entries_get hok t).mpr hlive
    obtain rfl := hall hfits
    refine ⟨?_, ?_⟩
    · show (line t).chars ∈ imageStrings m
      rw [imageStrings_area harea]
      exact List.mem_map.mpr ⟨t, hmem, rfl⟩
    · rcases reload_adds hok hnames hfits hd t.name with heq | ⟨hnone, _⟩
      · exact heq.trans hlive
      · rw [hnone] at hlive
        cases hlive

/-- The commit of any table a run builds returns 0, and it keeps every live
variable iff no live name holds a `=` and the strings fit. -/
theorem commit_keeps_iff (start : Store) (hstart : Start start) (ops : List Op) (m : Mapping) :
    (∃ h, nvramCommit ⟨m, runOps start ops⟩ = some (0, h)) ∧
    ((∀ h, nvramCommit ⟨m, runOps start ops⟩ = some (0, h) → NoLoss (runOps start ops) h) ↔
      (∀ t ∈ entries (runOps start ops).nvramHash, EQ ∉ t.name.chars) ∧
      ImageFits (entries (runOps start ops).nvramHash)) := by
  have hok := runOps_ok (start_ok hstart) ops
  obtain ⟨m₁, low, rest, hd, written, hcommit, harea, _, hroom, hsub, hall⟩ :=
    nvramCommit_spec ⟨m, runOps start ops⟩
  refine ⟨⟨_, hcommit⟩, ?_⟩
  rw [← noLoss_iff hok harea hroom hsub hall]
  constructor
  · exact fun h => h _ hcommit
  · intro hkeep h hh
    rw [hcommit] at hh
    cases hh
    exact hkeep

/-- A single small variable is kept. -/
theorem commit_keeps_a :
    ∃ h, nvramCommit ⟨blankBlock, runOps Store.empty [.set (text ['a']) (text ['b'])]⟩
        = some (0, h) ∧ NoLoss (runOps Store.empty [.set (text ['a']) (text ['b'])]) h := by
  obtain ⟨⟨h, hcommit⟩, hkeeps⟩ :=
    commit_keeps_iff Store.empty (Or.inl rfl) [.set (text ['a']) (text ['b'])] blankBlock
  exact ⟨h, hcommit, hkeeps.mpr ⟨by decide, by decide⟩ h hcommit⟩

/-- The longest value that `nvram_set` takes: 0x7fff times `x`. -/
def longValue : CStr where
  chars := List.replicate 0x7fff 120
  noNul := fun h => absurd (List.eq_of_mem_replicate h) (by decide)

theorem longValue_strlen : longValue.strlen = 0x7fff := List.length_replicate

theorem runOps_set (h : Store) (name value : CStr) :
    runOps h [.set name value] = (nvramSet h name value).2 := rfl

/-- `nvram_set` accepts the variable, the commit returns 0, and the
variable is gone. -/
theorem commit_loses_longValue :
    (nvramSet Store.empty (text ['a']) longValue).1 = 0 ∧
    ∃ h, nvramCommit ⟨blankBlock, runOps Store.empty [.set (text ['a']) longValue]⟩ = some (0, h) ∧
      ¬ NoLoss (runOps Store.empty [.set (text ['a']) longValue]) h := by
  have hfits : Fits longValue := by
    rw [Fits, longValue_strlen]
    decide
  have hok : (runOps Store.empty [.set (text ['a']) longValue]).Ok := runOps_ok empty_ok _
  have hlive : nvramGet (runOps Store.empty [.set (text ['a']) longValue]) (some (text ['a']))
      = some longValue := by
    rw [runOps_set, get_set empty_ok, if_pos ⟨rfl, hfits⟩]
  obtain ⟨m₁, low, rest, hd, written, hcommit, harea, _, hroom, hsub, hall⟩ :=
    nvramCommit_spec ⟨blankBlock, runOps Store.empty [.set (text ['a']) longValue]⟩
  refine ⟨by rw [nvramSet_code, if_pos hfits], _, hcommit, fun hkeep => ?_⟩
  obtain ⟨_, himage⟩ := (noLoss_iff hok harea hroom hsub hall).mp hkeep
  have hline := line_of_imageFits himage ((mem_entries_get hok ⟨text ['a'], longValue⟩).mpr hlive)
  have hvalue : (⟨text ['a'], longValue⟩ : Tuple).value.strlen = 0x7fff := longValue_strlen
  have hroom' : DATA_ROOM < 0x7fff := by decide
  rw [line_strlen] at hline
  omega

end UbntSdk.Nvram
