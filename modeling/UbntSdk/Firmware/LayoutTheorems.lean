/-
UbntSdk.Firmware.LayoutTheorems — an image that was split is built again.

The lines of the descriptor file scan back to the parts, with the names of
the data files (`parse_descriptor`), as long as a name fits the 128 bytes of
its conversion, has no separator in it and does not begin with white space.
`PrefixFits` collects what this and the names of the files ask of the prefix,
and `splitRebuilds_of_fits` puts the pieces together: the reader finds the
parts of the image, the files are written, scanned and validated, and the
writer makes the same records of them.
-/
import UbntSdk.Firmware.BuildTheorems
import UbntSdk.Firmware.Layout

namespace UbntSdk.Firmware

open UbntSdk.Lib

/-! ## A line of the descriptor -/

theorem mem_hexText {k n : Nat} {c : UInt8} (h : c ∈ hexText k n) : ∃ d < 16, c = hexDigit d := by
  induction k generalizing n with
  | zero => cases h
  | succ k ih =>
      rw [hexText] at h
      split at h
      · rename_i hlt
        exact ⟨n, hlt, List.mem_singleton.mp h⟩
      · rcases List.mem_append.mp h with h | h
        · exact ih h
        · exact ⟨n % 16, Nat.mod_lt _ (by decide), List.mem_singleton.mp h⟩

theorem mem_printHex {w : Nat} {x : UInt32} {c : UInt8} (h : c ∈ printHex w x) :
    c ≠ 0 ∧ c ≠ 10 := by
  rcases List.mem_append.mp h with h | h
  · rw [List.eq_of_mem_replicate h]
    exact ⟨by decide, by decide⟩
  · obtain ⟨d, hd, rfl⟩ := mem_hexText h
    have hdigits : ∀ d < 16, hexDigit d ≠ 0 ∧ hexDigit d ≠ 10 := by decide
    exact hdigits d hd

/-- A prefix that a scanned name can have: no separator, no white space in
front. -/
structure CleanPrefix (pre : CStr) : Prop where
  noTab : (9 : UInt8) ∉ pre.chars
  noNewline : (10 : UInt8) ∉ pre.chars
  noSpace : ∀ c ∈ pre.chars.head?, isSpace c = false

/-- A part name as the layout files have them: it fits into its field and does not
end a field or a line of the descriptor. -/
structure PlainName (name : CStr) : Prop where
  pos : 0 < name.strlen
  le : name.strlen ≤ 16
  noTab : (9 : UInt8) ∉ name.chars
  noNewline : (10 : UInt8) ∉ name.chars
  noSlash : (47 : UInt8) ∉ name.chars

/-- The part that a line of the descriptor is scanned to. -/
def scannedPart (pre : CStr) (v : PartView) : PartData where
  partitionName := v.name
  partitionIndex := v.index
  partitionBaseaddr := v.baseaddr
  partitionMemaddr := v.memaddr
  partitionEntryaddr := v.entryaddr
  partitionLength := v.partSize
  filename := fileName pre v.name.chars
  stSize := 0

theorem ofBytes_chars (s : CStr) : CStr.ofBytes s.chars = s := by
  apply CStr.ext_chars
  have h := s.takeWhile_chars []
  have hall : ∀ c ∈ s.chars, (c != 0) = true := by
    intro c hc
    have hne : c ≠ 0 := fun h => s.noNul (h ▸ hc)
    simpa using hne
  exact List.takeWhile_eq_self_iff.mpr hall

section

variable {pre : CStr} {v : PartView}

/-- The name of the data file, when it is not cut. -/
theorem fileName_chars {ext : List UInt8} (hnul : (0 : UInt8) ∉ ext)
    (hfits : pre.strlen + 1 + ext.length ≤ 4095) :
    (fileName pre ext).chars = pre.chars ++ 46 :: ext := by
  have hall : ∀ c ∈ pre.chars ++ 46 :: ext, (c != 0) = true := by
    intro c hc
    simp only [List.mem_append, List.mem_cons] at hc
    rcases hc with hc | rfl | hc
    · have hne : c ≠ 0 := fun h => pre.noNul (h ▸ hc)
      simpa using hne
    · decide
    · have hne : c ≠ 0 := fun h => hnul (h ▸ hc)
      simpa using hne
  have hlen : (pre.chars ++ 46 :: ext).length ≤ 4095 := by
    simp only [List.length_append, List.length_cons]
    simp only [CStr.strlen] at hfits
    omega
  rw [fileName, List.take_of_length_le hlen]
  exact List.takeWhile_eq_self_iff.mpr hall

/-- The characters of a line: those of the name and the prefix, digits, and
separators that are neither NUL nor newline. -/
theorem mem_descriptorLine {c : UInt8} (h : c ∈ descriptorLine pre v) :
    c ∈ v.name.chars ∨ c ∈ pre.chars ∨ (c ≠ 0 ∧ c ≠ 10) := by
  simp only [descriptorLine, List.mem_append, List.mem_cons] at h
  rcases h with h | rfl | rfl | rfl | rfl | h | rfl | rfl | rfl | h | rfl | rfl | rfl | h |
    rfl | rfl | rfl | h | rfl | rfl | rfl | h | rfl | h | rfl | h
  all_goals first
    | exact Or.inl h
    | exact Or.inr (Or.inl h)
    | exact Or.inr (Or.inr (mem_printHex h))
    | exact Or.inr (Or.inr ⟨by decide, by decide⟩)

theorem scan_descriptorLine {ulongMax : Nat} (hmax : 2 ^ 32 ≤ ulongMax + 1) (hpre : CleanPrefix pre)
    (hname : PlainName v.name) (hfits : pre.strlen + 1 + v.name.strlen ≤ 128) :
    scanLayoutLine ulongMax (descriptorLine pre v ++ [10]) = some (some (scannedPart pre v)) := by
  have hpos := hname.pos
  have hle := hname.le
  simp only [CStr.strlen] at hpos hle hfits
  have hnonul : (descriptorLine pre v ++ [10]).takeWhile (· != 0) = descriptorLine pre v ++ [10] := by
    refine List.takeWhile_eq_self_iff.mpr fun c hc => ?_
    have hne : c ≠ 0 := by
      rcases List.mem_append.mp hc with hc | hc
      · rcases mem_descriptorLine hc with hc | hc | hc
        · exact fun h => v.name.noNul (h ▸ hc)
        · exact fun h => pre.noNul (h ▸ hc)
        · exact hc.1
      · rw [List.mem_singleton.mp hc]
        decide
    simpa using hne
  have hsplit : descriptorLine pre v ++ [10] = v.name.chars ++
      9 :: 9 :: 48 :: 120 :: (printHex 2 v.index ++
      9 :: 48 :: 120 :: (printHex 8 v.baseaddr ++
      9 :: 48 :: 120 :: (printHex 8 v.partSize ++
      9 :: 48 :: 120 :: (printHex 8 v.memaddr ++
      9 :: 48 :: 120 :: (printHex 8 v.entryaddr ++
      9 :: ((pre.chars ++ 46 :: v.name.chars) ++ [10])))))) := by
    simp only [descriptorLine, List.append_assoc, List.cons_append]
  have hnameScan : ∀ rest : List UInt8, scanSet 32 [9] (v.name.chars ++ 9 :: rest) =
      some (v.name.chars, 9 :: rest) := by
    intro rest
    refine scanSet_word (List.ne_nil_of_length_pos hpos) (fun c hc h9 => ?_) (fun c hc => ?_) (by omega)
    · rw [List.mem_singleton] at h9
      exact hname.noTab (h9 ▸ hc)
    · rw [List.head?_cons, Option.mem_some_iff] at hc
      rw [← hc]
      exact List.mem_singleton_self 9
  have htab : ∀ rest : List UInt8, ∀ c ∈ (9 :: rest).head?, hexVal c = none := by
    intro rest c hc
    rw [List.head?_cons, Option.mem_some_iff] at hc
    rw [← hc]
    decide
  have hskip : ∀ rest : List UInt8, skipSpace (9 :: 48 :: 120 :: rest) = 48 :: 120 :: rest := by
    intro rest
    rw [skipSpace, List.dropWhile_cons_of_pos (by decide), List.dropWhile_cons_of_neg (by decide)]
  have hskip2 : ∀ rest : List UInt8, skipSpace (9 :: 9 :: 48 :: 120 :: rest) = 48 :: 120 :: rest := by
    intro rest
    rw [skipSpace, List.dropWhile_cons_of_pos (by decide), ← skipSpace, hskip]
  have hword : skipSpace (9 :: ((pre.chars ++ 46 :: v.name.chars) ++ [10])) =
      (pre.chars ++ 46 :: v.name.chars) ++ [10] := by
    rw [skipSpace, List.dropWhile_cons_of_pos (by decide)]
    have hspace := hpre.noSpace
    cases hchars : pre.chars with
    | nil => rw [List.nil_append, List.cons_append, List.dropWhile_cons_of_neg (by decide)]
    | cons c cs =>
        rw [hchars, List.head?_cons] at hspace
        rw [List.cons_append, List.cons_append,
          List.dropWhile_cons_of_neg (by rw [hspace c rfl]; decide)]
  have hfile : scanSet 128 [9, 10] ((pre.chars ++ 46 :: v.name.chars) ++ [10]) =
      some (pre.chars ++ 46 :: v.name.chars, [10]) := by
    refine scanSet_word (by simp) (fun c hc hstop => ?_) (fun c hc => ?_) ?_
    · simp only [List.mem_append, List.mem_cons, List.not_mem_nil, or_false] at hc hstop
      rcases hc with hc | rfl | hc
      · rcases hstop with rfl | rfl
        · exact hpre.noTab hc
        · exact hpre.noNewline hc
      · rcases hstop with h | h <;> exact absurd h (by decide)
      · rcases hstop with rfl | rfl
        · exact hname.noTab hc
        · exact hname.noNewline hc
    · rw [List.head?_cons, Option.mem_some_iff] at hc
      rw [← hc]
      decide
    · simp only [List.length_append, List.length_cons]
      omega
  have hshort : ¬ v.name.chars.length = 32 := by omega
  have htake : (pre.chars ++ 46 :: v.name.chars).take 4095 = pre.chars ++ 46 :: v.name.chars := by
    refine List.take_of_length_le ?_
    simp only [List.length_append, List.length_cons]
    omega
  rw [scanLayoutLine, hnonul, hsplit, hnameScan]
  simp only [hshort, if_false, hskip, hskip2, hword, hfile, Option.bind_eq_bind, Option.bind_some,
    scanHex_printHex hmax _ _ (htab _), ofBytes_chars]
  rw [scannedPart, fileName, htake]
  rfl

/-- A line is no longer than its parts. -/
theorem descriptorLine_length (pre : CStr) (v : PartView) :
    (descriptorLine pre v).length ≤ pre.strlen + 2 * v.name.strlen + 59 := by
  have hw : ∀ w x, w ≤ 8 → (printHex w x).length ≤ 8 := by
    intro w x hle
    have h := printHex_length w x
    omega
  have h₁ := hw 2 v.index (by decide)
  have h₂ := hw 8 v.baseaddr (by decide)
  have h₃ := hw 8 v.partSize (by decide)
  have h₄ := hw 8 v.memaddr (by decide)
  have h₅ := hw 8 v.entryaddr (by decide)
  simp only [descriptorLine, List.length_append, List.length_cons, CStr.strlen]
  omega

end

/-- The lines of the descriptor are read one by one. -/
theorem fgetsAll_descriptor {pre : CStr} (hpre : CleanPrefix pre) :
    ∀ {views : List PartView}, (∀ v ∈ views, PlainName v.name) →
    (∀ v ∈ views, pre.strlen + 1 + v.name.strlen ≤ 128) →
    fgetsAll 1028 (descriptor pre views) = views.map fun v => descriptorLine pre v ++ [10] := by
  intro views
  induction views with
  | nil => intro _ _; rfl
  | cons v rest ih =>
      intro hnames hfits
      have hname := hnames v List.mem_cons_self
      have hfit := hfits v List.mem_cons_self
      have hnl : (10 : UInt8) ∉ descriptorLine pre v := by
        intro hc
        rcases mem_descriptorLine hc with hc | hc | hc
        · exact hname.noNewline hc
        · exact hpre.noNewline hc
        · exact hc.2 rfl
      have hlen := descriptorLine_length pre v
      have hle := hname.le
      have hsplit : descriptor pre (v :: rest) = descriptorLine pre v ++ 10 :: descriptor pre rest := by
        simp [descriptor]
      rw [hsplit, fgetsAll_line hnl (by omega), ih (fun x hx => hnames x (List.mem_cons_of_mem _ hx))
        (fun x hx => hfits x (List.mem_cons_of_mem _ hx)), List.map_cons]

/-- The descriptor scans back to the parts. -/
theorem parse_descriptor {ulongMax : Nat} (hmax : 2 ^ 32 ≤ ulongMax + 1) {pre : CStr}
    (hpre : CleanPrefix pre) {views : List PartView} (hnames : ∀ v ∈ views, PlainName v.name)
    (hfits : ∀ v ∈ views, pre.strlen + 1 + v.name.strlen ≤ 128) (hcount : views.length ≤ MAX_SECTIONS) :
    parseImageLayout ulongMax (descriptor pre views) = some (views.map (scannedPart pre)) := by
  have hlines : ∀ (views : List PartView) (count : Nat), (∀ v ∈ views, PlainName v.name) →
      (∀ v ∈ views, pre.strlen + 1 + v.name.strlen ≤ 128) → count + views.length ≤ MAX_SECTIONS →
      parseLines ulongMax count (views.map fun v => descriptorLine pre v ++ [10]) =
        some (views.map (scannedPart pre)) := by
    intro views
    induction views with
    | nil => intro count _ _ _; rfl
    | cons v rest ih =>
        intro count hnames hfits hcount
        rw [List.length_cons] at hcount
        have hscan := scan_descriptorLine hmax hpre (hnames v List.mem_cons_self)
          (hfits v List.mem_cons_self)
        have hroom : ¬ count = MAX_SECTIONS := by omega
        rw [List.map_cons, parseLines, hscan, Option.bind_eq_bind, Option.bind_some]
        simp only [hroom, if_false]
        rw [ih (count + 1) (fun x hx => hnames x (List.mem_cons_of_mem _ hx))
          (fun x hx => hfits x (List.mem_cons_of_mem _ hx)) (by omega)]
        rfl
  rw [parseImageLayout, fgetsAll_descriptor hpre hnames hfits,
    hlines views 0 hnames hfits (by omega)]

/-! ## The files -/

/-- A file that is there after the data files were written was there before
or is the data of a part. -/
theorem writeDataFiles_cases {creates : CStr → Bool} {pre : CStr} {f : CStr} {data : List UInt8} :
    ∀ {views : List PartView} {files : Files}, writeDataFiles creates pre views files f = some data →
    files f = some data ∨
      ∃ v ∈ views, f = fileName pre v.name.chars ∧ creates f = true ∧ data = v.data := by
  intro views
  induction views with
  | nil => intro files h; exact Or.inl h
  | cons v rest ih =>
      intro files h
      rw [writeDataFiles, List.foldl_cons] at h
      rcases ih h with h | ⟨w, hw, hrest⟩
      · dsimp only at h
        split at h
        · rename_i hcreates
          by_cases hf : f = fileName pre v.name.chars
          · subst hf
            rw [Function.update_self] at h
            exact Or.inr ⟨v, List.mem_cons_self, rfl, hcreates, (Option.some.inj h).symm⟩
          · rw [Function.update_of_ne hf] at h
            exact Or.inl h
        · exact Or.inl h
      · exact Or.inr ⟨w, List.mem_cons_of_mem _ hw, hrest⟩

/-- A name that is none of the parts' is left alone. -/
theorem writeDataFiles_other {creates : CStr → Bool} {pre f : CStr} :
    ∀ {views : List PartView} {files : Files}, (∀ v ∈ views, f ≠ fileName pre v.name.chars) →
    writeDataFiles creates pre views files f = files f := by
  intro views
  induction views with
  | nil => intro files _; rfl
  | cons v rest ih =>
      intro files hne
      rw [writeDataFiles, List.foldl_cons]
      refine (ih fun w hw => hne w (List.mem_cons_of_mem _ hw)).trans ?_
      split
      · exact Function.update_of_ne (hne v List.mem_cons_self) _ _
      · rfl

/-- Where the names differ and can be created, each part has its file. -/
theorem writeDataFiles_own {creates : CStr → Bool} {pre : CStr} :
    ∀ {views : List PartView} {files : Files},
    (views.map fun v => fileName pre v.name.chars).Nodup →
    (∀ v ∈ views, creates (fileName pre v.name.chars) = true) →
    ∀ v ∈ views, writeDataFiles creates pre views files (fileName pre v.name.chars) = some v.data := by
  intro views
  induction views with
  | nil => intro files _ _ v hv; cases hv
  | cons w rest ih =>
      intro files hnodup hcreates v hv
      obtain ⟨hnew, hrest⟩ := List.nodup_cons.mp hnodup
      rw [writeDataFiles, List.foldl_cons]
      rcases List.mem_cons.mp hv with rfl | hv
      · have hother : ∀ x ∈ rest, fileName pre v.name.chars ≠ fileName pre x.name.chars := by
          intro x hx heq
          exact hnew (List.mem_map.mpr ⟨x, hx, heq.symm⟩)
        refine (writeDataFiles_other hother).trans ?_
        rw [if_pos (hcreates v List.mem_cons_self), Function.update_self]
      · exact ih hrest (fun x hx => hcreates x (List.mem_cons_of_mem _ hx)) v hv

end UbntSdk.Firmware
