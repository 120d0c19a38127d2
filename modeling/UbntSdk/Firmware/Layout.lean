/-
UbntSdk.Firmware.Layout — the files between the two firmware tools: what
`fw_split` of `fwsplit.c` writes, and how `ubnt-mkfwimage` reads it back.

`fw_split` prints one line of a descriptor file for each part, with the name
of a data file that is made of a prefix and the name of the part, and then
writes the data files. `parse_image_layout` scans the lines with one `sscanf`;
a line that it cannot scan is skipped. `mkfwimage` is the whole second tool.

A file system is a map from names to contents (`Files`); `creates` says which
names can be opened for writing. What is written to an open file arrives.
The name in the `sscanf` has room for 32 bytes and may get 33: a result `none`
is this store.
-/
import UbntSdk.Firmware.RoundTrip
import UbntSdk.Lib.Scan

namespace UbntSdk.Firmware

open UbntSdk.Lib

/-- What `open` finds. -/
abbrev Files := CStr → Option (List UInt8)

/-! ## `parse_image_layout` -/

/-- `sscanf` of one line, which ends at a NUL: `some none` when it does not
make 7 conversions. -/
def scanLayoutLine (ulongMax : Nat) (line : List UInt8) : Option (Option PartData) :=
  match scanSet 32 [9] (line.takeWhile (· != 0)) with
  | none => some none
  | some (name, s) =>
      if name.length = 32 then none
      else some do
        let (index, s) ← scanHex ulongMax (skipSpace s)
        let (baseaddr, s) ← scanHex ulongMax (skipSpace s)
        let (size, s) ← scanHex ulongMax (skipSpace s)
        let (memaddr, s) ← scanHex ulongMax (skipSpace s)
        let (entryaddr, s) ← scanHex ulongMax (skipSpace s)
        let (file, _) ← scanSet 128 [9, 10] (skipSpace s)
        return { partitionName := CStr.ofBytes name, partitionIndex := index,
                 partitionBaseaddr := baseaddr, partitionMemaddr := memaddr,
                 partitionEntryaddr := entryaddr, partitionLength := size,
                 filename := CStr.ofBytes file, stSize := 0 }

/-- The loop of `parse_image_layout` over the lines, with `part_count`. -/
def parseLines (ulongMax : Nat) : Nat → List (List UInt8) → Option (List PartData)
  | _, [] => some []
  | count, line :: rest => do
      match ← scanLayoutLine ulongMax line with
      | none => parseLines ulongMax count rest
      | some d =>
          if count = MAX_SECTIONS then return []
          else
            let parts ← parseLines ulongMax (count + 1) rest
            return d :: parts

/-- `parse_image_layout` of a file with this text. -/
def parseImageLayout (ulongMax : Nat) (text : List UInt8) : Option (List PartData) :=
  parseLines ulongMax 0 (fgetsAll 1028 text)

/-! ## `ubnt-mkfwimage` -/

/-- A host on which the tool can do all that the files allow. -/
def workingEnv (files : Files) : Env where
  content := files
  openFails := fun _ => false
  mmapFails := fun _ => false
  callocFails := fun _ => false
  fopenFails := false
  fwriteStops := none

/-- The tool with `-i inputfile -v version`: its return code and the image. -/
def mkfwimage (crc32 : List UInt8 → UInt32) (ulongMax : Nat) (files : Files)
    (inputfile version : CStr) : Option (Int × Option (List UInt8)) :=
  match files inputfile with
  | none => some (-3, none)
  | some text => do
      let parts ← parseImageLayout ulongMax text
      match validateImageLayout (workingEnv files) ⟨version, parts⟩ with
      | .error _ => return (-4, none)
      | .ok im =>
          let (ret, image) ← buildImage crc32 (workingEnv files) im
          return (if ret = 0 then 0 else -5, image)

/-! ## `ubnt-fwsplit` -/

/-- `snprintf(filename, PATH_MAX, "%s.%s", prefix, …)`. -/
def fileName (pre : CStr) (ext : List UInt8) : CStr :=
  CStr.ofBytes ((pre.chars ++ 46 :: ext).take 4095)

def TXT : List UInt8 := [116, 120, 116]

/-- The line of the descriptor file for a part, before its newline. -/
def descriptorLine (pre : CStr) (v : PartView) : List UInt8 :=
  v.name.chars ++
    9 :: 9 :: 48 :: 120 :: (printHex 2 v.index ++
    9 :: 48 :: 120 :: (printHex 8 v.baseaddr ++
    9 :: 48 :: 120 :: (printHex 8 v.partSize ++
    9 :: 48 :: 120 :: (printHex 8 v.memaddr ++
    9 :: 48 :: 120 :: (printHex 8 v.entryaddr ++
    9 :: (pre.chars ++ 46 :: v.name.chars))))))

def descriptor (pre : CStr) (views : List PartView) : List UInt8 :=
  views.flatMap fun v => descriptorLine pre v ++ [10]

/-- The data files are written in order. -/
def writeDataFiles (creates : CStr → Bool) (pre : CStr) (views : List PartView) (files : Files) :
    Files :=
  views.foldl (fun files v =>
    let filename := fileName pre v.name.chars
    if creates filename then Function.update files filename (some v.data) else files) files

/-- `fw_split`; a result `none` is a part that the reader did not fill. -/
def fwSplit (creates : CStr → Bool) (base : List UInt8) (fw : Fw) (pre : CStr) (files : Files) :
    Option Files :=
  let filename := fileName pre TXT
  if creates filename then do
    let entries ← fwSplitEntries fw
    let views ← entries.mapM (partView base)
    return writeDataFiles creates pre views
      (Function.update files filename (some (descriptor pre views)))
  else some files

/-- The prefix: the option `-o`, or the version when it is empty. -/
def prefixOf (option version : CStr) : CStr := if option.chars = [] then version else option

/-- `do_fwsplit` for a file with these bytes; the version of an image of
`fw_parse` is its 256 bytes up to a NUL. -/
def doFwsplit (crc32 : List UInt8 → UInt32) (ptrMod fuel : Nat) (creates : CStr → Bool)
    (base : List UInt8) (option : CStr) (files : Files) : Outcome Files :=
  if base.length < sizeofHeader + sizeofSignature then .done files
  else
    match fwParse crc32 ptrMod base fuel with
    | .fault => .fault
    | .running => .running
    | .done out =>
        if out.ret ≠ 0 then .done files
        else
          match fwSplit creates base out.fw (prefixOf option (CStr.ofBytes out.fw.version)) files with
          | none => .fault
          | some files => .done files

end UbntSdk.Firmware
