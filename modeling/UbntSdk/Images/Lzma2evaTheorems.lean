/-
UbntSdk.Images.Lzma2evaTheorems — records for the EVA boot loader
(`tools/firmware-utils/src/lzma2eva.c`).

`lzma2eva_noRecord`: no file that is long enough is converted, since both loops
read into a buffer that is `const`. The first one stops at the first byte of the
data; where there are no data the second one stops, for it reads the LZMA header
back. With a plain buffer the program writes what the boot loader expects.

`convert_run` is the common part. The file is followed part by part: the fields
that are filled in later are parts of four bytes, and going back to one of them
is `Stream.write_over`. What is read back for the checksum begins behind the CRC,
which is just what has not been added from the variables.
-/
import UbntSdk.Images.Lzma2eva

namespace UbntSdk.Images.Lzma2eva

open UbntSdk.Lib

/-! ## The loops -/

theorem ok_bind {α β : Type} (a : α) (f : α → Except Stop β) : (Except.ok a >>= f) = f a := rfl

@[simp] theorem readLoop_nil {σ : Type} (buf : Declared) (f : σ → List UInt8 → σ) (s : σ) :
    readLoop buf f s [] = .ok s := by
  rw [readLoop, chunks_nil, List.foldlM_nil]
  rfl

/-- A plain buffer takes everything. -/
theorem readLoop_plain {σ : Type} (f : σ → List UInt8 → σ) (s : σ) (data : List UInt8) :
    readLoop .plain f s data = .ok ((chunks bufSize data).foldl f s) :=
  List.foldlM_pure

/-- The first byte that is read into a `const` buffer ends the program. -/
theorem readLoop_const {σ : Type} (f : σ → List UInt8 → σ) (s : σ) {data : List UInt8} (h : data ≠ []) :
    readLoop .const f s data = .error .illegal := by
  have hlength := List.length_pos_iff.mpr h
  have htake : data.take bufSize ≠ [] := by
    rw [Ne, List.take_eq_nil_iff]
    exact fun hnil => hnil.elim (by decide) h
  have hread : fread .const (data.take bufSize) = .error .illegal := if_pos ⟨rfl, htake⟩
  rw [readLoop, chunks, if_neg (fun hend => hend.elim (by decide) (by omega)), List.foldlM_cons, hread]
  rfl

/-- The loop copies the data, whatever the size of its buffer. -/
theorem copy_eq (z : Zlib) (c : Copy) (data : List UInt8) :
    (chunks bufSize data).foldl (copyStep z) c = copyStep z c data := by
  refine foldl_chunks (by decide) (fun c => ?_) (fun c a b _ => ?_) c data
  · simp only [copyStep, Stream.write_nil, z.crc32_nil]
    rw [List.length_nil, show UInt32.ofNat 0 = 0 from rfl, UInt32.add_zero]
  · simp only [copyStep, Stream.write_write, z.crc32_append, List.length_append, UInt32.ofNat_add,
      UInt32.add_assoc]

theorem checksumBytes_append (checksum : UInt32) (a b : List UInt8) :
    checksumBytes checksum (a ++ b) = checksumBytes (checksumBytes checksum a) b :=
  List.foldl_append

theorem checksum_eq (checksum : UInt32) (data : List UInt8) :
    (chunks bufSize data).foldl checksumBytes checksum = checksumBytes checksum data :=
  foldl_chunks (by decide) (fun _ => rfl) (fun c a b _ => checksumBytes_append c a b) checksum data

/-- The sum of some bytes. -/
def sumBytes (bytes : List UInt8) : Nat := (bytes.map UInt8.toNat).sum

theorem checksumBytes_toNat (checksum : UInt32) (bytes : List UInt8) :
    (checksumBytes checksum bytes).toNat = (checksum.toNat + sumBytes bytes) % 2 ^ 32 := by
  induction bytes generalizing checksum with
  | nil =>
      have hlt := checksum.toNat_lt
      simp only [checksumBytes, List.foldl_nil, sumBytes, List.map_nil, List.sum_nil]
      omega
  | cons b bytes ih =>
      have hstep : checksumBytes checksum (b :: bytes) = checksumBytes (checksum + b.toUInt32) bytes := rfl
      have hsum : sumBytes (b :: bytes) = b.toNat + sumBytes bytes := by
        rw [sumBytes, List.map_cons, List.sum_cons, sumBytes]
      rw [hstep, ih, UInt32.toNat_add, UInt8.toNat_toUInt32, hsum]
      omega

/-- The complement makes the sum 0. -/
theorem add_complement (x : UInt32) : (x.toNat + (~~~x + 1).toNat) % 2 ^ 32 = 0 := by
  have h : x + (~~~x + 1) = 0 := by
    rw [← UInt32.neg_eq_not_add, UInt32.add_right_neg]
  rw [← UInt32.toNat_add, h]
  rfl

/-! ## The record -/

/-- The payload of a record. -/
def payload (z : Zlib) (infile : List UInt8) : List UInt8 :=
  le32 type ++ (le32 (UInt32.ofNat (infile.drop 13).length) ++
    (le32 (ofWord64 .little ((infile.drop 5).take 8)).toUInt32 ++ (le32 (z.crc32 0 (infile.drop 13)) ++
      (infile.take 5 ++ ([0, 0, 0] ++ infile.drop 13)))))

/-- The fields that are filled in later. -/
theorem fill_fields (a r r' b c c' d : List UInt8) (hr : r.length = r'.length) (hc : c.length = c'.length) :
    ((((⟨a ++ (r ++ (b ++ (c ++ d))), (a ++ (r ++ (b ++ (c ++ d)))).length⟩ : Stream).seek a.length).write
      r').seek (a ++ (r' ++ b)).length).write c' =
      ⟨(a ++ (r' ++ (b ++ c'))) ++ d, (a ++ (r' ++ (b ++ c'))).length⟩ := by
  have hfirst := Stream.write_over hr a (b ++ (c ++ d))
  have hsecond := Stream.write_over hc (a ++ (r' ++ b)) d
  rw [List.append_assoc, List.append_assoc] at hsecond
  simp only [Stream.seek, hfirst]
  rw [hsecond]
  simp only [List.append_assoc, List.length_append, Nat.add_assoc]

/-- What is read back for the checksum. -/
def readBack (infile : List UInt8) : List UInt8 := infile.take 5 ++ ([0, 0, 0] ++ infile.drop 13)

/-- What the checksum is made of. -/
def summed (z : Zlib) (infile : List UInt8) : List UInt8 :=
  le32 type ++ (le32 (UInt32.ofNat (infile.drop 13).length) ++
    (le32 (ofWord64 .little ((infile.drop 5).take 8)).toUInt32 ++ le32 (z.crc32 0 (infile.drop 13))))

theorem payload_eq (z : Zlib) (infile : List UInt8) :
    payload z infile = summed z infile ++ readBack infile := by
  simp only [payload, summed, readBack, List.append_assoc]

/-- The file with a record in it. -/
def recordFile (z : Zlib) (loadaddress entry : UInt32) (infile : List UInt8)
    (reclength checksum : UInt32) : List UInt8 :=
  le32 magic ++ (le32 reclength ++ (le32 loadaddress ++
    (payload z infile ++ (le32 checksum ++ (le32 0 ++ le32 entry)))))

/-- The program behind its first loop, where the loop has come to its end. -/
theorem convert_run {buf : Declared} (z : Zlib) (loadaddress entry : UInt32) {infile : List UInt8}
    (h : 13 ≤ infile.length)
    (hloop : ∀ c, readLoop buf (copyStep z) c (infile.drop 13) = .ok (copyStep z c (infile.drop 13))) :
    convert buf z loadaddress entry infile = (do
      let reclength := UInt32.ofNat (infile.drop 13).length + 24
      let checksum ← readLoop buf checksumBytes (checksumBytes (reclength + loadaddress) (summed z infile))
        (readBack infile)
      return recordFile z loadaddress entry infile reclength (~~~checksum + 1)) := by
  set data := infile.drop 13 with hdata
  set datasize32 := (ofWord64 .little ((infile.drop 5).take 8)).toUInt32 with hdatasize
  have hheader : infile.take 1 ++ (le32 (ofLe32 ((infile.drop 1).take 4)) ++ (le32 0).take 3) =
      infile.take 5 ++ [0, 0, 0] := by
    have hdict : le32 (ofLe32 ((infile.drop 1).take 4)) = (infile.drop 1).take 4 :=
      word32_ofWord32 .little (by rw [List.length_take, List.length_drop]; omega)
    rw [hdict, ← List.append_assoc, ← List.take_add]
    rfl
  -- the parts of the file, the fields being 0 at first
  set old := le32 0 ++ (le32 datasize32 ++ le32 (z.crc32 0 [])) with hold
  set new := le32 (UInt32.ofNat data.length) ++ (le32 datasize32 ++ le32 (z.crc32 0 data)) with hnew
  set tail := infile.take 5 ++ ([0, 0, 0] ++ data) with htail
  have hcopy : copyStep z
      ⟨(((((((((Stream.empty.write (le32 magic)).write (le32 0)).write (le32 loadaddress)).write
        (le32 type)).write (le32 0)).write (le32 datasize32)).write (le32 (z.crc32 0 []))).write
        (infile.take 1)).write (le32 (ofLe32 ((infile.drop 1).take 4)))).write ((le32 0).take 3), 0,
        z.crc32 0 []⟩ data =
      ⟨⟨le32 magic ++ (le32 0 ++ ((le32 loadaddress ++ le32 type) ++ (old ++ tail))),
        (le32 magic ++ (le32 0 ++ ((le32 loadaddress ++ le32 type) ++ (old ++ tail)))).length⟩,
        UInt32.ofNat data.length, z.crc32 0 data⟩ := by
    rw [copyStep]
    simp only [Stream.write_write, Stream.write_empty, UInt32.zero_add, z.crc32_nil, hold, htail,
      List.append_assoc]
    simp only [← List.append_assoc (infile.take 5), ← hheader, List.append_assoc, Stream.write_end]
  have hfill := fill_fields (le32 magic) (le32 0) (le32 (UInt32.ofNat data.length + 24))
    (le32 loadaddress ++ le32 type) old new tail (by simp) (by simp [hold, hnew])
  have hpos (r : UInt32) : ((((Stream.empty.write (le32 magic)).write (le32 0)).write (le32 loadaddress)).write
      (le32 type)).pos = (le32 magic ++ (le32 r ++ (le32 loadaddress ++ le32 type))).length := by
    simp [Stream.empty]
  have hnewWrite (f : Stream) : ((f.write (le32 (UInt32.ofNat data.length))).write (le32 datasize32)).write
      (le32 (z.crc32 0 data)) = f.write new := by
    rw [Stream.write_write, Stream.write_write, hnew]
  have hpayload : payload z infile = le32 type ++ (new ++ tail) := by
    simp only [payload, hnew, htail, ← hdata, ← hdatasize, List.append_assoc]
  have hback : readBack infile = tail := rfl
  rw [convert, if_neg (by omega)]
  simp +zeta only [← hdata, ← hdatasize, hloop, hcopy, ok_bind]
  rw [hpos (UInt32.ofNat data.length + 24), hnewWrite, Stream.write_empty, hfill]
  set front := le32 magic ++ (le32 (UInt32.ofNat data.length + 24) ++ ((le32 loadaddress ++ le32 type) ++ new))
    with hfront
  have hrest : (⟨front ++ tail, front.length⟩ : Stream).rest = tail := List.drop_left
  have hsum : checksumAdd32 (checksumAdd32 (checksumAdd32 (checksumAdd32
      (0 + (UInt32.ofNat data.length + 24) + loadaddress) type) (UInt32.ofNat data.length)) datasize32)
      (z.crc32 0 data) =
      checksumBytes (UInt32.ofNat data.length + 24 + loadaddress) (summed z infile) := by
    simp only [summed, checksumAdd32, ← checksumBytes_append, ← hdata, ← hdatasize, List.append_assoc,
      UInt32.zero_add]
  rw [hrest, hsum, hback]
  congr 1
  funext checksum
  rw [Stream.seek, ← List.length_append, Stream.write_end, Stream.write_end, Stream.write_end]
  simp only [recordFile, hfront, hpayload, List.append_assoc]

/-! ## With a plain buffer -/

/-- What the boot loader expects of the file: a record that has the length of its
payload, with the data unchanged, and that adds up to 0 with its checksum. -/
def WritesRecord (z : Zlib) (loadaddress entry : UInt32) (infile : List UInt8)
    (result : Except Stop (List UInt8)) : Prop :=
  ∃ reclength checksum : UInt32,
    result = .ok (recordFile z loadaddress entry infile reclength checksum) ∧
    reclength.toNat = (payload z infile).length ∧
    (reclength.toNat + loadaddress.toNat + sumBytes (payload z infile) + checksum.toNat) % 2 ^ 32 = 0

/-- Without the `const` the program is right. -/
theorem convert_plain (z : Zlib) (loadaddress entry : UInt32) {infile : List UInt8}
    (hheader : 13 ≤ infile.length) (hdata : (infile.drop 13).length < 2 ^ 32 - 24) :
    WritesRecord z loadaddress entry infile (convert .plain z loadaddress entry infile) := by
  have hrun := convert_run z loadaddress entry hheader
    (fun c => by rw [readLoop_plain, copy_eq])
  simp only [readLoop_plain, checksum_eq, ← checksumBytes_append, ← payload_eq, ok_bind] at hrun
  refine ⟨_, _, hrun, ?_, ?_⟩
  · have hnat : (UInt32.ofNat (infile.drop 13).length).toNat = (infile.drop 13).length := by
      rw [UInt32.toNat_ofNat', Nat.mod_eq_of_lt (by omega)]
    have htake : (infile.take 5).length = 5 := List.length_take_of_le (by omega)
    rw [UInt32.toNat_add, hnat, show (24 : UInt32).toNat = 24 from rfl]
    simp only [payload, List.length_append, le32_length, htake, List.length_cons, List.length_nil]
    omega
  · set reclength := UInt32.ofNat (infile.drop 13).length + 24
    have hsum := checksumBytes_toNat (reclength + loadaddress) (payload z infile)
    have hzero := add_complement (checksumBytes (reclength + loadaddress) (payload z infile))
    rw [hsum, UInt32.toNat_add] at hzero
    omega

/-! ## With the buffer of the source -/

/-- The program stops in one of its loops. -/
theorem lzma2eva_stops (z : Zlib) (loadaddress entry : UInt32) {infile : List UInt8}
    (h : 13 ≤ infile.length) : lzma2eva z loadaddress entry infile = .error .illegal := by
  by_cases hdata : infile.drop 13 = []
  · -- there are no data, so the second loop is reached
    have hback : readBack infile ≠ [] := by simp [readBack]
    rw [lzma2eva, convert_run z loadaddress entry h (fun c => by
      rw [hdata, readLoop_nil, ← copy_eq, chunks_nil, List.foldl_nil])]
    simp only [readLoop_const _ _ hback]
    rfl
  · rw [lzma2eva, convert, if_neg (by omega)]
    simp only [readLoop_const _ _ hdata]
    rfl

/-- No file is converted; a buffer that is not `const` is all that is missing. -/
theorem lzma2eva_noRecord (z : Zlib) (loadaddress entry : UInt32) (infile : List UInt8)
    (hheader : 13 ≤ infile.length) (hdata : (infile.drop 13).length < 2 ^ 32 - 24) :
    ¬ WritesRecord z loadaddress entry infile (lzma2eva z loadaddress entry infile) ∧
    WritesRecord z loadaddress entry infile (convert .plain z loadaddress entry infile) := by
  refine ⟨?_, convert_plain z loadaddress entry hheader hdata⟩
  rintro ⟨reclength, checksum, hfile, -⟩
  rw [lzma2eva_stops z loadaddress entry hheader] at hfile
  cases hfile

/-- The CRC of zlib. -/
def zlib : Zlib where
  crc32 crc buf := crcFold (crc ^^^ 0xFFFFFFFF) buf ^^^ 0xFFFFFFFF
  crc32_nil crc := by rw [crcFold, List.foldl_nil, UInt32.xor_assoc, UInt32.xor_self, UInt32.xor_zero]
  crc32_append crc a b := by
    rw [crcFold_append, UInt32.xor_assoc, UInt32.xor_self, UInt32.xor_zero]

/-- A file with one byte of data. -/
def smallFile : List UInt8 := [0x5d, 0, 0, 0x80, 0, 1, 0, 0, 0, 0, 0, 0, 0, 0x61]

theorem lzma2eva_noRecord_small :
    ¬ WritesRecord zlib 0x94020000 0x94020004 smallFile (lzma2eva zlib 0x94020000 0x94020004 smallFile) :=
  (lzma2eva_noRecord zlib 0x94020000 0x94020004 smallFile (by decide) (by decide)).1

/-- The byte of the data is never copied. -/
theorem lzma2eva_small_stops :
    lzma2eva zlib 0x94020000 0x94020004 smallFile = .error .illegal ∧
    ¬ WritesRecord zlib 0x94020000 0x94020004 smallFile
      (lzma2eva zlib 0x94020000 0x94020004 smallFile) := by
  have hlength : 13 ≤ smallFile.length := by decide
  have hstop := lzma2eva_stops zlib 0x94020000 0x94020004 hlength
  refine ⟨hstop, ?_⟩
  rintro ⟨reclength, checksum, hfile, -⟩
  rw [hstop] at hfile
  cases hfile

end UbntSdk.Images.Lzma2eva
