/-
UbntSdk.Images.SrecTheorems — srec2bin preserves the program
(`tools/firmware-utils/src/srec2bin.c`).

The bytes of the input fall into runs of consecutive addresses (`runs`), and
the program writes one record for each run (`track_bytes`). Four things go
wrong on the way: a line of more than 255 characters is cut and not accepted;
a first byte at address 0 seems to follow the address before it, so its run
has no header; a start address that follows the last byte gets no record; and
a length of 2^32 does not fit its field. `srec2bin_preserves_iff` says that
these are all, for every file. Where one of them happens the output can not be
decoded to the program by accident either, as it has too few bytes for the
records that would be needed (`decode_count`).
-/
import UbntSdk.Images.Srec
import Mathlib.Tactic.IntervalCases

namespace UbntSdk.Images.Srec

open UbntSdk.Lib

/-! ## Runs of consecutive addresses -/

/-- An address and the bytes from there on. -/
abbrev Run := UInt32 × List UInt8

/-- Where the newest run goes on; at first, where the program takes a run to
go on that is not there. -/
def nextOf : List Run → UInt32
  | [] => 0
  | (adr, data) :: _ => adr + data.length.toUInt32

/-- Add a byte to the runs, the newest of which is first. -/
def push (rs : List Run) (x : UInt32 × UInt8) : List Run :=
  match rs with
  | [] => [(x.1, [x.2])]
  | (adr, data) :: rs =>
      if x.1 = adr + data.length.toUInt32 then (adr, data ++ [x.2]) :: rs
      else (x.1, [x.2]) :: (adr, data) :: rs

/-- The runs of a program, the newest first. -/
def runs (xs : List (UInt32 × UInt8)) : List Run := xs.foldl push []

/-- Add a run to the runs. -/
def pushRun (rs : List Run) (r : Run) : List Run :=
  match rs with
  | [] => [r]
  | (adr, data) :: rs =>
      if r.1 = adr + data.length.toUInt32 then (adr, data ++ r.2) :: rs
      else r :: (adr, data) :: rs

theorem toUInt32_add (m n : Nat) : (m + n).toUInt32 = m.toUInt32 + n.toUInt32 :=
  UInt32.ofNat_add m n

theorem toUInt32_succ (adr : UInt32) (n : Nat) :
    adr + (n + 1).toUInt32 = adr + 1 + n.toUInt32 := by
  rw [toUInt32_add, show (1 : Nat).toUInt32 = 1 from rfl, UInt32.add_assoc, UInt32.add_comm n.toUInt32]

/-- Bytes that go on where the newest run ends. -/
theorem foldl_push_next (rs : List Run) (adr : UInt32) (old new : List UInt8) :
    (addressed (adr + old.length.toUInt32) new).foldl push ((adr, old) :: rs) =
      (adr, old ++ new) :: rs := by
  induction new generalizing old with
  | nil => simp [addressed]
  | cons b new ih =>
      have hnext : adr + old.length.toUInt32 + 1 = adr + (old ++ [b]).length.toUInt32 := by
        rw [List.length_append, List.length_singleton, toUInt32_add, UInt32.add_assoc]
        rfl
      rw [addressed, List.foldl_cons, push, if_pos rfl, hnext, ih, List.append_assoc]
      rfl

theorem foldl_push_addressed (rs : List Run) (adr : UInt32) {data : List UInt8} (h : data ≠ []) :
    (addressed adr data).foldl push rs = pushRun rs (adr, data) := by
  match data, h with
  | b :: data, _ =>
      have hnext : adr + 1 = adr + [b].length.toUInt32 := rfl
      cases rs with
      | nil =>
          rw [addressed, List.foldl_cons, push, hnext, foldl_push_next]
          rfl
      | cons r rs =>
          obtain ⟨adr₀, data₀⟩ := r
          rw [addressed, List.foldl_cons, push, pushRun]
          dsimp only
          split
          · rename_i heq
            have hnext₀ : adr + 1 = adr₀ + (data₀ ++ [b]).length.toUInt32 := by
              rw [heq, List.length_append, List.length_singleton, toUInt32_add, UInt32.add_assoc]
              rfl
            rw [hnext₀, foldl_push_next, List.append_assoc]
            rfl
          · rw [hnext, foldl_push_next]
            rfl

/-! ## What the program writes -/

/-- The sum of the bytes. -/
def byteSum (data : List UInt8) : UInt32 := (data.map UInt8.toUInt32).sum

/-- The record of a run. -/
def recOf (r : Run) : Rec :=
  ⟨r.1, r.2, ~~~(r.1 + byteSum r.2 + r.2.length.toUInt32) + 1⟩

/-- The bytes of a record. -/
def Rec.bytes (r : Rec) : List UInt8 :=
  le32 r.data.length.toUInt32 ++ (le32 r.address ++ (r.data ++ le32 r.checksum))

/-- A run and the bytes that were written for it: those of its record, unless
the length does not fit. -/
structure Piece where
  run : Run
  bytes : List UInt8
  size : bytes.length = run.2.length + 12
  written : run.2.length < 2 ^ 32 → bytes = (recOf run).bytes

/-- What was written so far: bytes without a header, records, and the record
that is open. -/
structure Track (tag raw : List UInt8) (closed : List Piece) (cur : Option Run) (o : Out) : Prop where
  file : o.fOut = tag ++ (raw ++ (closed.flatMap Piece.bytes ++
    match cur with
    | none => []
    | some r => le32 0 ++ (le32 r.1 ++ r.2)))
  started : o.recStart = cur.isSome
  length : ∀ r ∈ cur, o.recLength = r.2.length.toUInt32
  sum : ∀ r ∈ cur, o.checkSum = r.1 + byteSum r.2

/-- The runs of what was written, the newest first. -/
def written (raw : List UInt8) (closed : List Piece) (cur : Option Run) : List Run :=
  cur.toList ++ ((closed.map Piece.run).reverse ++ if raw = [] then [] else [(0, raw)])

theorem byteSum_append (data : List UInt8) (b : UInt8) :
    byteSum (data ++ [b]) = byteSum data + b.toUInt32 := by
  simp [byteSum]

theorem track_recStart {tag raw : List UInt8} {closed : List Piece} {o : Out}
    (h : Track tag raw closed none o) (adr : UInt32) :
    Track tag raw closed (some (adr, [])) (binRecStart adr o) where
  file := by simp [binRecStart, binOut32, h.file]
  started := rfl
  length := by
    rintro r ⟨⟩
    rfl
  sum := by
    rintro r ⟨⟩
    simp [binRecStart, binOut32, byteSum]

/-- `binRecEnd` fills in the length of the open record, somewhere in it. -/
theorem track_recEnd {tag raw : List UInt8} {closed : List Piece} {r : Run} {o : Out}
    (h : Track tag raw closed (some r) o) :
    ∃ p : Piece, p.run = r ∧ Track tag raw (closed ++ [p]) none (binRecEnd o) ∧
      (binRecEnd o).addressCurrent = o.addressCurrent := by
  obtain ⟨adr, data⟩ := r
  have hlen : o.recLength = data.length.toUInt32 := h.length _ rfl
  have hsum : o.checkSum = adr + byteSum data := h.sum _ rfl
  have hlt : o.recLength.toNat = data.length % 2 ^ 32 := by
    rw [hlen]
    exact UInt32.toNat_ofNat' ..
  have hmod : data.length % 2 ^ 32 ≤ data.length := Nat.mod_le _ _
  set front := tag ++ (raw ++ closed.flatMap Piece.bytes) with hfront
  set mine := le32 0 ++ (le32 adr ++ data) with hmine
  have hfile : o.fOut = front ++ mine := by
    rw [h.file, hfront, hmine]
    simp
  have hsize : mine.length = data.length + 8 := by
    simp only [hmine, List.length_append, le32_length]
    omega
  have hpos : o.fOut.length - o.recLength.toNat - 4 - 4 =
      front.length + (data.length - data.length % 2 ^ 32) := by
    rw [hfile, hlt, List.length_append, hsize]
    omega
  set k := data.length - data.length % 2 ^ 32 with hk
  set bytes := mine.take k ++ le32 o.recLength ++ mine.drop (k + 4) ++
    le32 (~~~(o.checkSum + o.recLength) + 1) with hbytes
  have hend : (binRecEnd o).fOut = front ++ bytes := by
    simp only [binRecEnd, h.started, Option.isSome_some, if_true, binOut32, hpos]
    rw [hfile, List.take_append, List.drop_append, List.take_of_length_le (by omega),
      List.drop_eq_nil_of_le (by omega)]
    simp only [hbytes, List.nil_append, List.append_assoc, Nat.add_sub_cancel_left]
    rw [show front.length + k + 4 - front.length = k + 4 by omega]
  refine ⟨⟨(adr, data), bytes, ?_, fun hshort => ?_⟩, rfl, ⟨?_, ?_, ?_, ?_⟩, ?_⟩
  · simp only [hbytes, List.length_append, List.length_take, List.length_drop, le32_length, hsize]
    omega
  · -- the position is where the record starts
    have hzero : k = 0 := by
      have hlen' : data.length < 2 ^ 32 := hshort
      rw [hk, Nat.mod_eq_of_lt hlen', Nat.sub_self]
    have hdrop : mine.drop 4 = le32 adr ++ data := by
      rw [hmine]
      exact List.drop_left' (by simp)
    rw [hbytes, hzero, Nat.zero_add, hdrop, hsum, hlen]
    simp [recOf, Rec.bytes]
  · rw [hend, hfront]
    simp [List.flatMap_append]
  · simp [binRecEnd, h.started, binOut32]
  · rintro r ⟨⟩
  · rintro r ⟨⟩
  · simp [binRecEnd, h.started, binOut32]

/-- The record that is open is closed, and another one is opened. -/
theorem track_next {tag raw : List UInt8} {closed : List Piece} {cur : Option Run} {o : Out}
    (h : Track tag raw closed cur o) (adr : UInt32) :
    ∃ closed', Track tag raw closed' (some (adr, [])) (binRecStart adr (binRecEnd o)) ∧
      (closed'.map Piece.run).reverse = cur.toList ++ (closed.map Piece.run).reverse := by
  cases cur with
  | none =>
      have hend : binRecEnd o = o := by simp [binRecEnd, h.started]
      rw [hend]
      exact ⟨closed, track_recStart h adr, rfl⟩
  | some r =>
      obtain ⟨p, hp, hend, -⟩ := track_recEnd h
      refine ⟨closed ++ [p], track_recStart hend adr, ?_⟩
      simp [hp]

/-- The state is that after these runs: without an open record there is only
the run that has no header. -/
structure After (tag : List UInt8) (rs : List Run) (raw : List UInt8) (closed : List Piece)
    (cur : Option Run) (o : Out) : Prop extends Track tag raw closed cur o where
  runs : rs = written raw closed cur
  alone : cur = none → closed = []
  next : o.addressCurrent + 1 = nextOf rs
  headed : raw = [] → ∀ r, rs.getLast? = some r → r.1 ≠ 0

theorem after_byte {tag : List UInt8} {rs : List Run} {raw : List UInt8} {closed : List Piece}
    {cur : Option Run} {o : Out} (h : After tag rs raw closed cur o) (adr : UInt32) (b : UInt8) :
    ∃ raw' closed' cur', After tag (push rs (adr, b)) raw' closed' cur' (binRecOutByte adr b o) := by
  have hnext := h.next
  by_cases hadr : adr = o.addressCurrent + 1
  · simp only [binRecOutByte, hadr, ne_eq, not_true_eq_false, if_false]
    cases cur with
    | none =>
        -- there is no record to go on with
        have hclosed := h.alone rfl
        subst hclosed
        refine ⟨raw ++ [b], [], none, ⟨?_, h.started, by rintro r ⟨⟩, by rintro r ⟨⟩⟩, ?_,
          fun _ => rfl, ?_, fun hraw => absurd hraw (by simp)⟩
        · simp [binOut8, h.file]
        · rw [hnext, h.runs]
          by_cases hraw : raw = []
          · simp [written, push, hraw, nextOf]
          · simp [written, push, hraw, nextOf]
        · rw [hnext, h.runs]
          by_cases hraw : raw = []
          · simp [binOut8, written, push, hraw, nextOf]
          · simp [binOut8, written, push, hraw, nextOf]
    | some r =>
        obtain ⟨adr₀, data⟩ := r
        have hrs : rs = (adr₀, data) :: ((closed.map Piece.run).reverse ++
            if raw = [] then [] else [(0, raw)]) := h.runs
        have hpush : push rs (adr, b) = (adr₀, data ++ [b]) :: ((closed.map Piece.run).reverse ++
            if raw = [] then [] else [(0, raw)]) := by
          rw [hadr, hnext, hrs]
          simp [push, nextOf]
        refine ⟨raw, closed, some (adr₀, data ++ [b]), ⟨?_, h.started, ?_, ?_⟩, ?_, ?_, ?_, ?_⟩
        · simp [binOut8, h.file]
        · rintro r ⟨⟩
          simp [binOut8, h.length _ rfl]
        · rintro r ⟨⟩
          simp [binOut8, h.sum _ rfl, byteSum_append, UInt32.add_assoc]
        · rw [← hadr, hpush]
          rfl
        · rintro ⟨⟩
        · rw [← hadr, hpush, hadr]
          simp [binOut8, hnext, hrs, nextOf, UInt32.add_assoc]
        · intro hraw r hr
          rw [← hadr, hpush] at hr
          have hheaded := h.headed hraw
          rw [hrs] at hheaded
          revert hr
          generalize (closed.map Piece.run).reverse ++ (if raw = [] then [] else [(0, raw)]) = older
            at hheaded
          intro hr
          cases older with
          | nil =>
              cases hr
              exact hheaded (adr₀, data) rfl
          | cons r₀ older =>
              rw [List.getLast?_cons_cons] at hr hheaded
              exact hheaded r hr
  · obtain ⟨closed', htrack, hclosed'⟩ := track_next h.toTrack adr
    have hpush : push rs (adr, b) = (adr, [b]) :: rs := by
      match rs, hnext with
      | [], _ => rfl
      | (adr₀, data) :: rs, hnext =>
          have hne : ¬adr = adr₀ + data.length.toUInt32 := by
            rw [show adr₀ + data.length.toUInt32 = o.addressCurrent + 1 from hnext.symm]
            exact hadr
          simp [push, hne]
    simp only [binRecOutByte, hadr, ne_eq, not_false_eq_true, if_true]
    refine ⟨raw, closed', some (adr, [b]), ⟨?_, htrack.started, ?_, ?_⟩, ?_, ?_, ?_, ?_⟩
    · simp [binOut8, htrack.file]
    · rintro r ⟨⟩
      simp [binOut8, htrack.length _ rfl]
    · rintro r ⟨⟩
      simp [binOut8, htrack.sum _ rfl, byteSum]
    · rw [hpush, h.runs]
      simp [written, hclosed']
    · rintro ⟨⟩
    · rw [hpush]
      simp [binOut8, nextOf]
    · intro hraw r hr
      rw [hpush] at hr
      match rs, hr with
      | [], hr =>
          -- the first byte, which is not at address 0
          cases hr
          rw [show o.addressCurrent + 1 = 0 from hnext] at hadr
          exact hadr
      | r₀ :: rs, hr =>
          rw [List.getLast?_cons_cons] at hr
          exact h.headed hraw r hr

theorem after_bytes {tag : List UInt8} (xs : List (UInt32 × UInt8)) {rs : List Run}
    {raw : List UInt8} {closed : List Piece} {cur : Option Run} {o : Out}
    (h : After tag rs raw closed cur o) : ∃ raw' closed' cur',
      After tag (xs.foldl push rs) raw' closed' cur'
        (xs.foldl (fun o x => binRecOutByte x.1 x.2 o) o) := by
  induction xs generalizing rs raw closed cur o with
  | nil => exact ⟨raw, closed, cur, h⟩
  | cons x xs ih =>
      obtain ⟨raw', closed', cur', h'⟩ := after_byte h x.1 x.2
      exact ih h'

/-- The file at the end: bytes without a header, if the first run starts at
address 0, and a record for each other run. -/
structure Finished (tag : List UInt8) (rs : List Run) (raw : List UInt8) (closed : List Piece)
    (file : List UInt8) : Prop where
  file : file = tag ++ (raw ++ closed.flatMap Piece.bytes)
  runs : rs.reverse = (if raw = [] then [] else [(0, raw)]) ++ closed.map Piece.run

/-- The tag at the start of the file. -/
def tagBytes (bigEndian : Bool) : List UInt8 := le32 (if bigEndian then TAG_BIG else TAG_LITTLE)

theorem finished_of_after {tag : List UInt8} {rs : List Run} {raw : List UInt8} {closed : List Piece}
    {cur : Option Run} {o : Out} (h : After tag rs raw closed cur o) :
    ∃ closed', Finished tag rs raw closed' (binRecEnd o).fOut := by
  cases cur with
  | none =>
      have hend : binRecEnd o = o := by simp [binRecEnd, h.started]
      refine ⟨closed, ?_, ?_⟩
      · simp [hend, h.file]
      · rw [h.runs, written]
        split <;> simp
  | some r =>
      obtain ⟨p, hp, hend, -⟩ := track_recEnd h.toTrack
      refine ⟨closed ++ [p], ?_, ?_⟩
      · simp [hend.file]
      · rw [h.runs, written]
        split <;> simp [hp]

/-- The start address gets a record, unless it follows the last byte. -/
theorem finished_of_start {tag : List UInt8} {rs : List Run} {raw : List UInt8} {closed : List Piece}
    {cur : Option Run} {o : Out} (h : After tag rs raw closed cur o) (start : UInt32) :
    ∃ closed', Finished tag (if start = nextOf rs then rs else (start, []) :: rs) raw closed'
      (binRecEnd (binRecOutProgramStart start o)).fOut := by
  have hnext := h.next
  by_cases hstart : start = nextOf rs
  · rw [if_pos hstart]
    have hsame : binRecOutProgramStart start o = { o with addressCurrent := start } := by
      simp [binRecOutProgramStart, hstart, hnext]
    have hfile : (binRecEnd (binRecOutProgramStart start o)).fOut = (binRecEnd o).fOut := by
      rw [hsame]
      unfold binRecEnd
      split <;> rfl
    rw [hfile]
    exact finished_of_after h
  · rw [if_neg hstart]
    obtain ⟨closed', htrack, hclosed'⟩ := track_next h.toTrack start
    have hne : ¬start = o.addressCurrent + 1 := by rw [hnext]; exact hstart
    have hopen : Track tag raw closed' (some (start, [])) (binRecOutProgramStart start o) := by
      simp only [binRecOutProgramStart, ne_eq, hne, not_false_eq_true, if_true]
      exact ⟨htrack.file, htrack.started, htrack.length, htrack.sum⟩
    obtain ⟨p, hp, hend, -⟩ := track_recEnd hopen
    refine ⟨closed' ++ [p], ?_, ?_⟩
    · simp [hend.file]
    · have hruns : (rs.reverse : List Run) =
          (if raw = [] then [] else [(0, raw)]) ++ closed'.map Piece.run := by
        have hrev : closed'.map Piece.run = (cur.toList ++ (closed.map Piece.run).reverse).reverse := by
          rw [← hclosed', List.reverse_reverse]
        rw [h.runs, written, hrev]
        split <;> simp
      rw [List.reverse_cons, hruns]
      simp [hp]

/-! ## Lines of a file -/

/-- The value of a hexadecimal digit. -/
def hexVal (c : Char) : Option Nat :=
  if '0' ≤ c ∧ c ≤ '9' then some (c.toNat - '0'.toNat)
  else if 'a' ≤ c ∧ c ≤ 'f' then some (c.toNat - 'a'.toNat + 10)
  else if 'A' ≤ c ∧ c ≤ 'F' then some (c.toNat - 'A'.toNat + 10)
  else none

/-- The bytes that pairs of digits stand for. -/
def hexBytes : List Char → Option (List UInt8)
  | [] => some []
  | [_] => none
  | h :: l :: ds => do
      let high ← hexVal h
      let low ← hexVal l
      let bs ← hexBytes ds
      return UInt8.ofNat (16 * high + low) :: bs

/-- A line of this type: the number of bytes, and the bytes with a checksum. -/
def IsLine (type : Char) (bytes : List UInt8) (line : List Char) : Prop :=
  ∃ ds count, line = 'S' :: type :: ds ∧ hexBytes ds = some (count :: bytes) ∧
    count.toNat = bytes.length ∧ (bytes.length + (bytes.map UInt8.toNat).sum) % 256 = 255

/-- An S3 record. -/
def IsData (r : Run) (line : List Char) : Prop :=
  ∃ ck, IsLine '3' (be32 r.1 ++ (r.2 ++ [ck])) line

/-- An S7 record. -/
def IsStart (start : UInt32) (line : List Char) : Prop := ∃ ck, IsLine '7' (be32 start ++ [ck]) line

/-- The line without the `\r` of a line end. -/
def chomp (line : List Char) : List Char :=
  if line.getLast? = some '\r' then line.dropLast else line

/-- The S3 records of a file, and its S7 record, which is the last. -/
def IsFile (rs : List Run) (start : UInt32) (text : List Char) : Prop :=
  ∃ lines last, rawLines text = lines ++ [last] ∧
    List.Forall₂ (fun line r => IsData r (chomp line)) lines rs ∧ IsStart start (chomp last)

theorem hexVal_spec {c : Char} {v : Nat} (h : hexVal c = some v) :
    v < 16 ∧ isxdigit c = true ∧ ghDigit c = v.toUInt32 ∧ c ≠ '\r' ∧ c ≠ '\x00' := by
  have hle (d : Char) : (d ≤ c) = (d.toNat ≤ c.toNat) := rfl
  have hge (d : Char) : (c ≤ d) = (c.toNat ≤ d.toNat) := rfl
  have hne (d : Char) (hd : d.toNat ≠ c.toNat) : c ≠ d := by
    rintro rfl
    exact hd rfl
  simp only [hexVal, hle, hge, Char.reduceToNat] at h
  simp only [isxdigit, ghDigit, hle, hge, Char.reduceToNat]
  by_cases hdigit : 48 ≤ c.toNat ∧ c.toNat ≤ 57
  · rw [if_pos hdigit] at h
    cases h
    have hcr := hne '\r' (by simp; omega)
    have hnul := hne '\x00' (by simp; omega)
    refine ⟨by omega, by simp [hdigit], ?_, hcr, hnul⟩
    have hcase : ¬(97 ≤ c.toNat ∧ c.toNat ≤ 122) := by omega
    simp only [hcase, hdigit, and_self, if_true, if_false]
  · rw [if_neg hdigit] at h
    by_cases hlower : 97 ≤ c.toNat ∧ c.toNat ≤ 102
    · rw [if_pos hlower] at h
      cases h
      have hcr := hne '\r' (by simp; omega)
      have hnul := hne '\x00' (by simp; omega)
      refine ⟨by omega, by simp [hlower], ?_, hcr, hnul⟩
      generalize c.toNat = n at hlower
      obtain ⟨hlow, hhigh⟩ := hlower
      interval_cases n <;> rfl
    · rw [if_neg hlower] at h
      by_cases hupper : 65 ≤ c.toNat ∧ c.toNat ≤ 70
      · rw [if_pos hupper] at h
        cases h
        have hcr := hne '\r' (by simp; omega)
        have hnul := hne '\x00' (by simp; omega)
        refine ⟨by omega, by simp [hupper], ?_, hcr, hnul⟩
        have hcase : ¬(97 ≤ c.toNat ∧ c.toNat ≤ 122) := by omega
        simp only [hcase, hdigit, hupper, and_self, if_true, if_false]
        congr 1
        omega
      · rw [if_neg hupper] at h
        cases h

/-- The first pair of digits. -/
theorem hexBytes_cons {ds : List Char} {b : UInt8} {bs : List UInt8} (h : hexBytes ds = some (b :: bs)) :
    ∃ c c' ds' high low, ds = c :: c' :: ds' ∧ hexVal c = some high ∧ hexVal c' = some low ∧
      hexBytes ds' = some bs ∧ b = UInt8.ofNat (16 * high + low) := by
  match ds with
  | [] => cases h
  | [_] => cases h
  | c :: c' :: ds' =>
      simp only [hexBytes, Option.bind_eq_bind, Option.bind_eq_some_iff, Option.pure_def,
        Option.some.injEq, List.cons.injEq] at h
      obtain ⟨high, hhigh, low, hlow, bs', hbs', hb, rfl⟩ := h
      exact ⟨c, c', ds', high, low, rfl, hhigh, hlow, hbs', hb.symm⟩

theorem hexBytes_nil {ds : List Char} (h : hexBytes ds = some []) : ds = [] := by
  match ds with
  | [] => rfl
  | [_] => cases h
  | c :: c' :: ds' =>
      simp only [hexBytes, Option.bind_eq_bind, Option.bind_eq_some_iff, Option.pure_def,
        Option.some.injEq] at h
      obtain ⟨_, _, _, _, _, _, hnil⟩ := h
      cases hnil

/-- All characters are digits, two for each byte. -/
theorem hexBytes_digits {ds : List Char} {bs : List UInt8} (h : hexBytes ds = some bs) :
    ds.length = 2 * bs.length ∧
      ∀ c ∈ ds, isxdigit c = true ∧ c ≠ '\r' ∧ c ≠ '\x00' := by
  induction bs generalizing ds with
  | nil =>
      rw [hexBytes_nil h]
      simp
  | cons b bs ih =>
      obtain ⟨c, c', ds', high, low, rfl, hhigh, hlow, hds', -⟩ := hexBytes_cons h
      obtain ⟨hlen, hall⟩ := ih hds'
      obtain ⟨-, hx, -, hspecial⟩ := hexVal_spec hhigh
      obtain ⟨-, hx', -, hspecial'⟩ := hexVal_spec hlow
      refine ⟨by simp only [List.length_cons]; omega, fun d hd => ?_⟩
      simp only [List.mem_cons] at hd
      rcases hd with rfl | rfl | hd
      · exact ⟨hx, hspecial⟩
      · exact ⟨hx', hspecial'⟩
      · exact hall d hd

theorem two_digits (j : UInt32) (high low : Nat) (hhigh : high < 16) (hlow : low < 16) :
    (((j <<< 4) + high.toUInt32) <<< 4) + low.toUInt32 =
      (j <<< 8) + (UInt8.ofNat (16 * high + low)).toUInt32 := by
  apply UInt32.toNat_inj.mp
  have hj := j.toNat_lt
  have h4 : 2 ^ ((4 : UInt32).toNat % 32) = 16 := rfl
  have h8 : 2 ^ ((8 : UInt32).toNat % 32) = 256 := rfl
  simp only [UInt32.toNat_add, UInt32.toNat_shiftLeft, Nat.toUInt32_eq, UInt32.toNat_ofNat',
    UInt8.toNat_toUInt32, UInt8.toNat_ofNat', Nat.shiftLeft_eq, h4, h8]
  omega

/-- `gh` reads the bytes. -/
theorem foldl_gh {ds : List Char} {bs : List UInt8} (h : hexBytes ds = some bs) (n : Nat)
    (hn : n ≤ bs.length) (j : UInt32) :
    (ds.take (2 * n)).foldl (fun (j : UInt32) c => (j <<< 4) + ghDigit c) j =
      (bs.take n).foldl (fun (j : UInt32) b => (j <<< 8) + b.toUInt32) j := by
  induction n generalizing ds bs j with
  | zero => rfl
  | succ n ih =>
      match bs with
      | [] => simp at hn
      | b :: bs =>
          obtain ⟨c, c', ds', high, low, rfl, hhigh, hlow, hds', rfl⟩ := hexBytes_cons h
          obtain ⟨hlt, -, hdigit, -⟩ := hexVal_spec hhigh
          obtain ⟨hlt', -, hdigit', -⟩ := hexVal_spec hlow
          rw [show 2 * (n + 1) = 2 * n + 1 + 1 by omega, List.take_succ_cons, List.take_succ_cons,
            List.take_succ_cons, List.foldl_cons, List.foldl_cons, List.foldl_cons, hdigit, hdigit',
            two_digits j high low hlt hlt']
          exact ih hds' (by simpa using hn) _

theorem gh_two {ds : List Char} {b : UInt8} {bs : List UInt8} (h : hexBytes ds = some (b :: bs)) :
    gh ds 2 = b.toUInt32 := by
  have hgh := foldl_gh h 1 (by simp) 0
  simpa [gh] using hgh

theorem gh_eight {ds : List Char} {adr : UInt32} {bs : List UInt8}
    (h : hexBytes ds = some (be32 adr ++ bs)) : gh ds 8 = adr := by
  have hgh := foldl_gh h 4 (by simp) 0
  rw [List.take_left' (be32_length adr)] at hgh
  rw [gh, hgh]
  have hadr := adr.toNat_lt
  have h8 : 2 ^ ((8 : UInt32).toNat % 32) = 256 := rfl
  have h0 : (0 : UInt32).toNat = 0 := rfl
  apply UInt32.toNat_inj.mp
  simp only [be32, List.foldl_cons, List.foldl_nil, UInt32.toNat_add, UInt32.toNat_shiftLeft,
    UInt8.toNat_toUInt32, UInt8.toNat_ofNat', Nat.shiftLeft_eq, h8, h0]
  omega

theorem sumBytes_eq {ds : List Char} {bs : List UInt8} (h : hexBytes ds = some bs) :
    sumBytes ds bs.length = (bs.map UInt8.toNat).sum := by
  induction bs generalizing ds with
  | nil => rfl
  | cons b bs ih =>
      have hgh := gh_two h
      obtain ⟨c, c', ds', high, low, rfl, hhigh, hlow, hds', -⟩ := hexBytes_cons h
      rw [List.length_cons, sumBytes, hgh, List.map_cons, List.sum_cons]
      simp only [UInt8.toNat_toUInt32, List.drop_succ_cons, List.drop_zero]
      rw [ih hds']

/-- The loop of an S3 record writes the bytes under their addresses. -/
theorem outBytes_eq {ds : List Char} {bs rest : List UInt8} (h : hexBytes ds = some (bs ++ rest))
    (adr : UInt32) (o : Out) : outBytes ds bs.length adr o =
      (addressed adr bs).foldl (fun o x => binRecOutByte x.1 x.2 o) o := by
  induction bs generalizing ds adr o with
  | nil => rfl
  | cons b bs ih =>
      have hgh := gh_two h
      obtain ⟨c, c', ds', high, low, rfl, hhigh, hlow, hds', -⟩ := hexBytes_cons h
      rw [List.length_cons, outBytes, hgh, addressed, List.foldl_cons]
      simp only [List.drop_succ_cons, List.drop_zero]
      rw [ih hds', show b.toUInt32.toUInt8 = b from by simp]

theorem hexBytes_drop {ds : List Char} {bs rest : List UInt8} (h : hexBytes ds = some (bs ++ rest)) :
    hexBytes (ds.drop (2 * bs.length)) = some rest := by
  induction bs generalizing ds with
  | nil => exact h
  | cons b bs ih =>
      obtain ⟨c, c', ds', high, low, rfl, hhigh, hlow, hds', -⟩ := hexBytes_cons h
      rw [List.length_cons, show 2 * (bs.length + 1) = 2 * bs.length + 1 + 1 by omega,
        List.drop_succ_cons, List.drop_succ_cons]
      exact ih hds'

section Line

variable {type : Char} {bytes : List UInt8} {line : List Char}

/-- What `srecLine` finds in a line. -/
theorem IsLine.split (h : IsLine type bytes line) : ∃ c c' p, line = 'S' :: type :: c :: c' :: p ∧
    hexBytes p = some bytes ∧ (∀ tail, (gh (c :: c' :: tail) 2).toNat = bytes.length) ∧
    p.length = 2 * bytes.length ∧ checksum p bytes.length = true := by
  obtain ⟨ds, count, rfl, hds, hcount, hsum⟩ := h
  obtain ⟨c, c', p, high, low, rfl, hhigh, hlow, hp, hbyte⟩ := hexBytes_cons hds
  obtain ⟨hlen, hall⟩ := hexBytes_digits hp
  refine ⟨c, c', p, rfl, hp, fun tail => ?_, hlen, ?_⟩
  · have hgh := gh_two hds
    rw [← hcount, ← UInt8.toNat_toUInt32, ← hgh]
    rfl
  · simp only [checksum, Bool.and_eq_true, List.all_eq_true, beq_iff_eq]
    exact ⟨fun d hd => (hall d hd).1, by rw [sumBytes_eq hp]; exact hsum⟩

/-- `readline` leaves the line as it is, up to its length. -/
theorem IsLine.readline (h : IsLine type bytes (chomp line)) (htype : type ≠ '\r' ∧ type ≠ '\x00') :
    Srec.readline line = (chomp line).take 255 := by
  obtain ⟨ds, count, hline, hds, -⟩ := h
  have hplain : ∀ d ∈ chomp line, d ≠ '\r' ∧ d ≠ '\x00' := by
    intro d hd
    rw [hline] at hd
    simp only [List.mem_cons] at hd
    rcases hd with rfl | rfl | hd
    · decide
    · exact htype
    · exact ((hexBytes_digits hds).2 d hd).2
  have hfilter : line.filter (· ≠ '\r') = chomp line := by
    by_cases hcr : line.getLast? = some '\r'
    · obtain ⟨front, rfl⟩ := List.getLast?_eq_some_iff.mp hcr
      have hchomp : chomp (front ++ ['\r']) = front := by rw [chomp, if_pos hcr, List.dropLast_concat]
      rw [hchomp] at hplain ⊢
      rw [List.filter_append, List.filter_eq_self.mpr fun d hd => by simpa using (hplain d hd).1]
      simp
    · have hsame : chomp line = line := by rw [chomp, if_neg hcr]
      rw [hsame] at hplain ⊢
      exact List.filter_eq_self.mpr fun d hd => by simpa using (hplain d hd).1
  rw [Srec.readline, hfilter]
  exact List.takeWhile_eq_self_iff.mpr fun d hd => by
    simpa using (hplain d (List.mem_of_mem_take hd)).2

/-- A line that does not fit the buffer is not accepted. -/
theorem IsLine.cut (h : IsLine type bytes line) (hlong : 255 < line.length) (o : Out) :
    srecLine (line.take 255) o = (false, o) := by
  obtain ⟨c, c', p, rfl, -, hcount, hlen, -⟩ := h.split
  simp only [List.length_cons] at hlong
  have htake : ('S' :: type :: c :: c' :: p).take 255 = 'S' :: type :: c :: c' :: p.take 251 := rfl
  have hp : (p.take 251).length = 251 := by
    rw [List.length_take]
    omega
  rw [htake, srecLine]
  simp only [List.length_cons, hp, Nat.reduceAdd, List.drop_succ_cons, List.drop_zero, hcount]
  rw [if_neg (by omega), if_pos (by omega)]

end Line

theorem srecLine_data {r : Run} {line : List Char} (h : IsData r line) (o : Out) :
    srecLine line o = (true, { (addressed r.1 r.2).foldl (fun o x => binRecOutByte x.1 x.2 o) o with
      s1s2s3Total := ((addressed r.1 r.2).foldl (fun o x => binRecOutByte x.1 x.2 o) o).s1s2s3Total + 1 }) := by
  obtain ⟨ck, hline⟩ := h
  obtain ⟨c, c', p, rfl, hp, hcount, hlen, hcheck⟩ := hline.split
  have hbytes : (be32 r.1 ++ (r.2 ++ [ck])).length = r.2.length + 5 := by
    simp only [List.length_append, be32_length, List.length_singleton]
    omega
  have hdata : hexBytes (p.drop 8) = some (r.2 ++ [ck]) := hexBytes_drop hp
  rw [hbytes] at hcount hlen hcheck
  simp only [srecLine, List.length_cons, List.head?_cons, List.drop_succ_cons, List.drop_zero, hcount,
    hcheck, hlen, gh_eight hp]
  rw [if_neg (by omega), if_neg (by omega), if_neg (by simp), if_neg (by omega),
    show r.2.length + 5 - 4 - 1 = r.2.length by omega, outBytes_eq hdata]

theorem srecLine_start {start : UInt32} {line : List Char} (h : IsStart start line) (o : Out) :
    srecLine line o = (true, binRecOutProgramStart start o) := by
  obtain ⟨ck, hline⟩ := h
  obtain ⟨c, c', p, rfl, hp, hcount, hlen, hcheck⟩ := hline.split
  have hbytes : (be32 start ++ [ck]).length = 5 := by simp
  rw [hbytes] at hcount hlen hcheck
  simp only [srecLine, List.length_cons, List.head?_cons, List.drop_succ_cons, List.drop_zero, hcount,
    hcheck, hlen, gh_eight hp]
  rw [if_neg (by omega), if_neg (by omega), if_neg (by simp), if_neg (by omega), if_neg (by omega)]

theorem IsStart.length {start : UInt32} {line : List Char} (h : IsStart start line) :
    line.length = 14 := by
  obtain ⟨ck, hline⟩ := h
  obtain ⟨c, c', p, rfl, -, -, hlen, -⟩ := hline.split
  simp only [List.length_cons, hlen, List.length_append, be32_length, List.length_nil]

theorem IsLine.ne_nil {type : Char} {bytes : List UInt8} {line : List Char} (h : IsLine type bytes line) :
    line.take 255 ≠ [] := by
  obtain ⟨ds, count, rfl, -⟩ := h
  simp

/-! ## Whole files -/

/-- The program of S3 records. -/
def programOf (rs : List Run) : List (UInt32 × UInt8) := rs.flatMap fun r => addressed r.1 r.2

/-- All lines fit the buffer of `srec2bin`. -/
def Fits (text : List Char) : Prop := ∀ line ∈ rawLines text, (chomp line).length ≤ 255

theorem After.counted {tag : List UInt8} {rs : List Run} {raw : List UInt8} {closed : List Piece}
    {cur : Option Run} {o : Out} (h : After tag rs raw closed cur o) (n : Nat) :
    After tag rs raw closed cur { o with s1s2s3Total := n } :=
  ⟨⟨h.file, h.started, h.length, h.sum⟩, h.runs, h.alone, h.next, h.headed⟩

/-- The S3 lines are written, up to the first that does not fit. -/
theorem srecLines_data {tag : List UInt8} {lines : List (List Char)} {rs : List Run}
    (hlines : List.Forall₂ (fun line r => IsData r (chomp line)) lines rs) (more : List (List Char))
    {old : List Run} {raw : List UInt8} {closed : List Piece} {cur : Option Run} {o : Out}
    (h : After tag old raw closed cur o) :
    ((∀ line ∈ lines, (chomp line).length ≤ 255) ∧ ∃ raw' closed' cur' o',
        After tag ((programOf rs).foldl push old) raw' closed' cur' o' ∧
        srecLines (lines ++ more) o = srecLines more o') ∨
      (¬(∀ line ∈ lines, (chomp line).length ≤ 255) ∧ ∃ first second raw' closed' cur',
        programOf rs = first ++ second ∧
        After tag (first.foldl push old) raw' closed' cur' (srecLines (lines ++ more) o)) := by
  induction hlines generalizing old raw closed cur o with
  | nil => exact Or.inl ⟨by simp, raw, closed, cur, o, h, rfl⟩
  | @cons line r lines rs hline hlines ih =>
      obtain ⟨ck, hdata⟩ := hline
      have hread := hdata.readline (by decide)
      by_cases hfit : (chomp line).length ≤ 255
      · rw [List.take_of_length_le hfit] at hread
        have hne : chomp line ≠ [] := by
          intro hnil
          exact hdata.ne_nil (by rw [hnil]; rfl)
        obtain ⟨raw', closed', cur', h'⟩ := after_bytes (addressed r.1 r.2) h
        have hstep : srecLines (line :: lines ++ more) o = srecLines (lines ++ more)
            { (addressed r.1 r.2).foldl (fun o x => binRecOutByte x.1 x.2 o) o with
              s1s2s3Total := ((addressed r.1 r.2).foldl
                (fun o x => binRecOutByte x.1 x.2 o) o).s1s2s3Total + 1 } := by
          rw [List.cons_append, srecLines, hread]
          simp only [hne, if_false, srecLine_data ⟨ck, hdata⟩, if_true]
        have hfold : (programOf (r :: rs)).foldl push old =
            (programOf rs).foldl push ((addressed r.1 r.2).foldl push old) := by
          rw [programOf, List.flatMap_cons, List.foldl_append]
          rfl
        rcases ih (h'.counted _) with ⟨hall, hrest⟩ | ⟨hnot, first, second, hrest⟩
        · refine Or.inl ⟨List.forall_mem_cons.mpr ⟨hfit, hall⟩, ?_⟩
          rw [hstep, hfold]
          exact hrest
        · obtain ⟨raw'', closed'', cur'', hsplit, hafter⟩ := hrest
          refine Or.inr ⟨fun hall => hnot (List.forall_mem_cons.mp hall).2,
            addressed r.1 r.2 ++ first, second, raw'', closed'', cur'', ?_, ?_⟩
          · rw [programOf, List.flatMap_cons, List.append_assoc, ← hsplit]
            rfl
          · rw [hstep, List.foldl_append]
            exact hafter
      · refine Or.inr ⟨fun hall => hfit (List.forall_mem_cons.mp hall).1, [], _, raw, closed, cur,
          rfl, ?_⟩
        have hstop : srecLines (line :: lines ++ more) o = o := by
          rw [List.cons_append, srecLines, hread]
          simp only [hdata.ne_nil, if_false, hdata.cut (by omega), Bool.false_eq_true]
        rw [hstop]
        exact h

theorem after_opened (bigEndian : Bool) : After (tagBytes bigEndian) [] [] [] none (opened bigEndian) where
  file := by simp [opened, binOut32, tagBytes]
  started := rfl
  length := by rintro r ⟨⟩
  sum := by rintro r ⟨⟩
  runs := rfl
  alone := fun _ => rfl
  next := by
    show (0xFFFFFFFF : UInt32) + 1 = 0
    decide
  headed := by
    intro _ r hr
    cases hr

/-- What `srec2bin` makes of a file. -/
theorem converted {rs : List Run} {start : UInt32} {text : List Char} (h : IsFile rs start text)
    (bigEndian : Bool) :
    (Fits text ∧ ∃ raw closed,
      Finished (tagBytes bigEndian)
        (if start = nextOf (runs (programOf rs)) then runs (programOf rs)
          else (start, []) :: runs (programOf rs)) raw closed (srec2bin bigEndian text) ∧
      (raw = [] → ∀ r, (runs (programOf rs)).getLast? = some r → r.1 ≠ 0)) ∨
    (¬Fits text ∧ ∃ first second raw closed, programOf rs = first ++ second ∧
      Finished (tagBytes bigEndian) (runs first) raw closed (srec2bin bigEndian text)) := by
  obtain ⟨lines, last, hraw, hlines, hlast⟩ := h
  obtain ⟨ck, hstart⟩ := hlast
  have hread := hstart.readline (by decide)
  have hlen := IsStart.length ⟨ck, hstart⟩
  rw [List.take_of_length_le (by omega)] at hread
  have hfits : Fits text ↔ ∀ line ∈ lines, (chomp line).length ≤ 255 := by
    simp only [Fits, hraw, List.mem_append, List.mem_singleton]
    constructor
    · intro hall line hline
      exact hall line (Or.inl hline)
    · rintro hall line (hline | rfl)
      · exact hall line hline
      · omega
  rw [hfits, srec2bin, hraw]
  rcases srecLines_data hlines [last] (after_opened bigEndian) with
    ⟨hall, raw, closed, cur, o, hafter, hrest⟩ | ⟨hnot, first, second, raw, closed, cur, hsplit, hafter⟩
  · have hne : chomp last ≠ [] := by
      intro hnil
      rw [hnil] at hlen
      cases hlen
    have hend : srecLines [last] o = binRecOutProgramStart start o := by
      rw [srecLines, hread]
      simp only [hne, if_false, srecLine_start ⟨ck, hstart⟩, if_true, srecLines]
    obtain ⟨closed', hfinished⟩ := finished_of_start hafter start
    refine Or.inl ⟨hall, raw, closed', ?_, hafter.headed⟩
    rw [hrest, hend]
    exact hfinished
  · obtain ⟨closed', hfinished⟩ := finished_of_after hafter
    exact Or.inr ⟨hnot, first, second, raw, closed', hsplit, hfinished⟩

/-! ## Decoding -/

theorem decodeRec_bytes (r : Rec) (hr : r.data.length < 2 ^ 32) (rest : List UInt8) :
    decodeRec (r.bytes ++ rest) = some (r, rest) := by
  have hbytes : r.bytes ++ rest = le32 r.data.length.toUInt32 ++ (le32 r.address ++
      (r.data ++ (le32 r.checksum ++ rest))) := by simp [Rec.bytes]
  have hlen : r.data.length.toUInt32.toNat = r.data.length := by
    rw [Nat.toUInt32_eq, UInt32.toNat_ofNat', Nat.mod_eq_of_lt hr]
  have hbody : (r.bytes ++ rest).drop 8 = r.data ++ (le32 r.checksum ++ rest) := by
    rw [hbytes, show 8 = (le32 r.data.length.toUInt32).length + (le32 r.address).length by simp,
      ← List.drop_drop, List.drop_left, List.drop_left]
  have hfirst : (r.bytes ++ rest).take 4 = le32 r.data.length.toUInt32 := by
    rw [hbytes]
    exact List.take_left' (le32_length _)
  have hsecond : ((r.bytes ++ rest).drop 4).take 4 = le32 r.address := by
    rw [hbytes, List.drop_left' (le32_length _)]
    exact List.take_left' (le32_length _)
  rw [decodeRec, if_neg (by rw [hbytes]; simp; omega), hbody, hfirst, hsecond]
  simp only [ofLe32_le32, hlen]
  rw [if_neg (by simp), List.take_left, List.drop_left, List.take_left' (le32_length _),
    ofLe32_le32, ← List.drop_drop, List.drop_left, List.drop_left' (le32_length _)]

theorem decodeRecs_bytes (rs : List Rec) (hrs : ∀ r ∈ rs, r.data.length < 2 ^ 32) (n : Nat)
    (hn : rs.length ≤ n) : decodeRecs n (rs.flatMap Rec.bytes) = some rs := by
  induction rs generalizing n with
  | nil => cases n <;> rfl
  | cons r rs ih =>
      obtain ⟨hr, hrs⟩ := List.forall_mem_cons.mp hrs
      match n, hn with
      | n + 1, hn =>
          have hne : r.bytes ++ rs.flatMap Rec.bytes ≠ [] := by
            intro hnil
            have hlen := congrArg List.length hnil
            simp [Rec.bytes] at hlen
          rw [List.flatMap_cons, decodeRecs, decodeRec_bytes r hr]
          · dsimp only
            rw [ih hrs n (by simpa using hn)]
            rfl
          · exact hne

theorem decodeRec_count {bs rest : List UInt8} {r : Rec} (h : decodeRec bs = some (r, rest)) :
    bs.length = r.data.length + 12 + rest.length ∧ r.data.length < 2 ^ 32 := by
  unfold decodeRec at h
  split at h
  · cases h
  · dsimp only at h
    split at h
    · cases h
    · cases h
      have hlt := (ofLe32 (bs.take 4)).toNat_lt
      simp only [List.length_take, List.length_drop] at *
      omega

theorem addressed_length (adr : UInt32) (data : List UInt8) : (addressed adr data).length = data.length := by
  induction data generalizing adr with
  | nil => rfl
  | cons b data ih => simp [addressed, ih]

/-- The bytes of a file are those of the program, and twelve for each record. -/
theorem decode_count {n : Nat} {bs : List UInt8} {rs : List Rec} (h : decodeRecs n bs = some rs) :
    bs.length = (program rs).length + 12 * rs.length ∧ ∀ r ∈ rs, r.data.length < 2 ^ 32 := by
  induction n generalizing bs rs with
  | zero =>
      cases bs with
      | nil =>
          cases h
          simp [program]
      | cons b bs => cases h
  | succ n ih =>
      cases bs with
      | nil =>
          cases h
          simp [program]
      | cons b bs =>
          rw [decodeRecs] at h
          · split at h
            · cases h
            · rename_i r rest hrec
              obtain ⟨rs', hrs', rfl⟩ := Option.map_eq_some_iff.mp h
              obtain ⟨hlen, hlt⟩ := decodeRec_count hrec
              obtain ⟨hlen', hlt'⟩ := ih hrs'
              refine ⟨?_, List.forall_mem_cons.mpr ⟨hlt, hlt'⟩⟩
              rw [hlen, hlen']
              simp only [program, List.flatMap_cons, List.length_append, List.length_cons,
                addressed_length]
              omega
          · simp

/-! ## Runs and records -/

theorem push_length (rs : List Run) (x : UInt32 × UInt8) : rs.length ≤ (push rs x).length := by
  unfold push
  split
  · simp
  · split <;> simp

theorem foldl_push_length (xs : List (UInt32 × UInt8)) (rs : List Run) :
    rs.length ≤ (xs.foldl push rs).length := by
  induction xs generalizing rs with
  | nil => exact le_rfl
  | cons x xs ih => exact (push_length rs x).trans (ih _)

/-- A run adds at most one to the runs, and if it does, it is one of them. -/
theorem pushRun_length (rs : List Run) (r : Run) :
    pushRun rs r = r :: rs ∨ (pushRun rs r).length = rs.length := by
  unfold pushRun
  split
  · exact Or.inl rfl
  · split
    · exact Or.inr rfl
    · exact Or.inl rfl

/-- Records can not hold more runs than there are records with data. If they
hold as many, each is a run. -/
theorem runs_of_records (rs : List Rec) (old : List Run) :
    ((program rs).foldl push old).length + (starts rs).length ≤ old.length + rs.length ∧
      (old.length + rs.length ≤ ((program rs).foldl push old).length + (starts rs).length →
        ∀ run ∈ (program rs).foldl push old, run ∈ old ∨ ∃ r ∈ rs, run = (r.address, r.data)) := by
  induction rs generalizing old with
  | nil =>
      refine ⟨by simp [program, starts], fun _ run hrun => Or.inl ?_⟩
      simpa [program] using hrun
  | cons r rs ih =>
      have hfold : (program (r :: rs)).foldl push old =
          (program rs).foldl push ((addressed r.address r.data).foldl push old) := by
        rw [program, List.flatMap_cons, List.foldl_append]
        rfl
      by_cases hdata : r.data = []
      · have hstarts : (starts (r :: rs)).length = (starts rs).length + 1 := by simp [starts, hdata]
        have hsame : (addressed r.address r.data).foldl push old = old := by simp [hdata, addressed]
        obtain ⟨hle, hall⟩ := ih old
        rw [hfold, hsame, hstarts, List.length_cons]
        refine ⟨by omega, fun hge run hrun => ?_⟩
        rcases hall (by omega) run hrun with hold | ⟨r', hr', hrun⟩
        · exact Or.inl hold
        · exact Or.inr ⟨r', List.mem_cons_of_mem _ hr', hrun⟩
      · have hstarts : (starts (r :: rs)).length = (starts rs).length := by simp [starts, hdata]
        rw [hfold, hstarts, foldl_push_addressed old r.address hdata, List.length_cons]
        obtain ⟨hle, hall⟩ := ih (pushRun old (r.address, r.data))
        rcases pushRun_length old (r.address, r.data) with hnew | hlen
        · rw [hnew] at hle hall ⊢
          rw [List.length_cons] at hle hall
          refine ⟨by omega, fun hge run hrun => ?_⟩
          rcases hall (by omega) run hrun with hold | ⟨r', hr', hrun⟩
          · rcases List.mem_cons.mp hold with rfl | hold
            · exact Or.inr ⟨r, List.mem_cons_self .., rfl⟩
            · exact Or.inl hold
          · exact Or.inr ⟨r', List.mem_cons_of_mem _ hr', hrun⟩
        · exact ⟨by omega, fun hge => absurd hge (by omega)⟩

/-- The runs of a program: their bytes in order are the program. -/
theorem programOf_push (rs : List Run) (x : UInt32 × UInt8) :
    programOf (push rs x).reverse = programOf rs.reverse ++ [x] := by
  have hnext (adr : UInt32) (data : List UInt8) (b : UInt8) : addressed adr (data ++ [b]) =
      addressed adr data ++ [(adr + data.length.toUInt32, b)] := by
    induction data generalizing adr with
    | nil => simp [addressed]
    | cons c data ih =>
        rw [List.cons_append, addressed, ih, addressed, List.cons_append, List.length_cons,
          toUInt32_succ]
  unfold push
  split
  · simp [programOf, addressed]
  · split
    · rename_i heq
      simp only [programOf, List.reverse_cons, List.flatMap_append, List.flatMap_cons,
        List.flatMap_nil, List.append_nil, List.append_assoc]
      rw [hnext, ← heq]
    · simp [programOf, addressed]

theorem programOf_runs (xs : List (UInt32 × UInt8)) : programOf (runs xs).reverse = xs := by
  have hfold (xs : List (UInt32 × UInt8)) (rs : List Run) :
      programOf (xs.foldl push rs).reverse = programOf rs.reverse ++ xs := by
    induction xs generalizing rs with
    | nil => simp
    | cons x xs ih => rw [List.foldl_cons, ih, programOf_push, List.append_assoc]; rfl
  simpa [programOf, runs] using hfold xs []

theorem runs_nonempty {xs : List (UInt32 × UInt8)} : ∀ r ∈ runs xs, r.2 ≠ [] := by
  have hpush (rs : List Run) (hrs : ∀ r ∈ rs, r.2 ≠ []) (x : UInt32 × UInt8) :
      ∀ r ∈ push rs x, r.2 ≠ [] := by
    intro r hr
    unfold push at hr
    split at hr
    · simp only [List.mem_singleton] at hr
      simp [hr]
    · split at hr
      · rcases List.mem_cons.mp hr with rfl | hr
        · simp
        · exact hrs r (List.mem_cons_of_mem _ hr)
      · rcases List.mem_cons.mp hr with rfl | hr
        · simp
        · exact hrs r hr
  have hfold (xs : List (UInt32 × UInt8)) (rs : List Run) (hrs : ∀ r ∈ rs, r.2 ≠ []) :
      ∀ r ∈ xs.foldl push rs, r.2 ≠ [] := by
    induction xs generalizing rs with
    | nil => exact hrs
    | cons x xs ih => exact ih _ (hpush rs hrs x)
  exact hfold xs [] (by simp)

/-- The oldest run starts at the first address. -/
theorem first_address (xs : List (UInt32 × UInt8)) :
    (runs xs).getLast?.map Prod.fst = xs.head?.map Prod.fst := by
  have hprogram := programOf_runs xs
  have hnonempty : ∀ r ∈ runs xs, r.2 ≠ [] := runs_nonempty
  revert hprogram hnonempty
  rw [← List.head?_reverse]
  have hmem (r : Run) : r ∈ (runs xs).reverse ↔ r ∈ runs xs := List.mem_reverse
  simp only [← hmem]
  generalize (runs xs).reverse = rs
  intro hprogram hnonempty
  rw [← hprogram]
  match rs with
  | [] => rfl
  | (adr, []) :: rs => exact absurd rfl (hnonempty _ (List.mem_cons_self ..))
  | (adr, b :: data) :: rs => rfl

/-- The newest run goes on behind the last address. -/
theorem next_address (xs : List (UInt32 × UInt8)) (x : UInt32 × UInt8) :
    nextOf (runs (xs ++ [x])) = x.1 + 1 := by
  rw [runs, List.foldl_append, List.foldl_cons, List.foldl_nil]
  generalize xs.foldl push [] = rs
  unfold push
  split
  · rfl
  · split
    · rename_i heq
      simp [nextOf, heq, UInt32.add_assoc]
    · rfl

/-! ## The program is preserved -/

/-- The records of the output decode to the program and the start address, and
each adds up to 0. -/
def Preserves (bigEndian : Bool) (rs : List Run) (start : UInt32) (text : List Char) : Prop :=
  ∃ recs, decode (srec2bin bigEndian text) = some recs ∧ program recs = programOf rs ∧
    starts recs = [start] ∧ ∀ r ∈ recs, r.total = 0

/-- No line is too long, the first byte is not at address 0, the start address
is not the one behind the last byte (0, if there is none), and no run has 2^32
bytes or more. -/
structure Convertible (rs : List Run) (start : UInt32) (text : List Char) : Prop where
  fits : Fits text
  first : ∀ x, (programOf rs).head? = some x → x.1 ≠ 0
  last : ∀ x, (programOf rs).getLast? = some x → start ≠ x.1 + 1
  none : programOf rs = [] → start ≠ 0
  short : ∀ r ∈ runs (programOf rs), r.2.length < 2 ^ 32

/-- What the file takes: the program, and twelve bytes for each record. -/
theorem Finished.length {tag raw : List UInt8} {rs : List Run} {closed : List Piece} {file : List UInt8}
    (h : Finished tag rs raw closed file) (htag : tag.length = 4) :
    (file.drop 4).length = (programOf rs.reverse).length + 12 * closed.length ∧
      closed.length + (if raw = [] then 0 else 1) = rs.length := by
  have hclosed : (closed.flatMap Piece.bytes).length =
      (programOf (closed.map Piece.run)).length + 12 * closed.length := by
    clear h
    induction closed with
    | nil => rfl
    | cons p closed ih =>
        simp only [programOf, List.map_cons, List.flatMap_cons, List.length_append, p.size,
          addressed_length, List.length_cons] at ih ⊢
        rw [ih]
        omega
  constructor
  · rw [h.file, List.drop_left' htag, List.length_append, hclosed, h.runs]
    split
    · rename_i hraw
      simp [hraw]
    · simp only [programOf, List.cons_append, List.nil_append, List.flatMap_cons, List.length_append,
        addressed_length]
      omega
  · have hlen := congrArg List.length h.runs
    rw [List.length_reverse, List.length_append, List.length_map] at hlen
    rw [hlen]
    split <;> simp [Nat.add_comm]

theorem recOf_total (r : Run) : (recOf r).total = 0 := by
  have hneg (a : UInt32) : a + (~~~a + 1) = 0 := by
    rw [← UInt32.neg_eq_not_add, UInt32.add_neg_eq_sub, UInt32.sub_self]
  have hcomm : r.2.length.toUInt32 + r.1 + byteSum r.2 = r.1 + byteSum r.2 + r.2.length.toUInt32 := by
    rw [UInt32.add_assoc, UInt32.add_comm]
  show r.2.length.toUInt32 + r.1 + byteSum r.2 + _ = 0
  rw [hcomm]
  exact hneg _

theorem preserves_of_convertible {rs : List Run} {start : UInt32} {text : List Char}
    (h : IsFile rs start text) (hc : Convertible rs start text) (bigEndian : Bool) :
    Preserves bigEndian rs start text := by
  rcases converted h bigEndian with ⟨-, raw, closed, hfinished, -⟩ | ⟨hnot, -⟩
  · have hstart : start ≠ nextOf (runs (programOf rs)) := by
      rcases List.eq_nil_or_concat (programOf rs) with hnil | ⟨xs, x, hxs⟩
      · rw [hnil]
        exact hc.none hnil
      · rw [hxs, List.concat_eq_append, next_address]
        exact hc.last x (by rw [hxs, List.concat_eq_append, List.getLast?_concat])
    rw [if_neg hstart] at hfinished
    have hraw : raw = [] := by
      by_contra hraw
      have hruns := hfinished.runs
      rw [if_neg hraw, List.reverse_cons] at hruns
      have hhead : (runs (programOf rs)).reverse.head? = some (0, raw) := by
        cases hrev : (runs (programOf rs)).reverse with
        | nil =>
            rw [hrev] at hruns
            have hraw' := congrArg (fun l => (l.head?.map Prod.snd)) hruns
            simp at hraw'
            exact absurd hraw' hraw
        | cons r rest =>
            rw [hrev] at hruns
            have hfirst := congrArg List.head? hruns
            simpa using hfirst
      have hfirst := first_address (programOf rs)
      rw [← List.head?_reverse, hhead] at hfirst
      obtain ⟨x, hx, hzero⟩ := Option.map_eq_some_iff.mp hfirst.symm
      exact hc.first x hx hzero
    subst hraw
    have hruns : closed.map Piece.run = (runs (programOf rs)).reverse ++ [(start, [])] := by
      have hall := hfinished.runs
      simpa using hall.symm
    have hbytes : (srec2bin bigEndian text).drop 4 =
        (((runs (programOf rs)).reverse ++ [(start, [])]).map recOf).flatMap Rec.bytes := by
      rw [hfinished.file, List.drop_left' (by simp [tagBytes]), List.nil_append, ← hruns,
        List.map_map, List.flatMap_map]
      have hmem : ∀ p ∈ closed, p.bytes = (recOf p.run).bytes := by
        intro p hp
        apply p.written
        have hrun : p.run ∈ (runs (programOf rs)).reverse ++ [(start, [])] := by
          rw [← hruns]
          exact List.mem_map_of_mem hp
        rcases List.mem_append.mp hrun with hrun | hrun
        · exact hc.short _ (List.mem_reverse.mp hrun)
        · rw [List.mem_singleton.mp hrun]
          exact Nat.two_pow_pos 32
      rw [List.flatMap_def, List.flatMap_def, List.map_congr_left hmem]
      rfl
    refine ⟨((runs (programOf rs)).reverse ++ [(start, [])]).map recOf, ?_, ?_, ?_, ?_⟩
    · have hlen := (hfinished.length (by simp [tagBytes])).1
      have hdrop : ((srec2bin bigEndian text).drop 4).length = (srec2bin bigEndian text).length - 4 :=
        List.length_drop
      have hcount : closed.length =
          (((runs (programOf rs)).reverse ++ [(start, [])]).map recOf).length := by
        rw [← hruns]
        simp
      rw [decode, hbytes]
      refine decodeRecs_bytes _ (fun r hr => ?_) _ (by omega)
      obtain ⟨run, hrun, rfl⟩ := List.mem_map.mp hr
      rcases List.mem_append.mp hrun with hrun | hrun
      · exact hc.short _ (List.mem_reverse.mp hrun)
      · rw [List.mem_singleton.mp hrun]
        exact Nat.two_pow_pos 32
    · conv_rhs => rw [← programOf_runs (programOf rs)]
      simp only [program, programOf, List.flatMap_map, recOf, List.flatMap_append, List.flatMap_cons,
        List.flatMap_nil, addressed, List.append_nil]
    · have hdata : ((runs (programOf rs)).reverse.map recOf).filter (fun r => r.data = []) = [] := by
        rw [List.filter_eq_nil_iff]
        intro r hr
        obtain ⟨run, hrun, rfl⟩ := List.mem_map.mp hr
        simpa [recOf] using runs_nonempty run (List.mem_reverse.mp hrun)
      rw [starts, List.map_append, List.filter_append, hdata]
      rfl
    · intro r hr
      obtain ⟨run, -, rfl⟩ := List.mem_map.mp hr
      exact recOf_total run
  · exact absurd hc.fits hnot

/-- Decoding to the program takes a record for each run and one for the start
address, and the file has no room for more than it has. -/
theorem convertible_of_preserves {rs : List Run} {start : UInt32} {text : List Char}
    (h : IsFile rs start text) {bigEndian : Bool} (hp : Preserves bigEndian rs start text) :
    Convertible rs start text := by
  obtain ⟨recs, hdecode, hprogram, hstarts, -⟩ := hp
  obtain ⟨hcount, hshort⟩ := decode_count hdecode
  obtain ⟨hleast, hexact⟩ := runs_of_records recs []
  rw [hprogram, hstarts] at hleast hexact
  rw [hprogram] at hcount
  change (runs (programOf rs)).length + 1 ≤ 0 + recs.length at hleast
  rcases converted h bigEndian with ⟨hfits, raw, closed, hfinished, hheaded⟩ |
    ⟨-, first, second, raw, closed, hsplit, hfinished⟩
  · obtain ⟨hlen, hclosed⟩ := hfinished.length (by simp [tagBytes])
    by_cases hstart : start = nextOf (runs (programOf rs))
    · rw [if_pos hstart] at hlen hclosed
      rw [programOf_runs] at hlen
      split at hclosed <;> omega
    · rw [if_neg hstart] at hlen hclosed
      rw [List.reverse_cons, programOf, List.flatMap_append] at hlen
      change _ = (programOf (runs (programOf rs)).reverse ++ []).length + _ at hlen
      rw [List.append_nil, programOf_runs] at hlen
      rw [List.length_cons] at hclosed
      have hraw : raw = [] := by
        by_contra hraw
        rw [if_neg hraw] at hclosed
        omega
      rw [if_pos hraw] at hclosed
      refine ⟨hfits, fun x hx => ?_, fun x hx => ?_, fun hnil => ?_, fun r hr => ?_⟩
      · have hfirst := first_address (programOf rs)
        rw [hx] at hfirst
        obtain ⟨r, hr, hadr⟩ := Option.map_eq_some_iff.mp hfirst
        rw [← hadr]
        exact hheaded hraw r hr
      · obtain ⟨xs, hxs⟩ := List.getLast?_eq_some_iff.mp hx
        rw [hxs, next_address] at hstart
        exact hstart
      · rw [hnil] at hstart
        exact hstart
      · change 0 + recs.length ≤ (runs (programOf rs)).length + 1 → ∀ run ∈ runs (programOf rs), _ at hexact
        rcases hexact (by omega) r hr with hold | ⟨r', hr', rfl⟩
        · cases hold
        · exact hshort r' hr'
  · obtain ⟨hlen, hclosed⟩ := hfinished.length (by simp [tagBytes])
    have hmore : (runs first).length ≤ (runs (programOf rs)).length := by
      rw [hsplit, runs, runs, List.foldl_append]
      exact foldl_push_length second _
    rw [programOf_runs] at hlen
    rw [hsplit, List.length_append] at hcount
    split at hclosed <;> omega

/-- Srec2bin preserves the program of a file exactly when it is convertible. -/
theorem srec2bin_preserves_iff (bigEndian : Bool) (rs : List Run) (start : UInt32) (text : List Char)
    (h : IsFile rs start text) : Preserves bigEndian rs start text ↔ Convertible rs start text :=
  ⟨convertible_of_preserves h, fun hc => preserves_of_convertible h hc bigEndian⟩

/-- A byte and the start address, with both line ends. -/
def smallFile : List Char := "S30680001000AABF\r\nS705800010006a".toList

theorem srec2bin_preserves_smallFile :
    IsFile [(0x80001000, [0xAA])] 0x80001000 smallFile ∧
      Preserves true [(0x80001000, [0xAA])] 0x80001000 smallFile := by
  have hfile : IsFile [(0x80001000, [0xAA])] 0x80001000 smallFile :=
    ⟨["S30680001000AABF\r".toList], "S705800010006a".toList, by decide,
      .cons ⟨0xBF, "0680001000AABF".toList, 6, by decide, by decide, rfl, by decide⟩ .nil,
      0x6A, "05800010006a".toList, 5, by decide, by decide, rfl, by decide⟩
  refine ⟨hfile, (srec2bin_preserves_iff true _ _ _ hfile).mpr ⟨?_, ?_, ?_, ?_, ?_⟩⟩
  · rw [Fits]
    decide
  · rintro x ⟨⟩
    decide
  · rintro x ⟨⟩
    decide
  · rintro ⟨⟩
  · decide

/-- A byte at address 0. -/
def zeroFile : List Char := "S30600000000AA4F\nS705800010006A\n".toList

/-- A start address behind the last byte. -/
def endFile : List Char := "S30680001000AABF\nS7058000100169\n".toList

/-- The digits of an S3 record with 121 bytes. -/
def longDigits : List Char := "7E80001000".toList ++ (List.replicate 242 '0' ++ ['F', '1'])

def longFile : List Char := 'S' :: '3' :: longDigits ++ "\nS705800010006A\n".toList

theorem srec2bin_loses :
    (IsFile [(0, [0xAA])] 0x80001000 zeroFile ∧ ¬Preserves true [(0, [0xAA])] 0x80001000 zeroFile) ∧
    (IsFile [(0x80001000, [0xAA])] 0x80001001 endFile ∧
      ¬Preserves true [(0x80001000, [0xAA])] 0x80001001 endFile) ∧
    IsFile [(0x80001000, List.replicate 121 0)] 0x80001000 longFile ∧
      ¬Preserves true [(0x80001000, List.replicate 121 0)] 0x80001000 longFile := by
  have hzero : IsFile [(0, [0xAA])] 0x80001000 zeroFile :=
    ⟨["S30600000000AA4F".toList], "S705800010006A".toList, by decide,
      .cons ⟨0x4F, "0600000000AA4F".toList, 6, by decide, by decide, rfl, by decide⟩ .nil,
      0x6A, "05800010006A".toList, 5, by decide, by decide, rfl, by decide⟩
  have hend : IsFile [(0x80001000, [0xAA])] 0x80001001 endFile :=
    ⟨["S30680001000AABF".toList], "S7058000100169".toList, by decide,
      .cons ⟨0xBF, "0680001000AABF".toList, 6, by decide, by decide, rfl, by decide⟩ .nil,
      0x69, "058000100169".toList, 5, by decide, by decide, rfl, by decide⟩
  have hlong : IsFile [(0x80001000, List.replicate 121 0)] 0x80001000 longFile :=
    ⟨['S' :: '3' :: longDigits], "S705800010006A".toList, by decide +kernel,
      .cons ⟨0xF1, longDigits, 0x7E, by decide +kernel, by decide +kernel, by decide +kernel,
        by decide +kernel⟩ .nil,
      0x6A, "05800010006A".toList, 5, by decide, by decide, rfl, by decide⟩
  refine ⟨⟨hzero, fun hp => ?_⟩, ⟨hend, fun hp => ?_⟩, hlong, fun hp => ?_⟩
  · exact (convertible_of_preserves hzero hp).first (0, 0xAA) rfl rfl
  · exact (convertible_of_preserves hend hp).last (0x80001000, 0xAA) rfl rfl
  · have hfits := (convertible_of_preserves hlong hp).fits
    rw [Fits] at hfits
    revert hfits
    decide +kernel

end UbntSdk.Images.Srec
