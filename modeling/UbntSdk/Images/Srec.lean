/-
UbntSdk.Images.Srec — the converter of S-record files to binary records
(`tools/firmware-utils/src/srec2bin.c`).

The output file is the list of its bytes. Outside `binRecEnd` the position is
its end; there the length of the record is filled in by going back to it, and
`long` is wide enough for that. `gh` turns letters in the line to upper case,
which has no effect but on `gh` itself, and prints a message for a character
that is no digit, which then counts as 0.

A record of the output is `Rec`, and `decode` reads a file of them.
-/
import Mathlib.Data.UInt
import UbntSdk.Lib.Words

namespace UbntSdk.Images.Srec

open UbntSdk.Lib

/-! ## The output file -/

/-- The global variables of the program. -/
structure Out where
  fOut : List UInt8
  recLength : UInt32
  checkSum : UInt32
  recStart : Bool
  addressCurrent : UInt32
  s1s2s3Total : Nat
  deriving DecidableEq

/-- `binOut32`. -/
def binOut32 (data : UInt32) (o : Out) : Out := { o with fOut := o.fOut ++ le32 data }

/-- `binOut8`. -/
def binOut8 (data : UInt8) (o : Out) : Out :=
  { o with fOut := o.fOut ++ [data], recLength := o.recLength + 1 }

/-- `binRecStart`. -/
def binRecStart (address : UInt32) (o : Out) : Out :=
  binOut32 address (binOut32 0 { o with recLength := 0, checkSum := address, recStart := true })

/-- `binRecEnd`. -/
def binRecEnd (o : Out) : Out :=
  if o.recStart then
    let pos := o.fOut.length - o.recLength.toNat - 4 - 4
    let checkSum := ~~~(o.checkSum + o.recLength) + 1
    binOut32 checkSum { o with
      fOut := o.fOut.take pos ++ le32 o.recLength ++ o.fOut.drop (pos + 4)
      checkSum
      recStart := false }
  else o

/-- `binRecOutProgramStart`. -/
def binRecOutProgramStart (address : UInt32) (o : Out) : Out :=
  let o := if address ≠ o.addressCurrent + 1 then binRecStart address (binRecEnd o) else o
  { o with addressCurrent := address }

/-- `binRecOutByte`. -/
def binRecOutByte (address : UInt32) (data : UInt8) (o : Out) : Out :=
  let o := if address ≠ o.addressCurrent + 1 then binRecStart address (binRecEnd o) else o
  binOut8 data { o with addressCurrent := address, checkSum := o.checkSum + data.toUInt32 }

/-! ## Lines -/

/-- The lines of a file. -/
def rawLines : List Char → List (List Char)
  | [] => []
  | c :: cs =>
      if c = '\n' then [] :: rawLines cs
      else
        match rawLines cs with
        | [] => [[c]]
        | line :: lines => (c :: line) :: lines

/-- What `readline` leaves of a line in a buffer of 256 characters; the string
there ends at a NUL. -/
def readline (line : List Char) : List Char :=
  ((line.filter (· ≠ '\r')).take 255).takeWhile (· ≠ '\x00')

/-- `isxdigit`. -/
def isxdigit (c : Char) : Bool :=
  ('0' ≤ c ∧ c ≤ '9') || ('a' ≤ c ∧ c ≤ 'f') || ('A' ≤ c ∧ c ≤ 'F')

/-- The digit that `gh` adds for a character. -/
def ghDigit (c : Char) : UInt32 :=
  let c := if 'a' ≤ c ∧ c ≤ 'z' then c.toNat &&& 0x5f else c.toNat
  if 0x30 ≤ c ∧ c ≤ 0x39 then (c - 0x30).toUInt32
  else if 0x41 ≤ c ∧ c ≤ 0x46 then (c - 0x37).toUInt32
  else 0

/-- `gh`. -/
def gh (cp : List Char) (nibs : Nat) : UInt32 :=
  (cp.take nibs).foldl (fun j c => (j <<< 4) + ghDigit c) 0

/-- The sum over `count` bytes of the line. -/
def sumBytes (cp : List Char) : Nat → Nat
  | 0 => 0
  | count + 1 => (gh cp 2).toNat + sumBytes (cp.drop 2) count

/-- `checksum`. -/
def checksum (cp : List Char) (count : Nat) : Bool :=
  cp.all isxdigit && (count + sumBytes cp count) % 256 == 0xff

/-- The loop of an S3 record over `count` bytes. -/
def outBytes : List Char → Nat → UInt32 → Out → Out
  | _, 0, _, o => o
  | p, count + 1, adr, o =>
      outBytes (p.drop 2) count (adr + 1) (binRecOutByte adr (gh p 2).toUInt8 o)

/-- `srecLine`: whether the line is accepted, and what it leaves. -/
def srecLine (line : List Char) (o : Out) : Bool × Out :=
  match line with
  | 'S' :: p =>
      if p.length < 4 then (false, o)
      else
        let ch := p.head?
        let p := p.drop 1
        let count := (gh p 2).toNat
        let p := p.drop 2
        if count * 2 ≠ p.length then (false, o)
        else if !checksum p count then (false, o)
        else
          match ch with
          | some '0' => if count < 3 then (false, o) else (gh p 4 == 0, o)
          | some '3' =>
              if count < 5 then (false, o)
              else
                let o := outBytes (p.drop 8) (count - 4 - 1) (gh p 8) o
                (true, { o with s1s2s3Total := o.s1s2s3Total + 1 })
          | some '5' =>
              if count < 3 then (false, o) else ((gh p 4).toNat ||| o.s1s2s3Total == 0, o)
          | some '7' =>
              if count < 5 then (false, o)
              else if count - 4 ≠ 1 then (false, o)
              else (true, binRecOutProgramStart (gh p 8) o)
          | some '1' | some '2' | some '4' | some '6' | some '8' | some '9' => (false, o)
          | _ => (true, o)
  | _ => (false, o)

/-- The main loop of `srec2bin`: it goes on until a line is not accepted. -/
def srecLines : List (List Char) → Out → Out
  | [], o => o
  | line :: lines, o =>
      let buff := readline line
      if buff = [] then srecLines lines o
      else
        let (sts, o) := srecLine buff o
        if sts then srecLines lines o else o

def TAG_BIG : UInt32 := 0xDEADBE42
def TAG_LITTLE : UInt32 := 0xFEEDFA42

/-- The state in which `srec2bin` reads the first line. -/
def opened (bigEndian : Bool) : Out :=
  binOut32 (if bigEndian then TAG_BIG else TAG_LITTLE) {
    fOut := [], recLength := 0, checkSum := 0, recStart := false, addressCurrent := 0xFFFFFFFF
    s1s2s3Total := 0 }

/-- `srec2bin`: the bytes of the output file. -/
def srec2bin (bigEndian : Bool) (fil : List Char) : List UInt8 :=
  (binRecEnd (srecLines (rawLines fil) (opened bigEndian))).fOut

/-! ## Binary records -/

/-- A record of the output file. -/
structure Rec where
  address : UInt32
  data : List UInt8
  checksum : UInt32
  deriving DecidableEq

/-- The bytes under their addresses. -/
def addressed : UInt32 → List UInt8 → List (UInt32 × UInt8)
  | _, [] => []
  | adr, b :: bs => (adr, b) :: addressed (adr + 1) bs

/-- The first record in a list of bytes, and the rest. -/
def decodeRec (bs : List UInt8) : Option (Rec × List UInt8) :=
  if bs.length < 8 then none
  else
    let length := (ofLe32 (bs.take 4)).toNat
    let body := bs.drop 8
    if body.length < length + 4 then none
    else some (⟨ofLe32 ((bs.drop 4).take 4), body.take length, ofLe32 ((body.drop length).take 4)⟩,
      body.drop (length + 4))

/-- The records in a list of bytes, at most `n` of them. -/
def decodeRecs : Nat → List UInt8 → Option (List Rec)
  | _, [] => some []
  | 0, _ => none
  | n + 1, bs =>
      match decodeRec bs with
      | none => none
      | some (r, rest) => (decodeRecs n rest).map (r :: ·)

/-- The records of a file, behind its tag. -/
def decode (file : List UInt8) : Option (List Rec) := decodeRecs file.length (file.drop 4)

/-- The bytes that the records put in memory, in order. -/
def program (rs : List Rec) : List (UInt32 × UInt8) := rs.flatMap fun r => addressed r.address r.data

/-- The start addresses: those of the records without data. -/
def starts (rs : List Rec) : List UInt32 := (rs.filter fun r => r.data = []).map Rec.address

/-- Length, address, data and checksum of a record. -/
def Rec.total (r : Rec) : UInt32 :=
  r.data.length.toUInt32 + r.address + (r.data.map UInt8.toUInt32).sum + r.checksum

end UbntSdk.Images.Srec
