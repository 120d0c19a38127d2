/-
UbntSdk.Arpnat.Listing — the table as a file under `/proc`
(`target/linux/ubnt/patches/300-ebtables-arpnat.patch`): `ancache_start`,
`ancache_next` and `ancache_show`.

A pointer into a list is the node with those behind it. `m->private` is the
record of the line, and null on the line of a MAC. Where `ancache_start`
returns null it leaves `m->private` as it was; nothing reads it then.
-/
import UbntSdk.Arpnat.Table
import UbntSdk.Lib.SeqFile

namespace UbntSdk.Arpnat

open UbntSdk.Lib

/-- Where a reader is: the entry with those behind it, and `m->private`. -/
structure Cursor where
  tpos : Mac2ip
  rest : ArpnatTable
  pos2 : List ArpnatData
  deriving DecidableEq

/-- The loop over the records in `ancache_start`: the record, or what is left
of the number. -/
def startData : List ArpnatData → Nat → List ArpnatData × Nat
  | [], num => ([], num)
  | tpos2 :: pos2, 0 => (tpos2 :: pos2, 0)
  | _ :: pos2, num + 1 => startData pos2 num

/-- `ancache_start`. -/
def ancacheStart : ArpnatTable → Nat → Option Cursor
  | [], _ => none
  | tpos :: rest, 0 => some ⟨tpos, rest, []⟩
  | tpos :: rest, num + 1 =>
      match startData tpos.data num with
      | ([], num) => ancacheStart rest num
      | (pos2, _) => some ⟨tpos, rest, pos2⟩

/-- `ancache_next`. -/
def ancacheNext (c : Cursor) : Option Cursor :=
  let pos2 :=
    match c.pos2 with
    | _ :: pos2 => pos2
    | [] => c.tpos.data
  match pos2 with
  | [] =>
      match c.rest with
      | tpos :: rest => some ⟨tpos, rest, []⟩
      | [] => none
  | pos2 => some { c with pos2 := pos2 }

def arpnatCacheSops (table : ArpnatTable) : SeqOps Cursor := ⟨ancacheStart table, ancacheNext⟩

/-! ## Lines -/

inductive Line where
  | mac (mac : Mac)
  | data (data : ArpnatData)
  deriving DecidableEq

/-- What `ancache_show` has to show. -/
def Cursor.line (c : Cursor) : Line :=
  match c.pos2 with
  | tpos2 :: _ => .data tpos2
  | [] => .mac c.tpos.mac

/-- Digits of a number, with zeros in front up to a width. -/
def padded (base width n : Nat) : String :=
  let digits := String.ofList (Nat.toDigits base n)
  String.ofList (List.replicate (width - digits.length) '0') ++ digits

/-- `%8ld`. -/
def ld8 (n : Nat) : String :=
  let digits := toString n
  String.ofList (List.replicate (8 - digits.length) ' ') ++ digits

/-- `%pM`. -/
def macText (mac : Mac) : String :=
  String.intercalate ":" ((List.finRange 6).map fun i => padded 16 2 (mac i).toNat)

/-- `%pI4`. -/
def ipText (ip : UInt32) : String :=
  String.intercalate "." ((List.range 4).map fun i => toString (ip.toNat / 256 ^ (3 - i) % 256))

/-- `ancache_show`: the time that is left in seconds and milliseconds, the
address and the session. `jiffies_to_msecs` is a function of the kernel. -/
def ancacheShow (clock : Clock) (jiffiesToMsecs : Nat → Nat) (jiffies : Nat) : Line → String
  | .mac mac => macText mac ++ "\n"
  | .data tpos2 =>
      let exp : Int := tpos2.expires - jiffies
      let left :=
        if exp < 0 then "\t     expired "
        else "\t" ++ ld8 (exp.toNat / clock.hz) ++ "." ++
          padded 10 3 (jiffiesToMsecs (exp.toNat % clock.hz)) ++ " "
      left ++ ipText tpos2.ip ++ " " ++ padded 16 0 tpos2.pppoeId.toNat ++ "\n"

/-- The lines of the file. -/
def listing (table : ArpnatTable) : List Line :=
  table.flatMap fun tpos => .mac tpos.mac :: tpos.data.map .data

end UbntSdk.Arpnat
