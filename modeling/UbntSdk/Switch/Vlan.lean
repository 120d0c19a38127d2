/-
UbntSdk.Switch.Vlan — the parser of VLAN settings of the switch drivers
(`package/switch/src/switch-core.c`, `switch-core.h`).

A string is the list of its characters before the NUL. Memory can be allocated.
An `int` has 32 bits and wraps around, and the amount of a shift is taken modulo
32, as on the target CPU; so `Int32` and `UInt32` are what the source computes
with.
-/
import Mathlib.Algebra.Order.Ring.Int
import Mathlib.Tactic.Common

namespace UbntSdk.Switch

/-- The fields of a `switch_driver` that the parser reads. -/
structure SwitchDriver where
  cpuport : Int32
  ports : UInt32

/-- `switch_vlan_config`. -/
structure SwitchVlanConfig where
  port : UInt32
  untag : UInt32
  pvid : UInt32
  deriving DecidableEq

/-- `isspace`. -/
def isspace (c : Char) : Bool := c = ' ' || c = '\t' || c = '\n' || c = '\r'

def isdigit (c : Char) : Bool := '0' ≤ c && c ≤ '9'

/-- The loop over the flags: `u`, `p` and what follows. -/
def flags : List Char → Bool → Bool → Bool × Bool × List Char
  | [], u, p => (u, p, [])
  | ch :: buf, u, p =>
      if isspace ch then (u, p, ch :: buf)
      else if ch = 'u' then flags buf true p
      else if ch = 't' then flags buf false p
      else if ch = '*' then flags buf u true
      else flags buf u p

/-- `1 << j`. -/
def bit (j : Int32) : UInt32 := 1 <<< j.toUInt32

/-- What a port `j` with its flags adds. -/
def addPort (c : SwitchVlanConfig) (j : Int32) (u p : Bool) : SwitchVlanConfig where
  port := c.port ||| bit j
  untag := if u then c.untag ||| bit j else c.untag
  pvid := if p then c.pvid ||| bit j else c.pvid

theorem flags_length_le (buf : List Char) (u p : Bool) :
    (flags buf u p).2.2.length ≤ buf.length := by
  induction buf generalizing u p with
  | nil => exact Nat.le_refl _
  | cons ch buf ih =>
      rw [flags]
      split
      · exact Nat.le_refl _
      split
      · exact Nat.le_succ_of_le (ih _ _)
      split
      · exact Nat.le_succ_of_le (ih _ _)
      split
      · exact Nat.le_succ_of_le (ih _ _)
      · exact Nat.le_succ_of_le (ih _ _)

theorem dropWhile_length_le (p : Char → Bool) (buf : List Char) :
    (buf.dropWhile p).length ≤ buf.length :=
  (List.dropWhile_suffix p).length_le

/-- The loop of `switch_parse_vlan`: the ports, and where it stops. -/
def parseLoop (driver : SwitchDriver) (j : Int32) (c : SwitchVlanConfig) :
    List Char → SwitchVlanConfig × List Char
  | [] => (c, [])
  | ch :: buf =>
      if isdigit ch then
        let j := j * 10 + Int32.ofNat (ch.toNat - '0'.toNat)
        let u := j ≠ driver.cpuport
        let s := !buf.head?.any isdigit
        if s then
          let r := flags buf u false
          parseLoop driver 0 (addPort c j r.1 r.2.1) (r.2.2.dropWhile isspace)
        else parseLoop driver j c (buf.dropWhile isspace)
      else (c, ch :: buf)
  termination_by buf => buf.length
  decreasing_by
    · exact Nat.lt_succ_of_le
        (Nat.le_trans (dropWhile_length_le isspace _) (flags_length_le buf _ _))
    · exact Nat.lt_succ_of_le (dropWhile_length_le isspace buf)

/-- `switch_parse_vlan`. -/
def switchParseVlan (driver : SwitchDriver) (buf : List Char) : Option SwitchVlanConfig :=
  let (c, buf) := parseLoop driver 0 ⟨0, 0, 0⟩ (buf.dropWhile isspace)
  if buf ≠ [] then none
  else
    let mask := (1 <<< driver.ports) - 1
    some ⟨c.port &&& mask, c.untag &&& mask, c.pvid &&& mask⟩

end UbntSdk.Switch
