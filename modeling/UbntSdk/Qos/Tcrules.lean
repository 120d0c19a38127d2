/-
UbntSdk.Qos.Tcrules — the rates of the traffic classes
(`package/qos-scripts/files/usr/lib/qos/tcrules.awk`).

The numbers of the script are taken to be exact. An empty field counts as 0: the
script compares fields with 0 and calculates with them, and does nothing else. The
arrays are read and written at one index at a time, so they are a list of rows. A
division by 0 ends the script.
-/
import Mathlib.Algebra.Order.Field.Rat
import UbntSdk.Lib.Pass

namespace UbntSdk.Qos

open Lib (passM)

/-- The fields `$1` to `$6` of a line. -/
structure Line where
  cls : String
  prio : ℚ
  avgrate : ℚ
  pktsize : ℚ
  delay : ℚ
  maxrate : ℚ

/-- The arrays at an index. -/
structure Row where
  cls : String
  prio : ℚ
  avgrate : ℚ
  pktsize : ℚ
  delay : ℚ
  maxrate : ℚ
  d : ℚ := 0
  rtm1 : ℚ := 0
  rtm2 : ℚ := 0
  lsm1 : ℚ := 0
  lsm2 : ℚ := 0

/-- The totals of the first pass. -/
structure Sums where
  allocated : ℚ := 0
  sumPrio : ℚ := 0
  sumRtprio : ℚ := 0

/-- `a / b`. -/
def quot (a b : ℚ) : Option ℚ := if b = 0 then none else some (a / b)

/-- The line speed, with its default. -/
def speed (linespeed : ℚ) : ℚ := if 0 < linespeed then linespeed else 128

/-- What a line puts into the arrays. -/
def rowOf (linespeed : ℚ) (l : Line) : Row where
  cls := l.cls
  prio := l.prio
  avgrate := l.avgrate * linespeed / 100
  pktsize := l.pktsize
  delay := l.delay
  maxrate := l.maxrate * linespeed / 100

/-- The lines that name a class. -/
def readLines (linespeed : ℚ) (lines : List Line) : List Row :=
  (lines.filter (·.cls ≠ "")).map (rowOf linespeed)

/-- The first pass: the defaults, and the sums. -/
def addUp (s : Sums) (r : Row) : Row × Sums :=
  let r := { r with pktsize := if 0 < r.pktsize then r.pktsize else 1500 }
  let r := { r with prio := if 0 < r.prio then r.prio else 1 }
  let s := { s with allocated := s.allocated + r.avgrate, sumPrio := s.sumPrio + r.prio }
  if 0 < r.avgrate ∧ ¬0 < r.delay then (r, { s with sumRtprio := s.sumRtprio + r.prio })
  else (r, s)

/-- The second pass: the delays, and the greatest of those that are not given. -/
def setDelay (linespeed dmax : ℚ) (r : Row) : Option (Row × ℚ) :=
  if 0 < r.avgrate then
    let r := { r with rtm2 := r.avgrate }
    if 0 < r.delay then some ({ r with d := r.delay }, dmax)
    else do
      let d ← quot (2 * r.pktsize * 1000) (linespeed * 1024)
      some ({ r with d := d }, if dmax < d then d else dmax)
  else some (r, dmax)

/-- The third pass: the rates, and what is left of the budget. -/
def allocate (linespeed : ℚ) (s : Sums) (dsAvail : ℚ) (r : Row) : Option (Row × ℚ) := do
  let lsm2 ← quot (linespeed * r.prio) s.sumPrio
  let r := { r with lsm1 := 0, rtm1 := 0, lsm2 := lsm2 }
  if 0 < r.avgrate ∧ 0 < r.d then
    if ¬0 < r.delay then
      let ds ← quot (dsAvail * r.prio) s.sumRtprio
      let m1 ← quot ds r.d
      let r := { r with rtm1 := r.rtm2 + m1 }
      some ({ r with lsm1 := r.rtm1 }, dsAvail - ds)
    else some ({ r with lsm1 := r.rtm1 }, dsAvail)
  else some ({ r with d := 0 }, dsAvail)

/-- The values that the script has when it begins to print. -/
structure Rates where
  linespeed : ℚ
  rows : List Row
  allocated : ℚ
  dmax : ℚ

/-- `tcrules.awk`, to where it begins to print. -/
def tcrules (linespeed : ℚ) (lines : List Line) : Option Rates := do
  let linespeed := speed linespeed
  let rows := readLines linespeed lines
  let (rows, s) ← passM (fun s r => some (addUp s r)) {} rows
  let (rows, dmax) ← passM (setDelay linespeed) 0 rows
  let (rows, _) ← passM (allocate linespeed s) (dmax * (linespeed - s.allocated)) rows
  some ⟨linespeed, rows, s.allocated, dmax⟩

end UbntSdk.Qos
