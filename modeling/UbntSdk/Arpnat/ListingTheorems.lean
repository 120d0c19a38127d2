/-
UbntSdk.Arpnat.ListingTheorems — a reader of the `/proc` file sees the table.

`ancache_start` counts lines, `ancache_next` follows pointers. One step of the
counting is one step of the following (`ancacheStart_succ`), and what
`ancache_start` finds is the line of the listing (`ancacheStart_line`); the
rest is `UbntSdk.Lib.SeqFile`.
-/
import UbntSdk.Arpnat.Listing
import UbntSdk.Arpnat.TableTheorems

namespace UbntSdk.Arpnat

open UbntSdk.Lib

theorem startData_eq (data : List ArpnatData) (num : Nat) :
    startData data num = (data.drop num, num - data.length) := by
  induction data generalizing num with
  | nil => simp [startData]
  | cons d data ih =>
      cases num with
      | zero => simp [startData]
      | succ num => simp [startData, ih]

/-- The first line of an entry is its MAC. -/
theorem ancacheStart_zero (tpos : Mac2ip) (rest : ArpnatTable) :
    ancacheStart (tpos :: rest) 0 = some ⟨tpos, rest, []⟩ := rfl

/-- Behind it are its records and then the other entries. -/
theorem ancacheStart_cons (tpos : Mac2ip) (rest : ArpnatTable) (num : Nat) :
    ancacheStart (tpos :: rest) (num + 1) =
      if num < tpos.data.length then some ⟨tpos, rest, tpos.data.drop num⟩
      else ancacheStart rest (num - tpos.data.length) := by
  rw [ancacheStart, startData_eq]
  split
  · rename_i n heq
    simp only [Prod.mk.injEq, List.drop_eq_nil_iff] at heq
    obtain ⟨hle, rfl⟩ := heq
    rw [if_neg (by omega)]
  · rename_i pos2 n hne heq
    simp only [Prod.mk.injEq] at heq
    obtain ⟨rfl, rfl⟩ := heq
    rw [if_pos]
    by_contra hge
    exact hne (List.drop_eq_nil_of_le (by omega))

/-- Where a reader goes from the line in front of these records. -/
def after (tpos : Mac2ip) (rest : ArpnatTable) : List ArpnatData → Option Cursor
  | [] => ancacheStart rest 0
  | tpos2 :: pos2 => some ⟨tpos, rest, tpos2 :: pos2⟩

theorem ancacheNext_mac (tpos : Mac2ip) (rest : ArpnatTable) :
    ancacheNext ⟨tpos, rest, []⟩ = after tpos rest tpos.data := by
  unfold ancacheNext
  cases hdata : tpos.data with
  | nil => cases rest <;> simp [after, ancacheStart]
  | cons tpos2 pos2 => simp [after]

theorem ancacheNext_data (tpos : Mac2ip) (rest : ArpnatTable) (tpos2 : ArpnatData)
    (pos2 : List ArpnatData) :
    ancacheNext ⟨tpos, rest, tpos2 :: pos2⟩ = after tpos rest pos2 := by
  unfold ancacheNext
  cases pos2 with
  | nil => cases rest <;> simp [after, ancacheStart]
  | cons tpos2' pos2 => simp [after]

/-- Behind the line of a MAC, or of a record that is left over, `num` lines
on. -/
theorem ancacheStart_after (tpos : Mac2ip) (rest : ArpnatTable) (num : Nat)
    (hle : num ≤ tpos.data.length) :
    ancacheStart (tpos :: rest) (num + 1) = after tpos rest (tpos.data.drop num) := by
  rw [ancacheStart_cons]
  split
  · rename_i hlt
    rw [List.drop_eq_getElem_cons hlt, after]
  · have hnum : num = tpos.data.length := by omega
    rw [hnum, Nat.sub_self, List.drop_length, after]

/-- Counting one line more is following one pointer more. -/
theorem ancacheStart_succ (table : ArpnatTable) (k : Nat) :
    ancacheStart table (k + 1) = (ancacheStart table k).bind ancacheNext := by
  induction table generalizing k with
  | nil => rfl
  | cons tpos rest ih =>
      cases k with
      | zero =>
          rw [ancacheStart_zero, Option.bind_some, ancacheNext_mac,
            ancacheStart_after tpos rest 0 (by omega), List.drop_zero]
      | succ num =>
          by_cases hlt : num < tpos.data.length
          · rw [ancacheStart_after tpos rest (num + 1) hlt, ancacheStart_cons, if_pos hlt,
              List.drop_eq_getElem_cons hlt, Option.bind_some, ancacheNext_data]
          · have hpast : num + 1 - tpos.data.length = num - tpos.data.length + 1 := by omega
            rw [ancacheStart_cons, ancacheStart_cons, if_neg hlt, if_neg (by omega), hpast, ih]

/-- Counting finds the line of the listing. -/
theorem ancacheStart_line (table : ArpnatTable) (k : Nat) :
    (ancacheStart table k).map Cursor.line = (listing table)[k]? := by
  induction table generalizing k with
  | nil => rfl
  | cons tpos rest ih =>
      have hlines : listing (tpos :: rest) =
          .mac tpos.mac :: (tpos.data.map .data ++ listing rest) := rfl
      cases k with
      | zero => rfl
      | succ num =>
          rw [hlines, List.getElem?_cons_succ, ancacheStart_cons]
          split
          · rename_i hlt
            rw [List.getElem?_append_left (by simpa using hlt), Option.map_some, Cursor.line,
              List.drop_eq_getElem_cons hlt, List.getElem?_map, List.getElem?_eq_getElem hlt,
              Option.map_some]
          · rename_i hge
            rw [List.getElem?_append_right (by simpa using hge), ih, List.length_map]

theorem ancache_shows (table : ArpnatTable) :
    (arpnatCacheSops table).Shows Cursor.line (listing table) where
  follows := ancacheStart_succ table
  at_start := ancacheStart_line table

/-- Counting to a line and following pointers to it come to the same place,
there is none exactly past the last line, and chunks of any sizes show the
lines of the table in order. -/
theorem listing_read (table : ArpnatTable) :
    (∀ k, ancacheStart table k = (arpnatCacheSops table).advance k (ancacheStart table 0)) ∧
      (∀ k, ancacheStart table k = none ↔ (listing table).length ≤ k) ∧
      ∀ sizes : List Nat, ((arpnatCacheSops table).readChunks 0 sizes).map Cursor.line =
        (listing table).take sizes.sum := by
  have hshows := ancache_shows table
  refine ⟨fun k => ?_, hshows.start_none_iff, fun sizes => ?_⟩
  · exact SeqOps.start_eq_advance hshows.follows k
  · rw [hshows.readChunks sizes 0, List.drop_zero]

/-- A reader who asks for enough lines gets the text of every entry, its MAC and
then its records, whatever the chunks are. -/
theorem ancacheShow_read (clock : Clock) (jiffiesToMsecs : Nat → Nat) (jiffies : Nat)
    (table : ArpnatTable) (sizes : List Nat) (hall : (listing table).length ≤ sizes.sum) :
    ((arpnatCacheSops table).readChunks 0 sizes).map
        (fun c => ancacheShow clock jiffiesToMsecs jiffies c.line) =
      table.flatMap fun tpos => (macText tpos.mac ++ "\n") ::
        tpos.data.map fun tpos2 => ancacheShow clock jiffiesToMsecs jiffies (.data tpos2) := by
  have hlines := (ancache_shows table).readChunks sizes 0
  rw [List.drop_zero, List.take_of_length_le hall] at hlines
  have hshown := congrArg (List.map (ancacheShow clock jiffiesToMsecs jiffies)) hlines
  rw [List.map_map, listing, List.map_flatMap] at hshown
  simpa [ancacheShow, Function.comp_def] using hshown

end UbntSdk.Arpnat
