/-
UbntSdk.Arpnat.Traffic — frames through both hooks, and who may be said to
have an address.

An `Event` is a frame that comes in or leaves, with the surroundings it
finds. `State.step` runs the hook on the table and notes, beside the table,
from which MAC an address was learned last and when that record expires.
This note is the specification: the table is to answer as it says.

`Sane` is what holds of every table that traffic makes: the invariant of
`UbntSdk.Arpnat.TableTheorems`, and no record with both an address and a
session id, so that sessions never touch the record of an address. It is proved
by induction on the changes that a frame makes (`Unmixed.change`), which are
those of one call of `update_nat` if the frame teaches an address and quiet ones
otherwise (`Event.run_table`).
-/
import UbntSdk.Arpnat.FrameTheorems
import Mathlib.Logic.Function.Basic

namespace UbntSdk.Arpnat

open UbntSdk.Lib

/-! ## Runs -/

/-- A frame, the hook it passes, and the surroundings. -/
structure Event where
  inbound : Bool
  env : Env
  jiffies : Nat
  skb : Skb
  target : Int

/-- What the hook starts from. -/
def Event.hook (ev : Event) (table : ArpnatTable) : Hook := ⟨ev.skb, table, ev.target, []⟩

/-- The hook of the direction the frame goes. -/
def Event.run (ev : Event) (table : ArpnatTable) : Option Hook :=
  if ev.inbound then doIn ev.env ev.jiffies (ev.hook table)
  else doOut ev.env ev.jiffies (ev.hook table)

/-- The MAC and the address (not 0) that the frame teaches. -/
def Event.learns (ev : Event) : Option (Mac × UInt32) :=
  if ev.inbound then none else (learned ev.skb).filter fun p => p.2 ≠ 0

/-- When a record that the frame teaches expires. -/
def Event.expires (ev : Event) : Nat := ev.jiffies + ev.env.clock.lifetime

/-- The table, the time of the last frame, and for each address the MAC it
was learned from last with the expiry of that record. -/
structure State where
  table : ArpnatTable
  time : Nat
  latest : UInt32 → Option (Mac × Nat)

/-- Nothing has been seen. -/
def State.start : State := ⟨[], 0, fun _ => none⟩

/-- The next frame. A hook that follows a `NULL` pointer ends the run. -/
def State.step (s : State) (ev : Event) : Option State :=
  (ev.run s.table).map fun h => {
    table := h.table
    time := ev.jiffies
    latest :=
      match ev.learns with
      | some (m, ip) => Function.update s.latest ip (some (m, ev.expires))
      | none => s.latest }

/-- The frames come in the order of their times. -/
def InOrder : Nat → List Event → Prop
  | _, [] => True
  | time, ev :: rest => time ≤ ev.jiffies ∧ InOrder ev.jiffies rest

/-! ## What a step does to the table -/

/-- The address 0 is not learned. -/
theorem updateArpNat_zero (clock : Clock) (jiffies : Nat) (mac : Mac) (t : ArpnatTable) :
    (updateArpNat clock jiffies mac 0 t).toList = t := by
  simp [updateArpNat, updateNat, Walk.toList]

/-- A frame that teaches an address does to the table what `update_arp_nat` does; any other
leaves the addresses alone. -/
theorem Event.run_table {ev : Event} {t : ArpnatTable} {h : Hook} (hrun : ev.run t = some h) :
    match ev.learns with
    | some (m, ip) => h.table = (updateArpNat ev.env.clock ev.jiffies m ip t).toList
    | none => Quiet ev.jiffies t h.table := by
  unfold Event.run at hrun
  unfold Event.learns
  split at hrun
  · rename_i hin
    simp only [hin, if_true]
    exact doIn_quiet hrun
  · rename_i hout
    have htable := doOut_table hrun
    simp only [hout]
    cases hl : learned ev.skb with
    | none =>
        rw [show (ev.hook t).skb = ev.skb from rfl, hl] at htable
        exact htable
    | some p =>
        obtain ⟨m, ip⟩ := p
        rw [show (ev.hook t).skb = ev.skb from rfl, hl] at htable
        dsimp only at htable
        by_cases h0 : ip = 0
        · subst h0
          rw [updateArpNat_zero] at htable
          simp only [Option.filter, ne_eq, not_true_eq_false, decide_false]
          rw [htable]
          exact Quiet.refl _ _
        · simp only [Option.filter, ne_eq, h0, not_false_eq_true, decide_true, if_true]
          exact htable

/-- The address that is taught is not 0. -/
theorem Event.learns_ne_zero {ev : Event} {m : Mac} {ip : UInt32}
    (h : ev.learns = some (m, ip)) : ip ≠ 0 := by
  unfold Event.learns at h
  split at h
  · cases h
  · have hp := (Option.filter_eq_some_iff.mp h).2
    simpa using hp

/-- An address and a session are never in one record. -/
def Unmixed (t : ArpnatTable) : Prop := ∀ e ∈ t, ∀ r ∈ e.data, r.ip = 0 ∨ r.pppoeId = 0

/-- One case for each change: only a new record could mix, and it has an address or a
session. -/
theorem Unmixed.change {jiffies : Nat} {mac : Mac} {ip : UInt32} {id : UInt16} {t t' : ArpnatTable}
    (hone : ip = 0 ∨ id = 0) (h : Unmixed t) (hchange : Change jiffies mac ip id t t') : Unmixed t' := by
  cases hchange with
  | prune hpruned =>
      intro e' he' r hr
      obtain ⟨e, he, hee⟩ := hpruned.mem_after he'
      obtain ⟨r', hr', rfl⟩ := hee.2.mem_after hr
      exact h e he r' hr'
  | @refresh before after older newer r expires hr hexpires =>
      have hplace := h ⟨mac, older ++ r :: newer⟩ (by simp)
      intro e he x hx
      simp only [List.mem_append, List.mem_cons] at he
      rcases he with he | rfl | he
      · exact h e (by simp [he]) x hx
      · simp only [List.mem_append, List.mem_cons] at hx
        rcases hx with hx | rfl | hx
        · exact hplace x (by simp [hx])
        · exact hplace r (by simp)
        · exact hplace x (by simp [hx])
      · exact h e (by simp [he]) x hx
  | @record before after data expires hnew hexpires =>
      have hplace := h ⟨mac, data⟩ (by simp)
      intro e he x hx
      simp only [List.mem_append, List.mem_cons] at he
      rcases he with he | rfl | he
      · exact h e (by simp [he]) x hx
      · rcases List.mem_cons.mp hx with rfl | hx
        · exact hone
        · exact hplace x hx
      · exact h e (by simp [he]) x hx
  | entry hnew =>
      intro e he x hx
      rcases List.mem_cons.mp he with rfl | he
      · cases hx
      · exact h e he x hx

/-- What holds of every table. -/
structure Sane (t : ArpnatTable) : Prop where
  ok : TableOk t
  unmixed : Unmixed t

/-- A call that records an address or a session, but not both. -/
theorem Sane.changes {jiffies : Nat} {mac : Mac} {ip : UInt32} {id : UInt16} {t t' : ArpnatTable}
    (hone : ip = 0 ∨ id = 0) (h : Sane t) (hchanges : Changes jiffies mac ip id t t') : Sane t' := by
  induction hchanges with
  | refl => exact h
  | tail _ hchange ih => exact ⟨ih.ok.change hone hchange, ih.unmixed.change hone hchange⟩

/-- Frames that teach no address. -/
theorem Sane.quiet {jiffies : Nat} {t t' : ArpnatTable} (h : Sane t) (hquiet : Quiet jiffies t t') :
    Sane t' := by
  induction hquiet with
  | refl => exact h
  | tail _ hstep ih =>
      obtain ⟨mac, id, hchanges⟩ := hstep
      exact ih.changes (Or.inl rfl) hchanges

/-- Any frame, in either direction. -/
theorem Sane.run {ev : Event} {t : ArpnatTable} {h : Hook} (hs : Sane t)
    (hrun : ev.run t = some h) : Sane h.table := by
  have htable := Event.run_table hrun
  cases hl : ev.learns with
  | none =>
      rw [hl] at htable
      exact hs.quiet htable
  | some p =>
      rw [hl] at htable
      dsimp only at htable
      rw [htable]
      exact hs.changes (Or.inr rfl) (updateNat_changes ev.env.clock p.1 p.2 0 t)

/-- The empty table. -/
theorem sane_start : Sane State.start.table :=
  ⟨tableOk_nil, fun e he => (by cases he)⟩

end UbntSdk.Arpnat
