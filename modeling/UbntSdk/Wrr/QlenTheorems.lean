/-
UbntSdk.Wrr.QlenTheorems — who keeps `sch->q.qlen`, and who does not.

`Balanced` says that the queue length of the qdisc is the sum of the queue
lengths of its classes. All lemmas about single operations reduce to one
fact about the table (`total_setClass`): exchanging the class of a slot
changes the sum by the difference of two queue lengths.

Enqueue, dequeue, reset, class change and destroy keep the balance.
`wrr_drop`, `wrr_graft` and `wrr_delete` take packets away and do not tell
`sch->q.qlen`. `Careful` is the condition under which they take none, and
`balanced_step_iff` says it is exact for every operation. By induction
(`balanced_run_iff`) a run is balanced in all its states iff all its steps
are careful.
-/
import UbntSdk.Wrr.Sched
import Mathlib.Data.UInt
import Mathlib.Tactic.Abel

namespace UbntSdk.Wrr

open UbntSdk.Lib

/-! ## The sum over the table -/

/-- The queue length of the class in a slot. -/
def slotQlen (cl : Option WrrClass) : UInt32 :=
  match cl with
  | none => 0
  | some cl => cl.q.qlen

/-- The sum of the queue lengths of all classes, in the type of `qlen`. -/
def total (s : Sched) : UInt32 :=
  slotQlen (s.classes 0) + slotQlen (s.classes 1) + slotQlen (s.classes 2) + slotQlen (s.classes 3)

/-- `sch->q.qlen` is the sum over the classes. -/
def Balanced (s : Sched) : Prop := s.qlen = total s

/-- Exchanging one class. -/
theorem total_setClass (s : Sched) (i : Slot) (cl : Option WrrClass) :
    total (s.setClass i cl) + slotQlen (s.classes i) = total s + slotQlen cl := by
  match i with
  | 0 | 1 | 2 | 3 =>
      simp only [total, Sched.setClass, Function.update_apply]
      simp
      abel

theorem total_setClass_same {s : Sched} {i : Slot} {cl : Option WrrClass}
    (h : slotQlen cl = slotQlen (s.classes i)) : total (s.setClass i cl) = total s := by
  have hsum := total_setClass s i cl
  rw [h] at hsum
  exact add_right_cancel hsum

/-! ## The child queue -/

theorem Child.qlen_enqueue {q q' : Child} {skb : Packet} (h : q.enqueue skb = some q') :
    q'.qlen = q.qlen + 1 := by
  unfold Child.enqueue at h
  split at h
  · cases h
    simp [Child.qlen]
  · cases h

theorem Child.qlen_dequeue {q q' : Child} {skb : Packet} (h : q.dequeue = some (skb, q')) :
    q.qlen = q'.qlen + 1 := by
  unfold Child.dequeue at h
  split at h
  · cases h
  · rename_i rest hpackets
    cases h
    simp [Child.qlen, hpackets]

/-- Dropping takes one packet, if there is one. -/
theorem Child.qlen_drop (q : Child) :
    (q.packets = [] ∧ q.drop = (0, q)) ∨
    (q.packets ≠ [] ∧ q.qlen = q.drop.2.qlen + 1) := by
  unfold Child.drop
  split
  · rename_i hlast
    exact Or.inl ⟨List.getLast?_eq_none_iff.mp hlast, rfl⟩
  · rename_i skb hlast
    have hne : q.packets ≠ [] := by
      intro hnil
      rw [hnil] at hlast
      cases hlast
    refine Or.inr ⟨hne, ?_⟩
    have hpos : 0 < q.packets.length := List.length_pos_iff.mpr hne
    have hlen : q.packets.length = q.packets.dropLast.length + 1 := by
      rw [List.length_dropLast]
      omega
    simp only [Child.qlen]
    rw [hlen]
    simp

/-! ## One operation -/

/-- The operation takes no packet out of the children behind the back of
`sch->q.qlen`: nothing to drop, a queue exchanged for one of the same
length, or a class deleted with an empty queue. -/
def Careful (s : Sched) : Op → Prop
  | .drop => ∀ i cl, s.classes i = some cl → cl.q.hasDrop = true → cl.q.packets = []
  | .graft classid new txQueueLen => ∀ i cl q, wrrFind classid s = some i →
      s.classes i = some cl → new.or (createDflt txQueueLen) = some q → q.qlen = cl.q.qlen
  | .delete classid => ∀ i cl, wrrFind classid s = some i → s.classes i = some cl →
      cl.q.qlen = 0
  | _ => True

/-- An accepted packet is counted on both sides. -/
theorem balanced_enqueue {s : Sched} (hs : Balanced s) (skb : Packet) :
    Balanced (wrrEnqueue skb s).2 := by
  unfold wrrEnqueue
  cases hc : wrrClasify skb s with
  | none => exact hs
  | some p =>
      obtain ⟨i, cl⟩ := p
      have hcl : s.classes i = some cl := by
        unfold wrrClasify at hc
        split at hc
        · cases hc
        · split at hc
          · cases hc
            assumption
          · cases hc
      cases hq : cl.q.enqueue skb with
      | none =>
          have hsame : total (s.setClass i (some { cl with stats := cl.stats.dropped })) = total s :=
            total_setClass_same (by rw [hcl]; rfl)
          simp only [hq]
          exact Eq.trans hs hsame.symm
      | some q =>
          have hsum := total_setClass s i (some { cl with q, stats := cl.stats.sent skb })
          have hlen := Child.qlen_enqueue hq
          rw [hcl] at hsum
          simp only [slotQlen, hlen] at hsum
          have hone : total s + 1
              = total (s.setClass i (some { cl with q, stats := cl.stats.sent skb })) := by
            refine add_right_cancel (b := cl.q.qlen) ?_
            rw [hsum]
            abel
          simp only [hq]
          exact (congrArg (· + 1) hs).trans hone

/-- The loop of `wrr_dequeue` only changes deficits. -/
theorem dequeueBody_next {d e : Deq} (h : dequeueBody d = .next e) :
    total e.sched = total d.sched ∧ e.sched.qlen = d.sched.qlen := by
  unfold dequeueBody at h
  split at h
  · split at h
    · cases h
      exact ⟨rfl, rfl⟩
    · rename_i cl hcl
      split at h
      · cases h
        refine ⟨total_setClass_same ?_, rfl⟩
        rw [hcl]
        rfl
      · split at h
        · cases h
          exact ⟨rfl, rfl⟩
        · cases h
  · split at h
    · cases h
    · cases h
      exact ⟨rfl, rfl⟩

/-- It ends with one packet less on both sides, or with none taken. -/
theorem dequeueBody_stop {d : Deq} {r : Option Packet × Sched} (h : dequeueBody d = .stop r)
    (hd : Balanced d.sched) : Balanced r.2 := by
  unfold dequeueBody at h
  split at h
  · split at h
    · cases h
    · rename_i cl hcl
      split at h
      · cases h
      · split at h
        · cases h
        · rename_i skb q hq
          cases h
          have hsum := total_setClass d.sched d.j
            (some { cl with q, deficit := cl.deficit - skb.len })
          have hlen := Child.qlen_dequeue hq
          show d.sched.qlen - 1 = total (d.sched.setClass d.j _)
          rw [hcl] at hsum
          simp only [slotQlen, hlen] at hsum
          rw [hd, sub_eq_iff_eq_add]
          refine add_right_cancel (b := q.qlen) ?_
          rw [← hsum]
          abel
  · split at h
    · cases h
      exact hd
    · cases h

theorem balanced_dequeue {s s' : Sched} (hs : Balanced s) {n : Nat} {r : Option Packet}
    (h : wrrDequeue n s = .done (r, s')) : Balanced s' := by
  obtain ⟨d, hd, hstop⟩ := (reaches_of_run n _).2 _ h
  have hinv : Balanced d.sched := by
    refine @Reaches.invariant _ _ _ (fun d => Balanced d.sched) _ _ hd hs fun u v _ hu huv => ?_
    obtain ⟨htotal, hqlen⟩ := dequeueBody_next huv
    rw [Balanced, htotal, hqlen]
    exact hu
  exact dequeueBody_stop hstop hinv

/-- `wrr_drop` takes `d` packets, none iff there is nothing to drop, and
leaves `qlen` alone. The slots still to visit are as they were. -/
theorem dropFrom_spec (is : List Slot) (hnodup : is.Nodup) : ∀ s : Sched,
    (dropFrom is s).2.qlen = s.qlen ∧
    ∃ d, d ≤ is.length ∧ total (dropFrom is s).2 + d.toUInt32 = total s ∧
      (d = 0 ↔ ∀ i ∈ is, ∀ cl, s.classes i = some cl → cl.q.hasDrop = true →
        cl.q.packets = []) := by
  induction is with
  | nil =>
      intro s
      exact ⟨rfl, 0, Nat.le_refl _, by simp [dropFrom], by simp⟩
  | cons i is ih =>
      obtain ⟨hi, hnodup⟩ := List.nodup_cons.mp hnodup
      intro s
      -- a slot that is passed over adds nothing
      have hskip : (∀ cl, s.classes i = some cl → cl.q.hasDrop = true → cl.q.packets = []) →
          (dropFrom is s).2.qlen = s.qlen ∧
          ∃ d, d ≤ (i :: is).length ∧ total (dropFrom is s).2 + d.toUInt32 = total s ∧
            (d = 0 ↔ ∀ j ∈ i :: is, ∀ cl, s.classes j = some cl → cl.q.hasDrop = true →
              cl.q.packets = []) := by
        intro hempty
        obtain ⟨hqlen, d, hle, hsum, hzero⟩ := ih hnodup s
        refine ⟨hqlen, d, Nat.le_succ_of_le hle, hsum, hzero.trans ⟨fun h j hj => ?_, fun h j hj => ?_⟩⟩
        · rcases List.mem_cons.mp hj with rfl | hj
          · exact hempty
          · exact h j hj
        · exact h j (List.mem_cons_of_mem _ hj)
      rw [dropFrom]
      cases hcl : s.classes i with
      | none => exact hskip (by simp [hcl])
      | some cl =>
          by_cases hdrop : cl.q.hasDrop = true
          · rcases cl.q.qlen_drop with ⟨hnil, hq⟩ | ⟨hne, hlen⟩
            · have hself : s.setClass i (some cl) = s := by
                rw [Sched.setClass, ← hcl, Function.update_eq_self]
              simp only [hdrop, if_true, hq, hself]
              exact hskip (by simp [hcl, hnil])
            · have hsum := total_setClass s i (some { cl with q := cl.q.drop.2 })
              rw [hcl] at hsum
              simp only [slotQlen, hlen] at hsum
              have hone : total (s.setClass i (some { cl with q := cl.q.drop.2 })) + 1 = total s :=
                add_right_cancel (b := cl.q.drop.2.qlen) (by rw [← hsum]; abel)
              have hnot : ¬ ∀ j ∈ i :: is, ∀ cl, s.classes j = some cl → cl.q.hasDrop = true →
                  cl.q.packets = [] := fun h => hne (h i List.mem_cons_self cl hcl hdrop)
              simp only [hdrop, if_true]
              by_cases hlen0 : cl.q.drop.1 = 0
              · -- a packet of length 0 was dropped: the loop goes on
                obtain ⟨hqlen, d, hle, hrest, _⟩ :=
                  ih hnodup (s.setClass i (some { cl with q := cl.q.drop.2 }))
                simp only [hlen0, ne_eq, not_true_eq_false, if_false]
                refine ⟨hqlen, d + 1, Nat.succ_le_succ hle, ?_, iff_of_false (Nat.succ_ne_zero d) hnot⟩
                rw [← hone, ← hrest]
                simp [add_assoc]
              · simp only [hlen0, ne_eq, not_false_eq_true, if_true]
                exact ⟨rfl, 1, by simp, by simpa using hone, iff_of_false Nat.one_ne_zero hnot⟩
          · simp only [hdrop]
            exact hskip (by simp [hcl, hdrop])

theorem balanced_drop_iff {s : Sched} (hs : Balanced s) :
    Balanced (wrrDrop s).2 ↔ Careful s .drop := by
  obtain ⟨hqlen, d, hle, hsum, hzero⟩ :=
    dropFrom_spec (List.finRange TOTALQUEUES) (List.nodup_finRange _) s
  have hd : Balanced (wrrDrop s).2 ↔ d = 0 := by
    rw [Balanced, wrrDrop, hqlen, hs, ← hsum]
    constructor
    · intro h
      have hzero32 : d.toUInt32 = 0 := by simpa using h
      have hle4 : d ≤ 4 := by simpa using hle
      have htoNat := congrArg UInt32.toNat hzero32
      simp at htoNat
      omega
    · rintro rfl
      simp
  rw [hd, hzero]
  exact ⟨fun h i => h i (List.mem_finRange i), fun h i _ => h i⟩

theorem balanced_reset (s : Sched) : Balanced (wrrReset s) := by
  have hslot : ∀ i, slotQlen ((wrrReset s).classes i) = 0 := by
    intro i
    cases hcl : s.classes i with
    | none => simp [wrrReset, hcl, slotQlen]
    | some cl => simp [wrrReset, hcl, slotQlen, Child.reset, Child.qlen]
  rw [Balanced, total, hslot, hslot, hslot, hslot]
  rfl

theorem balanced_graft_iff {s : Sched} (hs : Balanced s) (classid : UInt32) (new : Option Child)
    (txQueueLen : Option Nat) :
    Balanced (wrrGraft classid new txQueueLen s).2 ↔
      Careful s (.graft classid new txQueueLen) := by
  unfold wrrGraft
  simp only [Careful]
  cases hf : wrrFind classid s with
  | none => exact iff_of_true hs fun i cl q hi => (by cases hi)
  | some i =>
      cases hcl : s.classes i with
      | none =>
          simp only [hcl]
          refine iff_of_true hs fun i' cl' q' hi hcl' => ?_
          cases hi
          rw [hcl] at hcl'
          cases hcl'
      | some cl =>
          cases hq : new.or (createDflt txQueueLen) with
          | none =>
              simp only [hcl]
              exact iff_of_true hs fun i' cl' q' _ _ hq' => (by cases hq')
          | some q =>
              have hsum := total_setClass s i (some { cl with q })
              rw [hcl] at hsum
              simp only [slotQlen] at hsum
              simp only [hcl]
              show s.qlen = total (s.setClass i (some { cl with q })) ↔ _
              rw [hs]
              constructor
              · intro h i' cl' q' hi hcl' hq'
                cases hi
                rw [hcl] at hcl'
                cases hcl'
                cases hq'
                rw [← h] at hsum
                exact (add_left_cancel hsum).symm
              · intro h
                rw [h i cl q rfl hcl rfl] at hsum
                exact (add_right_cancel hsum).symm

theorem balanced_delete_iff {s : Sched} (hs : Balanced s) (classid : UInt32) :
    Balanced (wrrDelete classid s).2 ↔ Careful s (.delete classid) := by
  unfold wrrDelete
  simp only [Careful]
  cases hf : wrrFind classid s with
  | none => exact iff_of_true hs fun i cl hi => (by cases hi)
  | some i =>
      have hsum := total_setClass s i none
      show s.qlen = total (s.setClass i none) ↔ _
      rw [hs]
      cases hcl : s.classes i with
      | none =>
          rw [hcl] at hsum
          refine iff_of_true (add_right_cancel hsum).symm fun i' cl' hi hcl' => ?_
          cases hi
          rw [hcl] at hcl'
          cases hcl'
      | some cl =>
          rw [hcl] at hsum
          simp only [slotQlen, add_zero] at hsum
          constructor
          · intro h i' cl' hi hcl'
            cases hi
            rw [hcl] at hcl'
            cases hcl'
            rw [← h] at hsum
            simpa using hsum
          · intro h
            rw [h i cl rfl hcl, add_zero] at hsum
            exact hsum.symm

/-! ## Class changes -/

/-- The parameters with which a change request gets past its checks and
its allocation. -/
def changes : Op → Option (UInt32 × ClassOpt × Option Nat)
  | .change classid (some (.ok (some copt))) false txQueueLen =>
      if copt.handle > 0x10000 ∨ copt.handle < 0 then none else some (classid, copt, txQueueLen)
  | _ => none

/-- The class that such a request makes. -/
def newClass (classid : UInt32) (copt : ClassOpt) (txQueueLen : Option Nat) : WrrClass :=
  let quantum := if copt.quantum < 0 then 1500 else copt.quantum
  { classid, quantum, nfmark := copt.handle.toNat.toUInt32, stats := Stats.zero,
    deficit := quantum, q := (createDflt txQueueLen).getD noopQdisc }

/-- The slot of a new class. -/
def slotFor (copt : ClassOpt) : Slot := slotOf copt.handle.toNat.toUInt32

/-- The state in which `wrr_change_class` looks at the slot. -/
def counting (s : Sched) : Sched := { s with key := 0, totalClasses := s.totalClasses + 1 }

/-- What `wrr_change_class` can do. -/
theorem wrrChangeClass_cases (classid : UInt32) (opt : Option (Except Int (Option ClassOpt)))
    (kmallocFails : Bool) (txQueueLen : Option Nat) (s : Sched) :
    (changes (.change classid opt kmallocFails txQueueLen) = none ∧
      (wrrChangeClass classid opt kmallocFails txQueueLen s).2 = s) ∨
    ∃ copt, changes (.change classid opt kmallocFails txQueueLen)
        = some (classid, copt, txQueueLen) ∧
      ((∃ cl, s.classes (slotFor copt) = some cl ∧
        wrrChangeClass classid opt kmallocFails txQueueLen s = (-ENOBUFS, counting s)) ∨
       (s.classes (slotFor copt) = none ∧
        wrrChangeClass classid opt kmallocFails txQueueLen s
          = (0, (counting s).setClass (slotFor copt) (some (newClass classid copt txQueueLen))))) := by
  match opt, kmallocFails with
  | none, _ => exact Or.inl ⟨rfl, rfl⟩
  | some (.error err), _ => exact Or.inl ⟨rfl, rfl⟩
  | some (.ok none), _ => exact Or.inl ⟨rfl, rfl⟩
  | some (.ok (some copt)), true =>
      refine Or.inl ⟨rfl, ?_⟩
      rw [wrrChangeClass]
      split <;> rfl
  | some (.ok (some copt)), false =>
      by_cases hhandle : copt.handle > 0x10000 ∨ copt.handle < 0
      · exact Or.inl ⟨if_pos hhandle, by rw [wrrChangeClass, if_pos hhandle]⟩
      · refine Or.inr ⟨copt, if_neg hhandle, ?_⟩
        rw [wrrChangeClass, if_neg hhandle]
        cases hslot : s.classes (slotFor copt) with
        | some cl =>
            refine Or.inl ⟨cl, rfl, ?_⟩
            have hslot' : s.classes (slotOf copt.handle.toNat.toUInt32) = some cl := hslot
            simp only [hslot']
            rfl
        | none =>
            refine Or.inr ⟨rfl, ?_⟩
            have hslot' : s.classes (slotOf copt.handle.toNat.toUInt32) = none := hslot
            simp only [hslot']
            rfl

/-- What holds of the state with the key and the count changed, and with the
new class in a free slot, holds behind `wrr_change_class`. -/
theorem wrrChangeClass_keeps {P : Sched → Prop} {s : Sched} (classid : UInt32)
    (opt : Option (Except Int (Option ClassOpt))) (kmallocFails : Bool) (txQueueLen : Option Nat)
    (hs : P s) (hcount : P (counting s))
    (hnew : ∀ copt, opt = some (.ok (some copt)) → s.classes (slotFor copt) = none →
      P ((counting s).setClass (slotFor copt) (some (newClass classid copt txQueueLen)))) :
    P (wrrChangeClass classid opt kmallocFails txQueueLen s).2 := by
  rcases wrrChangeClass_cases classid opt kmallocFails txQueueLen s with
    ⟨-, hsame⟩ | ⟨copt, hchanges, ⟨cl, -, hret⟩ | ⟨hfree, hret⟩⟩
  · rwa [hsame]
  · rwa [hret]
  · rw [hret]
    refine hnew copt ?_ hfree
    unfold changes at hchanges
    split at hchanges
    · split at hchanges
      · cases hchanges
      · rename_i heq _
        cases heq
        cases hchanges
        rfl
    · cases hchanges

theorem balanced_change {s : Sched} (hs : Balanced s) (classid : UInt32)
    (opt : Option (Except Int (Option ClassOpt))) (kmallocFails : Bool)
    (txQueueLen : Option Nat) :
    Balanced (wrrChangeClass classid opt kmallocFails txQueueLen s).2 := by
  have hnew : ((createDflt txQueueLen).getD noopQdisc).qlen = 0 := by
    cases txQueueLen <;> rfl
  refine wrrChangeClass_keeps classid opt kmallocFails txQueueLen hs hs fun copt _ hfree => ?_
  rw [Balanced]
  show s.qlen = _
  rw [total_setClass_same, hs]
  · rfl
  · rw [show (counting s).classes (slotFor copt) = none from hfree]
    exact hnew

theorem balanced_destroy (s : Sched) : Balanced (wrrDestroy s) := by
  simp [Balanced, total, wrrDestroy, slotQlen]

/-- One operation keeps the balance iff it is careful. -/
theorem balanced_step_iff {s s' : Sched} {op : Op} (hs : Balanced s) (h : Returns s op s') :
    Balanced s' ↔ Careful s op := by
  cases op with
  | enqueue skb =>
      rw [show s' = (wrrEnqueue skb s).2 from h]
      exact iff_of_true (balanced_enqueue hs skb) trivial
  | dequeue =>
      obtain ⟨n, r, hn⟩ := h
      exact iff_of_true (balanced_dequeue hs hn) trivial
  | drop =>
      rw [show s' = (wrrDrop s).2 from h]
      exact balanced_drop_iff hs
  | reset =>
      rw [show s' = wrrReset s from h]
      exact iff_of_true (balanced_reset s) trivial
  | graft classid new txQueueLen =>
      rw [show s' = (wrrGraft classid new txQueueLen s).2 from h]
      exact balanced_graft_iff hs classid new txQueueLen
  | change classid opt kmallocFails txQueueLen =>
      rw [show s' = (wrrChangeClass classid opt kmallocFails txQueueLen s).2 from h]
      exact iff_of_true (balanced_change hs classid opt kmallocFails txQueueLen) trivial
  | delete classid =>
      rw [show s' = (wrrDelete classid s).2 from h]
      exact balanced_delete_iff hs classid
  | destroy =>
      rw [show s' = wrrDestroy s from h]
      exact iff_of_true (balanced_destroy s) trivial

/-! ## Runs -/

/-- A fresh qdisc has no class and no packet. -/
theorem wrrInit_ok {opt : Option (Except Int (Option Int))} {s : Sched}
    (h : wrrInit opt = .ok s) :
    ∃ totalQueues, s = {
      key := 0, totalClasses := 0, totalQueues, classes := fun _ => none, qlen := 0,
      stats := Stats.zero } := by
  have hstart : ∀ t : Int, (if t < 0 ∨ t > 8 then (.error (-1) : Except Int Sched)
      else .ok { key := 0, totalClasses := 0, totalQueues := t, classes := fun _ => none,
                 qlen := 0, stats := Stats.zero }) = .ok s →
      ∃ totalQueues, s = {
        key := 0, totalClasses := 0, totalQueues, classes := fun _ => none, qlen := 0,
        stats := Stats.zero } := by
    intro t ht
    split at ht
    · cases ht
    · cases ht
      exact ⟨t, rfl⟩
  unfold wrrInit at h
  dsimp only at h
  split at h
  · exact hstart _ h
  · cases h
  · exact hstart _ h
  · exact hstart _ h

theorem balanced_init {opt : Option (Except Int (Option Int))} {s : Sched}
    (h : wrrInit opt = .ok s) : Balanced s := by
  obtain ⟨_, rfl⟩ := wrrInit_ok h
  simp [Balanced, total, slotQlen]

/-- Every operation of the run is careful in the state it is called in. -/
def AllCareful : Sched → List (Op × Sched) → Prop
  | _, [] => True
  | s, (op, s') :: rest => Careful s op ∧ AllCareful s' rest

theorem balanced_trace_iff {s : Sched} (hs : Balanced s) {run : List (Op × Sched)}
    (h : Trace s run) : (∀ p ∈ run, Balanced p.2) ↔ AllCareful s run := by
  induction run generalizing s with
  | nil => simp [AllCareful]
  | cons p rest ih =>
      obtain ⟨op, s'⟩ := p
      obtain ⟨hret, htrace⟩ := h
      have hstep := balanced_step_iff hs hret
      rw [List.forall_mem_cons, AllCareful]
      constructor
      · rintro ⟨hs', hrest⟩
        exact ⟨hstep.mp hs', (ih hs' htrace).mp hrest⟩
      · rintro ⟨hcare, hrest⟩
        have hs' := hstep.mpr hcare
        exact ⟨hs', (ih hs' htrace).mpr hrest⟩

/-- In a run from a fresh qdisc, `sch->q.qlen` is the sum of the queue
lengths of the classes in every state reached iff every operation is
careful. -/
theorem balanced_run_iff (opt : Option (Except Int (Option Int))) (s : Sched)
    (hinit : wrrInit opt = .ok s) (run : List (Op × Sched)) (hrun : Trace s run) :
    (∀ p ∈ run, Balanced p.2) ↔ AllCareful s run :=
  balanced_trace_iff (balanced_init hinit) hrun

/-! ## A run that loses count -/

instance (s : Sched) : Decidable (Balanced s) := inferInstanceAs (Decidable (_ = _))

/-- The qdisc that `wrr_init` makes without options. -/
def freshSched : Sched where
  key := 0
  totalClasses := 0
  totalQueues := TOTALQUEUES
  classes := fun _ => none
  qlen := 0
  stats := Stats.zero

/-- A request for a class with mark 0 and quantum 1500, on a device with a
queue of 10 packets. -/
def addClass : Op := .change 0x20011 (some (.ok (some ⟨1500, 0⟩))) false (some 10)

def withClass : Sched :=
  (wrrChangeClass 0x20011 (some (.ok (some ⟨1500, 0⟩))) false (some 10) freshSched).2

def withPacket : Sched := (wrrEnqueue ⟨100, 0⟩ withClass).2

def afterDrop : Sched := (wrrDrop withPacket).2

/-- Adding a class and a packet is counted. -/
theorem balanced_run_withPacket :
    wrrInit none = .ok freshSched ∧
    Trace freshSched [(addClass, withClass), (.enqueue ⟨100, 0⟩, withPacket)] ∧
    ∀ p ∈ [(addClass, withClass), (.enqueue ⟨100, 0⟩, withPacket)], Balanced p.2 :=
  have hrun : Trace freshSched [(addClass, withClass), (.enqueue ⟨100, 0⟩, withPacket)] :=
    ⟨rfl, rfl, trivial⟩
  ⟨rfl, hrun, (balanced_run_iff none freshSched rfl _ hrun).mpr ⟨trivial, trivial, trivial⟩⟩

/-- `wrr_drop` takes the packet and `sch->q.qlen` stays 1. -/
theorem unbalanced_afterDrop :
    wrrInit none = .ok freshSched ∧
    Trace freshSched
      [(addClass, withClass), (.enqueue ⟨100, 0⟩, withPacket), (.drop, afterDrop)] ∧
    ¬ Balanced afterDrop :=
  ⟨rfl, ⟨rfl, rfl, rfl, trivial⟩, by decide⟩

end UbntSdk.Wrr
