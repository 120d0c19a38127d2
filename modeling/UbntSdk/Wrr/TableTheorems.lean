/-
UbntSdk.Wrr.TableTheorems — the class table of a WRR qdisc.

`Tidy` says what the table should be: each class is in the slot of its
mark, no two classes have one classid, and `total_classes` counts the
slots in use. A class change that fails should leave the scheduler alone
(`KeptOnError`).

The slot is always the slot of the mark. The rest depends on the requests.
`wrr_change_class` never looks for a class with the classid it is given,
and counts a class before it finds the slot taken. `wrr_delete` does not
count at all. `Safe` names the requests that do not run into this;
`tidy_step_iff` says that it is exact for every operation, and by
induction so it is for a run (`tidy_run_iff`).
-/
import UbntSdk.Wrr.DequeueTheorems

namespace UbntSdk.Wrr

open UbntSdk.Lib

/-! ## What the table holds -/

/-- The number of slots in use. -/
def occupied (s : Sched) : Nat :=
  ((List.finRange TOTALQUEUES).filter fun i => (s.classes i).isSome).length

/-- The table as it should be. -/
structure Tidy (s : Sched) : Prop where
  slot : ∀ i cl, s.classes i = some cl → slotOf cl.nfmark = i
  distinct : ∀ i k cl cl', s.classes i = some cl → s.classes k = some cl' →
    cl.classid = cl'.classid → i = k
  counted : s.totalClasses = occupied s

/-- What a slot says about the table: the classid and the mark. -/
def label (s : Sched) (i : Slot) : Option (UInt32 × UInt32) :=
  (s.classes i).map fun cl => (cl.classid, cl.nfmark)

/-- The two tables have the same labels and the same count. -/
structure SameTable (s s' : Sched) : Prop where
  label : ∀ i, label s' i = label s i
  totalClasses : s'.totalClasses = s.totalClasses

theorem SameTable.refl (s : Sched) : SameTable s s := ⟨fun _ => rfl, rfl⟩

theorem SameTable.trans {s s' s'' : Sched} (h : SameTable s s') (h' : SameTable s' s'') :
    SameTable s s'' :=
  ⟨fun i => (h'.label i).trans (h.label i), h'.totalClasses.trans h.totalClasses⟩

theorem label_some {s : Sched} {i : Slot} {cl : WrrClass} (h : s.classes i = some cl) :
    label s i = some (cl.classid, cl.nfmark) := by
  rw [label, h]
  rfl

/-- A slot with a label has a class. -/
theorem class_of_label {s : Sched} {i : Slot} {classid nfmark : UInt32}
    (h : label s i = some (classid, nfmark)) :
    ∃ cl, s.classes i = some cl ∧ cl.classid = classid ∧ cl.nfmark = nfmark := by
  cases hcl : s.classes i with
  | none =>
      rw [label, hcl] at h
      cases h
  | some cl =>
      rw [label_some hcl] at h
      cases h
      exact ⟨cl, rfl, rfl, rfl⟩

/-- The slots in use are the slots with a label. -/
theorem occupied_eq (s : Sched) :
    occupied s = ((List.finRange TOTALQUEUES).filter fun i => (label s i).isSome).length := by
  simp [occupied, label]

/-- Being tidy is a matter of the labels and the count. -/
theorem tidy_of_sameTable {s s' : Sched} (hs : Tidy s) (h : SameTable s s') : Tidy s' where
  slot := by
    intro i cl hcl
    have hlabel := (h.label i).symm.trans (label_some hcl)
    obtain ⟨cl₀, hcl₀, _, hmark⟩ := class_of_label hlabel
    rw [← hmark]
    exact hs.slot i cl₀ hcl₀
  distinct := by
    intro i k cl cl' hcl hcl' hid
    obtain ⟨cl₀, hcl₀, hid₀, _⟩ := class_of_label ((h.label i).symm.trans (label_some hcl))
    obtain ⟨cl₁, hcl₁, hid₁, _⟩ := class_of_label ((h.label k).symm.trans (label_some hcl'))
    exact hs.distinct i k cl₀ cl₁ hcl₀ hcl₁ (by rw [hid₀, hid₁, hid])
  counted := by
    rw [h.totalClasses, hs.counted, occupied_eq, occupied_eq]
    simp only [h.label]

/-! ## Traffic leaves the table alone -/

/-- A class is exchanged for one with the same label. -/
theorem sameTable_setClass {s : Sched} {i : Slot} {cl cl' : WrrClass} (hcl : s.classes i = some cl)
    (hid : cl'.classid = cl.classid) (hmark : cl'.nfmark = cl.nfmark) :
    SameTable s (s.setClass i (some cl')) := by
  refine ⟨fun k => ?_, rfl⟩
  by_cases hk : k = i
  · subst hk
    rw [label_some hcl, label_some (Sched.setClass_same s k (some cl')), hid, hmark]
  · rw [label, label, Sched.setClass_ne _ _ hk]

theorem sameTable_enqueue (skb : Packet) (s : Sched) : SameTable s (wrrEnqueue skb s).2 := by
  unfold wrrEnqueue
  cases hc : wrrClasify skb s with
  | none => exact ⟨fun _ => rfl, rfl⟩
  | some p =>
      obtain ⟨i, cl⟩ := p
      have hcl := wrrClasify_some hc
      cases hq : cl.q.enqueue skb with
      | none =>
          have h : SameTable s (s.setClass i (some { cl with stats := cl.stats.dropped })) :=
            sameTable_setClass hcl rfl rfl
          simp only [hq]
          exact ⟨h.label, h.totalClasses⟩
      | some q =>
          have h : SameTable s (s.setClass i (some { cl with q, stats := cl.stats.sent skb })) :=
            sameTable_setClass hcl rfl rfl
          simp only [hq]
          exact ⟨h.label, h.totalClasses⟩

/-- The loop of `wrr_dequeue` changes deficits and queues only. -/
theorem sameTable_dequeueBody {d : Deq} :
    (∀ e, dequeueBody d = .next e → SameTable d.sched e.sched) ∧
    (∀ r, dequeueBody d = .stop r → SameTable d.sched r.2) := by
  by_cases hi : d.i < TOTALQUEUES
  · cases hcl : d.sched.classes d.j with
    | none =>
        rw [dequeueBody_vacant hi hcl]
        refine ⟨fun e he => ?_, fun r hr => (by cases hr)⟩
        cases he
        exact SameTable.refl _
    | some cl =>
        by_cases hdef : cl.deficit ≤ 0
        · rw [dequeueBody_refill hi hcl hdef]
          refine ⟨fun e he => ?_, fun r hr => (by cases hr)⟩
          cases he
          exact sameTable_setClass hcl rfl rfl
        · cases hq : cl.q.dequeue with
          | none =>
              rw [dequeueBody_idle hi hcl hdef (cl.q.dequeue_eq_none_iff.mp hq)]
              refine ⟨fun e he => ?_, fun r hr => (by cases hr)⟩
              cases he
              exact SameTable.refl _
          | some p =>
              simp only [dequeueBody, hi, hcl, hdef, hq, if_true, if_false]
              refine ⟨fun e he => (by cases he), fun r hr => ?_⟩
              cases hr
              have h : SameTable d.sched
                  (d.sched.setClass d.j
                    (some { cl with q := p.2, deficit := cl.deficit - p.1.len })) :=
                sameTable_setClass hcl rfl rfl
              exact ⟨h.label, h.totalClasses⟩
  · rw [dequeueBody_test hi]
    split
    · refine ⟨fun e he => (by cases he), fun r hr => ?_⟩
      cases hr
      exact ⟨fun _ => rfl, rfl⟩
    · refine ⟨fun e he => ?_, fun r hr => (by cases hr)⟩
      cases he
      exact SameTable.refl _

theorem sameTable_dequeue {s s' : Sched} {n : Nat} {r : Option Packet}
    (h : wrrDequeue n s = .done (r, s')) : SameTable s s' := by
  obtain ⟨d, hd, hstop⟩ := (reaches_of_run n _).2 _ h
  have hinv : SameTable s d.sched :=
    @Reaches.invariant _ _ _ (fun d => SameTable s d.sched) _ _ hd (.refl s)
      fun u v _ hu huv => hu.trans (sameTable_dequeueBody.1 v huv)
  exact hinv.trans (sameTable_dequeueBody.2 _ hstop)

theorem sameTable_dropFrom (is : List Slot) : ∀ s, SameTable s (dropFrom is s).2 := by
  induction is with
  | nil => exact fun s => .refl s
  | cons i is ih =>
      intro s
      rw [dropFrom]
      cases hcl : s.classes i with
      | none => exact ih s
      | some cl =>
          by_cases hdrop : cl.q.hasDrop = true
          · have hset : SameTable s (s.setClass i (some { cl with q := cl.q.drop.2 })) :=
              sameTable_setClass hcl rfl rfl
            simp only [hdrop, if_true]
            split
            · exact hset
            · exact hset.trans (ih _)
          · simp only [hdrop]
            exact ih s

theorem sameTable_reset (s : Sched) : SameTable s (wrrReset s) := by
  refine ⟨fun i => ?_, rfl⟩
  simp only [label, wrrReset, Option.map_map]
  rfl

theorem sameTable_graft (classid : UInt32) (new : Option Child) (txQueueLen : Option Nat)
    (s : Sched) : SameTable s (wrrGraft classid new txQueueLen s).2 := by
  unfold wrrGraft
  split
  · exact .refl s
  · split
    · exact .refl s
    · rename_i cl hcl
      split
      · exact .refl s
      · exact sameTable_setClass hcl rfl rfl

/-! ## Requests -/

/-- A class change that returns an error leaves the slots, the count and
the rotation key as they were. -/
def KeptOnError (s : Sched) : Op → Prop
  | .change classid opt kmallocFails txQueueLen =>
      (wrrChangeClass classid opt kmallocFails txQueueLen s).1 ≠ 0 →
        (wrrChangeClass classid opt kmallocFails txQueueLen s).2.classes = s.classes ∧
        (wrrChangeClass classid opt kmallocFails txQueueLen s).2.totalClasses = s.totalClasses ∧
        (wrrChangeClass classid opt kmallocFails txQueueLen s).2.key = s.key
  | _ => True

/-- The request does not run into the table: a class that is made finds
its slot free and its classid unused, and no class is deleted. -/
def Safe (s : Sched) (op : Op) : Prop :=
  (∀ classid copt txQueueLen, changes op = some (classid, copt, txQueueLen) →
    s.classes (slotFor copt) = none ∧ wrrFind classid s = none) ∧
  ∀ classid, op = .delete classid → wrrFind classid s = none

/-- `wrr_find` finds nothing iff no class has the classid. -/
theorem wrrFind_eq_none_iff {classid : UInt32} {s : Sched} :
    wrrFind classid s = none ↔ ∀ i cl, s.classes i = some cl → cl.classid ≠ classid := by
  rw [wrrFind, List.find?_eq_none]
  constructor
  · intro h i cl hcl hid
    have hi := h i (List.mem_finRange i)
    rw [hcl] at hi
    exact hi (decide_eq_true hid)
  · intro h i _
    cases hcl : s.classes i with
    | none => simp
    | some cl => simpa using h i cl hcl

/-- What `wrr_find` finds is a class. -/
theorem class_of_wrrFind {classid : UInt32} {s : Sched} {i : Slot}
    (h : wrrFind classid s = some i) : ∃ cl, s.classes i = some cl := by
  have hi := List.find?_some h
  cases hcl : s.classes i with
  | none =>
      rw [hcl] at hi
      cases hi
  | some cl => exact ⟨cl, rfl⟩

/-- Exchanging the pointer in a slot. -/
theorem occupied_setClass (s : Sched) (i : Slot) (cl : Option WrrClass) :
    occupied (s.setClass i cl) + (if (s.classes i).isSome then 1 else 0)
      = occupied s + (if cl.isSome then 1 else 0) := by
  have hsum : ∀ s : Sched, occupied s
      = (if (s.classes 0).isSome then 1 else 0) + (if (s.classes 1).isSome then 1 else 0)
        + (if (s.classes 2).isSome then 1 else 0) + (if (s.classes 3).isSome then 1 else 0) := by
    intro s
    rw [occupied, ← List.countP_eq_length_filter,
      show List.finRange TOTALQUEUES = [0, 1, 2, 3] from by decide]
    simp only [List.countP_cons, List.countP_nil]
    omega
  match i with
  | 0 | 1 | 2 | 3 =>
      simp only [hsum, Sched.setClass, Function.update_apply]
      simp
      omega

theorem occupied_add {s : Sched} {i : Slot} (h : s.classes i = none) (cl : WrrClass) :
    occupied (s.setClass i (some cl)) = occupied s + 1 := by
  simpa [h] using occupied_setClass s i (some cl)

theorem occupied_remove {s : Sched} {i : Slot} {cl : WrrClass} (h : s.classes i = some cl) :
    occupied (s.setClass i none) + 1 = occupied s := by
  simpa [h] using occupied_setClass s i none

/-- A class put into a free slot leaves the table tidy iff its classid is
new. -/
theorem tidy_add_iff {s : Sched} (hs : Tidy s) (classid : UInt32) (copt : ClassOpt)
    (txQueueLen : Option Nat) (hfree : s.classes (slotFor copt) = none) :
    Tidy ((counting s).setClass (slotFor copt) (some (newClass classid copt txQueueLen))) ↔
      wrrFind classid s = none := by
  have hnew := Sched.setClass_same (counting s) (slotFor copt)
    (some (newClass classid copt txQueueLen))
  have hold : ∀ {k}, k ≠ slotFor copt →
      ((counting s).setClass (slotFor copt) (some (newClass classid copt txQueueLen))).classes k
        = s.classes k := fun hk => Sched.setClass_ne (counting s) _ hk
  have hne : ∀ {k cl}, s.classes k = some cl → k ≠ slotFor copt := by
    rintro k cl hcl rfl
    rw [hfree] at hcl
    cases hcl
  rw [wrrFind_eq_none_iff]
  constructor
  · intro ht i cl hcl hid
    have hcl' := (hold (hne hcl)).trans hcl
    exact hne hcl (ht.distinct i (slotFor copt) cl _ hcl' hnew hid)
  · intro hid
    refine ⟨fun i cl hcl => ?_, fun i k cl cl' hcl hcl' heq => ?_, ?_⟩
    · by_cases hi : i = slotFor copt
      · subst hi
        rw [hnew] at hcl
        cases hcl
        rfl
      · exact hs.slot i cl ((hold hi).symm.trans hcl)
    · by_cases hi : i = slotFor copt <;> by_cases hk : k = slotFor copt
      · rw [hi, hk]
      · subst hi
        rw [hnew] at hcl
        cases hcl
        exact absurd heq.symm (hid k cl' ((hold hk).symm.trans hcl'))
      · subst hk
        rw [hnew] at hcl'
        cases hcl'
        exact absurd heq (hid i cl ((hold hi).symm.trans hcl))
      · exact hs.distinct i k cl cl' ((hold hi).symm.trans hcl) ((hold hk).symm.trans hcl') heq
    · have hcount : occupied (counting s) = occupied s := rfl
      rw [occupied_add (show (counting s).classes _ = none from hfree), hcount]
      show s.totalClasses + 1 = _
      rw [hs.counted]
      rfl

theorem tidy_change_iff {s : Sched} (hs : Tidy s) (classid : UInt32)
    (opt : Option (Except Int (Option ClassOpt))) (kmallocFails : Bool) (txQueueLen : Option Nat) :
    (KeptOnError s (.change classid opt kmallocFails txQueueLen) ∧
      Tidy (wrrChangeClass classid opt kmallocFails txQueueLen s).2) ↔
    Safe s (.change classid opt kmallocFails txQueueLen) := by
  rcases wrrChangeClass_cases classid opt kmallocFails txQueueLen s with
    ⟨hnone, hsame⟩ | ⟨copt, hsome, ⟨cl, hcl, heq⟩ | ⟨hfree, heq⟩⟩
  · refine iff_of_true ⟨fun _ => ?_, ?_⟩ ⟨fun _ _ _ h => ?_, fun _ h => (by cases h)⟩
    · rw [hsame]
      exact ⟨rfl, rfl, rfl⟩
    · rw [hsame]
      exact hs
    · rw [hnone] at h
      cases h
  · -- the slot is taken: the class was counted, and the request fails
    refine iff_of_false (fun h => ?_) (fun h => ?_)
    · have hkept := h.1
      rw [KeptOnError, heq] at hkept
      have hcount : s.totalClasses + 1 = s.totalClasses := (hkept (show (-ENOBUFS : Int) ≠ 0 by decide)).2.1
      omega
    · have hslot := (h.1 _ _ _ hsome).1
      rw [hcl] at hslot
      cases hslot
  · rw [KeptOnError, heq, tidy_add_iff hs classid copt txQueueLen hfree]
    constructor
    · rintro ⟨_, hfind⟩
      refine ⟨fun classid' copt' txQueueLen' h => ?_, fun _ h => (by cases h)⟩
      rw [hsome] at h
      cases h
      exact ⟨hfree, hfind⟩
    · intro h
      exact ⟨fun hne => absurd rfl hne, (h.1 _ _ _ hsome).2⟩

/-- A class that is deleted is still counted. -/
theorem tidy_delete_iff {s : Sched} (hs : Tidy s) (classid : UInt32) :
    Tidy (wrrDelete classid s).2 ↔ Safe s (.delete classid) := by
  have hsafe : Safe s (.delete classid) ↔ wrrFind classid s = none :=
    ⟨fun h => h.2 classid rfl, fun h => ⟨fun _ _ _ hc => (by cases hc), fun _ hd => (by cases hd; exact h)⟩⟩
  rw [hsafe, wrrDelete]
  cases hf : wrrFind classid s with
  | none => exact iff_of_true hs rfl
  | some i =>
      obtain ⟨cl, hcl⟩ := class_of_wrrFind hf
      refine iff_of_false (fun h => ?_) (fun h => by cases h)
      have hcount : s.totalClasses = occupied (s.setClass i none) := h.counted
      have hremove := occupied_remove hcl
      rw [hs.counted] at hcount
      omega

theorem tidy_destroy {s : Sched} (hs : Tidy s) : Tidy (wrrDestroy s) where
  slot := fun _ _ h => by cases h
  distinct := fun _ _ _ _ h => by cases h
  counted := by
    show s.totalClasses - (occupied s : Nat) = _
    rw [hs.counted]
    simp [occupied, wrrDestroy]

/-- From a tidy table, an operation leaves a tidy table, and its error
leaves no trace, iff it is safe. -/
theorem tidy_step_iff {s s' : Sched} {op : Op} (hs : Tidy s) (h : Returns s op s') :
    (KeptOnError s op ∧ Tidy s') ↔ Safe s op := by
  have hharmless : SameTable s s' → (∀ classid, op ≠ .delete classid) → changes op = none →
      KeptOnError s op → ((KeptOnError s op ∧ Tidy s') ↔ Safe s op) := by
    intro hsame hdelete hchanges hkept
    refine iff_of_true ⟨hkept, tidy_of_sameTable hs hsame⟩ ⟨fun _ _ _ hc => ?_, fun _ hd => ?_⟩
    · rw [hchanges] at hc
      cases hc
    · exact absurd hd (hdelete _)
  cases op with
  | enqueue skb =>
      rw [show s' = (wrrEnqueue skb s).2 from h] at hharmless ⊢
      exact hharmless (sameTable_enqueue skb s) (fun _ hd => (by cases hd)) rfl trivial
  | dequeue =>
      obtain ⟨n, r, hn⟩ := h
      exact hharmless (sameTable_dequeue hn) (fun _ hd => (by cases hd)) rfl trivial
  | drop =>
      rw [show s' = (wrrDrop s).2 from h] at hharmless ⊢
      exact hharmless (sameTable_dropFrom _ s) (fun _ hd => (by cases hd)) rfl trivial
  | reset =>
      rw [show s' = wrrReset s from h] at hharmless ⊢
      exact hharmless (sameTable_reset s) (fun _ hd => (by cases hd)) rfl trivial
  | graft classid new txQueueLen =>
      rw [show s' = (wrrGraft classid new txQueueLen s).2 from h] at hharmless ⊢
      exact hharmless (sameTable_graft classid new txQueueLen s) (fun _ hd => (by cases hd)) rfl trivial
  | change classid opt kmallocFails txQueueLen =>
      rw [show s' = (wrrChangeClass classid opt kmallocFails txQueueLen s).2 from h]
      exact tidy_change_iff hs classid opt kmallocFails txQueueLen
  | delete classid =>
      rw [show s' = (wrrDelete classid s).2 from h, ← tidy_delete_iff hs classid]
      exact ⟨fun h => h.2, fun h => ⟨trivial, h⟩⟩
  | destroy =>
      rw [show s' = wrrDestroy s from h]
      exact iff_of_true ⟨trivial, tidy_destroy hs⟩
        ⟨fun _ _ _ hc => (by cases hc), fun _ hd => (by cases hd)⟩

/-! ## Runs -/

theorem tidy_init {opt : Option (Except Int (Option Int))} {s : Sched} (h : wrrInit opt = .ok s) :
    Tidy s := by
  obtain ⟨_, rfl⟩ := wrrInit_ok h
  refine ⟨fun i cl hcl => (by cases hcl), fun i k cl cl' hcl => (by cases hcl), ?_⟩
  simp [occupied]

/-- Along the run the table stays tidy, and no failed change leaves a
trace. -/
def StaysTidy : Sched → List (Op × Sched) → Prop
  | s, [] => Tidy s
  | s, (op, s') :: rest => Tidy s ∧ KeptOnError s op ∧ StaysTidy s' rest

/-- Every operation of the run is safe in the state it is called in. -/
def AllSafe : Sched → List (Op × Sched) → Prop
  | _, [] => True
  | s, (op, s') :: rest => Safe s op ∧ AllSafe s' rest

theorem StaysTidy.head {s : Sched} {run : List (Op × Sched)} (h : StaysTidy s run) : Tidy s := by
  cases run with
  | nil => exact h
  | cons p rest => exact h.1

theorem tidy_trace_iff {s : Sched} (hs : Tidy s) {run : List (Op × Sched)} (h : Trace s run) :
    StaysTidy s run ↔ AllSafe s run := by
  induction run generalizing s with
  | nil => exact iff_of_true hs trivial
  | cons p rest ih =>
      obtain ⟨op, s'⟩ := p
      obtain ⟨hret, htrace⟩ := h
      have hstep := tidy_step_iff hs hret
      rw [StaysTidy, AllSafe]
      constructor
      · rintro ⟨_, hkept, hrest⟩
        have hs' := hrest.head
        exact ⟨hstep.mp ⟨hkept, hs'⟩, (ih hs' htrace).mp hrest⟩
      · rintro ⟨hsafe, hrest⟩
        obtain ⟨hkept, hs'⟩ := hstep.mpr hsafe
        exact ⟨hs, hkept, (ih hs' htrace).mpr hrest⟩

/-- In a run from a fresh qdisc, every state has a tidy table and every
failed class change leaves the scheduler as it was iff every request is
safe. -/
theorem tidy_run_iff (opt : Option (Except Int (Option Int))) (s : Sched)
    (hinit : wrrInit opt = .ok s) (run : List (Op × Sched)) (hrun : Trace s run) :
    StaysTidy s run ↔ AllSafe s run :=
  tidy_trace_iff (tidy_init hinit) hrun

/-- One class in slot 0: the run is tidy. -/
theorem tidy_run_withClass : StaysTidy freshSched [(addClass, withClass)] :=
  (tidy_run_iff none freshSched rfl [(addClass, withClass)] ⟨rfl, trivial⟩).mpr
    ⟨⟨fun classid copt txQueueLen h => (by cases h; exact ⟨rfl, rfl⟩), fun _ h => (by cases h)⟩, trivial⟩

/-! ## A run that loses count -/

/-- The request for the same class with mark 1. -/
def addClassAgain : Op := .change 0x20011 (some (.ok (some ⟨1500, 1⟩))) false (some 10)

def withClassTwice : Sched :=
  (wrrChangeClass 0x20011 (some (.ok (some ⟨1500, 1⟩))) false (some 10) withClass).2

/-- After two requests for one classid two slots have it. A third, for a
mark whose slot is taken, fails and counts a class; a delete leaves the
count at 1. -/
theorem untidy_withClass :
    wrrInit none = .ok freshSched ∧
    Trace freshSched [(addClass, withClass), (addClassAgain, withClassTwice)] ∧
    ¬ Tidy withClassTwice ∧
    (wrrChangeClass 0x20012 (some (.ok (some ⟨1500, 4⟩))) false (some 10) withClass).1 = -ENOBUFS ∧
    (wrrChangeClass 0x20012 (some (.ok (some ⟨1500, 4⟩))) false (some 10) withClass).2.totalClasses
      = withClass.totalClasses + 1 ∧
    (wrrDelete 0x20011 withClass).2.totalClasses = 1 ∧ occupied (wrrDelete 0x20011 withClass).2 = 0 := by
  refine ⟨rfl, ⟨rfl, rfl, trivial⟩, fun h => ?_, rfl, rfl, rfl, rfl⟩
  exact absurd (h.distinct 0 1 _ _ rfl rfl rfl) (by decide)

end UbntSdk.Wrr
