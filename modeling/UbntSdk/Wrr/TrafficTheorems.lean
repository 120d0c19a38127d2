/-
UbntSdk.Wrr.TrafficTheorems — what enqueueing and dequeueing does to packets
(`target/linux/ubnt/files/net/sched/wrr.c`).

`dequeue_cases` says what a call of `wrr_dequeue` that returns has done: it
refilled some classes, and then found nothing or took the first packet of a
class. Everything else follows from that. In a run of `wrr_enqueue` and
`wrr_dequeue` (`Run`), the packets of one mark leave in the order they were
accepted in, and a call returns nothing iff all queues are empty
(`wrr_traffic`).

The children count their packets in 32 bits, so their limits are below 2^32.
-/
import UbntSdk.Wrr.DequeueTheorems
import Mathlib.Tactic.Linarith
import Mathlib.Tactic.Ring

namespace UbntSdk.Wrr

open UbntSdk.Lib

/-! ## What the loop of `wrr_dequeue` does -/

/-- The class in slot `i` refilled `n i` times. -/
def refilled (s : Sched) (n : Slot → Nat) : Sched :=
  { s with classes := fun i => (s.classes i).map fun cl =>
      { cl with deficit := cl.deficit + n i * cl.quantum } }

theorem refilled_zero (s : Sched) : refilled s (fun _ => 0) = s := by
  have hclasses : (refilled s fun _ => 0).classes = s.classes := by
    funext i
    cases hcl : s.classes i <;> simp [refilled, hcl]
  cases s
  simp only [refilled, Sched.mk.injEq, and_true, true_and]
  exact hclasses

theorem refilled_class {s : Sched} {n : Slot → Nat} {i : Slot} {cl' : WrrClass}
    (h : (refilled s n).classes i = some cl') :
    ∃ cl, s.classes i = some cl ∧ cl' = { cl with deficit := cl.deficit + n i * cl.quantum } := by
  obtain ⟨cl, hcl, heq⟩ := Option.map_eq_some_iff.mp h
  exact ⟨cl, hcl, heq.symm⟩

/-- One more refill. -/
theorem refilled_succ {s : Sched} {n : Slot → Nat} {i : Slot} {cl : WrrClass}
    (hcl : s.classes i = some cl) :
    (refilled s n).setClass i
        (some { cl with deficit := cl.deficit + n i * cl.quantum + cl.quantum }) =
      refilled s (Function.update n i (n i + 1)) := by
  have hclasses : ((refilled s n).setClass i
      (some { cl with deficit := cl.deficit + n i * cl.quantum + cl.quantum })).classes =
        (refilled s (Function.update n i (n i + 1))).classes := by
    funext k
    by_cases hk : k = i
    · subst hk
      rw [Sched.setClass_same]
      simp only [refilled, hcl, Option.map_some, Function.update_self, Option.some.injEq,
        WrrClass.mk.injEq, true_and]
      push_cast
      ring
    · rw [Sched.setClass_ne _ _ hk]
      simp [refilled, Function.update_of_ne hk]
  simp only [refilled, Sched.setClass, Sched.mk.injEq, and_true, true_and] at hclasses ⊢
  exact hclasses

/-- The loop has refilled the class in slot `i` `n i` times and moved on `m`
times. A class with packets is refilled on every visit, and only when it has
no deficit left; while `done` is set, none with packets was visited in this
round. -/
structure Turning (s : Sched) (n : Slot → Nat) (m : Nat) (d : Deq) : Prop where
  sched : d.sched = refilled s n
  moves : ∀ i cl, s.classes i = some cl → cl.q.packets ≠ [] →
    4 * n i + distance i s.key = m + distance i d.j
  needed : ∀ i cl, s.classes i = some cl → n i ≠ 0 →
    cl.deficit + n i * cl.quantum ≤ cl.quantum
  unseen : d.done = true → ∀ i cl, s.classes i = some cl → cl.q.qlen ≠ 0 →
    distance i d.j + d.i < TOTALQUEUES

theorem distance_self_succ (j : Slot) : distance j (j + 1) = 3 := by
  revert j
  decide

theorem distance_self (j : Slot) : distance j j = 0 := by
  simp [distance]

/-- The loop passes over a slot that has nothing to send. -/
theorem Turning.pass {s : Sched} {n : Slot → Nat} {m : Nat} {d : Deq} (h : Turning s n m d)
    (hidle : ∀ cl, s.classes d.j = some cl → cl.q.packets = []) :
    Turning s n (m + 1) { d with j := d.j + 1, i := d.i + 1 } where
  sched := h.sched
  moves := by
    intro i cl hcl hq
    have hne : d.j ≠ i := by
      rintro rfl
      exact hq (hidle cl hcl)
    have hmoves := h.moves i cl hcl hq
    have hdist := distance_succ hne
    dsimp only
    omega
  needed := h.needed
  unseen := by
    intro hdone i cl hcl hq
    have hne : d.j ≠ i := by
      rintro rfl
      exact Child.packets_ne_nil_of_qlen hq (hidle cl hcl)
    have hunseen := h.unseen hdone i cl hcl hq
    have hdist := distance_succ hne
    dsimp only
    omega

/-- It refills a class without a deficit. -/
theorem Turning.refill {s : Sched} {n : Slot → Nat} {m : Nat} {d : Deq} {cl : WrrClass}
    (h : Turning s n m d) (hcl : s.classes d.j = some cl)
    (hdef : cl.deficit + n d.j * cl.quantum ≤ 0) :
    Turning s (Function.update n d.j (n d.j + 1)) (m + 1) {
      sched := d.sched.setClass d.j
        (some { cl with deficit := cl.deficit + n d.j * cl.quantum + cl.quantum })
      j := d.j + 1
      i := d.i + 1
      done := if cl.q.qlen ≠ 0 then false else d.done } where
  sched := by
    dsimp only
    rw [h.sched, refilled_succ hcl]
  moves := by
    intro i cl' hcl' hq
    have hmoves := h.moves i cl' hcl' hq
    by_cases hij : i = d.j
    · subst hij
      rw [Function.update_self, distance_self_succ]
      rw [distance_self] at hmoves
      omega
    · rw [Function.update_of_ne hij]
      have hdist := distance_succ (Ne.symm hij)
      dsimp only
      omega
  needed := by
    intro i cl' hcl' hn
    by_cases hij : i = d.j
    · subst hij
      rw [hcl] at hcl'
      cases hcl'
      rw [Function.update_self]
      push_cast
      linarith
    · rw [Function.update_of_ne hij] at hn ⊢
      exact h.needed i cl' hcl' hn
  unseen := by
    intro hdone i cl' hcl' hq
    have hdone' : cl.q.qlen = 0 ∧ d.done = true := by
      by_cases hqlen : cl.q.qlen = 0
      · exact ⟨hqlen, by simpa [hqlen] using hdone⟩
      · simp [hqlen] at hdone
    have hne : d.j ≠ i := by
      rintro rfl
      rw [hcl] at hcl'
      cases hcl'
      exact hq hdone'.1
    have hunseen := h.unseen hdone'.2 i cl' hcl' hq
    have hdist := distance_succ hne
    dsimp only
    omega

theorem Turning.next {s : Sched} {n : Slot → Nat} {m : Nat} {d e : Deq} (h : Turning s n m d)
    (he : dequeueBody d = .next e) : ∃ n' m', Turning s n' m' e := by
  by_cases hi : d.i < TOTALQUEUES
  · cases hcl : s.classes d.j with
    | none =>
        have hd : d.sched.classes d.j = none := by simp [h.sched, refilled, hcl]
        rw [dequeueBody_vacant hi hd] at he
        cases he
        refine ⟨n, m + 1, h.pass fun cl hcl' => ?_⟩
        rw [hcl] at hcl'
        cases hcl'
    | some cl =>
        have hd : d.sched.classes d.j =
            some { cl with deficit := cl.deficit + n d.j * cl.quantum } := by
          simp [h.sched, refilled, hcl]
        by_cases hdef : cl.deficit + n d.j * cl.quantum ≤ 0
        · rw [dequeueBody_refill hi hd hdef] at he
          cases he
          exact ⟨_, _, h.refill hcl hdef⟩
        · by_cases hq : cl.q.packets = []
          · rw [dequeueBody_idle hi hd hdef hq] at he
            cases he
            refine ⟨n, m + 1, h.pass fun cl' hcl' => ?_⟩
            rw [hcl] at hcl'
            cases hcl'
            exact hq
          · obtain ⟨r, hr⟩ := dequeueBody_serve hi hd hdef hq
            rw [hr] at he
            cases he
  · rw [dequeueBody_test hi] at he
    split at he
    · cases he
    · cases he
      -- a new round, in which no slot was visited
      exact ⟨n, m, h.sched, h.moves, h.needed, fun _ i cl _ _ => distance_lt i d.j⟩

/-- The packet that a call takes, and what it leaves. -/
structure Taken (s : Sched) (n : Slot → Nat) (m : Nat) (i : Slot) (cl : WrrClass) (skb : Packet)
    (rest : List Packet) (s' : Sched) : Prop where
  found : s.classes i = some cl
  packets : cl.q.packets = skb :: rest
  credit : 0 < cl.deficit + n i * cl.quantum
  classes : s'.classes = ((refilled s n).setClass i (some { cl with
    q := { cl.q with packets := rest }
    deficit := cl.deficit + n i * cl.quantum - skb.len })).classes
  key : s'.key = if cl.deficit + n i * cl.quantum - skb.len ≤ 0 then i + 1 else i
  stats : s'.stats = s.stats
  moves : ∀ k cl, s.classes k = some cl → cl.q.packets ≠ [] →
    4 * n k + distance k s.key = m + distance k i
  needed : ∀ k cl, s.classes k = some cl → n k ≠ 0 → cl.deficit + n k * cl.quantum ≤ cl.quantum

/-- What `wrr_dequeue` has done when it returns. -/
theorem dequeue_cases {s s' : Sched} {k : Nat} {r : Option Packet}
    (h : wrrDequeue k s = .done (r, s')) :
    ∃ n, (r = none ∧ s' = { refilled s n with key := 0 } ∧
        ∀ i cl, s.classes i = some cl → cl.q.qlen = 0) ∨
      ∃ m i cl skb rest, r = some skb ∧ Taken s n m i cl skb rest s' := by
  obtain ⟨d, hd, hstop⟩ := (reaches_of_run k _).2 _ h
  have hstart : Turning s (fun _ => 0) 0 { sched := s, j := s.key, i := 0, done := true } :=
    ⟨(refilled_zero s).symm, fun i cl _ _ => by simp, fun i cl _ hn => absurd rfl hn,
      fun _ i cl _ _ => distance_lt i s.key⟩
  obtain ⟨n, m, hturn⟩ : ∃ n m, Turning s n m d :=
    @Reaches.invariant _ _ _ (fun d => ∃ n m, Turning s n m d) _ _ hd ⟨_, _, hstart⟩
      fun u v _ ⟨n, m, hu⟩ huv => hu.next huv
  refine ⟨n, ?_⟩
  by_cases hi : d.i < TOTALQUEUES
  · right
    cases hcl : s.classes d.j with
    | none =>
        have hd : d.sched.classes d.j = none := by simp [hturn.sched, refilled, hcl]
        rw [dequeueBody_vacant hi hd] at hstop
        cases hstop
    | some cl =>
        have hd : d.sched.classes d.j =
            some { cl with deficit := cl.deficit + n d.j * cl.quantum } := by
          simp [hturn.sched, refilled, hcl]
        by_cases hdef : cl.deficit + n d.j * cl.quantum ≤ 0
        · rw [dequeueBody_refill hi hd hdef] at hstop
          cases hstop
        · cases hq : cl.q.packets with
          | nil =>
              rw [dequeueBody_idle hi hd hdef hq] at hstop
              cases hstop
          | cons skb rest =>
              have hdeq : cl.q.dequeue = some (skb, { cl.q with packets := rest }) := by
                simp [Child.dequeue, hq]
              simp only [dequeueBody, hi, hd, hdef, hdeq, if_true, if_false, Pass.stop.injEq,
                Prod.mk.injEq] at hstop
              obtain ⟨rfl, rfl⟩ := hstop
              refine ⟨m, d.j, cl, skb, rest, rfl, hcl, hq, by omega, ?_, rfl, ?_, hturn.moves,
                hturn.needed⟩
              · rw [hturn.sched]
              · rw [hturn.sched]
                rfl
  · left
    rw [dequeueBody_test hi] at hstop
    split at hstop
    · rename_i hdone
      cases hstop
      refine ⟨rfl, by rw [hturn.sched], fun i cl hcl => ?_⟩
      by_contra hq
      have hunseen := hturn.unseen hdone i cl hcl hq
      omega
    · cases hstop

/-! ## Runs of traffic -/

/-- A call of `wrr_enqueue` with what it returned, or one of `wrr_dequeue`. -/
inductive Event where
  | enqueue (skb : Packet) (code : Int)
  | dequeue (r : Option Packet)
  deriving DecidableEq

/-- The call is made in `s` and leaves `s'`. -/
def Occurs (s : Sched) (event : Event) (s' : Sched) : Prop :=
  match event with
  | .enqueue skb code => wrrEnqueue skb s = (code, s')
  | .dequeue r => ∃ n, wrrDequeue n s = .done (r, s')

/-- A run of calls from `s` to `s'`. -/
inductive Run : Sched → List Event → Sched → Prop where
  | refl (s : Sched) : Run s [] s
  | step {s s' s'' : Sched} {event : Event} {events : List Event} (h : Occurs s event s')
      (hrest : Run s' events s'') : Run s (event :: events) s''

/-- The packets of this mark that were accepted, in their order. -/
def accepted (mark : UInt32) : List Event → List Packet
  | [] => []
  | .enqueue skb code :: events =>
      if code = NET_XMIT_SUCCESS ∧ skb.mark = mark then skb :: accepted mark events
      else accepted mark events
  | .dequeue _ :: events => accepted mark events

/-- The packets of this mark that were returned, in their order. -/
def returned (mark : UInt32) : List Event → List Packet
  | [] => []
  | .enqueue _ _ :: events => returned mark events
  | .dequeue none :: events => returned mark events
  | .dequeue (some skb) :: events =>
      if skb.mark = mark then skb :: returned mark events else returned mark events

/-- The number of packets that were not accepted. -/
def refused : List Event → Nat
  | [] => 0
  | .enqueue _ code :: events => (if code = NET_XMIT_SUCCESS then 0 else 1) + refused events
  | .dequeue _ :: events => refused events

/-- The packets of the class in a slot. -/
def slotPackets (s : Sched) (i : Slot) : List Packet :=
  match s.classes i with
  | none => []
  | some cl => cl.q.packets

/-- The packets of this mark in all queues. -/
def queued (s : Sched) (mark : UInt32) : List Packet :=
  (List.finRange TOTALQUEUES).flatMap fun i => (slotPackets s i).filter fun skb => skb.mark = mark

/-- The class in slot `i` has a positive quantum, and its queue is a FIFO that
only has packets of its mark. -/
structure ClassReady (i : Slot) (cl : WrrClass) : Prop where
  quantum : 0 < cl.quantum
  slot : slotOf cl.nfmark = i
  marks : ∀ skb ∈ cl.q.packets, skb.mark = cl.nfmark
  room : cl.q.packets.length ≤ cl.q.limit
  limit : cl.q.limit < 2 ^ 32

/-- All classes are ready. -/
def Ready (s : Sched) : Prop := ∀ i cl, s.classes i = some cl → ClassReady i cl

theorem ClassReady.qlen_eq_zero_iff {i : Slot} {cl : WrrClass} (h : ClassReady i cl) :
    cl.q.qlen = 0 ↔ cl.q.packets = [] := by
  have hroom := h.room
  have hlimit := h.limit
  rw [← List.length_eq_zero_iff, Child.qlen, ← UInt32.toNat_inj, Nat.toUInt32_eq, UInt32.toNat_ofNat',
    Nat.mod_eq_of_lt (by omega)]
  rfl

/-- The packets of a mark are in one slot. -/
theorem queued_eq {s : Sched} (hs : Ready s) (mark : UInt32) :
    queued s mark = (slotPackets s (slotOf mark)).filter fun skb => skb.mark = mark := by
  have hother (i : Slot) (hi : i ≠ slotOf mark) :
      (slotPackets s i).filter (fun skb => skb.mark = mark) = [] := by
    rw [List.filter_eq_nil_iff]
    intro skb hskb
    simp only [slotPackets] at hskb
    cases hcl : s.classes i with
    | none => simp [hcl] at hskb
    | some cl =>
        rw [hcl] at hskb
        have hready := hs i cl hcl
        simp only [decide_eq_true_eq]
        rintro rfl
        rw [hready.marks skb hskb, hready.slot] at hi
        exact hi rfl
  rw [queued]
  generalize slotOf mark = k at hother ⊢
  have hfour (f : Slot → List Packet) (hf : ∀ i, i ≠ k → f i = []) :
      (List.finRange TOTALQUEUES).flatMap f = f k := by
    have hall : (List.finRange TOTALQUEUES).flatMap f = f 0 ++ (f 1 ++ (f 2 ++ f 3)) := by
      simp [List.finRange_succ, List.finRange_zero]
    rw [hall]
    match k with
    | 0 => simp [hf 1 (by decide), hf 2 (by decide), hf 3 (by decide)]
    | 1 => simp [hf 0 (by decide), hf 2 (by decide), hf 3 (by decide)]
    | 2 => simp [hf 0 (by decide), hf 1 (by decide), hf 3 (by decide)]
    | 3 => simp [hf 0 (by decide), hf 1 (by decide), hf 2 (by decide)]
  exact hfour _ hother

/-! ## One call -/

theorem ready_setClass {s s' : Sched} (hs : Ready s) {i : Slot} {cl : WrrClass}
    (hclasses : s'.classes = (s.setClass i (some cl)).classes) (hcl : ClassReady i cl) : Ready s' := by
  intro k cl' hcl'
  rw [hclasses] at hcl'
  by_cases hk : k = i
  · subst hk
    rw [Sched.setClass_same] at hcl'
    cases hcl'
    exact hcl
  · rw [Sched.setClass_ne _ _ hk] at hcl'
    exact hs k cl' hcl'

theorem slotPackets_setClass {s s' : Sched} {i : Slot} {cl : WrrClass}
    (hclasses : s'.classes = (s.setClass i (some cl)).classes) (k : Slot) :
    slotPackets s' k = if k = i then cl.q.packets else slotPackets s k := by
  rw [slotPackets, hclasses]
  by_cases hk : k = i
  · subst hk
    simp
  · simp [hk, slotPackets]

theorem ready_refilled {s : Sched} (hs : Ready s) (n : Slot → Nat) : Ready (refilled s n) := by
  intro i cl' hcl'
  obtain ⟨cl, hcl, rfl⟩ := refilled_class hcl'
  have h := hs i cl hcl
  exact ⟨h.quantum, h.slot, h.marks, h.room, h.limit⟩

theorem slotPackets_refilled (s : Sched) (n : Slot → Nat) (i : Slot) :
    slotPackets (refilled s n) i = slotPackets s i := by
  cases hcl : s.classes i <;> simp [slotPackets, refilled, hcl]

/-- `wrr_enqueue` refuses the packet, or appends it to the queue of its mark. -/
theorem enqueue_cases {s s' : Sched} {skb : Packet} {code : Int} (hs : Ready s)
    (h : wrrEnqueue skb s = (code, s')) :
    Ready s' ∧ ((code = NET_XMIT_DROP ∧ s'.stats.drops = s.stats.drops + 1 ∧
        ∀ i, slotPackets s' i = slotPackets s i) ∨
      (code = NET_XMIT_SUCCESS ∧ s'.stats.drops = s.stats.drops ∧
        ∀ i, slotPackets s' i =
          if i = slotOf skb.mark then slotPackets s i ++ [skb] else slotPackets s i)) := by
  unfold wrrEnqueue at h
  split at h
  · cases h
    exact ⟨hs, Or.inl ⟨rfl, rfl, fun i => rfl⟩⟩
  · rename_i i cl hclasify
    have hcl := wrrClasify_some hclasify
    have hready := hs i cl hcl
    split at h
    · cases h
      refine ⟨ready_setClass hs rfl ⟨hready.quantum, hready.slot, hready.marks, hready.room, hready.limit⟩,
        Or.inl ⟨rfl, rfl, fun k => ?_⟩⟩
      refine (@slotPackets_setClass s _ i _ rfl k).trans ?_
      split
      · rename_i hk
        simp [hk, slotPackets, hcl]
      · rfl
    · rename_i q hq
      cases h
      have hmark : cl.nfmark = skb.mark := by
        unfold wrrClasify at hclasify
        split at hclasify
        · cases hclasify
        · split at hclasify
          · cases hclasify
            assumption
          · cases hclasify
      unfold Child.enqueue at hq
      split at hq
      · rename_i hroom
        cases hq
        refine ⟨ready_setClass hs rfl ⟨hready.quantum, hready.slot, fun p hp => ?_, ?_, hready.limit⟩,
          Or.inr ⟨rfl, rfl, fun k => ?_⟩⟩
        · rcases List.mem_append.mp hp with hp | hp
          · exact hready.marks p hp
          · rw [List.mem_singleton.mp hp, hmark]
        · simp only [List.length_append, List.length_singleton]
          omega
        · refine (@slotPackets_setClass s _ i _ rfl k).trans ?_
          rw [← hmark, hready.slot]
          split
          · rename_i hk
            simp [hk, slotPackets, hcl]
          · rfl
      · cases hq

/-- `wrr_dequeue` finds nothing in empty queues, or takes the first packet of
the queue of its mark. -/
theorem dequeue_returns {s s' : Sched} {k : Nat} {r : Option Packet} (hs : Ready s)
    (h : wrrDequeue k s = .done (r, s')) :
    Ready s' ∧ s'.stats = s.stats ∧
      ((r = none ∧ ∀ i, slotPackets s i = [] ∧ slotPackets s' i = []) ∨
        ∃ skb, r = some skb ∧ ∀ i, slotPackets s i =
          if i = slotOf skb.mark then skb :: slotPackets s' i else slotPackets s' i) := by
  obtain ⟨n, ⟨rfl, rfl, hempty⟩ | ⟨m, i, cl, skb, rest, rfl, ht⟩⟩ := dequeue_cases h
  · have hnil (i : Slot) : slotPackets s i = [] := by
      cases hcl : s.classes i with
      | none => simp [slotPackets, hcl]
      | some cl =>
          simp only [slotPackets, hcl]
          exact (hs i cl hcl).qlen_eq_zero_iff.mp (hempty i cl hcl)
    exact ⟨ready_refilled hs n, rfl, Or.inl ⟨rfl, fun i =>
      ⟨hnil i, (slotPackets_refilled s n i).trans (hnil i)⟩⟩⟩
  · have hready := hs i cl ht.found
    have hroom := hready.room
    have hmark : skb.mark = cl.nfmark := hready.marks skb (by simp [ht.packets])
    refine ⟨ready_setClass (ready_refilled hs n) ht.classes ⟨hready.quantum, hready.slot,
      fun p hp => hready.marks p (by simp [ht.packets, hp]), ?_, hready.limit⟩, ht.stats,
      Or.inr ⟨skb, rfl, fun k => ?_⟩⟩
    · rw [ht.packets, List.length_cons] at hroom
      dsimp only
      omega
    · rw [slotPackets_setClass ht.classes, hmark, hready.slot, slotPackets_refilled]
      split
      · rename_i hk
        simp [hk, slotPackets, ht.found, ht.packets]
      · rfl

/-! ## Whole runs -/

theorem accepted_cons (mark : UInt32) (event : Event) (events : List Event) :
    accepted mark (event :: events) = accepted mark [event] ++ accepted mark events := by
  cases event with
  | enqueue skb code =>
      simp only [accepted]
      split <;> rfl
  | dequeue r => rfl

theorem returned_cons (mark : UInt32) (event : Event) (events : List Event) :
    returned mark (event :: events) = returned mark [event] ++ returned mark events := by
  cases event with
  | enqueue skb code => rfl
  | dequeue r =>
      cases r with
      | none => rfl
      | some skb =>
          simp only [returned]
          split <;> rfl

theorem refused_cons (event : Event) (events : List Event) :
    refused (event :: events) = refused [event] + refused events := by
  cases event <;> simp [refused]

/-- A call moves the packets of a mark through one queue. -/
theorem occurs_step {s s' : Sched} {event : Event} (hs : Ready s) (h : Occurs s event s') :
    Ready s' ∧ s'.stats.drops = s.stats.drops + refused [event] ∧
      ∀ mark, queued s mark ++ accepted mark [event] = returned mark [event] ++ queued s' mark := by
  cases event with
  | enqueue skb code =>
      obtain ⟨hs', ⟨rfl, hdrops, hsame⟩ | ⟨rfl, hdrops, happend⟩⟩ := enqueue_cases hs h
      · refine ⟨hs', hdrops, fun mark => ?_⟩
        rw [queued_eq hs, queued_eq hs', hsame]
        simp [accepted, returned, NET_XMIT_DROP, NET_XMIT_SUCCESS]
      · refine ⟨hs', hdrops, fun mark => ?_⟩
        rw [queued_eq hs, queued_eq hs', happend]
        by_cases hmark : skb.mark = mark
        · simp [accepted, returned, hmark]
        · have hfilter : (if slotOf mark = slotOf skb.mark then slotPackets s (slotOf mark) ++ [skb]
              else slotPackets s (slotOf mark)).filter (fun skb => skb.mark = mark) =
              (slotPackets s (slotOf mark)).filter (fun skb => skb.mark = mark) := by
            split
            · simp [hmark]
            · rfl
          rw [hfilter]
          simp [accepted, returned, hmark]
  | dequeue r =>
      obtain ⟨n, hn⟩ := h
      obtain ⟨hs', hstats, ⟨rfl, hempty⟩ | ⟨skb, rfl, htake⟩⟩ := dequeue_returns hs hn
      · refine ⟨hs', by rw [hstats]; rfl, fun mark => ?_⟩
        rw [queued_eq hs, queued_eq hs', (hempty _).1, (hempty _).2]
        rfl
      · refine ⟨hs', by rw [hstats]; rfl, fun mark => ?_⟩
        rw [queued_eq hs, queued_eq hs', htake]
        by_cases hmark : skb.mark = mark
        · simp [accepted, returned, hmark]
        · have hfilter : (if slotOf mark = slotOf skb.mark then skb :: slotPackets s' (slotOf mark)
              else slotPackets s' (slotOf mark)).filter (fun skb => skb.mark = mark) =
              (slotPackets s' (slotOf mark)).filter (fun skb => skb.mark = mark) := by
            split
            · simp [hmark]
            · rfl
          rw [hfilter]
          simp [accepted, returned, hmark]

theorem ready_run {s s' : Sched} {events : List Event} (hs : Ready s) (hrun : Run s events s') :
    Ready s' := by
  induction hrun with
  | refl s => exact hs
  | step h hrest ih => exact ih (occurs_step hs h).1

theorem drops_run {s s' : Sched} {events : List Event} (hs : Ready s) (hrun : Run s events s') :
    s'.stats.drops = s.stats.drops + refused events := by
  induction hrun with
  | refl s => rfl
  | @step _ _ _ event events h hrest ih =>
      obtain ⟨hs', hdrops, -⟩ := occurs_step hs h
      rw [ih hs', hdrops, refused_cons event events, Nat.add_assoc]

theorem queued_run {s s' : Sched} {events : List Event} (hs : Ready s) (hrun : Run s events s')
    (mark : UInt32) : queued s mark ++ accepted mark events =
      returned mark events ++ queued s' mark := by
  induction hrun with
  | refl s => simp [accepted, returned]
  | @step s s' s'' event events h hrest ih =>
      obtain ⟨hs', -, hmove⟩ := occurs_step hs h
      calc queued s mark ++ accepted mark (event :: events)
          = queued s mark ++ accepted mark [event] ++ accepted mark events := by
            rw [accepted_cons, List.append_assoc]
        _ = returned mark [event] ++ (queued s' mark ++ accepted mark events) := by
            rw [hmove, List.append_assoc]
        _ = returned mark [event] ++ (returned mark events ++ queued s'' mark) := by rw [ih hs']
        _ = returned mark (event :: events) ++ queued s'' mark := by
            rw [returned_cons mark event events, List.append_assoc]

theorem ready_init {opt : Option (Except Int (Option Int))} {s : Sched}
    (h : wrrInit opt = .ok s) : Ready s := by
  obtain ⟨_, rfl⟩ := wrrInit_ok h
  intro i cl hcl
  cases hcl

/-- `wrr_change_class` keeps the classes ready, except with a quantum of 0. -/
theorem ready_change {s : Sched} (hs : Ready s) (classid : UInt32)
    (opt : Option (Except Int (Option ClassOpt))) (kmallocFails : Bool) (txQueueLen : Option Nat)
    (hquantum : ∀ copt, opt = some (.ok (some copt)) → copt.quantum ≠ 0)
    (hlen : ∀ len ∈ txQueueLen, len < 2 ^ 32) :
    Ready (wrrChangeClass classid opt kmallocFails txQueueLen s).2 := by
  have hchild : ((createDflt txQueueLen).getD noopQdisc).packets = [] ∧
      ((createDflt txQueueLen).getD noopQdisc).limit < 2 ^ 32 := by
    cases txQueueLen with
    | none => exact ⟨rfl, by decide⟩
    | some len =>
        have hlt := hlen len rfl
        refine ⟨rfl, ?_⟩
        simp only [createDflt, Option.map_some, Option.getD_some, pfifo]
        split <;> omega
  refine wrrChangeClass_keeps classid opt kmallocFails txQueueLen hs hs fun copt hopt _ => ?_
  have hne := hquantum copt hopt
  refine @ready_setClass s _ hs _ _ rfl ⟨?_, rfl, ?_, ?_, hchild.2⟩
  · dsimp only [newClass]
    split <;> omega
  · simp [newClass, hchild.1]
  · simp [newClass, hchild.1]

/-- In ready states `wrr_dequeue` returns. -/
theorem terminates_of_ready {s : Sched} (hs : Ready s) : Terminates s := by
  rw [terminates_iff]
  rintro ⟨⟨i, cl, hcl, -, -, hquantum⟩, -⟩
  have hpos := (hs i cl hcl).quantum
  omega

/-- After any run of `wrr_enqueue` and `wrr_dequeue`: the packets in a queue
have the mark of its class; those of each mark that were there or were
accepted have left in that order or wait in it; every packet that was not
accepted is counted; and the next `wrr_dequeue` returns, with nothing iff all
queues are empty. -/
theorem wrr_traffic (s s' : Sched) (events : List Event) (hs : Ready s) (hrun : Run s events s') :
    (∀ i cl, s'.classes i = some cl → ∀ skb ∈ cl.q.packets, skb.mark = cl.nfmark) ∧
    (∀ mark, queued s mark ++ accepted mark events = returned mark events ++ queued s' mark) ∧
    s'.stats.drops = s.stats.drops + refused events ∧
    (∃ r s'', Occurs s' (.dequeue r) s'') ∧
    ∀ r s'', Occurs s' (.dequeue r) s'' → (r = none ↔ ∀ i, slotPackets s' i = []) := by
  have hs' := ready_run hs hrun
  refine ⟨fun i cl hcl => (hs' i cl hcl).marks, queued_run hs hrun, drops_run hs hrun, ?_, ?_⟩
  · obtain ⟨n, ⟨r, s''⟩, hn⟩ := terminates_of_ready hs'
    exact ⟨r, s'', n, hn⟩
  · rintro r s'' ⟨n, hn⟩
    obtain ⟨-, -, ⟨rfl, hempty⟩ | ⟨skb, rfl, htake⟩⟩ := dequeue_returns hs' hn
    · exact ⟨fun _ i => (hempty i).1, fun _ => rfl⟩
    · constructor
      · intro h
        cases h
      · intro hempty
        have hfirst := htake (slotOf skb.mark)
        rw [if_pos rfl, hempty] at hfirst
        cases hfirst

/-- What is left when the packet is taken. -/
def afterDequeue : Sched :=
  match wrrDequeue 1 withPacket with
  | .done (_, s) => s
  | _ => withPacket

/-- A packet for the class of mark 0, one for no class, and a dequeue. -/
theorem wrr_traffic_withClass :
    Ready withClass ∧
    Run withClass [.enqueue ⟨100, 0⟩ 0, .enqueue ⟨60, 5⟩ 1, .dequeue (some ⟨100, 0⟩)]
      { afterDequeue with stats := ⟨1, 100, 1⟩ } ∧
    returned 0 [.enqueue ⟨100, 0⟩ 0, .enqueue ⟨60, 5⟩ 1, .dequeue (some ⟨100, 0⟩)] =
      queued withClass 0 ++ [⟨100, 0⟩] := by
  have hready : Ready withClass :=
    ready_change (s := freshSched) (by intro i cl hcl; cases hcl) _ _ _ _
      (by rintro _ ⟨⟩; decide) (by rintro _ ⟨⟩; decide)
  have hrun : Run withClass [.enqueue ⟨100, 0⟩ 0, .enqueue ⟨60, 5⟩ 1, .dequeue (some ⟨100, 0⟩)]
      { afterDequeue with stats := ⟨1, 100, 1⟩ } := by
    refine @Run.step _ withPacket _ _ _ rfl
      (@Run.step _ (wrrEnqueue ⟨60, 5⟩ withPacket).2 _ _ _ rfl (.step ⟨1, ?_⟩ (.refl _)))
    rfl
  have hmoved := (wrr_traffic _ _ _ hready hrun).2.1 0
  refine ⟨hready, hrun, ?_⟩
  rw [show [⟨100, 0⟩] = accepted 0 [.enqueue ⟨100, 0⟩ 0, .enqueue ⟨60, 5⟩ 1,
    .dequeue (some ⟨100, 0⟩)] from rfl, hmoved]
  rfl

end UbntSdk.Wrr
