/-
UbntSdk.Wrr.DequeueTheorems — when `wrr_dequeue` returns.

The loop goes round the slots, refills the deficit of every class that has
none left, and starts over as long as such a class has packets. A class of
quantum 0 is refilled with nothing, and `wrr_change_class` accepts the
quantum 0 (only a negative one is replaced by 1500).

`terminates_iff` is about one state: the loop ends unless the state is
`Stuck`, that is, some class waits that no round helps, and every class
with packets is such a class. For the other states there is a variant: the
deficit that a class with packets still has to make up, then its distance
from the slot being visited.

`terminates_traffic_iff` is about configurations: whatever is enqueued,
dequeued, dropped or reset from here on, every call returns iff no class
that can hold a packet has quantum 0.
-/
import UbntSdk.Wrr.QlenTheorems

namespace UbntSdk.Wrr

open UbntSdk.Lib

@[simp] theorem Sched.setClass_same (s : Sched) (i : Slot) (cl : Option WrrClass) :
    (s.setClass i cl).classes i = cl := by
  simp [Sched.setClass]

@[simp] theorem Sched.setClass_ne (s : Sched) {i k : Slot} (cl : Option WrrClass) (h : k ≠ i) :
    (s.setClass i cl).classes k = s.classes k := by
  simp [Sched.setClass, h]

theorem Child.dequeue_eq_none_iff (q : Child) : q.dequeue = none ↔ q.packets = [] := by
  unfold Child.dequeue
  cases q.packets <;> simp

theorem Child.packets_ne_nil_of_qlen {q : Child} (h : q.qlen ≠ 0) : q.packets ≠ [] := by
  intro hnil
  exact h (by simp [Child.qlen, hnil])

/-! ## One pass of the loop -/

section Pass

variable {d : Deq} {cl : WrrClass}

theorem dequeueBody_vacant (hi : d.i < TOTALQUEUES) (hcl : d.sched.classes d.j = none) :
    dequeueBody d = .next { d with j := d.j + 1, i := d.i + 1 } := by
  simp [dequeueBody, hi, hcl]

theorem dequeueBody_refill (hi : d.i < TOTALQUEUES) (hcl : d.sched.classes d.j = some cl)
    (hdef : cl.deficit ≤ 0) :
    dequeueBody d = .next {
      sched := d.sched.setClass d.j (some { cl with deficit := cl.deficit + cl.quantum })
      j := d.j + 1
      i := d.i + 1
      done := if cl.q.qlen ≠ 0 then false else d.done } := by
  simp [dequeueBody, hi, hcl, hdef]

theorem dequeueBody_idle (hi : d.i < TOTALQUEUES) (hcl : d.sched.classes d.j = some cl)
    (hdef : ¬ cl.deficit ≤ 0) (hq : cl.q.packets = []) :
    dequeueBody d = .next { d with j := d.j + 1, i := d.i + 1 } := by
  simp [dequeueBody, hi, hcl, hdef, cl.q.dequeue_eq_none_iff.mpr hq]

theorem dequeueBody_serve (hi : d.i < TOTALQUEUES) (hcl : d.sched.classes d.j = some cl)
    (hdef : ¬ cl.deficit ≤ 0) (hq : cl.q.packets ≠ []) : ∃ r, dequeueBody d = .stop r := by
  cases hdeq : cl.q.dequeue with
  | none => exact absurd (cl.q.dequeue_eq_none_iff.mp hdeq) hq
  | some p => simp [dequeueBody, hi, hcl, hdef, hdeq]

/-- The test of the outer loop. -/
theorem dequeueBody_test (hi : ¬ d.i < TOTALQUEUES) :
    dequeueBody d =
      if d.done then .stop (none, { d.sched with key := 0 })
      else .next { d with i := 0, done := true } := by
  simp [dequeueBody, hi]

/-- What a visit does: it serves the class, passes it over or refills it. -/
theorem dequeueBody_visit (hi : d.i < TOTALQUEUES) :
    (∃ cl r, d.sched.classes d.j = some cl ∧ 0 < cl.deficit ∧ cl.q.packets ≠ [] ∧
      dequeueBody d = .stop r) ∨
    (∃ e, dequeueBody d = .next e ∧ e.j = d.j + 1 ∧ e.i = d.i + 1 ∧
      (∀ k, k ≠ d.j → e.sched.classes k = d.sched.classes k) ∧
      ((e.sched.classes d.j = d.sched.classes d.j ∧ e.done = d.done ∧
          ∀ cl, d.sched.classes d.j = some cl → 0 < cl.deficit ∧ cl.q.packets = []) ∨
        ∃ cl, d.sched.classes d.j = some cl ∧ cl.deficit ≤ 0 ∧
          e.sched.classes d.j = some { cl with deficit := cl.deficit + cl.quantum } ∧
          e.done = if cl.q.qlen ≠ 0 then false else d.done)) := by
  cases hcl : d.sched.classes d.j with
  | none =>
      right
      refine ⟨_, dequeueBody_vacant hi hcl, rfl, rfl, fun k _ => rfl, Or.inl ⟨hcl, rfl, ?_⟩⟩
      intro cl h
      cases h
  | some cl =>
      by_cases hdef : cl.deficit ≤ 0
      · right
        refine ⟨_, dequeueBody_refill hi hcl hdef, rfl, rfl, fun k hk => ?_, Or.inr ⟨cl, rfl, hdef, ?_, rfl⟩⟩
        · simp [hk]
        · simp
      · by_cases hq : cl.q.packets = []
        · right
          refine ⟨_, dequeueBody_idle hi hcl hdef hq, rfl, rfl, fun k _ => rfl, Or.inl ⟨hcl, rfl, ?_⟩⟩
          intro cl' h
          cases h
          exact ⟨by omega, hq⟩
        · left
          obtain ⟨r, hr⟩ := dequeueBody_serve hi hcl hdef hq
          exact ⟨cl, r, rfl, by omega, hq, hr⟩

end Pass

/-! ## States in which the loop ends -/

/-- `wrr_dequeue` returns. -/
def Terminates (s : Sched) : Prop := ∃ n r, wrrDequeue n s = .done r

/-- The class has no deficit left, and a round does not give it any. -/
def Starved (cl : WrrClass) : Prop := cl.deficit ≤ 0 ∧ cl.quantum ≤ 0

/-- Some class waits in vain, and so does every class that has packets. -/
def Stuck (s : Sched) : Prop :=
  (∃ i cl, s.classes i = some cl ∧ cl.q.qlen ≠ 0 ∧ Starved cl) ∧
  ∀ i cl, s.classes i = some cl → cl.q.packets ≠ [] → Starved cl

/-- The visits before the loop comes to slot `b`. -/
def distance (b j : Slot) : Nat := (b - j).val

/-- Every slot that is passed comes one nearer to the slot that is served. -/
theorem distance_succ {b j : Slot} (h : j ≠ b) : distance b (j + 1) + 1 = distance b j := by
  revert h
  revert b j
  decide

theorem distance_lt (b j : Slot) : distance b j < TOTALQUEUES := (b - j).isLt

/-- The deficit that the class in a slot has to make up. -/
def owed (b : Slot) (s : Sched) : Nat :=
  match s.classes b with
  | none => 0
  | some cl => (1 - cl.deficit).toNat

/-- Each refill of slot `b` outweighs one trip round the table. -/
def waiting (b : Slot) (d : Deq) : Nat :=
  10 * owed b d.sched + 2 * distance b d.j + if d.i < TOTALQUEUES then 0 else 1

/-- The class in slot `b` has packets and will be served. -/
def Served (b : Slot) (s : Sched) : Prop :=
  ∃ cl, s.classes b = some cl ∧ cl.q.packets ≠ [] ∧ ¬ Starved cl

/-- The variant falls in every pass, so the loop ends. -/
theorem terminates_of_served {s : Sched} {b : Slot} (h : Served b s) : Terminates s := by
  refine @run_done_of_variant _ _ _ (fun d => Served b d.sched) (waiting b) ?_ _ h
  intro d hserved
  obtain ⟨cl, hcl, hq, hlive⟩ := hserved
  by_cases hi : d.i < TOTALQUEUES
  · rcases dequeueBody_visit hi with ⟨_, r, _, _, _, hstop⟩ | ⟨e, he, hj, hei, hother, hself⟩
    · exact Or.inl ⟨r, hstop⟩
    · refine Or.inr ⟨e, he, ?_⟩
      by_cases hb : d.j = b
      · subst hb
        rcases hself with ⟨_, _, hidle⟩ | ⟨cl', hcl', hdef, hnew, _⟩
        · exact absurd (hidle cl hcl).2 hq
        · rw [hcl] at hcl'
          cases hcl'
          -- the deficit grows by the quantum, which is positive here
          have hquantum : 0 < cl.quantum := by
            by_contra hle
            exact hlive ⟨hdef, by omega⟩
          refine ⟨⟨_, hnew, hq, fun hst => ?_⟩, ?_⟩
          · have := hst.2
            simp at this
            omega
          · have howed : owed d.j e.sched + 1 ≤ owed d.j d.sched := by
              simp only [owed, hnew, hcl]
              omega
            have hdist : distance d.j e.j < 4 := distance_lt d.j e.j
            simp only [waiting, hi, if_true]
            split <;> omega
      · have hsame : e.sched.classes b = d.sched.classes b := hother b (Ne.symm hb)
        have howed : owed b e.sched = owed b d.sched := by simp only [owed, hsame]
        have hdist := distance_succ hb
        refine ⟨⟨cl, hsame.trans hcl, hq, hlive⟩, ?_⟩
        simp only [waiting, howed, hj, hi, if_true]
        split <;> omega
  · rw [dequeueBody_test hi]
    by_cases hdone : d.done
    · rw [if_pos hdone]
      exact Or.inl ⟨_, rfl⟩
    · refine Or.inr ⟨{ d with i := 0, done := true }, by simp [hdone], ⟨cl, hcl, hq, hlive⟩, ?_⟩
      simp [waiting, hi]

/-- Without a counted packet the first round is the last. -/
theorem terminates_of_empty {s : Sched} (h : ∀ i cl, s.classes i = some cl → cl.q.qlen = 0) :
    Terminates s := by
  refine @run_done_of_variant _ _ _
    (fun d => d.done = true ∧ ∀ i cl, d.sched.classes i = some cl → cl.q.qlen = 0)
    (fun d => TOTALQUEUES - d.i) ?_ _ ⟨rfl, h⟩
  rintro d ⟨hdone, hempty⟩
  by_cases hi : d.i < TOTALQUEUES
  · rcases dequeueBody_visit hi with ⟨_, r, _, _, _, hstop⟩ | ⟨e, he, _, hei, hother, hself⟩
    · exact Or.inl ⟨r, hstop⟩
    · have hvariant : TOTALQUEUES - e.i < TOTALQUEUES - d.i := by omega
      have hkeep : ∀ i cl, i ≠ d.j → e.sched.classes i = some cl → cl.q.qlen = 0 := by
        intro i cl hij hcl
        rw [hother i hij] at hcl
        exact hempty i cl hcl
      refine Or.inr ⟨e, he, ?_, hvariant⟩
      rcases hself with ⟨hsame, hed, _⟩ | ⟨cl₀, hcl₀, _, hnew, hed⟩
      · refine ⟨hed.trans hdone, fun i cl hcl => ?_⟩
        by_cases hij : i = d.j
        · subst hij
          exact hempty _ cl (hsame ▸ hcl)
        · exact hkeep i cl hij hcl
      · have hzero := hempty _ _ hcl₀
        refine ⟨by simp [hed, hzero, hdone], fun i cl hcl => ?_⟩
        by_cases hij : i = d.j
        · subst hij
          rw [hnew] at hcl
          cases hcl
          exact hzero
        · exact hkeep i cl hij hcl
  · rw [dequeueBody_test hi, if_pos hdone]
    exact Or.inl ⟨_, rfl⟩

/-- In a stuck state every round ends as it began: nothing is served, and
`done` is cleared by the class in slot `b` at the latest. -/
theorem running_of_stuck {s : Sched} (h : Stuck s) (n : Nat) : wrrDequeue n s = .running := by
  obtain ⟨⟨b, clb, hclb, hqlen, hstarved⟩, hall⟩ := h
  refine @run_running_of_invariant _ _ _
    (fun d =>
      (∃ cl, d.sched.classes b = some cl ∧ cl.q.qlen ≠ 0 ∧ Starved cl) ∧
      (∀ i cl, d.sched.classes i = some cl → cl.q.packets ≠ [] → Starved cl) ∧
      (d.done = false ∨ distance b d.j + d.i < TOTALQUEUES)) ?_ _
    ⟨⟨clb, hclb, hqlen, hstarved⟩, hall, Or.inr (distance_lt b s.key)⟩ n
  rintro d ⟨⟨cl, hcl, hq, hst⟩, hall, hround⟩
  by_cases hi : d.i < TOTALQUEUES
  · rcases dequeueBody_visit hi with ⟨clj, _, hclj, hdef, hne, _⟩ | ⟨e, he, hj, hei, hother, hself⟩
    · -- a class that is served has a deficit
      have hnone := (hall _ _ hclj hne).1
      omega
    · refine ⟨e, he, ?_⟩
      have hkeep : ∀ i cl, i ≠ d.j → e.sched.classes i = some cl → cl.q.packets ≠ [] →
          Starved cl := by
        intro i cl hij hcl
        rw [hother i hij] at hcl
        exact hall i cl hcl
      rcases hself with ⟨hsame, hed, hidle⟩ | ⟨clj, hclj, hdef, hnew, hed⟩
      · -- slot b is further on
        have hjb : d.j ≠ b := by
          rintro rfl
          exact Child.packets_ne_nil_of_qlen hq (hidle cl hcl).2
        have hdist := distance_succ hjb
        refine ⟨⟨cl, (hother b (Ne.symm hjb)).trans hcl, hq, hst⟩, fun i cli hcli hne => ?_, ?_⟩
        · by_cases hij : i = d.j
          · subst hij
            exact hall _ cli (hsame ▸ hcli) hne
          · exact hkeep i cli hij hcli hne
        · rw [hed, hj, hei]
          rcases hround with hdone | hlt
          · exact Or.inl hdone
          · exact Or.inr (by omega)
      · refine ⟨?_, fun i cli hcli hne => ?_, ?_⟩
        · by_cases hjb : d.j = b
          · subst hjb
            rw [hcl] at hclj
            cases hclj
            have hle := hst.1
            have hquantum := hst.2
            exact ⟨_, hnew, hq, by simp; omega, hquantum⟩
          · exact ⟨cl, (hother b (Ne.symm hjb)).trans hcl, hq, hst⟩
        · by_cases hij : i = d.j
          · subst hij
            rw [hnew] at hcli
            cases hcli
            have hquantum := (hall _ _ hclj hne).2
            exact ⟨by simp; omega, hquantum⟩
          · exact hkeep i cli hij hcli hne
        · rw [hed, hj, hei]
          by_cases hjb : d.j = b
          · subst hjb
            rw [hcl] at hclj
            cases hclj
            exact Or.inl (by simp [hq])
          · have hdist := distance_succ hjb
            rcases hround with hdone | hlt
            · exact Or.inl (by simp [hdone])
            · exact Or.inr (by omega)
  · rw [dequeueBody_test hi]
    have hdone : d.done = false := by
      rcases hround with hdone | hlt
      · exact hdone
      · omega
    rw [if_neg (by simp [hdone])]
    exact ⟨_, rfl, ⟨cl, hcl, hq, hst⟩, hall, Or.inr (distance_lt b d.j)⟩

/-- `wrr_dequeue` returns from every state that is not stuck, and only from
those. -/
theorem terminates_iff (s : Sched) : Terminates s ↔ ¬ Stuck s := by
  constructor
  · rintro ⟨n, r, hn⟩ hstuck
    rw [running_of_stuck hstuck n] at hn
    cases hn
  · intro hstuck
    by_cases hserved : ∃ b, Served b s
    · obtain ⟨b, hb⟩ := hserved
      exact terminates_of_served hb
    · -- every class with packets is starved, so a counted packet would make the state stuck
      have hall : ∀ i cl, s.classes i = some cl → cl.q.packets ≠ [] → Starved cl := by
        intro i cl hcl hne
        by_contra hlive
        exact hserved ⟨i, cl, hcl, hne, hlive⟩
      refine terminates_of_empty fun i cl hcl => ?_
      by_contra hq
      exact hstuck ⟨⟨i, cl, hcl, hq, hall i cl hcl (Child.packets_ne_nil_of_qlen hq)⟩, hall⟩

/-! ## What traffic keeps -/

/-- Traffic on a class leaves its parameters alone, and a queue without
room stays empty. -/
def SameClass (cl cl' : WrrClass) : Prop :=
  cl'.quantum = cl.quantum ∧ cl'.nfmark = cl.nfmark ∧ cl'.q.limit = cl.q.limit ∧
  (cl.q.limit = 0 → cl.q.packets = [] → cl'.q.packets = [])

/-- The two tables have the same classes. -/
def Keeps (s s' : Sched) : Prop := ∀ i, Option.Rel SameClass (s.classes i) (s'.classes i)

theorem SameClass.refl (cl : WrrClass) : SameClass cl cl := ⟨rfl, rfl, rfl, fun _ h => h⟩

theorem SameClass.trans {cl cl' cl'' : WrrClass} (h : SameClass cl cl') (h' : SameClass cl' cl'') :
    SameClass cl cl'' := by
  obtain ⟨hq, hn, hl, hp⟩ := h
  obtain ⟨hq', hn', hl', hp'⟩ := h'
  exact ⟨hq'.trans hq, hn'.trans hn, hl'.trans hl, fun h0 hnil => hp' (hl.trans h0) (hp h0 hnil)⟩

theorem Keeps.refl (s : Sched) : Keeps s s := by
  intro i
  cases s.classes i with
  | none => exact .none
  | some cl => exact .some (SameClass.refl cl)

theorem Keeps.trans {s s' s'' : Sched} (h : Keeps s s') (h' : Keeps s' s'') : Keeps s s'' := by
  intro i
  have hi := h i
  have hi' := h' i
  revert hi hi'
  generalize s.classes i = a
  generalize s'.classes i = b
  generalize s''.classes i = c
  intro hab hbc
  cases hab with
  | none => exact hbc
  | some hab =>
      cases hbc with
      | some hbc => exact .some (hab.trans hbc)

theorem keeps_setClass {s : Sched} {i : Slot} {cl cl' : WrrClass} (hcl : s.classes i = some cl)
    (h : SameClass cl cl') : Keeps s (s.setClass i (some cl')) := by
  intro k
  by_cases hk : k = i
  · subst hk
    rw [hcl, Sched.setClass_same]
    exact .some h
  · rw [Sched.setClass_ne s _ hk]
    exact Keeps.refl s k

theorem wrrClasify_some {s : Sched} {skb : Packet} {i : Slot} {cl : WrrClass}
    (h : wrrClasify skb s = some (i, cl)) : s.classes i = some cl := by
  unfold wrrClasify at h
  split at h
  · cases h
  · split at h
    · cases h
      assumption
    · cases h

theorem keeps_enqueue (skb : Packet) (s : Sched) : Keeps s (wrrEnqueue skb s).2 := by
  unfold wrrEnqueue
  split
  · exact Keeps.refl s
  · rename_i i cl hclasify
    have hcl := wrrClasify_some hclasify
    split
    · exact keeps_setClass hcl ⟨rfl, rfl, rfl, fun _ h => h⟩
    · rename_i q hq
      unfold Child.enqueue at hq
      split at hq
      · rename_i hroom
        cases hq
        refine keeps_setClass hcl ⟨rfl, rfl, rfl, fun h0 _ => ?_⟩
        omega
      · cases hq

theorem Child.dequeue_keeps {q q' : Child} {skb : Packet} (h : q.dequeue = some (skb, q')) :
    q'.limit = q.limit ∧ q.packets ≠ [] := by
  unfold Child.dequeue at h
  split at h
  · cases h
  · rename_i hp
    cases h
    simp [hp]

theorem keeps_dequeueBody {d : Deq} :
    (∀ e, dequeueBody d = .next e → Keeps d.sched e.sched) ∧
    (∀ r, dequeueBody d = .stop r → Keeps d.sched r.2) := by
  by_cases hi : d.i < TOTALQUEUES
  · cases hcl : d.sched.classes d.j with
    | none =>
        rw [dequeueBody_vacant hi hcl]
        refine ⟨fun e he => ?_, fun r hr => (by cases hr)⟩
        cases he
        exact Keeps.refl _
    | some cl =>
        by_cases hdef : cl.deficit ≤ 0
        · rw [dequeueBody_refill hi hcl hdef]
          refine ⟨fun e he => ?_, fun r hr => (by cases hr)⟩
          cases he
          exact keeps_setClass hcl ⟨rfl, rfl, rfl, fun _ h => h⟩
        · cases hq : cl.q.dequeue with
          | none =>
              rw [dequeueBody_idle hi hcl hdef (cl.q.dequeue_eq_none_iff.mp hq)]
              refine ⟨fun e he => ?_, fun r hr => (by cases hr)⟩
              cases he
              exact Keeps.refl _
          | some p =>
              obtain ⟨hlimit, hne⟩ := Child.dequeue_keeps hq
              simp only [dequeueBody, hi, hcl, hdef, hq, if_true, if_false]
              refine ⟨fun e he => (by cases he), fun r hr => ?_⟩
              cases hr
              exact keeps_setClass hcl ⟨rfl, rfl, hlimit, fun _ h => absurd h hne⟩
  · rw [dequeueBody_test hi]
    split
    · refine ⟨fun e he => (by cases he), fun r hr => ?_⟩
      cases hr
      exact Keeps.refl _
    · refine ⟨fun e he => ?_, fun r hr => (by cases hr)⟩
      cases he
      exact Keeps.refl _

theorem keeps_dequeue {s s' : Sched} {n : Nat} {r : Option Packet}
    (h : wrrDequeue n s = .done (r, s')) : Keeps s s' := by
  obtain ⟨d, hd, hstop⟩ := (reaches_of_run n _).2 _ h
  have hinv : Keeps s d.sched :=
    @Reaches.invariant _ _ _ (fun d => Keeps s d.sched) _ _ hd (Keeps.refl s)
      fun u v _ hu huv => hu.trans (keeps_dequeueBody.1 v huv)
  exact hinv.trans (keeps_dequeueBody.2 _ hstop)

theorem Child.drop_keeps (q : Child) :
    q.drop.2.limit = q.limit ∧ (q.packets = [] → q.drop.2.packets = []) := by
  unfold Child.drop
  split
  · exact ⟨rfl, fun h => h⟩
  · exact ⟨rfl, fun h => by simp [h]⟩

theorem keeps_dropFrom (is : List Slot) : ∀ s, Keeps s (dropFrom is s).2 := by
  induction is with
  | nil => exact Keeps.refl
  | cons i is ih =>
      intro s
      rw [dropFrom]
      split
      · exact ih s
      · rename_i cl hcl
        split
        · obtain ⟨hlimit, hpackets⟩ := cl.q.drop_keeps
          have hset : Keeps s (s.setClass i (some { cl with q := cl.q.drop.2 })) :=
            keeps_setClass hcl ⟨rfl, rfl, hlimit, fun _ => hpackets⟩
          dsimp only
          split
          · exact hset
          · exact hset.trans (ih _)
        · exact ih s

theorem keeps_reset (s : Sched) : Keeps s (wrrReset s) := by
  intro i
  cases hcl : s.classes i with
  | none => simp [wrrReset, hcl]
  | some cl =>
      simp only [wrrReset, hcl, Option.map_some]
      exact .some ⟨rfl, rfl, rfl, fun _ _ => rfl⟩

/-- An operation of the traffic. -/
def Op.isTraffic : Op → Bool
  | .enqueue _ | .dequeue | .drop | .reset => true
  | _ => false

/-- An operation of the traffic, or one that adds a class. -/
def Op.isUse : Op → Bool
  | .change .. => true
  | op => op.isTraffic

/-- No packet that comes or goes changes which classes there are, their quanta or their
limits. -/
theorem keeps_traffic {s s' : Sched} {op : Op} (hop : op.isTraffic = true) (h : Returns s op s') :
    Keeps s s' := by
  cases op with
  | enqueue skb =>
      rw [show s' = (wrrEnqueue skb s).2 from h]
      exact keeps_enqueue skb s
  | dequeue =>
      obtain ⟨n, r, hn⟩ := h
      exact keeps_dequeue hn
  | drop =>
      rw [show s' = (wrrDrop s).2 from h]
      exact keeps_dropFrom _ s
  | reset =>
      rw [show s' = wrrReset s from h]
      exact keeps_reset s
  | graft => cases hop
  | change => cases hop
  | delete => cases hop
  | destroy => cases hop

/-! ## Configurations -/

/-- The last state of a run. -/
def final : Sched → List (Op × Sched) → Sched
  | s, [] => s
  | _, (_, s') :: rest => final s' rest

/-- The table as `wrr_change_class` fills it. -/
def Sound (s : Sched) : Prop :=
  ∀ i cl, s.classes i = some cl →
    0 ≤ cl.quantum ∧ slotOf cl.nfmark = i ∧ (cl.q.limit = 0 → cl.q.packets = [])

/-- Every class that can hold a packet has a quantum. -/
def Fed (s : Sched) : Prop :=
  ∀ i cl, s.classes i = some cl → cl.quantum = 0 → cl.q.limit = 0

/-- A class after some traffic is the class before it. -/
theorem Keeps.class_of {s s' : Sched} (h : Keeps s s') {i : Slot} {cl' : WrrClass}
    (hcl' : s'.classes i = some cl') : ∃ cl, s.classes i = some cl ∧ SameClass cl cl' := by
  have hi := h i
  rw [hcl'] at hi
  cases hcl : s.classes i with
  | none => rw [hcl] at hi; cases hi
  | some cl =>
      rw [hcl] at hi
      cases hi with
      | some hsame => exact ⟨cl, rfl, hsame⟩

theorem sound_of_keeps {s s' : Sched} (hs : Sound s) (h : Keeps s s') : Sound s' := by
  intro i cl' hcl'
  obtain ⟨cl, hcl, hquantum, hnfmark, hlimit, hpackets⟩ := h.class_of hcl'
  obtain ⟨hpos, hslot, hempty⟩ := hs i cl hcl
  rw [hquantum, hnfmark, hlimit]
  exact ⟨hpos, hslot, fun h0 => hpackets h0 (hempty h0)⟩

theorem fed_of_keeps {s s' : Sched} (hs : Fed s) (h : Keeps s s') : Fed s' := by
  intro i cl' hcl'
  obtain ⟨cl, hcl, hquantum, _, hlimit, _⟩ := h.class_of hcl'
  rw [hquantum, hlimit]
  exact hs i cl hcl

theorem sound_init {opt : Option (Except Int (Option Int))} {s : Sched}
    (h : wrrInit opt = .ok s) : Sound s := by
  obtain ⟨_, rfl⟩ := wrrInit_ok h
  intro i cl hcl
  cases hcl

theorem sound_change {s : Sched} (hs : Sound s) (classid : UInt32)
    (opt : Option (Except Int (Option ClassOpt))) (kmallocFails : Bool) (txQueueLen : Option Nat) :
    Sound (wrrChangeClass classid opt kmallocFails txQueueLen s).2 := by
  have hnew : ((createDflt txQueueLen).getD noopQdisc).packets = [] := by
    cases txQueueLen <;> rfl
  refine wrrChangeClass_keeps classid opt kmallocFails txQueueLen hs hs
    fun copt _ _ i cl hcl => ?_
  by_cases hi : i = slotFor copt
  · subst hi
    rw [Sched.setClass_same] at hcl
    cases hcl
    exact ⟨by dsimp only [newClass]; split <;> omega, rfl, fun _ => hnew⟩
  · rw [Sched.setClass_ne _ _ hi] at hcl
    exact hs i cl hcl

theorem sound_run {s : Sched} {run : List (Op × Sched)} (hs : Sound s) (hrun : Trace s run)
    (hops : ∀ p ∈ run, p.1.isUse = true) : Sound (final s run) := by
  induction run generalizing s with
  | nil => exact hs
  | cons p rest ih =>
      obtain ⟨op, s'⟩ := p
      obtain ⟨hop, hrest⟩ := List.forall_mem_cons.mp hops
      obtain ⟨hret, htrace⟩ := hrun
      refine ih ?_ htrace hrest
      cases op with
      | change classid opt kmallocFails txQueueLen =>
          rw [show s' = (wrrChangeClass classid opt kmallocFails txQueueLen s).2 from hret]
          exact sound_change hs classid opt kmallocFails txQueueLen
      | enqueue skb => exact sound_of_keeps hs (keeps_traffic rfl hret)
      | dequeue => exact sound_of_keeps hs (keeps_traffic rfl hret)
      | drop => exact sound_of_keeps hs (keeps_traffic rfl hret)
      | reset => exact sound_of_keeps hs (keeps_traffic rfl hret)
      | graft => cases hop
      | delete => cases hop
      | destroy => cases hop

theorem keeps_run {s : Sched} {run : List (Op × Sched)} (hrun : Trace s run)
    (hops : ∀ p ∈ run, p.1.isTraffic = true) : Keeps s (final s run) := by
  induction run generalizing s with
  | nil => exact Keeps.refl s
  | cons p rest ih =>
      obtain ⟨hop, hrest⟩ := List.forall_mem_cons.mp hops
      exact (keeps_traffic hop hrun.1).trans (ih hrun.2 hrest)

/-- Where every class that can hold a packet has a quantum, no state is one that hangs. -/
theorem not_stuck_of_fed {s : Sched} (hs : Sound s) (hfed : Fed s) : ¬ Stuck s := by
  rintro ⟨⟨i, cl, hcl, hq, _, hquantum⟩, _⟩
  obtain ⟨hpos, _, hempty⟩ := hs i cl hcl
  have hzero : cl.quantum = 0 := by omega
  exact Child.packets_ne_nil_of_qlen hq (hempty (hfed i cl hcl hzero))

/-- A reset and one packet for a class of quantum 0. -/
theorem stuck_of_unfed {s : Sched} (hs : Sound s) {i : Slot} {cl : WrrClass}
    (hcl : s.classes i = some cl) (hquantum : cl.quantum = 0) (hlimit : cl.q.limit ≠ 0)
    (len : Nat) : Stuck (wrrEnqueue ⟨len, cl.nfmark⟩ (wrrReset s)).2 := by
  obtain ⟨_, hslot, _⟩ := hs i cl hcl
  have hreset : (wrrReset s).classes i =
      some { cl with q := cl.q.reset, deficit := cl.quantum } := by
    simp [wrrReset, hcl]
  have hclasify : wrrClasify ⟨len, cl.nfmark⟩ (wrrReset s) =
      some (i, { cl with q := cl.q.reset, deficit := cl.quantum }) := by
    simp [wrrClasify, hslot, hreset]
  have henqueue : cl.q.reset.enqueue ⟨len, cl.nfmark⟩ =
      some { cl.q.reset with packets := [⟨len, cl.nfmark⟩] } := by
    simp [Child.enqueue, Child.reset, Nat.pos_of_ne_zero hlimit]
  simp only [wrrEnqueue, hclasify, henqueue]
  refine ⟨⟨i, _, Sched.setClass_same _ _ _, by simp [Child.qlen], ?_⟩, fun k clk hclk hne => ?_⟩
  · exact ⟨hquantum.le, hquantum.le⟩
  · by_cases hk : k = i
    · subst hk
      rw [Sched.setClass_same] at hclk
      cases hclk
      exact ⟨hquantum.le, hquantum.le⟩
    · -- the reset left every other queue empty
      rw [Sched.setClass_ne _ _ hk] at hclk
      simp only [wrrReset, Option.map_eq_some_iff] at hclk
      obtain ⟨_, _, rfl⟩ := hclk
      exact absurd rfl hne

/-- From the state that a run of class changes and traffic has led to,
`wrr_dequeue` returns in every state that more traffic leads to iff no class
that can hold a packet has quantum 0. -/
theorem terminates_traffic_iff (opt : Option (Except Int (Option Int))) (s : Sched)
    (hinit : wrrInit opt = .ok s) (run : List (Op × Sched)) (hrun : Trace s run)
    (hops : ∀ p ∈ run, p.1.isUse = true) :
    (∀ traffic, Trace (final s run) traffic → (∀ p ∈ traffic, p.1.isTraffic = true) →
      Terminates (final (final s run) traffic)) ↔
    ∀ i cl, (final s run).classes i = some cl → cl.quantum = 0 → cl.q.limit = 0 := by
  have hsound : Sound (final s run) := sound_run (sound_init hinit) hrun hops
  constructor
  · intro hall i cl hcl hquantum
    by_contra hlimit
    have hstuck := stuck_of_unfed hsound hcl hquantum hlimit 0
    have hterm := hall [(.reset, wrrReset (final s run)), (.enqueue ⟨0, cl.nfmark⟩, _)]
      ⟨rfl, rfl, trivial⟩ (by simp [Op.isTraffic])
    exact (terminates_iff _).mp hterm hstuck
  · intro hfed traffic htraffic htops
    have hkeeps := keeps_run htraffic htops
    exact (terminates_iff _).mpr
      (not_stuck_of_fed (sound_of_keeps hsound hkeeps) (fed_of_keeps hfed hkeeps))

/-! ## A class of quantum 0 -/

/-- A request for a class with mark 0 and quantum 0. -/
def addUnfedClass : Op := .change 0x20011 (some (.ok (some ⟨0, 0⟩))) false (some 10)

def withUnfedClass : Sched :=
  (wrrChangeClass 0x20011 (some (.ok (some ⟨0, 0⟩))) false (some 10) freshSched).2

def withUnfedPacket : Sched := (wrrEnqueue ⟨100, 0⟩ withUnfedClass).2

/-- With one class of quantum 1500 every call returns. -/
theorem terminates_traffic_withClass :
    wrrInit none = .ok freshSched ∧ Trace freshSched [(addClass, withClass)] ∧
    ∀ traffic, Trace withClass traffic → (∀ p ∈ traffic, p.1.isTraffic = true) →
      Terminates (final withClass traffic) := by
  have hrun : Trace freshSched [(addClass, withClass)] := ⟨rfl, trivial⟩
  have hother : ∀ i, i ≠ 0 → withClass.classes i = none := by decide
  refine ⟨rfl, hrun, ?_⟩
  refine (terminates_traffic_iff none freshSched rfl [(addClass, withClass)] hrun
    (by simp [addClass, Op.isUse])).mpr fun i cl hcl hquantum => ?_
  by_cases hi : i = 0
  · subst hi
    cases hcl
    cases hquantum
  · rw [show (final freshSched [(addClass, withClass)]).classes i = none from hother i hi] at hcl
    cases hcl

/-- `wrr_change_class` accepts the class, `wrr_enqueue` the packet, and
`wrr_dequeue` does not return, whatever number of passes it is given. -/
theorem dequeue_endless_withUnfedPacket :
    wrrInit none = .ok freshSched ∧
    Trace freshSched [(addUnfedClass, withUnfedClass), (.enqueue ⟨100, 0⟩, withUnfedPacket)] ∧
    (wrrChangeClass 0x20011 (some (.ok (some ⟨0, 0⟩))) false (some 10) freshSched).1 = 0 ∧
    (∀ n, wrrDequeue n withUnfedPacket = .running) ∧ ¬ Terminates withUnfedPacket := by
  have hother : ∀ i, i ≠ 0 → withUnfedPacket.classes i = none := by decide
  have hstuck : Stuck withUnfedPacket := by
    refine ⟨⟨0, _, rfl, by decide, by decide, by decide⟩, fun i cl hcl _ => ?_⟩
    by_cases hi : i = 0
    · subst hi
      cases hcl
      exact ⟨by decide, by decide⟩
    · rw [hother i hi] at hcl
      cases hcl
  refine ⟨rfl, ⟨rfl, rfl, trivial⟩, rfl, running_of_stuck hstuck, fun hterm => ?_⟩
  exact (terminates_iff _).mp hterm hstuck

end UbntSdk.Wrr
