/-
UbntSdk.Wrr.ShareTheorems — the bandwidth is distributed among the classes
proportionally to their quanta (`target/linux/ubnt/files/net/sched/wrr.c`).

Each time the rotation leaves a class that has packets, the class has either
just used up its deficit or just been refilled, so it is refilled on every
second round. `phase` turns that into a quantity that grows at the same rate
for all classes with packets: eight for each refill, less four while there is
a deficit, less the distance of the rotation from the slot. So classes that
stay backlogged are refilled equally often, up to one (`wrr_shares`).

A request to `wrr_change_class` sets the rotation back to slot 0, which may
cost one more refill each time.
-/
import UbntSdk.Wrr.TrafficTheorems
import Mathlib.Algebra.Order.Field.Rat
import Mathlib.Tactic.FieldSimp
import Mathlib.Tactic.Positivity

namespace UbntSdk.Wrr

open UbntSdk.Lib

/-! ## Courses of calls -/

/-- The bytes that a call of `wrr_dequeue` took from the class in slot `i`. -/
def servedTo (i : Slot) (s : Sched) (r : Option Packet) (s' : Sched) : Nat :=
  match r with
  | none => 0
  | some skb => if slotPackets s i = skb :: slotPackets s' i then skb.len else 0

/-- The classes in the slots `B` have packets, none larger than the quantum. -/
def Backlogged (B : Finset Slot) (s : Sched) : Prop :=
  ∀ i ∈ B, ∃ cl, s.classes i = some cl ∧ cl.q.qlen ≠ 0 ∧
    ∀ skb ∈ cl.q.packets, (skb.len : Int) ≤ cl.quantum

/-- The request is for classes or their queues, and does not empty the qdisc. -/
def Op.isRequest : Op → Bool
  | .drop | .graft .. | .change .. | .delete _ => true
  | _ => false

/-- The classes in the slots `B` are still there, with their deficits. -/
def Spares (B : Finset Slot) (s s' : Sched) : Prop :=
  ∀ i ∈ B, ∀ cl, s.classes i = some cl →
    ∃ cl', s'.classes i = some cl' ∧ cl'.quantum = cl.quantum ∧ cl'.deficit = cl.deficit

/-- A packet comes, a packet is asked for, or a request is made. -/
inductive Move where
  | enqueue (skb : Packet)
  | dequeue (r : Option Packet)
  | request (op : Op)

/-- A course of moves with the states they lead to, in which the classes in the
slots `B` are backlogged whenever a packet is asked for. All other classes may
come and go, with their packets and without. -/
def Course (B : Finset Slot) : Sched → List (Move × Sched) → Prop
  | _, [] => True
  | s, (.enqueue skb, s') :: rest => s' = (wrrEnqueue skb s).2 ∧ Course B s' rest
  | s, (.dequeue r, s') :: rest =>
      Backlogged B s ∧ (∃ n, wrrDequeue n s = .done (r, s')) ∧ Course B s' rest
  | s, (.request op, s') :: rest =>
      op.isRequest = true ∧ Returns s op s' ∧ Spares B s s' ∧ Course B s' rest

/-- The bytes that the course takes from the class in slot `i`. -/
def bytesServed (i : Slot) : Sched → List (Move × Sched) → Nat
  | _, [] => 0
  | s, (.dequeue r, s') :: rest => servedTo i s r s' + bytesServed i s' rest
  | _, (.enqueue _, s') :: rest => bytesServed i s' rest
  | _, (.request _, s') :: rest => bytesServed i s' rest

/-- The number of requests to `wrr_change_class`. -/
def classChanges : List (Move × Sched) → Nat
  | [] => 0
  | (.request (.change ..), _) :: rest => classChanges rest + 1
  | _ :: rest => classChanges rest

/-- The deficits in the slots `B` are what packets no larger than the quanta
leave of them. -/
def Steady (B : Finset Slot) (s : Sched) : Prop :=
  ∀ i ∈ B, ∃ cl, s.classes i = some cl ∧ 0 < cl.quantum ∧ -cl.quantum < cl.deficit ∧
    cl.deficit ≤ cl.quantum

/-! ## The phase of a class -/

/-- How far the class in slot `i` is between two refills. -/
def phase (i : Slot) (s : Sched) : Int :=
  match s.classes i with
  | none => 0
  | some cl => -(if 0 < cl.deficit then 4 else 0) - distance i s.key

theorem phase_bounds (i : Slot) (s : Sched) : -7 ≤ phase i s ∧ phase i s ≤ 0 := by
  have hdist : distance i s.key < 4 := distance_lt i s.key
  unfold phase
  cases s.classes i with
  | none => simp
  | some cl =>
      dsimp only
      split <;> omega

/-- From `s` to `s'` the class in slot `i` of `B` was served `bytes i` and
refilled `n i` times, which brought it `total` further, up to `3 * k`. -/
def Advanced (B : Finset Slot) (s s' : Sched) (bytes n : Slot → Nat) (total : Int) (k : Nat) : Prop :=
  ∀ i ∈ B, ∀ cl, s.classes i = some cl → ∃ cl', s'.classes i = some cl' ∧
    cl'.quantum = cl.quantum ∧ cl'.deficit = cl.deficit + n i * cl.quantum - bytes i ∧
    |8 * (n i : Int) + phase i s' - phase i s - total| ≤ 3 * k

theorem Advanced.trans {B : Finset Slot} {s s' s'' : Sched} {bytes bytes' n n' : Slot → Nat}
    {total total' : Int} {k k' : Nat} (h : Advanced B s s' bytes n total k)
    (h' : Advanced B s' s'' bytes' n' total' k') :
    Advanced B s s'' (fun i => bytes i + bytes' i) (fun i => n i + n' i) (total + total') (k + k') := by
  intro i hi cl hcl
  obtain ⟨cl', hcl', hquantum, hdeficit, hphase⟩ := h i hi cl hcl
  obtain ⟨cl'', hcl'', hquantum', hdeficit', hphase'⟩ := h' i hi cl' hcl'
  refine ⟨cl'', hcl'', hquantum'.trans hquantum, ?_, ?_⟩
  · rw [hdeficit', hdeficit, hquantum]
    push_cast
    ring
  · rw [abs_le] at hphase hphase' ⊢
    push_cast
    omega

/-- A move that leaves the deficits alone, and the rotation but for a change. -/
theorem advanced_of_spares {B : Finset Slot} {s s' : Sched} {k : Nat} (h : Spares B s s')
    (hkey : s'.key = s.key ∨ k = 1) : Advanced B s s' (fun _ => 0) (fun _ => 0) 0 k := by
  intro i hi cl hcl
  obtain ⟨cl', hcl', hquantum, hdeficit⟩ := h i hi cl hcl
  refine ⟨cl', hcl', hquantum, by simp [hdeficit], ?_⟩
  have hdist : distance i s.key < 4 := distance_lt i s.key
  have hdist' : distance i s'.key < 4 := distance_lt i s'.key
  simp only [phase, hcl, hcl', hdeficit]
  rw [abs_le]
  rcases hkey with hkey | rfl
  · rw [hkey]
    constructor <;> push_cast <;> omega
  · constructor <;> push_cast <;> omega

theorem steady_of_spares {B : Finset Slot} {s s' : Sched} (hs : Steady B s) (h : Spares B s s') :
    Steady B s' := by
  intro i hi
  obtain ⟨cl, hcl, hpos, hlow, hhigh⟩ := hs i hi
  obtain ⟨cl', hcl', hquantum, hdeficit⟩ := h i hi cl hcl
  refine ⟨cl', hcl', ?_⟩
  rw [hquantum, hdeficit]
  exact ⟨hpos, hlow, hhigh⟩

/-! ## One call of `wrr_dequeue` -/

/-- A steady class is refilled at most once, and only without a deficit. -/
theorem refills_le_one {q deficit : Int} {n : Nat} (hlow : -q < deficit)
    (hneeded : n ≠ 0 → deficit + n * q ≤ q) (hq : 0 < q) : n = 0 ∨ (n = 1 ∧ deficit ≤ 0) := by
  match n with
  | 0 => exact Or.inl rfl
  | 1 =>
      have h := hneeded (by decide)
      exact Or.inr ⟨rfl, by push_cast at h; linarith⟩
  | n + 2 =>
      have h := hneeded (by omega)
      have hmul : 0 ≤ (n : Int) * q := by positivity
      push_cast at h
      linarith

section Taken

variable {s s' : Sched} {n : Slot → Nat} {m : Nat} {j : Slot} {cl clj : WrrClass} {skb : Packet}
  {rest : List Packet}

theorem Taken.slotPackets (h : Taken s n m j clj skb rest s') (i : Slot) :
    Wrr.slotPackets s' i = if i = j then rest else Wrr.slotPackets s i := by
  rw [slotPackets_setClass h.classes, slotPackets_refilled]

theorem Taken.servedTo (h : Taken s n m j clj skb rest s') (i : Slot) :
    Wrr.servedTo i s (some skb) s' = if i = j then skb.len else 0 := by
  rw [Wrr.servedTo, h.slotPackets]
  by_cases hi : i = j
  · subst hi
    simp [Wrr.slotPackets, h.found, h.packets]
  · simp [hi]

theorem slot_succ_ne (j : Slot) : j + 1 ≠ j := by
  revert j
  decide

/-- A class that is not served is refilled when the rotation passes it. -/
theorem Taken.moves_other (h : Taken s n m j clj skb rest s') {i : Slot} (hij : i ≠ j)
    (hcl : s.classes i = some cl) (hq : cl.q.packets ≠ []) (hpos : 0 < cl.quantum)
    (hlow : -cl.quantum < cl.deficit) :
    s'.classes i = some { cl with deficit := cl.deficit + n i * cl.quantum } ∧
      8 * (n i : Int) + phase i s' - phase i s = m + if s'.key = j then 0 else 1 := by
  have hcl' : s'.classes i = some { cl with deficit := cl.deficit + n i * cl.quantum } := by
    rw [h.classes, Sched.setClass_ne _ _ hij]
    simp [refilled, hcl]
  have hmoves := h.moves i cl hcl hq
  have hdist := distance_succ (Ne.symm hij)
  have hkey : s'.key = j + 1 ∨ s'.key = j := by
    rw [h.key]
    split
    · exact Or.inl rfl
    · exact Or.inr rfl
  refine ⟨hcl', ?_⟩
  simp only [phase, hcl, hcl']
  rcases refills_le_one hlow (h.needed i cl hcl) hpos with hn | ⟨hn, hdef⟩
  · rcases hkey with hkey | hkey
    · simp only [hn, hkey, slot_succ_ne, if_false] at hmoves ⊢
      push_cast
      omega
    · simp only [hn, hkey, if_true] at hmoves ⊢
      push_cast
      omega
  · have hclosed : ¬ 0 < cl.deficit := by omega
    have hopen : 0 < cl.deficit + cl.quantum := by omega
    rcases hkey with hkey | hkey
    · simp only [hn, hkey, slot_succ_ne, hclosed, if_false, Nat.cast_one, one_mul, hopen,
        if_true] at hmoves ⊢
      omega
    · simp only [hn, hkey, hclosed, if_false, Nat.cast_one, one_mul, hopen, if_true] at hmoves ⊢
      omega

/-- The class that is served has a deficit then, and the rotation leaves it
when it has none. -/
theorem Taken.moves_self (h : Taken s n m j clj skb rest s') (hpos : 0 < clj.quantum)
    (hlow : -clj.quantum < clj.deficit) :
    s'.classes j = some { clj with
        q := { clj.q with packets := rest }
        deficit := clj.deficit + n j * clj.quantum - skb.len } ∧
      8 * (n j : Int) + phase j s' - phase j s = m + if s'.key = j then 0 else 1 := by
  have hcl' : s'.classes j = some { clj with
      q := { clj.q with packets := rest }
      deficit := clj.deficit + n j * clj.quantum - skb.len } := by
    rw [h.classes, Sched.setClass_same]
  have hmoves := h.moves j clj h.found (by simp [h.packets])
  have hcredit := h.credit
  have hkey := h.key
  rw [distance_self] at hmoves
  refine ⟨hcl', ?_⟩
  simp only [phase, h.found, hcl']
  by_cases hleft : clj.deficit + n j * clj.quantum - skb.len ≤ 0
  · rw [if_pos hleft] at hkey
    have hclosed : ¬ 0 < clj.deficit + n j * clj.quantum - skb.len := by omega
    simp only [hkey, hclosed, slot_succ_ne, if_false, distance_self_succ]
    rcases refills_le_one hlow (h.needed j clj h.found) hpos with hn | ⟨hn, hdef⟩
    · have hopen : 0 < clj.deficit := by simpa [hn] using hcredit
      simp only [hn, hopen, if_true] at hmoves ⊢
      push_cast
      omega
    · have hclosed : ¬ 0 < clj.deficit := by omega
      simp only [hn, hclosed, if_false] at hmoves ⊢
      push_cast
      omega
  · rw [if_neg hleft] at hkey
    have hopen : 0 < clj.deficit + n j * clj.quantum - skb.len := by omega
    simp only [hkey, hopen, if_true, distance_self]
    rcases refills_le_one hlow (h.needed j clj h.found) hpos with hn | ⟨hn, hdef⟩
    · have hopen' : 0 < clj.deficit := by simpa [hn] using hcredit
      simp only [hn, hopen', if_true] at hmoves ⊢
      push_cast
      omega
    · have hclosed : ¬ 0 < clj.deficit := by omega
      simp only [hn, hclosed, if_false] at hmoves ⊢
      push_cast
      omega

end Taken

/-- A call brings all backlogged classes equally far. -/
theorem dequeue_advances {B : Finset Slot} {s s' : Sched} {k : Nat} {r : Option Packet}
    (hs : Steady B s) (hB : Backlogged B s) (h : wrrDequeue k s = .done (r, s')) (hne : B.Nonempty) :
    Steady B s' ∧ ∃ n total, Advanced B s s' (fun i => servedTo i s r s') n total 0 := by
  obtain ⟨n, ⟨rfl, rfl, hempty⟩ | ⟨m, j, clj, skb, rest, rfl, ht⟩⟩ := dequeue_cases h
  · -- a backlogged class would have been found
    obtain ⟨i, hi⟩ := hne
    obtain ⟨cl, hcl, hq, -⟩ := hB i hi
    exact absurd (hempty i cl hcl) hq
  · have hmove : ∀ i ∈ B, ∀ cl, s.classes i = some cl → ∃ cl', s'.classes i = some cl' ∧
        cl'.quantum = cl.quantum ∧
        cl'.deficit = cl.deficit + n i * cl.quantum - servedTo i s (some skb) s' ∧
        8 * (n i : Int) + phase i s' - phase i s = m + (if s'.key = j then 0 else 1) ∧
        0 < cl.quantum ∧ -cl.quantum < cl'.deficit ∧ cl'.deficit ≤ cl.quantum := by
      intro i hi cl hcl
      obtain ⟨cl₀, hcl₀, hqlen, hlens⟩ := hB i hi
      rw [hcl] at hcl₀
      cases hcl₀
      obtain ⟨cl₀, hcl₀, hpos, hlow, hhigh⟩ := hs i hi
      rw [hcl] at hcl₀
      cases hcl₀
      have hrefills := refills_le_one hlow (ht.needed i cl hcl) hpos
      have hserved := ht.servedTo i
      by_cases hij : i = j
      · subst hij
        have hfound := ht.found
        rw [hcl] at hfound
        cases hfound
        rw [if_pos rfl] at hserved
        obtain ⟨hcl', hphase⟩ := ht.moves_self hpos hlow
        have hlen := hlens skb (by simp [ht.packets])
        have hcredit := ht.credit
        refine ⟨_, hcl', rfl, by rw [hserved], hphase, hpos, ?_, ?_⟩
        · dsimp only
          omega
        · dsimp only
          rcases hrefills with hn | ⟨hn, hdef⟩ <;> rw [hn] <;> push_cast <;> linarith
      · rw [if_neg hij] at hserved
        obtain ⟨hcl', hphase⟩ := ht.moves_other hij hcl (Child.packets_ne_nil_of_qlen hqlen) hpos hlow
        refine ⟨_, hcl', rfl, by simp [hserved], hphase, hpos, ?_, ?_⟩
        · dsimp only
          rcases hrefills with hn | ⟨hn, hdef⟩ <;> rw [hn] <;> push_cast <;> linarith
        · dsimp only
          rcases hrefills with hn | ⟨hn, hdef⟩ <;> rw [hn] <;> push_cast <;> linarith
    refine ⟨fun i hi => ?_, n, m + (if s'.key = j then 0 else 1), fun i hi cl hcl => ?_⟩
    · obtain ⟨cl, hcl, -⟩ := hs i hi
      obtain ⟨cl', hcl', hquantum, -, -, hpos, hlow, hhigh⟩ := hmove i hi cl hcl
      exact ⟨cl', hcl', by rwa [hquantum], by rwa [hquantum], by rwa [hquantum]⟩
    · obtain ⟨cl', hcl', hquantum, hdeficit, hphase, -⟩ := hmove i hi cl hcl
      exact ⟨cl', hcl', hquantum, hdeficit, by rw [hphase]; simp⟩

/-! ## The other moves -/

theorem enqueue_spares (B : Finset Slot) (skb : Packet) (s : Sched) :
    Spares B s (wrrEnqueue skb s).2 ∧ (wrrEnqueue skb s).2.key = s.key := by
  have hset {i : Slot} {cl cl' : WrrClass} (hcl : s.classes i = some cl)
      (hquantum : cl'.quantum = cl.quantum) (hdeficit : cl'.deficit = cl.deficit) :
      Spares B s (s.setClass i (some cl')) := by
    intro k _ cl₀ hcl₀
    by_cases hk : k = i
    · subst hk
      rw [hcl] at hcl₀
      cases hcl₀
      exact ⟨cl', Sched.setClass_same .., hquantum, hdeficit⟩
    · exact ⟨cl₀, by rw [Sched.setClass_ne _ _ hk, hcl₀], rfl, rfl⟩
  unfold wrrEnqueue
  split
  · exact ⟨fun i _ cl hcl => ⟨cl, hcl, rfl, rfl⟩, rfl⟩
  · rename_i i cl hclasify
    have hcl := wrrClasify_some hclasify
    split
    · exact ⟨hset hcl rfl rfl, rfl⟩
    · exact ⟨hset hcl rfl rfl, rfl⟩

theorem dropFrom_key (is : List Slot) : ∀ s, (dropFrom is s).2.key = s.key := by
  induction is with
  | nil => intro s; rfl
  | cons i is ih =>
      intro s
      rw [dropFrom]
      split
      · exact ih s
      · split
        · dsimp only
          split
          · rfl
          · rw [ih]
            rfl
        · exact ih s

/-- Only `wrr_change_class` moves the rotation. -/
theorem request_key {s s' : Sched} {op : Op} (hop : op.isRequest = true) (h : Returns s op s') :
    s'.key = s.key ∨ ∀ rest, classChanges ((.request op, s') :: rest) = classChanges rest + 1 := by
  cases op with
  | enqueue | dequeue | reset | destroy => cases hop
  | change => exact Or.inr fun rest => rfl
  | drop =>
      left
      rw [show s' = (wrrDrop s).2 from h]
      exact dropFrom_key _ s
  | graft classid new txQueueLen =>
      left
      rw [show s' = (wrrGraft classid new txQueueLen s).2 from h, wrrGraft]
      split
      · rfl
      · split
        · rfl
        · split <;> rfl
  | delete classid =>
      left
      rw [show s' = (wrrDelete classid s).2 from h, wrrDelete]
      split <;> rfl

theorem classChanges_request_le {op : Op} {s' : Sched} (rest : List (Move × Sched)) :
    classChanges rest ≤ classChanges ((.request op, s') :: rest) := by
  cases op <;> simp [classChanges]

/-! ## Whole courses -/

theorem Advanced.mono {B : Finset Slot} {s s' : Sched} {bytes n : Slot → Nat} {total : Int}
    {k k' : Nat} (h : Advanced B s s' bytes n total k) (hk : k ≤ k') :
    Advanced B s s' bytes n total k' := by
  intro i hi cl hcl
  obtain ⟨cl', hcl', hquantum, hdeficit, hphase⟩ := h i hi cl hcl
  exact ⟨cl', hcl', hquantum, hdeficit, hphase.trans (by omega)⟩

/-- A course brings all classes that stay backlogged equally far, and leaves
their deficits steady. -/
theorem course_advances {B : Finset Slot} {course : List (Move × Sched)} {s : Sched} (hs : Steady B s)
    (h : Course B s course) (hne : B.Nonempty) : ∃ s' n total, Steady B s' ∧
      Advanced B s s' (fun i => bytesServed i s course) n total (classChanges course) := by
  induction course generalizing s with
  | nil =>
      refine ⟨s, fun _ => 0, 0, hs, fun i hi cl hcl => ⟨cl, hcl, rfl, ?_, ?_⟩⟩
      · simp [bytesServed]
      · simp
  | cons p rest ih =>
      obtain ⟨move, s'⟩ := p
      cases move with
      | enqueue skb =>
          obtain ⟨rfl, hrest⟩ := h
          obtain ⟨hspares, hkey⟩ := enqueue_spares B skb s
          obtain ⟨s'', n, total, hs'', hadv⟩ := ih (steady_of_spares hs hspares) hrest
          refine ⟨s'', n, total, hs'', ?_⟩
          have hall := (@advanced_of_spares B s _ 0 hspares (Or.inl hkey)).trans hadv
          simpa [bytesServed, classChanges] using hall
      | dequeue r =>
          obtain ⟨hB, ⟨k, hk⟩, hrest⟩ := h
          obtain ⟨hs', n, total, hadv⟩ := dequeue_advances hs hB hk hne
          obtain ⟨s'', n', total', hs'', hadv'⟩ := ih hs' hrest
          refine ⟨s'', fun i => n i + n' i, total + total', hs'', ?_⟩
          have hall := hadv.trans hadv'
          simpa [bytesServed, classChanges] using hall
      | request op =>
          obtain ⟨hop, hret, hspares, hrest⟩ := h
          obtain ⟨s'', n, total, hs'', hadv⟩ := ih (steady_of_spares hs hspares) hrest
          refine ⟨s'', n, total, hs'', ?_⟩
          rcases request_key hop hret with hkey | hchange
          · have hall := (@advanced_of_spares B s s' 0 hspares (Or.inl hkey)).trans hadv
            have hle := @classChanges_request_le op s' rest
            rw [Nat.zero_add] at hall
            simpa [bytesServed] using hall.mono hle
          · have hall := (@advanced_of_spares B s s' 1 hspares (Or.inr rfl)).trans hadv
            rw [hchange, Nat.add_comm (classChanges rest)]
            simpa [bytesServed] using hall

/-- The share of a class, from the number of its refills. -/
theorem share_bounds {q d d' : Int} {n bytes : Nat} (hq : 0 < q) (hd : -q < d ∧ d ≤ q)
    (hd' : -q < d' ∧ d' ≤ q) (h : d' = d + n * q - bytes) :
    |(bytes : ℚ) / q - n| < 2 := by
  have hpos : (0 : ℚ) < q := by exact_mod_cast hq
  have hbytes : (bytes : ℚ) = (n * q + (d - d') : Int) := by
    have hint : (bytes : Int) = n * q + (d - d') := by rw [h]; ring
    exact_mod_cast hint
  have hshare : (bytes : ℚ) / q - n = ((d - d' : Int) : ℚ) / q := by
    rw [hbytes]
    push_cast
    field_simp
    ring
  rw [hshare, abs_lt, lt_div_iff₀ hpos, div_lt_iff₀ hpos]
  constructor
  · have hlow : -2 * q < d - d' := by linarith [hd.1, hd'.2]
    exact_mod_cast hlow
  · have hhigh : d - d' < 2 * q := by linarith [hd.2, hd'.1]
    exact_mod_cast hhigh

/-- Two classes that stay backlogged get bytes in proportion to their quanta:
over a course of any length, the difference of their shares is at most 5, and
one more for each request to change a class. -/
theorem wrr_shares (B : Finset Slot) (s : Sched) (course : List (Move × Sched)) (hs : Steady B s)
    (h : Course B s course) (a b : Slot) (ha : a ∈ B) (hb : b ∈ B) (cla clb : WrrClass)
    (hcla : s.classes a = some cla) (hclb : s.classes b = some clb) :
    |(bytesServed a s course : ℚ) / cla.quantum - (bytesServed b s course : ℚ) / clb.quantum| ≤
      5 + classChanges course := by
  obtain ⟨s', n, total, hs', hadv⟩ := course_advances hs h ⟨a, ha⟩
  have hshare : ∀ i ∈ B, ∀ cl, s.classes i = some cl →
      |(bytesServed i s course : ℚ) / cl.quantum - n i| < 2 ∧
        |8 * (n i : Int) + phase i s' - phase i s - total| ≤ 3 * classChanges course := by
    intro i hi cl hcl
    obtain ⟨cl₀, hcl₀, hpos, hd⟩ := hs i hi
    rw [hcl] at hcl₀
    cases hcl₀
    obtain ⟨cl', hcl', hquantum, hdeficit, hphase⟩ := hadv i hi cl hcl
    obtain ⟨cl₀, hcl₀, -, hd'⟩ := hs' i hi
    rw [hcl'] at hcl₀
    cases hcl₀
    rw [hquantum] at hd'
    exact ⟨share_bounds hpos hd hd' hdeficit, hphase⟩
  obtain ⟨hsa, hpa⟩ := hshare a ha cla hcla
  obtain ⟨hsb, hpb⟩ := hshare b hb clb hclb
  have hrefills : |(n a : Int) - n b| ≤ 1 + classChanges course := by
    have hbounds := phase_bounds a s
    have hbounds' := phase_bounds a s'
    have hboundsb := phase_bounds b s
    have hboundsb' := phase_bounds b s'
    rw [abs_le] at hpa hpb ⊢
    omega
  have hrefills' : |(n a : ℚ) - n b| ≤ 1 + classChanges course := by exact_mod_cast hrefills
  rw [abs_lt] at hsa hsb
  rw [abs_le] at hrefills' ⊢
  constructor <;> linarith [hsa.1, hsa.2, hsb.1, hsb.2, hrefills'.1, hrefills'.2]

/-- A second class, with mark 1 and twice the quantum. -/
def withClasses : Sched :=
  (wrrChangeClass 0x20012 (some (.ok (some ⟨3000, 1⟩))) false (some 10) withClass).2

/-- Both classes with a packet, and one for a third. -/
def withPackets : Sched :=
  (wrrEnqueue ⟨60, 2⟩ (wrrEnqueue ⟨200, 1⟩ (wrrEnqueue ⟨100, 0⟩ withClasses).2).2).2

def afterFirst : Sched :=
  match wrrDequeue 1 withPackets with
  | .done (_, s) => s
  | _ => withPackets

/-- The first packet, and a request for a class that is not there. -/
def firstMoves : List (Move × Sched) :=
  [(.dequeue (some ⟨100, 0⟩), afterFirst), (.request (.delete 0x20013), afterFirst)]

theorem wrr_shares_withClasses :
    Steady {0, 1} withPackets ∧ Course {0, 1} withPackets firstMoves ∧
    ∃ cl cl', withPackets.classes 0 = some cl ∧ withPackets.classes 1 = some cl' ∧
      |(bytesServed 0 withPackets firstMoves : ℚ) / cl.quantum -
        (bytesServed 1 withPackets firstMoves : ℚ) / cl'.quantum| ≤ 5 + classChanges firstMoves := by
  have hclasses : ∃ cl cl', withPackets.classes 0 = some cl ∧ withPackets.classes 1 = some cl' ∧
      (0 < cl.quantum ∧ -cl.quantum < cl.deficit ∧ cl.deficit ≤ cl.quantum) ∧
      (0 < cl'.quantum ∧ -cl'.quantum < cl'.deficit ∧ cl'.deficit ≤ cl'.quantum) ∧
      (cl.q.qlen ≠ 0 ∧ ∀ skb ∈ cl.q.packets, (skb.len : Int) ≤ cl.quantum) ∧
      cl'.q.qlen ≠ 0 ∧ ∀ skb ∈ cl'.q.packets, (skb.len : Int) ≤ cl'.quantum :=
    ⟨_, _, rfl, rfl, by decide, by decide, by decide, by decide⟩
  obtain ⟨cl, cl', hcl, hcl', hsteady, hsteady', hbacklog, hbacklog'⟩ := hclasses
  have hs : Steady {0, 1} withPackets := by
    intro i hi
    rcases Finset.mem_insert.mp hi with rfl | hi
    · exact ⟨cl, hcl, hsteady⟩
    · rw [Finset.mem_singleton.mp hi]
      exact ⟨cl', hcl', hsteady'⟩
  have hB : Backlogged {0, 1} withPackets := by
    intro i hi
    rcases Finset.mem_insert.mp hi with rfl | hi
    · exact ⟨cl, hcl, hbacklog⟩
    · rw [Finset.mem_singleton.mp hi]
      exact ⟨cl', hcl', hbacklog'⟩
  have hdequeue : wrrDequeue 1 withPackets = .done (some ⟨100, 0⟩, afterFirst) := rfl
  have hdelete : Returns afterFirst (.delete 0x20013) afterFirst := by
    rw [Returns, wrrDelete, show wrrFind 0x20013 afterFirst = none by decide]
  have hcourse : Course {0, 1} withPackets firstMoves :=
    ⟨hB, ⟨1, hdequeue⟩, rfl, hdelete, fun i _ cl hcl => ⟨cl, hcl, rfl, rfl⟩, trivial⟩
  exact ⟨hs, hcourse, cl, cl', hcl, hcl',
    wrr_shares {0, 1} withPackets firstMoves hs hcourse 0 1 (by decide) (by decide) cl cl' hcl hcl'⟩

end UbntSdk.Wrr
