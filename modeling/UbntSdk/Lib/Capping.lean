/-
UbntSdk.Lib.Capping — values that are capped along links, one link after the
other.

A link has a parent and a child, and a child whose value is above its parent's
is given that value. The pass over the links compares with `less`, which need
not be the order of the values, `num`. A pass `Settles` if no child is above
its parent at the end, no child is changed that was not above, and a second
pass changes nothing.

`orderly_iff`: where no two links have the same child, a pass settles exactly if
every step is in order (`StepOk`): it compares as the values do, and what it
changes was to be changed and breaks no earlier link. An orderly pass settles in
any case (`Orderly.settles`).

Nothing in this module names a program.
-/
import Mathlib.Algebra.Order.Ring.Int
import Mathlib.Data.List.Induction
import Mathlib.Data.List.Nodup
import Mathlib.Logic.Function.Basic
import Mathlib.Order.Basic

namespace UbntSdk.Lib.Capping

/-- A child that is not to be above its parent. -/
structure Link (ι : Type*) where
  parent : ι
  child : ι

/-- A child is not changed by the steps at other links. -/
theorem child_of_split {ι : Type*} {links : List (Link ι)}
    (hnodup : (links.map Link.child).Nodup) {done todo : List (Link ι)} {l : Link ι}
    (hlinks : links = done ++ l :: todo) :
    l.child ∉ done.map Link.child ∧ l.child ∉ todo.map Link.child := by
  rw [hlinks, List.map_append, List.map_cons, List.nodup_append] at hnodup
  obtain ⟨-, htodo, hdisjoint⟩ := hnodup
  exact ⟨fun hmem => hdisjoint _ hmem _ List.mem_cons_self rfl, (List.nodup_cons.mp htodo).1⟩

section Pass

variable {ι V : Type*} [DecidableEq ι] (less : V → V → Bool)

/-- One step. -/
def cap (m : ι → V) (l : Link ι) : ι → V :=
  if less (m l.parent) (m l.child) then Function.update m l.child (m l.parent) else m

/-- A pass over the links. -/
def capAll (m : ι → V) (links : List (Link ι)) : ι → V := links.foldl (cap less) m

@[simp] theorem capAll_nil (m : ι → V) : capAll less m [] = m := rfl

theorem capAll_append (m : ι → V) (links links' : List (Link ι)) :
    capAll less m (links ++ links') = capAll less (capAll less m links) links' :=
  List.foldl_append

theorem capAll_cons (m : ι → V) (l : Link ι) (links : List (Link ι)) :
    capAll less m (l :: links) = capAll less (cap less m l) links := rfl

theorem cap_of_ne {m : ι → V} {l : Link ι} {x : ι} (h : x ≠ l.child) : cap less m l x = m x := by
  unfold cap
  split
  · exact Function.update_of_ne h _ _
  · rfl

/-- What is no child is not changed. -/
theorem capAll_of_not_mem {m : ι → V} {links : List (Link ι)} {x : ι}
    (h : x ∉ links.map Link.child) : capAll less m links x = m x := by
  induction links generalizing m with
  | nil => rfl
  | cons l links ih =>
      rw [List.map_cons, List.mem_cons, not_or] at h
      rw [capAll_cons, ih h.2, cap_of_ne less h.1]

/-- A pass that finds nothing to change. -/
theorem capAll_eq_self {m : ι → V} {links : List (Link ι)}
    (h : ∀ l ∈ links, less (m l.parent) (m l.child) = false) : capAll less m links = m := by
  induction links with
  | nil => rfl
  | cons l links ih =>
      rw [List.forall_mem_cons] at h
      rw [capAll_cons, cap, if_neg (by simp [h.1])]
      exact ih h.2

end Pass

section Order

variable {ι V K : Type*} [DecidableEq ι] [LinearOrder K] (num : V → K) (less : V → V → Bool)

/-- The comparison of the values. -/
def numLess (a b : V) : Bool := num a < num b

/-- What a pass is for. -/
structure Settles (links : List (Link ι)) (m : ι → V) : Prop where
  below : ∀ l ∈ links, num (capAll less m links l.child) ≤ num (capAll less m links l.parent)
  kept : ∀ l ∈ links, num (m l.child) ≤ num (m l.parent) →
    capAll less m links l.child = m l.child
  again : capAll less (capAll less m links) links = capAll less m links

/-- The link needs no change, for either comparison. -/
def Fine (m : ι → V) (l : Link ι) : Prop :=
  num (m l.child) ≤ num (m l.parent) ∧ less (m l.parent) (m l.child) = false

/-- A step at a link, after the links `done`, from the values `cur`. -/
structure StepOk (links : List (Link ι)) (m : ι → V) (done : List (Link ι)) (l : Link ι)
    (cur : ι → V) : Prop where
  agrees : less (cur l.parent) (cur l.child) = true ↔ num (cur l.parent) < num (cur l.child)
  kept : num (cur l.parent) < num (cur l.child) →
    ∀ l' ∈ links, l'.child = l.child → num (m l'.parent) < num (m l'.child)
  fine : num (cur l.parent) < num (cur l.child) →
    ∀ l' ∈ done, l'.parent = l.child ∨ l'.child = l.child →
      Fine num less (Function.update cur l.child (cur l.parent)) l'

/-- Every step of the pass that compares the values is in order. -/
def Orderly (links : List (Link ι)) (m : ι → V) : Prop :=
  ∀ done l todo, links = done ++ l :: todo →
    StepOk num less links m done l (capAll (numLess num) m done)

variable {num less}

/-! ### Links without chains -/

section Flat

variable {links : List (Link ι)} {m : ι → V} (hnodup : (links.map Link.child).Nodup)
  (hflat : ∀ l ∈ links, ∀ l' ∈ links, l.parent ≠ l'.child)

include hnodup hflat

/-- Where no child is a parent, every link is come to with the values at the start. -/
theorem flat_values (less : V → V → Bool) {done todo : List (Link ι)} {l : Link ι}
    (hlinks : links = done ++ l :: todo) : capAll less m done l.parent = m l.parent ∧
      capAll less m done l.child = m l.child := by
  refine ⟨capAll_of_not_mem less ?_, capAll_of_not_mem less (child_of_split hnodup hlinks).1⟩
  intro hmem
  obtain ⟨l', hl', hchild⟩ := List.mem_map.mp hmem
  exact hflat l (hlinks ▸ by simp) l' (hlinks ▸ List.mem_append_left _ hl') hchild.symm

/-- Where no child is a parent, only the comparisons matter. -/
theorem orderly_iff_of_flat : Orderly num less links m ↔
    ∀ l ∈ links, less (m l.parent) (m l.child) = true ↔ num (m l.parent) < num (m l.child) := by
  constructor
  · intro h l hl
    obtain ⟨done, todo, hlinks⟩ := List.append_of_mem hl
    obtain ⟨hparent, hchild⟩ := flat_values hnodup hflat (numLess num) hlinks
    have hagrees := (h done l todo hlinks).agrees
    rwa [hparent, hchild] at hagrees
  · intro h done l todo hlinks
    have hl : l ∈ links := hlinks ▸ by simp
    obtain ⟨hparent, hchild⟩ := flat_values hnodup hflat (numLess num) hlinks
    refine ⟨?_, ?_, ?_⟩
    · rw [hparent, hchild]
      exact h l hl
    · intro hlt l' hl' heq
      obtain rfl := List.inj_on_of_nodup_map hnodup hl' hl heq
      rwa [hparent, hchild] at hlt
    · intro _ l' hl' htouch
      rcases htouch with htouch | htouch
      · exact absurd htouch (hflat l' (hlinks ▸ List.mem_append_left _ hl') l hl)
      · exact absurd (htouch ▸ List.mem_map_of_mem hl') (child_of_split hnodup hlinks).1

end Flat

variable (hirrefl : ∀ a, less a a = false)

include hirrefl

/-- A step that is in order keeps what the pass is for. -/
theorem StepOk.step {links : List (Link ι)} {m : ι → V} {done : List (Link ι)} {l : Link ι}
    {cur : ι → V} (h : StepOk num less links m done l cur)
    (hdone : ∀ l' ∈ done, Fine num less cur l')
    (hkept : ∀ l' ∈ links, num (m l'.child) ≤ num (m l'.parent) → cur l'.child = m l'.child) :
    cap less cur l = cap (numLess num) cur l ∧
      (∀ l' ∈ done ++ [l], Fine num less (cap less cur l) l') ∧
        ∀ l' ∈ links, num (m l'.child) ≤ num (m l'.parent) →
          cap less cur l l'.child = m l'.child := by
  by_cases hlt : num (cur l.parent) < num (cur l.child)
  · have hcap : cap less cur l = Function.update cur l.child (cur l.parent) :=
      if_pos (h.agrees.mpr hlt)
    have hnum : cap (numLess num) cur l = Function.update cur l.child (cur l.parent) :=
      if_pos (decide_eq_true hlt)
    refine ⟨hcap.trans hnum.symm, ?_, ?_⟩
    · rw [hcap]
      intro l' hl'
      by_cases htouch : l'.parent = l.child ∨ l'.child = l.child
      · rcases List.mem_append.mp hl' with hl' | hl'
        · exact h.fine hlt l' hl' htouch
        · obtain rfl := List.mem_singleton.mp hl'
          have hne : l'.parent ≠ l'.child := by
            intro heq
            rw [heq] at hlt
            exact lt_irrefl _ hlt
          rw [Fine, Function.update_self, Function.update_of_ne hne]
          exact ⟨le_rfl, hirrefl _⟩
      · obtain ⟨hparent, hchild⟩ := not_or.mp htouch
        rcases List.mem_append.mp hl' with hl' | hl'
        · rw [Fine, Function.update_of_ne hparent, Function.update_of_ne hchild]
          exact hdone l' hl'
        · exact absurd (List.mem_singleton.mp hl' ▸ rfl) hchild
    · intro l' hl' hle
      by_cases hchild : l'.child = l.child
      · exact absurd (h.kept hlt l' hl' hchild) (not_lt.mpr hle)
      · rw [cap_of_ne less hchild]
        exact hkept l' hl' hle
  · have hless : less (cur l.parent) (cur l.child) = false := by
      rw [← Bool.not_eq_true, h.agrees]
      exact hlt
    have hcap : cap less cur l = cur := if_neg (by simp [hless])
    have hnum : cap (numLess num) cur l = cur := if_neg (by simp [numLess, hlt])
    rw [hcap, hnum]
    refine ⟨rfl, fun l' hl' => ?_, hkept⟩
    rcases List.mem_append.mp hl' with hl' | hl'
    · exact hdone l' hl'
    · rw [List.mem_singleton.mp hl']
      exact ⟨not_lt.mp hlt, hless⟩

/-- A pass in order does what the values ask for. -/
theorem Orderly.prefix {links : List (Link ι)} {m : ι → V} (h : Orderly num less links m)
    (done : List (Link ι)) : ∀ todo, links = done ++ todo →
      capAll less m done = capAll (numLess num) m done ∧
        (∀ l ∈ done, Fine num less (capAll less m done) l) ∧
          ∀ l ∈ links, num (m l.child) ≤ num (m l.parent) →
            capAll less m done l.child = m l.child := by
  induction done using List.reverseRecOn with
  | nil => exact fun todo _ => ⟨rfl, by simp, fun _ _ _ => rfl⟩
  | append_singleton done l ih =>
      intro todo hlinks
      rw [List.append_assoc, List.singleton_append] at hlinks
      obtain ⟨heq, hfine, hkept⟩ := ih (l :: todo) hlinks
      have hok := h done l todo hlinks
      rw [← heq] at hok
      obtain ⟨hstep, hfine', hkept'⟩ := hok.step hirrefl hfine hkept
      rw [capAll_append, capAll_append, ← heq]
      exact ⟨hstep, hfine', hkept'⟩

/-- A pass in order settles. -/
theorem Orderly.settles {links : List (Link ι)} {m : ι → V} (h : Orderly num less links m) :
    Settles num less links m := by
  obtain ⟨-, hfine, hkept⟩ := h.prefix hirrefl links [] (List.append_nil _).symm
  refine ⟨fun l hl => (hfine l hl).1, hkept, ?_⟩
  exact capAll_eq_self less fun l hl => (hfine l hl).2

/-! ### Passes that settle -/

section Converse

variable {links : List (Link ι)} {m : ι → V} (hnodup : (links.map Link.child).Nodup)

include hnodup

variable (less) in
omit hirrefl in
/-- The child is at the end what the step at its link makes it. -/
theorem final_child {done todo : List (Link ι)} {l : Link ι} (hlinks : links = done ++ l :: todo)
    (m : ι → V) : capAll less m links l.child = cap less (capAll less m done) l l.child := by
  conv_lhs => rw [hlinks]
  rw [capAll_append, capAll_cons]
  exact capAll_of_not_mem less (child_of_split hnodup hlinks).2

omit hirrefl in
/-- A step makes no value larger. -/
theorem Settles.cap_le (h : Settles num less links m) {done todo : List (Link ι)} {l : Link ι}
    (hlinks : links = done ++ l :: todo)
    (hle : ∀ x, num (capAll less m done x) ≤ num (m x)) (x : ι) :
    num (cap less (capAll less m done) l x) ≤ num (capAll less m done x) := by
  by_cases hx : x = l.child
  · subst hx
    have hfinal := final_child less hnodup hlinks m
    have hstart : capAll less m done l.child = m l.child :=
      capAll_of_not_mem less (child_of_split hnodup hlinks).1
    rcases le_or_gt (num (m l.child)) (num (m l.parent)) with hbelow | habove
    · rw [← hfinal, h.kept l (hlinks ▸ by simp) hbelow, hstart]
    · unfold cap
      split
      · rw [Function.update_self, hstart]
        exact (hle _).trans habove.le
      · exact le_rfl
  · rw [cap_of_ne less hx]

omit hirrefl in
theorem Settles.capAll_le (h : Settles num less links m) (done : List (Link ι)) :
    ∀ todo, links = done ++ todo → ∀ x, num (capAll less m done x) ≤ num (m x) := by
  induction done using List.reverseRecOn with
  | nil => exact fun _ _ _ => le_rfl
  | append_singleton done l ih =>
      intro todo hlinks x
      rw [List.append_assoc, List.singleton_append] at hlinks
      have hle := ih (l :: todo) hlinks
      rw [capAll_append]
      exact (h.cap_le hnodup hlinks hle x).trans (hle x)

omit hirrefl in
/-- The values at the end are not above those on the way. -/
theorem Settles.final_le (h : Settles num less links m) (todo : List (Link ι)) :
    ∀ done, links = done ++ todo →
      ∀ x, num (capAll less m links x) ≤ num (capAll less m done x) := by
  induction todo with
  | nil =>
      intro done hlinks x
      rw [hlinks, List.append_nil]
  | cons l todo ih =>
      intro done hlinks x
      have hstep := h.cap_le hnodup hlinks (h.capAll_le hnodup done (l :: todo) hlinks) x
      have hrest := ih (done ++ [l]) (by rw [hlinks, List.append_assoc, List.singleton_append]) x
      rw [capAll_append] at hrest
      exact hrest.trans hstep

/-- The comparison is right where the pass settles. -/
theorem Settles.agrees (h : Settles num less links m) {done todo : List (Link ι)} {l : Link ι}
    (hlinks : links = done ++ l :: todo) :
    less (capAll less m done l.parent) (capAll less m done l.child) = true ↔
      num (capAll less m done l.parent) < num (capAll less m done l.child) := by
  have hmem : l ∈ links := hlinks ▸ by simp
  have hfinal := final_child less hnodup hlinks m
  have hstart : capAll less m done l.child = m l.child :=
    capAll_of_not_mem less (child_of_split hnodup hlinks).1
  constructor
  · intro hless
    rw [cap, if_pos hless, Function.update_self] at hfinal
    rcases le_or_gt (num (m l.child)) (num (m l.parent)) with hbelow | habove
    · -- The child was kept, so that it is its parent's value.
      rw [h.kept l hmem hbelow] at hfinal
      rw [hstart, hfinal, hirrefl] at hless
      exact absurd hless Bool.false_ne_true
    · rw [hstart]
      exact (h.capAll_le hnodup done _ hlinks _).trans_lt habove
  · intro hlt
    by_contra hless
    rw [cap, if_neg hless] at hfinal
    have hbelow := h.below l hmem
    rw [hfinal] at hbelow
    exact not_lt.mpr (hbelow.trans (h.final_le hnodup _ done hlinks _)) hlt

omit hirrefl in
/-- The second pass changes nothing, at any of its steps. -/
theorem Settles.again_prefix (h : Settles num less links m) (done : List (Link ι)) :
    ∀ todo, links = done ++ todo →
      capAll less (capAll less m links) done = capAll less m links := by
  induction done using List.reverseRecOn with
  | nil => exact fun _ _ => rfl
  | append_singleton done l ih =>
      intro todo hlinks
      rw [List.append_assoc, List.singleton_append] at hlinks
      have hdone := ih (l :: todo) hlinks
      have hfinal := final_child less hnodup hlinks (capAll less m links)
      rw [h.again, hdone] at hfinal
      rw [capAll_append, hdone]
      funext x
      by_cases hx : x = l.child
      · rw [hx]
        exact hfinal.symm
      · exact cap_of_ne less hx

theorem Settles.not_less (h : Settles num less links m) {l : Link ι} (hl : l ∈ links) :
    less (capAll less m links l.parent) (capAll less m links l.child) = false := by
  obtain ⟨done, todo, hlinks⟩ := List.append_of_mem hl
  have hfinal := final_child less hnodup hlinks (capAll less m links)
  rw [h.again, h.again_prefix hnodup done _ hlinks] at hfinal
  rw [← Bool.not_eq_true]
  intro hless
  rw [cap, if_pos hless, Function.update_self] at hfinal
  rw [hfinal, hirrefl] at hless
  exact Bool.false_ne_true hless

theorem Settles.stepOk (h : Settles num less links m) {done todo : List (Link ι)} {l : Link ι}
    (hlinks : links = done ++ l :: todo) : StepOk num less links m done l (capAll less m done) := by
  have hagrees := h.agrees hirrefl hnodup hlinks
  have hmem : l ∈ links := hlinks ▸ by simp
  have hstart : capAll less m done l.child = m l.child :=
    capAll_of_not_mem less (child_of_split hnodup hlinks).1
  refine ⟨hagrees, fun hlt l' hl' hchild => ?_, fun hlt l' hl' htouch => ?_⟩
  · obtain rfl := List.inj_on_of_nodup_map hnodup hl' hmem hchild
    have hfinal := final_child less hnodup hlinks m
    rw [cap, if_pos (hagrees.mpr hlt), Function.update_self] at hfinal
    by_contra hle
    rw [h.kept l' hmem (not_lt.mp hle)] at hfinal
    rw [hstart, hfinal] at hlt
    exact lt_irrefl _ hlt
  · have hmem' : l' ∈ links := hlinks ▸ List.mem_append_left _ hl'
    have hne : l'.child ≠ l.child := by
      intro heq
      exact (child_of_split hnodup hlinks).1 (heq ▸ List.mem_map_of_mem hl')
    have hparent : l'.parent = l.child := htouch.resolve_right hne
    have hfinal := final_child less hnodup hlinks m
    rw [cap, if_pos (hagrees.mpr hlt), Function.update_self] at hfinal
    -- The child of the earlier link is not changed any more.
    have hchild : capAll less m links l'.child = capAll less m done l'.child := by
      obtain ⟨done', between, hdone⟩ := List.append_of_mem hl'
      have hlinks' : links = done' ++ l' :: (between ++ l :: todo) := by
        rw [hlinks, hdone, List.append_assoc, List.cons_append]
      rw [final_child less hnodup hlinks' m, hdone, capAll_append, capAll_cons]
      symm
      apply capAll_of_not_mem
      intro hbetween
      refine (child_of_split hnodup hlinks').2 ?_
      rw [List.map_append]
      exact List.mem_append_left _ hbetween
    have hbelow := h.below l' hmem'
    have hless := h.not_less hirrefl hnodup hmem'
    rw [hparent, hfinal, hchild] at hbelow hless
    rw [Fine, hparent, Function.update_self, Function.update_of_ne hne]
    exact ⟨hbelow, hless⟩

/-- A pass that settles compares as the values do, all the time. -/
theorem Settles.capAll_eq (h : Settles num less links m) (done : List (Link ι)) :
    ∀ todo, links = done ++ todo → capAll less m done = capAll (numLess num) m done := by
  induction done using List.reverseRecOn with
  | nil => exact fun _ _ => rfl
  | append_singleton done l ih =>
      intro todo hlinks
      rw [List.append_assoc, List.singleton_append] at hlinks
      have hagrees := h.agrees hirrefl hnodup hlinks
      rw [capAll_append, capAll_append, ← ih (l :: todo) hlinks]
      change cap less _ l = cap (numLess num) _ l
      unfold cap numLess
      simp only [decide_eq_true_eq, hagrees]

/-- A pass settles exactly if it is in order. -/
theorem orderly_iff : Settles num less links m ↔ Orderly num less links m := by
  constructor
  · intro h done l todo hlinks
    rw [← h.capAll_eq hirrefl hnodup done _ hlinks]
    exact h.stepOk hirrefl hnodup hlinks
  · intro h
    exact h.settles hirrefl

end Converse

end Order

end UbntSdk.Lib.Capping
