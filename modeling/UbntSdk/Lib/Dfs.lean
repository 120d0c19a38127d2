/-
UbntSdk.Lib.Dfs — a depth-first search for a target with one set of visited
nodes.

`dfs next target n ds s` looks at the nodes `ds` one after the other, where `s` are
the nodes visited before. A node that was visited is passed over; another one is
visited, and is the target or is searched from. The search ends as soon as the
target is met. What it has visited counts for all branches.

A search without success leaves a closed set (`dfs_closed`): what can be reached
from what it has visited, it has visited too. So a search that begins with nothing
visited finds the target exactly when it can be reached (`dfs_iff`). The depth `n`
suffices when it exceeds the number of nodes (`dfs_isSome`).

Nothing in this module names a program.
-/
import Mathlib.Algebra.Order.Ring.Int
import Mathlib.Data.Finset.Card
import Mathlib.Logic.Relation
import Mathlib.Tactic.Common

namespace UbntSdk.Lib

variable {α : Type*}

/-- The loop over the nodes; `search` is the search from the successors of one. -/
def dfsLoop [DecidableEq α] (next : α → Option (List α)) (target : α)
    (search : List α → List α → Option (Bool × List α)) :
    List α → List α → Option (Bool × List α)
  | [], s => some (false, s)
  | d :: ds, s =>
      if d ∈ s then dfsLoop next target search ds s
      else if d = target then some (true, d :: s)
      else
        match next d with
        | none => dfsLoop next target search ds (d :: s)
        | some l =>
            match search l (d :: s) with
            | none => none
            | some (true, s) => some (true, s)
            | some (false, s) => dfsLoop next target search ds s

/-- The search, to the depth `n`. -/
def dfs [DecidableEq α] (next : α → Option (List α)) (target : α) :
    Nat → List α → List α → Option (Bool × List α)
  | 0, _, _ => none
  | n + 1, ds, s => dfsLoop next target (dfs next target n) ds s

/-- A successor. -/
def Succ (next : α → Option (List α)) (a b : α) : Prop := ∃ l, next a = some l ∧ b ∈ l

/-- The target can be reached from one of the nodes. -/
def Connected (next : α → Option (List α)) (ds : List α) (t : α) : Prop :=
  ∃ d ∈ ds, Relation.ReflTransGen (Succ next) d t

variable {next : α → Option (List α)} {target : α}

theorem Connected.succ {d : α} {ds l : List α} {t : α} (hd : d ∈ ds) (hl : next d = some l)
    (h : Connected next l t) : Connected next ds t := by
  obtain ⟨e, he, hpath⟩ := h
  exact ⟨d, hd, hpath.head ⟨l, hl, he⟩⟩

theorem Connected.mono {ds ds' : List α} {t : α} (h : Connected next ds t) (hsub : ds ⊆ ds') :
    Connected next ds' t := by
  obtain ⟨d, hd, hpath⟩ := h
  exact ⟨d, hsub hd, hpath⟩

/-! ## What a search does -/

/-- What is known of a search for the target from `ds` that visited `s` before and
`s'` in the end. -/
structure Searched (next : α → Option (List α)) (target : α) (ds s : List α) (b : Bool)
    (s' : List α) : Prop where
  keeps : s ⊆ s'
  found : b = true → Connected next ds target
  all : b = false → ds ⊆ s'
  missed : b = false → ∀ d ∈ s', d ∉ s → d ≠ target ∧ ∀ l, next d = some l → l ⊆ s'

/-- A node that is not the target, and the nodes behind it. -/
theorem Searched.cons {d : α} {ds s s₁ s' : List α} {b : Bool} (hkeeps : d :: s ⊆ s₁)
    (hmissed : ∀ e ∈ s₁, e ∉ s → e ≠ target ∧ ∀ l, next e = some l → l ⊆ s₁)
    (hrest : Searched next target ds s₁ b s') : Searched next target (d :: ds) s b s' where
  keeps := List.Subset.trans (List.subset_cons_self d s) (List.Subset.trans hkeeps hrest.keeps)
  found hb := (hrest.found hb).mono (List.subset_cons_self d ds)
  all hb := List.cons_subset.mpr ⟨hrest.keeps (hkeeps List.mem_cons_self), hrest.all hb⟩
  missed hb e he hnot := by
    by_cases h₁ : e ∈ s₁
    · obtain ⟨hne, hsucc⟩ := hmissed e h₁ hnot
      exact ⟨hne, fun l hl => List.Subset.trans (hsucc l hl) hrest.keeps⟩
    · exact hrest.missed hb e he h₁

variable [DecidableEq α]

theorem searched_loop {search : List α → List α → Option (Bool × List α)}
    (hsearch : ∀ l s b s', search l s = some (b, s') → Searched next target l s b s')
    {ds s : List α} {b : Bool} {s' : List α}
    (h : dfsLoop next target search ds s = some (b, s')) : Searched next target ds s b s' := by
  induction ds generalizing s with
  | nil =>
      obtain ⟨rfl, rfl⟩ := Prod.mk.inj (Option.some.inj h)
      exact ⟨List.Subset.refl s, nofun, fun _ => List.nil_subset s,
        fun _ d hd hnot => absurd hd hnot⟩
  | cons d ds ih =>
      rw [dfsLoop] at h
      by_cases hd : d ∈ s
      · -- The node was visited before.
        rw [if_pos hd] at h
        have hrest := ih h
        refine ⟨hrest.keeps, fun hb => (hrest.found hb).mono (List.subset_cons_self d ds),
          fun hb => ?_, hrest.missed⟩
        exact List.cons_subset.mpr ⟨hrest.keeps hd, hrest.all hb⟩
      rw [if_neg hd] at h
      by_cases ht : d = target
      · rw [if_pos ht] at h
        obtain ⟨rfl, rfl⟩ := Prod.mk.inj (Option.some.inj h)
        exact ⟨List.subset_cons_self d s, fun _ => ⟨d, List.mem_cons_self, ht ▸ .refl⟩, nofun,
          nofun⟩
      rw [if_neg ht] at h
      have hown : ∀ e ∈ d :: s, e ∉ s → e = d := fun e he hnot =>
        (List.mem_cons.mp he).resolve_right hnot
      cases hl : next d with
      | none =>
          rw [hl] at h
          refine (ih h).cons (List.Subset.refl _) fun e he hnot => ?_
          obtain rfl := hown e he hnot
          exact ⟨ht, fun l hl' => by rw [hl] at hl'; cases hl'⟩
      | some l =>
          simp only [hl] at h
          cases hs : search l (d :: s) with
          | none =>
              rw [hs] at h
              cases h
          | some r =>
              obtain ⟨b₁, s₁⟩ := r
              have hin := hsearch l (d :: s) b₁ s₁ hs
              rw [hs] at h
              cases b₁ with
              | true =>
                  obtain ⟨rfl, rfl⟩ := Prod.mk.inj (Option.some.inj h)
                  exact ⟨List.Subset.trans (List.subset_cons_self d s) hin.keeps,
                    fun hb => (hin.found hb).succ List.mem_cons_self hl, nofun, nofun⟩
              | false =>
                  refine (ih h).cons hin.keeps fun e he hnot => ?_
                  by_cases hed : e = d
                  · subst hed
                    refine ⟨ht, fun l' hl' => ?_⟩
                    obtain rfl := Option.some.inj (hl.symm.trans hl')
                    exact hin.all rfl
                  · refine hin.missed rfl e he fun hmem => ?_
                    exact (List.mem_cons.mp hmem).elim hed hnot

theorem searched {n : Nat} {ds s : List α} {b : Bool} {s' : List α}
    (h : dfs next target n ds s = some (b, s')) : Searched next target ds s b s' := by
  induction n generalizing ds s b s' with
  | zero => cases h
  | succ n ih => exact searched_loop (fun _ _ _ _ h => ih h) h

/-- A search without success that began with nothing visited leaves a closed set. -/
theorem dfs_closed {n : Nat} {ds s' : List α} (h : dfs next target n ds [] = some (false, s'))
    {t : α} (ht : Connected next ds t) : t ∈ s' := by
  have hs := searched h
  obtain ⟨d, hd, hpath⟩ := ht
  induction hpath with
  | refl => exact hs.all rfl hd
  | tail _ hstep ih =>
      obtain ⟨l, hl, hmem⟩ := hstep
      exact (hs.missed rfl _ ih List.not_mem_nil).2 l hl hmem

/-- The search finds what can be reached. -/
theorem dfs_iff {n : Nat} {ds s' : List α} {b : Bool}
    (h : dfs next target n ds [] = some (b, s')) : b = true ↔ Connected next ds target := by
  have hs := searched h
  refine ⟨hs.found, fun hreach => ?_⟩
  cases b with
  | true => rfl
  | false => exact absurd rfl (hs.missed rfl target (dfs_closed h hreach) List.not_mem_nil).1

/-! ## The depth -/

/-- The nodes that were not visited. -/
def unseen (nodes : Finset α) (s : List α) : Finset α := nodes \ s.toFinset

theorem card_unseen_lt {nodes : Finset α} {s s' : List α} {d : α} (hd : d ∈ nodes) (hnot : d ∉ s)
    (hsub : d :: s ⊆ s') : (unseen nodes s').card < (unseen nodes s).card := by
  refine Finset.card_lt_card (Finset.ssubset_iff_of_subset ?_ |>.mpr ⟨d, ?_, ?_⟩)
  · refine Finset.sdiff_subset_sdiff (Finset.Subset.refl _) fun e he => ?_
    rw [List.mem_toFinset] at he ⊢
    exact hsub (List.mem_cons_of_mem d he)
  · simpa [unseen] using ⟨hd, hnot⟩
  · simp [unseen, hsub List.mem_cons_self]

theorem loop_isSome {nodes : Finset α} (hnodes : ∀ d l, next d = some l → ∀ e ∈ l, e ∈ nodes)
    {n : Nat} (hsearch : ∀ l s, (∀ e ∈ l, e ∈ nodes) → (unseen nodes s).card < n →
      (dfs next target n l s).isSome = true) {ds s : List α} (hds : ∀ e ∈ ds, e ∈ nodes)
    (hn : (unseen nodes s).card < n + 1) :
    (dfsLoop next target (dfs next target n) ds s).isSome = true := by
  induction ds generalizing s with
  | nil => rfl
  | cons d ds ih =>
      have hd := hds d List.mem_cons_self
      have ih (s' : List α) := @ih s' fun e he => hds e (List.mem_cons_of_mem _ he)
      rw [dfsLoop]
      by_cases hmem : d ∈ s
      · rw [if_pos hmem]
        exact ih s hn
      rw [if_neg hmem]
      by_cases ht : d = target
      · rw [if_pos ht]
        rfl
      rw [if_neg ht]
      have hless {s' : List α} (hsub : d :: s ⊆ s') : (unseen nodes s').card < n := by
        have hlt := card_unseen_lt hd hmem hsub
        omega
      cases hl : next d with
      | none => exact ih _ (Nat.lt_succ_of_lt (hless (List.Subset.refl _)))
      | some l =>
          obtain ⟨⟨b₁, s₁⟩, hs⟩ := Option.isSome_iff_exists.mp
            (hsearch l (d :: s) (hnodes d l hl) (hless (List.Subset.refl _)))
          simp only [hs]
          cases b₁ with
          | true => rfl
          | false => exact ih s₁ (Nat.lt_succ_of_lt (hless (searched hs).keeps))

/-- A depth that exceeds the number of nodes not visited is enough. -/
theorem dfs_isSome {nodes : Finset α} (hnodes : ∀ d l, next d = some l → ∀ e ∈ l, e ∈ nodes)
    {n : Nat} {ds s : List α} (hds : ∀ e ∈ ds, e ∈ nodes) (hn : (unseen nodes s).card < n) :
    (dfs next target n ds s).isSome = true := by
  induction n generalizing ds s with
  | zero => exact absurd hn (Nat.not_lt_zero _)
  | succ n ih => exact loop_isSome hnodes (fun l s hl h => ih hl h) hds hn

end UbntSdk.Lib
