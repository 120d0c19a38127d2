/-
UbntSdk.Lib.Paging — a list that goes out message by message.

A producer is called with messages of some room each, puts records into a
message until one does not fit, and saves where to go on; it is called again
until it leaves a message empty (`dump`). `fill` is the loop of one call and
`resume` the call that goes on at a saved index. `tries` lists the records
with the room they find, in a message that is as full as the records before
them leave it.

`resume_complete_iff` is the rule: when every message has room for any one
record, the messages hold the whole list, each record once and in order, and
the calls end, iff no record finds a room in which putting it faults.

Nothing in this module names a program.
-/
import Mathlib.Algebra.Order.Ring.Int
import Mathlib.Tactic.Common

namespace UbntSdk.Lib

/-- The end of putting a record into a message: it is in, it does not fit,
or the program faults. `left` is the room that is left. -/
inductive Put where
  | sent (left : Nat)
  | full (left : Nat)
  | fault
  deriving DecidableEq

/-- A message that is filled: what is in it, what is not, and the room
left. -/
structure Fill (ρ : Type) where
  sent : List ρ
  rest : List ρ
  left : Nat

/-- A call: the records of the message, what is saved, and the length of
the message. -/
structure Page (ρ σ : Type) where
  records : List ρ
  next : σ
  len : Nat

/-- The end of some calls: the dump is over, it goes on, or a call faulted. -/
inductive Dump (ρ : Type) where
  | done (records : List ρ)
  | more (records : List ρ)
  | fault

section

variable {ρ σ : Type}

/-- Put records into a message until one does not fit. -/
def fill (put : ρ → Nat → Put) : List ρ → Nat → Option (Fill ρ)
  | [], room => some ⟨[], [], room⟩
  | x :: xs, room =>
      match put x room with
      | .fault => none
      | .full left => some ⟨[], x :: xs, left⟩
      | .sent left => (fill put xs left).map fun f => { f with sent := x :: f.sent }

/-- The call that goes on at index `i` of the list. -/
def resume (put : ρ → Nat → Put) (xs : List ρ) (i room : Nat) : Option (Page ρ Nat) :=
  (fill put (xs.drop i) room).map fun f => ⟨f.sent, i + f.sent.length, room - f.left⟩

/-- The records of earlier messages in front. -/
def Dump.after (records : List ρ) : Dump ρ → Dump ρ
  | .done rs => .done (records ++ rs)
  | .more rs => .more (records ++ rs)
  | .fault => .fault

/-- Up to `n` calls, the next with a message of room `rooms 0`; a message
that stays empty ends the dump. -/
def dump (call : σ → Nat → Option (Page ρ σ)) : Nat → (Nat → Nat) → σ → Dump ρ
  | 0, _, _ => .more []
  | n + 1, rooms, s =>
      match call s (rooms 0) with
      | none => .fault
      | some page =>
          if page.len = 0 then .done page.records
          else (dump call n (fun i => rooms (i + 1)) page.next).after page.records

/-- The dump is over after some calls, and its records are `xs`. -/
def Complete (call : σ → Nat → Option (Page ρ σ)) (rooms : Nat → Nat) (s : σ) (xs : List ρ) : Prop :=
  ∃ n, dump call n rooms s = .done xs

/-- Every record with the room it finds: in the message at hand, and if it
does not fit there in the next one. -/
def tries (size : ρ → Nat) : List ρ → Nat → (Nat → Nat) → List (ρ × Nat)
  | [], _, _ => []
  | x :: xs, room, rooms =>
      if size x ≤ room then (x, room) :: tries size xs (room - size x) rooms
      else (x, room) :: (x, rooms 0) :: tries size xs (rooms 0 - size x) fun i => rooms (i + 1)

/-! ## Calls -/

variable {call : σ → Nat → Option (Page ρ σ)}

theorem Dump.after_ne_more {records : List ρ} {d : Dump ρ} (h : ∀ rs, d.after records ≠ .more rs)
    (rs : List ρ) : d ≠ .more rs := by
  rintro rfl
  exact h _ rfl

/-- A dump that is over stays over. -/
theorem dump_stable {n : Nat} {rooms : Nat → Nat} {s : σ}
    (h : ∀ rs, dump call n rooms s ≠ .more rs) (k : Nat) :
    dump call (n + k) rooms s = dump call n rooms s := by
  induction n generalizing rooms s with
  | zero => exact absurd rfl (h [])
  | succ n ih =>
      rw [Nat.succ_add]
      simp only [dump] at h ⊢
      split
      · rfl
      · rename_i page hpage
        rw [hpage] at h
        dsimp only at h
        by_cases hlen : page.len = 0
        · simp only [hlen, if_true]
        · simp only [hlen, if_false] at h ⊢
          rw [ih (Dump.after_ne_more h)]

theorem dump_unique {n m : Nat} {rooms : Nat → Nat} {s : σ} {d d' : Dump ρ}
    (h : dump call n rooms s = d) (h' : dump call m rooms s = d') (hd : ∀ rs, d ≠ .more rs)
    (hd' : ∀ rs, d' ≠ .more rs) : d = d' := by
  rcases Nat.le_total n m with hle | hle
  · have hstable := @dump_stable ρ σ call n rooms s (h ▸ hd) (m - n)
    rw [Nat.add_sub_cancel' hle, h, h'] at hstable
    exact hstable.symm
  · have hstable := @dump_stable ρ σ call m rooms s (h' ▸ hd') (n - m)
    rw [Nat.add_sub_cancel' hle, h, h'] at hstable
    exact hstable

theorem Complete.unique {rooms : Nat → Nat} {s : σ} {xs ys : List ρ} (h : Complete call rooms s xs)
    (h' : Complete call rooms s ys) : xs = ys := by
  obtain ⟨n, hn⟩ := h
  obtain ⟨m, hm⟩ := h'
  have heq := dump_unique hn hm (by simp) (by simp)
  exact Dump.done.inj heq

/-- Two producers that put the same into every message. -/
theorem dump_congr {τ : Type} {call' : τ → Nat → Option (Page ρ τ)} {related : σ → τ → Prop}
    (hcall : ∀ s t room, related s t → Option.Rel (fun p p' =>
      p.records = p'.records ∧ p.len = p'.len ∧ related p.next p'.next) (call s room) (call' t room))
    {s : σ} {t : τ} (h : related s t) (n : Nat) (rooms : Nat → Nat) :
    dump call n rooms s = dump call' n rooms t := by
  induction n generalizing s t rooms with
  | zero => rfl
  | succ n ih =>
      have hrel := hcall s t (rooms 0) h
      simp only [dump]
      cases hp : call s (rooms 0) with
      | none =>
          rw [hp] at hrel
          cases hp' : call' t (rooms 0) with
          | none => rfl
          | some p' =>
              rw [hp'] at hrel
              cases hrel
      | some p =>
          rw [hp] at hrel
          cases hp' : call' t (rooms 0) with
          | none =>
              rw [hp'] at hrel
              cases hrel
          | some p' =>
              rw [hp'] at hrel
              cases hrel with
              | some hpage =>
                  obtain ⟨hrecords, hlen, hnext⟩ := hpage
                  simp only [hrecords, hlen, ih hnext]

/-! ## Filling -/

/-- What putting a record does unless it faults: a record of `size x` bytes
goes in iff there is room. -/
def Puts (put : ρ → Nat → Put) (size : ρ → Nat) : Prop :=
  ∀ x room, put x room ≠ .fault →
    (size x ≤ room ∧ put x room = .sent (room - size x)) ∨
    (room < size x ∧ ∃ left, left ≤ room ∧ put x room = .full left)

variable {put : ρ → Nat → Put} {size : ρ → Nat}

theorem fill_append {xs : List ρ} {room : Nat} {f : Fill ρ} (h : fill put xs room = some f) :
    f.sent ++ f.rest = xs := by
  induction xs generalizing room f with
  | nil =>
      cases h
      rfl
  | cons x xs ih =>
      simp only [fill] at h
      split at h
      · cases h
      · cases h
        rfl
      · obtain ⟨f', hf', rfl⟩ := Option.map_eq_some_iff.mp h
        simp [ih hf']

/-- A fill that does not fault leaves less room iff something is sent. -/
theorem fill_left (hput : Puts put size) (hpos : ∀ x, 0 < size x) {xs : List ρ} {room : Nat}
    {f : Fill ρ} (h : fill put xs room = some f) :
    f.left ≤ room ∧ (f.sent ≠ [] → f.left < room) := by
  induction xs generalizing room f with
  | nil =>
      cases h
      exact ⟨Nat.le_refl _, absurd rfl⟩
  | cons x xs ih =>
      have hx := hpos x
      rw [fill] at h
      have hne : put x room ≠ .fault := fun hfault => by simp [hfault] at h
      rcases hput x room hne with ⟨hfit, heq⟩ | ⟨_, left, hle, heq⟩
      · rw [heq] at h
        obtain ⟨f', hf', rfl⟩ := Option.map_eq_some_iff.mp h
        have hleft := (ih hf').1
        exact ⟨by dsimp only; omega, fun _ => by dsimp only; omega⟩
      · rw [heq] at h
        cases h
        exact ⟨hle, absurd rfl⟩

/-- The first record fits, so the message does not stay empty. -/
theorem fill_sent (hput : Puts put size) {x : ρ} {xs : List ρ} {room : Nat} {f : Fill ρ}
    (hfit : size x ≤ room) (h : fill put (x :: xs) room = some f) : f.sent ≠ [] := by
  rw [fill] at h
  have hne : put x room ≠ .fault := fun hfault => by simp [hfault] at h
  rcases hput x room hne with ⟨_, heq⟩ | ⟨hlt, _⟩
  · rw [heq] at h
    obtain ⟨f', _, rfl⟩ := Option.map_eq_some_iff.mp h
    simp
  · omega

/-- The records that are tried in one message, and those that are left for
the next. -/
theorem fill_tries (hput : Puts put size) {xs : List ρ} {room : Nat} {rooms : Nat → Nat}
    (hroom : ∀ x ∈ xs, size x ≤ rooms 0) :
    (∀ p ∈ tries size xs room rooms, put p.1 p.2 ≠ .fault) ↔
      ∃ f, fill put xs room = some f ∧
        ∀ p ∈ tries size f.rest (rooms 0) (fun i => rooms (i + 1)), put p.1 p.2 ≠ .fault := by
  induction xs generalizing room with
  | nil => simp [tries, fill]
  | cons x xs ih =>
      obtain ⟨hx, hxs⟩ := List.forall_mem_cons.mp hroom
      by_cases hne : put x room = .fault
      · have hmem : (x, room) ∈ tries size (x :: xs) room rooms := by
          simp only [tries]
          split <;> simp
        refine iff_of_false (fun h => h _ hmem hne) ?_
        rintro ⟨f, hf, _⟩
        rw [fill, hne] at hf
        cases hf
      · rcases hput x room hne with ⟨hfit, heq⟩ | ⟨hlt, left, _, heq⟩
        · simp only [tries, hfit, if_true, List.forall_mem_cons, fill, heq, ne_eq, ih hxs]
          constructor
          · rintro ⟨_, f, hf, hrest⟩
            exact ⟨{ f with sent := x :: f.sent }, by rw [hf, Option.map_some], hrest⟩
          · rintro ⟨f, hf, hrest⟩
            obtain ⟨f', hf', rfl⟩ := Option.map_eq_some_iff.mp hf
            exact ⟨by simp, f', hf', hrest⟩
        · have hnfit : ¬ size x ≤ room := by omega
          have htries : tries size (x :: xs) room rooms =
              (x, room) :: tries size (x :: xs) (rooms 0) fun i => rooms (i + 1) := by
            rw [tries, if_neg hnfit, tries, if_pos hx]
          rw [htries, fill, heq, List.forall_mem_cons]
          constructor
          · rintro ⟨_, hrest⟩
            exact ⟨_, rfl, hrest⟩
          · rintro ⟨f, hf, hrest⟩
            cases hf
            exact ⟨hne, hrest⟩

/-! ## The rule -/

/-- The dump from index `i` on ends with the rest of the list, or faults. -/
theorem resume_ends (hput : Puts put size) (hpos : ∀ x, 0 < size x) {xs : List ρ}
    {rooms : Nat → Nat} {i : Nat} (hroom : ∀ k, ∀ x ∈ xs, size x ≤ rooms k) :
    ((∀ p ∈ tries size (xs.drop i) (rooms 0) (fun k => rooms (k + 1)), put p.1 p.2 ≠ .fault) →
      ∃ n, dump (resume put xs) n rooms i = .done (xs.drop i)) ∧
    ((¬ ∀ p ∈ tries size (xs.drop i) (rooms 0) (fun k => rooms (k + 1)), put p.1 p.2 ≠ .fault) →
      ∃ n, dump (resume put xs) n rooms i = .fault) := by
  -- on what is left of the list
  induction hlen : (xs.drop i).length using Nat.strongRecOn generalizing i rooms with
  | ind len ih =>
      have hroom' : ∀ x ∈ xs.drop i, size x ≤ rooms (0 + 1) := fun x hx =>
        hroom 1 x (List.mem_of_mem_drop hx)
      rw [fill_tries hput hroom']
      cases hfill : fill put (xs.drop i) (rooms 0) with
      | none =>
          refine ⟨fun h => ?_, fun _ => ⟨1, ?_⟩⟩
          · obtain ⟨_, hf, _⟩ := h
            cases hf
          · simp [dump, resume, hfill]
      | some f =>
          have happend := fill_append hfill
          simp only [Option.some.injEq, exists_eq_left']
          cases hdrop : xs.drop i with
          | nil =>
              rw [hdrop] at hfill
              cases hfill
              refine ⟨fun _ => ⟨1, ?_⟩, fun h => absurd (by simp [tries]) h⟩
              simp [dump, resume, hdrop, fill]
          | cons x rest =>
              have hx : x ∈ xs.drop i := by simp [hdrop]
              have hsent := hfill
              rw [hdrop] at hsent
              have hne := fill_sent hput (hroom 0 x (List.mem_of_mem_drop hx)) hsent
              have hleft := (fill_left hput hpos hfill).2 hne
              have hpage : ∀ n, dump (resume put xs) (n + 1) rooms i =
                  (dump (resume put xs) n (fun k => rooms (k + 1)) (i + f.sent.length)).after
                    f.sent := by
                intro n
                simp only [dump, resume, hfill, Option.map_some]
                rw [if_neg (by omega)]
              have hrest : xs.drop (i + f.sent.length) = f.rest := by
                rw [← List.drop_drop, ← happend, List.drop_left]
              have hshorter : (xs.drop (i + f.sent.length)).length < len := by
                rw [hrest, ← hlen, ← happend, List.length_append]
                have hpos := List.length_pos_iff.mpr hne
                omega
              obtain ⟨hdone, hfault⟩ := ih _ hshorter (fun k => hroom (k + 1)) rfl
              rw [hrest] at hdone hfault
              rw [← hdrop, ← happend]
              refine ⟨fun hall => ?_, fun hnot => ?_⟩
              · obtain ⟨n, hn⟩ := hdone hall
                exact ⟨n + 1, by rw [hpage, hn, Dump.after]⟩
              · obtain ⟨n, hn⟩ := hfault hnot
                exact ⟨n + 1, by rw [hpage, hn, Dump.after]⟩

/-- Every message has room for any one record: then the dump is complete iff
no record faults in the room it finds. -/
theorem resume_complete_iff (hput : Puts put size) (hpos : ∀ x, 0 < size x) {xs : List ρ}
    {rooms : Nat → Nat} (hroom : ∀ k, ∀ x ∈ xs, size x ≤ rooms k) :
    Complete (resume put xs) rooms 0 xs ↔
      ∀ p ∈ tries size xs (rooms 0) (fun k => rooms (k + 1)), put p.1 p.2 ≠ .fault := by
  obtain ⟨hdone, hfault⟩ := @resume_ends ρ put size hput hpos xs rooms 0 hroom
  rw [List.drop_zero] at hdone hfault
  constructor
  · rintro ⟨n, hn⟩
    by_contra hnot
    obtain ⟨m, hm⟩ := hfault hnot
    cases dump_unique hn hm (by simp) (by simp)
  · exact hdone

end

end UbntSdk.Lib
