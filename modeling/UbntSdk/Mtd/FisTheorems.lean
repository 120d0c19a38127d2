/-
UbntSdk.Mtd.FisTheorems — when `fis_remap` leaves a sound table.

The descriptors of the table split into those before the first old
partition, the span up to the last old one, and those after it
(`descs_split`). `scanTable_spec` reads what the first loop finds off this
split, `fisRemap_eq` says what the table becomes: the span is replaced by
the new descriptors, the rest of the table moves back, and what goes over
its end is lost. With fewer new descriptors than the span has, the length
of the last `memset` is negative.

`RemapOk` collects what has to hold for that table to be right. Both
directions of `fisRemap_sound_iff` come from comparing the table with the
one that was asked for, part by part.
-/
import Mathlib.Data.UInt
import UbntSdk.Mtd.Fis
import UbntSdk.Lib.Bytes
import Mathlib.Data.List.DropRight

namespace UbntSdk.Mtd

open UbntSdk.Lib

/-! ## The parts of a table -/

section Parts

variable (table : List FisDesc) (old new : List FisPart)

/-- The descriptors: the slots in front of the first blank one. -/
def descs : List FisDesc := table.takeWhile fun d => !d.isEnd

/-- Before the first old partition. -/
def beforeOld : List FisDesc := (descs table).takeWhile fun d => !d.isOneOf old

/-- From the first old partition on. -/
def fromOld : List FisDesc := (descs table).dropWhile fun d => !d.isOneOf old

/-- From the first old partition to the last. -/
def spanOld : List FisDesc := (fromOld table old).rdropWhile fun d => !d.isOneOf old

/-- Behind the last old partition. -/
def afterOld : List FisDesc := (fromOld table old).rtakeWhile fun d => !d.isOneOf old

/-- The slots behind the descriptors. -/
def tailSlots : List FisDesc := table.dropWhile fun d => !d.isEnd

/-- The descriptors of the old partitions, and the others. -/
def oldDescs : List FisDesc := (descs table).filter fun d => d.isOneOf old

def otherDescs : List FisDesc := (descs table).filter fun d => !d.isOneOf old

theorem table_split : table = descs table ++ tailSlots table :=
  List.takeWhile_append_dropWhile.symm

theorem fromOld_split : fromOld table old = spanOld table old ++ afterOld table old :=
  List.rdropWhile_append_rtakeWhile.symm

theorem descs_split :
    descs table = beforeOld table old ++ (spanOld table old ++ afterOld table old) := by
  rw [← fromOld_split]
  exact List.takeWhile_append_dropWhile.symm

end Parts

variable {table : List FisDesc} {old new : List FisPart}

theorem not_isEnd_of_mem {d : FisDesc} (h : d ∈ descs table) : d.isEnd = false := by
  simpa using List.mem_takeWhile_imp h

theorem mem_beforeOld {d : FisDesc} (h : d ∈ beforeOld table old) : d.isOneOf old = false := by
  simpa using List.mem_takeWhile_imp h

theorem mem_afterOld {d : FisDesc} (h : d ∈ afterOld table old) : d.isOneOf old = false := by
  simpa using List.mem_rtakeWhile_imp h

/-- The slots behind the descriptors start with a blank one. -/
theorem tailSlots_head {d : FisDesc} {rest : List FisDesc} (h : tailSlots table = d :: rest) :
    d.isEnd = true := by
  have hhead := List.head?_dropWhile_not (fun d : FisDesc => !d.isEnd) table
  rw [show table.dropWhile (fun d : FisDesc => !d.isEnd) = d :: rest from h] at hhead
  simpa using hhead

/-- A span that is not empty starts and ends with an old partition. -/
theorem spanOld_ends (h : spanOld table old ≠ []) :
    (∃ x rest, spanOld table old = x :: rest ∧ x.isOneOf old = true) ∧
    (∃ init y, spanOld table old = init ++ [y] ∧ y.isOneOf old = true) := by
  constructor
  · obtain ⟨x, rest, hx⟩ := List.exists_cons_of_ne_nil h
    refine ⟨x, rest, hx, ?_⟩
    have hhead := List.head?_dropWhile_not (fun d : FisDesc => !d.isOneOf old) (descs table)
    have hfrom := fromOld_split table old
    rw [hx, List.cons_append] at hfrom
    rw [show (descs table).dropWhile (fun d : FisDesc => !d.isOneOf old) = x :: _ from hfrom] at hhead
    simpa using hhead
  · refine ⟨_, (spanOld table old).getLast h, (List.dropLast_append_getLast h).symm, ?_⟩
    have hlast : ¬ (!((spanOld table old).getLast h).isOneOf old) = true :=
      List.rdropWhile_last_not _ _ h
    simpa using hlast

/-- It is empty if and only if no old partition is there. -/
theorem spanOld_eq_nil : spanOld table old = [] ↔ oldDescs table old = [] := by
  rw [oldDescs, List.filter_eq_nil_iff, descs_split table old]
  constructor
  · intro h d hd
    rw [h, List.nil_append, List.mem_append] at hd
    rcases hd with hd | hd
    · simp [mem_beforeOld hd]
    · simp [mem_afterOld hd]
  · intro h
    by_contra hne
    obtain ⟨⟨x, rest, hx, hold⟩, _⟩ := spanOld_ends hne
    refine h x ?_ hold
    rw [hx]
    simp

/-! ## The first loop -/

/-- The loop runs over the descriptors. -/
theorem scanTable_eq (old : List FisPart) (s : Scan) (table : List FisDesc) :
    scanTable old s table = (descs table).foldl (Scan.visit old) s := by
  induction table generalizing s with
  | nil => rfl
  | cons d rest ih =>
      cases hend : d.isEnd with
      | false => simp [scanTable, descs, hend, ih]
      | true => simp [scanTable, descs, hend]

theorem foldl_visit_desc (s : Scan) (l : List FisDesc) :
    (l.foldl (Scan.visit old) s).desc = s.desc + l.length := by
  induction l generalizing s with
  | nil => rfl
  | cons d l ih =>
      rw [List.foldl_cons, ih, List.length_cons]
      show s.desc + 1 + l.length = _
      omega

/-- Other descriptors change neither `first` nor `last`. -/
theorem foldl_visit_other (s : Scan) {l : List FisDesc} (h : ∀ d ∈ l, d.isOneOf old = false) :
    (l.foldl (Scan.visit old) s).first = s.first ∧
      (l.foldl (Scan.visit old) s).last = s.last := by
  induction l generalizing s with
  | nil => exact ⟨rfl, rfl⟩
  | cons d l ih =>
      obtain ⟨hd, hl⟩ := List.forall_mem_cons.mp h
      rw [List.foldl_cons, (ih _ hl).1, (ih _ hl).2]
      simp [Scan.visit, hd]

/-- `first` is set once. -/
theorem foldl_visit_first {s : Scan} {i : Nat} (h : s.first = some i) (l : List FisDesc) :
    (l.foldl (Scan.visit old) s).first = some i := by
  induction l generalizing s with
  | nil => exact h
  | cons d l ih =>
      rw [List.foldl_cons]
      refine ih ?_
      simp [Scan.visit, h]

/-- The sum of the sizes, as the loop adds them up. -/
theorem foldl_visit_size (s : Scan) (l : List FisDesc) :
    (l.foldl (Scan.visit old) s).size
      = s.size + ((l.filter fun d => d.isOneOf old).map (·.size)).sum := by
  induction l generalizing s with
  | nil => simp
  | cons d l ih =>
      rw [List.foldl_cons, ih]
      cases hd : d.isOneOf old with
      | false => simp [Scan.visit, hd]
      | true => simp [Scan.visit, hd, UInt32.add_assoc]

/-- `fisdir` is the last descriptor of that name. -/
theorem foldl_visit_fisdir {s : Scan} (hdesc : s.desc = 0) (hnone : s.fisdir = none)
    (l rest : List FisDesc) :
    ((l.foldl (Scan.visit old) s).fisdir.bind fun i => (l ++ rest)[i]?)
      = (l.filter FisDesc.isFisdir).getLast? := by
  induction l using List.reverseRecOn generalizing rest with
  | nil => simp [hnone]
  | append_singleton l d ih =>
      rw [List.foldl_append, List.foldl_cons, List.foldl_nil, List.filter_append]
      cases hd : d.isFisdir with
      | false =>
          have hrest := ih (d :: rest)
          simp only [Scan.visit, hd, List.append_assoc]
          simpa [hd] using hrest
      | true =>
          simp [Scan.visit, hd, foldl_visit_desc, hdesc]

/-- What the loop finds in a table with an old partition. -/
theorem scanTable_spec (hspan : spanOld table old ≠ []) :
    (scanTable old ⟨0, none, none, none, 0⟩ table).desc = (descs table).length ∧
    (scanTable old ⟨0, none, none, none, 0⟩ table).first = some (beforeOld table old).length ∧
    (scanTable old ⟨0, none, none, none, 0⟩ table).last
      = some ((beforeOld table old).length + (spanOld table old).length - 1) ∧
    (scanTable old ⟨0, none, none, none, 0⟩ table).size
      = ((oldDescs table old).map (·.size)).sum ∧
    ((scanTable old ⟨0, none, none, none, 0⟩ table).fisdir.bind fun i => table[i]?)
      = ((descs table).filter FisDesc.isFisdir).getLast? := by
  rw [scanTable_eq]
  refine ⟨?_, ?_, ?_, ?_, ?_⟩
  · rw [foldl_visit_desc, Nat.zero_add]
  · obtain ⟨⟨x, rest, hx, hold⟩, _⟩ := spanOld_ends hspan
    rw [descs_split table old, hx, List.foldl_append, List.cons_append, List.foldl_cons]
    refine foldl_visit_first ?_ _
    rw [Scan.visit, if_pos hold, (foldl_visit_other _ fun d hd => mem_beforeOld hd).1,
      foldl_visit_desc, Nat.zero_add]
  · obtain ⟨_, init, y, hy, hold⟩ := spanOld_ends hspan
    rw [descs_split table old, ← List.append_assoc, List.foldl_append,
      (foldl_visit_other _ fun d hd => mem_afterOld hd).2, hy, ← List.append_assoc,
      List.foldl_append, List.foldl_cons, List.foldl_nil]
    simp [Scan.visit, hold, foldl_visit_desc]
  · rw [foldl_visit_size, UInt32.zero_add]
    rfl
  · have hfisdir := @foldl_visit_fisdir old ⟨0, none, none, none, 0⟩ rfl rfl (descs table)
      (tailSlots table)
    rw [← table_split] at hfisdir
    exact hfisdir

/-- Without one, `first` stays NULL. -/
theorem scanTable_none (hspan : spanOld table old = []) :
    (scanTable old ⟨0, none, none, none, 0⟩ table).first = none := by
  rw [scanTable_eq]
  refine (foldl_visit_other _ fun d hd => ?_).1
  rw [spanOld_eq_nil, oldDescs, List.filter_eq_nil_iff] at hspan
  simpa using hspan d hd

/-! ## The new table -/

/-- The new descriptors from `offset` on, when `size` is left. -/
def newDescs : List FisPart → UInt32 → UInt32 → List FisDesc
  | [], _, _ => []
  | p :: rest, offset, size =>
      let d := newDesc p offset size
      d :: newDescs rest (offset + d.size) (size - d.size)

@[simp] theorem newDescs_length (new : List FisPart) (offset size : UInt32) :
    (newDescs new offset size).length = new.length := by
  induction new generalizing offset size with
  | nil => rfl
  | cons p rest ih => rw [newDescs, List.length_cons, List.length_cons, ih]

/-- The loop that writes them replaces as many slots. -/
theorem writeParts_eq (new : List FisPart) :
    ∀ {table : List FisDesc} {desc : Nat} (offset size : UInt32),
      desc + new.length ≤ table.length →
      writeParts new desc offset size table
        = some (table.take desc ++ (newDescs new offset size ++ table.drop (desc + new.length))) := by
  induction new with
  | nil =>
      intro table desc offset size _
      simp [writeParts, newDescs]
  | cons p rest ih =>
      intro table desc offset size h
      rw [List.length_cons] at h
      have hlt : desc < table.length := by omega
      have hset : table.set desc (newDesc p offset size)
          = (table.take desc ++ [newDesc p offset size]) ++ table.drop (desc + 1) := by
        rw [List.set_eq_take_append_cons_drop, if_pos hlt, List.append_assoc]
        rfl
      have hlen : (table.take desc ++ [newDesc p offset size]).length = desc + 1 := by
        rw [List.length_append, List.length_take, List.length_singleton]
        omega
      have hdrop : ((table.take desc ++ [newDesc p offset size]) ++ table.drop (desc + 1)).drop
          (desc + 1 + rest.length) = table.drop (desc + (rest.length + 1)) := by
        rw [List.drop_append, hlen, List.drop_of_length_le (by rw [hlen]; omega), List.nil_append,
          List.drop_drop]
        congr 1
        omega
      simp only [writeParts, if_pos hlt]
      rw [ih _ _ (by rw [List.length_set]; omega), hset, List.take_left' hlen, hdrop, newDescs,
        List.length_cons, List.append_assoc, List.singleton_append, List.cons_append]

/-- A shorter span leads to a `memset` of negative length. -/
theorem shiftTail_back {desc last : Nat} (h : desc < last) (hlast : last ≤ table.length) :
    shiftTail table desc last = none := by
  have hmove : ∃ moved, memmove table desc last (table.length - last) = some moved ∧
      moved.length = table.length := by
    refine ⟨_, if_pos ⟨by omega, by omega⟩, ?_⟩
    simp only [List.length_append, List.length_take, List.length_drop]
    omega
  obtain ⟨moved, hmove, hlen⟩ := hmove
  unfold shiftTail
  rw [if_pos (by omega)]
  simp only [if_neg (Nat.lt_asymm h), if_pos hlast, hmove, Option.bind_eq_bind, Option.bind_some,
    if_pos h]
  rw [memsetBlank, if_neg]
  omega

/-- Otherwise the rest of the table moves back, as far as it fits. -/
theorem shiftTail_forward {desc last : Nat} (h : last ≤ desc) (hfit : desc ≤ table.length) :
    shiftTail table desc last
      = some (table.take desc ++ (table.drop last).take (table.length - desc)) := by
  unfold shiftTail
  rcases Nat.eq_or_lt_of_le h with rfl | hlt
  · have hall : (table.drop last).take (table.length - last) = table.drop last :=
      List.take_of_length_le (by rw [List.length_drop])
    rw [if_neg (by simp), hall, List.take_append_drop]
  · have hmove : memmove table desc last (table.length - desc)
        = some (table.take desc ++ (table.drop last).take (table.length - desc)) := by
      have hend : table.drop (desc + (table.length - desc)) = [] :=
        List.drop_of_length_le (by omega)
      rw [memmove, if_pos ⟨by omega, by omega⟩, hend, List.append_nil]
    rw [if_pos (by omega)]
    simp only [gt_iff_lt, if_pos hlt, if_pos hfit, hmove, Option.bind_eq_bind, Option.bind_some,
      if_neg (Nat.lt_asymm hlt)]

/-- It must not move over the end of the mapping. -/
theorem shiftTail_over {desc last : Nat} (h : last < desc) (hfit : table.length < desc) :
    shiftTail table desc last = none := by
  unfold shiftTail
  rw [if_pos (by omega)]
  simp only [gt_iff_lt, if_pos h, if_neg (Nat.not_le_of_lt hfit), Option.bind_eq_bind,
    Option.bind_none]

/-- The descriptor up to which the size fixup goes: the last of the table,
or the directory itself if that is an old partition. -/
def followDesc (table : List FisDesc) (old : List FisPart) : Option FisDesc :=
  if afterOld table old = [] then ((descs table).filter FisDesc.isFisdir).getLast?
  else (afterOld table old).getLast?

/-- The size that the new partitions can share: the sum of the old sizes
with the fixup. -/
def sharedSize (table : List FisDesc) (old : List FisPart) : UInt32 :=
  ((oldDescs table old).map (·.size)).sum + (match (spanOld table old).getLast? with
    | none => 0
    | some last => sizeFixup last (followDesc table old))

/-- Where the first old partition starts. -/
def firstBase (table : List FisDesc) (old : List FisPart) : UInt32 :=
  match (spanOld table old).head? with
  | none => 0
  | some first => first.flashBase

theorem table_parts (table : List FisDesc) (old : List FisPart) :
    table = beforeOld table old ++ (spanOld table old ++ (afterOld table old ++ tailSlots table)) := by
  conv_lhs => rw [table_split table, descs_split table old]
  simp only [List.append_assoc]

theorem getElem?_of_split {a b : List FisDesc} {x : FisDesc} {i : Nat}
    (h : table = a ++ x :: b) (hi : i = a.length) : table[i]? = some x := by
  rw [h, hi, List.getElem?_append_right (Nat.le_refl _), Nat.sub_self]
  rfl

/-- What `fis_remap` does once it has found the old partitions. -/
theorem fisRemap_found (hspan : spanOld table old ≠ []) :
    fisRemap true table old new =
      (shiftTail table ((beforeOld table old).length + new.length)
        ((beforeOld table old).length + (spanOld table old).length)).bind fun table' =>
      (writeParts new (beforeOld table old).length (firstBase table old) (sharedSize table old)
        table').bind fun table' => some (0, table') := by
  obtain ⟨⟨x, rest, hx, _⟩, init, y, hy, _⟩ := spanOld_ends hspan
  obtain ⟨hdesc, hfirst, hlast, hsize, hfisdir⟩ := scanTable_spec hspan
  have hparts := table_parts table old
  have hlen : (spanOld table old).length = init.length + 1 := by simp [hy]
  have hx' : table[(beforeOld table old).length]? = some x := by
    rw [hx] at hparts
    exact getElem?_of_split hparts rfl
  have hy' : table[(beforeOld table old).length + (spanOld table old).length - 1]? = some y := by
    rw [hlen]
    rw [hy, List.append_assoc, ← List.append_assoc] at hparts
    exact getElem?_of_split hparts (by rw [List.length_append]; omega)
  -- the descriptor of the size fixup
  have hdescs := congrArg List.length (descs_split table old)
  simp only [List.length_append] at hdescs
  have hfollow : ((if (scanTable old ⟨0, none, none, none, 0⟩ table).desc - 1
        = (beforeOld table old).length + (spanOld table old).length - 1
      then (scanTable old ⟨0, none, none, none, 0⟩ table).fisdir
      else some ((scanTable old ⟨0, none, none, none, 0⟩ table).desc - 1)).bind
        fun i => table[i]?) = followDesc table old := by
    rw [hdesc, followDesc]
    rcases List.eq_nil_or_concat (afterOld table old) with hafter | ⟨mid, z, hafter⟩
    · rw [hafter, List.length_nil] at hdescs
      rw [if_pos (by omega), if_pos hafter, hfisdir]
    · rw [List.concat_eq_append] at hafter
      rw [hafter, List.length_append, List.length_singleton] at hdescs
      rw [if_neg (by omega), if_neg (by simp [hafter]), hafter, List.getLast?_concat,
        Option.bind_some]
      rw [hafter, ← List.append_assoc, ← List.append_assoc, ← List.append_assoc,
        List.append_assoc _ [z]] at hparts
      refine getElem?_of_split hparts ?_
      rw [List.length_append, List.length_append]
      omega
  have hshared : ((oldDescs table old).map (·.size)).sum + sizeFixup y (followDesc table old)
      = sharedSize table old := by
    rw [sharedSize, hy, List.getLast?_concat]
  have hbase : x.flashBase = firstBase table old := by
    rw [firstBase, hx, List.head?_cons]
  have hend : (beforeOld table old).length + (spanOld table old).length - 1 + 1
      = (beforeOld table old).length + (spanOld table old).length := by omega
  unfold fisRemap
  rw [if_pos rfl]
  simp only [Option.bind_eq_bind]
  rw [hfirst, Option.bind_some, hlast, Option.bind_some, hx', Option.bind_some, hy',
    Option.bind_some, hfollow, hsize, hshared, hbase, hend]
  rfl

/-- Fewer new descriptors than the span has, or more than the table can
hold, and it crashes. -/
theorem fisRemap_crash (hspan : spanOld table old ≠ [])
    (h : new.length < (spanOld table old).length ∨
      table.length < (beforeOld table old).length + new.length) :
    fisRemap true table old new = none := by
  have hlen := congrArg List.length (table_parts table old)
  simp only [List.length_append] at hlen
  rw [fisRemap_found hspan]
  by_cases hfew : new.length < (spanOld table old).length
  · rw [shiftTail_back (by omega) (by omega), Option.bind_none]
  · rw [shiftTail_over (by omega) (by omega), Option.bind_none]

/-- Otherwise the span is replaced, and what goes over the end is lost. -/
theorem fisRemap_eq (hspan : spanOld table old ≠ [])
    (henough : (spanOld table old).length ≤ new.length)
    (hfit : (beforeOld table old).length + new.length ≤ table.length) :
    fisRemap true table old new = some (0, beforeOld table old ++
      (newDescs new (firstBase table old) (sharedSize table old) ++
        (afterOld table old ++ tailSlots table).take
          (table.length - ((beforeOld table old).length + new.length)))) := by
  have hparts := table_parts table old
  generalize hf : (beforeOld table old).length = f at hfit
  have hbefore : table.take f = beforeOld table old :=
    (congrArg (List.take f) hparts).trans (List.take_left' hf)
  have hrest : table.drop (f + (spanOld table old).length)
      = afterOld table old ++ tailSlots table := by
    refine (congrArg (List.drop _) hparts).trans ?_
    rw [← List.append_assoc]
    exact List.drop_left' (by rw [List.length_append, hf])
  have hfront : (table.take (f + new.length)).length = f + new.length := by
    rw [List.length_take]
    omega
  rw [fisRemap_found hspan, hf, shiftTail_forward (by omega) hfit, Option.bind_some, hrest,
    writeParts_eq _ _ _ (by rw [List.length_append, hfront]; omega), Option.bind_some,
    List.take_append_of_le_length (by rw [hfront]; omega), List.take_take,
    Nat.min_eq_left (by omega), hbefore, List.drop_left' hfront]

/-! ## Sound tables -/

/-- The flash that a descriptor takes. -/
def FisDesc.Covers (d : FisDesc) (x : Nat) : Prop :=
  d.flashBase.toNat ≤ x ∧ x < d.flashBase.toNat + d.size.toNat

/-- The new descriptors tile exactly the flash of the old ones: each starts
where the one before it ends, together they cover what the old ones covered,
and nothing of another descriptor. -/
structure Tiles (olds others news : List FisDesc) : Prop where
  consecutive : news.IsChain fun d d' => d'.flashBase.toNat = d.flashBase.toNat + d.size.toNat
  region : ∀ x, (∃ d ∈ news, d.Covers x) ↔ ∃ d ∈ olds, d.Covers x
  apart : ∀ d ∈ others, ∀ n ∈ news, ∀ x, ¬ (d.Covers x ∧ n.Covers x)

/-- What an update is for: it is rejected and the table unchanged, or all
other descriptors are still there in their order, with the new ones in the
place of the first old one, and every slot behind them is blank. -/
def RemapSound (opens : Bool) (table : List FisDesc) (old new : List FisPart) : Prop :=
  fisRemap opens table old new = some (-1, table) ∨
  ∃ news behind blanks,
    fisRemap opens table old new
      = some (0, beforeOld table old ++ (news ++ (behind ++ blanks))) ∧
    beforeOld table old ++ behind = otherDescs table old ∧
    news.map (·.name) = new.map (·.name) ∧ (∀ d ∈ news, d.isEnd = false) ∧
    (∀ d ∈ blanks, d = FisDesc.blank) ∧
    Tiles (oldDescs table old) (otherDescs table old) news

/-- The sizes asked for; a partition without a size gets what is left. -/
def sizesAsked : List FisPart → UInt32 → List Nat
  | [], _ => []
  | p :: rest, size =>
      let s := if p.size > 0 then p.size else size
      s.toNat :: sizesAsked rest (size - s)

/-- The requests that are carried out soundly. -/
structure RemapOk (table : List FisDesc) (old new : List FisPart) : Prop where
  found : spanOld table old ≠ []
  adjacent : ∀ d ∈ spanOld table old, d.isOneOf old = true
  enough : (spanOld table old).length ≤ new.length
  room : (beforeOld table old).length + new.length + (afterOld table old).length ≤ table.length
  blank : ∀ d ∈ (tailSlots table).take (table.length -
    ((beforeOld table old).length + new.length + (afterOld table old).length)), d = FisDesc.blank
  names : ∀ p ∈ new, p.name[0] ≠ 0 ∧ p.name[0] ≠ 0xff
  noWrap : (firstBase table old).toNat + (sizesAsked new (sharedSize table old)).dropLast.sum
    < 2 ^ 32
  region : ∀ x, ((firstBase table old).toNat ≤ x ∧
      x < (firstBase table old).toNat + (sizesAsked new (sharedSize table old)).sum) ↔
    ∃ d ∈ oldDescs table old, d.Covers x
  apart : ∀ d ∈ otherDescs table old, ∀ x, d.Covers x →
    ¬ ((firstBase table old).toNat ≤ x ∧
      x < (firstBase table old).toNat + (sizesAsked new (sharedSize table old)).sum)

/-! ## The flash of the new descriptors -/

theorem newDescs_name (new : List FisPart) (offset size : UInt32) :
    (newDescs new offset size).map (·.name) = new.map (·.name) := by
  induction new generalizing offset size with
  | nil => rfl
  | cons p rest ih =>
      rw [newDescs, List.map_cons, ih]
      rfl

theorem sizesAsked_dropLast (p q : FisPart) (rest : List FisPart) (offset size : UInt32) :
    (sizesAsked (p :: q :: rest) size).dropLast.sum = (newDesc p offset size).size.toNat
      + (sizesAsked (q :: rest) (size - (newDesc p offset size).size)).dropLast.sum := by
  simp only [sizesAsked, List.dropLast_cons_cons, List.sum_cons]
  rfl

/-- They follow each other if no offset wraps. -/
theorem newDescs_consecutive (new : List FisPart) (offset size : UInt32) :
    (newDescs new offset size).IsChain
        (fun d d' => d'.flashBase.toNat = d.flashBase.toNat + d.size.toNat) ↔
      offset.toNat + (sizesAsked new size).dropLast.sum < 2 ^ 32 := by
  induction new generalizing offset size with
  | nil => simpa [newDescs, sizesAsked] using offset.toNat_lt
  | cons p rest ih =>
      cases rest with
      | nil => simpa [newDescs, sizesAsked] using offset.toNat_lt
      | cons q rest =>
          have hih := ih (offset + (newDesc p offset size).size)
            (size - (newDesc p offset size).size)
          have hadd := UInt32.toNat_add offset (newDesc p offset size).size
          have hchain : (newDescs (p :: q :: rest) offset size).IsChain
              (fun d d' => d'.flashBase.toNat = d.flashBase.toNat + d.size.toNat) ↔
              (offset + (newDesc p offset size).size).toNat
                = offset.toNat + (newDesc p offset size).size.toNat ∧
              (newDescs (q :: rest) (offset + (newDesc p offset size).size)
                (size - (newDesc p offset size).size)).IsChain
                (fun d d' => d'.flashBase.toNat = d.flashBase.toNat + d.size.toNat) :=
            List.isChain_cons_cons
          rw [hchain, hih, sizesAsked_dropLast p q rest offset size, hadd]
          omega

/-- Together they cover an interval. -/
theorem newDescs_covers (new : List FisPart) (offset size : UInt32) (x : Nat)
    (h : offset.toNat + (sizesAsked new size).dropLast.sum < 2 ^ 32) :
    (∃ d ∈ newDescs new offset size, d.Covers x) ↔
      offset.toNat ≤ x ∧ x < offset.toNat + (sizesAsked new size).sum := by
  induction new generalizing offset size with
  | nil =>
      simp only [newDescs, sizesAsked, List.sum_nil, List.not_mem_nil, false_and, exists_false,
        false_iff]
      omega
  | cons p rest ih =>
      have hadd := UInt32.toNat_add offset (newDesc p offset size).size
      have hsizes : (sizesAsked (p :: rest) size).sum = (newDesc p offset size).size.toNat
          + (sizesAsked rest (size - (newDesc p offset size).size)).sum := rfl
      have hfirst : (newDesc p offset size).Covers x ↔
          offset.toNat ≤ x ∧ x < offset.toNat + (newDesc p offset size).size.toNat := Iff.rfl
      cases rest with
      | nil =>
          rw [hsizes]
          simp only [newDescs, List.mem_singleton, exists_eq_left, hfirst, sizesAsked,
            List.sum_nil, Nat.add_zero]
      | cons q rest =>
          rw [sizesAsked_dropLast p q rest offset size] at h
          have hwrap : (offset + (newDesc p offset size).size).toNat
              = offset.toNat + (newDesc p offset size).size.toNat := by
            rw [hadd]
            omega
          have hih := ih (offset + (newDesc p offset size).size)
            (size - (newDesc p offset size).size) (by rw [hwrap]; omega)
          rw [newDescs]
          simp only [List.mem_cons, or_and_right, exists_or, exists_eq_left]
          rw [hfirst, hih, hwrap, hsizes]
          omega

/-- The tiling, as a condition on the sizes asked for. -/
theorem tiles_newDescs (olds others : List FisDesc) (new : List FisPart) (offset size : UInt32) :
    Tiles olds others (newDescs new offset size) ↔
      offset.toNat + (sizesAsked new size).dropLast.sum < 2 ^ 32 ∧
      (∀ x, (offset.toNat ≤ x ∧ x < offset.toNat + (sizesAsked new size).sum) ↔
        ∃ d ∈ olds, d.Covers x) ∧
      (∀ d ∈ others, ∀ x, d.Covers x →
        ¬ (offset.toNat ≤ x ∧ x < offset.toNat + (sizesAsked new size).sum)) := by
  constructor
  · intro h
    have hwrap := (newDescs_consecutive new offset size).mp h.consecutive
    have hcovers := fun x => newDescs_covers new offset size x hwrap
    refine ⟨hwrap, fun x => (hcovers x).symm.trans (h.region x), fun d hd x hx hin => ?_⟩
    obtain ⟨n, hn, hnx⟩ := (hcovers x).mpr hin
    exact h.apart d hd n hn x ⟨hx, hnx⟩
  · rintro ⟨hwrap, hregion, hapart⟩
    have hcovers := fun x => newDescs_covers new offset size x hwrap
    refine ⟨(newDescs_consecutive new offset size).mpr hwrap,
      fun x => (hcovers x).trans (hregion x), fun d hd n hn x hx => ?_⟩
    exact hapart d hd x hx.1 ((hcovers x).mp ⟨n, hn, hx.2⟩)

/-! ## The result -/

theorem blank_isEnd : FisDesc.blank.isEnd = true := by decide

/-- Descriptors in front of something that is no descriptor. -/
theorem descs_append {a b : List FisDesc} (ha : ∀ d ∈ a, d.isEnd = false)
    (hb : ∀ d rest, b = d :: rest → d.isEnd = true) : descs (a ++ b) = a := by
  rw [descs, List.takeWhile_append_of_pos (fun d hd => by simp [ha d hd])]
  cases b with
  | nil => simp
  | cons d rest => simp [hb d rest rfl]

theorem newDescs_isEnd (new : List FisPart) (offset size : UInt32) :
    (∀ d ∈ newDescs new offset size, d.isEnd = false) ↔
      ∀ p ∈ new, (newDesc p 0 0).isEnd = false := by
  induction new generalizing offset size with
  | nil => simp [newDescs]
  | cons p rest ih =>
      rw [newDescs, List.forall_mem_cons, List.forall_mem_cons, ih]
      rfl

theorem otherDescs_eq (table : List FisDesc) (old : List FisPart) :
    otherDescs table old = beforeOld table old ++
      ((spanOld table old).filter (fun d => !d.isOneOf old) ++ afterOld table old) := by
  have hbefore : (beforeOld table old).filter (fun d => !d.isOneOf old) = beforeOld table old :=
    List.filter_eq_self.mpr fun d hd => by simp [mem_beforeOld hd]
  have hafter : (afterOld table old).filter (fun d => !d.isOneOf old) = afterOld table old :=
    List.filter_eq_self.mpr fun d hd => by simp [mem_afterOld hd]
  rw [otherDescs, descs_split table old, List.filter_append, List.filter_append, hbefore, hafter]

/-- The slots behind the new descriptors are right if and only if only old
partitions were in the span, nothing goes over the end, and the slots that
follow are blank. -/
theorem behind_iff (table : List FisDesc) (old : List FisPart) (m : Nat) :
    (∃ behind blanks, (afterOld table old ++ tailSlots table).take m = behind ++ blanks ∧
      beforeOld table old ++ behind = otherDescs table old ∧
      (∀ d ∈ blanks, d = FisDesc.blank)) ↔
    (∀ d ∈ spanOld table old, d.isOneOf old = true) ∧ (afterOld table old).length ≤ m ∧
      ∀ d ∈ (tailSlots table).take (m - (afterOld table old).length), d = FisDesc.blank := by
  have hproper : ∀ d ∈ otherDescs table old, d.isEnd = false :=
    fun d hd => not_isEnd_of_mem (List.mem_of_mem_filter hd)
  rw [otherDescs_eq] at hproper ⊢
  have hafter : ∀ d ∈ afterOld table old, d.isEnd = false := fun d hd =>
    hproper d (List.mem_append_right _ (List.mem_append_right _ hd))
  constructor
  · rintro ⟨behind, blanks, heq, hbehind, hblanks⟩
    rw [List.append_cancel_left_eq] at hbehind
    rw [List.take_append] at heq
    -- both sides have the same descriptors in front
    have hleft : descs ((afterOld table old).take m ++
        (tailSlots table).take (m - (afterOld table old).length)) = (afterOld table old).take m := by
      refine descs_append (fun d hd => hafter d (List.mem_of_mem_take hd)) fun d rest hd => ?_
      refine @tailSlots_head table d (rest ++ (tailSlots table).drop
        (m - (afterOld table old).length)) ?_
      rw [← List.cons_append, ← hd, List.take_append_drop]
    have hright : descs (behind ++ blanks) = behind := by
      refine descs_append (fun d hd => ?_) fun d rest hd => ?_
      · rw [hbehind] at hd
        exact hproper d (List.mem_append_right _ hd)
      · rw [hblanks d (by rw [hd]; exact List.mem_cons_self)]
        exact blank_isEnd
    rw [heq, hright, hbehind] at hleft
    have hlen := congrArg List.length hleft
    rw [List.length_append, List.length_take] at hlen
    have hnil : (spanOld table old).filter (fun d => !d.isOneOf old) = [] :=
      List.eq_nil_of_length_eq_zero (by omega)
    refine ⟨fun d hd => ?_, by omega, ?_⟩
    · have := List.filter_eq_nil_iff.mp hnil d hd
      simpa using this
    · rw [hbehind, hnil, List.nil_append, List.take_of_length_le (by omega),
        List.append_cancel_left_eq] at heq
      rw [heq]
      exact hblanks
  · rintro ⟨hspan, hm, hblank⟩
    have hnil : (spanOld table old).filter (fun d => !d.isOneOf old) = [] :=
      List.filter_eq_nil_iff.mpr fun d hd => by simp [hspan d hd]
    refine ⟨afterOld table old, _, ?_, ?_, hblank⟩
    · rw [List.take_append, List.take_of_length_le hm]
    · rw [hnil, List.nil_append]

/-- Without an old partition in the table, NULL is dereferenced. -/
theorem fisRemap_notFound (hspan : spanOld table old = []) :
    fisRemap true table old new = none := by
  unfold fisRemap
  rw [if_pos rfl]
  simp only [Option.bind_eq_bind]
  rw [scanTable_none hspan, Option.bind_none]

/-- A request that goes through found the old partitions, has enough new
ones, and they fit. -/
theorem fisRemap_some {r : Int × List FisDesc} (h : fisRemap true table old new = some r) :
    spanOld table old ≠ [] ∧ (spanOld table old).length ≤ new.length ∧
      (beforeOld table old).length + new.length ≤ table.length := by
  have hspan : spanOld table old ≠ [] := by
    intro hnil
    rw [fisRemap_notFound hnil] at h
    cases h
  refine ⟨hspan, Nat.le_of_not_lt fun hlt => ?_, Nat.le_of_not_lt fun hlt => ?_⟩
  · rw [fisRemap_crash hspan (Or.inl hlt)] at h
    cases h
  · rw [fisRemap_crash hspan (Or.inr hlt)] at h
    cases h

/-- When an update of the FIS directory is sound: for every table, every
list of old partitions and every list of new ones, `fis_remap` rejects the
request or leaves a sound table if and only if the directory cannot be
opened or the request meets `RemapOk`. -/
theorem fisRemap_sound_iff (opens : Bool) (table : List FisDesc) (old new : List FisPart) :
    RemapSound opens table old new ↔ opens = false ∨ RemapOk table old new := by
  cases opens with
  | false => exact ⟨fun _ => Or.inl rfl, fun _ => Or.inl rfl⟩
  | true =>
      constructor
      · rintro (hreject | ⟨news, behind, blanks, hresult, hbehind, hnames, hproper, hblanks, htiles⟩)
        · obtain ⟨hspan, henough, hfit⟩ := fisRemap_some hreject
          rw [fisRemap_eq hspan henough hfit] at hreject
          cases hreject
        · obtain ⟨hspan, henough, hfit⟩ := fisRemap_some hresult
          rw [fisRemap_eq hspan henough hfit, Option.some.injEq, Prod.mk.injEq,
            List.append_cancel_left_eq] at hresult
          have hlen : news.length = new.length := by
            rw [← List.length_map (·.name), hnames, List.length_map]
          obtain ⟨rfl, htail⟩ := List.append_inj hresult.2 (by rw [newDescs_length, hlen])
          obtain ⟨hadjacent, hroom, hblank⟩ :=
            (behind_iff table old _).mp ⟨behind, blanks, htail, hbehind, hblanks⟩
          obtain ⟨hwrap, hregion, hapart⟩ := (tiles_newDescs _ _ _ _ _).mp htiles
          rw [Nat.sub_sub] at hblank
          have hnew := (newDescs_isEnd _ _ _).mp hproper
          exact Or.inr ⟨hspan, hadjacent, henough, by omega, hblank,
            by simpa [FisDesc.isEnd, newDesc] using hnew, hwrap, hregion, hapart⟩
      · rintro (h | h)
        · cases h
        · have hroom := h.room
          have hnew : ∀ p ∈ new, (newDesc p 0 0).isEnd = false := by
            simpa [FisDesc.isEnd, newDesc] using h.names
          obtain ⟨behind, blanks, htail, hbehind, hblanks⟩ :=
            (behind_iff table old (table.length - ((beforeOld table old).length + new.length))).mpr
              ⟨h.adjacent, by omega, by rw [Nat.sub_sub]; exact h.blank⟩
          refine Or.inr ⟨_, behind, blanks, ?_, hbehind, newDescs_name _ _ _,
            (newDescs_isEnd _ _ _).mpr hnew, hblanks,
            (tiles_newDescs _ _ _ _ _).mpr ⟨h.noWrap, h.region, h.apart⟩⟩
          rw [fisRemap_eq h.found h.enough (by omega), htail]

/-! ## Fewer new partitions -/

/-- The names `kernel`, `rootfs` and `FIS directory`. -/
def kernelName : Vector UInt8 16 :=
  #v[0x6b, 0x65, 0x72, 0x6e, 0x65, 0x6c, 0, 0, 0, 0, 0, 0, 0, 0, 0, 0]

def rootfsName : Vector UInt8 16 :=
  #v[0x72, 0x6f, 0x6f, 0x74, 0x66, 0x73, 0, 0, 0, 0, 0, 0, 0, 0, 0, 0]

def fisdirName : Vector UInt8 16 :=
  #v[0x46, 0x49, 0x53, 0x20, 0x64, 0x69, 0x72, 0x65, 0x63, 0x74, 0x6f, 0x72, 0x79, 0, 0, 0]

/-- Three partitions of one block each, and a blank slot. -/
def smallTable : List FisDesc :=
  [newDesc ⟨kernelName, 0, 0x10000⟩ 0 0, newDesc ⟨rootfsName, 0, 0x10000⟩ 0x10000 0,
    newDesc ⟨fisdirName, 0, 0x10000⟩ 0x20000 0, FisDesc.blank]

/-- To move the border between `kernel` and `rootfs` is sound. -/
theorem fisRemap_sound_resize :
    RemapSound true smallTable [⟨kernelName, 0, 0⟩, ⟨rootfsName, 0, 0⟩]
      [⟨kernelName, 0, 0x18000⟩, ⟨rootfsName, 0, 0⟩] := by
  have holds : oldDescs smallTable [⟨kernelName, 0, 0⟩, ⟨rootfsName, 0, 0⟩]
      = [newDesc ⟨kernelName, 0, 0x10000⟩ 0 0, newDesc ⟨rootfsName, 0, 0x10000⟩ 0x10000 0] := rfl
  have hothers : otherDescs smallTable [⟨kernelName, 0, 0⟩, ⟨rootfsName, 0, 0⟩]
      = [newDesc ⟨fisdirName, 0, 0x10000⟩ 0x20000 0] := rfl
  have hbase : (firstBase smallTable [⟨kernelName, 0, 0⟩, ⟨rootfsName, 0, 0⟩]).toNat = 0 := by decide
  have hsizes : sizesAsked [⟨kernelName, 0, 0x18000⟩, ⟨rootfsName, 0, 0⟩]
      (sharedSize smallTable [⟨kernelName, 0, 0⟩, ⟨rootfsName, 0, 0⟩]) = [0x18000, 0x8000] := by decide
  have hfirst : ∀ x, (newDesc ⟨kernelName, 0, 0x10000⟩ 0 0).Covers x ↔ 0 ≤ x ∧ x < 0 + 0x10000 :=
    fun x => Iff.rfl
  have hsecond : ∀ x, (newDesc ⟨rootfsName, 0, 0x10000⟩ 0x10000 0).Covers x ↔
      0x10000 ≤ x ∧ x < 0x10000 + 0x10000 := fun x => Iff.rfl
  have hthird : ∀ x, (newDesc ⟨fisdirName, 0, 0x10000⟩ 0x20000 0).Covers x ↔
      0x20000 ≤ x ∧ x < 0x20000 + 0x10000 := fun x => Iff.rfl
  refine (fisRemap_sound_iff true smallTable _ _).mpr (Or.inr ⟨by decide, by decide, by decide,
    by decide, fun d hd => List.mem_singleton.mp hd, by decide, ?_, fun x => ?_,
    fun d hd x hx => ?_⟩)
  · rw [hbase, hsizes]
    decide
  · rw [hbase, hsizes, holds]
    simp only [List.mem_cons, List.not_mem_nil, or_false, exists_eq_or_imp, exists_eq_left, hfirst,
      hsecond, List.sum_cons, List.sum_nil]
    omega
  · rw [hothers, List.mem_singleton] at hd
    rw [hd, hthird] at hx
    rw [hbase, hsizes]
    simp only [List.sum_cons, List.sum_nil]
    omega

/-- To replace `kernel` and `rootfs` by one partition passes the validation
and crashes: the table has been moved, and the `memset` that should blank
the slot that became free gets the length -256. -/
theorem fisRemap_shrink_crashes :
    ¬ ∀ (table : List FisDesc) (old new : List FisPart),
      (∃ d ∈ descs table, d.isFisdir = true) → fisValidate table old new = 1 →
      RemapSound true table old new := by
  intro hclaim
  have hcrash : fisRemap true smallTable [⟨kernelName, 0, 0⟩, ⟨rootfsName, 0, 0⟩]
      [⟨kernelName, 0, 0x20000⟩] = none := by decide
  have hsound := hclaim smallTable [⟨kernelName, 0, 0⟩, ⟨rootfsName, 0, 0⟩]
    [⟨kernelName, 0, 0x20000⟩] (by decide) (by decide)
  rcases hsound with hreject | ⟨_, _, _, hresult, _⟩
  · rw [hcrash] at hreject
    cases hreject
  · rw [hcrash] at hresult
    cases hresult

end UbntSdk.Mtd
