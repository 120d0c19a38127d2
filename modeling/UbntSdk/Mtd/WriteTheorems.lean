/-
UbntSdk.Mtd.WriteTheorems — when `mtd_write` writes exactly the image.

What can go wrong is the change of partition. The buffer has the erase
size of the first one, so a larger erase size may overrun it. And if the
buffered data go over the end of a partition whose erased part is not
fully written, `resume` writes the part that still fits, but keeps
`buflen`: these bytes count twice.

`ResumeOk` says when neither happens, from the sizes alone. It walks the
partitions with the number of bytes `c` that are in the buffer and the
number `left` that remain to be written when a partition is opened.

The invariant (`Inv`) is that either all is well so far (`GoodFill`,
`GoodErase`) and the condition for the rest of the run is the one for the
whole run, or it is already lost (`Bad`: the buffer was overrun, or more
bytes are written, buffered and unread than the image has) and the
condition is false. There is one lemma for each kind of pass, `Inv.step`
puts them together, and `mtdWrite_faithful_iff` is the result for whole
runs.
-/
import UbntSdk.Mtd.Write
import Mathlib.Data.List.GetD
import Mathlib.Tactic.Common

namespace UbntSdk.Mtd

open UbntSdk.Lib

/-! ## Memory -/

@[simp] theorem bytesAt_length (m : Nat → UInt8) (off n : Nat) : (bytesAt m off n).length = n := by
  simp [bytesAt]

/-- Bytes stored behind the buffered ones. -/
theorem bytesAt_storeAt (m : Nat → UInt8) (n : Nat) (bs : List UInt8) :
    bytesAt (storeAt m n bs) 0 (n + bs.length) = bytesAt m 0 n ++ bs := by
  refine List.ext_getElem (by simp) fun i h₁ h₂ => ?_
  rw [bytesAt_length] at h₁
  rcases Nat.lt_or_ge i n with hlt | hge
  · rw [List.getElem_append_left (by rw [bytesAt_length]; exact hlt)]
    simp only [bytesAt, List.getElem_map, List.getElem_range, storeAt, Nat.zero_add]
    rw [if_neg (by omega)]
  · rw [List.getElem_append_right (by rw [bytesAt_length]; exact hge)]
    simp only [bytesAt, List.getElem_map, List.getElem_range, storeAt, Nat.zero_add,
      List.length_map, List.length_range]
    rw [if_pos ⟨hge, h₁⟩, List.getD_eq_getElem _ _ (by omega)]

/-! ## The condition -/

/-- The bytes in the buffer when the first block of a partition is written:
`c` were there, and the buffer is filled up to the erase size. -/
def firstFill (c erasesize left : Nat) : Nat := if c < erasesize then min erasesize left else c

/-- The sizes are such that no change of partition goes wrong. For each
partition that is reached with something left to write, what is read there
must fit into the buffer of size `b`. And if the image does not end in the
partition, it is empty, or the `c` bytes carried into it are at most one
block or a whole number of blocks that fit. -/
def ResumeOk (b : Nat) : Nat → Nat → List MtdInfo → Prop
  | _, _, [] => True
  | c, left, p :: rest =>
      left = 0 ∨ (firstFill c p.erasesize left ≤ b ∧
        (left ≤ p.size ∨
          ((p.size = 0 ∨ c ≤ p.erasesize ∨ (p.erasesize ∣ c ∧ c ≤ p.size)) ∧
            ResumeOk b
              (if p.size = 0 then firstFill c p.erasesize left
                else min p.erasesize (left - p.size))
              (left - p.size) rest)))

/-- What the writer is for: the bytes written to the partitions are the
image, each went to an erased block, and no access left the buffer. -/
structure Faithful (b : Nat) (image : List UInt8) (s : Writer) : Prop where
  bytes : s.out = image
  erased : s.unerased = false
  bounds : s.touched ≤ b

/-! ## The invariant -/

section Invariant

variable (b : Nat) (image : List UInt8)

/-- What is the same in both inner loops. `left` bytes remained when the
partition was opened. -/
structure Core (left : Nat) (s : Writer) : Prop where
  data : s.out ++ (bytesAt s.mem 0 s.buflen ++ s.image) = image
  offset : s.offset = 0
  pos : s.cur.length = s.w
  total : s.w + s.buflen + s.image.length = left
  buflen : s.buflen ≤ b
  le : s.w ≤ s.e
  inside : s.e ≤ s.part.size
  blocks : s.part.erasesize ∣ s.e
  erased : s.unerased = false
  bounds : s.touched ≤ b

/-- The first block of the partition is written. -/
structure Later (c left : Nat) (s : Writer) : Prop where
  pos : 0 < s.w
  fits : firstFill c s.part.erasesize left ≤ b
  small : s.buflen ≤ s.part.erasesize
  aligned : s.w < left → s.part.erasesize ≤ b ∧
    (s.part.erasesize ∣ s.w ↔ c ≤ s.part.erasesize ∨ s.part.erasesize ∣ c) ∧
    (s.part.erasesize ≤ c → c ≤ s.w)

/-- In the loop that reads. -/
structure GoodFill (c left : Nat) (s : Writer) : Prop where
  core : Core b image left s
  point : s.point = .fill
  near : s.e < s.w + s.part.erasesize
  phase : (s.w = 0 ∧ s.e = 0 ∧ c ≤ s.buflen ∧ s.buflen ≤ max c s.part.erasesize) ∨ Later b c left s

/-- In the loop that erases. -/
structure GoodErase (c left : Nat) (s : Writer) : Prop where
  core : Core b image left s
  point : s.point = .erase
  pos : 0 < s.buflen
  full : s.part.erasesize ≤ s.buflen ∨ s.image = []
  near : s.e < s.w + s.buflen + s.part.erasesize
  phase : (s.w = 0 ∧ s.buflen = firstFill c s.part.erasesize left) ∨
    (Later b c left s ∧ (s.e < s.w + s.part.erasesize ∨ s.w + s.buflen ≤ s.e))

/-- The buffer was overrun, or bytes count twice. -/
def Bad (s : Writer) : Prop :=
  b < s.touched ∨ image.length < s.out.length + s.buflen + s.image.length

/-- The invariant of a run for which the condition is `ok`. -/
def Inv (ok : Prop) (s : Writer) : Prop :=
  (∃ c left, (GoodFill b image c left s ∨ GoodErase b image c left s) ∧
    (ok ↔ ResumeOk b c left (s.part :: s.next))) ∨
  (Bad b image s ∧ ¬ ok)

variable {b image} {c left : Nat} {s : Writer}

/-! ## Passes of the loop that reads -/

/-- A pass that reads something. -/
theorem GoodFill.read (h : GoodFill b image c left s) {bs : List UInt8} (hne : bs ≠ [])
    (hread : bs <+: s.image) (hlen : bs.length ≤ s.part.erasesize - s.buflen)
    (hlt : s.buflen < s.part.erasesize) {s' : Writer}
    (hs' : s' = { s with
      reads := s.reads + 1
      mem := storeAt s.mem s.buflen bs
      buflen := s.buflen + bs.length
      image := s.image.drop bs.length
      touched := max s.touched (s.buflen + bs.length) }) :
    GoodFill b image c left s' ∨ (Bad b image s' ∧ ¬ ResumeOk b c left (s.part :: s.next)) := by
  have hpos : 0 < bs.length := List.length_pos_iff.mpr hne
  obtain ⟨rest, hrest⟩ := hread
  have htotal := h.core.total
  have himage : s.image.length = bs.length + rest.length := by
    rw [← hrest, List.length_append]
  have hdrop : s.image.drop bs.length = rest := by rw [← hrest, List.drop_left]
  by_cases hb : s.buflen + bs.length ≤ b
  · -- the bytes fit into the buffer
    left
    have hcore : Core b image left s' := by
      subst hs'
      refine ⟨?_, h.core.offset, h.core.pos, ?_, hb, h.core.le, h.core.inside, h.core.blocks,
        h.core.erased, Nat.max_le.mpr ⟨h.core.bounds, hb⟩⟩
      · have hdata := h.core.data
        rw [← hrest] at hdata
        simp only [Writer.out, bytesAt_storeAt, hdrop, List.append_assoc] at hdata ⊢
        exact hdata
      · simp only [hdrop]
        omega
    refine ⟨hcore, by rw [hs']; exact h.point, by rw [hs']; exact h.near, ?_⟩
    rcases h.phase with ⟨hw, he, hc, hmax⟩ | hlater
    · refine Or.inl ?_
      subst hs'
      refine ⟨hw, he, ?_, ?_⟩ <;> simp only <;> omega
    · refine Or.inr ?_
      subst hs'
      refine ⟨hlater.pos, hlater.fits, ?_, hlater.aligned⟩
      simp only
      omega
  · -- only the first block of a partition can be too large
    right
    refine ⟨Or.inl (by rw [hs']; simp only; omega), ?_⟩
    rcases h.phase with ⟨hw, he, hc, hmax⟩ | hlater
    · have hfill : s.buflen + bs.length ≤ firstFill c s.part.erasesize left := by
        rw [firstFill]
        split <;> omega
      rintro (h0 | ⟨hfits, _⟩) <;> omega
    · have := (hlater.aligned (by omega)).1
      omega

/-- The loop ends with nothing in the buffer: the image is written. -/
theorem GoodFill.returned (h : GoodFill b image c left s) (hbuflen : s.buflen = 0)
    (himage : s.image = []) :
    Faithful b image s ∧ ResumeOk b c left (s.part :: s.next) := by
  have htotal := h.core.total
  rw [himage, List.length_nil] at htotal
  refine ⟨⟨?_, h.core.erased, h.core.bounds⟩, ?_⟩
  · have hdata := h.core.data
    rw [hbuflen, himage] at hdata
    simpa [bytesAt] using hdata
  · rcases h.phase with ⟨hw, _⟩ | hlater
    · exact Or.inl (by omega)
    · have hle := h.core.le
      have hinside := h.core.inside
      exact Or.inr ⟨hlater.fits, Or.inl (by omega)⟩

/-- The loop ends with something in the buffer. -/
theorem GoodFill.leave (h : GoodFill b image c left s) (hbuflen : s.buflen ≠ 0)
    (hfull : s.part.erasesize ≤ s.buflen ∨ s.image = []) :
    GoodErase b image c left { s with point := .erase } := by
  have hcore := h.core
  have htotal := h.core.total
  refine ⟨⟨hcore.data, hcore.offset, hcore.pos, hcore.total, hcore.buflen, hcore.le, hcore.inside,
    hcore.blocks, hcore.erased, hcore.bounds⟩, rfl, Nat.pos_of_ne_zero hbuflen, hfull, ?_, ?_⟩
  · have hnear := h.near
    show s.e < s.w + s.buflen + s.part.erasesize
    omega
  · rcases h.phase with ⟨hw, he, hc, hmax⟩ | hlater
    · refine Or.inl ⟨hw, ?_⟩
      show s.buflen = firstFill c s.part.erasesize left
      rw [firstFill]
      rcases hfull with hfull | himage
      · split <;> omega
      · rw [himage, List.length_nil] at htotal
        split <;> omega
    · exact Or.inr ⟨⟨hlater.pos, hlater.fits, hlater.small, hlater.aligned⟩, Or.inl h.near⟩

/-! ## Passes of the loop that erases -/

/-- Another block is erased. -/
theorem GoodErase.erase (h : GoodErase b image c left s) (hmore : s.e < s.w + s.buflen)
    (hsize : s.e < s.part.size) :
    GoodErase b image c left { s with e := s.e + s.part.erasesize } := by
  have hcore := h.core
  have hle := h.core.le
  have hblock : s.part.erasesize ≤ s.part.size - s.e :=
    Nat.le_of_dvd (by omega) (Nat.dvd_sub s.part.dvd_size h.core.blocks)
  refine ⟨⟨hcore.data, hcore.offset, hcore.pos, hcore.total, hcore.buflen, ?_, ?_, ?_,
    hcore.erased, hcore.bounds⟩, h.point, h.pos, h.full, ?_, ?_⟩
  · show s.w ≤ s.e + s.part.erasesize
    omega
  · show s.e + s.part.erasesize ≤ s.part.size
    omega
  · exact Nat.dvd_add hcore.blocks (Nat.dvd_refl _)
  · show s.e + s.part.erasesize < s.w + s.buflen + s.part.erasesize
    omega
  · rcases h.phase with hfirst | ⟨hlater, hnear⟩
    · exact Or.inl hfirst
    · have hsmall := hlater.small
      refine Or.inr ⟨⟨hlater.pos, hlater.fits, hlater.small, hlater.aligned⟩, Or.inr ?_⟩
      show s.w + s.buflen ≤ s.e + s.part.erasesize
      omega

/-- The buffer is written. -/
theorem GoodErase.write (h : GoodErase b image c left s) (henough : s.w + s.buflen ≤ s.e)
    {s' : Writer}
    (hs' : s' = { s.write s.buflen with
      w := s.w + s.buflen
      buflen := 0
      offset := 0
      point := .fill }) : GoodFill b image c left s' := by
  have hcore := h.core
  have hpos := h.pos
  have htotal := h.core.total
  have hbuflen := h.core.buflen
  have hoffset := h.core.offset
  have hcur := h.core.pos
  subst hs'
  refine ⟨⟨?_, rfl, ?_, ?_, Nat.zero_le _, henough, hcore.inside, hcore.blocks, ?_, ?_⟩, rfl,
    h.near, Or.inr ⟨?_, ?_, Nat.zero_le _, ?_⟩⟩
  · have hdata := h.core.data
    simp only [Writer.out, Writer.write, hoffset, List.append_assoc] at hdata ⊢
    exact hdata
  · simp only [Writer.write, List.length_append, bytesAt_length, hcur]
  · show s.w + s.buflen + 0 + s.image.length = left
    omega
  · simp only [Writer.write, hcore.erased, hcur, Bool.false_or, decide_eq_false_iff_not]
    omega
  · simp only [Writer.write, hoffset, Nat.zero_add]
    exact Nat.max_le.mpr ⟨hcore.bounds, hbuflen⟩
  · show 0 < s.w + s.buflen
    omega
  · rcases h.phase with ⟨_, hfirst⟩ | ⟨hlater, _⟩
    · show firstFill c s.part.erasesize left ≤ b
      omega
    · exact hlater.fits
  · -- only a full buffer leaves something to read
    intro hleft
    change s.w + s.buflen < left at hleft
    show s.part.erasesize ≤ b ∧
      (s.part.erasesize ∣ s.w + s.buflen ↔ c ≤ s.part.erasesize ∨ s.part.erasesize ∣ c) ∧
      (s.part.erasesize ≤ c → c ≤ s.w + s.buflen)
    have hfull : s.part.erasesize ≤ s.buflen := by
      rcases h.full with hfull | himage
      · exact hfull
      · rw [himage, List.length_nil] at htotal
        omega
    refine ⟨by omega, ?_⟩
    rcases h.phase with ⟨hw, hfirst⟩ | ⟨hlater, _⟩
    · rw [firstFill] at hfirst
      split at hfirst
      · have heq : s.w + s.buflen = s.part.erasesize := by omega
        rw [heq]
        exact ⟨⟨fun _ => Or.inl (by omega), fun _ => Nat.dvd_refl _⟩, fun _ => by omega⟩
      · have heq : s.w + s.buflen = c := by omega
        rw [heq]
        refine ⟨⟨Or.inr, ?_⟩, fun _ => Nat.le_refl _⟩
        rintro (hle | hdvd)
        · have hc : s.part.erasesize = c := by omega
          exact hc ▸ Nat.dvd_refl _
        · exact hdvd
    · obtain ⟨_, haligned, hc⟩ := hlater.aligned (by omega)
      have heq : s.buflen = s.part.erasesize := Nat.le_antisymm hlater.small hfull
      rw [heq, ← Nat.dvd_add_iff_left (Nat.dvd_refl s.part.erasesize)]
      exact ⟨haligned, fun hle => by have := hc hle; omega⟩

/-- The partition is full and its erased part is fully written: the next
one starts with what is in the buffer. -/
theorem GoodErase.resume (h : GoodErase b image c left s) (hmore : s.e < s.w + s.buflen)
    (hsize : ¬ s.e < s.part.size) (hw : ¬ s.w < s.e) {p : MtdInfo} {rest : List MtdInfo}
    (hnext : s.next = p :: rest) :
    GoodFill b image s.buflen (s.buflen + s.image.length) (s.resume p rest) ∧
      (ResumeOk b c left (s.part :: s.next) ↔
        ResumeOk b s.buflen (s.buflen + s.image.length) (p :: rest)) := by
  have hcore := h.core
  have htotal := h.core.total
  have hle := h.core.le
  have hinside := h.core.inside
  have hbuflen := h.core.buflen
  have hpos := p.erasesize_pos
  have hend : s.w = s.part.size := by omega
  refine ⟨⟨⟨?_, hcore.offset, rfl, ?_, hbuflen, Nat.le_refl _, Nat.zero_le _, Nat.dvd_zero _,
    hcore.erased, hcore.bounds⟩, rfl, ?_, Or.inl ⟨rfl, rfl, Nat.le_refl _, Nat.le_max_left _ _⟩⟩, ?_⟩
  · have hdata := h.core.data
    simp only [Writer.out, Writer.resume, List.flatten_append, List.flatten_singleton,
      List.append_nil] at hdata ⊢
    exact hdata
  · show 0 + s.buflen + s.image.length = _
    omega
  · show 0 < 0 + p.erasesize
    omega
  · have hleft : left - s.part.size = s.buflen + s.image.length := by omega
    have hcarry : (if s.part.size = 0 then firstFill c s.part.erasesize left
        else min s.part.erasesize (left - s.part.size)) = s.buflen := by
      rcases h.phase with ⟨hw0, hfirst⟩ | ⟨hlater, _⟩
      · rw [if_pos (by omega), hfirst]
      · have hw0 := hlater.pos
        have hsmall := hlater.small
        rw [if_neg (by omega), hleft]
        rcases h.full with hfull | himage
        · omega
        · rw [himage, List.length_nil]
          omega
    have hfits : firstFill c s.part.erasesize left ≤ b := by
      rcases h.phase with ⟨_, hfirst⟩ | ⟨hlater, _⟩
      · omega
      · exact hlater.fits
    have hblocks : s.part.size = 0 ∨ c ≤ s.part.erasesize ∨
        (s.part.erasesize ∣ c ∧ c ≤ s.part.size) := by
      rcases h.phase with ⟨hw0, _⟩ | ⟨hlater, _⟩
      · exact Or.inl (by omega)
      · obtain ⟨_, haligned, hc⟩ := hlater.aligned (by omega)
        have hdvd : s.part.erasesize ∣ s.w := by
          rw [hend]
          exact s.part.dvd_size
        rcases haligned.mp hdvd with hc' | hc'
        · exact Or.inr (Or.inl hc')
        · rcases Nat.le_total c s.part.erasesize with hle' | hge
          · exact Or.inr (Or.inl hle')
          · exact Or.inr (Or.inr ⟨hc', by have := hc hge; omega⟩)
    rw [ResumeOk, hcarry, hleft, hnext]
    constructor
    · rintro (h0 | ⟨_, hsmall | ⟨_, hrest⟩⟩)
      · omega
      · omega
      · exact hrest
    · exact fun hrest => Or.inr ⟨hfits, Or.inr ⟨hblocks, hrest⟩⟩

/-- The partition is full but its erased part is not fully written: the
bytes that go there are written, and stay in the buffer. -/
theorem GoodErase.overlap (h : GoodErase b image c left s) (hmore : s.e < s.w + s.buflen)
    (hsize : ¬ s.e < s.part.size) (hw : s.w < s.e) (p : MtdInfo) (rest : List MtdInfo) :
    Bad b image (({ s.write (s.e - s.w) with offset := s.e - s.w } : Writer).resume p rest) ∧
      ¬ ResumeOk b c left (s.part :: s.next) := by
  have htotal := h.core.total
  have hinside := h.core.inside
  have hpos := s.part.erasesize_pos
  constructor
  · right
    have hlen := congrArg List.length h.core.data
    simp only [List.length_append, bytesAt_length, Writer.out] at hlen
    simp only [Writer.out, Writer.resume, Writer.write, List.flatten_append,
      List.flatten_singleton, List.append_nil, List.length_append, bytesAt_length]
    omega
  · have hblocks : ¬ (s.part.size = 0 ∨ c ≤ s.part.erasesize ∨
        (s.part.erasesize ∣ c ∧ c ≤ s.part.size)) := by
      have hone : s.part.erasesize ≤ s.part.size :=
        Nat.le_of_dvd (by omega) s.part.dvd_size
      rcases h.phase with ⟨hw0, hfirst⟩ | ⟨hlater, hnear⟩
      · -- the first buffer is larger than the partition
        rw [firstFill] at hfirst
        split at hfirst <;> omega
      · have hndvd : ¬ s.part.erasesize ∣ s.w := by
          intro hdvd
          have := Nat.le_of_dvd (by omega) (Nat.dvd_sub h.core.blocks hdvd)
          omega
        obtain ⟨_, haligned, _⟩ := hlater.aligned (by omega)
        rw [haligned, not_or] at hndvd
        rintro (h0 | hc | ⟨hc, _⟩)
        · omega
        · exact hndvd.1 hc
        · exact hndvd.2 hc
    rintro (h0 | ⟨_, hsmall | ⟨hok, _⟩⟩)
    · omega
    · omega
    · exact hblocks hok

/-! ## The run -/

/-- What a pass of the loop that reads can do, if no read fails. -/
theorem writeBody_fill {rd : Reads} (hrd : ∀ i, rd.fails i = false) (hpoint : s.point = .fill) :
    (∃ bs, bs ≠ [] ∧ bs <+: s.image ∧ bs.length ≤ s.part.erasesize - s.buflen ∧
      s.buflen < s.part.erasesize ∧
      writeBody rd s = .next { s with
        reads := s.reads + 1
        mem := storeAt s.mem s.buflen bs
        buflen := s.buflen + bs.length
        image := s.image.drop bs.length
        touched := max s.touched (s.buflen + bs.length) }) ∨
    (∃ k, writeBody rd s = .next { s with reads := k }) ∨
    ((s.part.erasesize ≤ s.buflen ∨ s.image = []) ∧
      ∃ k, writeBody rd s = ({ s with reads := k } : Writer).leaveFill) := by
  by_cases hlt : s.buflen < s.part.erasesize
  · by_cases hintr : rd.intr s.reads = true
    · refine Or.inr (Or.inl ⟨s.reads + 1, ?_⟩)
      simp [writeBody, hpoint, hlt, Reads.read, hrd, hintr]
    · generalize hbs :
        s.image.take (min (s.part.erasesize - s.buflen) (rd.limit s.reads + 1)) = bs
      have hread : rd.read s.reads s.image (s.part.erasesize - s.buflen) = .bytes bs := by
        simp [Reads.read, hrd, hintr, hbs]
      cases bs with
      | nil =>
          refine Or.inr (Or.inr ⟨Or.inr ?_, s.reads + 1, ?_⟩)
          · rcases List.take_eq_nil_iff.mp hbs with h0 | hnil
            · omega
            · exact hnil
          · simp only [writeBody, hpoint, if_pos hlt, hread]
      | cons b bs =>
          refine Or.inl ⟨b :: bs, List.cons_ne_nil b bs, hbs ▸ List.take_prefix _ _, ?_, hlt, ?_⟩
          · rw [← hbs, List.length_take]
            omega
          · simp only [writeBody, hpoint, if_pos hlt, hread]
  · refine Or.inr (Or.inr ⟨Or.inl (by omega), s.reads, ?_⟩)
    change writeBody rd s = s.leaveFill
    simp only [writeBody, hpoint, if_neg hlt]

/-- What a pass of the loop that erases can do. -/
theorem writeBody_erase {rd : Reads} (hpoint : s.point = .erase) :
    (s.e < s.w + s.buflen ∧ s.e < s.part.size ∧
      writeBody rd s = .next { s with e := s.e + s.part.erasesize }) ∨
    (∃ p rest, s.e < s.w + s.buflen ∧ ¬ s.e < s.part.size ∧ s.next = p :: rest ∧ s.w < s.e ∧
      writeBody rd s
        = .next (({ s.write (s.e - s.w) with offset := s.e - s.w } : Writer).resume p rest)) ∨
    (∃ p rest, s.e < s.w + s.buflen ∧ ¬ s.e < s.part.size ∧ s.next = p :: rest ∧ ¬ s.w < s.e ∧
      writeBody rd s = .next (s.resume p rest)) ∨
    (s.w + s.buflen ≤ s.e ∧ writeBody rd s = .next { s.write s.buflen with
      w := s.w + s.buflen
      buflen := 0
      offset := 0
      point := .fill }) ∨
    writeBody rd s = .stop .exited := by
  unfold writeBody
  rw [hpoint]
  by_cases hmore : s.w + s.buflen > s.e
  · by_cases hsize : s.e < s.part.size
    · exact Or.inl ⟨hmore, hsize, by simp only [if_pos hmore, if_pos hsize]⟩
    · simp only [if_pos hmore, if_neg hsize]
      cases hnext : s.next with
      | nil => exact Or.inr (Or.inr (Or.inr (Or.inr rfl)))
      | cons p rest =>
          by_cases hw : s.w < s.e
          · exact Or.inr (Or.inl ⟨p, rest, hmore, hsize, rfl, hw, if_pos hw⟩)
          · exact Or.inr (Or.inr (Or.inl ⟨p, rest, hmore, hsize, rfl, hw, if_neg hw⟩))
  · simp only [if_neg hmore]
    by_cases hfits : s.cur.length + s.buflen ≤ s.part.size
    · exact Or.inr (Or.inr (Or.inr (Or.inl ⟨by omega, if_pos hfits⟩)))
    · exact Or.inr (Or.inr (Or.inr (Or.inr (if_neg hfits))))

/-- What is lost stays lost. -/
theorem Bad.step {rd : Reads} {s' : Writer} (hrd : ∀ i, rd.fails i = false)
    (h : Bad b image s) (hstep : writeBody rd s = .next s') : Bad b image s' := by
  -- accesses only add to `touched`, and no pass removes bytes
  suffices hmono : s.touched ≤ s'.touched ∧ s.out.length + s.buflen + s.image.length
      ≤ s'.out.length + s'.buflen + s'.image.length by
    rcases h with hb | hb
    · exact Or.inl (by omega)
    · exact Or.inr (by omega)
  cases hpoint : s.point with
  | fill =>
      rcases writeBody_fill hrd hpoint with ⟨bs, _, hread, _, _, hnext⟩ | ⟨k, hnext⟩ | ⟨_, k, hnext⟩
      · cases hnext.symm.trans hstep
        have hlen := hread.length_le
        refine ⟨Nat.le_max_left _ _, ?_⟩
        simp only [Writer.out, List.length_drop]
        omega
      · cases hnext.symm.trans hstep
        exact ⟨Nat.le_refl _, Nat.le_refl _⟩
      · rw [hnext, Writer.leaveFill] at hstep
        split at hstep
        · cases hstep
        · cases hstep
          exact ⟨Nat.le_refl _, Nat.le_refl _⟩
  | erase =>
      rcases @writeBody_erase s rd hpoint with ⟨_, _, hnext⟩ | ⟨p, rest, _, _, _, _, hnext⟩ |
        ⟨p, rest, _, _, _, _, hnext⟩ | ⟨_, hnext⟩ | hnext
      · cases hnext.symm.trans hstep
        exact ⟨Nat.le_refl _, Nat.le_refl _⟩
      · cases hnext.symm.trans hstep
        refine ⟨Nat.le_max_left _ _, ?_⟩
        simp only [Writer.out, Writer.resume, Writer.write, List.flatten_append,
          List.flatten_singleton, List.append_nil, List.length_append, bytesAt_length]
        omega
      · cases hnext.symm.trans hstep
        refine ⟨Nat.le_refl _, ?_⟩
        simp only [Writer.out, Writer.resume, List.flatten_append, List.flatten_singleton,
          List.append_nil]
        omega
      · cases hnext.symm.trans hstep
        refine ⟨Nat.le_max_left _ _, ?_⟩
        simp only [Writer.out, Writer.write, List.length_append, bytesAt_length]
        omega
      · cases hnext.symm.trans hstep

/-- Counting reads changes nothing. -/
theorem GoodFill.reads (h : GoodFill b image c left s) (k : Nat) :
    GoodFill b image c left { s with reads := k } :=
  ⟨⟨h.core.data, h.core.offset, h.core.pos, h.core.total, h.core.buflen, h.core.le, h.core.inside,
    h.core.blocks, h.core.erased, h.core.bounds⟩, h.point, h.near,
    h.phase.imp_right fun hl => ⟨hl.pos, hl.fits, hl.small, hl.aligned⟩⟩

/-- One pass keeps the invariant. -/
theorem Inv.step {ok : Prop} {rd : Reads} {s' : Writer} (hrd : ∀ i, rd.fails i = false)
    (h : Inv b image ok s) (hstep : writeBody rd s = .next s') : Inv b image ok s' := by
  rcases h with ⟨c, left, hfill | herase, hok⟩ | ⟨hbad, hok⟩
  · rcases writeBody_fill hrd hfill.point with ⟨bs, hne, hread, hlen, hlt, hnext⟩ | ⟨k, hnext⟩ |
      ⟨hfull, k, hnext⟩
    · cases hnext.symm.trans hstep
      rcases hfill.read hne hread hlen hlt rfl with hgood | ⟨hbad, hnot⟩
      · exact Or.inl ⟨c, left, Or.inl hgood, hok⟩
      · exact Or.inr ⟨hbad, fun h => hnot (hok.mp h)⟩
    · cases hnext.symm.trans hstep
      exact Or.inl ⟨c, left, Or.inl (hfill.reads k), hok⟩
    · rw [hnext, Writer.leaveFill] at hstep
      split at hstep
      · cases hstep
      · rename_i hbuflen
        cases hstep
        exact Or.inl ⟨c, left, Or.inr ((hfill.reads k).leave hbuflen hfull), hok⟩
  · rcases @writeBody_erase s rd herase.point with ⟨hmore, hsize, hnext⟩ |
      ⟨p, rest, hmore, hsize, _, hw, hnext⟩ | ⟨p, rest, hmore, hsize, hnextParts, hw, hnext⟩ |
      ⟨henough, hnext⟩ | hnext
    · cases hnext.symm.trans hstep
      exact Or.inl ⟨c, left, Or.inr (herase.erase hmore hsize), hok⟩
    · cases hnext.symm.trans hstep
      obtain ⟨hbad, hnot⟩ := herase.overlap hmore hsize hw p rest
      exact Or.inr ⟨hbad, fun h => hnot (hok.mp h)⟩
    · cases hnext.symm.trans hstep
      obtain ⟨hgood, hrest⟩ := herase.resume hmore hsize hw hnextParts
      exact Or.inl ⟨_, _, Or.inl hgood, hok.trans hrest⟩
    · cases hnext.symm.trans hstep
      exact Or.inl ⟨c, left, Or.inl (herase.write henough rfl), hok⟩
    · cases hnext.symm.trans hstep
  · exact Or.inr ⟨hbad.step hrd hstep, hok⟩

/-- A state that returns has nothing buffered and nothing left to read. -/
theorem writeBody_returned {rd : Reads} {s' : Writer} (hrd : ∀ i, rd.fails i = false)
    (hstop : writeBody rd s = .stop (.returned s')) :
    s.point = .fill ∧ s.buflen = 0 ∧ s.image = [] ∧ ∃ k, s' = { s with reads := k } := by
  have hpos := s.part.erasesize_pos
  cases hpoint : s.point with
  | fill =>
      rcases writeBody_fill hrd hpoint with ⟨bs, _, _, _, _, hnext⟩ | ⟨k, hnext⟩ | ⟨hfull, k, hnext⟩
      · cases hnext.symm.trans hstop
      · cases hnext.symm.trans hstop
      · rw [hnext, Writer.leaveFill] at hstop
        split at hstop
        · rename_i hbuflen
          change s.buflen = 0 at hbuflen
          cases hstop
          refine ⟨rfl, hbuflen, ?_, k, by rw [hpoint]⟩
          rcases hfull with hfull | himage
          · omega
          · exact himage
        · cases hstop
  | erase =>
      rcases @writeBody_erase s rd hpoint with ⟨_, _, hnext⟩ | ⟨p, rest, _, _, _, _, hnext⟩ |
        ⟨p, rest, _, _, _, _, hnext⟩ | ⟨_, hnext⟩ | hnext
      all_goals cases hnext.symm.trans hstop

/-- A run that returns met its purpose exactly if the condition holds. -/
theorem Inv.returned {ok : Prop} {rd : Reads} {s' : Writer} (hrd : ∀ i, rd.fails i = false)
    (h : Inv b image ok s) (hstop : writeBody rd s = .stop (.returned s')) :
    Faithful b image s' ↔ ok := by
  obtain ⟨hpoint, hbuflen, himage, k, rfl⟩ := writeBody_returned hrd hstop
  rcases h with ⟨c, left, hfill | herase, hok⟩ | ⟨hbad, hok⟩
  · obtain ⟨hfaithful, hresume⟩ := (hfill.reads k).returned hbuflen himage
    exact ⟨fun _ => hok.mpr hresume, fun _ => hfaithful⟩
  · rw [herase.point] at hpoint
    cases hpoint
  · refine ⟨fun hfaithful => ?_, fun h => absurd h hok⟩
    rcases hbad with hb | hb
    · exact absurd hfaithful.bounds (Nat.not_le_of_lt hb)
    · have hlen := congrArg List.length hfaithful.bytes
      change s.out.length = _ at hlen
      rw [hbuflen, himage, List.length_nil] at hb
      omega

end Invariant

theorem mtdCheck_first (p : MtdInfo) (rest : List MtdInfo) :
    mtdCheck none (p :: rest) = some p.erasesize := by
  have hkeep : ∀ (ps : List MtdInfo) (n : Nat), mtdCheck (some n) ps = some n := by
    intro ps n
    induction ps with
    | nil => rfl
    | cons q ps ih => exact ih
  exact hkeep rest p.erasesize

/-- When `mtd_write` writes exactly the image: for every image that `read`
delivers in pieces of any size (interrupted or not), every list of
partitions with any sizes, and any bytes left in the buffer by the image
check, a run that returns is faithful if and only if the sizes meet
`ResumeOk`. -/
theorem mtdWrite_faithful_iff (rd : Reads) (hrd : ∀ i, rd.fails i = false) (m : Nat → UInt8)
    (buflen : Nat) (image : List UInt8) (parts : List MtdInfo) {b : Nat}
    (hbuf : mtdCheck none parts = some b) (hbuflen : buflen ≤ b) {n : Nat} {s : Writer}
    (hrun : mtdWrite rd n m buflen image parts = .done (.returned s)) :
    Faithful b (bytesAt m 0 buflen ++ image) s ↔
      ResumeOk b buflen (buflen + image.length) parts := by
  cases parts with
  | nil => cases hrun
  | cons p rest =>
      rw [mtdCheck_first] at hbuf
      cases hbuf
      have hpos := p.erasesize_pos
      obtain ⟨t, hreach, hstop⟩ := (reaches_of_run n _).2 _ hrun
      refine Inv.returned hrd ?_ hstop
      refine hreach.invariant (Or.inl ⟨buflen, buflen + image.length, Or.inl ?_, Iff.rfl⟩)
        fun u v _ hu huv => hu.step hrd huv
      refine ⟨⟨rfl, rfl, rfl, ?_, hbuflen, Nat.le_refl _, Nat.zero_le _, Nat.dvd_zero _, rfl,
        Nat.zero_le _⟩, rfl, ?_, Or.inl ⟨rfl, rfl, Nat.le_refl _, Nat.le_max_left _ _⟩⟩
      · show 0 + buflen + image.length = _
        omega
      · show 0 < 0 + p.erasesize
        omega

/-- Reads that deliver all they are asked for. -/
def wholeReads : Reads := ⟨fun _ => 255, fun _ => false, fun _ => false⟩

/-- A partition of `n` blocks. -/
def mtdBlocks (erasesize n : Nat) (h : 0 < erasesize) : MtdInfo :=
  ⟨n * erasesize, erasesize, h, Nat.dvd_mul_left _ _⟩

theorem mtdWrite_faithful_twoParts :
    ∃ s, mtdWrite wholeReads 20 (fun _ => 0) 0 [1, 2, 3, 4, 5, 6, 7, 8, 9, 10, 11]
      [mtdBlocks 8 1 (by decide), mtdBlocks 4 1 (by decide)] = .done (.returned s) ∧
      Faithful 8 (bytesAt (fun _ => 0) 0 0 ++ [1, 2, 3, 4, 5, 6, 7, 8, 9, 10, 11]) s := by
  obtain ⟨s, hrun⟩ : ∃ s, mtdWrite wholeReads 20 (fun _ => 0) 0
      [1, 2, 3, 4, 5, 6, 7, 8, 9, 10, 11]
      [mtdBlocks 8 1 (by decide), mtdBlocks 4 1 (by decide)] = .done (.returned s) := ⟨_, rfl⟩
  refine ⟨s, hrun,
    (mtdWrite_faithful_iff wholeReads (fun _ => rfl) _ 0 _ _ rfl (by decide) hrun).mpr ?_⟩
  exact Or.inr ⟨by decide, Or.inr ⟨Or.inr (Or.inl (by decide)),
    Or.inr ⟨by decide, Or.inl (by decide)⟩⟩⟩

/-- Three partitions of one block each, of 8, 4 and 8 bytes, and an image
of 16 bytes: 20 bytes are written. The second partition takes bytes 9 to 12,
and the third starts behind them, but with 8 bytes. -/
theorem mtdWrite_writes_twice :
    ¬ ∀ (rd : Reads) (m : Nat → UInt8) (buflen : Nat) (image : List UInt8)
      (parts : List MtdInfo) (b n : Nat) (s : Writer), (∀ i, rd.fails i = false) →
      mtdCheck none parts = some b → buflen ≤ b →
      mtdWrite rd n m buflen image parts = .done (.returned s) →
      Faithful b (bytesAt m 0 buflen ++ image) s := by
  intro hclaim
  have hfaithful := hclaim wholeReads (fun _ => 0) 0
    [1, 2, 3, 4, 5, 6, 7, 8, 9, 10, 11, 12, 13, 14, 15, 16]
    [mtdBlocks 8 1 (by decide), mtdBlocks 4 1 (by decide), mtdBlocks 8 1 (by decide)] 8 20 _
    (fun _ => rfl) rfl (by decide) rfl
  exact absurd hfaithful.bytes (by decide)

end UbntSdk.Mtd
