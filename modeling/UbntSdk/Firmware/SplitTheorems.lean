/-
UbntSdk.Firmware.SplitTheorems — when `fw_parse` stays inside the file.

The reader trusts the sizes it finds in the file. Its bounds check looks
at the start of the next record only, after the current one has been read,
and counts every record as a part, also one it did not recognise or had no
slot for. So safety is a property of the file: `fwParse_safe_iff` says
that `fw_parse` reads only inside the file and hands `fw_split` only
filled entries exactly when the header CRC is wrong (nothing is walked) or
every record of the file is sound, `RecordOk`.

`RecordAt i p` is the walk as a property of the bytes: the `i`-th record
starts at `p`. The proof ties it to the states the loop reaches: each of
them is at a record (`WalkInv`), and while nothing faults every record is
reached (`recordAt_reached`).
-/
import UbntSdk.Firmware.ImageTheorems
import UbntSdk.Firmware.Split
import UbntSdk.Lib.Crc

namespace UbntSdk.Firmware

open UbntSdk.Lib

/-! ## The records of a file -/

section Records

variable (crc32 : List UInt8 → UInt32) (ptrMod : Nat) (base : List UInt8)

/-- The bytes at a record's magic. -/
def magicAt (p : Nat) : List UInt8 := (base.drop p).take MAGIC_LENGTH

/-- The data size a record claims. -/
def dataSizeAt (p : Nat) : UInt32 := ofBe32 ((base.drop (p + 48)).take 4)

/-- Where the record behind the one at `p` starts. -/
def nextRecord (p : Nat) : Nat :=
  (p + sizeofPart + (dataSizeAt base p).toNat + sizeofPartCrc) % ptrMod

/-- The entry `fw_parse` makes for a `PART` record at `p`. -/
def entryOf (p : Nat) : FwPart where
  header := p
  data := (p + sizeofPart) % ptrMod
  dataSize := dataSizeAt base p
  signature := ((p + sizeofPart) % ptrMod + (dataSizeAt base p).toNat) % ptrMod

/-- The `i`-th record of the file starts at `p`. -/
inductive RecordAt : Nat → Nat → Prop where
  | first : RecordAt 0 sizeofHeader
  | next {i p : Nat} (h : RecordAt i p) (hend : magicAt base p ≠ MAGIC_END)
      (hin : nextRecord ptrMod base p < base.length) :
      RecordAt (i + 1) (nextRecord ptrMod base p)

/-- The CRC stored for the `PART` record at `p` is not the one computed
over it. -/
def CrcMismatch (p : Nat) : Prop :=
  crc32 ((base.drop p).take (((dataSizeAt base p).toNat + sizeofPart) % 2 ^ 32)) ≠
    ofBe32 ((base.drop (entryOf ptrMod base p).signature).take 4)

/-- The bytes looked at for a `PART` record with a slot are inside: what
the CRC covers, the stored CRC, and on a mismatch a NUL that ends the
printed name. -/
structure PartReadable (p : Nat) : Prop where
  covered : p + ((dataSizeAt base p).toNat + sizeofPart) % 2 ^ 32 ≤ base.length
  stored : (entryOf ptrMod base p).signature + 4 ≤ base.length
  name : CrcMismatch crc32 ptrMod base p → (0 : UInt8) ∈ base.drop (p + 4)

/-- A `PART` record whose header, data and CRC trailer lie inside. -/
structure PartInside (p : Nat) : Prop where
  magic : magicAt base p = MAGIC_PART
  inside : p + sizeofPart + (dataSizeAt base p).toNat + sizeofPartCrc ≤ base.length

/-- The `i`-th record, at `p`, is sound. The `END.` record needs its CRC
inside, at most `MAX_PARTS` records in front of it, and each of them a
whole `PART`. Any other record needs its `data_size` inside, and if it is a
`PART` with a slot also what is read to check it. -/
structure RecordOk (i p : Nat) : Prop where
  magic : p + MAGIC_LENGTH ≤ base.length
  size : magicAt base p ≠ MAGIC_END → p + 52 ≤ base.length
  part : magicAt base p = MAGIC_PART → i < MAX_PARTS → PartReadable crc32 ptrMod base p
  crc : magicAt base p = MAGIC_END → p + 8 ≤ base.length
  count : magicAt base p = MAGIC_END → i ≤ MAX_PARTS
  parts : magicAt base p = MAGIC_END → ∀ j q, j < i → RecordAt ptrMod base j q →
    PartInside base q

/-- The header CRC `fw_check_header` compares. -/
def HeaderCrcOk : Prop := crc32 (base.take 260) = ofBe32 ((base.drop 260).take 4)

/-- What memory safety of `fw_parse` on this file means: no read outside,
and on success every entry `fw_split` will use was filled from a part that
lies inside. -/
structure FwParseSafe : Prop where
  inBounds : ∀ fuel, fwParse crc32 ptrMod base fuel ≠ .fault
  count : ∀ fuel out, fwParse crc32 ptrMod base fuel = .done out → out.ret = 0 →
    out.fw.partCount ≤ MAX_PARTS
  filled : ∀ fuel out, fwParse crc32 ptrMod base fuel = .done out → out.ret = 0 →
    ∀ i < out.fw.partCount, ∃ p, out.fw.parts[i]? = some (some (entryOf ptrMod base p)) ∧
      PartInside base p
  split : ∀ fuel out, fwParse crc32 ptrMod base fuel = .done out → out.ret = 0 →
    (fwSplitEntries out.fw).isSome

end Records

/-! ## One pass -/

section Pass

variable {crc32 : List UInt8 → UInt32} {ptrMod : Nat} {base : List UInt8}

theorem RecordAt.unique {i p q : Nat} (hp : RecordAt ptrMod base i p)
    (hq : RecordAt ptrMod base i q) : p = q := by
  induction hp generalizing q with
  | first => cases hq; rfl
  | next _ _ _ ih =>
      cases hq with
      | next hq' _ _ => rw [ih hq']

/-- The walk to the `i`-th record passed a record of every smaller index. -/
theorem RecordAt.before {i p k : Nat} (h : RecordAt ptrMod base i p) (hk : k ≤ i) :
    ∃ q, RecordAt ptrMod base k q := by
  induction h with
  | first =>
      rw [Nat.le_zero.mp hk]
      exact ⟨_, .first⟩
  | @next i p h hend hin ih =>
      rcases Nat.lt_or_ge k (i + 1) with hlt | hge
      · exact ih (by omega)
      · rw [Nat.le_antisymm hk hge]
        exact ⟨_, .next h hend hin⟩

theorem peek?_of_le {off n : Nat} (h : off + n ≤ base.length) :
    peek? base off n = some ((base.drop off).take n) :=
  peek?_eq_some.mpr ⟨h, rfl⟩

theorem u32be?_of_le {off : Nat} (h : off + 4 ≤ base.length) :
    u32be? base off = some (ofBe32 ((base.drop off).take 4)) := by
  rw [u32be?, peek?_of_le h]
  rfl

variable (crc32 ptrMod) in
/-- `fwFillPart` reads what `PartReadable` says and fills the slot. -/
theorem fwFillPart_spec (w : Walk) (hsize : w.p + 52 ≤ base.length) :
    (PartReadable crc32 ptrMod base w.p → ∃ ws, fwFillPart crc32 ptrMod base w
      = some { w with parts := w.parts.set w.i (some (entryOf ptrMod base w.p)),
                      warnings := ws }) ∧
    (¬ PartReadable crc32 ptrMod base w.p → fwFillPart crc32 ptrMod base w = none) := by
  have hread : u32be? base (w.p + 48) = some (dataSizeAt base w.p) :=
    u32be?_of_le (by omega)
  have hunfold : fwFillPart crc32 ptrMod base w =
      (peek? base w.p (((dataSizeAt base w.p).toNat + sizeofPart) % 2 ^ 32)).bind fun body =>
      (u32be? base (entryOf ptrMod base w.p).signature).bind fun stored =>
        if crc32 body ≠ stored then
          (cstr? base (w.p + 4)).bind fun name =>
            some { w with parts := w.parts.set w.i (some (entryOf ptrMod base w.p)),
                          warnings := w.warnings ++ [.partCrc name] }
        else some { w with parts := w.parts.set w.i (some (entryOf ptrMod base w.p)) } := by
    simp only [fwFillPart, hread, Option.bind_eq_bind, Option.bind_some]
    rfl
  rw [hunfold]
  by_cases hcov : w.p + ((dataSizeAt base w.p).toNat + sizeofPart) % 2 ^ 32 ≤ base.length
  · by_cases hsto : (entryOf ptrMod base w.p).signature + 4 ≤ base.length
    · rw [peek?_of_le hcov, u32be?_of_le hsto]
      simp only [Option.bind_some]
      by_cases hcrc : crc32 ((base.drop w.p).take
          (((dataSizeAt base w.p).toNat + sizeofPart) % 2 ^ 32)) ≠
            ofBe32 ((base.drop (entryOf ptrMod base w.p).signature).take 4)
      · rw [if_pos hcrc]
        by_cases hnul : (0 : UInt8) ∈ base.drop (w.p + 4)
        · rw [cstr?, if_pos hnul]
          exact ⟨fun _ => ⟨_, rfl⟩, fun h => absurd ⟨hcov, hsto, fun _ => hnul⟩ h⟩
        · rw [cstr?, if_neg hnul]
          exact ⟨fun h => absurd (h.name hcrc) hnul, fun _ => rfl⟩
      · rw [if_neg hcrc]
        exact ⟨fun _ => ⟨_, rfl⟩, fun h => absurd ⟨hcov, hsto, fun hc => absurd hc hcrc⟩ h⟩
    · rw [peek?_of_le hcov, u32be?_eq_none.mpr (by omega)]
      exact ⟨fun h => absurd h.stored hsto, fun _ => rfl⟩
  · rw [peek?_eq_none.mpr (by omega)]
    exact ⟨fun h => absurd h.covered hcov, fun _ => rfl⟩

/-- The reads of one pass are inside: the part of `RecordOk` that does not
look at other records. -/
structure PassOk (crc32 : List UInt8 → UInt32) (ptrMod : Nat) (base : List UInt8)
    (i p : Nat) : Prop where
  magic : p + MAGIC_LENGTH ≤ base.length
  size : magicAt base p ≠ MAGIC_END → p + 52 ≤ base.length
  part : magicAt base p = MAGIC_PART → i < MAX_PARTS → PartReadable crc32 ptrMod base p
  crc : magicAt base p = MAGIC_END → p + 8 ≤ base.length

/-- The slots after the pass at `p`. -/
def slotsAfter (ptrMod : Nat) (base : List UInt8) (w : Walk) : List (Option FwPart) :=
  if magicAt base w.p = MAGIC_PART ∧ w.i < MAX_PARTS then
    w.parts.set w.i (some (entryOf ptrMod base w.p))
  else w.parts

theorem fwPass_eq_none_of_size {w : Walk} (hmagic : w.p + MAGIC_LENGTH ≤ base.length)
    (hend : magicAt base w.p ≠ MAGIC_END) (hsize : ¬ w.p + 52 ≤ base.length) :
    fwPass crc32 ptrMod base w = none := by
  have hread : u32be? base (w.p + 48) = none := u32be?_eq_none.mpr (by omega)
  have hfill : fwFillPart crc32 ptrMod base w = none := by
    simp only [fwFillPart, hread, Option.bind_eq_bind, Option.bind_none]
  simp only [fwPass, peek?_of_le hmagic, Option.bind_eq_bind, Option.bind_some, hread]
  rw [if_neg (by simpa [magicAt] using hend)]
  split
  · rw [hfill]; rfl
  · rfl

/-- What one pass of the loop does, for a record other than `END.` with its
`data_size` inside: it fills the slot and goes on, stops at the end of the
file, or faults in the part branch. -/
theorem fwPass_record_spec {w : Walk} (hend : magicAt base w.p ≠ MAGIC_END)
    (hsize : w.p + 52 ≤ base.length) :
    ((magicAt base w.p = MAGIC_PART → w.i < MAX_PARTS → PartReadable crc32 ptrMod base w.p) →
      ∃ ws, fwPass crc32 ptrMod base w =
        if nextRecord ptrMod base w.p ≥ base.length then
          some (.outOfBounds { w with p := nextRecord ptrMod base w.p, warnings := ws,
                                      parts := slotsAfter ptrMod base w })
        else
          some (.next { p := nextRecord ptrMod base w.p, i := w.i + 1, warnings := ws,
                        parts := slotsAfter ptrMod base w })) ∧
    (¬ (magicAt base w.p = MAGIC_PART → w.i < MAX_PARTS →
        PartReadable crc32 ptrMod base w.p) → fwPass crc32 ptrMod base w = none) := by
  have hmagic : w.p + MAGIC_LENGTH ≤ base.length := by rw [MAGIC_LENGTH]; omega
  have hread : u32be? base (w.p + 48) = some (dataSizeAt base w.p) :=
    u32be?_of_le (by omega)
  have hne : ¬ (base.drop w.p).take MAGIC_LENGTH = MAGIC_END := hend
  obtain ⟨hok, hbad⟩ := fwFillPart_spec crc32 ptrMod w hsize
  by_cases hpart : magicAt base w.p = MAGIC_PART ∧ w.i < MAX_PARTS
  · have hpart' : (base.drop w.p).take MAGIC_LENGTH = MAGIC_PART ∧ w.i < MAX_PARTS := hpart
    constructor
    · intro h
      obtain ⟨ws, hfill⟩ := hok (h hpart.1 hpart.2)
      refine ⟨ws, ?_⟩
      simp only [fwPass, peek?_of_le hmagic, Option.bind_eq_bind, Option.bind_some, hread]
      rw [if_neg hne, if_pos hpart', hfill]
      simp only [Option.bind_some, slotsAfter, if_pos hpart, nextRecord]
      rfl
    · intro h
      have hnot : ¬ PartReadable crc32 ptrMod base w.p := fun hr => h fun _ _ => hr
      simp only [fwPass, peek?_of_le hmagic, Option.bind_eq_bind, Option.bind_some, hread]
      rw [if_neg hne, if_pos hpart', hbad hnot]
      rfl
  · have hpart' : ¬ ((base.drop w.p).take MAGIC_LENGTH = MAGIC_PART ∧ w.i < MAX_PARTS) := hpart
    constructor
    · intro _
      refine ⟨w.warnings, ?_⟩
      simp only [fwPass, peek?_of_le hmagic, Option.bind_eq_bind, Option.bind_some, hread]
      rw [if_neg hne, if_neg hpart']
      simp only [slotsAfter, if_neg hpart, nextRecord]
      rfl
    · intro h
      exact absurd (fun h₁ h₂ => absurd ⟨h₁, h₂⟩ hpart) h

theorem fwPass_end {w : Walk} (hmagic : w.p + MAGIC_LENGTH ≤ base.length)
    (hend : magicAt base w.p = MAGIC_END) : fwPass crc32 ptrMod base w = some .atEnd := by
  have hend' : (base.drop w.p).take MAGIC_LENGTH = MAGIC_END := hend
  simp only [fwPass, peek?_of_le hmagic, Option.bind_eq_bind, Option.bind_some]
  rw [if_pos hend']
  rfl

variable (crc32) in
/-- The signature check reads its CRC. -/
theorem fwCheckSignature_spec {w : Walk} (hmagic : w.p + MAGIC_LENGTH ≤ base.length)
    (hend : magicAt base w.p = MAGIC_END) :
    (w.p + 8 ≤ base.length → ∃ ws, fwCheckSignature crc32 base w = some (0, ws)) ∧
    (¬ w.p + 8 ≤ base.length → fwCheckSignature crc32 base w = none) := by
  have hend' : (base.drop w.p).take MAGIC_LENGTH = MAGIC_END := hend
  have hfront : 0 + w.p ≤ base.length := by rw [MAGIC_LENGTH] at hmagic; omega
  simp only [fwCheckSignature, peek?_of_le hmagic, peek?_of_le hfront, Option.bind_eq_bind,
    Option.bind_some, hend', ne_eq, not_true_eq_false, if_false]
  constructor
  · intro h
    rw [u32be?_of_le (by omega)]
    simp only [Option.bind_some]
    split
    · exact ⟨_, rfl⟩
    · exact ⟨_, rfl⟩
  · intro h
    rw [u32be?_eq_none.mpr (by omega)]
    rfl

/-- A pass does not fault exactly when its reads are inside. -/
theorem fwBody_ne_fault_iff {w : Walk} :
    fwBody crc32 ptrMod base w ≠ .fault ↔ PassOk crc32 ptrMod base w.i w.p := by
  by_cases hmagic : w.p + MAGIC_LENGTH ≤ base.length
  · by_cases hend : magicAt base w.p = MAGIC_END
    · obtain ⟨hok, hbad⟩ := fwCheckSignature_spec crc32 hmagic hend
      rw [fwBody, fwPass_end hmagic hend]
      simp only
      by_cases hcrc : w.p + 8 ≤ base.length
      · obtain ⟨ws, hws⟩ := hok hcrc
        rw [hws]
        refine ⟨fun _ => ⟨hmagic, fun h => absurd hend h, fun h => ?_, fun _ => hcrc⟩,
          fun _ h => by cases h⟩
        rw [hend] at h
        exact absurd h (by decide)
      · rw [hbad hcrc]
        exact ⟨fun h => absurd rfl h, fun h => absurd (h.crc hend) hcrc⟩
    · by_cases hsize : w.p + 52 ≤ base.length
      · obtain ⟨hok, hbad⟩ := fwPass_record_spec (w := w) hend hsize
        by_cases hpart : magicAt base w.p = MAGIC_PART → w.i < MAX_PARTS →
            PartReadable crc32 ptrMod base w.p
        · obtain ⟨ws, hws⟩ := hok hpart
          refine ⟨fun _ => ⟨hmagic, fun _ => hsize, hpart, fun h => absurd h hend⟩, fun _ => ?_⟩
          rw [fwBody, hws]
          by_cases hin : nextRecord ptrMod base w.p ≥ base.length
          · simp only [if_pos hin]
            intro h; cases h
          · simp only [if_neg hin]
            intro h; cases h
        · rw [fwBody, hbad hpart]
          exact ⟨fun h => absurd rfl h, fun h => absurd h.part hpart⟩
      · rw [fwBody, fwPass_eq_none_of_size hmagic hend hsize]
        exact ⟨fun h => absurd rfl h, fun h => absurd (h.size hend) hsize⟩
  · have hnone : fwPass crc32 ptrMod base w = none := by
      simp only [fwPass, peek?_eq_none.mpr (by omega : base.length < w.p + MAGIC_LENGTH)]
      rfl
    rw [fwBody, hnone]
    exact ⟨fun h => absurd rfl h, fun h => absurd h.magic hmagic⟩

/-- Everything a pass that goes on can have done. -/
theorem fwBody_next {w w' : Walk} (h : fwBody crc32 ptrMod base w = .next w') :
    magicAt base w.p ≠ MAGIC_END ∧ nextRecord ptrMod base w.p < base.length ∧
      w'.p = nextRecord ptrMod base w.p ∧ w'.i = w.i + 1 ∧
      w'.parts = slotsAfter ptrMod base w := by
  have hpass : PassOk crc32 ptrMod base w.i w.p := by
    rw [← fwBody_ne_fault_iff, h]
    intro hc; cases hc
  by_cases hend : magicAt base w.p = MAGIC_END
  · obtain ⟨hok, _⟩ := fwCheckSignature_spec crc32 hpass.magic hend
    obtain ⟨ws, hws⟩ := hok (hpass.crc hend)
    rw [fwBody, fwPass_end hpass.magic hend] at h
    simp only [hws] at h
    cases h
  · obtain ⟨hok, _⟩ := fwPass_record_spec (w := w) hend (hpass.size hend)
    obtain ⟨ws, hws⟩ := hok hpass.part
    rw [fwBody, hws] at h
    by_cases hin : nextRecord ptrMod base w.p ≥ base.length
    · simp only [if_pos hin] at h
      cases h
    · simp only [if_neg hin] at h
      cases h
      exact ⟨hend, by omega, rfl, rfl, rfl⟩

/-- A sound record that is not the last one is passed. -/
theorem fwBody_goes_on {w : Walk} (hpass : PassOk crc32 ptrMod base w.i w.p)
    (hend : magicAt base w.p ≠ MAGIC_END) (hin : nextRecord ptrMod base w.p < base.length) :
    ∃ w', fwBody crc32 ptrMod base w = .next w' := by
  obtain ⟨hok, _⟩ := fwPass_record_spec (w := w) hend (hpass.size hend)
  obtain ⟨ws, hws⟩ := hok hpass.part
  rw [fwBody, hws]
  simp only [if_neg (by omega : ¬ nextRecord ptrMod base w.p ≥ base.length)]
  exact ⟨_, rfl⟩

/-- At the `END.` record the parser succeeds with what it collected. -/
theorem fwBody_end {w : Walk} (hpass : PassOk crc32 ptrMod base w.i w.p)
    (hend : magicAt base w.p = MAGIC_END) :
    ∃ out, fwBody crc32 ptrMod base w = .stop out ∧ out.ret = 0 ∧
      out.fw.partCount = w.i ∧ out.fw.parts = w.parts := by
  obtain ⟨hok, _⟩ := fwCheckSignature_spec crc32 hpass.magic hend
  obtain ⟨ws, hws⟩ := hok (hpass.crc hend)
  rw [fwBody, fwPass_end hpass.magic hend]
  simp only [hws]
  exact ⟨_, rfl, rfl, rfl, rfl⟩

/-- Success comes from an `END.` record only. -/
theorem fwBody_success {w : Walk} {out : Parsed}
    (h : fwBody crc32 ptrMod base w = .stop out) (hret : out.ret = 0) :
    magicAt base w.p = MAGIC_END ∧ out.fw.partCount = w.i ∧ out.fw.parts = w.parts := by
  have hpass : PassOk crc32 ptrMod base w.i w.p := by
    rw [← fwBody_ne_fault_iff, h]
    intro hc; cases hc
  by_cases hend : magicAt base w.p = MAGIC_END
  · obtain ⟨out', hout, _, hcount, hparts⟩ := fwBody_end hpass hend
    rw [h] at hout
    cases hout
    exact ⟨hend, hcount, hparts⟩
  · obtain ⟨hok, _⟩ := fwPass_record_spec (w := w) hend (hpass.size hend)
    obtain ⟨ws, hws⟩ := hok hpass.part
    rw [fwBody, hws] at h
    by_cases hin : nextRecord ptrMod base w.p ≥ base.length
    · simp only [if_pos hin] at h
      cases h
      simp at hret
    · simp only [if_neg hin] at h
      cases h

/-! ## The walk -/

/-- The loop invariant: the walk is at a record of the file, and each slot
holds what the record of its index left there. -/
structure WalkInv (ptrMod : Nat) (base : List UInt8) (w : Walk) : Prop where
  record : RecordAt ptrMod base w.i w.p
  length : w.parts.length = MAX_PARTS
  filled : ∀ j q, j < w.i → j < MAX_PARTS → RecordAt ptrMod base j q →
    w.parts[j]? = some (if magicAt base q = MAGIC_PART then some (entryOf ptrMod base q)
      else none)
  empty : ∀ j, w.i ≤ j → j < MAX_PARTS → w.parts[j]? = some none

theorem walkInv_start : WalkInv ptrMod base fwWalkStart where
  record := .first
  length := by simp [fwWalkStart]
  filled := fun j q hj => by simp [fwWalkStart] at hj
  empty := fun j _ hj => by simp [fwWalkStart, hj]

theorem slotsAfter_length (w : Walk) : (slotsAfter ptrMod base w).length = w.parts.length := by
  unfold slotsAfter
  split <;> simp

theorem slotsAfter_of_ne {w : Walk} {j : Nat} (h : j ≠ w.i) :
    (slotsAfter ptrMod base w)[j]? = w.parts[j]? := by
  unfold slotsAfter
  split
  · rw [List.getElem?_set_ne (by omega)]
  · rfl

theorem slotsAfter_self {w : Walk} (hinv : WalkInv ptrMod base w) (hi : w.i < MAX_PARTS) :
    (slotsAfter ptrMod base w)[w.i]?
      = some (if magicAt base w.p = MAGIC_PART then some (entryOf ptrMod base w.p)
          else none) := by
  have hlen : w.i < w.parts.length := by rw [hinv.length]; exact hi
  unfold slotsAfter
  by_cases hm : magicAt base w.p = MAGIC_PART
  · rw [if_pos ⟨hm, hi⟩, if_pos hm, List.getElem?_set_self hlen]
  · rw [if_neg (fun h => hm h.1), if_neg hm]
    exact hinv.empty w.i (Nat.le_refl _) hi

/-- One pass keeps the invariant. -/
theorem walkInv_step {w w' : Walk} (hinv : WalkInv ptrMod base w)
    (h : fwBody crc32 ptrMod base w = .next w') : WalkInv ptrMod base w' := by
  obtain ⟨hend, hin, hp, hi, hparts⟩ := fwBody_next h
  refine ⟨?_, ?_, ?_, ?_⟩
  · rw [hi, hp]
    exact .next hinv.record hend hin
  · rw [hparts, slotsAfter_length, hinv.length]
  · intro j q hj hj8 hq
    rw [hi] at hj
    rw [hparts]
    by_cases hji : j = w.i
    · subst hji
      rw [slotsAfter_self hinv hj8, hinv.record.unique hq]
    · rw [slotsAfter_of_ne hji]
      exact hinv.filled j q (by omega) hj8 hq
  · intro j hj hj8
    rw [hi] at hj
    rw [hparts, slotsAfter_of_ne (by omega)]
    exact hinv.empty j (by omega) hj8

theorem walkInv_reached {w : Walk} (h : Reaches (fwBody crc32 ptrMod base) fwWalkStart w) :
    WalkInv ptrMod base w :=
  h.invariant walkInv_start fun _ _ _ hu huv => walkInv_step hu huv

/-- A record is reached when no state that is reached in front of it faults. -/
theorem recordAt_reached {i p : Nat} (h : RecordAt ptrMod base i p) :
    (∀ w, Reaches (fwBody crc32 ptrMod base) fwWalkStart w → w.i < i →
      RecordAt ptrMod base w.i w.p → PassOk crc32 ptrMod base w.i w.p) →
    ∃ w, Reaches (fwBody crc32 ptrMod base) fwWalkStart w ∧ w.i = i ∧ w.p = p := by
  induction h with
  | first =>
      intro _
      exact ⟨fwWalkStart, Relation.ReflTransGen.refl, rfl, rfl⟩
  | next hrec hend hin ih =>
      intro hpass
      obtain ⟨w, hw, rfl, rfl⟩ := ih fun w hw hlt => hpass w hw (by omega)
      obtain ⟨w', hw'⟩ := fwBody_goes_on (hpass w hw (by omega) hrec) hend hin
      obtain ⟨_, _, hp, hi, _⟩ := fwBody_next hw'
      exact ⟨w', hw.tail hw', hi, hp⟩

/-- The slots at an `END.` record, when each record in front of it is a
whole part. -/
theorem filled_of_parts {w : Walk} (hinv : WalkInv ptrMod base w) (hcount : w.i ≤ MAX_PARTS)
    (hparts : ∀ j q, j < w.i → RecordAt ptrMod base j q → PartInside base q) :
    ∀ j < w.i, ∃ p, w.parts[j]? = some (some (entryOf ptrMod base p)) ∧ PartInside base p := by
  intro j hj
  obtain ⟨q, hq⟩ := hinv.record.before (Nat.le_of_lt hj)
  have hin := hparts j q hj hq
  refine ⟨q, ?_, hin⟩
  rw [hinv.filled j q hj (by omega) hq, if_pos hin.magic]

theorem fwSplitEntries_isSome {fw : Fw}
    (h : ∀ i < fw.partCount, ∃ e, fw.parts[i]? = some (some e)) :
    (fwSplitEntries fw).isSome := by
  have hmap : ∀ l : List Nat, (∀ i ∈ l, i < fw.partCount) →
      (l.mapM fun i => (fw.parts[i]?).join).isSome := by
    intro l
    induction l with
    | nil => intro _; rfl
    | cons i rest ih =>
        intro hl
        obtain ⟨e, he⟩ := h i (hl i (by simp))
        have hrest := ih fun k hk => hl k (by simp [hk])
        rw [Option.isSome_iff_exists] at hrest
        obtain ⟨es, hes⟩ := hrest
        rw [List.mapM_cons, he]
        simp [hes]
  exact hmap _ fun i hi => List.mem_range.mp hi

end Pass

/-! ## Memory safety -/

section Safety

variable (crc32 : List UInt8 → UInt32) (ptrMod : Nat) (base : List UInt8)

theorem fwCheckHeader_eq (hlen : sizeofHeader + sizeofSignature ≤ base.length) :
    fwCheckHeader crc32 base
      = some (crc32 (base.take 260) == ofBe32 ((base.drop 260).take 4)) := by
  simp only [sizeofHeader, sizeofSignature] at hlen
  rw [fwCheckHeader, peek?_of_le (by simp only [sizeofHeader]; omega),
    u32be?_of_le (by omega)]
  rfl

/-- **Memory safety of `fw_parse`.** For a file of at least header and
signature size, `fw_parse` reads only inside the file and on success leaves
at most `MAX_PARTS` entries, each filled from a part that lies inside, if
and only if the header CRC is wrong or every record of the file is sound. -/
theorem fwParse_safe_iff (hlen : sizeofHeader + sizeofSignature ≤ base.length) :
    FwParseSafe crc32 ptrMod base ↔
      ¬ HeaderCrcOk crc32 base ∨
      ∀ i p, RecordAt ptrMod base i p → RecordOk crc32 ptrMod base i p := by
  have hheader := fwCheckHeader_eq crc32 base hlen
  by_cases hcrc : HeaderCrcOk crc32 base
  · have hrun : ∀ fuel, fwParse crc32 ptrMod base fuel
        = run (fwBody crc32 ptrMod base) fuel fwWalkStart := by
      intro fuel
      have : (crc32 (base.take 260) == ofBe32 ((base.drop 260).take 4)) = true := by
        simpa [HeaderCrcOk] using hcrc
      rw [fwParse, hheader, this]
    have hnot : (¬ HeaderCrcOk crc32 base ∨
        ∀ i p, RecordAt ptrMod base i p → RecordOk crc32 ptrMod base i p) ↔
        ∀ i p, RecordAt ptrMod base i p → RecordOk crc32 ptrMod base i p := by
      simp [hcrc]
    rw [hnot]
    constructor
    · intro hsafe i p hrec
      have hbounds : ∀ n, run (fwBody crc32 ptrMod base) n fwWalkStart ≠ .fault :=
        fun n => by rw [← hrun]; exact hsafe.inBounds n
      have hreach := run_ne_fault_iff.mp hbounds
      obtain ⟨w, hw, rfl, rfl⟩ := recordAt_reached hrec
        fun w hw _ _ => fwBody_ne_fault_iff.mp (hreach w hw)
      have hpass := fwBody_ne_fault_iff.mp (hreach w hw)
      have hinv := walkInv_reached hw
      refine ⟨hpass.magic, hpass.size, hpass.part, hpass.crc, fun hend => ?_, fun hend => ?_⟩
      · obtain ⟨out, hout, hret, hcount, _⟩ := fwBody_end hpass hend
        obtain ⟨n, hn⟩ := run_done_iff.mpr ⟨w, hw, hout⟩
        rw [← hcount]
        exact hsafe.count n out (by rw [hrun, hn]) hret
      · intro j q hj hq
        obtain ⟨out, hout, hret, hcount, hparts⟩ := fwBody_end hpass hend
        obtain ⟨n, hn⟩ := run_done_iff.mpr ⟨w, hw, hout⟩
        have hdone : fwParse crc32 ptrMod base n = .done out := by rw [hrun, hn]
        have hmax := hsafe.count n out hdone hret
        obtain ⟨p, hp, hin⟩ := hsafe.filled n out hdone hret j (by omega)
        rw [hparts, hinv.filled j q hj (by omega) hq] at hp
        by_cases hm : magicAt base q = MAGIC_PART
        · rw [if_pos hm] at hp
          have hqp : q = p := congrArg FwPart.header (Option.some.inj (Option.some.inj hp))
          rw [hqp]
          exact hin
        · rw [if_neg hm] at hp
          cases hp
    · intro hok
      have hreach : ∀ w, Reaches (fwBody crc32 ptrMod base) fwWalkStart w →
          fwBody crc32 ptrMod base w ≠ .fault := by
        intro w hw
        have h := hok w.i w.p (walkInv_reached hw).record
        exact fwBody_ne_fault_iff.mpr ⟨h.magic, h.size, h.part, h.crc⟩
      have hsuccess : ∀ fuel out, fwParse crc32 ptrMod base fuel = .done out → out.ret = 0 →
          out.fw.partCount ≤ MAX_PARTS ∧ ∀ i < out.fw.partCount, ∃ p,
            out.fw.parts[i]? = some (some (entryOf ptrMod base p)) ∧ PartInside base p := by
        intro fuel out hout hret
        rw [hrun] at hout
        obtain ⟨w, hw, hstop⟩ := run_done_iff.mp ⟨fuel, hout⟩
        obtain ⟨hend, hcount, hparts⟩ := fwBody_success hstop hret
        have hinv := walkInv_reached hw
        have h := hok w.i w.p hinv.record
        rw [hcount, hparts]
        exact ⟨h.count hend, filled_of_parts hinv (h.count hend) (h.parts hend)⟩
      refine ⟨fun fuel => ?_, fun fuel out h hr => (hsuccess fuel out h hr).1,
        fun fuel out h hr => (hsuccess fuel out h hr).2, fun fuel out h hr => ?_⟩
      · rw [hrun]
        exact run_ne_fault_iff.mpr hreach fuel
      · refine fwSplitEntries_isSome fun i hi => ?_
        obtain ⟨p, hp, _⟩ := (hsuccess fuel out h hr).2 i hi
        exact ⟨_, hp⟩
  · have hfalse : (crc32 (base.take 260) == ofBe32 ((base.drop 260).take 4)) = false := by
      simpa [HeaderCrcOk] using hcrc
    have hdone : ∀ fuel, fwParse crc32 ptrMod base fuel
        = .done { ret := -2, warnings := [],
                  fw := { size := 0, version := [], parts := [], partCount := 0 } } := by
      intro fuel
      rw [fwParse, hheader, hfalse]
    refine ⟨fun _ => Or.inl hcrc, fun _ => ⟨fun fuel => ?_, ?_, ?_, ?_⟩⟩
    · rw [hdone]
      intro h; cases h
    all_goals
      intro fuel out hout hret
      rw [hdone] at hout
      cases hout
      simp at hret

end Safety

/-! ## A short file and a file with one part -/

/-- A header of zeros with a correct CRC, and what follows. -/
def fileWith (tail : List UInt8) : List UInt8 :=
  List.replicate 260 0 ++ (be32 (zlibCrc32 (List.replicate 260 0)) ++
    (List.replicate 4 0 ++ tail))

theorem fileWith_length (tail : List UInt8) :
    (fileWith tail).length = sizeofHeader + tail.length := by
  simp only [fileWith, List.length_append, List.length_replicate, be32_length, sizeofHeader]
  omega

theorem fileWith_drop (tail : List UInt8) : (fileWith tail).drop sizeofHeader = tail := by
  rw [fileWith, ← List.append_assoc, ← List.append_assoc]
  exact List.drop_left' (by
    simp only [List.length_append, List.length_replicate, be32_length, sizeofHeader])

theorem fileWith_magicAt (tail : List UInt8) :
    magicAt (fileWith tail) sizeofHeader = tail.take MAGIC_LENGTH := by
  rw [magicAt, fileWith_drop]

theorem fileWith_headerCrcOk (tail : List UInt8) : HeaderCrcOk zlibCrc32 (fileWith tail) := by
  have htake : (fileWith tail).take 260 = List.replicate 260 0 :=
    List.take_left' List.length_replicate
  have hdrop : (fileWith tail).drop 260
      = be32 (zlibCrc32 (List.replicate 260 0)) ++ (List.replicate 4 0 ++ tail) :=
    List.drop_left' List.length_replicate
  rw [HeaderCrcOk, htake, hdrop, List.take_left' (be32_length _), ofBe32_be32]

/-- Twelve zero bytes behind the header are taken for a record, whose
`data_size` lies past the end of the file. -/
theorem fwParse_unsafe_zeroTail :
    sizeofHeader + sizeofSignature ≤ (fileWith (List.replicate 12 0)).length ∧
      ¬ FwParseSafe zlibCrc32 (2 ^ 64) (fileWith (List.replicate 12 0)) := by
  have hlen : (fileWith (List.replicate 12 0)).length = 280 := fileWith_length _
  have hmagic : magicAt (fileWith (List.replicate 12 0)) sizeofHeader ≠ MAGIC_END := by
    rw [fileWith_magicAt]
    decide
  have hbody : fwBody zlibCrc32 (2 ^ 64) (fileWith (List.replicate 12 0)) fwWalkStart
      = .fault := by
    by_contra hne
    have hsize := (fwBody_ne_fault_iff.mp hne).size hmagic
    rw [hlen] at hsize
    exact absurd hsize (by decide)
  have hle : sizeofHeader + sizeofSignature ≤ (fileWith (List.replicate 12 0)).length := by
    rw [hlen]
    decide
  refine ⟨hle, fun h => h.inBounds 1 ?_⟩
  have htrue : (zlibCrc32 ((fileWith (List.replicate 12 0)).take 260)
      == ofBe32 (((fileWith (List.replicate 12 0)).drop 260).take 4)) = true :=
    beq_iff_eq.mpr (fileWith_headerCrcOk _)
  rw [fwParse, fwCheckHeader_eq zlibCrc32 _ hle, htrue]
  exact run_fault hbody

/-- A part of four bytes. -/
def kernelPart : List UInt8 :=
  MAGIC_PART ++ ([0x6b, 0x65, 0x72, 0x6e, 0x65, 0x6c] ++ (List.replicate 38 0 ++
    (be32 4 ++ (be32 0x100000 ++ [1, 2, 3, 4]))))

/-- The part with its CRC, and the signature. -/
def kernelTail : List UInt8 :=
  kernelPart ++ (be32 (zlibCrc32 kernelPart) ++ (be32 0 ++ (MAGIC_END ++ List.replicate 8 0)))

section Kernel

theorem kernel_drop (n : Nat) :
    (fileWith kernelTail).drop (sizeofHeader + n) = kernelTail.drop n := by
  rw [← List.drop_drop, fileWith_drop]

theorem kernel_magicAt : magicAt (fileWith kernelTail) sizeofHeader = MAGIC_PART := by
  rw [fileWith_magicAt]
  decide

theorem kernel_dataSizeAt : dataSizeAt (fileWith kernelTail) sizeofHeader = 4 := by
  rw [dataSizeAt, kernel_drop]
  decide

theorem kernel_magicAt_next : magicAt (fileWith kernelTail) (sizeofHeader + 68) = MAGIC_END := by
  rw [magicAt, kernel_drop]
  decide

/-- The records of the file are the part and the signature. -/
theorem kernel_recordAt {ptrMod i p : Nat}
    (hnext : nextRecord ptrMod (fileWith kernelTail) sizeofHeader = sizeofHeader + 68)
    (h : RecordAt ptrMod (fileWith kernelTail) i p) :
    i = 0 ∧ p = sizeofHeader ∨ i = 1 ∧ p = sizeofHeader + 68 := by
  induction h with
  | first => exact .inl ⟨rfl, rfl⟩
  | next _ hne _ ih =>
      rcases ih with ⟨rfl, rfl⟩ | ⟨rfl, rfl⟩
      · exact .inr ⟨rfl, hnext⟩
      · exact absurd kernel_magicAt_next hne

end Kernel

/-- A file with a part is read safely. -/
theorem fwParse_safe_kernel :
    sizeofHeader + sizeofSignature ≤ (fileWith kernelTail).length ∧
      FwParseSafe zlibCrc32 (2 ^ 64) (fileWith kernelTail) := by
  have hlen : (fileWith kernelTail).length = 348 := fileWith_length _
  have hle : sizeofHeader + sizeofSignature ≤ (fileWith kernelTail).length := by
    rw [hlen]
    decide
  have hnext : nextRecord (2 ^ 64) (fileWith kernelTail) sizeofHeader = sizeofHeader + 68 := by
    rw [nextRecord, kernel_dataSizeAt]
    decide
  have hentry : (entryOf (2 ^ 64) (fileWith kernelTail) sizeofHeader).signature
      = sizeofHeader + 60 := by
    rw [entryOf, kernel_dataSizeAt]
    decide
  have hpart : PartReadable zlibCrc32 (2 ^ 64) (fileWith kernelTail) sizeofHeader := by
    refine ⟨?_, ?_, fun hmismatch => (hmismatch ?_).elim⟩
    · rw [kernel_dataSizeAt, hlen]
      decide
    · rw [hentry, hlen]
      decide
    · have hcovered : ((fileWith kernelTail).drop sizeofHeader).take 60 = kernelPart := by
        rw [fileWith_drop]
        exact List.take_left' rfl
      have hstored : ((fileWith kernelTail).drop (sizeofHeader + 60)).take 4
          = be32 (zlibCrc32 kernelPart) := by
        have hrest : kernelTail.drop 60 = be32 (zlibCrc32 kernelPart) ++
            (be32 0 ++ (MAGIC_END ++ List.replicate 8 0)) := List.drop_left' rfl
        rw [kernel_drop, hrest, List.take_left' (be32_length _)]
      rw [hentry, hstored, kernel_dataSizeAt, ofBe32_be32]
      exact congrArg zlibCrc32 hcovered
  have hinside : PartInside (fileWith kernelTail) sizeofHeader :=
    ⟨kernel_magicAt, by rw [kernel_dataSizeAt, hlen]; decide⟩
  refine ⟨hle, (fwParse_safe_iff _ _ _ hle).mpr (Or.inr fun i p h => ?_)⟩
  rcases kernel_recordAt hnext h with ⟨rfl, rfl⟩ | ⟨rfl, rfl⟩
  · have hnotEnd : magicAt (fileWith kernelTail) sizeofHeader ≠ MAGIC_END := by
      rw [kernel_magicAt]
      decide
    exact ⟨by rw [hlen]; decide, fun _ => by rw [hlen]; decide, fun _ _ => hpart,
      fun hend => absurd hend hnotEnd, fun hend => absurd hend hnotEnd,
      fun hend => absurd hend hnotEnd⟩
  · refine ⟨by rw [hlen]; decide, fun hne => absurd kernel_magicAt_next hne, fun hmagic => ?_,
      fun _ => by rw [hlen]; decide, fun _ => by decide, fun _ j q hj hq => ?_⟩
    · rw [kernel_magicAt_next] at hmagic
      exact absurd hmagic (by decide)
    · rcases kernel_recordAt hnext hq with ⟨-, rfl⟩ | ⟨rfl, -⟩
      · exact hinside
      · exact absurd hj (Nat.lt_irrefl 1)

end UbntSdk.Firmware
