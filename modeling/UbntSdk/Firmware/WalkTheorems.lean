/-
UbntSdk.Firmware.WalkTheorems — whether the walk of `fw_parse` ends.

On a 32-bit host the next record starts at `p + 64 + data_size` modulo
2^32, and the bounds check looks at that sum only. The walk makes progress
as long as the sum does not wrap around to an offset in front of it:
`fwWalk_terminates_iff` says that the offsets of the walk grow and that it
ends exactly when no record it passes has such a size (`Wraps`).

A walk that makes progress ends because the offset stays below the size of
the file. A `data_size` of 2^32 - 64 makes no progress: the walk stays at
its record for ever.
-/
import UbntSdk.Firmware.SplitTheorems

namespace UbntSdk.Firmware

open UbntSdk.Lib

section Walk

variable (crc32 : List UInt8 → UInt32) (base : List UInt8)

/-- Progress of `fw_parse` on a 32-bit host: each pass that goes on moves
the walk forward, and some number of passes is enough. A read outside the
file ends the walk too. -/
structure WalkTerminates : Prop where
  grows : ∀ w w', Reaches (fwBody crc32 (2 ^ 32) base) fwWalkStart w →
    fwBody crc32 (2 ^ 32) base w = .next w' → w.p < w'.p
  ends : ∃ n, fwParse crc32 (2 ^ 32) base n ≠ .running

/-- The sum wraps around to `p` or an offset in front of it. -/
def Wraps (p : Nat) (dataSize : UInt32) : Prop :=
  2 ^ 32 ≤ p + 64 + dataSize.toNat ∧
    (64 + dataSize.toNat ≤ 2 ^ 32 ∨ 2 ^ 33 ≤ p + 64 + dataSize.toNat)

instance (p : Nat) (dataSize : UInt32) : Decidable (Wraps p dataSize) :=
  inferInstanceAs (Decidable (_ ∧ _))

/-- The walk passes the `i`-th record, at `p`: everything it reads up to
there lies inside the file, the record is not the last one, and the next
one starts inside. -/
structure Passes (i p : Nat) : Prop where
  record : RecordAt (2 ^ 32) base i p
  reads : ∀ j q, j ≤ i → RecordAt (2 ^ 32) base j q → PassOk crc32 (2 ^ 32) base j q
  notEnd : magicAt base p ≠ MAGIC_END
  inside : nextRecord (2 ^ 32) base p < base.length

end Walk

section Progress

variable {crc32 : List UInt8 → UInt32} {base : List UInt8}

theorem nextRecord_grows {p : Nat} (hp : p < 2 ^ 32) :
    p < nextRecord (2 ^ 32) base p ↔ ¬Wraps p (dataSizeAt base p) := by
  have hds : (dataSizeAt base p).toNat < 2 ^ 32 := (dataSizeAt base p).toNat_lt
  simp only [nextRecord, Wraps, sizeofPart, sizeofPartCrc]
  omega

theorem recordAt_lt {i p : Nat} (h : RecordAt (2 ^ 32) base i p) : p < 2 ^ 32 := by
  cases h with
  | first => decide
  | next _ _ _ => exact Nat.mod_lt _ (Nat.two_pow_pos 32)

/-- In front of a state that is reached, every read was inside. -/
theorem reads_of_reached {ptrMod : Nat} {w : Walk}
    (h : Reaches (fwBody crc32 ptrMod base) fwWalkStart w) :
    ∀ j q, j < w.i → RecordAt ptrMod base j q → PassOk crc32 ptrMod base j q := by
  refine @Reaches.invariant _ _ _ (fun w => ∀ j q, j < w.i → RecordAt ptrMod base j q →
    PassOk crc32 ptrMod base j q) _ _ h ?_ ?_
  · intro j q hj
    cases hj
  · intro u v hu hinv huv j q hj hq
    obtain ⟨_, _, _, hi, _⟩ := fwBody_next huv
    rcases Nat.lt_or_ge j u.i with hlt | hge
    · exact hinv j q hlt hq
    · have hj : j = u.i := by omega
      subst hj
      rw [hq.unique (walkInv_reached hu).record]
      apply fwBody_ne_fault_iff.mp
      rw [huv]
      simp

/-- The passes that go on are the records that are passed. -/
theorem passes_iff {i p : Nat} :
    Passes crc32 base i p ↔ ∃ w w', Reaches (fwBody crc32 (2 ^ 32) base) fwWalkStart w ∧
      fwBody crc32 (2 ^ 32) base w = .next w' ∧ w.i = i ∧ w.p = p := by
  constructor
  · intro h
    obtain ⟨w, hw, rfl, rfl⟩ := recordAt_reached h.record
      fun w _ hlt => h.reads w.i w.p (by omega)
    obtain ⟨w', hw'⟩ := fwBody_goes_on (h.reads w.i w.p (Nat.le_refl _) h.record) h.notEnd h.inside
    exact ⟨w, w', hw, hw', rfl, rfl⟩
  · rintro ⟨w, w', hw, hw', rfl, rfl⟩
    obtain ⟨hend, hin, _⟩ := fwBody_next hw'
    refine ⟨(walkInv_reached hw).record, ?_, hend, hin⟩
    intro j q hj hq
    rcases Nat.lt_or_ge j w.i with hlt | hge
    · exact reads_of_reached hw j q hlt hq
    · have hj : j = w.i := by omega
      subst hj
      rw [hq.unique (walkInv_reached hw).record]
      apply fwBody_ne_fault_iff.mp
      rw [hw']
      simp

/-- The walk of `fw_parse` over a file with a valid header moves forward
and ends exactly when no record it passes has a size that wraps around. -/
theorem fwWalk_terminates_iff (crc32 : List UInt8 → UInt32) (base : List UInt8)
    (hlen : sizeofHeader + sizeofSignature ≤ base.length) (hcrc : HeaderCrcOk crc32 base) :
    WalkTerminates crc32 base ↔
      ∀ i p, Passes crc32 base i p → ¬Wraps p (dataSizeAt base p) := by
  have hrun : ∀ n, fwParse crc32 (2 ^ 32) base n
      = run (fwBody crc32 (2 ^ 32) base) n fwWalkStart := by
    intro n
    have htrue : (crc32 (base.take 260) == ofBe32 ((base.drop 260).take 4)) = true :=
      beq_iff_eq.mpr hcrc
    rw [fwParse, fwCheckHeader_eq crc32 base hlen, htrue]
  constructor
  · intro h i p hpass
    obtain ⟨w, w', hw, hw', rfl, rfl⟩ := passes_iff.mp hpass
    have hgrows := h.grows w w' hw hw'
    obtain ⟨_, _, hp, _⟩ := fwBody_next hw'
    rw [hp] at hgrows
    exact (nextRecord_grows (recordAt_lt hpass.record)).mp hgrows
  · intro h
    have hgrows : ∀ w w', Reaches (fwBody crc32 (2 ^ 32) base) fwWalkStart w →
        fwBody crc32 (2 ^ 32) base w = .next w' → w.p < w'.p := by
      intro w w' hw hw'
      have hpass : Passes crc32 base w.i w.p := passes_iff.mpr ⟨w, w', hw, hw', rfl, rfl⟩
      obtain ⟨_, _, hp, _⟩ := fwBody_next hw'
      rw [hp]
      exact (nextRecord_grows (recordAt_lt hpass.record)).mpr (h w.i w.p hpass)
    refine ⟨hgrows, ?_⟩
    -- the offset stays below the size of the file while it grows
    obtain ⟨n, hn⟩ := @run_ends_of_variant _ _ _
      (Reaches (fwBody crc32 (2 ^ 32) base) fwWalkStart) (fun w => base.length - w.p)
      (fun w w' hw hw' => by
        obtain ⟨_, hin, hp, _⟩ := fwBody_next hw'
        have hlt := hgrows w w' hw hw'
        exact ⟨hw.tail hw', by omega⟩)
      _ Relation.ReflTransGen.refl
    exact ⟨n, by rw [hrun]; exact hn⟩

end Progress

/-! ## A file with one part, and a record that is its own successor -/

theorem fwWalk_terminates_kernel :
    sizeofHeader + sizeofSignature ≤ (fileWith kernelTail).length ∧
    HeaderCrcOk zlibCrc32 (fileWith kernelTail) ∧
    WalkTerminates zlibCrc32 (fileWith kernelTail) := by
  have hlen : sizeofHeader + sizeofSignature ≤ (fileWith kernelTail).length := by
    rw [fileWith_length]
    decide
  have hcrc := fileWith_headerCrcOk kernelTail
  have hnext : nextRecord (2 ^ 32) (fileWith kernelTail) sizeofHeader = sizeofHeader + 68 := by
    rw [nextRecord, kernel_dataSizeAt]
    decide
  refine ⟨hlen, hcrc, (fwWalk_terminates_iff _ _ hlen hcrc).mpr ?_⟩
  intro i p hpass
  rcases kernel_recordAt hnext hpass.record with ⟨-, rfl⟩ | ⟨-, rfl⟩
  · rw [kernel_dataSizeAt]
    decide
  · exact absurd kernel_magicAt_next hpass.notEnd

/-- A record without a magic, with a data size of 2^32 - 64. -/
def spinTail : List UInt8 := List.replicate 48 0 ++ (be32 0xFFFFFFC0 ++ be32 0)

/-- The walk comes back to this record with every pass. -/
theorem fwWalk_spins :
    sizeofHeader + sizeofSignature ≤ (fileWith spinTail).length ∧
    HeaderCrcOk zlibCrc32 (fileWith spinTail) ∧
    (∀ n, fwParse zlibCrc32 (2 ^ 32) (fileWith spinTail) n = .running) ∧
    ¬WalkTerminates zlibCrc32 (fileWith spinTail) := by
  have hlen : (fileWith spinTail).length = 324 := fileWith_length _
  have hcrc := fileWith_headerCrcOk spinTail
  have hmagic : magicAt (fileWith spinTail) sizeofHeader = [0, 0, 0, 0] := by
    rw [fileWith_magicAt]
    decide
  have hsize : dataSizeAt (fileWith spinTail) sizeofHeader = 0xFFFFFFC0 := by
    rw [dataSizeAt, ← List.drop_drop, fileWith_drop]
    decide
  have hnext : nextRecord (2 ^ 32) (fileWith spinTail) sizeofHeader = sizeofHeader := by
    rw [nextRecord, hsize]
    decide
  have hstep : ∀ w : Walk, w.p = sizeofHeader → ∃ w' : Walk,
      fwBody zlibCrc32 (2 ^ 32) (fileWith spinTail) w = .next w' ∧ w'.p = sizeofHeader := by
    intro w hw
    have hpass : PassOk zlibCrc32 (2 ^ 32) (fileWith spinTail) w.i w.p := by
      rw [hw]
      refine ⟨by rw [hlen]; decide, fun _ => by rw [hlen]; decide, ?_, ?_⟩
      · rw [hmagic]
        intro h
        exact absurd h (by decide)
      · rw [hmagic]
        intro h
        exact absurd h (by decide)
    obtain ⟨w', hw'⟩ := fwBody_goes_on hpass (by rw [hw, hmagic]; decide)
      (by rw [hw, hnext, hlen]; decide)
    obtain ⟨_, _, hp, _⟩ := fwBody_next hw'
    exact ⟨w', hw', by rw [hp, hw, hnext]⟩
  have hruns : ∀ n, fwParse zlibCrc32 (2 ^ 32) (fileWith spinTail) n = .running := by
    intro n
    have htrue : (zlibCrc32 ((fileWith spinTail).take 260)
        == ofBe32 (((fileWith spinTail).drop 260).take 4)) = true := beq_iff_eq.mpr hcrc
    rw [fwParse, fwCheckHeader_eq zlibCrc32 _ (by rw [hlen]; decide), htrue]
    exact @run_running_of_invariant _ _ _ (fun w => w.p = sizeofHeader) hstep _ rfl n
  refine ⟨by rw [hlen]; decide, hcrc, hruns, ?_⟩
  intro h
  obtain ⟨n, hn⟩ := h.ends
  exact hn (hruns n)

end UbntSdk.Firmware
