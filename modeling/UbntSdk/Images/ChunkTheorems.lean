/-
UbntSdk.Images.ChunkTheorems — checksums of data that come in chunks
(`tools/firmware-utils/src/mkzynfw.c`, `mkcsysimg.c`, `mkcasfw.c`).

A byte that has no partner in its chunk is kept for the next one. So what a
state knows is the bytes so far, however they were cut: `mkzynfw` in `Same`, a
relation to the sum that takes its bytes one by one, `mkcsysimg` in `Summed16`,
and `mkcasfw` through its state cut down to the one of `mkcsysimg` (`low`). The
induction is on the chunks; one chunk more is one lemma of each tool.
-/
import UbntSdk.Images.CasfwTheorems
import UbntSdk.Images.CsysimgTheorems
import UbntSdk.Images.ZynfwSumTheorems

namespace UbntSdk.Images

open UbntSdk.Lib

/-! ## mkzynfw -/

namespace Zynfw

/-- The checksum of data that come in chunks. -/
def csumChunks (chunks : List (List UInt8)) : UInt16 :=
  csumGet (chunks.foldl (fun css p => csumUpdate p css) csumInit)

theorem foldl_csumUpdate_same (chunks : List (List UInt8)) {css css' : CsumState}
    (h : Same css css') :
    Same (chunks.foldl (fun css p => csumUpdate p css) css) (csumBytes chunks.flatten css') := by
  induction chunks generalizing css css' with
  | nil => exact h
  | cons p chunks ih =>
      rw [List.foldl_cons, List.flatten_cons, csumBytes_append]
      exact ih (csumUpdate_same p h)

/-- The sum of chunks is that of the bytes in them. -/
theorem csumChunks_toNat (chunks : List (List UInt8)) :
    (csumChunks chunks).toNat = carrySum chunks.flatten :=
  csumGet_toNat (foldl_csumUpdate_same chunks (Same.refl csumInit))

end Zynfw

/-! ## mkcsysimg -/

namespace Csysimg

/-- The checksum of 16 bits of data that come in chunks. -/
def csum16Chunks (chunks : List (List UInt8)) : UInt16 :=
  csum16Get (chunks.foldl (fun css p => csum16Update p css) (csumInit CSUM_SIZE_16))

theorem foldl_summed16 (chunks : List (List UInt8)) {css : CsumState} {bs : List UInt8}
    (h : Summed16 css bs) :
    Summed16 (chunks.foldl (fun css p => csum16Update p css) css) (bs ++ chunks.flatten) := by
  induction chunks generalizing css bs with
  | nil => simpa using h
  | cons p chunks ih =>
      have hall := ih (summed16_update h p)
      rwa [List.append_assoc, ← List.flatten_cons] at hall

theorem csum16Chunks_eq (chunks : List (List UInt8)) :
    csum16Chunks chunks = UInt16.ofNat (2 ^ 16 - sumWords chunks.flatten % 2 ^ 16) := by
  have hinit : Summed16 (csumInit CSUM_SIZE_16) [] := .inl ⟨rfl, rfl, rfl⟩
  exact csum16Get_eq (foldl_summed16 chunks hinit)

end Csysimg

/-! ## mkcasfw -/

namespace Casfw

/-- The checksum of 16 bits of data that come in chunks. -/
def csum16Chunks (chunks : List (List UInt8)) : Option UInt16 := do
  let css ← chunks.foldlM (fun css p => csum16Update p css) csumInit
  csum16Get css

/-- The state of `mkcsysimg` in that of `mkcasfw`. -/
def low (css : CsumState) : Csysimg.CsumState :=
  ⟨Csysimg.CSUM_SIZE_16, css.val.toUInt16, css.tmp.toUInt16, css.odd⟩

/-- A half word is put together in an `int` and cut to 16 bits. -/
theorem half_low (t : UInt32) (b : UInt8) :
    (t + (b.toUInt32 <<< 8)).toUInt16 = t.toUInt16 + (b.toUInt16 <<< 8) := by
  have hb := b.toNat_lt
  have h32 : (b.toUInt32 <<< 8).toNat = b.toNat * 2 ^ 8 := by
    rw [UInt32.toNat_shiftLeft, UInt8.toNat_toUInt32, Nat.shiftLeft_eq]
    exact Nat.mod_eq_of_lt (by show _ * 2 ^ 8 < _; omega)
  have h16 : (b.toUInt16 <<< 8).toNat = b.toNat * 2 ^ 8 := by
    rw [UInt16.toNat_shiftLeft, UInt8.toNat_toUInt16, Nat.shiftLeft_eq]
    exact Nat.mod_eq_of_lt (by show _ * 2 ^ 8 < _; omega)
  apply UInt16.toNat_inj.mp
  rw [UInt32.toNat_toUInt16, UInt32.toNat_add, UInt16.toNat_add, UInt32.toNat_toUInt16, h32, h16]
  omega

theorem add_low (v : UInt32) (t : UInt16) : (v + t.toUInt32).toUInt16 = v.toUInt16 + t := by
  rw [UInt32.toUInt16_add, UInt16.toUInt16_toUInt32]

theorem csum16Words_low (p : List UInt8) (css : CsumState) :
    low (csum16Words p css) = Csysimg.csum16Words p (low css) := by
  induction p using Csysimg.sumWords.induct generalizing css with
  | case1 => rfl
  | case2 a => simp [csum16Words, Csysimg.csum16Words, low]
  | case3 a b rest ih =>
      have hval : (css.val + (a.toUInt32 + (b.toUInt32 <<< 8)).toUInt16.toUInt32).toUInt16 =
          css.val.toUInt16 + (a.toUInt16 + (b.toUInt16 <<< 8)) := by
        rw [add_low, half_low, UInt8.toUInt16_toUInt32]
      rw [csum16Words, ih, Csysimg.csum16Words, low, hval]
      rfl

/-- With bytes to read, what is kept of the state is that of `mkcsysimg`. -/
theorem csum16Update_low {p : List UInt8} (hp : p ≠ []) (css : CsumState) :
    ∃ css', csum16Update p css = some css' ∧ low css' = Csysimg.csum16Update p (low css) := by
  cases p with
  | nil => exact absurd rfl hp
  | cons a rest =>
      by_cases hodd : css.odd = true
      · have hval : (css.val + (css.tmp + (a.toUInt32 <<< 8)).toUInt16.toUInt32).toUInt16 =
            css.val.toUInt16 + (css.tmp.toUInt16 + (a.toUInt16 <<< 8)) := by
          rw [add_low, half_low]
        refine ⟨_, if_pos hodd, ?_⟩
        rw [csum16Words_low, Csysimg.csum16Update, if_pos (show (low css).odd = true from hodd),
          low, hval]
        rfl
      · refine ⟨_, if_neg hodd, ?_⟩
        rw [csum16Words_low, Csysimg.csum16Update, if_neg (show ¬(low css).odd = true from hodd)]

theorem foldlM_low {chunks : List (List UInt8)} (hne : ∀ p ∈ chunks, p ≠ []) (css : CsumState) :
    ∃ css', chunks.foldlM (fun css p => csum16Update p css) css = some css' ∧
      low css' = chunks.foldl (fun css p => Csysimg.csum16Update p css) (low css) := by
  induction chunks generalizing css with
  | nil => exact ⟨css, rfl, rfl⟩
  | cons p chunks ih =>
      obtain ⟨css₁, h₁, hlow₁⟩ := csum16Update_low (hne p List.mem_cons_self) css
      obtain ⟨css₂, h₂, hlow₂⟩ := ih (fun q hq => hne q (List.mem_cons_of_mem _ hq)) css₁
      refine ⟨css₂, ?_, ?_⟩
      · rw [List.foldlM_cons, h₁]
        exact h₂
      · rw [hlow₂, hlow₁, List.foldl_cons]

/-- On chunks that are not empty the two programs agree. -/
theorem csum16Chunks_eq {chunks : List (List UInt8)} (hne : ∀ p ∈ chunks, p ≠ []) :
    csum16Chunks chunks = some (Csysimg.csum16Chunks chunks) := by
  obtain ⟨css, hcss, hlow⟩ := foldlM_low hne csumInit
  obtain ⟨css', hget, hlow'⟩ := csum16Update_low (p := [0]) (List.cons_ne_nil _ _) css
  have hval : (~~~css'.val + 1).toUInt16 = ~~~(low css').val + 1 := by
    simp [low]
  rw [csum16Chunks, hcss]
  change (csum16Update [0] css).bind _ = _
  rw [hget, Csysimg.csum16Chunks, Csysimg.csum16Get]
  change some (~~~css'.val + 1).toUInt16 = _
  rw [hval, hlow', hlow]
  rfl

end Casfw

/-! ## The three programs -/

theorem neg_ofNat16 (n : Nat) : -UInt16.ofNat n = UInt16.ofNat (2 ^ 16 - n % 2 ^ 16) := by
  have hsize : UInt16.size = 2 ^ 16 := rfl
  apply UInt16.toNat_inj.mp
  simp only [UInt16.toNat_neg, UInt16.toNat_ofNat', hsize]

/-- However a text of bytes is cut into chunks, the sum is that of the text. -/
theorem csum_chunks (chunks : List (List UInt8)) (hne : ∀ p ∈ chunks, p ≠ []) :
    (Zynfw.csumChunks chunks = Zynfw.csumChunks [chunks.flatten] ∧
      (Zynfw.csumChunks chunks).toNat = carrySum chunks.flatten) ∧
    (Csysimg.csum16Chunks chunks = Csysimg.csum16Chunks [chunks.flatten] ∧
      Csysimg.csum16Chunks chunks = -UInt16.ofNat (Csysimg.sumWords chunks.flatten)) ∧
    (Casfw.csum16Chunks chunks = Casfw.csum16Chunks [chunks.flatten] ∧
      Casfw.csum16Chunks chunks = some (-UInt16.ofNat (Csysimg.sumWords chunks.flatten))) := by
  have hflat : [chunks.flatten].flatten = chunks.flatten := List.flatten_singleton
  have hcsys : Csysimg.csum16Chunks chunks = Csysimg.csum16Chunks [chunks.flatten] := by
    rw [Csysimg.csum16Chunks_eq, Csysimg.csum16Chunks_eq, hflat]
  refine ⟨⟨?_, Zynfw.csumChunks_toNat chunks⟩, ⟨hcsys, ?_⟩, ?_, ?_⟩
  · apply UInt16.toNat_inj.mp
    rw [Zynfw.csumChunks_toNat, Zynfw.csumChunks_toNat, hflat]
  · rw [Csysimg.csum16Chunks_eq, neg_ofNat16]
  · cases chunks with
    | nil => rfl
    | cons p chunks =>
        have hone : ∀ q ∈ [(p :: chunks).flatten], q ≠ [] := by
          simp [hne p List.mem_cons_self]
        rw [Casfw.csum16Chunks_eq hne, Casfw.csum16Chunks_eq hone, hcsys]
  · rw [Casfw.csum16Chunks_eq hne, Csysimg.csum16Chunks_eq, neg_ofNat16]

/-- Three bytes in two chunks, the first of an odd length. -/
theorem csum_chunks_three :
    (Zynfw.csumChunks [[1], [2, 3]]).toNat = 0x402 ∧
      Csysimg.csum16Chunks [[1], [2, 3]] = 0xFDFC ∧
      Casfw.csum16Chunks [[1], [2, 3]] = some 0xFDFC := by
  obtain ⟨⟨-, hzyn⟩, ⟨-, hcsys⟩, -, hcas⟩ := csum_chunks [[1], [2, 3]] (by decide)
  exact ⟨hzyn.trans (by decide), hcsys.trans (by decide), hcas.trans (by decide)⟩

end UbntSdk.Images
