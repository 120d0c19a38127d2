/-
UbntSdk.Lib.Align — rounding up to a multiple.

`ceilTo` is the least multiple that is not below a number. `align32` is how C
programs compute it, with a mask: the two agree for powers of two, as long as
nothing overflows (`align32_eq_ceilTo`).
-/
import Mathlib.Order.Bounds.Defs
import Mathlib.Tactic.Common
import UbntSdk.Lib.Bytes

namespace UbntSdk.Lib

/-- The least multiple of `a` that is at least `n`. -/
def ceilTo (a n : Nat) : Nat := (n + (a - 1)) / a * a

theorem dvd_ceilTo (a n : Nat) : a ∣ ceilTo a n := Nat.dvd_mul_left _ _

theorem le_ceilTo {a : Nat} (ha : 0 < a) (n : Nat) : n ≤ ceilTo a n := by
  have hdiv := Nat.div_add_mod (n + (a - 1)) a
  have hmod := Nat.mod_lt (n + (a - 1)) ha
  rw [Nat.mul_comm] at hdiv
  rw [ceilTo]
  omega

theorem ceilTo_lt {a : Nat} (ha : 0 < a) (n : Nat) : ceilTo a n < n + a := by
  have hle := Nat.div_mul_le_self (n + (a - 1)) a
  rw [ceilTo]
  omega

/-- `ceilTo` is what its name says. -/
theorem ceilTo_isLeast {a : Nat} (ha : 0 < a) (n : Nat) :
    IsLeast {m | a ∣ m ∧ n ≤ m} (ceilTo a n) := by
  refine ⟨⟨dvd_ceilTo a n, le_ceilTo ha n⟩, ?_⟩
  intro m hm
  obtain ⟨⟨q, rfl⟩, hle⟩ := hm
  have hlt : ceilTo a n < a * (q + 1) := by
    have hceil := ceilTo_lt ha n
    rw [Nat.mul_succ]
    omega
  obtain ⟨c, hc⟩ := dvd_ceilTo a n
  rw [hc] at hlt ⊢
  have hcq : c < q + 1 := Nat.lt_of_mul_lt_mul_left hlt
  exact Nat.mul_le_mul_left a (Nat.lt_succ_iff.mp hcq)

/-- `ALIGN(x,n)` with a mask. -/
def align32 (x n : UInt32) : UInt32 := (x + (n - 1)) &&& ~~~(n - 1)

/-- A mask takes away the bits that it does not have. -/
theorem toNat_and_not (x m : UInt32) : (x &&& ~~~m).toNat = x.toNat - (x.toNat &&& m.toNat) := by
  have hdisjoint : (x.toBitVec &&& m.toBitVec) &&& (x.toBitVec &&& ~~~m.toBitVec) = 0#32 := by
    ext i
    simp only [BitVec.getElem_and, BitVec.getElem_not, BitVec.getElem_zero]
    cases x.toBitVec[i] <;> cases m.toBitVec[i] <;> rfl
  have hunion : (x.toBitVec &&& m.toBitVec) ||| (x.toBitVec &&& ~~~m.toBitVec) = x.toBitVec := by
    ext i
    simp only [BitVec.getElem_or, BitVec.getElem_and, BitVec.getElem_not]
    cases x.toBitVec[i] <;> cases m.toBitVec[i] <;> rfl
  have hsum := BitVec.toNat_add_of_and_eq_zero hdisjoint
  rw [BitVec.add_eq_or_of_and_eq_zero _ _ hdisjoint, hunion] at hsum
  have hand : (x.toBitVec &&& m.toBitVec).toNat = x.toNat &&& m.toNat := BitVec.toNat_and _ _
  have hnot : (x.toBitVec &&& ~~~m.toBitVec).toNat = (x &&& ~~~m).toNat := rfl
  have hx : x.toBitVec.toNat = x.toNat := rfl
  omega

/-- A mask without its low bits clears them. -/
theorem and_not_lowBits (x : UInt32) {k : Nat} (hk : k ≤ 32) {m : UInt32} (hm : m.toNat = 2 ^ k - 1) :
    (x &&& ~~~m).toNat = x.toNat / 2 ^ k * 2 ^ k := by
  have hsize : UInt32.size - 1 - (2 ^ k - 1) = 2 ^ 32 - (2 ^ k - 1 + 1) := by
    rw [show UInt32.size = 2 ^ 32 from rfl]
    omega
  have hpow : 2 ^ k - 1 < 2 ^ 32 :=
    lt_of_lt_of_le (Nat.sub_lt (Nat.two_pow_pos k) Nat.one_pos) (Nat.pow_le_pow_right (by decide) hk)
  rw [UInt32.toNat_and, UInt32.toNat_not, hm, hsize, ← Nat.shiftRight_eq_div_pow, ← Nat.shiftLeft_eq]
  apply Nat.eq_of_testBit_eq
  intro i
  rw [Nat.testBit_and, Nat.testBit_shiftLeft, Nat.testBit_shiftRight,
    Nat.testBit_two_pow_sub_succ hpow, Nat.testBit_two_pow_sub_one]
  by_cases hki : k ≤ i
  · rw [Nat.add_sub_cancel' hki]
    by_cases hi : i < 32
    · simp [hki, hi, Nat.not_lt.mpr hki]
    · have hbit : x.toNat.testBit i = false :=
        Nat.testBit_lt_two_pow (lt_of_lt_of_le x.toNat_lt (Nat.pow_le_pow_right (by decide) (not_lt.mp hi)))
      simp [hbit]
  · simp [hki, Nat.not_le.mp hki]

theorem align32_toNat (x : UInt32) {n : UInt32} {k : Nat} (hn : n.toNat = 2 ^ k) :
    (align32 x n).toNat = (x.toNat + (n.toNat - 1)) % 2 ^ 32 / n.toNat * n.toNat := by
  have hpos := Nat.two_pow_pos k
  have hone : (n - 1).toNat = n.toNat - 1 := by
    rw [UInt32.toNat_sub_of_le _ _ (UInt32.le_iff_toNat_le.mpr (by rw [hn]; exact hpos))]
    rfl
  have hk : k ≤ 32 := by
    have hlt := n.toNat_lt
    rw [hn] at hlt
    exact ((Nat.pow_lt_pow_iff_right (by decide)).mp hlt).le
  rw [align32, and_not_lowBits _ hk (by rw [hone, hn]), UInt32.toNat_add, hone, hn]

/-- The mask computes it where the addition before does not overflow. -/
theorem align32_eq_ceilTo {x n : UInt32} {k : Nat} (hn : n.toNat = 2 ^ k)
    (hfit : x.toNat + (n.toNat - 1) < 2 ^ 32) : (align32 x n).toNat = ceilTo n.toNat x.toNat := by
  rw [align32_toNat x hn, Nat.mod_eq_of_lt hfit, ceilTo]

end UbntSdk.Lib
