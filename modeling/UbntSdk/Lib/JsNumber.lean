/-
UbntSdk.Lib.JsNumber — the numbers of JavaScript.

A number is a double, which is a rational here; `-0` is `0`. `nearest q` is the
double that is nearest to `q`, and of two the one whose last bit is 0. The bit
operators take their operands for 32-bit integers (`toInt32`).

Whole numbers below 2^53 are doubles (`nearest_intCast`), and nearest doubles
are on the same side of them (`le_nearest`). A quotient of whole numbers up to
2^52 is rounded towards no other whole number (`floor_nearest_div`).

Nothing in this module names a program.
-/
import Mathlib.Algebra.Order.Ring.Int
import Mathlib.Data.Int.Log
import Mathlib.Data.Rat.Floor
import Mathlib.Order.WithBot
import Mathlib.Tactic.FieldSimp
import Mathlib.Tactic.Linarith

namespace UbntSdk.Lib.Js

/-! ## Rounding -/

/-- The integer nearest to `q`, and of two the even one. -/
def roundEven (q : ℚ) : ℤ :=
  if q - ⌊q⌋ < 1 / 2 ∨ q - ⌊q⌋ = 1 / 2 ∧ Even ⌊q⌋ then ⌊q⌋ else ⌊q⌋ + 1

/-- The exponent of the last of the 53 bits that a double like `q` has. -/
def lastBit (q : ℚ) : ℤ := max (Int.log 2 |q| - 52) (-1074)

/-- The double nearest to `q`, if there were no limit to large ones. -/
def nearest (q : ℚ) : ℚ := roundEven (q / 2 ^ lastBit q) * 2 ^ lastBit q

theorem floor_le_roundEven (q : ℚ) : ⌊q⌋ ≤ roundEven q := by
  unfold roundEven
  split
  · exact le_rfl
  · exact (Int.lt_succ _).le

theorem roundEven_lt (q : ℚ) : (roundEven q : ℚ) < q + 1 := by
  have hfloor := Int.floor_le q
  unfold roundEven
  split
  · linarith
  · rename_i hlarge
    have hfract : q - ⌊q⌋ ≠ 0 := by
      intro hzero
      refine hlarge (.inl ?_)
      rw [hzero]
      norm_num
    have hpos := lt_of_le_of_ne (sub_nonneg.mpr hfloor) hfract.symm
    push_cast
    linarith

theorem roundEven_intCast (n : ℤ) : roundEven n = n := by
  simp [roundEven]

theorem two_zpow_pos (e : ℤ) : (0 : ℚ) < 2 ^ e := zpow_pos two_pos e

/-- A power of two whose exponent is not below 0 is a whole number. -/
theorem exists_zpow_neg {e : ℤ} (he : e ≤ 0) : ∃ k : ℕ, ((2 : ℚ) ^ e)⁻¹ = (k : ℤ) ∧ 0 < k := by
  refine ⟨2 ^ (-e).toNat, ?_, by positivity⟩
  rw [← zpow_neg]
  push_cast
  rw [← zpow_natCast, Int.toNat_of_nonneg (by omega)]

theorem lastBit_nonpos {q : ℚ} (hq : |q| < 2 ^ 53) : lastBit q ≤ 0 := by
  unfold lastBit
  refine max_le ?_ (by norm_num)
  rcases eq_or_lt_of_le (abs_nonneg q) with hzero | hpos
  · rw [← hzero, Int.log_zero_right]
    norm_num
  · have hlog : Int.log 2 |q| < 53 := (Int.lt_zpow_iff_log_lt (by norm_num) hpos).mp (by
      push_cast
      exact_mod_cast hq)
    omega

/-- Whole numbers below 2^53 are doubles. -/
theorem nearest_intCast {n : ℤ} (hn : |n| < 2 ^ 53) : nearest n = n := by
  have he := lastBit_nonpos (q := n) (by exact_mod_cast hn)
  obtain ⟨k, hk, -⟩ := exists_zpow_neg he
  unfold nearest
  have hwhole : (n : ℚ) / 2 ^ lastBit n = ((n * k : ℤ) : ℚ) := by
    rw [div_eq_mul_inv, hk]
    push_cast
    ring
  rw [hwhole, roundEven_intCast, ← hwhole]
  exact div_mul_cancel₀ _ (two_zpow_pos _).ne'

/-- What is at least a whole number is rounded to at least that number. -/
theorem le_nearest {k : ℕ} (hk : k < 2 ^ 53) {q : ℚ} (hq : k ≤ q) : (k : ℚ) ≤ nearest q := by
  have hpow := two_zpow_pos (lastBit q)
  have hfloor := floor_le_roundEven (q / 2 ^ lastBit q)
  unfold nearest
  rw [← div_le_iff₀ hpow]
  rcases le_or_gt (lastBit q) 0 with he | he
  · -- The number is one of the multiples between which is rounded.
    obtain ⟨m, hm, -⟩ := exists_zpow_neg he
    have hwhole : (k : ℚ) / 2 ^ lastBit q = ((k * m : ℤ) : ℚ) := by
      rw [div_eq_mul_inv, hm]
      push_cast
      ring
    have hle : (k * m : ℤ) ≤ ⌊q / 2 ^ lastBit q⌋ := by
      rw [Int.le_floor, ← hwhole]
      gcongr
    rw [hwhole]
    exact_mod_cast hle.trans hfloor
  · -- All doubles of this size are larger.
    have hpos : 0 < q := by
      by_contra hneg
      have hzero : q = 0 := le_antisymm (not_lt.mp hneg) ((Nat.cast_nonneg k).trans hq)
      rw [hzero] at he
      norm_num [lastBit] at he
    have hlast : lastBit q = Int.log 2 q - 52 := by
      unfold lastBit at he ⊢
      rw [abs_of_pos hpos] at he ⊢
      omega
    have hlog := Int.zpow_log_le_self (b := 2) (by norm_num) hpos
    have hle : (2 ^ 52 : ℤ) ≤ ⌊q / 2 ^ lastBit q⌋ := by
      rw [Int.le_floor, le_div_iff₀ hpow, hlast]
      push_cast at hlog ⊢
      calc (2 : ℚ) ^ 52 * 2 ^ (Int.log 2 q - 52) = 2 ^ Int.log 2 q := by
            rw [← zpow_natCast, ← zpow_add₀ two_ne_zero]
            congr 1
            omega
        _ ≤ q := hlog
    have htwo : (2 : ℚ) ≤ 2 ^ lastBit q := by
      calc (2 : ℚ) = 2 ^ (1 : ℤ) := (zpow_one 2).symm
        _ ≤ 2 ^ lastBit q := zpow_le_zpow_right₀ one_le_two he
    have hcast : ((2 : ℚ) ^ 52) ≤ roundEven (q / 2 ^ lastBit q) := by
      exact_mod_cast hle.trans hfloor
    have hk' : (k : ℚ) < 2 ^ 53 := by exact_mod_cast hk
    rw [div_le_iff₀ hpow]
    calc (k : ℚ) ≤ 2 ^ 52 * 2 := by
          norm_num at hk' ⊢
          exact hk'.le
      _ ≤ roundEven (q / 2 ^ lastBit q) * 2 ^ lastBit q := by gcongr

/-- The last bit of a quotient is worth less than the divisor can miss. -/
theorem lastBit_div {a b : ℕ} (ha : a ≤ 2 ^ 52) (hpos : 0 < a) (hb : 0 < b) (hb' : b ≤ 2 ^ 52) :
    (b : ℚ) * 2 ^ lastBit ((a : ℚ) / b) ≤ 1 := by
  have hbq : (0 : ℚ) < b := by exact_mod_cast hb
  have hq : (0 : ℚ) < (a : ℚ) / b := div_pos (by exact_mod_cast hpos) hbq
  rw [lastBit, abs_of_pos hq]
  rcases le_total (Int.log 2 ((a : ℚ) / b) - 52) (-1074) with hle | hle
  · rw [max_eq_right hle]
    calc (b : ℚ) * 2 ^ (-1074 : ℤ) ≤ 2 ^ (52 : ℤ) * 2 ^ (-1074 : ℤ) := by
          refine mul_le_mul_of_nonneg_right ?_ (two_zpow_pos _).le
          exact_mod_cast hb'
      _ = 2 ^ (52 + -1074 : ℤ) := (zpow_add₀ two_ne_zero _ _).symm
      _ ≤ 2 ^ (0 : ℤ) := zpow_le_zpow_right₀ one_le_two (by norm_num)
      _ = 1 := zpow_zero 2
  · rw [max_eq_left hle]
    have hlog := Int.zpow_log_le_self (b := 2) (by norm_num) hq
    push_cast at hlog
    have hmul : (b : ℚ) * 2 ^ Int.log 2 ((a : ℚ) / b) ≤ a := by
      rwa [le_div_iff₀ hbq, mul_comm] at hlog
    have ha' : (a : ℚ) ≤ 2 ^ 52 := by exact_mod_cast ha
    rw [zpow_sub₀ two_ne_zero, ← mul_div_assoc, div_le_one (by positivity)]
    exact hmul.trans (by exact_mod_cast ha')

/-- A quotient is rounded to a number with the same whole part. -/
theorem floor_nearest_div {a b : ℕ} (ha : a ≤ 2 ^ 52) (hb : 0 < b) (hb' : b ≤ 2 ^ 52) :
    ⌊nearest ((a : ℚ) / b)⌋ = (a / b : ℕ) := by
  have hbq : (0 : ℚ) < b := by exact_mod_cast hb
  have hle : a / b ≤ a := Nat.div_le_self a b
  have hlow : ((a / b : ℕ) : ℚ) ≤ (a : ℚ) / b := by
    rw [le_div_iff₀ hbq]
    exact_mod_cast Nat.div_mul_le_self a b
  rw [Int.floor_eq_iff, Int.cast_natCast]
  refine ⟨le_nearest (by omega) hlow, ?_⟩
  rcases Nat.eq_zero_or_pos a with rfl | hpos
  · have hzero : nearest ((0 : ℤ) : ℚ) = ((0 : ℤ) : ℚ) := nearest_intCast (by norm_num)
    rw [Nat.cast_zero, zero_div, ← Int.cast_zero, hzero]
    positivity
  · have hlast := lastBit_div ha hpos hb hb'
    have hpow := two_zpow_pos (lastBit ((a : ℚ) / b))
    -- `a + 1` is at most the next multiple of `b`.
    have hnext : (a : ℚ) + 1 ≤ b * ((a / b : ℕ) + 1) := by
      exact_mod_cast Nat.lt_mul_div_succ a hb
    unfold nearest
    rw [← lt_div_iff₀ hpow]
    refine (roundEven_lt _).trans_le ?_
    rw [div_add_one hpow.ne', div_le_div_iff_of_pos_right hpow, div_add' _ _ _ hbq.ne',
      div_le_iff₀ hbq]
    linarith [mul_comm (b : ℚ) (2 ^ lastBit ((a : ℚ) / b))]

/-! ## Numbers -/

inductive Number where
  | nan
  | inf (neg : Bool)
  | finite (q : ℚ)
  deriving DecidableEq

namespace Number

/-- The number for a rational. -/
def ofRat (q : ℚ) : Number :=
  if 2 ^ 1024 ≤ |nearest q| then inf (q < 0) else finite (nearest q)

instance (n : ℕ) : OfNat Number n := ⟨ofRat n⟩

instance : NatCast Number := ⟨fun n => ofRat n⟩

def neg : Number → Number
  | nan => nan
  | inf s => inf !s
  | finite a => finite (-a)

def add : Number → Number → Number
  | finite a, finite b => ofRat (a + b)
  | finite _, inf s => inf s
  | inf s, finite _ => inf s
  | inf s, inf s' => if s = s' then inf s else nan
  | _, _ => nan

def mul : Number → Number → Number
  | finite a, finite b => ofRat (a * b)
  | finite a, inf s => if a = 0 then nan else inf (s ^^ (a < 0))
  | inf s, finite a => if a = 0 then nan else inf (s ^^ (a < 0))
  | inf s, inf s' => inf (s ^^ s')
  | _, _ => nan

def div : Number → Number → Number
  | finite a, finite b =>
      if b ≠ 0 then ofRat (a / b) else if a = 0 then nan else inf (a < 0)
  | finite _, inf _ => finite 0
  | inf s, finite a => inf (s ^^ (a < 0))
  | _, _ => nan

instance : Add Number := ⟨add⟩
instance : Neg Number := ⟨neg⟩
instance : Sub Number := ⟨fun a b => a + -b⟩
instance : Mul Number := ⟨mul⟩
instance : Div Number := ⟨div⟩

/-- `==`. -/
def eq : Number → Number → Bool
  | finite a, finite b => a = b
  | inf s, inf s' => s = s'
  | _, _ => false

/-- `<`. -/
def lt : Number → Number → Bool
  | finite a, finite b => a < b
  | finite _, inf s => !s
  | inf s, finite _ => s
  | inf s, inf s' => s && !s'
  | _, _ => false

/-- Where a number is in the order; of `nan` nothing is meant. -/
def rank : Number → WithBot (WithTop ℚ)
  | nan => ⊥
  | inf true => ⊥
  | inf false => ((⊤ : WithTop ℚ) : WithBot (WithTop ℚ))
  | finite a => ((a : WithTop ℚ) : WithBot (WithTop ℚ))

/-- What an `if` takes for true. -/
def truthy : Number → Bool
  | nan => false
  | inf _ => true
  | finite a => a ≠ 0

/-! ### Bits -/

/-- The 32-bit integer that an operand of a bit operator is taken for. -/
def toInt32 : Number → BitVec 32
  | finite a => BitVec.ofInt 32 (if 0 ≤ a then ⌊a⌋ else ⌈a⌉)
  | _ => 0

instance : AndOp Number := ⟨fun a b => finite (a.toInt32 &&& b.toInt32).toInt⟩
instance : OrOp Number := ⟨fun a b => finite (a.toInt32 ||| b.toInt32).toInt⟩
instance : ShiftLeft Number := ⟨fun a b => finite (a.toInt32 <<< (b.toInt32.toNat % 32)).toInt⟩

/-! ### Whole numbers -/

theorem ofRat_intCast {n : ℤ} (hn : |n| < 2 ^ 53) : ofRat n = finite n := by
  have hsmall : ¬(2 : ℚ) ^ 1024 ≤ |(n : ℚ)| := by
    rw [not_le, ← Int.cast_abs]
    calc ((|n| : ℤ) : ℚ) < 2 ^ 53 := by exact_mod_cast hn
      _ ≤ 2 ^ 1024 := pow_le_pow_right₀ one_le_two (by norm_num)
  rw [ofRat, nearest_intCast hn, if_neg hsmall]

theorem natCast_eq {n : ℕ} (hn : n < 2 ^ 53) : (n : Number) = finite n := by
  have hcast := ofRat_intCast (n := n) (by rw [Nat.abs_cast]; exact_mod_cast hn)
  rwa [Int.cast_natCast] at hcast

theorem ofNat_eq {n : ℕ} (hn : n < 2 ^ 53) : (OfNat.ofNat n : Number) = finite n :=
  natCast_eq hn

theorem finite_add {a b : ℕ} (h : a + b < 2 ^ 53) :
    (finite a : Number) + finite b = finite (a + b : ℕ) := by
  change ofRat (a + b) = _
  rw [← Nat.cast_add]
  exact natCast_eq h

theorem finite_sub {a b : ℕ} (hle : b ≤ a) (h : a < 2 ^ 53) :
    (finite a : Number) - finite b = finite (a - b : ℕ) := by
  change ofRat (a + -b) = _
  rw [← sub_eq_add_neg, ← Nat.cast_sub hle]
  exact natCast_eq (by omega)

theorem finite_mul {a b : ℕ} (h : a * b < 2 ^ 53) :
    (finite a : Number) * finite b = finite (a * b : ℕ) := by
  change ofRat (a * b) = _
  rw [← Nat.cast_mul]
  exact natCast_eq h

theorem lt_self (a : Number) : lt a a = false := by
  cases a with
  | nan => rfl
  | inf s => simp [lt]
  | finite q => simp [lt]

theorem lt_iff_rank {a b : Number} (ha : a ≠ nan) (hb : b ≠ nan) :
    lt a b = true ↔ a.rank < b.rank := by
  cases a with
  | nan => exact absurd rfl ha
  | inf s =>
      cases b with
      | nan => exact absurd rfl hb
      | inf s' => cases s <;> cases s' <;> simp [lt, rank]
      | finite q => cases s <;> simp [lt, rank]
  | finite q =>
      cases b with
      | nan => exact absurd rfl hb
      | inf s =>
          cases s with
          | true => simp [lt, rank]
          | false => simpa [lt, rank] using WithBot.coe_lt_coe.mpr (WithTop.coe_lt_top q)
      | finite q' => simp [lt, rank, WithBot.coe_lt_coe]

theorem mul_comm (a b : Number) : a * b = b * a := by
  change mul a b = mul b a
  cases a with
  | nan => cases b <;> rfl
  | inf s =>
      cases b with
      | nan => rfl
      | inf s' => simp only [mul, Bool.xor_comm]
      | finite b => rfl
  | finite a =>
      cases b with
      | nan => rfl
      | inf s => rfl
      | finite b => simp only [mul, Rat.mul_comm]

@[simp] theorem toInt32_natCast (n : ℕ) : toInt32 (finite n) = BitVec.ofNat 32 n := by
  rw [toInt32, if_pos (Nat.cast_nonneg n), Int.floor_natCast, BitVec.ofInt_natCast]

@[simp] theorem toInt32_intCast (n : ℤ) : toInt32 (finite n) = BitVec.ofInt 32 n := by
  rw [toInt32, Int.floor_intCast, Int.ceil_intCast, ite_self]

@[simp] theorem toInt32_and (a b : Number) : toInt32 (a &&& b) = a.toInt32 &&& b.toInt32 := by
  change toInt32 (finite _) = _
  rw [toInt32_intCast, BitVec.ofInt_toInt]

@[simp] theorem toInt32_or (a b : Number) : toInt32 (a ||| b) = a.toInt32 ||| b.toInt32 := by
  change toInt32 (finite _) = _
  rw [toInt32_intCast, BitVec.ofInt_toInt]

@[simp] theorem toInt32_shiftLeft (a b : Number) :
    toInt32 (a <<< b) = a.toInt32 <<< (b.toInt32.toNat % 32) := by
  change toInt32 (finite _) = _
  rw [toInt32_intCast, BitVec.ofInt_toInt]

/-- The whole part of a quotient is computed by a bit operator. -/
theorem toInt32_div {a b : ℕ} (ha : a ≤ 2 ^ 52) (hb : 0 < b) (hb' : b ≤ 2 ^ 52) :
    toInt32 ((a : Number) / (b : Number)) = BitVec.ofNat 32 (a / b) := by
  have hfloor := floor_nearest_div ha hb hb'
  have hle : a / b ≤ a := Nat.div_le_self a b
  obtain ⟨hlow, hhigh⟩ := Int.floor_eq_iff.mp hfloor
  rw [Int.cast_natCast] at hlow hhigh
  have hpos : 0 ≤ nearest ((a : ℚ) / b) := (Nat.cast_nonneg _).trans hlow
  have hsmall : ¬(2 : ℚ) ^ 1024 ≤ |nearest ((a : ℚ) / b)| := by
    rw [not_le, abs_of_nonneg hpos]
    calc nearest ((a : ℚ) / b) < (a / b : ℕ) + 1 := hhigh
      _ ≤ 2 ^ 53 := by exact_mod_cast (by omega : a / b + 1 ≤ 2 ^ 53)
      _ ≤ 2 ^ 1024 := pow_le_pow_right₀ one_le_two (by norm_num)
  have hdiv : (a : Number) / (b : Number) = ofRat ((a : ℚ) / b) := by
    rw [natCast_eq (by omega), natCast_eq (by omega)]
    exact if_pos (Nat.cast_ne_zero.mpr hb.ne')
  rw [hdiv, ofRat, if_neg hsmall, toInt32, if_pos hpos, hfloor, BitVec.ofInt_natCast]

theorem eq_and_zero (a b : Number) :
    Number.eq (a &&& b) 0 = true ↔ a.toInt32 &&& b.toInt32 = 0 := by
  rw [ofNat_eq (n := 0) (by norm_num)]
  change decide (((a.toInt32 &&& b.toInt32).toInt : ℚ) = (0 : ℕ)) = true ↔ _
  rw [decide_eq_true_eq, Nat.cast_zero, Int.cast_eq_zero, ← BitVec.toInt_zero, BitVec.toInt_inj]
  rfl

theorem eq_and_and (a b c d : Number) :
    Number.eq (a &&& b) (c &&& d) = true ↔ a.toInt32 &&& b.toInt32 = c.toInt32 &&& d.toInt32 := by
  change decide (((a.toInt32 &&& b.toInt32).toInt : ℚ) = (c.toInt32 &&& d.toInt32).toInt) = true ↔ _
  rw [decide_eq_true_eq, Int.cast_inj, BitVec.toInt_inj]

theorem truthy_and (a b : Number) : (a &&& b).truthy = (a.toInt32 &&& b.toInt32 ≠ 0) := by
  change ((decide (((a.toInt32 &&& b.toInt32).toInt : ℚ) ≠ 0)) = true) = _
  rw [decide_eq_true_eq, Int.cast_ne_zero, ne_eq, ne_eq, ← BitVec.toInt_inj]
  rfl

/-- A bit is tested with a one that is shifted there. -/
theorem truthy_testBit (a : Number) {k : ℕ} (hk : k < 32) :
    (a &&& (1 : Number) <<< (k : Number)).truthy = a.toInt32.getLsbD k := by
  have hone : toInt32 ((1 : Number) <<< (k : Number)) = BitVec.twoPow 32 k := by
    rw [toInt32_shiftLeft, natCast_eq (by omega), ofNat_eq (by norm_num), toInt32_natCast,
      toInt32_natCast, BitVec.toNat_ofNat, Nat.mod_mod_of_dvd k (by norm_num), Nat.mod_eq_of_lt hk,
      BitVec.twoPow_eq]
  rw [Bool.eq_iff_iff, truthy_and, hone, BitVec.and_twoPow]
  split
  · rename_i hbit
    have hne : BitVec.twoPow 32 k ≠ 0 := by
      intro hzero
      have hval := congrArg BitVec.toNat hzero
      rw [BitVec.toNat_twoPow_of_lt hk] at hval
      exact (Nat.two_pow_pos k).ne' hval
    simp only [hne, hbit, ne_eq, not_false_eq_true]
  · rename_i hbit
    simp [hbit]

end Number

end UbntSdk.Lib.Js
