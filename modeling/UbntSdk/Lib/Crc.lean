/-
UbntSdk.Lib.Crc — the reflected CRCs, bit by bit.

Every CRC-32 of this tree is the reflected CRC with the generator
0xEDB88320; the programs differ in the start value and in whether the
result is complemented. `crcUpdate` is one byte, `crcFold` a byte string
from any start value. `crcUpdate_table` is how a program with a table of the
256 bytes does it. `crc16` is the kernel's CRC-16, with the reflected
generator 0xA001.
-/
import Mathlib.Algebra.Order.Ring.Int
import Mathlib.Tactic.Common

namespace UbntSdk.Lib

/-- The reflected generator polynomial. -/
def crcPoly : UInt32 := 0xEDB88320

/-- One bit of the division. -/
def crcBit (c : UInt32) : UInt32 :=
  if c &&& 1 = 1 then (c >>> 1) ^^^ crcPoly else c >>> 1

/-- One byte: eight bits. -/
def crcUpdate (c : UInt32) (b : UInt8) : UInt32 :=
  crcBit (crcBit (crcBit (crcBit (crcBit (crcBit (crcBit (crcBit (c ^^^ b.toUInt32))))))))

/-- A byte string, from the running value `c`. -/
def crcFold (c : UInt32) (bs : List UInt8) : UInt32 := bs.foldl crcUpdate c

/-- zlib's `crc32(0L, buf, len)`: complemented on entry and on exit. -/
def zlibCrc32 (bs : List UInt8) : UInt32 := crcFold 0xFFFFFFFF bs ^^^ 0xFFFFFFFF

example : zlibCrc32 [0x61] = 0xE8B7BE43 := by decide

theorem crcFold_append (c : UInt32) (as bs : List UInt8) :
    crcFold c (as ++ bs) = crcFold (crcFold c as) bs :=
  List.foldl_append

/-! ## Tables -/

/-- Eight bits. -/
def crcByte (x : UInt32) : UInt32 :=
  crcBit (crcBit (crcBit (crcBit (crcBit (crcBit (crcBit (crcBit x)))))))

/-- A bit that is not set does not meet the polynomial. -/
theorem crcBit_xor (a e : UInt32) (he : e &&& 1 = 0) : crcBit (a ^^^ e) = crcBit a ^^^ (e >>> 1) := by
  have hlow : (a ^^^ e) &&& 1 = a &&& 1 := by
    have hbit := UInt32.toNat_inj.mpr he
    apply UInt32.toNat_inj.mp
    rw [UInt32.toNat_and] at hbit
    rw [UInt32.toNat_and, UInt32.toNat_and, UInt32.toNat_xor, Nat.and_xor_distrib_right, hbit]
    exact Nat.xor_zero _
  rw [crcBit, crcBit, hlow, UInt32.shiftRight_xor]
  split
  · rw [UInt32.xor_assoc, UInt32.xor_assoc, UInt32.xor_comm (e >>> 1)]
  · rfl

/-- The high bits of a word, `k` bits further up. -/
theorem highBits_succ {n k : Nat} (hn : n < 2 ^ 24) (hk : k < 8) :
    UInt32.ofNat (n * 2 ^ (k + 1)) &&& 1 = 0 ∧
      UInt32.ofNat (n * 2 ^ (k + 1)) >>> 1 = UInt32.ofNat (n * 2 ^ k) := by
  have hpow : 2 ^ k ≤ 2 ^ 7 := Nat.pow_le_pow_right (by decide) (by omega)
  have hlt : n * 2 ^ k * 2 < 2 ^ 32 := by
    calc n * 2 ^ k * 2 ≤ n * 2 ^ 7 * 2 := Nat.mul_le_mul_right _ (Nat.mul_le_mul_left _ hpow)
      _ < 2 ^ 32 := by omega
  rw [Nat.pow_succ, ← Nat.mul_assoc]
  generalize n * 2 ^ k = m at hlt ⊢
  constructor
  · apply UInt32.toNat_inj.mp
    rw [UInt32.toNat_and, UInt32.toNat_ofNat', Nat.mod_eq_of_lt hlt]
    show m * 2 &&& 1 = 0
    rw [Nat.and_one_is_mod]
    omega
  · apply UInt32.toNat_inj.mp
    rw [UInt32.toNat_shiftRight, UInt32.toNat_ofNat', UInt32.toNat_ofNat', Nat.mod_eq_of_lt hlt]
    show (m * 2) >>> 1 = m % 2 ^ 32
    rw [Nat.shiftRight_eq_div_pow]
    omega

theorem crcByte_xor_high (a : UInt32) {n : Nat} (hn : n < 2 ^ 24) :
    crcByte (a ^^^ UInt32.ofNat (n * 2 ^ 8)) = crcByte a ^^^ UInt32.ofNat n := by
  have hstep (k : Nat) (hk : k < 8) (x : UInt32) :
      crcBit (x ^^^ UInt32.ofNat (n * 2 ^ (k + 1))) = crcBit x ^^^ UInt32.ofNat (n * 2 ^ k) := by
    obtain ⟨hlow, hshift⟩ := highBits_succ hn hk
    rw [crcBit_xor x _ hlow, hshift]
  rw [crcByte, hstep 7 (by decide), hstep 6 (by decide), hstep 5 (by decide), hstep 4 (by decide),
    hstep 3 (by decide), hstep 2 (by decide), hstep 1 (by decide), hstep 0 (by decide), Nat.pow_zero,
    Nat.mul_one]
  rfl

/-- A byte through a table that has `crcByte` of each byte. -/
theorem crcUpdate_table (c : UInt32) (b : UInt8) :
    crcUpdate c b = crcByte ((c ^^^ b.toUInt32) &&& 0xff) ^^^ (c >>> 8) := by
  have hb := b.toNat_lt
  have hhigh : (c ^^^ b.toUInt32) >>> 8 = c >>> 8 := by
    have hzero : b.toUInt32 >>> 8 = 0 := by
      apply UInt32.toNat_inj.mp
      rw [UInt32.toNat_shiftRight, UInt8.toNat_toUInt32]
      show b.toNat >>> 8 = 0
      rw [Nat.shiftRight_eq_div_pow]
      omega
    rw [UInt32.shiftRight_xor, hzero, UInt32.xor_zero]
  generalize hx : c ^^^ b.toUInt32 = x at hhigh
  have hlt := x.toNat_lt
  have hsplit : x = (x &&& (0xff : UInt32)) ^^^ UInt32.ofNat ((x >>> 8).toNat * 2 ^ 8) := by
    apply UInt32.toNat_inj.mp
    rw [UInt32.toNat_xor, UInt32.toNat_and, UInt32.toNat_shiftRight, UInt32.toNat_ofNat']
    show x.toNat = (x.toNat &&& 255) ^^^ ((x.toNat >>> 8) * 2 ^ 8 % 2 ^ 32)
    rw [Nat.shiftRight_eq_div_pow, Nat.mod_eq_of_lt (by omega)]
    apply Nat.eq_of_testBit_eq
    intro i
    rw [Nat.testBit_xor, show 255 = 2 ^ 8 - 1 by rfl, Nat.and_two_pow_sub_one_eq_mod,
      Nat.testBit_mod_two_pow, Nat.mul_comm, Nat.testBit_two_pow_mul, Nat.testBit_div_two_pow]
    by_cases hi : i < 8
    · have hge : ¬8 ≤ i := by omega
      simp [hi, hge]
    · simp [hi, Nat.le_of_not_lt hi, Nat.sub_add_cancel (Nat.le_of_not_lt hi)]
  have hn : (x >>> 8).toNat < 2 ^ 24 := by
    rw [UInt32.toNat_shiftRight]
    show x.toNat >>> 8 < 2 ^ 24
    rw [Nat.shiftRight_eq_div_pow]
    omega
  calc crcUpdate c b = crcByte x := by rw [← hx]; rfl
    _ = crcByte ((x &&& (0xff : UInt32)) ^^^ UInt32.ofNat ((x >>> 8).toNat * 2 ^ 8)) := by rw [← hsplit]
    _ = crcByte (x &&& (0xff : UInt32)) ^^^ (c >>> 8) := by
        rw [crcByte_xor_high _ hn, UInt32.ofNat_toNat, hhigh]

/-- One step with a table of the bytes. -/
theorem crcUpdate_of_table {tab : Nat → UInt32} (h : ∀ i < 256, tab i = crcByte (UInt32.ofNat i))
    (c : UInt32) (b : UInt8) :
    tab ((c ^^^ b.toUInt32) &&& 0xff).toNat ^^^ (c >>> 8) = crcUpdate c b := by
  have hlt : ((c ^^^ b.toUInt32) &&& (0xff : UInt32)).toNat < 256 := by
    rw [UInt32.toNat_and]
    exact Nat.lt_of_le_of_lt Nat.and_le_right (by decide)
  rw [h _ hlt, UInt32.ofNat_toNat, crcUpdate_table]

/-- One bit of the 16-bit division. -/
def crc16Bit (c : UInt16) : UInt16 :=
  if c &&& 1 = 1 then (c >>> 1) ^^^ 0xA001 else c >>> 1

/-- `crc16_byte`. -/
def crc16Byte (c : UInt16) (b : UInt8) : UInt16 :=
  crc16Bit (crc16Bit (crc16Bit (crc16Bit (crc16Bit (crc16Bit (crc16Bit (crc16Bit
    (c ^^^ b.toUInt16))))))))

/-- The kernel's `crc16(crc, buffer, len)`. -/
def crc16 (c : UInt16) (bs : List UInt8) : UInt16 := bs.foldl crc16Byte c

example : crc16 0 [0x01] = 0xC0C1 := by decide

end UbntSdk.Lib
