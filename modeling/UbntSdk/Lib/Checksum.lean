/-
UbntSdk.Lib.Checksum — the Internet checksum.

`sum16` adds the bytes of a buffer as big-endian half words, the last one
filled up with 0. `checksum` is the complement of a sum folded to 16 bits
with end-around carry. Folding is arithmetic modulo 65535 with 65535 in the
place of 0 for a sum that is not 0 (`checksum_eq_iff`), so a field that holds
the checksum of all the rest makes the whole add up to 0 (`add_checksum`).

`carrySum` adds the same half words one by one, with the carry brought round
at every step. A half word at the end takes it to any value but 0 (`addCarry_fix`).

Nothing in this module names a program.
-/
import UbntSdk.Lib.Words

namespace UbntSdk.Lib

/-! ## Sums -/

/-- The sum of the big-endian half words. -/
def sum16 : List UInt8 → Nat
  | [] => 0
  | [a] => a.toNat * 2 ^ 8
  | a :: b :: rest => a.toNat * 2 ^ 8 + b.toNat + sum16 rest

/-- A part of even length is added apart. -/
theorem sum16_append {a : List UInt8} (h : a.length % 2 = 0) (b : List UInt8) :
    sum16 (a ++ b) = sum16 a + sum16 b := by
  induction a using sum16.induct with
  | case1 => simp [sum16]
  | case2 x => simp at h
  | case3 x y rest ih =>
      have hrest : rest.length % 2 = 0 := by
        simp only [List.length_cons] at h
        omega
      simp only [List.cons_append, sum16, ih hrest]
      omega

/-- What the bytes behind `n` others add: where `n` is odd, the first one is
the low byte of a half word that they have begun. -/
def sumBehind (n : Nat) (b : List UInt8) : Nat :=
  if n % 2 = 0 then sum16 b else sum16 (0 :: b)

theorem sum16_append_behind (a b : List UInt8) :
    sum16 (a ++ b) = sum16 a + sumBehind a.length b := by
  induction a using sum16.induct with
  | case1 => simp [sum16, sumBehind]
  | case2 x =>
      cases b with
      | nil => simp [sum16, sumBehind]
      | cons y b =>
          simp only [List.cons_append, List.nil_append, sum16, sumBehind, List.length_cons,
            List.length_nil, UInt8.toNat_zero]
          rw [if_neg (by decide)]
          omega
  | case3 x y rest ih =>
      have hparity : (rest.length + 1 + 1) % 2 = rest.length % 2 := by omega
      simp only [List.cons_append, sum16, ih, sumBehind, List.length_cons, hparity]
      omega

theorem sum16_word16 (x : UInt16) : sum16 (word16 .big x) = x.toNat := by
  have hx := x.toNat_lt
  simp only [word16, le16, List.reverse_cons, List.reverse_nil, List.nil_append, List.cons_append,
    sum16, UInt8.toNat_ofNat']
  omega

/-! ## End-around carry -/

/-- The big-endian half words, the last one filled up with 0. -/
def halfWords : List UInt8 → List Nat
  | [] => []
  | [a] => [a.toNat * 2 ^ 8]
  | a :: b :: rest => (a.toNat * 2 ^ 8 + b.toNat) :: halfWords rest

/-- Addition of half words; a carry is added at the other end. -/
def addCarry (m n : Nat) : Nat := if m + n > 65535 then m + n - 65535 else m + n

/-- The sum of the big-endian half words with end-around carry. -/
def carrySum (bytes : List UInt8) : Nat := (halfWords bytes).foldl addCarry 0

theorem halfWords_append {a : List UInt8} (h : a.length % 2 = 0) (b : List UInt8) :
    halfWords (a ++ b) = halfWords a ++ halfWords b := by
  induction a using halfWords.induct with
  | case1 => rfl
  | case2 x => simp at h
  | case3 x y rest ih =>
      have hrest : rest.length % 2 = 0 := by
        simp only [List.length_cons] at h
        omega
      simp only [List.cons_append, halfWords, ih hrest]

theorem addCarry_le {m n : Nat} (hm : m ≤ 65535) (hn : n ≤ 65535) : addCarry m n ≤ 65535 := by
  unfold addCarry
  split <;> omega

/-- What takes a sum `c` to `s`: the difference, or one less than it if the
carry comes round. -/
theorem addCarry_fix {c s : Nat} (hc : c ≤ 65535) (hs : s ≤ 65535) (hpos : 0 < s) :
    addCarry c (if c ≤ s then s - c else 65536 + s - c - 1) = s := by
  unfold addCarry
  split <;> split <;> omega

/-! ## Checksums -/

/-- A sum folded to 16 bits. -/
def fold16 (n : Nat) : Nat := if n = 0 then 0 else (n - 1) % 65535 + 1

/-- The complement of a folded sum. -/
def checksum (n : Nat) : UInt16 := UInt16.ofNat (65535 - fold16 n)

theorem fold16_le (n : Nat) : fold16 n ≤ 65535 := by
  unfold fold16
  split <;> omega

theorem fold16_mod (n : Nat) : fold16 n % 65535 = n % 65535 := by
  unfold fold16
  split <;> omega

theorem checksum_toNat (n : Nat) : (checksum n).toNat = 65535 - fold16 n := by
  rw [checksum, UInt16.toNat_ofNat', Nat.mod_eq_of_lt]
  omega

/-- With its checksum a sum is 0. -/
theorem add_checksum (n : Nat) : (n + (checksum n).toNat) % 65535 = 0 := by
  have hle := fold16_le n
  have hmod := fold16_mod n
  rw [checksum_toNat]
  omega

/-- Sums that differ have checksums that differ. -/
theorem checksum_mod_ne {m n : Nat} (h : m % 65535 ≠ n % 65535) :
    (checksum m).toNat % 65535 ≠ (checksum n).toNat % 65535 := by
  have hm := add_checksum m
  have hn := add_checksum n
  omega

/-- Sums that are not 0 have the same checksum when they are congruent. -/
theorem checksum_eq_iff {m n : Nat} (hm : 0 < m) (hn : 0 < n) :
    checksum m = checksum n ↔ m % 65535 = n % 65535 := by
  rw [← UInt16.toNat_inj, checksum_toNat, checksum_toNat]
  simp only [fold16, Nat.ne_of_gt hm, Nat.ne_of_gt hn, if_false]
  omega

/-- The checksum is 0 when the sum is, but for the sum of nothing. -/
theorem checksum_eq_zero_iff {n : Nat} (hn : 0 < n) : checksum n = 0 ↔ n % 65535 = 0 := by
  rw [← UInt16.toNat_inj, checksum_toNat]
  simp only [fold16, Nat.ne_of_gt hn, if_false, UInt16.toNat_ofNat]
  omega

end UbntSdk.Lib
