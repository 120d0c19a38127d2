/-
UbntSdk.Web.ValidateTheorems — the two checks of netmasks agree, and a route
target has no bit outside its mask (`package/ubnt-web/src/network.js`,
`package/ubnt-web/src/jsval.js`).

The regular expressions list the decimal forms of the numbers up to 255, so an
accepted text is the dotted form of an address, and `ipToInt` is that address.
-/
import UbntSdk.Web.Validate

namespace UbntSdk.Web

open UbntSdk.Lib.Js UbntSdk.Lib.Regex
open RegularExpression (char)

/-! ## Regular expressions -/

theorem lists_anyDigit : Lists anyDigit ((List.range' 0 10).map (Nat.toDigits 10)) :=
  lists_anyOf _

theorem lists_leadDigit : Lists leadDigit ((List.range' 1 9).map (Nat.toDigits 10)) :=
  lists_anyOf _

theorem lists_twoDigits :
    Lists (leadDigit * anyDigit) ((List.range' 10 90).map (Nat.toDigits 10)) :=
  lists_leadDigit.mul lists_anyDigit

theorem lists_octet100 : Lists octet100 ((List.range' 100 100).map (Nat.toDigits 10)) :=
  ((lists_char '1').mul lists_anyDigit).mul lists_anyDigit

theorem lists_octet200 : Lists octet200 ((List.range' 200 50).map (Nat.toDigits 10)) :=
  ((lists_char '2').mul (lists_anyOf _)).mul lists_anyDigit

theorem lists_octet250 : Lists octet250 ((List.range' 250 6).map (Nat.toDigits 10)) :=
  ((lists_char '2').mul (lists_char '5')).mul (lists_anyOf _)

/-- The decimal forms of the numbers that an expression matches. -/
theorem rmatch_map_iff {r : RegularExpression Char} {l : List ℕ}
    (h : Lists r (l.map (Nat.toDigits 10))) (s : List Char) :
    r.rmatch s = true ↔ ∃ n ∈ l, s = Nat.toDigits 10 n := by
  rw [h, List.mem_map]
  simp only [eq_comm]

theorem octetRegex_iff (s : List Char) :
    octetRegex.rmatch s = true ↔ ∃ n < 256, s = Nat.toDigits 10 n := by
  have hlists := (((lists_octet250.add lists_octet200).add lists_octet100).add
    lists_twoDigits).add lists_anyDigit
  simp only [← List.map_append] at hlists
  rw [octetRegex, rmatch_map_iff hlists]
  refine exists_congr fun n => and_congr_left' ?_
  simp only [List.mem_append, List.mem_range'_1]
  omega

theorem otherRegex_iff (s : List Char) :
    otherRegex.rmatch s = true ↔ ∃ n < 256, s = Nat.toDigits 10 n := by
  have hlists := (((lists_anyDigit.add lists_twoDigits).add lists_octet100).add
    lists_octet200).add lists_octet250
  simp only [← List.map_append] at hlists
  rw [otherRegex, rmatch_map_iff hlists]
  refine exists_congr fun n => and_congr_left' ?_
  simp only [List.mem_append, List.mem_range'_1]
  omega

theorem firstRegex_iff (s : List Char) :
    firstRegex.rmatch s = true ↔ ∃ n, (1 ≤ n ∧ n < 256) ∧ s = Nat.toDigits 10 n := by
  have hlists := (((lists_leadDigit.add lists_twoDigits).add lists_octet100).add
    lists_octet200).add lists_octet250
  simp only [← List.map_append] at hlists
  rw [firstRegex, rmatch_map_iff hlists]
  refine exists_congr fun n => and_congr_left' ?_
  simp only [List.mem_append, List.mem_range'_1]
  omega

/-! ## Texts of addresses -/

/-- Four numbers with points between them. -/
def quadText (a b c d : ℕ) : List Char := ['.'].intercalate ([a, b, c, d].map (Nat.toDigits 10))

theorem quadText_eq (a b c d : ℕ) : quadText a b c d = Nat.toDigits 10 a ++ '.' ::
    (Nat.toDigits 10 b ++ '.' :: (Nat.toDigits 10 c ++ '.' :: Nat.toDigits 10 d)) := by
  simp [quadText, List.intercalate]

theorem validateIP_quad (s : List Char) : validateIP s = true ↔
    ∃ a b c d, a < 256 ∧ b < 256 ∧ c < 256 ∧ d < 256 ∧ s = quadText a b c d := by
  rw [validateIP, IP_regex, RegularExpression.mul_rmatch_iff]
  simp only [pow_rmatch_iff, RegularExpression.mul_rmatch_iff, RegularExpression.char_rmatch_iff,
    octetRegex_iff, quadText_eq]
  constructor
  · rintro ⟨_, _, rfl, ⟨l, hl, rfl, hall⟩, d, hd, rfl⟩
    obtain ⟨x, y, z, rfl⟩ := List.length_eq_three.mp hl
    simp only [List.forall_mem_cons] at hall
    obtain ⟨⟨_, _, rfl, ⟨a, ha, rfl⟩, rfl⟩, ⟨_, _, rfl, ⟨b, hb, rfl⟩, rfl⟩,
      ⟨_, _, rfl, ⟨c, hc, rfl⟩, rfl⟩, -⟩ := hall
    exact ⟨a, b, c, d, ha, hb, hc, hd, by simp⟩
  · rintro ⟨a, b, c, d, ha, hb, hc, hd, rfl⟩
    refine ⟨_, _, ?_, ⟨[Nat.toDigits 10 a ++ ['.'], Nat.toDigits 10 b ++ ['.'],
      Nat.toDigits 10 c ++ ['.']], rfl, rfl, ?_⟩, d, hd, rfl⟩
    · simp
    · simp only [List.forall_mem_cons]
      exact ⟨⟨_, _, rfl, ⟨a, ha, rfl⟩, rfl⟩, ⟨_, _, rfl, ⟨b, hb, rfl⟩, rfl⟩,
        ⟨_, _, rfl, ⟨c, hc, rfl⟩, rfl⟩, by simp⟩

/-- The other expression does not let an address begin with zero. -/
theorem ipAddress_quad (s : List Char) : JSVAL_RX_IPADDRESS s = true ↔
    ∃ a b c d, (1 ≤ a ∧ a < 256) ∧ b < 256 ∧ c < 256 ∧ d < 256 ∧ s = quadText a b c d := by
  rw [JSVAL_RX_IPADDRESS, RegularExpression.mul_rmatch_iff]
  simp only [pow_rmatch_iff, RegularExpression.mul_rmatch_iff, RegularExpression.char_rmatch_iff,
    firstRegex_iff, otherRegex_iff, quadText_eq]
  constructor
  · rintro ⟨_, _, rfl, ⟨a, ha, rfl⟩, l, hl, rfl, hall⟩
    obtain ⟨x, y, z, rfl⟩ := List.length_eq_three.mp hl
    simp only [List.forall_mem_cons] at hall
    obtain ⟨⟨_, _, rfl, rfl, b, hb, rfl⟩, ⟨_, _, rfl, rfl, c, hc, rfl⟩,
      ⟨_, _, rfl, rfl, d, hd, rfl⟩, -⟩ := hall
    exact ⟨a, b, c, d, ha, hb, hc, hd, by simp⟩
  · rintro ⟨a, b, c, d, ha, hb, hc, hd, rfl⟩
    refine ⟨_, _, ?_, ⟨a, ha, rfl⟩, [['.'] ++ Nat.toDigits 10 b, ['.'] ++ Nat.toDigits 10 c,
      ['.'] ++ Nat.toDigits 10 d], rfl, rfl, ?_⟩
    · simp
    · simp only [List.forall_mem_cons]
      exact ⟨⟨_, _, rfl, rfl, b, hb, rfl⟩, ⟨_, _, rfl, rfl, c, hc, rfl⟩,
        ⟨_, _, rfl, rfl, d, hd, rfl⟩, by simp⟩

/-- The address with four numbers. -/
def quadAddress (a b c d : ℕ) : BitVec 32 :=
  BitVec.ofNat 32 (a * 2 ^ 24 + b * 2 ^ 16 + c * 2 ^ 8 + d)

theorem toNat_quadAddress {a b c d : ℕ} (ha : a < 256) (hb : b < 256) (hc : c < 256)
    (hd : d < 256) :
    (quadAddress a b c d).toNat = a * 2 ^ 24 + b * 2 ^ 16 + c * 2 ^ 8 + d := by
  rw [quadAddress, BitVec.toNat_ofNat]
  omega

theorem ipText_eq (a : BitVec 32) : ipText a = quadText (a.toNat / 2 ^ 24)
    (a.toNat / 2 ^ 16 % 2 ^ 8) (a.toNat / 2 ^ 8 % 2 ^ 8) (a.toNat % 2 ^ 8) := rfl

theorem ipText_quadAddress {a b c d : ℕ} (ha : a < 256) (hb : b < 256) (hc : c < 256)
    (hd : d < 256) : ipText (quadAddress a b c d) = quadText a b c d := by
  rw [ipText_eq, toNat_quadAddress ha hb hc hd]
  congr 1 <;> omega

/-- The first check accepts the dotted forms of all addresses. -/
theorem validateIP_iff (s : List Char) : validateIP s = true ↔ ∃ a, s = ipText a := by
  rw [validateIP_quad]
  constructor
  · rintro ⟨a, b, c, d, ha, hb, hc, hd, rfl⟩
    exact ⟨quadAddress a b c d, (ipText_quadAddress ha hb hc hd).symm⟩
  · rintro ⟨a, rfl⟩
    have hlt := a.isLt
    exact ⟨_, _, _, _, by omega, by omega, by omega, by omega, ipText_eq a⟩

/-- The second check does not accept addresses that begin with zero. -/
theorem ipAddress_iff (s : List Char) :
    JSVAL_RX_IPADDRESS s = true ↔ ∃ a : BitVec 32, 2 ^ 24 ≤ a.toNat ∧ s = ipText a := by
  rw [ipAddress_quad]
  constructor
  · rintro ⟨a, b, c, d, ⟨hpos, ha⟩, hb, hc, hd, rfl⟩
    refine ⟨quadAddress a b c d, ?_, (ipText_quadAddress ha hb hc hd).symm⟩
    rw [toNat_quadAddress ha hb hc hd]
    omega
  · rintro ⟨a, hpos, rfl⟩
    have hlt := a.isLt
    exact ⟨_, _, _, _, ⟨by omega, by omega⟩, by omega, by omega, by omega, ipText_eq a⟩

/-! ## Numbers of addresses -/

theorem splitOn_quadText (a b c d : ℕ) :
    (quadText a b c d).splitOn '.' = [a, b, c, d].map (Nat.toDigits 10) := by
  refine List.splitOn_intercalate _ (fun t ht => ?_) (by simp)
  obtain ⟨n, -, rfl⟩ := List.mem_map.mp ht
  intro hdot
  have hdigit := digit_toDigits '.' hdot
  revert hdigit
  decide

theorem quadInt_map {l : List ℕ} {i n : ℕ} (h : l[i]? = some n) (hn : n < 256) :
    quadInt (l.map (Nat.toDigits 10)) i = .finite n := by
  rw [quadInt, List.getElem?_map, h]
  exact parseInt_toDigits (by omega)

/-- The sum that the checks compute is the address. -/
theorem ipToInt_ipText (a : BitVec 32) : ipToInt (ipText a) = .finite a.toNat := by
  have hlt := a.isLt
  have hsum : a.toNat = 16777216 * (a.toNat / 2 ^ 24) + 65536 * (a.toNat / 2 ^ 16 % 2 ^ 8) +
      256 * (a.toNat / 2 ^ 8 % 2 ^ 8) + a.toNat % 2 ^ 8 := by omega
  have h24 : (16777216 : Number) = .finite (16777216 : ℕ) := Number.ofNat_eq (by norm_num)
  have h16 : (65536 : Number) = .finite (65536 : ℕ) := Number.ofNat_eq (by norm_num)
  have h8 : (256 : Number) = .finite (256 : ℕ) := Number.ofNat_eq (by norm_num)
  rw [ipToInt, ipText_eq, splitOn_quadText, quadInt_map rfl (by omega), quadInt_map rfl (by omega),
    quadInt_map rfl (by omega), quadInt_map rfl (by omega), h24, h16, h8,
    Number.finite_mul (by omega), Number.finite_mul (by omega), Number.finite_mul (by omega),
    Number.finite_add (by omega), Number.finite_add (by omega), Number.finite_add (by omega),
    ← hsum]

/-! ## Netmasks -/

theorem netmask_toNat {j : ℕ} (hj : j < 32) :
    (BitVec.allOnes 32 <<< j).toNat = 2 ^ 32 - 2 ^ j := by
  revert j
  decide

/-- The numbers that are a power of two below 2^32 belong to the netmasks. -/
theorem isPowerOfTwo_iff {m : BitVec 32} (hm : m ≠ 0) :
    (2 ^ 32 - m.toNat).isPowerOfTwo ↔ ∃ k, 1 ≤ k ∧ k ≤ 32 ∧ m = netmask k := by
  have hlt := m.isLt
  have hpos : 0 < m.toNat := Nat.pos_of_ne_zero (by simpa [← BitVec.toNat_inj] using hm)
  constructor
  · rintro ⟨j, hj⟩
    have hj32 : j < 32 := (Nat.pow_lt_pow_iff_right (a := 2) (by norm_num)).mp (by omega)
    refine ⟨32 - j, by omega, by omega, ?_⟩
    rw [← BitVec.toNat_inj, netmask, Nat.sub_sub_self hj32.le, netmask_toNat hj32]
    omega
  · rintro ⟨k, hk, hk32, rfl⟩
    refine ⟨32 - k, ?_⟩
    have hpow : 2 ^ (32 - k) ≤ 2 ^ 32 := Nat.pow_le_pow_right (by norm_num) (by omega)
    rw [netmask, netmask_toNat (by omega), Nat.sub_sub_self hpow]

/-- The check of the bits of `2^32 - m - 1` and its successor. -/
theorem maskVal_iff (m : BitVec 32) :
    Number.eq ((256 * 256 * 256 * 256 - .finite m.toNat - 1 : Number) &&&
        (256 * 256 * 256 * 256 - .finite m.toNat - 1 : Number) + 1) 0 = true ↔
      m = 0 ∨ ∃ k, 1 ≤ k ∧ k ≤ 32 ∧ m = netmask k := by
  have hlt := m.isLt
  have h8 : (256 : Number) = .finite (256 : ℕ) := Number.ofNat_eq (by norm_num)
  have h1 : (1 : Number) = .finite (1 : ℕ) := Number.ofNat_eq (by norm_num)
  have hmask : (256 * 256 * 256 * 256 - .finite m.toNat - 1 : Number) =
      .finite (2 ^ 32 - m.toNat - 1 : ℕ) := by
    rw [h8, h1, Number.finite_mul (by norm_num), Number.finite_mul (by norm_num),
      Number.finite_mul (by norm_num), Number.finite_sub (by omega) (by norm_num),
      Number.finite_sub (by omega) (by omega)]
    norm_num
  have hnext : (.finite (2 ^ 32 - m.toNat - 1 : ℕ) + 1 : Number) =
      .finite (2 ^ 32 - m.toNat : ℕ) := by
    rw [h1, Number.finite_add (by omega), Nat.sub_add_cancel (by omega)]
  rw [hmask, hnext, Number.eq_and_zero, Number.toInt32_natCast, Number.toInt32_natCast]
  by_cases hm : m = 0
  · subst hm
    exact iff_of_true (by decide) (.inl rfl)
  · have hpos : 0 < m.toNat := Nat.pos_of_ne_zero (by simpa [← BitVec.toNat_inj] using hm)
    rw [or_iff_right hm, ← isPowerOfTwo_iff hm,
      ← Nat.and_sub_one_eq_zero_iff_isPowerOfTwo (by omega),
      ← BitVec.toNat_inj, BitVec.toNat_and, BitVec.toNat_ofNat, BitVec.toNat_ofNat,
      Nat.mod_eq_of_lt (by omega), Nat.mod_eq_of_lt (by omega), Nat.and_comm]
    rfl

theorem ipText_inj {a b : BitVec 32} (h : ipText a = ipText b) : a = b := by
  have hnumber := congrArg ipToInt h
  rw [ipToInt_ipText, ipToInt_ipText, Number.finite.injEq, Nat.cast_inj] at hnumber
  exact BitVec.eq_of_toNat_eq hnumber

theorem zeroIP_eq : zeroIP = ipText 0 := by decide

/-- Netmasks have a bit in their first number. -/
theorem netmask_large {k : ℕ} (hk : 1 ≤ k) (hk32 : k ≤ 32) : 2 ^ 31 ≤ (netmask k).toNat := by
  have hpow : 2 ^ (32 - k) ≤ 2 ^ 31 := Nat.pow_le_pow_right (by norm_num) (by omega)
  rw [netmask, netmask_toNat (by omega)]
  norm_num at hpow ⊢
  omega

/-- The two sums are one. -/
theorem maskSum_eq (s : List Char) : quadInt (s.splitOn '.') 0 * 16777216 +
    65536 * quadInt (s.splitOn '.') 1 + 256 * quadInt (s.splitOn '.') 2 +
      quadInt (s.splitOn '.') 3 = ipToInt s := by
  rw [ipToInt, Number.mul_comm (quadInt _ 0)]

theorem validateNetmask_ipText (m : BitVec 32) :
    validateNetmask (ipText m) = true ↔ m = 0 ∨ ∃ k, 1 ≤ k ∧ k ≤ 32 ∧ m = netmask k := by
  have hip : validateIP (ipText m) = true := (validateIP_iff _).mpr ⟨m, rfl⟩
  have hlen : ((ipText m).splitOn '.').length = 4 := by
    rw [ipText_eq, splitOn_quadText]
    rfl
  rw [← maskVal_iff, validateNetmask]
  simp only [hip, hlen, maskSum_eq, ipToInt_ipText, Bool.not_true, Bool.false_eq_true, if_false,
    ne_eq, not_true_eq_false]

theorem jsval_ipText {m : BitVec 32} (hm : 2 ^ 24 ≤ m.toNat) :
    JSVAL_RX_NETMASK (ipText m) = true ↔ ∃ k, 1 ≤ k ∧ k ≤ 32 ∧ m = netmask k := by
  have hip : JSVAL_RX_IPADDRESS (ipText m) = true := (ipAddress_iff _).mpr ⟨m, hm, rfl⟩
  have hne : m ≠ 0 := by
    rintro rfl
    simp at hm
  rw [← or_iff_right (b := ∃ k, 1 ≤ k ∧ k ≤ 32 ∧ m = netmask k) hne, ← maskVal_iff,
    JSVAL_RX_NETMASK]
  simp only [hip, maskSum_eq, ipToInt_ipText, Bool.not_true, Bool.false_eq_true, if_false]

theorem validateNetmask_iff (s : List Char) :
    (validateNetmask s = true ∧ s ≠ zeroIP) ↔ IsNetmask s := by
  constructor
  · rintro ⟨hmask, hzero⟩
    have hip : validateIP s = true := by
      by_contra hno
      simp [validateNetmask, hno] at hmask
    obtain ⟨m, rfl⟩ := (validateIP_iff s).mp hip
    have hm : m ≠ 0 := by
      rintro rfl
      exact hzero zeroIP_eq.symm
    obtain ⟨k, hk, hk32, rfl⟩ := ((validateNetmask_ipText m).mp hmask).resolve_left hm
    exact ⟨k, hk, hk32, rfl⟩
  · rintro ⟨k, hk, hk32, rfl⟩
    refine ⟨(validateNetmask_ipText _).mpr (.inr ⟨k, hk, hk32, rfl⟩), fun hzero => ?_⟩
    have hlarge := netmask_large hk hk32
    rw [ipText_inj (hzero.trans zeroIP_eq)] at hlarge
    simp at hlarge

theorem jsval_iff (s : List Char) : JSVAL_RX_NETMASK s = true ↔ IsNetmask s := by
  constructor
  · intro hmask
    have hip : JSVAL_RX_IPADDRESS s = true := by
      by_contra hno
      simp [JSVAL_RX_NETMASK, hno] at hmask
    obtain ⟨m, hm, rfl⟩ := (ipAddress_iff s).mp hip
    obtain ⟨k, hk, hk32, rfl⟩ := (jsval_ipText hm).mp hmask
    exact ⟨k, hk, hk32, rfl⟩
  · rintro ⟨k, hk, hk32, rfl⟩
    have hlarge := netmask_large hk hk32
    exact (jsval_ipText (by omega)).mpr ⟨k, hk, hk32, rfl⟩

/-! ## Routes -/

theorem routeTarget_iff (a m : BitVec 32) :
    validateRouteTarget (ipText a) (ipText m) = true ↔ a &&& ~~~m = 0 := by
  rw [validateRouteTarget, ipToInt_ipText, ipToInt_ipText, Number.eq_and_and,
    Number.toInt32_natCast, Number.toInt32_natCast, BitVec.ofNat_toNat, BitVec.ofNat_toNat,
    BitVec.setWidth_eq, BitVec.setWidth_eq, BitVec.and_self]
  constructor
  · intro h
    calc a &&& ~~~m = a &&& m &&& ~~~m := by rw [h]
      _ = a &&& (m &&& ~~~m) := BitVec.and_assoc a m (~~~m)
      _ = 0 := by simp
  · intro h
    ext i hi
    have hbit := congrArg (·[i]) h
    simp only [BitVec.getElem_and, BitVec.getElem_not] at hbit ⊢
    cases hm : m[i] with
    | true => rw [Bool.and_true]
    | false =>
        rw [hm, Bool.not_false, Bool.and_true] at hbit
        rw [Bool.and_false, hbit]
        simp

/-- Both checks of netmasks accept the netmasks that are not zero. For an address
and a mask that is accepted, the route is accepted if the address has no bit
outside the mask. -/
theorem netmask_checks (s : List Char) :
    (JSVAL_RX_NETMASK s = true ↔ IsNetmask s) ∧
      (validateNetmask s = true ∧ s ≠ zeroIP ↔ IsNetmask s) ∧
        ∀ ip, validateIP ip = true → JSVAL_RX_NETMASK s = true ∨ validateNetmask s = true →
          ∃ a m, ip = ipText a ∧ s = ipText m ∧
            (validateRouteTarget ip s = true ↔ a &&& ~~~m = 0) := by
  refine ⟨jsval_iff s, validateNetmask_iff s, fun ip hip hmask => ?_⟩
  obtain ⟨a, rfl⟩ := (validateIP_iff ip).mp hip
  have hs : ∃ m, s = ipText m := by
    rcases hmask with hmask | hmask
    · obtain ⟨k, -, -, rfl⟩ := (jsval_iff s).mp hmask
      exact ⟨netmask k, rfl⟩
    · refine (validateIP_iff s).mp ?_
      by_contra hno
      simp [validateNetmask, hno] at hmask
  obtain ⟨m, rfl⟩ := hs
  exact ⟨a, m, rfl, rfl, routeTarget_iff a m⟩

/-- The network 192.168.1.0 with 24 ones. -/
theorem netmask_checks_classC :
    validateRouteTarget (ipText 0xC0A80100) (ipText 0xFFFFFF00) = true := by
  obtain ⟨-, -, hroute⟩ := netmask_checks (ipText 0xFFFFFF00)
  obtain ⟨a, m, ha, hm, hiff⟩ := hroute (ipText 0xC0A80100) ((validateIP_iff _).mpr ⟨_, rfl⟩)
    (.inl ((jsval_iff _).mpr ⟨24, by norm_num, by norm_num, congrArg ipText (by decide)⟩))
  rw [hiff, ← ipText_inj ha, ← ipText_inj hm]
  decide

end UbntSdk.Web
