/-
UbntSdk.Web.FieldTheorems — the texts of addresses and ports that the firewall
page accepts (`package/ubnt-web/src/firewall.js`).

The checks accept every numeral that JavaScript reads as a number in range. The
texts that they are meant for have digits there only.
-/
import UbntSdk.Web.Firewall
import UbntSdk.Web.ValidateTheorems

namespace UbntSdk.Web

open UbntSdk.Lib.Js

/-- The digits of a number. -/
def Digits (n : ℕ) (s : List Char) : Prop :=
  s ≠ [] ∧ (∀ c ∈ s, digit 10 c = true) ∧ value 10 s = n

/-- Nothing, a port, or two ports in order. -/
def PortText (number : ℕ → List Char → Prop) (s : List Char) : Prop :=
  s = [] ∨ (∃ n, 1 ≤ n ∧ n ≤ 65535 ∧ number n s) ∨
    ∃ a b m n, s = a ++ ':' :: b ∧ 1 ≤ m ∧ m ≤ n ∧ n ≤ 65535 ∧ number m a ∧ number n b

/-- Nothing, an address, or an address with the number of ones of its mask. -/
def AddressText (number : ℕ → List Char → Prop) (s : List Char) : Prop :=
  s = [] ∨ (∃ a, s = ipText a) ∨ ∃ a mask n, s = ipText a ++ '/' :: mask ∧ n ≤ 32 ∧ number n mask

/-! ## Numbers in range -/

/-- What the checks of a number let through. -/
theorem inRange_iff (lo : ℕ) {hi : ℕ} (hhi : hi + 1 < 2 ^ 53) (s : List Char) :
    (isNaN s = false ∧ (Lib.Js.parseInt s).eq (toNumber s) = true ∧
      (Lib.Js.parseInt s).lt (.finite lo) = false ∧
      Number.lt (.finite hi) (Lib.Js.parseInt s) = false) ↔
        ∃ n, lo ≤ n ∧ n ≤ hi ∧ Numeral n s := by
  constructor
  · rintro ⟨-, heq, hlo, hhigh⟩
    cases hparse : Lib.Js.parseInt s with
    | nan =>
        rw [hparse] at heq
        cases heq
    | inf neg =>
        rw [hparse] at hlo hhigh
        cases neg with
        | false => cases hhigh
        | true => cases hlo
    | finite q =>
        rw [hparse] at heq hlo hhigh
        have hle : q ≤ hi := by simpa [Number.lt] using hhigh
        have hge : (lo : ℚ) ≤ q := by simpa [Number.lt] using hlo
        obtain ⟨n, rfl⟩ := parseInt_whole hhi hparse ((Nat.cast_nonneg lo).trans hge) hle
        rw [Nat.cast_le] at hle hge
        refine ⟨n, hge, hle, (reads_iff (by omega) s).mp ⟨?_, hparse⟩⟩
        cases hnumber : toNumber s with
        | nan =>
            rw [hnumber] at heq
            cases heq
        | inf neg =>
            rw [hnumber] at heq
            cases heq
        | finite r =>
            rw [hnumber] at heq
            rw [of_decide_eq_true heq]
  · rintro ⟨n, hlo, hle, hnumeral⟩
    obtain ⟨hnumber, hparse⟩ := (reads_iff (by omega) s).mpr hnumeral
    rw [isNaN, hnumber, hparse]
    simp [Number.eq, Number.lt, hlo, hle]

theorem digits_of_numeral {n : ℕ} (hn : n ≤ 65535) {s : List Char} (h : Numeral n s)
    (hdigits : ∀ c ∈ s, c.isDigit = true) : Digits n s := by
  have hten : ∀ c ∈ s, digit 10 c = true := fun c hc => (digit_ten_isDigit c).trans (hdigits c hc)
  obtain ⟨hne, hvalue⟩ := h.digits (by omega) hten
  exact ⟨hne, hten, hvalue⟩

theorem Digits.numeral {n : ℕ} (hn : n ≤ 65535) {s : List Char} (h : Digits n s) : Numeral n s := by
  obtain ⟨hne, hdigits, rfl⟩ := h
  exact numeral_of_digits hne hdigits (by omega)

/-! ## Separators -/

theorem splitAt_append {c : Char} {a : List Char} (ha : c ∉ a) (b : List Char) :
    splitAt c (a ++ c :: b) = (a, b) := by
  have hall : ∀ d ∈ a, decide (d ≠ c) = true := by
    intro d hd
    rw [decide_eq_true_eq]
    rintro rfl
    exact ha hd
  obtain ⟨htake, hdrop⟩ := takeWhile_dropWhile_append (b := c :: b) hall (by simp)
  rw [splitAt, htake, hdrop]
  rfl

theorem not_mem_numeral {n : ℕ} {s : List Char} (h : Numeral n s) {c : Char}
    (hspace : space c = false) (hdigit : digit 16 c = false) (hc : c ∉ ['x', 'X', '+', '-', '.']) :
    c ∉ s := by
  intro hmem
  rcases h.chars c hmem with h | h | h
  · simp [hspace] at h
  · simp [hdigit] at h
  · exact hc h

theorem colon_numeral {n : ℕ} {s : List Char} (h : Numeral n s) : ':' ∉ s :=
  not_mem_numeral h (by decide) (by decide) (by decide)

theorem slash_ipText (a : BitVec 32) : '/' ∉ ipText a := by
  rw [ipText_eq, quadText_eq]
  have hdigits (n : ℕ) : '/' ∉ Nat.toDigits 10 n := by
    intro hmem
    have hdigit := digit_toDigits '/' hmem
    revert hdigit
    decide
  simp [hdigits]

/-! ## What is accepted -/

/-- The ports that are accepted. -/
theorem validatePort_iff (s : List Char) :
    validatePort s = true ↔ PortText Numeral (trim s) := by
  have h1 : (1 : Number) = .finite (1 : ℕ) := Number.ofNat_eq (by norm_num)
  have hmax : (65535 : Number) = .finite (65535 : ℕ) := Number.ofNat_eq (by norm_num)
  rw [validatePort]
  generalize trim s = t
  by_cases hempty : t = []
  · simp [hempty, PortText]
  rw [if_neg hempty]
  by_cases hcolon : ':' ∈ t
  · obtain ⟨a, b, rfl, ha⟩ := List.eq_append_cons_of_mem hcolon
    have hrangeA := inRange_iff 1 (show 65535 + 1 < 2 ^ 53 by norm_num) a
    have hrangeB := inRange_iff 1 (show 65535 + 1 < 2 ^ 53 by norm_num) b
    rw [if_pos hcolon, splitAt_append ha]
    simp only [h1, hmax, Bool.if_false_left, Bool.and_eq_true, Bool.not_eq_true',
      Bool.or_eq_false_iff, Bool.not_eq_false', decide_eq_false_iff_not,
      Bool.or_eq_true, not_or, Bool.not_eq_true]
    constructor
    · rintro ⟨⟨hnanA, hnanB⟩, ⟨⟨⟨⟨⟨heqA, heqB⟩, hloA⟩, hhiA⟩, hloB⟩, hhiB⟩, horder⟩
      obtain ⟨m, hm, hmhi, hnumA⟩ := hrangeA.mp ⟨hnanA, heqA, hloA, hhiA⟩
      obtain ⟨n, hn, hnhi, hnumB⟩ := hrangeB.mp ⟨hnanB, heqB, hloB, hhiB⟩
      rw [((reads_iff (by omega) a).mpr hnumA).2, ((reads_iff (by omega) b).mpr hnumB).2] at horder
      have hle : m ≤ n := by simpa [Number.lt] using horder
      exact .inr (.inr ⟨a, b, m, n, rfl, hm, hle, hnhi, hnumA, hnumB⟩)
    · rintro (hnil | ⟨n, -, -, hnum⟩ | ⟨a', b', m, n, heq, hm, hle, hnhi, hnumA, hnumB⟩)
      · exact absurd hnil hempty
      · exact absurd hcolon (colon_numeral hnum)
      · have hsplit := congrArg (splitAt ':') heq
        rw [splitAt_append ha, splitAt_append (colon_numeral hnumA)] at hsplit
        obtain ⟨rfl, rfl⟩ := Prod.mk.inj hsplit
        obtain ⟨hnanA, heqA, hloA, hhiA⟩ := hrangeA.mpr ⟨m, hm, hle.trans hnhi, hnumA⟩
        obtain ⟨hnanB, heqB, hloB, hhiB⟩ := hrangeB.mpr ⟨n, hm.trans hle, hnhi, hnumB⟩
        refine ⟨⟨hnanA, hnanB⟩, ⟨⟨⟨⟨⟨heqA, heqB⟩, hloA⟩, hhiA⟩, hloB⟩, hhiB⟩, ?_⟩
        rw [((reads_iff (by omega) a).mpr hnumA).2, ((reads_iff (by omega) b).mpr hnumB).2]
        simp [Number.lt, hle]
  · rw [if_neg hcolon]
    have hrange := inRange_iff 1 (show 65535 + 1 < 2 ^ 53 by norm_num) t
    simp only [h1, hmax, Bool.not_eq_true', Bool.or_eq_false_iff, Bool.not_eq_false', and_assoc]
    rw [hrange, PortText, or_iff_right hempty]
    constructor
    · exact .inl
    · rintro (hsingle | ⟨a, b, m, n, rfl, -⟩)
      · exact hsingle
      · simp at hcolon

/-- The addresses that are accepted. -/
theorem validateIp_iff (s : List Char) :
    validateIp s = true ↔ AddressText Numeral (trim s) := by
  have h0 : (0 : Number) = .finite (0 : ℕ) := Number.ofNat_eq (by norm_num)
  have h32 : (32 : Number) = .finite (32 : ℕ) := Number.ofNat_eq (by norm_num)
  rw [validateIp]
  generalize trim s = t
  by_cases hempty : t = []
  · simp [hempty, AddressText]
  by_cases hany : t = anyIP
  · refine iff_of_true (by simp [hany]) (.inr (.inr ⟨0, ['0'], 0, ?_, by norm_num, ?_⟩))
    · rw [hany, anyIP, zeroIP_eq]
    · exact Digits.numeral (by norm_num) ⟨by decide, List.all_eq_true.mp (by decide), by decide⟩
  rw [if_neg (by simp [hempty, hany]), AddressText, or_iff_right hempty]
  by_cases hslash : '/' ∈ t
  · obtain ⟨a, mask, rfl, ha⟩ := List.eq_append_cons_of_mem hslash
    have hrange := inRange_iff 0 (show 32 + 1 < 2 ^ 53 by norm_num) mask
    rw [if_pos hslash, splitAt_append ha]
    have hcond : (isNaN mask || !(Lib.Js.parseInt mask).eq (toNumber mask) ||
        (Lib.Js.parseInt mask).lt 0 || Number.lt 32 (Lib.Js.parseInt mask)) = false ↔ ∃ n, 0 ≤ n ∧ n ≤ 32 ∧ Numeral n mask := by
      rw [← hrange, h0, h32]
      simp only [Bool.or_eq_false_iff, Bool.not_eq_false', and_assoc]
    dsimp only
    rw [Bool.if_false_left, Bool.and_eq_true, Bool.not_eq_true', Bool.decide_eq_true, hcond,
      validateIP_iff]
    constructor
    · rintro ⟨⟨n, -, hn, hnum⟩, address, rfl⟩
      exact .inr ⟨address, mask, n, rfl, hn, hnum⟩
    · rintro (⟨address, heq⟩ | ⟨address, mask', n, heq, hn, hnum⟩)
      · rw [heq] at hslash
        exact absurd hslash (slash_ipText address)
      · have hsplit := congrArg (splitAt '/') heq
        rw [splitAt_append ha, splitAt_append (slash_ipText address)] at hsplit
        obtain ⟨rfl, rfl⟩ := Prod.mk.inj hsplit
        exact ⟨⟨n, Nat.zero_le n, hn, hnum⟩, address, rfl⟩
  · rw [if_neg hslash, validateIP_iff]
    constructor
    · exact .inl
    · rintro (haddress | ⟨a, mask, n, rfl, -⟩)
      · exact haddress
      · simp at hslash

/-! ## Digits only -/

theorem PortText.digits {s : List Char} (h : PortText Digits s) : PortText Numeral s := by
  rcases h with hnil | ⟨n, hn, hmax, hnum⟩ | ⟨a, b, m, n, hs, hm, hmn, hmax, ha, hb⟩
  · exact .inl hnil
  · exact .inr (.inl ⟨n, hn, hmax, hnum.numeral hmax⟩)
  · exact .inr (.inr ⟨a, b, m, n, hs, hm, hmn, hmax, ha.numeral (hmn.trans hmax), hb.numeral hmax⟩)

theorem Digits.isDigit {n : ℕ} {s : List Char} (h : Digits n s) : ∀ c ∈ s, c.isDigit = true :=
  fun c hc => (digit_ten_isDigit c).symm.trans (h.2.1 c hc)

/-- Ports that are accepted are written with digits, or they are not what the
check is meant for. -/
theorem port_digits_iff {s : List Char} (h : PortText Numeral s) :
    PortText Digits s ↔ ∀ c ∈ s, c.isDigit = true ∨ c = ':' := by
  constructor
  · rintro (rfl | ⟨n, -, -, hnum⟩ | ⟨a, b, m, n, rfl, -, -, -, ha, hb⟩)
    · simp
    · exact fun c hc => .inl (hnum.isDigit c hc)
    · simp only [List.forall_mem_append, List.forall_mem_cons]
      exact ⟨fun c hc => .inl (ha.isDigit c hc), .inr trivial, fun c hc => .inl (hb.isDigit c hc)⟩
  · intro hchars
    have hdigits {n : ℕ} {t : List Char} (hnum : Numeral n t) (hsub : t ⊆ s) :
        ∀ c ∈ t, c.isDigit = true := by
      intro c hc
      refine (hchars c (hsub hc)).resolve_right ?_
      rintro rfl
      exact colon_numeral hnum hc
    rcases h with hnil | ⟨n, hn, hmax, hnum⟩ | ⟨a, b, m, n, rfl, hm, hmn, hmax, ha, hb⟩
    · exact .inl hnil
    · exact .inr (.inl ⟨n, hn, hmax,
        digits_of_numeral hmax hnum (hdigits hnum (List.Subset.refl s))⟩)
    · refine .inr (.inr ⟨a, b, m, n, rfl, hm, hmn, hmax, ?_, ?_⟩)
      · exact digits_of_numeral (hmn.trans hmax) ha (hdigits ha (by simp))
      · exact digits_of_numeral hmax hb (hdigits hb fun c hc => by simp [hc])

/-- The checks accept the texts that they are meant for, and no others, where
the numbers in them are written with digits. -/
theorem validate_iff (s : List Char) :
    ((validatePort s = true ↔ PortText Digits (trim s)) ↔
      (PortText Numeral (trim s) → ∀ c ∈ trim s, c.isDigit = true ∨ c = ':')) ∧
    ((validateIp s = true ↔ AddressText Digits (trim s)) ↔
      ∀ a mask n, trim s = ipText a ++ '/' :: mask → n ≤ 32 → Numeral n mask →
        ∀ c ∈ mask, c.isDigit = true) := by
  rw [validatePort_iff, validateIp_iff]
  constructor
  · constructor
    · intro hiff hnum
      exact (port_digits_iff hnum).mp (hiff.mp hnum)
    · intro hdigits
      exact ⟨fun hnum => (port_digits_iff hnum).mpr (hdigits hnum), PortText.digits⟩
  · constructor
    · intro hiff a mask n heq hn hnum
      rcases hiff.mp (.inr (.inr ⟨a, mask, n, heq, hn, hnum⟩)) with hnil | ⟨b, hb⟩ |
        ⟨b, mask', m, hb, -, hdigits⟩
      · rw [heq] at hnil
        simp at hnil
      · have hslash := slash_ipText b
        rw [← hb, heq] at hslash
        simp at hslash
      · have hsplit := congrArg (splitAt '/') (heq.symm.trans hb)
        rw [splitAt_append (slash_ipText a), splitAt_append (slash_ipText b)] at hsplit
        obtain ⟨-, rfl⟩ := Prod.mk.inj hsplit
        exact hdigits.isDigit
    · intro hdigits
      constructor
      · rintro (hnil | haddress | ⟨a, mask, n, heq, hn, hnum⟩)
        · exact .inl hnil
        · exact .inr (.inl haddress)
        · exact .inr (.inr ⟨a, mask, n, heq, hn,
            digits_of_numeral (by omega) hnum (hdigits a mask n heq hn hnum)⟩)
      · rintro (hnil | haddress | ⟨a, mask, n, heq, hn, hnum⟩)
        · exact .inl hnil
        · exact .inr (.inl haddress)
        · exact .inr (.inr ⟨a, mask, n, heq, hn, hnum.numeral (by omega)⟩)

/-- The port `0x50` is accepted. -/
theorem validatePort_hex : validatePort ['0', 'x', '5', '0'] = true ∧
    ¬PortText Digits (trim ['0', 'x', '5', '0']) := by
  have htrim : trim ['0', 'x', '5', '0'] = ['0', 'x', '5', '0'] := by decide
  rw [validatePort_iff, htrim]
  have hnum : PortText Numeral ['0', 'x', '5', '0'] := by
    refine .inr (.inl ⟨80, by norm_num, by norm_num, [], ['0', 'x', '5', '0'], [], rfl, by simp,
      by simp, .hex (.inl rfl) (by decide) (List.all_eq_true.mp (by decide)) (by decide)⟩)
  refine ⟨hnum, fun hdigits => ?_⟩
  have hx := (port_digits_iff hnum).mp hdigits 'x' (by decide)
  revert hx
  decide

end UbntSdk.Web
