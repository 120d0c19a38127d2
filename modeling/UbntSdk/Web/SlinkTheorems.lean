/-
UbntSdk.Web.SlinkTheorems — channel widths and power limits
(`package/ubnt-web/src/slink.js`).

The upper word of a mask is computed with a division by 2^32 - 1. It is one too
large if the words add up to that much (`upperWord_eq`), and then other widths
are listed (`getChannelWidths_iff`).

The power limit is not what the two functions for the gain and the loss invert.
They know nothing of the countries without the rule, and the rule for the 5 GHz
band takes the loss from the power. The loss is computed from the field for the
gain, and the power from the variable; the two differ after a gain that the field
does not show (`fieldVal`).

`regulatedTxpower_cases` and `calcMinLoss_cases` say which rule each function
goes by; then every case of `consistent_iff` is linear arithmetic. What the
handlers of the two fields leave behind follows from it.
-/
import UbntSdk.Web.Slink

namespace UbntSdk.Web

open UbntSdk.Lib.Js

/-! ## Channel widths -/

/-- The widths whose bits are set in a mask. -/
def maskWidths (mask : ℕ) : List ℕ :=
  ((List.range 40).map (40 - ·)).filter fun i => mask.testBit (i - 1)

/-- The quotient is the upper word, or one more. -/
theorem upperWord_eq {mask : ℕ} (h : mask < 2 ^ 40) :
    mask / (2 ^ 32 - 1) =
      if mask % 2 ^ 32 + mask / 2 ^ 32 < 2 ^ 32 - 1 then mask / 2 ^ 32 else mask / 2 ^ 32 + 1 := by
  have hparts := Nat.div_add_mod mask (2 ^ 32)
  have hlow := Nat.mod_lt mask (Nat.two_pow_pos 32)
  have hhigh : mask / 2 ^ 32 < 256 := Nat.div_lt_of_lt_mul h
  split
  · rw [Nat.div_eq_iff] <;> omega
  · rw [Nat.div_eq_iff] <;> omega

theorem widthSupported_low (mask : ℕ) (hmask : mask < 2 ^ 40) (hi : Number) {i : ℕ}
    (h32 : i ≤ 32) :
    (widthSupported hi ((mask : Number) &&& 0xFFFFFFFF) i).truthy = mask.testBit (i - 1) := by
  have hones : (0xFFFFFFFF : Number).toInt32 = BitVec.allOnes 32 := by
    rw [Number.ofNat_eq (by norm_num), Number.toInt32_natCast]
    decide
  rw [widthSupported, if_pos h32, Number.truthy_testBit _ (by omega), Number.toInt32_and, hones,
    BitVec.and_allOnes, Number.natCast_eq (by omega), Number.toInt32_natCast, BitVec.getLsbD_ofNat]
  simp [show i - 1 < 32 by omega]

theorem widthSupported_high (mask : ℕ) (hmask : mask < 2 ^ 40) (lo : Number) {i : ℕ}
    (h32 : ¬i ≤ 32) (h40 : i ≤ 40) :
    (widthSupported (((mask : Number) / 0xFFFFFFFF) ||| 0) lo i).truthy =
      (mask / (2 ^ 32 - 1)).testBit (i - 32 - 1) := by
  have hdiv := Number.toInt32_div (a := mask) (b := 0xFFFFFFFF) (by omega) (by norm_num)
    (by norm_num)
  have hzero : (0 : Number).toInt32 = 0#32 := by
    rw [Number.ofNat_eq (by norm_num), Number.toInt32_natCast]
  rw [widthSupported, if_neg h32, Number.truthy_testBit _ (by omega), Number.toInt32_or, hzero,
    BitVec.or_zero]
  refine (congrArg (BitVec.getLsbD · (i - 32 - 1)) hdiv).trans ?_
  rw [BitVec.getLsbD_ofNat]
  simp [show i - 32 - 1 < 32 by omega]

/-- Widths up to 32 are found by their bits, wider ones by those of the quotient. -/
theorem getChannelWidths_iff_testBit {mask : ℕ} (hmask : mask < 2 ^ 40) :
    getChannelWidths (mask : Number) = maskWidths mask ↔
      ∀ k < 8, (mask / (2 ^ 32 - 1)).testBit k = (mask / 2 ^ 32).testBit k := by
  unfold getChannelWidths maskWidths
  constructor
  · intro h k hk
    have hmem : k + 33 ∈ (List.range 40).map (40 - ·) :=
      List.mem_map.mpr ⟨7 - k, List.mem_range.mpr (by omega), by omega⟩
    have hiff := congrArg (k + 33 ∈ ·) h
    simp only [List.mem_filter, hmem, true_and, eq_iff_iff, ← Bool.eq_iff_iff] at hiff
    rw [widthSupported_high mask hmask _ (by omega) (by omega)] at hiff
    rw [Nat.testBit_div_two_pow]
    exact hiff
  · intro h
    refine List.filter_congr fun i hi => ?_
    obtain ⟨j, hj, rfl⟩ := List.mem_map.mp hi
    have hj := List.mem_range.mp hj
    by_cases h32 : 40 - j ≤ 32
    · exact widthSupported_low mask hmask _ h32
    · rw [widthSupported_high mask hmask _ h32 (by omega), h _ (by omega), Nat.testBit_div_two_pow]
      congr 1
      omega

/-- The widths are those of the mask unless its words add up to 2^32 - 1 or more. -/
theorem getChannelWidths_iff {mask : ℕ} (hmask : mask < 2 ^ 40) :
    getChannelWidths (mask : Number) = maskWidths mask ↔
      mask % 2 ^ 32 + mask / 2 ^ 32 < 2 ^ 32 - 1 := by
  rw [getChannelWidths_iff_testBit hmask, upperWord_eq hmask]
  split
  · rename_i hsmall
    simp only [implies_true, hsmall]
  · rename_i hlarge
    refine iff_of_false (fun h => ?_) hlarge
    -- A word and the next one differ in their last byte.
    have hbyte : (mask / 2 ^ 32 + 1) % 2 ^ 8 = mask / 2 ^ 32 % 2 ^ 8 := by
      refine Nat.eq_of_testBit_eq fun k => ?_
      rw [Nat.testBit_mod_two_pow, Nat.testBit_mod_two_pow]
      by_cases hk : k < 8
      · rw [h k hk]
      · simp [hk]
    omega

theorem getChannelWidths_20MHz :
    getChannelWidths ((2 ^ 19 : ℕ) : Number) = maskWidths (2 ^ 19) :=
  (getChannelWidths_iff (by norm_num)).mpr (by norm_num)

/-- A mask with all of the lower bits has one of the upper bits, too. -/
theorem getChannelWidths_allLow :
    getChannelWidths ((2 ^ 32 - 1 : ℕ) : Number) ≠ maskWidths (2 ^ 32 - 1) := by
  rw [ne_eq, getChannelWidths_iff_testBit (by norm_num)]
  intro h
  have hbit := h 0 (by norm_num)
  norm_num at hbit

/-! ## Power limits -/

namespace PowerPage

variable (p : PowerPage)

/-- The selected power, as far as the two limits allow it. -/
def wantedTxpower : ℤ := min p.txpower (min p.txpowerRegdomainLimit p.txpowerMax)

/-- The selected power is possible, as far as the two limits allow it. -/
def PowerReached : Prop := p.wantedTxpower ≤ p.calcMaxTxpower

/-- The gain and the loss that are computed make the selected power possible,
and no more is possible than the regulatory limit. -/
structure Consistent : Prop where
  maxGain : (p.setGain p.calcMaxGain).PowerReached
  minLoss : (p.setLoss p.calcMinLoss).PowerReached
  limit : p.calcMaxTxpower ≤ p.txpowerRegdomainLimit

/-- Where the rule for the 2.4 GHz band has no place in the power. -/
def ExemptG : Prop := p.country = 124

/-- Where the rule for the 5 GHz band has no place in the power. -/
def ExemptA : Prop := p.country = 124 ∨ p.country = 840

/-- When the largest gain makes the selected power possible. -/
structure GainInverts : Prop where
  exemptG : requiresFCC p.country → isG p.ieeeMode →
    6 ≤ p.txpowerRegdomainLimit - p.txpower + p.cableLoss → p.ExemptG →
      p.wantedTxpower ≤ p.txpowerRegdomainLimit - 96 + 3 * p.txpower
  exemptA : requiresFCC p.country → isA p.ieeeMode →
    23 < p.txpowerRegdomainLimit - p.txpower + p.cableLoss → p.ExemptA →
      p.wantedTxpower ≤ p.txpowerRegdomainLimit - 53 + p.txpower
  ruleA : requiresFCC p.country → isA p.ieeeMode →
    23 < p.txpowerRegdomainLimit - p.txpower + p.cableLoss → ¬p.ExemptA →
      23 < 53 - p.txpower + p.cableLoss → p.wantedTxpower ≤ p.txpower - 2 * p.cableLoss

/-- By what the variable for the gain is above the field. -/
def excess : ℤ := p.antennaGain - p.antennaGainVal

/-- The field is in the range of a rule. -/
def LossRuleG : Prop := requiresFCC p.country ∧ isG p.ieeeMode ∧ 6 ≤ p.antennaGainVal

def LossRuleA : Prop := requiresFCC p.country ∧ isA p.ieeeMode ∧ 23 < p.antennaGainVal

/-- The variable is in the range of a rule, and the country is not exempt. -/
def PowerRuleG : Prop := requiresFCC p.country ∧ isG p.ieeeMode ∧ ¬p.ExemptG ∧ 6 ≤ p.antennaGain

def PowerRuleA : Prop := requiresFCC p.country ∧ isA p.ieeeMode ∧ ¬p.ExemptA ∧ 23 < p.antennaGain

/-- When the smallest loss makes the selected power possible. Where the variable
and the field agree, `plain` and `bothG` ask for nothing, and `powerG` and
`powerA` have no case. -/
structure LossInverts : Prop where
  plain : ¬p.LossRuleG → ¬p.LossRuleA → ¬p.PowerRuleG → ¬p.PowerRuleA →
    p.wantedTxpower ≤ p.txpower - p.excess
  lossG : p.LossRuleG → ¬p.PowerRuleG →
    p.wantedTxpower ≤ p.txpowerRegdomainLimit - 96 + 3 * p.txpower - p.excess
  bothG : p.LossRuleG → p.PowerRuleG → p.wantedTxpower ≤ p.txpower - ceilThird p.excess
  powerG : ¬p.LossRuleG → p.PowerRuleG →
    p.wantedTxpower ≤ 32 - ceilThird (p.txpowerRegdomainLimit - p.txpower + p.excess)
  lossA : p.LossRuleA → ¬p.PowerRuleA →
    p.wantedTxpower ≤ p.txpowerRegdomainLimit - 53 + p.txpower - p.excess
  bothA : p.LossRuleA → p.PowerRuleA →
    p.wantedTxpower ≤ 106 - p.antennaGain - p.antennaGainVal - p.txpower
  powerA : ¬p.LossRuleA → p.PowerRuleA →
    p.wantedTxpower ≤ 53 + p.txpowerRegdomainLimit - p.antennaGain - p.antennaGainVal - p.txpower

theorem ceilThird_mul (x : ℤ) : ceilThird (3 * x) = x := by
  unfold ceilThird
  omega

variable {p}

/-- The limits cut off nothing of the power that is wanted. -/
theorem powerReached_iff (hobey : p.obeyRegulatory = true) :
    p.PowerReached ↔ p.wantedTxpower ≤ p.regulatedTxpower := by
  simp only [PowerReached, wantedTxpower, calcMaxTxpower, hobey, if_true]
  omega

theorem calcMaxTxpower_le (hobey : p.obeyRegulatory = true) :
    p.calcMaxTxpower ≤ p.txpowerRegdomainLimit := by
  simp only [calcMaxTxpower, hobey, if_true]
  omega

/-! ### The rules -/

theorem regulatedTxpower_plain (hfcc : requiresFCC p.country = false) :
    p.regulatedTxpower = p.txpowerRegdomainLimit - p.antennaGain + p.cableLoss := by
  simp [regulatedTxpower, hfcc]

theorem regulatedTxpower_G (hfcc : requiresFCC p.country = true) (hG : isG p.ieeeMode = true) :
    (¬p.ExemptG → 6 ≤ p.antennaGain →
      p.regulatedTxpower = 32 - ceilThird (p.antennaGain - p.cableLoss)) ∧
    (p.ExemptG ∨ p.antennaGain < 6 →
      p.regulatedTxpower = p.txpowerRegdomainLimit - p.antennaGain + p.cableLoss) := by
  unfold ExemptG
  constructor
  · intro hcountry hgain
    simp [regulatedTxpower, hfcc, hG, isA, hcountry, hgain]
  · intro hplain
    have hrule : ¬(p.country ≠ 124 ∧ 6 ≤ p.antennaGain) := by omega
    simp [regulatedTxpower, hfcc, hG, isA, hrule]

theorem regulatedTxpower_A (hfcc : requiresFCC p.country = true) (hG : isG p.ieeeMode = false) :
    (¬p.ExemptA → 23 < p.antennaGain →
      p.regulatedTxpower = 53 - p.antennaGain - p.cableLoss) ∧
    (p.ExemptA ∨ p.antennaGain ≤ 23 →
      p.regulatedTxpower = p.txpowerRegdomainLimit - p.antennaGain + p.cableLoss) := by
  unfold ExemptA
  constructor
  · intro hcountry hgain
    simp [regulatedTxpower, hfcc, hG, isA, not_or.mp hcountry, hgain]
  · intro hplain
    have hrule : ¬((p.country ≠ 124 ∧ p.country ≠ 840) ∧ 23 < p.antennaGain) := by omega
    simp [regulatedTxpower, hfcc, hG, isA, hrule]

theorem calcMaxGain_plain (hfcc : requiresFCC p.country = false) :
    p.calcMaxGain = p.txpowerRegdomainLimit - p.txpower + p.cableLoss := by
  simp [calcMaxGain, hfcc]

theorem calcMaxGain_G (hfcc : requiresFCC p.country = true) (hG : isG p.ieeeMode = true) :
    (6 ≤ p.txpowerRegdomainLimit - p.txpower + p.cableLoss →
      p.calcMaxGain = 96 - p.txpower * 3 + p.cableLoss) ∧
    (p.txpowerRegdomainLimit - p.txpower + p.cableLoss < 6 →
      p.calcMaxGain = p.txpowerRegdomainLimit - p.txpower + p.cableLoss) := by
  constructor <;> intro h
  · simp [calcMaxGain, hfcc, hG, isA, h]
  · simp [calcMaxGain, hfcc, hG, isA, not_le.mpr h]

theorem calcMaxGain_A (hfcc : requiresFCC p.country = true) (hG : isG p.ieeeMode = false) :
    (23 < p.txpowerRegdomainLimit - p.txpower + p.cableLoss →
      p.calcMaxGain = 53 - p.txpower + p.cableLoss) ∧
    (p.txpowerRegdomainLimit - p.txpower + p.cableLoss ≤ 23 →
      p.calcMaxGain = p.txpowerRegdomainLimit - p.txpower + p.cableLoss) := by
  constructor <;> intro h
  · simp [calcMaxGain, hfcc, hG, isA, h]
  · simp [calcMaxGain, hfcc, hG, isA, not_lt.mpr h]

/-- The rule that the power goes by. -/
theorem regulatedTxpower_cases :
    (p.PowerRuleG → p.regulatedTxpower = 32 - ceilThird (p.antennaGain - p.cableLoss)) ∧
    (p.PowerRuleA → p.regulatedTxpower = 53 - p.antennaGain - p.cableLoss) ∧
    (¬p.PowerRuleG → ¬p.PowerRuleA →
      p.regulatedTxpower = p.txpowerRegdomainLimit - p.antennaGain + p.cableLoss) := by
  refine ⟨?_, ?_, ?_⟩
  · rintro ⟨hfcc, hG, hcountry, hgain⟩
    exact (regulatedTxpower_G hfcc hG).1 hcountry hgain
  · rintro ⟨hfcc, hA, hcountry, hgain⟩
    exact (regulatedTxpower_A hfcc (by simpa [isA] using hA)).1 hcountry hgain
  · intro hnoG hnoA
    cases hfcc : requiresFCC p.country with
    | false => exact regulatedTxpower_plain hfcc
    | true =>
        cases hG : isG p.ieeeMode with
        | true =>
            refine (regulatedTxpower_G hfcc hG).2 ?_
            by_contra hrule
            rw [not_or, not_lt] at hrule
            exact hnoG ⟨hfcc, hG, hrule⟩
        | false =>
            refine (regulatedTxpower_A hfcc hG).2 ?_
            by_contra hrule
            rw [not_or, not_le] at hrule
            exact hnoA ⟨hfcc, by simp [isA, hG], hrule⟩

/-- The rule that the loss goes by. -/
theorem calcMinLoss_cases :
    (p.LossRuleG → p.calcMinLoss = p.antennaGainVal - 96 + p.txpower * 3) ∧
    (p.LossRuleA → p.calcMinLoss = p.antennaGainVal - 53 + p.txpower) ∧
    (¬p.LossRuleG → ¬p.LossRuleA →
      p.calcMinLoss = p.antennaGainVal + p.txpower - p.txpowerRegdomainLimit) := by
  refine ⟨?_, ?_, ?_⟩
  · rintro ⟨hfcc, hG, hgain⟩
    simp [calcMinLoss, hfcc, hG, isA, hgain]
  · rintro ⟨hfcc, hA, hgain⟩
    have hG : isG p.ieeeMode = false := by simpa [isA] using hA
    simp [calcMinLoss, hfcc, hG, isA, hgain]
  · intro hnoG hnoA
    unfold LossRuleG at hnoG
    unfold LossRuleA at hnoA
    unfold calcMinLoss
    cases hfcc : requiresFCC p.country with
    | false => simp
    | true =>
        rw [hfcc] at hnoG hnoA
        have hG : ¬(isG p.ieeeMode ∧ p.antennaGainVal ≥ 6) := fun h => hnoG ⟨rfl, h⟩
        have hA : ¬(isA p.ieeeMode ∧ p.antennaGainVal > 23) := fun h => hnoA ⟨rfl, h⟩
        simp only [if_true, if_neg hG, if_neg hA]

/-- No mode has both rules. -/
theorem not_isA_of_isG {mode : List Char} (h : isG mode = true) : ¬isA mode = true := by
  simp [isA, h]

/-! ### The inverses -/

theorem wantedTxpower_le : p.wantedTxpower ≤ p.txpower := min_le_left _ _

/-- The gain and the loss are what the rule of the 2.4 GHz band asks for. -/
theorem reached_G (hfcc : requiresFCC p.country = true) (hG : isG p.ieeeMode = true)
    (hgain : p.antennaGain - p.cableLoss = 3 * (32 - p.txpower))
    (hsmall : p.antennaGain < 6 →
      p.txpower ≤ p.txpowerRegdomainLimit - p.antennaGain + p.cableLoss) :
    p.wantedTxpower ≤ p.regulatedTxpower ↔
      (p.ExemptG → p.wantedTxpower ≤ p.txpowerRegdomainLimit - 96 + 3 * p.txpower) := by
  have hwanted := p.wantedTxpower_le
  obtain ⟨hrule, hplain⟩ := regulatedTxpower_G hfcc hG
  rw [hgain, ceilThird_mul] at hrule
  by_cases hex : p.ExemptG
  · have hreg := hplain (.inl hex)
    simp only [hex, true_implies]
    omega
  · refine iff_of_true ?_ fun h => absurd h hex
    rcases lt_or_ge p.antennaGain 6 with hlt | hge
    · rw [hplain (.inr hlt)]
      exact hwanted.trans (hsmall hlt)
    · rw [hrule hex hge]
      omega

/-- The gain and the loss are what the rule of the 5 GHz band asks for. -/
theorem reached_A (hfcc : requiresFCC p.country = true) (hG : isG p.ieeeMode = false)
    (hgain : p.antennaGain - p.cableLoss = 53 - p.txpower)
    (hsmall : p.antennaGain ≤ 23 →
      p.txpower ≤ p.txpowerRegdomainLimit - p.antennaGain + p.cableLoss) :
    p.wantedTxpower ≤ p.regulatedTxpower ↔
      (p.ExemptA → p.wantedTxpower ≤ p.txpowerRegdomainLimit - 53 + p.txpower) ∧
      (¬p.ExemptA → 23 < p.antennaGain → p.wantedTxpower ≤ 53 - p.antennaGain - p.cableLoss) := by
  have hwanted := p.wantedTxpower_le
  obtain ⟨hrule, hplain⟩ := regulatedTxpower_A hfcc hG
  by_cases hex : p.ExemptA
  · have hreg := hplain (.inl hex)
    simp only [hex, true_implies, not_true_eq_false, false_implies, and_true]
    omega
  · rcases le_or_gt p.antennaGain 23 with hle | hgt
    · refine iff_of_true ?_ ⟨fun h => absurd h hex, fun _ h => absurd h (not_lt.mpr hle)⟩
      rw [hplain (.inr hle)]
      exact hwanted.trans (hsmall hle)
    · rw [hrule hex hgt]
      exact ⟨fun h => ⟨fun h => absurd h hex, fun _ _ => h⟩, fun h => h.2 hex hgt⟩

/-- The gain and the loss are what the limit asks for, and no rule applies. -/
theorem reached_plain
    (hgain : p.txpowerRegdomainLimit - p.antennaGain + p.cableLoss = p.txpower)
    (hG : requiresFCC p.country = true → isG p.ieeeMode = true → p.antennaGain < 6)
    (hA : requiresFCC p.country = true → isG p.ieeeMode = false → p.antennaGain ≤ 23) :
    p.wantedTxpower ≤ p.regulatedTxpower := by
  refine p.wantedTxpower_le.trans (hgain ▸ ?_)
  cases hfcc : requiresFCC p.country with
  | false => exact (regulatedTxpower_plain hfcc).ge
  | true =>
      cases hmode : isG p.ieeeMode with
      | true => exact ((regulatedTxpower_G hfcc hmode).2 (.inr (hG hfcc hmode))).ge
      | false => exact ((regulatedTxpower_A hfcc hmode).2 (.inr (hA hfcc hmode))).ge

theorem maxGain_iff (hobey : p.obeyRegulatory = true) :
    (p.setGain p.calcMaxGain).PowerReached ↔ p.GainInverts := by
  rw [powerReached_iff (by exact hobey)]
  cases hfcc : requiresFCC p.country with
  | false =>
      have hplain := calcMaxGain_plain hfcc
      refine iff_of_true (reached_plain ?_ ?_ ?_) ⟨?_, ?_, ?_⟩
      · simp only [setGain]
        omega
      all_goals
        intro h
        cases hfcc.symm.trans h
  | true =>
      cases hG : isG p.ieeeMode with
      | true =>
          have hA : isA p.ieeeMode ≠ true := by simp [isA, hG]
          obtain ⟨hrule, hplain⟩ := calcMaxGain_G hfcc hG
          rcases lt_or_ge (p.txpowerRegdomainLimit - p.txpower + p.cableLoss) 6 with hlt | hge
          · have hgain := hplain hlt
            refine iff_of_true (reached_plain ?_ (fun _ _ => ?_) fun _ hmode => ?_)
              ⟨fun _ _ hge => absurd hge (not_le.mpr hlt), fun _ hmode => absurd hmode hA,
                fun _ hmode => absurd hmode hA⟩
            · simp only [setGain]
              omega
            · exact hgain.trans_lt hlt
            · cases hG.symm.trans hmode
          · have hgain := hrule hge
            refine (reached_G (p := p.setGain p.calcMaxGain) hfcc hG ?_ ?_).trans
              ⟨fun h => ?_, fun h => ?_⟩
            · simp only [setGain]
              omega
            · simp only [setGain]
              omega
            · exact ⟨fun _ _ _ => h, fun _ hmode => absurd hmode hA, fun _ hmode => absurd hmode hA⟩
            · exact h.exemptG hfcc hG hge
      | false =>
          have hA : isA p.ieeeMode = true := by simp [isA, hG]
          have hG' : isG p.ieeeMode ≠ true := by simp [hG]
          obtain ⟨hrule, hplain⟩ := calcMaxGain_A hfcc hG
          rcases le_or_gt (p.txpowerRegdomainLimit - p.txpower + p.cableLoss) 23 with hle | hgt
          · have hgain := hplain hle
            refine iff_of_true (reached_plain ?_ (fun _ hmode => ?_) fun _ _ => ?_)
              ⟨fun _ hmode => absurd hmode hG', fun _ _ hgt => absurd hgt (not_lt.mpr hle),
                fun _ _ hgt => absurd hgt (not_lt.mpr hle)⟩
            · simp only [setGain]
              omega
            · exact absurd hmode hG'
            · exact hgain.trans_le hle
          · have hgain := hrule hgt
            have hpower : 53 - p.calcMaxGain - p.cableLoss = p.txpower - 2 * p.cableLoss := by omega
            refine (reached_A (p := p.setGain p.calcMaxGain) hfcc hG ?_ ?_).trans
              ⟨fun h => ?_, fun h => ?_⟩
            · simp only [setGain]
              omega
            · simp only [setGain]
              omega
            · refine ⟨fun _ hmode => absurd hmode hG', fun _ _ _ => h.1, fun _ _ _ hex hlarge => ?_⟩
              rw [← hpower]
              exact h.2 hex (hlarge.trans_eq hgain.symm)
            · refine ⟨h.exemptA hfcc hA hgt, fun hex hlarge => ?_⟩
              exact (h.ruleA hfcc hA hgt hex (hlarge.trans_eq hgain)).trans_eq hpower.symm

/-- The power that the smallest loss leaves, by the rules that the loss and the power
go by. The loss is not looked at by either rule. -/
theorem minLoss_power :
    let power := (p.setLoss p.calcMinLoss).regulatedTxpower
    (¬p.LossRuleG → ¬p.LossRuleA → ¬p.PowerRuleG → ¬p.PowerRuleA →
      power = p.txpower - p.excess) ∧
    (p.LossRuleG → ¬p.PowerRuleG →
      power = p.txpowerRegdomainLimit - 96 + 3 * p.txpower - p.excess) ∧
    (p.LossRuleG → p.PowerRuleG → power = p.txpower - ceilThird p.excess) ∧
    (¬p.LossRuleG → p.PowerRuleG →
      power = 32 - ceilThird (p.txpowerRegdomainLimit - p.txpower + p.excess)) ∧
    (p.LossRuleA → ¬p.PowerRuleA →
      power = p.txpowerRegdomainLimit - 53 + p.txpower - p.excess) ∧
    (p.LossRuleA → p.PowerRuleA →
      power = 106 - p.antennaGain - p.antennaGainVal - p.txpower) ∧
    (¬p.LossRuleA → p.PowerRuleA →
      power = 53 + p.txpowerRegdomainLimit - p.antennaGain - p.antennaGainVal - p.txpower) := by
  intro power
  obtain ⟨hregG, hregA, hregPlain⟩ := regulatedTxpower_cases (p := p.setLoss p.calcMinLoss)
  change p.PowerRuleG → power = 32 - ceilThird (p.antennaGain - p.calcMinLoss) at hregG
  change p.PowerRuleA → power = 53 - p.antennaGain - p.calcMinLoss at hregA
  change ¬p.PowerRuleG → ¬p.PowerRuleA →
    power = p.txpowerRegdomainLimit - p.antennaGain + p.calcMinLoss at hregPlain
  obtain ⟨hlossG, hlossA, hlossPlain⟩ := calcMinLoss_cases (p := p)
  have hexcess : p.excess = p.antennaGain - p.antennaGainVal := rfl
  refine ⟨?plain, ?lossG, ?bothG, ?powerG, ?lossA, ?bothA, ?powerA⟩
  case plain =>
    intro hG hA hpowerG hpowerA
    rw [hregPlain hpowerG hpowerA, hlossPlain hG hA]
    omega
  case lossG =>
    intro hG hpowerG
    have hpowerA : ¬p.PowerRuleA := fun h => not_isA_of_isG hG.2.1 h.2.1
    rw [hregPlain hpowerG hpowerA, hlossG hG]
    omega
  case bothG =>
    intro hG hpowerG
    rw [hregG hpowerG, hlossG hG, ceilThird, ceilThird]
    omega
  case powerG =>
    intro hG hpowerG
    have hA : ¬p.LossRuleA := fun h => not_isA_of_isG hpowerG.2.1 h.2.1
    rw [hregG hpowerG, hlossPlain hG hA, ceilThird, ceilThird]
    omega
  case lossA =>
    intro hA hpowerA
    have hpowerG : ¬p.PowerRuleG := fun h => not_isA_of_isG h.2.1 hA.2.1
    rw [hregPlain hpowerG hpowerA, hlossA hA]
    omega
  case bothA =>
    intro hA hpowerA
    rw [hregA hpowerA, hlossA hA]
    omega
  case powerA =>
    intro hA hpowerA
    have hG : ¬p.LossRuleG := fun h => not_isA_of_isG h.2.1 hpowerA.2.1
    rw [hregA hpowerA, hlossPlain hG hA]
    omega

theorem minLoss_iff (hobey : p.obeyRegulatory = true) :
    (p.setLoss p.calcMinLoss).PowerReached ↔ p.LossInverts := by
  rw [powerReached_iff (by exact hobey)]
  change p.wantedTxpower ≤ _ ↔ _
  obtain ⟨hplain, hlossG, hbothG, hpowerG, hlossA, hbothA, hpowerA⟩ := minLoss_power (p := p)
  generalize (p.setLoss p.calcMinLoss).regulatedTxpower = power at *
  constructor
  · intro h
    refine ⟨?_, ?_, ?_, ?_, ?_, ?_, ?_⟩
    · exact fun hG hA hpG hpA => hplain hG hA hpG hpA ▸ h
    · exact fun hG hpG => hlossG hG hpG ▸ h
    · exact fun hG hpG => hbothG hG hpG ▸ h
    · exact fun hG hpG => hpowerG hG hpG ▸ h
    · exact fun hA hpA => hlossA hA hpA ▸ h
    · exact fun hA hpA => hbothA hA hpA ▸ h
    · exact fun hA hpA => hpowerA hA hpA ▸ h
  · intro h
    by_cases hpG : p.PowerRuleG
    · by_cases hG : p.LossRuleG
      · exact hbothG hG hpG ▸ h.bothG hG hpG
      · exact hpowerG hG hpG ▸ h.powerG hG hpG
    by_cases hpA : p.PowerRuleA
    · by_cases hA : p.LossRuleA
      · exact hbothA hA hpA ▸ h.bothA hA hpA
      · exact hpowerA hA hpA ▸ h.powerA hA hpA
    by_cases hG : p.LossRuleG
    · exact hlossG hG hpG ▸ h.lossG hG hpG
    by_cases hA : p.LossRuleA
    · exact hlossA hA hpA ▸ h.lossA hA hpA
    · exact hplain hG hA hpG hpA ▸ h.plain hG hA hpG hpA

/-- The gain and the loss invert the power limit exactly where the rules agree. -/
theorem consistent_iff (hobey : p.obeyRegulatory = true) :
    p.Consistent ↔ p.GainInverts ∧ p.LossInverts := by
  constructor
  · intro h
    exact ⟨(maxGain_iff hobey).mp h.maxGain, (minLoss_iff hobey).mp h.minLoss⟩
  · rintro ⟨hgain, hloss⟩
    exact ⟨(maxGain_iff hobey).mpr hgain, (minLoss_iff hobey).mpr hloss, calcMaxTxpower_le hobey⟩

/-! ### The handlers -/

/-- A gain outside of the range of the field is all that makes the variable and
the field differ, and a gain that leaves no power is replaced in both. -/
theorem excess_onAntennaGainChange (gain : ℤ) :
    (p.onAntennaGainChange gain).excess = 0 ↔ 0 ≤ gain ∧ gain ≤ 40 ∨
      p.obeyRegulatory ∧ (p.setGain gain).calcMaxTxpower ≤ 0 := by
  have hsame : ({ p with antennaGain := gain, antennaGainVal := fieldVal gain } : PowerPage).calcMaxTxpower =
      (p.setGain gain).calcMaxTxpower := rfl
  unfold onAntennaGainChange
  dsimp only
  rw [hsame]
  split
  · rename_i hreset
    exact iff_of_true (by simp [excess, setGain]) (.inr hreset)
  · rename_i hkept
    rw [or_iff_left hkept]
    simp only [excess, fieldVal]
    split
    · omega
    · split <;> omega

/-- Behind a new gain some power is left, or as much as is wanted. -/
theorem onAntennaGainChange_reached (hobey : p.obeyRegulatory = true) (h : p.GainInverts) (gain : ℤ) :
    0 < (p.onAntennaGainChange gain).calcMaxTxpower ∨ (p.onAntennaGainChange gain).PowerReached := by
  unfold onAntennaGainChange
  dsimp only
  split
  · exact .inr ((maxGain_iff (by exact hobey)).mpr ⟨h.exemptG, h.exemptA, h.ruleA⟩)
  · rename_i hkept
    exact .inl (not_le.mp fun hnone => hkept ⟨hobey, hnone⟩)

/-- The same behind a new loss. -/
theorem onCableLossChange_reached (hobey : p.obeyRegulatory = true) (h : p.LossInverts) (loss : ℤ) :
    0 < (p.onCableLossChange loss).calcMaxTxpower ∨ (p.onCableLossChange loss).PowerReached := by
  unfold onCableLossChange
  dsimp only
  split
  · exact .inr ((minLoss_iff (by exact hobey)).mpr
      ⟨h.plain, h.lossG, h.bothG, h.powerG, h.lossA, h.bothA, h.powerA⟩)
  · rename_i hkept
    exact .inl (not_le.mp fun hnone => hkept ⟨hobey, hnone⟩)

end PowerPage

/-- A page for Mexico in the 5 GHz band, with the loss of a long cable. -/
def mexicoPage : PowerPage where
  country := 484
  ieeeMode := ['A']
  obeyRegulatory := true
  txpowerRegdomainLimit := 30
  txpowerMax := 28
  txpower := 10
  antennaGain := 5
  antennaGainVal := 5
  cableLoss := 5

/-- The largest gain leaves no power at all. -/
theorem not_consistent_mexico : ¬mexicoPage.Consistent := by
  intro h
  have hreached := h.maxGain
  unfold PowerPage.PowerReached at hreached
  revert hreached
  decide

/-- A page for Germany. -/
def germanyPage : PowerPage where
  country := 276
  ieeeMode := ['A']
  obeyRegulatory := true
  txpowerRegdomainLimit := 20
  txpowerMax := 28
  txpower := 10
  antennaGain := 35
  antennaGainVal := 35
  cableLoss := 30

/-- Without the rules of the FCC, and with the gain that the field shows. -/
theorem consistent_germany : germanyPage.Consistent := by
  have hfcc : ¬requiresFCC germanyPage.country = true := by decide
  refine (PowerPage.consistent_iff rfl).mpr ⟨⟨fun h => absurd h hfcc, fun h => absurd h hfcc,
    fun h => absurd h hfcc⟩, ⟨fun _ _ _ _ => by decide, fun h => absurd h.1 hfcc,
    fun h => absurd h.1 hfcc, fun _ h => absurd h.1 hfcc, fun h => absurd h.1 hfcc,
    fun h => absurd h.1 hfcc, fun _ h => absurd h.1 hfcc⟩⟩

/-- After a gain of 45 the field shows 40. A loss of 5 is then replaced by 30, which
is 5 dB too little. -/
example :
    ((germanyPage.onAntennaGainChange 45).onCableLossChange 5).cableLoss = 30 ∧
      ((germanyPage.onAntennaGainChange 45).onCableLossChange 5).calcMaxTxpower = 5 := by
  decide

end UbntSdk.Web
