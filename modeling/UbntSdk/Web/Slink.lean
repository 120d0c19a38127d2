/-
UbntSdk.Web.Slink — channel widths and power limits of the wireless page
(`package/ubnt-web/src/slink.js`).

A `ChannelWidth` is given by its width. Powers, gains and losses are whole
numbers. The variable `antenna_gain` and the field of that name are kept apart,
as one function reads the field; so does every function for `txpower`.
-/
import Mathlib.Data.List.Basic
import UbntSdk.Lib.JsNumber

namespace UbntSdk.Web

open UbntSdk.Lib.Js

/-! ## Channel widths -/

/-- `supported`, in the loop of `getChannelWidths`. -/
def widthSupported (hi lo : Number) (i : ℕ) : Number :=
  if i ≤ 32 then lo &&& (1 : Number) <<< ((i - 1 : ℕ) : Number)
  else hi &&& (1 : Number) <<< ((i - 32 - 1 : ℕ) : Number)

def getChannelWidths (chanbw : Number) : List ℕ :=
  let hi := (chanbw / 0xFFFFFFFF) ||| 0
  let lo := chanbw &&& 0xFFFFFFFF
  ((List.range 40).map (40 - ·)).filter fun i => (widthSupported hi lo i).truthy

/-! ## Power limits -/

/-- What the power limits are computed from. -/
structure PowerPage where
  country : ℕ
  ieeeMode : List Char
  obeyRegulatory : Bool
  txpowerRegdomainLimit : ℤ
  txpowerMax : ℤ
  txpower : ℤ
  antennaGain : ℤ
  antennaGainVal : ℤ
  cableLoss : ℤ
  deriving DecidableEq

def requiresFCC (country : ℕ) : Bool :=
  country ∈ [84, 124, 188, 214, 222, 320, 340, 388, 484, 530, 591, 630, 780, 840, 843]

def isG (ieeeMode : List Char) : Bool := 'G' ∈ ieeeMode.map Char.toUpper

def isA (ieeeMode : List Char) : Bool := !isG ieeeMode

/-- `Math.ceil(x / 3)`. -/
def ceilThird (x : ℤ) : ℤ := -(-x / 3)

namespace PowerPage

variable (p : PowerPage)

/-- `max_txpower` before it is cut off at the two limits. -/
def regulatedTxpower : ℤ :=
  let maxTxpower := p.txpowerRegdomainLimit - p.antennaGain + p.cableLoss
  if requiresFCC p.country then
    let maxTxpower :=
      if p.country ≠ 124 ∧ isG p.ieeeMode ∧ p.antennaGain ≥ 6 then
        32 - ceilThird (p.antennaGain - p.cableLoss)
      else maxTxpower
    if (p.country ≠ 124 ∧ p.country ≠ 840) ∧ isA p.ieeeMode ∧ p.antennaGain > 23 then
      53 - p.antennaGain - p.cableLoss
    else maxTxpower
  else maxTxpower

def calcMaxTxpower : ℤ :=
  if p.obeyRegulatory then
    let maxTxpower := p.regulatedTxpower
    let maxTxpower :=
      if maxTxpower > p.txpowerRegdomainLimit then p.txpowerRegdomainLimit else maxTxpower
    if maxTxpower > p.txpowerMax then p.txpowerMax else maxTxpower
  else p.txpowerMax

def calcMaxGain : ℤ :=
  let gain := p.txpowerRegdomainLimit - p.txpower + p.cableLoss
  if requiresFCC p.country then
    let gain := if isG p.ieeeMode ∧ gain ≥ 6 then 96 - p.txpower * 3 + p.cableLoss else gain
    if isA p.ieeeMode ∧ gain > 23 then 53 - p.txpower + p.cableLoss else gain
  else gain

def calcMinLoss : ℤ :=
  let gain := p.antennaGainVal
  let loss := gain + p.txpower - p.txpowerRegdomainLimit
  if requiresFCC p.country then
    let loss := if isG p.ieeeMode ∧ gain ≥ 6 then gain - 96 + p.txpower * 3 else loss
    if isA p.ieeeMode ∧ gain > 23 then gain - 53 + p.txpower else loss
  else loss

/-- The variable and the field get a value. -/
def setGain (gain : ℤ) : PowerPage := { p with antennaGain := gain, antennaGainVal := gain }

def setLoss (loss : ℤ) : PowerPage := { p with cableLoss := loss }

/-- What the fields accept. -/
def fieldVal (value : ℤ) : ℤ := if value > 40 then 40 else if value < 0 then 0 else value

/-- `on_antenna_gain_change` for a whole number. -/
def onAntennaGainChange (gain : ℤ) : PowerPage :=
  let p := { p with antennaGain := gain, antennaGainVal := fieldVal gain }
  if p.obeyRegulatory ∧ p.calcMaxTxpower ≤ 0 then p.setGain p.calcMaxGain else p

/-- `on_cable_loss_change` for a whole number. -/
def onCableLossChange (loss : ℤ) : PowerPage :=
  let p := p.setLoss loss
  if p.obeyRegulatory ∧ p.calcMaxTxpower ≤ 0 then p.setLoss p.calcMinLoss else p

end PowerPage

end UbntSdk.Web
