/-
UbntSdk.Web.Validate — addresses, netmasks and routes as the forms check them
(`package/ubnt-web/src/network.js`, `package/ubnt-web/src/jsval.js`).

A text is a list of characters. The regular expressions are Mathlib's and match
the whole text, as `^` and `$` ask for.
-/
import UbntSdk.Lib.JsText
import UbntSdk.Lib.Regex

namespace UbntSdk.Web

open UbntSdk.Lib.Js UbntSdk.Lib.Regex
open RegularExpression (char)

/-- `[0-9]`. -/
def anyDigit : RegularExpression Char := anyOf ['0', '1', '2', '3', '4', '5', '6', '7', '8', '9']

/-- `[1-9]`. -/
def leadDigit : RegularExpression Char := anyOf ['1', '2', '3', '4', '5', '6', '7', '8', '9']

/-- `25[0-5]`. -/
def octet250 : RegularExpression Char :=
  char '2' * char '5' * anyOf ['0', '1', '2', '3', '4', '5']

/-- `2[0-4][0-9]`. -/
def octet200 : RegularExpression Char :=
  char '2' * anyOf ['0', '1', '2', '3', '4'] * anyDigit

/-- `1[0-9][0-9]`. -/
def octet100 : RegularExpression Char := char '1' * anyDigit * anyDigit

/-- `25[0-5]|2[0-4][0-9]|1[0-9][0-9]|[1-9][0-9]|[0-9]`. -/
def octetRegex : RegularExpression Char :=
  octet250 + octet200 + octet100 + leadDigit * anyDigit + anyDigit

def IP_regex : RegularExpression Char := (octetRegex * char '.') ^ 3 * octetRegex

/-- `_validateIP`. -/
def validateIP (input : List Char) : Bool := IP_regex.rmatch input

/-- `parseInt(quad[i])`; an item that is not there is no number. -/
def quadInt (quad : List (List Char)) (i : ℕ) : Number :=
  match quad[i]? with
  | none => .nan
  | some s => Lib.Js.parseInt s

/-- `_validateNetmask`. -/
def validateNetmask (input : List Char) : Bool :=
  if !validateIP input then false
  else
    let quad := input.splitOn '.'
    if quad.length ≠ 4 then false
    else
      let maskVal := quadInt quad 0 * 16777216 + 65536 * quadInt quad 1 + 256 * quadInt quad 2 +
        quadInt quad 3
      let maskVal := 256 * 256 * 256 * 256 - maskVal - 1
      (maskVal &&& (maskVal + 1)).eq 0

/-- The text `0.0.0.0`. -/
def zeroIP : List Char := ['0', '.', '0', '.', '0', '.', '0']

def ipToInt (ip : List Char) : Number :=
  let quad := ip.splitOn '.'
  16777216 * quadInt quad 0 + 65536 * quadInt quad 1 + 256 * quadInt quad 2 + quadInt quad 3

/-- `_validateRouteTarget`. -/
def validateRouteTarget (ip netmask : List Char) : Bool :=
  let intIp := ipToInt ip
  let bitmask := ipToInt netmask
  (intIp &&& bitmask).eq (intIp &&& intIp)

/-! ## `jsval` -/

/-- `[1-9]|[1-9][0-9]|1[0-9][0-9]|2[0-4][0-9]|25[0-5]`. -/
def firstRegex : RegularExpression Char :=
  leadDigit + leadDigit * anyDigit + octet100 + octet200 + octet250

/-- `[0-9]|[1-9][0-9]|1[0-9][0-9]|2[0-4][0-9]|25[0-5]`. -/
def otherRegex : RegularExpression Char :=
  anyDigit + leadDigit * anyDigit + octet100 + octet200 + octet250

def JSVAL_RX_IPADDRESS (value : List Char) : Bool :=
  (firstRegex * (char '.' * otherRegex) ^ 3).rmatch value

def JSVAL_RX_NETMASK (value : List Char) : Bool :=
  if !JSVAL_RX_IPADDRESS value then false
  else
    let quad := value.splitOn '.'
    let maskVal := quadInt quad 0 * 16777216 + 65536 * quadInt quad 1 + 256 * quadInt quad 2 +
      quadInt quad 3
    let maskVal := 256 * 256 * 256 * 256 - maskVal - 1
    (maskVal &&& (maskVal + 1)).eq 0

/-! ## Addresses -/

/-- The four numbers of an address. -/
def octets (a : BitVec 32) : List ℕ :=
  [a.toNat / 2 ^ 24, a.toNat / 2 ^ 16 % 2 ^ 8, a.toNat / 2 ^ 8 % 2 ^ 8, a.toNat % 2 ^ 8]

/-- The dotted-decimal form, without leading zeros. -/
def ipText (a : BitVec 32) : List Char :=
  ['.'].intercalate ((octets a).map (Nat.toDigits 10))

/-- `k` ones and zeros after them. -/
def netmask (k : ℕ) : BitVec 32 := BitVec.allOnes 32 <<< (32 - k)

/-- The dotted-decimal form of a netmask that is not zero. -/
def IsNetmask (s : List Char) : Prop := ∃ k, 1 ≤ k ∧ k ≤ 32 ∧ s = ipText (netmask k)

end UbntSdk.Web
