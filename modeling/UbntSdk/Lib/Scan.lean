/-
UbntSdk.Lib.Scan — numbers and lines of text as the C library prints, reads
and scans them.

`printHex` is the conversion `%0wX`, `scanHex` is `%X`: white space, a sign,
`0x`, digits, and what does not fit an `unsigned long` is its largest value.
A number that was printed is scanned where no digit follows
(`scanHex_printHex`). `scanSet` is `%w[^…]`. `fgetsAll` are the pieces in which
`fgets` reads a file; a line that fits the buffer is one of them
(`fgetsAll_line`).

Nothing in this module names a program.
-/
import UbntSdk.Lib.Bytes

namespace UbntSdk.Lib

/-! ## Hexadecimal numbers -/

def isSpace (c : UInt8) : Bool := c = 32 || (9 ≤ c && c ≤ 13)

/-- The value of a hexadecimal digit. -/
def hexVal (c : UInt8) : Option Nat :=
  if 48 ≤ c ∧ c ≤ 57 then some (c.toNat - 48)
  else if 65 ≤ c ∧ c ≤ 70 then some (c.toNat - 55)
  else if 97 ≤ c ∧ c ≤ 102 then some (c.toNat - 87)
  else none

/-- An upper-case digit. -/
def hexDigit (d : Nat) : UInt8 := if d < 10 then UInt8.ofNat (48 + d) else UInt8.ofNat (55 + d)

/-- The digits of a number, at most `k` of them. -/
def hexText : Nat → Nat → List UInt8
  | 0, _ => []
  | k + 1, n => if n < 16 then [hexDigit n] else hexText k (n / 16) ++ [hexDigit (n % 16)]

/-- `%0wX`. -/
def printHex (w : Nat) (x : UInt32) : List UInt8 :=
  List.replicate (w - (hexText 8 x.toNat).length) 48 ++ hexText 8 x.toNat

/-- The digits in front, added to `acc`, and what follows them. -/
def hexRun (acc : Nat) : List UInt8 → Nat × List UInt8
  | [] => (acc, [])
  | c :: cs =>
      match hexVal c with
      | some d => hexRun (acc * 16 + d) cs
      | none => (acc, c :: cs)

/-- The number behind the sign. The letter of a `0x` is taken even when no
digit follows. -/
def scanDigits : List UInt8 → Option (Nat × List UInt8)
  | 48 :: 120 :: cs => some (hexRun 0 cs)
  | 48 :: 88 :: cs => some (hexRun 0 cs)
  | [] => none
  | c :: cs => if (hexVal c).isSome then some (hexRun 0 (c :: cs)) else none

/-- Whether there is a minus sign, and what is behind the sign. -/
def scanSign : List UInt8 → Bool × List UInt8
  | [] => (false, [])
  | c :: cs => if c = 45 then (true, cs) else if c = 43 then (false, cs) else (false, c :: cs)

/-- `%X` on a host with this `ULONG_MAX`. -/
def scanHex (ulongMax : Nat) (s : List UInt8) : Option (UInt32 × List UInt8) :=
  let (neg, s) := scanSign (s.dropWhile isSpace)
  (scanDigits s).map fun (n, rest) =>
    if ulongMax < n then (UInt32.ofNat ulongMax, rest)
    else (UInt32.ofNat (if neg then ulongMax + 1 - n else n), rest)

/-- `%w[^…]`. -/
def scanSet (w : Nat) (stop s : List UInt8) : Option (List UInt8 × List UInt8) :=
  let t := (s.takeWhile (· ∉ stop)).take w
  if t = [] then none else some (t, s.drop t.length)

/-- White space in a format. -/
def skipSpace (s : List UInt8) : List UInt8 := s.dropWhile isSpace

theorem hexVal_hexDigit : ∀ d < 16, hexVal (hexDigit d) = some d := by decide

theorem hexText_length (k n : Nat) : (hexText k n).length ≤ k := by
  induction k generalizing n with
  | zero => exact Nat.le_refl _
  | succ k ih =>
      rw [hexText]
      split
      · simp
      · rw [List.length_append]
        exact Nat.succ_le_succ (ih _)

/-- Printed digits are a number that goes on with what follows. -/
theorem hexRun_hexText {k n : Nat} (hn : n < 16 ^ (k + 1)) (rest : List UInt8) :
    hexRun 0 (hexText (k + 1) n ++ rest) = hexRun n rest := by
  induction k generalizing n rest with
  | zero =>
      have hlt : n < 16 := by simpa using hn
      rw [hexText, if_pos hlt, List.singleton_append, hexRun, hexVal_hexDigit n hlt]
      simp
  | succ k ih =>
      rw [hexText]
      split
      · rename_i hlt
        rw [List.singleton_append, hexRun, hexVal_hexDigit n hlt]
        simp
      · have hdiv : n / 16 < 16 ^ (k + 1) := by
          rw [Nat.div_lt_iff_lt_mul (by decide), ← Nat.pow_succ]
          exact hn
        have hdigit := hexVal_hexDigit (n % 16) (Nat.mod_lt _ (by decide))
        rw [List.append_assoc, List.singleton_append, ih hdiv, hexRun, hdigit]
        dsimp only
        rw [show n / 16 * 16 + n % 16 = n by omega]

theorem hexRun_zeros (z : Nat) (rest : List UInt8) :
    hexRun 0 (List.replicate z 48 ++ rest) = hexRun 0 rest := by
  induction z with
  | zero => rfl
  | succ z ih =>
      have hzero : hexVal 48 = some 0 := by decide
      rw [List.replicate_succ, List.cons_append, hexRun, hzero]
      exact ih

theorem printHex_length (w : Nat) (x : UInt32) : (printHex w x).length ≤ max w 8 := by
  have hle := hexText_length 8 x.toNat
  rw [printHex, List.length_append, List.length_replicate]
  omega

/-- What was printed behind `0x` is scanned, when no digit follows it. -/
theorem scanHex_printHex {ulongMax : Nat} (hmax : 2 ^ 32 ≤ ulongMax + 1) (w : Nat) (x : UInt32)
    {rest : List UInt8} (hrest : ∀ c ∈ rest.head?, hexVal c = none) :
    scanHex ulongMax (48 :: 120 :: (printHex w x ++ rest)) = some (x, rest) := by
  have hx := x.toNat_lt
  have hstop : hexRun x.toNat rest = (x.toNat, rest) := by
    cases rest with
    | nil => rfl
    | cons c cs =>
        have hc : hexVal c = none := hrest c rfl
        rw [hexRun, hc]
  have hrun : hexRun 0 (printHex w x ++ rest) = (x.toNat, rest) := by
    rw [printHex, List.append_assoc, hexRun_zeros, hexRun_hexText (by omega), hstop]
  have hsign : scanSign ((48 :: 120 :: (printHex w x ++ rest)).dropWhile isSpace) =
      (false, 48 :: 120 :: (printHex w x ++ rest)) := by
    rw [List.dropWhile_cons_of_neg (by decide)]
    rfl
  have hdigits : scanDigits (48 :: 120 :: (printHex w x ++ rest)) = some (x.toNat, rest) := by
    rw [← hrun]
    rfl
  have hfits : ¬ ulongMax < x.toNat := by omega
  simp only [scanHex, hsign, hdigits, Option.map_some, hfits, if_false,
    Bool.false_eq_true, UInt32.ofNat_toNat]

/-! ## Lines -/

/-- What `fgets` reads, call by call, into a buffer of `size` bytes: `cur` is
what the call has read so far. -/
def fgetsFrom (size : Nat) : List UInt8 → List UInt8 → List (List UInt8)
  | cur, [] => if cur = [] then [] else [cur]
  | cur, c :: cs =>
      if c = 10 ∨ cur.length + 2 = size then (cur ++ [c]) :: fgetsFrom size [] cs
      else fgetsFrom size (cur ++ [c]) cs

def fgetsAll (size : Nat) (text : List UInt8) : List (List UInt8) := fgetsFrom size [] text

theorem fgetsFrom_line {size : Nat} (line rest : List UInt8) : ∀ cur : List UInt8,
    10 ∉ line → cur.length + line.length + 2 ≤ size →
    fgetsFrom size cur (line ++ 10 :: rest) = (cur ++ line ++ [10]) :: fgetsAll size rest := by
  induction line with
  | nil =>
      intro cur _ _
      rw [List.nil_append, fgetsFrom, if_pos (Or.inl rfl), List.append_nil, fgetsAll]
  | cons c cs ih =>
      intro cur hnl hfits
      simp only [List.mem_cons, not_or, List.length_cons] at hnl hfits
      rw [List.cons_append, fgetsFrom, if_neg (by rintro (h | h); exact hnl.1 h.symm; omega),
        ih _ hnl.2 (by simp only [List.length_append, List.length_cons, List.length_nil]; omega)]
      simp

/-- A line that fits the buffer is read by one call. -/
theorem fgetsAll_line {size : Nat} {line : List UInt8} (hnl : 10 ∉ line)
    (hfits : line.length + 2 ≤ size) (rest : List UInt8) :
    fgetsAll size (line ++ 10 :: rest) = (line ++ [10]) :: fgetsAll size rest := by
  rw [fgetsAll, fgetsFrom_line line rest [] hnl (by simpa using hfits), List.nil_append]

/-! ## Sets -/

/-- A word that the set allows is scanned up to a character that it does
not. -/
theorem scanSet_word {w : Nat} {stop word rest : List UInt8} (hne : word ≠ [])
    (hallowed : ∀ c ∈ word, c ∉ stop) (hstop : ∀ c ∈ rest.head?, c ∈ stop) (hw : word.length ≤ w) :
    scanSet w stop (word ++ rest) = some (word, rest) := by
  have hrest : rest.takeWhile (· ∉ stop) = [] := by
    cases rest with
    | nil => rfl
    | cons c cs =>
        have hc : c ∈ stop := hstop c rfl
        rw [List.takeWhile_cons_of_neg (by simpa using hc)]
  have htake : (word ++ rest).takeWhile (· ∉ stop) = word := by
    rw [List.takeWhile_append_of_pos (by simpa using hallowed), hrest, List.append_nil]
  rw [scanSet, htake, List.take_of_length_le hw, if_neg hne, List.drop_left]

/-- What was scanned is short, not empty, and allowed. -/
theorem scanSet_spec {w : Nat} {stop s word rest : List UInt8}
    (h : scanSet w stop s = some (word, rest)) :
    word ≠ [] ∧ word.length ≤ w ∧ (∀ c ∈ word, c ∉ stop) ∧ s = word ++ rest := by
  unfold scanSet at h
  dsimp only at h
  split at h
  · cases h
  · rename_i hne
    cases h
    refine ⟨hne, List.length_take_le _ _, fun c hc => ?_, ?_⟩
    · simpa using List.mem_takeWhile_imp (List.mem_of_mem_take hc)
    · have hpre : (s.takeWhile (· ∉ stop)).take w <+: s :=
        (List.take_prefix _ _).trans (List.takeWhile_prefix _)
      exact (List.prefix_iff_eq_append.mp hpre).symm

end UbntSdk.Lib
