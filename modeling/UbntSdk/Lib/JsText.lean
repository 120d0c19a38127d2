/-
UbntSdk.Lib.JsText — the texts of JavaScript that stand for numbers.

`Number(s)` is `toNumber s`: it takes white space at both ends, hexadecimal
digits behind `0x`, a sign, a fraction and an exponent, and nothing else.
`parseInt(s)` reads the digits that it finds in front and forgets the rest.

The two agree on a whole number exactly when the text is a `Numeral` for it
(`reads_iff`). Numerals made of digits only are the usual ones
(`Numeral.digits`).

Nothing in this module names a program.
-/
import Mathlib.Data.List.DropRight
import Mathlib.Data.List.TakeWhile
import UbntSdk.Lib.JsNumber

namespace UbntSdk.Lib.Js

/-- White space and line ends, `\s`. -/
def space (c : Char) : Bool :=
  let n := c.toNat
  (9 ≤ n && n ≤ 13) || (0x2000 ≤ n && n ≤ 0x200A) ||
    [0x20, 0xA0, 0x1680, 0x2028, 0x2029, 0x202F, 0x205F, 0x3000, 0xFEFF].contains n

/-- `s.replace(/^\s+|\s+$/g, '')`. -/
def trim (s : List Char) : List Char := (s.dropWhile space).rdropWhile space

/-! ## Digits -/

/-- The value of a digit; 36 for other characters. -/
def digitVal (c : Char) : ℕ :=
  if '0' ≤ c ∧ c ≤ '9' then c.toNat - 48
  else if 'a' ≤ c ∧ c ≤ 'z' then c.toNat - 87
  else if 'A' ≤ c ∧ c ≤ 'Z' then c.toNat - 55
  else 36

def digit (radix : ℕ) (c : Char) : Bool := digitVal c < radix

def value (radix : ℕ) (ds : List Char) : ℕ := ds.foldl (fun n c => radix * n + digitVal c) 0

/-- The sign and what is behind it. -/
def signed : List Char → Bool × List Char
  | '-' :: s => (true, s)
  | '+' :: s => (false, s)
  | s => (false, s)

namespace Number

def withSign (neg : Bool) (a : Number) : Number := if neg then -a else a

end Number

/-! ## `parseInt` -/

/-- The radix and what is behind its prefix. -/
def radixOf : List Char → ℕ × List Char
  | '0' :: 'x' :: s => (16, s)
  | '0' :: 'X' :: s => (16, s)
  | s => (10, s)

/-- `parseInt` behind the white space. -/
def parseDigits (s : List Char) : Number :=
  let (radix, rest) := radixOf (signed s).2
  let ds := rest.takeWhile (digit radix)
  if ds = [] then .nan else .withSign (signed s).1 (.ofRat (value radix ds))

def parseInt (s : List Char) : Number := parseDigits (s.dropWhile space)

/-! ## `Number` -/

/-- The digits behind a point, and what is behind them. -/
def fraction : List Char → List Char × List Char
  | '.' :: s => (s.takeWhile (digit 10), s.dropWhile (digit 10))
  | s => ([], s)

/-- The exponent, with which a numeral ends. -/
def exponent : List Char → Option ℤ
  | [] => some 0
  | c :: s =>
      let ds := (signed s).2
      if (c = 'e' ∨ c = 'E') ∧ ds ≠ [] ∧ ds.all (digit 10) then
        some (if (signed s).1 then -value 10 ds else value 10 ds)
      else none

/-- A decimal numeral without its sign. -/
def decimal (s : List Char) : Number :=
  if s = ['I', 'n', 'f', 'i', 'n', 'i', 't', 'y'] then .inf false
  else
    let whole := s.takeWhile (digit 10)
    let rest := fraction (s.dropWhile (digit 10))
    if whole = [] ∧ rest.1 = [] then .nan
    else
      match exponent rest.2 with
      | none => .nan
      | some e => .ofRat (value 10 (whole ++ rest.1) * 10 ^ (e - rest.1.length))

/-- `Number` of a text without white space at its ends. -/
def trimmedNumber (s : List Char) : Number :=
  match radixOf s with
  | (16, ds) => if ds ≠ [] ∧ ds.all (digit 16) then .ofRat (value 16 ds) else .nan
  | _ => .withSign (signed s).1 (decimal (signed s).2)

def toNumber (s : List Char) : Number :=
  let s := trim s
  if s = [] then 0 else trimmedNumber s

def isNaN (s : List Char) : Bool := toNumber s = .nan

/-! ## Texts -/

/-- The longest front part with a property. -/
theorem takeWhile_dropWhile_append {p : Char → Bool} {a b : List Char} (ha : ∀ c ∈ a, p c = true)
    (hb : ∀ c ∈ b.head?, p c = false) : (a ++ b).takeWhile p = a ∧ (a ++ b).dropWhile p = b := by
  rw [List.takeWhile_append_of_pos ha, List.dropWhile_append_of_pos ha]
  cases b with
  | nil => simp
  | cons c b => simp [hb c rfl]

theorem head_dropWhile (p : Char → Bool) (s : List Char) :
    ∀ c ∈ (s.dropWhile p).head?, p c = false := by
  induction s with
  | nil => simp
  | cons c s ih =>
      rw [List.dropWhile_cons]
      split
      · exact ih
      · rename_i hc
        simpa using hc

theorem digitVal_eq (c : Char) : digitVal c =
    if 48 ≤ c.toNat ∧ c.toNat ≤ 57 then c.toNat - 48
    else if 97 ≤ c.toNat ∧ c.toNat ≤ 122 then c.toNat - 87
    else if 65 ≤ c.toNat ∧ c.toNat ≤ 90 then c.toNat - 55
    else 36 :=
  if_congr Iff.rfl rfl (if_congr Iff.rfl rfl (if_congr Iff.rfl rfl rfl))

theorem digit_ten_iff {c : Char} : digit 10 c = true ↔ 48 ≤ c.toNat ∧ c.toNat ≤ 57 := by
  rw [digit, decide_eq_true_eq, digitVal_eq]
  split_ifs <;> omega

theorem digit_sixteen_iff {c : Char} : digit 16 c = true ↔
    48 ≤ c.toNat ∧ c.toNat ≤ 57 ∨ 65 ≤ c.toNat ∧ c.toNat ≤ 70 ∨ 97 ≤ c.toNat ∧ c.toNat ≤ 102 := by
  rw [digit, decide_eq_true_eq, digitVal_eq]
  split_ifs <;> omega

theorem digit_ten_isDigit (c : Char) : digit 10 c = c.isDigit := by
  rw [Bool.eq_iff_iff, digit_ten_iff, Char.isDigit_iff_toNat]
  rfl

theorem space_toNat {c : Char} (h : space c = true) : c.toNat ≤ 32 ∨ 160 ≤ c.toNat := by
  simp only [space, Bool.or_eq_true, Bool.and_eq_true, decide_eq_true_eq, List.contains_iff_mem,
    List.mem_cons, List.not_mem_nil, or_false] at h
  omega

theorem digit_of_space {c : Char} (h : space c = true) : digit 16 c = false := by
  have hspace := space_toNat h
  rw [Bool.eq_false_iff, ne_eq, digit_sixteen_iff]
  omega

theorem digit_sixteen_of_ten {c : Char} (h : digit 10 c = true) : digit 16 c = true := by
  rw [digit_ten_iff] at h
  rw [digit_sixteen_iff]
  omega

/-! ### White space at the ends -/

theorem trim_spec (s : List Char) : ∃ pre post, s = pre ++ trim s ++ post ∧
    s.dropWhile space = trim s ++ post ∧ (∀ c ∈ pre, space c = true) ∧
      ∀ c ∈ post, space c = true := by
  refine ⟨s.takeWhile space, (s.dropWhile space).rtakeWhile space, ?_, ?_, ?_, ?_⟩
  · rw [List.append_assoc, trim, List.rdropWhile_append_rtakeWhile,
      List.takeWhile_append_dropWhile]
  · rw [trim, List.rdropWhile_append_rtakeWhile]
  · intro c hc
    exact List.mem_takeWhile_imp hc
  · intro c hc
    exact List.mem_rtakeWhile_imp hc

theorem rdropWhile_append_spaces {p : Char → Bool} {t post : List Char}
    (ht : ∀ c ∈ t, p c = false) (hpost : ∀ c ∈ post, p c = true) :
    (t ++ post).rdropWhile p = t := by
  have hrev : ((t ++ post).reverse).dropWhile p = t.reverse := by
    rw [List.reverse_append]
    refine (takeWhile_dropWhile_append (fun c hc => hpost c (List.mem_reverse.mp hc)) ?_).2
    intro c hc
    exact ht c (List.mem_reverse.mp (List.mem_of_mem_head? hc))
  rw [List.rdropWhile, hrev, List.reverse_reverse]

/-- White space around a text without any is trimmed. -/
theorem trim_append {pre t post : List Char} (hpre : ∀ c ∈ pre, space c = true)
    (ht : ∀ c ∈ t, space c = false) (hpost : ∀ c ∈ post, space c = true) :
    trim (pre ++ t ++ post) = t := by
  rw [trim, List.append_assoc, List.dropWhile_append_of_pos hpre]
  cases t with
  | nil =>
      rw [List.nil_append, List.dropWhile_eq_nil_iff.mpr hpost]
      rfl
  | cons c t =>
      rw [List.cons_append, List.dropWhile_cons_of_neg (by simp [ht c List.mem_cons_self]),
        ← List.cons_append]
      exact rdropWhile_append_spaces ht hpost

/-! ## Numerals -/

theorem fraction_spec (s : List Char) : ∃ point, s = point ++ (fraction s).2 ∧
    (point = [] ∧ (fraction s).1 = [] ∨ point = '.' :: (fraction s).1) ∧
      ∀ c ∈ (fraction s).1, digit 10 c = true := by
  unfold fraction
  split
  · rename_i s
    refine ⟨'.' :: s.takeWhile (digit 10), ?_, .inr rfl, fun c hc => List.mem_takeWhile_imp hc⟩
    rw [List.cons_append, List.takeWhile_append_dropWhile]
  · exact ⟨[], rfl, .inl ⟨rfl, rfl⟩, by simp⟩

theorem radixOf_spec (s : List Char) :
    (∃ x ds, (x = 'x' ∨ x = 'X') ∧ s = '0' :: x :: ds ∧ radixOf s = (16, ds)) ∨
      radixOf s = (10, s) ∧ ∀ x ds, x = 'x' ∨ x = 'X' → s ≠ '0' :: x :: ds := by
  unfold radixOf
  split
  · exact .inl ⟨'x', _, .inl rfl, rfl, rfl⟩
  · exact .inl ⟨'X', _, .inr rfl, rfl, rfl⟩
  · rename_i hx hX
    refine .inr ⟨rfl, ?_⟩
    rintro x ds (rfl | rfl) rfl
    · exact hx ds rfl
    · exact hX ds rfl

namespace Number

/-- A number is a small whole number if its rational is rounded to it. -/
theorem ofRat_eq_finite_iff {q : ℚ} {n : ℕ} (hn : n < 2 ^ 53) :
    ofRat q = finite n ↔ nearest q = n := by
  rw [ofRat]
  constructor
  · intro h
    split at h
    · cases h
    · exact finite.inj h
  · intro h
    have hsmall : ¬(2 : ℚ) ^ 1024 ≤ |nearest q| := by
      rw [h, Nat.abs_cast, not_le]
      calc ((n : ℕ) : ℚ) < 2 ^ 53 := by exact_mod_cast hn
        _ ≤ 2 ^ 1024 := pow_le_pow_right₀ one_le_two (by norm_num)
    rw [if_neg hsmall, h]

/-- No other whole number is rounded to a small one. -/
theorem ofRat_natCast_iff {m n : ℕ} (hn : n + 1 < 2 ^ 53) : ofRat m = finite n ↔ m = n := by
  rw [ofRat_eq_finite_iff (by omega)]
  rcases Nat.lt_or_ge n m with hlt | hle
  · have hround : ((n + 1 : ℕ) : ℚ) ≤ nearest m := le_nearest hn (by exact_mod_cast hlt)
    constructor
    · intro h
      rw [h, Nat.cast_le] at hround
      omega
    · omega
  · have hwhole : nearest ((m : ℤ) : ℚ) = ((m : ℤ) : ℚ) := nearest_intCast (by
      rw [Nat.abs_cast]
      exact_mod_cast hle.trans_lt (by omega))
    rw [Int.cast_natCast] at hwhole
    rw [hwhole, Nat.cast_inj]

theorem withSign_eq_finite_iff {neg : Bool} {a : Number} {q : ℚ} :
    withSign neg a = finite q ↔ a = finite (if neg then -q else q) := by
  cases neg with
  | false => rfl
  | true =>
      change a.neg = finite q ↔ _
      cases a with
      | nan => simp [Number.neg]
      | inf s => simp [Number.neg]
      | finite a => simp [Number.neg, neg_eq_iff_eq_neg]

end Number

theorem exponent_cons {c : Char} {s : List Char} {e : ℤ} (h : exponent (c :: s) = some e) :
    (c = 'e' ∨ c = 'E') ∧ ∀ d ∈ (signed s).2, digit 10 d = true := by
  rw [exponent] at h
  split at h
  · rename_i hexp
    exact ⟨hexp.1, List.all_eq_true.mp hexp.2.2⟩
  · cases h

theorem exponent_head {s : List Char} {e : ℤ} (h : exponent s = some e) :
    ∀ c ∈ s.head?, c = 'e' ∨ c = 'E' := by
  cases s with
  | nil => simp
  | cons c s => simpa using (exponent_cons h).1

theorem not_space_of_digit {c : Char} (h : digit 16 c = true) : space c = false := by
  by_contra hspace
  rw [Bool.not_eq_false] at hspace
  simp [digit_of_space hspace] at h

theorem mem_of_signed {s : List Char} {c : Char} (h : c ∈ s) :
    c = '-' ∨ c = '+' ∨ c ∈ (signed s).2 := by
  unfold signed
  split
  · exact (List.mem_cons.mp h).imp_right .inr
  · exact .inr (List.mem_cons.mp h)
  · exact .inr (.inr h)

/-- An exponent holds a letter, a sign and digits. -/
theorem exponent_chars {s : List Char} {e : ℤ} (h : exponent s = some e) :
    ∀ c ∈ s, digit 16 c = true ∨ c ∈ ['x', 'X', '+', '-', '.'] := by
  cases s with
  | nil => simp
  | cons c s =>
      obtain ⟨hletter, hdigits⟩ := exponent_cons h
      rw [List.forall_mem_cons]
      constructor
      · rcases hletter with rfl | rfl
        · exact .inl (by decide)
        · exact .inl (by decide)
      · intro d hd
        rcases mem_of_signed hd with rfl | rfl | hd
        · exact .inr (by decide)
        · exact .inr (by decide)
        · exact .inl (digit_sixteen_of_ten (hdigits d hd))

/-- The parts of a decimal numeral behind its sign. -/
structure Parts (whole point frac exp : List Char) (e : ℤ) : Prop where
  whole_digit : ∀ c ∈ whole, digit 10 c = true
  point : point = [] ∧ frac = [] ∨ point = '.' :: frac
  frac_digit : ∀ c ∈ frac, digit 10 c = true
  exp : exponent exp = some e

/-- A numeral for a whole number that is not negative, as `parseInt` and `Number`
both read it. -/
inductive Bare (n : ℕ) : List Char → Prop
  | hex {x : Char} {ds : List Char} (hx : x = 'x' ∨ x = 'X') (hne : ds ≠ [])
      (hds : ∀ c ∈ ds, digit 16 c = true) (hn : value 16 ds = n) : Bare n ('0' :: x :: ds)
  | decimal {sign whole point frac exp : List Char} {e : ℤ}
      (hsign : sign = [] ∨ sign = ['+'] ∨ sign = ['-'] ∧ n = 0) (hne : whole ≠ [])
      (hparts : Parts whole point frac exp e) (hn : value 10 whole = n)
      (hround : nearest (value 10 (whole ++ frac) * 10 ^ (e - frac.length)) = n) :
      Bare n (sign ++ (whole ++ (point ++ exp)))

/-- Such a numeral with white space around it. -/
def Numeral (n : ℕ) (s : List Char) : Prop :=
  ∃ pre t post, s = pre ++ t ++ post ∧ (∀ c ∈ pre, space c = true) ∧
    (∀ c ∈ post, space c = true) ∧ Bare n t

namespace Parts

variable {whole point frac exp : List Char} {e : ℤ}

theorem head_or (h : Parts whole point frac exp e) :
    ∀ c ∈ (point ++ exp).head?, c = '.' ∨ c = 'e' ∨ c = 'E' := by
  rcases h.point with ⟨rfl, -⟩ | rfl
  · exact fun c hc => .inr (exponent_head h.exp c hc)
  · intro c hc
    exact .inl (by simpa using hc.symm)

/-- The point and the exponent end the digits in front of them. -/
theorem cut (h : Parts whole point frac exp e) :
    (whole ++ (point ++ exp)).takeWhile (digit 10) = whole ∧
      (whole ++ (point ++ exp)).dropWhile (digit 10) = point ++ exp := by
  refine takeWhile_dropWhile_append h.whole_digit fun c hc => ?_
  rcases h.head_or c hc with rfl | rfl | rfl
  · decide
  · decide
  · decide

theorem fraction_eq (h : Parts whole point frac exp e) : fraction (point ++ exp) = (frac, exp) := by
  have hexp := exponent_head h.exp
  rcases h.point with ⟨rfl, rfl⟩ | rfl
  · rw [List.nil_append]
    unfold fraction
    split
    · have hnot : ¬('.' = 'e' ∨ '.' = 'E') := by decide
      exact absurd (hexp '.' rfl) hnot
    · rfl
  · obtain ⟨htake, hdrop⟩ := takeWhile_dropWhile_append h.frac_digit fun c hc => by
      rcases hexp c hc with rfl | rfl
      · decide
      · decide
    rw [List.cons_append, fraction, htake, hdrop]

/-- A decimal numeral has no prefix for another radix. -/
theorem radixOf_eq (h : Parts whole point frac exp e) :
    radixOf (whole ++ (point ++ exp)) = (10, whole ++ (point ++ exp)) := by
  rcases radixOf_spec (whole ++ (point ++ exp)) with ⟨x, ds, hx, heq, -⟩ | ⟨hradix, -⟩
  · have hdigit : digit 10 x = false := by
      rcases hx with rfl | rfl
      · decide
      · decide
    have hzero : digit 10 '0' = true := by decide
    have hdrop := h.cut.2
    rw [heq, List.dropWhile_cons_of_pos hzero, List.dropWhile_cons_of_neg (by simp [hdigit])]
      at hdrop
    rcases h.head_or x (by rw [← hdrop]; rfl) with rfl | rfl | rfl
    · simp at hx
    · simp at hx
    · simp at hx
  · exact hradix

end Parts

/-- The decimal numerals, and their numbers. -/
theorem decimal_eq_finite_iff {s : List Char} {q : ℚ} : decimal s = .finite q ↔
    ∃ whole point frac exp e, Parts whole point frac exp e ∧ s = whole ++ (point ++ exp) ∧
      ¬(whole = [] ∧ frac = []) ∧
        Number.ofRat (value 10 (whole ++ frac) * 10 ^ (e - frac.length)) = .finite q := by
  constructor
  · intro h
    rw [decimal] at h
    split at h
    · cases h
    have hsplit : s = s.takeWhile (digit 10) ++ s.dropWhile (digit 10) :=
      List.takeWhile_append_dropWhile.symm
    obtain ⟨point, hrest, hpoint, hfrac⟩ := fraction_spec (s.dropWhile (digit 10))
    dsimp only at h
    split at h
    · cases h
    rename_i hne
    split at h
    · cases h
    · rename_i e hexp
      refine ⟨_, point, _, _, e, ⟨fun c hc => List.mem_takeWhile_imp hc, hpoint, hfrac, hexp⟩, ?_,
        hne, h⟩
      rw [← hrest]
      exact hsplit
  · rintro ⟨whole, point, frac, exp, e, hparts, rfl, hne, hq⟩
    obtain ⟨htake, hdrop⟩ := hparts.cut
    have hname : whole ++ (point ++ exp) ≠ ['I', 'n', 'f', 'i', 'n', 'i', 't', 'y'] := by
      intro hname
      have hnone : ([] : List Char) = whole := by
        rw [← htake, hname]
        decide
      have hfrac := congrArg Prod.fst hparts.fraction_eq
      rw [← hdrop, hname] at hfrac
      exact hne ⟨hnone.symm, hfrac.symm.trans (by decide)⟩
    simp only [decimal, hname, htake, hdrop, hparts.fraction_eq, hne, hparts.exp, hq, if_false]

/-- The sign in front of a text. -/
theorem signed_spec (s : List Char) : ∃ sign, s = sign ++ (signed s).2 ∧
    (sign = [] ∧ (signed s).1 = false ∨ sign = ['+'] ∧ (signed s).1 = false ∨
      sign = ['-'] ∧ (signed s).1 = true) := by
  unfold signed
  split
  · exact ⟨['-'], rfl, .inr (.inr ⟨rfl, rfl⟩)⟩
  · exact ⟨['+'], rfl, .inr (.inl ⟨rfl, rfl⟩)⟩
  · exact ⟨[], rfl, .inl ⟨rfl, rfl⟩⟩

theorem signed_digit {c : Char} (hc : digit 10 c = true) (s : List Char) :
    signed (c :: s) = (false, c :: s) := by
  unfold signed
  split
  · rename_i heq
    rw [(List.cons.inj heq).1] at hc
    exact absurd hc (by decide)
  · rename_i heq
    rw [(List.cons.inj heq).1] at hc
    exact absurd hc (by decide)
  · rfl

/-! ### What both read -/

theorem digits_append_spaces {radix : ℕ} (hradix : radix ≤ 16) (s : List Char) {post : List Char}
    (hpost : ∀ c ∈ post, space c = true) :
    (s ++ post).takeWhile (digit radix) = s.takeWhile (digit radix) := by
  induction s with
  | nil =>
      cases post with
      | nil => rfl
      | cons c post =>
          have hdigit := digit_of_space (hpost c List.mem_cons_self)
          rw [digit, decide_eq_false_iff_not] at hdigit
          refine List.takeWhile_cons_of_neg ?_
          rw [digit, decide_eq_true_eq]
          omega
  | cons c s ih =>
      rw [List.cons_append, List.takeWhile_cons, List.takeWhile_cons, ih]

theorem signed_append {s : List Char} (hne : s ≠ []) (post : List Char) :
    signed (s ++ post) = ((signed s).1, (signed s).2 ++ post) := by
  obtain ⟨c, s, rfl⟩ := List.exists_cons_of_ne_nil hne
  rw [List.cons_append]
  unfold signed
  split
  · rename_i heq
    obtain ⟨rfl, rfl⟩ := List.cons.inj heq
    rfl
  · rename_i heq
    obtain ⟨rfl, rfl⟩ := List.cons.inj heq
    rfl
  · rename_i hminus hplus
    split
    · rename_i heq
      obtain ⟨rfl, rfl⟩ := List.cons.inj heq
      exact absurd rfl (hminus _)
    · rename_i heq
      obtain ⟨rfl, rfl⟩ := List.cons.inj heq
      exact absurd rfl (hplus _)
    · rfl

theorem radixOf_append (s : List Char) {post : List Char} (hpost : ∀ c ∈ post, space c = true) :
    radixOf (s ++ post) = ((radixOf s).1, (radixOf s).2 ++ post) := by
  rcases radixOf_spec s with ⟨x, ds, rfl | rfl, rfl, hs⟩ | ⟨hs, hno⟩
  · rfl
  · rfl
  · rw [hs]
    rcases radixOf_spec (s ++ post) with ⟨x, ds, hx, heq, -⟩ | ⟨happend, -⟩
    · have hfirst : space '0' = false := by decide
      have hsecond : space x = false := by
        rcases hx with rfl | rfl
        · decide
        · decide
      match s with
      | [] =>
          rw [List.nil_append] at heq
          simp [hpost '0' (by simp [heq])] at hfirst
      | [c] =>
          obtain ⟨-, htail⟩ := List.cons.inj heq
          change post = x :: ds at htail
          simp [hpost x (by simp [htail])] at hsecond
      | c :: d :: s =>
          obtain ⟨rfl, htail⟩ := List.cons.inj heq
          change d :: (s ++ post) = x :: ds at htail
          obtain ⟨rfl, -⟩ := List.cons.inj htail
          exact absurd rfl (hno d s hx)
    · exact happend

/-- `parseInt` does not see white space. -/
theorem parseInt_eq_trim (s : List Char) : parseInt s = parseDigits (trim s) := by
  obtain ⟨pre, post, -, hdrop, -, hpost⟩ := trim_spec s
  rw [parseInt, hdrop]
  by_cases hempty : trim s = []
  · have hnil : post = [] := by
      cases post with
      | nil => rfl
      | cons c post =>
          have hhead := head_dropWhile space s c (by rw [hdrop, hempty]; rfl)
          simp [hpost c List.mem_cons_self] at hhead
    rw [hnil, List.append_nil]
  · rw [parseDigits, parseDigits, signed_append hempty, radixOf_append _ hpost]
    have hradix : (radixOf (signed (trim s)).2).1 ≤ 16 := by
      rcases radixOf_spec (signed (trim s)).2 with ⟨x, ds, -, -, hr⟩ | ⟨hr, -⟩
      · rw [hr]
      · rw [hr]
        norm_num
    dsimp only
    rw [digits_append_spaces hradix _ hpost]

theorem Number.nearest_of_ofRat {p q : ℚ} (h : ofRat p = finite q) : nearest p = q := by
  rw [ofRat] at h
  split at h
  · cases h
  · exact finite.inj h

theorem Number.ofRat_natCast_nonneg {m : ℕ} {q : ℚ} (h : ofRat m = finite q) : 0 ≤ q := by
  rw [← nearest_of_ofRat h]
  exact_mod_cast le_nearest (k := 0) (by norm_num) (Nat.cast_nonneg m)

/-- A whole number is not rounded to a small number, unless it is small. -/
theorem Number.ofRat_natCast_small {m hi : ℕ} {q : ℚ} (hhi : hi + 1 < 2 ^ 53)
    (h : ofRat m = finite q) (hle : q ≤ hi) : q = m := by
  have hround := nearest_of_ofRat h
  have hm : m ≤ hi := by
    by_contra hlarge
    have hnext : ((hi + 1 : ℕ) : ℚ) ≤ nearest m :=
      le_nearest hhi (by exact_mod_cast Nat.lt_of_not_le hlarge)
    rw [hround] at hnext
    push_cast at hnext
    linarith
  have hexact : ofRat m = finite m := natCast_eq (by omega)
  exact finite.inj (h.symm.trans hexact)

/-- The digits of a whole number, with its sign. -/
theorem Number.withSign_ofRat_iff {neg : Bool} {m n : ℕ} (hn : n + 1 < 2 ^ 53) :
    withSign neg (ofRat m) = finite n ↔ m = n ∧ (neg = true → n = 0) := by
  rw [withSign_eq_finite_iff]
  cases neg with
  | false => simpa using ofRat_natCast_iff hn
  | true =>
      rw [if_pos rfl]
      constructor
      · intro h
        have hsign := ofRat_natCast_nonneg h
        obtain rfl : n = 0 := by
          rw [Left.nonneg_neg_iff, Nat.cast_nonpos] at hsign
          exact hsign
        rw [Nat.cast_zero, neg_zero, ← Nat.cast_zero, ofRat_natCast_iff (by norm_num)] at h
        exact ⟨h, fun _ => rfl⟩
      · rintro ⟨rfl, hzero⟩
        obtain rfl := hzero rfl
        rw [Nat.cast_zero, neg_zero, ← Nat.cast_zero, ofRat_natCast_iff (by norm_num)]

theorem parseDigits_parts {neg : Bool} {s whole point frac exp : List Char} {e : ℤ} {n : ℕ}
    (hn : n + 1 < 2 ^ 53) (hsigned : signed s = (neg, whole ++ (point ++ exp)))
    (h : Parts whole point frac exp e) :
    parseDigits s = .finite n ↔ whole ≠ [] ∧ value 10 whole = n ∧ (neg = true → n = 0) := by
  rw [parseDigits, hsigned]
  dsimp only
  rw [h.radixOf_eq]
  dsimp only
  rw [h.cut.1]
  split
  · rename_i hempty
    simp [hempty]
  · rename_i hne
    rw [Number.withSign_ofRat_iff hn]
    simp [hne]

theorem if_neg_zero {neg : Bool} {n : ℕ} (h : neg = true → n = 0) :
    (if neg = true then -(n : ℚ) else n) = n := by
  split
  · rename_i hneg
    rw [h hneg, Nat.cast_zero, neg_zero]
  · rfl

theorem trimmedNumber_hex {s ds : List Char} (h : radixOf s = (16, ds)) : trimmedNumber s =
    if ds ≠ [] ∧ ds.all (digit 16) then .ofRat (value 16 ds) else .nan := by
  rw [trimmedNumber, h]
  rfl

theorem trimmedNumber_decimal {s : List Char} (h : radixOf s = (10, s)) :
    trimmedNumber s = .withSign (signed s).1 (decimal (signed s).2) := by
  rw [trimmedNumber, h]
  rfl

/-- A text that both read as `n` is a numeral. -/
theorem bare_of_reads {n : ℕ} (hn : n + 1 < 2 ^ 53) {s : List Char}
    (hnumber : trimmedNumber s = .finite n) (hparse : parseDigits s = .finite n) : Bare n s := by
  rcases radixOf_spec s with ⟨x, ds, hx, rfl, hradix⟩ | ⟨hradix, -⟩
  · rw [trimmedNumber_hex hradix] at hnumber
    split at hnumber
    · rename_i hds
      exact .hex hx hds.1 (List.all_eq_true.mp hds.2) ((Number.ofRat_natCast_iff hn).mp hnumber)
    · cases hnumber
  · rw [trimmedNumber_decimal hradix, Number.withSign_eq_finite_iff, decimal_eq_finite_iff] at hnumber
    obtain ⟨whole, point, frac, exp, e, hparts, hrest, -, hq⟩ := hnumber
    have hsigned : signed s = ((signed s).1, whole ++ (point ++ exp)) := by rw [← hrest]
    obtain ⟨hne, hvalue, hzero⟩ := (parseDigits_parts hn hsigned hparts).mp hparse
    rw [if_neg_zero hzero, Number.ofRat_eq_finite_iff (by omega)] at hq
    obtain ⟨sign, hs, hsign⟩ := signed_spec s
    rw [hs, hrest]
    refine .decimal ?_ hne hparts hvalue hq
    rcases hsign with ⟨hsign, -⟩ | ⟨hsign, -⟩ | ⟨hsign, hneg⟩
    · exact .inl hsign
    · exact .inr (.inl hsign)
    · exact .inr (.inr ⟨hsign, hzero hneg⟩)

/-- The sign of a numeral is found. -/
theorem signed_decimal {sign whole : List Char} {n : ℕ}
    (hsign : sign = [] ∨ sign = ['+'] ∨ sign = ['-'] ∧ n = 0) (hne : whole ≠ [])
    (hwhole : ∀ c ∈ whole, digit 10 c = true) (rest : List Char) :
    ∃ neg, signed (sign ++ (whole ++ rest)) = (neg, whole ++ rest) ∧ (neg = true → n = 0) := by
  rcases hsign with rfl | rfl | ⟨rfl, hzero⟩
  · obtain ⟨c, whole, rfl⟩ := List.exists_cons_of_ne_nil hne
    exact ⟨false, signed_digit (hwhole c List.mem_cons_self) _, nofun⟩
  · exact ⟨false, rfl, nofun⟩
  · exact ⟨true, rfl, fun _ => hzero⟩

theorem radixOf_decimal {sign whole point frac exp : List Char} {e : ℤ} {n : ℕ}
    (hsign : sign = [] ∨ sign = ['+'] ∨ sign = ['-'] ∧ n = 0) (h : Parts whole point frac exp e) :
    radixOf (sign ++ (whole ++ (point ++ exp))) = (10, sign ++ (whole ++ (point ++ exp))) := by
  rcases hsign with rfl | rfl | ⟨rfl, -⟩
  · exact h.radixOf_eq
  · rfl
  · rfl

/-- Both read a numeral as its number. -/
theorem Bare.reads {n : ℕ} (hn : n + 1 < 2 ^ 53) {s : List Char} (h : Bare n s) :
    trimmedNumber s = .finite n ∧ parseDigits s = .finite n := by
  cases h with
  | @hex x ds hx hne hds hvalue =>
      have hradix : radixOf ('0' :: x :: ds) = (16, ds) := by
        rcases hx with rfl | rfl
        · rfl
        · rfl
      have hnumber : Number.ofRat (value 16 ds) = .finite n :=
        (Number.ofRat_natCast_iff hn).mpr hvalue
      constructor
      · rw [trimmedNumber_hex hradix, if_pos ⟨hne, List.all_eq_true.mpr hds⟩, hnumber]
      · rw [parseDigits, signed_digit (by decide)]
        dsimp only
        rw [hradix]
        dsimp only
        rw [List.takeWhile_eq_self_iff.mpr hds, if_neg hne, hnumber]
        rfl
  | @decimal sign whole point frac exp e hsign hne hparts hvalue hround =>
      obtain ⟨neg, hsigned, hzero⟩ :=
        signed_decimal hsign hne hparts.whole_digit (point ++ exp)
      refine ⟨?_, (parseDigits_parts hn hsigned hparts).mpr ⟨hne, hvalue, hzero⟩⟩
      rw [trimmedNumber_decimal (radixOf_decimal hsign hparts), hsigned,
        Number.withSign_eq_finite_iff, decimal_eq_finite_iff, if_neg_zero hzero]
      refine ⟨whole, point, frac, exp, e, hparts, rfl, fun h => hne h.1, ?_⟩
      rwa [Number.ofRat_eq_finite_iff (by omega)]

theorem Bare.not_space {n : ℕ} {s : List Char} (h : Bare n s) : ∀ c ∈ s, space c = false := by
  cases h with
  | @hex x ds hx hne hds hvalue =>
      rw [List.forall_mem_cons, List.forall_mem_cons]
      refine ⟨by decide, ?_, fun c hc => not_space_of_digit (hds c hc)⟩
      rcases hx with rfl | rfl
      · decide
      · decide
  | @decimal sign whole point frac exp e hsign hne hparts hvalue hround =>
      have hdigits {ds : List Char} (h : ∀ c ∈ ds, digit 10 c = true) :
          ∀ c ∈ ds, space c = false :=
        fun c hc => not_space_of_digit (digit_sixteen_of_ten (h c hc))
      simp only [List.forall_mem_append]
      refine ⟨?_, hdigits hparts.whole_digit, ?_, ?_⟩
      · rcases hsign with rfl | rfl | ⟨rfl, -⟩
        · simp
        · exact List.forall_mem_singleton.mpr (by decide)
        · exact List.forall_mem_singleton.mpr (by decide)
      · rcases hparts.point with ⟨rfl, -⟩ | rfl
        · simp
        · rw [List.forall_mem_cons]
          exact ⟨by decide, hdigits hparts.frac_digit⟩
      · intro c hc
        rcases exponent_chars hparts.exp c hc with hdigit | hother
        · exact not_space_of_digit hdigit
        · have hall : (['x', 'X', '+', '-', '.'].all fun c => !space c) = true := by decide
          simpa using List.all_eq_true.mp hall c hother

/-- The texts that both `Number` and `parseInt` read as `n`. -/
theorem reads_iff {n : ℕ} (hn : n + 1 < 2 ^ 53) (s : List Char) :
    toNumber s = .finite n ∧ parseInt s = .finite n ↔ Numeral n s := by
  have hbare : toNumber s = .finite n ∧ parseInt s = .finite n ↔ Bare n (trim s) := by
    have hbare (t : List Char) : trimmedNumber t = .finite n ∧ parseDigits t = .finite n ↔ Bare n t :=
      ⟨fun h => bare_of_reads hn h.1 h.2, fun h => h.reads hn⟩
    rw [← hbare, parseInt_eq_trim, toNumber]
    split
    · rename_i hempty
      rw [hempty]
      simp [parseDigits, signed, radixOf]
    · rfl
  rw [hbare]
  constructor
  · intro h
    obtain ⟨pre, post, hs, -, hpre, hpost⟩ := trim_spec s
    exact ⟨pre, trim s, post, hs, hpre, hpost, h⟩
  · rintro ⟨pre, t, post, rfl, hpre, hpost, h⟩
    rwa [trim_append hpre h.not_space hpost]

/-! ### Digits only -/

theorem value_eq_ofDigitChars {ds : List Char} (h : ∀ c ∈ ds, digit 10 c = true) :
    value 10 ds = Nat.ofDigitChars 10 ds 0 := by
  rw [value, Nat.ofDigitChars_eq_foldl]
  refine List.foldl_ext _ _ _ fun n c hc => ?_
  have hdigit := digit_ten_iff.mp (h c hc)
  rw [digitVal_eq, if_pos hdigit]
  rfl

theorem digit_toDigits {n : ℕ} : ∀ c ∈ Nat.toDigits 10 n, digit 10 c = true := by
  intro c hc
  rw [digit_ten_isDigit]
  exact Nat.isDigit_of_mem_toDigits (by decide) (by decide) hc

theorem value_toDigits (n : ℕ) : value 10 (Nat.toDigits 10 n) = n := by
  rw [value_eq_ofDigitChars digit_toDigits, Nat.ofDigitChars_ten_toDigits]

/-- Digits are a numeral. -/
theorem numeral_of_digits {s : List Char} (hne : s ≠ []) (hdigits : ∀ c ∈ s, digit 10 c = true)
    (hsmall : value 10 s < 2 ^ 53) : Numeral (value 10 s) s := by
  have hround : nearest (value 10 (s ++ []) * 10 ^ ((0 : ℤ) - ([] : List Char).length)) =
      (value 10 s : ℕ) := by
    have hwhole := nearest_intCast (n := value 10 s) (by
      rw [Nat.abs_cast]
      exact_mod_cast hsmall)
    simpa using hwhole
  have hbare : Bare (value 10 s) ([] ++ (s ++ ([] ++ []))) :=
    .decimal (.inl rfl) hne ⟨hdigits, .inl ⟨rfl, rfl⟩, by simp, rfl⟩ rfl hround
  exact ⟨[], s, [], by simp, by simp, by simp, by simpa using hbare⟩

/-- A numeral of digits is the usual one. -/
theorem Numeral.digits {n : ℕ} (hn : n + 1 < 2 ^ 53) {s : List Char} (h : Numeral n s)
    (hdigits : ∀ c ∈ s, digit 10 c = true) : s ≠ [] ∧ value 10 s = n := by
  have hspace : ∀ c ∈ s, space c = false :=
    fun c hc => not_space_of_digit (digit_sixteen_of_ten (hdigits c hc))
  have htrim : trim s = s := by
    have happend := @trim_append [] s [] (by simp) hspace (by simp)
    rwa [List.nil_append, List.append_nil] at happend
  have hparse := ((reads_iff hn s).mpr h).2
  have hparts : Parts s [] [] [] 0 := ⟨hdigits, .inl ⟨rfl, rfl⟩, by simp, rfl⟩
  have hsigned : signed s = (false, s ++ ([] ++ [])) := by
    rw [List.append_nil, List.append_nil]
    cases s with
    | nil => rfl
    | cons c s => exact signed_digit (hdigits c List.mem_cons_self) s
  rw [parseInt_eq_trim, htrim] at hparse
  obtain ⟨hne, hvalue, -⟩ := (parseDigits_parts hn hsigned hparts).mp hparse
  exact ⟨hne, hvalue⟩

/-- The letters of numerals. -/
theorem Numeral.chars {n : ℕ} {s : List Char} (h : Numeral n s) :
    ∀ c ∈ s, space c = true ∨ digit 16 c = true ∨ c ∈ ['x', 'X', '+', '-', '.'] := by
  obtain ⟨pre, t, post, rfl, hpre, hpost, h⟩ := h
  simp only [List.forall_mem_append]
  refine ⟨⟨fun c hc => .inl (hpre c hc), fun c hc => .inr ?_⟩, fun c hc => .inl (hpost c hc)⟩
  cases h with
  | hex hx hne hds hvalue =>
      simp only [List.mem_cons] at hc
      rcases hc with rfl | rfl | hc
      · exact .inl (by decide)
      · rcases hx with rfl | rfl
        · exact .inr (by decide)
        · exact .inr (by decide)
      · exact .inl (hds c hc)
  | @decimal sign whole point frac exp e hsign hne hparts hvalue hround =>
      simp only [List.mem_append] at hc
      rcases hc with hc | hc | hc | hc
      · rcases hsign with rfl | rfl | ⟨rfl, -⟩
        · cases hc
        · exact .inr (by simp [List.mem_singleton.mp hc])
        · exact .inr (by simp [List.mem_singleton.mp hc])
      · exact .inl (digit_sixteen_of_ten (hparts.whole_digit c hc))
      · rcases hparts.point with ⟨rfl, -⟩ | rfl
        · cases hc
        · rcases List.mem_cons.mp hc with rfl | hc
          · exact .inr (by decide)
          · exact .inl (digit_sixteen_of_ten (hparts.frac_digit c hc))
      · exact exponent_chars hparts.exp c hc

/-- A number that `parseInt` finds is whole. -/
theorem parseInt_whole {s : List Char} {q : ℚ} {hi : ℕ} (hhi : hi + 1 < 2 ^ 53)
    (h : parseInt s = .finite q) (hpos : 0 ≤ q) (hle : q ≤ hi) : ∃ n : ℕ, q = n := by
  rw [parseInt_eq_trim, parseDigits] at h
  dsimp only at h
  split at h
  · cases h
  · rw [Number.withSign_eq_finite_iff] at h
    split at h
    · have hneg := Number.ofRat_natCast_nonneg h
      exact ⟨0, by rw [Nat.cast_zero]; linarith⟩
    · exact ⟨_, Number.ofRat_natCast_small hhi h hle⟩

theorem parseInt_toDigits {n : ℕ} (hn : n + 1 < 2 ^ 53) :
    parseInt (Nat.toDigits 10 n) = .finite n := by
  have hnumeral := numeral_of_digits (Nat.toDigits_ne_nil (n := n) (b := 10)) digit_toDigits
    (by rw [value_toDigits]; omega)
  rw [value_toDigits] at hnumeral
  exact ((reads_iff hn _).mpr hnumeral).2

end UbntSdk.Lib.Js
