/-
UbntSdk.Switch.VlanTheorems — which VLAN settings are accepted, and what they mean.

The settings are the `words` of the text between white space; each is meant to be
a `number` with `letters` behind it. The loop is a fold over the words
(`parseLoop_words`), so a mask has the bits that some word puts there
(`foldl_port`, `foldl_untag`, `foldl_pvid`, `marks_testBit`). What the parser does
differs from what is meant in two ways: a letter that means nothing is passed
over, and a number from 32 on is taken modulo 32, which may be a port again.
-/
import UbntSdk.Lib.JsText
import UbntSdk.Switch.Vlan

namespace UbntSdk.Switch

open Lib.Js (takeWhile_dropWhile_append head_dropWhile)

/-! ## Words -/

/-- The settings of a text. -/
def words (s : List Char) : List (List Char) := (s.splitOnP isspace).filter (· ≠ [])

/-- The number that digits in front of a word stand for. -/
def digitsVal (n : Nat) (ds : List Char) : Nat :=
  ds.foldl (fun n c => n * 10 + (c.toNat - '0'.toNat)) n

def number (w : List Char) : Nat := digitsVal 0 (w.takeWhile isdigit)

def letters (w : List Char) : List Char := w.dropWhile isdigit

/-- The word begins with a digit. -/
def Numbered (w : List Char) : Prop := w.head?.any isdigit = true

instance (w : List Char) : Decidable (Numbered w) :=
  inferInstanceAs (Decidable (w.head?.any isdigit = true))

/-- A setting: a decimal number followed by any of `u`, `t` and `*`. -/
def Setting (w : List Char) : Prop := Numbered w ∧ ∀ c ∈ letters w, c = 'u' ∨ c = 't' ∨ c = '*'

instance (w : List Char) : Decidable (Setting w) :=
  have : Decidable (∀ c ∈ letters w, c = 'u' ∨ c = 't' ∨ c = '*') := List.decidableBAll _ _
  inferInstanceAs (Decidable (Numbered w ∧ _))

/-- Whether the last of the letters `u` and `t` is `u`; `u` if there is none. -/
def lastUT (ls : List Char) (u : Bool) : Bool :=
  ls.foldl (fun u c => if c = 'u' then true else if c = 't' then false else u) u

/-- The word takes its port out of the tagged ones. -/
def untags (driver : SwitchDriver) (w : List Char) : Bool :=
  lastUT (letters w) ((number w : Int) ≠ driver.cpuport.toInt)

/-- The word makes its VLAN the default of its port. -/
def stars (w : List Char) : Bool := (letters w).contains '*'

theorem isspace_of_isdigit {c : Char} (h : isdigit c = true) : isspace c = false := by
  have h : '0'.toNat ≤ c.toNat := by
    have := (Bool.and_eq_true _ _ ▸ h).1
    exact UInt32.le_iff_toNat_le.mp (of_decide_eq_true this)
  have hne {d : Char} (hd : d.toNat < '0'.toNat) : c ≠ d := by
    rintro rfl
    exact absurd h (Nat.not_le.mpr hd)
  simp [isspace, hne (d := ' ') (by decide), hne (d := '\t') (by decide),
    hne (d := '\n') (by decide), hne (d := '\r') (by decide)]

@[simp] theorem words_nil : words [] = [] := rfl

theorem words_space {ch : Char} (h : isspace ch = true) (buf : List Char) :
    words (ch :: buf) = words buf := by
  simp [words, List.splitOnP_cons_eq_if_modifyHead, h]

theorem words_dropWhile (buf : List Char) : words (buf.dropWhile isspace) = words buf := by
  induction buf with
  | nil => rfl
  | cons ch buf ih =>
      rw [List.dropWhile_cons]
      split
      · rename_i h
        rw [ih, words_space h]
      · rfl

/-- The first word of a text, and the words behind it. -/
theorem words_append {w rest : List Char} (hw : ∀ c ∈ w, isspace c = false) (hne : w ≠ [])
    (hr : ∀ c ∈ rest.head?, isspace c = true) : words (w ++ rest) = w :: words rest := by
  cases rest with
  | nil => simp [words, List.splitOnP_eq_singleton hw, hne]
  | cons c rest =>
      have hc : isspace c = true := hr c rfl
      rw [words_space hc, words, List.splitOnP_append_cons_of_forall_mem hw c hc]
      simp [words, hne]

/-- A text without the white space in front is empty or begins with its first word. -/
theorem words_cases (s : List Char) :
    s.dropWhile isspace = [] ∧ words s = [] ∨
    ∃ w rest, s.dropWhile isspace = w ++ rest ∧ w ≠ [] ∧ (∀ c ∈ w, isspace c = false) ∧
      (∀ c ∈ rest.head?, isspace c = true) ∧ rest.length < s.length ∧
      words s = w :: words rest := by
  cases h : s.dropWhile isspace with
  | nil =>
      refine .inl ⟨rfl, ?_⟩
      rw [← words_dropWhile, h, words_nil]
  | cons ch t =>
      right
      have hch : isspace ch = false := head_dropWhile isspace s ch (by rw [h]; rfl)
      have hw : ∀ c ∈ (ch :: t).takeWhile (!isspace ·), isspace c = false := by
        intro c hc
        simpa using List.mem_takeWhile_imp hc
      have hne : (ch :: t).takeWhile (!isspace ·) ≠ [] := by
        simp [hch]
      have hr : ∀ c ∈ ((ch :: t).dropWhile (!isspace ·)).head?, isspace c = true := by
        intro c hc
        simpa using head_dropWhile (!isspace ·) (ch :: t) c hc
      have happ : ch :: t = (ch :: t).takeWhile (!isspace ·) ++ (ch :: t).dropWhile (!isspace ·) :=
        List.takeWhile_append_dropWhile.symm
      refine ⟨_, _, happ, hne, hw, hr, ?_, ?_⟩
      · have hle : (ch :: t).length ≤ s.length := by
          rw [← h]
          exact dropWhile_length_le isspace s
        have hlt : ((ch :: t).dropWhile (!isspace ·)).length ≤ t.length := by
          rw [List.dropWhile_cons, if_pos (by simp [hch])]
          exact dropWhile_length_le _ t
        exact Nat.lt_of_lt_of_le (Nat.lt_succ_of_le hlt) hle
      · rw [← words_append hw hne hr, ← happ, ← h, words_dropWhile]

/-! ## The loop -/

/-- `u` behind the flags of a word: the number is compared as the `int` that it wraps to. -/
def untags32 (driver : SwitchDriver) (w : List Char) : Bool :=
  lastUT (letters w) (Int32.ofNat (number w) ≠ driver.cpuport)

/-- What a word adds. -/
def addWord (driver : SwitchDriver) (c : SwitchVlanConfig) (w : List Char) : SwitchVlanConfig :=
  addPort c (Int32.ofNat (number w)) (untags32 driver w) (stars w)

theorem flags_eq (ls rest : List Char) (u p : Bool) (hl : ∀ c ∈ ls, isspace c = false)
    (hr : ∀ c ∈ rest.head?, isspace c = true) :
    flags (ls ++ rest) u p = (lastUT ls u, p || ls.contains '*', rest) := by
  induction ls generalizing u p with
  | nil =>
      cases rest with
      | nil => simp [flags, lastUT]
      | cons c rest => simp [flags, lastUT, hr c rfl]
  | cons ch ls ih =>
      have ih (u p : Bool) := ih u p fun c hc => hl c (List.mem_cons_of_mem _ hc)
      have hch : isspace ch = false := hl ch List.mem_cons_self
      rw [List.cons_append, flags, if_neg (by simp [hch])]
      by_cases hu : ch = 'u'
      · subst hu
        rw [if_pos rfl, ih]
        simp [lastUT]
      by_cases ht : ch = 't'
      · subst ht
        rw [if_neg hu, if_pos rfl, ih]
        simp [lastUT]
      by_cases hs : ch = '*'
      · subst hs
        rw [if_neg hu, if_neg ht, if_pos rfl, ih]
        simp [lastUT]
      · rw [if_neg hu, if_neg ht, if_neg hs, ih]
        simp [lastUT, hu, ht, Ne.symm hs]

/-- The digits of a word are read one by one. -/
theorem parseLoop_digits (driver : SwitchDriver) (c : SwitchVlanConfig) (tail : List Char)
    (ht : ∀ ch ∈ tail.head?, isdigit ch = false) :
    ∀ (ds : List Char) (n : Nat), ds ≠ [] → (∀ ch ∈ ds, isdigit ch = true) →
      parseLoop driver (Int32.ofNat n) c (ds ++ tail) =
        (let j := Int32.ofNat (digitsVal n ds)
         let r := flags tail (j ≠ driver.cpuport) false
         parseLoop driver 0 (addPort c j r.1 r.2.1) (r.2.2.dropWhile isspace)) := by
  intro ds
  induction ds with
  | nil => exact fun _ h => absurd rfl h
  | cons d ds ih =>
      intro n _ hd
      have hd0 : isdigit d = true := hd d List.mem_cons_self
      have hj : Int32.ofNat n * 10 + Int32.ofNat (d.toNat - '0'.toNat) =
          Int32.ofNat (n * 10 + (d.toNat - '0'.toNat)) := by
        rw [Int32.ofNat_add, Int32.ofNat_mul]
        rfl
      rw [List.cons_append, parseLoop, if_pos hd0]
      simp only [hj]
      cases ds with
      | nil =>
          have hh : (!(tail.head?.any isdigit)) = true := by
            cases htl : tail.head? with
            | none => rfl
            | some ch => simp [ht ch htl]
          rw [List.nil_append, if_pos hh]
          rfl
      | cons e ds =>
          have he : isdigit e = true := hd e (List.mem_cons_of_mem _ List.mem_cons_self)
          have hsp : isspace e = false := isspace_of_isdigit he
          rw [if_neg (by simp [he]), List.cons_append, List.dropWhile_cons, if_neg (by simp [hsp]),
            ← List.cons_append,
            ih _ (List.cons_ne_nil _ _) fun ch h => hd ch (List.mem_cons_of_mem _ h)]
          rfl

/-- A word that begins with a digit is read as a whole. -/
theorem parseLoop_word (driver : SwitchDriver) (c : SwitchVlanConfig) {w rest : List Char}
    (hn : Numbered w) (hw : ∀ ch ∈ w, isspace ch = false)
    (hr : ∀ ch ∈ rest.head?, isspace ch = true) :
    parseLoop driver 0 c (w ++ rest) =
      parseLoop driver 0 (addWord driver c w) (rest.dropWhile isspace) := by
  have hsplit : w ++ rest = w.takeWhile isdigit ++ (letters w ++ rest) := by
    rw [← List.append_assoc, letters, List.takeWhile_append_dropWhile]
  have hds : w.takeWhile isdigit ≠ [] := by
    cases w with
    | nil => exact absurd hn (by decide)
    | cons d w =>
        have hd : isdigit d = true := by simpa [Numbered] using hn
        simp [hd]
  have htail : ∀ ch ∈ (letters w ++ rest).head?, isdigit ch = false := by
    intro ch hch
    cases hl : letters w with
    | nil =>
        rw [hl, List.nil_append] at hch
        by_contra hd
        have := isspace_of_isdigit (by simpa using hd)
        rw [hr ch hch] at this
        exact absurd this (by decide)
    | cons l ls =>
        refine head_dropWhile isdigit w ch ?_
        rw [hl] at hch
        rw [← letters, hl]
        exact hch
  have hl : ∀ ch ∈ letters w, isspace ch = false := fun ch hch =>
    hw ch ((List.dropWhile_suffix isdigit).subset hch)
  rw [hsplit, show (0 : Int32) = Int32.ofNat 0 from rfl,
    parseLoop_digits driver c _ htail _ 0 hds fun ch hch => List.mem_takeWhile_imp hch]
  simp only [flags_eq (letters w) rest _ _ hl hr, Bool.false_or]
  rfl

/-- The loop goes over the words, and stops at one that does not begin with a digit. -/
theorem parseLoop_words (driver : SwitchDriver) (s : List Char) (c : SwitchVlanConfig) :
    if ∀ w ∈ words s, Numbered w then
      parseLoop driver 0 c (s.dropWhile isspace) = ((words s).foldl (addWord driver) c, [])
    else (parseLoop driver 0 c (s.dropWhile isspace)).2 ≠ [] := by
  induction hlen : s.length using Nat.strong_induction_on generalizing s c with
  | _ n ih =>
    obtain ⟨hd, hw⟩ | ⟨w, rest, hd, hne, hws, hr, hlt, hw⟩ := words_cases s
    · simp [hw, hd, parseLoop]
    · have ih := ih rest.length (hlen ▸ hlt) rest (addWord driver c w) rfl
      rw [hw, hd]
      by_cases hn : Numbered w
      · rw [parseLoop_word driver c hn hws hr]
        simpa [hn] using ih
      · rw [if_neg fun h => hn (h w List.mem_cons_self)]
        cases w with
        | nil => exact absurd rfl hne
        | cons ch w =>
            have hch : ¬isdigit ch = true := by simpa [Numbered] using hn
            rw [List.cons_append, parseLoop, if_neg hch]
            exact List.cons_ne_nil _ _

/-- What is accepted, and the configuration. -/
theorem switchParseVlan_eq (driver : SwitchDriver) (s : List Char) :
    switchParseVlan driver s =
      if ∀ w ∈ words s, Numbered w then
        let c := (words s).foldl (addWord driver) ⟨0, 0, 0⟩
        let mask := (1 <<< driver.ports) - 1
        some ⟨c.port &&& mask, c.untag &&& mask, c.pvid &&& mask⟩
      else none := by
  have h := parseLoop_words driver s ⟨0, 0, 0⟩
  unfold switchParseVlan
  by_cases hn : ∀ w ∈ words s, Numbered w
  · rw [if_pos hn] at h
    rw [if_pos hn, h]
    exact if_neg (by simp)
  · rw [if_neg hn] at h
    rw [if_neg hn]
    exact if_pos h

/-! ## Masks -/

/-- The bits that the words with a property put into a mask. -/
def marks (P : List Char → Bool) (ws : List (List Char)) (m : UInt32) : UInt32 :=
  ws.foldl (fun m w => if P w then m ||| bit (Int32.ofNat (number w)) else m) m

theorem foldl_port (driver : SwitchDriver) (ws : List (List Char)) (c : SwitchVlanConfig) :
    (ws.foldl (addWord driver) c).port = marks (fun _ => true) ws c.port := by
  induction ws generalizing c with
  | nil => rfl
  | cons w ws ih => exact ih _

theorem foldl_untag (driver : SwitchDriver) (ws : List (List Char)) (c : SwitchVlanConfig) :
    (ws.foldl (addWord driver) c).untag =
      marks (untags32 driver) ws c.untag := by
  induction ws generalizing c with
  | nil => rfl
  | cons w ws ih => exact ih _

theorem foldl_pvid (driver : SwitchDriver) (ws : List (List Char)) (c : SwitchVlanConfig) :
    (ws.foldl (addWord driver) c).pvid = marks stars ws c.pvid := by
  induction ws generalizing c with
  | nil => rfl
  | cons w ws ih => exact ih _

theorem bit_testBit (n k : Nat) : (bit (Int32.ofNat n)).toNat.testBit k = decide (k = n % 32) := by
  have hn : (Int32.ofNat n).toUInt32.toNat % 32 = n % 32 := by
    change (UInt32.ofNat n).toNat % 32 = n % 32
    rw [UInt32.toNat_ofNat']
    exact Nat.mod_mod_of_dvd n (by decide)
  have hlt : n % 32 < 32 := Nat.mod_lt n (by decide)
  rw [bit, UInt32.toNat_shiftLeft, hn, UInt32.toNat_one, Nat.one_shiftLeft,
    Nat.mod_eq_of_lt (Nat.pow_lt_pow_right (by decide) hlt), Nat.testBit_two_pow]
  exact decide_eq_decide.mpr eq_comm

theorem marks_testBit (P : List Char → Bool) (ws : List (List Char)) (m : UInt32) (k : Nat) :
    (marks P ws m).toNat.testBit k =
      (m.toNat.testBit k || ws.any fun w => P w && decide (k = number w % 32)) := by
  induction ws generalizing m with
  | nil => simp [marks]
  | cons w ws ih =>
      rw [marks, List.foldl_cons, ← marks, ih, List.any_cons]
      cases P w with
      | false => simp
      | true => simp [bit_testBit, Bool.or_assoc]

theorem mask_testBit {ports : UInt32} (hp : ports ≤ 31) (k : Nat) :
    ((1 <<< ports) - 1 : UInt32).toNat.testBit k = decide (k < ports.toNat) := by
  have hp : ports.toNat ≤ 31 := UInt32.le_iff_toNat_le.mp hp
  have hpow : 2 ^ ports.toNat < 2 ^ 32 := Nat.pow_lt_pow_right (by decide) (by omega)
  have h1 : (1 <<< ports : UInt32).toNat = 2 ^ ports.toNat := by
    rw [UInt32.toNat_shiftLeft, Nat.mod_eq_of_lt (Nat.lt_succ_of_le hp), UInt32.toNat_one,
      Nat.one_shiftLeft, Nat.mod_eq_of_lt hpow]
  have hle : (1 : UInt32) ≤ 1 <<< ports := by
    rw [UInt32.le_iff_toNat_le, h1]
    exact Nat.one_le_two_pow
  rw [UInt32.toNat_sub_of_le _ _ hle, h1, UInt32.toNat_one, Nat.testBit_two_pow_sub_one]

/-! ## What the settings mean -/

/-- The mask of the listed ports whose setting has a property. -/
def IsMask (driver : SwitchDriver) (s : List Char) (Q : List Char → Bool) (m : UInt32) : Prop :=
  ∀ k, m.toNat.testBit k = true ↔
    k < driver.ports.toNat ∧ ∃ w ∈ words s, number w = k ∧ Q w = true

/-- The configuration that a text stands for. -/
structure Means (driver : SwitchDriver) (s : List Char) (c : SwitchVlanConfig) : Prop where
  port : IsMask driver s (fun _ => true) c.port
  untag : IsMask driver s (untags driver) c.untag
  pvid : IsMask driver s stars c.pvid

theorem means_iff {driver : SwitchDriver} {s : List Char} {c : SwitchVlanConfig} :
    Means driver s c ↔ IsMask driver s (fun _ => true) c.port ∧
      IsMask driver s (untags driver) c.untag ∧ IsMask driver s stars c.pvid :=
  ⟨fun h => ⟨h.port, h.untag, h.pvid⟩, fun h => ⟨h.1, h.2.1, h.2.2⟩⟩

/-- Lists of settings are accepted, nothing else is, and the configuration is the one meant. -/
def MeetsVlan (driver : SwitchDriver) (s : List Char) : Prop :=
  ((switchParseVlan driver s).isSome = true ↔ ∀ w ∈ words s, Setting w) ∧
    ∀ c ∈ switchParseVlan driver s, Means driver s c

/-- A number from 32 on that becomes a port adds nothing that the settings of the port lack. -/
def Covered (driver : SwitchDriver) (s : List Char) (P Q : List Char → Bool) : Prop :=
  ∀ w ∈ words s, 32 ≤ number w → number w % 32 < driver.ports.toNat → P w = true →
    ∃ v ∈ words s, number v = number w % 32 ∧ Q v = true

instance (driver : SwitchDriver) (s : List Char) (P Q : List Char → Bool) :
    Decidable (Covered driver s P Q) :=
  inferInstanceAs (Decidable (∀ w ∈ words s, _ → _ → _ → ∃ v ∈ words s, _))

theorem isMask_iff {driver : SwitchDriver} (hp : driver.ports ≤ 31) (s : List Char)
    {P Q : List Char → Bool} (hPQ : ∀ w, number w < 32 → P w = Q w) :
    IsMask driver s Q (marks P (words s) 0 &&& ((1 <<< driver.ports) - 1)) ↔
      Covered driver s P Q := by
  have hports : driver.ports.toNat ≤ 31 := UInt32.le_iff_toNat_le.mp hp
  have hbit (k : Nat) : (marks P (words s) 0 &&& ((1 <<< driver.ports) - 1)).toNat.testBit k =
      true ↔ k < driver.ports.toNat ∧ ∃ w ∈ words s, number w % 32 = k ∧ P w = true := by
    rw [UInt32.toNat_and, Nat.testBit_and, marks_testBit, mask_testBit hp, UInt32.toNat_zero,
      Nat.zero_testBit, Bool.false_or, Bool.and_eq_true, List.any_eq_true, decide_eq_true_iff]
    simp only [Bool.and_eq_true, decide_eq_true_eq]
    exact ⟨fun ⟨⟨w, hw, hP, hk⟩, hlt⟩ => ⟨hlt, w, hw, hk.symm, hP⟩,
      fun ⟨hlt, w, hw, hk, hP⟩ => ⟨⟨w, hw, hP, hk.symm⟩, hlt⟩⟩
  constructor
  · intro h w hw hle hlt hPw
    exact ((h _).mp ((hbit _).mpr ⟨hlt, w, hw, rfl, hPw⟩)).2
  · intro h k
    rw [hbit]
    constructor
    · rintro ⟨hk, w, hw, rfl, hPw⟩
      refine ⟨hk, ?_⟩
      by_cases hle : 32 ≤ number w
      · exact h w hw hle hk hPw
      · have hlt : number w < 32 := Nat.lt_of_not_le hle
        exact ⟨w, hw, (Nat.mod_eq_of_lt hlt).symm, hPQ w hlt ▸ hPw⟩
    · rintro ⟨hk, w, hw, rfl, hQw⟩
      have hlt : number w < 32 := Nat.lt_of_lt_of_le hk (Nat.le_succ_of_le hports)
      exact ⟨hk, w, hw, Nat.mod_eq_of_lt hlt, (hPQ w hlt).symm ▸ hQw⟩

/-- A number that is a port is the CPU port as an `int` when it is as a number. -/
theorem untags32_eq (driver : SwitchDriver) {w : List Char} (hw : number w < 32) :
    untags32 driver w = untags driver w := by
  have hn : (Int32.ofNat (number w)).toInt = number w :=
    Int32.toInt_ofNat_of_lt (Nat.lt_trans hw (by decide))
  rw [untags32, untags, ← hn]
  simp only [ne_eq, Int32.toInt_inj]

/-- When the parser takes the settings as meant. -/
theorem switchParseVlan_meets {driver : SwitchDriver} (hp : driver.ports ≤ 31) (s : List Char) :
    MeetsVlan driver s ↔
      (∃ w ∈ words s, ¬Numbered w) ∨
      (∀ w ∈ words s, Setting w) ∧ Covered driver s (fun _ => true) (fun _ => true) ∧
        Covered driver s (untags32 driver) (untags driver) ∧ Covered driver s stars stars := by
  rw [MeetsVlan, switchParseVlan_eq]
  by_cases hn : ∀ w ∈ words s, Numbered w
  · rw [if_pos hn]
    have hno : ¬∃ w ∈ words s, ¬Numbered w := fun ⟨w, hw, h⟩ => h (hn w hw)
    simp only [Option.isSome_some, true_iff, hno, false_or, Option.mem_some_iff, forall_eq',
      means_iff, foldl_port, foldl_untag, foldl_pvid]
    rw [isMask_iff hp s fun _ _ => rfl, isMask_iff hp s fun _ => untags32_eq driver,
      isMask_iff hp s fun _ _ => rfl]
  · rw [if_neg hn]
    have hset : ¬∀ w ∈ words s, Setting w := fun h => hn fun w hw => (h w hw).1
    have hex : ∃ w ∈ words s, ¬Numbered w := by simpa using hn
    simp [hset, hex]

/-- Ports 0 and 1, and the CPU port tagged and with this VLAN as its default. -/
theorem switchParseVlan_meets_robo :
    (6 : UInt32) ≤ 31 ∧ MeetsVlan ⟨5, 6⟩ "0 1u 5t*".toList :=
  ⟨by decide, (@switchParseVlan_meets ⟨5, 6⟩ (by decide) _).mpr
    (.inr ⟨by decide, by decide, by decide, by decide⟩)⟩

/-- Port 33 is taken for port 1. -/
theorem switchParseVlan_alias : ¬MeetsVlan ⟨5, 6⟩ "33".toList := by
  intro h
  have hc : switchParseVlan ⟨5, 6⟩ "33".toList = some ⟨2, 2, 0⟩ := by
    rw [switchParseVlan_eq]
    decide
  have hport := ((h.2 _ hc).port 1).mp (by decide)
  exact absurd hport.2 (by decide)

end UbntSdk.Switch
