/-
UbntSdk.Images.PtgenTheorems — partition tables
(`tools/firmware-utils/src/ptgen.c`).

The loop of `gen_ptable` depends on the running sector modulo 2 ^ 32 only, and
the table is a function of it in natural numbers: `nextEnd` is where a partition
ends. As long as the start fits into an `int` (and on hosts with a short `long`
the sum that is rounded as well), that is a cylinder boundary. Beyond it the
remainder is the one of a negative number, and the end is off by 2 ^ 32
modulo the size of a cylinder (`dvd_nextEnd_iff`).
-/
import UbntSdk.Images.Ptgen
import UbntSdk.Lib.Words

namespace UbntSdk.Images.Ptgen

open UbntSdk.Lib

/-! ## CHS values -/

/-- The sector that a CHS value denotes. -/
def Chs.lba (heads sectors : Nat) (c : Chs) : Nat :=
  ((c.c1.toNat / 64 * 256 + c.c2.toNat) * heads + c.c0.toNat) * sectors + (c.c1.toNat % 64 - 1)

/-- A CHS value of the geometry. -/
def Chs.Valid (heads sectors : Nat) (c : Chs) : Prop :=
  c.c0.toNat < heads ∧ 1 ≤ c.c1.toNat % 64 ∧ c.c1.toNat % 64 ≤ sectors

theorem lowByte_natCast (n : Nat) : lowByte (n : Int) = n % 256 := by
  rw [lowByte]
  omega

/-- The sector and the upper bits of the cylinder do not meet. -/
theorem or_and_eq {s c : Nat} (hs : s < 64) (hc : c < 1024) :
    s ||| ((c / 4) % 256 &&& 0xC0) = c / 256 * 64 + s := by
  have hand : ∀ x < 256, x &&& 0xC0 = 2 ^ 6 * (x / 64) := by decide +kernel
  have hdiv : c / 4 % 256 / 64 = c / 256 := by omega
  rw [hand _ (Nat.mod_lt _ (by decide)), hdiv, Nat.or_comm, ← Nat.two_pow_add_eq_or_of_lt hs]
  omega

/-- Below cylinder 1024 the bytes have all of the sector number. -/
theorem toChs_lba {heads sectors n : Nat} (hheads : 0 < heads) (hheads' : heads ≤ 255)
    (hsectors : 0 < sectors) (hsectors' : sectors ≤ 63) (hn : n / sectors / heads < 1024) :
    (toChs ⟨heads, sectors⟩ n).Valid heads sectors ∧ (toChs ⟨heads, sectors⟩ n).lba heads sectors = n := by
  have hhead := Nat.mod_lt (n / sectors) hheads
  have hsect := Nat.mod_lt n hsectors
  have hcyl := Nat.div_add_mod (n / sectors) heads
  have hall := Nat.div_add_mod n sectors
  have hquot : ((n : Int).tdiv sectors).tdiv heads = ((n / sectors / heads : Nat) : Int) := rfl
  have hrem : ((n : Int).tdiv sectors).tmod heads = ((n / sectors % heads : Nat) : Int) := rfl
  have hsec : (n : Int).tmod sectors + 1 = ((n % sectors + 1 : Nat) : Int) := rfl
  generalize n / sectors / heads = c at *
  generalize n / sectors % heads = h at *
  generalize n % sectors = s at *
  have hchs : toChs ⟨heads, sectors⟩ n =
      ⟨UInt8.ofNat h, UInt8.ofNat (c / 256 * 64 + (s + 1)), UInt8.ofNat (c % 256)⟩ := by
    have hwrap : wrap32 (c : Int) = c := wrap32_of_range (by omega) (by omega)
    have hfour : (c : Int) / 4 = ((c / 4 : Nat) : Int) := rfl
    have hh : h % 256 = h := Nat.mod_eq_of_lt (by omega)
    have hs : (s + 1) % 256 = s + 1 := Nat.mod_eq_of_lt (by omega)
    simp only [toChs, hquot, hrem, hsec, hwrap, hfour, lowByte_natCast, hh, hs,
      or_and_eq (show s + 1 < 64 by omega) hn]
  have h0 : (UInt8.ofNat h).toNat = h := by
    rw [UInt8.toNat_ofNat', Nat.mod_eq_of_lt (by omega)]
  have h1 : (UInt8.ofNat (c / 256 * 64 + (s + 1))).toNat = c / 256 * 64 + (s + 1) := by
    rw [UInt8.toNat_ofNat', Nat.mod_eq_of_lt (by omega)]
  have h2 : (UInt8.ofNat (c % 256)).toNat = c % 256 := by
    rw [UInt8.toNat_ofNat', Nat.mod_eq_of_lt (by omega)]
  have hlow : (c / 256 * 64 + (s + 1)) % 64 = s + 1 := by omega
  have hhigh : (c / 256 * 64 + (s + 1)) / 64 * 256 + c % 256 = c := by omega
  rw [hchs, Chs.Valid, Chs.lba]
  simp only [h0, h1, h2, hlow, hhigh, Nat.add_sub_cancel]
  refine ⟨⟨hhead, by omega, by omega⟩, ?_⟩
  rw [Nat.mul_comm c, hcyl, Nat.mul_comm, hall]

/-! ## Ends of partitions -/

/-- The number that is rounded comes out negative: `start` does, or where `long`
is short, `start` and the size together. -/
def Wraps (l : LongSize) (start sum : Nat) : Prop :=
  match l with
  | .ilp32 => 2 ^ 31 ≤ sum
  | .lp64 => 2 ^ 31 ≤ start

instance : ∀ l start sum, Decidable (Wraps l start sum)
  | .ilp32, _, sum => inferInstanceAs (Decidable (2 ^ 31 ≤ sum))
  | .lp64, start, _ => inferInstanceAs (Decidable (2 ^ 31 ≤ start))

/-- The end of a partition for which `start` and the size make `sum`. -/
def nextEnd (l : LongSize) (cyl start sum : Nat) : Nat :=
  if Wraps l start sum then sum + cyl + (2 ^ 32 - sum) % cyl else sum + cyl - sum % cyl

theorem lt_nextEnd {cyl : Nat} (hcyl : 0 < cyl) (l : LongSize) (start sum : Nat) :
    sum < nextEnd l cyl start sum := by
  have hmod := Nat.mod_lt sum hcyl
  unfold nextEnd
  split <;> omega

theorem nextEnd_le {cyl : Nat} (hcyl : 0 < cyl) (l : LongSize) (start sum : Nat) :
    nextEnd l cyl start sum ≤ sum + 2 * cyl := by
  have hmod := Nat.mod_lt (2 ^ 32 - sum) hcyl
  unfold nextEnd
  split <;> omega

/-- An end is a cylinder boundary, but for the remainder of 2 ^ 32. -/
theorem dvd_nextEnd_iff {cyl start sum : Nat} (hcyl : 0 < cyl) (l : LongSize) (hsum : sum ≤ 2 ^ 32) :
    cyl ∣ nextEnd l cyl start sum ↔ ¬ Wraps l start sum ∨ cyl ∣ 2 ^ 32 := by
  unfold nextEnd
  split
  · rename_i hwraps
    -- the sum and what is added to it make 2 ^ 32, less a multiple
    have hdiv := Nat.div_add_mod (2 ^ 32 - sum) cyl
    have hsplit : sum + cyl + (2 ^ 32 - sum) % cyl + cyl * ((2 ^ 32 - sum) / cyl) = 2 ^ 32 + cyl := by omega
    rw [← Nat.dvd_add_left (Nat.dvd_mul_right cyl ((2 ^ 32 - sum) / cyl)), hsplit,
      Nat.dvd_add_left (Nat.dvd_refl cyl)]
    simp [hwraps]
  · rename_i hwraps
    have hdiv := Nat.div_add_mod sum cyl
    have hmul : sum + cyl - sum % cyl = cyl * (sum / cyl + 1) := by
      rw [Nat.mul_add, Nat.mul_one]
      omega
    rw [hmul]
    exact iff_of_true (Nat.dvd_mul_right _ _) (Or.inl hwraps)

/-! ## One partition -/

theorem wrap32_natCast {n : Nat} (h : n < 2 ^ 32) :
    wrap32 (n : Int) = if n < 2 ^ 31 then (n : Int) else n - 2 ^ 32 := by
  unfold wrap32
  split <;> omega

theorem wrap32_congr {x y : Int} (h : x % 2 ^ 32 = y % 2 ^ 32) : wrap32 x = wrap32 y := by
  unfold wrap32
  omega

theorem toUlong_mod (l : LongSize) (x : Int) : l.toUlong x % 2 ^ 32 = x % 2 ^ 32 := by
  cases l
  · simp only [LongSize.toUlong, LongSize.bits]
    omega
  · simp only [LongSize.toUlong, LongSize.bits]
    omega

/-- What `round_to_cyl` gets. -/
theorem toLong_sum (l : LongSize) {start size : Nat} (h : start + 2 * size < 2 ^ 32) :
    l.toLong (wrap32 start + size * 2) =
      if Wraps l start (start + 2 * size) then ((start + 2 * size : Nat) : Int) - 2 ^ 32
      else ((start + 2 * size : Nat) : Int) := by
  rw [wrap32_natCast (by omega)]
  by_cases hwraps : Wraps l start (start + 2 * size)
  · rw [if_pos hwraps]
    cases l
    · simp only [LongSize.toLong, LongSize.bits, Wraps] at hwraps ⊢
      split <;> omega
    · simp only [LongSize.toLong, LongSize.bits, Wraps] at hwraps ⊢
      split <;> omega
  · rw [if_neg hwraps]
    cases l
    · simp only [LongSize.toLong, LongSize.bits, Wraps] at hwraps ⊢
      split <;> omega
    · simp only [LongSize.toLong, LongSize.bits, Wraps] at hwraps ⊢
      split <;> omega

theorem tmod_sub {sum cyl : Nat} (h : sum ≤ 2 ^ 32) :
    ((sum : Int) - 2 ^ 32).tmod cyl = -(((2 ^ 32 - sum) % cyl : Nat) : Int) := by
  have hneg : (sum : Int) - 2 ^ 32 = -((2 ^ 32 - sum : Nat) : Int) := by omega
  rw [hneg, Int.neg_tmod]
  rfl

/-- The new sector of the loop, modulo 2 ^ 32. -/
theorem roundToCyl_mod (l : LongSize) {heads sectors start size : Nat} (hcyl : 0 < heads * sectors)
    (h : start + 2 * size + 2 * (heads * sectors) < 2 ^ 32) :
    roundToCyl l ⟨heads, sectors⟩ (l.toLong (wrap32 start + size * 2)) % 2 ^ 32 =
      nextEnd l (heads * sectors) start (start + 2 * size) := by
  have hle := nextEnd_le hcyl l start (start + 2 * size)
  have hcast : (heads : Int) * sectors = ((heads * sectors : Nat) : Int) := rfl
  rw [roundToCyl, toUlong_mod, toLong_sum l (by omega)]
  simp only [hcast]
  unfold nextEnd at hle ⊢
  split
  · rw [tmod_sub (by omega)]
    split at hle
    · omega
    · contradiction
  · have hmod : (((start + 2 * size : Nat) : Int)).tmod ((heads * sectors : Nat) : Int) =
        ((start + 2 * size) % (heads * sectors) : Nat) := rfl
    have hlt := Nat.mod_lt (start + 2 * size) hcyl
    rw [hmod]
    split at hle
    · contradiction
    · omega

theorem wrap32_mod (x : Int) : wrap32 x % 2 ^ 32 = x % 2 ^ 32 := by
  unfold wrap32
  omega

theorem toUint_wrap32 (x : Int) : (toUint (wrap32 x)).toNat = (x % 2 ^ 32).toNat := by
  rw [toUint, wrap32_mod, UInt32.toNat_ofNat', Nat.mod_eq_of_lt (by omega)]

theorem pteOf_start (g : Geometry) (active : Int) (i : Nat) (type : UInt8) (start len : Int) :
    (pteOf g active i type start len).start = toUint start := rfl

theorem pteOf_length (g : Geometry) (active : Int) (i : Nat) (type : UInt8) (start len : Int) :
    (pteOf g active i type start len).length = toUint len := rfl

/-- The start depends on the running sector modulo 2 ^ 32. -/
theorem start_congr (l : LongSize) (sectors : Nat) {sect : Int} {t : Nat} (ht : sect % 2 ^ 32 = t) :
    wrap32 (l.toUlong (sect + sectors)) = wrap32 ((t + sectors : Nat) : Int) := by
  apply wrap32_congr
  rw [toUlong_mod]
  omega

section Entry

theorem start_toNat {start : Nat} (h : start < 2 ^ 32) : (toUint (wrap32 (start : Int))).toNat = start := by
  rw [toUint_wrap32]
  omega

variable {start e : Nat} {next : Int} (hnext : next % 2 ^ 32 = e) (hle : start ≤ e)
include hnext hle

theorem length_toNat : (toUint (wrap32 (next - wrap32 (start : Int)))).toNat = e - start := by
  have hmod := wrap32_mod (start : Int)
  rw [toUint_wrap32]
  omega

/-- The last sector, as long as nothing overflows. -/
theorem last_eq (hsmall : e < 2 ^ 31) :
    wrap32 (wrap32 (start : Int) + wrap32 (next - wrap32 (start : Int)) - 1) = (e : Int) - 1 := by
  have hstart : wrap32 (start : Int) = start := wrap32_of_range (by omega) (by omega)
  have hlen : wrap32 (next - start) = (e : Int) - start := by
    unfold wrap32
    omega
  rw [hstart, hlen, wrap32_of_range (by omega) (by omega)]
  omega

end Entry

/-- The CHS values of an entry denote its first and its last sector. -/
def Pte.Denotes (heads sectors : Nat) (e : Pte) : Prop :=
  e.chsStart.Valid heads sectors ∧ e.chsStart.lba heads sectors = e.start.toNat ∧
    e.chsEnd.Valid heads sectors ∧ e.chsEnd.lba heads sectors = e.start.toNat + e.length.toNat - 1

/-- The entries stand in a row; each one begins a track behind the end of the
one before. -/
def Layout (l : LongSize) (heads sectors : Nat) : Nat → List PartInfo → List Pte → Prop
  | _, [], es => es = []
  | t, p :: ps, es => ∃ e es', es = e :: es' ∧ e.start.toNat = t + sectors ∧
      e.start.toNat + e.length.toNat =
        nextEnd l (heads * sectors) (t + sectors) (t + sectors + 2 * p.size) ∧
      (e.start.toNat + e.length.toNat ≤ 1024 * (heads * sectors) → e.Denotes heads sectors) ∧
      Layout l heads sectors (e.start.toNat + e.length.toNat) ps es'

theorem cylinder_lt {heads sectors n : Nat} (h : n < 1024 * (heads * sectors)) :
    n / sectors / heads < 1024 := by
  rw [Nat.div_div_eq_div_mul, Nat.mul_comm sectors]
  exact Nat.div_lt_of_lt_mul (by rwa [Nat.mul_comm])

/-- The most that a list of partitions takes. -/
def room (heads sectors : Nat) (parts : List PartInfo) : Nat :=
  (parts.map fun p => sectors + 2 * p.size + 2 * (heads * sectors)).sum

/-- An entry from `start` to `e`. -/
theorem pteOf_spec {heads sectors : Nat} (hheads : 0 < heads) (hheads' : heads ≤ 255) (hsectors : 0 < sectors)
    (hsectors' : sectors ≤ 63) (active : Int) (i : Nat) (type : UInt8) {start e : Nat} {next : Int}
    (hnext : next % 2 ^ 32 = e) (hlt : start < e) (he : e < 2 ^ 32) {entry : Pte}
    (hentry : entry = pteOf ⟨heads, sectors⟩ active i type (wrap32 (start : Int))
      (wrap32 (next - wrap32 (start : Int)))) :
    entry.start.toNat = start ∧ entry.start.toNat + entry.length.toNat = e ∧
      (e ≤ 1024 * (heads * sectors) → entry.Denotes heads sectors) := by
  have hstart : entry.start.toNat = start := by
    rw [hentry, pteOf_start, start_toNat (Nat.lt_trans hlt he)]
  have hsum : entry.start.toNat + entry.length.toNat = e := by
    rw [hstart, hentry, pteOf_length, length_toNat hnext (Nat.le_of_lt hlt), Nat.add_sub_cancel' (Nat.le_of_lt hlt)]
  refine ⟨hstart, hsum, fun hsmall => ?_⟩
  have hcyl : heads * sectors ≤ 255 * 63 := Nat.mul_le_mul hheads' hsectors'
  have hwrapStart : wrap32 (start : Int) = start := wrap32_of_range (by omega) (by omega)
  have hlast : wrap32 (wrap32 (start : Int) + wrap32 (next - wrap32 (start : Int)) - 1) =
      ((e - 1 : Nat) : Int) := by
    rw [last_eq hnext (Nat.le_of_lt hlt) (by omega)]
    omega
  obtain ⟨hvalid, hlba⟩ := toChs_lba hheads hheads' hsectors hsectors'
    (cylinder_lt (show start < 1024 * (heads * sectors) by omega))
  obtain ⟨hvalid', hlba'⟩ := toChs_lba hheads hheads' hsectors hsectors'
    (cylinder_lt (show e - 1 < 1024 * (heads * sectors) by omega))
  have hchsStart : entry.chsStart = toChs ⟨heads, sectors⟩ start := by
    rw [hentry, pteOf, hwrapStart]
  have hchsEnd : entry.chsEnd = toChs ⟨heads, sectors⟩ ((e - 1 : Nat) : Int) := by
    rw [hentry, pteOf, hlast]
  rw [Pte.Denotes, hsum, hstart, hchsStart, hchsEnd]
  exact ⟨hvalid, hlba, hvalid', hlba'⟩

theorem room_eq (heads sectors : Nat) (parts : List PartInfo) :
    room heads sectors parts =
      (parts.map fun p => 2 * p.size).sum + parts.length * (sectors + 2 * (heads * sectors)) := by
  induction parts with
  | nil => simp [room]
  | cons p ps ih =>
      rw [room, List.map_cons, List.sum_cons, ← room, ih, List.map_cons, List.sum_cons, List.length_cons,
        Nat.add_mul, Nat.one_mul]
      omega

theorem genEntries_layout {l : LongSize} {heads sectors : Nat} (hheads : 0 < heads) (hheads' : heads ≤ 255)
    (hsectors : 0 < sectors) (hsectors' : sectors ≤ 63) (active : Int) {parts : List PartInfo}
    (hsizes : ∀ p ∈ parts, 0 < p.size) (i : Nat) {sect : Int} {t : Nat} (ht : sect % 2 ^ 32 = t)
    (hroom : t + room heads sectors parts < 2 ^ 32) :
    ∃ es, genEntries l ⟨heads, sectors⟩ active i sect parts = some es ∧ Layout l heads sectors t parts es := by
  induction parts generalizing i sect t with
  | nil => exact ⟨[], rfl, rfl⟩
  | cons p ps ih =>
      obtain ⟨hp, hps⟩ := List.forall_mem_cons.mp hsizes
      rw [room, List.map_cons, List.sum_cons, ← room] at hroom
      have hcyl : 0 < heads * sectors := Nat.mul_pos hheads hsectors
      have hcyl' : heads * sectors ≤ 255 * 63 := Nat.mul_le_mul hheads' hsectors'
      have hlt := lt_nextEnd hcyl l (t + sectors) (t + sectors + 2 * p.size)
      have hle := nextEnd_le hcyl l (t + sectors) (t + sectors + 2 * p.size)
      have hfits : t + sectors + 2 * p.size + 2 * (heads * sectors) < 2 ^ 32 := by omega
      have hrest : nextEnd l (heads * sectors) (t + sectors) (t + sectors + 2 * p.size) +
          room heads sectors ps < 2 ^ 32 := by omega
      have hbehind := Nat.lt_of_le_of_lt (Nat.le_add_right (t + sectors) (2 * p.size)) hlt
      have hend := roundToCyl_mod l hcyl hfits
      obtain ⟨es, hes, hlayout⟩ := ih hps (i + 1) hend hrest
      obtain ⟨hstartNat, hsum, hdenotes⟩ := pteOf_spec hheads hheads' hsectors hsectors' active i p.type hend
        hbehind (Nat.lt_of_le_of_lt (Nat.le_add_right _ _) hrest) rfl
      refine ⟨_ :: es, ?_, _, es, rfl, hstartNat, hsum, ?_, ?_⟩
      · rw [genEntries, if_neg (Nat.ne_of_gt hp)]
        simp only [start_congr l sectors ht, hes, Option.map_eq_map, Option.map_some]
      · rw [hsum]
        exact hdenotes
      · rw [hsum]
        exact hlayout

/-! ## The table -/

/-- The entry at the beginning of some bytes. -/
def readPte : List UInt8 → Pte
  | a :: s0 :: s1 :: s2 :: t :: e0 :: e1 :: e2 :: l =>
      ⟨a, ⟨s0, s1, s2⟩, t, ⟨e0, e1, e2⟩, ofLe32 (l.take 4), ofLe32 ((l.drop 4).take 4)⟩
  | _ => Pte.zero

/-- The first `n` entries in some bytes. -/
def readEntries : Nat → List UInt8 → List Pte
  | 0, _ => []
  | n + 1, bs => readPte bs :: readEntries n (bs.drop 16)

/-- The first `n` entries of the table in a boot sector. -/
def readTable (n : Nat) (file : List UInt8) : List Pte := readEntries n (file.drop 446)

theorem Pte.bytes_length (e : Pte) : e.bytes.length = 16 := by
  simp [bytes, Chs.bytes]

theorem readPte_bytes (e : Pte) (l : List UInt8) : readPte (e.bytes ++ l) = e := by
  simp only [Pte.bytes, Chs.bytes, List.cons_append, List.nil_append, List.append_assoc, readPte]
  rw [List.take_left' (le32_length _), List.drop_left' (le32_length _), List.take_left' (le32_length _),
    ofLe32_le32, ofLe32_le32]

theorem readEntries_flatMap (es : List Pte) (l : List UInt8) :
    readEntries es.length (es.flatMap Pte.bytes ++ l) = es := by
  induction es with
  | nil => rfl
  | cons e es ih =>
      rw [List.length_cons, readEntries, List.flatMap_cons, List.append_assoc, readPte_bytes,
        List.drop_left' e.bytes_length, ih]

theorem flatMap_bytes_length (es : List Pte) : (es.flatMap Pte.bytes).length = 16 * es.length := by
  induction es with
  | nil => rfl
  | cons e es ih =>
      rw [List.flatMap_cons, List.length_append, e.bytes_length, ih, List.length_cons]
      omega

/-- The table that is read back is the one that was filled in. -/
theorem genPtable_eq {l : LongSize} {g : Geometry} {active : Int} {parts : List PartInfo} {es : List Pte}
    (hes : genEntries l g active 0 0 parts = some es) (hlen : es.length ≤ 4) :
    ∃ file, genPtable l g active parts = some file ∧ readTable es.length file = es := by
  have htable : ((es ++ List.replicate (4 - es.length) Pte.zero).flatMap Pte.bytes).length = 64 := by
    rw [flatMap_bytes_length, List.length_append, List.length_replicate, Nat.add_sub_cancel' hlen]
  have hsplit : (es ++ List.replicate (4 - es.length) Pte.zero).flatMap Pte.bytes ++ [0x55, 0xaa] =
      es.flatMap Pte.bytes ++
        ((List.replicate (4 - es.length) Pte.zero).flatMap Pte.bytes ++ [0x55, 0xaa]) := by
    rw [List.flatMap_append, List.append_assoc]
  rw [genPtable, hes, Option.map_some]
  refine ⟨_, rfl, ?_⟩
  dsimp only
  generalize (es ++ List.replicate (4 - es.length) Pte.zero).flatMap Pte.bytes = table at *
  have hne : table ≠ [] := by
    intro h
    rw [h] at htable
    exact absurd htable (by decide)
  have hend : (List.replicate 446 (0 : UInt8) ++ table).length = 510 := by
    rw [List.length_append, List.length_replicate, htable]
  have hsig := Stream.write_end (List.replicate 446 0 ++ table) [0x55, 0xaa]
  rw [hend] at hsig
  rw [Stream.write_hole hne, Stream.seek, hsig, List.append_assoc, hsplit, readTable,
    List.drop_left' List.length_replicate, readEntries_flatMap]

/-- What a table should be: the entries are in order and do not overlap, none
has sector 0, each has at least the requested size (in units of 1024 bytes) and
ends on a cylinder boundary, and below cylinder 1024 the CHS values are right. -/
structure TableOk (heads sectors : Nat) (sizes : List Nat) (es : List Pte) : Prop where
  ordered : es.Pairwise fun a b => a.start.toNat + a.length.toNat ≤ b.start.toNat
  behind : ∀ e ∈ es, 0 < e.start.toNat
  large : List.Forall₂ (fun (size : Nat) (e : Pte) => 2 * size ≤ e.length.toNat) sizes es
  cylinders : ∀ e ∈ es, heads * sectors ∣ e.start.toNat + e.length.toNat
  chs : ∀ e ∈ es, (e.start.toNat + e.length.toNat - 1) / (heads * sectors) < 1024 → e.Denotes heads sectors

/-- Every partition that begins at `e` or behind it can be rounded without an
overflow. -/
def Rounds (l : LongSize) (cyl sectors : Nat) : Nat → List Nat → Prop
  | _, [] => True
  | e, size :: sizes =>
      ¬ Wraps l (e + sectors) (e + sectors + 2 * size) ∧
        Rounds l cyl sectors ((e + sectors + 2 * size) / cyl * cyl + cyl) sizes

/-- Entries in a row begin a track behind `t`, in order. -/
theorem Layout.ordered {l : LongSize} {heads sectors : Nat} {parts : List PartInfo} {t : Nat} {es : List Pte}
    (h : Layout l heads sectors t parts es) :
    (∀ e ∈ es, t + sectors ≤ e.start.toNat) ∧
      es.Pairwise fun a b => a.start.toNat + a.length.toNat ≤ b.start.toNat := by
  induction parts generalizing t es with
  | nil =>
      obtain rfl : es = [] := h
      exact ⟨by simp, List.Pairwise.nil⟩
  | cons p ps ih =>
      obtain ⟨e, es', rfl, hstart, -, -, hrest⟩ := h
      obtain ⟨hbehind, hordered⟩ := ih hrest
      have hafter (b : Pte) (hb : b ∈ es') : e.start.toNat + e.length.toNat ≤ b.start.toNat :=
        Nat.le_of_add_right_le (hbehind b hb)
      refine ⟨?_, List.pairwise_cons.mpr ⟨hafter, hordered⟩⟩
      rw [List.forall_mem_cons]
      refine ⟨hstart.ge, fun b hb => ?_⟩
      have hle := hafter b hb
      omega

theorem Layout.large {l : LongSize} {heads sectors : Nat} (hcyl : 0 < heads * sectors)
    {parts : List PartInfo} {t : Nat} {es : List Pte} (h : Layout l heads sectors t parts es) :
    List.Forall₂ (fun (size : Nat) (e : Pte) => 2 * size ≤ e.length.toNat) (parts.map (·.size)) es := by
  induction parts generalizing t es with
  | nil =>
      obtain rfl : es = [] := h
      exact List.Forall₂.nil
  | cons p ps ih =>
      obtain ⟨e, es', rfl, hstart, hend, -, hrest⟩ := h
      have hlt := lt_nextEnd hcyl l (t + sectors) (t + sectors + 2 * p.size)
      refine List.Forall₂.cons ?_ (ih hrest)
      show 2 * p.size ≤ e.length.toNat
      omega

theorem Layout.length {l : LongSize} {heads sectors : Nat} {parts : List PartInfo} {t : Nat} {es : List Pte}
    (h : Layout l heads sectors t parts es) : es.length = parts.length := by
  induction parts generalizing t es with
  | nil =>
      obtain rfl : es = [] := h
      rfl
  | cons p ps ih =>
      obtain ⟨e, es', rfl, -, -, -, hrest⟩ := h
      rw [List.length_cons, List.length_cons, ih hrest]

theorem Layout.chs {l : LongSize} {heads sectors : Nat} (hcyl : 0 < heads * sectors)
    {parts : List PartInfo} {t : Nat} {es : List Pte} (h : Layout l heads sectors t parts es) :
    ∀ e ∈ es, (e.start.toNat + e.length.toNat - 1) / (heads * sectors) < 1024 → e.Denotes heads sectors := by
  induction parts generalizing t es with
  | nil =>
      obtain rfl : es = [] := h
      simp
  | cons p ps ih =>
      obtain ⟨e, es', rfl, -, hend, hdenotes, hrest⟩ := h
      rw [List.forall_mem_cons]
      refine ⟨fun hsmall => hdenotes ?_, ih hrest⟩
      rw [Nat.div_lt_iff_lt_mul hcyl] at hsmall
      omega

/-- All ends are cylinder boundaries, if nothing overflows or it does not matter. -/
theorem Layout.cylinders_iff {l : LongSize} {heads sectors : Nat} (hcyl : 0 < heads * sectors)
    {parts : List PartInfo} {t : Nat} {es : List Pte} (h : Layout l heads sectors t parts es)
    (hroom : t + room heads sectors parts < 2 ^ 32) :
    (∀ e ∈ es, heads * sectors ∣ e.start.toNat + e.length.toNat) ↔
      Rounds l (heads * sectors) sectors t (parts.map (·.size)) ∨ heads * sectors ∣ 2 ^ 32 := by
  induction parts generalizing t es with
  | nil =>
      obtain rfl : es = [] := h
      simp [Rounds]
  | cons p ps ih =>
      obtain ⟨e, es', rfl, -, hend, -, hrest⟩ := h
      rw [room, List.map_cons, List.sum_cons, ← room] at hroom
      have hle := nextEnd_le hcyl l (t + sectors) (t + sectors + 2 * p.size)
      have hsum : t + sectors + 2 * p.size ≤ 2 ^ 32 := by omega
      have hiff := @dvd_nextEnd_iff _ (t + sectors) _ hcyl l hsum
      rw [List.forall_mem_cons, ih hrest (by omega), hend, hiff, List.map_cons, Rounds]
      by_cases hwraps : Wraps l (t + sectors) (t + sectors + 2 * p.size)
      · tauto
      · have hnext : nextEnd l (heads * sectors) (t + sectors) (t + sectors + 2 * p.size) =
            (t + sectors + 2 * p.size) / (heads * sectors) * (heads * sectors) + heads * sectors := by
          have hdiv := Nat.div_add_mod (t + sectors + 2 * p.size) (heads * sectors)
          have hle := Nat.mod_lt (t + sectors + 2 * p.size) hcyl
          rw [nextEnd, if_neg hwraps, Nat.mul_comm ((t + sectors + 2 * p.size) / _)]
          omega
        rw [hnext]
        tauto

/-- The table is right if and only if no partition begins at 2 ^ 31 or beyond
it (where `long` is short, none reaches it with its size), or the size of a
cylinder divides 2 ^ 32. -/
theorem genPtable_tableOk_iff (l : LongSize) (heads sectors : Nat) (active : Int) (parts : List PartInfo)
    (hheads : 1 ≤ heads ∧ heads ≤ 255) (hsectors : 1 ≤ sectors ∧ sectors ≤ 63)
    (hparts : 1 ≤ parts.length ∧ parts.length ≤ 4) (hsizes : ∀ p ∈ parts, 0 < p.size)
    (htotal : (parts.map fun p => 2 * p.size).sum < 2 ^ 31) :
    (∃ file, genPtable l ⟨heads, sectors⟩ active parts = some file ∧
        TableOk heads sectors (parts.map (·.size)) (readTable parts.length file)) ↔
      Rounds l (heads * sectors) sectors 0 (parts.map (·.size)) ∨ heads * sectors ∣ 2 ^ 32 := by
  have hcyl : 0 < heads * sectors := Nat.mul_pos hheads.1 hsectors.1
  have hcyl' : heads * sectors ≤ 255 * 63 := Nat.mul_le_mul hheads.2 hsectors.2
  have hroom : 0 + room heads sectors parts < 2 ^ 32 := by
    have hsum := room_eq heads sectors parts
    have hmul := Nat.mul_le_mul hparts.2 (show sectors + 2 * (heads * sectors) ≤ 63 + 2 * (255 * 63) by omega)
    omega
  obtain ⟨es, hes, hlayout⟩ := genEntries_layout (l := l) hheads.1 hheads.2 hsectors.1 hsectors.2 active hsizes 0
    (show (0 : Int) % 2 ^ 32 = (0 : Nat) from rfl) hroom
  have hlen := hlayout.length
  obtain ⟨file, hfile, htable⟩ := genPtable_eq hes (by omega)
  rw [hlen] at htable
  rw [← hlayout.cylinders_iff hcyl hroom]
  constructor
  · rintro ⟨file', hfile', hok⟩
    obtain rfl := Option.some.inj (hfile.symm.trans hfile')
    rw [htable] at hok
    exact hok.cylinders
  · intro hcylinders
    refine ⟨file, hfile, ?_⟩
    rw [htable]
    obtain ⟨hbehind, hordered⟩ := hlayout.ordered
    exact {
      ordered := hordered
      behind := fun e he => Nat.lt_of_lt_of_le (Nat.lt_add_left 0 hsectors.1) (hbehind e he)
      large := hlayout.large hcyl
      cylinders := hcylinders
      chs := hlayout.chs hcyl }

/-- A small disk. -/
theorem genPtable_tableOk_small :
    ∃ file, genPtable .lp64 ⟨(16 : Nat), (63 : Nat)⟩ 1 [⟨4096, 0x83⟩, ⟨1, 0x83⟩] = some file ∧
      TableOk 16 63 [4096, 1] (readTable 2 file) :=
  (genPtable_tableOk_iff .lp64 16 63 1 [⟨4096, 0x83⟩, ⟨1, 0x83⟩] (by decide) (by decide)
    (by decide) (by decide) (by decide)).mpr (Or.inl (by simp [Rounds, Wraps]))

/-- A large partition, and a small one that begins behind 2 ^ 31. -/
def largeParts : List PartInfo := [⟨2 ^ 30 - 8, 0x83⟩, ⟨4, 0x83⟩]

/-- The end of the second partition is not a cylinder boundary. -/
theorem genPtable_not_tableOk :
    (largeParts.map fun p => 2 * p.size).sum < 2 ^ 31 ∧
      ∃ file, genPtable .lp64 ⟨16, 63⟩ 1 largeParts = some file ∧
        ¬ TableOk 16 63 (largeParts.map (·.size)) (readTable largeParts.length file) := by
  have hes : ∃ es, genEntries .lp64 ⟨16, 63⟩ 1 0 0 largeParts = some es ∧ es.length = 2 ∧
      ∃ e ∈ es, ¬ 16 * 63 ∣ e.start.toNat + e.length.toNat := by decide +kernel
  obtain ⟨es, hes, hlen, e, he, hoff⟩ := hes
  obtain ⟨file, hfile, htable⟩ := genPtable_eq hes (by omega)
  rw [hlen] at htable
  refine ⟨by decide, file, hfile, fun hok => ?_⟩
  rw [show largeParts.length = 2 from rfl, htable] at hok
  exact hoff (hok.cylinders e he)

end UbntSdk.Images.Ptgen
