/-
UbntSdk.Lib.Words — words of any width as bytes, and turning them round.

`leBytes w n` are the `w` low bytes of `n`, least significant first;
`le16`, `le32` and `le64` are three cases of it. A function that turns the
bytes of a word round is recognised by its bits (`leBytes_eq_reverse`).

`load16?` … `store64?` access a word in a buffer in the order of the host.
In a buffer that is an append of its parts, `load16?_skip` walks past a part
and `load16?_head` reads one.

Facts about bytes are proved by induction on their number, for every width at
once, and those about words are the cases of the two orders. `leBytes_eq_reverse`
compares bit by bit, so that shifts and masks need no arithmetic.

Nothing in this module names a program.
-/
import UbntSdk.Lib.Memory

namespace UbntSdk.Lib

/-! ## Bytes of a number -/

/-- The `w` low bytes of `n`, least significant first. -/
def leBytes : Nat → Nat → List UInt8
  | 0, _ => []
  | w + 1, n => UInt8.ofNat n :: leBytes w (n / 2 ^ 8)

/-- The number with these bytes. -/
def ofLeBytes : List UInt8 → Nat
  | [] => 0
  | b :: bs => b.toNat + 2 ^ 8 * ofLeBytes bs

@[simp] theorem leBytes_length (w n : Nat) : (leBytes w n).length = w := by
  induction w generalizing n with
  | zero => rfl
  | succ w ih => simp [leBytes, ih]

/-- The `k`-th byte of a number. -/
theorem leBytes_getElem (w n k : Nat) (h : k < (leBytes w n).length) :
    (leBytes w n)[k] = UInt8.ofNat (n / 2 ^ (8 * k)) := by
  induction w generalizing n k with
  | zero => simp [leBytes] at h
  | succ w ih =>
      cases k with
      | zero => simp [leBytes]
      | succ k =>
          simp only [leBytes, List.getElem_cons_succ]
          rw [ih, Nat.div_div_eq_div_mul, ← Nat.pow_add]
          congr 3
          omega

/-- The bytes of the number with these bytes. -/
theorem leBytes_ofLeBytes (bs : List UInt8) : leBytes bs.length (ofLeBytes bs) = bs := by
  induction bs with
  | nil => rfl
  | cons b bs ih =>
      have hb := b.toNat_lt
      have hlow : UInt8.ofNat (b.toNat + 2 ^ 8 * ofLeBytes bs) = b := by
        apply UInt8.toNat_inj.mp
        rw [UInt8.toNat_ofNat']
        omega
      have hhigh : (b.toNat + 2 ^ 8 * ofLeBytes bs) / 2 ^ 8 = ofLeBytes bs := by omega
      simp only [ofLeBytes, List.length_cons, leBytes, hlow, hhigh, ih]

/-- The number with the low bytes of a number is cut to their width. -/
theorem ofLeBytes_leBytes (w n : Nat) : ofLeBytes (leBytes w n) = n % 2 ^ (8 * w) := by
  induction w generalizing n with
  | zero => simp [leBytes, ofLeBytes, Nat.mod_one]
  | succ w ih =>
      rw [leBytes, ofLeBytes, ih, UInt8.toNat_ofNat', Nat.mul_succ, Nat.add_comm (8 * w),
        Nat.pow_add, Nat.mod_mul]

/-- Eight bits make a byte. -/
theorem ofNat_div_eq {m n j k : Nat} (h : ∀ i < 8, m.testBit (j + i) = n.testBit (k + i)) :
    UInt8.ofNat (m / 2 ^ j) = UInt8.ofNat (n / 2 ^ k) := by
  apply UInt8.toNat_inj.mp
  rw [UInt8.toNat_ofNat', UInt8.toNat_ofNat']
  apply Nat.eq_of_testBit_eq
  intro i
  rw [Nat.testBit_mod_two_pow, Nat.testBit_mod_two_pow, Nat.testBit_div_two_pow,
    Nat.testBit_div_two_pow]
  by_cases hi : i < 8
  · simp [hi, Nat.add_comm i, h i hi]
  · simp [hi]

/-- The bytes are turned round when the bits of each are found in the byte
on the other side. -/
theorem leBytes_eq_reverse {w m n : Nat}
    (h : ∀ k < w, ∀ i < 8, m.testBit (8 * k + i) = n.testBit (8 * (w - 1 - k) + i)) :
    leBytes w m = (leBytes w n).reverse := by
  refine List.ext_getElem (by simp) fun k hk hk' => ?_
  rw [List.getElem_reverse, leBytes_getElem, leBytes_getElem, leBytes_length]
  rw [leBytes_length] at hk
  exact ofNat_div_eq (h k hk)

theorem le16_eq (x : UInt16) : le16 x = leBytes 2 x.toNat := rfl

theorem le32_eq (x : UInt32) : le32 x = leBytes 4 x.toNat := by
  simp [le32, be32, leBytes, Nat.div_div_eq_div_mul]

/-! ## Words of 64 bits -/

/-- A word of 64 bits as the host stores it. -/
def word64 (e : ByteOrder) (x : UInt64) : List UInt8 :=
  match e with
  | .big => (leBytes 8 x.toNat).reverse
  | .little => leBytes 8 x.toNat

/-- The word the host reads from these bytes. -/
def ofWord64 (e : ByteOrder) (bs : List UInt8) : UInt64 :=
  match e with
  | .big => UInt64.ofNat (ofLeBytes bs.reverse)
  | .little => UInt64.ofNat (ofLeBytes bs)

@[simp] theorem word64_length (e : ByteOrder) (x : UInt64) : (word64 e x).length = 8 := by
  cases e <;> simp [word64]

/-- A word that is stored is read back. -/
@[simp] theorem ofWord64_word64 (e : ByteOrder) (x : UInt64) : ofWord64 e (word64 e x) = x := by
  have hx : UInt64.ofNat (ofLeBytes (leBytes 8 x.toNat)) = x := by
    rw [ofLeBytes_leBytes, Nat.mod_eq_of_lt x.toNat_lt, UInt64.ofNat_toNat]
  cases e <;> simp [ofWord64, word64, hx]

/-! ## The other byte order -/

/-- The other order. -/
def ByteOrder.flip : ByteOrder → ByteOrder
  | .big => .little
  | .little => .big

@[simp] theorem ByteOrder.flip_flip (e : ByteOrder) : e.flip.flip = e := by cases e <;> rfl

theorem ByteOrder.eq_flip_of_ne {e e' : ByteOrder} (h : e ≠ e') : e' = e.flip := by
  cases e <;> cases e' <;> simp_all [flip]

/-- A word in the other order is turned round, at every width. -/
theorem word16_flip (e : ByteOrder) (x : UInt16) : word16 e.flip x = (word16 e x).reverse := by
  cases e <;> simp [word16, ByteOrder.flip]

theorem word32_flip (e : ByteOrder) (x : UInt32) : word32 e.flip x = (word32 e x).reverse := by
  cases e <;> simp [word32, le32, ByteOrder.flip]

theorem word64_flip (e : ByteOrder) (x : UInt64) : word64 e.flip x = (word64 e x).reverse := by
  cases e <;> simp [word64, ByteOrder.flip]

/-! Any bytes of the right number are those of a word. -/

/-- Two bytes are those of the word that is read from them. -/
theorem le16_ofLe16 (a b : UInt8) : le16 (ofLe16 [a, b]) = [a, b] := by
  have ha := a.toNat_lt
  have hb := b.toNat_lt
  simp only [le16, ofLe16, UInt16.toNat_ofNat', List.cons.injEq, and_true, ← UInt8.toNat_inj,
    UInt8.toNat_ofNat']
  omega

theorem word16_ofWord16 (e : ByteOrder) {bs : List UInt8} (h : bs.length = 2) :
    word16 e (ofWord16 e bs) = bs := by
  match bs, h with
  | [a, b], _ => cases e <;> simp [word16, ofWord16, le16_ofLe16]

theorem word32_ofWord32 (e : ByteOrder) {bs : List UInt8} (h : bs.length = 4) :
    word32 e (ofWord32 e bs) = bs := by
  match bs, h with
  | [a, b, c, d], _ => cases e <;> simp [word32, ofWord32, le32, ofLe32, be32_ofBe32]

/-- Eight bytes are those of the word that is read from them. -/
theorem leBytes_ofNat_ofLeBytes {bs : List UInt8} (h : bs.length = 8) :
    leBytes 8 (UInt64.ofNat (ofLeBytes bs)).toNat = bs := by
  have hback := leBytes_ofLeBytes bs
  have hmod := ofLeBytes_leBytes bs.length (ofLeBytes bs)
  rw [hback, h] at hmod
  rw [UInt64.toNat_ofNat', ← hmod, ← h, hback]

theorem word64_ofWord64 (e : ByteOrder) {bs : List UInt8} (h : bs.length = 8) :
    word64 e (ofWord64 e bs) = bs := by
  cases e with
  | big =>
      rw [word64, ofWord64, leBytes_ofNat_ofLeBytes (by simpa using h), List.reverse_reverse]
  | little => rw [word64, ofWord64, leBytes_ofNat_ofLeBytes h]

/-! ## Words in a buffer -/

def load16? (e : ByteOrder) (m : List UInt8) (off : Nat) : Option UInt16 :=
  (peek? m off 2).map (ofWord16 e)

def load32? (e : ByteOrder) (m : List UInt8) (off : Nat) : Option UInt32 :=
  (peek? m off 4).map (ofWord32 e)

def load64? (e : ByteOrder) (m : List UInt8) (off : Nat) : Option UInt64 :=
  (peek? m off 8).map (ofWord64 e)

def store16? (e : ByteOrder) (m : List UInt8) (off : Nat) (x : UInt16) : Option (List UInt8) :=
  poke? m off (word16 e x)

def store32? (e : ByteOrder) (m : List UInt8) (off : Nat) (x : UInt32) : Option (List UInt8) :=
  poke? m off (word32 e x)

def store64? (e : ByteOrder) (m : List UInt8) (off : Nat) (x : UInt64) : Option (List UInt8) :=
  poke? m off (word64 e x)

/-- An access behind a part of the buffer is one in what follows the part. -/
theorem load16?_skip (e : ByteOrder) {a m : List UInt8} {off : Nat} (h : a.length ≤ off) :
    load16? e (a ++ m) off = load16? e m (off - a.length) := by
  rw [load16?, peek?_skip h, load16?]

theorem load32?_skip (e : ByteOrder) {a m : List UInt8} {off : Nat} (h : a.length ≤ off) :
    load32? e (a ++ m) off = load32? e m (off - a.length) := by
  rw [load32?, peek?_skip h, load32?]

/-- An access to a word of any order at the front of the buffer. -/
theorem load16?_head (e o : ByteOrder) (x : UInt16) (post : List UInt8) :
    load16? e (word16 o x ++ post) 0 = some (ofWord16 e (word16 o x)) := by
  rw [load16?, peek?_head (word16_length o x).symm, Option.map_some]

theorem load32?_head (e o : ByteOrder) (x : UInt32) (post : List UInt8) :
    load32? e (word32 o x ++ post) 0 = some (ofWord32 e (word32 o x)) := by
  rw [load32?, peek?_head (word32_length o x).symm, Option.map_some]

end UbntSdk.Lib
