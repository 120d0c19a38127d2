/-
UbntSdk.Lib.Bytes — bounded byte memory, fixed-width words and C strings.

The programs of this tree move bytes through raw buffers: a pointer and a
length the program promises to respect. Here a buffer is a `List UInt8`
and every access goes through `peek?` / `poke?`, which answer `none` when
the access leaves the buffer. A program modelled in the `Option` monad
over these two operations therefore carries its memory safety in its
result: it is `none` exactly when some access was out of bounds.

Words are stored by `be32` / `le32` / `le16`, which are total, and read
back by `u32be?` / `u32le?`, which go through `peek?`. `CStr` is the
content of a NUL-terminated string: a byte list with no zero in it,
`cstr?` reads one from memory.

Nothing in this module names a program.
-/
import Mathlib.Algebra.Order.Ring.Int
import Mathlib.Data.List.TakeWhile
import Mathlib.Tactic.Common

namespace UbntSdk.Lib

/-! ## Bounded reads and writes -/

/-- Read `n` bytes at `off`; `none` when they do not all lie in `m`. -/
def peek? (m : List UInt8) (off n : Nat) : Option (List UInt8) :=
  if off + n ≤ m.length then some ((m.drop off).take n) else none

/-- Overwrite the bytes at `off` with `bs`; `none` when they do not all
lie in `m`. -/
def poke? (m : List UInt8) (off : Nat) (bs : List UInt8) : Option (List UInt8) :=
  if off + bs.length ≤ m.length then
    some (m.take off ++ bs ++ m.drop (off + bs.length))
  else none

theorem peek?_eq_some {m : List UInt8} {off n : Nat} {bs : List UInt8} :
    peek? m off n = some bs ↔ off + n ≤ m.length ∧ bs = (m.drop off).take n := by
  unfold peek?
  split
  · rename_i h; simp [h, eq_comm]
  · rename_i h; simp [h]

theorem peek?_isSome {m : List UInt8} {off n : Nat} :
    (peek? m off n).isSome ↔ off + n ≤ m.length := by
  unfold peek?
  split <;> simp_all

theorem peek?_eq_none {m : List UInt8} {off n : Nat} :
    peek? m off n = none ↔ m.length < off + n := by
  unfold peek?
  split <;> simp_all

/-- The middle of a three-part buffer is read at the length of its first
part. -/
theorem peek?_append (pre mid post : List UInt8) {off n : Nat}
    (hoff : off = pre.length) (hn : n = mid.length) :
    peek? (pre ++ (mid ++ post)) off n = some mid := by
  subst hoff hn
  rw [peek?_eq_some]
  constructor
  · simp only [List.length_append]; omega
  · simp

/-- Writing over the middle of a three-part buffer replaces just that
part. -/
theorem poke?_append (pre mid post bs : List UInt8) {off : Nat}
    (hoff : off = pre.length) (hlen : bs.length = mid.length) :
    poke? (pre ++ (mid ++ post)) off bs = some (pre ++ (bs ++ post)) := by
  subst hoff
  have hle : pre.length + bs.length ≤ (pre ++ (mid ++ post)).length := by
    simp only [List.length_append]; omega
  have hdrop : (pre ++ (mid ++ post)).drop (pre.length + bs.length) = post := by
    rw [hlen, ← List.append_assoc]
    exact List.drop_left' (by simp)
  rw [poke?, if_pos hle, hdrop]
  simp

/-- A buffer is cut at a place inside. -/
theorem exists_split {l : List UInt8} (n m : Nat) (h : l.length = n + m) :
    ∃ a b, a.length = n ∧ b.length = m ∧ l = a ++ b :=
  ⟨l.take n, l.drop n, by simp [h], by simp [h], by simp⟩

/-! Symbolic access: `peek?_skip` / `poke?_skip` walk past the fields in
front of the access, `peek?_head` / `poke?_head` perform it. A struct kept
as an append of its fields is read and written by rewriting with these. -/

theorem peek?_skip {a m : List UInt8} {off n : Nat} (h : a.length ≤ off) :
    peek? (a ++ m) off n = peek? m (off - a.length) n := by
  unfold peek?
  have hiff : off + n ≤ (a ++ m).length ↔ off - a.length + n ≤ m.length := by
    simp only [List.length_append]; omega
  have hdrop : (a ++ m).drop off = m.drop (off - a.length) := by
    rw [List.drop_append, List.drop_eq_nil_of_le h, List.nil_append]
  simp only [hiff, hdrop]

theorem peek?_head {mid post : List UInt8} {n : Nat} (h : n = mid.length) :
    peek? (mid ++ post) 0 n = some mid :=
  peek?_append [] mid post rfl h

theorem peek?_zero (m : List UInt8) : peek? m 0 0 = some [] := by
  simp [peek?]

/-- A read that covers the whole first field goes on behind it. -/
theorem peek?_span {a m : List UInt8} {n : Nat} (h : a.length ≤ n) :
    peek? (a ++ m) 0 n = (peek? m 0 (n - a.length)).map (a ++ ·) := by
  unfold peek?
  by_cases hle : n - a.length ≤ m.length
  · have hn : 0 + n ≤ (a ++ m).length := by simp only [List.length_append]; omega
    rw [if_pos hn, if_pos (by omega), List.drop_zero, List.take_append,
      List.take_of_length_le h]
    rfl
  · have hn : ¬ 0 + n ≤ (a ++ m).length := by simp only [List.length_append]; omega
    rw [if_neg hn, if_neg (by omega)]
    rfl

theorem poke?_skip {a m bs : List UInt8} {off : Nat} (h : a.length ≤ off) :
    poke? (a ++ m) off bs = (poke? m (off - a.length) bs).map (a ++ ·) := by
  unfold poke?
  have hiff : off + bs.length ≤ (a ++ m).length ↔
      off - a.length + bs.length ≤ m.length := by
    simp only [List.length_append]; omega
  by_cases hle : off - a.length + bs.length ≤ m.length
  · have hdrop : (a ++ m).drop (off + bs.length)
        = m.drop (off - a.length + bs.length) := by
      rw [List.drop_append, List.drop_eq_nil_of_le (by omega), List.nil_append]
      congr 1
      omega
    rw [if_pos (hiff.mpr hle), if_pos hle, hdrop, List.take_append,
      List.take_of_length_le h]
    simp
  · rw [if_neg (fun hc => hle (hiff.mp hc)), if_neg hle]
    rfl

theorem poke?_head {mid post bs : List UInt8} (h : bs.length = mid.length) :
    poke? (mid ++ post) 0 bs = some (bs ++ post) :=
  poke?_append [] mid post bs rfl h

theorem poke?_all {m bs : List UInt8} (h : bs.length = m.length) :
    poke? m 0 bs = some bs := by
  simpa using poke?_append [] m [] bs rfl h

/-- A write keeps the buffer's length. -/
theorem poke?_length {m m' : List UInt8} {off : Nat} {bs : List UInt8}
    (h : poke? m off bs = some m') : m'.length = m.length := by
  unfold poke? at h
  split at h
  · cases h
    simp only [List.length_append, List.length_take, List.length_drop]
    omega
  · cases h

/-- A write that succeeds lies in the buffer. -/
theorem poke?_le {m m' : List UInt8} {off : Nat} {bs : List UInt8}
    (h : poke? m off bs = some m') : off + bs.length ≤ m.length := by
  unfold poke? at h
  split at h
  · assumption
  · cases h

/-! ## Runs of accesses -/

/-- `f` works on exactly the buffers of `n` bytes and more, and changes
none of their lengths. -/
def Spans (n : Nat) (f : List UInt8 → Option (List UInt8)) : Prop :=
  ∀ m, (n ≤ m.length → ∃ m', f m = some m' ∧ m'.length = m.length) ∧
    (m.length < n → f m = none)

namespace Spans

variable {n k : Nat} {f : List UInt8 → Option (List UInt8)}

theorem poke (off : Nat) (bs : List UInt8) : Spans (off + bs.length) (poke? · off bs) := by
  intro m
  constructor
  · intro hle
    have hstore : poke? m off bs = some (m.take off ++ bs ++ m.drop (off + bs.length)) :=
      if_pos hle
    exact ⟨_, hstore, poke?_length hstore⟩
  · intro hlt
    exact if_neg (by omega)

/-- What comes after a store is reached with a buffer of the same length. -/
theorem store {off : Nat} {bs : List UInt8} (hend : off + bs.length ≤ n) (hf : Spans n f) :
    Spans n fun m => (poke? m off bs).bind f := by
  intro m
  constructor
  · intro hle
    obtain ⟨m', hm', hlen⟩ := (poke off bs m).1 (by omega)
    obtain ⟨m'', hm'', hlen'⟩ := (hf m').1 (by omega)
    refine ⟨m'', ?_, by omega⟩
    simp only at hm' ⊢
    rw [hm', Option.bind_some, hm'']
  · intro hlt
    beta_reduce
    cases hm : poke? m off bs with
    | none => rfl
    | some m' =>
        have hlen := poke?_length hm
        rw [Option.bind_some, (hf m').2 (by omega)]

/-- A read inside the buffer hands over some bytes. -/
theorem load {off len : Nat} {g : List UInt8 → List UInt8 → Option (List UInt8)}
    (hend : off + len ≤ n) (hg : ∀ bs, Spans n (g bs)) :
    Spans n fun m => (peek? m off len).bind fun bs => g bs m := by
  intro m
  constructor
  · intro hle
    have hload : peek? m off len = some ((m.drop off).take len) := if_pos (by omega)
    obtain ⟨m', hm', hlen⟩ := (hg ((m.drop off).take len) m).1 hle
    refine ⟨m', ?_, hlen⟩
    beta_reduce
    rw [hload, Option.bind_some, hm']
  · intro hlt
    beta_reduce
    cases peek? m off len with
    | none => rfl
    | some bs => rw [Option.bind_some, (hg bs m).2 hlt]

end Spans

/-- One step of a program whose first access succeeds. -/
theorem bind_step {α β : Type} {x : Option α} {a : α} {f : α → Option β} {r : Option β}
    (hx : x = some a) (hf : f a = r) : x.bind f = r := by
  rw [hx, Option.bind_some, hf]

/-! ## Words -/

/-- The four bytes of a 32-bit word, most significant first: what a store
of `htonl(x)` leaves in memory. -/
def be32 (x : UInt32) : List UInt8 :=
  [UInt8.ofNat (x.toNat / 2 ^ 24), UInt8.ofNat (x.toNat / 2 ^ 16),
   UInt8.ofNat (x.toNat / 2 ^ 8), UInt8.ofNat x.toNat]

/-- The four bytes of a 32-bit word, least significant first. -/
def le32 (x : UInt32) : List UInt8 := (be32 x).reverse

/-- The two bytes of a 16-bit word, least significant first. -/
def le16 (x : UInt16) : List UInt8 :=
  [UInt8.ofNat x.toNat, UInt8.ofNat (x.toNat / 2 ^ 8)]

/-- The word whose big-endian bytes are given. -/
def ofBe32 : List UInt8 → UInt32
  | [a, b, c, d] =>
      UInt32.ofNat (a.toNat * 2 ^ 24 + b.toNat * 2 ^ 16 + c.toNat * 2 ^ 8 + d.toNat)
  | _ => 0

/-- The word whose little-endian bytes are given. -/
def ofLe32 (bs : List UInt8) : UInt32 := ofBe32 bs.reverse

/-- The half word whose little-endian bytes are given. -/
def ofLe16 : List UInt8 → UInt16
  | [a, b] => UInt16.ofNat (a.toNat + b.toNat * 2 ^ 8)
  | _ => 0

@[simp] theorem be32_length (x : UInt32) : (be32 x).length = 4 := by simp [be32]

@[simp] theorem le32_length (x : UInt32) : (le32 x).length = 4 := by simp [le32]

@[simp] theorem le16_length (x : UInt16) : (le16 x).length = 2 := by simp [le16]

@[simp] theorem ofBe32_be32 (x : UInt32) : ofBe32 (be32 x) = x := by
  have hx : x.toNat < 2 ^ 32 := x.toNat_lt
  apply UInt32.toNat_inj.mp
  simp only [be32, ofBe32, UInt8.toNat_ofNat', UInt32.toNat_ofNat']
  omega

@[simp] theorem ofLe32_le32 (x : UInt32) : ofLe32 (le32 x) = x := by
  simp [ofLe32, le32]

@[simp] theorem ofLe16_le16 (x : UInt16) : ofLe16 (le16 x) = x := by
  have hx : x.toNat < 2 ^ 16 := x.toNat_lt
  apply UInt16.toNat_inj.mp
  simp only [le16, ofLe16, UInt8.toNat_ofNat', UInt16.toNat_ofNat']
  omega

theorem le32_append_inj {x y : UInt32} {l m : List UInt8} (h : le32 x ++ l = le32 y ++ m) :
    x = y ∧ l = m := by
  obtain ⟨hx, hl⟩ := List.append_inj h (by rw [le32_length, le32_length])
  refine ⟨?_, hl⟩
  rw [← ofLe32_le32 x, hx, ofLe32_le32]

theorem le16_append_inj {x y : UInt16} {l m : List UInt8} (h : le16 x ++ l = le16 y ++ m) :
    x = y ∧ l = m := by
  obtain ⟨hx, hl⟩ := List.append_inj h (by rw [le16_length, le16_length])
  refine ⟨?_, hl⟩
  rw [← ofLe16_le16 x, hx, ofLe16_le16]

/-- Records of one length can be read off a text that begins with them. -/
theorem flatMap_unique {α β : Type} {f : α → List β} (hinj : ∀ a b, f a = f b → a = b)
    (hlen : ∀ a b, (f a).length = (f b).length) {as bs : List α} {l m : List β}
    (hcount : as.length = bs.length) (h : as.flatMap f ++ l = bs.flatMap f ++ m) : as = bs := by
  induction as generalizing bs with
  | nil => exact (List.length_eq_zero_iff.mp hcount.symm).symm
  | cons a as ih =>
      cases bs with
      | nil => exact absurd hcount (by simp)
      | cons b bs =>
          rw [List.flatMap_cons, List.flatMap_cons, List.append_assoc, List.append_assoc] at h
          obtain ⟨hfirst, hrest⟩ := List.append_inj h (hlen a b)
          rw [hinj a b hfirst, ih (Nat.succ.inj hcount) hrest]

/-- The byte order of a host. -/
inductive ByteOrder where
  | big
  | little
  deriving DecidableEq

/-- A word as the host stores it. -/
def word32 (e : ByteOrder) (x : UInt32) : List UInt8 :=
  match e with
  | .big => be32 x
  | .little => le32 x

/-- A half word as the host stores it. -/
def word16 (e : ByteOrder) (x : UInt16) : List UInt8 :=
  match e with
  | .big => (le16 x).reverse
  | .little => le16 x

/-- The word the host reads from these bytes. -/
def ofWord32 (e : ByteOrder) (bs : List UInt8) : UInt32 :=
  match e with
  | .big => ofBe32 bs
  | .little => ofLe32 bs

/-- The half word the host reads from these bytes. -/
def ofWord16 (e : ByteOrder) (bs : List UInt8) : UInt16 :=
  match e with
  | .big => ofLe16 bs.reverse
  | .little => ofLe16 bs

@[simp] theorem word32_length (e : ByteOrder) (x : UInt32) : (word32 e x).length = 4 := by
  cases e <;> simp [word32]

@[simp] theorem word16_length (e : ByteOrder) (x : UInt16) : (word16 e x).length = 2 := by
  cases e <;> simp [word16]

@[simp] theorem ofWord32_word32 (e : ByteOrder) (x : UInt32) :
    ofWord32 e (word32 e x) = x := by
  cases e <;> simp [ofWord32, word32]

@[simp] theorem ofWord16_word16 (e : ByteOrder) (x : UInt16) :
    ofWord16 e (word16 e x) = x := by
  cases e <;> simp [ofWord16, word16]

/-- `ntohl` of the word at `off`. -/
def u32be? (m : List UInt8) (off : Nat) : Option UInt32 :=
  (peek? m off 4).map ofBe32

theorem u32be?_append (pre post : List UInt8) (x : UInt32) {off : Nat}
    (hoff : off = pre.length) : u32be? (pre ++ (be32 x ++ post)) off = some x := by
  have hread : peek? (pre ++ (be32 x ++ post)) off 4 = some (be32 x) :=
    peek?_append pre (be32 x) post hoff rfl
  rw [u32be?, hread]
  simp

theorem u32be?_skip {a m : List UInt8} {off : Nat} (h : a.length ≤ off) :
    u32be? (a ++ m) off = u32be? m (off - a.length) := by
  rw [u32be?, peek?_skip h, u32be?]

theorem u32be?_head (x : UInt32) (post : List UInt8) :
    u32be? (be32 x ++ post) 0 = some x :=
  u32be?_append [] post x rfl

theorem u32be?_eq_none {m : List UInt8} {off : Nat} :
    u32be? m off = none ↔ m.length < off + 4 := by
  rw [u32be?, Option.map_eq_none_iff, peek?_eq_none]

/-! ## C strings -/

/-- The characters of a C string: no byte of it is the terminator. -/
structure CStr where
  chars : List UInt8
  noNul : (0 : UInt8) ∉ chars
  deriving DecidableEq

namespace CStr

theorem ext_chars {s t : CStr} (h : s.chars = t.chars) : s = t := by
  cases s; cases t; simp_all

/-- The string a memory area holds: the bytes before its first NUL. -/
def ofBytes (bs : List UInt8) : CStr where
  chars := bs.takeWhile (· != 0)
  noNul := by
    intro h
    have := List.mem_takeWhile_imp h
    simp at this

/-- `strlen`. -/
def strlen (s : CStr) : Nat := s.chars.length

/-- The string with its terminator, as it lies in memory. -/
def bytesZ (s : CStr) : List UInt8 := s.chars ++ [0]

@[simp] theorem bytesZ_length (s : CStr) : s.bytesZ.length = s.strlen + 1 := by
  simp [bytesZ, strlen]

theorem takeWhile_chars (s : CStr) (rest : List UInt8) :
    (s.chars ++ 0 :: rest).takeWhile (· != 0) = s.chars := by
  have hall : ∀ c ∈ s.chars, (c != 0) = true := by
    intro c hc
    have hne : c ≠ 0 := fun h => s.noNul (h ▸ hc)
    simpa using hne
  rw [List.takeWhile_append_of_pos hall]
  simp

end CStr

/-- Up to its first NUL the data is a string. -/
theorem exists_string : ∀ {data : List UInt8}, (0 : UInt8) ∈ data →
    ∃ (s : CStr) (rest : List UInt8), data = s.bytesZ ++ rest := by
  intro data
  induction data with
  | nil => intro h; cases h
  | cons c cs ih =>
      intro h
      by_cases hc : c = 0
      · subst hc
        exact ⟨⟨[], List.not_mem_nil⟩, cs, rfl⟩
      · obtain ⟨s, rest, rfl⟩ := ih (List.mem_of_ne_of_mem (Ne.symm hc) h)
        have hnoNul : (0 : UInt8) ∉ c :: s.chars := by
          intro h0
          rcases List.mem_cons.mp h0 with h0 | h0
          · exact hc h0.symm
          · exact s.noNul h0
        exact ⟨⟨c :: s.chars, hnoNul⟩, rest, rfl⟩

/-- `strncpy(dst, src, n)` as the `n` bytes it leaves at `dst`: the string
cut at `n`, zero filled. -/
def strncpy (src : CStr) (n : Nat) : List UInt8 :=
  src.chars.take n ++ List.replicate (n - src.strlen) 0

@[simp] theorem strncpy_length (src : CStr) (n : Nat) : (strncpy src n).length = n := by
  simp only [strncpy, CStr.strlen, List.length_append, List.length_take,
    List.length_replicate]
  omega

/-- The string at `off`; `none` when no NUL ends it inside the memory. -/
def cstr? (m : List UInt8) (off : Nat) : Option CStr :=
  if (0 : UInt8) ∈ m.drop off then some (CStr.ofBytes (m.drop off)) else none

/-- A string is read up to the first NUL behind it. -/
theorem cstr?_append (pre rest : List UInt8) (s : CStr) {off : Nat}
    (hoff : off = pre.length) : cstr? (pre ++ (s.chars ++ 0 :: rest)) off = some s := by
  subst hoff
  rw [cstr?, List.drop_left, if_pos (by simp)]
  congr 1
  apply CStr.ext_chars
  exact CStr.takeWhile_chars s rest

end UbntSdk.Lib
