/-
UbntSdk.Lib.Memory — memory without bounds, and the integers of C.

`Memory` is what a pointer can reach when nothing checks it: a byte for
every address. Writes are described by what they leave alone
(`write_outside`) and by reading back (`u32_put32`). Words are in the order
of the host; `be32ToCpu` is the kernel's conversion, and `be32ToCpu_u32` says
that it reads the big-endian word whatever the host is.

`int32` reads a word as a signed number, `wrap32` is signed arithmetic
modulo 2^32.

Nothing in this module names a program.
-/
import UbntSdk.Lib.Bytes

namespace UbntSdk.Lib

/-! ## Signed words -/

/-- The signed value of a word. -/
def int32 (x : UInt32) : Int := if x.toNat < 2 ^ 31 then x.toNat else (x.toNat : Int) - 2 ^ 32

/-- Signed 32-bit arithmetic wraps around. -/
def wrap32 (x : Int) : Int := (x + 2 ^ 31) % 2 ^ 32 - 2 ^ 31

theorem wrap32_of_range {x : Int} (hlo : -2 ^ 31 ≤ x) (hhi : x < 2 ^ 31) : wrap32 x = x := by
  unfold wrap32
  omega

/-- Wrapping on the way does not change where a sum wraps to. -/
theorem wrap32_add (x y : Int) : wrap32 (wrap32 x + y) = wrap32 (x + y) := by
  unfold wrap32
  omega

/-! ## Memory -/

/-- A byte for every address. -/
abbrev Memory := Int → UInt8

namespace Memory

def write (m : Memory) (off : Int) (bs : List UInt8) : Memory :=
  fun i => if off ≤ i ∧ i < off + bs.length then bs.getD (i - off).toNat 0 else m i

/-- `n` bytes at `off`. -/
def read (m : Memory) (off : Int) (n : Nat) : List UInt8 :=
  (List.range n).map fun (k : Nat) => m (off + k)

def u16 (e : ByteOrder) (m : Memory) (off : Int) : UInt16 := ofWord16 e (m.read off 2)

def u32 (e : ByteOrder) (m : Memory) (off : Int) : UInt32 := ofWord32 e (m.read off 4)

def put16 (e : ByteOrder) (m : Memory) (off : Int) (x : UInt16) : Memory := m.write off (word16 e x)

def put32 (e : ByteOrder) (m : Memory) (off : Int) (x : UInt32) : Memory := m.write off (word32 e x)

/-- The big-endian word at `off`. -/
def be32At (m : Memory) (off : Int) : UInt32 := ofBe32 (m.read off 4)

end Memory

/-- `be32_to_cpu`. -/
def be32ToCpu (e : ByteOrder) (x : UInt32) : UInt32 := ofBe32 (word32 e x)

/-- `be16_to_cpu`. -/
def be16ToCpu (e : ByteOrder) (x : UInt16) : UInt16 := ofWord16 .big (word16 e x)

theorem be32_ofBe32 (a b c d : UInt8) : be32 (ofBe32 [a, b, c, d]) = [a, b, c, d] := by
  have ha := a.toNat_lt
  have hb := b.toNat_lt
  have hc := c.toNat_lt
  have hd := d.toNat_lt
  simp only [be32, ofBe32, UInt32.toNat_ofNat', List.cons.injEq, and_true, ← UInt8.toNat_inj,
    UInt8.toNat_ofNat']
  omega

section

variable {m m' : Memory} {off i : Int}

/-- A write leaves alone what is not under it. -/
theorem Memory.write_outside (bs : List UInt8) (h : i < off ∨ off + bs.length ≤ i) :
    m.write off bs i = m i := by
  rw [Memory.write, if_neg (by omega)]

/-- A read depends on the bytes that it covers, and on no others. -/
theorem Memory.read_congr {n : Nat} (h : ∀ i, off ≤ i → i < off + n → m' i = m i) :
    m'.read off n = m.read off n := by
  refine List.map_congr_left fun k hk => ?_
  have hlt := List.mem_range.mp hk
  exact h _ (by omega) (by omega)

/-- What was written is read back. -/
theorem Memory.read_write (bs : List UInt8) : (m.write off bs).read off bs.length = bs := by
  refine List.ext_getElem (by simp [Memory.read]) fun k hk hk' => ?_
  have hin : off ≤ off + (k : Int) ∧ off + (k : Int) < off + bs.length := by omega
  simp only [Memory.read, Memory.write, List.getElem_map, List.getElem_range, hin, and_self, if_true]
  rw [show (off + (k : Int) - off).toNat = k by omega, List.getD_eq_getElem?_getD,
    List.getElem?_eq_getElem hk', Option.getD_some]

theorem Memory.u32_put32 (e : ByteOrder) (x : UInt32) : (m.put32 e off x).u32 e off = x := by
  have hread : (m.put32 e off x).read off 4 = word32 e x := by
    have h := @Memory.read_write m off (word32 e x)
    rwa [word32_length] at h
  rw [Memory.u32, hread, ofWord32_word32]

theorem Memory.u32_congr (e : ByteOrder) (h : ∀ i, off ≤ i → i < off + 4 → m' i = m i) :
    m'.u32 e off = m.u32 e off := by
  rw [Memory.u32, Memory.read_congr h, Memory.u32]

theorem Memory.be32At_congr (h : ∀ i, off ≤ i → i < off + 4 → m' i = m i) :
    m'.be32At off = m.be32At off := by
  rw [Memory.be32At, Memory.read_congr h, Memory.be32At]

/-- The conversion reads the big-endian word. -/
theorem be32ToCpu_u32 (e : ByteOrder) (m : Memory) (off : Int) :
    be32ToCpu e (m.u32 e off) = m.be32At off := by
  have hread : m.read off 4 = [m (off + (0 : Nat)), m (off + (1 : Nat)), m (off + (2 : Nat)),
    m (off + (3 : Nat))] := rfl
  cases e with
  | big => simp [be32ToCpu, Memory.u32, Memory.be32At, ofWord32, word32]
  | little =>
      simp only [be32ToCpu, Memory.u32, Memory.be32At, ofWord32, word32, ofLe32, le32, hread,
        List.reverse_cons, List.reverse_nil, List.nil_append, List.cons_append, be32_ofBe32]

end

end UbntSdk.Lib
