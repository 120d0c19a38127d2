/-
UbntSdk.Lib.InPlace — data in memory that is converted in place.

`Holds` says which bytes are at an address. A conversion that works its way
through a buffer turns one part after the other into bytes of the same number
and leaves all else alone (`Turned`), and so for two parts in a row
(`Turned.append`).

Nothing in this module names a program.
-/
import UbntSdk.Lib.Memory

namespace UbntSdk.Lib.Memory

variable {m m' m'' : Memory} {p q : Int} {a b bs : List UInt8}

/-- The bytes `bs` are at `p`. -/
def Holds (m : Memory) (p : Int) (bs : List UInt8) : Prop := m.read p bs.length = bs

theorem read_add (m : Memory) (p : Int) (j k : Nat) :
    m.read p (j + k) = m.read p j ++ m.read (p + j) k := by
  rw [read, List.range_add, List.map_append, List.map_map, read, read]
  congr 1
  refine List.map_congr_left fun i _ => ?_
  rw [Function.comp_apply, Int.natCast_add, Int.add_assoc]

theorem read_length (m : Memory) (p : Int) (k : Nat) : (m.read p k).length = k := by
  simp [read]

theorem holds_nil : m.Holds p [] := rfl

/-- Bytes in a row are at an address when the parts are at theirs. -/
theorem holds_append : m.Holds p (a ++ b) ↔ m.Holds p a ∧ m.Holds (p + a.length) b := by
  rw [Holds, List.length_append, read_add]
  constructor
  · intro h
    exact List.append_inj h (read_length m p a.length)
  · rintro ⟨ha, hb⟩
    rw [ha, hb]

theorem Holds.congr (h : m.Holds p bs) (hsame : ∀ i, p ≤ i → i < p + bs.length → m' i = m i) :
    m'.Holds p bs := by
  rw [Holds, read_congr hsame]
  exact h

theorem holds_write (m : Memory) (p : Int) (bs : List UInt8) : (m.write p bs).Holds p bs :=
  read_write bs

theorem Holds.u16 {e : ByteOrder} {x : UInt16} (h : m.Holds p (word16 e x)) : m.u16 e p = x := by
  rw [Holds, word16_length] at h
  rw [Memory.u16, h, ofWord16_word16]

theorem Holds.u32 {e : ByteOrder} {x : UInt32} (h : m.Holds p (word32 e x)) : m.u32 e p = x := by
  rw [Holds, word32_length] at h
  rw [Memory.u32, h, ofWord32_word32]

/-- The bytes `old` at `p` are turned into `new`. -/
structure Turned (p : Int) (old new : List UInt8) (m m' : Memory) : Prop where
  length : new.length = old.length
  holds : m'.Holds p new
  outside : ∀ i, i < p ∨ p + old.length ≤ i → m' i = m i

namespace Turned

variable {a' b' : List UInt8}

theorem nil (p : Int) (m : Memory) : Turned p [] [] m m := ⟨rfl, holds_nil, fun _ _ => rfl⟩

/-- What is behind stays. -/
theorem behind (h : Turned p a a' m m') (hb : m.Holds q bs) (hq : p + a.length ≤ q) :
    m'.Holds q bs :=
  hb.congr fun i hi _ => h.outside i (Or.inr (by omega))

/-- One part and then the next. -/
theorem append (h : Turned p a a' m m') (h' : Turned (p + a.length) b b' m' m'') :
    Turned p (a ++ b) (a' ++ b') m m'' where
  length := by rw [List.length_append, List.length_append, h.length, h'.length]
  holds := by
    rw [holds_append, h.length]
    exact ⟨h.holds.congr fun i _ hi => h'.outside i (Or.inl (by rw [h.length] at hi; omega)), h'.holds⟩
  outside := fun i hi => by
    rw [List.length_append] at hi
    rw [h'.outside i (by omega), h.outside i (by omega)]

/-- A part that is not converted. -/
theorem keep (h : m.Holds p a) : Turned p a a m m := ⟨rfl, h, fun _ _ => rfl⟩

/-- The elementary conversion: one write of as many bytes. -/
theorem write (h : b.length = a.length) : Turned p a b m (m.write p b) where
  length := h
  holds := holds_write m p b
  outside := fun _ hi => write_outside b (by rw [h]; exact hi)

end Turned

end UbntSdk.Lib.Memory
