/-
UbntSdk.Arpnat.Access — the bytes of a frame as lists and as words of the
host, and a frame with a log of what was read and written.

`Skb.ntohs` is what the code sees of a half word on a host of either byte
order; it is always the number the bytes spell (`Skb.ntohs_eq`). What the hooks
compare it with is the same number on a big-endian target, for which they are
modelled; on the other hosts the loops over the tags go wrong (`pttHostUniq`).

`Traced` runs the stores of a function on a frame and notes every access.
Whether an access was inside the frame is then a question about a list.
-/
import Mathlib.Data.List.GetD
import UbntSdk.Arpnat.OwnerTheorems
import UbntSdk.Lib.Checksum
import UbntSdk.Lib.Memory

namespace UbntSdk.Arpnat

open UbntSdk.Lib

/-! ## Bytes and half words of a frame -/

theorem word16_injective {e : ByteOrder} {x y : UInt16} (h : word16 e x = word16 e y) : x = y := by
  rw [← ofWord16_word16 e x, h, ofWord16_word16]

namespace Skb

theorem u16_eq_ofWord16 (skb : Skb) (off : Nat) :
    skb.u16 off = ofWord16 .big [skb.mem off, skb.mem (off + 1)] := by
  have ha := (skb.mem off).toNat_lt
  have hb := (skb.mem (off + 1)).toNat_lt
  have hor := Nat.shiftLeft_add_eq_or_of_lt (show (skb.mem (off + 1)).toNat < 2 ^ 8 from hb)
    (skb.mem off).toNat
  have hmod : (skb.mem off).toNat <<< 8 % 65536 = (skb.mem off).toNat <<< 8 := by
    rw [Nat.shiftLeft_eq]
    omega
  apply UInt16.toNat_inj.mp
  simp only [u16, ofWord16, List.reverse_cons, List.reverse_nil, List.nil_append, List.cons_append,
    ofLe16, UInt16.toNat_or, UInt16.toNat_shiftLeft, UInt8.toNat_toUInt16, UInt16.toNat_ofNat',
    UInt16.toNat_ofNat, hmod]
  rw [← hor, Nat.shiftLeft_eq]
  omega

@[simp] theorem bytes_length (skb : Skb) (off n : Nat) : (skb.bytes off n).length = n := by
  simp [bytes]

theorem bytes_two (skb : Skb) (off : Nat) :
    skb.bytes off 2 = [skb.mem off, skb.mem (off + 1)] := rfl

theorem word16_u16 (skb : Skb) (off : Nat) : word16 .big (skb.u16 off) = skb.bytes off 2 := by
  have ha := (skb.mem off).toNat_lt
  have hb := (skb.mem (off + 1)).toNat_lt
  rw [u16_eq_ofWord16, bytes_two]
  simp only [word16, le16, ofWord16, ofLe16, List.reverse_cons, List.reverse_nil, List.nil_append,
    List.cons_append, UInt16.toNat_ofNat', List.cons.injEq, and_true, ← UInt8.toNat_inj,
    UInt8.toNat_ofNat']
  omega

theorem bytes_add (skb : Skb) (off m n : Nat) :
    skb.bytes off (m + n) = skb.bytes off m ++ skb.bytes (off + m) n := by
  simp [bytes, List.range_add, Nat.add_assoc]

theorem bytes_congr {skb skb' : Skb} {off n : Nat}
    (h : ∀ i, off ≤ i → i < off + n → skb'.mem i = skb.mem i) :
    skb'.bytes off n = skb.bytes off n := by
  refine List.map_congr_left fun k hk => ?_
  have hlt := List.mem_range.mp hk
  exact h _ (by omega) (by omega)

/-- The bytes of a frame cut where another list of bytes is. -/
theorem bytes_eq_append {skb : Skb} {off n : Nat} {a b : List UInt8} :
    skb.bytes off n = a ++ b ↔ a.length ≤ n ∧ skb.bytes off a.length = a ∧
      skb.bytes (off + a.length) (n - a.length) = b := by
  constructor
  · intro h
    have hlen := congrArg List.length h
    simp only [bytes_length, List.length_append] at hlen
    rw [show n = a.length + b.length by omega, bytes_add] at h
    obtain ⟨ha, hb⟩ := List.append_inj h (by simp)
    refine ⟨by omega, ha, ?_⟩
    rw [show n - a.length = b.length by omega]
    exact hb
  · rintro ⟨hle, ha, hb⟩
    have hcut := bytes_add skb off a.length (n - a.length)
    rw [ha, hb, show a.length + (n - a.length) = n by omega] at hcut
    exact hcut

/-- The half word at `off` as the host loads it. -/
def load16 (e : ByteOrder) (skb : Skb) (off : Nat) : UInt16 := ofWord16 e (skb.bytes off 2)

/-- `ntohs` of the half word at `off`, and `htons` of it, which is the
same on every host. -/
def ntohs (e : ByteOrder) (skb : Skb) (off : Nat) : UInt16 := be16ToCpu e (skb.load16 e off)

@[simp] theorem ntohs_eq (e : ByteOrder) (skb : Skb) (off : Nat) :
    skb.ntohs e off = skb.u16 off := by
  rw [ntohs, load16, u16_eq_ofWord16, bytes_two]
  cases e with
  | big => rw [be16ToCpu, ofWord16_word16]
  | little =>
      have hturn : word16 .little (ofWord16 .little [skb.mem off, skb.mem (off + 1)]) =
          [skb.mem off, skb.mem (off + 1)] := by
        have ha := (skb.mem off).toNat_lt
        have hb := (skb.mem (off + 1)).toNat_lt
        simp only [word16, le16, ofWord16, ofLe16, UInt16.toNat_ofNat', List.cons.injEq, and_true,
          ← UInt8.toNat_inj, UInt8.toNat_ofNat']
        omega
      rw [be16ToCpu, hturn]

/-- A half word is 0 in any byte order. -/
theorem load16_eq_zero (e : ByteOrder) (skb : Skb) (off : Nat) :
    skb.load16 e off = 0 ↔ skb.u16 off = 0 := by
  have hx := (skb.load16 e off).toNat_lt
  rw [← ntohs_eq e, ntohs]
  generalize skb.load16 e off = x at hx ⊢
  cases e with
  | big => rw [be16ToCpu, ofWord16_word16]
  | little =>
      simp only [be16ToCpu, ofWord16, word16, le16, ofLe16, List.reverse_cons, List.reverse_nil,
        List.nil_append, List.cons_append, ← UInt16.toNat_inj, UInt16.toNat_ofNat',
        UInt8.toNat_ofNat', UInt16.toNat_zero]
      omega

/-- What was stored is read back. -/
theorem bytes_put (skb : Skb) (off : Nat) (bs : List UInt8) :
    (skb.put off bs).bytes off bs.length = bs := by
  refine List.ext_getElem (by simp) fun k hk hk' => ?_
  have hin : off ≤ off + k ∧ off + k < off + bs.length := by omega
  simp only [bytes, put, List.getElem_map, List.getElem_range, hin, and_self, if_true]
  rw [show off + k - off = k by omega, List.getD_eq_getElem?_getD, List.getElem?_eq_getElem hk',
    Option.getD_some]

theorem bytes_put_outside (skb : Skb) {off off' n : Nat} (bs : List UInt8)
    (h : off' + n ≤ off ∨ off + bs.length ≤ off') :
    (skb.put off bs).bytes off' n = skb.bytes off' n :=
  bytes_congr fun _ _ _ => put_outside skb bs (by omega)

/-- A store does the same to frames that are the same there. -/
theorem put_mem_congr {skb skb' : Skb} {i : Nat} (h : skb'.mem i = skb.mem i) (off : Nat)
    (bs : List UInt8) : (skb'.put off bs).mem i = (skb.put off bs).mem i := by
  simp only [put, h]

/-- Stores next to each other are one store. -/
theorem put_append (skb : Skb) (off : Nat) (a b : List UInt8) :
    skb.put off (a ++ b) = (skb.put off a).put (off + a.length) b := by
  have hmem : ∀ i, (skb.put off (a ++ b)).mem i = ((skb.put off a).put (off + a.length) b).mem i := by
    intro i
    simp only [put, List.length_append]
    by_cases hb : off + a.length ≤ i ∧ i < off + a.length + b.length
    · rw [if_pos (by omega), if_pos hb, List.getD_append_right _ _ _ _ (by omega)]
      congr 1
      omega
    · by_cases ha : off ≤ i ∧ i < off + a.length
      · rw [if_pos (by omega), if_neg hb, if_pos ha, List.getD_append _ _ _ _ (by omega)]
      · rw [if_neg (by omega), if_neg hb, if_neg ha]
  have hskb : ∀ {m m' : Nat → UInt8}, m = m' → (⟨m, skb.len, skb.pktType⟩ : Skb) =
      ⟨m', skb.len, skb.pktType⟩ := fun h => by rw [h]
  exact hskb (funext hmem)

theorem put16_eq (skb : Skb) (off : Nat) (v : UInt16) :
    skb.put16 off v = skb.put off (word16 .big v) := by
  have hv := v.toNat_lt
  have hbytes : [(v >>> 8).toUInt8, v.toUInt8] = word16 .big v := by
    simp only [word16, le16, List.reverse_cons, List.reverse_nil, List.nil_append, List.cons_append,
      List.cons.injEq, and_true, ← UInt8.toNat_inj, UInt8.toNat_ofNat', UInt16.toNat_toUInt8,
      UInt16.toNat_shiftRight, UInt16.toNat_ofNat, Nat.shiftRight_eq_div_pow]
  rw [put16, hbytes]

theorem be32_u32 (skb : Skb) (off : Nat) : be32 (skb.u32 off) = skb.bytes off 4 := by
  have hsplit : skb.bytes off 4 = word16 .big (skb.u16 off) ++ word16 .big (skb.u16 (off + 2)) := by
    rw [word16_u16, word16_u16, ← bytes_add]
  have hhigh := (skb.u16 off).toNat_lt
  have hlow := (skb.u16 (off + 2)).toNat_lt
  have hor := Nat.shiftLeft_add_eq_or_of_lt (show (skb.u16 (off + 2)).toNat < 2 ^ 16 from hlow)
    (skb.u16 off).toNat
  have hmod : (skb.u16 off).toNat <<< 16 % 4294967296 = (skb.u16 off).toNat <<< 16 := by
    rw [Nat.shiftLeft_eq]
    omega
  have hword : (skb.u32 off).toNat = (skb.u16 off).toNat * 2 ^ 16 + (skb.u16 (off + 2)).toNat := by
    simp only [u32, UInt32.toNat_or, UInt32.toNat_shiftLeft, UInt16.toNat_toUInt32,
      UInt32.toNat_ofNat, hmod]
    rw [← hor, Nat.shiftLeft_eq]
  rw [hsplit]
  simp only [be32, hword, word16, le16, List.reverse_cons, List.reverse_nil, List.nil_append,
    List.cons_append, List.cons.injEq, and_true, ← UInt8.toNat_inj, UInt8.toNat_ofNat']
  omega

theorem put32_eq (skb : Skb) (off : Nat) (v : UInt32) : skb.put32 off v = skb.put off (be32 v) := by
  have hbytes : [(v >>> 24).toUInt8, (v >>> 16).toUInt8, (v >>> 8).toUInt8, v.toUInt8] = be32 v := by
    simp only [be32, List.cons.injEq, and_true, ← UInt8.toNat_inj, UInt8.toNat_ofNat',
      UInt32.toNat_toUInt8, UInt32.toNat_shiftRight, UInt32.toNat_ofNat,
      Nat.shiftRight_eq_div_pow]
  rw [put32, hbytes]

theorem u32_eq_iff {skb : Skb} {off : Nat} {v : UInt32} :
    skb.u32 off = v ↔ skb.bytes off 4 = be32 v := by
  rw [← be32_u32]
  refine ⟨fun h => by rw [h], fun h => ?_⟩
  rw [← ofBe32_be32 (skb.u32 off), h, ofBe32_be32]

theorem u32_congr {skb skb' : Skb} {off : Nat}
    (h : ∀ i, off ≤ i → i < off + 4 → skb'.mem i = skb.mem i) : skb'.u32 off = skb.u32 off := by
  rw [u32_eq_iff, bytes_congr h, be32_u32]

theorem u16_put_outside (skb : Skb) {off off' : Nat} (bs : List UInt8)
    (h : off' + 2 ≤ off ∨ off + bs.length ≤ off') : (skb.put off bs).u16 off' = skb.u16 off' := by
  rw [u16, u16, put_outside skb bs (by omega), put_outside skb bs (by omega)]

theorem u16_eq_iff {skb : Skb} {off : Nat} {v : UInt16} :
    skb.u16 off = v ↔ skb.bytes off 2 = word16 .big v := by
  rw [← word16_u16]
  exact ⟨fun h => by rw [h], word16_injective⟩

theorem u16_congr {skb skb' : Skb} {off : Nat}
    (h : ∀ i, off ≤ i → i < off + 2 → skb'.mem i = skb.mem i) : skb'.u16 off = skb.u16 off := by
  rw [u16_eq_iff, bytes_congr h, word16_u16]

/-- A half word of a part of the frame, stored anew, takes its place in the
sum. -/
theorem sum16_put16 (skb : Skb) {off k n : Nat} (v : UInt16) (hk : k % 2 = 0) (hn : k + 2 ≤ n) :
    sum16 ((skb.put16 (off + k) v).bytes off n) + (skb.u16 (off + k)).toNat =
      sum16 (skb.bytes off n) + v.toNat := by
  have hcut : ∀ skb' : Skb, sum16 (skb'.bytes off n) = sum16 (skb'.bytes off k) +
      ((skb'.u16 (off + k)).toNat + sum16 (skb'.bytes (off + k + 2) (n - k - 2))) := by
    intro skb'
    rw [show n = k + (2 + (n - k - 2)) by omega, bytes_add, bytes_add, ← word16_u16,
      sum16_append (by rw [bytes_length]; exact hk), sum16_append (by simp), sum16_word16]
    congr 5
    omega
  have hnew : (skb.put16 (off + k) v).u16 (off + k) = v := by
    rw [put16_eq, u16_eq_iff]
    exact bytes_put _ _ _
  rw [hcut, hcut skb, hnew, put16_eq, bytes_put_outside _ _ (Or.inl (Nat.le_refl _)),
    bytes_put_outside _ _ (Or.inr (by rw [word16_length]))]
  omega

end Skb

/-! ## Accesses -/

/-- A frame, and the places (offset and number of bytes) that were read and
written on the way to it. -/
structure Traced where
  skb : Skb
  reads : List (Nat × Nat)
  writes : List (Nat × Nat)

namespace Traced

def start (skb : Skb) : Traced := ⟨skb, [], []⟩

def read (t : Traced) (places : List (Nat × Nat)) : Traced := { t with reads := t.reads ++ places }

def put (t : Traced) (off : Nat) (bs : List UInt8) : Traced :=
  { t with skb := t.skb.put off bs, writes := t.writes ++ [(off, bs.length)] }

def put16 (t : Traced) (off : Nat) (v : UInt16) : Traced :=
  t.put off [(v >>> 8).toUInt8, v.toUInt8]

def put32 (t : Traced) (off : Nat) (v : UInt32) : Traced :=
  t.put off [(v >>> 24).toUInt8, (v >>> 16).toUInt8, (v >>> 8).toUInt8, v.toUInt8]

def putMac (t : Traced) (off : Nat) (m : Mac) : Traced := t.put off (List.ofFn m)

end Traced

/-- Every place is inside the frame. -/
def Inside (skb : Skb) (places : List (Nat × Nat)) : Prop :=
  ∀ place ∈ places, place.1 + place.2 ≤ NETWORK_HEADER + skb.len

end UbntSdk.Arpnat
