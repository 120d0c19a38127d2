/-
UbntSdk.Lib.Netlink — netlink attributes as bytes.

An attribute is a header with its length and its type, the payload, and
zeros up to the next multiple of four. The payload is a number, bytes, or
again attributes. `Attrs` is a sequence of such attributes; a family says
which number stands for a type and how its payload is read.

`Attrs.encode` takes the byte order of the headers and, for each type, that
of the payload, because on its way between two hosts a message has several.
`Attrs.decode` reads in the order of one host. `decode_encode` says what a
host reads of any such message: a number in the other order comes out turned
round.

Nothing in this module names a program.
-/
import UbntSdk.Lib.Words

namespace UbntSdk.Lib.Netlink

/-! ## Payloads -/

inductive Kind where
  | u8 | u16 | u32 | u64 | bytes | nested
  deriving DecidableEq

inductive Datum where
  | u8 (x : UInt8)
  | u16 (x : UInt16)
  | u32 (x : UInt32)
  | u64 (x : UInt64)
  | bytes (bs : List UInt8)
  deriving DecidableEq

namespace Datum

def kind : Datum → Kind
  | .u8 _ => .u8
  | .u16 _ => .u16
  | .u32 _ => .u32
  | .u64 _ => .u64
  | .bytes _ => .bytes

def encode (e : ByteOrder) : Datum → List UInt8
  | .u8 x => [x]
  | .u16 x => word16 e x
  | .u32 x => word32 e x
  | .u64 x => word64 e x
  | .bytes bs => bs

def size : Datum → Nat
  | .u8 _ => 1
  | .u16 _ => 2
  | .u32 _ => 4
  | .u64 _ => 8
  | .bytes bs => bs.length

/-- What a host reads; a number has exactly the bytes of its width. -/
def decode (e : ByteOrder) (k : Kind) (bs : List UInt8) : Option Datum :=
  match k with
  | .u8 => (load8? bs).map .u8
  | .u16 => if bs.length = 2 then some (.u16 (ofWord16 e bs)) else none
  | .u32 => if bs.length = 4 then some (.u32 (ofWord32 e bs)) else none
  | .u64 => if bs.length = 8 then some (.u64 (ofWord64 e bs)) else none
  | .bytes => some (.bytes bs)
  | .nested => none
where
  load8? : List UInt8 → Option UInt8
    | [x] => some x
    | _ => none

/-- The payload with the bytes of a number turned round. -/
def flip : Datum → Datum
  | .u16 x => .u16 (ofWord16 .big (word16 .little x))
  | .u32 x => .u32 (ofWord32 .big (word32 .little x))
  | .u64 x => .u64 (ofWord64 .big (word64 .little x))
  | p => p

/-- What is read in the order `e` of a payload in the order `o`. -/
def reread (o e : ByteOrder) (p : Datum) : Datum := if o = e then p else p.flip

@[simp] theorem encode_length (e : ByteOrder) (p : Datum) : (p.encode e).length = p.size := by
  cases p <;> simp [encode, size]

@[simp] theorem kind_ne_nested (p : Datum) : p.kind ≠ .nested := by cases p <;> simp [kind]

@[simp] theorem kind_flip (p : Datum) : p.flip.kind = p.kind := by
  cases p <;> simp only [flip, kind]

@[simp] theorem size_flip (p : Datum) : p.flip.size = p.size := by
  cases p <;> simp only [flip, size]

@[simp] theorem kind_reread (o e : ByteOrder) (p : Datum) : (p.reread o e).kind = p.kind := by
  unfold reread
  split <;> simp

theorem ofWord16_flip (e : ByteOrder) (x : UInt16) :
    ofWord16 e (word16 e.flip x) = ofWord16 .big (word16 .little x) := by
  cases e <;> simp [ofWord16, word16, ByteOrder.flip]

/-- A number that is read in the order it was not written in is the number turned round, in
whichever order that is. -/
theorem ofWord32_flip (e : ByteOrder) (x : UInt32) :
    ofWord32 e (word32 e.flip x) = ofWord32 .big (word32 .little x) := by
  cases e <;> simp [ofWord32, word32, ByteOrder.flip, ofLe32, le32]

theorem ofWord64_flip (e : ByteOrder) (x : UInt64) :
    ofWord64 e (word64 e.flip x) = ofWord64 .big (word64 .little x) := by
  cases e <;> simp [ofWord64, word64, ByteOrder.flip]

theorem decode_encode (o e : ByteOrder) (p : Datum) :
    decode e p.kind (p.encode o) = some (p.reread o e) := by
  by_cases h : o = e
  · subst h
    cases p <;> simp [decode, encode, kind, reread, decode.load8?]
  · obtain rfl := ByteOrder.eq_flip_of_ne (Ne.symm h)
    cases p <;> simp [decode, encode, kind, reread, flip, h, decode.load8?, ofWord16_flip,
      ofWord32_flip, ofWord64_flip]

end Datum

/-! ## Attributes -/

/-- `NLA_HDRLEN`. -/
def HDRLEN : Nat := 4

/-- `NLA_TYPE_MASK`: without the two flags in the type. -/
def TYPE_MASK : UInt16 := 0x3fff

/-- `NLA_ALIGN`. -/
def align (len : Nat) : Nat := (len + 3) / 4 * 4

/-- The types of the attributes of a family: their numbers, and how the
payload is read. -/
structure Family (α : Type) where
  code : α → UInt16
  ofCode : UInt16 → Option α
  kind : α → Kind
  ofCode_code : ∀ a, ofCode (code a) = some a
  code_mask : ∀ a, code a &&& TYPE_MASK = code a

/-- A sequence of attributes. -/
inductive Attrs (α : Type) where
  | nil
  | leaf (a : α) (p : Datum) (rest : Attrs α)
  | nest (a : α) (kids rest : Attrs α)
  deriving DecidableEq

/-- The zeros behind a payload of `n` bytes. -/
def pad (n : Nat) : List UInt8 := List.replicate (align (HDRLEN + n) - (HDRLEN + n)) 0

/-- `nla_len` of an attribute with a payload of `n` bytes. -/
def attrLen (n : Nat) : UInt16 := UInt16.ofNat (HDRLEN + n)

/-- An attribute with its padding. -/
def attrBytes (h : ByteOrder) (code : UInt16) (payload : List UInt8) : List UInt8 :=
  word16 h (attrLen payload.length) ++ (word16 h code ++ (payload ++ pad payload.length))

namespace Attrs

variable {α : Type}

/-- The bytes of the attributes. -/
def size : Attrs α → Nat
  | .nil => 0
  | .leaf _ p rest => align (HDRLEN + p.size) + rest.size
  | .nest _ kids rest => align (HDRLEN + kids.size) + rest.size

/-- Every payload is of the kind that the family says. -/
def typed (F : Family α) : Attrs α → Bool
  | .nil => true
  | .leaf a p rest => p.kind = F.kind a && rest.typed F
  | .nest a kids rest => F.kind a = .nested && kids.typed F && rest.typed F

/-- The attributes with headers in the order `h` and the payload of type `a`
in the order `v a`. -/
def encode (F : Family α) (h : ByteOrder) (v : α → ByteOrder) : Attrs α → List UInt8
  | .nil => []
  | .leaf a p rest => attrBytes h (F.code a) (p.encode (v a)) ++ rest.encode F h v
  | .nest a kids rest => attrBytes h (F.code a) (kids.encode F h v) ++ rest.encode F h v

/-- What a host reads; `none` where a header does not fit the bytes, a type
is unknown or a payload is not of its kind. -/
def decode (F : Family α) (e : ByteOrder) : Nat → List UInt8 → Option (Attrs α)
  | _, [] => some .nil
  | 0, _ :: _ => none
  | fuel + 1, bs => do
      let len ← load16? e bs 0
      let type ← load16? e bs 2
      let a ← F.ofCode (type &&& TYPE_MASK)
      guard (HDRLEN ≤ len.toNat)
      let payload ← peek? bs HDRLEN (len.toNat - HDRLEN)
      let rest ← decode F e fuel (bs.drop (align len.toNat))
      if F.kind a = .nested then
        let kids ← decode F e fuel payload
        return .nest a kids rest
      else
        let p ← Datum.decode e (F.kind a) payload
        return .leaf a p rest

/-- What is read in the order `e` of payloads in the orders `v`. -/
def reread (v : α → ByteOrder) (e : ByteOrder) : Attrs α → Attrs α
  | .nil => .nil
  | .leaf a p rest => .leaf a (p.reread (v a) e) (rest.reread v e)
  | .nest a kids rest => .nest a (kids.reread v e) (rest.reread v e)

/-- The payloads with their types, at any depth. -/
def leaves : Attrs α → List (α × Datum)
  | .nil => []
  | .leaf a p rest => (a, p) :: rest.leaves
  | .nest _ kids rest => kids.leaves ++ rest.leaves

end Attrs

/-! ## Sizes -/

theorem le_align (n : Nat) : n ≤ align n := by
  unfold align
  omega

@[simp] theorem attrBytes_length (h : ByteOrder) (code : UInt16) (payload : List UInt8) :
    (attrBytes h code payload).length = align (HDRLEN + payload.length) := by
  have hle := le_align (HDRLEN + payload.length)
  simp only [attrBytes, pad, List.length_append, word16_length, List.length_replicate]
  simp only [HDRLEN] at *
  omega

/-- The length field holds the length as long as the attribute fits into 16 bits. -/
theorem attrLen_toNat {n : Nat} (h : HDRLEN + n < 2 ^ 16) : (attrLen n).toNat = HDRLEN + n := by
  rw [attrLen, UInt16.toNat_ofNat', Nat.mod_eq_of_lt h]

namespace Attrs

variable {α : Type} (F : Family α)

@[simp] theorem encode_length (h : ByteOrder) (v : α → ByteOrder) (t : Attrs α) :
    (t.encode F h v).length = t.size := by
  induction t with
  | nil => rfl
  | leaf a p rest ih => simp [encode, size, ih]
  | nest a kids rest ihk ih => simp [encode, size, ihk, ih]

theorem size_reread (v : α → ByteOrder) (e : ByteOrder) (t : Attrs α) :
    (t.reread v e).size = t.size := by
  have hp : ∀ (o : ByteOrder) (p : Datum), (p.reread o e).size = p.size := by
    intro o p
    unfold Datum.reread
    split <;> simp
  induction t with
  | nil => rfl
  | leaf a p rest ih => simp [reread, size, ih, hp]
  | nest a kids rest ihk ih => simp [reread, size, ihk, ih]

theorem typed_reread (v : α → ByteOrder) (e : ByteOrder) (t : Attrs α) :
    (t.reread v e).typed F = t.typed F := by
  induction t with
  | nil => rfl
  | leaf a p rest ih => simp [reread, typed, ih]
  | nest a kids rest ihk ih => simp [reread, typed, ihk, ih]

/-- One step of the reader: a header whose length and type make sense, then the payload and
the rest. -/
theorem decode_step {e : ByteOrder} {bs payload : List UInt8} {len : UInt16} {a : α}
    (hlen? : load16? e bs 0 = some len) (htype? : load16? e bs 2 = some (F.code a))
    (hge : HDRLEN ≤ len.toNat) (hpay? : peek? bs HDRLEN (len.toNat - HDRLEN) = some payload)
    (fuel : Nat) :
    decode F e (fuel + 1) bs =
      (decode F e fuel (bs.drop (align len.toNat))).bind fun rest =>
        if F.kind a = .nested then (decode F e fuel payload).map fun kids => .nest a kids rest
        else (Datum.decode e (F.kind a) payload).map fun p => .leaf a p rest := by
  cases bs with
  | nil => simp [load16?, peek?] at hlen?
  | cons b bs =>
      simp only [decode, hlen?, htype?, hpay?, hge, F.code_mask, F.ofCode_code, guard, if_true,
        Option.bind_eq_bind, Option.bind_some, Option.pure_def]
      simp only [Option.map_eq_bind, Function.comp_def]

/-- A payload at any depth is of the kind of its type. -/
theorem kind_of_mem_leaves {t : Attrs α} (ht : t.typed F) {l : α × Datum} (hl : l ∈ t.leaves) :
    l.2.kind = F.kind l.1 := by
  induction t with
  | nil => simp [leaves] at hl
  | leaf a p rest ih =>
      simp only [typed, Bool.and_eq_true, decide_eq_true_eq] at ht
      rcases List.mem_cons.mp hl with rfl | hl
      · exact ht.1
      · exact ih ht.2 hl
  | nest a kids rest ihk ih =>
      simp only [typed, Bool.and_eq_true, decide_eq_true_eq] at ht
      rcases List.mem_append.mp hl with hl | hl
      · exact ihk ht.1.2 hl
      · exact ih ht.2 hl

/-- A message is read as it was meant exactly when every number of it came in the order of
the reader or reads the same both ways. -/
theorem reread_eq_self_iff (v : α → ByteOrder) (e : ByteOrder) (t : Attrs α) :
    t.reread v e = t ↔ ∀ l ∈ t.leaves, v l.1 = e ∨ l.2.flip = l.2 := by
  have hp : ∀ (o : ByteOrder) (p : Datum), p.reread o e = p ↔ o = e ∨ p.flip = p := by
    intro o p
    unfold Datum.reread
    split
    · rename_i h
      simp [h]
    · rename_i h
      simp [h]
  induction t with
  | nil => simp [reread, leaves]
  | leaf a p rest ih => simp only [reread, leaf.injEq, true_and, hp, ih, leaves, List.forall_mem_cons]
  | nest a kids rest ihk ih =>
      simp only [reread, nest.injEq, true_and, ihk, ih, leaves, List.forall_mem_append]

/-- One attribute is read, and the rest is read in the same way. -/
theorem decode_attrBytes (e : ByteOrder) (fuel : Nat) (a : α) (payload tail : List UInt8)
    (hlen : HDRLEN + payload.length < 2 ^ 16) :
    decode F e (fuel + 1) (attrBytes e (F.code a) payload ++ tail) =
      (decode F e fuel tail).bind fun rest =>
        if F.kind a = .nested then (decode F e fuel payload).map fun kids => .nest a kids rest
        else (Datum.decode e (F.kind a) payload).map fun p => .leaf a p rest := by
  have hl := attrLen_toNat hlen
  have hdrop : (attrBytes e (F.code a) payload ++ tail).drop (align (HDRLEN + payload.length)) = tail :=
    List.drop_left' (attrBytes_length e (F.code a) payload)
  have hlen? : load16? e (attrBytes e (F.code a) payload ++ tail) 0 = some (attrLen payload.length) := by
    simp [attrBytes, load16?_head]
  have htype? : load16? e (attrBytes e (F.code a) payload ++ tail) 2 = some (F.code a) := by
    simp [attrBytes, load16?_skip, load16?_head]
  have hpay? : peek? (attrBytes e (F.code a) payload ++ tail) HDRLEN
      (HDRLEN + payload.length - HDRLEN) = some payload := by
    simp [attrBytes, peek?_skip, peek?_head, HDRLEN]
  rw [decode_step F hlen? htype? (by simp [hl]) (by rw [hl]; exact hpay?) fuel, hl, hdrop]

/-- What a host reads of attributes whose headers are in its order. -/
theorem decode_encode (e : ByteOrder) (v : α → ByteOrder) {t : Attrs α} (ht : t.typed F)
    {fuel : Nat} (hfuel : t.size ≤ fuel) (hsize : t.size < 2 ^ 16) :
    decode F e fuel (t.encode F e v) = some (t.reread v e) := by
  induction t generalizing fuel with
  | nil => cases fuel <;> rfl
  | leaf a p rest ih =>
      have hle := le_align (HDRLEN + p.size)
      simp only [size, HDRLEN] at hfuel hsize hle
      obtain ⟨fuel, rfl⟩ : ∃ n, fuel = n + 1 := ⟨fuel - 1, by omega⟩
      simp only [typed, Bool.and_eq_true, decide_eq_true_eq] at ht
      rw [encode, decode_attrBytes F e fuel a _ _ (by simp [HDRLEN]; omega),
        ih ht.2 (by omega) (by omega)]
      simp [← ht.1, Datum.decode_encode, reread]
  | nest a kids rest ihk ih =>
      have hle := le_align (HDRLEN + kids.size)
      simp only [size, HDRLEN] at hfuel hsize hle
      obtain ⟨fuel, rfl⟩ : ∃ n, fuel = n + 1 := ⟨fuel - 1, by omega⟩
      simp only [typed, Bool.and_eq_true, decide_eq_true_eq] at ht
      rw [encode, decode_attrBytes F e fuel a _ _ (by simp [HDRLEN]; omega),
        ih ht.2 (by omega) (by omega), ihk ht.1.2 (by omega) (by omega)]
      simp [ht.1.1, reread]

end Attrs

end UbntSdk.Lib.Netlink
