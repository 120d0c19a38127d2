/-
UbntSdk.Wprobe.Message — the netlink messages of the wireless probe
(`package/wprobe/src/kernel/linux/wprobe.h` and `wprobe-core.c`).

`attrFamily` gives for each attribute the type with which the kernel and the
library put it into a message. A `Message` is what a message says: the
fields of `struct nlmsghdr` and `struct genlmsghdr` and the attributes. Its
length is that of its bytes; `reserved` is 0.

`Message.encode` are its bytes with the headers in one order and each
payload in an order of its own; a host builds it with all of them in its
own. `Message.decode` is what a host reads.
-/
import UbntSdk.Wprobe.Iface
import UbntSdk.Lib.Netlink

namespace UbntSdk.Wprobe

open UbntSdk.Lib UbntSdk.Lib.Netlink

/-- `WPROBE_ATTR_LAST`. -/
def WPROBE_ATTR_LAST : Nat := 30

/-- The place of an attribute in `enum wprobe_attr`. -/
def Attr.code (a : Attr) : UInt16 := UInt16.ofNat a.ctorIdx

def Attr.ofCode (code : UInt16) : Option Attr :=
  if code.toNat < WPROBE_ATTR_LAST then some (Attr.ofNat code.toNat) else none

/-- How an attribute is put into a message. -/
def Attr.kind : Attr → Kind
  | .type | .valS8 | .valU8 => .u8
  | .valS16 | .valU16 => .u16
  | .flags | .id | .valS32 | .valU32 | .valSamples => .u32
  | .samplesMin | .samplesMax | .samplesScaleM | .samplesScaleD => .u32
  | .duration | .valS64 | .valU64 | .valSum | .valSumSq | .valScaleTime => .u64
  | .interval | .rxcount | .txcount => .u64
  | .unspec | .interface | .mac | .name | .valString | .filter => .bytes
  | .filterGroup => .nested

def attrFamily : Family Attr where
  code := Attr.code
  ofCode := Attr.ofCode
  kind := Attr.kind
  ofCode_code := by intro a; cases a <;> rfl
  code_mask := by intro a; cases a <;> rfl

/-- `NLMSG_HDRLEN + GENL_HDRLEN`. -/
def MSG_HDRLEN : Nat := 20

/-- A message. -/
structure Message where
  type : UInt16
  flags : UInt16
  seq : UInt32
  pid : UInt32
  cmd : UInt8
  version : UInt8
  attrs : Attrs Attr
  typed : attrs.typed attrFamily
  /-- `nlmsg_len` holds the length. -/
  fits : MSG_HDRLEN + attrs.size < 2 ^ 32

namespace Message

/-- `nlmsg_len`. -/
def size (m : Message) : Nat := MSG_HDRLEN + m.attrs.size

/-- `struct nlmsghdr`. -/
def nlmsghdr (m : Message) (h : ByteOrder) : List UInt8 :=
  word32 h (UInt32.ofNat m.size) ++ (word16 h m.type ++ (word16 h m.flags ++
    (word32 h m.seq ++ word32 h m.pid)))

/-- `struct genlmsghdr`. -/
def genlmsghdr (m : Message) : List UInt8 := [m.cmd, m.version, 0, 0]

def encode (m : Message) (h : ByteOrder) (v : Attr → ByteOrder) : List UInt8 :=
  m.nlmsghdr h ++ (m.genlmsghdr ++ m.attrs.encode attrFamily h v)

/-- The bytes as a host builds them. -/
def bytes (m : Message) (e : ByteOrder) : List UInt8 := m.encode e fun _ => e

/-- What a host reads; `none` for bytes that are no message. -/
def decode (e : ByteOrder) (bs : List UInt8) : Option Message := do
  let len ← load32? e bs 0
  let type ← load16? e bs 4
  let flags ← load16? e bs 6
  let seq ← load32? e bs 8
  let pid ← load32? e bs 12
  let cmd ← bs[16]?
  let version ← bs[17]?
  let data ← peek? bs MSG_HDRLEN (len.toNat - MSG_HDRLEN)
  let attrs ← Attrs.decode attrFamily e data.length data
  if h : attrs.typed attrFamily ∧ MSG_HDRLEN + attrs.size < 2 ^ 32 then
    some ⟨type, flags, seq, pid, cmd, version, attrs, h.1, h.2⟩
  else none

/-- What is read in the order `e` of payloads in the orders `v`. -/
def reread (m : Message) (v : Attr → ByteOrder) (e : ByteOrder) : Message :=
  { m with
    attrs := m.attrs.reread v e
    typed := (m.attrs.typed_reread attrFamily v e).trans m.typed
    fits := (congrArg (MSG_HDRLEN + ·) (m.attrs.size_reread v e)).trans_lt m.fits }

@[simp] theorem nlmsghdr_length (m : Message) (h : ByteOrder) : (m.nlmsghdr h).length = 16 := by
  simp [nlmsghdr]

@[simp] theorem genlmsghdr_length (m : Message) : m.genlmsghdr.length = 4 := rfl

@[simp] theorem encode_length (m : Message) (h : ByteOrder) (v : Attr → ByteOrder) :
    (m.encode h v).length = m.size := by
  simp [encode, size, MSG_HDRLEN]
  omega

theorem toNat_size (m : Message) : (UInt32.ofNat m.size).toNat = m.size := by
  rw [UInt32.toNat_ofNat']
  exact Nat.mod_eq_of_lt m.fits

/-- The fields of the headers, in a buffer that begins with the message. -/
theorem load_encode (m : Message) (e : ByteOrder) (v : Attr → ByteOrder) (tail : List UInt8) :
    load32? e (m.encode e v ++ tail) 0 = some (UInt32.ofNat m.size) ∧
      load16? e (m.encode e v ++ tail) 4 = some m.type ∧
      load16? e (m.encode e v ++ tail) 6 = some m.flags ∧
      load32? e (m.encode e v ++ tail) 8 = some m.seq ∧
      load32? e (m.encode e v ++ tail) 12 = some m.pid ∧
      (m.encode e v ++ tail)[16]? = some m.cmd ∧ (m.encode e v ++ tail)[17]? = some m.version := by
  simp [encode, nlmsghdr, genlmsghdr, load32?_head, load32?_skip, load16?_head, load16?_skip,
    List.getElem?_append_right]

/-- What a host reads of a message whose headers are in its order. -/
theorem decode_encode (m : Message) (e : ByteOrder) (v : Attr → ByteOrder)
    (hsize : m.attrs.size < 2 ^ 16) (tail : List UInt8) :
    decode e (m.encode e v ++ tail) = some (m.reread v e) := by
  have hattrs := Attrs.decode_encode attrFamily e v m.typed (Nat.le_refl m.attrs.size) hsize
  have hlen : (UInt32.ofNat m.size).toNat - MSG_HDRLEN = m.attrs.size := by
    rw [toNat_size, size, Nat.add_sub_cancel_left]
  have hdata : peek? (m.encode e v ++ tail) MSG_HDRLEN ((UInt32.ofNat m.size).toNat - MSG_HDRLEN) =
      some (m.attrs.encode attrFamily e v) := by
    have hat : MSG_HDRLEN = (m.nlmsghdr e ++ m.genlmsghdr).length := by simp [MSG_HDRLEN]
    have hread := peek?_append _ (m.attrs.encode attrFamily e v) tail hat rfl
    rw [hlen]
    simpa [encode] using hread
  obtain ⟨h0, h4, h6, h8, h12, h16, h17⟩ := m.load_encode e v tail
  have hwf := (m.reread v e).typed
  have hfits := (m.reread v e).fits
  simp only [reread] at hwf hfits
  simp only [decode, h0, h4, h6, h8, h12, h16, h17, hdata, hattrs, Attrs.encode_length,
    Option.bind_eq_bind, Option.bind_some, hwf, hfits, and_self, dite_true, reread]

end Message

end UbntSdk.Wprobe
