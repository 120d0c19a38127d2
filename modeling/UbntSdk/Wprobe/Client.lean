/-
UbntSdk.Wprobe.Client — what a client of the wireless probe keeps of its
replies (`package/wprobe/src/user/wprobe-lib.c`): `wprobe_request_data` and
`wprobe_update_links`, with `nla_parse` of `libnl-tiny`.

An object of a list has its address in `node`. Both functions move a list to
a temporary head, and the handler of a reply moves an object back. The
replies are those that `send_msg` hands to the handler before it returns, in
their order; it may return anything. What the handler returns decides only
which replies `send_msg` hands over, so it is not used.

`none` is the read through a null pointer. A reply carries with it what
`malloc` returns while it is handled, and what is left in the variable of
`nla_get_u64`. The averages, which are floating-point numbers, are left out.
-/
import UbntSdk.Wprobe.Remote
import UbntSdk.Lib.Keyed

namespace UbntSdk.Wprobe.Client

open UbntSdk.Lib UbntSdk.Lib.Netlink

/-! ## Replies -/

/-- `tb`: the payloads by type. -/
abbrev Tb := Attr → Option (List UInt8)

/-- The least length that `validate_nla` asks of a payload. -/
def minlen (a : Attr) : Nat :=
  if a = .mac then 6
  else
    match attributePolicy a with
    | .u8 => 1
    | .u16 => 2
    | .u32 => 4
    | .u64 => 8
    | .string => 1
    | .unspec | .nested => 0

/-- `validate_nla` by the table `attribute_policy`. -/
def validateNla (a : Attr) (payload : List UInt8) : Bool :=
  decide (minlen a ≤ payload.length) && (a ≠ .mac || payload.length ≤ 6) &&
    (attributePolicy a ≠ .string || payload.getLast? = some 0)

/-- The loop of `nla_parse` over the attributes of a message: it ends at one
that is not valid. Type 0 and the types behind the table are passed over. -/
def parseFrom : List (UInt16 × List UInt8) → Tb → Tb
  | [], tb => tb
  | (type, payload) :: rest, tb =>
      match Attr.ofCode (type &&& TYPE_MASK) with
      | none => parseFrom rest tb
      | some .unspec => parseFrom rest tb
      | some a =>
          if validateNla a payload then parseFrom rest (Function.update tb a (some payload)) else tb

/-- `nla_parse`. -/
def nlaParse (attrs : List (UInt16 × List UInt8)) : Tb := parseFrom attrs fun _ => none

/-- A reply: its attributes, and what is met while it is handled. -/
structure Reply where
  attrs : List (UInt16 × List UInt8)
  malloc : Option Nat
  tmp : UInt64

def Reply.tb (r : Reply) : Tb := nlaParse r.attrs

/-- `nla_get_u8`. -/
def nlaGetU8 (payload : List UInt8) : UInt8 := payload.headD 0

/-- `nla_get_u16`. -/
def nlaGetU16 (e : ByteOrder) (payload : List UInt8) : UInt16 := ofWord16 e (payload.take 2)

/-- `nla_get_u32`. -/
def nlaGetU32 (e : ByteOrder) (payload : List UInt8) : UInt32 := ofWord32 e (payload.take 4)

/-- `nla_get_u64`; of no attribute it is what `tmp` held. -/
def nlaGetU64 (e : ByteOrder) (tmp : UInt64) (nla : Option (List UInt8)) : UInt64 :=
  nla.elim tmp fun payload => ofWord64 e (payload.take 8)

/-- A list and the temporary head with what is not moved back. -/
structure SaveCb (α : Type) where
  list : List α
  oldList : List α

/-! ## Attributes -/

/-- `struct wprobe_value`, with the union as a number. -/
structure Value where
  num : UInt64
  s : UInt64
  ss : UInt64
  n : UInt32
  deriving DecidableEq

def Value.zero : Value := ⟨0, 0, 0, 0⟩

/-- `struct wprobe_attribute`. -/
structure Attribute where
  node : Nat
  id : UInt32
  type : Int
  flags : UInt32
  val : Value
  name : List UInt8
  deriving DecidableEq

/-- The `switch` of `HANDLE_INT_TYPE`s. -/
def handleIntType (e : ByteOrder) (r : Reply) (ty : Attr) : Option UInt64 :=
  match ty with
  | .valS8 | .valU8 => (r.tb ty).map fun p => (nlaGetU8 p).toUInt64
  | .valS16 | .valU16 => (r.tb ty).map fun p => (nlaGetU16 e p).toUInt64
  | .valS32 | .valU32 => (r.tb ty).map fun p => (nlaGetU32 e p).toUInt64
  | .valS64 | .valU64 => some (nlaGetU64 e r.tmp (r.tb ty))
  | _ => some 0

/-- The sums of an attribute that keeps statistics. -/
def saveStats (e : ByteOrder) (r : Reply) (val : Value) : Value :=
  { val with
    s := if (r.tb .valSum).isSome then nlaGetU64 e r.tmp (r.tb .valSum) else val.s
    ss := if (r.tb .valSumSq).isSome then nlaGetU64 e r.tmp (r.tb .valSumSq) else val.ss
    n := (r.tb .valSamples).elim val.n (nlaGetU32 e) }

/-- The rest of `save_attrdata_handler` once the attribute is found. -/
def saveValue (e : ByteOrder) (r : Reply) (type : UInt8) (attr : Attribute) : Option Attribute :=
  if attr.type ≠ type.toNat then some attr
  else
    match Attr.ofCode type.toUInt16 with
    | none => some attr
    | some ty =>
        if ty.ctorIdx < Attr.valString.ctorIdx ∨ Attr.valU64.ctorIdx < ty.ctorIdx then some attr
        else
          (handleIntType e r ty).map fun num =>
            let val := { Value.zero with num := num }
            { attr with
              val := if attr.flags &&& WPROBE_F_KEEPSTAT ≠ 0 then saveStats e r val else val }

/-- `save_attrdata_handler`. -/
def saveAttrdataHandler (e : ByteOrder) (r : Reply) (cb : SaveCb Attribute) :
    Option (SaveCb Attribute × Int) :=
  match r.tb .id, r.tb .type with
  | some id, some type =>
      match takeKey Attribute.id (nlaGetU32 e id) cb.oldList with
      | none => some (cb, -1)
      | some (attr, oldList) => do
          let attr ← saveValue e r (nlaGetU8 type) attr
          return (⟨cb.list ++ [attr], oldList⟩, 0)
  | _, _ => some (cb, -1)

/-- The handler on one reply after the other. -/
def saveAttrdata (e : ByteOrder) : List Reply → SaveCb Attribute → Option (SaveCb Attribute)
  | [], cb => some cb
  | r :: replies, cb => (saveAttrdataHandler e r cb).bind fun out => saveAttrdata e replies out.1

/-! ## Links -/

/-- `struct wprobe_link`. -/
structure Link where
  node : Nat
  flags : UInt32
  addr : List UInt8
  deriving DecidableEq

/-- The address in a reply, when there is one of 6 bytes. -/
def Reply.mac (r : Reply) : Option (List UInt8) := (r.tb .mac).filter (·.length = 6)

/-- `get_link`: the link and the old list without it. -/
def getLink (oldList : List Link) (addr : List UInt8) (malloc : Option Nat) :
    Option (Link × List Link) :=
  match takeKey Link.addr addr oldList with
  | some found => some found
  | none => malloc.map fun node => (⟨node, 0, addr⟩, oldList)

/-- `save_link_handler`. -/
def saveLinkHandler (e : ByteOrder) (r : Reply) (cb : SaveCb Link) : SaveCb Link × Int :=
  match r.mac with
  | none => (cb, -1)
  | some addr =>
      match getLink cb.oldList addr r.malloc with
      | none => (cb, -1)
      | some (link, oldList) =>
          let link := { link with flags := (r.tb .flags).elim link.flags (nlaGetU32 e) }
          (⟨cb.list ++ [link], oldList⟩, 0)

/-- The handler on one reply after the other. -/
def saveLinks (e : ByteOrder) (replies : List Reply) (cb : SaveCb Link) : SaveCb Link :=
  replies.foldl (fun cb r => (saveLinkHandler e r cb).1) cb

/-! ## Requests -/

/-- The lists of `struct wprobe_iface`. -/
structure Dev where
  globalAttr : List Attribute
  linkAttr : List Attribute
  links : List Link
  deriving DecidableEq

/-- The list that a request is about. -/
def Dev.attrs (dev : Dev) (link : Bool) : List Attribute :=
  if link then dev.linkAttr else dev.globalAttr

def Dev.setAttrs (dev : Dev) (link : Bool) (attrs : List Attribute) : Dev :=
  if link then { dev with linkAttr := attrs } else { dev with globalAttr := attrs }

/-- `wprobe_request_data`, for a link when it is given an address. `built` says
whether there is memory for the message; `err` is what `send_msg` returns. -/
def requestData (e : ByteOrder) (dev : Dev) (link built : Bool) (replies : List Reply) (err : Int) :
    Option (Dev × Int) :=
  if ¬built then some (dev, -ENOMEM)
  else do
    let cb ← saveAttrdata e replies ⟨[], dev.attrs link⟩
    return (dev.setAttrs link (cb.list ++ cb.oldList), err)

/-- `wprobe_update_links`. Where it returns early, nothing holds what is left
on the temporary head. -/
def updateLinks (e : ByteOrder) (dev : Dev) (built : Bool) (replies : List Reply) (err : Int) :
    Dev × Int :=
  if ¬built then ({ dev with links := [] }, -ENOMEM)
  else
    let cb := saveLinks e replies ⟨[], dev.links⟩
    if err < 0 then ({ dev with links := cb.list }, err) else ({ dev with links := cb.list }, 0)

end UbntSdk.Wprobe.Client
