/-
UbntSdk.Wprobe.Filter — the filters of the wireless probe
(`package/wprobe/src/kernel/wprobe-core.c`): `wprobe_check_filter` and
`wprobe_set_filter`.

A filter blob is a header and then groups: a group header with the number
of its items, and for each item a header with the number of its
instructions and the instructions. `wprobe_check_filter` walks over the blob
and converts the numbers in place; `wprobe_set_filter` copies the blob and
walks over the copy.

Addresses count from the first group header, which is where the length that
`wprobe_check_filter` is given starts; the file header is the 8 bytes in
front of it. Pointers do not wrap around, and `size_t` has 32 bits.
`sk_chk_filter` is a parameter. What `wprobe_check_filter` prints is left
out.
-/
import UbntSdk.Lib.Memory

namespace UbntSdk.Wprobe

open UbntSdk.Lib

def WPROBE_MAX_FRAME_SIZE : Nat := 1900

/-- `sizeof(struct wprobe_filter_item_hdr)`. -/
def ITEM_HDR_SIZE : Int := 36

/-- `sizeof(struct wprobe_filter_hdr)`. -/
def FILTER_HDR_SIZE : Nat := 8

/-- `struct sock_filter`. -/
structure SockFilter where
  code : UInt16
  jt : UInt8
  jf : UInt8
  k : UInt32
  deriving DecidableEq

/-- `n * sizeof(struct sock_filter)` as it moves a pointer. -/
def sockFilterBytes (n : Int) : Int := wrap32 (n * 8)

/-! ## Headers and instructions in memory -/

/-- `hdr->name[31] = 0`, and `hdr->n_items` converted in place: the number
and the memory. -/
def fixItemHdr (e : ByteOrder) (hdr : Int) (mem : Memory) : Int × Memory :=
  let mem := mem.write (hdr + 31) [0]
  let nItems := be32ToCpu e (mem.u32 e (hdr + 32))
  (int32 nItems, mem.put32 e (hdr + 32) nItems)

/-- One instruction converted in place. -/
def fixSockFilter (e : ByteOrder) (sf : Int) (mem : Memory) : Memory :=
  let mem := mem.put16 e sf (be16ToCpu e (mem.u16 e sf))
  mem.put32 e (sf + 4) (be32ToCpu e (mem.u32 e (sf + 4)))

/-- The loop over `n` instructions. -/
def fixSockFilters (e : ByteOrder) : Nat → Int → Memory → Memory
  | 0, _, mem => mem
  | n + 1, sf, mem => fixSockFilters e n (sf + 8) (fixSockFilter e sf mem)

def sockFilterAt (e : ByteOrder) (mem : Memory) (sf : Int) : SockFilter :=
  ⟨mem.u16 e sf, mem (sf + 2), mem (sf + 3), mem.u32 e (sf + 4)⟩

/-- The program of `n` instructions at `sf`. -/
def sockFiltersAt (e : ByteOrder) (mem : Memory) (sf : Int) (n : Nat) : List SockFilter :=
  (List.range n).map fun (k : Nat) => sockFilterAt e mem (sf + 8 * k)

/-! ## wprobe_check_filter -/

/-- The part of the loop over the items behind the item header: the
instructions are converted and checked. -/
def checkInsns (e : ByteOrder) (skChkFilter : List SockFilter → Bool) (nItems : Int) (data : Int)
    (mem : Memory) : Option Memory :=
  if nItems > 1024 then none
  else if nItems > 0 then
    let mem := fixSockFilters e nItems.toNat data mem
    if skChkFilter (sockFiltersAt e mem data nItems.toNat) then some mem else none
  else some mem

/-- The loop over the items of a group: where it ends, and the memory;
`none` is an overrun or a program that `sk_chk_filter` rejects. -/
def checkItems (e : ByteOrder) (skChkFilter : List SockFilter → Bool) (stop : Int) :
    Nat → Int → Memory → Option (Int × Memory)
  | 0, data, mem => some (data, mem)
  | n + 1, data, mem =>
      if data + ITEM_HDR_SIZE > stop then none
      else
        let (nItems, mem) := fixItemHdr e data mem
        match checkInsns e skChkFilter nItems (data + ITEM_HDR_SIZE) mem with
        | none => none
        | some mem =>
            checkItems e skChkFilter stop n (data + ITEM_HDR_SIZE + sockFilterBytes nItems) mem

/-- The loop over the groups, with the number of items so far. -/
def checkGroups (e : ByteOrder) (skChkFilter : List SockFilter → Bool) (stop : Int) :
    Nat → Int → Int → Memory → Option (Int × Memory)
  | 0, is, _, mem => some (is, mem)
  | n + 1, is, data, mem =>
      if data + ITEM_HDR_SIZE > stop then none
      else
        let (curIs, mem) := fixItemHdr e data mem
        match checkItems e skChkFilter stop curIs.toNat (data + ITEM_HDR_SIZE) mem with
        | none => none
        | some (data, mem) => checkGroups e skChkFilter stop n (wrap32 (is + curIs)) data mem

/-- `wprobe_check_filter`: the number of items (0 for a blob that is
rejected) and the memory. -/
def checkFilter (e : ByteOrder) (skChkFilter : List SockFilter → Bool) (mem : Memory)
    (datalen gs : Nat) : Int × Memory :=
  (checkGroups e skChkFilter datalen gs 0 0 mem).getD (0, mem)

/-! ## wprobe_set_filter -/

/-- `f->items[index] = item`. -/
structure ItemStore where
  index : Nat
  item : Int

/-- What is written to `f->groups[index]`: where the name is, the first
index of the items and of the counters, and their number. -/
structure GroupStore where
  index : Nat
  name : Int
  items : Nat
  nItems : Int

/-- The loop over the items of a group: the stores, and where it ends. -/
def walkItems (e : ByteOrder) (mem : Memory) : Nat → Int → Nat → List ItemStore × Int
  | 0, data, _ => ([], data)
  | n + 1, data, curIs =>
      let nItems := int32 (mem.u32 e (data + 32))
      let (stores, next) :=
        walkItems e mem n (data + ITEM_HDR_SIZE + sockFilterBytes nItems) (curIs + 1)
      (⟨curIs, data⟩ :: stores, next)

/-- The loop over the groups, each with the stores of its items. -/
def walkGroups (e : ByteOrder) (mem : Memory) :
    Nat → Nat → Int → Nat → List (GroupStore × List ItemStore)
  | 0, _, _, _ => []
  | n + 1, i, data, curIs =>
      let nItems := int32 (mem.u32 e (data + 32))
      let (stores, next) := walkItems e mem nItems.toNat (data + ITEM_HDR_SIZE) curIs
      (⟨i, data, curIs, nItems⟩, stores) :: walkGroups e mem n (i + 1) next (curIs + stores.length)

/-- `memcpy(f->data, data, len)`: the copy is at address 0 of its own
memory, with `heap` around it. -/
def copyData (mem : Memory) (len : Nat) (heap : Memory) : Memory :=
  fun i => if 0 ≤ i ∧ i < len then mem i else heap i

/-- `struct wprobe_filter_item`. -/
structure FilterItem where
  name : List UInt8
  nItems : Int
  filter : List SockFilter
  deriving DecidableEq

/-- `struct wprobe_filter_counter`. -/
structure FilterCounter where
  tx : UInt64
  rx : UInt64
  deriving DecidableEq

/-- `struct wprobe_filter_group`, with what its pointers lead to: each item
and its counter. The pointers to the items and the counters of all groups are in
two arrays, and nothing keeps them there (`ActiveFilter.itemRoom`). -/
structure FilterGroup where
  name : List UInt8
  items : List (FilterItem × FilterCounter)
  deriving DecidableEq

/-- `struct wprobe_filter`. -/
structure Filter where
  groups : List FilterGroup
  deriving DecidableEq

/-- The text of a name of 32 bytes. -/
def nameAt (mem : Memory) (hdr : Int) : List UInt8 := (mem.read hdr 32).takeWhile (· ≠ 0)

def itemAt (e : ByteOrder) (mem : Memory) (item : Int) : FilterItem where
  name := nameAt mem item
  nItems := int32 (mem.u32 e (item + 32))
  filter := sockFiltersAt e mem (item + ITEM_HDR_SIZE) (int32 (mem.u32 e (item + 32))).toNat

def groupAt (e : ByteOrder) (mem : Memory) (g : GroupStore × List ItemStore) : FilterGroup where
  name := nameAt mem g.1.name
  items := g.2.map fun s => (itemAt e mem s.item, ⟨0, 0⟩)

def EINVAL : Int := 22
def ENOMEM : Int := 12
def ENOENT : Int := 2

/-- What the functions of the kernel do: `sk_chk_filter`, whether an
allocation of a size succeeds, and the memory around the copy. -/
structure Kernel where
  order : ByteOrder
  skChkFilter : List SockFilter → Bool
  kmalloc : Nat → Bool
  heap : Memory

/-- The sizes that `wprobe_set_filter` allocates: the filter with its groups,
the frame, the copy, the items and the counters. A negative number of items
is a huge size. -/
def allocations (len gs : Nat) (is : Int) : List Nat :=
  [28 + gs * 16, WPROBE_MAX_FRAME_SIZE, len, (4 * is % 2 ^ 32).toNat, (16 * is % 2 ^ 32).toNat]

def MAGIC : List UInt8 := [0x57, 0x50, 0x46, 0x46]

/-- `wprobe_set_filter`. -/
def setFilter (k : Kernel) (mem : Memory) (len : Nat) : Except Int Filter :=
  if len < FILTER_HDR_SIZE then .error (-EINVAL)
  else if mem.read (-8) 4 ≠ MAGIC then .error (-EINVAL)
  else
    let gs := (be16ToCpu k.order (mem.u16 k.order (-2))).toNat
    let len := len - FILTER_HDR_SIZE
    let (is, mem) := checkFilter k.order k.skChkFilter mem len gs
    if is = 0 then .error (-EINVAL)
    else if (allocations len gs is).all k.kmalloc then
      let data := copyData mem len k.heap
      .ok ⟨(walkGroups k.order data gs 0 0 0).map (groupAt k.order data)⟩
    else .error (-ENOMEM)

end UbntSdk.Wprobe
