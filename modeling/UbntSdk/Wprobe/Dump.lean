/-
UbntSdk.Wprobe.Dump — the netlink dumps of the wireless probe
(`package/wprobe/src/kernel/wprobe-core.c`): links, filters, and the items
of an interface or of a link with their values.

Netlink calls a dump again and again, each time with a new message, until
it leaves the message empty; `cb->args` is what the dump saves in between
(`UbntSdk.Lib.Paging`). A message is its room: how many bytes are left.

The functions that build a record put attribute after attribute and take
the record back when one does not fit. Three of them use what
`genlmsg_put` or `nla_nest_start` returned without a look: `NULL` when there
is no room. To end such a record or nest faults; to cancel such a record
takes nothing back.

The parsing of the request and the search for the interface are left out.
Time stamps are not converted to milliseconds.
-/
import UbntSdk.Wprobe.Iface
import UbntSdk.Lib.Paging

namespace UbntSdk.Wprobe

open UbntSdk.Lib

/-! ## Attributes and the room they take -/

/-- The two headers that `genlmsg_put` puts. -/
def GENLMSG_SIZE : Nat := 20

/-- `nla_total_size`. -/
def nlaTotalSize (len : Nat) : Nat := (4 + len + 3) / 4 * 4

/-- Put attributes with payloads of these lengths until one does not fit:
the room left, and whether all are in. -/
def putAttrs : List Nat → Nat → Nat × Bool
  | [], room => (room, true)
  | len :: rest, room =>
      if nlaTotalSize len ≤ room then putAttrs rest (room - nlaTotalSize len) else (room, false)

/-- A record in a function that looks at what `genlmsg_put` returned. -/
def putRecord (lens : List Nat) (room : Nat) : Put :=
  if room < GENLMSG_SIZE then .full room
  else
    let (left, ok) := putAttrs lens (room - GENLMSG_SIZE)
    if ok then .sent left else .full room

/-- A record in a function that does not. -/
def putRecordUnchecked (lens : List Nat) (room : Nat) : Put :=
  if room < GENLMSG_SIZE then
    let (left, ok) := putAttrs lens room
    if ok then .fault else .full left
  else
    let (left, ok) := putAttrs lens (room - GENLMSG_SIZE)
    if ok then .sent left else .full room

/-! ## Links -/

/-- `wprobe_dump_link`. -/
def dumpLink (room : Nat) : Put := putRecord [6] room

/-- The loop of `wprobe_dump_links`: the records, `i` and the room at its
end. `i` does not count the links that are passed over. -/
def dumpLinksLoop (start : Nat) : List Link → Nat → Nat → List Addr × Nat × Nat
  | [], i, room => ([], i, room)
  | l :: links, i, room =>
      if i < start then dumpLinksLoop start links i room
      else
        match dumpLink room with
        | .sent left =>
            let (records, i, room) := dumpLinksLoop start links (i + 1) left
            (l.addr :: records, i, room)
        | _ => ([], i, room)

/-- `wprobe_dump_links`. -/
def dumpLinks (dev : Iface) (args1 room : Nat) : Option (Page Addr Nat) :=
  let (records, i, left) := dumpLinksLoop args1 dev.links 0 room
  some ⟨records, i, room - left⟩

/-! ## Filters -/

/-- A filter group in a message: its name, and of each item the name and
the counters. -/
structure FilterRecord where
  name : List UInt8
  items : List (List UInt8 × FilterCounter)
  deriving DecidableEq

def FilterGroup.record (fg : FilterGroup) : FilterRecord where
  name := fg.name
  items := fg.items.map fun (item, counter) => (item.name, counter)

/-- `nla_nest_start`: whether it found room. -/
def nestStart (room : Nat) : Bool × Nat :=
  if nlaTotalSize 0 ≤ room then (true, room - nlaTotalSize 0) else (false, room)

/-- The loop of `wprobe_dump_filter_group`. -/
def dumpFilterItems : List (List UInt8 × FilterCounter) → Nat → Put
  | [], room => .sent room
  | (name, _) :: items, room =>
      let (item, room) := nestStart room
      let (room, ok) := putAttrs [name.length + 1, 8, 8] room
      if ok then if item then dumpFilterItems items room else .fault
      else .full room

/-- `wprobe_dump_filter_group`. -/
def dumpFilterGroup (fg : FilterRecord) (room : Nat) : Put :=
  if room < GENLMSG_SIZE then .full room
  else
    let (left, ok) := putAttrs [fg.name.length + 1] (room - GENLMSG_SIZE)
    if ok then
      let (group, left) := nestStart left
      match dumpFilterItems fg.items left with
      | .sent left => if group then .sent left else .fault
      | .full _ => .full room
      | .fault => .fault
    else .full room

/-- `wprobe_dump_filters`. -/
def dumpFilters (dev : Iface) (args1 room : Nat) : Option (Page FilterRecord Nat) :=
  match dev.activeFilter with
  | none => some ⟨[], args1, 0⟩
  | some f => resume dumpFilterGroup (f.groups.map FilterGroup.record) args1 room

/-! ## Items and values -/

/-- The value in a record. -/
inductive Payload where
  | none
  | u8 (x : UInt8)
  | u16 (x : UInt16)
  | u32 (x : UInt32)
  | u64 (x : UInt64)
  | string (x : List UInt8)
  deriving DecidableEq

/-- `WPROBE_VAL_SUM`, `WPROBE_VAL_SUM_SQ`, `WPROBE_VAL_SAMPLES` and
`WPROBE_VAL_SCALE_TIME`. -/
structure Stats where
  sum : Int64
  sumSq : Int64
  samples : UInt32
  scaleTime : UInt64
  deriving DecidableEq

/-- What `wprobe_send_item_value` puts into a message. -/
structure ValueRecord where
  id : UInt32
  flags : UInt32
  type : Attr
  duration : UInt64
  payload : Payload
  stats : Option Stats
  deriving DecidableEq

/-- The payload for a value of this type. -/
def payloadOf (ty : Attr) (v : Value) : Payload :=
  match ty with
  | .valS8 | .valU8 => .u8 v.num.toUInt8
  | .valS16 | .valU16 => .u16 v.num.toUInt16
  | .valS32 | .valU32 => .u32 v.num.toUInt32
  | .valS64 | .valU64 => .u64 v.num
  | .valString => .string (v.str.getD [])
  | _ => .none

/-- Strings and unknown types go without statistics. -/
def statsOf (item : Item) (v : Value) : Option Stats :=
  if (sample item.type v).isSome ∧ item.flags &&& WPROBE_F_KEEPSTAT ≠ 0 then
    some ⟨v.s, v.ss, v.n, v.scaleTimestamp⟩
  else none

def valueRecord (item : Item) (i : Nat) (flags : UInt32) (v : Value) : ValueRecord where
  id := i.toUInt32
  flags := flags
  type := item.type
  duration := v.last - v.first
  payload := payloadOf item.type v
  stats := statsOf item v

def Payload.lens : Payload → List Nat
  | .none => []
  | .u8 _ => [1]
  | .u16 _ => [2]
  | .u32 _ => [4]
  | .u64 _ => [8]
  | .string x => [x.length + 1]

def ValueRecord.lens (r : ValueRecord) : List Nat :=
  [4, 4, 1, 8] ++ r.payload.lens ++ if r.stats.isSome then [8, 8, 4, 8] else []

/-- What `wprobe_send_item_info` puts into a message. -/
structure ItemRecord where
  mac : Option Addr
  id : UInt32
  name : List UInt8
  type : Attr
  flags : UInt32
  deriving DecidableEq

def itemRecord (dev : Iface) (item : Item) (i : Nat) : ItemRecord where
  mac := if i = 0 then dev.addr else none
  id := i.toUInt32
  name := item.name
  type := item.type
  flags := item.flags

def ItemRecord.lens (r : ItemRecord) : List Nat :=
  (if r.mac.isSome then [6] else []) ++ [4, r.name.length + 1, 1, 4]

inductive InfoRecord where
  | value (r : ValueRecord)
  | item (r : ItemRecord)
  deriving DecidableEq

/-- `wprobe_send_item_value` and `wprobe_send_item_info`. -/
def sendItem : InfoRecord → Nat → Put
  | .value r, room => putRecordUnchecked r.lens room
  | .item r, room => putRecordUnchecked r.lens room

/-! ## wprobe_dump_info -/

inductive InfoCmd where
  | getList
  | getInfo
  deriving DecidableEq

/-- The attributes of the request. -/
structure InfoRequest where
  cmd : InfoCmd
  mac : Option Addr
  flags : Option UInt32

/-- `cb->args[1]` to `cb->args[3]`. -/
structure InfoArgs where
  link : Option Nat
  vflags : UInt32
  i : Nat

def WPROBE_F_LINK : UInt32 := 0x80000000

/-- The link of a `WPROBE_CMD_GET_INFO` request with an address, and its
flags. -/
def requestLink (dev : Iface) (req : InfoRequest) : Except Int (Option Nat × UInt32) :=
  match req.cmd, req.mac with
  | .getInfo, some mac =>
      match findLink dev mac with
      | none => .error (-ENOENT)
      | some k => .ok (some k, (dev.links[k]?).elim 0 (·.flags))
  | _, _ => .ok (none, 0)

/-- The sync and the copy to the temporary storage. -/
def snapshot (dev : Iface) (l : Option Nat) (sync : SyncData) (now : UInt64) : Iface :=
  let dev := syncData dev l true sync now
  { dev with queryVal := copyVals (dev.items l).length (dev.vals l) dev.queryVal }

/-- `vflags` for a request. -/
def requestFlags (req : InfoRequest) (vflags : UInt32) : UInt32 :=
  vflags ||| req.flags.getD 0 ||| if req.mac.isSome then WPROBE_F_LINK else 0

/-- The first call of a dump. -/
def startInfo (dev : Iface) (req : InfoRequest) (sync : SyncData) (now : UInt64) :
    Except Int (Iface × InfoArgs) :=
  match requestLink dev req with
  | .error err => .error err
  | .ok (l, vflags) =>
      let dev := if req.cmd = .getInfo then snapshot dev l sync now else dev
      .ok (dev, ⟨l, requestFlags req vflags, 0⟩)

/-- The items that a dump with these flags goes through. -/
def infoItems (dev : Iface) (vflags : UInt32) : List Item :=
  if vflags &&& WPROBE_F_LINK ≠ 0 then dev.linkItems else dev.globalItems

/-- The records of all items. -/
def infoRecords (dev : Iface) (cmd : InfoCmd) (vflags : UInt32) : List InfoRecord :=
  (infoItems dev vflags).mapIdx fun i item =>
    match cmd with
    | .getInfo => .value (valueRecord item i vflags (dev.queryVal i))
    | .getList => .item (itemRecord dev item i)

/-- The link of a later call must still be there. -/
def checkLink (dev : Iface) (args : InfoArgs) : Except Int (Iface × InfoArgs) :=
  match args.link with
  | some k => if k < dev.links.length then .ok (dev, args) else .error (-ENOENT)
  | none => .ok (dev, args)

/-- `wprobe_dump_info`, with `cb->args` if it is not the first call. -/
def dumpInfo (dev : Iface) (req : InfoRequest) (sync : SyncData) (now : UInt64)
    (cb : Option InfoArgs) (room : Nat) :
    Except Int (Iface × Option (Page InfoRecord InfoArgs)) :=
  let started :=
    match cb with
    | none => startInfo dev req sync now
    | some args => checkLink dev args
  started.map fun (dev, args) =>
    let page := resume sendItem (infoRecords dev req.cmd args.vflags) args.i room
    (dev, page.map fun page => ⟨page.records, { args with i := page.next }, page.len⟩)

end UbntSdk.Wprobe
