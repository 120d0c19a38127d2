/-
UbntSdk.Wprobe.Remote — remote access to the wireless probe
(`package/wprobe/src/user/wprobe-lib.c`).

A client sends a netlink message over a socket, a server hands it to its
kernel and sends what the kernel answers, and then a header that says that
it is done. All is in network byte order on the socket: a little-endian host
swaps the headers, the headers of the attributes and, by the table
`attribute_policy`, their payloads, in place.

Every access to a buffer goes through `peek?` and `poke?`, so `none` is an
access outside of it. The socket is the list of bytes that were written to
it; a read gets all it asks for if that much was written. What
`wprobe_local_send_msg` does between the message and its answers is a
parameter, and the programs' messages are left out.
-/
import UbntSdk.Wprobe.Message

namespace UbntSdk.Wprobe

open UbntSdk.Lib UbntSdk.Lib.Netlink

def WPROBE_MAX_MSGLEN : Nat := 65536

/-! ## Swapping words -/

/-- `__swab16`. -/
def swab16 (x : UInt16) : UInt16 := x <<< 8 ||| x >>> 8

/-- `__swab32`. -/
def swab32 (x : UInt32) : UInt32 :=
  x <<< 24 ||| x >>> 24 ||| (x &&& 0x0000ff00) <<< 8 ||| (x &&& 0x00ff0000) >>> 8

/-- `__swab64`. -/
def swab64 (x : UInt64) : UInt64 :=
  x <<< 56 ||| x >>> 56 ||| (x &&& 0x000000000000ff00) <<< 40 |||
    (x &&& 0x0000000000ff0000) <<< 24 ||| (x &&& 0x00000000ff000000) <<< 8 |||
    (x &&& 0x000000ff00000000) >>> 8 ||| (x &&& 0x0000ff0000000000) >>> 24 |||
    (x &&& 0x00ff000000000000) >>> 40

/-- `SWAP16` of the word at an offset. -/
def swap16At (e : ByteOrder) (buf : List UInt8) (off : Nat) : Option (List UInt8) :=
  match e with
  | .big => some buf
  | .little => (load16? e buf off).bind fun x => store16? e buf off (swab16 x)

/-- `SWAP32` of the word at an offset. -/
def swap32At (e : ByteOrder) (buf : List UInt8) (off : Nat) : Option (List UInt8) :=
  match e with
  | .big => some buf
  | .little => (load32? e buf off).bind fun x => store32? e buf off (swab32 x)

/-- `SWAP64` of the word at an offset. -/
def swap64At (e : ByteOrder) (buf : List UInt8) (off : Nat) : Option (List UInt8) :=
  match e with
  | .big => some buf
  | .little => (load64? e buf off).bind fun x => store64? e buf off (swab64 x)

/-! ## Attributes -/

/-- The types of `attribute_policy`. -/
inductive Policy where
  | unspec | u8 | u16 | u32 | u64 | string | nested
  deriving DecidableEq

/-- `attribute_policy`. -/
def attributePolicy : Attr → Policy
  | .id => .u32
  | .mac => .unspec
  | .name => .string
  | .flags => .u32
  | .type => .u8
  | .valS8 => .u8
  | .valS16 => .u16
  | .valS32 => .u32
  | .valS64 => .u64
  | .valU8 => .u8
  | .valU16 => .u16
  | .valU32 => .u32
  | .valU64 => .u64
  | .valSum => .u64
  | .valSumSq => .u64
  | .valSamples => .u32
  | .valScaleTime => .u64
  | .interval => .u64
  | .samplesMin => .u32
  | .samplesMax => .u32
  | .samplesScaleM => .u32
  | .samplesScaleD => .u32
  | .filterGroup => .nested
  | .rxcount => .u64
  | .txcount => .u64
  -- the entries that the table leaves at 0
  | .unspec | .interface | .duration | .valString | .filter => .unspec

/-- The entry of a type; behind the table nothing is done, and its last
entry, `WPROBE_ATTR_LAST`, is 0. -/
def policyOf (type : UInt16) : Policy := (Attr.ofCode type).elim .unspec attributePolicy

/-- The `switch` over the policy, for the attribute at `nla`; it is only
compiled for little-endian hosts. -/
def swapPayload (e : ByteOrder) (swapNested : Nat → Nat → List UInt8 → Option (List UInt8))
    (nla : Nat) (nlaLen type : UInt16) (buf : List UInt8) : Option (List UInt8) :=
  match e with
  | .big => some buf
  | .little =>
      match policyOf (type &&& TYPE_MASK) with
      | .u16 => swap16At e buf (nla + HDRLEN)
      | .u32 => swap32At e buf (nla + HDRLEN)
      | .u64 => swap64At e buf (nla + HDRLEN)
      | .nested => swapNested (nla + HDRLEN) (nla + nlaLen.toNat) buf
      | _ => some buf

/-- The two swaps of an attribute's header. -/
def swapAttrHdr (e : ByteOrder) (nla : Nat) (buf : List UInt8) : Option (List UInt8) :=
  (swap16At e buf nla).bind fun buf => swap16At e buf (nla + 2)

/-- An incoming header: swapped, and the length cut to what there is. -/
def swapAttrHdrIn (e : ByteOrder) (nla stop : Nat) (buf : List UInt8) : Option (List UInt8) := do
  let buf ← swapAttrHdr e nla buf
  let nlaLen ← load16? e buf nla
  if stop < nla + nlaLen.toNat then store16? e buf nla (UInt16.ofNat (stop - nla)) else some buf

/-- `wprobe_swap_nested` from `data` up to `stop`. The first argument bounds
the number of attributes. -/
def swapNested (e : ByteOrder) (outgoing : Bool) : Nat → Nat → Nat → List UInt8 → Option (List UInt8)
  | 0, data, stop, buf => if data < stop then none else some buf
  | fuel + 1, data, stop, buf =>
      if data < stop then do
        let buf ← if outgoing then some buf else swapAttrHdrIn e data stop buf
        let nlaLen ← load16? e buf data
        let type ← load16? e buf (data + 2)
        let buf ← swapPayload e (swapNested e outgoing fuel) data nlaLen type buf
        let buf ← if outgoing then swapAttrHdr e data buf else some buf
        let last ← load16? e buf data
        if last = 0 then some buf
        else swapNested e outgoing fuel (data + align nlaLen.toNat) stop buf
      else some buf

/-! ## Messages -/

/-- `swap_nlmsghdr`. `swap_genlmsghdr` does nothing. -/
def swapNlmsghdr (e : ByteOrder) (buf : List UInt8) : Option (List UInt8) := do
  let buf ← swap32At e buf 0
  let buf ← swap16At e buf 4
  let buf ← swap16At e buf 6
  let buf ← swap32At e buf 8
  swap32At e buf 12

/-- `struct wprobe_msg_hdr`. -/
structure MsgHdr where
  status : UInt16
  error : UInt16
  len : UInt32
  deriving DecidableEq

def WPROBE_MSG_DONE : UInt16 := 0
def WPROBE_MSG_DATA : UInt16 := 1

/-- `sizeof(struct wprobe_msg_hdr)`. -/
def MsgHdr.SIZE : Nat := 8

def MsgHdr.bytes (e : ByteOrder) (mhdr : MsgHdr) : List UInt8 :=
  word16 e mhdr.status ++ (word16 e mhdr.error ++ word32 e mhdr.len)

def MsgHdr.ofBytes (e : ByteOrder) (bs : List UInt8) : Option MsgHdr := do
  let status ← load16? e bs 0
  let error ← load16? e bs 2
  let len ← load32? e bs 4
  return ⟨status, error, len⟩

/-- `wprobe_swap_msg_hdr`. -/
def swapMsgHdr (e : ByteOrder) (mhdr : MsgHdr) : MsgHdr :=
  match e with
  | .big => mhdr
  | .little => ⟨swab16 mhdr.status, swab16 mhdr.error, swab32 mhdr.len⟩

/-- `read(socket, ..., n)`: the bytes and what is left, `none` when there are
fewer. -/
def readSocket (n : Nat) (socket : List UInt8) : Option (List UInt8 × List UInt8) :=
  if n ≤ socket.length then some (socket.take n, socket.drop n) else none

/-- `wprobe_msg_from_network`: `some none` is `NULL`. The buffer has 32 bytes
more than were read, here 0. -/
def msgFromNetwork (e : ByteOrder) (socket : List UInt8) (len : Nat) :
    Option (Option (List UInt8 × List UInt8)) :=
  match readSocket len socket with
  | none => some none
  | some (nlh, socket) => do
      let buf ← swapNlmsghdr e (nlh ++ List.replicate 32 0)
      let nlmsgLen ← load32? e buf 0
      if len < nlmsgLen.toNat then return none
      let buf ← swapNested e false (len + 1) MSG_HDRLEN nlmsgLen.toNat buf
      return some (buf, socket)

/-- `wprobe_msg_to_network`: what is written for the message at `nlh`. -/
def msgToNetwork (e : ByteOrder) (nlh : List UInt8) : Option (List UInt8) := do
  let buflen ← load32? e nlh 0
  let mhdr := swapMsgHdr e ⟨WPROBE_MSG_DATA, 0, buflen⟩
  let buf ← peek? nlh 0 buflen.toNat
  let buf ← swapNested e true (buflen.toNat + 1) MSG_HDRLEN buflen.toNat buf
  let buf ← swapNlmsghdr e buf
  return mhdr.bytes e ++ buf

/-! ## The client -/

/-- How a request ends. -/
inductive Outcome where
  | ret (r : Int)
  | exit
  deriving DecidableEq

/-- The messages that the callback got, and the end. -/
structure Reply where
  got : List (List UInt8)
  outcome : Outcome
  deriving DecidableEq

/-- The loop of `wprobe_remote_send_msg`, with the number of messages so
far. The first argument bounds the number of headers. -/
def remoteReceive (e : ByteOrder) : Nat → Nat → List UInt8 → Option Reply
  | 0, _, _ => none
  | fuel + 1, msgs, socket =>
      match readSocket MsgHdr.SIZE socket with
      | none => some ⟨[], .ret (-1)⟩
      | some (bs, socket) => do
          let mhdr := swapMsgHdr e (← MsgHdr.ofBytes e bs)
          if mhdr.status = WPROBE_MSG_DATA then
            if WPROBE_MAX_MSGLEN < mhdr.len.toNat then return ⟨[], .exit⟩
            match ← msgFromNetwork e socket mhdr.len.toNat with
            | none => return ⟨[], .ret (-EINVAL)⟩
            | some (msg, socket) =>
                let reply ← remoteReceive e fuel (msgs + 1) socket
                return ⟨msg :: reply.got, reply.outcome⟩
          else if mhdr.status = WPROBE_MSG_DONE then
            return ⟨[], .ret (if mhdr.error ≠ 0 then -(mhdr.error.toNat : Int) else msgs)⟩
          else remoteReceive e fuel msgs socket

/-! ## The server -/

/-- What the kernel makes of a message: its answers and the error code. -/
abbrev Netlink := Message → List Message × Int

/-- `wprobe_local_send_msg`: the messages that the callback gets, and the
error code. Bytes that are no message are refused. -/
def localSendMsg (e : ByteOrder) (kernel : Netlink) (msg : List UInt8) : List (List UInt8) × Int :=
  match Message.decode e msg with
  | some m => ((kernel m).1.map (·.bytes e), (kernel m).2)
  | none => ([], -EINVAL)

/-- The header at the end: it is written as it is. -/
def doneHdr (ret : Int) : MsgHdr :=
  ⟨WPROBE_MSG_DONE, if ret < 0 then UInt16.ofNat (-ret).toNat else 0, 0⟩

/-- What the server does with a request: what it returns, the message it
handed to the kernel and what it wrote. -/
structure Handled where
  ret : Int
  asked : Option (List UInt8)
  written : List UInt8
  deriving DecidableEq

/-- `wprobe_server_handle`. -/
def serverHandle (e : ByteOrder) (kernel : Netlink) (socket : List UInt8) : Option Handled :=
  match readSocket MsgHdr.SIZE socket with
  | none => some ⟨if socket = [] then -1 else -EINVAL, none, []⟩
  | some (bs, socket) => do
      let mhdr := swapMsgHdr e (← MsgHdr.ofBytes e bs)
      if mhdr.status ≠ WPROBE_MSG_DATA then return ⟨-ENOENT, none, []⟩
      if WPROBE_MAX_MSGLEN < mhdr.len.toNat then return ⟨-EINVAL, none, []⟩
      match ← msgFromNetwork e socket mhdr.len.toNat with
      | none => return ⟨-EINVAL, none, []⟩
      | some (msg, _) =>
          let (answers, ret) := localSendMsg e kernel msg
          let data ← answers.mapM (msgToNetwork e)
          return ⟨0, some msg, data.flatten ++ (doneHdr ret).bytes e⟩

/-! ## A request over the socket -/

/-- What comes of a request: the message that the kernel was asked, the
messages that the callback of the client read, and how the client ends. -/
structure Exchange where
  asked : Option Message
  answers : List (Option Message)
  outcome : Outcome

/-- `wprobe_remote_send_msg` of a client against `wprobe_server_handle`. -/
def exchange (client server : ByteOrder) (kernel : Netlink) (request : Message) : Option Exchange := do
  let sent ← msgToNetwork client (request.bytes client)
  let handled ← serverHandle server kernel sent
  let reply ← remoteReceive client (handled.written.length + 1) 0 handled.written
  return ⟨handled.asked.bind (Message.decode server), reply.got.map (Message.decode client),
    reply.outcome⟩

end UbntSdk.Wprobe
