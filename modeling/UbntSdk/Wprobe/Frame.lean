/-
UbntSdk.Wprobe.Frame — frames that the driver gives to the wireless probe
(`wprobe_add_frame` in `package/wprobe/src/kernel/wprobe-core.c`).

A frame is put into the filter's buffer behind two headers, and each group
counts it for one of its items. The buffer is what `skb_put` has been asked
for; `sk_run_filter` is a parameter.

The items and counters of all groups lie in two arrays, which were allocated for
the number that `wprobe_check_filter` returned. A filter carries what these have
room for; an item or a counter with a place behind that is memory of others.
-/
import UbntSdk.Lib.Words
import UbntSdk.Wprobe.Filter

namespace UbntSdk.Wprobe

open UbntSdk.Lib

/-- `sizeof(struct wprobe_rtap_hdr)`. -/
def RTAP_HDR_SIZE : Nat := 8

/-- `sizeof(struct wprobe_wlan_hdr)`. -/
def WLAN_HDR_SIZE : Nat := 4

def WPROBE_PKT_RX : UInt8 := 0x00
def WPROBE_PKT_TX : UInt8 := 0x10

/-- `struct wprobe_wlan_hdr`. -/
structure WlanHdr where
  len : UInt16
  snr : UInt8
  type : UInt8
  deriving DecidableEq

/-- The arguments of `wprobe_add_frame`. -/
structure Frame where
  hdr : WlanHdr
  data : Nat → UInt8
  len : Int32

/-! ## The buffer -/

/-- A filter with its buffer, the bytes that are there before a frame is, and
with the numbers of entries that its arrays have room for. -/
structure ActiveFilter extends Filter where
  hdrlen : Nat
  rtap : List UInt8
  itemRoom : Nat
  counterRoom : Nat

/-- The length of the header in front of a frame; the one of a new filter
is 0. -/
def wlanHdrlen (hdrlen : Nat) : Nat := if hdrlen < WLAN_HDR_SIZE then WLAN_HDR_SIZE else hdrlen

/-- `struct wprobe_rtap_hdr`. -/
def rtapHdr (hdrlen : Nat) : List UInt8 :=
  [0, 0] ++ word16 .little (UInt16.ofNat (RTAP_HDR_SIZE + hdrlen)) ++ [0, 0, 0, 0]

/-- `gs` of `wprobe_set_filter`: the number of groups in the header. -/
def headerGroups (k : Kernel) (mem : Memory) : Nat := (be16ToCpu k.order (mem.u16 k.order (-2))).toNat

/-- `is` of `wprobe_set_filter`: what `wprobe_check_filter` has returned. -/
def checkedItems (k : Kernel) (mem : Memory) (len : Nat) : Int :=
  (checkFilter k.order k.skChkFilter mem (len - FILTER_HDR_SIZE) (headerGroups k mem)).1

/-- `wprobe_set_filter`, with what it does to the buffer, and the entries of
4 and of 16 bytes that it has allocated. -/
def installFilter (k : Kernel) (mem : Memory) (len : Nat) : Except Int ActiveFilter :=
  (setFilter k mem len).map fun f =>
    { f with
      hdrlen := wlanHdrlen 0
      rtap := rtapHdr (wlanHdrlen 0)
      itemRoom := (4 * checkedItems k mem len % 2 ^ 32).toNat / 4
      counterRoom := (16 * checkedItems k mem len % 2 ^ 32).toNat / 16 }

/-- How many bytes of the frame are copied. The sum is one of `unsigned int`,
as `skb->len` is. -/
def clipLen (len : Int32) : Nat :=
  let skbLen := UInt32.ofNat RTAP_HDR_SIZE
  if len.toUInt32 + skbLen > UInt32.ofNat WPROBE_MAX_FRAME_SIZE then
    (UInt32.ofNat WPROBE_MAX_FRAME_SIZE - skbLen).toNat
  else len.toUInt32.toNat

/-- The header in front of the frame, with its length in network order, in
`hdrlen` bytes of which the first are written. -/
def wlanHdr (hdrlen : Nat) (hdr : WlanHdr) : List UInt8 :=
  word16 .big hdr.len ++ [hdr.snr, hdr.type] ++ List.replicate (hdrlen - WLAN_HDR_SIZE) 0

/-- What is put into the buffer. -/
def ActiveFilter.skb (f : ActiveFilter) (frame : Frame) : List UInt8 :=
  f.rtap ++ wlanHdr f.hdrlen frame.hdr ++ (List.range (clipLen frame.len)).map frame.data

/-! ## Counting -/

/-- `sk_run_filter`: the buffer, a program and its length. -/
abbrev SkRunFilter := List UInt8 → List SockFilter → Int → UInt32

/-- The loop over the items of a group from item `j` on: the item where it
breaks, and `def`. -/
def searchItems (accepts : FilterItem → Bool) :
    List FilterItem → Nat → Option Nat → Option Nat × Option Nat
  | [], _, dflt => (none, dflt)
  | fi :: rest, j, dflt =>
      if fi.nItems = 0 then searchItems accepts rest (j + 1) (some j)
      else if accepts fi then (some j, dflt)
      else searchItems accepts rest (j + 1) dflt

/-- The item that the frame is counted for. -/
def countedItem (accepts : FilterItem → Bool) (items : List FilterItem) : Option Nat :=
  match searchItems accepts items 0 none with
  | (some j, _) => some j
  | (none, dflt) => dflt

def FilterCounter.count (type : UInt8) (c : FilterCounter) : FilterCounter :=
  if type ≥ WPROBE_PKT_TX then { c with tx := c.tx + 1 } else { c with rx := c.rx + 1 }

/-- The body of the loop over the groups. -/
def FilterGroup.count (accepts : FilterItem → Bool) (type : UInt8) (fg : FilterGroup) : FilterGroup :=
  match countedItem accepts (fg.items.map (·.1)) with
  | none => fg
  | some j => { fg with items := fg.items.modify j fun (fi, c) => (fi, c.count type) }

/-- The items whose program accepts the frame. -/
def ActiveFilter.accepts (f : ActiveFilter) (skRunFilter : SkRunFilter) (frame : Frame)
    (fi : FilterItem) : Bool :=
  skRunFilter (f.skb frame) fi.filter fi.nItems ≠ 0

/-- `wprobe_add_frame` where a filter is installed. -/
def ActiveFilter.addFrame (skRunFilter : SkRunFilter) (f : ActiveFilter) (frame : Frame) :
    ActiveFilter :=
  { f with groups := f.groups.map (·.count (f.accepts skRunFilter frame) frame.hdr.type) }

/-- The frames one after the other. -/
def ActiveFilter.addFrames (skRunFilter : SkRunFilter) (f : ActiveFilter) (frames : List Frame) :
    ActiveFilter :=
  frames.foldl (·.addFrame skRunFilter ·) f

end UbntSdk.Wprobe
