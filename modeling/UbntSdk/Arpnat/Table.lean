/-
UbntSdk.Arpnat.Table — the table of the ARPNAT bridge target
(`target/linux/ubnt/patches/300-ebtables-arpnat.patch`, the file
`net/bridge/netfilter/ebt_arpnat.c` that it adds).

The table is a list of entries, one for each MAC seen behind the bridge,
and an entry is a list of records: an IP address or a PPPoE session id that
the MAC uses, with the time it expires. Every search also unlinks what has
expired on its way (`UbntSdk.Lib.Walk`).

Time is `jiffies` without wrap-around, read once for each call; memory
allocation succeeds. Addresses and ids are the 32 and 16 bits that stand in
the frame, in memory order; 0 means none.
-/
import UbntSdk.Lib.Walk
import Mathlib.Data.Fintype.Pi
import Mathlib.Data.UInt

namespace UbntSdk.Arpnat

open UbntSdk.Lib

/-- A hardware address, of `ETH_ALEN` bytes. -/
abbrev Mac := Fin 6 → UInt8

/-- `struct arpnat_data`. -/
structure ArpnatData where
  ip : UInt32
  pppoeId : UInt16
  expires : Nat
  deriving DecidableEq

/-- `struct mac2ip`. -/
structure Mac2ip where
  mac : Mac
  data : List ArpnatData
  deriving DecidableEq

/-- `arpnat_table`. -/
abbrev ArpnatTable := List Mac2ip

/-- What of the configuration the table depends on: the variable `expires`
in seconds, and the kernel's ticks per second. -/
structure Clock where
  expires : UInt32
  hz : Nat

def FLUSHTIMEOUT : UInt32 := 600

/-- `expires * HZ`, in `uint32_t`. -/
def Clock.lifetime (clock : Clock) : Nat := clock.expires.toNat * clock.hz % 2 ^ 32

def PPPOE_ADD : UInt8 := 0x0
def PPPOE_REMOVE : UInt8 := 0x1
def PPPOE_ADD_TMP : UInt8 := 0x2

def timeAfter (a b : Nat) : Bool := b < a

/-! ## Searches -/

/-- The body of the loop over the records of an entry, in `mac2ip_cleanup`
(which looks for none), `mac2ip_find_ip` and `mac2ip_find_pppoeid`. -/
def visitData (expiration : Nat) (sought : ArpnatData → Bool) (tpos : ArpnatData) :
    Visit ArpnatData :=
  if timeAfter expiration tpos.expires then .unlink
  else if sought tpos then .found tpos
  else .keep tpos

/-- `mac2ip_cleanup`: whether the entry is left without a record, and the
entry. -/
def mac2ipCleanup (item : Mac2ip) (expiration : Nat) : Bool × Mac2ip :=
  let data := (walk (visitData expiration fun _ => false) item.data).toList
  (data.isEmpty, { item with data })

/-- The body of the loop in `find_mac_nat`. -/
def visitMac (jiffies : Nat) (mac : Mac) (tpos : Mac2ip) : Visit Mac2ip :=
  let (empty, tpos) := mac2ipCleanup tpos jiffies
  if empty then .unlink
  else if tpos.mac = mac then .found tpos
  else .keep tpos

/-- `find_mac_nat`. -/
def findMacNat (jiffies : Nat) (mac : Mac) (head : ArpnatTable) : Walk Mac2ip :=
  walk (visitMac jiffies mac) head

/-- The loop of `mac2ip_find_ip` and `mac2ip_find_pppoeid`. -/
def mac2ipFind (jiffies : Nat) (sought : ArpnatData → Bool) (entry : Mac2ip) : Walk ArpnatData :=
  walk (visitData jiffies sought) entry.data

/-- `mac2ip_find_ip`. -/
def mac2ipFindIp (jiffies : Nat) (entry : Mac2ip) (ip : UInt32) : Walk ArpnatData :=
  if ip = 0 then .miss entry.data else mac2ipFind jiffies (fun r => r.ip = ip) entry

/-- `mac2ip_find_pppoeid`. -/
def mac2ipFindPppoeid (jiffies : Nat) (entry : Mac2ip) (id : UInt16) : Walk ArpnatData :=
  if id = 0 then .miss entry.data else mac2ipFind jiffies (fun r => r.pppoeId = id) entry

/-- The body of the loop in `find_ip_nat` and `find_pppoe_nat`. -/
def visitNat (find : Mac2ip → Walk ArpnatData) (tpos : Mac2ip) : Visit Mac2ip :=
  match find tpos with
  | .hit before r after => .found { tpos with data := before ++ r :: after }
  | .miss data => if data.isEmpty then .unlink else .keep { tpos with data }

/-- The loop of `find_ip_nat` and `find_pppoe_nat`: the first entry in which
a record is found. -/
def findNat (find : Mac2ip → Walk ArpnatData) (head : ArpnatTable) : Walk Mac2ip :=
  walk (visitNat find) head

/-- `find_ip_nat`. -/
def findIpNat (jiffies : Nat) (ip : UInt32) (head : ArpnatTable) : Walk Mac2ip :=
  findNat (fun tpos => mac2ipFindIp jiffies tpos ip) head

/-- `find_pppoe_nat`. -/
def findPppoeNat (jiffies : Nat) (id : UInt16) (head : ArpnatTable) : Walk Mac2ip :=
  findNat (fun tpos => mac2ipFindPppoeid jiffies tpos id) head

/-! ## Learning -/

/-- The entry of `mac` with the entries around it: the one in the table, or
a new one at its head. -/
def getEntry (jiffies : Nat) (mac : Mac) (head : ArpnatTable) :
    ArpnatTable × Mac2ip × ArpnatTable :=
  match findMacNat jiffies mac head with
  | .hit before entry after => (before, entry, after)
  | .miss head => ([], { mac, data := [] }, head)

/-- `update_nat`. -/
def updateNat (clock : Clock) (jiffies : Nat) (mac : Mac) (ip : UInt32) (pppoeId : UInt16)
    (head : ArpnatTable) : Walk Mac2ip :=
  if ip = 0 ∧ pppoeId = 0 then .miss head
  else
    let (before, entry, after) := getEntry jiffies mac head
    let found :=
      if ip ≠ 0 then mac2ipFindIp jiffies entry ip else mac2ipFindPppoeid jiffies entry pppoeId
    let expires := jiffies + clock.lifetime
    match found with
    | .hit older r newer =>
        .hit before { entry with data := older ++ { r with expires } :: newer } after
    | .miss data => .hit before { entry with data := { ip, pppoeId, expires } :: data } after

/-- `update_arp_nat`. -/
def updateArpNat (clock : Clock) (jiffies : Nat) (mac : Mac) (ip : UInt32) (head : ArpnatTable) :
    Walk Mac2ip :=
  updateNat clock jiffies mac ip 0 head

/-- `data->expires = jiffies + n * HZ` on the record of a session, if it is
still there. -/
def setExpires (clock : Clock) (jiffies : Nat) (id : UInt16) (seconds : Nat) (entry : Mac2ip) :
    Mac2ip :=
  match mac2ipFindPppoeid jiffies entry id with
  | .hit older r newer =>
      { entry with data := older ++ { r with expires := jiffies + seconds * clock.hz } :: newer }
  | .miss data => { entry with data }

/-- `update_pppoe_nat`. -/
def updatePppoeNat (clock : Clock) (jiffies : Nat) (mac : Mac) (id : UInt16) (flags : UInt8)
    (head : ArpnatTable) : Walk Mac2ip :=
  let entry : Walk Mac2ip :=
    match updateNat clock jiffies mac 0 id head with
    | .hit before entry after => .hit before entry after
    | .miss head => findPppoeNat jiffies id head
  match entry with
  | .miss head => .miss head
  | .hit before entry after =>
      if flags ≠ 0 then
        let seconds := if flags &&& PPPOE_REMOVE ≠ 0 then 1 else 5
        .hit before (setExpires clock jiffies id seconds entry) after
      else .hit before entry after

/-! ## Runs -/

/-- A call of one of the functions of the table. -/
inductive Call where
  | updateArpNat (mac : Mac) (ip : UInt32)
  | updatePppoeNat (mac : Mac) (id : UInt16) (flags : UInt8)
  | findMacNat (mac : Mac)
  | findIpNat (ip : UInt32)
  | findPppoeNat (id : UInt16)

/-- The pointer that a call returns, with the table around it. -/
def Call.result (clock : Clock) (jiffies : Nat) (head : ArpnatTable) : Call → Walk Mac2ip
  | .updateArpNat mac ip => Arpnat.updateArpNat clock jiffies mac ip head
  | .updatePppoeNat mac id flags => Arpnat.updatePppoeNat clock jiffies mac id flags head
  | .findMacNat mac => Arpnat.findMacNat jiffies mac head
  | .findIpNat ip => Arpnat.findIpNat jiffies ip head
  | .findPppoeNat id => Arpnat.findPppoeNat jiffies id head

/-- A call, the time it is made at, and the setting of `expires` then. -/
structure TimedCall where
  clock : Clock
  jiffies : Nat
  call : Call

/-- The table after some calls. -/
def runCalls : ArpnatTable → List TimedCall → ArpnatTable
  | head, [] => head
  | head, c :: rest => runCalls (c.call.result c.clock c.jiffies head).toList rest

end UbntSdk.Arpnat
