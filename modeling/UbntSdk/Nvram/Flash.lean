/-
UbntSdk.Nvram.Flash — the flash image of libnvram
(`package/nvram-brcm47xx/src/nvram.c`, `crc.c`).

The NVRAM area is the last `NVRAM_SPACE` bytes of a mapped erase block: a
header of five little-endian words and then the variables as
`name=value` strings, ended by an empty string. `nvram_commit` writes it
from the table, `_nvram_rehash` reads the table back, `nvram_open` starts
from a mapped file.

`Mapping` is the mapped memory. What the C code takes for granted about it
is a field: the erase block holds the NVRAM area, the header is aligned,
and user addresses are below 2^31, so that `(int)ptr % 4` is not negative.
Every access is bounded: a result of `none` is an access outside the
mapping. Header fields are written to memory where the C code assigns
them. `_nvram_rehash` puts a NUL over each `=` and restores it, which is
not visible from outside; the model reads the two strings.
-/
import UbntSdk.Lib.Loop
import UbntSdk.Nvram.Store

namespace UbntSdk.Nvram

open UbntSdk.Lib

def NVRAM_MAGIC : UInt32 := 0x48534C46

def NVRAM_VERSION : UInt32 := 1

def NVRAM_CRC_START_POSITION : Nat := 9

def SDRAM_INIT : UInt32 := 0x419

def SDRAM_CONFIG : UInt32 := 0x0000

/-- `SDRAM_REF(0x40)`. -/
def SDRAM_REFRESH : UInt32 := (0x40 &&& 0xff) ||| 0x8000

/-- `NVRAM_ROUNDUP`. -/
def roundup (x y : Nat) : Nat := (x + (y - 1)) / y * y

/-! ## The mapped memory -/

/-- The mapped erase block. -/
structure Mapping where
  addr : Nat
  bytes : List UInt8
  space : NVRAM_SPACE ≤ bytes.length
  aligned : (addr + (bytes.length - NVRAM_SPACE)) % 4 = 0
  user : addr + bytes.length ≤ 2 ^ 31

namespace Mapping

/-- The offset of the header, `NVRAM_START(nvram_erase_size)`. -/
def header (m : Mapping) : Nat := m.bytes.length - NVRAM_SPACE

/-- Store bytes at an offset. -/
def poke (m : Mapping) (off : Nat) (bs : List UInt8) : Option Mapping :=
  match h : poke? m.bytes off bs with
  | none => none
  | some bytes => some {
      addr := m.addr
      bytes := bytes
      space := by rw [poke?_length h]; exact m.space
      aligned := by rw [poke?_length h]; exact m.aligned
      user := by rw [poke?_length h]; exact m.user }

end Mapping

/-- `struct nvram_header`. -/
structure Header where
  magic : UInt32
  len : UInt32
  crcVerInit : UInt32
  configRefresh : UInt32
  configNcdl : UInt32
  deriving DecidableEq

/-- `sizeof(nvram_header_t)`. -/
def HEADER_SIZE : Nat := 20

/-- The header as it lies in memory. -/
def Header.bytes (hd : Header) : List UInt8 :=
  le32 hd.magic ++ (le32 hd.len ++ (le32 hd.crcVerInit ++
    (le32 hd.configRefresh ++ le32 hd.configNcdl)))

/-- A word of the header. -/
def u32le? (m : List UInt8) (off : Nat) : Option UInt32 := (peek? m off 4).map ofLe32

/-- The fields of the header at `nvram_header(h)`. -/
def readHeader (m : Mapping) : Option Header := do
  let magic ← u32le? m.bytes m.header
  let len ← u32le? m.bytes (m.header + 4)
  let crcVerInit ← u32le? m.bytes (m.header + 8)
  let configRefresh ← u32le? m.bytes (m.header + 12)
  let configNcdl ← u32le? m.bytes (m.header + 16)
  return { magic, len, crcVerInit, configRefresh, configNcdl }

/-! ## The C library on these strings -/

/-- ASCII text. -/
def text (cs : List Char) : CStr := CStr.ofBytes (cs.map fun c => c.toNat.toUInt8)

def isspace (c : UInt8) : Bool := c = 32 || (9 ≤ c && c ≤ 13)

/-- The value of a digit in any base up to 16. -/
def digitVal (c : UInt8) : Option Nat :=
  if 48 ≤ c && c ≤ 57 then some (c.toNat - 48)
  else if 97 ≤ c && c ≤ 102 then some (c.toNat - 87)
  else if 65 ≤ c && c ≤ 70 then some (c.toNat - 55)
  else none

/-- The digits in front, accumulated from `acc`. -/
def digits (base : Nat) (acc : Nat) : List UInt8 → Nat
  | [] => acc
  | c :: cs =>
      match digitVal c with
      | some d => if d < base then digits base (acc * base + d) cs else acc
      | none => acc

/-- The number after the sign, with the base `strtoul` detects. -/
def unsignedVal : List UInt8 → Nat
  | 48 :: 120 :: cs => digits 16 0 cs
  | 48 :: 88 :: cs => digits 16 0 cs
  | 48 :: cs => digits 8 0 cs
  | cs => digits 10 0 cs

/-- `strtoul(s, NULL, 0)` with a 32-bit `unsigned long`: out of range is
`ULONG_MAX`, a minus sign negates in the type. -/
def strtoul (s : CStr) : UInt32 :=
  let ofVal (n : Nat) (neg : Bool) : UInt32 :=
    if n < 2 ^ 32 then (if neg then 0 - n.toUInt32 else n.toUInt32) else 0xffffffff
  match s.chars.dropWhile isspace with
  | 45 :: cs => ofVal (unsignedVal cs) true
  | 43 :: cs => ofVal (unsignedVal cs) false
  | cs => ofVal (unsignedVal cs) false

/-- An upper-case hexadecimal digit. -/
def hexDigit (d : Nat) : UInt8 := if d < 10 then (48 + d).toUInt8 else (55 + d).toUInt8

/-- `sprintf(buf, "0x%0wX", x)` for an `x` of at most `w` digits. -/
def sprintfHex (w : Nat) (x : UInt32) : CStr :=
  CStr.ofBytes (48 :: 120 ::
    (List.range w).reverse.map fun i => hexDigit (x.toNat / 16 ^ i % 16))

/-! ## Checksum -/

def crc8Table : List UInt8 := [
  0x00, 0xF7, 0xB9, 0x4E, 0x25, 0xD2, 0x9C, 0x6B, 0x4A, 0xBD, 0xF3, 0x04, 0x6F, 0x98, 0xD6, 0x21,
  0x94, 0x63, 0x2D, 0xDA, 0xB1, 0x46, 0x08, 0xFF, 0xDE, 0x29, 0x67, 0x90, 0xFB, 0x0C, 0x42, 0xB5,
  0x7F, 0x88, 0xC6, 0x31, 0x5A, 0xAD, 0xE3, 0x14, 0x35, 0xC2, 0x8C, 0x7B, 0x10, 0xE7, 0xA9, 0x5E,
  0xEB, 0x1C, 0x52, 0xA5, 0xCE, 0x39, 0x77, 0x80, 0xA1, 0x56, 0x18, 0xEF, 0x84, 0x73, 0x3D, 0xCA,
  0xFE, 0x09, 0x47, 0xB0, 0xDB, 0x2C, 0x62, 0x95, 0xB4, 0x43, 0x0D, 0xFA, 0x91, 0x66, 0x28, 0xDF,
  0x6A, 0x9D, 0xD3, 0x24, 0x4F, 0xB8, 0xF6, 0x01, 0x20, 0xD7, 0x99, 0x6E, 0x05, 0xF2, 0xBC, 0x4B,
  0x81, 0x76, 0x38, 0xCF, 0xA4, 0x53, 0x1D, 0xEA, 0xCB, 0x3C, 0x72, 0x85, 0xEE, 0x19, 0x57, 0xA0,
  0x15, 0xE2, 0xAC, 0x5B, 0x30, 0xC7, 0x89, 0x7E, 0x5F, 0xA8, 0xE6, 0x11, 0x7A, 0x8D, 0xC3, 0x34,
  0xAB, 0x5C, 0x12, 0xE5, 0x8E, 0x79, 0x37, 0xC0, 0xE1, 0x16, 0x58, 0xAF, 0xC4, 0x33, 0x7D, 0x8A,
  0x3F, 0xC8, 0x86, 0x71, 0x1A, 0xED, 0xA3, 0x54, 0x75, 0x82, 0xCC, 0x3B, 0x50, 0xA7, 0xE9, 0x1E,
  0xD4, 0x23, 0x6D, 0x9A, 0xF1, 0x06, 0x48, 0xBF, 0x9E, 0x69, 0x27, 0xD0, 0xBB, 0x4C, 0x02, 0xF5,
  0x40, 0xB7, 0xF9, 0x0E, 0x65, 0x92, 0xDC, 0x2B, 0x0A, 0xFD, 0xB3, 0x44, 0x2F, 0xD8, 0x96, 0x61,
  0x55, 0xA2, 0xEC, 0x1B, 0x70, 0x87, 0xC9, 0x3E, 0x1F, 0xE8, 0xA6, 0x51, 0x3A, 0xCD, 0x83, 0x74,
  0xC1, 0x36, 0x78, 0x8F, 0xE4, 0x13, 0x5D, 0xAA, 0x8B, 0x7C, 0x32, 0xC5, 0xAE, 0x59, 0x17, 0xE0,
  0x2A, 0xDD, 0x93, 0x64, 0x0F, 0xF8, 0xB6, 0x41, 0x60, 0x97, 0xD9, 0x2E, 0x45, 0xB2, 0xFC, 0x0B,
  0xBE, 0x49, 0x07, 0xF0, 0x9B, 0x6C, 0x22, 0xD5, 0xF4, 0x03, 0x4D, 0xBA, 0xD1, 0x26, 0x68, 0x9F]

/-- `hndcrc8`. -/
def hndcrc8 (pdata : List UInt8) (crc : UInt8) : UInt8 :=
  pdata.foldl (fun crc c => crc8Table.getD ((crc ^^^ c) &&& 0xff).toNat 0) crc

/-! ## Reading the image -/

def sdramInit : CStr := text ['s', 'd', 'r', 'a', 'm', '_', 'i', 'n', 'i', 't']

def sdramConfig : CStr := text ['s', 'd', 'r', 'a', 'm', '_', 'c', 'o', 'n', 'f', 'i', 'g']

def sdramRefresh : CStr := text ['s', 'd', 'r', 'a', 'm', '_', 'r', 'e', 'f', 'r', 'e', 's', 'h']

def sdramNcdl : CStr := text ['s', 'd', 'r', 'a', 'm', '_', 'n', 'c', 'd', 'l']

/-- `'='`. -/
def EQ : UInt8 := 61

/-- The characters in front of the first `=`. -/
def nameOf (s : CStr) : CStr where
  chars := s.chars.takeWhile (· != EQ)
  noNul := fun h => s.noNul (List.takeWhile_subset _ h)

/-- The characters behind the first `=`. -/
def valueOf (s : CStr) : CStr where
  chars := (s.chars.dropWhile (· != EQ)).tail
  noNul := fun h => s.noNul (List.dropWhile_subset _ (List.mem_of_mem_tail h))

/-- One pass of the parsing loop: the variables are the pointer `name` and
the tables. `strchr` stops at the NUL that ends the string, so the name and
the value are the two halves of it. -/
def rehashBody (m : List UInt8) : Nat × Store → Pass (Nat × Store) Store
  | (name, h) =>
      match peek? m name 1 with
      | none => .fault
      | some c =>
          if c = [0] then .stop h
          else
            match cstr? m name with
            | none => .fault
            | some s =>
                if EQ ∈ s.chars then
                  .next (name + s.strlen + 1, (nvramSet h (nameOf s) (valueOf s)).2)
                else .stop h

/-- Set a variable from the header unless the image has it. -/
def setMissing (h : Store) (name value : CStr) : Store :=
  match nvramGet h (some name) with
  | some _ => h
  | none => (nvramSet h name value).2

/-- The four variables that `_nvram_rehash` derives from the header. -/
def setSdram (hd : Header) (h : Store) : Store :=
  let h := setMissing h sdramInit (sprintfHex 4 ((hd.crcVerInit >>> 16) &&& 0xffff))
  let h := setMissing h sdramConfig (sprintfHex 4 (hd.configRefresh &&& 0xffff))
  let h := setMissing h sdramRefresh (sprintfHex 4 ((hd.configRefresh >>> 16) &&& 0xffff))
  setMissing h sdramNcdl (sprintfHex 8 hd.configNcdl)

/-- The parsing loop of `_nvram_rehash` on emptied tables. Every pass moves
`name` forward, so the length of the mapping bounds the passes. -/
def rehashLoop (m : Mapping) : Outcome Store :=
  run (rehashBody m.bytes) (m.bytes.length + 1) (m.header + HEADER_SIZE, Store.empty)

/-- `_nvram_rehash`. -/
def nvramRehash (m : Mapping) : Option Store :=
  match rehashLoop m with
  | .done h => do
      let hd ← readHeader m
      return setSdram hd h
  | .fault => none
  | .running => none

/-! ## Writing the image -/

/-- `struct nvram_handle`. -/
structure Handle where
  mmap : Mapping
  store : Store

/-- What `sprintf(ptr, "%s=%s", t->name, t->value)` prints. -/
def line (t : Tuple) : CStr where
  chars := t.name.chars ++ EQ :: t.value.chars
  noNul := by
    intro h
    rcases List.mem_append.mp h with h | h
    · exact t.name.noNul h
    · rcases List.mem_cons.mp h with h | h
      · exact absurd h (by decide)
      · exact t.value.noNul h

/-- The header words the commit starts with. -/
def regenerateHeader (h : Store) (old : Header) : Header :=
  let hd := { old with magic := NVRAM_MAGIC, crcVerInit := NVRAM_VERSION <<< 8 }
  match nvramGet h (some sdramInit), nvramGet h (some sdramConfig),
      nvramGet h (some sdramRefresh), nvramGet h (some sdramNcdl) with
  | some init, some config, some refresh, some ncdl =>
      { hd with
        crcVerInit := hd.crcVerInit ||| ((strtoul init &&& (0xffff : UInt32)) <<< (16 : UInt32))
        configRefresh := (strtoul config &&& 0xffff) ||| ((strtoul refresh &&& (0xffff : UInt32)) <<< (16 : UInt32))
        configNcdl := strtoul ncdl }
  | _, _, _, _ =>
      { hd with
        crcVerInit := hd.crcVerInit ||| (SDRAM_INIT <<< 16)
        configRefresh := SDRAM_CONFIG ||| (SDRAM_REFRESH <<< 16)
        configNcdl := 0 }

/-- The inner loop over one chain, from the pointer `ptr`: it stops at the
first tuple that would go past `end`. -/
def writeChain (e : Nat) : Mapping × Nat → List Tuple → Option (Mapping × Nat)
  | (m, ptr), [] => some (m, ptr)
  | (m, ptr), t :: ts =>
      if ptr + t.name.strlen + 1 + t.value.strlen + 1 > e then some (m, ptr)
      else do
        let m ← m.poke ptr (line t).bytesZ
        writeChain e (m, ptr + (line t).strlen + 1) ts

/-- The loop over all chains. -/
def writeTuples (h : Store) (e : Nat) (s : Mapping × Nat) : Option (Mapping × Nat) :=
  (List.finRange NVRAM_BUCKETS).foldlM (fun s i => writeChain e s (h.nvramHash i)) s

/-- The double NUL and the padding to 4 bytes: the memory and the pointer
after it. -/
def writeEnd (m : Mapping) (ptr : Nat) : Option (Mapping × Nat) := do
  let m ← m.poke ptr [0]
  let ptr := ptr + 1
  let m ← if (m.addr + ptr) % 4 ≠ 0 then
      m.poke ptr (List.replicate (4 - (m.addr + ptr) % 4) 0)
    else some m
  return (m, ptr + 1)

/-- The CRC-8 that goes into the header: over the header words from byte 9
of a copy without magic and length, then over the data. -/
def commitCrc (m : Mapping) (hd : Header) : Option UInt8 := do
  let tmp : Header := { hd with magic := 0, len := 0 }
  let head ← peek? tmp.bytes NVRAM_CRC_START_POSITION (HEADER_SIZE - NVRAM_CRC_START_POSITION)
  let data ← peek? m.bytes (m.header + HEADER_SIZE) (hd.len.toNat - HEADER_SIZE)
  return hndcrc8 data (hndcrc8 head 0xff)

/-- `nvram_commit`: the return code and the handle. -/
def nvramCommit (h : Handle) : Option (Int × Handle) := do
  let header := h.mmap.header
  let old ← readHeader h.mmap
  let hd := regenerateHeader h.store old
  let m ← h.mmap.poke header hd.bytes
  let m ← m.poke (header + HEADER_SIZE) (List.replicate (NVRAM_SPACE - HEADER_SIZE) 0xff)
  let e := header + NVRAM_SPACE - 2
  let (m, ptr) ← writeTuples h.store e (m, header + HEADER_SIZE)
  let (m, ptr) ← writeEnd m ptr
  let hd := { hd with len := (roundup (ptr - header) 4).toUInt32 }
  let m ← m.poke header hd.bytes
  let crc ← commitCrc m hd
  let hd := { hd with crcVerInit := hd.crcVerInit ||| crc.toUInt32 }
  let m ← m.poke header hd.bytes
  let store ← nvramRehash m
  return (0, { mmap := m, store })

/-- `nvram_open` on a mapped file: the inner `none` is its `NULL`. -/
def nvramOpen (m : Mapping) : Option (Option Handle) := do
  let m ← m.poke 0 (List.replicate m.header 0xff)
  let hd ← readHeader m
  if hd.magic = NVRAM_MAGIC then do
    let store ← nvramRehash m
    return some { mmap := m, store }
  else return none

end UbntSdk.Nvram
