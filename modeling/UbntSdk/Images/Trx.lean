/-
UbntSdk.Images.Trx — the writer of TRX images
(`tools/firmware-utils/src/trx.c`).

The options are taken from left to right, as `getopt` gives them; a file name
without an option is a `-f`. The argument of an option is what `strtoul` makes
of it, or nothing if it is not a number, and the content of the file, or
nothing if it cannot be opened. The output can be written, and `-o` is left
out. `unsigned long` and `size_t` have 64 bits.

The buffer is the block of the heap that `buf` points to. Its bytes are not
set by `malloc` and `realloc`, and `realloc` may move it: `Env` says what is
there, and when it moves. `p` is not set again then. A run stops with `wild`
at its first access outside of the block.
-/
import UbntSdk.Lib.Bytes
import UbntSdk.Lib.Crc

namespace UbntSdk.Images.Trx

open UbntSdk.Lib

def TRX_MAGIC : UInt32 := 0x30524448
def TRX_VERSION : UInt32 := 1
def TRX_MAX_LEN : UInt64 := 0x5A0000

/-- `sizeof(struct trx_header)`. -/
def sizeofTrxHeader : UInt32 := 28

/-! ## The CRC -/

/-- `crc_32_tab`. -/
def crc32Tab : List UInt32 :=
  [0x00000000, 0x77073096, 0xee0e612c, 0x990951ba, 0x076dc419, 0x706af48f, 0xe963a535, 0x9e6495a3,
   0x0edb8832, 0x79dcb8a4, 0xe0d5e91e, 0x97d2d988, 0x09b64c2b, 0x7eb17cbd, 0xe7b82d07, 0x90bf1d91,
   0x1db71064, 0x6ab020f2, 0xf3b97148, 0x84be41de, 0x1adad47d, 0x6ddde4eb, 0xf4d4b551, 0x83d385c7,
   0x136c9856, 0x646ba8c0, 0xfd62f97a, 0x8a65c9ec, 0x14015c4f, 0x63066cd9, 0xfa0f3d63, 0x8d080df5,
   0x3b6e20c8, 0x4c69105e, 0xd56041e4, 0xa2677172, 0x3c03e4d1, 0x4b04d447, 0xd20d85fd, 0xa50ab56b,
   0x35b5a8fa, 0x42b2986c, 0xdbbbc9d6, 0xacbcf940, 0x32d86ce3, 0x45df5c75, 0xdcd60dcf, 0xabd13d59,
   0x26d930ac, 0x51de003a, 0xc8d75180, 0xbfd06116, 0x21b4f4b5, 0x56b3c423, 0xcfba9599, 0xb8bda50f,
   0x2802b89e, 0x5f058808, 0xc60cd9b2, 0xb10be924, 0x2f6f7c87, 0x58684c11, 0xc1611dab, 0xb6662d3d,
   0x76dc4190, 0x01db7106, 0x98d220bc, 0xefd5102a, 0x71b18589, 0x06b6b51f, 0x9fbfe4a5, 0xe8b8d433,
   0x7807c9a2, 0x0f00f934, 0x9609a88e, 0xe10e9818, 0x7f6a0dbb, 0x086d3d2d, 0x91646c97, 0xe6635c01,
   0x6b6b51f4, 0x1c6c6162, 0x856530d8, 0xf262004e, 0x6c0695ed, 0x1b01a57b, 0x8208f4c1, 0xf50fc457,
   0x65b0d9c6, 0x12b7e950, 0x8bbeb8ea, 0xfcb9887c, 0x62dd1ddf, 0x15da2d49, 0x8cd37cf3, 0xfbd44c65,
   0x4db26158, 0x3ab551ce, 0xa3bc0074, 0xd4bb30e2, 0x4adfa541, 0x3dd895d7, 0xa4d1c46d, 0xd3d6f4fb,
   0x4369e96a, 0x346ed9fc, 0xad678846, 0xda60b8d0, 0x44042d73, 0x33031de5, 0xaa0a4c5f, 0xdd0d7cc9,
   0x5005713c, 0x270241aa, 0xbe0b1010, 0xc90c2086, 0x5768b525, 0x206f85b3, 0xb966d409, 0xce61e49f,
   0x5edef90e, 0x29d9c998, 0xb0d09822, 0xc7d7a8b4, 0x59b33d17, 0x2eb40d81, 0xb7bd5c3b, 0xc0ba6cad,
   0xedb88320, 0x9abfb3b6, 0x03b6e20c, 0x74b1d29a, 0xead54739, 0x9dd277af, 0x04db2615, 0x73dc1683,
   0xe3630b12, 0x94643b84, 0x0d6d6a3e, 0x7a6a5aa8, 0xe40ecf0b, 0x9309ff9d, 0x0a00ae27, 0x7d079eb1,
   0xf00f9344, 0x8708a3d2, 0x1e01f268, 0x6906c2fe, 0xf762575d, 0x806567cb, 0x196c3671, 0x6e6b06e7,
   0xfed41b76, 0x89d32be0, 0x10da7a5a, 0x67dd4acc, 0xf9b9df6f, 0x8ebeeff9, 0x17b7be43, 0x60b08ed5,
   0xd6d6a3e8, 0xa1d1937e, 0x38d8c2c4, 0x4fdff252, 0xd1bb67f1, 0xa6bc5767, 0x3fb506dd, 0x48b2364b,
   0xd80d2bda, 0xaf0a1b4c, 0x36034af6, 0x41047a60, 0xdf60efc3, 0xa867df55, 0x316e8eef, 0x4669be79,
   0xcb61b38c, 0xbc66831a, 0x256fd2a0, 0x5268e236, 0xcc0c7795, 0xbb0b4703, 0x220216b9, 0x5505262f,
   0xc5ba3bbe, 0xb2bd0b28, 0x2bb45a92, 0x5cb36a04, 0xc2d7ffa7, 0xb5d0cf31, 0x2cd99e8b, 0x5bdeae1d,
   0x9b64c2b0, 0xec63f226, 0x756aa39c, 0x026d930a, 0x9c0906a9, 0xeb0e363f, 0x72076785, 0x05005713,
   0x95bf4a82, 0xe2b87a14, 0x7bb12bae, 0x0cb61b38, 0x92d28e9b, 0xe5d5be0d, 0x7cdcefb7, 0x0bdbdf21,
   0x86d3d2d4, 0xf1d4e242, 0x68ddb3f8, 0x1fda836e, 0x81be16cd, 0xf6b9265b, 0x6fb077e1, 0x18b74777,
   0x88085ae6, 0xff0f6a70, 0x66063bca, 0x11010b5c, 0x8f659eff, 0xf862ae69, 0x616bffd3, 0x166ccf45,
   0xa00ae278, 0xd70dd2ee, 0x4e048354, 0x3903b3c2, 0xa7672661, 0xd06016f7, 0x4969474d, 0x3e6e77db,
   0xaed16a4a, 0xd9d65adc, 0x40df0b66, 0x37d83bf0, 0xa9bcae53, 0xdebb9ec5, 0x47b2cf7f, 0x30b5ffe9,
   0xbdbdf21c, 0xcabac28a, 0x53b39330, 0x24b4a3a6, 0xbad03605, 0xcdd70693, 0x54de5729, 0x23d967bf,
   0xb3667a2e, 0xc4614ab8, 0x5d681b02, 0x2a6f2b94, 0xb40bbe37, 0xc30c8ea1, 0x5a05df1b, 0x2d02ef8d]

/-- `crc32buf`. -/
def crc32buf (buf : List UInt8) : UInt32 :=
  buf.foldl (fun crc b => crc32Tab.getD ((crc ^^^ b.toUInt32) &&& 0xff).toNat 0 ^^^ (crc >>> 8)) 0xFFFFFFFF

/-! ## The options -/

/-- An option with its argument. -/
inductive Opt where
  | maxlen (arg : Option UInt64)
  | align (arg : Option UInt64)
  | offset (arg : Option UInt64)
  | file (content : Option (List UInt8))
  | append (content : Option (List UInt8))
  deriving DecidableEq

/-- What the heap does: the byte that stands at an index of a block before it
is written, and whether the `k`-th `realloc` moves the block. -/
structure Env where
  fresh : Nat → UInt8
  moves : Nat → Bool

/-- Why a run ends early: with `EXIT_FAILURE`, or by a wild access. -/
inductive Stop where
  | exit
  | wild
  deriving DecidableEq

/-- The variables of `main`. `stale` says that `p` points to a block that has
moved, and `opened` that `in` is not null. -/
structure State where
  buf : List UInt8
  stale : Bool
  curLen : UInt32
  maxlen : UInt64
  i : Nat
  opened : Bool
  reallocs : Nat
  deriving DecidableEq

/-- The bytes of a block of the heap from `off` on that nobody has written. -/
def freshBytes (env : Env) (off n : Nat) : List UInt8 := (List.range n).map fun k => env.fresh (off + k)

/-- A write of bytes into `buf`. -/
def write (off : Nat) (bs : List UInt8) (s : State) : Except Stop State :=
  if bs = [] then .ok s
  else
    match poke? s.buf off bs with
    | none => .error .wild
    | some buf => .ok { s with buf := buf }

/-- `memset(buf + off, 0, n)`. -/
def memset0 (off n : Nat) (s : State) : Except Stop State := write off (List.replicate n 0) s

/-- A write of a word of the header through `p`. -/
def writeHeader (off : Nat) (x : UInt32) (s : State) : Except Stop State :=
  if s.stale then .error .wild else write off (le32 x) s

/-- A file that is read to the end of the image, and the zeros behind. -/
def readContent (content : Option (List UInt8)) (s : State) : Except Stop State :=
  match content with
  | none => .error .exit
  | some content => do
      let room := (s.maxlen - s.curLen.toUInt64).toNat
      let s ← write s.curLen.toNat (content.take room) s
      -- the end of the file is seen by a short read only
      if content.length ≥ room then .error .exit
      else
        let n := content.length
        let pad := if n % 4 ≠ 0 then 4 - n % 4 else 0
        let s ← memset0 (s.curLen.toNat + n) pad s
        pure { s with curLen := s.curLen + UInt32.ofNat (n + pad), opened := true }

/-- `-f`, and `-A` with `append`. -/
def readFile (append : Bool) (content : Option (List UInt8)) (s : State) : Except Stop State :=
  if append then readContent content s
  else do
    -- `i` has no bound
    let s ← writeHeader (16 + 4 * s.i) s.curLen s
    readContent content { s with i := s.i + 1 }

/-- The argument of `-m`, rounded up. -/
def roundMaxlen (n : UInt64) : UInt64 :=
  if n &&& 0xFFF ≠ 0 then n + (0x1000 - (n &&& 0xFFF)) else n

/-- The loop over the options: one option. -/
def step (env : Env) (s : State) : Opt → Except Stop State
  | .file content => readFile false content s
  | .append content => readFile true content s
  | .maxlen none => .error .exit
  | .maxlen (some n) =>
      let maxlen := roundMaxlen n
      if maxlen < 0x1000 then .error .exit
      else
        .ok { s with
          buf := s.buf.take maxlen.toNat ++ freshBytes env s.buf.length (maxlen.toNat - s.buf.length)
          maxlen := maxlen
          stale := s.stale || env.moves s.reallocs
          reallocs := s.reallocs + 1 }
  | .align none => .error .exit
  | .align (some n) =>
      let m := s.curLen.toUInt64 &&& (n - 1)
      if m ≠ 0 then do
        let s ← memset0 s.curLen.toNat (n - m).toNat s
        pure { s with curLen := (s.curLen.toUInt64 + (n - m)).toUInt32 }
      else .ok s
  | .offset none => .error .exit
  | .offset (some n) =>
      if n < s.curLen.toUInt64 then .ok s
      else do
        let s ← memset0 s.curLen.toNat (n - s.curLen.toUInt64).toNat s
        pure { s with curLen := n.toUInt32 }

/-- The zeros up to a multiple of 0x1000. -/
def padEnd (s : State) : Except Stop State :=
  let n := s.curLen &&& 0xFFF
  if n ≠ 0 then do
    let s ← memset0 s.curLen.toNat (0x1000 - n).toNat s
    pure { s with curLen := s.curLen + (0x1000 - n) }
  else pure s

/-- The CRC and the length, and the output. -/
def fillHeader (s : State) : Except Stop (List UInt8 × State) :=
  if s.curLen.toNat < 12 ∨ s.buf.length < s.curLen.toNat then .error .wild
  else do
    let crc := crc32buf ((s.buf.take s.curLen.toNat).drop 12)
    let s ← writeHeader 8 crc s
    let s ← writeHeader 4 s.curLen s
    pure (s.buf.take s.curLen.toNat, s)

/-- `main` behind the loop: the output. -/
def finish (s : State) : Except Stop (List UInt8 × State) :=
  if !s.opened then .error .exit
  else do
    let s ← padEnd s
    fillHeader s

/-- The start of `main`. -/
def start (env : Env) : Except Stop State := do
  let s : State := ⟨freshBytes env 0 TRX_MAX_LEN.toNat, false, sizeofTrxHeader, TRX_MAX_LEN, 0, false, 0⟩
  let s ← writeHeader 0 TRX_MAGIC s
  writeHeader 12 (TRX_VERSION <<< 16) s

/-- The loop over the options and what is behind it. -/
def run (env : Env) : State → List Opt → Except Stop (List UInt8 × State)
  | s, [] => finish s
  | s, o :: opts => do
      let s ← step env s o
      run env s opts

/-- `main`: the output and the last state. -/
def trx (env : Env) (opts : List Opt) : Except Stop (List UInt8 × State) := do
  let s ← start env
  run env s opts

end UbntSdk.Images.Trx
