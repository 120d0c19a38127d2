/-
UbntSdk.Images.Lzma2eva — the converter of LZMA files for the EVA boot loader
(`tools/firmware-utils/src/lzma2eva.c`).

The host is little-endian. The addresses are what `strtoul` has made of the
arguments, and the output can always be written. The CRC is that of zlib, of
which only what its documentation says is used (`Zlib`).

The buffer of `main` is `static const uint8_t buf[4096]`, and `fread` stores
into it. The language gives such a store no result, and the page that holds the
buffer cannot be written. `convert` takes the declaration as an argument, so
that the program (`lzma2eva`) can be compared with itself without the `const`.
-/
import UbntSdk.Lib.Crc
import UbntSdk.Lib.Stream
import UbntSdk.Lib.Words

namespace UbntSdk.Images.Lzma2eva

open UbntSdk.Lib

/-- `crc32` of zlib: a running value is updated with a buffer, in as many pieces
as one likes. -/
structure Zlib where
  crc32 : UInt32 → List UInt8 → UInt32
  crc32_nil : ∀ crc, crc32 crc [] = crc
  crc32_append : ∀ crc a b, crc32 crc (a ++ b) = crc32 (crc32 crc a) b

def magic : UInt32 := 0xfeed1281
def type : UInt32 := 0x075a0201

/-- `sizeof buf`. -/
def bufSize : Nat := 4096

/-- How the buffer is declared. -/
inductive Declared
  | const
  | plain
  deriving DecidableEq

/-- How `main` ends where it does not come to its `return`: in `pexit`, or in a
store that the declaration forbids. -/
inductive Stop
  | exit
  | illegal
  deriving DecidableEq

/-- `fread` into the buffer. At the end of the file it stores nothing. -/
def fread (buf : Declared) (bytes : List UInt8) : Except Stop (List UInt8) :=
  if buf = .const ∧ bytes ≠ [] then .error .illegal else .ok bytes

/-- A loop that reads what is left of a file, `while (0 < (elems = fread(..)))`. -/
def readLoop {σ : Type} (buf : Declared) (f : σ → List UInt8 → σ) (s : σ) (data : List UInt8) :
    Except Stop σ :=
  (chunks bufSize data).foldlM (fun s chunk => do return f s (← fread buf chunk)) s

/-- The output file and what the loop over the data adds up. -/
structure Copy where
  out : Stream
  compsize : UInt32
  datacrc32 : UInt32

/-- One round of the loop that copies the data. -/
def copyStep (z : Zlib) (c : Copy) (buf : List UInt8) : Copy :=
  ⟨c.out.write buf, c.compsize + UInt32.ofNat buf.length, z.crc32 c.datacrc32 buf⟩

/-- The loop that adds the bytes of a buffer. -/
def checksumBytes (checksum : UInt32) (buf : List UInt8) : UInt32 :=
  buf.foldl (fun checksum b => checksum + b.toUInt32) checksum

/-- `checksum_add32`. -/
def checksumAdd32 (checksum data : UInt32) : UInt32 := checksumBytes checksum (le32 data)

/-- `main`, with a buffer that is declared in one way or the other. -/
def convert (buf : Declared) (z : Zlib) (loadaddress entry : UInt32) (infile : List UInt8) :
    Except Stop (List UInt8) :=
  if infile.length < 13 then .error .exit
  else do
    -- the LZMA header
    let properties := infile.take 1
    let dictsize := ofLe32 ((infile.drop 1).take 4)
    let datasize := ofWord64 .little ((infile.drop 5).take 8)
    let datasize32 := datasize.toUInt32
    let datacrc32 := z.crc32 0 []
    -- the EVA header
    let out := Stream.empty.write (le32 magic)
    let reclengthpos := out.pos
    let out := ((out.write (le32 0)).write (le32 loadaddress)).write (le32 type)
    -- the EVA LZMA header
    let compsizepos := out.pos
    let out := ((out.write (le32 0)).write (le32 datasize32)).write (le32 datacrc32)
    -- the modified LZMA header
    let out := ((out.write properties).write (le32 dictsize)).write ((le32 0).take 3)
    let copy ← readLoop buf (copyStep z) ⟨out, 0, datacrc32⟩ (infile.drop 13)
    let reclength := copy.compsize + 24
    let out := (copy.out.seek reclengthpos).write (le32 reclength)
    let out := (((out.seek compsizepos).write (le32 copy.compsize)).write (le32 datasize32)).write
      (le32 copy.datacrc32)
    let checksum := 0 + reclength + loadaddress
    let checksum := checksumAdd32 (checksumAdd32 (checksumAdd32 (checksumAdd32 checksum type)
      copy.compsize) datasize32) copy.datacrc32
    -- the rest is read from the file
    let checksum ← readLoop buf checksumBytes checksum out.rest
    let out := out.seek (out.pos + out.rest.length)
    let checksum := ~~~checksum + 1
    return (((out.write (le32 checksum)).write (le32 0)).write (le32 entry)).bytes

/-- `main`, with the buffer as the source declares it. -/
def lzma2eva (z : Zlib) (loadaddress entry : UInt32) (infile : List UInt8) : Except Stop (List UInt8) :=
  convert .const z loadaddress entry infile

end UbntSdk.Images.Lzma2eva
