/-
UbntSdk.Mtd.Trx — the header of a TRX image in flash
(`package/mtd/src/trx.c`).

After a file has been added to the JFFS2 part of an image, `trx_fixup` puts
the CRC of the partition's image right. The partition is mapped and written
in place: the model is from its bytes to its bytes and the return code. The
`ioctl`, `open` and `mmap` succeed. A result of `none` is an access outside
the mapping. The host is one of 32 bits and little endian, as the targets
that have TRX images are.
-/
import UbntSdk.Lib.Bytes

namespace UbntSdk.Mtd.Trx

open UbntSdk.Lib

def TRX_MAGIC : UInt32 := 0x30524448

/-- `init_crc32`: the inner loop. -/
def crcBits : Nat → UInt32 → UInt32
  | 0, crc => crc
  | bit + 1, crc => crcBits bit (if crc &&& 1 ≠ 0 then (0xEDB88320 : UInt32) ^^^ (crc >>> 1) else crc >>> 1)

/-- `crc32`, as `init_crc32` fills it in. -/
def crc32Table : List UInt32 := (List.range 256).map fun n => crcBits 8 (UInt32.ofNat n)

/-- `crc32buf`. -/
def crc32buf (buf : List UInt8) : UInt32 :=
  buf.foldl (fun crc b => crc32Table.getD ((crc ^^^ b.toUInt32) &&& 0xff).toNat 0 ^^^ (crc >>> 8))
    0xFFFFFFFF

/-- `trx_fixup`. The length of what is summed is computed in 32 bits. -/
def trxFixup (part : List UInt8) : Option (Int × List UInt8) :=
  if part.length = 0 then some (-1, part)
  else do
    let magic ← (peek? part 0 4).map ofLe32
    if magic ≠ TRX_MAGIC then return (-1, part)
    else do
      let len ← (peek? part 4 4).map ofLe32
      let scan ← peek? part 12 (len - 12).toNat
      let part ← poke? part 8 (le32 (crc32buf scan))
      return (0, part)

end UbntSdk.Mtd.Trx
