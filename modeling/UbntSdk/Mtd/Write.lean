/-
UbntSdk.Mtd.Write — writing an image to a list of partitions
(`mtd_check` and `mtd_write` of `package/mtd/src/mtd.c`).

The loop of `mtd_write` keeps four counters: `w` bytes of the partition
are written and `e` are erased, `buflen` bytes are in the buffer, and the
data start at `offset` in it. When a partition is full they go with the
buffer to the next one (`resume`). The static variables are part of the
loop state.

Control flow does not depend on what is in memory, so the memory from
`buf` on is a function, also behind the end of the buffer, and the state
records how far the accesses went (`touched`) and whether a byte was
written outside of the erased blocks (`unerased`). The file position of
the partition is the number of bytes written to it.

Erasing a block fails exactly when it starts at or behind the end of the
partition, and a block that exists takes all bytes written to it. The
image may come in pieces of any size. `jffs2file` is NULL.
-/
import UbntSdk.Lib.Loop

namespace UbntSdk.Mtd

open UbntSdk.Lib

/-- What `MEMGETINFO` says about a partition. -/
structure MtdInfo where
  size : Nat
  erasesize : Nat
  erasesize_pos : 0 < erasesize
  dvd_size : erasesize ∣ size

/-- The buffer that `mtd_check` leaves behind, by its size: it is allocated
when the first partition is looked at. -/
def mtdCheck : Option Nat → List MtdInfo → Option Nat
  | buf, [] => buf
  | buf, p :: rest =>
      mtdCheck (match buf with
        | none => some p.erasesize
        | some n => some n) rest

/-! ## The image -/

/-- How the `i`-th `read` behaves: the most bytes it returns, whether it is
interrupted (`EINTR`, `EAGAIN`), and whether it fails otherwise. -/
structure Reads where
  limit : Nat → Nat
  intr : Nat → Bool
  fails : Nat → Bool

inductive ReadResult where
  | bytes (bs : List UInt8)
  | again
  | error

/-- The `i`-th `read(imagefd, _, len)`; no bytes is the end of the file. -/
def Reads.read (rd : Reads) (i : Nat) (image : List UInt8) (len : Nat) : ReadResult :=
  if rd.fails i then .error
  else if rd.intr i then .again
  else .bytes (image.take (min len (rd.limit i + 1)))

/-! ## Memory -/

/-- The `n` bytes at `buf + off`. -/
def bytesAt (m : Nat → UInt8) (off n : Nat) : List UInt8 :=
  (List.range n).map fun i => m (off + i)

/-- Store bytes at `buf + off`. -/
def storeAt (m : Nat → UInt8) (off : Nat) (bs : List UInt8) : Nat → UInt8 :=
  fun i => if off ≤ i ∧ i < off + bs.length then bs.getD (i - off) 0 else m i

/-! ## The loop -/

/-- The two inner loops. -/
inductive Point where
  | fill
  | erase
  deriving DecidableEq

/-- The variables of `mtd_write`. -/
structure Writer where
  mem : Nat → UInt8
  buflen : Nat
  offset : Nat
  w : Nat
  e : Nat
  /-- The part of the image that was not read yet. -/
  image : List UInt8
  reads : Nat
  part : MtdInfo
  next : List MtdInfo
  point : Point
  /-- The bytes written to the partitions that are finished. -/
  closed : List (List UInt8)
  /-- The bytes written to this partition. -/
  cur : List UInt8
  touched : Nat
  unerased : Bool

inductive WriteEnd where
  | returned (s : Writer)
  /-- `exit(1)`. -/
  | exited

namespace Writer

/-- All bytes written, in the order of the partitions. -/
def out (s : Writer) : List UInt8 := s.closed.flatten ++ s.cur

/-- `write(fd, buf + offset, n)`. -/
def write (s : Writer) (n : Nat) : Writer :=
  { s with
    cur := s.cur ++ bytesAt s.mem s.offset n
    touched := max s.touched (s.offset + n)
    unerased := s.unerased || decide (s.e < s.cur.length + n) }

/-- `goto resume`. -/
def resume (s : Writer) (p : MtdInfo) (rest : List MtdInfo) : Writer :=
  { s with
    w := 0
    e := 0
    part := p
    next := rest
    point := .fill
    closed := s.closed ++ [s.cur]
    cur := [] }

/-- Behind the loop that reads. -/
def leaveFill (s : Writer) : Pass Writer WriteEnd :=
  if s.buflen = 0 then .stop (.returned s) else .next { s with point := .erase }

end Writer

/-- One pass of an inner loop of `mtd_write`, or what follows it. -/
def writeBody (rd : Reads) (s : Writer) : Pass Writer WriteEnd :=
  match s.point with
  | .fill =>
      if s.buflen < s.part.erasesize then
        let s' := { s with reads := s.reads + 1 }
        match rd.read s.reads s.image (s.part.erasesize - s.buflen) with
        | .again => .next s'
        | .error => s'.leaveFill
        | .bytes [] => s'.leaveFill
        | .bytes (c :: cs) =>
            .next { s' with
              mem := storeAt s.mem s.buflen (c :: cs)
              buflen := s.buflen + (c :: cs).length
              image := s.image.drop (c :: cs).length
              touched := max s.touched (s.buflen + (c :: cs).length) }
      else s.leaveFill
  | .erase =>
      if s.w + s.buflen > s.e then
        -- `mtd_erase_block(fd, e)`
        if s.e < s.part.size then .next { s with e := s.e + s.part.erasesize }
        else
          match s.next with
          | [] => .stop .exited
          | p :: rest =>
              if s.w < s.e then
                .next (({ s.write (s.e - s.w) with offset := s.e - s.w } : Writer).resume p rest)
              else .next (s.resume p rest)
      else if s.cur.length + s.buflen ≤ s.part.size then
        .next { s.write s.buflen with
          w := s.w + s.buflen
          buflen := 0
          offset := 0
          point := .fill }
      else .stop .exited

/-- At most `n` passes of `mtd_write`: `m` is the memory, its first `buflen`
bytes were left by the image check. -/
def mtdWrite (rd : Reads) (n : Nat) (m : Nat → UInt8) (buflen : Nat) (image : List UInt8) :
    List MtdInfo → Outcome WriteEnd
  | [] => .done .exited
  | p :: rest =>
      run (writeBody rd) n {
        mem := m, buflen, offset := 0, w := 0, e := 0, image, reads := 0, part := p, next := rest,
        point := .fill, closed := [], cur := [], touched := 0, unerased := false }

end UbntSdk.Mtd
