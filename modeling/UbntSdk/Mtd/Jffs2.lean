/-
UbntSdk.Mtd.Jffs2 — the JFFS2 node writer of the mtd tool
(`package/mtd/src/jffs2.c`).

The writer collects nodes in one erase block of memory (`buf`, `ofs`) and
flushes the block when it is full. `Jffs2` holds the static variables of
the file. Two fields more record what happens without taking part in it:
`top` is the largest value `ofs` has had, `nodes` the nodes put into the
buffer so far, in order.

Integers and words are in the byte order of the host, a parameter. A
result of `none` is an access outside the buffer, or no result at all. The
`read` of the file may return fewer bytes than asked for, or fail.
`malloc` succeeds, and what it returns is arbitrary.
-/
import UbntSdk.Lib.Bytes
import UbntSdk.Lib.Crc
import UbntSdk.Lib.Loop

namespace UbntSdk.Mtd

open UbntSdk.Lib

def JFFS2_MAGIC_BITMASK : UInt16 := 0x1985
def KSAMTIB_CIGAM_2SFFJ : UInt16 := 0x8519
def JFFS2_NODETYPE_DIRENT : UInt16 := 0xe001
def JFFS2_NODETYPE_INODE : UInt16 := 0xe002

/-- `JFFS2_EOF`. -/
def JFFS2_EOF : List UInt8 := [0xde, 0xad, 0xc0, 0xde]

/-- `CLEANMARKER`: a node header of type 0x2003 and length 12 with its
CRC. -/
def CLEANMARKER : ByteOrder → List UInt8
  | .big => [0x19, 0x85, 0x20, 0x03, 0x00, 0x00, 0x00, 0x0c, 0xf0, 0x60, 0xdc, 0x98]
  | .little => [0x85, 0x19, 0x03, 0x20, 0x0c, 0x00, 0x00, 0x00, 0xb1, 0xb0, 0x1e, 0xe4]

/-- `crc32(0, ss, len)` of the mtd tool: no complement at either end. -/
def crc32 (bs : List UInt8) : UInt32 := crcFold 0 bs

/-- `PAD`. -/
def padTo4 (x : Nat) : Nat := (x + 3) / 4 * 4

/-- `IFTODT(S_IFDIR)` and `IFTODT(S_IFREG)`. -/
def DT_DIR : UInt8 := 4
def DT_REG : UInt8 := 8

/-! ## Nodes -/

/-- `struct jffs2_raw_dirent`. -/
structure Dirent where
  magic : UInt16
  nodetype : UInt16
  totlen : UInt32
  hdrCrc : UInt32
  pino : UInt32
  version : UInt32
  ino : UInt32
  mctime : UInt32
  nsize : UInt8
  type : UInt8
  nodeCrc : UInt32
  nameCrc : UInt32
  deriving DecidableEq

/-- After `memset`. -/
def Dirent.zero : Dirent := ⟨0, 0, 0, 0, 0, 0, 0, 0, 0, 0, 0, 0⟩

/-- `sizeof(struct jffs2_raw_dirent)`. -/
def DIRENT_SIZE : Nat := 40

/-- The fields as they lie in memory. -/
def Dirent.bytes (e : ByteOrder) (de : Dirent) : List UInt8 :=
  word16 e de.magic ++ (word16 e de.nodetype ++ (word32 e de.totlen ++ (word32 e de.hdrCrc ++
    (word32 e de.pino ++ (word32 e de.version ++ (word32 e de.ino ++ (word32 e de.mctime ++
    ([de.nsize, de.type, 0, 0] ++ (word32 e de.nodeCrc ++ word32 e de.nameCrc)))))))))

/-- `struct jffs2_raw_inode`. -/
structure Inode where
  magic : UInt16
  nodetype : UInt16
  totlen : UInt32
  hdrCrc : UInt32
  ino : UInt32
  version : UInt32
  mode : UInt32
  uid : UInt16
  gid : UInt16
  isize : UInt32
  atime : UInt32
  mtime : UInt32
  ctime : UInt32
  offset : UInt32
  csize : UInt32
  dsize : UInt32
  compr : UInt8
  usercompr : UInt8
  flags : UInt16
  dataCrc : UInt32
  nodeCrc : UInt32
  deriving DecidableEq

/-- After `memset`. -/
def Inode.zero : Inode := ⟨0, 0, 0, 0, 0, 0, 0, 0, 0, 0, 0, 0, 0, 0, 0, 0, 0, 0, 0, 0, 0⟩

/-- `sizeof(struct jffs2_raw_inode)`. -/
def INODE_SIZE : Nat := 68

/-- The fields as they lie in memory. -/
def Inode.bytes (e : ByteOrder) (ri : Inode) : List UInt8 :=
  word16 e ri.magic ++ (word16 e ri.nodetype ++ (word32 e ri.totlen ++ (word32 e ri.hdrCrc ++
    (word32 e ri.ino ++ (word32 e ri.version ++ (word32 e ri.mode ++ (word16 e ri.uid ++
    (word16 e ri.gid ++ (word32 e ri.isize ++ (word32 e ri.atime ++ (word32 e ri.mtime ++
    (word32 e ri.ctime ++ (word32 e ri.offset ++ (word32 e ri.csize ++ (word32 e ri.dsize ++
    ([ri.compr, ri.usercompr] ++ (word16 e ri.flags ++ (word32 e ri.dataCrc ++
    word32 e ri.nodeCrc))))))))))))))))))

/-! ## The block buffer -/

/-- The static variables. -/
structure Jffs2 where
  lastIno : UInt32
  lastVersion : UInt32
  targetIno : UInt32
  buf : List UInt8
  ofs : Nat
  mtdofs : Nat
  /-- The blocks written to `outfd`, each with the offset it was erased at. -/
  flushed : List (Nat × List UInt8)
  top : Nat
  nodes : List (List UInt8)

namespace Jffs2

/-- Assign `ofs`. -/
def setOfs (s : Jffs2) (n : Nat) : Jffs2 := { s with ofs := n, top := max s.top n }

/-- Store bytes at `buf + ofs`. -/
def poke (s : Jffs2) (bs : List UInt8) : Option Jffs2 :=
  (poke? s.buf s.ofs bs).map fun buf => { s with buf }

/-- A node is complete. -/
def log (s : Jffs2) (node : List UInt8) : Jffs2 := { s with nodes := s.nodes ++ [node] }

end Jffs2

section Writer

variable (e : ByteOrder) (erasesize : Nat)

/-- `pad`. -/
def pad (size : Nat) (s : Jffs2) : Option Jffs2 :=
  if s.ofs % size = 0 ∧ s.ofs < erasesize then some s
  else do
    let s ←
      if s.ofs < erasesize then do
        let n := size - s.ofs % size
        let s ← s.poke (List.replicate n 0xff)
        pure (s.setOfs (s.ofs + n))
      else some s
    let s := s.setOfs (s.ofs % erasesize)
    if s.ofs = 0 then
      return { s with
        flushed := s.flushed ++ [(s.mtdofs, s.buf)]
        mtdofs := s.mtdofs + erasesize }
    else return s

/-- `rbytes`. -/
def rbytes (s : Jffs2) : Nat := erasesize - s.ofs % erasesize

/-- The two last lines of `add_data`. -/
def putData (bs : List UInt8) (s : Jffs2) : Option Jffs2 := do
  let s ← s.poke bs
  return s.setOfs (s.ofs + bs.length)

/-- `prep_eraseblock`. The call of `add_data` in it has `ofs` 0; in a block
that cannot hold the marker the two would call each other forever. -/
def prepEraseblock (s : Jffs2) : Option Jffs2 :=
  if s.ofs > 0 then some s
  else if s.ofs + (CLEANMARKER e).length > erasesize then none
  else putData (CLEANMARKER e) s

/-- `add_data`. -/
def addData (bs : List UInt8) (s : Jffs2) : Option Jffs2 := do
  let s ←
    if s.ofs + bs.length > erasesize then do
      let s ← pad erasesize erasesize s
      prepEraseblock e erasesize s
    else some s
  putData bs s

/-! ## Directory entries -/

/-- The dirent that `add_dirent` fills in, field by field in its order. -/
def fillDirent (name : CStr) (type : UInt8) (parent ino version : UInt32) : Dirent :=
  let de : Dirent := { Dirent.zero with
    magic := JFFS2_MAGIC_BITMASK
    nodetype := JFFS2_NODETYPE_DIRENT
    type := type
    nameCrc := crc32 name.chars
    ino := ino
    pino := parent
    totlen := (DIRENT_SIZE + name.strlen).toUInt32 }
  let de := { de with hdrCrc := crc32 ((de.bytes e).take 8) }
  let de := { de with version := version, mctime := 0, nsize := name.strlen.toUInt8 }
  { de with nodeCrc := crc32 ((de.bytes e).take (DIRENT_SIZE - 8)) }

/-- `add_dirent`. The test for space compares the `int` difference
`ofs - erasesize` with an unsigned size: a negative difference is a huge
number there, so only `ofs >= erasesize` can pass it. -/
def addDirent (name : CStr) (type : UInt8) (parent : UInt32) (s : Jffs2) :
    Option (UInt32 × Jffs2) := do
  let s ←
    if erasesize ≤ s.ofs ∧ s.ofs - erasesize < DIRENT_SIZE + name.strlen then
      pad erasesize erasesize s
    else some s
  let s ← prepEraseblock e erasesize s
  let ino := s.lastIno + 1
  let de := fillDirent e name type parent ino s.lastVersion
  let s ← s.poke (de.bytes e ++ name.chars)
  let s := { s with lastIno := ino + 1, lastVersion := s.lastVersion + 1 }
  let s := (s.setOfs (s.ofs + (DIRENT_SIZE + de.nsize.toNat))).log (de.bytes e ++ name.chars)
  let s ← pad erasesize 4 s
  return (ino, s)

/-- The inode of `add_dir`. -/
def dirInode (inode : UInt32) : Inode :=
  let ri : Inode := { Inode.zero with
    magic := JFFS2_MAGIC_BITMASK
    nodetype := JFFS2_NODETYPE_INODE
    totlen := INODE_SIZE.toUInt32 }
  let ri := { ri with hdrCrc := crc32 ((ri.bytes e).take 8) }
  -- S_IFDIR | 0755
  let ri := { ri with ino := inode, mode := 0x41ed, version := 1 }
  { ri with nodeCrc := crc32 ((ri.bytes e).take (INODE_SIZE - 8)), dataCrc := 0 }

/-- `add_dir`. -/
def addDir (name : CStr) (parent : UInt32) (s : Jffs2) : Option (UInt32 × Jffs2) := do
  let (inode, s) ← addDirent e erasesize name DT_DIR parent s
  let s ← if rbytes erasesize s < INODE_SIZE then pad erasesize erasesize s else some s
  let s ← prepEraseblock e erasesize s
  let ri := dirInode e inode
  let s ← addData e erasesize (ri.bytes e) s
  let s ← pad erasesize 4 (s.log (ri.bytes e))
  return (inode, s)

/-! ## Files -/

/-- A regular file. Its length is an `off_t` of 32 bits. -/
structure SrcFile where
  content : List UInt8
  small : content.length < 2 ^ 31
  mode : UInt32
  atime : UInt32
  mtime : UInt32
  ctime : UInt32

/-- The file system: what `stat` and `open` find under the name, how many
bytes the `i`-th `read` returns at most, and whether it fails. -/
structure FileAccess where
  file : Option SrcFile
  opens : Bool
  limit : Nat → Nat
  fails : Nat → Bool

/-- The `i`-th `read(fd, wbuf, len)` at the file position `pos`; no bytes
is both the end of the file and an error. -/
def FileAccess.read (fa : FileAccess) (f : SrcFile) (i pos len : Nat) : List UInt8 :=
  if fa.fails i then [] else (f.content.drop pos).take (min len (fa.limit i + 1))

/-- What follows the last `/`. -/
def baseName (name : CStr) : CStr where
  chars := (name.chars.reverse.takeWhile (· != 0x2f)).reverse
  noNul := by
    intro h
    exact name.noNul (List.mem_reverse.mp
      (List.takeWhile_subset _ (List.mem_reverse.mp h)))

/-- The fields of the inode that are the same in all nodes of the file. -/
def fileInode (f : SrcFile) (inode : UInt32) : Inode :=
  { Inode.zero with
    magic := JFFS2_MAGIC_BITMASK
    nodetype := JFFS2_NODETYPE_INODE
    ino := inode
    mode := f.mode
    atime := f.atime
    ctime := f.ctime
    mtime := f.mtime
    isize := f.content.length.toUInt32 }

/-- The fields that change from node to node, in the order of the loop. -/
def fillInode (ri : Inode) (data : List UInt8) (offset : Nat) (version : UInt32) : Inode :=
  let ri := { ri with totlen := (INODE_SIZE + data.length).toUInt32 }
  let ri := { ri with hdrCrc := crc32 ((ri.bytes e).take 8) }
  let ri := { ri with
    version := version
    offset := offset.toUInt32
    csize := data.length.toUInt32
    dsize := data.length.toUInt32 }
  let ri := { ri with nodeCrc := crc32 ((ri.bytes e).take (INODE_SIZE - 8)) }
  { ri with dataCrc := crc32 data }

/-- The variables of the loop of `add_file`. -/
structure FileLoop where
  st : Jffs2
  ri : Inode
  offset : Nat
  reads : Nat

/-- One pass of the loop of `add_file`: either of the inner loop, which
makes room, or the rest of the outer one. -/
def fileBody (fa : FileAccess) (f : SrcFile) (l : FileLoop) : Pass FileLoop Jffs2 :=
  if rbytes erasesize l.st > INODE_SIZE + 128 then
    let len := min (rbytes erasesize l.st - INODE_SIZE) 4096
    match fa.read f l.reads l.offset len with
    | [] => .stop l.st
    | c :: cs =>
        let data := c :: cs
        let version := l.st.lastVersion + 1
        let ri := fillInode e l.ri data l.offset version
        let step : Option Jffs2 := do
          let s ← addData e erasesize (ri.bytes e) { l.st with lastVersion := version }
          let s ← addData e erasesize data s
          let s ← pad erasesize 4 (s.log (ri.bytes e ++ data))
          prepEraseblock e erasesize s
        match step with
        | none => .fault
        | some s => .next { st := s, ri, offset := l.offset + data.length, reads := l.reads + 1 }
  else
    match (pad erasesize erasesize l.st).bind (prepEraseblock e erasesize) with
    | none => .fault
    | some s => .next { l with st := s }

/-- The bound on the passes: each read takes a byte, and a pass that makes
room comes before each. -/
def fileFuel (f : SrcFile) : Nat := 2 * f.content.length + 3

/-- `add_file`. -/
def addFile (fa : FileAccess) (name : CStr) (parent : UInt32) (s : Jffs2) : Option Jffs2 :=
  match fa.file with
  | none => some s
  | some f => do
      let (inode, s) ← addDirent e erasesize (baseName name) DT_REG parent s
      if fa.opens then
        match run (fileBody e erasesize fa f) (fileFuel f)
            { st := s, ri := fileInode f inode, offset := 0, reads := 0 } with
        | .done s => some s
        | .fault => none
        | .running => none
      else some s

/-- The end of both entry points: flush, and write the end marker into a
block of its own. -/
def finish (s : Jffs2) : Option Jffs2 := do
  let s ← pad erasesize erasesize s
  let s ← addData e erasesize JFFS2_EOF s
  pad erasesize erasesize s

/-- `mtd_replace_jffs2`; `mem` is what `malloc` returns. The parameter
`ofs` of the function hides the static one and goes to `mtdofs`. -/
def mtdReplaceJffs2 (fa : FileAccess) (ofs : Nat) (filename : CStr) (mem : List UInt8)
    (s : Jffs2) : Option Jffs2 := do
  let s := { s with
    mtdofs := ofs
    buf := mem
    targetIno := 1
    lastIno := if s.lastIno = 0 then 1 else s.lastIno }
  let s ← addFile e erasesize fa filename s.targetIno s
  finish e erasesize s

/-! ## Scanning a file system -/

/-- A half word of the buffer. -/
def u16At (m : List UInt8) (off : Nat) : Option UInt16 := (peek? m off 2).map (ofWord16 e)

/-- A word of the buffer. -/
def u32At (m : List UInt8) (off : Nat) : Option UInt32 := (peek? m off 4).map (ofWord32 e)

/-- `!strncmp(m + off, s, n)`, with the bytes of `s` and its NUL given. -/
def strncmpEq (m : List UInt8) : Nat → List UInt8 → Nat → Option Bool
  | _, _, 0 => some true
  | off, s, n + 1 => do
      let c ← m[off]?
      let d := s.headD 0
      if c ≠ d then some false
      else if c = 0 then some true
      else strncmpEq m (off + 1) s.tail n

/-- One pass of `mtd_parse_jffs2data`: the variables are `ofs` and the
statics. `ofs` is an `unsigned int`. -/
def parseBody (m : List UInt8) (dir : CStr) : Nat × Jffs2 → Pass (Nat × Jffs2) Jffs2
  | (ofs, s) =>
      if ofs < erasesize then
        match u16At e m ofs with
        | none => .fault
        | some magic =>
            if magic ≠ JFFS2_MAGIC_BITMASK then .stop s
            else
              let step : Option (Nat × Jffs2) := do
                let totlen ← u32At e m (ofs + 4)
                let next := (ofs + padTo4 totlen.toNat % 2 ^ 32) % 2 ^ 32
                let nodetype ← u16At e m (ofs + 2)
                if nodetype = JFFS2_NODETYPE_DIRENT then do
                  let pino ← (if dir.chars = [] then some 0 else u32At e m (ofs + 12))
                  let ino ← u32At e m (ofs + 20)
                  let isDir ←
                    (if dir.chars ≠ [] ∧ pino = 1 then
                      m[ofs + 28]?.bind fun nsize =>
                        strncmpEq m (ofs + DIRENT_SIZE) dir.chars nsize.toNat
                    else some false)
                  let version ← u32At e m (ofs + 16)
                  return (next, { s with
                    targetIno := if isDir then ino else s.targetIno
                    lastIno := if s.lastIno < ino then ino else s.lastIno
                    lastVersion := if s.lastVersion < version then version else s.lastVersion })
                else return (next, s)
              match step with
              | none => .fault
              | some p => .next p
      else .stop s

/-- At most `n` passes of `mtd_parse_jffs2data`. -/
def mtdParseJffs2data (n : Nat) (m : List UInt8) (dir : CStr) (s : Jffs2) : Outcome Jffs2 :=
  run (parseBody e erasesize m dir) n (0, s)

/-- How the scan of `mtd_write_jffs2` ends. -/
inductive ScanEnd where
  | noRoom (s : Jffs2)
  | wrongEndian (s : Jffs2)
  | ready (s : Jffs2)

/-- The scan of `mtd_write_jffs2`: the blocks of the partition that are
left, and `n` passes for each of them. -/
def scanBlocks (n : Nat) (dir : CStr) : List (List UInt8) → Jffs2 → Option ScanEnd
  | [], s => some (.noRoom s)
  | block :: rest, s =>
      let s := { s with buf := block, mtdofs := s.mtdofs + erasesize }
      match u16At e block 0 with
      | none => none
      | some magic =>
          if magic = KSAMTIB_CIGAM_2SFFJ then some (.wrongEndian s)
          else if magic ≠ JFFS2_MAGIC_BITMASK then some (.ready s)
          else
            match mtdParseJffs2data e erasesize n block dir s with
            | .done s => scanBlocks n dir rest s
            | .fault => none
            | .running => none

/-- The part of `mtd_write_jffs2` behind the scan. -/
def appendFile (fa : FileAccess) (filename dir : CStr) (s : Jffs2) : Option Jffs2 := do
  let s := { s with
    mtdofs := s.mtdofs - erasesize
    ofs := 0
    lastIno := if s.lastIno = 0 then 1 else s.lastIno }
  let s ←
    if s.targetIno = 0 then do
      let (inode, s) ← addDir e erasesize dir 1 s
      pure { s with targetIno := inode }
    else some s
  let s ← addFile e erasesize fa filename s.targetIno s
  finish e erasesize s

/-- `mtd_write_jffs2` on a partition of these erase blocks: the return code
and the statics. -/
def mtdWriteJffs2 (n : Nat) (fa : FileAccess) (filename dir : CStr)
    (partition : List (List UInt8)) (s : Jffs2) : Option (Int × Jffs2) := do
  let s := { s with targetIno := if dir.chars = [] then 1 else s.targetIno }
  match ← scanBlocks e erasesize n dir partition s with
  | .noRoom s => return (-1, s)
  | .wrongEndian s => return (-1, s)
  | .ready s => do
      let s ← appendFile e erasesize fa filename dir s
      return (0, s)

end Writer

end UbntSdk.Mtd
