/-
UbntSdk.Mtd.Jffs2ReadBack — a file that was appended can be read back.

`readBlock` reads a block the way a JFFS2 mount scans it: node after node,
each at the 4-byte rounded end of the one before, as long as the magic is
there. On a block of the writer it gives the marker and the nodes
(`readBlock_blockBytes`).

The nodes are then checked field by field. `fillDirent_ok` and
`fillInode_ok` say that the CRCs are those of the bytes they cover; the
second is lifted along the chunks of the file by induction
(`inodeNodes_ok`). `addFile_readsBack` puts this together for one call of
`add_file`, `jffs2_readBack` for the two entry points.
-/
import UbntSdk.Mtd.Jffs2Theorems

namespace UbntSdk.Mtd

open UbntSdk.Lib

/-! ## The reader -/

/-- The nodes from here to the end of the block, at most `n`. -/
def readNodes (e : ByteOrder) : Nat → List UInt8 → List (List UInt8)
  | 0, _ => []
  | n + 1, m =>
      match u16At e m 0, u32At e m 4 with
      | some magic, some totlen =>
          if magic = JFFS2_MAGIC_BITMASK then
            m.take totlen.toNat :: readNodes e n (m.drop (padTo4 totlen.toNat))
          else []
      | _, _ => []

/-- The nodes of a block. -/
def readBlock (e : ByteOrder) (block : List UInt8) : List (List UInt8) :=
  readNodes e block.length block

/-- The type of a node. -/
def nodetypeOf (e : ByteOrder) (node : List UInt8) : Option UInt16 := u16At e node 2

def JFFS2_NODETYPE_CLEANMARKER : UInt16 := 0x2003

/-- The nodes of the blocks, in flash order, without the cleanmarkers. -/
def readBack (e : ByteOrder) (blocks : List (List UInt8)) : List (List UInt8) :=
  (blocks.flatMap (readBlock e)).filter fun node =>
    nodetypeOf e node ≠ some JFFS2_NODETYPE_CLEANMARKER

/-- A node that the reader can step over: it starts with the magic and its
own length. -/
structure IsNode (e : ByteOrder) (node : List UInt8) : Prop where
  magic : ∀ rest, u16At e (node ++ rest) 0 = some JFFS2_MAGIC_BITMASK
  totlen : ∀ rest, u32At e (node ++ rest) 4 = some node.length.toUInt32
  small : node.length < 2 ^ 32

/-- The header of a node decides. -/
theorem isNode_of_header {e : ByteOrder} {node : List UInt8} {nodetype : UInt16}
    {totlen : UInt32}
    (h : node.take 8 = word16 e JFFS2_MAGIC_BITMASK ++ (word16 e nodetype ++ word32 e totlen))
    (hlen : node.length = totlen.toNat) :
    IsNode e node ∧ nodetypeOf e node = some nodetype := by
  have hsplit : node = word16 e JFFS2_MAGIC_BITMASK ++
      (word16 e nodetype ++ (word32 e totlen ++ node.drop 8)) := by
    rw [← List.append_assoc (word16 e nodetype), ← List.append_assoc, ← h, List.take_append_drop]
  have htotlen : totlen = node.length.toUInt32 := by
    rw [hlen]
    exact UInt32.ofNat_toNat.symm
  refine ⟨⟨fun rest => ?_, fun rest => ?_, hlen ▸ totlen.toNat_lt⟩, ?_⟩
  · rw [u16At, hsplit, List.append_assoc, peek?_head (by simp), Option.map_some, ofWord16_word16]
  · rw [u32At]
    conv_lhs => rw [hsplit]
    rw [List.append_assoc, peek?_skip (by simp), List.append_assoc, peek?_skip (by simp),
      List.append_assoc, word16_length, word16_length, peek?_head (by simp), Option.map_some,
      ofWord32_word32, htotlen]
  · rw [nodetypeOf, u16At, hsplit, peek?_skip (by simp), word16_length, peek?_head (by simp),
      Option.map_some, ofWord16_word16]

theorem isNode_cleanmarker (e : ByteOrder) :
    IsNode e (CLEANMARKER e) ∧
      nodetypeOf e (CLEANMARKER e) = some JFFS2_NODETYPE_CLEANMARKER := by
  cases e with
  | big => exact @isNode_of_header .big _ JFFS2_NODETYPE_CLEANMARKER 12 rfl rfl
  | little => exact @isNode_of_header .little _ JFFS2_NODETYPE_CLEANMARKER 12 rfl rfl

/-- The reader steps over padded nodes one by one and stops behind them. -/
theorem readNodes_nodes {e : ByteOrder} {tail : List UInt8}
    (htail : u16At e tail 0 ≠ some JFFS2_MAGIC_BITMASK) (nodes : List (List UInt8)) :
    ∀ n, (∀ node ∈ nodes, IsNode e node) → nodes.length < n →
      readNodes e n (nodes.flatMap padNode ++ tail) = nodes := by
  induction nodes with
  | nil =>
      intro n _ hn
      obtain ⟨n, rfl⟩ : ∃ m, n = m + 1 := ⟨n - 1, by simp at hn; omega⟩
      simp only [List.flatMap_nil, List.nil_append, readNodes]
      split
      · rename_i magic totlen hmagic _
        refine if_neg fun heq => htail ?_
        rw [hmagic, heq]
      · rfl
  | cons node nodes ih =>
      intro n hnodes hn
      obtain ⟨n, rfl⟩ : ∃ m, n = m + 1 := ⟨n - 1, by simp at hn; omega⟩
      have hnode := hnodes node List.mem_cons_self
      generalize hrest : nodes.flatMap padNode ++ tail = rest
      have hsplit : (node :: nodes).flatMap padNode ++ tail
          = node ++ (List.replicate (padTo4 node.length - node.length) 0xff ++ rest) := by
        simp [padNode, ← hrest, List.append_assoc]
      have hlen : node.length.toUInt32.toNat = node.length := Nat.mod_eq_of_lt hnode.small
      have hdrop : (node ++ (List.replicate (padTo4 node.length - node.length) 0xff ++ rest)).drop
          (padTo4 node.length) = rest := by
        rw [← List.append_assoc]
        refine List.drop_left' ?_
        have hle := le_padTo4 node.length
        rw [List.length_append, List.length_replicate]
        omega
      rw [hsplit, readNodes, hnode.magic, hnode.totlen]
      simp only [hlen, if_true, List.take_left, hdrop]
      rw [← hrest, ih n (fun m hm => hnodes m (List.mem_cons_of_mem _ hm))
        (by rw [List.length_cons] at hn; omega)]

/-- Reading a block of the writer. -/
theorem readBlock_blockBytes {e : ByteOrder} {z : EraseSize} {nodes : List (List UInt8)}
    (hnodes : ∀ node ∈ nodes, IsNode e node) (hfits : (used e nodes).length ≤ z.size) :
    readBlock e (blockBytes e z.size nodes) = CLEANMARKER e :: nodes := by
  have hmarker : padNode (CLEANMARKER e) = CLEANMARKER e := by
    rw [padNode, CLEANMARKER_length]
    exact List.append_nil _
  have hbytes : blockBytes e z.size nodes = (CLEANMARKER e :: nodes).flatMap padNode ++
      List.replicate (z.size - (used e nodes).length) 0xff := by
    rw [blockBytes, used, List.flatMap_cons, hmarker]
  have htail : u16At e (List.replicate (z.size - (used e nodes).length) 0xff) 0
      ≠ some JFFS2_MAGIC_BITMASK := by
    have hun := (blockBytes_ok e z hfits).unparsable _ (Nat.le_refl _)
    rw [blockBytes, u16At, peek?_skip (Nat.le_refl _), Nat.sub_self] at hun
    exact hun
  -- every node takes at least one byte, so the length bounds their number
  have hcount : ∀ ns : List (List UInt8), (∀ node ∈ ns, IsNode e node) →
      ns.length ≤ (ns.flatMap padNode).length := by
    intro ns hns
    induction ns with
    | nil => exact Nat.le_refl _
    | cons node ns ih =>
        have hpos : 0 < node.length := by
          refine List.length_pos_iff.mpr fun hnil => ?_
          have hmagic := (hns node List.mem_cons_self).magic []
          rw [hnil] at hmagic
          cases hmagic
        have hle := le_padTo4 node.length
        have hrec := ih fun m hm => hns m (List.mem_cons_of_mem _ hm)
        rw [List.flatMap_cons, List.length_append, padNode_length, List.length_cons]
        omega
  have hlt : (CLEANMARKER e :: nodes).length < (blockBytes e z.size nodes).length := by
    have hc := hcount nodes hnodes
    rw [blockBytes, used, List.length_append, List.length_append, CLEANMARKER_length,
      List.length_cons]
    omega
  rw [readBlock]
  generalize hn : (blockBytes e z.size nodes).length = n at hlt
  rw [hbytes]
  exact readNodes_nodes htail _ n
    (List.forall_mem_cons.mpr ⟨(isNode_cleanmarker e).1, hnodes⟩) hlt

/-- Reading all blocks of a stream gives its nodes. -/
theorem readBack_blocks {e : ByteOrder} {z : EraseSize} {done : List (List (List UInt8))}
    (hnodes : ∀ node ∈ done.flatten, IsNode e node ∧
      nodetypeOf e node ≠ some JFFS2_NODETYPE_CLEANMARKER)
    (hfits : ∀ nodes ∈ done, (used e nodes).length ≤ z.size) :
    readBack e (done.map (blockBytes e z.size)) = done.flatten := by
  have hread : (done.map (blockBytes e z.size)).flatMap (readBlock e)
      = done.flatMap fun nodes => CLEANMARKER e :: nodes := by
    rw [List.flatMap_map, List.flatMap_def, List.flatMap_def]
    refine congrArg List.flatten (List.map_congr_left fun nodes hmem => ?_)
    exact readBlock_blockBytes
      (fun node hnode => (hnodes node (List.mem_flatten.mpr ⟨nodes, hmem, hnode⟩)).1)
      (hfits nodes hmem)
  rw [readBack, hread]
  clear hread hfits
  induction done with
  | nil => rfl
  | cons nodes done ih =>
      rw [List.flatten_cons] at hnodes
      have hkeep : nodes.filter (fun node =>
          nodetypeOf e node ≠ some JFFS2_NODETYPE_CLEANMARKER) = nodes := by
        rw [List.filter_eq_self]
        intro node hnode
        simpa using (hnodes node (List.mem_append_left _ hnode)).2
      rw [List.flatMap_cons, List.cons_append, List.filter_cons_of_neg
        (by simp [(isNode_cleanmarker e).2]), List.filter_append, hkeep,
        ih fun node hnode => hnodes node (List.mem_append_right _ hnode), List.flatten_cons]

/-! ## The fields of the nodes -/

/-- A dirent that belongs to the name: its lengths and its three CRCs are
right. -/
structure DirentOk (e : ByteOrder) (de : Dirent) (name : CStr) : Prop where
  magic : de.magic = JFFS2_MAGIC_BITMASK
  nodetype : de.nodetype = JFFS2_NODETYPE_DIRENT
  totlen : de.totlen.toNat = DIRENT_SIZE + name.strlen
  nsize : de.nsize.toNat = name.strlen
  hdrCrc : de.hdrCrc = crc32 ((de.bytes e).take 8)
  nodeCrc : de.nodeCrc = crc32 ((de.bytes e).take (DIRENT_SIZE - 8))
  nameCrc : de.nameCrc = crc32 name.chars

/-- An inode node of the file with these data: its number, offset and
lengths and its three CRCs are right. -/
structure InodeOk (e : ByteOrder) (f : SrcFile) (ino : UInt32) (offset : Nat) (ri : Inode)
    (data : List UInt8) : Prop where
  magic : ri.magic = JFFS2_MAGIC_BITMASK
  nodetype : ri.nodetype = JFFS2_NODETYPE_INODE
  totlen : ri.totlen.toNat = INODE_SIZE + data.length
  inoEq : ri.ino = ino
  isize : ri.isize.toNat = f.content.length
  offsetEq : ri.offset.toNat = offset
  csize : ri.csize.toNat = data.length
  dsize : ri.dsize.toNat = data.length
  hdrCrc : ri.hdrCrc = crc32 ((ri.bytes e).take 8)
  nodeCrc : ri.nodeCrc = crc32 ((ri.bytes e).take (INODE_SIZE - 8))
  dataCrc : ri.dataCrc = crc32 data

/-- The eight bytes under the header CRC of a dirent. -/
theorem Dirent.take_header (e : ByteOrder) (de : Dirent) :
    (de.bytes e).take 8
      = word16 e de.magic ++ (word16 e de.nodetype ++ word32 e de.totlen) := by
  rw [Dirent.bytes, ← List.append_assoc (word16 e de.nodetype), ← List.append_assoc]
  exact List.take_left' (by simp)

/-- The bytes under the node CRC of a dirent. -/
theorem Dirent.take_node (e : ByteOrder) (de : Dirent) :
    (de.bytes e).take (DIRENT_SIZE - 8)
      = word16 e de.magic ++ (word16 e de.nodetype ++ (word32 e de.totlen ++
          (word32 e de.hdrCrc ++ (word32 e de.pino ++ (word32 e de.version ++
          (word32 e de.ino ++ (word32 e de.mctime ++ [de.nsize, de.type, 0, 0]))))))) := by
  have hsplit : de.bytes e = (word16 e de.magic ++ (word16 e de.nodetype ++
      (word32 e de.totlen ++ (word32 e de.hdrCrc ++ (word32 e de.pino ++ (word32 e de.version ++
      (word32 e de.ino ++ (word32 e de.mctime ++ [de.nsize, de.type, 0, 0])))))))) ++
      (word32 e de.nodeCrc ++ word32 e de.nameCrc) := by
    simp [Dirent.bytes, List.append_assoc]
  rw [hsplit]
  exact List.take_left' (by simp [DIRENT_SIZE])

/-- The eight bytes under the header CRC of an inode. -/
theorem Inode.take_header (e : ByteOrder) (ri : Inode) :
    (ri.bytes e).take 8
      = word16 e ri.magic ++ (word16 e ri.nodetype ++ word32 e ri.totlen) := by
  rw [Inode.bytes, ← List.append_assoc (word16 e ri.nodetype), ← List.append_assoc]
  exact List.take_left' (by simp)

/-- The bytes under the node CRC of an inode: all but the last two CRCs. -/
theorem Inode.take_node (e : ByteOrder) (ri : Inode) :
    (ri.bytes e).take (INODE_SIZE - 8)
      = word16 e ri.magic ++ (word16 e ri.nodetype ++ (word32 e ri.totlen ++
          (word32 e ri.hdrCrc ++ (word32 e ri.ino ++ (word32 e ri.version ++
          (word32 e ri.mode ++ (word16 e ri.uid ++ (word16 e ri.gid ++ (word32 e ri.isize ++
          (word32 e ri.atime ++ (word32 e ri.mtime ++ (word32 e ri.ctime ++
          (word32 e ri.offset ++ (word32 e ri.csize ++ (word32 e ri.dsize ++
          ([ri.compr, ri.usercompr] ++ word16 e ri.flags)))))))))))))))) := by
  have hsplit : ri.bytes e = (word16 e ri.magic ++ (word16 e ri.nodetype ++
      (word32 e ri.totlen ++ (word32 e ri.hdrCrc ++ (word32 e ri.ino ++ (word32 e ri.version ++
      (word32 e ri.mode ++ (word16 e ri.uid ++ (word16 e ri.gid ++ (word32 e ri.isize ++
      (word32 e ri.atime ++ (word32 e ri.mtime ++ (word32 e ri.ctime ++ (word32 e ri.offset ++
      (word32 e ri.csize ++ (word32 e ri.dsize ++ ([ri.compr, ri.usercompr] ++
      word16 e ri.flags))))))))))))))))) ++ (word32 e ri.dataCrc ++ word32 e ri.nodeCrc) := by
    simp [Inode.bytes, List.append_assoc]
  rw [hsplit]
  exact List.take_left' (by simp [INODE_SIZE])

theorem toUInt32_toNat {n : Nat} (h : n < 2 ^ 32) : n.toUInt32.toNat = n :=
  UInt32.toNat_ofNat_of_lt' h

/-- The CRCs of a dirent are computed when the bytes they cover are final. -/
theorem fillDirent_ok (e : ByteOrder) {name : CStr} (hname : name.strlen ≤ 255) (type : UInt8)
    (parent ino version : UInt32) :
    DirentOk e (fillDirent e name type parent ino version) name where
  magic := rfl
  nodetype := rfl
  totlen := toUInt32_toNat (by simp only [DIRENT_SIZE]; omega)
  nsize := Nat.mod_eq_of_lt (by omega)
  hdrCrc := by
    rw [Dirent.take_header]
    simp only [fillDirent]
    rw [Dirent.take_header]
  nodeCrc := by
    rw [Dirent.take_node]
    simp only [fillDirent]
    rw [Dirent.take_node]
  nameCrc := rfl

/-- The fields of an inode that the loop does not touch. -/
structure InodeBase (f : SrcFile) (ino : UInt32) (ri : Inode) : Prop where
  magic : ri.magic = JFFS2_MAGIC_BITMASK
  nodetype : ri.nodetype = JFFS2_NODETYPE_INODE
  inoEq : ri.ino = ino
  isize : ri.isize = f.content.length.toUInt32

theorem InodeBase.fill {f : SrcFile} {ino : UInt32} {ri : Inode} (h : InodeBase f ino ri)
    (e : ByteOrder) (data : List UInt8) (offset : Nat) (version : UInt32) :
    InodeBase f ino (fillInode e ri data offset version) :=
  ⟨h.magic, h.nodetype, h.inoEq, h.isize⟩

/-- The CRCs of an inode node are computed when the bytes they cover are
final, in every round of the loop. -/
theorem fillInode_ok (e : ByteOrder) {f : SrcFile} {ino : UInt32} {ri : Inode}
    (h : InodeBase f ino ri) {data : List UInt8} {offset : Nat}
    (hfile : offset + data.length ≤ f.content.length) (version : UInt32) :
    InodeOk e f ino offset (fillInode e ri data offset version) data where
  magic := h.magic
  nodetype := h.nodetype
  totlen := toUInt32_toNat (by have := f.small; simp only [INODE_SIZE]; omega)
  inoEq := h.inoEq
  isize := by
    show ri.isize.toNat = _
    rw [h.isize]
    exact toUInt32_toNat (by have := f.small; omega)
  offsetEq := toUInt32_toNat (by have := f.small; omega)
  csize := toUInt32_toNat (by have := f.small; omega)
  dsize := toUInt32_toNat (by have := f.small; omega)
  hdrCrc := by
    rw [Inode.take_header]
    simp only [fillInode]
    rw [Inode.take_header]
  nodeCrc := by
    rw [Inode.take_node]
    simp only [fillInode]
    rw [Inode.take_node]
  dataCrc := rfl

/-- Inode nodes with their data, from a file offset on. -/
def InodesOk (e : ByteOrder) (f : SrcFile) (ino : UInt32) :
    Nat → List (Inode × List UInt8) → Prop
  | _, [] => True
  | offset, (ri, data) :: rest =>
      InodeOk e f ino offset ri data ∧ InodesOk e f ino (offset + data.length) rest

/-- The version numbers count up by one. -/
def VersionsFrom : UInt32 → List (Inode × List UInt8) → Prop
  | _, [] => True
  | version, (ri, _) :: rest => ri.version = version + 1 ∧ VersionsFrom (version + 1) rest

/-- Numbers that count up strictly increase if they do not wrap. -/
theorem VersionsFrom.increasing {inodes : List (Inode × List UInt8)} :
    ∀ {version : UInt32}, VersionsFrom version inodes →
      version.toNat + inodes.length < 2 ^ 32 →
      (∀ p ∈ inodes, version.toNat < p.1.version.toNat) ∧
      inodes.Pairwise fun p q => p.1.version.toNat < q.1.version.toNat := by
  induction inodes with
  | nil => exact fun _ _ => ⟨fun p hp => absurd hp List.not_mem_nil, List.Pairwise.nil⟩
  | cons p rest ih =>
      intro version h hwrap
      obtain ⟨ri, data⟩ := p
      obtain ⟨hri, hrest⟩ := h
      rw [List.length_cons] at hwrap
      have hnext : (version + 1).toNat = version.toNat + 1 := by
        rw [UInt32.toNat_add]
        exact Nat.mod_eq_of_lt (by show _ + 1 < _; omega)
      obtain ⟨hgt, hpair⟩ := ih hrest (by omega)
      refine ⟨?_, List.pairwise_cons.mpr ⟨fun q hq => ?_, hpair⟩⟩
      · rw [List.forall_mem_cons]
        refine ⟨by show _ < ri.version.toNat; rw [hri]; omega, fun q hq => ?_⟩
        have := hgt q hq
        omega
      · show ri.version.toNat < _
        rw [hri]
        exact hgt q hq

/-- The nodes that the loop of `add_file` writes. -/
theorem inodeNodes_ok (e : ByteOrder) {f : SrcFile} {ino : UInt32} (chunks : List (List UInt8)) :
    ∀ (ri : Inode) (offset : Nat) (version : UInt32), InodeBase f ino ri →
      offset + chunks.flatten.length ≤ f.content.length →
      ∃ inodes : List (Inode × List UInt8),
        inodeNodes e ri offset version chunks = inodes.map (fun p => p.1.bytes e ++ p.2) ∧
        inodes.map Prod.snd = chunks ∧ InodesOk e f ino offset inodes ∧
        VersionsFrom version inodes := by
  induction chunks with
  | nil => exact fun ri offset version _ _ => ⟨[], rfl, rfl, trivial, trivial⟩
  | cons data chunks ih =>
      intro ri offset version hbase hfile
      rw [List.flatten_cons, List.length_append] at hfile
      obtain ⟨inodes, hnodes, hsnd, hok, hver⟩ :=
        ih (fillInode e ri data offset (version + 1)) (offset + data.length) (version + 1)
          (hbase.fill e data offset (version + 1)) (by omega)
      refine ⟨(fillInode e ri data offset (version + 1), data) :: inodes, ?_, ?_, ?_, ?_⟩
      · rw [inodeNodes, List.map_cons, hnodes]
      · rw [List.map_cons, hsnd]
      · exact ⟨fillInode_ok e hbase (by omega) (version + 1), hok⟩
      · exact ⟨rfl, hver⟩

/-! ## The nodes are nodes for the reader -/

theorem DirentOk.isNode {e : ByteOrder} {de : Dirent} {name : CStr} (h : DirentOk e de name) :
    IsNode e (de.bytes e ++ name.chars) ∧
      nodetypeOf e (de.bytes e ++ name.chars) = some JFFS2_NODETYPE_DIRENT := by
  refine @isNode_of_header e _ _ de.totlen ?_ ?_
  · rw [List.take_append_of_le_length (by simp [DIRENT_SIZE]), Dirent.take_header, h.magic,
      h.nodetype]
  · rw [h.totlen, List.length_append, Dirent.bytes_length]
    rfl

theorem Inode.isNode {e : ByteOrder} {ri : Inode} {data : List UInt8}
    (hmagic : ri.magic = JFFS2_MAGIC_BITMASK) (hnodetype : ri.nodetype = JFFS2_NODETYPE_INODE)
    (htotlen : ri.totlen.toNat = INODE_SIZE + data.length) :
    IsNode e (ri.bytes e ++ data) ∧
      nodetypeOf e (ri.bytes e ++ data) = some JFFS2_NODETYPE_INODE := by
  refine @isNode_of_header e _ _ ri.totlen ?_ ?_
  · rw [List.take_append_of_le_length (by simp [INODE_SIZE]), Inode.take_header, hmagic, hnodetype]
  · rw [htotlen, List.length_append, Inode.bytes_length]

/-- A node that is no cleanmarker. -/
def IsData (e : ByteOrder) (node : List UInt8) : Prop :=
  IsNode e node ∧ nodetypeOf e node ≠ some JFFS2_NODETYPE_CLEANMARKER

theorem isData_direntNode (e : ByteOrder) {name : CStr} (hname : name.strlen ≤ 255)
    (type : UInt8) (parent : UInt32) (s : Jffs2) :
    IsData e (direntNode e name type parent s) := by
  obtain ⟨hnode, htype⟩ := (fillDirent_ok e hname type parent (s.lastIno + 1) s.lastVersion).isNode
  exact ⟨hnode, by rw [direntNode, htype]; decide⟩

theorem isData_dirInode (e : ByteOrder) (inode : UInt32) :
    IsData e ((dirInode e inode).bytes e) := by
  obtain ⟨hnode, htype⟩ := @Inode.isNode e (dirInode e inode) [] rfl rfl rfl
  rw [List.append_nil] at hnode htype
  exact ⟨hnode, by rw [htype]; decide⟩

theorem InodesOk.isData {e : ByteOrder} {f : SrcFile} {ino : UInt32}
    {inodes : List (Inode × List UInt8)} :
    ∀ {offset : Nat}, InodesOk e f ino offset inodes →
      ∀ node ∈ inodes.map (fun p => p.1.bytes e ++ p.2), IsData e node := by
  induction inodes with
  | nil => exact fun _ node hnode => absurd hnode List.not_mem_nil
  | cons p rest ih =>
      intro offset h
      obtain ⟨ri, data⟩ := p
      obtain ⟨hri, hrest⟩ := h
      rw [List.map_cons, List.forall_mem_cons]
      obtain ⟨hnode, htype⟩ := @Inode.isNode e ri data hri.magic hri.nodetype hri.totlen
      exact ⟨⟨hnode, by rw [htype]; decide⟩, ih hrest⟩

/-! ## Reading the file back -/

/-- The versions of the nodes strictly increase. -/
def Increasing (inodes : List (Inode × List UInt8)) : Prop :=
  inodes.Pairwise fun p q => p.1.version.toNat < q.1.version.toNat

/-- Blocks from which the file can be read back: behind the nodes of `pre`
there is one dirent with the name, and then inode nodes with the number of
the dirent, contiguous from offset 0, whose data are the content. The
version numbers count up by one, in 32 bits. -/
structure ReadsBack (e : ByteOrder) (f : SrcFile) (name : CStr) (blocks : List (List UInt8))
    (pre : List (List UInt8)) (de : Dirent) (inodes : List (Inode × List UInt8)) : Prop where
  nodes : readBack e blocks =
    pre ++ (de.bytes e ++ name.chars) :: inodes.map fun p => p.1.bytes e ++ p.2
  dirent : DirentOk e de name
  nonempty : inodes ≠ []
  inodesOk : InodesOk e f de.ino 0 inodes
  content : (inodes.map Prod.snd).flatten = f.content
  versions : VersionsFrom (de.version + 1) inodes
  count : inodes.length ≤ f.content.length

/-- The block of the end marker holds no nodes. -/
theorem readBack_eofBlock (e : ByteOrder) (erasesize : Nat) (blocks : List (List UInt8)) :
    readBack e (blocks ++ [eofBlock erasesize]) = readBack e blocks := by
  have hmagic : u16At e (eofBlock erasesize) 0 ≠ some JFFS2_MAGIC_BITMASK := by
    have hsplit : eofBlock erasesize
        = [0xde, 0xad] ++ ([0xc0, 0xde] ++ List.replicate (erasesize - 4) 0xff) := rfl
    rw [u16At, hsplit, peek?_head (by rfl), Option.map_some]
    cases e <;> decide
  have hread : readBlock e (eofBlock erasesize) = [] :=
    readNodes_nodes hmagic [] _ (fun _ h => absurd h List.not_mem_nil) (by
      simp [eofBlock, JFFS2_EOF])
  rw [readBack, readBack, List.flatMap_append, List.flatMap_singleton, hread, List.append_nil]

/-- There are no more chunks than bytes. -/
theorem length_le_flatten {chunks : List (List UInt8)} (h : ∀ c ∈ chunks, c ≠ []) :
    chunks.length ≤ chunks.flatten.length := by
  induction chunks with
  | nil => exact Nat.le_refl _
  | cons c chunks ih =>
      rw [List.forall_mem_cons] at h
      have hpos : 0 < c.length := List.length_pos_iff.mpr h.1
      have hrest := ih h.2
      rw [List.flatten_cons, List.length_append, List.length_cons]
      omega

/-- Adding a file to a block with room for the dirent, and finishing. -/
theorem addFile_readsBack {e : ByteOrder} {z : EraseSize} {b s : Jffs2}
    {cur : List (List UInt8)} {fa : FileAccess} {f : SrcFile} {name : CStr}
    (h : Open e z b s [] cur) (hcur : ∀ node ∈ cur, IsData e node)
    (hsmall : (used e cur).length ≤ 512) (hname : (baseName name).strlen ≤ 255)
    (hfile : fa.file = some f) (hopens : fa.opens = true) (hreads : ∀ i, fa.fails i = false)
    (hne : f.content ≠ []) (parent : UInt32) :
    ∃ s' new de inodes, (addFile e z.size fa name parent s).bind (finish e z.size) = some s' ∧
      s'.flushed = b.flushed ++ new ∧
      ReadsBack e f (baseName name) (new.map Prod.snd) cur de inodes ∧
      de.version = s.lastVersion ∧ (∀ p ∈ inodes, p.2 ≠ [] ∧ p.2.length < z.size) := by
  have hmin := z.min
  obtain ⟨s₁, chunks, hadd, ⟨done, last, hopen⟩, hchunks, hnodes, hcontent⟩ :=
    addFile_open h hname parent (by simp only [DIRENT_SIZE]; omega) hfile
  specialize hcontent hopens hreads
  obtain ⟨s', hfinish, hfinished⟩ := finish_open hopen
  obtain ⟨inodes, hinodes, hsnd, hok, hver⟩ :=
    @inodeNodes_ok e f (s.lastIno + 1) chunks (fileInode f (s.lastIno + 1)) 0
      (s.lastVersion + 1) ⟨rfl, rfl, rfl, rfl⟩ (by rw [hcontent, Nat.zero_add])
  -- the nodes that were put into the buffer are the nodes of the flushed blocks
  have hflat : (done ++ [last]).flatten = cur ++ direntNode e (baseName name) DT_REG parent s ::
      inodes.map (fun p => p.1.bytes e ++ p.2) := by
    have hnow := hopen.stream.nodes
    rw [hnodes, h.stream.nodes, List.flatten_nil, List.nil_append, List.append_assoc,
      List.append_cancel_left_eq, hinodes] at hnow
    rw [List.flatten_append, List.flatten_singleton, ← hnow]
  have hdata : ∀ node ∈ (done ++ [last]).flatten, IsData e node := by
    intro node hnode
    rw [hflat, List.mem_append, List.mem_cons] at hnode
    rcases hnode with hnode | rfl | hnode
    · exact hcur node hnode
    · exact isData_direntNode e hname DT_REG parent s
    · exact hok.isData node hnode
  have hread : readBack e ((blocksAt e z.size b.mtdofs (done ++ [last]) ++
      [(b.mtdofs + (done ++ [last]).length * z.size, eofBlock z.size)]).map Prod.snd)
      = (done ++ [last]).flatten := by
    rw [List.map_append, blocksAt_snd]
    exact (readBack_eofBlock e z.size _).trans (readBack_blocks hdata hfinished.fits)
  refine ⟨s', _, fillDirent e (baseName name) DT_REG parent (s.lastIno + 1) s.lastVersion,
    inodes, by rw [hadd, Option.bind_some, hfinish], hfinished.flushed,
    ⟨hread.trans hflat, fillDirent_ok e hname DT_REG parent _ _, ?_, hok, ?_, hver, ?_⟩, rfl, ?_⟩
  · rintro rfl
    rw [← hsnd] at hcontent
    exact hne hcontent.symm
  · rw [hsnd, hcontent]
  · have hlen : inodes.length = chunks.length := by rw [← hsnd, List.length_map]
    rw [hlen, ← hcontent]
    exact length_le_flatten hchunks
  · intro p hp
    refine ⟨hchunks p.2 (hsnd ▸ List.mem_map_of_mem hp), ?_⟩
    have hmem : p.1.bytes e ++ p.2 ∈ (done ++ [last]).flatten := by
      rw [hflat]
      exact List.mem_append_right _ (List.mem_cons_of_mem _
        (List.mem_map.mpr ⟨p, hp, rfl⟩))
    obtain ⟨nodes, hnodes', hmem⟩ := List.mem_flatten.mp hmem
    obtain ⟨off, _, _, hend, _⟩ := (blockBytes_ok e z (hfinished.fits nodes hnodes')).node _ hmem
    have hfits := hfinished.fits nodes hnodes'
    rw [List.length_append, Inode.bytes_length] at hend
    simp only [INODE_SIZE] at hend
    omega

/-- The same from an empty block. -/
theorem addFile_readsBack_fresh {e : ByteOrder} {z : EraseSize} {b s : Jffs2}
    {fa : FileAccess} {f : SrcFile} {name : CStr} (h : Fresh e z b s [])
    (hname : (baseName name).strlen ≤ 255) (hfile : fa.file = some f)
    (hopens : fa.opens = true) (hreads : ∀ i, fa.fails i = false) (hne : f.content ≠ [])
    (parent : UInt32) :
    ∃ s' new de inodes, (addFile e z.size fa name parent s).bind (finish e z.size) = some s' ∧
      s'.flushed = b.flushed ++ new ∧
      ReadsBack e f (baseName name) (new.map Prod.snd) [] de inodes ∧
      de.version = s.lastVersion ∧ (∀ p ∈ inodes, p.2 ≠ [] ∧ p.2.length < z.size) := by
  obtain ⟨s₀, hopen, hkept, hsame⟩ := addFile_fresh h hfile
  have hids := hkept.ids
  simp only [ids, Prod.mk.injEq] at hids
  rw [hsame, ← hids.2.1]
  exact addFile_readsBack hopen (fun _ hmem => absurd hmem List.not_mem_nil)
    (by rw [used_nil, CLEANMARKER_length]; omega) hname hfile hopens hreads hne parent

/-- The versions increase unless the counter wraps. -/
theorem ReadsBack.increasing {e : ByteOrder} {f : SrcFile} {name : CStr}
    {blocks pre : List (List UInt8)} {de : Dirent} {inodes : List (Inode × List UInt8)}
    (h : ReadsBack e f name blocks pre de inodes)
    (hwrap : de.version.toNat + 1 + inodes.length < 2 ^ 32) : Increasing inodes := by
  have hnext : (de.version + 1).toNat = de.version.toNat + 1 := by
    rw [UInt32.toNat_add]
    exact Nat.mod_eq_of_lt (by show _ + 1 < _; omega)
  exact (h.versions.increasing (by rw [hnext]; exact hwrap)).2

/-- A file that was appended can be read back, for both entry points: for
every erase size that is a multiple of 4 and at least 4096, every file that
is not empty and can be opened and read (in pieces of any size), whether a
directory has to be made for it or not. `stat` finds no file under a name
of more than 255 bytes. The version numbers are 32-bit words that count up
from `last_version`, and increase as long as these do not wrap. -/
theorem jffs2_readBack (e : ByteOrder) (z : EraseSize) (fa : FileAccess) (f : SrcFile)
    (filename dir : CStr) (hname : (baseName filename).strlen ≤ 255) (hdir : dir.strlen ≤ 255)
    (hfile : fa.file = some f) (hopens : fa.opens = true) (hreads : ∀ i, fa.fails i = false)
    (hne : f.content ≠ []) :
    (∀ (s : Jffs2) (ofs : Nat) (mem : List UInt8), s.ofs = 0 → s.top = 0 →
      mem.length = z.size →
      ∃ s' new de inodes, mtdReplaceJffs2 e z.size fa ofs filename mem s = some s' ∧
        s'.flushed = s.flushed ++ new ∧ de.version = s.lastVersion ∧
        ReadsBack e f (baseName filename) (new.map Prod.snd) [] de inodes ∧
        (de.version.toNat + 1 + inodes.length < 2 ^ 32 → Increasing inodes)) ∧
    (∀ s : Jffs2, s.top = 0 → s.buf.length = z.size →
      ∃ s' new pre de inodes, appendFile e z.size fa filename dir s = some s' ∧
        s'.flushed = s.flushed ++ new ∧
        pre.length = (if s.targetIno = 0 then 2 else 0) ∧
        de.version = s.lastVersion + (if s.targetIno = 0 then 1 else 0) ∧
        ReadsBack e f (baseName filename) (new.map Prod.snd) pre de inodes ∧
        (de.version.toNat + 1 + inodes.length < 2 ^ 32 → Increasing inodes)) := by
  refine ⟨fun s ofs mem hofs htop hmem => ?_, fun s htop hbuf => ?_⟩
  · have hfresh : Fresh e z _ { s with
        mtdofs := ofs
        buf := mem
        targetIno := 1
        lastIno := if s.lastIno = 0 then 1 else s.lastIno } [] := fresh_start hmem hofs htop
    obtain ⟨s', new, de, inodes, hadd, hflushed, hread, hversion, _⟩ :=
      addFile_readsBack_fresh hfresh hname hfile hopens hreads hne 1
    exact ⟨s', new, de, inodes, hadd, hflushed, hversion, hread, hread.increasing⟩
  · rcases appendFile_start e z fa filename hdir hbuf htop with
      ⟨htarget, hfresh, heq⟩ | ⟨htarget, s₀, s₁, nodes, hopen, hversion₁, rfl, hused, heq⟩
    · obtain ⟨s', new, de, inodes, hadd, hflushed, hread, hversion, _⟩ :=
        addFile_readsBack_fresh hfresh hname hfile hopens hreads hne s.targetIno
      refine ⟨s', new, [], de, inodes, heq.trans hadd, hflushed, ?_, ?_, hread, hread.increasing⟩
      · rw [if_neg htarget]
        rfl
      · rw [hversion, if_neg htarget, UInt32.add_zero]
        rfl
    · have hdata : ∀ node ∈ [direntNode e dir DT_DIR 1 s₀, (dirInode e (s₀.lastIno + 1)).bytes e],
          IsData e node := by
        intro node hnode
        rcases List.mem_cons.mp hnode with rfl | hnode
        · exact isData_direntNode e hdir DT_DIR 1 s₀
        · rw [List.mem_singleton.mp hnode]
          exact isData_dirInode e (s₀.lastIno + 1)
      obtain ⟨s', new, de, inodes, hadd, hflushed, hread, hversion, _⟩ :=
        addFile_readsBack hopen hdata hused hname hfile hopens hreads hne s₁.targetIno
      refine ⟨s', new, _, de, inodes, heq.trans hadd, hflushed, ?_, ?_, hread, hread.increasing⟩
      · rw [if_pos htarget]
        rfl
      · rw [hversion, hversion₁, if_pos htarget]

theorem jffs2_readBack_tinyFile :
    ∃ s' new de inodes, mtdReplaceJffs2 .big 4096 tinyFile 0 ⟨[0x61], by decide⟩
      (List.replicate 4096 0) ⟨0, 0, 0, [], 0, 0, [], 0, []⟩ = some s' ∧
      s'.flushed = [] ++ new ∧ de.version = 0 ∧
      ReadsBack .big ⟨[1, 2, 3], by decide, 0x81a4, 0, 0, 0⟩ (baseName ⟨[0x61], by decide⟩)
        (new.map Prod.snd) [] de inodes ∧
      (de.version.toNat + 1 + inodes.length < 2 ^ 32 → Increasing inodes) :=
  (jffs2_readBack .big ⟨4096, rfl, Nat.le_refl _⟩ tinyFile _ _ ⟨[], by decide⟩ (by decide)
    (by decide) rfl rfl (fun _ => rfl) (List.cons_ne_nil _ _)).1
    ⟨0, 0, 0, [], 0, 0, [], 0, []⟩ 0 _ rfl rfl List.length_replicate

/-! ## A counter that wraps -/

theorem u32At_version (e : ByteOrder) (ri : Inode) (data : List UInt8) :
    u32At e (ri.bytes e ++ data) 16 = some ri.version := by
  rw [u32At, Inode.bytes]
  simp only [List.append_assoc]
  rw [peek?_skip (by simp), peek?_skip (by simp), peek?_skip (by simp), peek?_skip (by simp),
    peek?_skip (by simp)]
  simp only [word16_length, word32_length]
  rw [peek?_head (by simp), Option.map_some, ofWord32_word32]

/-- The bytes of the nodes determine the versions. -/
theorem versions_unique {e : ByteOrder} {p q : List (Inode × List UInt8)}
    (h : (p.map fun p => p.1.bytes e ++ p.2) = q.map fun p => p.1.bytes e ++ p.2) :
    p.map (fun p => p.1.version) = q.map (fun p => p.1.version) := by
  have hread := congrArg (List.filterMap fun node => u32At e node 16) h
  simp only [List.filterMap_map, Function.comp_def, u32At_version] at hread
  simpa only [List.filterMap_eq_map', List.filterMap_eq_map] using hread

/-- A file that does not fit into one node of a 4096-byte block. -/
def longFile : SrcFile where
  content := List.replicate 5000 0
  small := by rw [List.length_replicate]; decide
  mode := 0x81a4
  atime := 0
  mtime := 0
  ctime := 0

/-- The largest version found in the file system is 0xfffffffd. -/
def lateState : Jffs2 := ⟨1, 0xfffffffd, 1, List.replicate 4096 0, 0, 4096, [], 0, []⟩

/-- The versions do not increase if the file system already has the version
0xfffffffd: those of the first two inode nodes are 0xffffffff and 0. -/
theorem jffs2_versions_wrap :
    ¬ ∀ (e : ByteOrder) (z : EraseSize) (fa : FileAccess) (f : SrcFile) (filename dir : CStr),
      (baseName filename).strlen ≤ 255 → dir.strlen ≤ 255 →
      fa.file = some f → fa.opens = true → (∀ i, fa.fails i = false) → f.content ≠ [] →
      ∀ s : Jffs2, s.top = 0 → s.buf.length = z.size →
      ∃ s' new pre de inodes, appendFile e z.size fa filename dir s = some s' ∧
        s'.flushed = s.flushed ++ new ∧
        pre.length = (if s.targetIno = 0 then 2 else 0) ∧
        ReadsBack e f (baseName filename) (new.map Prod.snd) pre de inodes ∧
        Increasing inodes := by
  intro hclaim
  let z : EraseSize := ⟨4096, rfl, Nat.le_refl _⟩
  let fa : FileAccess := ⟨some longFile, true, fun _ => 4096, fun _ => false⟩
  let name : CStr := ⟨[0x61], by decide⟩
  let dir : CStr := ⟨[], by decide⟩
  have hne : longFile.content ≠ [] := List.replicate_succ_ne_nil
  have hbuf : lateState.buf.length = z.size := List.length_replicate
  obtain ⟨s', new, pre, de, inodes, happend, hflushed, hpre, hread, hincreasing⟩ :=
    hclaim .big z fa longFile name dir (by decide) (by decide) rfl rfl (fun _ => rfl) hne lateState
      rfl hbuf
  rcases appendFile_start .big z fa name (show dir.strlen ≤ 255 by decide) hbuf rfl with
    ⟨_, hfresh, heq⟩ | ⟨htarget, _⟩
  · obtain ⟨s₁, new₁, de₁, inodes₁, hadd, hflushed₁, hread₁, hversion, hsmall⟩ :=
      @addFile_readsBack_fresh _ _ _ _ fa longFile name hfresh (by decide) rfl rfl (fun _ => rfl)
        hne lateState.targetIno
    rw [heq, hadd] at happend
    cases happend
    have hnew : new = new₁ := List.append_cancel_left (hflushed.symm.trans hflushed₁)
    subst hnew
    -- both lists of inodes are read from the same blocks
    have hnil : pre = [] := List.eq_nil_of_length_eq_zero hpre
    have hnodes := hread.nodes.symm.trans hread₁.nodes
    rw [hnil, List.nil_append, List.nil_append, List.cons.injEq] at hnodes
    have hversions := versions_unique hnodes.2
    have hcount := congrArg List.length hversions
    rw [List.length_map, List.length_map] at hcount
    have htotal := congrArg List.length hread₁.content
    have hlen : longFile.content.length = 5000 := List.length_replicate
    rw [hlen] at htotal
    match inodes₁, inodes with
    | [], _ => exact hread₁.nonempty rfl
    | [p], _ =>
        have hlt : p.2.length < 4096 := (hsmall p List.mem_cons_self).2
        simp at htotal
        omega
    | p :: q :: rest, [] => simp at hcount
    | p :: q :: rest, [_] => simp at hcount
    | p :: q :: rest, p' :: q' :: rest' =>
        obtain ⟨hp, hq, _⟩ := hread₁.versions
        simp only [List.map_cons, List.cons.injEq] at hversions
        have hlt := (List.pairwise_cons.mp hincreasing).1 q' List.mem_cons_self
        rw [hversions.1, hversions.2.1, hp, hq, hversion] at hlt
        exact absurd hlt (by decide)
  · exact absurd htarget (by decide)

end UbntSdk.Mtd
