/-
UbntSdk.Images.MylofwTheorems — MyLoader images are what their descriptors say
(`tools/firmware-utils/src/mkmylofw.c`).

The program computes the length of each data item twice: in the loop over the
descriptors, and while it writes the items. The padding of an item is
`3 & (~3 - size)`, which is what is missing to the next multiple of 4
(`paddingLen_zero`). So both agree, except where the length that is announced
does not fit its 32 bits (`makeImage_consistent_iff`).
-/
import Mathlib.Data.List.Forall2
import UbntSdk.Images.Mylofw
import UbntSdk.Lib.Align

namespace UbntSdk.Images.Mylofw

open UbntSdk.Lib

/-! ## The CRC -/

theorem crcPattern_eq : crcPattern = crcPoly := by decide +kernel

theorem crc32Tab_eq : ∀ i < 256, crc32Tab i = crcByte (UInt32.ofNat i) := by
  simp only [crc32Tab, crcPattern_eq]
  decide +kernel

/-- The table of `init_crc_table` is that of the CRC-32. -/
theorem updateCrc_eq (p : List UInt8) (crc : UInt32) :
    updateCrc p crc = crcFold (crc ^^^ 0xFFFFFFFF) p ^^^ 0xFFFFFFFF := by
  simp only [updateCrc, crcUpdate_of_table crc32Tab_eq]
  rfl

theorem updateCrc_append (bs data : List UInt8) :
    updateCrc data (zlibCrc32 bs) = zlibCrc32 (bs ++ data) := by
  rw [updateCrc_eq, zlibCrc32, zlibCrc32, UInt32.xor_assoc, UInt32.xor_self, UInt32.xor_zero,
    crcFold_append]

/-! ## Writing -/

/-- The file has these bytes, the position is at its end and their CRC is known. -/
structure Summed (o : Out) (bs : List UInt8) : Prop where
  outfile : o.outfile = bs
  pos : o.pos = bs.length
  crc : o.crc = zlibCrc32 bs

theorem summed_writeOutData {o : Out} {bs : List UInt8} (h : Summed o bs) (data : List UInt8) :
    Summed (writeOutData data true o) (bs ++ data) where
  outfile := by simp [writeOutData, h.outfile, h.pos]
  pos := by simp [writeOutData, h.pos]
  crc := by simp [writeOutData, h.crc, updateCrc_append]

theorem chunks_flatten {buflen : Nat} (hpos : 0 < buflen) (n : Nat) (bs : List UInt8)
    (hn : bs.length ≤ n) : (chunks buflen n bs).flatten = bs := by
  induction n generalizing bs with
  | zero =>
      rw [List.length_eq_zero_iff.mp (Nat.le_zero.mp hn)]
      rfl
  | succ n ih =>
      rw [chunks]
      split
      · rename_i hnil
        rw [hnil]
        rfl
      · rename_i hne
        have hlen : 0 < bs.length := List.length_pos_iff.mpr hne
        rw [List.flatten_cons, ih _ (by rw [List.length_drop]; omega), List.take_append_drop]

theorem summed_foldl {o : Out} {bs : List UInt8} (h : Summed o bs) (l : List (List UInt8)) :
    Summed (l.foldl (fun o buf => writeOutData buf true o) o) (bs ++ l.flatten) := by
  induction l generalizing o bs with
  | nil => simpa using h
  | cons data l ih =>
      rw [List.foldl_cons, List.flatten_cons, ← List.append_assoc]
      exact ih (summed_writeOutData h data)

theorem summed_writeLoop {o : Out} {bs : List UInt8} (h : Summed o bs) {buflen : Nat}
    (hpos : 0 < buflen) (data : List UInt8) : Summed (writeLoop buflen data o) (bs ++ data) := by
  have hall := summed_foldl h (chunks buflen data.length data)
  rwa [chunks_flatten hpos _ _ le_rfl] at hall

theorem getFileCrc_eq (content : List UInt8) : getFileCrc content = zlibCrc32 content := by
  have hfold (l : List (List UInt8)) (bs : List UInt8) :
      l.foldl (fun crc buf => updateCrc buf crc) (zlibCrc32 bs) = zlibCrc32 (bs ++ l.flatten) := by
    induction l generalizing bs with
    | nil => simp
    | cons data l ih => rw [List.foldl_cons, updateCrc_append, ih, List.flatten_cons, List.append_assoc]
  have hall := hfold (chunks FILE_BUF_LEN content.length content) []
  rw [chunks_flatten (by decide) _ _ le_rfl] at hall
  exact hall

/-! ## Data items -/

/-- The padding that a length needs. -/
def padTo4 (len : Nat) : Nat := (4 - len % 4) % 4

/-- The subtraction and the mask together give the padding. -/
theorem paddingLen_zero (size : UInt32) : (paddingLen 0 size).toNat = padTo4 size.toNat := by
  have hlt := size.toNat_lt
  have hmask : (paddingLen 0 size).toNat = (~~~(4 - 1 : UInt32) - size).toNat % 4 := by
    rw [paddingLen, UInt64.toNat_and, UInt32.toNat_toUInt64]
    show 2 ^ 2 - 1 &&& _ = _
    rw [Nat.and_comm, Nat.and_two_pow_sub_one_eq_mod]
  rw [hmask, UInt32.toNat_sub, padTo4]
  show (2 ^ 32 - size.toNat + 4294967292) % 2 ^ 32 % 4 = _
  omega

/-- The data item of a block: the header, the file and the padding. -/
def itemBytes (fs : Files) (b : FwBlock) : List UInt8 :=
  match b.name with
  | none => []
  | some name =>
      let content := (fs name).getD []
      (if b.flags &&& BLOCK_FLAG_HAVEHDR ≠ 0 then
        le32 content.length.toUInt32 ++ le32 (zlibCrc32 content) else []) ++
        (content ++ List.replicate (padTo4 content.length) 0xFF)

/-- The file of the block is there, and `size` is its size. -/
def Sized (fs : Files) (b : FwBlock) : Prop :=
  ∀ name ∈ b.name, ∃ content, fs name = some content ∧ content.length < 2 ^ 32 ∧
    b.size = content.length.toUInt32

theorem summed_writeOutFile {fs : Files} {b : FwBlock} {o : Out} {bs : List UInt8} (h : Summed o bs)
    (hb : Sized fs b) : ∃ o', writeOutFile fs b o = some o' ∧ Summed o' (bs ++ itemBytes fs b) := by
  cases hname : b.name with
  | none =>
      refine ⟨o, by simp [writeOutFile, hname], ?_⟩
      simpa [itemBytes, hname] using h
  | some name =>
      obtain ⟨content, hcontent, hlt, hsize⟩ := hb name hname
      have hnat : b.size.toNat = content.length := by
        rw [hsize, Nat.toUInt32_eq, UInt32.toNat_ofNat', Nat.mod_eq_of_lt hlt]
      have htake : content.take b.size.toNat = content := List.take_of_length_le (by omega)
      have hpad (o : Out) (bs : List UInt8) (h : Summed o bs) :
          Summed (writeOutPadding (paddingLen 0 b.size).toNat 0xFF (writeLoop FILE_BUF_LEN content o))
            (bs ++ (content ++ List.replicate (padTo4 content.length) 0xFF)) := by
        rw [paddingLen_zero, hnat, ← List.append_assoc]
        exact summed_writeLoop (summed_writeLoop h (by decide) content) (by decide) _
      simp only [writeOutFile, hname, hcontent, Option.bind_eq_bind, Option.bind_some, htake,
        getFileCrc_eq, Option.pure_def, Option.some.injEq, exists_eq_left']
      simp only [itemBytes, hname, hcontent, Option.getD_some, ← hsize]
      split
      · rw [← List.append_assoc]
        exact hpad _ _ (summed_writeOutData h _)
      · exact hpad _ _ h

theorem summed_writeOutFiles {fs : Files} (blocks : List FwBlock) {o : Out} {bs : List UInt8}
    (h : Summed o bs) (hb : ∀ b ∈ blocks, Sized fs b) :
    ∃ o', blocks.foldlM (fun o b => writeOutFile fs b o) o = some o' ∧
      Summed o' (bs ++ blocks.flatMap (itemBytes fs)) := by
  induction blocks generalizing o bs with
  | nil => exact ⟨o, rfl, by simpa using h⟩
  | cons b blocks ih =>
      obtain ⟨hfirst, hrest⟩ := List.forall_mem_cons.mp hb
      obtain ⟨o', ho', h'⟩ := summed_writeOutFile h hfirst
      obtain ⟨o'', ho'', h''⟩ := ih h' hrest
      refine ⟨o'', ?_, ?_⟩
      · rw [List.foldlM_cons, ho']
        exact ho''
      · rw [List.flatMap_cons, ← List.append_assoc]
        exact h''

/-! ## Accepted blocks -/

/-- What `process_files` makes of a block that it accepts. -/
structure Processed (fs : Files) (b b' : FwBlock) : Prop where
  sized : Sized fs b'
  name : b'.name = b.name
  flags : b'.flags = b.flags

theorem processed_of_processFile {fs : Files} {flashSize : UInt32} {b b' : FwBlock}
    (h : processFile fs flashSize b = some b') : Processed fs b b' := by
  rw [processFile] at h
  split at h
  · exact absurd h (by simp)
  split at h
  · rename_i hname
    obtain rfl := Option.some.inj h
    exact ⟨fun name hmem => by rw [hname] at hmem; exact absurd hmem (by simp), rfl, rfl⟩
  · rename_i name hname
    simp only [Option.bind_eq_bind, Option.bind_eq_some_iff] at h
    obtain ⟨content, hcontent, h⟩ := h
    generalize (if b.blocklen = 0 then flashSize - b.addr else b.blocklen) = blocklen at h
    split at h
    · exact absurd h (by simp)
    · rename_i hle
      obtain rfl := Option.some.inj h
      refine ⟨fun name' hmem => ?_, hname.symm, rfl⟩
      obtain rfl := Option.some.inj hmem
      refine ⟨content, hcontent, ?_, rfl⟩
      exact lt_of_le_of_lt (not_lt.mp hle) (UInt32.toNat_lt _)

theorem processFile_isSome {fs : Files} {flashSize : UInt32} {b : FwBlock} {name : List Char}
    {content : List UInt8} (haddr : ¬ b.addr + b.blocklen > flashSize) (hname : b.name = some name)
    (hcontent : fs name = some content) (hne : b.blocklen ≠ 0) (hlen : content.length ≤ b.blocklen.toNat) :
    ∃ b', processFile fs flashSize b = some b' := by
  refine ⟨⟨b.addr, b.blocklen, b.flags, some name, content.length.toUInt32, fun h => absurd h (Option.some_ne_none _)⟩, ?_⟩
  simp only [processFile, if_neg haddr, hname, hcontent, Option.bind_eq_bind, Option.bind_some,
    if_neg hne, if_neg (Nat.not_lt.mpr hlen)]

theorem processed_of_processFiles {fs : Files} {flashSize : UInt32} {blocks blocks' : List FwBlock}
    (h : processFiles fs flashSize blocks = some blocks') :
    List.Forall₂ (Processed fs) blocks blocks' := by
  induction blocks generalizing blocks' with
  | nil =>
      obtain rfl : [] = blocks' := by simpa [processFiles] using h
      exact .nil
  | cons b blocks ih =>
      simp only [processFiles, List.mapM_cons, Option.bind_eq_bind, Option.bind_eq_some_iff,
        Option.pure_def, Option.some.injEq] at h
      obtain ⟨b', hb', rest, hrest, rfl⟩ := h
      exact .cons (processed_of_processFile hb') (ih hrest)

theorem sized_of_processed {fs : Files} {blocks blocks' : List FwBlock}
    (h : List.Forall₂ (Processed fs) blocks blocks') : ∀ b ∈ blocks', Sized fs b := by
  induction h with
  | nil => simp
  | cons hb _ ih => exact List.forall_mem_cons.mpr ⟨hb.sized, ih⟩

/-! ## The whole image -/

/-- The descriptors that are written. -/
def descsOf (board : CpxBoard) (parts : List MyloPartition) (blocks : List FwBlock) : List Blockdesc :=
  (if parts ≠ [] then [tableDesc board] else []) ++ blocks.map descOf

/-- The data items that are written: the partition table first, when there are partitions. -/
def itemsOf (fs : Files) (parts : List MyloPartition) (blocks : List FwBlock) : List (List UInt8) :=
  (if parts ≠ [] then [tableBytes parts] else []) ++ blocks.map (itemBytes fs)

/-- An image with this CRC in its header. -/
def layout (h : FwHeader) (crc : UInt32) (descs : List Blockdesc) (items : List (List UInt8)) : List UInt8 :=
  h.bytes crc ++ (descs.flatMap Blockdesc.bytes ++ (nullDesc.bytes ++ items.flatten))

theorem FwHeader.bytes_length (h : FwHeader) (crc : UInt32) : (h.bytes crc).length = 40 := by
  simp [FwHeader.bytes]

theorem summed_descs {o : Out} {bs : List UInt8} (h : Summed o bs) (descs : List Blockdesc) :
    Summed (descs.foldl (fun o d => writeOutDesc d o) o) (bs ++ descs.flatMap Blockdesc.bytes) := by
  have hall := summed_foldl h (descs.map Blockdesc.bytes)
  rwa [List.foldl_map, ← List.flatMap_def] at hall

theorem summed_writeOutBlocks {fs : Files} (board : CpxBoard) (parts : List MyloPartition)
    {blocks : List FwBlock} {o : Out} {bs : List UInt8} (h : Summed o bs)
    (hb : ∀ b ∈ blocks, Sized fs b) :
    ∃ o', writeOutBlocks fs board parts blocks o = some o' ∧
      Summed o' (bs ++ ((descsOf board parts blocks).flatMap Blockdesc.bytes ++
        (nullDesc.bytes ++ (itemsOf fs parts blocks).flatten))) := by
  have hdescs := summed_descs h (descsOf board parts blocks)
  have hnull := summed_writeOutData hdescs nullDesc.bytes
  by_cases hparts : parts = []
  · obtain ⟨o', ho', hsum⟩ := summed_writeOutFiles blocks hnull hb
    refine ⟨o', ?_, ?_⟩
    · rw [← ho']
      simp [writeOutBlocks, writeOutPartitions, descsOf, hparts, List.foldl_map, writeOutDesc]
    · simpa [itemsOf, hparts, List.flatMap_def, List.append_assoc] using hsum
  · have htable := summed_writeOutData hnull (tableBytes parts)
    obtain ⟨o', ho', hsum⟩ := summed_writeOutFiles blocks htable hb
    refine ⟨o', ?_, ?_⟩
    · rw [← ho']
      simp [writeOutBlocks, writeOutPartitions, descsOf, hparts, List.foldl_map, writeOutDesc]
    · simpa [itemsOf, hparts, List.flatMap_def, List.append_assoc] using hsum

theorem writeOutData_start (data : List UInt8) (summed : Bool) (o : Out) :
    (writeOutData data summed { o with pos := 0 }).outfile = data ++ o.outfile.drop data.length := by
  simp [writeOutData]

/-- The header is written again in its place. -/
theorem writeOutHeader_outfile {h : FwHeader} {o : Out} {rest : List UInt8}
    (hsum : Summed o (h.bytes 0 ++ rest)) (crc : UInt32) :
    (writeOutHeader h crc false o).outfile = h.bytes crc ++ rest := by
  have hlen : (h.bytes 0).length = (h.bytes crc).length := by rw [h.bytes_length, h.bytes_length]
  have hdrop : (h.bytes 0 ++ rest).drop (h.bytes crc).length = rest := List.drop_left' hlen
  rw [writeOutHeader, writeOutData_start, hsum.outfile, hdrop]

theorem summed_header (h : FwHeader) : Summed (writeOutHeader h 0 true ⟨[], 0, 0⟩) (h.bytes 0) :=
  summed_writeOutData ⟨rfl, rfl, rfl⟩ (h.bytes 0)

/-- Nothing fails behind the checks. -/
theorem makeImage_isSome {fs : Files} (h : FwHeader) (board : CpxBoard) {flashSize : UInt32}
    {parts : List MyloPartition} {blocks blocks' : List FwBlock}
    (hcount : ¬ (parts.length > MYLO_MAX_PARTITIONS ∨ blocks.length > MAX_FW_BLOCKS ∨ flashSize = 0))
    (hblocks : processFiles fs flashSize blocks = some blocks')
    (hparts : processPartitions flashSize parts = true) :
    ∃ file, makeImage fs h board flashSize parts blocks = some file := by
  obtain ⟨o, ho, -⟩ := summed_writeOutBlocks board parts (summed_header h)
    (sized_of_processed (processed_of_processFiles hblocks))
  refine ⟨(writeOutHeader h o.crc false o).outfile, ?_⟩
  rw [makeImage, if_neg hcount, hblocks, Option.bind_eq_bind, Option.bind_some, hparts, Bool.not_true,
    if_neg Bool.false_ne_true, ho]
  rfl

theorem makeImage_layout {fs : Files} {h : FwHeader} {board : CpxBoard} {flashSize : UInt32}
    {parts : List MyloPartition} {blocks : List FwBlock} {file : List UInt8}
    (hfile : makeImage fs h board flashSize parts blocks = some file) :
    parts.length ≤ MYLO_MAX_PARTITIONS ∧
      ∃ blocks', List.Forall₂ (Processed fs) blocks blocks' ∧
        file = layout h (zlibCrc32 (layout h 0 (descsOf board parts blocks') (itemsOf fs parts blocks')))
          (descsOf board parts blocks') (itemsOf fs parts blocks') := by
  rw [makeImage] at hfile
  split at hfile
  · exact absurd hfile (by simp)
  rename_i hcount
  simp only [Option.bind_eq_bind, Option.bind_eq_some_iff] at hfile
  obtain ⟨blocks', hblocks, hfile⟩ := hfile
  have hproc := processed_of_processFiles hblocks
  split at hfile
  · exact absurd hfile (by simp)
  obtain ⟨o', ho', hsum⟩ := summed_writeOutBlocks board parts (summed_header h) (sized_of_processed hproc)
  simp only [Option.bind_eq_some_iff, ho', Option.some.injEq, exists_eq_left', Option.pure_def] at hfile
  refine ⟨Nat.not_lt.mp fun hlt => hcount (.inl hlt), blocks', hproc, ?_⟩
  rw [← hfile, writeOutHeader_outfile hsum, hsum.crc, layout, layout]

/-! ## Announced lengths -/

theorem alignMask_toNat (d : UInt32) :
    ((d + (4 - 1)) &&& ~~~(4 - 1)).toNat = (d.toNat + 3) % 2 ^ 32 / 4 * 4 := by
  exact align32_toNat d (show (4 : UInt32).toNat = 2 ^ 2 from rfl)

/-- The bytes that stand before the file in a data item. -/
def hdrLen (b : FwBlock) : Nat := if b.flags &&& BLOCK_FLAG_HAVEHDR ≠ 0 then 8 else 0

/-- The length of the data item fits its field of the descriptor. -/
def Fits (fs : Files) (b : FwBlock) : Prop :=
  ∀ name ∈ b.name, ∀ content ∈ fs name, content.length + hdrLen b ≤ 2 ^ 32 - 4

theorem itemBytes_length {fs : Files} {b : FwBlock} {name : List Char} {content : List UInt8}
    (hname : b.name = some name) (hcontent : fs name = some content) :
    (itemBytes fs b).length = (content.length + hdrLen b + 3) / 4 * 4 := by
  have hhdr : (if b.flags &&& BLOCK_FLAG_HAVEHDR ≠ 0 then
      le32 content.length.toUInt32 ++ le32 (zlibCrc32 content) else []).length = hdrLen b := by
    rw [hdrLen]
    split
    · rfl
    · rfl
  have hdiv : hdrLen b % 4 = 0 := by
    rw [hdrLen]
    split
    · rfl
    · rfl
  simp only [itemBytes, hname, hcontent, Option.getD_some, List.length_append, hhdr,
    List.length_replicate, padTo4]
  omega

/-- The announced length of a block with a file, as a number of 32 bits. -/
theorem descOf_dlen_toNat {fs : Files} {b b' : FwBlock} (h : Processed fs b b') {name : List Char}
    {content : List UInt8} (hname : b.name = some name) (hcontent : fs name = some content) :
    (descOf b').dlen.toNat = (content.length + hdrLen b + 3) % 2 ^ 32 / 4 * 4 := by
  obtain ⟨content', hcontent', hlt, hsize⟩ := h.sized name (h.name.trans hname)
  obtain rfl := Option.some.inj (hcontent.symm.trans hcontent')
  have hnat : b'.size.toNat = content.length := by
    rw [hsize, Nat.toUInt32_eq, UInt32.toNat_ofNat', Nat.mod_eq_of_lt hlt]
  rw [hdrLen]
  simp only [descOf, h.flags]
  split
  · rw [alignMask_toNat, UInt32.toNat_add, hnat, Nat.mod_add_mod, sizeofPartitionHeader]
    rfl
  · rw [alignMask_toNat, hnat, Nat.add_zero]

/-- The announced length of a block is right if and only if it fits. -/
theorem descOf_dlen_iff {fs : Files} {b b' : FwBlock} (h : Processed fs b b') :
    (descOf b').dlen.toNat = (itemBytes fs b).length ↔ Fits fs b := by
  cases hname : b.name with
  | none =>
      have hname' : b'.name = none := h.name.trans hname
      obtain ⟨hflags, hsize⟩ := b'.bare hname'
      have hfits : Fits fs b := by
        intro name hmem
        rw [hname] at hmem
        exact absurd hmem (by simp)
      refine iff_of_true ?_ hfits
      simp only [descOf, hflags, hsize, itemBytes, hname]
      rfl
  | some name =>
      obtain ⟨content, hcontent, hlt, hsize⟩ := h.sized name (h.name.trans hname)
      have hfits : Fits fs b ↔ content.length + hdrLen b ≤ 2 ^ 32 - 4 := by
        simp [Fits, hname, hcontent]
      rw [hfits, descOf_dlen_toNat h hname hcontent, itemBytes_length hname hcontent]
      omega

/-! ## Consistency -/

/-- A descriptor announces a data item. -/
def Announces (d : Blockdesc) (item : List UInt8) : Prop :=
  d.type = FW_DESC_TYPE_USED ∧ d.dlen.toNat = item.length

/-- The file is the header, the descriptors, a null descriptor and the data
items. Each descriptor announces its item, and the CRC is that of the file
with a zero in its place. -/
def Consistent (fs : Files) (h : FwHeader) (parts : List MyloPartition) (blocks : List FwBlock)
    (file : List UInt8) : Prop :=
  ∃ crc descs, file = layout h crc descs (itemsOf fs parts blocks) ∧
    List.Forall₂ Announces descs (itemsOf fs parts blocks) ∧
    crc = zlibCrc32 (layout h 0 descs (itemsOf fs parts blocks))

theorem itemsOf_processed {fs : Files} {blocks blocks' : List FwBlock}
    (h : List.Forall₂ (Processed fs) blocks blocks') (parts : List MyloPartition) :
    itemsOf fs parts blocks' = itemsOf fs parts blocks := by
  have hmap : blocks'.map (itemBytes fs) = blocks.map (itemBytes fs) := by
    induction h with
    | nil => rfl
    | cons hb _ ih =>
        rw [List.map_cons, List.map_cons, ih, itemBytes, itemBytes, hb.name, hb.flags]
  rw [itemsOf, itemsOf, hmap]

theorem Blockdesc.bytes_length (d : Blockdesc) : d.bytes.length = 16 := by simp [bytes]

theorem Blockdesc.bytes_inj {d e : Blockdesc} (h : d.bytes = e.bytes) : d = e := by
  obtain ⟨htype, h⟩ := le32_append_inj h
  obtain ⟨haddr, h⟩ := le32_append_inj h
  obtain ⟨hdlen, h⟩ := le32_append_inj h
  obtain ⟨hblen, -⟩ := le32_append_inj (l := []) (m := []) (by simpa using h)
  cases d
  cases e
  simp only at htype haddr hdlen hblen
  rw [htype, haddr, hdlen, hblen]

/-- The descriptors can be read off the file. -/
theorem descs_unique {ds es : List Blockdesc} {l m : List UInt8} (hlen : ds.length = es.length)
    (h : ds.flatMap Blockdesc.bytes ++ l = es.flatMap Blockdesc.bytes ++ m) : ds = es :=
  flatMap_unique (fun _ _ => Blockdesc.bytes_inj)
    (fun d e => by rw [d.bytes_length, e.bytes_length]) hlen h

theorem MyloPartition.bytes_length (p : MyloPartition) : p.bytes.length = 16 := by simp [bytes]

theorem MyloPartition.bytes_inj {p q : MyloPartition} (h : p.bytes = q.bytes) : p = q := by
  obtain ⟨hflags, h⟩ := le16_append_inj h
  obtain ⟨-, h⟩ := le16_append_inj h
  obtain ⟨haddr, h⟩ := le32_append_inj h
  obtain ⟨hsize, h⟩ := le32_append_inj h
  obtain ⟨hparam, -⟩ := le32_append_inj (l := []) (m := []) (by simpa using h)
  cases p
  cases q
  simp only at hflags haddr hsize hparam
  rw [hflags, haddr, hsize, hparam]

/-- The partitions can be read off their table. -/
theorem tableBytes_unique {ps qs : List MyloPartition} (hlen : ps.length = qs.length)
    (h : tableBytes ps = tableBytes qs) : ps = qs := by
  obtain ⟨-, h⟩ := le32_append_inj h
  obtain ⟨-, h⟩ := List.append_inj h rfl
  exact flatMap_unique (fun _ _ => MyloPartition.bytes_inj)
    (fun p q => by rw [p.bytes_length, q.bytes_length]) hlen h

theorem tableBytes_length {parts : List MyloPartition} (h : parts.length ≤ MYLO_MAX_PARTITIONS) :
    (tableBytes parts).length = 144 := by
  have hparts : (parts.flatMap MyloPartition.bytes).length = 16 * parts.length := by
    clear h
    induction parts with
    | nil => rfl
    | cons p parts ih =>
        rw [List.flatMap_cons, List.length_append, p.bytes_length, ih, List.length_cons]
        omega
  have hmax : MYLO_MAX_PARTITIONS = 8 := rfl
  simp only [tableBytes, List.length_append, le32_length, List.length_replicate, hparts, hmax]
  omega

theorem descsOf_length {fs : Files} {board : CpxBoard} {parts : List MyloPartition}
    {blocks blocks' : List FwBlock} (h : List.Forall₂ (Processed fs) blocks blocks') :
    (descsOf board parts blocks').length = (itemsOf fs parts blocks).length := by
  rw [descsOf, itemsOf, List.length_append, List.length_append, List.length_map, List.length_map,
    h.length_eq]
  split
  · rfl
  · rfl

/-- The descriptors of the program announce their items, if and only if all of
them fit. -/
theorem descsOf_announce_iff {fs : Files} (board : CpxBoard) {parts : List MyloPartition}
    {blocks blocks' : List FwBlock} (hparts : parts.length ≤ MYLO_MAX_PARTITIONS)
    (h : List.Forall₂ (Processed fs) blocks blocks') :
    List.Forall₂ Announces (descsOf board parts blocks') (itemsOf fs parts blocks) ↔
      ∀ b ∈ blocks, Fits fs b := by
  have hblocks : List.Forall₂ Announces (blocks'.map descOf) (blocks.map (itemBytes fs)) ↔
      ∀ b ∈ blocks, Fits fs b := by
    induction h with
    | nil => simp
    | cons hb _ ih =>
        rw [List.map_cons, List.map_cons, List.forall₂_cons, ih, List.forall_mem_cons,
          ← descOf_dlen_iff hb]
        exact and_congr_left' (and_iff_right rfl)
  rw [← hblocks, descsOf, itemsOf]
  split
  · rw [List.singleton_append, List.singleton_append, List.forall₂_cons]
    exact and_iff_right ⟨rfl, (tableBytes_length hparts).symm⟩
  · rfl

theorem consistent_iff_fits {fs : Files} {h : FwHeader} {board : CpxBoard}
    {parts : List MyloPartition} {blocks blocks' : List FwBlock}
    (hparts : parts.length ≤ MYLO_MAX_PARTITIONS) (hproc : List.Forall₂ (Processed fs) blocks blocks') :
    Consistent fs h parts blocks
        (layout h (zlibCrc32 (layout h 0 (descsOf board parts blocks') (itemsOf fs parts blocks')))
          (descsOf board parts blocks') (itemsOf fs parts blocks')) ↔
      ∀ b ∈ blocks, Fits fs b := by
  rw [itemsOf_processed hproc, ← descsOf_announce_iff board hparts hproc]
  constructor
  · rintro ⟨crc, descs, hfile, hann, -⟩
    have hlen : (descsOf board parts blocks').length = descs.length := by
      rw [hann.length_eq, descsOf_length hproc]
    rw [layout, layout] at hfile
    obtain ⟨-, hrest⟩ := List.append_inj hfile (by rw [h.bytes_length, h.bytes_length])
    rw [descs_unique hlen hrest]
    exact hann
  · intro hann
    exact ⟨_, _, rfl, hann, rfl⟩

/-- An image is consistent if and only if the length of each data item, rounded
up to 4, fits the 32 bits of its descriptor. -/
theorem makeImage_consistent_iff (fs : Files) (h : FwHeader) (board : CpxBoard) (flashSize : UInt32)
    (parts : List MyloPartition) (blocks : List FwBlock) (file : List UInt8)
    (hfile : makeImage fs h board flashSize parts blocks = some file) :
    Consistent fs h parts blocks file ↔ ∀ b ∈ blocks, Fits fs b := by
  obtain ⟨hparts, blocks', hproc, rfl⟩ := makeImage_layout hfile
  exact consistent_iff_fits hparts hproc

/-- A block of a file that is not a multiple of 4 bytes long. -/
def smallBlock (flags : UInt32) : FwBlock := ⟨0x10000, 0, flags, some ['k'], 0, nofun⟩

def smallFiles : Files := fun _ => some [1, 2, 3, 4, 5]

def smallHeader : FwHeader := ⟨0x11F6, 0x4150, 0x11F6, 0x4150, 0, 0, 0, 0⟩

theorem makeImage_consistent_small :
    ∃ file, makeImage smallFiles smallHeader ⟨0x10000, 0x10000⟩ 0x200000 [⟨0, 0x20000, 0x1E0000, 0⟩]
        [smallBlock 1, smallBlock 0] = some file ∧
      Consistent smallFiles smallHeader [⟨0, 0x20000, 0x1E0000, 0⟩] [smallBlock 1, smallBlock 0] file := by
  obtain ⟨blocks', hblocks⟩ := Option.isSome_iff_exists.mp
    (show (processFiles smallFiles 0x200000 [smallBlock 1, smallBlock 0]).isSome = true by decide +kernel)
  obtain ⟨file, hfile⟩ := makeImage_isSome smallHeader ⟨0x10000, 0x10000⟩ (by decide) hblocks
    (show processPartitions 0x200000 [⟨0, 0x20000, 0x1E0000, 0⟩] = true by decide +kernel)
  refine ⟨file, hfile, (makeImage_consistent_iff _ _ _ _ _ _ _ hfile).mpr ?_⟩
  intro b _ name _ content hcontent
  obtain rfl := Option.some.inj hcontent
  have hhdr : hdrLen b ≤ 8 := by
    rw [hdrLen]
    split
    · exact le_rfl
    · exact Nat.zero_le 8
  simp only [List.length_cons, List.length_nil]
  omega

/-- A file of 3 bytes less than 4 GiB. -/
def hugeFiles : Files := fun _ => some (List.replicate (2 ^ 32 - 3) 0)

def hugeBlock : FwBlock := ⟨0, 0xFFFFFFFF, 0, some ['k'], 0, nofun⟩

/-- The item is 4 GiB long, and 0 is announced. -/
theorem makeImage_inconsistent :
    ∃ file, makeImage hugeFiles smallHeader ⟨0x10000, 0x10000⟩ 0xFFFFFFFF [] [hugeBlock] = some file ∧
      ¬ Consistent hugeFiles smallHeader [] [hugeBlock] file := by
  have hlen : (List.replicate (2 ^ 32 - 3) (0 : UInt8)).length ≤ (0xFFFFFFFF : UInt32).toNat := by
    rw [List.length_replicate]
    decide
  have haddr : ¬ hugeBlock.addr + hugeBlock.blocklen > 0xFFFFFFFF := by decide
  obtain ⟨b', hb'⟩ := @processFile_isSome hugeFiles _ _ _ _ haddr rfl rfl (by decide) hlen
  have hblocks : processFiles hugeFiles 0xFFFFFFFF [hugeBlock] = some [b'] := by
    simp [processFiles, hb']
  obtain ⟨file, hfile⟩ := makeImage_isSome smallHeader ⟨0x10000, 0x10000⟩
    (show ¬ (([] : List MyloPartition).length > _ ∨ _) by decide) hblocks rfl
  refine ⟨file, hfile, ?_⟩
  obtain ⟨hparts, blocks', hproc, rfl⟩ := makeImage_layout hfile
  rw [consistent_iff_fits hparts hproc]
  intro hfits
  have hfit := hfits hugeBlock List.mem_cons_self ['k'] rfl _ rfl
  rw [List.length_replicate] at hfit
  exact absurd hfit (by decide)

end UbntSdk.Images.Mylofw
