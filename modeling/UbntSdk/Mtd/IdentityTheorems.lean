/-
UbntSdk.Mtd.IdentityTheorems — the inode number and the version of the
dirent that `mtd_write_jffs2` appends.

The two counters pass through every routine of the file. The frame lemmas
say what a call that returns does to them and to the nodes put into the
buffer, without asking for room, so they hold for every erase size and
every name. `scanBlocks_notes` says that a scan folds the parsed dirents
into the counters, and `appendFile_nodes` which nodes an append then
writes. `jffs2_identity_iff` puts the two together.
-/
import UbntSdk.Mtd.Jffs2ReadBack

namespace UbntSdk.Mtd

open UbntSdk.Lib

/-! ## Routines that write no node -/

/-- The counters and the nodes. -/
def account (s : Jffs2) : (UInt32 × UInt32 × UInt32) × List (List UInt8) := (ids s, s.nodes)

section Frame

variable {e : ByteOrder} {erasesize : Nat}

/-- What comes behind an `if` in a `do` block runs on its result. -/
theorem bind_ite {α β : Type} {c : Prop} [Decidable c] {x y : Option α} {f : α → Option β}
    {r : β} (h : (if c then x.bind f else y.bind f) = some r) :
    ∃ a, (if c then x else y) = some a ∧ f a = some r := by
  by_cases hc : c
  · rw [if_pos hc] at h ⊢
    exact Option.bind_eq_some_iff.mp h
  · rw [if_neg hc] at h ⊢
    exact Option.bind_eq_some_iff.mp h

theorem poke_account {s s' : Jffs2} {bs : List UInt8} (h : s.poke bs = some s') :
    account s' = account s := by
  obtain ⟨buf, _, rfl⟩ := Option.map_eq_some_iff.mp h
  rfl

theorem putData_account {s s' : Jffs2} {bs : List UInt8} (h : putData bs s = some s') :
    account s' = account s := by
  simp only [putData, Option.bind_eq_bind, Option.bind_eq_some_iff] at h
  obtain ⟨t, hpoke, hs'⟩ := h
  cases hs'
  exact (poke_account hpoke : account t = account s)

theorem pad_account {size : Nat} {s s' : Jffs2} (h : pad erasesize size s = some s') :
    account s' = account s := by
  have hflush : ∀ t : Jffs2, account t = account s →
      (if t.ofs % erasesize = 0 then
        pure { t.setOfs (t.ofs % erasesize) with
          flushed := t.flushed ++ [(t.mtdofs, t.buf)]
          mtdofs := t.mtdofs + erasesize }
      else pure (t.setOfs (t.ofs % erasesize))) = some s' → account s' = account s := by
    intro t ht hend
    split at hend
    · cases hend
      exact ht
    · cases hend
      exact ht
  unfold pad at h
  split at h
  · cases h
    rfl
  · simp only [Option.bind_eq_bind] at h
    split at h
    · obtain ⟨u, hpoke, hend⟩ := Option.bind_eq_some_iff.mp h
      have hu : account u = account s := poke_account hpoke
      exact hflush (u.setOfs (u.ofs + (size - s.ofs % size))) hu hend
    · exact hflush s rfl h

theorem prepEraseblock_account {s s' : Jffs2} (h : prepEraseblock e erasesize s = some s') :
    account s' = account s := by
  unfold prepEraseblock at h
  split at h
  · cases h
    rfl
  · split at h
    · cases h
    · exact putData_account h

theorem addData_account {bs : List UInt8} {s s' : Jffs2} (h : addData e erasesize bs s = some s') :
    account s' = account s := by
  simp only [addData, Option.bind_eq_bind] at h
  split at h
  · simp only [Option.bind_eq_some_iff] at h
    obtain ⟨t, hpad, u, hprep, hput⟩ := h
    exact (putData_account hput).trans ((prepEraseblock_account hprep).trans (pad_account hpad))
  · exact putData_account h

theorem finish_account {s s' : Jffs2} (h : finish e erasesize s = some s') :
    account s' = account s := by
  simp only [finish, Option.bind_eq_bind, Option.bind_eq_some_iff] at h
  obtain ⟨t, hpad, u, hadd, hlast⟩ := h
  exact (pad_account hlast).trans ((addData_account hadd).trans (pad_account hpad))

/-! ## Routines that write nodes -/

/-- The node of `add_dirent` depends on the counters only. -/
theorem direntNode_congr {name : CStr} {type : UInt8} {parent : UInt32} {s t : Jffs2}
    (h : account t = account s) :
    direntNode e name type parent t = direntNode e name type parent s := by
  simp only [account, ids, Prod.mk.injEq] at h
  rw [direntNode, direntNode, h.1.1, h.1.2.1]

/-- `add_dirent` takes the next inode number and skips one more; the
version is the one before it counts up. -/
theorem addDirent_account {name : CStr} {type : UInt8} {parent ino : UInt32} {s s' : Jffs2}
    (h : addDirent e erasesize name type parent s = some (ino, s')) :
    ino = s.lastIno + 1 ∧
    account s' = ((s.lastIno + 2, s.lastVersion + 1, s.targetIno),
      s.nodes ++ [direntNode e name type parent s]) := by
  simp only [addDirent, Option.bind_eq_bind] at h
  obtain ⟨t, hroom, hrest⟩ := bind_ite h
  simp only [Option.bind_eq_some_iff] at hrest
  obtain ⟨u, hprep, v, hpoke, w, hpad, hend⟩ := hrest
  have hu : account u = account s := by
    refine (prepEraseblock_account hprep).trans ?_
    split at hroom
    · exact pad_account hroom
    · cases hroom
      rfl
  have hnode := @direntNode_congr e name type parent _ _ hu
  have hv := poke_account hpoke
  cases hend
  rw [pad_account hpad]
  simp only [account, ids, Prod.mk.injEq] at hu hv
  obtain ⟨⟨huino, huversion, hutarget⟩, hunodes⟩ := hu
  obtain ⟨⟨hvino, hvversion, hvtarget⟩, hvnodes⟩ := hv
  refine ⟨by rw [huino], ?_⟩
  rw [← hnode]
  simp only [account, ids, Jffs2.setOfs, Jffs2.log, direntNode, hvversion, hvtarget, hvnodes,
    huino, huversion, hutarget, hunodes, UInt32.add_assoc]
  rfl

/-- `add_dir` writes a dirent and an inode node. -/
theorem addDir_account {name : CStr} {parent inode : UInt32} {s s' : Jffs2}
    (h : addDir e erasesize name parent s = some (inode, s')) :
    inode = s.lastIno + 1 ∧
    account s' = ((s.lastIno + 2, s.lastVersion + 1, s.targetIno), s.nodes ++
      [direntNode e name DT_DIR parent s, (dirInode e (s.lastIno + 1)).bytes e]) := by
  simp only [addDir, Option.bind_eq_bind] at h
  obtain ⟨⟨ino, t⟩, hdirent, hrest⟩ := Option.bind_eq_some_iff.mp h
  obtain ⟨u, hroom, hrest⟩ := bind_ite hrest
  simp only [Option.bind_eq_some_iff] at hrest
  obtain ⟨v, hprep, w, hadd, x, hpad, hend⟩ := hrest
  obtain ⟨rfl, ht⟩ := addDirent_account hdirent
  cases hend
  have hu : account u = account t := by
    split at hroom
    · exact pad_account hroom
    · cases hroom
      rfl
  have hw : account w = account t :=
    (addData_account hadd).trans ((prepEraseblock_account hprep).trans hu)
  refine ⟨rfl, (pad_account hpad).trans ?_⟩
  rw [ht] at hw
  simp only [account, ids, Prod.mk.injEq] at hw
  simp only [account, ids, Jffs2.log, hw, List.append_assoc, List.singleton_append]

/-- What one pass of the loop of `add_file` does: it ends at a read that
returns nothing, writes a node, or makes room. -/
theorem fileBody_account {fa : FileAccess} {f : SrcFile} {l : FileLoop} :
    (∀ s, fileBody e erasesize fa f l = .stop s → s = l.st ∧
      (fa.fails l.reads = true ∨ f.content.drop l.offset = [])) ∧
    (∀ l', fileBody e erasesize fa f l = .next l' →
      (l'.ri = l.ri ∧ l'.offset = l.offset ∧ l'.reads = l.reads ∧
        account l'.st = account l.st) ∨
      ∃ data, fa.fails l.reads = false ∧ f.content.drop l.offset ≠ [] ∧
        l'.ri = fillInode e l.ri data l.offset (l.st.lastVersion + 1) ∧
        l'.offset = l.offset + data.length ∧
        account l'.st = ((l.st.lastIno, l.st.lastVersion + 1, l.st.targetIno),
          l.st.nodes ++ [l'.ri.bytes e ++ data])) := by
  by_cases hroom : rbytes erasesize l.st > INODE_SIZE + 128
  · simp only [fileBody, if_pos hroom]
    cases hread : fa.read f l.reads l.offset (min (rbytes erasesize l.st - INODE_SIZE) 4096) with
    | nil =>
        refine ⟨fun s hs => ?_, fun l' hl' => by cases hl'⟩
        cases hs
        refine ⟨rfl, ?_⟩
        rw [FileAccess.read] at hread
        split at hread
        · exact Or.inl ‹_›
        · rcases List.take_eq_nil_iff.mp hread with hzero | hnil
          · simp only [INODE_SIZE] at hroom hzero
            omega
          · exact Or.inr hnil
    | cons c cs =>
        rw [FileAccess.read] at hread
        have hfails : fa.fails l.reads = false := by
          cases hf : fa.fails l.reads with
          | false => rfl
          | true => rw [if_pos hf] at hread; cases hread
        have hleft : f.content.drop l.offset ≠ [] := by
          intro hnil
          rw [hnil, List.take_nil, if_neg (by rw [hfails]; decide)] at hread
          cases hread
        refine ⟨fun s hs => ?_, fun l' hl' => ?_⟩
        · simp only at hs
          split at hs <;> cases hs
        · simp only at hl'
          split at hl'
          · cases hl'
          rename_i s hstep
          cases hl'
          refine Or.inr ⟨c :: cs, hfails, hleft, rfl, rfl, ?_⟩
          simp only [Option.bind_eq_bind, Option.bind_eq_some_iff] at hstep
          obtain ⟨t, hinode, u, hdata, v, hpad, hprep⟩ := hstep
          have hu := (addData_account hdata).trans (addData_account hinode)
          simp only [account, ids, Prod.mk.injEq] at hu
          rw [prepEraseblock_account hprep, pad_account hpad]
          simp only [account, ids, Jffs2.log, hu]
  · simp only [fileBody, if_neg hroom]
    refine ⟨fun s hs => ?_, fun l' hl' => ?_⟩
    · split at hs <;> cases hs
    · split at hl'
      · cases hl'
      rename_i s hmake
      cases hl'
      obtain ⟨t, hpad, hprep⟩ := Option.bind_eq_some_iff.mp hmake
      exact Or.inl ⟨rfl, rfl, rfl, (prepEraseblock_account hprep).trans (pad_account hpad)⟩

/-- The nodes that the loop of `add_file` writes: none if the next read
returns nothing. The induction is on the passes. -/
theorem run_fileBody_account {fa : FileAccess} {f : SrcFile} (n : Nat) :
    ∀ {l : FileLoop} {s : Jffs2}, run (fileBody e erasesize fa f) n l = .done s →
      ∃ chunks, s.nodes = l.st.nodes ++ inodeNodes e l.ri l.offset l.st.lastVersion chunks ∧
        (chunks ≠ [] ↔ fa.fails l.reads = false ∧ f.content.drop l.offset ≠ []) := by
  induction n with
  | zero =>
      intro l s h
      cases h
  | succ n ih =>
      intro l s h
      obtain ⟨hstop, hnext⟩ := @fileBody_account e erasesize fa f l
      cases hb : fileBody e erasesize fa f l with
      | fault =>
          rw [run_fault hb] at h
          cases h
      | stop t =>
          rw [run_stop hb] at h
          cases h
          obtain ⟨rfl, hend⟩ := hstop _ hb
          refine ⟨[], by simp [inodeNodes], fun hne => absurd rfl hne, ?_⟩
          rintro ⟨hfails, hleft⟩
          rcases hend with hfail | hnil
          · rw [hfail] at hfails
            cases hfails
          · exact absurd hnil hleft
      | next l' =>
          rw [run_next hb] at h
          obtain ⟨chunks, hnodes, hchunks⟩ := ih h
          rcases hnext _ hb with ⟨hri, hoffset, hreads, hst⟩ |
            ⟨data, hfails, hleft, hri, hoffset, hst⟩
          · simp only [account, ids, Prod.mk.injEq] at hst
            rw [hri, hoffset, hst.1.2.1, hst.2] at hnodes
            rw [hreads, hoffset] at hchunks
            exact ⟨chunks, hnodes, hchunks⟩
          · simp only [account, ids, Prod.mk.injEq] at hst
            refine ⟨data :: chunks, ?_, fun _ => ⟨hfails, hleft⟩, fun _ => by simp⟩
            rw [hnodes, hst.1.2.1, hst.2, hri, hoffset]
            simp [inodeNodes]

/-- A file of which the loop gets at least one byte. -/
def Readable (fa : FileAccess) (f : SrcFile) : Prop :=
  fa.opens = true ∧ fa.fails 0 = false ∧ f.content ≠ []

/-- `add_file` writes the dirent, and inode nodes if the file is readable. -/
theorem addFile_account {fa : FileAccess} {f : SrcFile} {name : CStr} {parent : UInt32}
    {s s' : Jffs2} (hfile : fa.file = some f) (h : addFile e erasesize fa name parent s = some s') :
    ∃ chunks, s'.nodes = s.nodes ++ direntNode e (baseName name) DT_REG parent s ::
        inodeNodes e (fileInode f (s.lastIno + 1)) 0 (s.lastVersion + 1) chunks ∧
      (chunks ≠ [] ↔ Readable fa f) := by
  simp only [addFile, hfile, Option.bind_eq_bind] at h
  obtain ⟨⟨ino, t⟩, hdirent, hloop⟩ := Option.bind_eq_some_iff.mp h
  obtain ⟨rfl, ht⟩ := addDirent_account hdirent
  simp only [account, ids, Prod.mk.injEq] at ht
  simp only at hloop
  split at hloop
  · rename_i hopens
    split at hloop
    · rename_i u hrun
      cases hloop
      obtain ⟨chunks, hnodes, hchunks⟩ := run_fileBody_account _ hrun
      refine ⟨chunks, ?_, hchunks.trans ?_⟩
      · rw [hnodes, ht.2, ht.1.2.1, List.append_assoc, List.singleton_append]
      · simp only [Readable, hopens, List.drop_zero, true_and]
    · cases hloop
    · cases hloop
  · rename_i hopens
    cases hloop
    refine ⟨[], by rw [ht.2, inodeNodes], fun hne => absurd rfl hne, fun hread => ?_⟩
    exact absurd hread.1 hopens

/-! ## The nodes of an append -/

/-- The inode number and the version of a dirent node. -/
def direntOf (e : ByteOrder) (node : List UInt8) : Option (UInt32 × UInt32) :=
  if nodetypeOf e node = some JFFS2_NODETYPE_DIRENT then do
    let ino ← u32At e node 20
    let version ← u32At e node 16
    return (ino, version)
  else none

/-- The inode number of an inode node. -/
def inodeOf (e : ByteOrder) (node : List UInt8) : Option UInt32 :=
  if nodetypeOf e node = some JFFS2_NODETYPE_INODE then u32At e node 12 else none

theorem nodetypeOf_dirent (de : Dirent) (tail : List UInt8) :
    nodetypeOf e (de.bytes e ++ tail) = some de.nodetype := by
  simp only [nodetypeOf, u16At, Dirent.bytes, List.append_assoc]
  rw [peek?_skip (by simp), word16_length, peek?_head (by simp), Option.map_some,
    ofWord16_word16]

theorem nodetypeOf_inode (ri : Inode) (tail : List UInt8) :
    nodetypeOf e (ri.bytes e ++ tail) = some ri.nodetype := by
  simp only [nodetypeOf, u16At, Inode.bytes, List.append_assoc]
  rw [peek?_skip (by simp), word16_length, peek?_head (by simp), Option.map_some,
    ofWord16_word16]

theorem direntOf_dirent {de : Dirent} (hde : de.nodetype = JFFS2_NODETYPE_DIRENT)
    (tail : List UInt8) : direntOf e (de.bytes e ++ tail) = some (de.ino, de.version) := by
  have hversion : u32At e (de.bytes e ++ tail) 16 = some de.version := by
    simp only [u32At, Dirent.bytes, List.append_assoc]
    rw [peek?_skip (by simp), peek?_skip (by simp), peek?_skip (by simp), peek?_skip (by simp),
      peek?_skip (by simp)]
    simp only [word16_length, word32_length]
    rw [peek?_head (by simp), Option.map_some, ofWord32_word32]
  have hino : u32At e (de.bytes e ++ tail) 20 = some de.ino := by
    simp only [u32At, Dirent.bytes, List.append_assoc]
    rw [peek?_skip (by simp), peek?_skip (by simp), peek?_skip (by simp), peek?_skip (by simp),
      peek?_skip (by simp), peek?_skip (by simp)]
    simp only [word16_length, word32_length]
    rw [peek?_head (by simp), Option.map_some, ofWord32_word32]
  rw [direntOf, nodetypeOf_dirent, hde, if_pos rfl, hino, hversion]
  rfl

theorem inodeOf_dirent {de : Dirent} (hde : de.nodetype = JFFS2_NODETYPE_DIRENT)
    (tail : List UInt8) : inodeOf e (de.bytes e ++ tail) = none := by
  rw [inodeOf, nodetypeOf_dirent, hde, if_neg (by decide)]

theorem direntOf_inode {ri : Inode} (hri : ri.nodetype = JFFS2_NODETYPE_INODE)
    (tail : List UInt8) : direntOf e (ri.bytes e ++ tail) = none := by
  rw [direntOf, nodetypeOf_inode, hri, if_neg (by decide)]

theorem inodeOf_inode {ri : Inode} (hri : ri.nodetype = JFFS2_NODETYPE_INODE)
    (tail : List UInt8) : inodeOf e (ri.bytes e ++ tail) = some ri.ino := by
  have hino : u32At e (ri.bytes e ++ tail) 12 = some ri.ino := by
    simp only [u32At, Inode.bytes, List.append_assoc]
    rw [peek?_skip (by simp), peek?_skip (by simp), peek?_skip (by simp), peek?_skip (by simp)]
    simp only [word16_length, word32_length]
    rw [peek?_head (by simp), Option.map_some, ofWord32_word32]
  rw [inodeOf, nodetypeOf_inode, hri, if_pos rfl, hino]

/-- All nodes of the loop are inode nodes with the number of the file. -/
theorem inodeNodes_inodes {ino : UInt32} (chunks : List (List UInt8)) :
    ∀ {ri : Inode} (offset : Nat) (version : UInt32),
      ri.nodetype = JFFS2_NODETYPE_INODE → ri.ino = ino →
      ∀ node ∈ inodeNodes e ri offset version chunks,
        direntOf e node = none ∧ inodeOf e node = some ino := by
  induction chunks with
  | nil =>
      intro ri offset version _ _ node hnode
      cases hnode
  | cons data chunks ih =>
      intro ri offset version htype hino
      rw [inodeNodes, List.forall_mem_cons]
      have htype' : (fillInode e ri data offset (version + 1)).nodetype = JFFS2_NODETYPE_INODE :=
        htype
      refine ⟨⟨direntOf_inode htype' data, ?_⟩, ih _ _ htype' hino⟩
      rw [inodeOf_inode htype' data]
      exact congrArg some hino

/-- The identity of the file that `add_file` appends in these statics. -/
def fileIdentity (s : Jffs2) : UInt32 × UInt32 :=
  let lastIno := if s.lastIno = 0 then 1 else s.lastIno
  -- a directory takes a number, leaves one out and takes a version
  if s.targetIno = 0 then (lastIno + 3, s.lastVersion + 1) else (lastIno + 1, s.lastVersion)

/-- What an append writes: the nodes of a directory that it makes, then
those of the file. -/
theorem appendFile_account {fa : FileAccess} {f : SrcFile} {filename dir : CStr} {s s' : Jffs2}
    (hfile : fa.file = some f) (h : appendFile e erasesize fa filename dir s = some s') :
    ∃ dirs, ∃ de : Dirent, ∃ chunks, s'.nodes = s.nodes ++ (dirs ++ (de.bytes e ++ (baseName filename).chars) ::
        inodeNodes e (fileInode f (fileIdentity s).1) 0 ((fileIdentity s).2 + 1) chunks) ∧
      (chunks ≠ [] ↔ Readable fa f) ∧
      (∀ node ∈ dirs, inodeOf e node ≠ some (fileIdentity s).1) ∧
      de.nodetype = JFFS2_NODETYPE_DIRENT ∧ (de.ino, de.version) = fileIdentity s := by
  simp only [appendFile, Option.bind_eq_bind] at h
  split at h
  · rename_i htarget
    obtain ⟨⟨inode, t⟩, hdir, hrest⟩ := Option.bind_eq_some_iff.mp h
    rw [Option.pure_def, Option.bind_some] at hrest
    change addDir e erasesize dir 1 (appendBase erasesize s) = _ at hdir
    obtain ⟨u, hadd, hfinish⟩ := Option.bind_eq_some_iff.mp hrest
    obtain ⟨rfl, ht⟩ := addDir_account hdir
    obtain ⟨chunks, hnodes, hchunks⟩ := addFile_account hfile hadd
    have hend : s'.nodes = u.nodes := congrArg Prod.snd (finish_account hfinish)
    simp only [account, ids, Prod.mk.injEq] at ht
    obtain ⟨⟨hlastIno, hlastVersion, _⟩, htnodes⟩ := ht
    have hid : fileIdentity s = (t.lastIno + 1, t.lastVersion) := by
      rw [fileIdentity, if_pos htarget, hlastIno, hlastVersion, UInt32.add_assoc]
      rfl
    rw [hid]
    refine ⟨[direntNode e dir DT_DIR 1 (appendBase erasesize s),
        (dirInode e ((appendBase erasesize s).lastIno + 1)).bytes e],
      fillDirent e (baseName filename) DT_REG ((appendBase erasesize s).lastIno + 1)
        (t.lastIno + 1) t.lastVersion, chunks, ?_, hchunks, ?_, rfl, rfl⟩
    · rw [hend, hnodes, htnodes, List.append_assoc]
      rfl
    · -- the number of the directory is two below
      intro node hnode
      rcases List.mem_cons.mp hnode with rfl | hnode
      · rw [direntNode, inodeOf_dirent rfl]
        simp
      · rw [List.mem_singleton.mp hnode, ← List.append_nil (Inode.bytes e _), inodeOf_inode rfl,
          hlastIno]
        intro heq
        have hino : (appendBase erasesize s).lastIno + 1
            = (appendBase erasesize s).lastIno + 2 + 1 := Option.some.inj heq
        have hcancel := (UInt32.add_right_inj _).mp (hino.trans (UInt32.add_assoc _ _ _))
        exact absurd hcancel (by decide)
  · rename_i htarget
    rw [Option.bind_some] at h
    obtain ⟨u, hadd, hfinish⟩ := Option.bind_eq_some_iff.mp h
    obtain ⟨chunks, hnodes, hchunks⟩ := addFile_account hfile hadd
    have hend : s'.nodes = u.nodes := congrArg Prod.snd (finish_account hfinish)
    rw [fileIdentity, if_neg htarget]
    refine ⟨[], _, chunks, hend.trans hnodes, hchunks, ?_, rfl, rfl⟩
    intro node hnode
    cases hnode

/-- The last dirent of an append is that of the file, and an inode node has
its number exactly if the file is readable. -/
theorem appendFile_nodes {fa : FileAccess} {f : SrcFile} {filename dir : CStr} {s s' : Jffs2}
    (hfile : fa.file = some f) (h : appendFile e erasesize fa filename dir s = some s') :
    ∃ new, s'.nodes = s.nodes ++ new ∧
      (new.filterMap (direntOf e)).getLast? = some (fileIdentity s) ∧
      ((∃ node ∈ new, inodeOf e node = some (fileIdentity s).1) ↔ Readable fa f) := by
  obtain ⟨dirs, de, chunks, hnodes, hchunks, hdirs, htype, hde⟩ := appendFile_account hfile h
  have hinodes := @inodeNodes_inodes e (fileIdentity s).1 chunks
    (fileInode f (fileIdentity s).1) 0 ((fileIdentity s).2 + 1) rfl rfl
  refine ⟨_, hnodes, ?_, ?_⟩
  · have hnone : (inodeNodes e (fileInode f (fileIdentity s).1) 0 ((fileIdentity s).2 + 1)
        chunks).filterMap (direntOf e) = [] :=
      List.filterMap_eq_nil_iff.mpr fun node hnode => (hinodes node hnode).1
    rw [List.filterMap_append, List.filterMap_cons_some (direntOf_dirent htype _), hnone, hde]
    exact List.getLast?_concat
  · rw [← hchunks]
    constructor
    · rintro ⟨node, hnode, hino⟩ rfl
      rcases List.mem_append.mp hnode with hdir | hrest
      · exact hdirs node hdir hino
      · rw [inodeNodes, List.mem_singleton] at hrest
        rw [hrest, inodeOf_dirent htype] at hino
        cases hino
    · intro hne
      obtain ⟨data, rest, rfl⟩ := List.exists_cons_of_ne_nil hne
      refine ⟨_, List.mem_append_right _ (List.mem_cons_of_mem _ List.mem_cons_self),
        (hinodes _ List.mem_cons_self).2⟩

end Frame

/-! ## The parsed dirents -/

/-- What the scan takes from a dirent: its numbers, and whether it is an
entry of the root directory under the name that is looked for. -/
structure ParsedDirent where
  ino : UInt32
  version : UInt32
  isDir : Bool

section Scan

variable (e : ByteOrder) (erasesize : Nat) (dir : CStr)

/-- The dirent at an offset of the block. -/
def parsedDirent (m : List UInt8) (ofs : Nat) : Option ParsedDirent := do
  let pino ← (if dir.chars = [] then some 0 else u32At e m (ofs + 12))
  let ino ← u32At e m (ofs + 20)
  let isDir ←
    (if dir.chars ≠ [] ∧ pino = 1 then
      m[ofs + 28]?.bind fun nsize => strncmpEq m (ofs + DIRENT_SIZE) dir.chars nsize.toNat
    else some false)
  let version ← u32At e m (ofs + 16)
  return ⟨ino, version, isDir⟩

/-- The dirents of a block, from an offset on: nodes follow each other as
long as there is the magic. At most `n` nodes. -/
def blockDirents (m : List UInt8) : Nat → Nat → List ParsedDirent
  | 0, _ => []
  | n + 1, ofs =>
      if ofs < erasesize ∧ u16At e m ofs = some JFFS2_MAGIC_BITMASK then
        let here :=
          if u16At e m (ofs + 2) = some JFFS2_NODETYPE_DIRENT then
            (parsedDirent e dir m ofs).toList
          else []
        match u32At e m (ofs + 4) with
        | some totlen => here ++ blockDirents m n ((ofs + padTo4 totlen.toNat % 2 ^ 32) % 2 ^ 32)
        | none => here
      else []

/-- The dirents of the blocks in front of the free space. -/
def partitionDirents (n : Nat) : List (List UInt8) → List ParsedDirent
  | [] => []
  | block :: rest =>
      if u16At e block 0 = some JFFS2_MAGIC_BITMASK then
        blockDirents e erasesize dir block n 0 ++ partitionDirents n rest
      else []

/-- What a dirent does to the counters. -/
def note (i : UInt32 × UInt32 × UInt32) (d : ParsedDirent) : UInt32 × UInt32 × UInt32 :=
  (if i.1 < d.ino then d.ino else i.1, if i.2.1 < d.version then d.version else i.2.1,
    if d.isDir then d.ino else i.2.2)

variable {e erasesize dir}

/-- A pass over a node notes the dirent in it. -/
theorem parseBody_notes {m : List UInt8} {ofs : Nat} {s : Jffs2} {q : Nat × Jffs2}
    (h : parseBody e erasesize m dir (ofs, s) = .next q) (n : Nat) :
    ∃ here, blockDirents e erasesize dir m (n + 1) ofs
        = here ++ blockDirents e erasesize dir m n q.1 ∧
      account q.2 = (here.foldl note (ids s), s.nodes) := by
  simp only [parseBody] at h
  split at h
  · rename_i hofs
    split at h
    · cases h
    · rename_i magic hmagic
      split at h
      · cases h
      · rename_i heq
        have hmagic' : u16At e m ofs = some JFFS2_MAGIC_BITMASK := by
          rw [hmagic, not_not.mp heq]
        split at h
        · cases h
        · rename_i r hstep
          cases h
          rw [blockDirents, if_pos ⟨hofs, hmagic'⟩]
          simp only [Option.bind_eq_bind, Option.bind_eq_some_iff] at hstep
          obtain ⟨totlen, htotlen, nodetype, htype, hrest⟩ := hstep
          simp only [htotlen, htype, Option.some.injEq]
          split at hrest
          · rename_i hdirent
            simp only [Option.bind_eq_some_iff] at hrest
            obtain ⟨pino, hpino, ino, hino, isDir, hisDir, version, hversion, hq⟩ := hrest
            cases hq
            have hparsed : parsedDirent e dir m ofs = some ⟨ino, version, isDir⟩ := by
              simp only [parsedDirent, Option.bind_eq_bind, hpino, hino, hisDir, hversion,
                Option.bind_some, Option.pure_def]
            rw [if_pos hdirent, hparsed]
            exact ⟨_, rfl, rfl⟩
          · rename_i hother
            cases hrest
            rw [if_neg hother]
            exact ⟨_, rfl, rfl⟩
  · cases h

/-- The loop over a block notes its dirents. -/
theorem run_parseBody_notes {m : List UInt8} (n : Nat) : ∀ {ofs : Nat} {s s' : Jffs2},
    run (parseBody e erasesize m dir) n (ofs, s) = .done s' →
      account s' = ((blockDirents e erasesize dir m n ofs).foldl note (ids s), s.nodes) := by
  induction n with
  | zero =>
      intro ofs s s' h
      cases h
  | succ n ih =>
      intro ofs s s' h
      cases hb : parseBody e erasesize m dir (ofs, s) with
      | fault =>
          rw [run_fault hb] at h
          cases h
      | stop r =>
          rw [run_stop hb] at h
          cases h
          rw [parseBody_stop hb]
          have hend : ¬(ofs < erasesize ∧ u16At e m ofs = some JFFS2_MAGIC_BITMASK) := by
            rintro ⟨hofs, hmagic⟩
            simp only [parseBody, if_pos hofs, hmagic, ne_eq, not_true_eq_false, if_false] at hb
            split at hb <;> cases hb
          rw [blockDirents, if_neg hend]
          rfl
      | next q =>
          obtain ⟨here, hsplit, haccount⟩ := parseBody_notes hb n
          rw [run_next hb] at h
          have hrest := ih h
          simp only [account, Prod.mk.injEq] at haccount
          rw [hrest, hsplit, List.foldl_append, haccount.1, haccount.2]

/-- A scan has noted the dirents in front of the block where it ended. -/
theorem scanBlocks_notes {n : Nat} {partition : List (List UInt8)} :
    ∀ {s : Jffs2} {r : ScanEnd}, scanBlocks e erasesize n dir partition s = some r →
      account r.state =
        ((partitionDirents e erasesize dir n partition).foldl note (ids s), s.nodes) := by
  induction partition with
  | nil =>
      intro s r h
      cases h
      rfl
  | cons block rest ih =>
      intro s r h
      rw [scanBlocks] at h
      split at h
      · cases h
      · rename_i magic hmagic
        split at h
        · rename_i hcigam
          cases h
          rw [partitionDirents, if_neg (by rw [hmagic, Option.some.injEq, hcigam]; decide)]
          rfl
        · split at h
          · rename_i hfree
            cases h
            rw [partitionDirents, if_neg (by rw [hmagic, Option.some.injEq]; exact hfree)]
            rfl
          · rename_i hnode
            split at h
            · rename_i t hparse
              have ht := run_parseBody_notes n hparse
              have hrest := ih h
              simp only [account, Prod.mk.injEq] at ht
              rw [hrest, partitionDirents, if_pos (by rw [hmagic, not_not.mp hnode]),
                List.foldl_append, ht.1, ht.2]
              rfl
            · cases h
            · cases h

theorem isDir_of_parsed {m : List UInt8} {ofs : Nat} {d : ParsedDirent}
    (h : parsedDirent e dir m ofs = some d) (hd : d.isDir = true) : dir.chars ≠ [] := by
  intro hnil
  simp only [parsedDirent, Option.bind_eq_bind, Option.bind_eq_some_iff, hnil, ne_eq,
    not_true_eq_false, false_and, if_false] at h
  obtain ⟨pino, _, ino, _, isDir, hisDir, version, _, hd'⟩ := h
  cases hisDir
  cases hd'
  cases hd

theorem mem_blockDirents {m : List UInt8} {d : ParsedDirent} (n : Nat) : ∀ {ofs : Nat},
    d ∈ blockDirents e erasesize dir m n ofs → ∃ pos, parsedDirent e dir m pos = some d := by
  induction n with
  | zero =>
      intro ofs h
      cases h
  | succ n ih =>
      intro ofs h
      have hhere : d ∈ (if u16At e m (ofs + 2) = some JFFS2_NODETYPE_DIRENT then
          (parsedDirent e dir m ofs).toList else []) → ∃ pos, parsedDirent e dir m pos = some d := by
        intro hd
        split at hd
        · exact ⟨ofs, Option.mem_toList.mp hd⟩
        · cases hd
      simp only [blockDirents] at h
      generalize (if u16At e m (ofs + 2) = some JFFS2_NODETYPE_DIRENT then
        (parsedDirent e dir m ofs).toList else []) = here at h hhere
      split at h
      · split at h
        · rcases List.mem_append.mp h with hd | hd
          · exact hhere hd
          · exact ih hd
        · exact hhere h
      · cases h

theorem isDir_of_mem {n : Nat} {partition : List (List UInt8)} {d : ParsedDirent}
    (h : d ∈ partitionDirents e erasesize dir n partition) (hd : d.isDir = true) :
    dir.chars ≠ [] := by
  induction partition with
  | nil => cases h
  | cons block rest ih =>
      rw [partitionDirents] at h
      split at h
      · rcases List.mem_append.mp h with hblock | hrest
        · obtain ⟨ofs, hparsed⟩ := mem_blockDirents n hblock
          exact isDir_of_parsed hparsed hd
        · exact ih hrest
      · cases h

end Scan

/-! ## The counters behind a scan -/

/-- A counter that is raised to the numbers of a list is the largest of
them, or the number it started with. -/
theorem foldl_raise {α : Type} (f : α → UInt32) (ds : List α) : ∀ a : UInt32,
    (∀ d ∈ ds, f d ≤ ds.foldl (fun a d => if a < f d then f d else a) a) ∧
    a ≤ ds.foldl (fun a d => if a < f d then f d else a) a ∧
    (ds.foldl (fun a d => if a < f d then f d else a) a = a ∨
      ∃ d ∈ ds, f d = ds.foldl (fun a d => if a < f d then f d else a) a) := by
  induction ds with
  | nil =>
      intro a
      exact ⟨fun d hd => absurd hd List.not_mem_nil, UInt32.le_refl a, Or.inl rfl⟩
  | cons d ds ih =>
      intro a
      rw [List.foldl_cons]
      obtain ⟨hall, hle, hattained⟩ := ih (if a < f d then f d else a)
      have hstep : a ≤ (if a < f d then f d else a) ∧ f d ≤ (if a < f d then f d else a) := by
        split
        · exact ⟨UInt32.le_of_lt ‹_›, UInt32.le_refl _⟩
        · exact ⟨UInt32.le_refl _, UInt32.not_lt.mp ‹_›⟩
      refine ⟨?_, UInt32.le_trans hstep.1 hle, ?_⟩
      · rw [List.forall_mem_cons]
        exact ⟨UInt32.le_trans hstep.2 hle, hall⟩
      · rcases hattained with heq | ⟨c, hc, heq⟩
        · rw [heq]
          split
          · exact Or.inr ⟨d, List.mem_cons_self, rfl⟩
          · exact Or.inl rfl
        · exact Or.inr ⟨c, List.mem_cons_of_mem _ hc, heq⟩

/-- The number a little above the largest is above all, unless it wraps. -/
theorem lt_add_iff {α : Type} {f : α → UInt32} {ds : List α} {m k : UInt32}
    (hle : ∀ d ∈ ds, f d ≤ m) (hpos : 0 < k.toNat)
    (hm : m.toNat + k.toNat < 2 ^ 32 ∨ ∃ d ∈ ds, f d = m) :
    (∀ d ∈ ds, f d < m + k) ↔ ∀ d ∈ ds, (f d).toNat + k.toNat < 2 ^ 32 := by
  have hadd : (m + k).toNat = (m.toNat + k.toNat) % 2 ^ 32 := UInt32.toNat_add m k
  have hmlt := m.toNat_lt
  have hklt := k.toNat_lt
  by_cases hsmall : m.toNat + k.toNat < 2 ^ 32
  · rw [Nat.mod_eq_of_lt hsmall] at hadd
    refine ⟨fun _ d hd => ?_, fun _ d hd => ?_⟩
    · have hd' := UInt32.le_iff_toNat_le.mp (hle d hd)
      omega
    · have hd' := UInt32.le_iff_toNat_le.mp (hle d hd)
      rw [UInt32.lt_iff_toNat_lt]
      omega
  · obtain ⟨d, hd, hdm⟩ : ∃ d ∈ ds, f d = m := hm.resolve_left hsmall
    refine ⟨fun h => ?_, fun h => ?_⟩
    · have hlt := UInt32.lt_iff_toNat_lt.mp (h d hd)
      rw [hdm] at hlt
      omega
    · have hlt := h d hd
      rw [hdm] at hlt
      omega

/-- The last dirent of the directory decides. -/
theorem foldl_target (ds : List ParsedDirent) : ∀ t : UInt32,
    ds.foldl (fun t d => if d.isDir then d.ino else t) t
      = ((ds.filter (·.isDir)).getLast?.map (·.ino)).getD t := by
  induction ds with
  | nil => exact fun t => rfl
  | cons d ds ih =>
      intro t
      rw [List.foldl_cons, ih, List.filter_cons]
      split
      · rw [List.getLast?_cons]
        cases (ds.filter (·.isDir)).getLast? <;> rfl
      · rfl

theorem foldl_note (ds : List ParsedDirent) : ∀ i : UInt32 × UInt32 × UInt32,
    ds.foldl note i = (ds.foldl (fun a d => if a < d.ino then d.ino else a) i.1,
      ds.foldl (fun a d => if a < d.version then d.version else a) i.2.1,
      ds.foldl (fun t d => if d.isDir then d.ino else t) i.2.2) := by
  induction ds with
  | nil => exact fun i => rfl
  | cons d ds ih =>
      intro i
      simp only [List.foldl_cons, ih]
      rfl

/-! ## The identity of the appended file -/

/-- No parsed dirent makes the directory known: there is none under its
name in the root directory, or the last one deletes it. -/
def DirUnknown (dir : CStr) (parsed : List ParsedDirent) : Prop :=
  dir.chars ≠ [] ∧ ∀ d, (parsed.filter (·.isDir)).getLast? = some d → d.ino = 0

/-- A dirent whose inode number and version are larger than those that were
parsed, with an inode node of its number among the nodes written. -/
structure NewIdentity (e : ByteOrder) (parsed : List ParsedDirent) (nodes : List (List UInt8))
    (ino version : UInt32) : Prop where
  inoNew : ∀ d ∈ parsed, d.ino < ino
  versionNew : ∀ d ∈ parsed, d.version < version
  inode : ∃ node ∈ nodes, inodeOf e node = some ino

/-- The static variables at the start of the program. -/
def Jffs2.initial : Jffs2 := ⟨0, 0, 0, [], 0, 0, [], 0, []⟩

/-- The statics behind the scan of a file system with these dirents. -/
theorem fileIdentity_noted {dir : CStr} {parsed : List ParsedDirent} {s : Jffs2}
    (hdir : ∀ d ∈ parsed, d.isDir = true → dir.chars ≠ [])
    (hs : ids s = parsed.foldl note (0, 0, if dir.chars = [] then 1 else 0)) :
    ((∀ d ∈ parsed, d.ino < (fileIdentity s).1) ∧
      (∀ d ∈ parsed, d.version < (fileIdentity s).2)) ↔
    parsed = [] ∨ (DirUnknown dir parsed ∧
      ∀ d ∈ parsed, d.ino.toNat + 3 < 2 ^ 32 ∧ d.version.toNat + 1 < 2 ^ 32) := by
  rw [foldl_note] at hs
  simp only [ids, Prod.mk.injEq] at hs
  obtain ⟨hino, hversion, htarget⟩ := hs
  obtain ⟨hinoLe, _, hinoAt⟩ := foldl_raise (fun d : ParsedDirent => d.ino) parsed 0
  obtain ⟨hversionLe, _, hversionAt⟩ := foldl_raise (fun d : ParsedDirent => d.version) parsed 0
  rw [← hino] at hinoLe hinoAt
  rw [← hversion] at hversionLe hversionAt
  have hunknown : s.targetIno = 0 ↔ DirUnknown dir parsed := by
    rw [htarget, foldl_target, DirUnknown]
    cases hlast : (parsed.filter (·.isDir)).getLast? with
    | none =>
        by_cases hnil : dir.chars = []
        · simp [hnil]
        · simp [hnil]
    | some d =>
        have hmem := List.mem_filter.mp (List.mem_of_getLast? hlast)
        simp [hdir d hmem.1 hmem.2]
  by_cases hmade : s.targetIno = 0
  · -- the number of the file is three above the largest, its version one above
    have hbase : ∀ d ∈ parsed, d.ino ≤ (if s.lastIno = 0 then 1 else s.lastIno) := by
      intro d hd
      have hle := UInt32.le_iff_toNat_le.mp (hinoLe d hd)
      split
      · rename_i hzero
        rw [hzero] at hle
        rw [UInt32.le_iff_toNat_le]
        exact Nat.le_trans hle (Nat.zero_le _)
      · exact hinoLe d hd
    have hinos : (∀ d ∈ parsed, d.ino < (fileIdentity s).1) ↔
        ∀ d ∈ parsed, d.ino.toNat + 3 < 2 ^ 32 := by
      rw [fileIdentity, if_pos hmade]
      refine lt_add_iff hbase (by decide) ?_
      split
      · exact Or.inl (by decide)
      · rename_i hne
        exact Or.inr (hinoAt.resolve_left hne)
    have hversions : (∀ d ∈ parsed, d.version < (fileIdentity s).2) ↔
        ∀ d ∈ parsed, d.version.toNat + 1 < 2 ^ 32 := by
      rw [fileIdentity, if_pos hmade]
      refine lt_add_iff hversionLe (by decide) (hversionAt.imp_left fun hzero => ?_)
      rw [hzero]
      decide
    rw [hinos, hversions]
    constructor
    · rintro ⟨hi, hv⟩
      exact Or.inr ⟨hunknown.mp hmade, fun d hd => ⟨hi d hd, hv d hd⟩⟩
    · rintro (rfl | ⟨_, hall⟩)
      · exact ⟨List.forall_mem_nil _, List.forall_mem_nil _⟩
      · exact ⟨fun d hd => (hall d hd).1, fun d hd => (hall d hd).2⟩
  · -- the version of the file is the largest itself
    have hnone : (∀ d ∈ parsed, d.version < (fileIdentity s).2) ↔ parsed = [] := by
      rw [fileIdentity, if_neg hmade]
      constructor
      · intro h
        rcases hversionAt with hzero | ⟨d, hd, heq⟩
        · refine List.eq_nil_iff_forall_not_mem.mpr fun d hd => ?_
          have hlt := UInt32.lt_iff_toNat_lt.mp (h d hd)
          simp only [hzero] at hlt
          exact absurd hlt (Nat.not_lt_zero _)
        · have hlt := h d hd
          simp only [heq] at hlt
          exact absurd hlt (UInt32.lt_irrefl _)
      · rintro rfl
        exact List.forall_mem_nil _
    rw [hnone]
    constructor
    · exact fun h => Or.inl h.2
    · rintro (rfl | ⟨hdirUnknown, _⟩)
      · exact ⟨List.forall_mem_nil _, rfl⟩
      · exact absurd (hunknown.mpr hdirUnknown) hmade

/-- The appended file has a new identity exactly if it is readable and
either no dirent was parsed, or the directory is made for it and none of
the parsed numbers is so large that a counter wraps. For every erase size,
every partition, every name and every file that `stat` finds: otherwise no
dirent is appended. -/
theorem jffs2_identity_iff (e : ByteOrder) (erasesize n : Nat) (fa : FileAccess) (f : SrcFile)
    (filename dir : CStr) (partition : List (List UInt8)) (s' : Jffs2) (hfile : fa.file = some f)
    (hrun : mtdWriteJffs2 e erasesize n fa filename dir partition Jffs2.initial = some (0, s')) :
    ∃ ino version, (s'.nodes.filterMap (direntOf e)).getLast? = some (ino, version) ∧
      (NewIdentity e (partitionDirents e erasesize dir n partition) s'.nodes ino version ↔
        Readable fa f ∧ (partitionDirents e erasesize dir n partition = [] ∨
          (DirUnknown dir (partitionDirents e erasesize dir n partition) ∧
            ∀ d ∈ partitionDirents e erasesize dir n partition,
              d.ino.toNat + 3 < 2 ^ 32 ∧ d.version.toNat + 1 < 2 ^ 32))) := by
  simp only [mtdWriteJffs2, Option.bind_eq_bind, Option.bind_eq_some_iff] at hrun
  obtain ⟨r, hscan, hend⟩ := hrun
  cases r with
  | noRoom t => cases hend
  | wrongEndian t => cases hend
  | ready t =>
      obtain ⟨u, happend, hu⟩ := Option.bind_eq_some_iff.mp hend
      cases hu
      have hnoted := scanBlocks_notes hscan
      simp only [account, ScanEnd.state, Prod.mk.injEq] at hnoted
      obtain ⟨new, hnodes, hlast, hinode⟩ := appendFile_nodes hfile happend
      rw [hnoted.2] at hnodes
      have hnew : s'.nodes = new := hnodes
      rw [hnew]
      refine ⟨_, _, hlast, ?_⟩
      rw [← fileIdentity_noted (fun d hd => isDir_of_mem hd) hnoted.1, ← hinode]
      constructor
      · intro h
        exact ⟨h.inode, h.inoNew, h.versionNew⟩
      · rintro ⟨hi, hino, hversion⟩
        exact ⟨hino, hversion, hi⟩

/-- A block with one entry of the root directory: `x`, inode 2, version 5. -/
def usedBlock : List UInt8 :=
  (fillDirent .big ⟨[0x78], by decide⟩ DT_REG 1 2 5).bytes .big ++
    0x78 :: List.replicate 4055 0xff

/-- A file that goes into a new directory `d` has a new identity. -/
theorem jffs2_identity_newDir :
    ∃ s', mtdWriteJffs2 .big 4096 2 tinyFile ⟨[0x61], by decide⟩ ⟨[0x64], by decide⟩
        [usedBlock, List.replicate 4096 0xff] Jffs2.initial = some (0, s') ∧
      ∃ ino version, (s'.nodes.filterMap (direntOf .big)).getLast? = some (ino, version) ∧
        NewIdentity .big (partitionDirents .big 4096 ⟨[0x64], by decide⟩ 2
          [usedBlock, List.replicate 4096 0xff]) s'.nodes ino version := by
  have hret : (mtdWriteJffs2 .big 4096 2 tinyFile ⟨[0x61], by decide⟩ ⟨[0x64], by decide⟩
      [usedBlock, List.replicate 4096 0xff] Jffs2.initial).map Prod.fst = some 0 := by
    decide +kernel
  have hparsed : (partitionDirents .big 4096 ⟨[0x64], by decide⟩ 2
      [usedBlock, List.replicate 4096 0xff]).map (fun d => (d.isDir, d.ino, d.version)) =
        [(false, 2, 5)] := by
    decide +kernel
  have hx : ∀ d ∈ partitionDirents .big 4096 ⟨[0x64], by decide⟩ 2
      [usedBlock, List.replicate 4096 0xff], d.isDir = false ∧ d.ino = 2 ∧ d.version = 5 := by
    intro d hd
    have hmem := List.mem_map_of_mem (f := fun d => (d.isDir, d.ino, d.version)) hd
    rw [hparsed, List.mem_singleton] at hmem
    simpa using hmem
  obtain ⟨⟨code, s'⟩, hrun, hcode⟩ := Option.map_eq_some_iff.mp hret
  simp only at hcode
  subst hcode
  obtain ⟨ino, version, hlast, hiff⟩ :=
    jffs2_identity_iff .big 4096 2 tinyFile _ _ _ _ s' rfl hrun
  refine ⟨s', hrun, ino, version, hlast, hiff.mpr ⟨⟨rfl, rfl, by decide⟩, .inr ⟨⟨by decide, ?_⟩, ?_⟩⟩⟩
  · intro d hd
    obtain ⟨hmem, hdir⟩ := List.mem_filter.mp (List.mem_of_getLast? hd)
    rw [(hx d hmem).1] at hdir
    cases hdir
  · intro d hd
    rw [(hx d hd).2.1, (hx d hd).2.2]
    decide

/-- A file that goes into the root directory gets the version of `x`, and
an empty file no inode node even in an empty file system. -/
theorem jffs2_identity_fails :
    (∃ s', mtdWriteJffs2 .big 4096 2 tinyFile ⟨[0x61], by decide⟩ ⟨[], by decide⟩
        [usedBlock, List.replicate 4096 0xff] Jffs2.initial = some (0, s') ∧
      ∀ ino version, (s'.nodes.filterMap (direntOf .big)).getLast? = some (ino, version) →
        ¬NewIdentity .big (partitionDirents .big 4096 ⟨[], by decide⟩ 2
          [usedBlock, List.replicate 4096 0xff]) s'.nodes ino version) ∧
    (∃ s', mtdWriteJffs2 .big 4096 2
        { tinyFile with file := some ⟨[], by decide, 0x81a4, 0, 0, 0⟩ } ⟨[0x61], by decide⟩
        ⟨[], by decide⟩ [List.replicate 4096 0xff] Jffs2.initial = some (0, s') ∧
      ∀ ino version, (s'.nodes.filterMap (direntOf .big)).getLast? = some (ino, version) →
        ¬NewIdentity .big [] s'.nodes ino version) := by
  constructor
  · have hret : (mtdWriteJffs2 .big 4096 2 tinyFile ⟨[0x61], by decide⟩ ⟨[], by decide⟩
        [usedBlock, List.replicate 4096 0xff] Jffs2.initial).map
          (fun r => (r.1, (r.2.nodes.filterMap (direntOf .big)).getLast?)) = some (0, some (3, 5)) := by
      decide +kernel
    have hparsed : (partitionDirents .big 4096 ⟨[], by decide⟩ 2
        [usedBlock, List.replicate 4096 0xff]).map (·.version) = [5] := by
      decide +kernel
    obtain ⟨⟨code, s'⟩, hrun, hcode⟩ := Option.map_eq_some_iff.mp hret
    simp only [Prod.mk.injEq] at hcode
    obtain ⟨rfl, hlast⟩ := hcode
    refine ⟨s', hrun, fun ino version hid hnew => ?_⟩
    rw [hlast, Option.some.injEq, Prod.mk.injEq] at hid
    obtain ⟨rfl, rfl⟩ := hid
    obtain ⟨d, hd, hversion⟩ := List.mem_map.mp (hparsed ▸ List.mem_singleton_self (5 : UInt32))
    have hlt := hnew.versionNew d hd
    rw [hversion] at hlt
    exact absurd hlt (by decide)
  · have hret : (mtdWriteJffs2 .big 4096 2
        { tinyFile with file := some ⟨[], by decide, 0x81a4, 0, 0, 0⟩ } ⟨[0x61], by decide⟩
        ⟨[], by decide⟩ [List.replicate 4096 0xff] Jffs2.initial).map
          (fun r => (r.1, r.2.nodes.map (inodeOf .big))) = some (0, [none]) := by
      decide +kernel
    obtain ⟨⟨code, s'⟩, hrun, hcode⟩ := Option.map_eq_some_iff.mp hret
    simp only [Prod.mk.injEq] at hcode
    obtain ⟨rfl, hinodes⟩ := hcode
    refine ⟨s', hrun, fun ino version _ hnew => ?_⟩
    obtain ⟨node, hnode, hino⟩ := hnew.inode
    have hmem := @List.mem_map_of_mem _ _ _ _ (inodeOf .big) hnode
    rw [hinodes, hino, List.mem_singleton] at hmem
    cases hmem

end UbntSdk.Mtd
