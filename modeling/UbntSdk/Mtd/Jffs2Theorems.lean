/-
UbntSdk.Mtd.Jffs2Theorems — where the JFFS2 writer puts its nodes.

The buffer is specified by the bytes in front of `ofs` (`Content`). `pad`
has one lemma for both of its uses: it rounds the content up with 0xff,
and flushes when that fills the block (`pad_spec`).

Over it, `Stream` says what has been written since some state `b`: the
flushed blocks, each a cleanmarker, whole nodes padded to 4 bytes, and
0xff up to the end. Between two nodes the writer is `Open` (a block with a
marker and some nodes in it) or `Fresh` (nothing in the block), and each
operation of the file moves between these two. The test for space in
`add_dirent` never fires, so that a dirent fits is shown from where the
entry points call it: near the start of a block.

`jffs2_placement` is the result for the two entry points.
-/
import UbntSdk.Mtd.Jffs2

namespace UbntSdk.Mtd

open UbntSdk.Lib

/-- The erase sizes the writer is made for. -/
structure EraseSize where
  size : Nat
  aligned : size % 4 = 0
  min : 4096 ≤ size

/-! ## The layout of a block -/

/-- A node with its padding. -/
def padNode (node : List UInt8) : List UInt8 :=
  node ++ List.replicate (padTo4 node.length - node.length) 0xff

theorem le_padTo4 (n : Nat) : n ≤ padTo4 n := by
  simp only [padTo4]
  omega

theorem padNode_length (node : List UInt8) : (padNode node).length = padTo4 node.length := by
  have hle := le_padTo4 node.length
  simp only [padNode, List.length_append, List.length_replicate]
  omega

/-- The used part of a block that holds these nodes. -/
def used (e : ByteOrder) (nodes : List (List UInt8)) : List UInt8 :=
  CLEANMARKER e ++ nodes.flatMap padNode

/-- A flushed block that holds these nodes. -/
def blockBytes (e : ByteOrder) (erasesize : Nat) (nodes : List (List UInt8)) : List UInt8 :=
  used e nodes ++ List.replicate (erasesize - (used e nodes).length) 0xff

theorem CLEANMARKER_length (e : ByteOrder) : (CLEANMARKER e).length = 12 := by
  cases e <;> simp [CLEANMARKER]

theorem used_nil (e : ByteOrder) : used e [] = CLEANMARKER e := by simp [used]

theorem used_append (e : ByteOrder) (nodes : List (List UInt8)) (node : List UInt8) :
    used e (nodes ++ [node]) = used e nodes ++ padNode node := by
  simp [used, List.append_assoc]

/-- Every node starts at a multiple of 4. -/
theorem used_length_mod (e : ByteOrder) (nodes : List (List UInt8)) :
    (used e nodes).length % 4 = 0 := by
  have hnodes : ∀ ns : List (List UInt8), (ns.flatMap padNode).length % 4 = 0 := by
    intro ns
    induction ns with
    | nil => rfl
    | cons node ns ih =>
        rw [List.flatMap_cons, List.length_append, padNode_length]
        simp only [padTo4]
        omega
  rw [used, List.length_append, CLEANMARKER_length]
  have := hnodes nodes
  omega

theorem le_used_length (e : ByteOrder) (nodes : List (List UInt8)) :
    12 ≤ (used e nodes).length := by
  rw [used, List.length_append, CLEANMARKER_length]
  omega

/-! ## The buffer -/

/-- The statics that number inodes. -/
def ids (s : Jffs2) : UInt32 × UInt32 × UInt32 := (s.lastIno, s.lastVersion, s.targetIno)

/-- The buffer holds `bytes` in front of `ofs`, and `ofs` never left the
block. -/
structure Content (erasesize : Nat) (s : Jffs2) (bytes : List UInt8) : Prop where
  buf : ∃ rest, s.buf = bytes ++ rest
  size : s.buf.length = erasesize
  ofs : s.ofs = bytes.length
  top : s.top ≤ erasesize

theorem Content.le {erasesize : Nat} {s : Jffs2} {bytes : List UInt8}
    (h : Content erasesize s bytes) : bytes.length ≤ erasesize := by
  obtain ⟨rest, hrest⟩ := h.buf
  rw [← h.size, hrest, List.length_append]
  omega

/-- What a step leaves alone when it flushes nothing. -/
structure Kept (s s' : Jffs2) : Prop where
  ids : ids s' = ids s
  flushed : s'.flushed = s.flushed
  mtdofs : s'.mtdofs = s.mtdofs
  nodes : s'.nodes = s.nodes

theorem Kept.refl (s : Jffs2) : Kept s s := ⟨rfl, rfl, rfl, rfl⟩

/-- Bytes that fit go behind the content. -/
theorem Content.poke {erasesize : Nat} {s : Jffs2} {bytes bs : List UInt8}
    (h : Content erasesize s bytes) (hfit : bytes.length + bs.length ≤ erasesize) :
    ∃ s', s.poke bs = some s' ∧ s'.ofs = s.ofs ∧ s'.top = s.top ∧ Kept s s' ∧
      (∃ rest, s'.buf = (bytes ++ bs) ++ rest) ∧ s'.buf.length = erasesize := by
  obtain ⟨rest, hrest⟩ := h.buf
  have hsize := h.size
  rw [hrest, List.length_append] at hsize
  have hsplit : rest = rest.take bs.length ++ rest.drop bs.length :=
    (List.take_append_drop _ _).symm
  have htake : bs.length = (rest.take bs.length).length := by
    rw [List.length_take]
    omega
  have hpoke : poke? s.buf s.ofs bs = some (bytes ++ (bs ++ rest.drop bs.length)) := by
    rw [h.ofs, hrest, poke?_skip (Nat.le_refl _), Nat.sub_self]
    conv_lhs => rw [hsplit]
    rw [poke?_head htake]
    rfl
  refine ⟨{ s with buf := bytes ++ (bs ++ rest.drop bs.length) }, ?_, rfl, rfl,
    ⟨rfl, rfl, rfl, rfl⟩, ⟨rest.drop bs.length, ?_⟩, ?_⟩
  · rw [Jffs2.poke, hpoke]
    rfl
  · rw [List.append_assoc]
  · simp only [List.length_append, List.length_drop]
    omega

/-- `memcpy` and `ofs += len`. -/
theorem Content.putData {erasesize : Nat} {s : Jffs2} {bytes bs : List UInt8}
    (h : Content erasesize s bytes) (hfit : bytes.length + bs.length ≤ erasesize) :
    ∃ s', Mtd.putData bs s = some s' ∧ Content erasesize s' (bytes ++ bs) ∧ Kept s s' := by
  obtain ⟨s₁, hpoke, hofs, htop, hkept, hbuf, hsize⟩ := h.poke hfit
  have hle := h.top
  refine ⟨s₁.setOfs (s₁.ofs + bs.length), ?_, ⟨hbuf, hsize, ?_, ?_⟩,
    ⟨hkept.ids, hkept.flushed, hkept.mtdofs, hkept.nodes⟩⟩
  · simp [Mtd.putData, hpoke]
  · simp only [Jffs2.setOfs, hofs, h.ofs, List.length_append]
  · simp only [Jffs2.setOfs, hofs, htop, h.ofs]
    omega

/-- `pad`, for both of its uses: the content is rounded up with `n` bytes
of 0xff, and a block that is full then is flushed. -/
theorem pad_spec {erasesize size n : Nat} {s : Jffs2} {bytes : List UInt8}
    (h : Content erasesize s bytes) (hpos : 0 < erasesize)
    (hn : bytes.length < erasesize →
      n = if bytes.length % size = 0 then 0 else size - bytes.length % size)
    (hfull : bytes.length = erasesize → n = 0) (hle : bytes.length + n ≤ erasesize) :
    (bytes.length + n < erasesize ∧ ∃ s', pad erasesize size s = some s' ∧
      Content erasesize s' (bytes ++ List.replicate n 0xff) ∧ Kept s s') ∨
    (bytes.length + n = erasesize ∧ ∃ s', pad erasesize size s = some s' ∧
      Content erasesize s' [] ∧ ids s' = ids s ∧ s'.nodes = s.nodes ∧
      s'.mtdofs = s.mtdofs + erasesize ∧
      s'.flushed = s.flushed ++ [(s.mtdofs, bytes ++ List.replicate n 0xff)]) := by
  have hofs := h.ofs
  have htop := h.top
  by_cases hlt : bytes.length < erasesize
  · specialize hn hlt
    by_cases hmod : bytes.length % size = 0
    · -- nothing to do
      rw [if_pos hmod] at hn
      subst hn
      refine Or.inl ⟨hlt, s, ?_, by simpa using h, Kept.refl s⟩
      rw [pad, if_pos ⟨hofs ▸ hmod, hofs ▸ hlt⟩]
    · rw [if_neg hmod] at hn
      have hfit : bytes.length + (List.replicate n (0xff : UInt8)).length ≤ erasesize := by
        rw [List.length_replicate]
        exact hle
      obtain ⟨s₁, hpoke, hofs₁, htop₁, hkept, hbuf, hsize⟩ := h.poke hfit
      have hsn : size - s.ofs % size = n := by rw [hofs]; exact hn.symm
      have hcond : ¬ (s.ofs % size = 0 ∧ s.ofs < erasesize) := by
        rw [hofs]
        exact fun hc => hmod hc.1
      have hlt' : s.ofs < erasesize := hofs ▸ hlt
      by_cases hend : bytes.length + n < erasesize
      · have hmodn : (bytes.length + n) % erasesize = bytes.length + n := Nat.mod_eq_of_lt hend
        have hne : ¬ bytes.length + n = 0 := by
          intro h0
          exact hmod (by rw [show bytes.length = 0 by omega, Nat.zero_mod])
        refine Or.inl ⟨hend, (s₁.setOfs (s₁.ofs + n)).setOfs ((s₁.ofs + n) % erasesize), ?_,
          ⟨hbuf, hsize, ?_, ?_⟩, ⟨hkept.ids, hkept.flushed, hkept.mtdofs, hkept.nodes⟩⟩
        · rw [pad, if_neg hcond]
          simp only [if_pos hlt', hsn, hpoke, Option.bind_eq_bind, Option.bind_some,
            Option.pure_def]
          simp only [Jffs2.setOfs, hofs₁, hofs, hmodn, if_neg hne]
        · simp only [Jffs2.setOfs, hofs₁, hofs, hmodn, List.length_append, List.length_replicate]
        · simp only [Jffs2.setOfs, hofs₁, hofs, htop₁, hmodn]
          omega
      · have heq : bytes.length + n = erasesize := by omega
        obtain ⟨rest, hrest⟩ := hbuf
        have hnil : rest = [] := by
          rw [hrest, List.length_append, List.length_append, List.length_replicate] at hsize
          exact List.eq_nil_of_length_eq_zero (by omega)
        rw [hnil, List.append_nil] at hrest
        refine Or.inr ⟨heq, { (s₁.setOfs (s₁.ofs + n)).setOfs ((s₁.ofs + n) % erasesize) with
          flushed := s₁.flushed ++ [(s₁.mtdofs, s₁.buf)]
          mtdofs := s₁.mtdofs + erasesize }, ?_, ⟨⟨s₁.buf, rfl⟩, hsize, ?_, ?_⟩, hkept.ids,
          hkept.nodes, ?_, ?_⟩
        · rw [pad, if_neg hcond]
          simp only [if_pos hlt', hsn, hpoke, Option.bind_eq_bind, Option.bind_some,
            Option.pure_def]
          simp [Jffs2.setOfs, hofs₁, hofs, heq]
        · simp [Jffs2.setOfs, hofs₁, hofs, heq]
        · simp only [Jffs2.setOfs, hofs₁, hofs, htop₁, heq, Nat.mod_self]
          omega
        · simp only [hkept.mtdofs]
        · simp only [hkept.mtdofs, hkept.flushed, hrest]
  · -- the block is already full
    have heq : bytes.length = erasesize := Nat.le_antisymm h.le (Nat.le_of_not_lt hlt)
    have hn0 : n = 0 := hfull heq
    obtain ⟨rest, hrest⟩ := h.buf
    have hsize := h.size
    have hnil : rest = [] := by
      rw [hrest, List.length_append] at hsize
      exact List.eq_nil_of_length_eq_zero (by omega)
    rw [hnil, List.append_nil] at hrest
    have hcond : ¬ (s.ofs % size = 0 ∧ s.ofs < erasesize) := by
      rw [hofs]
      exact fun hc => hlt hc.2
    refine Or.inr ⟨by omega, { s.setOfs (s.ofs % erasesize) with
      flushed := s.flushed ++ [(s.mtdofs, s.buf)]
      mtdofs := s.mtdofs + erasesize }, ?_, ⟨⟨s.buf, rfl⟩, hsize, ?_, ?_⟩, rfl, rfl, rfl, ?_⟩
    · rw [pad, if_neg hcond]
      simp [Jffs2.setOfs, hofs, heq]
    · simp [Jffs2.setOfs, hofs, heq]
    · simp only [Jffs2.setOfs, hofs, heq, Nat.mod_self]
      omega
    · simp only [hrest, hn0, List.replicate_zero, List.append_nil]

/-! ## What has been written -/

/-- The blocks of these nodes, from the erase offset `m` on. -/
def blocksAt (e : ByteOrder) (erasesize : Nat) :
    Nat → List (List (List UInt8)) → List (Nat × List UInt8)
  | _, [] => []
  | m, nodes :: rest => (m, blockBytes e erasesize nodes) :: blocksAt e erasesize (m + erasesize) rest

theorem blocksAt_append (e : ByteOrder) (erasesize m : Nat) (done : List (List (List UInt8)))
    (nodes : List (List UInt8)) :
    blocksAt e erasesize m (done ++ [nodes]) = blocksAt e erasesize m done ++
      [(m + done.length * erasesize, blockBytes e erasesize nodes)] := by
  induction done generalizing m with
  | nil => simp [blocksAt]
  | cons ns done ih =>
      rw [List.cons_append, blocksAt, ih, blocksAt, List.cons_append]
      congr 4
      rw [List.length_cons, Nat.add_mul, Nat.one_mul]
      omega

theorem blocksAt_snd (e : ByteOrder) (erasesize m : Nat) (done : List (List (List UInt8))) :
    (blocksAt e erasesize m done).map Prod.snd = done.map (blockBytes e erasesize) := by
  induction done generalizing m with
  | nil => rfl
  | cons nodes done ih => rw [blocksAt, List.map_cons, List.map_cons, ih]

section Stream

variable (e : ByteOrder) (z : EraseSize) (b : Jffs2)

/-- Since the state `b`, the blocks of `done` were flushed, and the nodes
of `cur` came after them. -/
structure Stream (s : Jffs2) (done : List (List (List UInt8))) (cur : List (List UInt8)) :
    Prop where
  flushed : s.flushed = b.flushed ++ blocksAt e z.size b.mtdofs done
  mtdofs : s.mtdofs = b.mtdofs + done.length * z.size
  nodes : s.nodes = b.nodes ++ (done.flatten ++ cur)
  fits : ∀ nodes ∈ done, (used e nodes).length ≤ z.size

/-- The block has its marker and the nodes of `cur`, and is not full. -/
structure Open (s : Jffs2) (done : List (List (List UInt8))) (cur : List (List UInt8)) :
    Prop where
  content : Content z.size s (used e cur)
  room : (used e cur).length < z.size
  stream : Stream e z b s done cur

/-- Nothing is in the block. -/
structure Fresh (s : Jffs2) (done : List (List (List UInt8))) : Prop where
  content : Content z.size s []
  stream : Stream e z b s done []

variable {e z b}

theorem Stream.of_kept {s s' : Jffs2} {done : List (List (List UInt8))}
    {cur : List (List UInt8)} (h : Stream e z b s done cur) (hk : Kept s s') :
    Stream e z b s' done cur :=
  ⟨hk.flushed.trans h.flushed, hk.mtdofs.trans h.mtdofs, hk.nodes.trans h.nodes, h.fits⟩

theorem Stream.log {s : Jffs2} {done : List (List (List UInt8))} {cur : List (List UInt8)}
    (h : Stream e z b s done cur) (node : List UInt8) :
    Stream e z b (s.log node) done (cur ++ [node]) :=
  ⟨h.flushed, h.mtdofs, by simp [Jffs2.log, h.nodes, List.append_assoc], h.fits⟩

/-- The block of `cur` is flushed. -/
theorem Stream.flush {s s' : Jffs2} {done : List (List (List UInt8))} {cur : List (List UInt8)}
    (h : Stream e z b s done cur) (hle : (used e cur).length ≤ z.size)
    (hnodes : s'.nodes = s.nodes) (hmtdofs : s'.mtdofs = s.mtdofs + z.size)
    (hflushed : s'.flushed = s.flushed ++ [(s.mtdofs, blockBytes e z.size cur)]) :
    Stream e z b s' (done ++ [cur]) [] := by
  refine ⟨?_, ?_, ?_, ?_⟩
  · rw [hflushed, h.flushed, h.mtdofs, blocksAt_append, List.append_assoc]
  · rw [hmtdofs, h.mtdofs, List.length_append, List.length_singleton, Nat.add_mul, Nat.one_mul]
    omega
  · rw [hnodes, h.nodes]
    simp
  · intro nodes hmem
    rcases List.mem_append.mp hmem with hmem | hmem
    · exact h.fits nodes hmem
    · rw [List.mem_singleton.mp hmem]
      exact hle

theorem Open.ofs_pos {s : Jffs2} {done : List (List (List UInt8))} {cur : List (List UInt8)}
    (h : Open e z b s done cur) : 0 < s.ofs := by
  have hlen := le_used_length e cur
  rw [h.content.ofs]
  omega

/-! ## The operations between two nodes -/

/-- `prep_eraseblock` writes the marker into an empty block. -/
theorem prepEraseblock_fresh {s : Jffs2} {done : List (List (List UInt8))}
    (h : Fresh e z b s done) :
    ∃ s', prepEraseblock e z.size s = some s' ∧ Open e z b s' done [] ∧ Kept s s' := by
  have hmin := z.min
  have hlen := CLEANMARKER_length e
  have hofs : s.ofs = 0 := h.content.ofs
  have hfit : ([] : List UInt8).length + (CLEANMARKER e).length ≤ z.size := by
    rw [hlen, List.length_nil]
    omega
  obtain ⟨s', hput, hcontent, hkept⟩ := h.content.putData hfit
  rw [List.nil_append, ← used_nil e] at hcontent
  refine ⟨s', ?_, ⟨hcontent, ?_, h.stream.of_kept hkept⟩, hkept⟩
  · rw [prepEraseblock, if_neg (by omega), if_neg (by rw [hofs, hlen]; omega)]
    exact hput
  · rw [used_nil, hlen]
    omega

/-- It does nothing in a block that is begun. -/
theorem prepEraseblock_open {s : Jffs2} {done : List (List (List UInt8))}
    {cur : List (List UInt8)} (h : Open e z b s done cur) :
    prepEraseblock e z.size s = some s := by
  rw [prepEraseblock, if_pos h.ofs_pos]

/-- `pad(erasesize)` flushes a block that is begun. -/
theorem pad_erasesize_open {s : Jffs2} {done : List (List (List UInt8))}
    {cur : List (List UInt8)} (h : Open e z b s done cur) :
    ∃ s', pad z.size z.size s = some s' ∧ Fresh e z b s' (done ++ [cur]) ∧ ids s' = ids s ∧
      s'.nodes = s.nodes := by
  have hmin := z.min
  have hroom := h.room
  have hlen := le_used_length e cur
  have hmod : (used e cur).length % z.size = (used e cur).length := Nat.mod_eq_of_lt hroom
  have hspec := @pad_spec z.size z.size (z.size - (used e cur).length) s _ h.content (by omega)
    (fun _ => by rw [hmod, if_neg (by omega)]) (fun _ => by omega) (by omega)
  rcases hspec with ⟨hlt, _⟩ | ⟨_, s', hpad, hcontent, hids, hnodes, hmtdofs, hflushed⟩
  · omega
  · exact ⟨s', hpad,
      ⟨hcontent, h.stream.flush (Nat.le_of_lt hroom) hnodes hmtdofs hflushed⟩, hids, hnodes⟩

/-- It does nothing to an empty one. -/
theorem pad_erasesize_fresh {s : Jffs2} {done : List (List (List UInt8))}
    (h : Fresh e z b s done) : pad z.size z.size s = some s := by
  have hmin := z.min
  have hofs : s.ofs = 0 := h.content.ofs
  rw [pad, if_pos ⟨by rw [hofs, Nat.zero_mod], by omega⟩]

/-- `pad(4)` behind a node that was put into the block: the node counts as
written, and a block that is full is flushed. -/
theorem pad_four {s : Jffs2} {done : List (List (List UInt8))} {cur : List (List UInt8)}
    {node : List UInt8} (hc : Content z.size s (used e cur ++ node))
    (hs : Stream e z b s done (cur ++ [node])) :
    ∃ s', pad z.size 4 s = some s' ∧ ids s' = ids s ∧ s'.nodes = s.nodes ∧
      (Open e z b s' done (cur ++ [node]) ∨
        ((used e (cur ++ [node])).length = z.size ∧ Fresh e z b s' (done ++ [cur ++ [node]]))) := by
  have hmin := z.min
  have haligned := z.aligned
  have hmod := used_length_mod e cur
  have hle := hc.le
  have hpadlen : (used e (cur ++ [node])).length = (used e cur).length + padTo4 node.length := by
    rw [used_append, List.length_append, padNode_length]
  have hnode := le_padTo4 node.length
  have hbytes : (used e cur ++ node) ++ List.replicate (padTo4 node.length - node.length) 0xff
      = used e (cur ++ [node]) := by
    rw [used_append, padNode, List.append_assoc]
  have hlen : (used e cur ++ node).length = (used e cur).length + node.length :=
    List.length_append
  have hspec := @pad_spec z.size 4 (padTo4 node.length - node.length) s _ hc (by omega)
    (fun _ => by
      rw [hlen]
      simp only [padTo4]
      split <;> omega)
    (fun hfull => by
      rw [hlen] at hfull
      simp only [padTo4]
      omega)
    (by
      rw [hlen] at hle ⊢
      simp only [padTo4]
      omega)
  rw [hbytes] at hspec
  rcases hspec with ⟨hlt, s', hpad, hcontent, hkept⟩ |
    ⟨heq, s', hpad, hcontent, hids, hnodes, hmtdofs, hflushed⟩
  · refine ⟨s', hpad, hkept.ids, hkept.nodes, Or.inl ⟨hcontent, ?_, hs.of_kept hkept⟩⟩
    rw [hpadlen]
    omega
  · have hfull : (used e (cur ++ [node])).length = z.size := by
      rw [hpadlen]
      omega
    refine ⟨s', hpad, hids, hnodes, Or.inr ⟨hfull, hcontent, ?_⟩⟩
    refine hs.flush (Nat.le_of_eq hfull) hnodes hmtdofs ?_
    rw [hflushed, blockBytes, hfull, Nat.sub_self, List.replicate_zero, List.append_nil]

/-! ## Nodes -/

@[simp] theorem Dirent.bytes_length (e : ByteOrder) (de : Dirent) :
    (de.bytes e).length = DIRENT_SIZE := by
  simp [Dirent.bytes, DIRENT_SIZE]

@[simp] theorem Inode.bytes_length (e : ByteOrder) (ri : Inode) :
    (ri.bytes e).length = INODE_SIZE := by
  simp [Inode.bytes, INODE_SIZE]

/-- The dirent node that `add_dirent` writes in the state `s`. -/
def direntNode (e : ByteOrder) (name : CStr) (type : UInt8) (parent : UInt32) (s : Jffs2) :
    List UInt8 :=
  (fillDirent e name type parent (s.lastIno + 1) s.lastVersion).bytes e ++ name.chars

theorem direntNode_length (e : ByteOrder) (name : CStr) (type : UInt8) (parent : UInt32)
    (s : Jffs2) : (direntNode e name type parent s).length = DIRENT_SIZE + name.strlen := by
  simp [direntNode, CStr.strlen]

/-- `add_dirent` in a block with room for the node. -/
theorem addDirent_open {s : Jffs2} {done : List (List (List UInt8))} {cur : List (List UInt8)}
    (h : Open e z b s done cur) {name : CStr} (hname : name.strlen ≤ 255) (type : UInt8)
    (parent : UInt32) (hroom : (used e cur).length + (DIRENT_SIZE + name.strlen) + 4 ≤ z.size) :
    ∃ s', addDirent e z.size name type parent s = some (s.lastIno + 1, s') ∧
      Open e z b s' done (cur ++ [direntNode e name type parent s]) ∧
      ids s' = (s.lastIno + 2, s.lastVersion + 1, s.targetIno) ∧
      s'.nodes = s.nodes ++ [direntNode e name type parent s] := by
  have hofs := h.content.ofs
  have hlen := direntNode_length e name type parent s
  have hfit : (used e cur).length + (direntNode e name type parent s).length ≤ z.size := by
    rw [hlen]
    omega
  obtain ⟨s₁, hpoke, hofs₁, htop₁, hkept, hbuf, hsize⟩ := h.content.poke hfit
  -- the state in which `pad(4)` is called
  generalize hs₂ : (({ s₁ with lastIno := s.lastIno + 1 + 1, lastVersion := s₁.lastVersion + 1 } :
    Jffs2).setOfs (s₁.ofs + (DIRENT_SIZE + name.strlen))).log (direntNode e name type parent s)
    = s₂
  have hcontent : Content z.size s₂ (used e cur ++ direntNode e name type parent s) := by
    have htop := h.content.top
    subst hs₂
    refine ⟨hbuf, hsize, ?_, ?_⟩
    · simp only [Jffs2.setOfs, Jffs2.log, hofs₁, hofs, List.length_append, hlen]
    · simp only [Jffs2.setOfs, Jffs2.log, hofs₁, hofs, htop₁]
      omega
  have hstream : Stream e z b s₂ done (cur ++ [direntNode e name type parent s]) := by
    subst hs₂
    have hlog := (h.stream.of_kept hkept).log (direntNode e name type parent s)
    exact ⟨hlog.flushed, hlog.mtdofs, hlog.nodes, hlog.fits⟩
  have hids : ids s₂ = (s.lastIno + 2, s.lastVersion + 1, s.targetIno) := by
    have hk := hkept.ids
    simp only [ids, Prod.mk.injEq] at hk
    subst hs₂
    simp only [ids, Jffs2.setOfs, Jffs2.log, hk, UInt32.add_assoc]
    rfl
  have hnodes : s₂.nodes = s.nodes ++ [direntNode e name type parent s] := by
    subst hs₂
    simp only [Jffs2.setOfs, Jffs2.log, hkept.nodes]
  obtain ⟨s', hpad, hids', hnodes', hcase⟩ := pad_four hcontent hstream
  have hopen : Open e z b s' done (cur ++ [direntNode e name type parent s]) := by
    rcases hcase with hopen | ⟨hfull, _⟩
    · exact hopen
    · rw [used_append, List.length_append, padNode_length, hlen] at hfull
      simp only [padTo4] at hfull
      omega
  refine ⟨s', ?_, hopen, hids'.trans hids, hnodes'.trans hnodes⟩
  have hspace : ¬ (z.size ≤ s.ofs ∧ s.ofs - z.size < DIRENT_SIZE + name.strlen) := by
    have hlt := h.room
    omega
  have hnsize : (fillDirent e name type parent (s.lastIno + 1) s.lastVersion).nsize.toNat
      = name.strlen := by
    simp only [fillDirent]
    exact Nat.mod_eq_of_lt (by omega)
  unfold addDirent
  simp only [Option.bind_eq_bind]
  rw [if_neg hspace, Option.bind_some, prepEraseblock_open h, Option.bind_some]
  simp only [direntNode] at hpoke hs₂
  rw [hpoke, Option.bind_some, hnsize, hs₂, hpad]
  rfl

/-- `add_dirent` starts an empty block with the marker. -/
theorem addDirent_fresh {s : Jffs2} {done : List (List (List UInt8))} (h : Fresh e z b s done) :
    ∃ s', Open e z b s' done [] ∧ Kept s s' ∧
      ∀ name type parent, addDirent e z.size name type parent s
        = addDirent e z.size name type parent s' := by
  have hmin := z.min
  obtain ⟨s', hprep, hopen, hkept⟩ := prepEraseblock_fresh h
  refine ⟨s', hopen, hkept, fun name type parent => ?_⟩
  have hofs : s.ofs = 0 := h.content.ofs
  have hofs' := hopen.content.ofs
  have hroom := hopen.room
  unfold addDirent
  simp only [Option.bind_eq_bind]
  rw [if_neg (by omega), if_neg (by omega), Option.bind_some, Option.bind_some, hprep,
    prepEraseblock_open hopen]

/-- `add_data` of bytes that fit. -/
theorem addData_fit {s : Jffs2} {bs : List UInt8} (h : s.ofs + bs.length ≤ z.size) :
    addData e z.size bs s = putData bs s := by
  unfold addData
  simp only [Option.bind_eq_bind]
  rw [if_neg (by omega), Option.bind_some]

/-- `add_dir` in a block with room for both of its nodes. -/
theorem addDir_open {s : Jffs2} {done : List (List (List UInt8))} {cur : List (List UInt8)}
    (h : Open e z b s done cur) {name : CStr} (hname : name.strlen ≤ 255) (parent : UInt32)
    (hroom : (used e cur).length + (DIRENT_SIZE + name.strlen) + INODE_SIZE + 8 ≤ z.size) :
    ∃ s' nodes, addDir e z.size name parent s = some (s.lastIno + 1, s') ∧
      nodes = [direntNode e name DT_DIR parent s, (dirInode e (s.lastIno + 1)).bytes e] ∧
      Open e z b s' done (cur ++ nodes) ∧ s'.lastVersion = s.lastVersion + 1 ∧
      (used e (cur ++ nodes)).length
        ≤ (used e cur).length + (DIRENT_SIZE + name.strlen) + INODE_SIZE + 3 := by
  obtain ⟨s₁, hdirent, hopen₁, hids₁, _⟩ :=
    addDirent_open h hname DT_DIR parent (by omega)
  generalize hnode : direntNode e name DT_DIR parent s = node at hopen₁
  have hlen : node.length = DIRENT_SIZE + name.strlen := by
    rw [← hnode, direntNode_length]
  have hused : (used e (cur ++ [node])).length
      ≤ (used e cur).length + (DIRENT_SIZE + name.strlen) + 3 := by
    rw [used_append, List.length_append, padNode_length, hlen]
    simp only [padTo4]
    omega
  have hofs₁ := hopen₁.content.ofs
  generalize hri : dirInode e (s.lastIno + 1) = ri
  have hrilen := Inode.bytes_length e ri
  obtain ⟨s₂, hput, hcontent₂, hkept₂⟩ :=
    hopen₁.content.putData (show _ + (ri.bytes e).length ≤ z.size by rw [hrilen]; omega)
  have hcontent₃ : Content z.size (s₂.log (ri.bytes e))
      (used e (cur ++ [node]) ++ ri.bytes e) :=
    ⟨hcontent₂.buf, hcontent₂.size, hcontent₂.ofs, hcontent₂.top⟩
  obtain ⟨s₄, hpad, hids₄, _, hcase⟩ :=
    pad_four hcontent₃ ((hopen₁.stream.of_kept hkept₂).log (ri.bytes e))
  have hused₂ : (used e (cur ++ [node] ++ [ri.bytes e])).length
      = (used e (cur ++ [node])).length + INODE_SIZE := by
    rw [used_append, List.length_append, padNode_length, hrilen]
    rfl
  refine ⟨s₄, [node, ri.bytes e], ?_, rfl, ?_, ?_, ?_⟩
  · have hrbytes : ¬ rbytes z.size s₁ < INODE_SIZE := by
      have hmod : s₁.ofs % z.size = s₁.ofs := Nat.mod_eq_of_lt (hofs₁ ▸ hopen₁.room)
      rw [rbytes, hmod, hofs₁]
      omega
    unfold addDir
    simp only [Option.bind_eq_bind]
    rw [hdirent, Option.bind_some, if_neg hrbytes, Option.bind_some, prepEraseblock_open hopen₁,
      Option.bind_some]
    simp only [hri]
    rw [addData_fit (by rw [hofs₁, hrilen]; omega), hput, Option.bind_some, hpad]
    rfl
  · rcases hcase with hopen | ⟨hfull, _⟩
    · simpa using hopen
    · omega
  · exact congrArg (fun i => i.2.1) (hids₄.trans (hkept₂.ids.trans hids₁))
  · have happ : cur ++ [node, ri.bytes e] = cur ++ [node] ++ [ri.bytes e] := by simp
    rw [happ, hused₂]
    omega

/-! ## The loop of `add_file` -/

/-- The nodes of a file that is read in these chunks: the inode is filled
in over the one before it. -/
def inodeNodes (e : ByteOrder) : Inode → Nat → UInt32 → List (List UInt8) → List (List UInt8)
  | _, _, _, [] => []
  | ri, offset, version, data :: rest =>
      let ri := fillInode e ri data offset (version + 1)
      (ri.bytes e ++ data) :: inodeNodes e ri (offset + data.length) (version + 1) rest

theorem rbytes_open {s : Jffs2} {done : List (List (List UInt8))} {cur : List (List UInt8)}
    (h : Open e z b s done cur) : rbytes z.size s = z.size - (used e cur).length := by
  have hofs := h.content.ofs
  rw [rbytes, Nat.mod_eq_of_lt (hofs ▸ h.room), hofs]

variable (fa : FileAccess) (f : SrcFile)

/-- A pass with room for a node: the file is at its end, or a node with
the bytes read is written. -/
theorem fileBody_read {l : FileLoop} {done : List (List (List UInt8))} {cur : List (List UInt8)}
    (h : Open e z b l.st done cur) (hroom : rbytes z.size l.st > INODE_SIZE + 128) :
    ∃ data, data = fa.read f l.reads l.offset (min (rbytes z.size l.st - INODE_SIZE) 4096) ∧
    ((data = [] ∧ fileBody e z.size fa f l = .stop l.st) ∨
    (data ≠ [] ∧ ∃ s' done' cur', Open e z b s' done' cur' ∧
      fileBody e z.size fa f l = .next {
        st := s', ri := fillInode e l.ri data l.offset (l.st.lastVersion + 1),
        offset := l.offset + data.length, reads := l.reads + 1 } ∧
      s'.nodes = l.st.nodes ++
        [(fillInode e l.ri data l.offset (l.st.lastVersion + 1)).bytes e ++ data] ∧
      ids s' = (l.st.lastIno, l.st.lastVersion + 1, l.st.targetIno))) := by
  refine ⟨_, rfl, ?_⟩
  generalize hdata :
    fa.read f l.reads l.offset (min (rbytes z.size l.st - INODE_SIZE) 4096) = data
  cases data with
  | nil =>
      refine Or.inl ⟨rfl, ?_⟩
      simp only [fileBody, if_pos hroom, hdata]
  | cons c cs =>
      refine Or.inr ⟨List.cons_ne_nil c cs, ?_⟩
      have hofs := h.content.ofs
      have hrb := rbytes_open h
      have hlen : (c :: cs).length ≤ z.size - (used e cur).length - INODE_SIZE := by
        rw [← hdata, FileAccess.read]
        split
        · simp
        · rw [List.length_take, hrb]
          omega
      have hrb' : z.size - (used e cur).length > INODE_SIZE + 128 := hrb ▸ hroom
      generalize hri : fillInode e l.ri (c :: cs) l.offset (l.st.lastVersion + 1) = ri
      have hrilen := Inode.bytes_length e ri
      -- the version counter moves first
      have hc₀ : Content z.size { l.st with lastVersion := l.st.lastVersion + 1 } (used e cur) :=
        ⟨h.content.buf, h.content.size, h.content.ofs, h.content.top⟩
      have hs₀ : Stream e z b { l.st with lastVersion := l.st.lastVersion + 1 } done cur :=
        ⟨h.stream.flushed, h.stream.mtdofs, h.stream.nodes, h.stream.fits⟩
      obtain ⟨s₁, hput₁, hc₁, hk₁⟩ :=
        hc₀.putData (show _ + (ri.bytes e).length ≤ z.size by rw [hrilen]; omega)
      obtain ⟨s₂, hput₂, hc₂, hk₂⟩ := hc₁.putData
        (show _ + (c :: cs).length ≤ z.size by rw [List.length_append, hrilen]; omega)
      rw [List.append_assoc] at hc₂
      have hc₃ : Content z.size (s₂.log (ri.bytes e ++ (c :: cs)))
          (used e cur ++ (ri.bytes e ++ (c :: cs))) :=
        ⟨hc₂.buf, hc₂.size, hc₂.ofs, hc₂.top⟩
      obtain ⟨s₄, hpad, hids₄, hnodes₄, hcase⟩ :=
        pad_four hc₃ (((hs₀.of_kept hk₁).of_kept hk₂).log _)
      have hnodes : s₄.nodes = l.st.nodes ++ [ri.bytes e ++ (c :: cs)] := by
        rw [hnodes₄, Jffs2.log, hk₂.nodes, hk₁.nodes]
      have hids : ids s₄ = (l.st.lastIno, l.st.lastVersion + 1, l.st.targetIno) := by
        rw [hids₄]
        exact hk₂.ids.trans hk₁.ids
      obtain ⟨s₅, done', cur', hprep, hopen, hk₅⟩ :
          ∃ s₅ done' cur', prepEraseblock e z.size s₄ = some s₅ ∧ Open e z b s₅ done' cur' ∧
            Kept s₄ s₅ := by
        rcases hcase with hopen | ⟨_, hfresh⟩
        · exact ⟨s₄, _, _, prepEraseblock_open hopen, hopen, Kept.refl s₄⟩
        · obtain ⟨s₅, hprep, hopen, hk₅⟩ := prepEraseblock_fresh hfresh
          exact ⟨s₅, _, _, hprep, hopen, hk₅⟩
      refine ⟨s₅, done', cur', hopen, ?_, hk₅.nodes.trans hnodes, hk₅.ids.trans hids⟩
      have hadd₁ : addData e z.size (ri.bytes e)
          { l.st with lastVersion := l.st.lastVersion + 1 } = some s₁ := by
        rw [addData_fit (by rw [hrilen]; show l.st.ofs + _ ≤ _; rw [hofs]; omega), hput₁]
      have hadd₂ : addData e z.size (c :: cs) s₁ = some s₂ := by
        rw [addData_fit (by rw [hc₁.ofs, List.length_append, hrilen]; omega), hput₂]
      simp only [fileBody, if_pos hroom, hdata, hri, hadd₁, hadd₂, hpad, hprep,
        Option.bind_eq_bind, Option.bind_some]

/-- A pass that makes room flushes the block and starts the next. -/
theorem fileBody_makeRoom {l : FileLoop} {done : List (List (List UInt8))}
    {cur : List (List UInt8)} (h : Open e z b l.st done cur)
    (hroom : ¬ rbytes z.size l.st > INODE_SIZE + 128) :
    ∃ s', fileBody e z.size fa f l = .next { l with st := s' } ∧
      Open e z b s' (done ++ [cur]) [] ∧ s'.nodes = l.st.nodes ∧ ids s' = ids l.st := by
  obtain ⟨s₁, hpad, hfresh, hids₁, hnodes₁⟩ := pad_erasesize_open h
  obtain ⟨s₂, hprep, hopen, hk₂⟩ := prepEraseblock_fresh hfresh
  refine ⟨s₂, ?_, hopen, hk₂.nodes.trans hnodes₁, hk₂.ids.trans hids₁⟩
  simp only [fileBody, if_neg hroom, hpad, Option.bind_some, hprep]

/-- What the loop makes of the rest of the file. -/
structure FileDone (l : FileLoop) (s : Jffs2) : Prop where
  writes : ∃ chunks : List (List UInt8), (∀ c ∈ chunks, c ≠ []) ∧
    s.nodes = l.st.nodes ++ inodeNodes e l.ri l.offset l.st.lastVersion chunks ∧
    chunks.flatten <+: f.content.drop l.offset ∧
    ((∀ i, fa.fails i = false) → chunks.flatten = f.content.drop l.offset)
  open_ : ∃ done cur, Open e z b s done cur
  lastIno : s.lastIno = l.st.lastIno
  targetIno : s.targetIno = l.st.targetIno

variable {fa f}

/-- The loop ends, within two passes for each byte left. The induction is
on the number of bytes that are left. -/
theorem run_fileBody (k : Nat) : ∀ (l : FileLoop) (n : Nat),
    f.content.length - l.offset ≤ k → 2 * k + 2 ≤ n →
    (∃ done cur, Open e z b l.st done cur) →
    ∃ s, run (fileBody e z.size fa f) n l = .done s ∧ FileDone (e := e) (z := z) (b := b) fa f l s := by
  induction k using Nat.strong_induction_on with
  | _ k ih =>
      -- a pass that has room either ends or reads at least one byte
      have hread : ∀ (l : FileLoop) (n : Nat), f.content.length - l.offset ≤ k →
          2 * k + 1 ≤ n → (∃ done cur, Open e z b l.st done cur) →
          rbytes z.size l.st > INODE_SIZE + 128 →
          ∃ s, run (fileBody e z.size fa f) n l = .done s ∧
            FileDone (e := e) (z := z) (b := b) fa f l s := by
        rintro l n hk hn ⟨done, cur, hopen⟩ hroom
        obtain ⟨n, rfl⟩ : ∃ m, n = m + 1 := ⟨n - 1, by omega⟩
        obtain ⟨data, hdata, hcase⟩ := fileBody_read fa f hopen hroom
        rcases hcase with ⟨hnil, hstop⟩ | ⟨hne, s', done', cur', hopen', hnext, hnodes, hids⟩
        · refine ⟨l.st, run_stop hstop, ⟨[], by simp, by simp [inodeNodes], ?_, ?_⟩,
            ⟨done, cur, hopen⟩, rfl, rfl⟩
          · exact List.nil_prefix
          · intro hfails
            rw [hnil, FileAccess.read, hfails, if_neg (by simp)] at hdata
            have hzero : min (rbytes z.size l.st - INODE_SIZE) 4096 ≠ 0 := by
              simp only [INODE_SIZE] at hroom ⊢
              omega
            have hlen := congrArg List.length hdata
            rw [List.length_nil, List.length_take] at hlen
            refine (List.eq_nil_of_length_eq_zero ?_).symm
            omega
        · have hpos : 0 < data.length := List.length_pos_iff.mpr hne
          obtain ⟨rest, hrest⟩ : data <+: f.content.drop l.offset := by
            rw [hdata, FileAccess.read]
            split
            · exact List.nil_prefix
            · exact List.take_prefix _ _
          have hdrop : f.content.drop (l.offset + data.length) = rest := by
            rw [← List.drop_drop, ← hrest, List.drop_left]
          have hleft : data.length ≤ f.content.length - l.offset := by
            have hlen := congrArg List.length hrest
            rw [List.length_append, List.length_drop] at hlen
            omega
          obtain ⟨s, hrun, hdone⟩ := ih (k - 1) (by omega)
            { st := s', ri := fillInode e l.ri data l.offset (l.st.lastVersion + 1),
              offset := l.offset + data.length, reads := l.reads + 1 } n
            (by simp only; omega) (by omega) ⟨done', cur', hopen'⟩
          obtain ⟨chunks, hchunks, hwrites, hprefix, hall⟩ := hdone.writes
          simp only [ids, Prod.mk.injEq] at hids
          refine ⟨s, (run_next hnext).trans hrun, ⟨data :: chunks, ?_, ?_, ?_, ?_⟩,
            hdone.open_, hdone.lastIno.trans hids.1, hdone.targetIno.trans hids.2.2⟩
          · exact List.forall_mem_cons.mpr ⟨hne, hchunks⟩
          · simp only [inodeNodes]
            rw [hwrites, hids.2.1, hnodes]
            simp
          · simp only at hprefix
            rw [List.flatten_cons, ← hrest, List.prefix_append_right_inj, ← hdrop]
            exact hprefix
          · intro hfails
            rw [List.flatten_cons, hall hfails, hdrop, hrest]
      rintro l n hk hn ⟨done, cur, hopen⟩
      by_cases hroom : rbytes z.size l.st > INODE_SIZE + 128
      · exact hread l n hk (by omega) ⟨done, cur, hopen⟩ hroom
      · obtain ⟨n, rfl⟩ : ∃ m, n = m + 1 := ⟨n - 1, by omega⟩
        obtain ⟨s', hnext, hopen', hnodes, hids⟩ := fileBody_makeRoom fa f hopen hroom
        have hroom' : rbytes z.size s' > INODE_SIZE + 128 := by
          have hmin := z.min
          rw [rbytes_open hopen', used_nil, CLEANMARKER_length]
          simp only [INODE_SIZE]
          omega
        obtain ⟨s, hrun, hdone⟩ :=
          hread { l with st := s' } n hk (by omega) ⟨_, _, hopen'⟩ hroom'
        obtain ⟨chunks, hchunks, hwrites, hprefix, hall⟩ := hdone.writes
        simp only [ids, Prod.mk.injEq] at hids
        refine ⟨s, (run_next hnext).trans hrun, ⟨chunks, hchunks, ?_, hprefix, hall⟩,
          hdone.open_, hdone.lastIno.trans hids.1, hdone.targetIno.trans hids.2.2⟩
        rw [hwrites, hids.2.1, hnodes]

/-! ## The entry points -/

/-- `add_file` of an existing file, in a block with room for the dirent:
the dirent, and then the nodes of the bytes read. -/
theorem addFile_open {s : Jffs2} {done : List (List (List UInt8))} {cur : List (List UInt8)}
    (h : Open e z b s done cur) {name : CStr} (hname : (baseName name).strlen ≤ 255)
    (parent : UInt32)
    (hroom : (used e cur).length + (DIRENT_SIZE + (baseName name).strlen) + 4 ≤ z.size)
    (hfile : fa.file = some f) :
    ∃ s' chunks, addFile e z.size fa name parent s = some s' ∧
      (∃ done' cur', Open e z b s' done' cur') ∧
      (∀ c ∈ chunks, c ≠ []) ∧
      s'.nodes = s.nodes ++ direntNode e (baseName name) DT_REG parent s ::
        inodeNodes e (fileInode f (s.lastIno + 1)) 0 (s.lastVersion + 1) chunks ∧
      (fa.opens = true → (∀ i, fa.fails i = false) → chunks.flatten = f.content) := by
  obtain ⟨s₁, hdirent, hopen₁, hids₁, hnodes₁⟩ := addDirent_open h hname DT_REG parent hroom
  simp only [ids, Prod.mk.injEq] at hids₁
  by_cases hopens : fa.opens = true
  · obtain ⟨s₂, hrun, hdone⟩ := @run_fileBody e z b fa f f.content.length
      { st := s₁, ri := fileInode f (s.lastIno + 1), offset := 0, reads := 0 } (fileFuel f)
      (by simp) (by simp [fileFuel]) ⟨_, _, hopen₁⟩
    obtain ⟨chunks, hchunks, hwrites, _, hall⟩ := hdone.writes
    refine ⟨s₂, chunks, ?_, hdone.open_, hchunks, ?_, fun _ hfails => by simpa using hall hfails⟩
    · simp only [addFile, hfile, hdirent, Option.bind_eq_bind, Option.bind_some, hopens, if_true,
        hrun]
    · rw [hwrites, hnodes₁, hids₁.2.1]
      simp
  · refine ⟨s₁, [], ?_, ⟨_, _, hopen₁⟩, by simp, by simpa [inodeNodes] using hnodes₁,
      fun h => absurd h hopens⟩
    simp only [addFile, hfile, hdirent, Option.bind_eq_bind, Option.bind_some, hopens]
    rfl

/-- The same from an empty block. -/
theorem addFile_fresh {s : Jffs2} {done : List (List (List UInt8))} (h : Fresh e z b s done)
    (hfile : fa.file = some f) :
    ∃ s', Open e z b s' done [] ∧ Kept s s' ∧
      ∀ name parent, addFile e z.size fa name parent s = addFile e z.size fa name parent s' := by
  obtain ⟨s', hopen, hkept, hsame⟩ := addDirent_fresh h
  exact ⟨s', hopen, hkept, fun name parent => by simp only [addFile, hfile, hsame]⟩

/-- The block that ends the file system. -/
def eofBlock (erasesize : Nat) : List UInt8 :=
  JFFS2_EOF ++ List.replicate (erasesize - 4) 0xff

/-- What the entry points leave behind: blocks of whole nodes, and the end
marker in a block of its own. -/
structure Finished (e : ByteOrder) (z : EraseSize) (b s : Jffs2)
    (done : List (List (List UInt8))) : Prop where
  top : s.top ≤ z.size
  flushed : s.flushed = b.flushed ++ (blocksAt e z.size b.mtdofs done ++
    [(b.mtdofs + done.length * z.size, eofBlock z.size)])
  nodes : s.nodes = b.nodes ++ done.flatten
  fits : ∀ nodes ∈ done, (used e nodes).length ≤ z.size

theorem finish_fresh {s : Jffs2} {done : List (List (List UInt8))} (h : Fresh e z b s done) :
    ∃ s', finish e z.size s = some s' ∧ Finished e z b s' done := by
  have hmin := z.min
  have heof : JFFS2_EOF.length = 4 := rfl
  have hofs : s.ofs = 0 := h.content.ofs
  obtain ⟨s₁, hput, hc₁, hk₁⟩ :=
    h.content.putData (show _ + JFFS2_EOF.length ≤ z.size by rw [heof, List.length_nil]; omega)
  rw [List.nil_append] at hc₁
  have hmod : JFFS2_EOF.length % z.size = 4 := by
    rw [heof, Nat.mod_eq_of_lt (by omega)]
  have hspec := @pad_spec z.size z.size (z.size - 4) s₁ _ hc₁ (by omega)
    (fun _ => by rw [hmod, if_neg (by omega)]) (fun hfull => by omega) (by omega)
  rcases hspec with ⟨hlt, _⟩ | ⟨_, s₂, hpad, hc₂, _, hnodes, _, hflushed⟩
  · omega
  · refine ⟨s₂, ?_, hc₂.top, ?_, ?_, h.stream.fits⟩
    · simp only [finish, pad_erasesize_fresh h, Option.bind_eq_bind, Option.bind_some]
      rw [addData_fit (by rw [hofs, heof]; omega), hput, Option.bind_some, hpad]
    · rw [hflushed, hk₁.flushed, hk₁.mtdofs, h.stream.flushed, h.stream.mtdofs,
        List.append_assoc]
      rfl
    · rw [hnodes, hk₁.nodes, h.stream.nodes, List.append_nil]

theorem finish_open {s : Jffs2} {done : List (List (List UInt8))} {cur : List (List UInt8)}
    (h : Open e z b s done cur) :
    ∃ s', finish e z.size s = some s' ∧ Finished e z b s' (done ++ [cur]) := by
  obtain ⟨s₁, hpad, hfresh, _, _⟩ := pad_erasesize_open h
  obtain ⟨s₂, hfinish, hfinished⟩ := finish_fresh hfresh
  refine ⟨s₂, ?_, hfinished⟩
  -- the second flush of an empty block does nothing
  unfold finish at hfinish ⊢
  rw [pad_erasesize_fresh hfresh] at hfinish
  rw [hpad]
  exact hfinish

/-- Adding a file near the start of a block and finishing. -/
theorem addFile_finish {s : Jffs2} (name : CStr) (hname : (baseName name).strlen ≤ 255)
    (parent : UInt32)
    (h : (∃ done, Fresh e z b s done) ∨
      ∃ done cur, Open e z b s done cur ∧ (used e cur).length ≤ 512) :
    ∃ s' done, (addFile e z.size fa name parent s).bind (finish e z.size) = some s' ∧
      Finished e z b s' done := by
  have hmin := z.min
  cases hfile : fa.file with
  | none =>
      have hsame : addFile e z.size fa name parent s = some s := by simp only [addFile, hfile]
      rw [hsame, Option.bind_some]
      rcases h with ⟨done, hfresh⟩ | ⟨done, cur, hopen, _⟩
      · obtain ⟨s', hfinish, hfinished⟩ := finish_fresh hfresh
        exact ⟨s', done, hfinish, hfinished⟩
      · obtain ⟨s', hfinish, hfinished⟩ := finish_open hopen
        exact ⟨s', _, hfinish, hfinished⟩
  | some f =>
      obtain ⟨s₀, done, cur, hopen, hsmall, hsame⟩ : ∃ s₀ done cur, Open e z b s₀ done cur ∧
          (used e cur).length ≤ 512 ∧
          addFile e z.size fa name parent s = addFile e z.size fa name parent s₀ := by
        rcases h with ⟨done, hfresh⟩ | ⟨done, cur, hopen, hsmall⟩
        · obtain ⟨s₀, hopen, _, hsame⟩ := addFile_fresh hfresh hfile
          exact ⟨s₀, done, [], hopen, by rw [used_nil, CLEANMARKER_length]; omega, hsame _ _⟩
        · exact ⟨s, done, cur, hopen, hsmall, rfl⟩
      obtain ⟨s₁, _, hadd, ⟨done', cur', hopen₁⟩, _, _, _⟩ :=
        addFile_open hopen hname parent (by simp only [DIRENT_SIZE]; omega) hfile
      obtain ⟨s', hfinish, hfinished⟩ := finish_open hopen₁
      exact ⟨s', _, by rw [hsame, hadd, Option.bind_some, hfinish], hfinished⟩

end Stream

/-! ## Placement -/

/-- A flushed block with its nodes: it starts with a cleanmarker, each node
lies in it as a whole at a multiple of 4, and behind the last node there is
only 0xff, from which no node header can be read. -/
structure BlockOk (e : ByteOrder) (z : EraseSize) (nodes : List (List UInt8))
    (block : List UInt8) : Prop where
  size : block.length = z.size
  marker : block.take 12 = CLEANMARKER e
  node : ∀ n ∈ nodes, ∃ off, off % 4 = 0 ∧ 12 ≤ off ∧ off + n.length ≤ (used e nodes).length ∧
    (block.drop off).take n.length = n
  usedSize : (used e nodes).length ≤ z.size
  tail : ∀ c ∈ block.drop (used e nodes).length, c = 0xff
  unparsable : ∀ off, (used e nodes).length ≤ off → u16At e block off ≠ some JFFS2_MAGIC_BITMASK

theorem blockBytes_ok (e : ByteOrder) (z : EraseSize) {nodes : List (List UInt8)}
    (hfits : (used e nodes).length ≤ z.size) : BlockOk e z nodes (blockBytes e z.size nodes) := by
  have hdrop : (blockBytes e z.size nodes).drop (used e nodes).length
      = List.replicate (z.size - (used e nodes).length) 0xff := by
    rw [blockBytes, List.drop_left]
  refine ⟨?_, ?_, ?_, hfits, ?_, ?_⟩
  · rw [blockBytes, List.length_append, List.length_replicate]
    omega
  · rw [blockBytes, used, List.append_assoc, ← CLEANMARKER_length e, List.take_left]
  · intro n hn
    obtain ⟨before, after, rfl⟩ := List.append_of_mem hn
    have hsplit : used e (before ++ n :: after)
        = used e before ++ (n ++ (List.replicate (padTo4 n.length - n.length) 0xff ++
            after.flatMap padNode)) := by
      simp [used, padNode, List.append_assoc]
    refine ⟨(used e before).length, used_length_mod e before, le_used_length e before, ?_, ?_⟩
    · rw [hsplit, List.length_append, List.length_append]
      omega
    · rw [blockBytes, hsplit, List.append_assoc, List.drop_left, List.append_assoc,
        List.take_left]
  · intro c hc
    rw [hdrop] at hc
    exact List.eq_of_mem_replicate hc
  · intro off hoff hmagic
    obtain ⟨bs, hbs, hword⟩ := Option.map_eq_some_iff.mp hmagic
    obtain ⟨hle, rfl⟩ := peek?_eq_some.mp hbs
    -- the two bytes are 0xff each, in either byte order
    have htail : ((blockBytes e z.size nodes).drop off).take 2 = [0xff, 0xff] := by
      obtain ⟨k, rfl⟩ := Nat.exists_eq_add_of_le hoff
      have hlen : (blockBytes e z.size nodes).length = z.size := by
        rw [blockBytes, List.length_append, List.length_replicate]
        omega
      rw [← List.drop_drop, hdrop, List.drop_replicate, List.take_replicate,
        Nat.min_eq_left (by omega)]
      rfl
    rw [htail] at hword
    cases e <;> exact absurd hword (by decide)

/-- The outcome of an entry point that began in the state `b`. -/
structure Placed (e : ByteOrder) (z : EraseSize) (b s : Jffs2) : Prop where
  top : s.top ≤ z.size
  blocks : ∃ done blocks, s.nodes = b.nodes ++ done.flatten ∧
    s.flushed.map Prod.snd = b.flushed.map Prod.snd ++ (blocks ++ [eofBlock z.size]) ∧
    List.Forall₂ (BlockOk e z) done blocks

theorem Finished.placed {e : ByteOrder} {z : EraseSize} {b s : Jffs2}
    {done : List (List (List UInt8))} (h : Finished e z b s done) : Placed e z b s := by
  have hok : ∀ done : List (List (List UInt8)),
      (∀ nodes ∈ done, (used e nodes).length ≤ z.size) →
      List.Forall₂ (BlockOk e z) done (done.map (blockBytes e z.size)) := by
    intro done hfits
    induction done with
    | nil => exact List.Forall₂.nil
    | cons nodes done ih =>
        exact List.Forall₂.cons (blockBytes_ok e z (hfits nodes List.mem_cons_self))
          (ih fun ns hns => hfits ns (List.mem_cons_of_mem _ hns))
  refine ⟨h.top, done, done.map (blockBytes e z.size), h.nodes, ?_, hok done h.fits⟩
  rw [h.flushed, List.map_append, List.map_append, blocksAt_snd]
  rfl

/-- A state with an empty block begins a stream. -/
theorem fresh_start {e : ByteOrder} {z : EraseSize} {s : Jffs2} (hbuf : s.buf.length = z.size)
    (hofs : s.ofs = 0) (htop : s.top = 0) : Fresh e z s s [] :=
  ⟨⟨⟨s.buf, rfl⟩, hbuf, hofs, by omega⟩, by simp [blocksAt], by simp, by simp, by simp⟩

/-- The scan reads the numbers of the file system and writes nothing. -/
theorem parseBody_next {e : ByteOrder} {erasesize : Nat} {m : List UInt8} {dir : CStr}
    {p q : Nat × Jffs2} (h : parseBody e erasesize m dir p = .next q) :
    ∃ ino version target, q.2 =
      { p.2 with lastIno := ino, lastVersion := version, targetIno := target } := by
  obtain ⟨ofs, s⟩ := p
  simp only [parseBody] at h
  split at h
  · split at h
    · cases h
    · split at h
      · cases h
      · split at h
        · cases h
        · rename_i r hstep
          cases h
          simp only [Option.bind_eq_bind, Option.bind_eq_some_iff] at hstep
          obtain ⟨totlen, _, nodetype, _, hrest⟩ := hstep
          split at hrest
          · simp only [Option.bind_eq_some_iff] at hrest
            obtain ⟨pino, _, ino, _, isDir, _, version, _, hq⟩ := hrest
            cases hq
            exact ⟨_, _, _, rfl⟩
          · cases hrest
            exact ⟨_, _, _, rfl⟩
  · cases h

theorem parseBody_stop {e : ByteOrder} {erasesize : Nat} {m : List UInt8} {dir : CStr}
    {p : Nat × Jffs2} {r : Jffs2} (h : parseBody e erasesize m dir p = .stop r) : r = p.2 := by
  obtain ⟨ofs, s⟩ := p
  simp only [parseBody] at h
  split at h
  · split at h
    · cases h
    · split at h
      · cases h
        rfl
      · split at h <;> cases h
  · cases h
    rfl

theorem mtdParseJffs2data_frame {e : ByteOrder} {erasesize n : Nat} {m : List UInt8} {dir : CStr}
    {s s' : Jffs2} (h : mtdParseJffs2data e erasesize n m dir s = .done s') :
    ∃ ino version target, s' =
      { s with lastIno := ino, lastVersion := version, targetIno := target } := by
  obtain ⟨p, hreach, hstop⟩ := (reaches_of_run n _).2 s' h
  rw [parseBody_stop hstop]
  refine @Reaches.invariant _ _ _ (fun p => ∃ ino version target, p.2 =
    { s with lastIno := ino, lastVersion := version, targetIno := target }) _ _ hreach
    ⟨_, _, _, rfl⟩ fun u v _ hu huv => ?_
  obtain ⟨ino, version, target, hu⟩ := hu
  obtain ⟨ino', version', target', hv⟩ := parseBody_next huv
  exact ⟨ino', version', target', by rw [hv, hu]⟩

/-- The state in which a scan ends. -/
def ScanEnd.state : ScanEnd → Jffs2
  | .noRoom s => s
  | .wrongEndian s => s
  | .ready s => s

/-- A scan keeps what was written, and one that ends at free space has that
block in the buffer. -/
theorem scanBlocks_frame {e : ByteOrder} {z : EraseSize} {n : Nat} {dir : CStr}
    {partition : List (List UInt8)} (hsize : ∀ block ∈ partition, block.length = z.size) :
    ∀ {s : Jffs2} {r : ScanEnd}, scanBlocks e z.size n dir partition s = some r →
      r.state.flushed = s.flushed ∧ r.state.nodes = s.nodes ∧ r.state.top = s.top ∧
      (∀ s', r = .ready s' → s'.buf.length = z.size) := by
  induction partition with
  | nil =>
      intro s r h
      cases h
      exact ⟨rfl, rfl, rfl, fun s' hs' => (by cases hs')⟩
  | cons block rest ih =>
      intro s r h
      rw [scanBlocks] at h
      split at h
      · cases h
      · split at h
        · cases h
          exact ⟨rfl, rfl, rfl, fun s' hs' => (by cases hs')⟩
        · split at h
          · cases h
            refine ⟨rfl, rfl, rfl, fun s' hs' => ?_⟩
            cases hs'
            exact hsize block List.mem_cons_self
          · split at h
            · rename_i s₁ hparse
              obtain ⟨ino, version, target, rfl⟩ := mtdParseJffs2data_frame hparse
              have hrest := ih (fun blk hblk => hsize blk (List.mem_cons_of_mem _ hblk)) h
              exact hrest
            · cases h
            · cases h

/-- The statics when `mtd_write_jffs2` begins to write. -/
def appendBase (erasesize : Nat) (s : Jffs2) : Jffs2 :=
  { s with
    mtdofs := s.mtdofs - erasesize
    ofs := 0
    lastIno := if s.lastIno = 0 then 1 else s.lastIno }

/-- Where `mtd_write_jffs2` calls `add_file`: at an empty block, or behind
the two nodes of the directory it made. -/
theorem appendFile_start (e : ByteOrder) (z : EraseSize) (fa : FileAccess) (filename : CStr)
    {dir : CStr} (hdir : dir.strlen ≤ 255) {s : Jffs2} (hbuf : s.buf.length = z.size)
    (htop : s.top = 0) :
    (s.targetIno ≠ 0 ∧ Fresh e z (appendBase z.size s) (appendBase z.size s) [] ∧
      appendFile e z.size fa filename dir s
        = (addFile e z.size fa filename s.targetIno (appendBase z.size s)).bind
            (finish e z.size)) ∨
    (s.targetIno = 0 ∧ ∃ s₀ s₁ nodes, Open e z (appendBase z.size s) s₁ [] nodes ∧
      s₁.lastVersion = s.lastVersion + 1 ∧
      nodes = [direntNode e dir DT_DIR 1 s₀, (dirInode e (s₀.lastIno + 1)).bytes e] ∧
      (used e nodes).length ≤ 512 ∧
      appendFile e z.size fa filename dir s
        = (addFile e z.size fa filename s₁.targetIno s₁).bind (finish e z.size)) := by
  have hmin := z.min
  have hfresh : Fresh e z (appendBase z.size s) (appendBase z.size s) [] :=
    fresh_start hbuf rfl htop
  by_cases htarget : s.targetIno = 0
  · -- the directory comes first
    obtain ⟨s₀, hopen₀, hkept₀, hsame⟩ := addDirent_fresh hfresh
    have hadd : addDir e z.size dir 1 (appendBase z.size s) = addDir e z.size dir 1 s₀ := by
      unfold addDir
      rw [hsame]
    obtain ⟨s₁, nodes, hdirs, hnodes, hopen₁, hversion, hused⟩ := addDir_open hopen₀ hdir 1 (by
      rw [used_nil, CLEANMARKER_length]
      simp only [DIRENT_SIZE, INODE_SIZE]
      omega)
    rw [List.nil_append] at hopen₁ hused
    rw [used_nil, CLEANMARKER_length] at hused
    refine Or.inr ⟨htarget, s₀, { s₁ with targetIno := s₀.lastIno + 1 }, nodes,
      ⟨⟨hopen₁.content.buf, hopen₁.content.size, hopen₁.content.ofs, hopen₁.content.top⟩,
        hopen₁.room, ⟨hopen₁.stream.flushed, hopen₁.stream.mtdofs, hopen₁.stream.nodes,
        hopen₁.stream.fits⟩⟩, ?_, hnodes, ?_, ?_⟩
    · have hversion₀ : s₀.lastVersion = s.lastVersion := congrArg (fun i => i.2.1) hkept₀.ids
      exact hversion.trans (by rw [hversion₀])
    · simp only [DIRENT_SIZE, INODE_SIZE] at hused
      omega
    · unfold appendFile
      simp only [Option.bind_eq_bind]
      rw [if_pos htarget]
      change (addDir e z.size dir 1 (appendBase z.size s)).bind _ = _
      rw [hadd, hdirs, Option.bind_some, Option.pure_def, Option.bind_some]
  · refine Or.inl ⟨htarget, hfresh, ?_⟩
    unfold appendFile
    simp only [Option.bind_eq_bind]
    rw [if_neg htarget, Option.bind_some]
    rfl

theorem appendFile_placed (e : ByteOrder) (z : EraseSize) (fa : FileAccess) {filename dir : CStr}
    (hname : (baseName filename).strlen ≤ 255) (hdir : dir.strlen ≤ 255) {s : Jffs2}
    (hbuf : s.buf.length = z.size) (htop : s.top = 0) :
    ∃ s', appendFile e z.size fa filename dir s = some s' ∧ Placed e z s s' := by
  have hplaced : ∀ {s' : Jffs2} {done : List (List (List UInt8))},
      Finished e z (appendBase z.size s) s' done → Placed e z s s' := by
    intro s' done hfinished
    exact ⟨hfinished.placed.top, hfinished.placed.blocks⟩
  rcases appendFile_start e z fa filename hdir hbuf htop with
    ⟨_, hfresh, heq⟩ | ⟨_, s₀, s₁, nodes, hopen, _, _, hused, heq⟩
  · obtain ⟨s', done, hfile, hfinished⟩ :=
      addFile_finish filename hname s.targetIno (Or.inl ⟨_, hfresh⟩)
    exact ⟨s', heq.trans hfile, hplaced hfinished⟩
  · obtain ⟨s', done, hfile, hfinished⟩ :=
      addFile_finish filename hname s₁.targetIno (Or.inr ⟨_, _, hopen, hused⟩)
    exact ⟨s', heq.trans hfile, hplaced hfinished⟩

/-- Node placement, for both entry points: for every erase size that is a
multiple of 4 and at least 4096, every file (read in pieces of any size,
missing, unreadable) and names of at most 255 bytes, whether the directory
has to be made or not. `mtd_replace_jffs2` starts with the static `ofs` 0;
`mtd_write_jffs2` writes if the scan of the partition ends at free space. -/
theorem jffs2_placement (e : ByteOrder) (z : EraseSize) (fa : FileAccess) (filename dir : CStr)
    (hname : (baseName filename).strlen ≤ 255) (hdir : dir.strlen ≤ 255) :
    (∀ (s : Jffs2) (ofs : Nat) (mem : List UInt8), s.ofs = 0 → s.top = 0 →
      mem.length = z.size →
      ∃ s', mtdReplaceJffs2 e z.size fa ofs filename mem s = some s' ∧ Placed e z s s') ∧
    (∀ (s : Jffs2) (n : Nat) (partition : List (List UInt8)) (r : ScanEnd), s.top = 0 →
      (∀ block ∈ partition, block.length = z.size) →
      scanBlocks e z.size n dir partition
        { s with targetIno := if dir.chars = [] then 1 else s.targetIno } = some r →
      (∃ s', mtdWriteJffs2 e z.size n fa filename dir partition s = some (-1, s') ∧
        s'.flushed = s.flushed) ∨
      (∃ s', mtdWriteJffs2 e z.size n fa filename dir partition s = some (0, s') ∧
        Placed e z s s')) := by
  refine ⟨fun s ofs mem hofs htop hmem => ?_, fun s n partition r htop hsize hscan => ?_⟩
  · have hfresh : Fresh e z _ { s with
        mtdofs := ofs
        buf := mem
        targetIno := 1
        lastIno := if s.lastIno = 0 then 1 else s.lastIno } [] := fresh_start hmem hofs htop
    obtain ⟨s', done, hfile, hfinished⟩ :=
      @addFile_finish e z _ fa _ filename hname 1 (Or.inl ⟨_, hfresh⟩)
    have hplaced := hfinished.placed
    exact ⟨s', hfile, hplaced.top, hplaced.blocks⟩
  · obtain ⟨hflushed, hnodes, htop', hbuf⟩ := scanBlocks_frame hsize hscan
    unfold mtdWriteJffs2
    simp only [Option.bind_eq_bind]
    rw [hscan, Option.bind_some]
    cases r with
    | noRoom s₁ => exact Or.inl ⟨s₁, rfl, hflushed⟩
    | wrongEndian s₁ => exact Or.inl ⟨s₁, rfl, hflushed⟩
    | ready s₁ =>
        obtain ⟨s', happend, hplaced⟩ :=
          appendFile_placed e z fa hname hdir (hbuf s₁ rfl) (htop'.trans htop)
        refine Or.inr ⟨s', ?_, ?_⟩
        · simp only [happend, Option.bind_some]
          rfl
        · obtain ⟨done, blocks, hn, hf, hall⟩ := hplaced.blocks
          refine ⟨hplaced.top, done, blocks, ?_, ?_, hall⟩
          · rw [hn]
            exact congrArg (· ++ done.flatten) hnodes
          · rw [hf]
            exact congrArg (fun l => List.map Prod.snd l ++ (blocks ++ [eofBlock z.size])) hflushed

/-- A file of three bytes that is read byte by byte. -/
def tinyFile : FileAccess where
  file := some ⟨[1, 2, 3], by decide, 0x81a4, 0, 0, 0⟩
  opens := true
  limit := fun _ => 0
  fails := fun _ => false

theorem jffs2_placement_tinyFile :
    ∃ s', mtdReplaceJffs2 .big 4096 tinyFile 0 ⟨[0x61], by decide⟩ (List.replicate 4096 0)
      ⟨0, 0, 0, [], 0, 0, [], 0, []⟩ = some s' ∧
      Placed .big ⟨4096, rfl, Nat.le_refl _⟩ ⟨0, 0, 0, [], 0, 0, [], 0, []⟩ s' :=
  (jffs2_placement .big ⟨4096, rfl, Nat.le_refl _⟩ _ _ ⟨[], by decide⟩ (by decide) (by decide)).1
    _ 0 _ rfl rfl List.length_replicate

end UbntSdk.Mtd
