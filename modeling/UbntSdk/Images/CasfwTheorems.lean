/-
UbntSdk.Images.CasfwTheorems — images for CAS and NFS servers
(`tools/firmware-utils/src/mkcasfw.c`).

`Consistent` reads the header out of an image and compares it with the data:
every area has the bytes of its file, and its checksum. An image without a file
system is consistent (`generate_consistent`). With one there is never an image,
because `parse_opt_image` is called with the letter `C` and looks for an `F`
(`parse_custom`).
-/
import UbntSdk.Images.Casfw

namespace UbntSdk.Images.Casfw

open UbntSdk.Lib

/-! ## Checksums -/

/-- The little-endian words; an incomplete one at the end is left out. -/
def words32 : List UInt8 → List UInt32
  | a :: b :: c :: d :: rest => ofLe32 [a, b, c, d] :: words32 rest
  | _ => []

/-- The exclusive or of the little-endian words. -/
def xorWords (data : List UInt8) : UInt32 := (words32 data).foldl (· ^^^ ·) 0

theorem ofLe32_eq (a b c d : UInt8) :
    ofLe32 [a, b, c, d] = a.toUInt32 + (b.toUInt32 <<< 8) + (c.toUInt32 <<< 16) + (d.toUInt32 <<< 24) := by
  have ha := a.toNat_lt
  have hb := b.toNat_lt
  have hc := c.toNat_lt
  have hd := d.toNat_lt
  apply UInt32.toNat_inj.mp
  simp only [ofLe32, ofBe32, List.reverse_cons, List.reverse_nil, List.nil_append, List.cons_append,
    UInt32.toNat_add, UInt32.toNat_shiftLeft, UInt8.toNat_toUInt32, UInt32.toNat_ofNat', Nat.shiftLeft_eq,
    UInt32.reduceToNat, Nat.reduceMod, Nat.reducePow]
  omega

theorem words32_append {a : List UInt8} (h : a.length % 4 = 0) (b : List UInt8) :
    words32 (a ++ b) = words32 a ++ words32 b := by
  induction a using words32.induct with
  | case1 x y z w rest ih =>
      have hrest : rest.length % 4 = 0 := by
        simp only [List.length_cons] at h
        omega
      simp only [List.cons_append, words32, ih hrest]
  | case2 a hshort =>
      match a, h with
      | [], _ => rfl
      | x :: y :: z :: w :: rest, _ => exact absurd rfl (hshort x y z w rest)

theorem csum32Update_eq (data : List UInt8) (val : UInt32) :
    csum32Update data val = (words32 data).foldl (· ^^^ ·) val := by
  induction data using words32.induct generalizing val with
  | case1 a b c d rest ih => rw [csum32Update, words32, List.foldl_cons, ofLe32_eq, ih]
  | case2 data h =>
      rw [csum32Update, words32, List.foldl_nil]
      · exact h
      · exact h

/-- The checksum has no state between two buffers, and needs none as long as the
first one has complete words. -/
theorem csum32Update_append {a : List UInt8} (h : a.length % 4 = 0) (b : List UInt8) (val : UInt32) :
    csum32Update (a ++ b) val = csum32Update b (csum32Update a val) := by
  rw [csum32Update_eq, csum32Update_eq, csum32Update_eq, words32_append h, List.foldl_append]

/-- A loop over a buffer of complete words writes its data and adds all of it. -/
theorem foldl_writeOutData {n : Nat} (hn : 0 < n) (hmod : n % 4 = 0) (o : Stream × UInt32)
    (data : List UInt8) : (chunks n data).foldl writeOutData o = writeOutData o data := by
  refine foldl_chunks hn (fun _ => rfl) (fun o a b ha => ?_) o data
  simp only [writeOutData, Stream.write_write, csum32Update_append (show a.length % 4 = 0 by omega)]

/-! ## Images -/

/-- A file that is not larger than the limit. -/
theorem imageStatFile_of_le {fs : Files} {desc : ImageDesc} {name : List Char} {content : List UInt8}
    (hname : desc.fileName = some name) (hfile : fs name = some content)
    (hle : content.length ≤ desc.outSize.toNat) :
    imageStatFile fs desc = (.ok, { desc with
      fileSize := UInt32.ofNat content.length, outSize := UInt32.ofNat content.length }) := by
  have halign (x : UInt32) : align x 1 = x := by
    rw [align, if_pos (by decide), UInt32.add_sub_cancel, show ~~~((1 : UInt32) - 1) = -1 from rfl,
      UInt32.and_neg_one]
  simp only [imageStatFile, hname, hfile, if_neg (Nat.not_lt.mpr hle), halign]

/-- A file that is larger. -/
theorem imageStatFile_of_lt {fs : Files} {desc : ImageDesc} {name : List Char} {content : List UInt8}
    (hname : desc.fileName = some name) (hfile : fs name = some content)
    (hlt : desc.outSize.toNat < content.length) :
    imageStatFile fs desc = (.invalidImage, { desc with fileSize := desc.outSize }) := by
  simp only [imageStatFile, hname, hfile, if_pos hlt]

/-- An image that `image_stat_file` has found is written as it is, with its checksum. -/
theorem imageWriteout_eq {fs : Files} {desc : ImageDesc} {name : List Char} {content : List UInt8}
    (hname : desc.fileName = some name) (hfile : fs name = some content)
    (hlt : content.length < 2 ^ 32) (hsize : desc.fileSize = UInt32.ofNat content.length)
    (hout : desc.outSize = desc.fileSize) (hcsum : desc.csum = 0) (f : Stream) :
    imageWriteout fs desc f = some (f.write content, { desc with csum := xorWords content }) := by
  have hnat : desc.fileSize.toNat = content.length := by
    rw [hsize, UInt32.toNat_ofNat', Nat.mod_eq_of_lt hlt]
  rw [imageWriteout]
  by_cases hzero : desc.fileSize = 0
  · have hnil : content = [] := by
      rw [hzero] at hnat
      exact List.length_eq_zero_iff.mp hnat.symm
    rw [if_pos hzero, hnil, Stream.write_nil, show xorWords [] = 0 from rfl, ← hcsum]
  · rw [if_neg hzero, imageWriteoutFile, hname]
    simp only [if_neg hzero, hfile, Option.map_some, hnat, List.take_length,
      foldl_writeOutData (n := FILE_BUF_LEN) (by decide) (by decide), hout, UInt32.sub_self]
    rw [writeOutPadding, show (0 : UInt32).toNat = 0 from rfl, List.replicate_zero, chunks_nil,
      List.foldl_nil, writeOutData, csum32Update_eq]
    rfl

/-! ## The header -/

/-- A word of the header. -/
def word (image : List UInt8) (off : Nat) : UInt32 := ofLe32 ((image.drop off).take 4)

/-- The header describes the bytes of a file. -/
structure AreaOk (image : List UInt8) (offs size csum : UInt32) (data : List UInt8) : Prop where
  behindHeader : 32 ≤ offs.toNat
  inside : offs.toNat + size.toNat ≤ image.length
  delimits : (image.drop offs.toNat).take size.toNat = data
  checksum : csum = xorWords data

/-- The header of an image says where the kernel and the file system are, and
there is nothing else. -/
def Consistent (type : HeaderType) (image kernel fsData : List UInt8) : Prop :=
  match type with
  | .cas =>
      AreaOk image (word image 4) (word image 8) (word image 16) kernel ∧
        image.length = (word image 4).toNat + (word image 8).toNat
  | .nfs =>
      AreaOk image (word image 4) (word image 8) (word image 20) kernel ∧
        AreaOk image (word image 12) (word image 16) (word image 24) fsData ∧
        (word image 12).toNat = (word image 4).toNat + (word image 8).toNat ∧
        image.length = (word image 12).toNat + (word image 16).toNat

theorem headerBytes_length (board : BoardInfo) (kernel fs : ImageDesc) :
    (headerBytes board kernel fs).length = 32 := by
  unfold headerBytes
  split <;> simp

theorem word_zero (x : UInt32) (l : List UInt8) : word (le32 x ++ l) 0 = x := by
  rw [word, List.drop_zero, List.take_left' (le32_length x), ofLe32_le32]

theorem word_add (x : UInt32) (l : List UInt8) (k : Nat) : word (le32 x ++ l) (k + 4) = word l k := by
  rw [word, word, Nat.add_comm k, ← le32_length x, List.drop_length_add_append]

theorem words_cas {board : BoardInfo} (h : board.headerType = .cas) (kernel fs : ImageDesc)
    (l : List UInt8) :
    word (headerBytes board kernel fs ++ l) 4 = 32 ∧
      word (headerBytes board kernel fs ++ l) 8 = kernel.outSize ∧
      word (headerBytes board kernel fs ++ l) 16 = kernel.csum := by
  simp only [headerBytes, h, List.append_assoc, word_zero, word_add _ _ 0, word_add _ _ 4, word_add _ _ 8,
    word_add _ _ 12, sizeofFwhdr, and_self]

theorem words_nfs {board : BoardInfo} (h : board.headerType = .nfs) (kernel fs : ImageDesc)
    (l : List UInt8) :
    word (headerBytes board kernel fs ++ l) 4 = 32 ∧
      word (headerBytes board kernel fs ++ l) 8 = kernel.outSize ∧
      word (headerBytes board kernel fs ++ l) 12 = 32 + kernel.outSize ∧
      word (headerBytes board kernel fs ++ l) 16 = fs.outSize ∧
      word (headerBytes board kernel fs ++ l) 20 = kernel.csum ∧
      word (headerBytes board kernel fs ++ l) 24 = fs.csum := by
  simp only [headerBytes, h, List.append_assoc, word_zero, word_add _ _ 0, word_add _ _ 4, word_add _ _ 8,
    word_add _ _ 12, word_add _ _ 16, word_add _ _ 20, sizeofFwhdr, and_self]

/-- An area between two others. -/
theorem areaOk_append {a data b : List UInt8} {offs size csum : UInt32} (hoffs : offs.toNat = a.length)
    (hsize : size.toNat = data.length) (hcsum : csum = xorWords data) (hheader : 32 ≤ a.length) :
    AreaOk (a ++ (data ++ b)) offs size csum data where
  behindHeader := by rw [hoffs]; exact hheader
  inside := by simp only [hoffs, hsize, List.length_append]; omega
  delimits := by rw [hoffs, hsize, List.drop_left, List.take_left]
  checksum := hcsum

/-- The second header stands over the first one. -/
theorem writeOutHeader_bytes (board : BoardInfo) (kernel fs : ImageDesc) {old : List UInt8}
    (hold : old.length = 32) (data : List UInt8) (pos : Nat) :
    (writeOutHeader board kernel fs ⟨old ++ data, pos⟩).bytes = headerBytes board kernel fs ++ data := by
  have hlen : old.length = (headerBytes board kernel fs).length := by
    rw [hold, headerBytes_length]
  have h := Stream.write_over hlen [] data
  rw [List.nil_append, List.nil_append, List.length_nil] at h
  rw [writeOutHeader, Stream.seek, h]

/-- What the program knows of an image whose file is not too large. -/
structure Found (fs : Files) (desc : ImageDesc) (content : List UInt8) : Prop where
  file : ∃ name, desc.fileName = some name ∧ fs name = some content
  length : content.length < 2 ^ 31
  size : desc.fileSize = UInt32.ofNat content.length
  out : desc.outSize = desc.fileSize
  csum : desc.csum = 0

theorem Found.outSize_toNat {fs : Files} {desc : ImageDesc} {content : List UInt8}
    (h : Found fs desc content) : desc.outSize.toNat = content.length := by
  have hlt := h.length
  rw [h.out, h.size, UInt32.toNat_ofNat', Nat.mod_eq_of_lt (by omega)]

theorem Found.imageWriteout {fs : Files} {desc : ImageDesc} {content : List UInt8}
    (h : Found fs desc content) (f : Stream) :
    imageWriteout fs desc f = some (f.write content, { desc with csum := xorWords content }) := by
  obtain ⟨name, hname, hfile⟩ := h.file
  have hlt := h.length
  exact imageWriteout_eq hname hfile (by omega) h.size h.out h.csum f

/-- With a kernel alone the header describes the image. -/
theorem writeOut_consistent {fs : Files} {board : BoardInfo} {kernel fsImage : ImageDesc}
    {content : List UInt8} (hkernel : Found fs kernel content) (hsize : fsImage.fileSize = 0)
    (hout : fsImage.outSize = 0) (hcsum : fsImage.csum = 0) :
    ∃ image, writeOut fs board kernel fsImage = some image ∧
      Consistent board.headerType image content [] := by
  have hlt := hkernel.length
  have hnat := hkernel.outSize_toNat
  have hfirst : writeOutHeader board kernel fsImage Stream.empty =
      ⟨headerBytes board kernel fsImage, (headerBytes board kernel fsImage).length⟩ :=
    Stream.write_end [] (headerBytes board kernel fsImage)
  have hwrite : writeOut fs board kernel fsImage = some
      (headerBytes board { kernel with csum := xorWords content } fsImage ++ content) := by
    have hnone (f : Stream) : imageWriteout fs fsImage f = some (f, fsImage) := by
      rw [imageWriteout, if_pos hsize]
    simp only [writeOut, hfirst, hkernel.imageWriteout, Stream.write_end, Option.bind_eq_bind,
      Option.bind_some, hnone, Option.pure_def]
    rw [writeOutHeader_bytes _ _ _ (headerBytes_length _ _ _)]
  refine ⟨_, hwrite, ?_⟩
  set hdr := headerBytes board { kernel with csum := xorWords content } fsImage with hhdr
  have hlen : hdr.length = 32 := headerBytes_length _ _ _
  have hkernelOk : AreaOk (hdr ++ content) 32 kernel.outSize (xorWords content) content := by
    have h := areaOk_append (a := hdr) (b := []) (show (32 : UInt32).toNat = hdr.length by rw [hlen]; rfl)
      hnat rfl hlen.ge
    rwa [List.append_nil] at h
  cases htype : board.headerType with
  | cas =>
      obtain ⟨h4, h8, h16⟩ := words_cas htype { kernel with csum := xorWords content } fsImage content
      rw [← hhdr] at h4 h8 h16
      rw [Consistent, h4, h8, h16]
      refine ⟨hkernelOk, ?_⟩
      rw [List.length_append, hlen, hnat]
      rfl
  | nfs =>
      obtain ⟨h4, h8, h12, h16, h20, h24⟩ :=
        words_nfs htype { kernel with csum := xorWords content } fsImage content
      rw [← hhdr] at h4 h8 h12 h16 h20 h24
      have hoffs : (32 + kernel.outSize).toNat = (hdr ++ content).length := by
        rw [UInt32.toNat_add, hnat, List.length_append, hlen, show (32 : UInt32).toNat = 32 from rfl]
        omega
      have hfsOk : AreaOk (hdr ++ content) (32 + kernel.outSize) 0 0 [] := by
        have h : AreaOk ((hdr ++ content) ++ ([] ++ [])) (32 + kernel.outSize) 0 0 [] :=
          areaOk_append hoffs rfl rfl (by rw [List.length_append]; omega)
        rwa [List.append_nil, List.append_nil] at h
      rw [Consistent, h4, h8, h12, h16, h20, h24]
      refine ⟨hkernelOk, ?_, ?_, ?_⟩
      · dsimp only
        rw [hout, hcsum]
        exact hfsOk
      · dsimp only
        rw [hoffs, List.length_append, hlen, hnat]
        rfl
      · dsimp only
        rw [hoffs, hout]
        rfl

/-! ## The command line -/

/-- No board has a name that looks like an option. -/
theorem head_of_findBoard {model : List Char} {board : BoardInfo} (h : findBoard model = some board) :
    model.head? ≠ some '-' := by
  have hall : ∀ b ∈ boards, (b.model.map Char.toLower).head? ≠ some '-' := by decide +kernel
  have hmem := List.mem_of_find?_eq_some h
  have hsame : model.map Char.toLower = board.model.map Char.toLower := by
    simpa using List.find?_some h
  intro hhead
  apply hall board hmem
  rw [← hsame, List.head?_map, hhead]
  rfl

theorem parseOpt_board {g : Globals} {model : List Char} {board : BoardInfo} (hg : g.board = none)
    (h : findBoard model = some board) : parseOpt g ('B', model) = .ok { g with board := some board } := by
  have hopt : parseOptBoard model g = some { g with board := some board } := by
    simp [parseOptBoard, hg, head_of_findBoard h, h]
  show orFail (parseOptBoard model g) = _
  rw [hopt]
  rfl

theorem parseOpt_kernel {g : Globals} {arg name : List Char} (hg : g.kernelImage.fileName = none)
    (h : fileArg arg = some name) : parseOpt g ('K', arg) =
      .ok { g with kernelImage := { g.kernelImage with fileName := some name } } := by
  have hopt : parseOptImage 'K' arg g =
      some { g with kernelImage := { g.kernelImage with fileName := some name } } := by
    simp [parseOptImage, hg, h]
  show orFail (parseOptImage 'K' arg g) = _
  rw [hopt]
  rfl

/-- `-C` is refused: the letter that is passed on is not the one that is looked for. -/
theorem parse_custom (g : Globals) (arg : List Char) : parseOpt g ('C', arg) = .error failed := rfl

/-- Options that set the board and the kernel at most once. -/
theorem parse_eq {opts : List (Char × List Char)} {g : Globals} {board : Option BoardInfo}
    {name : Option (List Char)} (hletters : ∀ o ∈ opts, o.1 ∈ ['B', 'K', 'd', 'v'])
    (hboard : (opts.filter (·.1 = 'B') = [] ∧ g.board = board) ∨
      ∃ model b, opts.filter (·.1 = 'B') = [('B', model)] ∧ g.board = none ∧ board = some b ∧
        findBoard model = some b)
    (hkernel : (opts.filter (·.1 = 'K') = [] ∧ g.kernelImage.fileName = name) ∨
      ∃ arg n, opts.filter (·.1 = 'K') = [('K', arg)] ∧ g.kernelImage.fileName = none ∧
        name = some n ∧ fileArg arg = some n) :
    opts.foldlM parseOpt g = .ok { g with
      board, kernelImage := { g.kernelImage with fileName := name }
      invalidCausesError := g.invalidCausesError && !opts.any (·.1 = 'd') } := by
  induction opts generalizing g with
  | nil =>
      obtain ⟨-, rfl⟩ | ⟨_, _, h, -⟩ := hboard
      · obtain ⟨-, rfl⟩ | ⟨_, _, h, -⟩ := hkernel
        · simp [List.foldlM_nil, pure, Except.pure]
        · exact absurd h (by simp)
      · exact absurd h (by simp)
  | cons o opts ih =>
      obtain ⟨hfirst, hrest⟩ := List.forall_mem_cons.mp hletters
      obtain ⟨c, arg⟩ := o
      rw [List.foldlM_cons]
      simp only [List.mem_cons, List.not_mem_nil, or_false] at hfirst
      rcases hfirst with rfl | rfl | rfl | rfl
      · rw [List.filter_cons_of_pos (by simp)] at hboard
        rw [List.filter_cons_of_neg (by simp)] at hkernel
        obtain ⟨h, -⟩ | ⟨model, b, h, hg, rfl, hfind⟩ := hboard
        · exact absurd h (by simp)
        obtain ⟨hm, hnil⟩ := List.cons.inj h
        obtain ⟨-, rfl⟩ := Prod.mk.inj hm
        rw [parseOpt_board hg hfind]
        exact ih (g := { g with board := some b }) hrest (Or.inl ⟨hnil, rfl⟩) hkernel
      · rw [List.filter_cons_of_neg (by simp)] at hboard
        rw [List.filter_cons_of_pos (by simp)] at hkernel
        obtain ⟨h, -⟩ | ⟨arg', n, h, hg, rfl, hfile⟩ := hkernel
        · exact absurd h (by simp)
        obtain ⟨hm, hnil⟩ := List.cons.inj h
        obtain ⟨-, rfl⟩ := Prod.mk.inj hm
        rw [parseOpt_kernel hg hfile]
        exact ih (g := { g with kernelImage := { g.kernelImage with fileName := some n } }) hrest hboard
          (Or.inl ⟨hnil, rfl⟩)
      · rw [List.filter_cons_of_neg (by simp)] at hboard hkernel
        have h := ih (g := { g with invalidCausesError := false }) hrest hboard hkernel
        simpa [parseOpt, getopt, bind, Except.bind] using h
      · rw [List.filter_cons_of_neg (by simp)] at hboard hkernel
        have h := ih (g := g) hrest hboard hkernel
        simpa [parseOpt, getopt, bind, Except.bind] using h

/-- A command line with a file system is refused. -/
theorem parse_custom_error {opts : List (Char × List Char)} {g : Globals}
    (hletters : ∀ o ∈ opts, o.1 ∈ ['B', 'C', 'K', 'd', 'v']) (hcustom : ∃ o ∈ opts, o.1 = 'C') :
    opts.foldlM parseOpt g = .error failed := by
  induction opts generalizing g with
  | nil => simp at hcustom
  | cons o opts ih =>
      obtain ⟨hfirst, hrest⟩ := List.forall_mem_cons.mp hletters
      obtain ⟨c, arg⟩ := o
      rw [List.foldlM_cons]
      by_cases hc : c = 'C'
      · rw [hc, parse_custom]
        rfl
      · have hcustom' : ∃ o ∈ opts, o.1 = 'C' := by simpa [hc] using hcustom
        -- an option before it may be refused as well
        have hstep : parseOpt g (c, arg) = .error failed ∨ ∃ g', parseOpt g (c, arg) = .ok g' := by
          have hor (r : Option Globals) : orFail r = .error failed ∨ ∃ g', orFail r = .ok g' := by
            cases r with
            | none => exact Or.inl rfl
            | some g' => exact Or.inr ⟨g', rfl⟩
          simp only [List.mem_cons, List.not_mem_nil, or_false] at hfirst
          rcases hfirst with rfl | rfl | rfl | rfl | rfl
          · exact hor _
          · exact absurd rfl hc
          · exact hor _
          · exact Or.inr ⟨_, rfl⟩
          · exact Or.inr ⟨_, rfl⟩
        obtain h | ⟨g', h⟩ := hstep
        · rw [h]
          rfl
        · rw [h]
          exact ih hrest hcustom'

/-- A command line with one board, one kernel, and for a board of the NFS type
perhaps one file system; `-d` and `-v` may stand anywhere. -/
structure Invocation (fs : Files) (opts : List (Char × List Char)) (board : BoardInfo)
    (kernel : List UInt8) (custom : Option (List UInt8)) : Prop where
  letters : ∀ o ∈ opts, o.1 ∈ ['B', 'C', 'K', 'd', 'v']
  boardOpt : ∃ model, opts.filter (·.1 = 'B') = [('B', model)] ∧ findBoard model = some board
  kernelOpt : ∃ arg name, opts.filter (·.1 = 'K') = [('K', arg)] ∧ fileArg arg = some name ∧
    fs name = some kernel
  customOpt : match custom with
    | none => opts.filter (·.1 = 'C') = []
    | some content => board.headerType = .nfs ∧ ∃ arg name, opts.filter (·.1 = 'C') = [('C', arg)] ∧
        fileArg arg = some name ∧ fs name = some content

/-- The files are within the limits of the board. -/
def Fits (board : BoardInfo) (kernel : List UInt8) (custom : Option (List UInt8)) : Prop :=
  kernel.length ≤ board.maxKernelSize.toNat ∧ (custom.getD []).length ≤ board.maxFsSize.toNat

instance (board : BoardInfo) (kernel : List UInt8) (custom : Option (List UInt8)) :
    Decidable (Fits board kernel custom) :=
  inferInstanceAs (Decidable (_ ∧ _))

/-- Files within the limits make an image that its header describes; others
leave no output, and are an error unless `-d` says that they are none. -/
def MakesImage (fs : Files) (opts : List (Char × List Char)) (ofname : List Char) (board : BoardInfo)
    (kernel : List UInt8) (custom : Option (List UInt8)) : Prop :=
  if Fits board kernel custom then
    ∃ image, mkcasfw fs opts [ofname] = ⟨.success, some image⟩ ∧
      Consistent board.headerType image kernel (custom.getD [])
  else
    (mkcasfw fs opts [ofname]).outfile = none ∧
      ((∀ o ∈ opts, o.1 ≠ 'd') → (mkcasfw fs opts [ofname]).status = .failure)

theorem board_limits {model : List Char} {board : BoardInfo} (h : findBoard model = some board) :
    board.maxKernelSize.toNat < 2 ^ 31 := by
  have hall : ∀ b ∈ boards, b.maxKernelSize.toNat < 2 ^ 31 := by decide +kernel
  exact hall board (List.mem_of_find?_eq_some h)

/-- Without a file system the program does what it should. -/
theorem makesImage_of_none {fs : Files} {opts : List (Char × List Char)} {ofname : List Char}
    {board : BoardInfo} {kernel : List UInt8} (h : Invocation fs opts board kernel none) :
    MakesImage fs opts ofname board kernel none := by
  obtain ⟨model, hB, hfind⟩ := h.boardOpt
  obtain ⟨arg, name, hK, hname, hfile⟩ := h.kernelOpt
  have hC : opts.filter (·.1 = 'C') = [] := h.customOpt
  have hletters : ∀ o ∈ opts, o.1 ∈ ['B', 'K', 'd', 'v'] := by
    intro o ho
    have hc : ¬ o.1 = 'C' := by simpa using List.filter_eq_nil_iff.mp hC o ho
    have hmem := h.letters o ho
    simp only [List.mem_cons, List.not_mem_nil, or_false] at hmem ⊢
    tauto
  have hparse := parse_eq (g := globals) hletters (Or.inr ⟨model, board, hB, rfl, rfl, hfind⟩)
    (Or.inr ⟨arg, name, hK, rfl, rfl, hname⟩)
  have hlimit := board_limits hfind
  have hgenerate : mkcasfw fs opts [ofname] = generate fs board ⟨some board, ⟨some name, 0, 0, 0, 0⟩,
      globals.fsImage, !opts.any (·.1 = 'd'), false⟩ := by
    rw [mkcasfw, hparse]
    rfl
  rw [MakesImage, hgenerate]
  by_cases hle : kernel.length ≤ board.maxKernelSize.toNat
  · rw [if_pos ⟨hle, Nat.zero_le _⟩]
    have hstat := @imageStatFile_of_le fs ⟨some name, 0, 0, board.maxKernelSize, DEFAULT_PADC⟩ _ _
      rfl hfile hle
    have hfound : Found fs ⟨some name, UInt32.ofNat kernel.length, 0,
        UInt32.ofNat kernel.length, DEFAULT_PADC⟩ kernel :=
      ⟨⟨name, rfl, hfile⟩, by omega, rfl, rfl, rfl⟩
    obtain ⟨image, himage, hok⟩ :=
      @writeOut_consistent fs board _ globals.fsImage kernel hfound rfl rfl rfl
    refine ⟨image, ?_, hok⟩
    simp only [globals] at himage
    simp only [generate, processImages, globals, hstat, ne_eq, not_true_eq_false, if_false,
      Option.isNone_none, if_true, reduceCtorEq, false_and, himage]
  · rw [if_neg (fun hfits => hle hfits.1)]
    have hstat := @imageStatFile_of_lt fs ⟨some name, 0, 0, board.maxKernelSize, DEFAULT_PADC⟩ _ _
      rfl hfile (Nat.lt_of_not_le hle)
    simp only [generate, processImages, globals, hstat, ne_eq, reduceCtorEq, not_false_eq_true, if_true,
      if_false, true_and, Bool.false_eq_true]
    intro hd
    have hany : opts.any (·.1 = 'd') = false := by simpa using hd
    simp [hany]

/-- The program makes an image that its header describes, and rejects files that
are too large, exactly if no file system is given, or one of the files is too large. -/
theorem mkcasfw_makesImage_iff (fs : Files) (opts : List (Char × List Char)) (ofname : List Char)
    (board : BoardInfo) (kernel : List UInt8) (custom : Option (List UInt8))
    (h : Invocation fs opts board kernel custom) :
    MakesImage fs opts ofname board kernel custom ↔ custom = none ∨ ¬ Fits board kernel custom := by
  cases custom with
  | none => exact iff_of_true (makesImage_of_none h) (Or.inl rfl)
  | some content =>
      obtain ⟨-, arg, name, hC, -, -⟩ := h.customOpt
      have hmem : ('C', arg) ∈ opts := (List.mem_filter.mp (hC ▸ List.mem_singleton_self _)).1
      have hrun : mkcasfw fs opts [ofname] = failed := by
        rw [mkcasfw, parse_custom_error h.letters ⟨_, hmem, rfl⟩]
      rw [MakesImage, hrun]
      split
      · rename_i hfits
        simp [hfits, failed]
      · rename_i hfits
        simp [hfits, failed]

def smallFiles : Files := fun name => some (if name = ['k'] then [1, 2, 3, 4, 5] else [6, 7])

def nfs101u : BoardInfo := BOARD_NFS "NFS-101U" 0x01000000

theorem findBoard_nfs101u : findBoard "nfs-101u".toList = some nfs101u := by decide +kernel

/-- A kernel alone, with `-d` before it. -/
theorem mkcasfw_makesImage_kernel :
    MakesImage smallFiles [('d', []), ('K', ['k']), ('B', "nfs-101u".toList)] ['o'] nfs101u [1, 2, 3, 4, 5]
      none :=
  (mkcasfw_makesImage_iff _ _ _ _ _ _
    ⟨by simp, ⟨_, rfl, findBoard_nfs101u⟩, ⟨['k'], ['k'], rfl, rfl, rfl⟩, rfl⟩).mpr (Or.inl rfl)

/-- A kernel and a file system of a few bytes are refused. -/
theorem mkcasfw_custom_fails :
    Invocation smallFiles [('B', "nfs-101u".toList), ('K', ['k']), ('C', ['f'])] nfs101u [1, 2, 3, 4, 5]
        (some [6, 7]) ∧
      ¬ MakesImage smallFiles [('B', "nfs-101u".toList), ('K', ['k']), ('C', ['f'])] ['o'] nfs101u
        [1, 2, 3, 4, 5] (some [6, 7]) := by
  constructor
  · exact ⟨by simp, ⟨_, rfl, findBoard_nfs101u⟩, ⟨['k'], ['k'], rfl, rfl, rfl⟩, rfl, ['f'], ['f'], rfl, rfl, rfl⟩
  · have hrun : mkcasfw smallFiles [('B', "nfs-101u".toList), ('K', ['k']), ('C', ['f'])] [['o']] = failed := by
      rw [mkcasfw, parse_custom_error (by simp) ⟨('C', ['f']), by simp, rfl⟩]
    rw [MakesImage, hrun, if_pos (by decide)]
    simp [failed]

end UbntSdk.Images.Casfw
