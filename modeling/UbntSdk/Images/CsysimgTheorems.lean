/-
UbntSdk.Images.CsysimgTheorems — what is written for a block of a CSYS image
(`tools/firmware-utils/src/mkcsysimg.c`).

The checksums are right for all data: `Summed` is the invariant of both of
them, over buffers of any length. `blockWriteout_eq` says which bytes are
written, and `blockOk_iff` when they describe themselves: the header announces
the alignment less the header, which has to be the size. `alignUp` is `align`
without the limit of 32 bits, and `size_of_fit` and `fit_of_size` say that a
block has the size that belongs to its aligned end exactly if nothing wraps.
-/
import UbntSdk.Images.Csysimg
import UbntSdk.Images.MylofwTheorems
import UbntSdk.Lib.Words

namespace UbntSdk.Images.Csysimg

open UbntSdk.Lib
open UbntSdk.Images.Mylofw (chunks chunks_flatten)

/-! ## Alignment -/

/-- `align` without the limit of 32 bits. -/
def alignUp (base alignment : Nat) : Nat :=
  if alignment ≠ 0 then
    base + (alignment - 1) - ((base + (alignment - 1)) &&& (alignment - 1))
  else base

theorem le_alignUp (base alignment : Nat) : base ≤ alignUp base alignment := by
  have hand := @Nat.and_le_right (base + (alignment - 1)) (alignment - 1)
  rw [alignUp]
  split <;> omega

theorem add_sub_one (base alignment : UInt32) (h : alignment ≠ 0) :
    (base + alignment - 1).toNat = (base.toNat + (alignment.toNat - 1)) % 2 ^ 32 := by
  have hpos : 0 < alignment.toNat := by
    rw [Nat.pos_iff_ne_zero]
    intro hzero
    exact h (UInt32.toNat_inj.mp hzero)
  have hone : (1 : UInt32).toNat = 1 := rfl
  have hlt := alignment.toNat_lt
  rw [UInt32.toNat_sub, UInt32.toNat_add, hone]
  omega

theorem align_toNat (base : UInt32) {alignment : UInt32} (h : alignment ≠ 0) :
    (align base alignment).toNat =
      (base.toNat + (alignment.toNat - 1)) % 2 ^ 32 -
        ((base.toNat + (alignment.toNat - 1)) % 2 ^ 32 &&& (alignment.toNat - 1)) := by
  have hmask : (alignment - 1).toNat = alignment.toNat - 1 := by
    rw [UInt32.toNat_sub_of_le]
    · rfl
    · rw [UInt32.le_iff_toNat_le]
      show 1 ≤ _
      rw [Nat.one_le_iff_ne_zero]
      intro hzero
      exact h (UInt32.toNat_inj.mp hzero)
  rw [align, if_pos h, toNat_and_not, add_sub_one _ _ h, hmask]

/-- Where nothing wraps, `align` rounds up. -/
theorem align_eq_alignUp {base alignment : UInt32}
    (h : base.toNat + (alignment.toNat - 1) < 2 ^ 32) :
    (align base alignment).toNat = alignUp base.toNat alignment.toNat := by
  by_cases hzero : alignment = 0
  · rw [align, alignUp, if_neg (not_not.mpr hzero), if_neg (by rw [hzero]; decide)]
  · have hne : alignment.toNat ≠ 0 := fun h0 => hzero (UInt32.toNat_inj.mp h0)
    rw [align_toNat _ hzero, Nat.mod_eq_of_lt h, alignUp, if_pos hne]

/-- A sum that wraps is rounded to below the base. -/
theorem align_lt_of_wrap {base alignment : UInt32}
    (h : 2 ^ 32 ≤ base.toNat + (alignment.toNat - 1)) :
    (align base alignment).toNat < base.toNat := by
  have hbase := base.toNat_lt
  have hlt := alignment.toNat_lt
  have hzero : alignment ≠ 0 := by
    rintro rfl
    simp at h
    omega
  have hle := Nat.sub_le ((base.toNat + (alignment.toNat - 1)) % 2 ^ 32)
    ((base.toNat + (alignment.toNat - 1)) % 2 ^ 32 &&& (alignment.toNat - 1))
  rw [align_toNat _ hzero]
  omega

/-- The size of a block with a header and a checksum of `k` bytes that fits. -/
theorem size_of_fit {offs f h c a : UInt32} {k : Nat} (hk : k = h.toNat + c.toNat)
    (hfit : offs.toNat + (f.toNat + k) + (a.toNat - 1) < 2 ^ 32) :
    (align (offs + f + h + c) a - offs).toNat =
        alignUp (offs.toNat + (f.toNat + k)) a.toNat - offs.toNat ∧
      f.toNat + k ≤ (align (offs + f + h + c) a - offs).toNat ∧
      (offs + (align (offs + f + h + c) a - offs)).toNat =
        alignUp (offs.toNat + (f.toNat + k)) a.toNat := by
  have hbase : (offs + f + h + c).toNat = offs.toNat + (f.toNat + k) := by
    simp only [UInt32.toNat_add]
    omega
  have halign : (align (offs + f + h + c) a).toNat = alignUp (offs.toNat + (f.toNat + k)) a.toNat := by
    rw [align_eq_alignUp (by rw [hbase]; exact hfit), hbase]
  have hle := le_alignUp (offs.toNat + (f.toNat + k)) a.toNat
  have hsub : (align (offs + f + h + c) a - offs).toNat =
      alignUp (offs.toNat + (f.toNat + k)) a.toNat - offs.toNat := by
    rw [UInt32.toNat_sub_of_le, halign]
    rw [UInt32.le_iff_toNat_le, halign]
    omega
  refine ⟨hsub, by omega, ?_⟩
  rw [UInt32.add_comm, UInt32.sub_add_cancel, halign]

/-- A block that has room for its parts, at a size and an offset that are not
out of all proportion, fits. -/
theorem fit_of_size {offs f h c a : UInt32} {k : Nat} (hk : k = h.toNat + c.toNat)
    (hoffs : offs.toNat < 2 ^ 30) (hsmall : k < 2 ^ 10)
    (hsize : (align (offs + f + h + c) a - offs).toNat < 2 ^ 30)
    (hroom : f.toNat + k ≤ (align (offs + f + h + c) a - offs).toNat) :
    offs.toNat + (f.toNat + k) + (a.toNat - 1) < 2 ^ 32 := by
  by_contra hwrap
  have hbase : (offs + f + h + c).toNat = offs.toNat + (f.toNat + k) := by
    simp only [UInt32.toNat_add]
    omega
  have hlt := @align_lt_of_wrap (offs + f + h + c) a (by rw [hbase]; omega)
  have hmod := (align (offs + f + h + c) a).toNat_lt
  rw [UInt32.toNat_sub] at hsize hroom
  omega

/-! ## Checksums -/

/-- The sum of the bytes. -/
def sumBytes (bs : List UInt8) : Nat := (bs.map (·.toNat)).sum

/-- The sum of the little-endian half words, the last one filled up with 0. -/
def sumWords : List UInt8 → Nat
  | [] => 0
  | [a] => a.toNat
  | a :: b :: rest => a.toNat + b.toNat * 2 ^ 8 + sumWords rest

theorem sumWords_append {a : List UInt8} (h : a.length % 2 = 0) (b : List UInt8) :
    sumWords (a ++ b) = sumWords a + sumWords b := by
  induction a using sumWords.induct with
  | case1 => simp [sumWords]
  | case2 x => simp at h
  | case3 x y rest ih =>
      have hrest : rest.length % 2 = 0 := by
        simp only [List.length_cons] at h
        omega
      simp only [List.cons_append, sumWords, ih hrest]
      omega

/-- The state of `csum8_update` behind some bytes. -/
def Summed8 (css : CsumState) (bs : List UInt8) : Prop := css.val.toNat % 2 ^ 8 = sumBytes bs % 2 ^ 8

/-- The state of `csum16_update` behind some bytes: a last byte without a
partner is kept. -/
def Summed16 (css : CsumState) (bs : List UInt8) : Prop :=
  (css.odd = false ∧ bs.length % 2 = 0 ∧ css.val.toNat = sumWords bs % 2 ^ 16) ∨
  ∃ pre t, bs = pre ++ [t] ∧ css.odd = true ∧ pre.length % 2 = 0 ∧ css.tmp = t.toUInt16 ∧
    css.val.toNat = sumWords pre % 2 ^ 16

theorem summed8_update {css : CsumState} {bs : List UInt8} (h : Summed8 css bs) (p : List UInt8) :
    Summed8 (csum8Update p css) (bs ++ p) := by
  induction p generalizing css bs with
  | nil => simpa [csum8Update] using h
  | cons a p ih =>
      have hstep : Summed8 { css with val := css.val + a.toUInt16 } (bs ++ [a]) := by
        have hval : (css.val + a.toUInt16).toNat = (css.val.toNat + a.toNat) % 2 ^ 16 := by
          rw [UInt16.toNat_add, UInt8.toNat_toUInt16]
        rw [Summed8] at h ⊢
        simp only [hval, sumBytes, List.map_append, List.sum_append, List.map_cons, List.map_nil,
          List.sum_cons, List.sum_nil] at h ⊢
        omega
      have hall := ih hstep
      rwa [List.append_assoc, List.singleton_append] at hall

/-- A half word that is put together from two bytes. -/
theorem halfWord_toNat (a b : UInt8) :
    (a.toUInt16 + (b.toUInt16 <<< 8)).toNat = a.toNat + b.toNat * 2 ^ 8 := by
  have ha := a.toNat_lt
  have hb := b.toNat_lt
  have hshift : (b.toUInt16 <<< 8).toNat = b.toNat * 2 ^ 8 := by
    rw [UInt16.toNat_shiftLeft, UInt8.toNat_toUInt16, Nat.shiftLeft_eq]
    exact Nat.mod_eq_of_lt (by show _ * 2 ^ 8 < _; omega)
  rw [UInt16.toNat_add, UInt8.toNat_toUInt16, hshift]
  omega

theorem summed16_pair {css : CsumState} {bs : List UInt8} (hlen : bs.length % 2 = 0)
    (hval : css.val.toNat = sumWords bs % 2 ^ 16) (hodd : css.odd = false) (a b : UInt8) :
    Summed16 { css with val := css.val + (a.toUInt16 + (b.toUInt16 <<< 8)) } (bs ++ [a, b]) := by
  refine Or.inl ⟨hodd, ?_, ?_⟩
  · rw [List.length_append]
    simp only [List.length_cons, List.length_nil]
    omega
  · show (css.val + (a.toUInt16 + (b.toUInt16 <<< 8))).toNat = _
    rw [UInt16.toNat_add, halfWord_toNat, hval, sumWords_append hlen]
    simp only [sumWords]
    omega

theorem summed16_words (p : List UInt8) : ∀ {css : CsumState} {bs : List UInt8},
    css.odd = false → bs.length % 2 = 0 → css.val.toNat = sumWords bs % 2 ^ 16 →
    Summed16 (csum16Words p css) (bs ++ p) := by
  induction p using sumWords.induct with
  | case1 =>
      intro css bs hodd hlen hval
      rw [List.append_nil]
      exact Or.inl ⟨hodd, hlen, hval⟩
  | case2 a =>
      intro css bs hodd hlen hval
      exact Or.inr ⟨bs, a, rfl, rfl, hlen, rfl, hval⟩
  | case3 a b rest ih =>
      intro css bs hodd hlen hval
      rcases summed16_pair hlen hval hodd a b with ⟨hodd', hlen', hval'⟩ | ⟨_, _, _, hodd', _⟩
      · have hall := ih hodd' hlen' hval'
        rwa [List.append_assoc] at hall
      · rw [hodd] at hodd'
        cases hodd'

theorem summed16_update {css : CsumState} {bs : List UInt8} (h : Summed16 css bs) (p : List UInt8) :
    Summed16 (csum16Update p css) (bs ++ p) := by
  cases p with
  | nil => simpa [csum16Update] using h
  | cons a rest =>
      rcases h with ⟨hodd, hlen, hval⟩ | ⟨pre, t, rfl, hodd, hlen, htmp, hval⟩
      · rw [csum16Update, hodd, if_neg (by decide)]
        exact summed16_words _ hodd hlen hval
      · -- the byte that was kept gets its partner
        rw [csum16Update, if_pos hodd, List.append_assoc]
        rcases @summed16_pair { css with odd := false } pre hlen hval rfl t a with
          ⟨hodd', hlen', hval'⟩ | ⟨_, _, _, hodd', _⟩
        · have hall := summed16_words rest hodd' hlen' hval'
          rw [List.append_assoc, ← htmp] at hall
          exact hall
        · cases hodd'

/-- What the two kinds of checksum are. -/
def checksum (size : UInt32) (bs : List UInt8) : UInt16 :=
  if size = CSUM_SIZE_8 then UInt16.ofNat (2 ^ 16 - sumBytes bs % 2 ^ 8)
  else if size = CSUM_SIZE_16 then UInt16.ofNat (2 ^ 16 - sumWords bs % 2 ^ 16)
  else 0

theorem csum8Get_eq {css : CsumState} {bs : List UInt8} (h : Summed8 css bs) :
    csum8Get css = UInt16.ofNat (2 ^ 16 - sumBytes bs % 2 ^ 8) := by
  rw [Summed8] at h
  apply UInt16.toNat_inj.mp
  rw [csum8Get, UInt16.toNat_add, UInt16.toNat_not, UInt8.toNat_toUInt16, UInt16.toNat_toUInt8,
    UInt16.toNat_ofNat', h]
  show (65536 - 1 - _ + 1) % _ = _
  have hlt := Nat.mod_lt (sumBytes bs) (show 0 < 2 ^ 8 by decide)
  omega

theorem csum16Get_eq {css : CsumState} {bs : List UInt8} (h : Summed16 css bs) :
    csum16Get css = UInt16.ofNat (2 ^ 16 - sumWords bs % 2 ^ 16) := by
  have hval : (csum16Update [0] css).val.toNat = sumWords bs % 2 ^ 16 := by
    rcases h with ⟨hodd, hlen, hval⟩ | ⟨pre, t, rfl, hodd, hlen, htmp, hval⟩
    · rw [csum16Update, hodd, if_neg (by decide)]
      exact hval
    · rw [csum16Update, if_pos hodd, csum16Words, htmp]
      show (css.val + (t.toUInt16 + ((0 : UInt8).toUInt16 <<< 8))).toNat = _
      rw [UInt16.toNat_add, halfWord_toNat, hval, sumWords_append hlen]
      simp [sumWords]
  apply UInt16.toNat_inj.mp
  rw [csum16Get, UInt16.toNat_add, UInt16.toNat_not, UInt16.toNat_ofNat', hval]
  show (65536 - 1 - _ + 1) % _ = _
  have hlt := Nat.mod_lt (sumWords bs) (show 0 < 2 ^ 16 by decide)
  omega

/-- The state of a checksum of either size behind some bytes. -/
def Summed (css : CsumState) (bs : List UInt8) : Prop :=
  (css.size = CSUM_SIZE_8 → Summed8 css bs) ∧ (css.size = CSUM_SIZE_16 → Summed16 css bs)

theorem csum16Words_size (p : List UInt8) : ∀ css : CsumState, (csum16Words p css).size = css.size := by
  induction p using sumWords.induct with
  | case1 => exact fun css => rfl
  | case2 a => exact fun css => rfl
  | case3 a b rest ih =>
      intro css
      rw [csum16Words, ih]

theorem csumUpdate_size (p : List UInt8) (css : CsumState) : (csumUpdate p css).size = css.size := by
  have h8 : ∀ (p : List UInt8) (css : CsumState), (csum8Update p css).size = css.size := by
    intro p
    induction p with
    | nil => exact fun css => rfl
    | cons a p ih =>
        intro css
        exact ih { css with val := css.val + a.toUInt16 }
  rw [csumUpdate]
  split
  · exact h8 p css
  · split
    · cases p with
      | nil => rfl
      | cons a rest =>
          rw [csum16Update]
          split
          · rw [csum16Words_size]
          · rw [csum16Words_size]
    · rfl

theorem summed_update {css : CsumState} {bs : List UInt8} (h : Summed css bs) (p : List UInt8) :
    Summed (csumUpdate p css) (bs ++ p) := by
  refine ⟨fun hsize => ?_, fun hsize => ?_⟩
  · rw [csumUpdate_size] at hsize
    rw [csumUpdate, if_pos hsize]
    exact summed8_update (h.1 hsize) p
  · rw [csumUpdate_size] at hsize
    rw [csumUpdate, if_neg (by rw [hsize]; decide), if_pos hsize]
    exact summed16_update (h.2 hsize) p

theorem summed_init (size : UInt32) : Summed (csumInit size) [] :=
  ⟨fun _ => rfl, fun _ => Or.inl ⟨rfl, rfl, rfl⟩⟩

theorem csumGet_eq {css : CsumState} {bs : List UInt8} (h : Summed css bs) :
    csumGet css = checksum css.size bs := by
  rw [csumGet, checksum]
  split
  · exact csum8Get_eq (h.1 ‹_›)
  · split
    · exact csum16Get_eq (h.2 ‹_›)
    · rfl

/-! ## Writing -/

/-- The file has grown by these bytes, and a checksum of the size is that of
the data. -/
structure Wrote (size : UInt32) (o : Out) (outfile bs : List UInt8) : Prop where
  outfile : o.outfile = outfile ++ bs
  css : (size = 0 → o.css = none) ∧
    (size ≠ 0 → ∃ css, o.css = some css ∧ css.size = size ∧ Summed css bs)

theorem wrote_writeOutData {size : UInt32} {o : Out} {outfile bs : List UInt8}
    (h : Wrote size o outfile bs) (data : List UInt8) :
    Wrote size (writeOutData data o) outfile (bs ++ data) := by
  refine ⟨?_, fun hzero => ?_, fun hne => ?_⟩
  · rw [writeOutData, h.outfile, List.append_assoc]
  · rw [writeOutData, h.css.1 hzero]
    rfl
  · obtain ⟨css, hcss, hsize, hsum⟩ := h.css.2 hne
    refine ⟨csumUpdate data css, ?_, (csumUpdate_size _ _).trans hsize, summed_update hsum data⟩
    rw [writeOutData, hcss]
    rfl

theorem wrote_writeLoop {size : UInt32} {o : Out} {outfile bs : List UInt8}
    (h : Wrote size o outfile bs) {buflen : Nat} (hpos : 0 < buflen) (data : List UInt8) :
    Wrote size (writeLoop buflen data o) outfile (bs ++ data) := by
  have hfold : ∀ (l : List (List UInt8)) (o : Out) (bs : List UInt8), Wrote size o outfile bs →
      Wrote size (l.foldl (fun o buf => writeOutData buf o) o) outfile (bs ++ l.flatten) := by
    intro l
    induction l with
    | nil =>
        intro o bs ho
        simpa using ho
    | cons data l ih =>
        intro o bs ho
        rw [List.foldl_cons, List.flatten_cons, ← List.append_assoc]
        exact ih _ _ (wrote_writeOutData ho data)
  have hall := hfold (chunks buflen data.length data) o bs h
  rwa [chunks_flatten hpos _ _ le_rfl] at hall

/-- The bytes of the header. -/
def headerBytes (b : CsysBlock) : List UInt8 :=
  if b.sizeHdr = 0 then [] else b.sig ++ (le32 b.addr ++ le32 (b.align - b.sizeHdr))

/-- The bytes that are taken from the file. -/
def fileBytes (fs : Files) (b : CsysBlock) : List UInt8 :=
  match b.fileName with
  | none => []
  | some name => ((fs name).getD []).take b.fileSize.toNat

/-- The file and the padding. -/
def dataBytes (fs : Files) (b : CsysBlock) : List UInt8 :=
  fileBytes fs b ++ List.replicate (b.sizeAvail - b.fileSize).toNat b.padc

/-- The bytes of the checksum. -/
def csumBytes (fs : Files) (b : CsysBlock) : List UInt8 :=
  (le16 (checksum b.sizeCsum (dataBytes fs b))).take b.sizeCsum.toNat

/-- The length of the file of the block is known. -/
def Statted (fs : Files) (b : CsysBlock) : Prop :=
  match b.fileName with
  | none => b.fileSize = 0
  | some name => ∃ content, fs name = some content ∧ b.fileSize = content.length.toUInt32

theorem fileBytes_length {fs : Files} {b : CsysBlock} (h : Statted fs b) :
    (fileBytes fs b).length = b.fileSize.toNat := by
  unfold Statted at h
  unfold fileBytes
  split at h
  · rename_i hname
    rw [h]
    rfl
  · rename_i name hname
    obtain ⟨content, hcontent, hsize⟩ := h
    have hle : b.fileSize.toNat ≤ content.length := by
      rw [hsize]
      exact Nat.mod_le _ _
    simp only [hcontent, Option.getD_some, List.length_take]
    omega

theorem dataBytes_length {fs : Files} {b : CsysBlock} (h : Statted fs b)
    (hfile : b.fileSize ≤ b.sizeAvail) : (dataBytes fs b).length = b.sizeAvail.toNat := by
  have hle := UInt32.le_iff_toNat_le.mp hfile
  rw [dataBytes, List.length_append, fileBytes_length h, List.length_replicate,
    UInt32.toNat_sub_of_le _ _ hfile]
  omega

theorem wrote_blockWriteoutData {fs : Files} {b : CsysBlock} (h : Statted fs b) {o : Out}
    {outfile : List UInt8} (ho : Wrote b.sizeCsum o outfile []) :
    ∃ o', blockWriteoutData fs b o = some o' ∧
      Wrote b.sizeCsum o' outfile (dataBytes fs b) := by
  obtain ⟨t, hfile, ht⟩ : ∃ t, blockWriteoutFile fs b o = some t ∧
      Wrote b.sizeCsum t outfile (fileBytes fs b) := by
    unfold Statted at h
    unfold blockWriteoutFile fileBytes
    cases hname : b.fileName with
    | none => exact ⟨o, rfl, ho⟩
    | some name =>
        rw [hname] at h
        obtain ⟨content, hcontent, _⟩ := h
        simp only [hcontent, Option.getD_some, Option.map_some]
        split
        · rename_i hzero
          rw [hzero]
          exact ⟨o, rfl, ho⟩
        · exact ⟨_, rfl, wrote_writeLoop ho (by decide) _⟩
  refine ⟨_, by rw [blockWriteoutData, hfile, Option.map_some], ?_⟩
  exact wrote_writeLoop ht (by decide) _

/-- What is written for a block. -/
theorem blockWriteout_eq {fs : Files} {b : CsysBlock} (h : Statted fs b) (o : Out) :
    (blockWriteout fs b o).map (·.outfile) =
      some (o.outfile ++ (headerBytes b ++ (dataBytes fs b ++ csumBytes fs b))) := by
  have hhdr : (blockWriteoutHdr b { o with css := none }).outfile = o.outfile ++ headerBytes b ∧
      (blockWriteoutHdr b { o with css := none }).css = none := by
    rw [blockWriteoutHdr, headerBytes]
    split
    · exact ⟨(List.append_nil _).symm, rfl⟩
    · exact ⟨rfl, rfl⟩
  have hstart : Wrote b.sizeCsum
      (if b.sizeCsum ≠ 0 then
        { blockWriteoutHdr b { o with css := none } with css := some (csumInit b.sizeCsum) }
      else blockWriteoutHdr b { o with css := none }) (o.outfile ++ headerBytes b) [] := by
    rw [← hhdr.1]
    split
    · rename_i hne
      exact ⟨(List.append_nil _).symm, fun hzero => absurd hzero hne,
        fun _ => ⟨_, rfl, rfl, summed_init _⟩⟩
    · rename_i hzero
      exact ⟨(List.append_nil _).symm, fun _ => hhdr.2, fun hne => absurd hne hzero⟩
  obtain ⟨t, hdata, ht⟩ := wrote_blockWriteoutData h hstart
  have hrun : blockWriteout fs b o = some (blockWriteoutCsum b t) := by
    simp only [blockWriteout, Option.bind_eq_bind]
    rw [hdata]
    rfl
  rw [hrun, Option.map_some, blockWriteoutCsum]
  by_cases hzero : b.sizeCsum = 0
  · rw [if_pos hzero, ht.outfile, csumBytes, hzero]
    simp
  · obtain ⟨css, hcss, hsize, hsum⟩ := ht.css.2 hzero
    rw [if_neg hzero, hcss]
    show some (t.outfile ++ _) = _
    rw [csumGet_eq hsum, hsize, ht.outfile, csumBytes, List.append_assoc, List.append_assoc]

/-! ## Blocks that describe themselves -/

/-- The bytes of a block: the header, the data and the checksum. The size
field of the header counts what follows it, and the data and the checksum
add up to 0, as bytes or as little-endian half words. -/
structure BlockOk (b : CsysBlock) (hdr data csum : List UInt8) : Prop where
  hdrLength : hdr.length = b.sizeHdr.toNat
  csumLength : csum.length = b.sizeCsum.toNat
  size : (hdr ++ (data ++ csum)).length = b.size.toNat
  sizeField : b.sizeHdr ≠ 0 →
    ∃ n, load32? .little hdr 8 = some n ∧ n.toNat = (data ++ csum).length
  csum8 : b.type = .webp → sumBytes (data ++ csum) % 2 ^ 8 = 0
  csum16 : b.type = .code → (sumWords data + sumWords csum) % 2 ^ 16 = 0

/-- The blocks behind `process_blocks` describe themselves, and fit in the
array and in the flash. -/
structure SelfDescribing (fs : Files) (board : BoardInfo) (st : Csys) : Prop where
  count : st.numBlocks ≤ MAX_NUM_BLOCKS
  blocks : ∀ b ∈ st.written, ∃ hdr data csum,
    (∀ o, (blockWriteout fs b o).map (·.outfile) = some (o.outfile ++ (hdr ++ (data ++ csum)))) ∧
    BlockOk b hdr data csum
  fits : (st.all.map (·.size.toNat)).sum ≤ board.flashSize.toNat

/-- The file that is written for them holds the blocks, one after the other. -/
theorem SelfDescribing.file {fs : Files} {board : BoardInfo} {st : Csys}
    (h : SelfDescribing fs board st) :
    ∃ parts : List (List UInt8), writeOutBlocks fs st = some parts.flatten ∧
      List.Forall₂ (fun b bytes => ∃ hdr data csum, bytes = hdr ++ (data ++ csum) ∧
        BlockOk b hdr data csum) st.written parts := by
  suffices hall : ∃ parts : List (List UInt8),
      (∀ o, (st.written.foldlM (fun o block => blockWriteout fs block o) o).map (·.outfile) =
        some (o.outfile ++ parts.flatten)) ∧
      List.Forall₂ (fun b bytes => ∃ hdr data csum, bytes = hdr ++ (data ++ csum) ∧
        BlockOk b hdr data csum) st.written parts by
    obtain ⟨parts, hfile, hparts⟩ := hall
    exact ⟨parts, hfile ⟨[], none⟩, hparts⟩
  have hblocks := h.blocks
  generalize st.written = l at hblocks ⊢
  induction l with
  | nil => exact ⟨[], fun o => by simp, .nil⟩
  | cons b rest ih =>
      rw [List.forall_mem_cons] at hblocks
      obtain ⟨⟨hdr, data, csum, hwrites, hok⟩, hrest⟩ := hblocks
      obtain ⟨parts, hfile, hparts⟩ := ih hrest
      refine ⟨(hdr ++ (data ++ csum)) :: parts, fun o => ?_, .cons ⟨hdr, data, csum, rfl, hok⟩ hparts⟩
      obtain ⟨o', ho', houtfile⟩ := Option.map_eq_some_iff.mp (hwrites o)
      rw [List.foldlM_cons, ho']
      change (rest.foldlM (fun o block => blockWriteout fs block o) o').map (·.outfile) = _
      rw [hfile o', houtfile, List.flatten_cons, List.append_assoc]

/-- The fields of a block that belong to its type. -/
structure KindOk (b : CsysBlock) : Prop where
  sig : b.sig.length = 4
  webp : b.type = .webp → b.sizeHdr = sizeofCsysHeader ∧ b.sizeCsum = CSUM_SIZE_8
  code : b.type = .code → b.sizeHdr = sizeofCsysHeader ∧ b.sizeCsum = CSUM_SIZE_16
  other : b.type ≠ .webp → b.type ≠ .code → b.sizeHdr = 0 ∧ b.sizeCsum = 0

/-- The sizes of the header and of the checksum are small, and the header is
there or empty. -/
theorem KindOk.sizes {b : CsysBlock} (h : KindOk b) :
    (b.sizeHdr = 0 ∨ b.sizeHdr = sizeofCsysHeader) ∧ b.sizeCsum.toNat ≤ 2 := by
  by_cases hwebp : b.type = .webp
  · obtain ⟨hhdr, hcsum⟩ := h.webp hwebp
    exact ⟨Or.inr hhdr, by rw [hcsum]; decide⟩
  · by_cases hcode : b.type = .code
    · obtain ⟨hhdr, hcsum⟩ := h.code hcode
      exact ⟨Or.inr hhdr, by rw [hcsum]; decide⟩
    · obtain ⟨hhdr, hcsum⟩ := h.other hwebp hcode
      exact ⟨Or.inl hhdr, by rw [hcsum]; decide⟩

theorem headerBytes_length {b : CsysBlock} (h : KindOk b) :
    (headerBytes b).length = b.sizeHdr.toNat := by
  rw [headerBytes]
  split
  · rename_i hzero
    rw [hzero]
    rfl
  · rename_i hne
    rw [h.sizes.1.resolve_left hne]
    simp [h.sig, sizeofCsysHeader]

theorem headerBytes_size {b : CsysBlock} (h : KindOk b) (hne : b.sizeHdr ≠ 0) :
    load32? .little (headerBytes b) 8 = some (b.align - b.sizeHdr) := by
  have hlen : b.sig.length ≤ 8 := by
    rw [h.sig]
    decide
  rw [headerBytes, if_neg hne, load32?_skip _ hlen, h.sig,
    load32?_skip _ (show (le32 b.addr).length ≤ 8 - 4 by simp), le32_length, Nat.sub_self,
    ← List.append_nil (le32 (b.align - b.sizeHdr))]
  exact (load32?_head .little .little _ []).trans (congrArg some (ofWord32_word32 .little _))

theorem csumBytes_length {fs : Files} {b : CsysBlock} (h : KindOk b) :
    (csumBytes fs b).length = b.sizeCsum.toNat := by
  have hle := h.sizes.2
  rw [csumBytes, List.length_take, le16_length]
  omega

/-- Data and checksum of a web block add up to 0. -/
theorem sumBytes_csum {fs : Files} {b : CsysBlock} (h : b.sizeCsum = CSUM_SIZE_8) :
    sumBytes (dataBytes fs b ++ csumBytes fs b) % 2 ^ 8 = 0 := by
  have hlt := Nat.mod_lt (sumBytes (dataBytes fs b)) (show 0 < 2 ^ 8 by decide)
  have hcsum : (csumBytes fs b) = [UInt8.ofNat (checksum CSUM_SIZE_8 (dataBytes fs b)).toNat] := by
    rw [csumBytes, h]
    rfl
  have hval : (checksum CSUM_SIZE_8 (dataBytes fs b)).toNat =
      (2 ^ 16 - sumBytes (dataBytes fs b) % 2 ^ 8) % 2 ^ 16 := by
    rw [checksum, if_pos rfl, UInt16.toNat_ofNat']
  rw [hcsum, hval]
  rw [sumBytes] at hlt ⊢
  simp only [List.map_append, List.sum_append, List.map_cons, List.map_nil, List.sum_cons,
    List.sum_nil, UInt8.toNat_ofNat']
  rw [sumBytes]
  omega

/-- Data and checksum of a code block add up to 0. -/
theorem sumWords_csum {fs : Files} {b : CsysBlock} (h : b.sizeCsum = CSUM_SIZE_16) :
    (sumWords (dataBytes fs b) + sumWords (csumBytes fs b)) % 2 ^ 16 = 0 := by
  have hlt := Nat.mod_lt (sumWords (dataBytes fs b)) (show 0 < 2 ^ 16 by decide)
  have hcsum : csumBytes fs b = le16 (checksum CSUM_SIZE_16 (dataBytes fs b)) := by
    rw [csumBytes, h]
    rfl
  have hval : (checksum CSUM_SIZE_16 (dataBytes fs b)).toNat =
      (2 ^ 16 - sumWords (dataBytes fs b) % 2 ^ 16) % 2 ^ 16 := by
    rw [checksum, if_neg (by decide), if_pos rfl, UInt16.toNat_ofNat']
  rw [hcsum, le16, hval]
  simp only [sumWords, UInt8.toNat_ofNat']
  omega

/-- A block that has room for its file describes itself exactly if it has
room for its other parts too, and its size is the alignment. -/
theorem blockOk_iff {fs : Files} {b : CsysBlock} (hkind : KindOk b) (hstat : Statted fs b)
    (hfile : b.fileSize ≤ b.sizeAvail) (havail : b.sizeAvail = b.size - b.sizeHdr - b.sizeCsum) :
    (∃ hdr data csum,
      (∀ o, (blockWriteout fs b o).map (·.outfile) = some (o.outfile ++ (hdr ++ (data ++ csum)))) ∧
      BlockOk b hdr data csum) ↔
    b.sizeHdr.toNat + b.sizeCsum.toNat ≤ b.size.toNat ∧ (b.sizeHdr ≠ 0 → b.align = b.size) := by
  have hdata := dataBytes_length hstat hfile
  have hhdr := headerBytes_length hkind
  have hcsum := @csumBytes_length fs b hkind
  have hsmall := hkind.sizes.2
  have hhdrLt : b.sizeHdr.toNat ≤ 12 := by
    rcases hkind.sizes.1 with h | h <;> rw [h] <;> decide
  have hnat : b.sizeAvail.toNat =
      (2 ^ 32 - b.sizeCsum.toNat + (2 ^ 32 - b.sizeHdr.toNat + b.size.toNat) % 2 ^ 32) % 2 ^ 32 := by
    rw [havail, UInt32.toNat_sub, UInt32.toNat_sub]
  have hlt := b.size.toNat_lt
  constructor
  · rintro ⟨hdr, data, csum, hwrites, hok⟩
    -- the bytes that are written are those of the block
    have hbytes := (hwrites ⟨[], none⟩).symm.trans (blockWriteout_eq hstat ⟨[], none⟩)
    simp only [List.nil_append, Option.some.injEq] at hbytes
    obtain ⟨hhdrEq, hrest⟩ := List.append_inj hbytes (hok.hdrLength.trans hhdr.symm)
    have hsize := hok.size
    have hcount := congrArg List.length hrest
    simp only [List.length_append] at hsize hcount
    rw [hok.hdrLength] at hsize
    have hroom : b.sizeHdr.toNat + b.sizeCsum.toNat ≤ b.size.toNat := by omega
    refine ⟨hroom, fun hne => ?_⟩
    obtain ⟨n, hload, hn⟩ := hok.sizeField hne
    rw [hhdrEq, headerBytes_size hkind hne, Option.some.injEq] at hload
    rw [List.length_append] at hn
    have hsub : b.align - b.sizeHdr = b.size - b.sizeHdr := by
      apply UInt32.toNat_inj.mp
      rw [hload, hn, UInt32.toNat_sub_of_le _ _ (UInt32.le_iff_toNat_le.mpr (by omega))]
      omega
    have hadd := congrArg (· + b.sizeHdr) hsub
    simpa only [UInt32.sub_add_cancel] using hadd
  · rintro ⟨hroom, halign⟩
    have htotal : b.sizeHdr.toNat + (b.sizeAvail.toNat + b.sizeCsum.toNat) = b.size.toNat := by
      omega
    refine ⟨_, _, _, blockWriteout_eq hstat, hhdr, hcsum, ?_, fun hne => ?_, fun hwebp => ?_,
      fun hcode => ?_⟩
    · rw [List.length_append, List.length_append, hhdr, hdata, hcsum, htotal]
    · refine ⟨_, headerBytes_size hkind hne, ?_⟩
      rw [halign hne, List.length_append, hdata, hcsum,
        UInt32.toNat_sub_of_le _ _ (UInt32.le_iff_toNat_le.mpr (by omega))]
      omega
    · exact sumBytes_csum (hkind.webp hwebp).2
    · exact sumWords_csum (hkind.code hcode).2

end UbntSdk.Images.Csysimg
