/-
UbntSdk.Images.CsysimgLayout — when the blocks of a CSYS image describe
themselves (`tools/firmware-utils/src/mkcsysimg.c`).

The options leave blocks of their types in the array (`sorted_options`), and
`process_blocks` places them one behind the other. The size of a block is the
distance from its offset to an aligned end. `OneUnit` says that this is the
alignment itself; for a power of two the block has to fit in one alignment
(`oneUnit_iff_le`). `selfDescribing_iff` is about every list of options that
is accepted.
-/
import Mathlib.Algebra.Order.BigOperators.Group.List
import Mathlib.Algebra.Order.Group.Nat
import UbntSdk.Images.CsysimgTheorems

namespace UbntSdk.Images.Csysimg

open UbntSdk.Lib

/-! ## The array -/

/-- Every pointer leads to a block of its type, the others are extra or
repeated ones, and all of them have the property. -/
structure Sorted (P : CsysBlock → Prop) (st : Csys) : Prop where
  boot : ∀ b ∈ st.boot, b.type = .boot ∧ P b
  conf : ∀ b ∈ st.conf, b.type = .conf ∧ P b
  webp : ∀ b ∈ st.webp, b.type = .webp ∧ P b
  code : ∀ b ∈ st.code, b.type = .code ∧ P b
  rest : ∀ b ∈ st.rest, (b.type = .boot ∨ b.type = .xtra) ∧ P b

/-- A block that was parsed: nothing is known of its file or of its size. -/
structure Parsed (b : CsysBlock) : Prop where
  kind : KindOk b
  size : b.size = 0
  fileSize : b.fileSize = 0

theorem parsed_blockFor (ch : BlockType) : Parsed (blockFor ch) := by
  cases ch <;> exact ⟨⟨rfl, by decide, by decide, by decide⟩, rfl, rfl⟩

theorem type_blockFor (ch : BlockType) : (blockFor ch).type = ch := by
  cases ch <;> rfl

/-- Fields that an argument may change. -/
theorem Parsed.set {b : CsysBlock} (h : Parsed b) (fileName : Option (List Char)) (addr align : UInt32)
    (addrSet alignSet : Bool) (padc : UInt8) : Parsed { b with
      fileName := fileName, addr := addr, addrSet := addrSet, align := align, alignSet := alignSet,
      padc := padc } :=
  ⟨⟨h.kind.sig, h.kind.webp, h.kind.code, h.kind.other⟩, h.size, h.fileSize⟩

/-- The arguments do not touch the other fields. -/
theorem parsed_parseArgs {o : OptBlock} {block b : CsysBlock} (h : parseArgs o block = some b)
    (hblock : Parsed block) : b.type = block.type ∧ Parsed b := by
  have hpadc : ∀ {arg : Option UInt32} {c : CsysBlock}, parsePadc arg c = some b →
      Parsed c → b.type = c.type ∧ Parsed b := by
    intro arg c hc hparsed
    unfold parsePadc at hc
    split at hc
    · split at hc
      · cases hc
      · cases hc
        exact ⟨rfl, hparsed.set c.fileName c.addr c.align c.addrSet c.alignSet _⟩
    · cases hc
      exact ⟨rfl, hparsed⟩
  have halign : ∀ (arg : Option UInt32) {c : CsysBlock}, Parsed c →
      (parseAlign arg c).type = c.type ∧ Parsed (parseAlign arg c) := by
    intro arg c hparsed
    cases arg with
    | none => exact ⟨rfl, hparsed⟩
    | some align => exact ⟨rfl, hparsed.set c.fileName c.addr align c.addrSet true c.padc⟩
  have haddr : ∀ (arg : Option UInt32) {c : CsysBlock}, Parsed c →
      (parseAddr arg c).type = c.type ∧ Parsed (parseAddr arg c) := by
    intro arg c hparsed
    cases arg with
    | none => exact ⟨rfl, hparsed⟩
    | some addr => exact ⟨rfl, hparsed.set c.fileName addr c.align true c.alignSet c.padc⟩
  obtain ⟨c, hfile, hrest⟩ := Option.bind_eq_some_iff.mp h
  have hc : c.type = block.type ∧ Parsed c := by
    unfold parseFile at hfile
    split at hfile
    · cases hfile
      exact ⟨rfl, hblock.set _ block.addr block.align block.addrSet block.alignSet block.padc⟩
    · split at hfile
      · cases hfile
      · cases hfile
        exact ⟨rfl, hblock⟩
  split at hrest
  · obtain ⟨htype₁, h₁⟩ := haddr (o.args.headD none) hc.2
    obtain ⟨htype₂, h₂⟩ := halign (o.args.tail.headD none) h₁
    obtain ⟨htype₃, h₃⟩ := hpadc hrest h₂
    exact ⟨htype₃.trans (htype₂.trans (htype₁.trans hc.1)), h₃⟩
  · obtain ⟨htype₁, h₁⟩ := halign (o.args.headD none) hc.2
    obtain ⟨htype₂, h₂⟩ := hpadc hrest h₁
    exact ⟨htype₂.trans (htype₁.trans hc.1), h₂⟩

/-- A block that is stored behind the others. -/
theorem Sorted.store {P : CsysBlock → Prop} {st : Csys} (h : Sorted P st) {b : CsysBlock}
    (htype : b.type = .boot ∨ b.type = .xtra) (hb : P b) :
    Sorted P { st with rest := st.rest ++ [b] } := by
  refine ⟨h.boot, h.conf, h.webp, h.code, fun c hc => ?_⟩
  rcases List.mem_append.mp hc with hc | hc
  · exact h.rest c hc
  · rw [List.mem_singleton.mp hc]
    exact ⟨htype, hb⟩

theorem sorted_parseOptBlock {st st' : Csys} {o : OptBlock} (h : parseOptBlock st o = some st')
    (hst : Sorted Parsed st) : Sorted Parsed st' := by
  have hagain : ∀ {s : Csys}, (parseArgs o { CsysBlock.zero with needFile := true, padc := 0xFF }).map
      (fun block => { st with rest := st.rest ++ [block] }) = some s → Sorted Parsed s := by
    intro s hs
    obtain ⟨b, hb, rfl⟩ := Option.map_eq_some_iff.mp hs
    obtain ⟨htype, hparsed⟩ := parsed_parseArgs hb (parsed_blockFor .boot)
    exact hst.store (Or.inl htype) hparsed
  have hfirst : ∀ {b : CsysBlock}, parseArgs o (blockFor o.ch) = some b →
      b.type = o.ch ∧ Parsed b := by
    intro b hb
    obtain ⟨htype, hparsed⟩ := parsed_parseArgs hb (parsed_blockFor o.ch)
    exact ⟨htype.trans (type_blockFor o.ch), hparsed⟩
  have hone : ∀ {b c : CsysBlock}, parseArgs o (blockFor o.ch) = some b → c ∈ some b →
      c.type = o.ch ∧ Parsed c := by
    intro b c hb hc
    cases hc
    exact hfirst hb
  rw [parseOptBlock] at h
  split at h
  · cases h
  · simp only at h
    split at h
    · rename_i hch
      split at h
      · exact hagain h
      · obtain ⟨b, hb, rfl⟩ := Option.map_eq_some_iff.mp h
        exact ⟨fun c hc => hch ▸ hone hb hc, hst.conf, hst.webp, hst.code, hst.rest⟩
    · rename_i hch
      split at h
      · exact hagain h
      · obtain ⟨b, hb, rfl⟩ := Option.map_eq_some_iff.mp h
        exact ⟨hst.boot, fun c hc => hch ▸ hone hb hc, hst.webp, hst.code, hst.rest⟩
    · rename_i hch
      split at h
      · exact hagain h
      · obtain ⟨b, hb, rfl⟩ := Option.map_eq_some_iff.mp h
        exact ⟨hst.boot, hst.conf, fun c hc => hch ▸ hone hb hc, hst.code, hst.rest⟩
    · rename_i hch
      split at h
      · exact hagain h
      · obtain ⟨b, hb, rfl⟩ := Option.map_eq_some_iff.mp h
        exact ⟨hst.boot, hst.conf, hst.webp, fun c hc => hch ▸ hone hb hc, hst.rest⟩
    · rename_i hch
      obtain ⟨b, hb, rfl⟩ := Option.map_eq_some_iff.mp h
      obtain ⟨htype, hparsed⟩ := hfirst hb
      exact hst.store (Or.inr (htype.trans hch)) hparsed

/-- The options leave blocks of their types. -/
theorem sorted_options {opts : List OptBlock} : ∀ {st st' : Csys},
    opts.foldlM parseOptBlock st = some st' → Sorted Parsed st → Sorted Parsed st' := by
  induction opts with
  | nil =>
      intro st st' h hst
      cases h
      exact hst
  | cons o opts ih =>
      intro st st' h hst
      rw [List.foldlM_cons, Option.bind_eq_bind] at h
      obtain ⟨t, ht, hrest⟩ := Option.bind_eq_some_iff.mp h
      exact ih hrest (sorted_parseOptBlock ht hst)

theorem sorted_empty (P : CsysBlock → Prop) : Sorted P Csys.empty := by
  constructor <;> intro b hb <;> cases hb

/-- A block whose file size was collected. -/
structure Collected (fs : Files) (b : CsysBlock) : Prop where
  kind : KindOk b
  size : b.size = 0
  stat : Statted fs b

theorem collected_blockStatFile {fs : Files} {b b' : CsysBlock} (h : blockStatFile fs b = some b')
    (hb : Parsed b) : b'.type = b.type ∧ Collected fs b' := by
  unfold blockStatFile at h
  split at h
  · rename_i hname
    cases h
    refine ⟨rfl, hb.kind, hb.size, ?_⟩
    simp only [Statted, hname]
    exact hb.fileSize
  · rename_i name hname
    obtain ⟨content, hcontent, rfl⟩ := Option.map_eq_some_iff.mp h
    refine ⟨rfl, ⟨hb.kind.sig, hb.kind.webp, hb.kind.code, hb.kind.other⟩, hb.size, ?_⟩
    simp only [Statted, hname]
    exact ⟨content, hcontent, rfl⟩

theorem mem_option_mapM {f : CsysBlock → Option CsysBlock} {x : Option CsysBlock}
    {y : Option CsysBlock} (h : x.mapM f = some y) : ∀ b' ∈ y, ∃ b ∈ x, f b = some b' := by
  intro b' hb'
  cases x with
  | none =>
      cases h
      cases hb'
  | some b =>
      rw [Option.mapM_some, Option.map_eq_map] at h
      obtain ⟨c, hc, rfl⟩ := Option.map_eq_some_iff.mp h
      cases hb'
      exact ⟨b, rfl, hc⟩

theorem mem_list_mapM {f : CsysBlock → Option CsysBlock} {l : List CsysBlock} :
    ∀ {l' : List CsysBlock}, l.mapM f = some l' → ∀ b' ∈ l', ∃ b ∈ l, f b = some b' := by
  induction l with
  | nil =>
      intro l' h b' hb'
      cases h
      cases hb'
  | cons b l ih =>
      intro l' h b' hb'
      simp only [List.mapM_cons, Option.bind_eq_bind, Option.bind_eq_some_iff] at h
      obtain ⟨c, hc, t, ht, hl'⟩ := h
      cases hl'
      rcases List.mem_cons.mp hb' with rfl | hmem
      · exact ⟨b, List.mem_cons_self, hc⟩
      · obtain ⟨d, hd, hfd⟩ := ih ht b' hmem
        exact ⟨d, List.mem_cons_of_mem _ hd, hfd⟩

/-- What one call does to a block, the loop over the array does to all. -/
theorem Sorted.mapM {P Q : CsysBlock → Prop} {f : CsysBlock → Option CsysBlock} {st st' : Csys}
    (hf : ∀ b b', f b = some b' → P b → b'.type = b.type ∧ Q b') (h : st.mapM f = some st')
    (hst : Sorted P st) : Sorted Q st' := by
  simp only [Csys.mapM, Option.bind_eq_bind, Option.bind_eq_some_iff] at h
  obtain ⟨boot, hboot, conf, hconf, webp, hwebp, code, hcode, rest, hrest, hst'⟩ := h
  cases hst'
  have hone : ∀ {x y : Option CsysBlock} {t : BlockType}, x.mapM f = some y →
      (∀ b ∈ x, b.type = t ∧ P b) → ∀ b' ∈ y, b'.type = t ∧ Q b' := by
    intro x y t hxy hx b' hb'
    obtain ⟨b, hb, hfb⟩ := mem_option_mapM hxy b' hb'
    obtain ⟨htype, hQ⟩ := hf b b' hfb (hx b hb).2
    exact ⟨htype.trans (hx b hb).1, hQ⟩
  refine ⟨hone hboot hst.boot, hone hconf hst.conf, hone hwebp hst.webp, hone hcode hst.code, ?_⟩
  intro b' hb'
  obtain ⟨b, hb, hfb⟩ := mem_list_mapM hrest b' hb'
  obtain ⟨htype, hQ⟩ := hf b b' hfb (hst.rest b hb).2
  rw [htype]
  exact ⟨(hst.rest b hb).1, hQ⟩

/-! ## The layout -/

/-- What the table of boards promises. -/
structure BoardOk (board : BoardInfo) : Prop where
  boot : board.bootSize = ADM_BOOT_SIZE
  conf : board.confSize = ADM_CONF_SIZE
  webpMax : board.webpSizeMax.toNat < 2 ^ 22
  flash : 2 ^ 16 ≤ board.flashSize.toNat ∧ board.flashSize.toNat ≤ 2 ^ 22
  sig : (board.sigWebp.take 4).length = 4

theorem boardOk_of_mem {board : BoardInfo} (h : board ∈ boards) : BoardOk board := by
  have hall : ∀ b ∈ boards, b.bootSize = ADM_BOOT_SIZE ∧ b.confSize = ADM_CONF_SIZE ∧
      b.webpSizeMax.toNat < 2 ^ 22 ∧
      (2 ^ 16 ≤ b.flashSize.toNat ∧ b.flashSize.toNat ≤ 2 ^ 22) ∧
      (b.sigWebp.take 4).length = 4 := by decide +kernel
  obtain ⟨hboot, hconf, hmax, hflash, hsig⟩ := hall board h
  exact ⟨hboot, hconf, hmax, hflash, hsig⟩

/-- The alignment of a block, with the default. -/
def alignment (b : CsysBlock) : Nat :=
  if b.alignSet then b.align.toNat else DEFAULT_BLOCK_ALIGN.toNat

/-- The bytes that a block has to hold. -/
def total (b : CsysBlock) : Nat := b.fileSize.toNat + (b.sizeHdr.toNat + b.sizeCsum.toNat)

/-- From this offset, the block ends within 32 bits, and exactly one
alignment behind it. -/
def OneUnit (start : Nat) (b : CsysBlock) : Prop :=
  start + total b + (alignment b - 1) < 2 ^ 32 ∧
    alignUp (start + total b) (alignment b) = start + alignment b

instance (start : Nat) (b : CsysBlock) : Decidable (OneUnit start b) :=
  inferInstanceAs (Decidable (_ ∧ _))

theorem placeBlock_align (sig : List UInt8) (addr offs : UInt32) (b : CsysBlock) :
    (placeBlock sig addr offs b).align.toNat = alignment b := by
  simp only [placeBlock, alignment]
  split <;> rfl

theorem placeBlock_size (sig : List UInt8) (addr offs : UInt32) (b : CsysBlock) :
    (placeBlock sig addr offs b).size =
      align (offs + b.fileSize + b.sizeHdr + b.sizeCsum) (placeBlock sig addr offs b).align - offs :=
  rfl

/-- A placed block that has room for its parts and the size of one alignment. -/
theorem oneUnit_of_size {sig : List UInt8} {addr offs : UInt32} {b : CsysBlock} (hkind : KindOk b)
    (hoffs : offs.toNat < 2 ^ 30) (hsize : (placeBlock sig addr offs b).size.toNat < 2 ^ 30)
    (hroom : total b ≤ (placeBlock sig addr offs b).size.toNat)
    (halign : (placeBlock sig addr offs b).align = (placeBlock sig addr offs b).size) :
    OneUnit offs.toNat b := by
  have hsmall : b.sizeHdr.toNat + b.sizeCsum.toNat < 2 ^ 10 := by
    have hcsum := hkind.sizes.2
    rcases hkind.sizes.1 with hhdr | hhdr
    · rw [hhdr]
      show 0 + _ < _
      omega
    · rw [hhdr]
      show 12 + _ < _
      omega
  rw [placeBlock_size] at hsize hroom
  have hfit := fit_of_size rfl hoffs hsmall hsize hroom
  obtain ⟨hexact, -, -⟩ := size_of_fit rfl hfit
  rw [← placeBlock_size, ← halign, placeBlock_align] at hexact
  rw [placeBlock_align] at hfit
  have hle := le_alignUp (offs.toNat + total b) (alignment b)
  refine ⟨hfit, ?_⟩
  rw [total] at hle ⊢
  omega

/-- The converse; the next block starts one alignment later. -/
theorem size_of_oneUnit {offs : UInt32} {b : CsysBlock} (h : OneUnit offs.toNat b)
    (sig : List UInt8) (addr : UInt32) :
    total b ≤ (placeBlock sig addr offs b).size.toNat ∧
      (placeBlock sig addr offs b).align = (placeBlock sig addr offs b).size ∧
      (placeBlock sig addr offs b).size.toNat = alignment b ∧
      (offs + (placeBlock sig addr offs b).size).toNat = offs.toNat + alignment b := by
  obtain ⟨hfit, hone⟩ := h
  rw [← placeBlock_align sig addr offs b] at hfit hone ⊢
  obtain ⟨hexact, hroom, hend⟩ := size_of_fit rfl hfit
  rw [← placeBlock_size] at hexact hroom hend
  rw [total] at hone
  have hsame : (placeBlock sig addr offs b).size.toNat = (placeBlock sig addr offs b).align.toNat := by
    omega
  exact ⟨hroom, UInt32.toNat_inj.mp hsame.symm, hsame, hend.trans hone⟩

/-- The extra blocks end within 32 bits, one behind the other. -/
def XtrasFit : Nat → List CsysBlock → Prop
  | _, [] => True
  | start, b :: rest =>
      if b.type ≠ .xtra then XtrasFit start rest
      else start + b.fileSize.toNat + (alignment b - 1) < 2 ^ 32 ∧
        XtrasFit (alignUp (start + b.fileSize.toNat) (alignment b)) rest

instance decidableXtrasFit : (start : Nat) → (l : List CsysBlock) → Decidable (XtrasFit start l)
  | _, [] => isTrue trivial
  | start, b :: rest =>
      have := decidableXtrasFit start rest
      have := decidableXtrasFit (alignUp (start + b.fileSize.toNat) (alignment b)) rest
      inferInstanceAs (Decidable (if b.type ≠ .xtra then XtrasFit start rest
        else start + b.fileSize.toNat + (alignment b - 1) < 2 ^ 32 ∧
          XtrasFit (alignUp (start + b.fileSize.toNat) (alignment b)) rest))

theorem placeXtra_align (offs : UInt32) (b : CsysBlock) :
    (placeXtra offs b).align.toNat = alignment b := by
  simp only [placeXtra, alignment]
  split <;> rfl

/-- An extra block as a block without a header and without a checksum. -/
theorem placeXtra_size (offs : UInt32) (b : CsysBlock) :
    (placeXtra offs b).size = align (offs + b.fileSize + 0 + 0) (placeXtra offs b).align - offs := by
  rw [UInt32.add_zero, UInt32.add_zero]
  rfl

/-- A block that belongs to no header and no checksum can use all its size. -/
theorem setAvail_plain {b : CsysBlock} (hkind : KindOk b) (htype : b.type = .boot ∨ b.type = .xtra) :
    (setAvail b).sizeAvail = b.size := by
  have hother : b.sizeHdr = 0 ∧ b.sizeCsum = 0 := by
    refine hkind.other ?_ ?_ <;> rcases htype with h | h <;> rw [h] <;> decide
  rw [setAvail, hother.1, hother.2, UInt32.sub_zero, UInt32.sub_zero]

/-- The extra blocks that are accepted fit one by one exactly if they end
within 32 bits, and then they fit together. -/
theorem xtras_iff {flashSize : UInt32} (hflash : flashSize.toNat ≤ 2 ^ 22) {P : CsysBlock → Prop}
    (hP : ∀ b, P b → KindOk b ∧ b.size = 0) (l : List CsysBlock) : ∀ {offs : UInt32},
    offs.toNat ≤ flashSize.toNat → (placeRest flashSize offs l).2 = false →
    (∀ b ∈ l, (b.type = .boot ∨ b.type = .xtra) ∧ P b) →
    (∀ b ∈ (placeRest flashSize offs l).1, b.fileSize ≤ (setAvail b).sizeAvail) →
    ((∀ b ∈ (placeRest flashSize offs l).1, b.size.toNat ≤ flashSize.toNat) ↔
      XtrasFit offs.toNat l) ∧
    (XtrasFit offs.toNat l →
      offs.toNat + ((placeRest flashSize offs l).1.map (·.size.toNat)).sum ≤ flashSize.toNat) := by
  induction l with
  | nil =>
      intro offs hoffs _ _ _
      refine ⟨iff_of_true (fun b hb => absurd hb List.not_mem_nil) trivial, fun _ => ?_⟩
      simpa [placeRest] using hoffs
  | cons b l ih =>
      intro offs hoffs hbig hl havail
      rw [List.forall_mem_cons] at hl
      obtain ⟨hkind, hsize⟩ := hP b hl.1.2
      by_cases htype : b.type = .xtra
      · -- the block is placed, the others come behind its end
        simp only [placeRest, htype, ne_eq, not_true_eq_false, if_false] at hbig havail ⊢
        rw [Bool.or_eq_false_iff, decide_eq_false_iff_not, gt_iff_lt, UInt32.not_lt] at hbig
        rw [List.forall_mem_cons] at havail ⊢
        have hend := UInt32.le_iff_toNat_le.mp hbig.1
        have hkindX : KindOk (placeXtra offs b) := ⟨hkind.sig, hkind.webp, hkind.code, hkind.other⟩
        have hroom : b.fileSize ≤ (placeXtra offs b).size := by
          have h := havail.1
          rwa [setAvail_plain hkindX (Or.inr htype)] at h
        have hfits : (placeXtra offs b).size.toNat ≤ flashSize.toNat ↔
            offs.toNat + b.fileSize.toNat + (alignment b - 1) < 2 ^ 32 := by
          rw [← placeXtra_align offs b]
          constructor
          · intro hle
            have hnat := UInt32.le_iff_toNat_le.mp hroom
            rw [placeXtra_size] at hle hnat
            exact @fit_of_size offs b.fileSize 0 0 _ 0 rfl (by omega) (by decide) (by omega) hnat
          · intro hfit
            obtain ⟨-, -, hnat⟩ := @size_of_fit offs b.fileSize 0 0 _ 0 rfl hfit
            obtain ⟨hexact, -, -⟩ := @size_of_fit offs b.fileSize 0 0 _ 0 rfl hfit
            rw [← placeXtra_size] at hnat hexact
            omega
        have hnext : offs.toNat + b.fileSize.toNat + (alignment b - 1) < 2 ^ 32 →
            (offs + (placeXtra offs b).size).toNat =
                alignUp (offs.toNat + b.fileSize.toNat) (alignment b) ∧
              (offs + (placeXtra offs b).size).toNat = offs.toNat + (placeXtra offs b).size.toNat := by
          intro hfit
          rw [← placeXtra_align offs b] at hfit ⊢
          obtain ⟨hexact, -, hnat⟩ := @size_of_fit offs b.fileSize 0 0 _ 0 rfl hfit
          rw [← placeXtra_size] at hnat hexact
          have hle := le_alignUp (offs.toNat + (b.fileSize.toNat + 0)) (placeXtra offs b).align.toNat
          exact ⟨hnat, by omega⟩
        obtain ⟨hiff, hsum⟩ := ih hend hbig.2 hl.2 havail.2
        simp only [XtrasFit, htype, ne_eq, not_true_eq_false, if_false]
        constructor
        · constructor
          · rintro ⟨hle, hrest⟩
            have hfit := hfits.mp hle
            exact ⟨hfit, (hnext hfit).1 ▸ hiff.mp hrest⟩
          · rintro ⟨hfit, hrest⟩
            exact ⟨hfits.mpr hfit, hiff.mpr ((hnext hfit).1 ▸ hrest)⟩
        · rintro ⟨hfit, hrest⟩
          have htotal := hsum ((hnext hfit).1 ▸ hrest)
          rw [(hnext hfit).2] at htotal
          rw [List.map_cons, List.sum_cons]
          omega
      · simp only [placeRest, ne_eq, htype, not_false_eq_true, if_true] at hbig havail ⊢
        rw [List.forall_mem_cons] at havail ⊢
        obtain ⟨hiff, hsum⟩ := ih hoffs hbig hl.2 havail.2
        simp only [XtrasFit, ne_eq, htype, not_false_eq_true, if_true, List.map_cons, List.sum_cons]
        have hzero : b.size.toNat = 0 := by
          rw [hsize]
          rfl
        constructor
        · rw [hzero, and_iff_right (Nat.zero_le _)]
          exact hiff
        · intro hfit
          have htotal := hsum hfit
          omega

/-- The block is written as it describes itself. -/
def Describes (fs : Files) (b : CsysBlock) : Prop := ∃ hdr data csum,
  (∀ o, (blockWriteout fs b o).map (·.outfile) = some (o.outfile ++ (hdr ++ (data ++ csum)))) ∧
  BlockOk b hdr data csum

theorem describes_setAvail {fs : Files} {b : CsysBlock} (hkind : KindOk b) (hstat : Statted fs b)
    (hfile : b.fileSize ≤ (setAvail b).sizeAvail) :
    Describes fs (setAvail b) ↔
      b.sizeHdr.toNat + b.sizeCsum.toNat ≤ b.size.toNat ∧ (b.sizeHdr ≠ 0 → b.align = b.size) :=
  @blockOk_iff fs (setAvail b) ⟨hkind.sig, hkind.webp, hkind.code, hkind.other⟩ hstat hfile rfl

/-- A block with no header and no checksum always does. -/
theorem describes_plain {fs : Files} {b : CsysBlock} (hkind : KindOk b) (hstat : Statted fs b)
    (hwebp : b.type ≠ .webp) (hcode : b.type ≠ .code)
    (hfile : b.fileSize ≤ (setAvail b).sizeAvail) : Describes fs (setAvail b) := by
  obtain ⟨hhdr, hcsum⟩ := hkind.other hwebp hcode
  refine (describes_setAvail hkind hstat hfile).mpr ⟨?_, fun hne => absurd hhdr hne⟩
  rw [hhdr, hcsum]
  exact Nat.zero_le _

/-- The room for the file, with the header and the checksum. -/
theorem total_le {b : CsysBlock} (hroom : b.sizeHdr.toNat + b.sizeCsum.toNat ≤ b.size.toNat)
    (hfile : b.fileSize ≤ (setAvail b).sizeAvail) : total b ≤ b.size.toNat := by
  have hle := UInt32.le_iff_toNat_le.mp hfile
  have hhdr := b.sizeHdr.toNat_lt
  have hcsum := b.sizeCsum.toNat_lt
  have hlt := b.size.toNat_lt
  simp only [setAvail, UInt32.toNat_sub] at hle
  rw [total]
  omega

section Unit

variable {fs : Files} {sig : List UInt8} {addr offs : UInt32} {x : Option CsysBlock}

/-- The web block or the code block, where it describes itself. -/
theorem oneUnit_of_describes (hoffs : offs.toNat < 2 ^ 30)
    (hx : ∀ b ∈ x, KindOk b ∧ Statted fs b ∧ b.sizeHdr ≠ 0) (hsig : (sig.take 4).length = 4)
    (hfile : ∀ b ∈ x.map (placeBlock sig addr offs), b.fileSize ≤ (setAvail b).sizeAvail)
    (hsize : ∀ b ∈ x.map (placeBlock sig addr offs), b.size.toNat < 2 ^ 30)
    (h : ∀ b ∈ (x.map (placeBlock sig addr offs)).map setAvail, Describes fs b) :
    ∀ b ∈ x, OneUnit offs.toNat b := by
  intro b hb
  cases hb
  obtain ⟨hkind, hstat, hhdr⟩ := hx b rfl
  have hfile' := hfile _ rfl
  obtain ⟨hroom, halign⟩ := (describes_setAvail
    (b := placeBlock sig addr offs b) ⟨hsig, hkind.webp, hkind.code, hkind.other⟩ hstat hfile').mp
    (h _ rfl)
  have htotal : total b ≤ (placeBlock sig addr offs b).size.toNat :=
    total_le (b := placeBlock sig addr offs b) hroom hfile'
  exact oneUnit_of_size hkind hoffs (hsize _ rfl) htotal (halign hhdr)

/-- The converse, with the offset behind the block. -/
theorem describes_of_oneUnit (hx : ∀ b ∈ x, KindOk b ∧ Statted fs b ∧ b.sizeHdr ≠ 0)
    (hsig : (sig.take 4).length = 4)
    (hfile : ∀ b ∈ x.map (placeBlock sig addr offs), b.fileSize ≤ (setAvail b).sizeAvail)
    (h : ∀ b ∈ x, OneUnit offs.toNat b) :
    (∀ b ∈ (x.map (placeBlock sig addr offs)).map setAvail, Describes fs b) ∧
      (sizeOf (x.map (placeBlock sig addr offs))).toNat = x.elim 0 alignment ∧
      (offs + sizeOf (x.map (placeBlock sig addr offs))).toNat
        = offs.toNat + x.elim 0 alignment := by
  cases x with
  | none =>
      refine ⟨?_, rfl, congrArg UInt32.toNat (UInt32.add_zero offs)⟩
      intro b hb
      cases hb
  | some b =>
      obtain ⟨hkind, hstat, hhdr⟩ := hx b rfl
      obtain ⟨hroom, halign, hsize, hend⟩ := size_of_oneUnit (h b rfl) sig addr
      refine ⟨?_, hsize, hend⟩
      intro c hc
      cases hc
      refine (describes_setAvail (b := placeBlock sig addr offs b)
        ⟨hsig, hkind.webp, hkind.code, hkind.other⟩ hstat (hfile _ rfl)).mpr ⟨?_, fun _ => halign⟩
      rw [total] at hroom
      show b.sizeHdr.toNat + b.sizeCsum.toNat ≤ _
      omega

end Unit

/-! ## Accepted lists -/

/-- Where the web block starts: behind the boot code and the configuration. -/
def webpStart : Nat := 0x10000

/-- Where the code block starts, behind a web block of one alignment. -/
def codeStart (st : Csys) : Nat := webpStart + st.webp.elim 0 alignment

/-- Where the extra blocks start, behind a code block of one alignment. -/
def xtraStart (st : Csys) : Nat := codeStart st + st.code.elim 0 alignment

/-- At most 8 blocks; the web block and the code block with their headers
and checksums end one alignment behind their offset; nothing wraps. -/
structure Describable (st : Csys) : Prop where
  count : st.numBlocks ≤ MAX_NUM_BLOCKS
  webp : ∀ b ∈ st.webp, OneUnit webpStart b
  code : ∀ b ∈ st.code, OneUnit (codeStart st) b
  xtras : XtrasFit (xtraStart st) st.rest

instance (st : Csys) : Decidable (Describable st) :=
  decidable_of_iff (st.numBlocks ≤ MAX_NUM_BLOCKS ∧ (∀ b ∈ st.webp, OneUnit webpStart b) ∧
      (∀ b ∈ st.code, OneUnit (codeStart st) b) ∧ XtrasFit (xtraStart st) st.rest)
    ⟨fun ⟨count, webp, code, xtras⟩ => ⟨count, webp, code, xtras⟩,
      fun h => ⟨h.count, h.webp, h.code, h.xtras⟩⟩

section Accepted

variable (board : BoardInfo) (st : Csys)

def webpOffs : UInt32 := board.bootSize + board.confSize

def webpPlaced : Option CsysBlock := st.webp.map (placeBlock board.sigWebp board.addrWebp (webpOffs board))

def codeOffs : UInt32 := webpOffs board + sizeOf (webpPlaced board st)

def codePlaced : Option CsysBlock := st.code.map (placeBlock SIG_CSYS board.addrCode (codeOffs board st))

def xtraOffs : UInt32 := codeOffs board st + sizeOf (codePlaced board st)

/-- The array behind `process_blocks`, with the parts named. -/
theorem layout_snd : (layout board st).2 = Csys.map setAvail
    ⟨st.boot.map fun b => { b with size := board.bootSize },
      st.conf.map fun b => { b with size := board.confSize }, webpPlaced board st, codePlaced board st,
      (placeRest board.flashSize (xtraOffs board st) st.rest).1⟩ := rfl

/-- What an accepted array satisfies. -/
structure Accepted : Prop where
  webp : ∀ b ∈ webpPlaced board st, b.size.toNat ≤ board.webpSizeMax.toNat ∧
    (codeOffs board st).toNat ≤ board.flashSize.toNat
  code : ∀ b ∈ codePlaced board st, (xtraOffs board st).toNat ≤ board.flashSize.toNat
  rest : (placeRest board.flashSize (xtraOffs board st) st.rest).2 = false
  room : ∀ b ∈ (layout board st).2.all, b.fileSize ≤ b.sizeAvail

variable {board st}

theorem any_eq_false {x : Option CsysBlock} {p : CsysBlock → Bool} (h : x.any p = false) :
    ∀ b ∈ x, p b = false := by
  intro b hb
  cases hb
  exact h

theorem accepted_of_layout (h : (layout board st).1 = false) : Accepted board st := by
  have hall : ((((((st.boot.map fun b => { b with size := board.bootSize }).any
        fun b => b.fileSize > board.bootSize) ||
      (st.conf.map fun b => { b with size := board.confSize }).any
        fun b => b.fileSize > board.confSize) ||
      (webpPlaced board st).any
        fun b => b.size > board.webpSizeMax || codeOffs board st > board.flashSize) ||
      (codePlaced board st).any fun _ => xtraOffs board st > board.flashSize) ||
      (placeRest board.flashSize (xtraOffs board st) st.rest).2 ||
      (layout board st).2.all.any fun b => b.sizeAvail < b.fileSize) = false := h
  simp only [Bool.or_eq_false_iff] at hall
  obtain ⟨⟨⟨⟨⟨-, -⟩, hwebp⟩, hcode⟩, hrest⟩, hroom⟩ := hall
  refine ⟨fun b hb => ?_, fun b hb => ?_, hrest, fun b hb => ?_⟩
  · have hb' := any_eq_false hwebp b hb
    rw [Bool.or_eq_false_iff, decide_eq_false_iff_not, decide_eq_false_iff_not, gt_iff_lt, gt_iff_lt,
      UInt32.not_lt, UInt32.not_lt] at hb'
    exact ⟨UInt32.le_iff_toNat_le.mp hb'.1, UInt32.le_iff_toNat_le.mp hb'.2⟩
  · have hb' := any_eq_false hcode b hb
    rw [decide_eq_false_iff_not, gt_iff_lt, UInt32.not_lt] at hb'
    exact UInt32.le_iff_toNat_le.mp hb'
  · have hb' := List.any_eq_false.mp hroom b hb
    rwa [decide_eq_true_eq, UInt32.not_lt] at hb'

/-- The offsets stay in the flash. -/
theorem Accepted.offsets (h : Accepted board st) (hboard : BoardOk board) :
    (webpOffs board).toNat = webpStart ∧
      (codeOffs board st).toNat ≤ board.flashSize.toNat ∧
      (xtraOffs board st).toNat ≤ board.flashSize.toNat := by
  have hstart : (webpOffs board).toNat = webpStart := by
    rw [webpOffs, hboard.boot, hboard.conf]
    rfl
  have hcode : (codeOffs board st).toNat ≤ board.flashSize.toNat := by
    cases hwebp : webpPlaced board st with
    | some b => exact (h.webp b hwebp).2
    | none =>
        rw [codeOffs, hwebp, sizeOf, Option.elim_none, UInt32.add_zero, hstart]
        exact hboard.flash.1
  refine ⟨hstart, hcode, ?_⟩
  cases hplaced : codePlaced board st with
  | some b => exact h.code b hplaced
  | none =>
      rw [xtraOffs, hplaced, sizeOf, Option.elim_none, UInt32.add_zero]
      exact hcode

theorem placeRest_length (flashSize : UInt32) (l : List CsysBlock) : ∀ offs : UInt32,
    (placeRest flashSize offs l).1.length = l.length := by
  induction l with
  | nil => exact fun offs => rfl
  | cons b l ih =>
      intro offs
      rw [placeRest]
      split
      · simp only [List.length_cons, ih]
      · simp only [List.length_cons, ih]

theorem layout_numBlocks (board : BoardInfo) (st : Csys) :
    (layout board st).2.numBlocks = st.numBlocks := by
  have hone : ∀ {f : CsysBlock → CsysBlock} (x : Option CsysBlock),
      (x.map f).toList.length = x.toList.length := by
    intro f x
    cases x <;> rfl
  simp only [layout_snd, Csys.numBlocks, Csys.all, Csys.map, webpPlaced, codePlaced,
    List.length_append, hone, List.length_map, placeRest_length]

/-- The sizes of all blocks. -/
theorem sum_sizes (p : Csys) : (p.all.map (·.size.toNat)).sum =
    (sizeOf p.boot).toNat + ((sizeOf p.conf).toNat + ((sizeOf p.webp).toNat +
      ((sizeOf p.code).toNat + (p.rest.map (·.size.toNat)).sum))) := by
  have hone : ∀ x : Option CsysBlock, (x.toList.map (·.size.toNat)).sum = (sizeOf x).toNat := by
    intro x
    cases x with
    | none => rfl
    | some b => exact Nat.add_zero _
  simp only [Csys.all, List.map_append, List.sum_append, hone]

end Accepted

theorem sizeOf_setAvail (x : Option CsysBlock) : sizeOf (x.map setAvail) = sizeOf x := by
  cases x <;> rfl

/-- The blocks that are placed come from collected ones. -/
theorem collected_placeRest {fs : Files} {flashSize : UInt32} (l : List CsysBlock) :
    ∀ {offs : UInt32}, (∀ b ∈ l, (b.type = .boot ∨ b.type = .xtra) ∧ Collected fs b) →
    ∀ b ∈ (placeRest flashSize offs l).1,
      (b.type = .boot ∨ b.type = .xtra) ∧ KindOk b ∧ Statted fs b := by
  induction l with
  | nil =>
      intro offs _ b hb
      cases hb
  | cons c l ih =>
      intro offs hl
      rw [List.forall_mem_cons] at hl
      obtain ⟨⟨htype, hc⟩, hl⟩ := hl
      rw [placeRest]
      split
      · exact List.forall_mem_cons.mpr ⟨⟨htype, hc.kind, hc.stat⟩, ih hl⟩
      · refine List.forall_mem_cons.mpr ⟨⟨htype, ?_, hc.stat⟩, ih hl⟩
        exact ⟨hc.kind.sig, hc.kind.webp, hc.kind.code, hc.kind.other⟩

/-- The sizes of the array: the boot code and the configuration take at most
what is reserved for them. -/
theorem layout_sum {board : BoardInfo} (hboard : BoardOk board) (st : Csys) : ∃ fixed ≤ webpStart,
    ((layout board st).2.all.map (·.size.toNat)).sum = fixed + ((sizeOf (webpPlaced board st)).toNat +
      ((sizeOf (codePlaced board st)).toNat +
        ((placeRest board.flashSize (xtraOffs board st) st.rest).1.map (·.size.toNat)).sum)) := by
  have hfixed : ∀ (x : Option CsysBlock) {size : UInt32}, size.toNat = 0x8000 →
      (sizeOf (x.map fun b => { b with size := size })).toNat ≤ 0x8000 := by
    intro x size hsize
    cases x with
    | none => exact Nat.zero_le _
    | some b => exact hsize.le
  have hboot := hfixed st.boot (show board.bootSize.toNat = 0x8000 by rw [hboard.boot]; rfl)
  have hconf := hfixed st.conf (show board.confSize.toNat = 0x8000 by rw [hboard.conf]; rfl)
  refine ⟨_, Nat.add_le_add hboot hconf, ?_⟩
  rw [layout_snd, sum_sizes]
  simp only [Csys.map, sizeOf_setAvail, List.map_map]
  exact (Nat.add_assoc _ _ _).symm

/-- The blocks of the layout of an accepted array that are written describe
themselves, if the web block and the code block do. -/
theorem describes_written {fs : Files} {board : BoardInfo} {st : Csys}
    (hst : Sorted (Collected fs) st) (hacc : Accepted board st)
    (hwebp : ∀ b ∈ (webpPlaced board st).map setAvail, Describes fs b)
    (hcode : ∀ b ∈ (codePlaced board st).map setAvail, Describes fs b) :
    ∀ b ∈ (layout board st).2.written, Describes fs b := by
  have hroom := hacc.room
  rw [layout_snd] at hroom ⊢
  have hplain : ∀ c : CsysBlock, setAvail c ∈ (Csys.map setAvail
      ⟨st.boot.map fun b => { b with size := board.bootSize },
        st.conf.map fun b => { b with size := board.confSize }, webpPlaced board st,
        codePlaced board st,
        (placeRest board.flashSize (xtraOffs board st) st.rest).1⟩).all →
      KindOk c → Statted fs c → c.type ≠ .webp → c.type ≠ .code → Describes fs (setAvail c) :=
    fun c hmem hkind hstat hne₁ hne₂ => describes_plain hkind hstat hne₁ hne₂ (hroom _ hmem)
  intro b hb
  simp only [Csys.written, Csys.map, List.mem_append, Option.mem_toList] at hb
  rcases hb with hb | hb | hb | hb | hb
  · obtain ⟨c, hc, rfl⟩ := Option.map_eq_some_iff.mp hb
    obtain ⟨d, hd, rfl⟩ := Option.map_eq_some_iff.mp hc
    obtain ⟨htype, hcol⟩ := hst.boot d hd
    refine hplain _ ?_ ⟨hcol.kind.sig, hcol.kind.webp, hcol.kind.code, hcol.kind.other⟩ hcol.stat
      ?_ ?_
    · simp only [Csys.all, Csys.map, List.mem_append, Option.mem_toList]
      exact Or.inl hb
    · rw [htype]
      decide
    · rw [htype]
      decide
  · obtain ⟨c, hc, rfl⟩ := Option.map_eq_some_iff.mp hb
    obtain ⟨d, hd, rfl⟩ := Option.map_eq_some_iff.mp hc
    obtain ⟨htype, hcol⟩ := hst.conf d hd
    refine hplain _ ?_ ⟨hcol.kind.sig, hcol.kind.webp, hcol.kind.code, hcol.kind.other⟩ hcol.stat
      ?_ ?_
    · simp only [Csys.all, Csys.map, List.mem_append, Option.mem_toList]
      exact Or.inr (Or.inl hb)
    · rw [htype]
      decide
    · rw [htype]
      decide
  · exact hwebp b hb
  · exact hcode b hb
  · have hrest := (List.mem_filter.mp hb).1
    obtain ⟨c, hc, rfl⟩ := List.mem_map.mp hrest
    obtain ⟨htype, hkind, hstat⟩ := collected_placeRest st.rest hst.rest c hc
    refine hplain c ?_ hkind hstat ?_ ?_
    · simp only [Csys.all, Csys.map, List.mem_append]
      exact Or.inr (Or.inr (Or.inr (Or.inr hrest)))
    · rcases htype with h | h <;> rw [h] <;> decide
    · rcases htype with h | h <;> rw [h] <;> decide

/-- The room that acceptance promises, block by block. -/
theorem Accepted.files {board : BoardInfo} {st : Csys} (h : Accepted board st) :
    (∀ b ∈ webpPlaced board st, b.fileSize ≤ (setAvail b).sizeAvail) ∧
    (∀ b ∈ codePlaced board st, b.fileSize ≤ (setAvail b).sizeAvail) ∧
    ∀ b ∈ (placeRest board.flashSize (xtraOffs board st) st.rest).1,
      b.fileSize ≤ (setAvail b).sizeAvail := by
  have hroom := h.room
  simp only [layout_snd, Csys.all, Csys.map, List.mem_append, Option.mem_toList] at hroom
  refine ⟨fun b hb => ?_, fun b hb => ?_, fun b hb => ?_⟩
  · exact hroom _ (Or.inr (Or.inr (Or.inl (Option.mem_map_of_mem setAvail hb))))
  · exact hroom _ (Or.inr (Or.inr (Or.inr (Or.inl (Option.mem_map_of_mem setAvail hb)))))
  · exact hroom _ (Or.inr (Or.inr (Or.inr (Or.inr (List.mem_map_of_mem hb)))))

/-- The layout of an accepted array describes itself exactly if the array
is describable. -/
theorem layout_selfDescribing_iff {fs : Files} {board : BoardInfo} {st : Csys}
    (hboard : BoardOk board) (hst : Sorted (Collected fs) st) (hvalid : (layout board st).1 = false) :
    SelfDescribing fs board (layout board st).2 ↔ Describable st := by
  have hacc := accepted_of_layout hvalid
  obtain ⟨hstart, hcodeLe, hxtraLe⟩ := hacc.offsets hboard
  obtain ⟨hwebpFile, hcodeFile, hrestFile⟩ := hacc.files
  have hflash := hboard.flash.2
  have hmax := hboard.webpMax
  have hwebpX : ∀ b ∈ st.webp, KindOk b ∧ Statted fs b ∧ b.sizeHdr ≠ 0 := by
    intro b hb
    obtain ⟨htype, hc⟩ := hst.webp b hb
    exact ⟨hc.kind, hc.stat, by rw [(hc.kind.webp htype).1]; decide⟩
  have hcodeX : ∀ b ∈ st.code, KindOk b ∧ Statted fs b ∧ b.sizeHdr ≠ 0 := by
    intro b hb
    obtain ⟨htype, hc⟩ := hst.code b hb
    exact ⟨hc.kind, hc.stat, by rw [(hc.kind.code htype).1]; decide⟩
  have hxtras := xtras_iff hflash (fun b hb => ⟨hb.kind, hb.size⟩) st.rest hxtraLe hacc.rest
    hst.rest hrestFile
  obtain ⟨fixed, hfixed, hsum⟩ := layout_sum hboard st
  constructor
  · rintro ⟨hcount, hblocks, hfits⟩
    rw [layout_numBlocks] at hcount
    rw [hsum] at hfits
    rw [layout_snd] at hblocks
    simp only [Csys.written, Csys.map, List.mem_append, Option.mem_toList] at hblocks
    -- each block has its own part of the flash, so that nothing wraps
    have hwebp : ∀ b ∈ st.webp, OneUnit (webpOffs board).toNat b := by
      refine oneUnit_of_describes (by rw [hstart]; decide) hwebpX hboard.sig hwebpFile
        (fun b hb => ?_) fun b hb => hblocks b (Or.inr (Or.inr (Or.inl hb)))
      have hle := (hacc.webp b hb).1
      omega
    obtain ⟨-, -, hcodeOffs⟩ := describes_of_oneUnit hwebpX hboard.sig hwebpFile hwebp
    have hcode : ∀ b ∈ st.code, OneUnit (codeOffs board st).toNat b := by
      refine oneUnit_of_describes (by omega) hcodeX rfl hcodeFile (fun b hb => ?_)
        fun b hb => hblocks b (Or.inr (Or.inr (Or.inr (Or.inl hb))))
      have hsize : sizeOf (codePlaced board st) = b.size := by
        rw [show codePlaced board st = some b from hb]
        rfl
      rw [hsize] at hfits
      omega
    obtain ⟨-, -, hxtraOffs⟩ := describes_of_oneUnit hcodeX rfl hcodeFile hcode
    have hcodeStart : (codeOffs board st).toNat = codeStart st := by
      rw [codeStart, ← hstart]
      exact hcodeOffs
    have hxtraStart : (xtraOffs board st).toNat = xtraStart st := by
      rw [xtraStart, ← hcodeStart]
      exact hxtraOffs
    refine ⟨hcount, hstart ▸ hwebp, hcodeStart ▸ hcode, hxtraStart ▸ hxtras.1.mp fun b hb => ?_⟩
    have hle := List.le_sum_of_mem (List.mem_map_of_mem (f := fun b : CsysBlock => b.size.toNat) hb)
    omega
  · rintro ⟨hcount, hwebp, hcode, hfit⟩
    rw [← hstart] at hwebp
    obtain ⟨hwebpOk, hwebpSize, hcodeOffs⟩ :=
      describes_of_oneUnit hwebpX hboard.sig hwebpFile hwebp
    have hcodeStart : (codeOffs board st).toNat = codeStart st := by
      rw [codeStart, ← hstart]
      exact hcodeOffs
    rw [← hcodeStart] at hcode
    obtain ⟨hcodeOk, hcodeSize, hxtraOffs⟩ := describes_of_oneUnit hcodeX rfl hcodeFile hcode
    have hxtraStart : (xtraOffs board st).toNat = xtraStart st := by
      rw [xtraStart, ← hcodeStart]
      exact hxtraOffs
    rw [← hxtraStart] at hfit
    have htotal := hxtras.2 hfit
    refine ⟨?_, describes_written hst hacc hwebpOk hcodeOk, ?_⟩
    · rw [layout_numBlocks]
      exact hcount
    · have hw : (sizeOf (webpPlaced board st)).toNat = st.webp.elim 0 alignment := hwebpSize
      have hc : (sizeOf (codePlaced board st)).toNat = st.code.elim 0 alignment := hcodeSize
      rw [hxtraStart, xtraStart, codeStart] at htotal
      rw [hsum]
      omega

/-- For every board, every file system and every list of options that is
accepted, the blocks describe themselves exactly if the array of the blocks
with their file sizes is describable. -/
theorem selfDescribing_iff (fs : Files) (board : BoardInfo) (hboard : board ∈ boards)
    (opts : List OptBlock) (parsed placed : Csys)
    (hparse : opts.foldlM parseOptBlock Csys.empty = some parsed)
    (hproc : processBlocks fs board parsed = some (false, placed)) :
    ∃ st, parsed.mapM (blockStatFile fs) = some st ∧
      (SelfDescribing fs board placed ↔ Describable st) := by
  simp only [processBlocks, Option.bind_eq_bind, Option.bind_eq_some_iff] at hproc
  obtain ⟨st, hst, hlayout⟩ := hproc
  have hpair : layout board st = (false, placed) := Option.some.inj hlayout
  have hsorted : Sorted (Collected fs) st :=
    (sorted_options hparse (sorted_empty Parsed)).mapM
      (fun b b' hb hparsed => collected_blockStatFile hb hparsed) hst
  have hiff := layout_selfDescribing_iff (boardOk_of_mem hboard) hsorted (by rw [hpair])
  rw [hpair] at hiff
  exact ⟨st, hst, hiff⟩

/-- A web block of three bytes, a code block and an extra block of one. -/
def smallOpts : List OptBlock :=
  [⟨.webp, ['w'], []⟩, ⟨.code, ['r'], []⟩, ⟨.xtra, ['r'], [some 0x100, some 0]⟩]

def smallFiles : Files := fun name => if name = ['w'] then some [1, 2, 3] else some [4]

theorem selfDescribing_smallFiles :
    ∃ parsed placed, smallOpts.foldlM parseOptBlock Csys.empty = some parsed ∧
      processBlocks smallFiles (BOARD_ADM 2 "WB4K") parsed = some (false, placed) ∧
      SelfDescribing smallFiles (BOARD_ADM 2 "WB4K") placed := by
  have hrun : ((smallOpts.foldlM parseOptBlock Csys.empty).bind
      (processBlocks smallFiles (BOARD_ADM 2 "WB4K"))).map Prod.fst = some false := by decide +kernel
  have hdescribable : ∀ st ∈ (smallOpts.foldlM parseOptBlock Csys.empty).bind
      (·.mapM (blockStatFile smallFiles)), Describable st := by decide +kernel
  obtain ⟨⟨invalid, placed⟩, hproc, rfl⟩ := Option.map_eq_some_iff.mp hrun
  obtain ⟨parsed, hparse, hproc⟩ := Option.bind_eq_some_iff.mp hproc
  obtain ⟨st, hst, hiff⟩ :=
    selfDescribing_iff smallFiles _ List.mem_cons_self smallOpts parsed placed hparse hproc
  refine ⟨parsed, placed, hparse, hproc, hiff.mpr (hdescribable st ?_)⟩
  rw [hparse]
  exact hst

/-- A code block with an alignment that does not hold it. -/
def wideOpts : List OptBlock := [⟨.code, ['r'], [none, some 16]⟩]

/-- Five bytes with header and checksum take two units of 16 bytes: 20 bytes
follow the header, which says 4. -/
theorem selfDescribing_fails :
    ¬∀ (fs : Files) (board : BoardInfo), board ∈ boards → ∀ (opts : List OptBlock) (parsed placed : Csys),
      opts.foldlM parseOptBlock Csys.empty = some parsed →
      processBlocks fs board parsed = some (false, placed) → SelfDescribing fs board placed := by
  intro hclaim
  let fs : Files := fun _ => some [1, 2, 3, 4, 5]
  have hrun : ((wideOpts.foldlM parseOptBlock Csys.empty).bind
      (·.mapM (blockStatFile fs))).map (fun st => ((layout (BOARD_ADM 2 "WB4K") st).1,
        st.code.map total, st.code.map alignment, codeStart st))
      = some (false, some 19, some 16, 0x10000) := by decide +kernel
  obtain ⟨st, hst, hvals⟩ := Option.map_eq_some_iff.mp hrun
  obtain ⟨parsed, hparse, hstat⟩ := Option.bind_eq_some_iff.mp hst
  simp only [Prod.mk.injEq] at hvals
  obtain ⟨hvalid, htotal, halign, hstart⟩ := hvals
  have hproc : processBlocks fs (BOARD_ADM 2 "WB4K") parsed =
      some (false, (layout (BOARD_ADM 2 "WB4K") st).2) := by
    rw [processBlocks, hstat, ← hvalid]
    rfl
  have hsorted : Sorted (Collected fs) st :=
    (sorted_options hparse (sorted_empty Parsed)).mapM
      (fun b b' hb hparsed => collected_blockStatFile hb hparsed) hstat
  have hself := hclaim fs _ List.mem_cons_self wideOpts parsed _ hparse hproc
  have hdesc := (layout_selfDescribing_iff (boardOk_of_mem List.mem_cons_self) hsorted hvalid).mp hself
  obtain ⟨b, hb, hbTotal⟩ := Option.map_eq_some_iff.mp htotal
  have hbAlign : alignment b = 16 := by
    rw [hb] at halign
    exact Option.some.inj halign
  have hunit := (hdesc.code b hb).2
  rw [hbTotal, hbAlign, hstart] at hunit
  exact absurd hunit (by decide)

end UbntSdk.Images.Csysimg
