/-
UbntSdk.Images.ZynfwSumTheorems — the checksum of a ZyNOS image
(`tools/firmware-utils/src/mkzynfw.c`).

`csumBytes` takes the bytes one by one, and `csum_update`, which takes them half
word by half word, comes to the same state (`csumUpdate_same`): where the data
are cut does not matter. So the state of the checksum is that of all bytes behind
the header (`Summed`). Their number is even at the end, because the padding goes
up to a multiple of 4 of the flash (`body_even`), so the last two bytes are a
half word of their own and take the sum to the one that the boot loader expects.
-/
import UbntSdk.Images.ZynfwTheorems
import UbntSdk.Lib.Checksum

namespace UbntSdk.Images.Zynfw

open UbntSdk.Lib

/-! ## The state of the sum -/

/-- One byte of the data. -/
def csumByte (css : CsumState) (b : UInt8) : CsumState :=
  if css.odd then ⟨false, csumAdd css.sum css.tmp b, css.tmp⟩ else ⟨true, css.sum, b.toUInt32⟩

/-- The data, byte by byte. -/
def csumBytes (p : List UInt8) (css : CsumState) : CsumState := p.foldl csumByte css

theorem csumBytes_append (p q : List UInt8) (css : CsumState) :
    csumBytes (p ++ q) css = csumBytes q (csumBytes p css) := List.foldl_append

/-- The same state; a byte that is not kept does not matter. -/
structure Same (css css' : CsumState) : Prop where
  odd : css.odd = css'.odd
  sum : css.sum = css'.sum
  tmp : css.odd = true → css.tmp = css'.tmp

theorem Same.refl (css : CsumState) : Same css css := ⟨rfl, rfl, fun _ => rfl⟩

theorem csumByte_even {css : CsumState} (h : css.odd = false) (a : UInt8) :
    csumByte css a = ⟨true, css.sum, a.toUInt32⟩ := by
  rw [csumByte, h]
  rfl

/-- The second byte of a half word. -/
theorem csumByte_odd_sum {css : CsumState} (h : css.odd = true) (a b : UInt8)
    (htmp : css.tmp = a.toUInt32) (hsum : css.sum.toNat ≤ 65535) :
    (csumByte css b).odd = false ∧
      (csumByte css b).sum.toNat = addCarry css.sum.toNat (a.toNat * 2 ^ 8 + b.toNat) := by
  have ha := a.toNat_lt
  have hb := b.toNat_lt
  have hword : ((a.toUInt32 <<< 8) + b.toUInt32).toNat = a.toNat * 2 ^ 8 + b.toNat := by
    rw [UInt32.toNat_add, UInt32.toNat_shiftLeft, UInt8.toNat_toUInt32, UInt8.toNat_toUInt32,
      show (8 : UInt32).toNat % 32 = 8 from rfl, Nat.shiftLeft_eq]
    omega
  have hadd : (css.sum + ((a.toUInt32 <<< 8) + b.toUInt32)).toNat =
      css.sum.toNat + (a.toNat * 2 ^ 8 + b.toNat) := by
    rw [UInt32.toNat_add, hword, Nat.mod_eq_of_lt (by omega)]
  rw [csumByte, if_pos h, htmp]
  refine ⟨rfl, ?_⟩
  dsimp only [csumAdd]
  rw [addCarry, ← hadd]
  set s := css.sum + ((a.toUInt32 <<< 8) + b.toUInt32)
  have hlt : s > 0xFFFF ↔ s.toNat > 65535 := UInt32.lt_iff_toNat_lt
  by_cases hgt : s.toNat > 65535
  · rw [if_pos (hlt.mpr hgt), if_pos hgt, UInt32.toNat_and, UInt32.toNat_add,
      show (0xFFFF : UInt32).toNat = 2 ^ 16 - 1 from rfl, Nat.and_two_pow_sub_one_eq_mod,
      show (1 : UInt32).toNat = 1 from rfl]
    omega
  · rw [if_neg (hlt.not.mpr hgt), if_neg hgt]

theorem csumLoop_same (p : List UInt8) {css css' : CsumState} (h : Same css css')
    (hodd : css.odd = false) : Same (csumLoop p css) (csumBytes p css') := by
  have hodd' : css'.odd = false := h.odd ▸ hodd
  induction p using halfWords.induct generalizing css css' with
  | case1 => exact h
  | case2 a =>
      rw [csumLoop, csumBytes, List.foldl_cons, List.foldl_nil, csumByte_even hodd']
      exact ⟨rfl, h.sum, fun _ => rfl⟩
  | case3 a b rest ih =>
      have hstep : csumBytes (a :: b :: rest) css' =
          csumBytes rest ⟨false, csumAdd css'.sum a.toUInt32 b, a.toUInt32⟩ := by
        rw [csumBytes, List.foldl_cons, List.foldl_cons, csumByte_even hodd']
        rfl
      rw [csumLoop, hstep, ← h.sum]
      exact ih ⟨hodd, rfl, fun ht => absurd (hodd.symm.trans ht) (by decide)⟩ hodd rfl

/-- Half word by half word, and byte by byte. -/
theorem csumUpdate_same (p : List UInt8) {css css' : CsumState} (h : Same css css') :
    Same (csumUpdate p css) (csumBytes p css') := by
  cases p with
  | nil => exact h
  | cons a rest =>
      cases hodd : css.odd with
      | false =>
          rw [csumUpdate, if_neg (by simp [hodd])]
          exact csumLoop_same _ h hodd
      | true =>
          have hbyte : csumByte css' a = ⟨false, csumAdd css.sum css.tmp a, css'.tmp⟩ := by
            rw [csumByte, if_pos (h.odd ▸ hodd), h.sum, h.tmp hodd]
          rw [csumUpdate, if_pos hodd, csumBytes, List.foldl_cons, hbyte]
          exact csumLoop_same rest ⟨rfl, rfl, fun ht => by cases ht⟩ rfl

/-- From a state between two half words the rest is added half word by half word. -/
theorem csumBytes_toNat {css : CsumState} (p : List UInt8) (heven : css.odd = false)
    (hsum : css.sum.toNat ≤ 65535) :
    (csumBytes [0] (csumBytes p css)).sum.toUInt16.toNat =
      (halfWords p).foldl addCarry css.sum.toNat := by
  induction p using halfWords.induct generalizing css with
  | case1 =>
      simp only [csumBytes, List.foldl_nil, List.foldl_cons, csumByte_even heven, halfWords,
        UInt32.toNat_toUInt16]
      omega
  | case2 a =>
      obtain ⟨-, hlast⟩ := @csumByte_odd_sum ⟨true, css.sum, a.toUInt32⟩ rfl a 0 rfl hsum
      have hle := addCarry_le hsum (show a.toNat * 2 ^ 8 ≤ 65535 by have := a.toNat_lt; omega)
      simp only [UInt8.toNat_zero, Nat.add_zero] at hlast
      simp only [csumBytes, List.foldl_nil, List.foldl_cons, csumByte_even heven, halfWords,
        UInt32.toNat_toUInt16, hlast]
      omega
  | case3 a b rest ih =>
      obtain ⟨hodd, hnext⟩ := @csumByte_odd_sum ⟨true, css.sum, a.toUInt32⟩ rfl a b rfl hsum
      have hle := addCarry_le hsum (show a.toNat * 2 ^ 8 + b.toNat ≤ 65535 by
        have := a.toNat_lt
        have := b.toNat_lt
        omega)
      have hstep : csumBytes (a :: b :: rest) css =
          csumBytes rest (csumByte ⟨true, css.sum, a.toUInt32⟩ b) := by
        rw [csumBytes, List.foldl_cons, List.foldl_cons, csumByte_even heven]
        rfl
      rw [hstep, ih hodd (by rw [hnext]; exact hle), hnext, halfWords, List.foldl_cons]

/-- The sum that is got is that of the half words of the data. -/
theorem csumGet_toNat {css : CsumState} {p : List UInt8} (h : Same css (csumBytes p csumInit)) :
    (csumGet css).toNat = carrySum p := by
  rw [csumGet, (csumUpdate_same [0] h).sum, csumBytes_toNat p rfl (by decide)]
  rfl

/-- The state is that of all bytes behind the header. -/
def Summed (o : Out) : Prop :=
  sizeofRombinHdr.toNat ≤ o.outfile.length ∧
    Same o.css (csumBytes (o.outfile.drop sizeofRombinHdr.toNat) csumInit)

theorem summed_writeOutData {o : Out} (h : Summed o) (data : List UInt8) :
    Summed (writeOutData data o) := by
  obtain ⟨hlen, hcss⟩ := h
  constructor
  · simp only [writeOutData, List.length_append]
    omega
  · simp only [writeOutData, List.drop_append_of_le_length hlen, csumBytes_append]
    exact csumUpdate_same data hcss

theorem summed_writeOutPadding {o : Out} (h : Summed o) (len : UInt32) (padc : UInt8) :
    Summed (writeOutPadding len padc o) :=
  summed_writeOutData h _

theorem summed_writeOutBlock {fs : Files} {block : FwBlock} {o o' : Out} (h : Summed o)
    (hout : writeOutBlock fs block o = some o') : Summed o' := by
  obtain ⟨content, -, hdata⟩ := Option.bind_eq_some_iff.mp hout
  obtain rfl := Option.some.inj hdata
  exact summed_writeOutData h _

theorem summed_writeOutBootext {fs : Files} {board : BoardInfo} {bootext : FwBlock} {hdr : RombinHdr}
    {offset mmapAddr : UInt32} {o : Out}
    (h : writeOutBootext fs board bootext hdr = some (offset, mmapAddr, o)) : Summed o := by
  obtain ⟨o₁, ho₁, h⟩ := Option.bind_eq_some_iff.mp h
  have hinit : Summed ⟨hdr.bytes, csumInit, []⟩ := by
    constructor
    · exact hdr.bytes_length.ge
    · have hempty : hdr.bytes.drop sizeofRombinHdr.toNat = [] := List.drop_of_length_le hdr.bytes_length.le
      rw [hempty]
      exact Same.refl csumInit
  have hmmap (pad : UInt32) (data : List UInt8) :
      Summed (writeOutData data (writeOutPadding pad 0xFF o₁)) :=
    summed_writeOutData (summed_writeOutPadding (summed_writeOutBlock hinit ho₁) _ _) _
  simp only [Option.pure_def] at h
  split at h
  · exact absurd h (by simp)
  split at h
  · obtain ⟨-, -, rfl⟩ := by simpa only [Option.some.injEq, Prod.mk.injEq] using h
    exact summed_writeOutPadding (hmmap _ _) _ _
  · obtain ⟨-, -, rfl⟩ := by simpa only [Option.some.injEq, Prod.mk.injEq] using h
    exact hmmap _ _

theorem summed_writeOutRaw {fs : Files} {offset offset' : UInt32} {blocks : List FwBlock} {o o' : Out}
    (ho : Summed o) (h : writeOutRaw fs offset blocks o = some (offset', o')) : Summed o' := by
  induction blocks generalizing offset o with
  | nil =>
      obtain ⟨-, rfl⟩ := Prod.mk.inj (Option.some.inj h)
      exact ho
  | cons b blocks ih =>
      rw [writeOutRaw] at h
      split at h
      · exact ih ho h
      · obtain ⟨o₁, ho₁, h⟩ := Option.bind_eq_some_iff.mp h
        refine ih (summed_writeOutBlock ?_ ho₁) h
        exact summed_writeOutPadding ho _ _

/-! ## The last half word -/

theorem sized_of_stat {fs : Files} {given blocks : List FwBlock}
    (h : given.mapM (blockStatFile fs) = some blocks) : ∀ b ∈ blocks, Sized fs b := by
  induction given generalizing blocks with
  | nil =>
      obtain rfl : [] = blocks := by simpa using h
      simp
  | cons g given ih =>
      simp only [List.mapM_cons, Option.bind_eq_bind, Option.bind_eq_some_iff, Option.pure_def,
        Option.some.injEq] at h
      obtain ⟨b, hb, rest, hrest, rfl⟩ := h
      obtain ⟨content, hcontent, hblock⟩ := Option.bind_eq_some_iff.mp hb
      obtain rfl := Option.some.inj hblock
      exact List.forall_mem_cons.mpr ⟨⟨content, hcontent, rfl⟩, ih hrest⟩

/-- The boards have their images at a multiple of 4. -/
theorem romioOffs_mod {board : BoardInfo} (h : board ∈ boards) : board.romioOffs.toNat % 4 = 0 := by
  have hall : ∀ b ∈ boards, b.romioOffs.toNat % 4 = 0 := by decide
  exact hall board h

/-- The padding at the end makes the number of bytes even. -/
theorem body_even {board : BoardInfo} {offset : UInt32} {o : Out} (hboard : board ∈ boards)
    (hat : At board offset o) :
    (writeOutPadding (align32 offset 4 - offset) 0xFF o).outfile.length % 2 = 0 := by
  have hat' : At board (align32 offset 4) (writeOutPadding (align32 offset 4 - offset) 0xFF o) := by
    have h := at_writeOutPadding hat (align32 offset 4 - offset) 0xFF
    rwa [UInt32.add_comm, UInt32.sub_add_cancel] at h
  have halign : (align32 offset 4).toNat = (offset + (4 - 1)).toNat / 2 ^ 2 * 2 ^ 2 :=
    and_not_lowBits _ (by decide) rfl
  have hromio := romioOffs_mod hboard
  rw [hat', UInt32.toNat_ofNat'] at halign
  omega

/-- The number that the boot loader compares with. -/
theorem ofWord16_big_toNat (a b : UInt8) : (ofWord16 .big [a, b]).toNat = a.toNat * 2 ^ 8 + b.toNat := by
  have ha := a.toNat_lt
  have hb := b.toNat_lt
  simp only [ofWord16, ofLe16, List.reverse_cons, List.reverse_nil, List.nil_append, List.cons_append,
    UInt16.toNat_ofNat']
  omega

theorem halfWords_word16 (x : UInt16) : halfWords (word16 .big x) = [x.toNat] := by
  have hx := x.toNat_lt
  simp only [word16, le16, List.reverse_cons, List.reverse_nil, List.nil_append, List.cons_append,
    halfWords, UInt8.toNat_ofNat', List.cons.injEq, and_true]
  omega

/-- The fix word of the source takes any sum to one that is not 0. -/
theorem addCarry_fixWord (csum ocsum : UInt16) (h : 0 < ocsum.toNat) :
    addCarry csum.toNat (if csum ≤ ocsum then ocsum - csum else ocsum - csum - 1).toNat = ocsum.toNat := by
  have hc := csum.toNat_lt
  have ho := ocsum.toNat_lt
  have hfix := addCarry_fix (show csum.toNat ≤ 65535 by omega) (show ocsum.toNat ≤ 65535 by omega) h
  convert hfix using 2
  by_cases hle : csum ≤ ocsum
  · rw [if_pos hle, if_pos (UInt16.le_iff_toNat_le.mp hle), UInt16.toNat_sub]
    have hnat := UInt16.le_iff_toNat_le.mp hle
    omega
  · have hnat := UInt16.le_iff_toNat_le.not.mp hle
    rw [if_neg hle, if_neg hnat, UInt16.toNat_sub, UInt16.toNat_sub, show (1 : UInt16).toNat = 1 from rfl]
    omega

theorem RombinHdr.bytes_ocsum (h : RombinHdr) (rest : List UInt8) :
    ((h.bytes ++ rest).drop 20).take 2 = word16 .big h.ocsum := by
  simp [bytes, word16, be32, le16]

/-- The last half word of an image takes the sum of all that stands behind the
header to `hdr.ocsum`, which is the first half word of the boot extension. -/
theorem writeOutImage_sum (fs : Files) (board : BoardInfo) (given blocks : List FwBlock)
    (bootext : FwBlock) (b₀ b₁ : UInt8) (rest : List UInt8) (image : List UInt8) (starts : List Nat)
    (hboard : board ∈ boards) (hstat : given.mapM (blockStatFile fs) = some blocks)
    (hboot : bootextBlock blocks = some bootext)
    (hfile : fs bootext.fileName = some (b₀ :: b₁ :: rest)) (hne : ¬ (b₀ = 0 ∧ b₁ = 0))
    (h : writeOutImage fs board blocks = some (image, starts)) :
    (image.drop 20).take 2 = [b₀, b₁] ∧
      carrySum (image.drop sizeofRombinHdr.toNat) = b₀.toNat * 2 ^ 8 + b₁.toNat := by
  have hsized := sized_of_stat hstat
  have hbootext : Sized fs bootext := hsized _ (List.mem_of_find?_eq_some hboot)
  simp only [writeOutImage, hboot, readMagic, hfile, Option.bind_eq_bind, Option.bind_some,
    Option.bind_eq_some_iff, Option.pure_def] at h
  obtain ⟨⟨offset, mmapAddr, o⟩, hbootOut, ⟨offset', o'⟩, hraw, h⟩ := h
  obtain ⟨hat, -⟩ := writeOutBootext_spec (boardOk_of_mem hboard) hbootext hbootOut
  obtain ⟨hat', -⟩ := writeOutRaw_spec hsized hat hraw
  have heven := body_even hboard hat'
  obtain ⟨hlen, hcss⟩ := summed_writeOutPadding
    (summed_writeOutRaw (summed_writeOutBootext hbootOut) hraw) (align32 offset' 4 - offset') 0xFF
  dsimp only at h
  set body := writeOutPadding (align32 offset' 4 - offset') 0xFF o'
  obtain ⟨rfl, -⟩ := Prod.mk.inj (Option.some.inj h)
  have hmagic : ofWord16 .big (((b₀ :: b₁ :: rest) ++ [0, 0]).take 2) = ofWord16 .big [b₀, b₁] := rfl
  rw [hmagic]
  constructor
  · rw [RombinHdr.bytes_ocsum, word16_ofWord16 .big rfl]
  · have hpos : 0 < (ofWord16 .big [b₀, b₁]).toNat := by
      rw [ofWord16_big_toNat]
      by_contra hzero
      exact hne ⟨UInt8.toNat_inj.mp (show b₀.toNat = 0 by omega),
        UInt8.toNat_inj.mp (show b₁.toNat = 0 by omega)⟩
    have hbody : (body.outfile.drop sizeofRombinHdr.toNat).length % 2 = 0 := by
      rw [List.length_drop, show sizeofRombinHdr.toNat = 48 from rfl] at *
      omega
    have hget : (csumGet body.css).toNat =
        (halfWords (body.outfile.drop sizeofRombinHdr.toNat)).foldl addCarry 0 := csumGet_toNat hcss
    rw [show sizeofRombinHdr.toNat = 48 from rfl] at *
    rw [RombinHdr.bytes_length, List.drop_left' (RombinHdr.bytes_length _),
      List.drop_append_of_le_length hlen, carrySum, halfWords_append hbody, halfWords_word16,
      List.foldl_append, ← hget, List.foldl_cons, List.foldl_nil, addCarry_fixWord _ _ hpos,
      ofWord16_big_toNat]

/-- A boot extension of two bytes, and a raw block of three. -/
theorem writeOutImage_sum_small :
    ∃ image starts, writeOutImage smallFiles (ADMBOARD2 (MID 221) 4)
        ((smallOpts (some 0x100000)).map (blockOf smallFiles)) = some (image, starts) ∧
      (image.drop 20).take 2 = [0x12, 0x34] ∧ carrySum (image.drop sizeofRombinHdr.toNat) = 0x1234 := by
  have hstat : ((smallOpts (some 0x100000)).map (blockOf smallFiles)).mapM (blockStatFile smallFiles) =
      some ((smallOpts (some 0x100000)).map (blockOf smallFiles)) := rfl
  obtain ⟨image, starts, h⟩ := @writeOutImage_isSome _ (ADMBOARD2 (MID 221) 4) _ _
    (sized_of_stat hstat) rfl (by decide)
  have hsum := writeOutImage_sum smallFiles (ADMBOARD2 (MID 221) 4) _ _ _ 0x12 0x34 [] image starts
    List.mem_cons_self hstat rfl rfl (by decide) h
  exact ⟨image, starts, h, hsum⟩

end UbntSdk.Images.Zynfw
