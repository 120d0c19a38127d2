/-
UbntSdk.Images.ZynfwTheorems — where the blocks of a ZyNOS image stand
(`tools/firmware-utils/src/mkzynfw.c`).

The writer keeps an offset of 32 bits, which is the position in the flash
modulo 2 ^ 32 (`At`). So all that it does to the raw blocks is a function of
the position, `startsFrom` and `endFrom`, and `calc_block_offsets` is another
function, `calcFrom`, from another start. `Placeable` says when the two meet
on the least multiples of the alignments.
-/
import Mathlib.Order.Bounds.Basic
import UbntSdk.Images.Zynfw

namespace UbntSdk.Images.Zynfw

open UbntSdk.Lib

/-! ## Positions -/

/-- The offset of the writer is the position in the flash, modulo 2 ^ 32. -/
def At (board : BoardInfo) (offset : UInt32) (o : Out) : Prop :=
  offset = UInt32.ofNat (board.romioOffs.toNat + o.outfile.length)

theorem at_writeOutData {board : BoardInfo} {offset len : UInt32} {o : Out} (h : At board offset o)
    {data : List UInt8} (hlen : len = UInt32.ofNat data.length) :
    At board (offset + len) (writeOutData data o) := by
  rw [At] at h ⊢
  have hlength : (writeOutData data o).outfile.length = o.outfile.length + data.length :=
    List.length_append
  rw [hlength, ← Nat.add_assoc, UInt32.ofNat_add, ← h, hlen]

theorem at_writeOutPadding {board : BoardInfo} {offset : UInt32} {o : Out} (h : At board offset o)
    (len : UInt32) (padc : UInt8) : At board (offset + len) (writeOutPadding len padc o) :=
  at_writeOutData h (by rw [List.length_replicate, UInt32.ofNat_toNat])

/-- The position behind the padding to an alignment. -/
def padded (a : UInt32) (e : Nat) : Nat := e + (align32 (UInt32.ofNat e) a - UInt32.ofNat e).toNat

/-- The alignment and the size of each raw block. -/
abbrev Raws := List (UInt32 × UInt32)

/-- The positions at which the writer puts the raw blocks. -/
def startsFrom : Nat → Raws → List Nat
  | _, [] => []
  | e, (a, s) :: l => padded a e :: startsFrom (padded a e + s.toNat) l

/-- The position behind the raw blocks. -/
def endFrom : Nat → Raws → Nat
  | e, [] => e
  | e, (a, s) :: l => endFrom (padded a e + s.toNat) l

/-- The offsets of `calc_block_offsets`. -/
def calcFrom : UInt32 → Raws → List UInt32
  | _, [] => []
  | c, (a, s) :: l => align32 c a :: calcFrom (c + s) l

/-- The raw blocks of a list of blocks. -/
def rawsOfBlocks (blocks : List FwBlock) : Raws :=
  blocks.filterMap fun b => if b.type = .bootext then none else some (b.align, b.fileSize)

/-- The file of the block is there, and `file_size` is its size modulo 2 ^ 32. -/
def Sized (fs : Files) (b : FwBlock) : Prop :=
  ∃ content, fs b.fileName = some content ∧ b.fileSize = content.length.toUInt32

theorem writeOutBlock_of_sized {fs : Files} {b : FwBlock} (hb : Sized fs b) (o : Out) :
    ∃ data, writeOutBlock fs b o = some (writeOutData data o) ∧ data.length = b.fileSize.toNat := by
  obtain ⟨content, hcontent, hsize⟩ := hb
  refine ⟨content.take b.fileSize.toNat, by simp [writeOutBlock, hcontent], ?_⟩
  have hle : b.fileSize.toNat ≤ content.length := by
    rw [hsize, Nat.toUInt32_eq, UInt32.toNat_ofNat']
    exact Nat.mod_le _ _
  rw [List.length_take, Nat.min_eq_left hle]

theorem calcBlockOffsets_eq {board : BoardInfo} {c : UInt32} {blocks : List FwBlock} {offs : List UInt32}
    (h : calcBlockOffsets board .raw c blocks = some offs) : offs = calcFrom c (rawsOfBlocks blocks) := by
  induction blocks generalizing c offs with
  | nil => exact (Option.some.inj h).symm
  | cons b blocks ih =>
      rw [calcBlockOffsets] at h
      cases htype : b.type with
      | bootext =>
          rw [if_pos (by rw [htype]; decide)] at h
          rw [ih h, rawsOfBlocks, rawsOfBlocks, List.filterMap_cons_none (by simp [htype])]
      | raw =>
          rw [if_neg (by rw [htype]; decide)] at h
          simp only at h
          split at h
          · exact absurd h (by simp)
          · obtain ⟨rest, hrest, rfl⟩ := Option.map_eq_some_iff.mp h
            rw [ih hrest, rawsOfBlocks, rawsOfBlocks,
              List.filterMap_cons_some (b := (b.align, b.fileSize)) (by simp [htype]), calcFrom]

theorem writeOutRaw_spec {fs : Files} {board : BoardInfo} {offset offset' : UInt32} {blocks : List FwBlock}
    {o o' : Out} (hb : ∀ b ∈ blocks, Sized fs b) (hat : At board offset o)
    (h : writeOutRaw fs offset blocks o = some (offset', o')) :
    At board offset' o' ∧
      board.romioOffs.toNat + o'.outfile.length =
        endFrom (board.romioOffs.toNat + o.outfile.length) (rawsOfBlocks blocks) ∧
      o'.starts.map (board.romioOffs.toNat + ·) = o.starts.map (board.romioOffs.toNat + ·) ++
        startsFrom (board.romioOffs.toNat + o.outfile.length) (rawsOfBlocks blocks) := by
  induction blocks generalizing offset o with
  | nil =>
      obtain ⟨rfl, rfl⟩ := Prod.mk.inj (Option.some.inj h)
      exact ⟨hat, rfl, (List.append_nil _).symm⟩
  | cons b blocks ih =>
      obtain ⟨hfirst, hrest⟩ := List.forall_mem_cons.mp hb
      rw [writeOutRaw] at h
      cases htype : b.type with
      | bootext =>
          rw [if_pos htype] at h
          rw [rawsOfBlocks, List.filterMap_cons_none (by simp [htype])]
          exact ih hrest hat h
      | raw =>
          rw [if_neg (by rw [htype]; decide)] at h
          rw [rawsOfBlocks, List.filterMap_cons_some (b := (b.align, b.fileSize)) (by simp [htype])]
          set padlen := align32 offset b.align - offset with hpadlen
          set o₁ := writeOutPadding padlen 0xFF o with ho₁
          set o₂ : Out := { o₁ with starts := o₁.starts ++ [o₁.outfile.length] } with ho₂
          obtain ⟨data, hdata, hlen⟩ := writeOutBlock_of_sized hfirst o₂
          have hat₁ : At board (offset + padlen) o₁ := at_writeOutPadding hat padlen 0xFF
          have hat₂ : At board (offset + padlen + b.fileSize) (writeOutData data o₂) :=
            at_writeOutData (show At board (offset + padlen) o₂ from hat₁) (by rw [hlen, UInt32.ofNat_toNat])
          have hlen₁ : board.romioOffs.toNat + o₁.outfile.length =
              padded b.align (board.romioOffs.toNat + o.outfile.length) := by
            rw [padded, ← hat, ho₁, writeOutPadding, writeOutData, List.length_append,
              List.length_replicate, Nat.add_assoc]
          have hlen₂ : board.romioOffs.toNat + (writeOutData data o₂).outfile.length =
              padded b.align (board.romioOffs.toNat + o.outfile.length) + b.fileSize.toNat := by
            rw [← hlen₁, ← hlen, Nat.add_assoc]
            exact congrArg _ List.length_append
          have hnext : (writeOutBlock fs b o₂).bind (writeOutRaw fs (offset + padlen + b.fileSize) blocks) =
              some (offset', o') := h
          rw [hdata, Option.bind_some] at hnext
          obtain ⟨hat', hend, hstarts⟩ := ih hrest hat₂ hnext
          rw [hlen₂] at hend hstarts
          refine ⟨hat', hend, ?_⟩
          rw [hstarts, startsFrom, ← hlen₁]
          show (o.starts ++ [o₁.outfile.length]).map _ ++ _ = _
          rw [List.map_append, List.append_assoc]
          rfl

/-! ## The placement -/

theorem le_padded (a : UInt32) (e : Nat) : e ≤ padded a e := Nat.le_add_right _ _

theorem le_endFrom (e : Nat) (l : Raws) : e ≤ endFrom e l := by
  induction l generalizing e with
  | nil => exact le_rfl
  | cons b l ih =>
      have hpad := le_padded b.1 e
      have hend := ih (padded b.1 e + b.2.toNat)
      rw [endFrom]
      omega

/-- Below 2 ^ 32 the padding ends where `ALIGN` says. -/
theorem align32_eq_padded {a : UInt32} {e : Nat} (h : padded a e < 2 ^ 32) :
    (align32 (UInt32.ofNat e) a).toNat = padded a e := by
  have he : (UInt32.ofNat e).toNat = e := by
    rw [UInt32.toNat_ofNat', Nat.mod_eq_of_lt (lt_of_le_of_lt (le_padded a e) h)]
  have halign := (align32 (UInt32.ofNat e) a).toNat_lt
  rw [padded] at h ⊢
  rw [UInt32.toNat_sub, he] at h ⊢
  omega

/-- Where `ALIGN` does not go back, the padding ends there. -/
theorem padded_eq_align32 {a : UInt32} {e : Nat} (he : e ≤ (align32 (UInt32.ofNat e) a).toNat) :
    padded a e = (align32 (UInt32.ofNat e) a).toNat := by
  have halign := (align32 (UInt32.ofNat e) a).toNat_lt
  have hnat : (UInt32.ofNat e).toNat = e := by
    rw [UInt32.toNat_ofNat', Nat.mod_eq_of_lt (by omega)]
  rw [padded, UInt32.toNat_sub, hnat]
  omega

theorem align32_zero (x : UInt32) : align32 x 0 = 0 := by
  rw [align32, show ~~~((0 : UInt32) - 1) = 0 from rfl, UInt32.and_zero]

/-- The raw blocks stand where they should: at the least multiple of the
alignment that is not below the end of the data before, or right there. -/
def PlacedFrom : Nat → Raws → List Nat → Prop
  | _, [], [] => True
  | e, (a, s) :: l, p :: ps =>
      (if a = 0 then p = e else IsLeast {m | a.toNat ∣ m ∧ e ≤ m} p) ∧ PlacedFrom (p + s.toNat) l ps
  | _, _, _ => False

/-- With `c` for the offset of the check and `e` for the end of the data before:
every block has an alignment, `ALIGN` finds the least multiple of it, it finds
the same from `c`, and the end with the checksum is inside of the flash. -/
def Placeable (flashSize : Nat) : Nat → Nat → Raws → Prop
  | _, e, [] => ceilTo 4 e + 2 ≤ flashSize
  | c, e, (a, s) :: l =>
      a ≠ 0 ∧ (align32 (UInt32.ofNat e) a).toNat = ceilTo a.toNat e ∧
        align32 (UInt32.ofNat c) a = align32 (UInt32.ofNat e) a ∧
        Placeable flashSize (c + s.toNat) (ceilTo a.toNat e + s.toNat) l

instance decidablePlaceable (flashSize : Nat) : ∀ c e l, Decidable (Placeable flashSize c e l)
  | _, e, [] => inferInstanceAs (Decidable (ceilTo 4 e + 2 ≤ flashSize))
  | c, e, (a, s) :: l =>
      have := decidablePlaceable flashSize (c + s.toNat) (ceilTo a.toNat e + s.toNat) l
      inferInstanceAs (Decidable (_ ∧ _ ∧ _ ∧ _))

theorem toNat_pos_of_ne {a : UInt32} (h : a ≠ 0) : 0 < a.toNat := by
  rw [Nat.pos_iff_ne_zero]
  intro hzero
  exact h (UInt32.toNat_inj.mp hzero)

theorem le_of_placeable {flashSize c e : Nat} {l : Raws} (h : Placeable flashSize c e l) : e ≤ flashSize := by
  induction l generalizing c e with
  | nil =>
      have hceil := le_ceilTo (show 0 < 4 by decide) e
      rw [Placeable] at h
      omega
  | cons b l ih =>
      obtain ⟨hne, -, -, hrest⟩ := h
      have hceil := le_ceilTo (toNat_pos_of_ne hne) e
      have hle := ih hrest
      omega

/-- The padding to a power of two is the least one. -/
theorem padded_eq_ceilTo {a : UInt32} {k e : Nat} (ha : a.toNat = 2 ^ k) (he : e + (a.toNat - 1) < 2 ^ 32) :
    padded a e = ceilTo a.toNat e := by
  have hnat : (UInt32.ofNat e).toNat = e := by
    rw [UInt32.toNat_ofNat', Nat.mod_eq_of_lt (by omega)]
  have halign : (align32 (UInt32.ofNat e) a).toNat = ceilTo a.toNat e := by
    have h := align32_eq_ceilTo ha (show (UInt32.ofNat e).toNat + (a.toNat - 1) < 2 ^ 32 by rw [hnat]; exact he)
    rwa [hnat] at h
  have hle := le_ceilTo (show 0 < a.toNat by rw [ha]; exact Nat.two_pow_pos k) e
  rw [← halign] at hle
  rw [padded_eq_align32 hle, halign]

/-- Both say the same of the first block, if the position is in the flash. -/
theorem placed_head_iff {a : UInt32} {c e : Nat} (he : 0 < e) (hpad : padded a e < 2 ^ 32) :
    (if a = 0 then padded a e = e else IsLeast {m | a.toNat ∣ m ∧ e ≤ m} (padded a e)) ∧
        (align32 (UInt32.ofNat c) a).toNat = padded a e ↔
      a ≠ 0 ∧ (align32 (UInt32.ofNat e) a).toNat = ceilTo a.toNat e ∧
        align32 (UInt32.ofNat c) a = align32 (UInt32.ofNat e) a := by
  have halign := align32_eq_padded hpad
  by_cases ha : a = 0
  · rw [ha, align32_zero] at halign
    refine iff_of_false ?_ (fun h => h.1 ha)
    rintro ⟨hplace, -⟩
    rw [if_pos ha, ha, ← halign] at hplace
    exact he.ne hplace
  · have hleast := ceilTo_isLeast (toNat_pos_of_ne ha) e
    rw [if_neg ha, halign, and_iff_right ha, ← UInt32.toNat_inj, halign]
    refine and_congr_left' ⟨fun h => h.unique hleast, fun h => ?_⟩
    rw [h]
    exact hleast

/-- The two placements meet, and the image fits, exactly if the blocks are
placeable. -/
theorem placed_iff_placeable {flashSize : Nat} (hflash : flashSize < 2 ^ 31) (c e : Nat) (l : Raws)
    (he : 0 < e) :
    PlacedFrom e l (startsFrom e l) ∧
        (calcFrom (UInt32.ofNat c) l).map UInt32.toNat = startsFrom e l ∧
        padded 4 (endFrom e l) + 2 ≤ flashSize ↔
      Placeable flashSize c e l := by
  induction l generalizing c e with
  | nil =>
      simp only [PlacedFrom, startsFrom, calcFrom, List.map_nil, endFrom, Placeable, true_and]
      have hpad := le_padded 4 e
      have hceil := le_ceilTo (show 0 < 4 by decide) e
      by_cases hlt : e < 2 ^ 31
      · rw [padded_eq_ceilTo (show (4 : UInt32).toNat = 2 ^ 2 from rfl) (show e + 3 < 2 ^ 32 by omega)]
        rfl
      · omega
  | cons b l ih =>
      obtain ⟨a, s⟩ := b
      have hcalc : UInt32.ofNat c + s = UInt32.ofNat (c + s.toNat) := by
        rw [UInt32.ofNat_add, UInt32.ofNat_toNat]
      simp only [PlacedFrom, startsFrom, calcFrom, List.map_cons, List.cons.injEq, endFrom, Placeable, hcalc]
      have hpos : 0 < padded a e + s.toNat := by
        have hpad := le_padded a e
        omega
      constructor
      · rintro ⟨⟨hplace, hplaces⟩, ⟨hfirst, hoffs⟩, hfits⟩
        have hle := le_endFrom (padded a e + s.toNat) l
        have hend := le_padded 4 (endFrom (padded a e + s.toNat) l)
        obtain ⟨hne, hceil, hsame⟩ := (placed_head_iff he (by omega)).mp ⟨hplace, hfirst⟩
        refine ⟨hne, hceil, hsame, ?_⟩
        rw [← hceil, align32_eq_padded (by omega)]
        exact (ih _ _ hpos).mp ⟨hplaces, hoffs, hfits⟩
      · rintro ⟨hne, hceil, hsame, hrest⟩
        have hpad : padded a e = ceilTo a.toNat e := by
          rw [padded_eq_align32, hceil]
          rw [hceil]
          exact le_ceilTo (toNat_pos_of_ne hne) e
        have hle := le_of_placeable hrest
        obtain ⟨hplace, hfirst⟩ := (placed_head_iff he (by omega)).mpr ⟨hne, hceil, hsame⟩
        rw [← hpad] at hrest
        obtain ⟨hplaces, hoffs, hfits⟩ := (ih _ _ hpos).mpr hrest
        exact ⟨⟨hplace, hplaces⟩, ⟨hfirst, hoffs⟩, hfits⟩

/-! ## The boot extension -/

/-- What the table of boards promises. -/
structure BoardOk (board : BoardInfo) : Prop where
  romio : 0 < board.romioOffs.toNat
  room : board.romioOffs.toNat + board.bootextSize.toNat + 2048 ≤ board.flashSize.toNat
  flash : board.flashSize.toNat < 2 ^ 31
  data : (userData board).length ≤ 1000

theorem boardOk_of_mem {board : BoardInfo} (h : board ∈ boards) : BoardOk board := by
  have hall : ∀ b ∈ boards, 0 < b.romioOffs.toNat ∧
      b.romioOffs.toNat + b.bootextSize.toNat + 2048 ≤ b.flashSize.toNat ∧
      b.flashSize.toNat < 2 ^ 31 ∧ (userData b).length ≤ 1000 := by decide +kernel
  obtain ⟨hromio, hroom, hflash, hdata⟩ := hall board h
  exact ⟨hromio, hroom, hflash, hdata⟩

/-- The end of the boot extension with its header and the memory map, which is
filled up to `bootext_size`. -/
def bootextEnd (board : BoardInfo) (size : Nat) : Nat :=
  max (ceilTo 16 (board.romioOffs.toNat + 48 + size) + 1024) (board.romioOffs.toNat + board.bootextSize.toNat)

theorem RombinHdr.bytes_length (h : RombinHdr) : h.bytes.length = 48 := by
  simp [bytes]

theorem mmapBytes_length {board : BoardInfo} (h : BoardOk board) (addr : UInt32) :
    (mmapBytes board addr).length = 1024 := by
  have hdata := h.data
  simp only [mmapBytes, List.length_append, List.length_replicate, be32_length, word16_length,
    show MMAP_DATA_SIZE.toNat = 1024 from rfl]
  omega

theorem writeOutPadding_length (len : UInt32) (padc : UInt8) (o : Out) :
    (writeOutPadding len padc o).outfile.length = o.outfile.length + len.toNat := by
  rw [writeOutPadding, writeOutData, List.length_append, List.length_replicate]

/-- The boot extension is filled up to its size. -/
theorem fill_spec {board : BoardInfo} {offset offset' mmapAddr mmapAddr' : UInt32} {o o' : Out}
    (hboard : BoardOk board) (hat : At board offset o)
    (h : (if offset - board.romioOffs < board.bootextSize then
        some (offset + (board.romioOffs + board.bootextSize - offset), mmapAddr,
          writeOutPadding (board.romioOffs + board.bootextSize - offset) 0xFF o)
      else some (offset, mmapAddr, o)) = some (offset', mmapAddr', o')) :
    At board offset' o' ∧ o'.starts = o.starts ∧ o.outfile.length ≤ o'.outfile.length ∧
      (board.romioOffs.toNat + o.outfile.length < 2 ^ 32 →
        board.romioOffs.toNat + o'.outfile.length =
          max (board.romioOffs.toNat + o.outfile.length)
            (board.romioOffs.toNat + board.bootextSize.toNat)) := by
  have hroom := hboard.room
  have hflash := hboard.flash
  have hnat (hlt : board.romioOffs.toNat + o.outfile.length < 2 ^ 32) :
      offset.toNat = board.romioOffs.toNat + o.outfile.length := by
    rw [hat, UInt32.toNat_ofNat', Nat.mod_eq_of_lt hlt]
  split at h
  · rename_i hless
    obtain ⟨rfl, -, rfl⟩ := by simpa only [Option.some.injEq, Prod.mk.injEq] using h
    refine ⟨at_writeOutPadding hat _ _, rfl, ?_, ?_⟩
    · rw [writeOutPadding_length]
      exact Nat.le_add_right _ _
    · intro hlt
      rw [UInt32.lt_iff_toNat_lt, UInt32.toNat_sub, hnat hlt] at hless
      rw [writeOutPadding_length, UInt32.toNat_sub, UInt32.toNat_add, hnat hlt]
      omega
  · rename_i hless
    obtain ⟨rfl, -, rfl⟩ := by simpa only [Option.some.injEq, Prod.mk.injEq] using h
    refine ⟨hat, rfl, le_rfl, ?_⟩
    intro hlt
    rw [UInt32.lt_iff_toNat_lt, UInt32.toNat_sub, hnat hlt] at hless
    omega

theorem writeOutBootext_spec {fs : Files} {board : BoardInfo} {bootext : FwBlock} {hdr : RombinHdr}
    {offset mmapAddr : UInt32} {o : Out} (hboard : BoardOk board) (hb : Sized fs bootext)
    (h : writeOutBootext fs board bootext hdr = some (offset, mmapAddr, o)) :
    At board offset o ∧ o.starts = [] ∧ 48 + bootext.fileSize.toNat ≤ o.outfile.length ∧
      if 48 + bootext.fileSize.toNat ≤ board.bootextSize.toNat then
        board.romioOffs.toNat + o.outfile.length = bootextEnd board bootext.fileSize.toNat
      else 2 ^ 32 ≤ board.romioOffs.toNat + o.outfile.length := by
  have hroom := hboard.room
  have hflash := hboard.flash
  have hsize := bootext.fileSize.toNat_lt
  obtain ⟨data, hdata, hlen⟩ := writeOutBlock_of_sized hb ⟨hdr.bytes, csumInit, []⟩
  simp only [writeOutBootext, hdata, Option.bind_eq_bind, Option.bind_some] at h
  split at h
  · exact absurd h (by simp)
  rename_i hfits
  have hat₀ : At board (board.romioOffs + sizeofRombinHdr) ⟨hdr.bytes, csumInit, []⟩ := by
    rw [At, hdr.bytes_length, UInt32.ofNat_add, UInt32.ofNat_toNat]
    rfl
  have hat₁ : At board (board.romioOffs + sizeofRombinHdr + bootext.fileSize)
      (writeOutData data ⟨hdr.bytes, csumInit, []⟩) :=
    at_writeOutData hat₀ (by rw [hlen, UInt32.ofNat_toNat])
  set off₁ := board.romioOffs + sizeofRombinHdr + bootext.fileSize with hoff₁
  set o₁ := writeOutData data ⟨hdr.bytes, csumInit, []⟩ with ho₁
  have hlen₁ : o₁.outfile.length = 48 + bootext.fileSize.toNat := by
    rw [ho₁, writeOutData, List.length_append, hdr.bytes_length, hlen]
  set pad := align32 off₁ MMAP_ALIGN - off₁ with hpad
  have hlen₂ : board.romioOffs.toNat + (writeOutPadding pad 0xFF o₁).outfile.length =
      padded 16 (board.romioOffs.toNat + 48 + bootext.fileSize.toNat) := by
    rw [writeOutPadding_length, hpad, hat₁, hlen₁, padded, ← Nat.add_assoc, ← Nat.add_assoc]
    rfl
  have hat₂ := at_writeOutPadding hat₁ pad 0xFF
  set o₂ := writeOutPadding pad 0xFF o₁ with ho₂
  set mmap := mmapBytes board (board.flashBase + (off₁ + pad)) with hmmap
  have hmlen : mmap.length = 1024 := mmapBytes_length hboard _
  have hat₃ : At board (off₁ + pad + MMAP_DATA_SIZE) (writeOutData mmap o₂) :=
    at_writeOutData hat₂ (by rw [hmlen]; rfl)
  have hlen₃ : (writeOutData mmap o₂).outfile.length = o₂.outfile.length + 1024 := by
    rw [writeOutData, List.length_append, hmlen]
  set o₃ := writeOutData mmap o₂ with ho₃
  have hle₂ := le_padded 16 (board.romioOffs.toNat + 48 + bootext.fileSize.toNat)
  obtain ⟨hat, hstarts, hle, hend⟩ := fill_spec hboard hat₃ h
  refine ⟨hat, hstarts, by omega, ?_⟩
  split
  · rename_i hsmall
    have hceil : padded 16 (board.romioOffs.toNat + 48 + bootext.fileSize.toNat) =
        ceilTo 16 (board.romioOffs.toNat + 48 + bootext.fileSize.toNat) :=
      padded_eq_ceilTo (show (16 : UInt32).toNat = 2 ^ 4 from rfl)
        (show board.romioOffs.toNat + 48 + bootext.fileSize.toNat + 15 < 2 ^ 32 by omega)
    have hlt := ceilTo_lt (show 0 < 16 by decide) (board.romioOffs.toNat + 48 + bootext.fileSize.toNat)
    rw [hend (by omega), bootextEnd, hlen₃, ← hceil, ← hlen₂, Nat.add_assoc]
  · rename_i hlarge
    -- the check is passed by a sum that is too large for 32 bits
    rw [gt_iff_lt, UInt32.lt_iff_toNat_lt, UInt32.toNat_add, hat₁, UInt32.toNat_ofNat', hlen₁] at hfits
    omega

/-! ## The image -/

theorem writeOutImage_spec {fs : Files} {board : BoardInfo} {blocks : List FwBlock} {bootext : FwBlock}
    {image : List UInt8} {starts : List Nat} (hboard : BoardOk board) (hb : ∀ b ∈ blocks, Sized fs b)
    (hboot : bootextBlock blocks = some bootext)
    (h : writeOutImage fs board blocks = some (image, starts)) :
    ∃ e, starts.map (board.romioOffs.toNat + ·) = startsFrom e (rawsOfBlocks blocks) ∧
      board.romioOffs.toNat + image.length = padded 4 (endFrom e (rawsOfBlocks blocks)) + 2 ∧
      if 48 + bootext.fileSize.toNat ≤ board.bootextSize.toNat then
        e = bootextEnd board bootext.fileSize.toNat
      else 2 ^ 32 ≤ e := by
  have hbootext : Sized fs bootext := hb _ (List.mem_of_find?_eq_some hboot)
  simp only [writeOutImage, hboot, Option.bind_eq_bind, Option.bind_some, Option.bind_eq_some_iff] at h
  obtain ⟨⟨offset, mmapAddr, o⟩, hbootOut, ⟨offset', o'⟩, hraw, ocsum, -, h⟩ := h
  obtain ⟨hat, hstarts, hlen, hend⟩ := writeOutBootext_spec hboard hbootext hbootOut
  obtain ⟨hat', hend', hstarts'⟩ := writeOutRaw_spec hb hat hraw
  obtain ⟨rfl, rfl⟩ := Prod.mk.inj (Option.some.inj h)
  refine ⟨board.romioOffs.toNat + o.outfile.length, ?_, ?_, hend⟩
  · rw [hstarts, List.map_nil, List.nil_append] at hstarts'
    exact hstarts'
  · have hpadded : board.romioOffs.toNat + (writeOutPadding (align32 offset' 4 - offset') 0xFF o').outfile.length =
        padded 4 (endFrom (board.romioOffs.toNat + o.outfile.length) (rawsOfBlocks blocks)) := by
      rw [writeOutPadding_length, hat', ← hend', padded, Nat.add_assoc]
    have hle := le_endFrom (board.romioOffs.toNat + o.outfile.length) (rawsOfBlocks blocks)
    have hpad := le_padded 4 (endFrom (board.romioOffs.toNat + o.outfile.length) (rawsOfBlocks blocks))
    dsimp only
    rw [← hpadded, List.length_append, List.length_drop, List.length_append, word16_length,
      RombinHdr.bytes_length]
    omega

/-- The size that `stat` leaves in a field of 32 bits. -/
def sizeOf (fs : Files) (name : List Char) : UInt32 := ((fs name).getD []).length.toUInt32

/-- The alignments and sizes of the `-r` options. -/
def rawsOf (fs : Files) (opts : List OptBlock) : Raws :=
  opts.filterMap fun o => if o.type = .bootext then none else some (o.align.getD 0, sizeOf fs o.fileName)

/-- The size of the file of the first `-b` option. -/
def bootextSizeOf (fs : Files) (opts : List OptBlock) : UInt32 :=
  match opts.find? (·.type = .bootext) with
  | some o => sizeOf fs o.fileName
  | none => 0

/-- The block of an option. -/
def blockOf (fs : Files) (o : OptBlock) : FwBlock where
  align := if o.type = .bootext then 0 else o.align.getD 0
  fileName := o.fileName
  fileSize := sizeOf fs o.fileName
  type := o.type

theorem parse_eq {opts : List OptBlock} {blocks blocks' : List FwBlock}
    (h : opts.foldlM parseOptBlock blocks = some blocks') :
    blocks' = blocks ++ opts.map fun o => { blockOf (fun _ => none) o with fileSize := 0 } := by
  induction opts generalizing blocks with
  | nil => simpa using h.symm
  | cons o opts ih =>
      rw [List.foldlM_cons, Option.bind_eq_bind, Option.bind_eq_some_iff] at h
      obtain ⟨next, hnext, h⟩ := h
      rw [parseOptBlock] at hnext
      split at hnext
      · exact absurd hnext (by simp)
      split at hnext
      · exact absurd hnext (by simp)
      obtain rfl := Option.some.inj hnext
      rw [ih h, List.append_assoc]
      rfl

theorem stat_eq {fs : Files} {opts : List OptBlock} {blocks : List FwBlock}
    (h : (opts.map fun o => { blockOf (fun _ => none) o with fileSize := 0 }).mapM (blockStatFile fs) =
      some blocks) : blocks = opts.map (blockOf fs) ∧ ∀ b ∈ blocks, Sized fs b := by
  induction opts generalizing blocks with
  | nil =>
      obtain rfl : [] = blocks := by simpa using h
      exact ⟨rfl, by simp⟩
  | cons o opts ih =>
      simp only [List.map_cons, List.mapM_cons, Option.bind_eq_bind, Option.bind_eq_some_iff,
        Option.pure_def, Option.some.injEq] at h
      obtain ⟨b, hb, rest, hrest, rfl⟩ := h
      obtain ⟨hmap, hsized⟩ := ih hrest
      simp only [blockStatFile, Option.bind_eq_bind, Option.bind_eq_some_iff, Option.pure_def,
        Option.some.injEq] at hb
      obtain ⟨content, hcontent, rfl⟩ := hb
      have hcontent' : fs o.fileName = some content := hcontent
      refine ⟨?_, List.forall_mem_cons.mpr ⟨⟨content, hcontent, rfl⟩, hsized⟩⟩
      rw [hmap, List.map_cons]
      simp only [blockOf, sizeOf, hcontent', Option.getD_some]

theorem rawsOfBlocks_map (fs : Files) (opts : List OptBlock) :
    rawsOfBlocks (opts.map (blockOf fs)) = rawsOf fs opts := by
  have hfun : (fun b : FwBlock => if b.type = .bootext then none else some (b.align, b.fileSize)) ∘
      blockOf fs = fun o => if o.type = .bootext then none else some (o.align.getD 0, sizeOf fs o.fileName) := by
    funext o
    simp only [Function.comp_apply, blockOf]
    split
    · rfl
    · rfl
  rw [rawsOfBlocks, rawsOf, List.filterMap_map, hfun]

theorem bootextBlock_map {fs : Files} {opts : List OptBlock} {bootext : FwBlock}
    (h : bootextBlock (opts.map (blockOf fs)) = some bootext) :
    bootext.fileSize = bootextSizeOf fs opts := by
  rw [bootextBlock, List.find?_map, Option.map_eq_some_iff] at h
  obtain ⟨o, ho, rfl⟩ := h
  have hfind : opts.find? (·.type = .bootext) = some o := ho
  rw [bootextSizeOf, hfind]
  rfl

/-- What the program does is known from the positions. -/
theorem mkzynfw_spec {fs : Files} {board : BoardInfo} {opts : List OptBlock} {offs : List UInt32}
    {image : List UInt8} {starts : List Nat} (hboard : BoardOk board)
    (h : mkzynfw fs board opts = some (offs, image, starts)) :
    offs = calcFrom (UInt32.ofNat (board.romioOffs.toNat + (bootextSizeOf fs opts).toNat)) (rawsOf fs opts) ∧
      ∃ e, starts.map (board.romioOffs.toNat + ·) = startsFrom e (rawsOf fs opts) ∧
        board.romioOffs.toNat + image.length = padded 4 (endFrom e (rawsOf fs opts)) + 2 ∧
        if 48 + (bootextSizeOf fs opts).toNat ≤ board.bootextSize.toNat then
          e = bootextEnd board (bootextSizeOf fs opts).toNat
        else 2 ^ 32 ≤ e := by
  simp only [mkzynfw, processBlocks, Option.bind_eq_bind, Option.bind_eq_some_iff, Option.pure_def,
    Option.some.injEq, Prod.mk.injEq, Prod.exists] at h
  obtain ⟨parsed, hparsed, blocks, offs', ⟨blocks', hstat, bootext, hboot, offs'', hcalc, rfl, rfl⟩,
    image', starts', hout, rfl, rfl, rfl⟩ := h
  rw [parse_eq hparsed, List.nil_append] at hstat
  obtain ⟨rfl, hsized⟩ := stat_eq hstat
  have hspec := writeOutImage_spec hboard hsized hboot hout
  have hoffs := calcBlockOffsets_eq hcalc
  rw [rawsOfBlocks_map, bootextBlock_map hboot] at hspec hoffs
  refine ⟨?_, hspec⟩
  rw [hoffs, UInt32.ofNat_add, UInt32.ofNat_toNat, UInt32.ofNat_toNat]

/-- The layout that the image should have: each raw block stands at its place,
`calc_block_offsets` has found the same offsets, and everything is inside of
the flash. -/
structure LaidOut (fs : Files) (board : BoardInfo) (opts : List OptBlock) (offs : List UInt32)
    (image : List UInt8) (starts : List Nat) : Prop where
  placed : PlacedFrom (bootextEnd board (bootextSizeOf fs opts).toNat) (rawsOf fs opts)
    (starts.map (board.romioOffs.toNat + ·))
  agrees : offs.map UInt32.toNat = starts.map (board.romioOffs.toNat + ·)
  fits : board.romioOffs.toNat + image.length ≤ board.flashSize.toNat

/-- The condition for the layout: the boot extension is not so large that its
check overflows, and the raw blocks are placeable. -/
def CanLayOut (fs : Files) (board : BoardInfo) (opts : List OptBlock) : Prop :=
  48 + (bootextSizeOf fs opts).toNat ≤ board.bootextSize.toNat ∧
    Placeable board.flashSize.toNat (board.romioOffs.toNat + (bootextSizeOf fs opts).toNat)
      (bootextEnd board (bootextSizeOf fs opts).toNat) (rawsOf fs opts)

instance (fs : Files) (board : BoardInfo) (opts : List OptBlock) : Decidable (CanLayOut fs board opts) :=
  inferInstanceAs (Decidable (_ ∧ _))

theorem laidOut_iff {fs : Files} {board : BoardInfo} {opts : List OptBlock} {offs : List UInt32}
    {image : List UInt8} {starts : List Nat} (hboard : BoardOk board)
    (h : mkzynfw fs board opts = some (offs, image, starts)) :
    LaidOut fs board opts offs image starts ↔ CanLayOut fs board opts := by
  have hflash := hboard.flash
  have hromio := hboard.romio
  obtain ⟨rfl, e, hstarts, himage, he⟩ := mkzynfw_spec hboard h
  have hend := le_endFrom e (rawsOf fs opts)
  have hpad := le_padded 4 (endFrom e (rawsOf fs opts))
  by_cases hsmall : 48 + (bootextSizeOf fs opts).toNat ≤ board.bootextSize.toNat
  · rw [if_pos hsmall] at he
    have hpos : 0 < e := by
      rw [he, bootextEnd]
      omega
    rw [CanLayOut, and_iff_right hsmall, ← he, ← placed_iff_placeable hflash _ e _ hpos]
    constructor
    · rintro ⟨hplaced, hagrees, hfits⟩
      rw [← he, hstarts] at hplaced
      rw [hstarts] at hagrees
      exact ⟨hplaced, hagrees, by omega⟩
    · rintro ⟨hplaced, hagrees, hfits⟩
      refine ⟨?_, ?_, by omega⟩
      · rwa [← he, hstarts]
      · rwa [hstarts]
  · rw [if_neg hsmall] at he
    refine iff_of_false ?_ (fun h => hsmall h.1)
    intro hlaid
    have hfits := hlaid.fits
    omega

/-- The layout of an image is right if and only if: the boot extension with its
header is not larger than `bootext_size`, every raw block has an alignment that
`ALIGN` can deal with, the check finds the same offsets from its own start, and
the end is inside of the flash. -/
theorem mkzynfw_laidOut_iff (fs : Files) (board : BoardInfo) (opts : List OptBlock) (offs : List UInt32)
    (image : List UInt8) (starts : List Nat) (hboard : board ∈ boards)
    (h : mkzynfw fs board opts = some (offs, image, starts)) :
    LaidOut fs board opts offs image starts ↔ CanLayOut fs board opts :=
  laidOut_iff (boardOk_of_mem hboard) h

theorem writeOutRaw_isSome {fs : Files} {blocks : List FwBlock} (hb : ∀ b ∈ blocks, Sized fs b)
    (offset : UInt32) (o : Out) : ∃ r, writeOutRaw fs offset blocks o = some r := by
  induction blocks generalizing offset o with
  | nil => exact ⟨_, rfl⟩
  | cons b blocks ih =>
      obtain ⟨hfirst, hrest⟩ := List.forall_mem_cons.mp hb
      rw [writeOutRaw]
      split
      · exact ih hrest offset o
      · obtain ⟨content, hcontent, -⟩ := hfirst
        simp only [writeOutBlock, hcontent, Option.bind_eq_bind, Option.bind_some, Option.pure_def]
        exact ih hrest _ _

theorem writeOutBootext_isSome {fs : Files} {board : BoardInfo} {bootext : FwBlock} (hb : Sized fs bootext)
    (hdr : RombinHdr)
    (hfits : ¬ board.romioOffs + sizeofRombinHdr + bootext.fileSize > board.romioOffs + board.bootextSize) :
    ∃ r, writeOutBootext fs board bootext hdr = some r := by
  obtain ⟨content, hcontent, -⟩ := hb
  simp only [writeOutBootext, writeOutBlock, hcontent, Option.bind_eq_bind, Option.bind_some,
    Option.pure_def, if_neg hfits]
  split
  · exact ⟨_, rfl⟩
  · exact ⟨_, rfl⟩

theorem stat_isSome {fs : Files} {opts : List OptBlock}
    (h : ∀ o ∈ opts, ∃ content, fs o.fileName = some content) :
    (opts.map fun o => { blockOf (fun _ => none) o with fileSize := 0 }).mapM (blockStatFile fs) =
      some (opts.map (blockOf fs)) := by
  induction opts with
  | nil => rfl
  | cons o opts ih =>
      obtain ⟨⟨content, hcontent⟩, hrest⟩ := List.forall_mem_cons.mp h
      have hstat : blockStatFile fs { blockOf (fun _ => none) o with fileSize := 0 } = some (blockOf fs o) := by
        simp [blockStatFile, blockOf, sizeOf, hcontent]
      rw [List.map_cons, List.mapM_cons, hstat, ih hrest]
      rfl

theorem writeOutImage_isSome {fs : Files} {board : BoardInfo} {blocks : List FwBlock} {bootext : FwBlock}
    (hsized : ∀ b ∈ blocks, Sized fs b) (hboot : bootextBlock blocks = some bootext)
    (hfits : ¬ board.romioOffs + sizeofRombinHdr + bootext.fileSize > board.romioOffs + board.bootextSize) :
    ∃ image starts, writeOutImage fs board blocks = some (image, starts) := by
  have hbootext : Sized fs bootext := hsized _ (List.mem_of_find?_eq_some hboot)
  obtain ⟨⟨offset, mmapAddr, o⟩, ho⟩ := writeOutBootext_isSome hbootext
    ⟨board.codeStart, OBJECT_TYPE_BOOTEXT, 0, ROMBIN_FLAG_OCSUM, 0, 0⟩ hfits
  obtain ⟨⟨offset', o'⟩, ho'⟩ := writeOutRaw_isSome hsized offset o
  obtain ⟨content, hcontent, -⟩ := hbootext
  simp only [writeOutImage, hboot, ho, ho', readMagic, hcontent, Option.bind_eq_bind, Option.bind_some,
    Option.pure_def, Option.some.injEq, Prod.mk.injEq]
  exact ⟨_, _, rfl, rfl⟩

/-- Nothing fails behind the checks. -/
theorem mkzynfw_isSome {fs : Files} {board : BoardInfo} {opts : List OptBlock} {blocks : List FwBlock}
    {offs : List UInt32} {bootext : FwBlock} (hparse : opts.foldlM parseOptBlock [] = some blocks)
    (hfs : ∀ o ∈ opts, ∃ content, fs o.fileName = some content)
    (hboot : bootextBlock (opts.map (blockOf fs)) = some bootext)
    (hcalc : calcBlockOffsets board .raw (board.romioOffs + bootext.fileSize) (opts.map (blockOf fs)) =
      some offs)
    (hfits : ¬ board.romioOffs + sizeofRombinHdr + bootext.fileSize > board.romioOffs + board.bootextSize) :
    ∃ image starts, mkzynfw fs board opts = some (offs, image, starts) := by
  have hstat := stat_isSome hfs
  obtain ⟨-, hsized⟩ := stat_eq hstat
  obtain ⟨image, starts, himage⟩ := writeOutImage_isSome hsized hboot hfits
  rw [parse_eq hparse, List.nil_append] at hparse
  refine ⟨image, starts, ?_⟩
  simp only [mkzynfw, hparse, processBlocks, hstat, hboot, hcalc, himage, Option.bind_eq_bind,
    Option.bind_some, Option.pure_def]

/-- A raw block of three bytes with an alignment, or without. -/
def smallOpts (align : Option UInt32) : List OptBlock := [⟨.bootext, ['b'], none⟩, ⟨.raw, ['k'], align⟩]

def smallFiles : Files := fun name => some (if name = ['b'] then [0x12, 0x34] else [1, 2, 3])

theorem smallOpts_isSome {align : Option UInt32} {offs : List UInt32}
    (h : calcBlockOffsets (ADMBOARD2 (MID 221) 4) .raw 0x10002 ((smallOpts align).map (blockOf smallFiles)) =
      some offs) :
    ∃ image starts,
      mkzynfw smallFiles (ADMBOARD2 (MID 221) 4) (smallOpts align) = some (offs, image, starts) :=
  mkzynfw_isSome rfl (fun _ _ => ⟨_, rfl⟩) rfl h (by decide)

theorem mkzynfw_laidOut_small :
    ∃ offs image starts,
      mkzynfw smallFiles (ADMBOARD2 (MID 221) 4) (smallOpts (some 0x100000)) = some (offs, image, starts) ∧
        LaidOut smallFiles (ADMBOARD2 (MID 221) 4) (smallOpts (some 0x100000)) offs image starts := by
  obtain ⟨image, starts, h⟩ := @smallOpts_isSome (some 0x100000) [0x100000] (by decide +kernel)
  exact ⟨_, image, starts, h, (mkzynfw_laidOut_iff _ _ _ _ _ _ List.mem_cons_self h).mpr (by decide +kernel)⟩

/-- Without an alignment the program fills up 4 GiB before the block. -/
theorem mkzynfw_notLaidOut :
    ∃ offs image starts,
      mkzynfw smallFiles (ADMBOARD2 (MID 221) 4) (smallOpts none) = some (offs, image, starts) ∧
        ¬ LaidOut smallFiles (ADMBOARD2 (MID 221) 4) (smallOpts none) offs image starts := by
  obtain ⟨image, starts, h⟩ := @smallOpts_isSome none [0] (by decide +kernel)
  refine ⟨_, image, starts, h, ?_⟩
  rw [laidOut_iff (boardOk_of_mem List.mem_cons_self) h]
  decide +kernel

end UbntSdk.Images.Zynfw
