/-
UbntSdk.Nvram.LayoutTheorems — the flash area as other programs see it.

`commit_layout` is about what `nvram_commit` leaves in the area: it touches
nothing in front of it, the data ends with an empty string, the length is
a multiple of 4 inside the area, and the checksum is the one that the
`info` command computes. The writer computes it in two pieces, over a copy
of the header without the checksum and then over the data; the reader goes
over the stored bytes once. They agree because the checksum lies in front
of the bytes that are summed (`withCrc_drop`).

`open_inside_iff` is about the way back: `_nvram_rehash` looks for NULs
that a damaged area need not have. It stays inside exactly when the strings
of the area lead to one without a `=` (`Ended`).
-/
import UbntSdk.Nvram.Cli
import UbntSdk.Nvram.CommitTheorems

namespace UbntSdk.Nvram

open UbntSdk.Lib

/-! ## The checksum -/

theorem hndcrc8_append (a b : List UInt8) (crc : UInt8) :
    hndcrc8 (a ++ b) crc = hndcrc8 b (hndcrc8 a crc) := List.foldl_append

/-- A byte in the low byte of a word leaves the others as they are. -/
theorem or_byte_div (x : UInt32) (c : UInt8) : (x ||| c.toUInt32).toNat / 2 ^ 8 = x.toNat / 2 ^ 8 := by
  have hc : c.toUInt32.toNat >>> 8 = 0 := by
    have hlt : c.toNat < 2 ^ 8 := c.toNat_lt
    rw [Nat.shiftRight_eq_div_pow, UInt8.toNat_toUInt32]
    exact Nat.div_eq_of_lt hlt
  rw [UInt32.toNat_or, ← Nat.shiftRight_eq_div_pow, Nat.shiftRight_or_distrib, hc, Nat.or_zero,
    Nat.shiftRight_eq_div_pow]

/-- Over a low byte of 0 the byte is the low byte. -/
theorem or_byte_and {x : UInt32} (hx : x.toNat % 2 ^ 8 = 0) (c : UInt8) :
    (x ||| c.toUInt32) &&& 0xff = c.toUInt32 := by
  have hc : c.toNat < 2 ^ 8 := c.toNat_lt
  apply UInt32.toNat_inj.mp
  have hmask : (0xff : UInt32).toNat = 2 ^ 8 - 1 := rfl
  rw [UInt32.toNat_and, hmask, Nat.and_two_pow_sub_one_eq_mod, UInt32.toNat_or,
    Nat.or_mod_two_pow, hx, Nat.zero_or, UInt8.toNat_toUInt32, Nat.mod_eq_of_lt hc]

/-- The checksum is not summed itself. -/
theorem withCrc_drop (hd : Header) (crc : UInt8) :
    (hd.withCrc crc).bytes.drop NVRAM_CRC_START_POSITION
      = hd.bytes.drop NVRAM_CRC_START_POSITION := by
  have h8 := or_byte_div hd.crcVerInit crc
  have h16 : (hd.crcVerInit ||| crc.toUInt32).toNat / 2 ^ 16 = hd.crcVerInit.toNat / 2 ^ 16 := by
    omega
  have h24 : (hd.crcVerInit ||| crc.toUInt32).toNat / 2 ^ 24 = hd.crcVerInit.toNat / 2 ^ 24 := by
    omega
  have hword : (le32 (hd.crcVerInit ||| crc.toUInt32)).drop 1 = (le32 hd.crcVerInit).drop 1 := by
    simp only [le32, be32, h8, h16, h24]
    rfl
  have hdrop : ∀ hd : Header, hd.bytes.drop NVRAM_CRC_START_POSITION
      = (le32 hd.crcVerInit).drop 1 ++ (le32 hd.configRefresh ++ le32 hd.configNcdl) := fun _ => rfl
  rw [hdrop, hdrop]
  simp only [Header.withCrc]
  rw [hword]

theorem areaCrc_withCrc (hd : Header) (crc : UInt8) (data : List UInt8) :
    areaCrc (hd.withCrc crc) data = areaCrc hd data := by
  rw [areaCrc, withCrc_drop, areaCrc]
  rfl

/-- The bytes from byte 9 of the header up to the length. -/
theorem peek?_summed {m : Mapping} {low data : List UInt8} {hd : Header} {n : Nat}
    (h : m.Area low hd.bytes data) (hlo : HEADER_SIZE ≤ n) (hhi : n ≤ NVRAM_SPACE) :
    peek? m.bytes (m.header + NVRAM_CRC_START_POSITION) (n - NVRAM_CRC_START_POSITION)
      = some (hd.bytes.drop NVRAM_CRC_START_POSITION ++ data.take (n - HEADER_SIZE)) := by
  have hsize := h.dataSize
  have hlow : low.length ≤ m.header + NVRAM_CRC_START_POSITION := by
    rw [h.header_eq]
    exact Nat.le_add_right _ _
  have hhead : (hd.bytes.drop NVRAM_CRC_START_POSITION).take (n - NVRAM_CRC_START_POSITION)
      = hd.bytes.drop NVRAM_CRC_START_POSITION := by
    apply List.take_of_length_le
    rw [List.length_drop, Header.bytes_length]
    omega
  have hrest : n - NVRAM_CRC_START_POSITION - (HEADER_SIZE - NVRAM_CRC_START_POSITION)
      = n - HEADER_SIZE := by
    simp only [NVRAM_CRC_START_POSITION, HEADER_SIZE]
    omega
  rw [h.bytes, peek?_skip hlow, h.header_eq, Nat.add_sub_cancel_left, peek?_eq_some]
  constructor
  · simp only [List.length_append, Header.bytes_length, NVRAM_CRC_START_POSITION]
    simp only [HEADER_SIZE] at *
    omega
  · have hzero : NVRAM_CRC_START_POSITION - HEADER_SIZE = 0 := rfl
    rw [List.drop_append, Header.bytes_length, hzero, List.drop_zero, List.take_append, hhead,
      List.length_drop, Header.bytes_length, hrest]

/-- What `do_info` prints of an area: the stored header, and the checksum
over it and the data. -/
theorem doInfo_area {m : Mapping} {low data : List UInt8} {hd : Header}
    (h : m.Area low hd.bytes data) (hlo : HEADER_SIZE ≤ hd.len.toNat)
    (hhi : hd.len.toNat ≤ NVRAM_SPACE) :
    ∃ info, doInfo m = some info ∧ info.len = hd.len ∧ info.crc8 = hd.crcVerInit &&& 0xff ∧
      info.calculated = areaCrc hd data := by
  have hword : NVRAM_CRC_START_POSITION.toUInt32.toNat = NVRAM_CRC_START_POSITION := by decide
  have hnine : (hd.len - NVRAM_CRC_START_POSITION.toUInt32).toNat
      = hd.len.toNat - NVRAM_CRC_START_POSITION := by
    rw [UInt32.toNat_sub_of_le, hword]
    rw [UInt32.le_iff_toNat_le, hword]
    exact Nat.le_trans (by decide) hlo
  have hbody := peek?_summed h hlo hhi
  rw [← hnine] at hbody
  rw [doInfo, readHeader_area h, Option.bind_eq_bind, Option.bind_some, hbody]
  exact ⟨_, rfl, rfl, rfl, hndcrc8_append _ _ _⟩

/-! ## The committed area -/

/-- The flash area after a commit of the tables `h` into the mapping
`before`. -/
structure Layout (before : Mapping) (h : Store) (after : Mapping) : Prop where
  size : after.bytes.length = before.bytes.length
  front : after.bytes.take after.header = before.bytes.take before.header
  ended : ∃ written rest, written.Sublist (entries h.nvramHash) ∧
    after.bytes.drop (after.header + HEADER_SIZE) = image written ++ 0 :: rest
  info : ∃ i, doInfo after = some i ∧ i.len.toNat % 4 = 0 ∧ i.len.toNat ≤ NVRAM_SPACE ∧
    i.crc8 = i.calculated.toUInt32

/-- The commit of any table stays inside the area, ends the data with an
empty string, and stores a length inside the area and the checksum that the
`info` command computes. -/
theorem commit_layout (h : Handle) :
    ∃ h', nvramCommit h = some (0, h') ∧ Layout h.mmap h.store h'.mmap := by
  obtain ⟨low, head, data, harea⟩ := h.mmap.area_exists
  obtain ⟨m, hd, written, rest, hc⟩ := nvramCommit_committed h harea
  have harea' := hc.area
  have hroom : HEADER_SIZE + (image written).length + 2 ≤ NVRAM_SPACE := by
    have hfits := hc.fits
    simp only [ImageFits, DATA_ROOM, NVRAM_SPACE, HEADER_SIZE] at *
    omega
  have hlen := hc.length
  have hhi : hd.len.toNat ≤ NVRAM_SPACE := by
    rw [hlen]
    exact roundup_four_le hroom
  have hlo : HEADER_SIZE ≤ hd.len.toNat := by
    rw [hlen]
    simp only [roundup, HEADER_SIZE]
    omega
  refine ⟨_, hc.run, ?_, ?_, ?_, ?_⟩
  · have hold := harea.dataSize
    have hnew := harea'.dataSize
    have hhead := harea.headSize
    rw [harea'.bytes, harea.bytes]
    simp only [List.length_append, Header.bytes_length] at *
    omega
  · rw [harea'.header_eq, harea.header_eq, harea'.bytes, harea.bytes, List.take_left, List.take_left]
  · refine ⟨written, rest, hc.sub, ?_⟩
    rw [harea'.header_eq, ← harea'.headSize, harea'.bytes, ← List.length_append,
      ← List.append_assoc, List.drop_left]
  · obtain ⟨i, hi, hilen, hcrc, hcalc⟩ := doInfo_area harea' hlo hhi
    refine ⟨i, hi, ?_, ?_, ?_⟩
    · rw [hilen]
      simp only [Header.withCrc, hlen, roundup]
      omega
    · rw [hilen]
      exact hhi
    · rw [hcrc, hcalc, areaCrc_withCrc]
      exact or_byte_and hc.crcByte _

/-! ## Reading a damaged area -/

/-- The strings at the start of the data lead to one without a `=`: it ends
the parser, the ones in front of it do not. -/
inductive Ended : List UInt8 → Prop where
  | stop (s : CStr) (rest : List UInt8) (h : EQ ∉ s.chars) : Ended (s.bytesZ ++ rest)
  | next (s : CStr) (rest : List UInt8) (h : EQ ∈ s.chars) (hrest : Ended rest) :
      Ended (s.bytesZ ++ rest)

/-- `_nvram_rehash` stays inside the area: no access leaves the mapping at
its end, which is the end of the area, the loop ends, no string it looks at
starts in front of the area or behind it, and every `=` that it overwrites
for a moment lies inside. -/
structure RehashInside (m : Mapping) : Prop where
  runs : nvramRehash m ≠ none
  names : ∀ name h, Reaches (rehashBody m.bytes) (m.header + HEADER_SIZE, Store.empty) (name, h) →
    m.header ≤ name ∧ name < m.bytes.length
  equals : ∀ name h s, Reaches (rehashBody m.bytes) (m.header + HEADER_SIZE, Store.empty) (name, h) →
    cstr? m.bytes name = some s → EQ ∈ s.chars →
    m.header ≤ name + (nameOf s).strlen ∧ name + (nameOf s).strlen < m.bytes.length

/-- `nvram_open` and the parser it calls stay inside, also when the parser
is called on the area as it was. -/
structure OpenInside (m : Mapping) : Prop where
  opens : nvramOpen m ≠ none
  rehash : RehashInside m
  rehashOpened : ∀ m', m.poke 0 (List.replicate m.header 0xff) = some m' → RehashInside m'

theorem ended_mem {data : List UInt8} (h : Ended data) : (0 : UInt8) ∈ data := by
  cases h <;> simp [CStr.bytesZ]

/-- From the first string on the loop ends inside, if the data is ended. -/
theorem run_ended {data : List UInt8} (hended : Ended data) : ∀ (pre : List UInt8) (h : Store)
    (n : Nat), data.length < n → ∃ h', run (rehashBody (pre ++ data)) n (pre.length, h) = .done h' := by
  induction hended with
  | stop s rest hs =>
      intro pre h n hn
      obtain ⟨k, rfl⟩ := Nat.exists_eq_succ_of_ne_zero (Nat.ne_of_gt (Nat.lt_of_le_of_lt
        (Nat.zero_le _) hn))
      have hbody := @rehashBody_string pre rest s h
      rw [if_neg hs] at hbody
      exact ⟨h, run_stop hbody⟩
  | next s rest hs _ ih =>
      intro pre h n hn
      obtain ⟨k, rfl⟩ := Nat.exists_eq_succ_of_ne_zero (Nat.ne_of_gt (Nat.lt_of_le_of_lt
        (Nat.zero_le _) hn))
      have hbody := @rehashBody_string pre rest s h
      rw [if_pos hs] at hbody
      have hpos : pre.length + s.strlen + 1 = (pre ++ s.bytesZ).length := by
        rw [List.length_append, CStr.bytesZ_length]
        omega
      rw [List.length_append, CStr.bytesZ_length] at hn
      obtain ⟨h', hrun⟩ := ih (pre ++ s.bytesZ) (nvramSet h (nameOf s) (valueOf s)).2 k (by omega)
      refine ⟨h', ?_⟩
      rw [run_next hbody, hpos, ← List.append_assoc, hrun]

/-- Without a NUL the first look at the data leaves it. -/
theorem rehashBody_fault {pre data : List UInt8} (h0 : (0 : UInt8) ∉ data) (h : Store) :
    rehashBody (pre ++ data) (pre.length, h) = .fault := by
  have hcstr : cstr? (pre ++ data) pre.length = none := by
    rw [cstr?, List.drop_left, if_neg h0]
  cases data with
  | nil =>
      have hpeek : peek? (pre ++ []) pre.length 1 = none := by
        rw [peek?_eq_none]
        simp
      simp only [rehashBody, hpeek]
  | cons c data =>
      have hpeek : peek? (pre ++ c :: data) pre.length 1 = some [c] := by
        rw [peek?_skip (Nat.le_refl _), Nat.sub_self]
        exact @peek?_head [c] _ 1 rfl
      have hne : ¬ ([c] : List UInt8) = [0] := by
        intro hc
        have hc0 : c = 0 := by simpa using hc
        exact h0 (by rw [hc0]; exact List.mem_cons_self)
      simp only [rehashBody, hpeek, hne, if_false, hcstr]

theorem ended_of_run : ∀ (n : Nat) (pre data : List UInt8) (h h' : Store),
    run (rehashBody (pre ++ data)) n (pre.length, h) = .done h' → Ended data := by
  intro n
  induction n with
  | zero =>
      intro pre data h h' hrun
      cases hrun
  | succ n ih =>
      intro pre data h h' hrun
      by_cases h0 : (0 : UInt8) ∈ data
      · obtain ⟨s, rest, rfl⟩ := exists_string h0
        have hbody := @rehashBody_string pre rest s h
        by_cases hs : EQ ∈ s.chars
        · rw [if_pos hs] at hbody
          have hpos : pre.length + s.strlen + 1 = (pre ++ s.bytesZ).length := by
            rw [List.length_append, CStr.bytesZ_length]
            omega
          rw [run_next hbody, hpos, ← List.append_assoc] at hrun
          exact .next s rest hs (ih _ _ _ _ hrun)
        · exact .stop s rest hs
      · rw [run_fault (rehashBody_fault h0 h)] at hrun
        cases hrun

/-- A string that is looked at starts behind the header. -/
theorem rehash_reached {bytes : List UInt8} {start name : Nat} {h₀ h : Store}
    (hr : Reaches (rehashBody bytes) (start, h₀) (name, h)) : start ≤ name := by
  refine @Reaches.invariant _ _ _ (fun s => start ≤ s.1) _ _ hr (Nat.le_refl _) ?_
  rintro ⟨name, h⟩ ⟨name', h'⟩ _ hle hstep
  simp only at hle ⊢
  unfold rehashBody at hstep
  simp only at hstep
  split at hstep
  · cases hstep
  · split at hstep
    · cases hstep
    · split at hstep
      · cases hstep
      · split at hstep
        · cases hstep
          omega
        · cases hstep

theorem cstr?_lt {bytes : List UInt8} {off : Nat} {s : CStr} (h : cstr? bytes off = some s) :
    off + s.strlen < bytes.length := by
  unfold cstr? at h
  split at h
  · rename_i h0
    cases h
    obtain ⟨s, rest, hs⟩ := exists_string h0
    have hlen := congrArg List.length hs
    rw [List.length_drop, List.length_append, CStr.bytesZ_length] at hlen
    have hchars : CStr.ofBytes (bytes.drop off) = s := by
      apply CStr.ext_chars
      rw [hs, CStr.bytesZ, List.append_assoc]
      exact CStr.takeWhile_chars s rest
    rw [hchars]
    omega
  · cases h

theorem nameOf_lt {s : CStr} (h : EQ ∈ s.chars) : (nameOf s).strlen < s.strlen := by
  have hne : s.chars.dropWhile (· != EQ) ≠ [] := by
    intro hnil
    have hall := List.dropWhile_eq_nil_iff.mp hnil EQ h
    simp at hall
  have hlen := congrArg List.length (@List.takeWhile_append_dropWhile _ (· != EQ) s.chars)
  have hpos := List.length_pos_iff.mpr hne
  rw [List.length_append] at hlen
  simp only [CStr.strlen, nameOf]
  omega

/-- The parser stays inside exactly if the data is ended. -/
theorem rehash_inside_iff {m : Mapping} :
    RehashInside m ↔ Ended (m.bytes.drop (m.header + HEADER_SIZE)) := by
  obtain ⟨low, head, data, harea⟩ := m.area_exists
  have hsplit : m.bytes = (low ++ head) ++ data := by rw [harea.bytes, List.append_assoc]
  have hstart : m.header + HEADER_SIZE = (low ++ head).length := by
    rw [harea.header_eq, List.length_append, harea.headSize]
  have hdrop : m.bytes.drop (m.header + HEADER_SIZE) = data := by
    rw [hstart, hsplit, List.drop_left]
  have hloop : rehashLoop m = run (rehashBody ((low ++ head) ++ data)) (m.bytes.length + 1)
      ((low ++ head).length, Store.empty) := by
    rw [rehashLoop, ← hsplit, hstart]
  rw [hdrop]
  constructor
  · intro h
    cases hl : rehashLoop m with
    | done h' => exact ended_of_run _ _ _ _ _ (hloop.symm.trans hl)
    | fault => exact absurd (by rw [nvramRehash, hl]) h.runs
    | running => exact absurd (by rw [nvramRehash, hl]) h.runs
  · intro hended
    have hruns : ∀ n, m.bytes.length < n → ∃ h', run (rehashBody m.bytes) n
        (m.header + HEADER_SIZE, Store.empty) = .done h' := by
      intro n hn
      have hdata := run_ended hended (low ++ head) Store.empty n (by
        have hlen := congrArg List.length hsplit
        rw [List.length_append] at hlen
        omega)
      rwa [← hsplit, ← hstart] at hdata
    have hreach : ∀ t, Reaches (rehashBody m.bytes) (m.header + HEADER_SIZE, Store.empty) t →
        rehashBody m.bytes t ≠ .fault := by
      intro t ht hfault
      obtain ⟨k, hk⟩ := run_of_reaches ht
      obtain ⟨h', hdone⟩ := hruns (m.bytes.length + 1 + k) (by omega)
      rw [hk, run_fault hfault] at hdone
      cases hdone
    refine ⟨?_, ?_, ?_⟩
    · obtain ⟨hd, hhd⟩ := readHeader_isSome m
      obtain ⟨h', hdone⟩ := hruns (m.bytes.length + 1) (Nat.lt_succ_self _)
      rw [nvramRehash, rehashLoop, hdone, hhd]
      simp
    · intro name h hr
      have hle := rehash_reached hr
      refine ⟨by omega, ?_⟩
      by_contra hge
      have hpeek : peek? m.bytes name 1 = none := by
        rw [peek?_eq_none]
        omega
      apply hreach _ hr
      simp only [rehashBody, hpeek]
    · intro name h s hr hs heq
      have hle := rehash_reached hr
      have hlt := cstr?_lt hs
      have hname := nameOf_lt heq
      exact ⟨by omega, by omega⟩

/-- The fill of `nvram_open` leaves the area as it is. -/
theorem fill_area {m : Mapping} :
    ∃ m', m.poke 0 (List.replicate m.header 0xff) = some m' ∧
      u32le? m'.bytes m'.header = u32le? m.bytes m.header ∧
      m'.bytes.drop m'.header = m.bytes.drop m.header := by
  obtain ⟨low, head, data, harea⟩ := m.area_exists
  have hm : m.bytes = [] ++ (low ++ (head ++ data)) := by rw [List.nil_append, harea.bytes]
  have hfill : (List.replicate m.header (0xff : UInt8)).length = low.length := by
    rw [List.length_replicate, harea.header_eq]
  obtain ⟨m', hpoke, hbytes, _⟩ := Mapping.poke_append hm rfl hfill
  rw [List.nil_append] at hbytes
  have harea' : m'.Area (List.replicate m.header 0xff) head data :=
    ⟨hbytes, harea.headSize, harea.dataSize⟩
  refine ⟨m', hpoke, ?_, ?_⟩
  · rw [harea'.header_eq, harea'.bytes, u32le?_skip (Nat.le_refl _), Nat.sub_self, harea.header_eq,
      harea.bytes, u32le?_skip (Nat.le_refl _), Nat.sub_self]
  · rw [harea'.header_eq, harea'.bytes, List.drop_left, harea.header_eq, harea.bytes,
      List.drop_left]

theorem readHeader_magic {m : Mapping} {hd : Header} (h : readHeader m = some hd) :
    u32le? m.bytes m.header = some hd.magic := by
  unfold readHeader at h
  generalize m.header = off at h ⊢
  simp only [Option.bind_eq_bind, Option.bind_eq_some_iff] at h
  obtain ⟨magic, hw, _, _, _, _, _, _, _, _, h⟩ := h
  cases h
  exact hw

/-- On an area with the magic `nvram_open` and `_nvram_rehash` stay inside
exactly if the data is ended. -/
theorem open_inside_iff {m : Mapping} (hmagic : u32le? m.bytes m.header = some NVRAM_MAGIC) :
    OpenInside m ↔ Ended (m.bytes.drop (m.header + HEADER_SIZE)) := by
  obtain ⟨m', hpoke, hword, hdrop⟩ := @fill_area m
  have hdata : m'.bytes.drop (m'.header + HEADER_SIZE)
      = m.bytes.drop (m.header + HEADER_SIZE) := by
    rw [← List.drop_drop, hdrop, List.drop_drop]
  constructor
  · intro h
    exact rehash_inside_iff.mp h.rehash
  · intro hended
    have hinside : RehashInside m' := by
      rw [rehash_inside_iff, hdata]
      exact hended
    refine ⟨?_, rehash_inside_iff.mpr hended, ?_⟩
    · obtain ⟨hd, hhd⟩ := readHeader_isSome m'
      have hmagic' : hd.magic = NVRAM_MAGIC := by
        have hread := readHeader_magic hhd
        rw [hword, hmagic] at hread
        exact (Option.some.inj hread).symm
      cases hs : nvramRehash m' with
      | none => exact absurd hs hinside.runs
      | some store =>
          rw [nvramOpen, hpoke, Option.bind_eq_bind, Option.bind_some, hhd, Option.bind_eq_bind,
            Option.bind_some, if_pos hmagic', hs]
          simp
    · intro m'' hm''
      rw [hpoke] at hm''
      cases hm''
      exact hinside

/-! ## A written and an erased area -/

theorem filledBlock_length {strings : List UInt8}
    (hroom : strings.length ≤ NVRAM_SPACE - HEADER_SIZE) (c : UInt8) :
    (le32 NVRAM_MAGIC ++ (List.replicate (HEADER_SIZE - 4) c ++
      (strings ++ List.replicate (NVRAM_SPACE - HEADER_SIZE - strings.length) c))).length
      = NVRAM_SPACE := by
  simp only [List.length_append, List.length_replicate, le32_length]
  simp only [NVRAM_SPACE, HEADER_SIZE] at hroom ⊢
  omega

/-- An erase block of the size of the area: the magic, strings where the data
begin, and one byte again and again. -/
def filledBlock (strings : List UInt8) (hroom : strings.length ≤ NVRAM_SPACE - HEADER_SIZE)
    (c : UInt8) : Mapping where
  addr := 0
  bytes := le32 NVRAM_MAGIC ++ (List.replicate (HEADER_SIZE - 4) c ++
    (strings ++ List.replicate (NVRAM_SPACE - HEADER_SIZE - strings.length) c))
  space := (filledBlock_length hroom c).ge
  aligned := by rw [filledBlock_length hroom c]; decide
  user := by rw [filledBlock_length hroom c]; decide

section Filled

variable {strings : List UInt8} (hroom : strings.length ≤ NVRAM_SPACE - HEADER_SIZE) (c : UInt8)

theorem filledBlock_header : (filledBlock strings hroom c).header = 0 := by
  rw [Mapping.header, filledBlock, filledBlock_length hroom c]
  decide

theorem filledBlock_magic :
    u32le? (filledBlock strings hroom c).bytes (filledBlock strings hroom c).header
      = some NVRAM_MAGIC := by
  rw [filledBlock_header]
  exact u32le?_head NVRAM_MAGIC _

theorem filledBlock_data :
    (filledBlock strings hroom c).bytes.drop
        ((filledBlock strings hroom c).header + HEADER_SIZE)
      = strings ++ List.replicate (NVRAM_SPACE - HEADER_SIZE - strings.length) c := by
  rw [filledBlock_header, Nat.zero_add]
  change (le32 NVRAM_MAGIC ++ (List.replicate (HEADER_SIZE - 4) c ++ _)).drop HEADER_SIZE = _
  rw [← List.append_assoc]
  refine List.drop_left' ?_
  rw [List.length_append, List.length_replicate, le32_length]
  decide

end Filled

/-- Two values, as they are stored. -/
def twoStrings : List UInt8 :=
  (text "lan_proto=dhcp".toList).bytesZ ++ (text "wan_ifname=eth1".toList).bytesZ

theorem open_inside_twoStrings :
    u32le? (filledBlock twoStrings (by decide) 0).bytes (filledBlock twoStrings (by decide) 0).header
        = some NVRAM_MAGIC ∧
      OpenInside (filledBlock twoStrings (by decide) 0) := by
  have hmagic := @filledBlock_magic twoStrings (by decide) 0
  refine ⟨hmagic, (open_inside_iff hmagic).mpr ?_⟩
  rw [filledBlock_data, twoStrings, List.append_assoc]
  refine .next _ _ (by decide) (.next _ _ (by decide) ?_)
  exact .stop (text []) (List.replicate (NVRAM_SPACE - HEADER_SIZE - 31 - 1) 0) (by decide)

/-- Behind the magic the area is erased: there is no NUL to find. -/
theorem open_erased :
    u32le? (filledBlock [] (by decide) 0xff).bytes (filledBlock [] (by decide) 0xff).header
        = some NVRAM_MAGIC ∧
      ¬OpenInside (filledBlock [] (by decide) 0xff) := by
  refine ⟨filledBlock_magic _ 0xff, ?_⟩
  intro h
  have hended := rehash_inside_iff.mp h.rehash
  rw [filledBlock_data, List.nil_append] at hended
  exact absurd (List.eq_of_mem_replicate (ended_mem hended)) (by decide)

end UbntSdk.Nvram
