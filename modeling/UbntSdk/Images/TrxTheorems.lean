/-
UbntSdk.Images.TrxTheorems — when a TRX image is laid out as it should be
(`tools/firmware-utils/src/trx.c`).

The body of an image is a list of pieces: files and zeros. Every option that
is executed appends pieces, as long as the option meets a condition on the
state before it (`StepOk`): the source checks none of these. `Inv` says what
the buffer looks like between two options. The result is about whole runs: a
run whose options all meet the condition makes no access outside of the
buffer, and what it writes is an image (`trx_image_of_runOk`).
-/
import UbntSdk.Images.Trx
import UbntSdk.Lib.Align

namespace UbntSdk.Images.Trx

open UbntSdk.Lib

/-! ## The CRC -/

theorem crc32Tab_map : crc32Tab = (List.range 256).map fun i => crcByte (UInt32.ofNat i) := by
  decide +kernel

theorem crc32Tab_eq (i : Nat) (hi : i < 256) : crc32Tab.getD i 0 = crcByte (UInt32.ofNat i) := by
  simp [crc32Tab_map, hi]

/-- The table is that of the CRC-32; nothing is complemented at the end. -/
theorem crc32buf_eq (buf : List UInt8) : crc32buf buf = crcFold 0xFFFFFFFF buf := by
  simp only [crc32buf, crcUpdate_of_table crc32Tab_eq]
  rfl

/-! ## Images -/

/-- A file that was asked for: `-f` or `-A`, the alignment that `-a` has asked
for right before, and the content. -/
structure Wanted where
  indexed : Bool
  asked : Nat
  content : List UInt8
  deriving DecidableEq

/-- The file that an option asks for. -/
def wantedBy (asked : Nat) : Opt → List Wanted
  | .file (some content) => [⟨true, asked, content⟩]
  | .append (some content) => [⟨false, asked, content⟩]
  | _ => []

/-- The alignment that is asked for behind an option. A file or an absolute
offset ends it. -/
def askedAfter (asked : Nat) : Opt → Nat
  | .file (some _) => 1
  | .append (some _) => 1
  | .align (some n) => n.toNat
  | .offset (some _) => 1
  | _ => asked

/-- The files of the options. -/
def wantedOf : Nat → List Opt → List Wanted
  | _, [] => []
  | asked, o :: opts => wantedBy asked o ++ wantedOf (askedAfter asked o) opts

/-- A piece of the body of an image. -/
inductive Piece where
  | zeros (n : Nat)
  | file (f : Wanted)

def Piece.bytes : Piece → List UInt8
  | .zeros n => List.replicate n 0
  | .file f => f.content

/-- The files of a list of pieces with the positions at which they start. -/
def positions : Nat → List Piece → List (Nat × Wanted)
  | _, [] => []
  | pos, .zeros n :: pieces => positions (pos + n) pieces
  | pos, .file f :: pieces => (pos, f) :: positions (pos + f.content.length) pieces

/-- The positions that belong into the header. -/
def starts (pieces : List Piece) : List Nat :=
  ((positions 28 pieces).filter (·.2.indexed)).map (·.1)

/-- A header of the length, the CRC and the offsets. -/
def headerBytes (len crc : UInt32) (offsets : List UInt32) : List UInt8 :=
  le32 TRX_MAGIC ++ (le32 len ++ (le32 crc ++ (le32 (TRX_VERSION <<< 16) ++ offsets.flatMap le32)))

/-- The output is an image of the files: a header with the length, the CRC and
three offsets, and a body of the files and of zeros. -/
structure IsImage (files : List Wanted) (maxlen : Nat) (pieces : List Piece) (out : List UInt8) : Prop where
  bytes : out = headerBytes (UInt32.ofNat out.length) (crcFold 0xFFFFFFFF (out.drop 12))
    ((starts pieces ++ List.replicate (3 - (starts pieces).length) 0).map UInt32.ofNat) ++
      pieces.flatMap Piece.bytes
  files : (positions 28 pieces).map (·.2) = files
  three : (starts pieces).length ≤ 3
  aligned : ∀ x ∈ positions 28 pieces, x.2.asked ∣ x.1
  whole : 0x1000 ∣ out.length
  fits : out.length ≤ maxlen
  word : out.length < 2 ^ 32

/-! ## The conditions -/

/-- What an option has to meet in the state before it. -/
def StepOk (env : Env) (s : State) : Opt → Prop
  | .maxlen (some n) => s.curLen.toNat ≤ (roundMaxlen n).toNat ∧ env.moves s.reallocs = false
  | .align (some n) =>
      let m := s.curLen.toUInt64 &&& (n - 1)
      let pad := if m ≠ 0 then (n - m).toNat else 0
      n.toNat ∣ s.curLen.toNat + pad ∧ s.curLen.toNat + pad ≤ s.maxlen.toNat ∧
        s.curLen.toNat + pad < 2 ^ 32
  | .offset (some n) => s.curLen.toNat ≤ n.toNat → n.toNat ≤ s.maxlen.toNat ∧ n.toNat < 2 ^ 32
  | .file (some content) =>
      s.i < 3 ∧ (s.curLen.toNat + content.length < s.maxlen.toNat →
        s.curLen.toNat + ceilTo 4 content.length ≤ s.maxlen.toNat ∧
          s.curLen.toNat + ceilTo 4 content.length < 2 ^ 32)
  | .append (some content) =>
      s.curLen.toNat + content.length < s.maxlen.toNat →
        s.curLen.toNat + ceilTo 4 content.length ≤ s.maxlen.toNat ∧
          s.curLen.toNat + ceilTo 4 content.length < 2 ^ 32
  | _ => True

/-- What has to be met at the end: the length is a number of 32 bits, and the
offsets that are not used were zero in the memory of `malloc`. -/
def FinishOk (env : Env) (s : State) : Prop :=
  ceilTo 0x1000 s.curLen.toNat < 2 ^ 32 ∧ ∀ k, 16 + 4 * s.i ≤ k → k < 28 → env.fresh k = 0

/-- Every option of a run meets its condition, and so does the end. -/
def RunOk (env : Env) : State → List Opt → Prop
  | s, [] => FinishOk env s
  | s, o :: opts => StepOk env s o ∧ ∀ s', step env s o = .ok s' → RunOk env s' opts

/-! ## The buffer -/

/-- The header and the body in the buffer, with what is behind. -/
def layout (len crc offsets body tail : List UInt8) : List UInt8 :=
  le32 TRX_MAGIC ++ (len ++ (crc ++ (le32 (TRX_VERSION <<< 16) ++ (offsets ++ (body ++ tail)))))

/-- The offsets that are stored, and the bytes of the heap that stand there. -/
def offsetBytes (env : Env) (l : List Nat) : List UInt8 :=
  (l.map UInt32.ofNat).flatMap le32 ++ freshBytes env (16 + 4 * l.length) (12 - 4 * l.length)

/-- The buffer holds a body, and a header with these offsets. -/
def Holds (env : Env) (l : List Nat) (body buf : List UInt8) : Prop :=
  ∃ len crc tail, len.length = 4 ∧ crc.length = 4 ∧ buf = layout len crc (offsetBytes env l) body tail

/-- The variables go with a buffer that holds these offsets and this body. -/
structure Ready (env : Env) (s : State) (l : List Nat) (body : List UInt8) : Prop where
  stale : s.stale = false
  holds : Holds env l body s.buf
  three : l.length ≤ 3
  curLen : s.curLen.toNat = 28 + body.length
  size : s.buf.length = s.maxlen.toNat
  whole : 0x1000 ∣ s.maxlen.toNat
  room : s.curLen.toNat ≤ s.maxlen.toNat

/-- What holds between two options. -/
structure Inv (env : Env) (s : State) (pieces : List Piece) (asked : Nat) : Prop where
  ready : Ready env s (starts pieces) (pieces.flatMap Piece.bytes)
  count : s.i = (starts pieces).length
  aligned : ∀ x ∈ positions 28 pieces, x.2.asked ∣ x.1
  asked : asked ∣ s.curLen.toNat

@[simp] theorem freshBytes_length (env : Env) (off n : Nat) : (freshBytes env off n).length = n := by
  simp [freshBytes]

theorem freshBytes_add (env : Env) (off m n : Nat) :
    freshBytes env off (m + n) = freshBytes env off m ++ freshBytes env (off + m) n := by
  simp [freshBytes, List.range_add, Function.comp_def, Nat.add_assoc]

theorem flatMap_le32_length (l : List UInt32) : (l.flatMap le32).length = 4 * l.length := by
  induction l with
  | nil => rfl
  | cons x l ih =>
      rw [List.flatMap_cons, List.length_append, ih, le32_length, List.length_cons]
      omega

theorem offsetBytes_length {env : Env} {l : List Nat} (h : l.length ≤ 3) :
    (offsetBytes env l).length = 12 := by
  rw [offsetBytes, List.length_append, flatMap_le32_length, List.length_map, freshBytes_length]
  omega

theorem layout_length {len crc offsets body tail : List UInt8} (hlen : len.length = 4)
    (hcrc : crc.length = 4) (hoffsets : offsets.length = 12) :
    (layout len crc offsets body tail).length = 28 + body.length + tail.length := by
  simp only [layout, List.length_append, le32_length]
  omega

theorem layout_append (len crc offsets body tail bs : List UInt8) :
    layout len crc offsets body (tail ++ bs) = layout len crc offsets body tail ++ bs := by
  simp only [layout, List.append_assoc]

theorem layout_take {len crc offsets body tail : List UInt8} {n : Nat} (hlen : len.length = 4)
    (hcrc : crc.length = 4) (hoffsets : offsets.length = 12) (hn : 28 + body.length ≤ n) :
    (layout len crc offsets body tail).take n =
      layout len crc offsets body (tail.take (n - (28 + body.length))) := by
  have hempty (tail : List UInt8) : layout len crc offsets body tail = layout len crc offsets body [] ++ tail :=
    layout_append len crc offsets body [] tail
  have hlength : (layout len crc offsets body []).length = 28 + body.length :=
    layout_length hlen hcrc hoffsets
  rw [hempty tail, List.take_append, hlength, List.take_of_length_le (by omega), ← hempty]

theorem write_of_poke {s : State} {off : Nat} {bs buf : List UInt8} (h : poke? s.buf off bs = some buf) :
    write off bs s = .ok { s with buf := buf } := by
  rw [write]
  split
  · rename_i hnil
    obtain rfl : s.buf = buf := by
      rw [hnil, poke?] at h
      split at h
      · simpa using h
      · exact absurd h (by simp)
    rfl
  · rw [h]

theorem writeHeader_of_poke {s : State} {off : Nat} {x : UInt32} {buf : List UInt8} (hstale : s.stale = false)
    (h : poke? s.buf off (le32 x) = some buf) : writeHeader off x s = .ok { s with buf := buf } := by
  rw [writeHeader, if_neg (by rw [hstale]; exact Bool.false_ne_true)]
  exact write_of_poke h

/-- A write right behind the body. -/
theorem holds_write {env : Env} {l : List Nat} {body : List UInt8} {s : State} (h : Holds env l body s.buf)
    (hl : l.length ≤ 3) {bs : List UInt8} (hfit : 28 + body.length + bs.length ≤ s.buf.length) :
    ∃ buf, write (28 + body.length) bs s = .ok { s with buf := buf } ∧ Holds env l (body ++ bs) buf ∧
      buf.length = s.buf.length := by
  obtain ⟨len, crc, tail, hlen, hcrc, hbuf⟩ := h
  have hoff := @offsetBytes_length env l hl
  rw [hbuf, layout_length hlen hcrc hoff] at hfit
  have hpoke : poke? s.buf (28 + body.length) bs =
      some (layout len crc (offsetBytes env l) (body ++ bs) (tail.drop bs.length)) := by
    have hsplit : s.buf = (le32 TRX_MAGIC ++ (len ++ (crc ++ (le32 (TRX_VERSION <<< 16) ++
        (offsetBytes env l ++ body))))) ++ (tail.take bs.length ++ tail.drop bs.length) := by
      rw [List.take_append_drop, hbuf]
      simp only [layout, List.append_assoc]
    rw [hsplit, poke?_append]
    · simp only [layout, List.append_assoc]
    · simp only [List.length_append, le32_length, hlen, hcrc, hoff]
      omega
    · rw [List.length_take]
      omega
  exact ⟨_, write_of_poke hpoke, ⟨len, crc, _, hlen, hcrc, rfl⟩, poke?_length hpoke⟩

/-- The next offset is stored. -/
theorem holds_writeOffset {env : Env} {l : List Nat} {body : List UInt8} {s : State}
    (h : Holds env l body s.buf) (hl : l.length < 3) (hstale : s.stale = false) (x : UInt32) :
    ∃ buf, writeHeader (16 + 4 * l.length) x s = .ok { s with buf := buf } ∧
      Holds env (l ++ [x.toNat]) body buf ∧ buf.length = s.buf.length := by
  obtain ⟨len, crc, tail, hlen, hcrc, hbuf⟩ := h
  have hfresh : freshBytes env (16 + 4 * l.length) (12 - 4 * l.length) =
      freshBytes env (16 + 4 * l.length) 4 ++
        freshBytes env (16 + 4 * (l ++ [x.toNat]).length) (12 - 4 * (l ++ [x.toNat]).length) := by
    rw [List.length_append, List.length_singleton, Nat.mul_add, Nat.mul_one, ← Nat.add_assoc,
      ← freshBytes_add]
    congr 1
    omega
  have hpoke : poke? s.buf (16 + 4 * l.length) (le32 x) =
      some (layout len crc (offsetBytes env (l ++ [x.toNat])) body tail) := by
    have hsplit : s.buf = (le32 TRX_MAGIC ++ (len ++ (crc ++ (le32 (TRX_VERSION <<< 16) ++
        (l.map UInt32.ofNat).flatMap le32)))) ++ (freshBytes env (16 + 4 * l.length) 4 ++
          (freshBytes env (16 + 4 * (l ++ [x.toNat]).length) (12 - 4 * (l ++ [x.toNat]).length) ++
            (body ++ tail))) := by
      rw [hbuf, layout, offsetBytes, hfresh]
      simp only [List.append_assoc]
    rw [hsplit, poke?_append]
    · simp only [layout, offsetBytes, List.append_assoc, List.map_append, List.flatMap_append,
        List.map_cons, List.map_nil, List.flatMap_cons, List.flatMap_nil, List.append_nil,
        UInt32.ofNat_toNat]
    · simp only [List.length_append, le32_length, hlen, hcrc, flatMap_le32_length, List.length_map]
      omega
    · rw [le32_length, freshBytes_length]
  refine ⟨_, ?_, ⟨len, crc, tail, hlen, hcrc, rfl⟩, poke?_length hpoke⟩
  exact writeHeader_of_poke hstale hpoke

/-! ## Pieces -/

theorem positions_append (pos : Nat) (ps qs : List Piece) :
    positions pos (ps ++ qs) =
      positions pos ps ++ positions (pos + (ps.flatMap Piece.bytes).length) qs := by
  induction ps generalizing pos with
  | nil => rfl
  | cons p ps ih =>
      cases p with
      | zeros n =>
          rw [List.cons_append, positions, positions, ih, List.flatMap_cons, List.length_append,
            Piece.bytes, List.length_replicate, Nat.add_assoc]
      | file f =>
          rw [List.cons_append, positions, positions, ih, List.cons_append, List.flatMap_cons,
            List.length_append, Piece.bytes, Nat.add_assoc]

theorem positions_zeros (pieces : List Piece) (n : Nat) :
    positions 28 (pieces ++ [.zeros n]) = positions 28 pieces := by
  rw [positions_append, positions, positions, List.append_nil]

theorem positions_file (pieces : List Piece) (f : Wanted) (n : Nat) :
    positions 28 (pieces ++ [.file f, .zeros n]) =
      positions 28 pieces ++ [(28 + (pieces.flatMap Piece.bytes).length, f)] := by
  rw [positions_append, positions, positions, positions]

theorem starts_zeros (pieces : List Piece) (n : Nat) : starts (pieces ++ [.zeros n]) = starts pieces := by
  rw [starts, starts, positions_zeros]

theorem starts_file (pieces : List Piece) (f : Wanted) (n : Nat) :
    starts (pieces ++ [.file f, .zeros n]) =
      starts pieces ++ if f.indexed then [28 + (pieces.flatMap Piece.bytes).length] else [] := by
  rw [starts, starts, positions_file, List.filter_append, List.map_append]
  cases hindexed : f.indexed with
  | true => simp [hindexed]
  | false => simp [hindexed]

/-! ## Writes -/

/-- Zeros up to a length that fits. -/
theorem ready_zeros {env : Env} {s : State} {l : List Nat} {body : List UInt8} (h : Ready env s l body)
    {n : Nat} {curLen : UInt32} (hcur : curLen.toNat = s.curLen.toNat + n)
    (hfit : s.curLen.toNat + n ≤ s.maxlen.toNat) :
    ∃ buf, memset0 s.curLen.toNat n s = .ok { s with buf := buf } ∧
      Ready env { s with buf := buf, curLen := curLen } l (body ++ List.replicate n 0) := by
  have hspace : 28 + body.length + (List.replicate n (0 : UInt8)).length ≤ s.buf.length := by
    rw [List.length_replicate, ← h.curLen, h.size]
    exact hfit
  obtain ⟨buf, hwrite, hholds, hlen⟩ := holds_write h.holds h.three hspace
  refine ⟨buf, by rw [memset0, h.curLen]; exact hwrite, ?_⟩
  exact {
    stale := h.stale
    holds := hholds
    three := h.three
    curLen := by rw [List.length_append, List.length_replicate, hcur, h.curLen, Nat.add_assoc]
    size := hlen.trans h.size
    whole := h.whole
    room := by rw [hcur]; exact hfit }

/-- The offset of a file. -/
theorem ready_offset {env : Env} {s : State} {l : List Nat} {body : List UInt8} (h : Ready env s l body)
    (hi : s.i = l.length) (hl : l.length < 3) :
    ∃ buf, writeHeader (16 + 4 * s.i) s.curLen s = .ok { s with buf := buf } ∧
      Ready env { s with buf := buf, i := s.i + 1 } (l ++ [s.curLen.toNat]) body := by
  obtain ⟨buf, hwrite, hholds, hlen⟩ := holds_writeOffset h.holds hl h.stale s.curLen
  rw [← hi] at hwrite
  refine ⟨buf, hwrite, ?_⟩
  exact {
    stale := h.stale
    holds := hholds
    three := by rw [List.length_append, List.length_singleton]; exact hl
    curLen := h.curLen
    size := hlen.trans h.size
    whole := h.whole
    room := h.room }

theorem add_pad_eq (n : Nat) : n + (if n % 4 ≠ 0 then 4 - n % 4 else 0) = ceilTo 4 n := by
  rw [ceilTo]
  split
  · omega
  · omega

/-- A file and the zeros behind it. -/
def filled (content : List UInt8) : List UInt8 :=
  content ++ List.replicate (ceilTo 4 content.length - content.length) 0

theorem filled_length (content : List UInt8) : (filled content).length = ceilTo 4 content.length := by
  have hceil := le_ceilTo (show 0 < 4 by decide) content.length
  rw [filled, List.length_append, List.length_replicate]
  omega

theorem room_eq {env : Env} {s : State} {l : List Nat} {body : List UInt8} (h : Ready env s l body) :
    (s.maxlen - s.curLen.toUInt64).toNat = s.maxlen.toNat - s.curLen.toNat := by
  have hle : s.curLen.toUInt64 ≤ s.maxlen := by
    rw [UInt64.le_iff_toNat_le, UInt32.toNat_toUInt64]
    exact h.room
  rw [UInt64.toNat_sub_of_le _ _ hle, UInt32.toNat_toUInt64]

/-- What is read of a file always fits. -/
theorem readContent_write {env : Env} {s : State} {l : List Nat} {body : List UInt8} (h : Ready env s l body)
    (content : List UInt8) :
    ∃ buf, write s.curLen.toNat (content.take (s.maxlen.toNat - s.curLen.toNat)) s = .ok { s with buf := buf } ∧
      Holds env l (body ++ content.take (s.maxlen.toNat - s.curLen.toNat)) buf ∧
      buf.length = s.buf.length := by
  have htake : (content.take (s.maxlen.toNat - s.curLen.toNat)).length ≤ s.maxlen.toNat - s.curLen.toNat := by
    rw [List.length_take]
    exact Nat.min_le_left _ _
  have hcur := h.curLen
  have hsize := h.size
  have hroom := h.room
  rw [hcur] at htake ⊢
  exact holds_write h.holds h.three (by omega)

theorem readContent_exit {env : Env} {s : State} {l : List Nat} {body content : List UInt8}
    (h : Ready env s l body) (hlong : ¬ s.curLen.toNat + content.length < s.maxlen.toNat) :
    readContent (some content) s = .error .exit := by
  obtain ⟨buf, hwrite, -⟩ := readContent_write h content
  simp only [readContent, room_eq h, hwrite]
  exact if_pos (by omega)

/-- The content of a file goes behind the body, with zeros up to 4. -/
theorem readContent_ok {env : Env} {s : State} {l : List Nat} {body content : List UInt8}
    (h : Ready env s l body) (hshort : s.curLen.toNat + content.length < s.maxlen.toNat)
    (hfit : s.curLen.toNat + ceilTo 4 content.length ≤ s.maxlen.toNat)
    (hlt : s.curLen.toNat + ceilTo 4 content.length < 2 ^ 32) :
    ∃ s', readContent (some content) s = .ok s' ∧ Ready env s' l (body ++ filled content) ∧ s'.i = s.i ∧
      s'.maxlen = s.maxlen ∧ s'.opened = true ∧
      s'.curLen.toNat = s.curLen.toNat + ceilTo 4 content.length := by
  obtain ⟨buf, hwrite, hholds, hlen⟩ := readContent_write h content
  have hcur := h.curLen
  have hsize := h.size
  have hceil := le_ceilTo (show 0 < 4 by decide) content.length
  rw [List.take_of_length_le (by omega)] at hwrite hholds
  have hpad : content.length + (if content.length % 4 ≠ 0 then 4 - content.length % 4 else 0) =
      ceilTo 4 content.length := add_pad_eq content.length
  have hpadLen : (if content.length % 4 ≠ 0 then 4 - content.length % 4 else 0) =
      ceilTo 4 content.length - content.length := by omega
  have hspace : 28 + (body ++ content).length +
      (List.replicate (ceilTo 4 content.length - content.length) (0 : UInt8)).length ≤ buf.length := by
    rw [List.length_append, List.length_replicate, hlen]
    omega
  obtain ⟨buf', hset, hholds', hlen'⟩ := holds_write (s := { s with buf := buf }) hholds h.three hspace
  have hpos : s.curLen.toNat + content.length = 28 + (body ++ content).length := by
    rw [List.length_append, hcur, Nat.add_assoc]
  have hcur' : (s.curLen + UInt32.ofNat (ceilTo 4 content.length)).toNat =
      s.curLen.toNat + ceilTo 4 content.length := by
    rw [UInt32.toNat_add, UInt32.toNat_ofNat']
    omega
  refine ⟨{ s with
    buf := buf', curLen := s.curLen + UInt32.ofNat (ceilTo 4 content.length), opened := true }, ?_, ?_,
    rfl, rfl, rfl, hcur'⟩
  · simp only [readContent, room_eq h]
    rw [List.take_of_length_le (by omega), hwrite]
    show (if content.length ≥ s.maxlen.toNat - s.curLen.toNat then _ else _) = _
    rw [if_neg (by omega), hpad, hpadLen, memset0, hpos, hset]
    rfl
  · exact {
      stale := h.stale
      holds := by rw [filled, ← List.append_assoc]; exact hholds'
      three := h.three
      curLen := by rw [hcur', List.length_append, filled_length, hcur, Nat.add_assoc]
      size := hlen'.trans (hlen.trans hsize)
      whole := h.whole
      room := by rw [hcur']; exact hfit }

/-! ## One option -/

/-- What an option may come to: it exits, or the next state holds one more
file, if the option has one. -/
def Goes (env : Env) (r : Except Stop State) (pieces : List Piece) (files : List Wanted) (asked : Nat) : Prop :=
  r = .error .exit ∨ ∃ s' pieces', r = .ok s' ∧ Inv env s' pieces' asked ∧
    (positions 28 pieces').map (·.2) = (positions 28 pieces).map (·.2) ++ files

theorem Inv.of_asked {env : Env} {s : State} {pieces : List Piece} {asked asked' : Nat}
    (h : Inv env s pieces asked) (hasked : asked' ∣ s.curLen.toNat) : Inv env s pieces asked' :=
  { h with asked := hasked }

theorem goes_zeros {env : Env} {s : State} {pieces : List Piece} {asked : Nat} (h : Inv env s pieces asked)
    {n : Nat} {curLen : UInt32} {asked' : Nat} (hcur : curLen.toNat = s.curLen.toNat + n)
    (hfit : s.curLen.toNat + n ≤ s.maxlen.toNat) (hasked : asked' ∣ curLen.toNat) :
    ∃ buf, memset0 s.curLen.toNat n s = .ok { s with buf := buf } ∧
      Inv env { s with buf := buf, curLen := curLen } (pieces ++ [.zeros n]) asked' := by
  obtain ⟨buf, hset, hready⟩ := ready_zeros h.ready hcur hfit
  have hbytes : (pieces ++ [Piece.zeros n]).flatMap Piece.bytes =
      pieces.flatMap Piece.bytes ++ List.replicate n 0 := by
    simp [Piece.bytes]
  refine ⟨buf, hset, ?_⟩
  exact {
    ready := by rw [starts_zeros, hbytes]; exact hready
    count := by rw [starts_zeros]; exact h.count
    aligned := by rw [positions_zeros]; exact h.aligned
    asked := hasked }

theorem goes_align {env : Env} {s : State} {pieces : List Piece} {asked : Nat} (h : Inv env s pieces asked)
    (n : UInt64) (hok : StepOk env s (.align (some n))) :
    Goes env (step env s (.align (some n))) pieces [] n.toNat := by
  simp only [StepOk] at hok
  simp only [step]
  by_cases hm : s.curLen.toUInt64 &&& (n - 1) = 0
  · rw [if_neg (not_not.mpr hm)] at hok ⊢
    refine .inr ⟨s, pieces, rfl, h.of_asked hok.1, (List.append_nil _).symm⟩
  · rw [if_pos hm] at hok ⊢
    obtain ⟨hdvd, hfit, hlt⟩ := hok
    set pad := n - (s.curLen.toUInt64 &&& (n - 1)) with hpad
    have hcur : (s.curLen.toUInt64 + pad).toUInt32.toNat = s.curLen.toNat + pad.toNat := by
      rw [UInt64.toNat_toUInt32, UInt64.toNat_add, UInt32.toNat_toUInt64]
      omega
    obtain ⟨buf, hset, hinv⟩ := goes_zeros h hcur hfit (hcur.symm ▸ hdvd)
    refine .inr ⟨_, _, by rw [hset]; rfl, hinv, ?_⟩
    rw [positions_zeros, List.append_nil]

theorem goes_offset {env : Env} {s : State} {pieces : List Piece} {asked : Nat} (h : Inv env s pieces asked)
    (n : UInt64) (hok : StepOk env s (.offset (some n))) :
    Goes env (step env s (.offset (some n))) pieces [] 1 := by
  simp only [StepOk] at hok
  simp only [step]
  split
  · exact .inr ⟨s, pieces, rfl, h.of_asked (Nat.one_dvd _), (List.append_nil _).symm⟩
  · rename_i hle
    rw [UInt64.lt_iff_toNat_lt, UInt32.toNat_toUInt64, not_lt] at hle
    obtain ⟨hfit, hlt⟩ := hok hle
    have hsub : (n - s.curLen.toUInt64).toNat = n.toNat - s.curLen.toNat := by
      rw [UInt64.toNat_sub_of_le _ _ (by rw [UInt64.le_iff_toNat_le, UInt32.toNat_toUInt64]; exact hle),
        UInt32.toNat_toUInt64]
    have hcur : n.toUInt32.toNat = s.curLen.toNat + (n - s.curLen.toUInt64).toNat := by
      rw [UInt64.toNat_toUInt32, Nat.mod_eq_of_lt hlt, hsub]
      omega
    obtain ⟨buf, hset, hinv⟩ := goes_zeros h hcur (by omega) (Nat.one_dvd _)
    refine .inr ⟨_, _, by rw [hset]; rfl, hinv, ?_⟩
    rw [positions_zeros, List.append_nil]

theorem roundMaxlen_dvd (n : UInt64) : 0x1000 ∣ (roundMaxlen n).toNat := by
  have hand : (n &&& 0xFFF).toNat = n.toNat % 0x1000 := by
    rw [UInt64.toNat_and]
    exact Nat.and_two_pow_sub_one_eq_mod n.toNat 12
  have hlt := n.toNat_lt
  rw [roundMaxlen]
  split
  · have hle : n &&& 0xFFF ≤ 0x1000 := by
      rw [UInt64.le_iff_toNat_le, hand]
      exact (Nat.mod_lt _ (by decide)).le
    rw [UInt64.toNat_add, UInt64.toNat_sub_of_le _ _ hle, hand]
    show 4096 ∣ (n.toNat + (4096 - n.toNat % 4096)) % 2 ^ 64
    omega
  · rename_i hzero
    rw [not_not] at hzero
    rw [hzero] at hand
    exact Nat.dvd_of_mod_eq_zero hand.symm

theorem goes_maxlen {env : Env} {s : State} {pieces : List Piece} {asked : Nat} (h : Inv env s pieces asked)
    (n : UInt64) (hok : StepOk env s (.maxlen (some n))) :
    Goes env (step env s (.maxlen (some n))) pieces [] asked := by
  obtain ⟨hroom, hstay⟩ := hok
  simp only [step]
  split
  · exact .inl rfl
  · have hlen : (s.buf.take (roundMaxlen n).toNat ++
        freshBytes env s.buf.length ((roundMaxlen n).toNat - s.buf.length)).length =
          (roundMaxlen n).toNat := by
      rw [List.length_append, List.length_take, freshBytes_length]
      omega
    refine .inr ⟨_, pieces, rfl, ?_, (List.append_nil _).symm⟩
    obtain ⟨len, crc, tail, hlen4, hcrc4, hbuf⟩ := h.ready.holds
    have hoff := @offsetBytes_length env _ h.ready.three
    refine ⟨?_, h.count, h.aligned, h.asked⟩
    exact {
      stale := by rw [h.ready.stale, hstay]; rfl
      holds := by
        refine ⟨len, crc, tail.take ((roundMaxlen n).toNat - s.curLen.toNat) ++
          freshBytes env s.buf.length ((roundMaxlen n).toNat - s.buf.length), hlen4, hcrc4, ?_⟩
        show _ ++ _ = _
        rw [h.ready.curLen] at hroom ⊢
        rw [hbuf, layout_take hlen4 hcrc4 hoff hroom, ← layout_append]
      three := h.ready.three
      curLen := h.ready.curLen
      size := hlen
      whole := roundMaxlen_dvd n
      room := hroom }

/-- A state that has the offset of a file takes the file. -/
theorem goes_content {env : Env} {s s₀ : State} {pieces : List Piece} {f : Wanted}
    (h : Inv env s₀ pieces f.asked)
    (hready : Ready env s (starts pieces ++ if f.indexed then [s₀.curLen.toNat] else [])
      (pieces.flatMap Piece.bytes))
    (hcount : s.i = (starts pieces ++ if f.indexed then [s₀.curLen.toNat] else []).length)
    (hok : s.curLen.toNat + f.content.length < s.maxlen.toNat →
      s.curLen.toNat + ceilTo 4 f.content.length ≤ s.maxlen.toNat ∧
        s.curLen.toNat + ceilTo 4 f.content.length < 2 ^ 32) :
    Goes env (readContent (some f.content) s) pieces [f] 1 := by
  by_cases hshort : s.curLen.toNat + f.content.length < s.maxlen.toNat
  swap
  · exact .inl (readContent_exit hready hshort)
  obtain ⟨hfit, hlt⟩ := hok hshort
  obtain ⟨s', hread, hready', hi, -, -, -⟩ := readContent_ok hready hshort hfit hlt
  have hbytes : (pieces ++ [Piece.file f, .zeros (ceilTo 4 f.content.length - f.content.length)]).flatMap
      Piece.bytes = pieces.flatMap Piece.bytes ++ filled f.content := by
    simp [Piece.bytes, filled]
  have hall : starts (pieces ++ [.file f, .zeros (ceilTo 4 f.content.length - f.content.length)]) =
      starts pieces ++ if f.indexed then [s₀.curLen.toNat] else [] := by
    rw [starts_file, ← h.ready.curLen]
  refine .inr ⟨s', pieces ++ [.file f, .zeros (ceilTo 4 f.content.length - f.content.length)], hread, ?_, ?_⟩
  · exact {
      ready := by rw [hall, hbytes]; exact hready'
      count := by rw [hall, hi]; exact hcount
      aligned := by
        rw [positions_file]
        intro x hx
        obtain hx | hx := List.mem_append.mp hx
        · exact h.aligned x hx
        · rw [List.mem_singleton.mp hx, ← h.ready.curLen]
          exact h.asked
      asked := Nat.one_dvd _ }
  · rw [positions_file, List.map_append]
    rfl

theorem step_file {env : Env} {s : State} {buf : List UInt8} (content : Option (List UInt8))
    (h : writeHeader (16 + 4 * s.i) s.curLen s = .ok { s with buf := buf }) :
    step env s (.file content) = readContent content { s with buf := buf, i := s.i + 1 } := by
  simp only [step, readFile, Bool.false_eq_true, if_false, h]
  rfl

theorem goes_file {env : Env} {s : State} {pieces : List Piece} {asked : Nat} (h : Inv env s pieces asked)
    (content : List UInt8) (hok : StepOk env s (.file (some content))) :
    Goes env (step env s (.file (some content))) pieces [⟨true, asked, content⟩] 1 := by
  obtain ⟨hi, hfit⟩ := hok
  rw [h.count] at hi
  obtain ⟨buf, hwrite, hready⟩ := ready_offset h.ready h.count hi
  rw [step_file (some content) hwrite]
  refine goes_content (f := ⟨true, asked, content⟩) h hready ?_ hfit
  show s.i + 1 = _
  rw [h.count, List.length_append]
  rfl

theorem goes_append {env : Env} {s : State} {pieces : List Piece} {asked : Nat} (h : Inv env s pieces asked)
    (content : List UInt8) (hok : StepOk env s (.append (some content))) :
    Goes env (step env s (.append (some content))) pieces [⟨false, asked, content⟩] 1 := by
  refine goes_content (f := ⟨false, asked, content⟩) h ?_ ?_ hok
  · rw [if_neg Bool.false_ne_true, List.append_nil]
    exact h.ready
  · rw [if_neg Bool.false_ne_true, List.append_nil]
    exact h.count

/-- A file that is not there: the offset is stored before. -/
theorem goes_noFile {env : Env} {s : State} {pieces : List Piece} {asked : Nat} (h : Inv env s pieces asked) :
    Goes env (step env s (.file none)) pieces [] asked := by
  have hroom := h.ready.room
  have hcur := h.ready.curLen
  have hthree := h.ready.three
  obtain ⟨q, hq⟩ := h.ready.whole
  have hfit : 16 + 4 * s.i + (le32 s.curLen).length ≤ s.buf.length := by
    rw [le32_length, h.ready.size, h.count, hq]
    omega
  rw [step_file none (writeHeader_of_poke h.ready.stale (if_pos hfit))]
  exact .inl rfl

/-- One option keeps the invariant. -/
theorem goes_step {env : Env} {s : State} {pieces : List Piece} {asked : Nat} (h : Inv env s pieces asked)
    {o : Opt} (hok : StepOk env s o) :
    Goes env (step env s o) pieces (wantedBy asked o) (askedAfter asked o) := by
  match o with
  | .maxlen none => exact .inl rfl
  | .align none => exact .inl rfl
  | .offset none => exact .inl rfl
  | .append none => exact .inl rfl
  | .maxlen (some n) => exact goes_maxlen h n hok
  | .align (some n) => exact goes_align h n hok
  | .offset (some n) => exact goes_offset h n hok
  | .file (some content) => exact goes_file h content hok
  | .append (some content) => exact goes_append h content hok
  | .file none => exact goes_noFile h

/-! ## The end -/

theorem poke?_crc {len crc : List UInt8} (hlen : len.length = 4) (hcrc : crc.length = 4)
    (offsets body tail : List UInt8) (x : UInt32) :
    poke? (layout len crc offsets body tail) 8 (le32 x) = some (layout len (le32 x) offsets body tail) := by
  have hsplit (crc : List UInt8) : layout len crc offsets body tail = (le32 TRX_MAGIC ++ len) ++
      (crc ++ (le32 (TRX_VERSION <<< 16) ++ (offsets ++ (body ++ tail)))) := by
    simp only [layout, List.append_assoc]
  rw [hsplit crc, poke?_append, ← hsplit]
  · rw [List.length_append, le32_length, hlen]
  · rw [le32_length, hcrc]

theorem poke?_len {len : List UInt8} (hlen : len.length = 4) (crc offsets body tail : List UInt8)
    (x : UInt32) :
    poke? (layout len crc offsets body tail) 4 (le32 x) = some (layout (le32 x) crc offsets body tail) := by
  rw [layout, poke?_append, ← layout]
  · rw [le32_length]
  · rw [le32_length, hlen]

/-- Offsets that are not used are zero, if the memory was. -/
theorem offsetBytes_zero {env : Env} {l : List Nat} (hl : l.length ≤ 3)
    (h : ∀ k, 16 + 4 * l.length ≤ k → k < 28 → env.fresh k = 0) :
    offsetBytes env l = ((l ++ List.replicate (3 - l.length) 0).map UInt32.ofNat).flatMap le32 := by
  have hzero : freshBytes env (16 + 4 * l.length) (12 - 4 * l.length) =
      List.replicate (12 - 4 * l.length) 0 := by
    rw [freshBytes, List.eq_replicate_iff]
    refine ⟨by simp, ?_⟩
    intro b hb
    obtain ⟨k, hk, rfl⟩ := List.mem_map.mp hb
    have hlt := List.mem_range.mp hk
    exact h _ (by omega) (by omega)
  have hwords (n : Nat) : ((List.replicate n 0).map UInt32.ofNat).flatMap le32 =
      List.replicate (4 * n) 0 := by
    induction n with
    | zero => rfl
    | succ n ih =>
        rw [List.replicate_succ, List.map_cons, List.flatMap_cons, ih, Nat.mul_succ, Nat.add_comm,
          ← List.replicate_append_replicate]
        rfl
  rw [offsetBytes, hzero, List.map_append, List.flatMap_append, hwords]
  congr 2
  omega

/-- The image is filled up to a whole block. -/
theorem padEnd_spec {env : Env} {s : State} {l : List Nat} {body : List UInt8} (h : Ready env s l body)
    (hword : ceilTo 0x1000 s.curLen.toNat < 2 ^ 32) :
    ∃ s' n, padEnd s = .ok s' ∧ Ready env s' l (body ++ List.replicate n 0) ∧ s'.maxlen = s.maxlen ∧
      s'.i = s.i ∧ s'.curLen.toNat = ceilTo 0x1000 s.curLen.toNat := by
  have hand : (s.curLen &&& 0xFFF).toNat = s.curLen.toNat % 0x1000 := by
    rw [UInt32.toNat_and]
    exact Nat.and_two_pow_sub_one_eq_mod s.curLen.toNat 12
  have hfit : ceilTo 0x1000 s.curLen.toNat ≤ s.maxlen.toNat :=
    (ceilTo_isLeast (by decide) s.curLen.toNat).2 ⟨h.whole, h.room⟩
  by_cases hzero : s.curLen &&& 0xFFF = 0
  · refine ⟨s, 0, if_neg (not_not.mpr hzero), by rwa [List.replicate_zero, List.append_nil], rfl, rfl, ?_⟩
    rw [hzero] at hand
    have hmod : s.curLen.toNat % 0x1000 = 0 := hand.symm
    rw [ceilTo]
    omega
  · have hne : s.curLen.toNat % 0x1000 ≠ 0 := by
      rw [← hand]
      intro h0
      exact hzero (UInt32.toNat_inj.mp h0)
    have hle : s.curLen &&& 0xFFF ≤ 0x1000 := by
      rw [UInt32.le_iff_toNat_le, hand]
      exact (Nat.mod_lt _ (by decide)).le
    have hsub : (0x1000 - (s.curLen &&& 0xFFF)).toNat = 0x1000 - s.curLen.toNat % 0x1000 := by
      rw [UInt32.toNat_sub_of_le _ _ hle, hand]
      rfl
    have hceil : s.curLen.toNat + (0x1000 - s.curLen.toNat % 0x1000) = ceilTo 0x1000 s.curLen.toNat := by
      rw [ceilTo]
      omega
    have hcur : (s.curLen + (0x1000 - (s.curLen &&& 0xFFF))).toNat =
        s.curLen.toNat + (0x1000 - (s.curLen &&& 0xFFF)).toNat := by
      rw [UInt32.toNat_add, hsub, hceil, Nat.mod_eq_of_lt hword]
    obtain ⟨buf, hset, hready⟩ := ready_zeros h hcur (by rw [hsub, hceil]; exact hfit)
    refine ⟨_, _, ?_, hready, rfl, rfl, ?_⟩
    · simp only [padEnd, ne_eq, hzero, not_false_eq_true, if_true, hset]
      rfl
    show (s.curLen + (0x1000 - (s.curLen &&& 0xFFF))).toNat = _
    rw [hcur, hsub, hceil]

/-- What stands behind the CRC. -/
def summed (offsets body : List UInt8) : List UInt8 := le32 (TRX_VERSION <<< 16) ++ (offsets ++ body)

theorem layout_drop {len crc : List UInt8} (hlen : len.length = 4) (hcrc : crc.length = 4)
    (offsets body : List UInt8) : (layout len crc offsets body []).drop 12 = summed offsets body := by
  have hsplit : layout len crc offsets body [] =
      (le32 TRX_MAGIC ++ (len ++ crc)) ++ summed offsets body := by
    simp only [layout, summed, List.append_assoc, List.append_nil]
  rw [hsplit, List.drop_left']
  simp only [List.length_append, le32_length, hlen, hcrc]

/-- The image of some offsets and a body. -/
def imageBytes (env : Env) (l : List Nat) (body : List UInt8) : List UInt8 :=
  layout (le32 (UInt32.ofNat (28 + body.length)))
    (le32 (crcFold 0xFFFFFFFF (summed (offsetBytes env l) body))) (offsetBytes env l) body []

theorem fillHeader_spec {env : Env} {s : State} {l : List Nat} {body : List UInt8} (h : Ready env s l body) :
    ∃ s', fillHeader s = .ok (imageBytes env l body, s') ∧ s'.maxlen = s.maxlen := by
  obtain ⟨len, crc, tail, hlen, hcrc, hbuf⟩ := h.holds
  have hoff := @offsetBytes_length env _ h.three
  have hbody := h.curLen
  have hroom := h.room
  have hsize := h.size
  have hinside : ¬ (s.curLen.toNat < 12 ∨ s.buf.length < s.curLen.toNat) := by omega
  rw [imageBytes, ← hbody, UInt32.ofNat_toNat]
  generalize offsetBytes env l = offsets at hbuf hoff ⊢
  have htake (len crc : List UInt8) (hlen : len.length = 4) (hcrc : crc.length = 4) :
      (layout len crc offsets body tail).take s.curLen.toNat = layout len crc offsets body [] := by
    rw [layout_take hlen hcrc hoff hbody.ge, hbody, Nat.sub_self, List.take_zero]
  have hsum : crc32buf ((s.buf.take s.curLen.toNat).drop 12) = crcFold 0xFFFFFFFF (summed offsets body) := by
    rw [hbuf, htake len crc hlen hcrc, layout_drop hlen hcrc, crc32buf_eq]
  generalize crcFold 0xFFFFFFFF (summed offsets body) = x at hsum ⊢
  have hput₁ : writeHeader 8 x s = .ok { s with buf := layout len (le32 x) offsets body tail } :=
    writeHeader_of_poke h.stale (by rw [hbuf]; exact poke?_crc hlen hcrc _ _ _ x)
  have hput₂ : writeHeader 4 s.curLen { s with buf := layout len (le32 x) offsets body tail } =
      .ok { s with buf := layout (le32 s.curLen) (le32 x) offsets body tail } :=
    writeHeader_of_poke h.stale (poke?_len hlen _ _ _ _ _)
  refine ⟨{ s with buf := layout (le32 s.curLen) (le32 x) offsets body tail }, ?_, rfl⟩
  rw [← htake _ _ (le32_length _) (le32_length _)]
  simp only [fillHeader, if_neg hinside, hsum, hput₁, bind, Except.bind, hput₂]
  rfl

/-- The output of a run that has opened a file. -/
theorem finish_spec {env : Env} {s : State} {l : List Nat} {body : List UInt8} (h : Ready env s l body)
    (hopened : s.opened = true) (hword : ceilTo 0x1000 s.curLen.toNat < 2 ^ 32) :
    ∃ s' n, finish s = .ok (imageBytes env l (body ++ List.replicate n 0), s') ∧ s'.maxlen = s.maxlen ∧
      28 + (body ++ List.replicate n (0 : UInt8)).length = ceilTo 0x1000 s.curLen.toNat := by
  obtain ⟨s₁, n, hpad, hready, hmaxlen, -, hcur⟩ := padEnd_spec h hword
  obtain ⟨s', hfill, hmaxlen'⟩ := fillHeader_spec hready
  refine ⟨s', n, ?_, hmaxlen'.trans hmaxlen, ?_⟩
  · rw [finish, hopened, hpad]
    exact hfill
  · rw [← hready.curLen, hcur]

theorem imageBytes_length {env : Env} {l : List Nat} (hl : l.length ≤ 3) (body : List UInt8) :
    (imageBytes env l body).length = 28 + body.length := by
  rw [imageBytes, layout_length (le32_length _) (le32_length _) (offsetBytes_length hl)]
  rfl

/-- What is written is an image, if the offsets that are not used are zero. -/
theorem finish_image {env : Env} {s : State} {pieces : List Piece} {asked : Nat} (h : Inv env s pieces asked)
    (hok : FinishOk env s) :
    finish s = .error .exit ∨
      ∃ out s' pieces', finish s = .ok (out, s') ∧
        IsImage ((positions 28 pieces).map (·.2)) s'.maxlen.toNat pieces' out := by
  obtain ⟨hword, hzero⟩ := hok
  cases hopened : s.opened with
  | false =>
      left
      rw [finish, hopened]
      rfl
  | true =>
      obtain ⟨s', n, hfinish, hmaxlen, hlen⟩ := finish_spec h.ready hopened hword
      have hbytes : pieces.flatMap Piece.bytes ++ List.replicate n 0 =
          (pieces ++ [Piece.zeros n]).flatMap Piece.bytes := by
        simp [Piece.bytes]
      have hlength := @imageBytes_length env _ h.ready.three
        (pieces.flatMap Piece.bytes ++ List.replicate n 0)
      rw [h.count] at hzero
      refine .inr ⟨_, s', pieces ++ [.zeros n], hfinish, ?_⟩
      exact {
        bytes := by
          rw [hlength, starts_zeros, headerBytes, ← offsetBytes_zero h.ready.three hzero, ← hbytes,
            imageBytes, layout_drop (le32_length _) (le32_length _)]
          simp only [layout, List.append_assoc, List.append_nil]
        files := by rw [positions_zeros]
        three := by rw [starts_zeros]; exact h.ready.three
        aligned := by rw [positions_zeros]; exact h.aligned
        whole := by rw [hlength, hlen]; exact dvd_ceilTo _ _
        fits := by
          rw [hlength, hlen, hmaxlen]
          exact (ceilTo_isLeast (by decide) _).2 ⟨h.ready.whole, h.ready.room⟩
        word := by rw [hlength, hlen]; exact hword }

/-! ## Whole runs -/

theorem run_of_step {env : Env} {s s' : State} {o : Opt} (h : step env s o = .ok s') (opts : List Opt) :
    run env s (o :: opts) = run env s' opts := by
  rw [run, h]
  rfl

theorem trx_of_start {env : Env} {s : State} (h : start env = .ok s) (opts : List Opt) :
    trx env opts = run env s opts := by
  rw [trx, h]
  rfl

/-- A run from a state with the invariant. -/
theorem run_image {env : Env} (opts : List Opt) {s : State} {pieces : List Piece} {asked : Nat}
    (h : Inv env s pieces asked) (hok : RunOk env s opts) :
    run env s opts = .error .exit ∨
      ∃ out s' pieces', run env s opts = .ok (out, s') ∧
        IsImage ((positions 28 pieces).map (·.2) ++ wantedOf asked opts) s'.maxlen.toNat pieces' out := by
  induction opts generalizing s pieces asked with
  | nil =>
      rw [wantedOf, List.append_nil]
      exact finish_image h hok
  | cons o opts ih =>
      obtain ⟨hstep, hrest⟩ := hok
      obtain hexit | ⟨s', pieces', hnext, hinv, hfiles⟩ := goes_step h hstep
      · left
        rw [run, hexit]
        rfl
      · rw [run_of_step hnext, wantedOf, ← List.append_assoc, ← hfiles]
        exact ih hinv (hrest s' hnext)

/-- The two words that `main` starts with. -/
theorem poke?_start (env : Env) (n : Nat) :
    ∃ buf, poke? (freshBytes env 0 (28 + n)) 0 (le32 TRX_MAGIC) = some buf ∧
      poke? buf 12 (le32 (TRX_VERSION <<< 16)) =
        some (layout (freshBytes env 4 4) (freshBytes env 8 4) (offsetBytes env []) [] (freshBytes env 28 n)) := by
  have hfresh : freshBytes env 0 (28 + n) =
      freshBytes env 0 4 ++ (freshBytes env 4 4 ++ (freshBytes env 8 4 ++ (freshBytes env 12 4 ++
        (freshBytes env 16 12 ++ freshBytes env 28 n)))) := by
    rw [show 28 + n = 4 + (4 + (4 + (4 + (12 + n)))) by omega]
    simp only [freshBytes_add, Nat.zero_add, Nat.reduceAdd]
  refine ⟨_, by rw [hfresh, poke?_head (by rw [le32_length, freshBytes_length])], ?_⟩
  have hpoke := poke?_append (le32 TRX_MAGIC ++ (freshBytes env 4 4 ++ freshBytes env 8 4))
    (freshBytes env 12 4) (freshBytes env 16 12 ++ freshBytes env 28 n) (le32 (TRX_VERSION <<< 16))
    (show 12 = _ by simp only [List.length_append, le32_length, freshBytes_length])
    (by rw [le32_length, freshBytes_length])
  simp only [List.append_assoc] at hpoke
  exact hpoke

theorem start_ready (env : Env) :
    ∃ s, start env = .ok s ∧ Ready env s [] [] ∧ s.i = 0 ∧ s.maxlen = TRX_MAX_LEN := by
  obtain ⟨n, hn⟩ : ∃ n, TRX_MAX_LEN.toNat = 28 + n := ⟨TRX_MAX_LEN.toNat - 28, rfl⟩
  obtain ⟨buf, hmagic, hversion⟩ := poke?_start env n
  rw [← hn] at hmagic
  refine ⟨⟨layout (freshBytes env 4 4) (freshBytes env 8 4) (offsetBytes env []) [] (freshBytes env 28 n),
    false, sizeofTrxHeader, TRX_MAX_LEN, 0, false, 0⟩, ?_, ?_, rfl, rfl⟩
  · simp only [start]
    generalize freshBytes env 0 TRX_MAX_LEN.toNat = fresh at hmagic ⊢
    have hfirst := @writeHeader_of_poke ⟨fresh, false, sizeofTrxHeader, TRX_MAX_LEN, 0, false, 0⟩ _ _ _ rfl hmagic
    have hsecond := @writeHeader_of_poke ⟨buf, false, sizeofTrxHeader, TRX_MAX_LEN, 0, false, 0⟩ _ _ _ rfl hversion
    rw [hfirst]
    exact hsecond
  · exact {
      stale := rfl
      holds := ⟨_, _, _, freshBytes_length env 4 4, freshBytes_length env 8 4, rfl⟩
      three := by decide
      curLen := rfl
      size := by
        rw [layout_length (freshBytes_length env 4 4) (freshBytes_length env 8 4) (offsetBytes_length (by simp)),
          freshBytes_length, hn]
        rfl
      whole := show 0x1000 ∣ TRX_MAX_LEN.toNat by decide
      room := show sizeofTrxHeader.toNat ≤ TRX_MAX_LEN.toNat by decide }

theorem start_inv (env : Env) : ∃ s, start env = .ok s ∧ Inv env s [] 1 := by
  obtain ⟨s, hstart, hready, hi, -⟩ := start_ready env
  exact ⟨s, hstart, hready, hi, by simp [positions], Nat.one_dvd _⟩

/-- A run whose options all meet their conditions stays inside of the buffer:
it exits with a failure, or what it writes is an image of the files. -/
theorem trx_image_of_runOk (env : Env) (opts : List Opt)
    (hok : ∀ s, start env = .ok s → RunOk env s opts) :
    trx env opts = .error .exit ∨
      ∃ out s pieces, trx env opts = .ok (out, s) ∧ IsImage (wantedOf 1 opts) s.maxlen.toNat pieces out := by
  obtain ⟨s, hstart, hinv⟩ := start_inv env
  rw [trx_of_start hstart]
  exact run_image opts hinv (hok s hstart)

/-! ## Two runs -/

theorem imageBytes_drop {env : Env} {l : List Nat} (hl : l.length ≤ 3) (body : List UInt8) :
    (imageBytes env l body).drop 28 = body := by
  have hoff := @offsetBytes_length env l hl
  generalize hx : crcFold 0xFFFFFFFF (summed (offsetBytes env l) body) = x
  have hsplit : imageBytes env l body = (le32 TRX_MAGIC ++ (le32 (UInt32.ofNat (28 + body.length)) ++ (le32 x ++
      (le32 (TRX_VERSION <<< 16) ++ offsetBytes env l)))) ++ body := by
    simp only [imageBytes, hx, layout, List.append_assoc, List.append_nil]
  rw [hsplit, List.drop_left']
  simp only [List.length_append, le32_length, hoff]

theorem starts_length (pieces : List Piece) :
    (starts pieces).length = (((positions 28 pieces).map (·.2)).filter (·.indexed)).length := by
  rw [starts, List.length_map, List.filter_map, List.length_map]
  rfl

/-- A `-f` that succeeds. -/
theorem ready_file {env : Env} {s : State} {l : List Nat} {body content : List UInt8} (h : Ready env s l body)
    (hi : s.i = l.length) (hl : l.length < 3)
    (hshort : s.curLen.toNat + content.length < s.maxlen.toNat)
    (hfit : s.curLen.toNat + ceilTo 4 content.length ≤ s.maxlen.toNat)
    (hlt : s.curLen.toNat + ceilTo 4 content.length < 2 ^ 32) :
    ∃ s', step env s (.file (some content)) = .ok s' ∧
      Ready env s' (l ++ [s.curLen.toNat]) (body ++ filled content) ∧ s'.i = s.i + 1 ∧
      s'.maxlen = s.maxlen ∧ s'.opened = true ∧
      s'.curLen.toNat = s.curLen.toNat + ceilTo 4 content.length := by
  obtain ⟨buf, hwrite, hready⟩ := ready_offset h hi hl
  rw [step_file (some content) hwrite]
  exact readContent_ok hready hshort hfit hlt

/-- A heap whose memory is zero, and whose blocks stay. -/
def zeroEnv : Env := ⟨fun _ => 0, fun _ => false⟩

theorem single_run :
    ∃ s s', start zeroEnv = .ok s ∧ StepOk zeroEnv s (.file (some [1, 2, 3])) ∧
      step zeroEnv s (.file (some [1, 2, 3])) = .ok s' ∧ FinishOk zeroEnv s' ∧
      Ready zeroEnv s' [28] (filled [1, 2, 3]) ∧ s'.opened = true := by
  obtain ⟨s, hstart, hready, hi, hmaxlen⟩ := start_ready zeroEnv
  have hcur : s.curLen.toNat = 28 := hready.curLen
  have hmax : s.maxlen.toNat = 0x5A0000 := by
    rw [hmaxlen]
    rfl
  have hceil : ceilTo 4 ([1, 2, 3] : List UInt8).length = 4 := rfl
  have hlen : ([1, 2, 3] : List UInt8).length = 3 := rfl
  obtain ⟨s', hstep, hready', -, -, hopened, hcur'⟩ := ready_file hready hi (by decide)
    (show s.curLen.toNat + ([1, 2, 3] : List UInt8).length < _ by omega) (by omega) (by omega)
  rw [hcur] at hready'
  refine ⟨s, s', hstart, ⟨by omega, fun _ => ⟨by omega, by omega⟩⟩, hstep, ⟨?_, fun _ _ _ => rfl⟩, hready',
    hopened⟩
  rw [hcur', hcur, hceil]
  decide

theorem trx_image_single :
    ∃ out s pieces, trx zeroEnv [.file (some [1, 2, 3])] = .ok (out, s) ∧
      IsImage [⟨true, 1, [1, 2, 3]⟩] s.maxlen.toNat pieces out := by
  obtain ⟨s, s', hstart, hok, hstep, hfinish, hready, hopened⟩ := single_run
  have hrun : ∀ t, start zeroEnv = .ok t → RunOk zeroEnv t [.file (some [1, 2, 3])] := by
    intro t ht
    obtain rfl := Except.ok.inj (hstart.symm.trans ht)
    refine ⟨hok, ?_⟩
    intro t ht
    obtain rfl := Except.ok.inj (hstep.symm.trans ht)
    exact hfinish
  obtain hexit | himage := trx_image_of_runOk zeroEnv [.file (some [1, 2, 3])] hrun
  · obtain ⟨s'', n, hout, -⟩ := finish_spec hready hopened hfinish.1
    rw [trx_of_start hstart, run_of_step hstep, run, hout] at hexit
    cases hexit
  · exact himage

/-- The fourth offset is stored over the first bytes of the body. -/
theorem ready_fourth {env : Env} {s : State} {l : List Nat} {first rest : List UInt8}
    (h : Ready env s l (first ++ rest)) (hi : s.i = 3) (hfirst : first.length = 4) :
    ∃ buf, writeHeader (16 + 4 * s.i) s.curLen s = .ok { s with buf := buf } ∧
      Ready env { s with buf := buf, i := s.i + 1 } l (le32 s.curLen ++ rest) := by
  obtain ⟨len, crc, tail, hlen, hcrc, hbuf⟩ := h.holds
  have hoff := @offsetBytes_length env _ h.three
  have hsplit (first : List UInt8) : layout len crc (offsetBytes env l) (first ++ rest) tail =
      (le32 TRX_MAGIC ++ (len ++ (crc ++ (le32 (TRX_VERSION <<< 16) ++ offsetBytes env l)))) ++
        (first ++ (rest ++ tail)) := by
    simp only [layout, List.append_assoc]
  have hpoke : poke? s.buf (16 + 4 * s.i) (le32 s.curLen) =
      some (layout len crc (offsetBytes env l) (le32 s.curLen ++ rest) tail) := by
    rw [hbuf, hsplit first, poke?_append, ← hsplit]
    · simp only [List.length_append, le32_length, hlen, hcrc, hoff, hi]
    · rw [le32_length, hfirst]
  refine ⟨_, writeHeader_of_poke h.stale hpoke, ?_⟩
  exact {
    stale := h.stale
    holds := ⟨len, crc, tail, hlen, hcrc, rfl⟩
    three := h.three
    curLen := by
      have hcur := h.curLen
      rw [List.length_append, hfirst] at hcur
      rw [List.length_append, le32_length]
      exact hcur
    size := (poke?_length hpoke).trans h.size
    whole := h.whole
    room := h.room }

/-- Four files of four bytes. -/
def fourFiles : List Opt := List.replicate 4 (.file (some [1, 2, 3, 4]))

/-- A file of four bytes, if there is room. -/
theorem ready_four {env : Env} {s : State} {l : List Nat} {body : List UInt8} (h : Ready env s l body)
    (hi : s.i = l.length) (hl : l.length < 3) (hmax : s.maxlen = TRX_MAX_LEN) (hcur : s.curLen.toNat ≤ 100) :
    ∃ s', step env s (.file (some [1, 2, 3, 4])) = .ok s' ∧
      Ready env s' (l ++ [s.curLen.toNat]) (body ++ [1, 2, 3, 4]) ∧ s'.i = s.i + 1 ∧
      s'.maxlen = TRX_MAX_LEN ∧ s'.opened = true ∧ s'.curLen.toNat = s.curLen.toNat + 4 := by
  have hroom : s.maxlen.toNat = 0x5A0000 := by
    rw [hmax]
    rfl
  have hlen : ([1, 2, 3, 4] : List UInt8).length = 4 := rfl
  have hceil : ceilTo 4 ([1, 2, 3, 4] : List UInt8).length = 4 := rfl
  rw [← hmax]
  exact @ready_file _ _ _ _ [1, 2, 3, 4] h hi hl (by omega) (by omega) (by omega)

/-- A fourth `-f` is accepted, and its offset overwrites the first file. -/
theorem trx_fourFiles :
    ∃ out s, trx zeroEnv fourFiles = .ok (out, s) ∧ (out.drop 28).take 4 = [40, 0, 0, 0] ∧
      ∀ pieces, ¬ IsImage (wantedOf 1 fourFiles) s.maxlen.toNat pieces out := by
  obtain ⟨s₀, hstart, hready₀, hi₀, hmax₀⟩ := start_ready zeroEnv
  have hcur₀ : s₀.curLen.toNat = 28 := hready₀.curLen
  obtain ⟨s₁, hstep₁, hready₁, hi₁, hmax₁, -, hcur₁⟩ := ready_four hready₀ hi₀ (by decide) hmax₀ (by omega)
  rw [hcur₀] at hcur₁ hready₁
  obtain ⟨s₂, hstep₂, hready₂, hi₂, hmax₂, -, hcur₂⟩ :=
    ready_four hready₁ (by rw [hi₁, hi₀]; rfl) (by decide) hmax₁ (by omega)
  rw [hcur₁] at hcur₂ hready₂
  obtain ⟨s₃, hstep₃, hready₃, hi₃, hmax₃, -, hcur₃⟩ :=
    ready_four hready₂ (by rw [hi₂, hi₁, hi₀]; rfl) (by decide) hmax₂ (by omega)
  rw [hcur₂] at hcur₃ hready₃
  have hready₃' : Ready zeroEnv s₃ [28, 32, 36] ([1, 2, 3, 4] ++ [1, 2, 3, 4, 1, 2, 3, 4]) := hready₃
  obtain ⟨buf, hwrite, hready⟩ := ready_fourth hready₃' (by rw [hi₃, hi₂, hi₁, hi₀]) rfl
  have hroom : s₃.maxlen.toNat = 0x5A0000 := by
    rw [hmax₃]
    rfl
  have hlen : ([1, 2, 3, 4] : List UInt8).length = 4 := rfl
  have hceil : ceilTo 4 ([1, 2, 3, 4] : List UInt8).length = 4 := rfl
  obtain ⟨s₄, hread, hready₄, -, -, hopened, hcur₄⟩ := @readContent_ok _ _ _ _ [1, 2, 3, 4] hready
    (show s₃.curLen.toNat + _ < s₃.maxlen.toNat by omega)
    (show s₃.curLen.toNat + _ ≤ s₃.maxlen.toNat by omega) (show s₃.curLen.toNat + _ < 2 ^ 32 by omega)
  have hcur₄' : s₄.curLen.toNat = 44 := by
    rw [hcur₄, hceil]
    show s₃.curLen.toNat + 4 = 44
    omega
  obtain ⟨s, n, hout, -, -⟩ := finish_spec hready₄ hopened (by rw [hcur₄']; decide)
  have htrx : trx zeroEnv fourFiles = finish s₄ := by
    rw [fourFiles, trx_of_start hstart]
    show run zeroEnv s₀ [.file (some [1, 2, 3, 4]), .file (some [1, 2, 3, 4]), .file (some [1, 2, 3, 4]),
      .file (some [1, 2, 3, 4])] = _
    rw [run_of_step hstep₁, run_of_step hstep₂, run_of_step hstep₃,
      run_of_step ((step_file _ hwrite).trans hread), run]
  refine ⟨_, s, htrx.trans hout, ?_, ?_⟩
  · have hword : s₃.curLen = 40 := UInt32.toNat_inj.mp (hcur₃.trans rfl)
    rw [imageBytes_drop hready₄.three, hword]
    rfl
  · intro pieces himage
    have hthree := himage.three
    rw [starts_length, himage.files] at hthree
    exact absurd hthree (by decide)

end UbntSdk.Images.Trx
