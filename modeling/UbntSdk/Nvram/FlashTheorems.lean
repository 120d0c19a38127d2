/-
UbntSdk.Nvram.FlashTheorems — what is written to flash is what is read.

`Mapping.Area` splits the mapping into the bytes in front of the NVRAM
area, the header and the data. Two lemmas say what a store into the header
or into the data leaves (`Area.pokeHead`, `Area.pokeData`), and the
proofs below never look at offsets again.

The write side keeps the invariant `Writing`: the strings written so far,
then 0xff to the end, and room for the double NUL. One chain keeps it
(`writeChain_spec`), so all chains do (`writeTuples_spec`); both say that
the tuples written are a sublist of those in the table, and all of them if
they fit. The read side is one induction over the strings (`run_image`).

`nvramCommit_spec` puts the two together for every table, and
`nvramOpen_image` reads the same image again.
-/
import UbntSdk.Nvram.Flash
import UbntSdk.Nvram.StoreTheorems

namespace UbntSdk.Nvram

open UbntSdk.Lib

/-! ## The parts of the mapping -/

/-- The mapping is `low`, then a header of bytes `head`, then `data`. -/
structure Mapping.Area (m : Mapping) (low head data : List UInt8) : Prop where
  bytes : m.bytes = low ++ (head ++ data)
  headSize : head.length = HEADER_SIZE
  dataSize : HEADER_SIZE + data.length = NVRAM_SPACE

namespace Mapping

theorem area_exists (m : Mapping) : ∃ low head data, m.Area low head data := by
  refine ⟨m.bytes.take m.header, (m.bytes.drop m.header).take HEADER_SIZE,
    (m.bytes.drop m.header).drop HEADER_SIZE, ?_, ?_, ?_⟩
  · rw [List.take_append_drop, List.take_append_drop]
  · have hspace := m.space
    simp only [header, NVRAM_SPACE, HEADER_SIZE, List.length_take, List.length_drop] at *
    omega
  · have hspace := m.space
    simp only [header, NVRAM_SPACE, HEADER_SIZE, List.length_drop] at *
    omega

theorem Area.header_eq {m : Mapping} {low head data : List UInt8} (h : m.Area low head data) :
    m.header = low.length := by
  have hsize := congrArg List.length h.bytes
  have hhead := h.headSize
  have hdata := h.dataSize
  simp only [List.length_append] at hsize
  simp only [header]
  omega

/-- A store into the middle of a three-part memory. -/
theorem poke_append {m : Mapping} {pre mid post bs : List UInt8} {off : Nat}
    (hm : m.bytes = pre ++ (mid ++ post)) (hoff : off = pre.length)
    (hlen : bs.length = mid.length) :
    ∃ m', m.poke off bs = some m' ∧ m'.bytes = pre ++ (bs ++ post) ∧ m'.addr = m.addr := by
  have hpoke : poke? m.bytes off bs = some (pre ++ (bs ++ post)) := by
    rw [hm, hoff, poke?_skip (Nat.le_refl _), Nat.sub_self, poke?_head hlen]
    rfl
  unfold poke
  split
  · rename_i hnone
    rw [hpoke] at hnone
    cases hnone
  · rename_i bytes hsome
    rw [hpoke] at hsome
    cases hsome
    exact ⟨_, rfl, rfl, rfl⟩

theorem Area.pokeHead {m : Mapping} {low head data : List UInt8} (h : m.Area low head data)
    {head' : List UInt8} (hsize : head'.length = HEADER_SIZE) :
    ∃ m', m.poke low.length head' = some m' ∧ m'.Area low head' data ∧ m'.addr = m.addr := by
  obtain ⟨m', hpoke, hbytes, haddr⟩ :=
    poke_append h.bytes rfl (hsize.trans h.headSize.symm)
  exact ⟨m', hpoke, ⟨hbytes, hsize, h.dataSize⟩, haddr⟩

theorem Area.pokeData {m : Mapping} {low head pre mid post : List UInt8}
    (h : m.Area low head (pre ++ (mid ++ post))) {bs : List UInt8} (hlen : bs.length = mid.length)
    {off : Nat} (hoff : off = low.length + HEADER_SIZE + pre.length) :
    ∃ m', m.poke off bs = some m' ∧ m'.Area low head (pre ++ (bs ++ post)) ∧
      m'.addr = m.addr := by
  have hm : m.bytes = (low ++ (head ++ pre)) ++ (mid ++ post) := by
    simp [h.bytes, List.append_assoc]
  have hpre : off = (low ++ (head ++ pre)).length := by
    have hhead := h.headSize
    simp only [List.length_append]
    omega
  obtain ⟨m', hpoke, hbytes, haddr⟩ := poke_append hm hpre hlen
  refine ⟨m', hpoke, ⟨?_, h.headSize, ?_⟩, haddr⟩
  · simp [hbytes, List.append_assoc]
  · have hdata := h.dataSize
    simp only [List.length_append] at hdata ⊢
    omega

/-- Data that fills the area as the old data did takes its place. -/
theorem Area.pokeAll {m : Mapping} {low head data : List UInt8} (h : m.Area low head data)
    {bs : List UInt8} (hlen : bs.length = NVRAM_SPACE - HEADER_SIZE) :
    ∃ m', m.poke (low.length + HEADER_SIZE) bs = some m' ∧ m'.Area low head bs ∧
      m'.addr = m.addr := by
  have hdata := h.dataSize
  have harea : m.Area low head ([] ++ (data ++ [])) := by simpa using h
  obtain ⟨m', hpoke, hm', haddr⟩ := harea.pokeData (show bs.length = data.length by omega) (by simp; rfl)
  exact ⟨m', hpoke, by simpa using hm', haddr⟩

end Mapping

@[simp] theorem Header.bytes_length (hd : Header) : hd.bytes.length = HEADER_SIZE := by
  simp [Header.bytes, HEADER_SIZE]

theorem u32le?_skip {a m : List UInt8} {off : Nat} (h : a.length ≤ off) :
    u32le? (a ++ m) off = u32le? m (off - a.length) := by
  rw [u32le?, u32le?, peek?_skip h]

theorem u32le?_head (x : UInt32) (post : List UInt8) : u32le? (le32 x ++ post) 0 = some x := by
  rw [u32le?, peek?_head (by simp), Option.map_some, ofLe32_le32]

/-- The header is read as it was written. -/
theorem readHeader_area {m : Mapping} {low data : List UInt8} {hd : Header}
    (h : m.Area low hd.bytes data) : readHeader m = some hd := by
  have hword : ∀ k, u32le? m.bytes (low.length + k) = u32le? (hd.bytes ++ data) k := by
    intro k
    rw [h.bytes, u32le?_skip (by omega), Nat.add_sub_cancel_left]
  have hzero := hword 0
  simp only [Nat.add_zero] at hzero
  simp only [readHeader, h.header_eq, hword, hzero, Header.bytes, List.append_assoc]
  simp (disch := simp) only [u32le?_skip, le32_length, u32le?_head, Nat.reduceSub,
    Option.bind_eq_bind, Option.bind_some]
  rfl

/-- Some header is always there to be read. -/
theorem readHeader_isSome (m : Mapping) : ∃ hd, readHeader m = some hd := by
  have hword : ∀ k, k + 4 ≤ HEADER_SIZE → ∃ x, u32le? m.bytes (m.header + k) = some x := by
    intro k hk
    have hspace := m.space
    have hsome : (peek? m.bytes (m.header + k) 4).isSome := by
      rw [peek?_isSome]
      simp only [Mapping.header, NVRAM_SPACE, HEADER_SIZE] at *
      omega
    obtain ⟨bs, hbs⟩ := Option.isSome_iff_exists.mp hsome
    exact ⟨ofLe32 bs, by rw [u32le?, hbs]; rfl⟩
  obtain ⟨a, ha⟩ := hword 0 (by decide)
  obtain ⟨b, hb⟩ := hword 4 (by decide)
  obtain ⟨c, hc⟩ := hword 8 (by decide)
  obtain ⟨d, hd⟩ := hword 12 (by decide)
  obtain ⟨e, he⟩ := hword 16 (by decide)
  refine ⟨⟨a, b, c, d, e⟩, ?_⟩
  rw [Nat.add_zero] at ha
  simp only [readHeader, ha, hb, hc, hd, he]
  rfl

/-! ## Reading the strings -/

/-- The strings of the tuples, each with its NUL. -/
def image (ts : List Tuple) : List UInt8 := ts.flatMap fun t => (line t).bytesZ

@[simp] theorem image_nil : image [] = [] := rfl

@[simp] theorem image_cons (t : Tuple) (ts : List Tuple) :
    image (t :: ts) = (line t).bytesZ ++ image ts := rfl

@[simp] theorem image_append (ts us : List Tuple) : image (ts ++ us) = image ts ++ image us := by
  simp [image]

theorem image_length_le (ts : List Tuple) : ts.length ≤ (image ts).length := by
  induction ts with
  | nil => exact Nat.le_refl _
  | cons t ts ih =>
      simp only [image_cons, List.length_append, List.length_cons, CStr.bytesZ_length]
      omega

theorem line_strlen (t : Tuple) : (line t).strlen = t.name.strlen + 1 + t.value.strlen := by
  simp only [line, CStr.strlen, List.length_append, List.length_cons]
  omega

/-- The tuple that the parser makes of a tuple's string. -/
def reparse (t : Tuple) : Tuple := ⟨nameOf (line t), valueOf (line t)⟩

/-- A tuple is read back as it was iff its name has no `=` in it. -/
theorem reparse_eq {t : Tuple} (h : EQ ∉ t.name.chars) : reparse t = t := by
  have hpos : ∀ c ∈ t.name.chars, (c != EQ) = true := by
    intro c hc
    have hne : c ≠ EQ := fun he => h (he ▸ hc)
    simpa using hne
  have hname : nameOf (line t) = t.name := by
    apply CStr.ext_chars
    simp only [nameOf, line]
    rw [List.takeWhile_append_of_pos hpos]
    simp
  have hvalue : valueOf (line t) = t.value := by
    apply CStr.ext_chars
    simp only [valueOf, line]
    rw [List.dropWhile_append_of_pos hpos]
    simp
  rw [reparse, hname, hvalue]

/-- The tables after setting the tuples in order. -/
def setAll (h : Store) (ts : List Tuple) : Store :=
  ts.foldl (fun h t => (nvramSet h t.name t.value).2) h

/-- One pass over a string: it is set if it has a `=`, and ends the loop if
it has none, as the empty string. -/
theorem rehashBody_string {pre rest : List UInt8} (s : CStr) (h : Store) :
    rehashBody (pre ++ (s.bytesZ ++ rest)) (pre.length, h)
      = if EQ ∈ s.chars then
          .next (pre.length + s.strlen + 1, (nvramSet h (nameOf s) (valueOf s)).2)
        else .stop h := by
  have hcstr : cstr? (pre ++ (s.bytesZ ++ rest)) pre.length = some s := by
    rw [CStr.bytesZ, List.append_assoc]
    exact cstr?_append pre rest s rfl
  cases hc : s.chars with
  | nil =>
      have hpeek : peek? (pre ++ (s.bytesZ ++ rest)) pre.length 1 = some [0] := by
        rw [peek?_skip (Nat.le_refl _), Nat.sub_self, CStr.bytesZ, hc]
        exact @peek?_head [0] _ 1 rfl
      simp only [rehashBody, hpeek, if_true]
      rw [if_neg (List.not_mem_nil)]
  | cons c cs =>
      have hpeek : peek? (pre ++ (s.bytesZ ++ rest)) pre.length 1 = some [c] := by
        rw [peek?_skip (Nat.le_refl _), Nat.sub_self, CStr.bytesZ, hc]
        exact @peek?_head [c] _ 1 rfl
      have hne : ¬ ([c] : List UInt8) = [0] := by
        intro h0
        have hc0 : c = 0 := by simpa using h0
        exact s.noNul (by rw [hc, hc0]; exact List.mem_cons_self)
      simp only [rehashBody, hpeek, hcstr, hne, if_false, hc]

theorem rehashBody_line {pre rest : List UInt8} (t : Tuple) (h : Store) :
    rehashBody (pre ++ ((line t).bytesZ ++ rest)) (pre.length, h)
      = .next (pre.length + (line t).strlen + 1,
          (nvramSet h (reparse t).name (reparse t).value).2) := by
  have hmem : EQ ∈ (line t).chars := by simp [line]
  rw [rehashBody_string, if_pos hmem, reparse]

theorem rehashBody_end {pre rest : List UInt8} (h : Store) :
    rehashBody (pre ++ (0 :: rest)) (pre.length, h) = .stop h := by
  have hempty := @rehashBody_string pre rest (text []) h
  rwa [if_neg (by decide)] at hempty

/-- The parsing loop sets every tuple of the image, in order. -/
theorem run_image (ts : List Tuple) : ∀ (pre rest : List UInt8) (h : Store) (n : Nat),
    run (rehashBody (pre ++ (image ts ++ 0 :: rest))) (n + ts.length + 1) (pre.length, h)
      = .done (setAll h (ts.map reparse)) := by
  induction ts with
  | nil =>
      intro pre rest h n
      exact run_stop (rehashBody_end h)
  | cons t ts ih =>
      intro pre rest h n
      have hsplit : pre ++ (image (t :: ts) ++ 0 :: rest)
          = pre ++ ((line t).bytesZ ++ (image ts ++ 0 :: rest)) := by
        simp [List.append_assoc]
      have hassoc : pre ++ ((line t).bytesZ ++ (image ts ++ 0 :: rest))
          = (pre ++ (line t).bytesZ) ++ (image ts ++ 0 :: rest) := by
        simp [List.append_assoc]
      have hpos : pre.length + (line t).strlen + 1 = (pre ++ (line t).bytesZ).length := by
        simp only [List.length_append, CStr.bytesZ_length]
        omega
      rw [hsplit, List.length_cons,
        show n + (ts.length + 1) + 1 = (n + ts.length + 1) + 1 by omega,
        run_next (rehashBody_line t h), hassoc, hpos, ih]
      rfl

/-- Reading an area that holds the tuples' strings and an empty string. -/
theorem nvramRehash_area {m : Mapping} {low rest : List UInt8} {hd : Header} {ts : List Tuple}
    (h : m.Area low hd.bytes (image ts ++ 0 :: rest)) :
    nvramRehash m = some (setSdram hd (setAll Store.empty (ts.map reparse))) := by
  have hbytes : m.bytes = (low ++ hd.bytes) ++ (image ts ++ 0 :: rest) := by
    rw [h.bytes, List.append_assoc]
  have hstart : m.header + HEADER_SIZE = (low ++ hd.bytes).length := by
    rw [h.header_eq, List.length_append, Header.bytes_length]
  have hfuel : m.bytes.length + 1 = (m.bytes.length - ts.length) + ts.length + 1 := by
    have hle := image_length_le ts
    have hlen := congrArg List.length hbytes
    simp only [List.length_append] at hlen
    omega
  have hloop : rehashLoop m = .done (setAll Store.empty (ts.map reparse)) := by
    rw [rehashLoop, hfuel, hstart, hbytes]
    exact run_image ts _ rest Store.empty _
  rw [nvramRehash, hloop, readHeader_area h]
  rfl

/-! ## Writing the strings -/

/-- Bytes of data that the tuples may take: the header and the double NUL
are kept free. -/
def DATA_ROOM : Nat := NVRAM_SPACE - HEADER_SIZE - 2

/-- The serialised form of the tuples fits. -/
def ImageFits (ts : List Tuple) : Prop := (image ts).length ≤ DATA_ROOM

instance (ts : List Tuple) : Decidable (ImageFits ts) := inferInstanceAs (Decidable (_ ≤ _))

/-- The state of the writing loops: `w` is written, the rest is still
0xff, the pointer stands behind `w` and there is room for a double NUL. -/
structure Writing (addr : Nat) (low head : List UInt8) (s : Mapping × Nat) (w : List UInt8) :
    Prop where
  area : s.1.Area low head (w ++ List.replicate (NVRAM_SPACE - HEADER_SIZE - w.length) 0xff)
  ptr : s.2 = low.length + HEADER_SIZE + w.length
  room : w.length ≤ DATA_ROOM
  addrEq : s.1.addr = addr

/-- One `sprintf` that was found to fit. -/
theorem Writing.sprintf {addr : Nat} {low head w : List UInt8} {m : Mapping} {ptr : Nat}
    (hw : Writing addr low head (m, ptr) w) {t : Tuple}
    (hfit : (w ++ (line t).bytesZ).length ≤ DATA_ROOM) :
    ∃ m', m.poke ptr (line t).bytesZ = some m' ∧
      Writing addr low head (m', ptr + (line t).strlen + 1) (w ++ (line t).bytesZ) := by
  have hlen : (line t).bytesZ.length = (line t).strlen + 1 := CStr.bytesZ_length _
  have hptr := hw.ptr
  simp only [List.length_append, DATA_ROOM] at hfit
  have hsplit : List.replicate (NVRAM_SPACE - HEADER_SIZE - w.length) (0xff : UInt8)
      = List.replicate ((line t).bytesZ.length) 0xff ++
        List.replicate (NVRAM_SPACE - HEADER_SIZE - (w ++ (line t).bytesZ).length) 0xff := by
    rw [List.replicate_append_replicate, List.length_append]
    congr 1
    omega
  have harea := hw.area
  rw [hsplit] at harea
  obtain ⟨m', hpoke, hm', haddr⟩ := harea.pokeData (List.length_replicate).symm hw.ptr
  refine ⟨m', hpoke, ⟨?_, ?_, ?_, haddr.trans hw.addrEq⟩⟩
  · rw [List.append_assoc]
    exact hm'
  · simp only [List.length_append]
    simp only at hptr
    omega
  · simp only [List.length_append, DATA_ROOM]
    omega

/-- What the inner loop does to one chain. -/
theorem writeChain_spec {addr e : Nat} {low head : List UInt8}
    (he : e = low.length + NVRAM_SPACE - 2) (ts : List Tuple) :
    ∀ (s : Mapping × Nat) (w : List UInt8), Writing addr low head s w →
      ∃ s' written, writeChain e s ts = some s' ∧
        Writing addr low head s' (w ++ image written) ∧ written.Sublist ts ∧
        ((w ++ image ts).length ≤ DATA_ROOM → written = ts) := by
  induction ts with
  | nil =>
      intro s w hw
      exact ⟨s, [], rfl, by simpa using hw, List.Sublist.refl _, fun _ => rfl⟩
  | cons t ts ih =>
      intro s w hw
      obtain ⟨m, ptr⟩ := s
      have hptr : ptr = low.length + HEADER_SIZE + w.length := hw.ptr
      have hroom := hw.room
      have hstr := line_strlen t
      have hlen : (w ++ (line t).bytesZ).length = w.length + (line t).strlen + 1 := by
        simp only [List.length_append, CStr.bytesZ_length]
        omega
      by_cases hgt : ptr + t.name.strlen + 1 + t.value.strlen + 1 > e
      · -- the `break`: the tuple and those behind it are not written
        refine ⟨(m, ptr), [], by simp [writeChain, hgt], by simpa using hw,
          List.nil_sublist _, fun hall => ?_⟩
        simp only [image_cons, List.length_append, CStr.bytesZ_length, DATA_ROOM] at hall hroom
        omega
      · have hfit : (w ++ (line t).bytesZ).length ≤ DATA_ROOM := by
          rw [hlen, DATA_ROOM]
          omega
        obtain ⟨m', hpoke, hw'⟩ := hw.sprintf hfit
        obtain ⟨s', written, hrun, hwritten, hsub, hall⟩ := ih _ _ hw'
        refine ⟨s', t :: written, ?_, ?_, hsub.cons_cons t, fun hfits => ?_⟩
        · simp only [writeChain, hgt, if_false, hpoke, Option.bind_eq_bind, Option.bind_some]
          exact hrun
        · simpa [List.append_assoc] using hwritten
        · have heq : written = ts := hall (by simpa [List.append_assoc] using hfits)
          rw [heq]

/-- What the two loops do to the whole table. -/
theorem writeTuples_spec {addr e : Nat} {low head : List UInt8} (h : Store)
    (he : e = low.length + NVRAM_SPACE - 2) {s : Mapping × Nat}
    (hs : Writing addr low head s []) :
    ∃ s' written, writeTuples h e s = some s' ∧ Writing addr low head s' (image written) ∧
      written.Sublist (entries h.nvramHash) ∧
      (ImageFits (entries h.nvramHash) → written = entries h.nvramHash) := by
  have hall : ∀ (is : List (Fin NVRAM_BUCKETS)) (s : Mapping × Nat) (w : List UInt8),
      Writing addr low head s w →
      ∃ s' written, is.foldlM (fun s i => writeChain e s (h.nvramHash i)) s = some s' ∧
        Writing addr low head s' (w ++ image written) ∧
        written.Sublist (is.flatMap h.nvramHash) ∧
        ((w ++ image (is.flatMap h.nvramHash)).length ≤ DATA_ROOM →
          written = is.flatMap h.nvramHash) := by
    intro is
    induction is with
    | nil =>
        intro s w hw
        exact ⟨s, [], rfl, by simpa using hw, List.Sublist.refl _, fun _ => rfl⟩
    | cons i is ih =>
        intro s w hw
        obtain ⟨s₁, written₁, hrun₁, hw₁, hsub₁, hall₁⟩ :=
          writeChain_spec he (h.nvramHash i) s w hw
        obtain ⟨s₂, written₂, hrun₂, hw₂, hsub₂, hall₂⟩ := ih s₁ _ hw₁
        refine ⟨s₂, written₁ ++ written₂, ?_, ?_, ?_, fun hfits => ?_⟩
        · rw [List.foldlM_cons, hrun₁]
          exact hrun₂
        · simpa [List.append_assoc] using hw₂
        · rw [List.flatMap_cons]
          exact hsub₁.append hsub₂
        · rw [List.flatMap_cons, image_append] at hfits
          have hchain : written₁ = h.nvramHash i := hall₁ (by
            simp only [List.length_append] at hfits ⊢
            omega)
          have hrest : written₂ = is.flatMap h.nvramHash := hall₂ (by
            rw [hchain]
            simpa [List.append_assoc] using hfits)
          rw [List.flatMap_cons, hchain, hrest]
  obtain ⟨s', written, hrun, hw, hsub, hfit⟩ := hall (List.finRange NVRAM_BUCKETS) s [] hs
  refine ⟨s', written, hrun, by simpa using hw, hsub, fun hfits => hfit ?_⟩
  rw [List.nil_append]
  exact hfits

/-- The double NUL and the padding stay inside the area. -/
theorem writeEnd_spec {addr : Nat} {low head w : List UInt8} {m : Mapping} {ptr : Nat}
    (hw : Writing addr low head (m, ptr) w) :
    ∃ m' rest, writeEnd m ptr = some (m', ptr + 2) ∧ m'.Area low head (w ++ 0 :: rest) := by
  have hroom := hw.room
  have hptr : ptr = low.length + HEADER_SIZE + w.length := hw.ptr
  rw [DATA_ROOM] at hroom
  obtain ⟨k, hk⟩ : ∃ k, NVRAM_SPACE - HEADER_SIZE - w.length = k + 1 :=
    ⟨NVRAM_SPACE - HEADER_SIZE - w.length - 1, by
      simp only [NVRAM_SPACE, HEADER_SIZE] at *
      omega⟩
  have harea : m.Area low head (w ++ ([0xff] ++ List.replicate k 0xff)) := by
    have harea := hw.area
    rwa [hk, List.replicate_succ] at harea
  obtain ⟨m₁, hpoke₁, hm₁, haddr₁⟩ := harea.pokeData (show [(0 : UInt8)].length = [(0xff : UInt8)].length from rfl) hptr
  have haligned := m₁.aligned
  rw [show m₁.bytes.length - NVRAM_SPACE = low.length from hm₁.header_eq] at haligned
  by_cases hpad : (m₁.addr + (ptr + 1)) % 4 = 0
  · refine ⟨m₁, List.replicate k 0xff, ?_, hm₁⟩
    simp [writeEnd, hpoke₁, hpad]
  · -- the padding ends at a multiple of 4, which the end of the area is too
    have hle : 4 - (m₁.addr + (ptr + 1)) % 4 ≤ k := by
      simp only [NVRAM_SPACE, HEADER_SIZE] at *
      omega
    obtain ⟨j, hj⟩ := Nat.exists_eq_add_of_le hle
    have harea₂ : m₁.Area low head ((w ++ [0]) ++
        (List.replicate (4 - (m₁.addr + (ptr + 1)) % 4) 0xff ++ List.replicate j 0xff)) := by
      rw [List.replicate_append_replicate, ← hj, List.append_assoc]
      exact hm₁
    have hoff : ptr + 1 = low.length + HEADER_SIZE + (w ++ [0]).length := by
      simp only [List.length_append, List.length_singleton]
      omega
    have hzeros : (List.replicate (4 - (m₁.addr + (ptr + 1)) % 4) (0 : UInt8)).length
        = (List.replicate (4 - (m₁.addr + (ptr + 1)) % 4) (0xff : UInt8)).length := by
      rw [List.length_replicate, List.length_replicate]
    obtain ⟨m₂, hpoke₂, hm₂, _⟩ := harea₂.pokeData hzeros hoff
    rw [List.append_assoc] at hm₂
    exact ⟨m₂, _, by simp [writeEnd, hpoke₁, hpad, hpoke₂], hm₂⟩

/-! ## The commit as a whole -/

/-- The CRC-8 of an area: over the header from byte 9 on, then over the data
up to the length. -/
def areaCrc (hd : Header) (data : List UInt8) : UInt8 :=
  hndcrc8 (data.take (hd.len.toNat - HEADER_SIZE))
    (hndcrc8 (hd.bytes.drop NVRAM_CRC_START_POSITION) 0xff)

/-- The CRC is computed over bytes of the area. -/
theorem commitCrc_area {m : Mapping} {low head data : List UInt8} (h : m.Area low head data)
    {hd : Header} (hlen : hd.len.toNat ≤ NVRAM_SPACE) : commitCrc m hd = some (areaCrc hd data) := by
  have hhead : peek? ({ hd with magic := 0, len := 0 } : Header).bytes
      NVRAM_CRC_START_POSITION (HEADER_SIZE - NVRAM_CRC_START_POSITION)
        = some (hd.bytes.drop NVRAM_CRC_START_POSITION) := by
    rw [peek?_eq_some, Header.bytes_length]
    exact ⟨by decide, rfl⟩
  have hdata : peek? m.bytes (m.header + HEADER_SIZE) (hd.len.toNat - HEADER_SIZE)
      = some (data.take (hd.len.toNat - HEADER_SIZE)) := by
    have hsize := h.dataSize
    have hoff : m.header + HEADER_SIZE = (low ++ head).length := by
      rw [h.header_eq, List.length_append, h.headSize]
    rw [hoff, h.bytes, ← List.append_assoc, peek?_skip (Nat.le_refl _), Nat.sub_self, peek?_eq_some]
    exact ⟨by omega, by rw [List.drop_zero]⟩
  simp only [commitCrc, hhead, hdata, Option.bind_eq_bind, Option.bind_some]
  rfl

theorem roundup_four_le {n : Nat} (h : n ≤ NVRAM_SPACE) : roundup n 4 ≤ NVRAM_SPACE := by
  simp only [roundup, NVRAM_SPACE] at *
  omega

/-- The length word of the header never exceeds the area. -/
theorem roundup_toNat {n : Nat} (h : n ≤ NVRAM_SPACE) :
    (roundup n 4).toUInt32.toNat = roundup n 4 := by
  have hle := roundup_four_le h
  exact Nat.mod_eq_of_lt (Nat.lt_of_le_of_lt hle (by decide))

/-- The magic is written first and no later step touches it. -/
theorem regenerateHeader_magic (h : Store) (old : Header) :
    (regenerateHeader h old).magic = NVRAM_MAGIC := by
  simp only [regenerateHeader]
  split <;> rfl

/-- The CRC byte of the regenerated header is 0. -/
theorem regenerateHeader_crc (h : Store) (old : Header) :
    (regenerateHeader h old).crcVerInit.toNat % 2 ^ 8 = 0 := by
  have hor : ∀ x : UInt32, (NVRAM_VERSION <<< 8 ||| x <<< 16).toNat % 2 ^ 8 = 0 := by
    intro x
    have hhigh : (x <<< 16).toNat % 2 ^ 8 = 0 := by
      rw [UInt32.toNat_shiftLeft]
      simp only [Nat.shiftLeft_eq]
      have h16 : (16 : UInt32).toNat % 32 = 16 := rfl
      rw [h16]
      omega
    rw [UInt32.toNat_or, Nat.or_mod_two_pow, hhigh]
    rfl
  simp only [regenerateHeader]
  split
  · exact hor _
  · exact hor _

/-- The header with its checksum. -/
def Header.withCrc (hd : Header) (crc : UInt8) : Header :=
  { hd with crcVerInit := hd.crcVerInit ||| crc.toUInt32 }

/-- What `nvram_commit` leaves behind: return code 0, the strings of some of
the tuples and a double NUL in the data area, all of them if they fit, the
header with length and checksum, and the table the parser makes of it. -/
structure Committed (h : Handle) (low : List UInt8) (m : Mapping) (hd : Header)
    (written : List Tuple) (rest : List UInt8) : Prop where
  run : nvramCommit h = some (0, ⟨m, setSdram (hd.withCrc (areaCrc hd (image written ++ 0 :: rest)))
    (setAll Store.empty (written.map reparse))⟩)
  area : m.Area low (hd.withCrc (areaCrc hd (image written ++ 0 :: rest))).bytes
    (image written ++ 0 :: rest)
  magic : hd.magic = NVRAM_MAGIC
  length : hd.len.toNat = roundup (HEADER_SIZE + (image written).length + 2) 4
  crcByte : hd.crcVerInit.toNat % 2 ^ 8 = 0
  fits : ImageFits written
  sub : written.Sublist (entries h.store.nvramHash)
  all : ImageFits (entries h.store.nvramHash) → written = entries h.store.nvramHash

/-- The commit of any table. -/
theorem nvramCommit_committed (h : Handle) {low head data : List UInt8}
    (harea : h.mmap.Area low head data) :
    ∃ m hd written rest, Committed h low m hd written rest := by
  obtain ⟨old, hold⟩ := readHeader_isSome h.mmap
  obtain ⟨m₁, hpoke₁, hm₁, _⟩ :=
    harea.pokeHead (regenerateHeader h.store old).bytes_length
  obtain ⟨m₂, hpoke₂, hm₂, _⟩ := hm₁.pokeAll
    (List.length_replicate : (List.replicate (NVRAM_SPACE - HEADER_SIZE) (0xff : UInt8)).length = _)
  have hstart : Writing m₂.addr low (regenerateHeader h.store old).bytes
      (m₂, low.length + HEADER_SIZE) [] := by
    refine ⟨?_, rfl, Nat.zero_le _, rfl⟩
    rw [List.nil_append, List.length_nil, Nat.sub_zero]
    exact hm₂
  obtain ⟨⟨m₃, ptr⟩, written, htuples, hw, hsub, hall⟩ := writeTuples_spec h.store rfl hstart
  obtain ⟨m₄, rest, hend, hm₄⟩ := writeEnd_spec hw
  have hptr : ptr + 2 - low.length = HEADER_SIZE + (image written).length + 2 := by
    have hptr : ptr = low.length + HEADER_SIZE + (image written).length := hw.ptr
    omega
  have hroom : HEADER_SIZE + (image written).length + 2 ≤ NVRAM_SPACE := by
    have hroom := hw.room
    simp only [DATA_ROOM, NVRAM_SPACE, HEADER_SIZE] at *
    omega
  -- the header with its length, then with its checksum
  generalize hhd : ({ regenerateHeader h.store old with
    len := (roundup (ptr + 2 - low.length) 4).toUInt32 } : Header) = hd
  obtain ⟨m₅, hpoke₅, hm₅, _⟩ := hm₄.pokeHead hd.bytes_length
  have hlen : hd.len.toNat = roundup (HEADER_SIZE + (image written).length + 2) 4 := by
    rw [← hhd, hptr]
    exact roundup_toNat hroom
  have hcrc := @commitCrc_area _ _ _ _ hm₅ hd
    (by rw [hlen]; exact roundup_four_le hroom)
  obtain ⟨m₆, hpoke₆, hm₆, _⟩ :=
    hm₅.pokeHead (hd.withCrc (areaCrc hd (image written ++ 0 :: rest))).bytes_length
  refine ⟨m₆, hd, written, rest, ?_, hm₆, ?_, hlen, ?_, hw.room, hsub, hall⟩
  · subst hhd
    unfold nvramCommit
    simp only [Option.bind_eq_bind]
    rw [harea.header_eq, hold, Option.bind_some, hpoke₁, Option.bind_some,
      hpoke₂, Option.bind_some, htuples, Option.bind_some]
    rw [hend, Option.bind_some]
    rw [hpoke₅, Option.bind_some, hcrc, Option.bind_some]
    rw [Header.withCrc] at hpoke₆
    rw [hpoke₆, Option.bind_some, nvramRehash_area hm₆]
    rfl
  · rw [← hhd]
    exact regenerateHeader_magic h.store old
  · rw [← hhd]
    exact regenerateHeader_crc h.store old

/-- The commit of any table: it returns 0, the image holds the strings of
some of the tuples and of all of them if they fit, and the new table is
what the parser makes of the image. -/
theorem nvramCommit_spec (h : Handle) :
    ∃ m low rest hd written,
      nvramCommit h = some (0, ⟨m, setSdram hd (setAll Store.empty (written.map reparse))⟩) ∧
      m.Area low hd.bytes (image written ++ 0 :: rest) ∧ hd.magic = NVRAM_MAGIC ∧
      ImageFits written ∧ written.Sublist (entries h.store.nvramHash) ∧
      (ImageFits (entries h.store.nvramHash) → written = entries h.store.nvramHash) := by
  obtain ⟨low, head, data, harea⟩ := h.mmap.area_exists
  obtain ⟨m, hd, written, rest, hc⟩ := nvramCommit_committed h harea
  exact ⟨m, low, rest, _, written, hc.run, hc.area, hc.magic, hc.fits, hc.sub, hc.all⟩

/-- Opening an image of that form gives the same table. -/
theorem nvramOpen_image {m : Mapping} {low rest : List UInt8} {hd : Header} {ts : List Tuple}
    (h : m.Area low hd.bytes (image ts ++ 0 :: rest)) (hmagic : hd.magic = NVRAM_MAGIC) :
    ∃ m', nvramOpen m
      = some (some ⟨m', setSdram hd (setAll Store.empty (ts.map reparse))⟩) := by
  have hm : m.bytes = [] ++ (low ++ (hd.bytes ++ (image ts ++ 0 :: rest))) := by
    rw [List.nil_append, h.bytes]
  have hfill : (List.replicate m.header (0xff : UInt8)).length = low.length := by
    rw [List.length_replicate, h.header_eq]
  obtain ⟨m', hpoke, hbytes, _⟩ := Mapping.poke_append hm rfl hfill
  rw [List.nil_append] at hbytes
  rw [List.length_nil] at hpoke
  have harea : m'.Area (List.replicate m.header 0xff) hd.bytes (image ts ++ 0 :: rest) :=
    ⟨hbytes, h.headSize, h.dataSize⟩
  refine ⟨m', ?_⟩
  unfold nvramOpen
  rw [hpoke, Option.bind_eq_bind, Option.bind_some, readHeader_area harea, Option.bind_eq_bind,
    Option.bind_some, if_pos hmagic, nvramRehash_area harea]
  rfl

end UbntSdk.Nvram
