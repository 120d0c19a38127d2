/-
UbntSdk.Wprobe.ReceiveTheorems — the pass over whatever comes from the
network.

The lengths in a message are the sender's. The pass cuts the length of an
attribute to what is left and stops at a length of 0, so it moves on by at
least 4 bytes and ends. It does not look whether the header of an attribute,
or the payload that its type has, is there in full: an attribute in the last
bytes takes it up to 11 bytes behind `nlmsg_len`. The buffer has 32 bytes
behind the message, so it stays in the buffer (`msgFromNetwork_contained`).
-/
import UbntSdk.Wprobe.RemoteTheorems

namespace UbntSdk.Wprobe

open UbntSdk.Lib UbntSdk.Lib.Netlink

/-! ## Steps that write from an offset on -/

/-- `m'` is `m` after writes at `k` and behind. -/
structure Keeps (k : Nat) (m m' : List UInt8) : Prop where
  length : m'.length = m.length
  below : m'.take k = m.take k

namespace Keeps

variable {k j : Nat} {m m' m'' : List UInt8}

theorem refl (k : Nat) (m : List UInt8) : Keeps k m m := ⟨rfl, rfl⟩

theorem trans (h : Keeps k m m') (h' : Keeps k m' m'') : Keeps k m m'' :=
  ⟨h'.length.trans h.length, h'.below.trans h.below⟩

theorem mono (h : Keeps k m m') (hle : j ≤ k) : Keeps j m m' := by
  refine ⟨h.length, ?_⟩
  have hcut := congrArg (List.take j) h.below
  rwa [List.take_take, List.take_take, Nat.min_eq_left hle] at hcut

theorem peek? (h : Keeps k m m') {off n : Nat} (hle : off + n ≤ k) :
    Lib.peek? m' off n = Lib.peek? m off n := by
  have hcut : ∀ l : List UInt8, (l.drop off).take n = ((l.take k).drop off).take n := by
    intro l
    rw [List.drop_take, List.take_take, Nat.min_eq_left (by omega)]
  unfold Lib.peek?
  rw [h.length, hcut m', h.below, ← hcut m]

theorem load16? (h : Keeps k m m') (e : ByteOrder) {off : Nat} (hle : off + 2 ≤ k) :
    Lib.load16? e m' off = Lib.load16? e m off := by
  rw [Lib.load16?, Lib.load16?, h.peek? hle]

end Keeps

theorem poke?_keeps {m bs : List UInt8} {off : Nat} (h : off + bs.length ≤ m.length) :
    ∃ m', poke? m off bs = some m' ∧ Keeps off m m' := by
  have hpoke : poke? m off bs = some (m.take off ++ bs ++ m.drop (off + bs.length)) := if_pos h
  refine ⟨_, hpoke, poke?_length hpoke, ?_⟩
  rw [List.append_assoc, List.take_append_of_le_length (by simp; omega), List.take_take,
    Nat.min_self]

theorem peek?_poke? {m m' bs : List UInt8} {off n : Nat} (h : poke? m off bs = some m')
    (hn : n = bs.length) : peek? m' off n = some bs := by
  have hle := poke?_le h
  unfold poke? at h
  rw [if_pos hle, Option.some.injEq] at h
  rw [← h, List.append_assoc]
  exact peek?_append _ _ _ (by rw [List.length_take]; omega) hn

theorem swapAt_keeps (e : ByteOrder) {m : List UInt8} {w off : Nat} (h : off + w ≤ m.length) :
    ∃ m', swapAt e w m off = some m' ∧ Keeps off m m' := by
  cases e with
  | big => exact ⟨m, rfl, .refl off m⟩
  | little =>
      obtain ⟨bs, hbs⟩ := Option.isSome_iff_exists.mp (peek?_isSome.mpr h)
      have hlen := peek?_length hbs
      obtain ⟨m', hm', hkeeps⟩ := @poke?_keeps m bs.reverse off (by rw [List.length_reverse]; omega)
      exact ⟨m', by rw [swapAt, hbs, Option.bind_some, hm'], hkeeps⟩

theorem load16?_defined (e : ByteOrder) {m : List UInt8} {off : Nat} (h : off + 2 ≤ m.length) :
    ∃ x, load16? e m off = some x := by
  obtain ⟨bs, hbs⟩ := Option.isSome_iff_exists.mp (peek?_isSome.mpr h)
  exact ⟨ofWord16 e bs, by rw [load16?, hbs, Option.map_some]⟩

/-! ## One attribute -/

theorem swapAttrHdr_keeps (e : ByteOrder) {m : List UInt8} {nla : Nat} (h : nla + 4 ≤ m.length) :
    ∃ m', swapAttrHdr e nla m = some m' ∧ Keeps nla m m' := by
  obtain ⟨m₁, h₁, hk₁⟩ := @swapAt_keeps e m 2 nla (by omega)
  have hlen := hk₁.length
  obtain ⟨m₂, h₂, hk₂⟩ := @swapAt_keeps e m₁ 2 (nla + 2) (by omega)
  refine ⟨m₂, ?_, hk₁.trans (hk₂.mono (by omega))⟩
  rw [swapAttrHdr, swap16At_eq, h₁, Option.bind_some, swap16At_eq, h₂]

/-- The length that is left in a header ends the attribute within the
range. -/
theorem swapAttrHdrIn_keeps (e : ByteOrder) {m : List UInt8} {nla stop : Nat} (hlt : nla < stop)
    (h : nla + 4 ≤ m.length) :
    ∃ m' nlaLen, swapAttrHdrIn e nla stop m = some m' ∧ Keeps nla m m' ∧
      load16? e m' nla = some nlaLen ∧ nla + nlaLen.toNat ≤ stop := by
  obtain ⟨m₁, h₁, hk₁⟩ := swapAttrHdr_keeps e h
  have hlen := hk₁.length
  obtain ⟨nlaLen, hload⟩ := @load16?_defined e m₁ nla (by omega)
  by_cases hcut : stop < nla + nlaLen.toNat
  · obtain ⟨m₂, h₂, hk₂⟩ := @poke?_keeps m₁ (word16 e (UInt16.ofNat (stop - nla))) nla
      (by rw [word16_length]; omega)
    have hsmall : (UInt16.ofNat (stop - nla)).toNat = stop - nla := by
      have hbound := nlaLen.toNat_lt
      rw [UInt16.toNat_ofNat', Nat.mod_eq_of_lt (by omega)]
    refine ⟨m₂, UInt16.ofNat (stop - nla), ?_, hk₁.trans hk₂, ?_, by omega⟩
    · simp [swapAttrHdrIn, h₁, hload, hcut, store16?, h₂]
    · rw [load16?, peek?_poke? h₂ (word16_length e _).symm, Option.map_some, ofWord16_word16]
  · refine ⟨m₁, nlaLen, ?_, hk₁, hload, by omega⟩
    simp [swapAttrHdrIn, h₁, hload, hcut]

/-- The payload of an attribute, for what the pass does to a group. -/
theorem swapPayload_keeps (e : ByteOrder) {m : List UInt8} {nla : Nat} (nlaLen type : UInt16)
    {inner : Nat → Nat → List UInt8 → Option (List UInt8)} (h : nla + 12 ≤ m.length)
    (hinner : ∃ m', inner (nla + HDRLEN) (nla + nlaLen.toNat) m = some m' ∧ Keeps (nla + HDRLEN) m m') :
    ∃ m', swapPayload e inner nla nlaLen type m = some m' ∧ Keeps (nla + HDRLEN) m m' := by
  cases e with
  | big => exact ⟨m, rfl, .refl _ m⟩
  | little =>
      unfold swapPayload
      simp only [HDRLEN]
      split
      · rw [swap16At_eq]
        exact swapAt_keeps _ (by omega)
      · rw [swap32At_eq]
        exact swapAt_keeps _ (by omega)
      · rw [swap64At_eq]
        exact swapAt_keeps _ (by omega)
      · exact hinner
      · exact ⟨m, rfl, .refl _ m⟩

/-! ## All attributes -/

/-- The pass ends, at the latest after one round for each byte, and 11 bytes
behind the range are room enough. -/
theorem swapNested_keeps (e : ByteOrder) (fuel : Nat) {data stop : Nat} {m : List UInt8}
    (hfuel : stop - data ≤ fuel) (hroom : stop + 11 ≤ m.length) :
    ∃ m', swapNested e false fuel data stop m = some m' ∧ Keeps data m m' := by
  induction fuel generalizing data stop m with
  | zero =>
      have hend : ¬data < stop := by omega
      exact ⟨m, by simp [swapNested, hend], .refl data m⟩
  | succ fuel ih =>
      by_cases hlt : data < stop
      · obtain ⟨m₁, nlaLen, h₁, hk₁, hlen, hstop⟩ := swapAttrHdrIn_keeps e hlt
          (by omega : data + 4 ≤ m.length)
        have hsame₁ := hk₁.length
        obtain ⟨type, htype⟩ := @load16?_defined e m₁ (data + 2) (by omega)
        have hgroup := @ih (data + HDRLEN) (data + nlaLen.toNat) m₁
          (by simp only [HDRLEN]; omega) (by omega)
        obtain ⟨m₂, h₂, hk₂⟩ := swapPayload_keeps e nlaLen type (by omega) hgroup
        have hsame₂ := hk₂.length
        have hlast : load16? e m₂ data = some nlaLen := by
          rw [hk₂.load16? e (by simp only [HDRLEN]; omega), hlen]
        have hk : Keeps data m m₂ := hk₁.trans (hk₂.mono (by omega))
        by_cases hzero : nlaLen = 0
        · subst hzero
          exact ⟨m₂, by simp [swapNested, hlt, h₁, hlen, htype, h₂, hlast], hk⟩
        · have hpos : 0 < nlaLen.toNat := by
            rw [← UInt16.toNat_inj] at hzero
            simpa [Nat.pos_iff_ne_zero] using hzero
          have hmove := le_align nlaLen.toNat
          obtain ⟨m₃, h₃, hk₃⟩ := @ih (data + align nlaLen.toNat) stop m₂ (by omega) (by omega)
          refine ⟨m₃, ?_, hk.trans (hk₃.mono (by omega))⟩
          simp [swapNested, hlt, h₁, hlen, htype, h₂, hlast, hzero, h₃]
      · exact ⟨m, by simp [swapNested, hlt], .refl data m⟩

/-! ## A message -/

theorem swapNlmsghdr_keeps (e : ByteOrder) {m : List UInt8} (h : 16 ≤ m.length) :
    ∃ m', swapNlmsghdr e m = some m' ∧ Keeps 0 m m' := by
  obtain ⟨m₁, h₁, hk₁⟩ := @swapAt_keeps e m 4 0 (by omega)
  have hlen₁ := hk₁.length
  obtain ⟨m₂, h₂, hk₂⟩ := @swapAt_keeps e m₁ 2 4 (by omega)
  have hlen₂ := hk₂.length
  obtain ⟨m₃, h₃, hk₃⟩ := @swapAt_keeps e m₂ 2 6 (by omega)
  have hlen₃ := hk₃.length
  obtain ⟨m₄, h₄, hk₄⟩ := @swapAt_keeps e m₃ 4 8 (by omega)
  have hlen₄ := hk₄.length
  obtain ⟨m₅, h₅, hk₅⟩ := @swapAt_keeps e m₄ 4 12 (by omega)
  refine ⟨m₅, ?_, hk₅.length.trans (by omega), rfl⟩
  simp [swapNlmsghdr, swap32At_eq, swap16At_eq, h₁, h₂, h₃, h₄, h₅]

/-- Room for the header and 11 bytes behind the message are enough. -/
theorem swapMsg_defined (e : ByteOrder) (len : Nat) {buf : List UInt8} (hhdr : 16 ≤ buf.length)
    (hroom : len + 11 ≤ buf.length) : (swapMsg e len buf).isSome := by
  obtain ⟨m₁, h₁, hk₁⟩ := swapNlmsghdr_keeps e hhdr
  have hlen₁ := hk₁.length
  obtain ⟨bs, hbs⟩ := Option.isSome_iff_exists.mp
    (peek?_isSome.mpr (by omega : 0 + 4 ≤ m₁.length))
  have hload : load32? e m₁ 0 = some (ofWord32 e bs) := by rw [load32?, hbs, Option.map_some]
  by_cases hlong : len < (ofWord32 e bs).toNat
  · simp [swapMsg, h₁, hload, hlong]
  · obtain ⟨m₂, h₂, -⟩ := @swapNested_keeps e (len + 1) MSG_HDRLEN (ofWord32 e bs).toNat m₁
      (by omega) (by omega)
    simp [swapMsg, h₁, hload, hlong, h₂]

/-- Whatever comes from the network, the pass ends and stays in the buffer:
at most 11 bytes behind the message, or in the 16 bytes of the header. Where
all attributes are in full it stays in the message. -/
theorem msgFromNetwork_contained (e : ByteOrder) :
    (∀ nlh behind : List UInt8, 16 ≤ nlh.length + behind.length → 11 ≤ behind.length →
      (swapMsg e nlh.length (nlh ++ behind)).isSome) ∧
    (∀ (socket : List UInt8) (len : Nat), (msgFromNetwork e socket len).isSome) ∧
    ∀ (m : Message) (v : Attr → ByteOrder), m.Fits → (swapMsg e m.size (m.encode .big v)).isSome := by
  refine ⟨?_, ?_, ?_⟩
  · intro nlh behind hhdr hroom
    rw [← List.length_append] at hhdr
    exact swapMsg_defined e nlh.length hhdr (by rw [List.length_append]; omega)
  · intro socket len
    rw [msgFromNetwork_eq]
    cases hread : readSocket len socket with
    | none => rfl
    | some read =>
        obtain ⟨nlh, socket'⟩ := read
        have hlen : nlh.length = len := by
          simp only [readSocket, Option.ite_none_right_eq_some, Option.some.injEq,
            Prod.mk.injEq] at hread
          obtain ⟨hle, rfl, -⟩ := hread
          exact List.length_take_of_le hle
        dsimp only
        rw [Option.isSome_map]
        exact swapMsg_defined e len (by simp) (by simp; omega)
  · intro m v hfits
    have hswap := swapMsg_encode e v hfits []
    rw [List.append_nil] at hswap
    rw [hswap]
    rfl

/-- A request with its headers only, and an attribute of no payload whose
type has 8 bytes. -/
def shortWord : List UInt8 :=
  [0, 0, 0, 24, 0, 23, 0, 0, 0, 0, 0, 0, 0, 0, 0, 0, 2, 0, 0, 0, 0, 4, 0, 17]

/-- One byte behind the headers. -/
def oddByte : List UInt8 :=
  [0, 0, 0, 21, 0, 23, 0, 0, 0, 0, 0, 0, 0, 0, 0, 0, 2, 0, 0, 0, 0]

/-- A short attribute at the end of the message, in a buffer with 32 bytes
behind it, and a request that is sent. -/
theorem msgFromNetwork_contained_short :
    (swapMsg .little shortWord.length (shortWord ++ List.replicate 32 0)).isSome ∧
      (swapMsg .big oddByte.length (oddByte ++ List.replicate 32 0)).isSome ∧
      (swapMsg .little askInfo.size (askInfo.encode .big fun _ => .big)).isSome := by
  have hfits : askInfo.Fits := by
    simp [Message.Fits, Message.size, Attrs.size, Datum.size, HDRLEN, align, MSG_HDRLEN,
      WPROBE_MAX_MSGLEN, askInfo]
  refine ⟨?_, ?_, ?_⟩
  · exact (msgFromNetwork_contained .little).1 shortWord _ (by decide) (by decide)
  · exact (msgFromNetwork_contained .big).1 oddByte _ (by decide) (by decide)
  · exact (msgFromNetwork_contained .little).2.2 askInfo _ hfits

/-- Both are read outside of the message. -/
theorem swapMsg_leaves_message :
    swapMsg .little shortWord.length shortWord = none ∧
      swapMsg .big oddByte.length oddByte = none := by
  decide +kernel

end UbntSdk.Wprobe
