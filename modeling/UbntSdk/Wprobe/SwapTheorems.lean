/-
UbntSdk.Wprobe.SwapTheorems — what the swap functions of the remote access
do to a message.

A host swaps only if it is little-endian (`ByteOrder.swap`), so a message in
the order of the host becomes one in network order and the other way round,
on either kind of host. `swapNested_encode` says so for all attributes at
any depth, except that a payload is only swapped when `attribute_policy`
lists its type as a number (`listed`): the others keep their order.
-/
import UbntSdk.Wprobe.Remote
import Mathlib.Tactic.IntervalCases

namespace UbntSdk.Wprobe

open UbntSdk.Lib UbntSdk.Lib.Netlink

/-! ## Words -/

theorem swab16_testBit (x : UInt16) {k i : Nat} (hk : k < 2) (hi : i < 8) :
    (swab16 x).toNat.testBit (8 * k + i) = x.toNat.testBit (8 * (2 - 1 - k) + i) := by
  change (swab16 x).toBitVec.getLsbD _ = x.toBitVec.getLsbD _
  interval_cases k <;> interval_cases i <;> simp [swab16]

/-- Byte `k` of the result is byte `3 - k` of the argument, bit by bit. -/
theorem swab32_testBit (x : UInt32) {k i : Nat} (hk : k < 4) (hi : i < 8) :
    (swab32 x).toNat.testBit (8 * k + i) = x.toNat.testBit (8 * (4 - 1 - k) + i) := by
  change (swab32 x).toBitVec.getLsbD _ = x.toBitVec.getLsbD _
  interval_cases k <;> interval_cases i <;> simp [swab32]

theorem swab64_testBit (x : UInt64) {k i : Nat} (hk : k < 8) (hi : i < 8) :
    (swab64 x).toNat.testBit (8 * k + i) = x.toNat.testBit (8 * (8 - 1 - k) + i) := by
  change (swab64 x).toBitVec.getLsbD _ = x.toBitVec.getLsbD _
  interval_cases k <;> interval_cases i <;> simp [swab64]

theorem word16_swab16 (x : UInt16) : word16 .little (swab16 x) = (word16 .little x).reverse := by
  rw [word16, word16, le16_eq, le16_eq]
  exact leBytes_eq_reverse fun k hk i hi => swab16_testBit x hk hi

/-- So the bytes in memory are reversed. -/
theorem word32_swab32 (x : UInt32) : word32 .little (swab32 x) = (word32 .little x).reverse := by
  rw [word32, word32, le32_eq, le32_eq]
  exact leBytes_eq_reverse fun k hk i hi => swab32_testBit x hk hi

theorem word64_swab64 (x : UInt64) : word64 .little (swab64 x) = (word64 .little x).reverse := by
  rw [word64, word64]
  exact leBytes_eq_reverse fun k hk i hi => swab64_testBit x hk hi

/-- The order of a word after a host has swapped it. -/
def hostSwap (e o : ByteOrder) : ByteOrder :=
  match e with
  | .big => o
  | .little => o.flip

@[simp] theorem hostSwap_self (e : ByteOrder) : hostSwap e e = .big := by cases e <;> rfl

@[simp] theorem hostSwap_big (e : ByteOrder) : hostSwap e .big = e := by cases e <;> rfl

/-! ## Words in a buffer -/

/-- The bytes of `w` bytes at an offset are turned round on a little-endian
host. -/
def swapAt (e : ByteOrder) (w : Nat) (buf : List UInt8) (off : Nat) : Option (List UInt8) :=
  match e with
  | .big => some buf
  | .little => (peek? buf off w).bind fun bs => poke? buf off bs.reverse

theorem peek?_length {m bs : List UInt8} {off n : Nat} (h : peek? m off n = some bs) :
    bs.length = n := by
  obtain ⟨hle, rfl⟩ := peek?_eq_some.mp h
  rw [List.length_take, List.length_drop]
  omega

theorem swap16At_eq (e : ByteOrder) (buf : List UInt8) (off : Nat) :
    swap16At e buf off = swapAt e 2 buf off := by
  cases e with
  | big => rfl
  | little =>
      cases h : peek? buf off 2 with
      | none => simp [swap16At, swapAt, load16?, h]
      | some bs =>
          have hlen := peek?_length h
          simp [swap16At, swapAt, load16?, store16?, h, word16_swab16, word16_ofWord16 _ hlen]

theorem swap32At_eq (e : ByteOrder) (buf : List UInt8) (off : Nat) :
    swap32At e buf off = swapAt e 4 buf off := by
  cases e with
  | big => rfl
  | little =>
      cases h : peek? buf off 4 with
      | none => simp [swap32At, swapAt, load32?, h]
      | some bs =>
          have hlen := peek?_length h
          simp [swap32At, swapAt, load32?, store32?, h, word32_swab32, word32_ofWord32 _ hlen]

theorem swap64At_eq (e : ByteOrder) (buf : List UInt8) (off : Nat) :
    swap64At e buf off = swapAt e 8 buf off := by
  cases e with
  | big => rfl
  | little =>
      cases h : peek? buf off 8 with
      | none => simp [swap64At, swapAt, load64?, h]
      | some bs =>
          have hlen := peek?_length h
          simp [swap64At, swapAt, load64?, store64?, h, word64_swab64, word64_ofWord64 _ hlen]

theorem swapAt_skip (e : ByteOrder) {a m : List UInt8} {w off : Nat} (h : a.length ≤ off) :
    swapAt e w (a ++ m) off = (swapAt e w m (off - a.length)).map (a ++ ·) := by
  cases e with
  | big => rfl
  | little =>
      simp only [swapAt, peek?_skip h, poke?_skip h]
      cases peek? m (off - a.length) w <;> rfl

theorem swapAt_head (e : ByteOrder) {bs bs' : List UInt8} (post : List UInt8)
    (h : bs' = match e with | .big => bs | .little => bs.reverse) :
    swapAt e bs.length (bs ++ post) 0 = some (bs' ++ post) := by
  subst h
  cases e with
  | big => rfl
  | little =>
      simp only [swapAt, peek?_head rfl, Option.bind_some]
      exact poke?_head (by simp)

theorem swapAt_word16 (e o : ByteOrder) (x : UInt16) (post : List UInt8) :
    swapAt e 2 (word16 o x ++ post) 0 = some (word16 (hostSwap e o) x ++ post) := by
  have h := @swapAt_head e (word16 o x) (word16 (hostSwap e o) x) post
    (by cases e <;> simp [hostSwap, word16_flip])
  rwa [word16_length] at h

/-- A swap of a word in order `o` leaves the word in the order that it is swapped to. -/
theorem swapAt_word32 (e o : ByteOrder) (x : UInt32) (post : List UInt8) :
    swapAt e 4 (word32 o x ++ post) 0 = some (word32 (hostSwap e o) x ++ post) := by
  have h := @swapAt_head e (word32 o x) (word32 (hostSwap e o) x) post
    (by cases e <;> simp [hostSwap, word32_flip])
  rwa [word32_length] at h

theorem swapAt_word64 (e o : ByteOrder) (x : UInt64) (post : List UInt8) :
    swapAt e 8 (word64 o x ++ post) 0 = some (word64 (hostSwap e o) x ++ post) := by
  have h := @swapAt_head e (word64 o x) (word64 (hostSwap e o) x) post
    (by cases e <;> simp [hostSwap, word64_flip])
  rwa [word64_length] at h

/-! ## One attribute -/

/-- The table lists the attribute as a number of several bytes. -/
def listed (a : Attr) : Bool :=
  attributePolicy a = .u16 || attributePolicy a = .u32 || attributePolicy a = .u64

/-- The orders of the payloads after a host has swapped them. -/
def swapped (e : ByteOrder) (v : Attr → ByteOrder) : Attr → ByteOrder :=
  fun a => if listed a then hostSwap e (v a) else v a

theorem policyOf_code (a : Attr) : policyOf (attrFamily.code a &&& TYPE_MASK) = attributePolicy a := by
  rw [policyOf, attrFamily.code_mask]
  exact congrArg (Option.elim · Policy.unspec attributePolicy) (attrFamily.ofCode_code a)

/-- Where the policy lists a number, the attribute is that number. -/
theorem kind_of_policy (a : Attr) :
    (attributePolicy a = .u16 → a.kind = .u16) ∧ (attributePolicy a = .u32 → a.kind = .u32) ∧
      (attributePolicy a = .u64 → a.kind = .u64) ∧ (attributePolicy a = .nested ↔ a.kind = .nested) := by
  cases a <;> simp [attributePolicy, Attr.kind]

/-- The header of an attribute is swapped. -/
theorem swapAttrHdr_attrBytes (e o : ByteOrder) (code : UInt16) (pre payload tail : List UInt8) :
    swapAttrHdr e pre.length (pre ++ (attrBytes o code payload ++ tail)) =
      some (pre ++ (attrBytes (hostSwap e o) code payload ++ tail)) := by
  simp [swapAttrHdr, swap16At_eq, swapAt_skip, attrBytes, swapAt_word16]

/-- An incoming header is swapped; its length is not cut. -/
theorem swapAttrHdrIn_attrBytes (e : ByteOrder) (code : UInt16) (pre payload tail : List UInt8)
    {stop : Nat} (hlen : HDRLEN + payload.length < 2 ^ 16)
    (hstop : pre.length + (HDRLEN + payload.length) ≤ stop) :
    swapAttrHdrIn e pre.length stop (pre ++ (attrBytes .big code payload ++ tail)) =
      some (pre ++ (attrBytes e code payload ++ tail)) := by
  have hload : load16? e (pre ++ (attrBytes e code payload ++ tail)) pre.length =
      some (attrLen payload.length) := by
    simp [load16?_skip, attrBytes, load16?_head]
  have hnot : ¬stop < pre.length + (attrLen payload.length).toNat := by
    rw [attrLen_toNat hlen]
    omega
  simp [swapAttrHdrIn, swapAttrHdr_attrBytes, hload, hnot]

theorem load16?_attrBytes (e : ByteOrder) (code : UInt16) (pre payload tail : List UInt8) :
    load16? e (pre ++ (attrBytes e code payload ++ tail)) pre.length =
        some (attrLen payload.length) ∧
      load16? e (pre ++ (attrBytes e code payload ++ tail)) (pre.length + 2) = some code := by
  constructor
  · simp [load16?_skip, attrBytes, load16?_head]
  · simp [load16?_skip, attrBytes, load16?_head]

/-- The length that is looked at to leave the loop is 0 in no order. -/
theorem ofWord16_word16_ne_zero (e o : ByteOrder) {x : UInt16} (h : x ≠ 0) :
    ofWord16 e (word16 o x) ≠ 0 := by
  intro hzero
  have hbytes : word16 e 0 = word16 o x := by
    rw [← hzero, word16_ofWord16 e (word16_length o x)]
  have hsame : word16 e 0 = word16 o 0 := by cases e <;> cases o <;> rfl
  apply h
  rw [← ofWord16_word16 o x, ← hbytes, hsame, ofWord16_word16]

/-- The order of the headers before the pass. -/
def orderFrom (e : ByteOrder) (outgoing : Bool) : ByteOrder := if outgoing then e else .big

/-- The order of the headers after the pass. -/
def orderTo (e : ByteOrder) (outgoing : Bool) : ByteOrder := if outgoing then .big else e

/-- One round of the loop, from what it does to the payload. -/
theorem swapNested_step (e : ByteOrder) (outgoing : Bool) {code : UInt16}
    {pre payload payload' tail : List UInt8} {stop fuel : Nat}
    (hsame : payload'.length = payload.length) (hlen : HDRLEN + payload.length < 2 ^ 16)
    (hstop : pre.length + (HDRLEN + payload.length) ≤ stop)
    (hpay : swapPayload e (swapNested e outgoing fuel) pre.length (attrLen payload.length) code
      (pre ++ (attrBytes e code payload ++ tail)) = some (pre ++ (attrBytes e code payload' ++ tail))) :
    swapNested e outgoing (fuel + 1) pre.length stop
        (pre ++ (attrBytes (orderFrom e outgoing) code payload ++ tail)) =
      swapNested e outgoing fuel (pre.length + align (HDRLEN + payload.length)) stop
        (pre ++ (attrBytes (orderTo e outgoing) code payload' ++ tail)) := by
  have hl := attrLen_toNat hlen
  have hne : attrLen payload'.length ≠ 0 := by
    intro hzero
    rw [hsame, ← UInt16.toNat_inj, hl] at hzero
    simp [HDRLEN] at hzero
  have hlt : pre.length < stop := by
    simp only [HDRLEN] at hstop
    omega
  obtain ⟨hlen?, htype?⟩ := load16?_attrBytes e code pre payload tail
  cases outgoing with
  | true =>
      have hlast : load16? e (pre ++ (attrBytes .big code payload' ++ tail)) pre.length =
          some (ofWord16 e (word16 .big (attrLen payload'.length))) := by
        simp [load16?_skip, attrBytes, load16?_head]
      have hnz := ofWord16_word16_ne_zero e .big hne
      simp [swapNested, hlt, orderFrom, orderTo, hlen?, htype?, hpay, swapAttrHdr_attrBytes, hlast,
        hnz, hl]
  | false =>
      have hlast := (load16?_attrBytes e code pre payload' tail).1
      simp [swapNested, hlt, orderFrom, orderTo, swapAttrHdrIn_attrBytes e code pre payload tail hlen hstop,
        hlen?, htype?, hpay, hlast, hne, hl]

/-- The payload of a number, or of bytes. -/
theorem swapPayload_leaf (e : ByteOrder) (v : Attr → ByteOrder) {a : Attr} {p : Datum}
    (hkind : p.kind = a.kind) (inner : Nat → Nat → List UInt8 → Option (List UInt8)) (nlaLen : UInt16)
    (pre tail : List UInt8) :
    swapPayload e inner pre.length nlaLen (attrFamily.code a)
        (pre ++ (attrBytes e (attrFamily.code a) (p.encode (v a)) ++ tail)) =
      some (pre ++ (attrBytes e (attrFamily.code a) (p.encode (swapped e v a)) ++ tail)) := by
  cases e with
  | big => simp [swapPayload, swapped, hostSwap]
  | little =>
      obtain ⟨h16, h32, h64, hnest⟩ := kind_of_policy a
      simp only [swapPayload, policyOf_code]
      cases hpol : attributePolicy a with
      | u16 =>
          obtain ⟨x, rfl⟩ : ∃ x, p = .u16 x := by
            rw [h16 hpol] at hkind
            cases p <;> simp_all [Datum.kind]
          simp [swapped, listed, hpol, Datum.encode, swap16At_eq, swapAt_skip, attrBytes, HDRLEN,
            swapAt_word16]
      | u32 =>
          obtain ⟨x, rfl⟩ : ∃ x, p = .u32 x := by
            rw [h32 hpol] at hkind
            cases p <;> simp_all [Datum.kind]
          simp [swapped, listed, hpol, Datum.encode, swap32At_eq, swapAt_skip, attrBytes, HDRLEN,
            swapAt_word32]
      | u64 =>
          obtain ⟨x, rfl⟩ : ∃ x, p = .u64 x := by
            rw [h64 hpol] at hkind
            cases p <;> simp_all [Datum.kind]
          simp [swapped, listed, hpol, Datum.encode, swap64At_eq, swapAt_skip, attrBytes, HDRLEN,
            swapAt_word64]
      | nested => exact absurd (hkind.trans (hnest.mp hpol)) p.kind_ne_nested
      | unspec => simp [swapped, listed, hpol]
      | u8 => simp [swapped, listed, hpol]
      | string => simp [swapped, listed, hpol]

/-- The payload of a group, from what the pass does to the attributes in
it. A big-endian host does not look into it. -/
theorem swapPayload_nest (e : ByteOrder) {a : Attr} (hkind : a.kind = .nested)
    {inner : Nat → Nat → List UInt8 → Option (List UInt8)} {payload payload' : List UInt8}
    (hsame : payload'.length = payload.length) (hlen : HDRLEN + payload.length < 2 ^ 16)
    (hbig : e = .big → payload' = payload)
    (hinner : ∀ pre post : List UInt8, inner pre.length (pre.length + payload.length)
      (pre ++ (payload ++ post)) = some (pre ++ (payload' ++ post))) (pre tail : List UInt8) :
    swapPayload e inner pre.length (attrLen payload.length) (attrFamily.code a)
        (pre ++ (attrBytes e (attrFamily.code a) payload ++ tail)) =
      some (pre ++ (attrBytes e (attrFamily.code a) payload' ++ tail)) := by
  cases e with
  | big => simp [swapPayload, hbig rfl]
  | little =>
      have hpol := (kind_of_policy a).2.2.2.mpr hkind
      have hin := hinner (pre ++ (word16 .little (attrLen payload.length) ++
        word16 .little (attrFamily.code a))) (pad payload.length ++ tail)
      simp only [swapPayload, policyOf_code, hpol, attrLen_toNat hlen, attrBytes, hsame]
      simpa [HDRLEN, Nat.add_assoc] using hin

/-! ## All attributes -/

theorem swapped_big (v : Attr → ByteOrder) : swapped .big v = v := by
  funext a
  simp [swapped, hostSwap]

/-- The pass over attributes takes the headers to the other order, and the
payloads that the table lists. -/
theorem swapNested_encode (e : ByteOrder) (outgoing : Bool) (v : Attr → ByteOrder)
    {t : Attrs Attr} (ht : t.typed attrFamily) (hsize : t.size < 2 ^ 16) {fuel : Nat}
    (hfuel : t.size ≤ fuel) (pre post : List UInt8) :
    swapNested e outgoing fuel pre.length (pre.length + t.size)
        (pre ++ (t.encode attrFamily (orderFrom e outgoing) v ++ post)) =
      some (pre ++ (t.encode attrFamily (orderTo e outgoing) (swapped e v) ++ post)) := by
  induction t generalizing fuel pre post with
  | nil => cases fuel <;> simp [swapNested, Attrs.size, Attrs.encode]
  | leaf a p rest ih =>
      have hle := le_align (HDRLEN + p.size)
      simp only [Attrs.size, HDRLEN] at hsize hfuel hle
      simp only [Attrs.typed, Bool.and_eq_true, decide_eq_true_eq] at ht
      obtain ⟨fuel, rfl⟩ : ∃ n, fuel = n + 1 := ⟨fuel - 1, by omega⟩
      have hpay := swapPayload_leaf e v ht.1 (swapNested e outgoing fuel)
        (attrLen (p.encode (v a)).length) pre
        (rest.encode attrFamily (orderFrom e outgoing) v ++ post)
      have hrest := ih ht.2 (by omega) (by omega : rest.size ≤ fuel)
        (pre ++ attrBytes (orderTo e outgoing) (attrFamily.code a) (p.encode (swapped e v a))) post
      simp only [Attrs.encode, List.append_assoc, Attrs.size]
      rw [swapNested_step e outgoing (by simp) (by simp [HDRLEN]; omega)
        (by simp [HDRLEN]; omega) hpay]
      simpa [Nat.add_assoc] using hrest
  | nest a kids rest ihk ih =>
      have hle := le_align (HDRLEN + kids.size)
      simp only [Attrs.size, HDRLEN] at hsize hfuel hle
      simp only [Attrs.typed, Bool.and_eq_true, decide_eq_true_eq] at ht
      obtain ⟨fuel, rfl⟩ : ∃ n, fuel = n + 1 := ⟨fuel - 1, by omega⟩
      have hkids : ∀ pre post : List UInt8, swapNested e outgoing fuel pre.length
          (pre.length + (kids.encode attrFamily (orderFrom e outgoing) v).length)
          (pre ++ (kids.encode attrFamily (orderFrom e outgoing) v ++ post)) =
          some (pre ++ (kids.encode attrFamily (orderTo e outgoing) (swapped e v) ++ post)) := by
        intro pre post
        rw [Attrs.encode_length]
        exact ihk ht.1.2 (by omega) (by omega) pre post
      have hbig : e = .big → kids.encode attrFamily (orderTo e outgoing) (swapped e v) =
          kids.encode attrFamily (orderFrom e outgoing) v := by
        intro he
        subst he
        cases outgoing <;> simp [orderFrom, orderTo, swapped_big]
      have hpay := swapPayload_nest e ht.1.1 (by simp) (by simp [HDRLEN]; omega) hbig hkids pre
        (rest.encode attrFamily (orderFrom e outgoing) v ++ post)
      have hrest := ih ht.2 (by omega) (by omega : rest.size ≤ fuel)
        (pre ++ attrBytes (orderTo e outgoing) (attrFamily.code a)
          (kids.encode attrFamily (orderTo e outgoing) (swapped e v))) post
      simp only [Attrs.encode, List.append_assoc, Attrs.size]
      rw [swapNested_step e outgoing (by simp) (by simp [HDRLEN]; omega)
        (by simp [HDRLEN]; omega) hpay]
      simpa [Nat.add_assoc] using hrest

end UbntSdk.Wprobe
