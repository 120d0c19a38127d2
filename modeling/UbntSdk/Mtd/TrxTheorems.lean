/-
UbntSdk.Mtd.TrxTheorems — `trx_fixup` on the images of the trx tool.

The tool and the target compute the CRC each in its own way, one from a table
in its source and one from a table that it fills in bit by bit. Both are the
division by the polynomial (`crc32buf_eq`, and its namesake of the tool). So
`trx_fixup` stores the CRC that the tool has stored (`trxFixup_stable`), and
the CRC that it has stored itself before.
-/
import UbntSdk.Images.TrxTheorems
import UbntSdk.Mtd.Trx

namespace UbntSdk.Mtd.Trx

open UbntSdk.Lib

/-! ## The CRC -/

theorem crcBits_step (crc : UInt32) :
    (if crc &&& 1 ≠ 0 then (0xEDB88320 : UInt32) ^^^ (crc >>> 1) else crc >>> 1) = crcBit crc := by
  have hbit : crc &&& 1 = 0 ∨ crc &&& 1 = 1 := by
    have h : (crc &&& 1).toNat = crc.toNat % 2 := by
      rw [UInt32.toNat_and]
      exact Nat.and_one_is_mod _
    rcases Nat.mod_two_eq_zero_or_one crc.toNat with h0 | h1
    · exact .inl (UInt32.toNat_inj.mp (h.trans h0))
    · exact .inr (UInt32.toNat_inj.mp (h.trans h1))
  rw [crcBit, crcPoly]
  rcases hbit with h0 | h1
  · simp [h0]
  · simp [h1, UInt32.xor_comm]

theorem crcBits_eq (crc : UInt32) : crcBits 8 crc = crcByte crc := by
  simp only [crcBits, crcBits_step, crcByte]

/-- The CRC of the target is the one of the polynomial. -/
theorem crc32buf_eq (buf : List UInt8) : crc32buf buf = crcFold 0xFFFFFFFF buf := by
  have htable : ∀ i < 256, crc32Table.getD i 0 = crcByte (UInt32.ofNat i) := by
    intro i hi
    rw [crc32Table, List.getD_eq_getElem?_getD, List.getElem?_map, List.getElem?_range hi,
      Option.map_some, Option.getD_some, crcBits_eq]
  rw [crc32buf, crcFold]
  congr 1
  funext crc b
  exact crcUpdate_of_table htable crc b

/-! ## The output of the tool -/

/-- An image with its length and its CRC, and what stands behind them. -/
def sealed (magic : List UInt8) (len : UInt32) (body : List UInt8) : List UInt8 :=
  magic ++ (le32 len ++ (le32 (crcFold 0xFFFFFFFF body) ++ body))

/-- The last lines of the tool seal the image. -/
theorem sealed_of_fillHeader {s s' : Images.Trx.State} {out : List UInt8}
    (h : Images.Trx.fillHeader s = .ok (out, s')) :
    ∃ magic len body, magic.length = 4 ∧ 12 + body.length = len.toNat ∧ out = sealed magic len body := by
  rw [Images.Trx.fillHeader] at h
  split at h
  · cases h
  rename_i hsize
  rw [not_or, not_lt, not_lt] at hsize
  cases hstale : s.stale with
  | true =>
      simp [Images.Trx.writeHeader, hstale, bind, Except.bind] at h
  | false =>
      -- the magic, the length, the CRC and what the CRC is of
      obtain ⟨magic, rest₁, hmagic, hrest₁, hbuf⟩ := exists_split 4 (s.buf.length - 4)
        (show s.buf.length = 4 + (s.buf.length - 4) by omega)
      obtain ⟨len, rest₂, hlen, hrest₂, rfl⟩ := exists_split 4 (s.buf.length - 8)
        (show rest₁.length = 4 + (s.buf.length - 8) by omega)
      obtain ⟨crc, rest, hcrc, hrest, rfl⟩ := exists_split 4 (s.buf.length - 12)
        (show rest₂.length = 4 + (s.buf.length - 12) by omega)
      have htake (len crc : List UInt8) (hlen : len.length = 4) (hcrc : crc.length = 4) :
          (magic ++ (len ++ (crc ++ rest))).take s.curLen.toNat =
            magic ++ (len ++ (crc ++ rest.take (s.curLen.toNat - 12))) := by
        have hlong : (magic ++ (len ++ crc)).length ≤ s.curLen.toNat := by
          simp only [List.length_append, hmagic, hlen, hcrc]
          omega
        rw [← List.append_assoc len, ← List.append_assoc magic, List.take_append,
          List.take_of_length_le hlong]
        simp only [List.length_append, hmagic, hlen, hcrc, List.append_assoc]
      have hsum : Images.Trx.crc32buf ((s.buf.take s.curLen.toNat).drop 12) =
          crcFold 0xFFFFFFFF (rest.take (s.curLen.toNat - 12)) := by
        rw [hbuf, htake len crc hlen hcrc, Images.Trx.crc32buf_eq, ← List.append_assoc len,
          ← List.append_assoc magic, List.drop_left']
        simp only [List.length_append, hmagic, hlen, hcrc]
      generalize hx : crcFold 0xFFFFFFFF (rest.take (s.curLen.toNat - 12)) = x at hsum
      have hput₁ : Images.Trx.writeHeader 8 x s =
          .ok { s with buf := magic ++ (len ++ (le32 x ++ rest)) } := by
        refine Images.Trx.writeHeader_of_poke hstale ?_
        rw [hbuf, poke?_skip (by omega), hmagic, poke?_skip (by omega), hlen,
          poke?_head (by rw [le32_length, hcrc])]
        rfl
      have hput₂ : Images.Trx.writeHeader 4 s.curLen { s with buf := magic ++ (len ++ (le32 x ++ rest)) } =
          .ok { s with buf := magic ++ (le32 s.curLen ++ (le32 x ++ rest)) } := by
        refine Images.Trx.writeHeader_of_poke hstale ?_
        rw [poke?_skip (by omega), hmagic, poke?_head (by rw [le32_length, hlen])]
        rfl
      simp only [hsum, hput₁, hput₂, bind, Except.bind, pure, Except.pure, Except.ok.injEq,
        Prod.mk.injEq] at h
      refine ⟨magic, s.curLen, rest.take (s.curLen.toNat - 12), hmagic, ?_, ?_⟩
      · rw [List.length_take, hrest]
        omega
      · rw [← h.1, htake _ _ (le32_length _) (le32_length _), ← hx, sealed]

/-- Every output of the tool is sealed. -/
theorem sealed_of_run {env : Images.Trx.Env} {s' : Images.Trx.State} {out : List UInt8}
    (opts : List Images.Trx.Opt) : ∀ {s : Images.Trx.State}, Images.Trx.run env s opts = .ok (out, s') →
    ∃ magic len body, magic.length = 4 ∧ 12 + body.length = len.toNat ∧ out = sealed magic len body := by
  induction opts with
  | nil =>
      intro s h
      rw [Images.Trx.run, Images.Trx.finish] at h
      split at h
      · cases h
      · cases hpad : Images.Trx.padEnd s with
        | error stop =>
            rw [hpad] at h
            cases h
        | ok t =>
            rw [hpad] at h
            exact sealed_of_fillHeader h
  | cons o opts ih =>
      intro s h
      rw [Images.Trx.run] at h
      cases hstep : Images.Trx.step env s o with
      | error stop =>
          rw [hstep] at h
          cases h
      | ok t =>
          rw [hstep] at h
          exact ih h

theorem sealed_of_trx {env : Images.Trx.Env} {s : Images.Trx.State} {out : List UInt8}
    {opts : List Images.Trx.Opt} (h : Images.Trx.trx env opts = .ok (out, s)) :
    ∃ magic len body, magic.length = 4 ∧ 12 + body.length = len.toNat ∧ out = sealed magic len body := by
  rw [Images.Trx.trx] at h
  cases hstart : Images.Trx.start env with
  | error stop =>
      rw [hstart] at h
      cases h
  | ok t =>
      rw [hstart] at h
      exact sealed_of_run opts h

/-! ## The fixup -/

/-- What `trx_fixup` does to an image: the CRC is the one of the bytes behind
it, up to the length in the header. -/
theorem trxFixup_eq {len : UInt32} (crc body rest : List UInt8) (hcrc : crc.length = 4)
    (hlen : 12 + body.length = len.toNat) :
    trxFixup (le32 TRX_MAGIC ++ (le32 len ++ (crc ++ (body ++ rest)))) =
      some (0, sealed (le32 TRX_MAGIC) len body ++ rest) := by
  have hmagic : (peek? (le32 TRX_MAGIC ++ (le32 len ++ (crc ++ (body ++ rest)))) 0 4).map ofLe32 =
      some TRX_MAGIC := by
    rw [peek?_head (le32_length _).symm, Option.map_some, ofLe32_le32]
  have hfield : (peek? (le32 TRX_MAGIC ++ (le32 len ++ (crc ++ (body ++ rest)))) 4 4).map ofLe32 =
      some len := by
    rw [peek?_skip (by rw [le32_length]), le32_length, peek?_head (le32_length _).symm,
      Option.map_some, ofLe32_le32]
  have hsub : (len - 12).toNat = body.length := by
    have hle : (12 : UInt32).toNat ≤ len.toNat := by
      show 12 ≤ len.toNat
      omega
    rw [UInt32.toNat_sub_of_le _ _ (UInt32.le_iff_toNat_le.mpr hle)]
    show len.toNat - 12 = _
    omega
  have hscan : peek? (le32 TRX_MAGIC ++ (le32 len ++ (crc ++ (body ++ rest)))) 12 (len - 12).toNat =
      some body := by
    rw [hsub, peek?_skip (by simp), peek?_skip (by simp), peek?_skip (by simp [hcrc])]
    simp only [le32_length, hcrc]
    exact peek?_head rfl
  have hput : poke? (le32 TRX_MAGIC ++ (le32 len ++ (crc ++ (body ++ rest)))) 8 (le32 (crc32buf body)) =
      some (sealed (le32 TRX_MAGIC) len body ++ rest) := by
    rw [poke?_skip (by simp), le32_length, poke?_skip (by simp), le32_length,
      poke?_head (by rw [le32_length, hcrc]), crc32buf_eq]
    simp only [Option.map_some, sealed, List.append_assoc]
  have hpos : ¬(le32 TRX_MAGIC ++ (le32 len ++ (crc ++ (body ++ rest)))).length = 0 := by simp
  rw [trxFixup, if_neg hpos, hmagic]
  simp only [Option.bind_eq_bind, Option.bind_some, ne_eq, not_true_eq_false, if_false, hfield,
    hscan, hput]
  rfl

/-- `trx_fixup` leaves the images of the tool alone, wherever they end in the
partition, and what it has put right itself: of an image of the tool only
the magic is asked for, of the other one also a length that goes into the
partition and is not below the size of the header. -/
theorem trxFixup_stable {env : Images.Trx.Env} {opts : List Images.Trx.Opt}
    {s : Images.Trx.State} {out : List UInt8} (htrx : Images.Trx.trx env opts = .ok (out, s))
    (hmagic : peek? out 0 4 = some (le32 TRX_MAGIC)) (rest : List UInt8) {part : List UInt8}
    {len : UInt32} (hpart : peek? part 0 4 = some (le32 TRX_MAGIC))
    (hlen : peek? part 4 4 = some (le32 len)) (hmin : 28 ≤ len.toNat) (hmax : len.toNat ≤ part.length) :
    trxFixup (out ++ rest) = some (0, out ++ rest) ∧
    ∃ part', trxFixup part = some (0, part') ∧ trxFixup part' = some (0, part') := by
  constructor
  · obtain ⟨magic, len, body, hfour, hbody, rfl⟩ := sealed_of_trx htrx
    rw [sealed, peek?_head hfour.symm, Option.some.injEq] at hmagic
    have h := trxFixup_eq (le32 (crcFold 0xFFFFFFFF body)) body rest (le32_length _) hbody
    rw [hmagic, ← h]
    simp only [sealed, List.append_assoc]
  · obtain ⟨magic, rest₁, hmagic, hrest₁, rfl⟩ := exists_split 4 (part.length - 4)
      (show part.length = 4 + (part.length - 4) by omega)
    rw [peek?_head hmagic.symm, Option.some.injEq] at hpart
    subst hpart
    obtain ⟨field, rest₂, hfield, hrest₂, rfl⟩ := exists_split 4 (rest₁.length - 4)
      (show rest₁.length = 4 + (rest₁.length - 4) by omega)
    rw [peek?_skip (by rw [le32_length]), le32_length, peek?_head hfield.symm,
      Option.some.injEq] at hlen
    subst hlen
    obtain ⟨crc, rest₃, hcrc, hrest₃, rfl⟩ := exists_split 4 (rest₂.length - 4)
      (show rest₂.length = 4 + (rest₂.length - 4) by omega)
    simp only [List.length_append, le32_length, hcrc] at hmax hrest₁ hrest₂
    obtain ⟨body, tail, hbody, -, rfl⟩ := exists_split (len.toNat - 12) (rest₃.length - (len.toNat - 12))
      (show rest₃.length = len.toNat - 12 + (rest₃.length - (len.toNat - 12)) by omega)
    have hsum : 12 + body.length = len.toNat := by omega
    refine ⟨_, trxFixup_eq crc body tail hcrc hsum, ?_⟩
    have h := trxFixup_eq (le32 (crcFold 0xFFFFFFFF body)) body tail (le32_length _) hsum
    rw [← h]
    simp only [sealed, List.append_assoc]

/-- An image with nothing in it, in a partition of 32 bytes. -/
def emptyImage : List UInt8 := le32 TRX_MAGIC ++ (le32 28 ++ List.replicate 24 0)

/-- The image of a file of three bytes, with 4 bytes of the partition behind it. -/
theorem trxFixup_stable_single :
    ∃ out s, Images.Trx.trx Images.Trx.zeroEnv [.file (some [1, 2, 3])] = .ok (out, s) ∧
      trxFixup (out ++ [0xff, 0xff, 0xff, 0xff]) = some (0, out ++ [0xff, 0xff, 0xff, 0xff]) ∧
      ∃ part', trxFixup emptyImage = some (0, part') ∧ trxFixup part' = some (0, part') := by
  obtain ⟨s₀, s₁, hstart, -, hstep, hfinish, hready, hopened⟩ := Images.Trx.single_run
  obtain ⟨s, n, hout, -⟩ := Images.Trx.finish_spec hready hopened hfinish.1
  have htrx := Images.Trx.trx_of_start hstart [.file (some [1, 2, 3])]
  rw [Images.Trx.run_of_step hstep, Images.Trx.run, hout] at htrx
  exact ⟨_, s, htrx, trxFixup_stable htrx (peek?_head (le32_length _).symm) _ (by decide)
    (by decide : peek? emptyImage 4 4 = some (le32 28)) (by decide) (by decide)⟩

end UbntSdk.Mtd.Trx
