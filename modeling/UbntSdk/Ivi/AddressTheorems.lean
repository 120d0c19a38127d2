/-
UbntSdk.Ivi.AddressTheorems — the address mapping on hosts of both byte
orders (net/ipv4/proto_trans.c and net/ipv6/proto_trans.c).

Both functions have one body for each byte order. The little endian bodies
put the prefix first, then the mark 0xFF and the IPv4 address; the big endian
bodies fill the words from the other end and know no mark. So a host reads
back what a host of its own order wrote (`unmaps_own`), and nearly nothing of
what the other one did (`mapping_interoperates_iff`).
-/
import UbntSdk.Ivi.HeaderTheorems

namespace UbntSdk.Ivi

open Lib

/-- The word that a host reads where a word stands in network order. -/
def hostWord (e : ByteOrder) (x : UInt32) : UInt32 := ofWord32 e (be32 x)

@[simp] theorem word32_hostWord (e : ByteOrder) (x : UInt32) : word32 e (hostWord e x) = be32 x :=
  word32_ofWord32 e (be32_length x)

/-- The address that a host writes, for arguments in network order. -/
def written (e : ByteOrder) (oldv4 bbprefix fragmentation : UInt32) : Addr6 :=
  ⟨mappingAddress4to6 e (hostWord e oldv4) (hostWord e bbprefix) (hostWord e fragmentation),
    mappingAddress4to6_length _ _ _ _⟩

theorem written_big (oldv4 bbprefix fragmentation : UInt32) :
    (written .big oldv4 bbprefix fragmentation).1 =
      be32 oldv4 ++ be32 fragmentation ++ be32 oldv4 ++ be32 bbprefix := by
  simp [written, mappingAddress4to6]

theorem written_little (oldv4 bbprefix fragmentation : UInt32) :
    (written .little oldv4 bbprefix fragmentation).1 =
      be32 bbprefix ++ [0xFF] ++ be32 oldv4 ++ List.replicate 7 0 := by
  simp [written, mappingAddress4to6]

/-- The four bytes after the prefix and the mark. -/
theorem unmaps_marked (x bbprefix : UInt32) (rest : List UInt8) :
    mappingAddress6to4 .little (be32 bbprefix ++ [0xFF] ++ be32 x ++ rest) = some (be32 x) := by
  simp [mappingAddress6to4, peek?, be32]

theorem unmaps_first (x : UInt32) (rest : List UInt8) :
    mappingAddress6to4 .big (be32 x ++ rest) = some (be32 x) := by
  simp [mappingAddress6to4, peek?, be32]

/-- A host reads back what a host of its own order wrote. -/
theorem unmaps_own (e : ByteOrder) (oldv4 bbprefix fragmentation : UInt32) :
    mappingAddress6to4 e (written e oldv4 bbprefix fragmentation).1 = some (be32 oldv4) := by
  cases e with
  | big => rw [written_big, List.append_assoc, List.append_assoc, unmaps_first]
  | little => rw [written_little, unmaps_marked]

/-- Hosts of both orders write one address, with the prefix, the mark and the
IPv4 address in their places, and each reads back what either wrote. -/
structure Interoperates (oldv4 bbprefix fragmentation : UInt32) : Prop where
  same : written .big oldv4 bbprefix fragmentation = written .little oldv4 bbprefix fragmentation
  layout : ∀ e, be32 bbprefix ++ [0xFF] ++ be32 oldv4 <+: (written e oldv4 bbprefix fragmentation).1
  back : ∀ e e', mappingAddress6to4 e (written e' oldv4 bbprefix fragmentation).1 = some (be32 oldv4)

/-- The mark stands after the prefix. -/
def InFormat (addr : Addr6) : Prop := addr.1[4]? = some 0xFF

instance (addr : Addr6) : Decidable (InFormat addr) := inferInstanceAs (Decidable (_ = _))

/-- Every host reads an address without the mark as the substitute address. -/
def Substituted (addr : Addr6) : Prop :=
  ¬InFormat addr → ∀ e, mappingAddress6to4 e addr.1 = some NO_ADDRESS

theorem be32_inj {x y : UInt32} (h : be32 x = be32 y) : x = y := by
  rw [← ofBe32_be32 x, h, ofBe32_be32]

theorem written_same_iff (oldv4 bbprefix fragmentation : UInt32) :
    written .big oldv4 bbprefix fragmentation = written .little oldv4 bbprefix fragmentation ↔
      oldv4 = 0 ∧ bbprefix = 0 ∧ fragmentation = 0xFF000000 := by
  constructor
  · intro h
    have hbytes := congrArg Subtype.val h
    rw [written_big, written_little] at hbytes
    simp only [be32, List.cons_append, List.nil_append, List.replicate, List.cons.injEq,
      and_true] at hbytes
    obtain ⟨hv0, hv1, hv2, hv3, hf0, hf1, hf2, hf3, h8, h9, h10, h11, hp0, hp1, hp2, hp3⟩ := hbytes
    have hv : be32 oldv4 = be32 0 := by
      simp only [be32, h9, h10, h11, hv0, hp0]
      rfl
    have hp : be32 bbprefix = be32 0 := by
      simp only [be32, hp0, hp1, hp2, hp3]
      rfl
    have hf : be32 fragmentation = be32 0xFF000000 := by
      simp only [be32, hf0, hf1, hf2, hf3, hv0, h9, h10, hp0]
      rfl
    exact ⟨be32_inj hv, be32_inj hp, be32_inj hf⟩
  · rintro ⟨rfl, rfl, rfl⟩
    apply Subtype.ext
    rw [written_big, written_little]
    decide

theorem substituted_iff (addr : Addr6) :
    Substituted addr ↔ InFormat addr ∨ addr.1.take 4 = NO_ADDRESS := by
  have hbig : mappingAddress6to4 .big addr.1 = some (addr.1.take 4) := by
    simp [mappingAddress6to4, peek?, addr.2]
  by_cases hmark : InFormat addr
  · simp [Substituted, hmark]
  · simp only [Substituted, hmark, not_false_eq_true, forall_const, false_or]
    constructor
    · intro h
      exact Option.some.inj (hbig.symm.trans (h .big))
    · intro h e
      cases e with
      | big => rw [hbig, h]
      | little =>
          have hget : addr.1[4]? = some (addr.1.get ⟨4, by rw [addr.2]; decide⟩) := by simp
          have hne : addr.1.get ⟨4, by rw [addr.2]; decide⟩ ≠ 0xFF := by
            intro heq
            exact hmark (hget.trans (congrArg some heq))
          rw [mappingAddress6to4, hget]
          exact if_pos hne

/-- The two builds agree on one address only, which no caller asks for (the
word of fragmentation is 0 there), and the big endian one has a substitute
only for itself. -/
theorem mapping_interoperates_iff (oldv4 bbprefix fragmentation : UInt32) (addr : Addr6) :
    (Interoperates oldv4 bbprefix fragmentation ↔
      oldv4 = 0 ∧ bbprefix = 0 ∧ fragmentation = 0xFF000000) ∧
    (Substituted addr ↔ InFormat addr ∨ addr.1.take 4 = NO_ADDRESS) := by
  refine ⟨?_, substituted_iff addr⟩
  constructor
  · intro h
    exact (written_same_iff _ _ _).mp h.same
  · intro h
    have hsame := (written_same_iff _ _ _).mpr h
    have hone (e e' : ByteOrder) : written e oldv4 bbprefix fragmentation =
        written e' oldv4 bbprefix fragmentation := by
      cases e <;> cases e' <;> first | rfl | exact hsame | exact hsame.symm
    refine ⟨hsame, fun e => ?_, fun e e' => ?_⟩
    · rw [hone e .little, written_little]
      exact List.prefix_append _ _
    · rw [hone e' e]
      exact unmaps_own e oldv4 bbprefix fragmentation

/-- 192.0.2.1 under the prefix 2001:da8::/32, and the address of all zeros. -/
theorem mapping_interoperates_fails :
    ¬Interoperates 0xC0000201 0x20010DA8 0 ∧ ¬Substituted ⟨List.replicate 16 0, rfl⟩ := by
  constructor
  · intro h
    have hback := h.back .big .little
    revert hback
    decide
  · intro h
    have hbig := h (by decide) .big
    revert hbig
    decide

end UbntSdk.Ivi
