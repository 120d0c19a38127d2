/-
UbntSdk.Mtd.ScanTheorems — the scan of the file system in front of an append
(`mtd_parse_jffs2data` and the loop of `mtd_write_jffs2`).

The scan goes from node to node by the lengths in the block. It believes
them: nothing is compared with the size of the block but the offset where a
node starts, and the sum of offset and length is one of 32 bits. So
`parse_total_iff` has two conditions, that the nodes it comes to are in the
block and that it comes to no node twice.

`strncmp` gets the length of the name in the block, not that of the name it
looks for. `strncmpEq_iff` says which names it takes for equal: those that
the name begins with, and those that begin with the name and a NUL.
`lookup_exact_iff` says what this means for the directory.
-/
import UbntSdk.Mtd.IdentityTheorems

namespace UbntSdk.Mtd

open UbntSdk.Lib

/-! ## Names -/

/-- What `strncmp` takes for equal to the string `s`: `n` bytes that `s`
begins with, or bytes that begin with `s` and a NUL. -/
def Alike (n : Nat) (chars s : List UInt8) : Prop :=
  (chars.length = n ∧ chars <+: s) ∨ s ++ [0] <+: chars

instance (n : Nat) (chars s : List UInt8) : Decidable (Alike n chars s) :=
  inferInstanceAs (Decidable (_ ∨ _))

/-- `strncmp` says that the names are equal. -/
theorem strncmpEq_iff {m : List UInt8} (n : Nat) : ∀ {off : Nat} {s : List UInt8}, (0 : UInt8) ∉ s →
    (strncmpEq m off s n = some true ↔ Alike n ((m.drop off).take n) s) := by
  induction n with
  | zero => intro off s _; simp [strncmpEq, Alike]
  | succ n ih =>
      intro off s hs
      cases hm : m[off]? with
      | none =>
          have hnil : m.drop off = [] := List.drop_eq_nil_of_le (List.getElem?_eq_none_iff.mp hm)
          simp [strncmpEq, Alike, hm, hnil]
      | some c =>
          have hdrop : m.drop off = c :: m.drop (off + 1) := by
            obtain ⟨hlt, hc⟩ := List.getElem?_eq_some_iff.mp hm
            rw [← hc, List.drop_eq_getElem_cons hlt]
          have hrest : (m.drop off).take (n + 1) = c :: (m.drop (off + 1)).take n := by
            rw [hdrop, List.take_succ_cons]
          rw [hrest]
          cases s with
          | nil =>
              by_cases hc : c = 0
              · simp [strncmpEq, Alike, hm, hc]
              · simp [strncmpEq, Alike, hm, hc, Ne.symm hc]
          | cons d s =>
              by_cases hcd : c = d
              · have hd : d ≠ 0 := fun h0 => hs (h0 ▸ List.mem_cons_self)
                have hs' : (0 : UInt8) ∉ s := fun h0 => hs (List.mem_cons_of_mem _ h0)
                subst hcd
                rw [strncmpEq]
                simp only [hm, Option.bind_eq_bind, Option.bind_some, List.headD_cons, ne_eq,
                  not_true_eq_false, if_false, hd, List.tail_cons, ih hs']
                simp [Alike]
              · have hdc : d ≠ c := Ne.symm hcd
                simp [strncmpEq, Alike, hm, hcd, hdc]

/-- `strncmp` runs out of the block if all that is left of it could be the
beginning of the name. -/
theorem strncmpEq_eq_none_iff {m : List UInt8} (n : Nat) : ∀ {off : Nat} {s : List UInt8},
    (0 : UInt8) ∉ s →
    (strncmpEq m off s n = none ↔ (m.drop off).length < n ∧ m.drop off <+: s) := by
  induction n with
  | zero => intro off s _; simp [strncmpEq]
  | succ n ih =>
      intro off s hs
      cases hm : m[off]? with
      | none =>
          have hnil : m.drop off = [] := List.drop_eq_nil_of_le (List.getElem?_eq_none_iff.mp hm)
          simp [strncmpEq, hm, hnil]
      | some c =>
          have hdrop : m.drop off = c :: m.drop (off + 1) := by
            obtain ⟨hlt, hc⟩ := List.getElem?_eq_some_iff.mp hm
            rw [← hc, List.drop_eq_getElem_cons hlt]
          rw [hdrop]
          cases s with
          | nil =>
              by_cases hc : c = 0
              · simp [strncmpEq, hm, hc]
              · simp [strncmpEq, hm, hc]
          | cons d s =>
              by_cases hcd : c = d
              · have hd : d ≠ 0 := fun h0 => hs (h0 ▸ List.mem_cons_self)
                have hs' : (0 : UInt8) ∉ s := fun h0 => hs (List.mem_cons_of_mem _ h0)
                subst hcd
                rw [strncmpEq]
                simp only [hm, Option.bind_eq_bind, Option.bind_some, List.headD_cons, ne_eq,
                  not_true_eq_false, if_false, hd, List.tail_cons, ih hs', List.length_cons,
                  Nat.add_lt_add_iff_right, List.cons_prefix_cons, true_and]
              · simp [strncmpEq, hm, hcd]

/-! ## The way through a block -/

section Way

variable (e : ByteOrder) (m : List UInt8) (dir : CStr)

/-- The next node after the one at `a` is looked for at `b`. -/
def Follows (a b : Nat) : Prop :=
  a < m.length ∧ u16At e m a = some JFFS2_MAGIC_BITMASK ∧
    ∃ totlen, u32At e m (a + 4) = some totlen ∧ b = (a + padTo4 totlen.toNat % 2 ^ 32) % 2 ^ 32

/-- The name of the dirent at `a` is in the block, or what the block has of
it is not the beginning of the name that is looked for. -/
def NameInside (a : Nat) : Prop :=
  ∃ nsize, m[a + 28]? = some nsize ∧
    (nsize.toNat ≤ (m.drop (a + DIRENT_SIZE)).length ∨ ¬m.drop (a + DIRENT_SIZE) <+: dir.chars)

/-- What is read of a node at `a` is in the block: the magic, the header if
there is the magic, the numbers of a dirent, and the name in the root
directory. -/
def PassInside (a : Nat) : Prop :=
  a + 2 ≤ m.length ∧ (u16At e m a = some JFFS2_MAGIC_BITMASK → a + 8 ≤ m.length ∧
    (u16At e m (a + 2) = some JFFS2_NODETYPE_DIRENT → a + 24 ≤ m.length ∧
      (dir.chars ≠ [] → u32At e m (a + 12) = some 1 → NameInside m dir a)))

end Way

section Walk

variable {e : ByteOrder} {m : List UInt8} {dir : CStr}

theorem follows_rightUnique : Relator.RightUnique (Follows e m) := by
  rintro a b c ⟨_, _, t, ht, rfl⟩ ⟨_, _, t', ht', rfl⟩
  rw [ht] at ht'
  cases ht'
  rfl

theorem u16At_isSome {off : Nat} : (u16At e m off).isSome ↔ off + 2 ≤ m.length := by
  rw [u16At, Option.isSome_map, peek?_isSome]

theorem u32At_isSome {off : Nat} : (u32At e m off).isSome ↔ off + 4 ≤ m.length := by
  rw [u32At, Option.isSome_map, peek?_isSome]

theorem exists_u16At {off : Nat} (h : off + 2 ≤ m.length) : ∃ x, u16At e m off = some x :=
  Option.isSome_iff_exists.mp (u16At_isSome.mpr h)

theorem exists_u32At {off : Nat} (h : off + 4 ≤ m.length) : ∃ x, u32At e m off = some x :=
  Option.isSome_iff_exists.mp (u32At_isSome.mpr h)

theorem nameInside_iff {a : Nat} :
    NameInside m dir a ↔ ((m[a + 28]?.bind fun nsize =>
      strncmpEq m (a + DIRENT_SIZE) dir.chars nsize.toNat).isSome) := by
  rw [NameInside]
  cases hsize : m[a + 28]? with
  | none => simp
  | some nsize =>
      rw [Option.bind_some, ← Option.ne_none_iff_isSome, ne_eq, strncmpEq_eq_none_iff _ dir.noNul,
        not_and_or, not_lt]
      simp

/-- The pass over a dirent reads its numbers and, in the root directory, its
name. -/
theorem parsedDirent_isSome {a : Nat} :
    (parsedDirent e dir m a).isSome ↔ a + 24 ≤ m.length ∧
      (dir.chars ≠ [] → u32At e m (a + 12) = some 1 → NameInside m dir a) := by
  rw [nameInside_iff, parsedDirent]
  by_cases h24 : a + 24 ≤ m.length
  · obtain ⟨pino, hpino⟩ := @exists_u32At e m (a + 12) (by omega)
    obtain ⟨ino, hino⟩ := @exists_u32At e m (a + 20) (by omega)
    obtain ⟨version, hversion⟩ := @exists_u32At e m (a + 16) (by omega)
    rw [hpino, hino, hversion]
    by_cases hdir : dir.chars = []
    · simp [hdir, h24]
    · by_cases hroot : pino = 1
      · simp only [hdir, hroot, h24, if_false, ne_eq, not_false_eq_true, if_true,
          Option.bind_eq_bind, Option.bind_some, Option.pure_def, true_and, forall_const]
        cases m[a + 28]?.bind fun nsize => strncmpEq m (a + DIRENT_SIZE) dir.chars nsize.toNat with
        | none => rfl
        | some isDir => rfl
      · simp [hdir, hroot, h24]
  · have hino : u32At e m (a + 20) = none := by
      rw [← Option.not_isSome_iff_eq_none, u32At_isSome]
      omega
    rw [hino]
    simp only [Option.bind_eq_bind, Option.bind_none, Option.bind_fun_none, Option.isSome_none,
      Bool.false_eq_true, h24, false_and]

/-- The statics after a dirent. -/
def noted (s : Jffs2) (d : ParsedDirent) : Jffs2 :=
  { s with
    targetIno := if d.isDir then d.ino else s.targetIno
    lastIno := if s.lastIno < d.ino then d.ino else s.lastIno
    lastVersion := if s.lastVersion < d.version then d.version else s.lastVersion }

/-- A pass, over what it gets from a dirent. -/
theorem parseBody_eq {a : Nat} (ha : a < m.length)
    (hmagic : u16At e m a = some JFFS2_MAGIC_BITMASK) (s : Jffs2) :
    parseBody e m.length m dir (a, s) =
      match (u32At e m (a + 4)).bind fun totlen => (u16At e m (a + 2)).bind fun nodetype =>
        (if nodetype = JFFS2_NODETYPE_DIRENT then (parsedDirent e dir m a).map (noted s)
          else some s).map fun t => ((a + padTo4 totlen.toNat % 2 ^ 32) % 2 ^ 32, t) with
      | none => .fault
      | some p => .next p := by
  simp only [parseBody, if_pos ha, hmagic, ne_eq, not_true_eq_false, if_false]
  congr 1
  cases u32At e m (a + 4) with
  | none => rfl
  | some totlen =>
      cases u16At e m (a + 2) with
      | none => rfl
      | some nodetype =>
          simp only [Option.bind_eq_bind, Option.bind_some]
          split
          · simp only [parsedDirent, Option.bind_eq_bind, Option.map_bind, Function.comp_def,
              Option.pure_def, Option.map_some, noted]
          · rfl

/-- A pass faults exactly if something it reads is outside the block. -/
theorem parseBody_ne_fault_iff {a : Nat} {s : Jffs2} :
    parseBody e m.length m dir (a, s) ≠ .fault ↔ (a < m.length → PassInside e m dir a) := by
  by_cases ha : a < m.length
  · simp only [ha, forall_const, PassInside]
    by_cases h2 : a + 2 ≤ m.length
    · obtain ⟨magic, hread⟩ := @exists_u16At e m a h2
      by_cases hmagic : magic = JFFS2_MAGIC_BITMASK
      · rw [hmagic] at hread
        rw [parseBody_eq ha hread, ← parsedDirent_isSome]
        by_cases h8 : a + 8 ≤ m.length
        · obtain ⟨totlen, htotlen⟩ := @exists_u32At e m (a + 4) (by omega)
          obtain ⟨nodetype, htype⟩ := @exists_u16At e m (a + 2) (by omega)
          rw [htotlen, htype]
          simp only [Option.bind_some, hread, h2, h8, true_and, forall_const, Option.some.injEq]
          by_cases hdirent : nodetype = JFFS2_NODETYPE_DIRENT
          · cases parsedDirent e dir m a <;> simp [hdirent]
          · simp [hdirent]
        · simp only [hread, h8, false_and, imp_false, not_true_eq_false, and_false, iff_false,
            not_not]
          cases htotlen : u32At e m (a + 4) with
          | none => rfl
          | some totlen =>
              have h := u32At_isSome.mp (Option.isSome_of_mem htotlen)
              omega
      · simp [parseBody, ha, hread, hmagic, h2]
    · have hread : u16At e m a = none := by
        rw [← Option.not_isSome_iff_eq_none, u16At_isSome]
        exact h2
      simp [parseBody, ha, hread, h2]
  · simp [parseBody, ha]

/-- A pass goes on where there is a node, and to the next one. -/
theorem parseBody_goes_iff {a b : Nat} {s : Jffs2}
    (hok : parseBody e m.length m dir (a, s) ≠ .fault) :
    (∃ t, parseBody e m.length m dir (a, s) = .next (b, t)) ↔ Follows e m a b := by
  constructor
  · rintro ⟨t, ht⟩
    have ha : a < m.length := by
      by_contra hge
      simp [parseBody, hge] at ht
    have hmagic : u16At e m a = some JFFS2_MAGIC_BITMASK := by
      cases hread : u16At e m a with
      | none => simp [parseBody, ha, hread] at ht
      | some magic =>
          by_cases hmagic : magic = JFFS2_MAGIC_BITMASK
          · rw [hmagic]
          · simp [parseBody, ha, hread, hmagic] at ht
    rw [parseBody_eq ha hmagic] at ht
    cases htotlen : u32At e m (a + 4) with
    | none => simp [htotlen] at ht
    | some totlen =>
        refine ⟨ha, hmagic, totlen, htotlen, ?_⟩
        split at ht
        · cases ht
        · rename_i p hp
          cases ht
          simp only [htotlen, Option.bind_some, Option.bind_eq_some_iff, Option.map_eq_some_iff,
            Prod.mk.injEq] at hp
          obtain ⟨_, _, _, _, hb, _⟩ := hp
          exact hb.symm
  · rintro ⟨ha, hmagic, totlen, htotlen, rfl⟩
    rw [parseBody_eq ha hmagic] at hok ⊢
    rw [htotlen] at hok ⊢
    split at hok
    · exact absurd rfl hok
    · rename_i p hp
      simp only [Option.bind_some, Option.bind_eq_some_iff, Option.map_eq_some_iff] at hp
      obtain ⟨nodetype, htype, t, ht, rfl⟩ := hp
      exact ⟨t, rfl⟩

/-! ## Whether the scan of a block comes to an end -/

/-- `mtd_parse_jffs2data` comes to an end and reads inside the block. -/
def ParseTotal (e : ByteOrder) (m : List UInt8) (dir : CStr) (s : Jffs2) : Prop :=
  ∃ n s', mtdParseJffs2data e m.length n m dir s = .done s'

/-- The offsets at which the scan looks for a node. -/
def Looked (e : ByteOrder) (m : List UInt8) : Nat → Prop := Relation.ReflTransGen (Follows e m) 0

theorem looked_of_reaches {s : Jffs2} {p : Nat × Jffs2}
    (h : Reaches (parseBody e m.length m dir) (0, s) p) : Looked e m p.1 := by
  have hstart : Looked e m 0 := Relation.ReflTransGen.refl
  refine @Reaches.invariant _ _ _ (fun p : Nat × Jffs2 => Looked e m p.1) _ _ h hstart
    fun u v _ hu huv => hu.tail ?_
  exact (@parseBody_goes_iff e m dir u.1 v.1 u.2 (by rw [huv]; simp)).mp ⟨v.2, huv⟩

/-- As long as no read is outside, the scan gets to every offset of the way. -/
theorem reaches_of_looked {s : Jffs2}
    (hok : ∀ p, Reaches (parseBody e m.length m dir) (0, s) p →
      parseBody e m.length m dir p ≠ .fault)
    {a : Nat} (h : Looked e m a) : ∃ t, Reaches (parseBody e m.length m dir) (0, s) (a, t) := by
  induction h with
  | refl => exact ⟨s, Relation.ReflTransGen.refl⟩
  | tail _ hab ih =>
      obtain ⟨t, ht⟩ := ih
      obtain ⟨t', ht'⟩ := (parseBody_goes_iff (hok _ ht)).mpr hab
      exact ⟨t', ht.tail ht'⟩

/-- The scan of a block is total exactly if what it reads of each node on
its way is in the block, and no node follows itself. -/
theorem parse_total_iff (e : ByteOrder) (m : List UInt8) (dir : CStr) (s : Jffs2) :
    ParseTotal e m dir s ↔
      (∀ a, Looked e m a → a < m.length → PassInside e m dir a) ∧
      ∀ a, Looked e m a → ¬Relation.TransGen (Follows e m) a a := by
  constructor
  · rintro ⟨n, s', hdone⟩
    have hok := run_ne_fault_iff.mp (run_ne_fault_of_done hdone)
    obtain ⟨⟨b, t⟩, hreach, hstop⟩ := (reaches_of_run n _).2 s' hdone
    refine ⟨fun a ha hlt => ?_, fun a ha => ?_⟩
    · obtain ⟨t, ht⟩ := reaches_of_looked hok ha
      exact parseBody_ne_fault_iff.mp (hok _ ht) hlt
    · have hend : ∀ c, ¬Follows e m b c := by
        intro c hc
        obtain ⟨t', ht'⟩ := (@parseBody_goes_iff e m dir b c t (by rw [hstop]; simp)).mpr hc
        rw [hstop] at ht'
        cases ht'
      have hb : Looked e m b := looked_of_reaches hreach
      rcases Relation.ReflTransGen.total_of_right_unique follows_rightUnique ha hb with hab | hba
      · exact no_cycle_before follows_rightUnique hab hend
      · rcases Relation.ReflTransGen.cases_head hba with rfl | ⟨c, hbc, _⟩
        · exact no_cycle_before follows_rightUnique Relation.ReflTransGen.refl hend
        · exact absurd hbc (hend c)
  · rintro ⟨hinside, hacyclic⟩
    have hok : ∀ p, Reaches (parseBody e m.length m dir) (0, s) p →
        parseBody e m.length m dir p ≠ .fault := fun p hp =>
      parseBody_ne_fault_iff.mpr (hinside p.1 (looked_of_reaches hp))
    obtain ⟨n, hn⟩ := @run_ends_of_acyclic _ _ (parseBody e m.length m dir) _ Prod.fst (Follows e m)
      (Finset.range m.length) (fun u v huv => by
        have hway := (@parseBody_goes_iff e m dir u.1 v.1 u.2 (by rw [huv]; simp)).mp ⟨v.2, huv⟩
        exact ⟨Finset.mem_range.mpr hway.1, hway⟩) (0, s) hacyclic
    cases hrun : run (parseBody e m.length m dir) n (0, s) with
    | running => exact absurd hrun hn
    | fault => exact absurd hrun (run_ne_fault_iff.mpr hok n)
    | done s' => exact ⟨n, s', hrun⟩

/-- An inode node of length 0, and a node that leaves 4 bytes of the block
behind it. -/
def standingBlock : List UInt8 :=
  [0x85, 0x19, 0x02, 0xe0, 0, 0, 0, 0] ++ List.replicate 4088 0xff

def leavingBlock : List UInt8 :=
  [0x85, 0x19, 0x02, 0xe0, 0xfc, 0x0f, 0, 0] ++
    (List.replicate 4084 0xff ++ [0x85, 0x19, 0x02, 0xe0])

/-- The scan stays at the first block for ever and reads behind the second. -/
theorem parse_total_fails :
    ¬ParseTotal .little standingBlock ⟨[0x65, 0x74, 0x63], by decide⟩ Jffs2.initial ∧
    ¬ParseTotal .little leavingBlock ⟨[0x65, 0x74, 0x63], by decide⟩ Jffs2.initial := by
  constructor
  · intro h
    have hstand : Follows .little standingBlock 0 0 :=
      ⟨by decide +kernel, by decide +kernel, 0, by decide +kernel, by decide⟩
    exact ((parse_total_iff _ _ _ _).mp h).2 0 Relation.ReflTransGen.refl (.single hstand)
  · intro h
    have hleave : Follows .little leavingBlock 0 4092 :=
      ⟨by decide +kernel, by decide +kernel, 4092, by decide +kernel, by decide⟩
    have hlen : leavingBlock.length = 4096 := by decide +kernel
    have hmagic : u16At .little leavingBlock 4092 = some JFFS2_MAGIC_BITMASK := by decide +kernel
    have hpass := ((parse_total_iff _ _ _ _).mp h).1 4092 (.single hleave) (by omega)
    have h8 := (hpass.2 hmagic).1
    omega

end Walk

/-! ## The directory -/

/-- An entry of the root directory: `nsize` and as many bytes of the name as
the block has. -/
structure RootEntry where
  ino : UInt32
  nsize : Nat
  chars : List UInt8

namespace RootEntry

/-- The name of the entry is `dir`. -/
def Named (dir : CStr) (en : RootEntry) : Prop := en.nsize = dir.strlen ∧ en.chars = dir.chars

/-- The name is taken for `dir`. -/
def Taken (dir : CStr) (en : RootEntry) : Prop := Alike en.nsize en.chars dir.chars

instance (dir : CStr) (en : RootEntry) : Decidable (Named dir en) :=
  inferInstanceAs (Decidable (_ ∧ _))

instance (dir : CStr) (en : RootEntry) : Decidable (Taken dir en) :=
  inferInstanceAs (Decidable (Alike _ _ _))

theorem Named.taken {dir : CStr} {en : RootEntry} (h : en.Named dir) : en.Taken dir :=
  .inl ⟨by rw [h.2, h.1, CStr.strlen], by rw [h.2]⟩

end RootEntry

section Lookup

variable (e : ByteOrder) (erasesize : Nat)

/-- The dirent at an offset, if it is one of the root directory. -/
def rootEntryAt (m : List UInt8) (ofs : Nat) : Option RootEntry := do
  let pino ← u32At e m (ofs + 12)
  let ino ← u32At e m (ofs + 20)
  let nsize ← m[ofs + 28]?
  if pino = 1 then
    some ⟨ino, nsize.toNat, (m.drop (ofs + DIRENT_SIZE)).take nsize.toNat⟩
  else none

/-- The offsets of the dirents of a block, from an offset on; at most `n`
nodes. -/
def direntOffsets (m : List UInt8) : Nat → Nat → List Nat
  | 0, _ => []
  | n + 1, ofs =>
      if ofs < erasesize ∧ u16At e m ofs = some JFFS2_MAGIC_BITMASK then
        let here := if u16At e m (ofs + 2) = some JFFS2_NODETYPE_DIRENT then [ofs] else []
        match u32At e m (ofs + 4) with
        | some totlen => here ++ direntOffsets m n ((ofs + padTo4 totlen.toNat % 2 ^ 32) % 2 ^ 32)
        | none => here
      else []

/-- The root directory, as the blocks in front of the free space have it. -/
def rootEntries (n : Nat) : List (List UInt8) → List RootEntry
  | [] => []
  | block :: rest =>
      if u16At e block 0 = some JFFS2_MAGIC_BITMASK then
        (direntOffsets e erasesize block n 0).filterMap (rootEntryAt e block) ++ rootEntries n rest
      else []

/-- The inode number of the last entry named `dir`, 0 if there is none. -/
def dirIno (dir : CStr) (entries : List RootEntry) : UInt32 :=
  ((entries.filter (·.Named dir)).getLast?.map (·.ino)).getD 0

end Lookup

section Scanned

variable {e : ByteOrder} {erasesize : Nat} {dir : CStr}

theorem blockDirents_eq {m : List UInt8} (n : Nat) : ∀ {ofs : Nat},
    blockDirents e erasesize dir m n ofs =
      (direntOffsets e erasesize m n ofs).filterMap (parsedDirent e dir m) := by
  induction n with
  | zero => intro ofs; rfl
  | succ n ih =>
      intro ofs
      have hhere : (if u16At e m (ofs + 2) = some JFFS2_NODETYPE_DIRENT then
          (parsedDirent e dir m ofs).toList else []) =
          (if u16At e m (ofs + 2) = some JFFS2_NODETYPE_DIRENT then [ofs] else []).filterMap
            (parsedDirent e dir m) := by
        split
        · cases hp : parsedDirent e dir m ofs <;> simp [hp]
        · rfl
      simp only [blockDirents, direntOffsets, hhere]
      split
      · cases u32At e m (ofs + 4) with
        | none => rfl
        | some totlen => simp only [List.filterMap_append, ih]
      · rfl

/-- Of a dirent, the scan keeps the inode number if the name is taken for
`dir`. -/
theorem parsedDirent_taken (hdir : dir.chars ≠ []) (m : List UInt8) (ofs : Nat) :
    ((parsedDirent e dir m ofs).toList.filter (·.isDir)).map (·.ino) =
      ((rootEntryAt e m ofs).toList.filter (·.Taken dir)).map (·.ino) := by
  rw [parsedDirent, rootEntryAt, if_neg hdir]
  cases hpino : u32At e m (ofs + 12) with
  | none => rfl
  | some pino =>
      cases hino : u32At e m (ofs + 20) with
      | none => rfl
      | some ino =>
          obtain ⟨version, hversion⟩ := @exists_u32At e m (ofs + 16) (by
            have := u32At_isSome.mp (Option.isSome_of_mem hino)
            omega)
          rw [hversion]
          by_cases hroot : pino = 1
          · cases hsize : m[ofs + 28]? with
            | none => simp [hroot, hdir]
            | some nsize =>
                have htaken := @strncmpEq_iff m nsize.toNat (ofs + DIRENT_SIZE) _ dir.noNul
                cases hcmp : strncmpEq m (ofs + DIRENT_SIZE) dir.chars nsize.toNat with
                | none =>
                    rw [hcmp] at htaken
                    have hnot : ¬Alike nsize.toNat
                        ((m.drop (ofs + DIRENT_SIZE)).take nsize.toNat) dir.chars :=
                      fun h => Option.some_ne_none _ (htaken.mpr h).symm
                    simp [hroot, hdir, hcmp, RootEntry.Taken, hnot]
                | some eq =>
                    rw [hcmp, Option.some.injEq] at htaken
                    cases eq <;> simp [hroot, hdir, hcmp, RootEntry.Taken, ← htaken]
          · cases m[ofs + 28]? <;> simp [hroot]

/-- The inode numbers that the scan keeps for the directory. -/
theorem partitionDirents_taken (hdir : dir.chars ≠ []) (n : Nat) (partition : List (List UInt8)) :
    ((partitionDirents e erasesize dir n partition).filter (·.isDir)).map (·.ino) =
      ((rootEntries e erasesize n partition).filter (·.Taken dir)).map (·.ino) := by
  induction partition with
  | nil => rfl
  | cons block rest ih =>
      have hblock : ∀ offs : List Nat,
          ((offs.filterMap (parsedDirent e dir block)).filter (·.isDir)).map (·.ino) =
            ((offs.filterMap (rootEntryAt e block)).filter (·.Taken dir)).map (·.ino) := by
        intro offs
        induction offs with
        | nil => rfl
        | cons ofs offs ihoffs =>
            have hcons {α : Type} (f : Nat → Option α) :
                (ofs :: offs).filterMap f = (f ofs).toList ++ offs.filterMap f := by
              cases hf : f ofs <;> simp [hf]
            rw [hcons, hcons, List.filter_append, List.filter_append, List.map_append,
              List.map_append, parsedDirent_taken hdir, ihoffs]
      rw [partitionDirents, rootEntries]
      split
      · rw [List.filter_append, List.filter_append, List.map_append, List.map_append, ih,
          blockDirents_eq, hblock]
      · rfl

/-- The last of the entries that are taken for `dir` decides about the
directory that the file is put into, so the lookup is exact exactly if that
entry is named `dir` or has the inode number of the one that should have
been found. -/
theorem lookup_exact_iff (e : ByteOrder) (erasesize n : Nat) (dir : CStr)
    (partition : List (List UInt8)) (r : ScanEnd) (hdir : dir.chars ≠ [])
    (hscan : scanBlocks e erasesize n dir partition Jffs2.initial = some r) :
    r.state.targetIno = dirIno dir (rootEntries e erasesize n partition) ↔
      ∀ en, ((rootEntries e erasesize n partition).filter (·.Taken dir)).getLast? = some en →
        ¬en.Named dir → en.ino = dirIno dir (rootEntries e erasesize n partition) := by
  have hnoted := congrArg (fun i => i.1.2.2) (scanBlocks_notes hscan)
  have htarget : r.state.targetIno =
      (((rootEntries e erasesize n partition).filter (·.Taken dir)).getLast?.map (·.ino)).getD 0 := by
    rw [← List.getLast?_map, ← partitionDirents_taken hdir, List.getLast?_map]
    simp only [account, ids, foldl_note, foldl_target] at hnoted
    exact hnoted
  rw [htarget]
  cases hlast : ((rootEntries e erasesize n partition).filter (·.Taken dir)).getLast? with
  | none =>
      have hnone := List.getLast?_eq_none_iff.mp hlast
      have hnamed : (rootEntries e erasesize n partition).filter (·.Named dir) = [] := by
        rw [List.filter_eq_nil_iff] at hnone ⊢
        exact fun en hen hn => hnone en hen (by simpa using (of_decide_eq_true hn).taken)
      simp [dirIno, hnamed]
  | some last =>
      simp only [Option.map_some, Option.getD_some, Option.some.injEq, forall_eq']
      by_cases hnamed : last.Named dir
      · -- the last one taken is the last one named
        obtain ⟨init, hinit⟩ := List.getLast?_eq_some_iff.mp hlast
        have hsub : (rootEntries e erasesize n partition).filter (·.Named dir) =
            ((rootEntries e erasesize n partition).filter (·.Taken dir)).filter (·.Named dir) := by
          rw [List.filter_filter]
          refine List.filter_congr fun en _ => ?_
          by_cases hen : en.Named dir
          · simp [hen, hen.taken]
          · simp [hen]
        have hlastNamed : ((rootEntries e erasesize n partition).filter (·.Named dir)).getLast? =
            some last := by
          rw [hsub, hinit, List.filter_append, List.filter_cons_of_pos (by simpa using hnamed)]
          simp
        simp [hnamed, dirIno, hlastNamed]
      · simp [hnamed]

/-- `etc`. -/
def etcName : CStr := ⟨[0x65, 0x74, 0x63], by decide⟩

/-- A block with one directory in the root directory, inode 2. -/
def dirBlock (name : CStr) : List UInt8 :=
  (fillDirent .big name DT_DIR 1 2 5).bytes .big ++
    (name.chars ++ List.replicate (4056 - name.strlen) 0xff)

/-- The directory `etc` is found. -/
theorem lookup_exact_found :
    ∃ r, scanBlocks .big 4096 2 etcName [dirBlock etcName, List.replicate 4096 0xff]
        Jffs2.initial = some r ∧
      r.state.targetIno =
        dirIno etcName (rootEntries .big 4096 2 [dirBlock etcName, List.replicate 4096 0xff]) := by
  have hscan : (scanBlocks .big 4096 2 etcName [dirBlock etcName, List.replicate 4096 0xff]
      Jffs2.initial).isSome := by decide +kernel
  obtain ⟨r, hr⟩ := Option.isSome_iff_exists.mp hscan
  refine ⟨r, hr, (lookup_exact_iff _ _ _ _ _ r (by decide) hr).mpr fun en hen hnamed => ?_⟩
  have hall : ((rootEntries .big 4096 2 [dirBlock etcName, List.replicate 4096 0xff]).filter
      (·.Taken etcName)).getLast?.all (·.Named etcName) := by decide +kernel
  rw [hen] at hall
  exact absurd (of_decide_eq_true hall) hnamed

/-- The directory `et` is taken for `etc`, which there is not. -/
theorem lookup_exact_fails :
    ∃ r, scanBlocks .big 4096 2 etcName
        [dirBlock ⟨[0x65, 0x74], by decide⟩, List.replicate 4096 0xff] Jffs2.initial = some r ∧
      r.state.targetIno = 2 ∧
      dirIno etcName (rootEntries .big 4096 2
        [dirBlock ⟨[0x65, 0x74], by decide⟩, List.replicate 4096 0xff]) = 0 := by
  have hscan : (scanBlocks .big 4096 2 etcName
      [dirBlock ⟨[0x65, 0x74], by decide⟩, List.replicate 4096 0xff] Jffs2.initial).map
        (·.state.targetIno) = some 2 := by decide +kernel
  obtain ⟨r, hr, htarget⟩ := Option.map_eq_some_iff.mp hscan
  exact ⟨r, hr, htarget, by decide +kernel⟩

end Scanned

end UbntSdk.Mtd
