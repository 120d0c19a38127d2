/-
UbntSdk.Arpnat.Tags — the loops over the tags of a PPPoE discovery packet
in `do_pppoed_in` and `do_pppoed_out`, with every access they make.

`tagPass` is one pass of the loop on a host of either byte order. It looks
at the type of a tag before it compares the place of the tag with the end of
the tags, and nothing compares that end with the end of the frame. The loop
always ends, on a big-endian host at the tag that `hostUniqTag` names
(`tagWalk_ends`).

The type of a tag comes from `ntohs`, but what it is compared with comes from
`__constant_htons`. A little-endian host does not stop at a Host-Uniq tag: it
takes 0x0301 for one (`pttHostUniq`).

`Walkable` is the format the loop relies on: whole tags up to an end tag or
to a whole tag of the type at which the host stops. The loop stays inside the
announced bytes of the frame iff these are `Walkable` (`safeWalk_iff`). A packet
without such a tag never is, however well it is made.
-/
import UbntSdk.Arpnat.Access
import UbntSdk.Lib.Loop

namespace UbntSdk.Arpnat

open UbntSdk.Lib

/-! ## Tags -/

/-- A tag: its type, and data that its length field can count. -/
structure Tag where
  type : UInt16
  data : List UInt8
  short : data.length < 65536

namespace Tag

def bytes (t : Tag) : List UInt8 :=
  word16 .big t.type ++ word16 .big (UInt16.ofNat t.data.length) ++ t.data

@[simp] theorem bytes_length (t : Tag) : t.bytes.length = 4 + t.data.length := by
  simp only [bytes, List.length_append, word16_length]

end Tag

/-- The bytes of a tag are found by its type, its length and its data. -/
theorem bytes_eq_tag {skb : Skb} {off : Nat} {t : Tag} :
    skb.bytes off (4 + t.data.length) = t.bytes ↔ skb.u16 off = t.type ∧
      (skb.u16 (off + 2)).toNat = t.data.length ∧ skb.bytes (off + 4) t.data.length = t.data := by
  have hlen : (UInt16.ofNat t.data.length).toNat = t.data.length := by
    rw [UInt16.toNat_ofNat', Nat.mod_eq_of_lt t.short]
  rw [Tag.bytes, List.append_assoc, Skb.bytes_eq_append, Skb.bytes_eq_append]
  simp only [word16_length, Nat.add_assoc, Nat.reduceAdd]
  rw [show 4 + t.data.length - 2 - 2 = t.data.length by omega, ← Skb.word16_u16, ← Skb.word16_u16]
  constructor
  · rintro ⟨_, htype, _, hlength, hdata⟩
    refine ⟨word16_injective htype, ?_, hdata⟩
    rw [word16_injective hlength, hlen]
  · rintro ⟨htype, hlength, hdata⟩
    refine ⟨by omega, by rw [htype], by omega, ?_, hdata⟩
    rw [UInt16.toNat_inj.mp (hlength.trans hlen.symm)]

/-- `PTT_HOST_UNIQ` on a host: `__constant_htons(0x0103)`. `PTT_EOL` is 0 on
every host. -/
def pttHostUniq (e : ByteOrder) : UInt16 := be16ToCpu e PTT_HOST_UNIQ

@[simp] theorem pttHostUniq_big : pttHostUniq .big = PTT_HOST_UNIQ := by decide

example : pttHostUniq .little = 0x0301 := by decide

theorem pttHostUniq_ne_eol (e : ByteOrder) : pttHostUniq e ≠ PTT_EOL := by
  cases e <;> decide

/-- Whole tags up to an end tag or to a whole tag that the host takes for
Host-Uniq. -/
inductive Walkable (e : ByteOrder) : List UInt8 → Prop
  | endOfList (rest : List UInt8) : Walkable e (word16 .big PTT_EOL ++ rest)
  | hostUniq {t : Tag} (htype : t.type = pttHostUniq e) (rest : List UInt8) :
      Walkable e (t.bytes ++ rest)
  | other {t : Tag} {rest : List UInt8} (heol : t.type ≠ PTT_EOL) (huniq : t.type ≠ pttHostUniq e)
      (hrest : Walkable e rest) : Walkable e (t.bytes ++ rest)

/-- The tag at `off`. -/
def Skb.tag (skb : Skb) (off : Nat) : Tag :=
  ⟨skb.u16 off, skb.bytes (off + 4) (skb.u16 (off + 2)).toNat, by
    rw [Skb.bytes_length]
    exact (skb.u16 (off + 2)).toNat_lt⟩

theorem bytes_tag (skb : Skb) (off : Nat) :
    skb.bytes off (4 + (skb.u16 (off + 2)).toNat) = (skb.tag off).bytes := by
  have h := (@bytes_eq_tag skb off (skb.tag off)).mpr ⟨rfl, by simp [Skb.tag], by simp [Skb.tag]⟩
  simpa [Skb.tag] using h

/-- The format, one tag at a time. -/
theorem walkable_bytes_iff (e : ByteOrder) (skb : Skb) (off n : Nat) :
    Walkable e (skb.bytes off n) ↔ 2 ≤ n ∧ (skb.u16 off ≠ PTT_EOL → 4 + (skb.u16 (off + 2)).toNat ≤ n ∧
      (skb.u16 off ≠ pttHostUniq e →
        Walkable e (skb.bytes (off + 4 + (skb.u16 (off + 2)).toNat)
          (n - (4 + (skb.u16 (off + 2)).toNat))))) := by
  constructor
  · intro h
    generalize hbs : skb.bytes off n = bs at h
    cases h with
    | endOfList rest =>
        obtain ⟨hle, htype, _⟩ := Skb.bytes_eq_append.mp hbs
        rw [word16_length] at hle htype
        rw [← Skb.word16_u16] at htype
        exact ⟨hle, fun hne => absurd (word16_injective htype) hne⟩
    | @hostUniq t htype rest =>
        obtain ⟨hle, htag, _⟩ := Skb.bytes_eq_append.mp hbs
        rw [Tag.bytes_length] at hle htag
        obtain ⟨htype', hlength, _⟩ := bytes_eq_tag.mp htag
        exact ⟨by omega, fun _ => ⟨by omega, fun hne => absurd (htype'.trans htype) hne⟩⟩
    | @other t rest heol huniq hrest =>
        obtain ⟨hle, htag, htail⟩ := Skb.bytes_eq_append.mp hbs
        rw [Tag.bytes_length] at hle htag htail
        obtain ⟨_, hlength, _⟩ := bytes_eq_tag.mp htag
        refine ⟨by omega, fun _ => ⟨by omega, fun _ => ?_⟩⟩
        rw [hlength, Nat.add_assoc, htail]
        exact hrest
  · rintro ⟨htwo, hrest⟩
    by_cases heol : skb.u16 off = PTT_EOL
    · rw [show n = 2 + (n - 2) by omega, Skb.bytes_add, ← Skb.word16_u16, heol]
      exact Walkable.endOfList _
    · obtain ⟨hle, hrest⟩ := hrest heol
      have hcut : skb.bytes off n = (skb.tag off).bytes ++
          skb.bytes (off + 4 + (skb.u16 (off + 2)).toNat)
            (n - (4 + (skb.u16 (off + 2)).toNat)) := by
        rw [← bytes_tag, Nat.add_assoc off 4, ← Skb.bytes_add]
        congr 1
        omega
      rw [hcut]
      by_cases huniq : skb.u16 off = pttHostUniq e
      · exact Walkable.hostUniq huniq _
      · exact Walkable.other heol huniq (hrest huniq)

/-! ## The loop -/

/-- An access of the loop: the length of the packet, a field of a tag, or
the data of a tag that `crc16` goes over. -/
inductive Access where
  | length
  | field (off : Nat)
  | data (off n : Nat)

/-- The variables of the loop, and what it has read. -/
structure TagWalk where
  tag : Nat
  reads : List Access

namespace TagWalk

/-- The loop starts behind the header. -/
def start (pppoe : Nat) : TagWalk := ⟨pppoe + 6, []⟩

def read (w : TagWalk) (accesses : List Access) : TagWalk :=
  { w with reads := w.reads ++ accesses }

end TagWalk

/-- One pass of the loop over the tags: whether it stops, and whether it
does at a tag that it takes for Host-Uniq. -/
def tagPass (e : ByteOrder) (skb : Skb) (pppoe : Nat) (w : TagWalk) : Pass TagWalk (TagWalk × Bool) :=
  -- the type is read before the place is compared
  if skb.ntohs e w.tag = PTT_EOL then .stop (w.read [.field w.tag], false)
  else if w.tag < pppoe + 6 + (skb.ntohs e (pppoe + 4)).toNat then
    let len := (skb.ntohs e (w.tag + 2)).toNat
    if skb.ntohs e w.tag = pttHostUniq e then
      .stop (w.read [.field w.tag, .length, .field (w.tag + 2), .data (w.tag + 4) len], true)
    else
      .next { w.read [.field w.tag, .length, .field (w.tag + 2)] with tag := w.tag + 4 + len }
  else .stop (w.read [.field w.tag, .length], false)

/-- Where the tags end: where the packet says, or where the frame ends. -/
def tagsEnd (skb : Skb) (pppoe : Nat) : Nat :=
  min (pppoe + 6 + (skb.u16 (pppoe + 4)).toNat) (NETWORK_HEADER + skb.len)

/-- An access inside the frame and, but for the length itself, inside the
bytes that the length announces. -/
def Access.Inside (skb : Skb) (pppoe : Nat) : Access → Prop
  | .length => pppoe + 6 ≤ NETWORK_HEADER + skb.len
  | .field off => pppoe + 6 ≤ off ∧ off + 2 ≤ tagsEnd skb pppoe
  | .data off n => pppoe + 6 ≤ off ∧ off + n ≤ tagsEnd skb pppoe

/-- The loop ends, and has made no access but inside. -/
def SafeWalk (e : ByteOrder) (skb : Skb) (pppoe : Nat) : Prop :=
  ∃ n w found, run (tagPass e skb pppoe) n (.start pppoe) = .done (w, found) ∧
    ∀ a ∈ w.reads, a.Inside skb pppoe

/-- The bytes of the tags. -/
def tagBytes (skb : Skb) (pppoe : Nat) : List UInt8 :=
  skb.bytes (pppoe + 6) (tagsEnd skb pppoe - (pppoe + 6))

/-! ## Where the loop goes -/

section

variable {e : ByteOrder} {skb : Skb} {pppoe : Nat}

/-- Where the condition of the loop fails. -/
theorem walk_stop (n : Nat) {w : TagWalk} (hstart : pppoe + 6 ≤ w.tag)
    (hstop : ¬ (skb.u16 w.tag ≠ PTT_EOL ∧ w.tag < pppoe + 6 + (skb.u16 (pppoe + 4)).toNat)) :
    ∃ reads, run (tagPass e skb pppoe) (n + 1) w = .done (w.read reads, false) ∧
      ((∀ a ∈ reads, a.Inside skb pppoe) ↔
        Walkable e (skb.bytes w.tag (tagsEnd skb pppoe - w.tag))) := by
  rw [walkable_bytes_iff]
  by_cases heol : skb.u16 w.tag = PTT_EOL
  · refine ⟨[.field w.tag], run_stop (by simp [tagPass, heol]), ?_⟩
    simp only [List.mem_singleton, forall_eq, Access.Inside, heol, ne_eq, not_true_eq_false,
      false_imp_iff, and_true]
    omega
  · have hlt : ¬ w.tag < pppoe + 6 + (skb.u16 (pppoe + 4)).toNat := fun hlt => hstop ⟨heol, hlt⟩
    have hend : tagsEnd skb pppoe ≤ w.tag := by
      unfold tagsEnd
      omega
    refine ⟨[.field w.tag, .length], run_stop (by simp [tagPass, heol, hlt]), ?_⟩
    simp only [List.mem_cons, forall_eq_or_imp, Access.Inside]
    omega

/-- Where the loop comes to a tag of the type that the host takes for Host-Uniq. -/
theorem walk_hostUniq (n : Nat) {w : TagWalk} (hstart : pppoe + 6 ≤ w.tag)
    (hlt : w.tag < pppoe + 6 + (skb.u16 (pppoe + 4)).toNat)
    (huniq : skb.u16 w.tag = pttHostUniq e) :
    ∃ reads, run (tagPass e skb pppoe) (n + 1) w = .done (w.read reads, true) ∧
      ((∀ a ∈ reads, a.Inside skb pppoe) ↔
        Walkable e (skb.bytes w.tag (tagsEnd skb pppoe - w.tag))) := by
  have hne := pttHostUniq_ne_eol e
  have heol : skb.u16 w.tag ≠ PTT_EOL := huniq ▸ hne
  -- the length is read only where the type was inside
  have hhead : w.tag + 2 ≤ tagsEnd skb pppoe → pppoe + 6 ≤ NETWORK_HEADER + skb.len := by
    unfold tagsEnd
    omega
  have hpass : tagPass e skb pppoe w = .stop (w.read [.field w.tag, .length,
      .field (w.tag + 2), .data (w.tag + 4) (skb.u16 (w.tag + 2)).toNat], true) := by
    simp only [tagPass, Skb.ntohs_eq, if_neg heol, if_pos hlt, if_pos huniq]
  refine ⟨_, run_stop hpass, ?_⟩
  rw [walkable_bytes_iff]
  simp only [List.mem_cons, List.not_mem_nil, or_false, forall_eq_or_imp, forall_eq,
    Access.Inside, huniq, hne, ne_eq, not_false_eq_true, not_true_eq_false, true_imp_iff,
    false_imp_iff, and_true]
  omega

/-- What a tag that is passed over has to do with the tags behind it. -/
theorem walkable_next (tag : Nat) (hstart : pppoe + 6 ≤ tag) (heol : skb.u16 tag ≠ PTT_EOL)
    (huniq : skb.u16 tag ≠ pttHostUniq e) :
    ((∀ a ∈ [.field tag, .length, .field (tag + 2)], Access.Inside skb pppoe a) ∧
        Walkable e (skb.bytes (tag + 4 + (skb.u16 (tag + 2)).toNat)
          (tagsEnd skb pppoe - (tag + 4 + (skb.u16 (tag + 2)).toNat)))) ↔
      Walkable e (skb.bytes tag (tagsEnd skb pppoe - tag)) := by
  have hhead : tag + 2 ≤ tagsEnd skb pppoe → pppoe + 6 ≤ NETWORK_HEADER + skb.len := by
    unfold tagsEnd
    omega
  have hcut : tagsEnd skb pppoe - (tag + 4 + (skb.u16 (tag + 2)).toNat) =
      tagsEnd skb pppoe - tag - (4 + (skb.u16 (tag + 2)).toNat) := by omega
  rw [walkable_bytes_iff e skb tag, hcut]
  simp only [List.mem_cons, List.not_mem_nil, or_false, forall_eq_or_imp, forall_eq,
    Access.Inside, heol, huniq, ne_eq, not_false_eq_true, true_imp_iff]
  constructor
  · rintro ⟨⟨htype, _, hlen⟩, hrest⟩
    have htwo := ((walkable_bytes_iff _ _ _ _).mp hrest).1
    exact ⟨by omega, by omega, hrest⟩
  · rintro ⟨htype, hlen, hrest⟩
    exact ⟨⟨by omega, hhead (by omega), by omega⟩, hrest⟩

/-- From any tag on the loop ends, on a big-endian host where `findHostUniq`
does, and what it reads on the way is inside iff what is there is `Walkable`. -/
theorem walk_from (n : Nat) : ∀ (w : TagWalk),
    pppoe + 6 + (skb.u16 (pppoe + 4)).toNat ≤ w.tag + 4 * n → pppoe + 6 ≤ w.tag →
    ∃ w' found, run (tagPass e skb pppoe) (n + 1) w = .done (w', found) ∧
      (e = .big →
        (w'.tag, found) = findHostUniq skb (pppoe + 6 + (skb.u16 (pppoe + 4)).toNat) n w.tag) ∧
      ∃ reads, w'.reads = w.reads ++ reads ∧ ((∀ a ∈ reads, a.Inside skb pppoe) ↔
        Walkable e (skb.bytes w.tag (tagsEnd skb pppoe - w.tag))) := by
  induction n with
  | zero =>
      intro w hlimit hstart
      obtain ⟨reads, hrun, hinside⟩ := @walk_stop e skb pppoe 0 w hstart (by omega)
      exact ⟨_, _, hrun, fun _ => rfl, reads, rfl, hinside⟩
  | succ n ih =>
      intro w hlimit hstart
      by_cases hgo : skb.u16 w.tag ≠ PTT_EOL ∧ w.tag < pppoe + 6 + (skb.u16 (pppoe + 4)).toNat
      · obtain ⟨heol, hlt⟩ := hgo
        rw [findHostUniq, if_pos ⟨heol, hlt⟩]
        by_cases huniq : skb.u16 w.tag = pttHostUniq e
        · obtain ⟨reads, hrun, hinside⟩ := walk_hostUniq (n + 1) hstart hlt huniq
          refine ⟨_, _, hrun, ?_, reads, rfl, hinside⟩
          rintro rfl
          rw [if_pos (by rwa [pttHostUniq_big] at huniq)]
          rfl
        · have hpass : tagPass e skb pppoe w =
              .next ⟨w.tag + 4 + (skb.u16 (w.tag + 2)).toNat,
                w.reads ++ [.field w.tag, .length, .field (w.tag + 2)]⟩ := by
            simp only [tagPass, Skb.ntohs_eq, if_neg heol, if_pos hlt, if_neg huniq, TagWalk.read]
          obtain ⟨w', found, hrun, hfind, reads, hreads, hinside⟩ :=
            ih ⟨w.tag + 4 + (skb.u16 (w.tag + 2)).toNat,
              w.reads ++ [.field w.tag, .length, .field (w.tag + 2)]⟩ (by dsimp only; omega)
              (by dsimp only; omega)
          refine ⟨w', found, (run_next hpass).trans hrun, ?_,
            [.field w.tag, .length, .field (w.tag + 2)] ++ reads, ?_, ?_⟩
          · rintro rfl
            rw [if_neg (by rwa [pttHostUniq_big] at huniq)]
            exact hfind rfl
          · rw [hreads, List.append_assoc]
          · rw [List.forall_mem_append, hinside]
            exact walkable_next w.tag hstart heol huniq
      · obtain ⟨reads, hrun, hinside⟩ := @walk_stop e skb pppoe (n + 1) w hstart hgo
        exact ⟨_, _, hrun, fun _ => by rw [findHostUniq, if_neg hgo]; rfl, reads, rfl, hinside⟩

/-- The loop ends, for every frame and on every host, on a big-endian one at
the tag that `hostUniqTag` names. -/
theorem tagWalk_ends (e : ByteOrder) (skb : Skb) (pppoe : Nat) :
    ∃ n w found, run (tagPass e skb pppoe) n (.start pppoe) = .done (w, found) ∧
      (e = .big → (w.tag, found) = hostUniqTag skb pppoe) ∧
      ((∀ a ∈ w.reads, a.Inside skb pppoe) ↔ Walkable e (tagBytes skb pppoe)) := by
  obtain ⟨w, found, hrun, hfind, reads, hreads, hinside⟩ :=
    @walk_from e skb pppoe (skb.u16 (pppoe + 4)).toNat (.start pppoe)
      (by simp only [TagWalk.start]; omega) (Nat.le_refl _)
  refine ⟨_, w, found, hrun, hfind, ?_⟩
  rw [hreads]
  exact hinside

/-- The loop is safe iff the announced bytes of the frame are whole tags up
to an end tag or a tag that the host takes for Host-Uniq. -/
theorem safeWalk_iff (e : ByteOrder) (skb : Skb) (pppoe : Nat) :
    SafeWalk e skb pppoe ↔ Walkable e (tagBytes skb pppoe) := by
  obtain ⟨n, w, found, hrun, _, hinside⟩ := tagWalk_ends e skb pppoe
  constructor
  · rintro ⟨n', w', found', hrun', hsafe⟩
    obtain ⟨rfl, _⟩ := Prod.mk.inj (run_done_unique hrun' hrun)
    exact hinside.mp hsafe
  · exact fun hwalk => ⟨n, w, found, hrun, hinside.mpr hwalk⟩

end

/-! ## The two functions -/

/-- The loop of `do_pppoed_in` is safe. It runs on the frame with the
destination that a known session has set. -/
def SafeIn (e : ByteOrder) (jiffies vlan : Nat) (h : Hook) : Prop :=
  SafeWalk e (pppoedSession jiffies (h.skb.load16 e (NETWORK_HEADER + vlan + 2)) h).2.2.skb
    (NETWORK_HEADER + vlan)

/-- The loop of `do_pppoed_out` is safe. It runs for packets without a
session. -/
def SafeOut (e : ByteOrder) (vlan : Nat) (h : Hook) : Prop :=
  h.skb.load16 e (NETWORK_HEADER + vlan + 2) = 0 → SafeWalk e h.skb (NETWORK_HEADER + vlan)

/-- The tags are not touched before the loop. -/
theorem tagBytes_pppoedSession (jiffies vlan : Nat) (sid : UInt16) (h : Hook) :
    tagBytes (pppoedSession jiffies sid h).2.2.skb (NETWORK_HEADER + vlan) =
      tagBytes h.skb (NETWORK_HEADER + vlan) := by
  have hframe : (pppoedSession jiffies sid h).2.2.skb.len = h.skb.len ∧
      ∀ i, NETWORK_HEADER ≤ i → (pppoedSession jiffies sid h).2.2.skb.mem i = h.skb.mem i := by
    unfold pppoedSession Hook.findId
    split
    · split
      · rename_i heq
        obtain ⟨_, rfl⟩ := Prod.mk.inj heq
        refine ⟨rfl, fun i hi => Skb.putMac_outside _ _ (Or.inr ?_)⟩
        simp only [NETWORK_HEADER] at hi
        omega
      · rename_i heq
        obtain ⟨_, rfl⟩ := Prod.mk.inj heq
        exact ⟨rfl, fun _ _ => rfl⟩
    · exact ⟨rfl, fun _ _ => rfl⟩
  obtain ⟨hlen, hmem⟩ := hframe
  have hend : tagsEnd (pppoedSession jiffies sid h).2.2.skb (NETWORK_HEADER + vlan) =
      tagsEnd h.skb (NETWORK_HEADER + vlan) := by
    simp only [tagsEnd, hlen, Skb.u16, hmem _ (show NETWORK_HEADER ≤ NETWORK_HEADER + vlan + 4 by omega),
      hmem _ (show NETWORK_HEADER ≤ NETWORK_HEADER + vlan + 4 + 1 by omega)]
  rw [tagBytes, tagBytes, hend]
  exact Skb.bytes_congr fun i hi _ => hmem i (by omega)

/-- On every host the loops of `do_pppoed_in` and `do_pppoed_out` end and
stay inside the tags of the packet iff these are `Walkable`, whatever the
table, the VLAN tag and the rest of the memory are. -/
theorem tagWalks_safe_iff (e : ByteOrder) (jiffies vlan : Nat) (h : Hook) :
    (SafeIn e jiffies vlan h ↔ Walkable e (tagBytes h.skb (NETWORK_HEADER + vlan))) ∧
    (SafeOut e vlan h ↔ h.skb.u16 (NETWORK_HEADER + vlan + 2) ≠ 0 ∨
      Walkable e (tagBytes h.skb (NETWORK_HEADER + vlan))) := by
  constructor
  · rw [SafeIn, safeWalk_iff, tagBytes_pppoedSession]
  · rw [SafeOut, safeWalk_iff, Skb.load16_eq_zero, imp_iff_not_or]

/-- A PADI whose only tag is an empty Service-Name, as a client sends it
when it asks for any service. -/
def padiAnyService : Skb :=
  frameOf ([0xff, 0xff, 0xff, 0xff, 0xff, 0xff] ++ List.ofFn hostA ++
    [0x88, 0x63, 0x11, 0x09, 0, 0, 0, 4, 1, 1, 0, 0])

/-- The type of a second tag is read behind the frame. -/
theorem tagWalks_unsafe_anyService :
    ¬ SafeIn .big 0 0 ⟨padiAnyService, [], 0, []⟩ ∧ ¬ SafeOut .big 0 ⟨padiAnyService, [], 0, []⟩ := by
  have hbad : ¬ Walkable .big (tagBytes padiAnyService 14) := by
    have hend : tagsEnd padiAnyService 14 = 24 := by decide
    rw [tagBytes, hend, walkable_bytes_iff]
    have htype : padiAnyService.u16 20 = 0x0101 := by decide
    have hlen : padiAnyService.u16 22 = 0 := by decide
    rintro ⟨_, hrest⟩
    obtain ⟨_, hrest⟩ := hrest (by rw [htype]; decide)
    have hwalk := hrest (by rw [htype]; decide)
    rw [walkable_bytes_iff, hlen] at hwalk
    exact absurd hwalk.1 (by decide)
  constructor
  · rw [SafeIn, safeWalk_iff, tagBytes_pppoedSession]
    exact hbad
  · rw [SafeOut, safeWalk_iff]
    exact fun hsafe => hbad (hsafe (by decide))

end UbntSdk.Arpnat
