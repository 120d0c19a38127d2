/-
UbntSdk.Arpnat.HostUniq — the Host-Uniq tag that `do_pppoed_out` adds to a
discovery packet without one.

The packet is well formed (`IsTagged`): whole tags, an end tag or none, all
of it inside the frame. The loop stops at the end tag or behind the last tag
(`hostUniqTag_tagged`), and what is written there are the tag and, if the two
bytes there were 0, an end tag of 4 bytes (`addHostUniq_eq`). Behind a list
without an end tag these two bytes are padding, or nothing of the frame.

The bytes of the tags always come out right; what is not always given is
room. `writtenEnd` is where the last byte is written, `roomEnd` where the
frame ends after `skb_put`, which a frame of more than 1484 bytes does not
get. `hostUniq_added_iff` is the exact condition. `skb_put` itself is taken
to find the room it asks for.
-/
import UbntSdk.Arpnat.Tags

namespace UbntSdk.Arpnat

open UbntSdk.Lib

/-! ## Well-formed packets -/

/-- The bytes of a list of tags. -/
def tagList (ts : List Tag) : List UInt8 := ts.flatMap Tag.bytes

/-- The end tag, if there is one. -/
def endTag (eol : Bool) : List UInt8 := if eol then [0, 0, 0, 0] else []

/-- The length field of the packet at `pppoe`. -/
def tagsLength (skb : Skb) (pppoe : Nat) : Nat := (skb.u16 (pppoe + 4)).toNat

/-- A discovery packet without a session whose tags are `ts`, none of them
Host-Uniq, with an end tag or without. -/
structure IsTagged (skb : Skb) (pppoe : Nat) (ts : List Tag) (eol : Bool) : Prop where
  session : skb.u16 (pppoe + 2) = 0
  plain : ∀ t ∈ ts, t.type ≠ PTT_EOL ∧ t.type ≠ PTT_HOST_UNIQ
  area : skb.bytes (pppoe + 6) (tagsLength skb pppoe) = tagList ts ++ endTag eol
  inside : pppoe + 6 + tagsLength skb pppoe ≤ NETWORK_HEADER + skb.len

/-- The tag for a client. -/
def hostUniqOf (mac : Mac) : Tag := ⟨PTT_HOST_UNIQ, List.ofFn mac, by simp⟩

/-- The loop goes over tags that are neither an end tag nor Host-Uniq. -/
theorem findHostUniq_tagList {skb : Skb} {limit : Nat} (ts : List Tag) :
    ∀ {n tag : Nat}, (∀ t ∈ ts, t.type ≠ PTT_EOL ∧ t.type ≠ PTT_HOST_UNIQ) →
      skb.bytes tag (tagList ts).length = tagList ts → tag + (tagList ts).length ≤ limit →
      limit ≤ tag + 4 * n →
      (skb.u16 (tag + (tagList ts).length) = PTT_EOL ∨ tag + (tagList ts).length = limit) →
      findHostUniq skb limit n tag = (tag + (tagList ts).length, false) := by
  induction ts with
  | nil =>
      intro n tag _ _ _ _ hstop
      simp only [tagList, List.flatMap_nil, List.length_nil, Nat.add_zero] at hstop ⊢
      cases n with
      | zero => rfl
      | succ n =>
          rw [findHostUniq, if_neg]
          rintro ⟨hne, hlt⟩
          rcases hstop with heol | hend
          · exact hne heol
          · omega
  | cons t rest ih =>
      intro n tag hplain hbytes hle hlimit hstop
      have hcons : tagList (t :: rest) = t.bytes ++ tagList rest := List.flatMap_cons
      rw [hcons] at hbytes hle hstop ⊢
      simp only [List.length_append, Tag.bytes_length] at hbytes hle hstop ⊢
      obtain ⟨_, htag, hrest⟩ := Skb.bytes_eq_append.mp hbytes
      rw [Tag.bytes_length] at htag hrest
      obtain ⟨htype, hlength, _⟩ := bytes_eq_tag.mp htag
      obtain ⟨heol, huniq⟩ := hplain t List.mem_cons_self
      cases n with
      | zero => omega
      | succ n =>
          rw [findHostUniq, if_pos ⟨htype ▸ heol, by omega⟩, if_neg (htype ▸ huniq), hlength,
            Nat.add_assoc, ih (fun x hx => hplain x (List.mem_cons_of_mem _ hx)) ?_ (by omega)
              (by omega) ?_]
          · rw [Nat.add_assoc]
          · rw [show 4 + t.data.length + (tagList rest).length - (4 + t.data.length) =
              (tagList rest).length by omega] at hrest
            exact hrest
          · rw [Nat.add_assoc]
            exact hstop

section

variable {skb : Skb} {pppoe : Nat} {ts : List Tag} {eol : Bool}

theorem IsTagged.length_eq (h : IsTagged skb pppoe ts eol) :
    tagsLength skb pppoe = (tagList ts).length + (endTag eol).length := by
  have hlen := congrArg List.length h.area
  simpa using hlen

/-- The loop stops behind the tags: at the end tag if there is one. -/
theorem hostUniqTag_tagged (h : IsTagged skb pppoe ts eol) :
    hostUniqTag skb pppoe = (pppoe + 6 + (tagList ts).length, false) ∧
      (eol = true → skb.u16 (pppoe + 6 + (tagList ts).length) = PTT_EOL) := by
  have hlength := h.length_eq
  obtain ⟨_, hlist, hend⟩ := Skb.bytes_eq_append.mp h.area
  have heol : eol = true → skb.u16 (pppoe + 6 + (tagList ts).length) = PTT_EOL := by
    rintro rfl
    rw [hlength, Nat.add_sub_cancel_left] at hend
    have hfour : skb.bytes (pppoe + 6 + (tagList ts).length) 4 = word16 .big PTT_EOL ++ [0, 0] := hend
    exact Skb.u16_eq_iff.mpr (Skb.bytes_eq_append.mp hfour).2.1
  refine ⟨?_, heol⟩
  unfold hostUniqTag
  refine findHostUniq_tagList ts h.plain hlist ?_ (by omega) ?_
  · change _ ≤ pppoe + 6 + tagsLength skb pppoe
    omega
  · cases eol with
    | true => exact Or.inl (heol rfl)
    | false =>
        right
        change _ = pppoe + 6 + tagsLength skb pppoe
        simp only [endTag, Bool.false_eq_true, if_false, List.length_nil] at hlength
        omega

end

/-! ## What is written -/

/-- `addHostUniq` with the places it writes. -/
def tracedHostUniq (pppoe tag : Nat) (skb : Skb) : Traced :=
  let hasPttEol : Bool := skb.u16 tag = PTT_EOL
  let smac := skb.mac 6
  let t := Traced.start (if skb.len ≤ 1484 then { skb with len := skb.len + 10 } else skb)
  let t := t.put16 tag PTT_HOST_UNIQ
  let t := t.put16 (tag + 2) 6
  let t := t.putMac (tag + 4) smac
  let t := if hasPttEol then t.put (tag + 10) [0, 0, 0, 0] else t
  t.put16 (pppoe + 4) (t.skb.u16 (pppoe + 4) + 10)

theorem tracedHostUniq_skb (pppoe tag : Nat) (skb : Skb) :
    (tracedHostUniq pppoe tag skb).skb = addHostUniq pppoe tag skb := by
  unfold tracedHostUniq addHostUniq
  cases decide (skb.u16 tag = PTT_EOL) <;> rfl

theorem tracedHostUniq_writes (pppoe tag : Nat) (skb : Skb) :
    (tracedHostUniq pppoe tag skb).writes = [(tag, 2), (tag + 2, 2), (tag + 4, 6)] ++
      (if skb.u16 tag = PTT_EOL then [(tag + 10, 4)] else []) ++ [(pppoe + 4, 2)] := by
  unfold tracedHostUniq
  by_cases heol : skb.u16 tag = PTT_EOL
  · simp [heol, Traced.put16, Traced.putMac, Traced.put, Traced.start]
  · simp [heol, Traced.put16, Traced.putMac, Traced.put, Traced.start]

/-- The places that `do_pppoed_out` writes in a frame. -/
def pppoedOutWrites (vlan : Nat) (skb : Skb) : List (Nat × Nat) :=
  let pppoe := NETWORK_HEADER + vlan
  if skb.u16 (pppoe + 2) ≠ 0 then []
  else
    let (tag, isHostUniq) := hostUniqTag skb pppoe
    if isHostUniq then [] else (tracedHostUniq pppoe tag skb).writes

/-- The three stores of the tag are one. -/
theorem put_hostUniqOf (skb : Skb) (tag : Nat) (mac : Mac) :
    ((skb.put16 tag PTT_HOST_UNIQ).put16 (tag + 2) 6).putMac (tag + 4) mac =
      skb.put tag (hostUniqOf mac).bytes := by
  have hsix : UInt16.ofNat (hostUniqOf mac).data.length = 6 := by simp [hostUniqOf]
  rw [Tag.bytes, hsix, Skb.put_append, Skb.put_append, Skb.put16_eq, Skb.put16_eq, Skb.putMac]
  simp only [word16_length, List.length_append]
  rfl

/-- What is written, as a tag with or without an end tag, and the length. -/
theorem addHostUniq_eq (pppoe tag : Nat) (skb : Skb) (htag : pppoe + 6 ≤ tag) :
    ∃ grown : Skb, grown.mem = skb.mem ∧
      grown.len = (if skb.len ≤ 1484 then skb.len + 10 else skb.len) ∧
      addHostUniq pppoe tag skb =
        (grown.put tag ((hostUniqOf (skb.mac 6)).bytes ++ endTag (skb.u16 tag = PTT_EOL))).put
          (pppoe + 4) (word16 .big (skb.u16 (pppoe + 4) + 10)) := by
  refine ⟨if skb.len ≤ 1484 then { skb with len := skb.len + 10 } else skb, ?_, ?_, ?_⟩
  · split <;> rfl
  · split <;> rfl
  · have hmem : (if skb.len ≤ 1484 then { skb with len := skb.len + 10 } else skb).mem = skb.mem := by
      split <;> rfl
    unfold addHostUniq
    dsimp only
    generalize (if skb.len ≤ 1484 then { skb with len := skb.len + 10 } else skb) = grown at hmem ⊢
    have hten : tag + (hostUniqOf (skb.mac 6)).bytes.length = tag + 10 := by
      simp [hostUniqOf]
    have htail : (if decide (skb.u16 tag = PTT_EOL) = true then
        (grown.put tag (hostUniqOf (skb.mac 6)).bytes).put (tag + 10) [0, 0, 0, 0]
        else grown.put tag (hostUniqOf (skb.mac 6)).bytes) =
        grown.put tag ((hostUniqOf (skb.mac 6)).bytes ++ endTag (skb.u16 tag = PTT_EOL)) := by
      cases decide (skb.u16 tag = PTT_EOL) with
      | true => rw [if_pos rfl, Skb.put_append, hten, endTag, if_pos rfl]
      | false => rw [if_neg Bool.false_ne_true, endTag, if_neg Bool.false_ne_true, List.append_nil]
    have hlength : grown.u16 (pppoe + 4) = skb.u16 (pppoe + 4) := by
      rw [Skb.u16, Skb.u16, hmem]
    rw [put_hostUniqOf, htail, Skb.put16_eq, Skb.u16_put_outside _ _ (by omega), hlength]

/-! ## The result -/

/-- What the insertion is for: in the frame `skb'` the announced bytes are
the tags, the tag of the client and the end tag, the length has grown by the
tag, and what was written is inside. -/
structure HostUniqAdded (skb : Skb) (pppoe : Nat) (ts : List Tag) (eol : Bool) (skb' : Skb)
    (writes : List (Nat × Nat)) : Prop where
  area : skb'.bytes (pppoe + 6) (tagsLength skb' pppoe) =
    tagList ts ++ (hostUniqOf (skb.mac 6)).bytes ++ endTag eol
  length : tagsLength skb' pppoe = tagsLength skb pppoe + (hostUniqOf (skb.mac 6)).bytes.length
  inside : Inside skb' writes

/-- Where the last byte is written. -/
def writtenEnd (skb : Skb) (pppoe : Nat) (eol : Bool) : Nat :=
  let areaEnd := pppoe + 6 + tagsLength skb pppoe
  if eol = false ∧ skb.u16 areaEnd = 0 then areaEnd + 14 else areaEnd + 10

/-- Where the frame ends when it has got its room. -/
def roomEnd (skb : Skb) : Nat :=
  NETWORK_HEADER + if skb.len ≤ 1484 then skb.len + 10 else skb.len

section

variable {skb : Skb} {pppoe : Nat} {ts : List Tag} {eol : Bool}

theorem hostUniqOf_length (mac : Mac) : (hostUniqOf mac).bytes.length = 10 := by
  simp [hostUniqOf]

/-- The end tag of the packet is written again. -/
theorem endTag_split (h : IsTagged skb pppoe ts eol) :
    ∃ rest, endTag (skb.u16 (pppoe + 6 + (tagList ts).length) = PTT_EOL) = endTag eol ++ rest := by
  cases eol with
  | true =>
      have heol := (hostUniqTag_tagged h).2 rfl
      exact ⟨[], by rw [heol]; rfl⟩
  | false => exact ⟨_, rfl⟩

/-- The length field afterwards. -/
theorem tagsLength_addHostUniq {tag : Nat} (htag : pppoe + 6 ≤ tag) :
    tagsLength (addHostUniq pppoe tag skb) pppoe = (tagsLength skb pppoe + 10) % 65536 := by
  obtain ⟨grown, _, _, heq⟩ := addHostUniq_eq pppoe tag skb htag
  have hfield : (addHostUniq pppoe tag skb).u16 (pppoe + 4) = skb.u16 (pppoe + 4) + 10 := by
    rw [heq, Skb.u16_eq_iff]
    exact Skb.bytes_put _ _ _
  rw [tagsLength, hfield, UInt16.toNat_add]
  rfl

/-- The tags afterwards. -/
theorem bytes_addHostUniq (h : IsTagged skb pppoe ts eol) :
    (addHostUniq pppoe (pppoe + 6 + (tagList ts).length) skb).bytes (pppoe + 6)
        (tagsLength skb pppoe + 10) =
      tagList ts ++ (hostUniqOf (skb.mac 6)).bytes ++ endTag eol := by
  obtain ⟨grown, hmem, _, heq⟩ :=
    addHostUniq_eq pppoe (pppoe + 6 + (tagList ts).length) skb (by omega)
  obtain ⟨rest, hrest⟩ := endTag_split h
  obtain ⟨_, hlist, _⟩ := Skb.bytes_eq_append.mp h.area
  have hlen : tagsLength skb pppoe + 10 = (tagList ts).length +
      ((hostUniqOf (skb.mac 6)).bytes ++ endTag eol).length := by
    rw [h.length_eq, List.length_append, hostUniqOf_length]
    omega
  have hold : ∀ bs, (grown.put (pppoe + 6 + (tagList ts).length) bs).bytes (pppoe + 6)
      (tagList ts).length = tagList ts := by
    intro bs
    rw [Skb.bytes_put_outside _ _ (by omega), Skb.bytes, hmem]
    exact hlist
  have hnew := Skb.bytes_put grown (pppoe + 6 + (tagList ts).length)
    (((hostUniqOf (skb.mac 6)).bytes ++ endTag eol) ++ rest)
  rw [heq, Skb.bytes_put_outside _ _ (by rw [word16_length]; omega), hrest, ← List.append_assoc,
    hlen, Skb.bytes_add, hold, (Skb.bytes_eq_append.mp hnew).2.1, List.append_assoc]

/-- Where it was written. -/
theorem inside_addHostUniq_iff (h : IsTagged skb pppoe ts eol) :
    Inside (addHostUniq pppoe (pppoe + 6 + (tagList ts).length) skb)
        (tracedHostUniq pppoe (pppoe + 6 + (tagList ts).length) skb).writes ↔
      writtenEnd skb pppoe eol ≤ roomEnd skb := by
  have hlength := h.length_eq
  have hinside := h.inside
  obtain ⟨grown, _, hgrown, heq⟩ :=
    addHostUniq_eq pppoe (pppoe + 6 + (tagList ts).length) skb (by omega)
  have hroom : NETWORK_HEADER + (addHostUniq pppoe (pppoe + 6 + (tagList ts).length) skb).len =
      roomEnd skb := by
    rw [heq, roomEnd, ← hgrown, Skb.put_len, Skb.put_len]
  have hgrows : NETWORK_HEADER + skb.len ≤ roomEnd skb := by
    unfold roomEnd
    split <;> omega
  rw [Inside, hroom, tracedHostUniq_writes, writtenEnd]
  cases eol with
  | true =>
      have heol := (hostUniqTag_tagged h).2 rfl
      simp only [endTag, if_true, List.length_cons, List.length_nil] at hlength
      simp only [heol, if_true, Bool.true_eq_false, false_and, if_false, List.cons_append,
        List.nil_append, List.mem_cons, List.not_mem_nil, or_false, forall_eq_or_imp, forall_eq]
      omega
  | false =>
      simp only [endTag, Bool.false_eq_true, if_false, List.length_nil, Nat.add_zero] at hlength
      rw [hlength]
      by_cases heol : skb.u16 (pppoe + 6 + (tagList ts).length) = PTT_EOL
      · simp only [heol, PTT_EOL, if_true, and_self, List.cons_append,
          List.nil_append, List.mem_cons, List.not_mem_nil, or_false, forall_eq_or_imp, forall_eq]
        omega
      · have hne : ¬ skb.u16 (pppoe + 6 + (tagList ts).length) = 0 := heol
        simp only [heol, hne, and_false, if_false, List.append_nil, List.cons_append,
          List.nil_append, List.mem_cons, List.not_mem_nil, or_false, forall_eq_or_imp, forall_eq]
        omega

theorem addHostUniq_added_iff (h : IsTagged skb pppoe ts eol) :
    HostUniqAdded skb pppoe ts eol (addHostUniq pppoe (pppoe + 6 + (tagList ts).length) skb)
        (tracedHostUniq pppoe (pppoe + 6 + (tagList ts).length) skb).writes ↔
      tagsLength skb pppoe + 10 < 65536 ∧ writtenEnd skb pppoe eol ≤ roomEnd skb := by
  have hfield := @tagsLength_addHostUniq skb pppoe (pppoe + 6 + (tagList ts).length) (by omega)
  have hinside := inside_addHostUniq_iff h
  constructor
  · rintro ⟨_, hlength, hwrites⟩
    rw [hfield, hostUniqOf_length] at hlength
    exact ⟨by omega, hinside.mp hwrites⟩
  · rintro ⟨hfits, hroom⟩
    rw [Nat.mod_eq_of_lt hfits] at hfield
    refine ⟨?_, ?_, hinside.mpr hroom⟩
    · rw [hfield]
      exact bytes_addHostUniq h
    · rw [hfield, hostUniqOf_length]

end

/-- The packet has the client's tag behind its own, and nothing was written
behind the frame, iff the length can grow and the last byte written is in
the room that the frame has got. -/
theorem hostUniq_added_iff (env : Env) (jiffies vlan : Nat) (h : Hook) (ts : List Tag) (eol : Bool)
    (htagged : IsTagged h.skb (NETWORK_HEADER + vlan) ts eol) :
    HostUniqAdded h.skb (NETWORK_HEADER + vlan) ts eol (doPppoedOut env jiffies vlan h).2.skb
        (pppoedOutWrites vlan h.skb) ↔
      tagsLength h.skb (NETWORK_HEADER + vlan) + 10 < 65536 ∧
        writtenEnd h.skb (NETWORK_HEADER + vlan) eol ≤ roomEnd h.skb := by
  obtain ⟨htag, _⟩ := hostUniqTag_tagged htagged
  have hsid : ¬ h.skb.u16 (NETWORK_HEADER + vlan + 2) ≠ 0 := fun hne => hne htagged.session
  have hskb : (doPppoedOut env jiffies vlan h).2.skb =
      addHostUniq (NETWORK_HEADER + vlan) (NETWORK_HEADER + vlan + 6 + (tagList ts).length) h.skb := by
    simp only [doPppoedOut, if_neg hsid, htag]
    rfl
  have hwrites : pppoedOutWrites vlan h.skb = (tracedHostUniq (NETWORK_HEADER + vlan)
      (NETWORK_HEADER + vlan + 6 + (tagList ts).length) h.skb).writes := by
    simp only [pppoedOutWrites, if_neg hsid, htag]
    rfl
  rw [hskb, hwrites]
  exact addHostUniq_added_iff htagged

/-- The tag of a client that asks for any service. -/
def anyService : Tag := ⟨0x0101, [], by decide⟩

/-- The same request with an end tag. -/
def padiEnded : Skb :=
  frameOf ([0xff, 0xff, 0xff, 0xff, 0xff, 0xff] ++ List.ofFn hostA ++
    [0x88, 0x63, 0x11, 0x09, 0, 0, 0, 8, 1, 1, 0, 0, 0, 0, 0, 0])

theorem isTagged_padiEnded : IsTagged padiEnded 14 [anyService] true :=
  ⟨by decide, by decide, by decide, by decide⟩

/-- Before an end tag there is room. -/
theorem hostUniq_added_ended :
    HostUniqAdded padiEnded 14 [anyService] true
      (doPppoedOut plainEnv 0 0 ⟨padiEnded, [], 0, []⟩).2.skb (pppoedOutWrites 0 padiEnded) :=
  (hostUniq_added_iff plainEnv 0 0 ⟨padiEnded, [], 0, []⟩ [anyService] true isTagged_padiEnded).mpr
    ⟨by decide, by decide⟩

/-- Without an end tag and without padding an end tag is written behind the
frame when the memory there is 0. -/
theorem hostUniq_outside_anyService :
    IsTagged padiAnyService 14 [anyService] false ∧
    ¬ HostUniqAdded padiAnyService 14 [anyService] false
      (doPppoedOut plainEnv 0 0 ⟨padiAnyService, [], 0, []⟩).2.skb
      (pppoedOutWrites 0 padiAnyService) := by
  refine ⟨⟨by decide, by decide, by decide, by decide⟩, fun hadded => ?_⟩
  have hwritten : (34, 4) ∈ pppoedOutWrites 0 padiAnyService := by decide
  have hlen : (doPppoedOut plainEnv 0 0 ⟨padiAnyService, [], 0, []⟩).2.skb.len = 20 := by decide
  have hinside := hadded.inside _ hwritten
  rw [hlen] at hinside
  exact absurd hinside (by decide)

end UbntSdk.Arpnat
