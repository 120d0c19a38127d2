/-
UbntSdk.Arpnat.Discovery — PPPoE discovery through the ARPNAT bridge:
requests (PADI, PADR) that leave and replies (PADO, PADS) that come in.

The bridge keeps a request apart from the others by a temporary id, the
CRC-16 of its Host-Uniq tag, and the temporary ids stand in the same table
as the ids of the sessions. `Talk` is a run of requests and replies; beside
the table it notes who sent a Host-Uniq value last (`asked`) and when the
record of a temporary id expires (`expiry`).

The invariant is `Apart`: an id that is alive belongs to one MAC. Replies
always keep it; a request keeps it iff its temporary id is not another
host's (`Clear`). While it holds, every lookup of an id answers for the
host that has it, and `replies_reach` follows by induction over the run.
-/
import UbntSdk.Arpnat.OwnerTheorems

namespace UbntSdk.Arpnat

open UbntSdk.Lib

/-! ## Who has an id -/

/-- Whoever has an unexpired record of the id is `m`. -/
def Held (now : Nat) (id : UInt16) (m : Mac) (t : ArpnatTable) : Prop :=
  ∀ e ∈ t, ∀ r ∈ e.data, r.pppoeId = id → now ≤ r.expires → e.mac = m

/-- `m` has a record of the id that is not gone before `expires`. -/
def HasId (m : Mac) (id : UInt16) (expires : Nat) (t : ArpnatTable) : Prop :=
  ∃ e ∈ t, e.mac = m ∧ ∃ r ∈ e.data, r.pppoeId = id ∧ expires ≤ r.expires

/-- No id is alive for two MACs. -/
def Apart (now : Nat) (t : ArpnatTable) : Prop := ∀ id, id ≠ 0 → ∃ m, Held now id m t

section

variable {now expires : Nat} {id id' : UInt16} {m mac : Mac} {t t' : ArpnatTable}

theorem Held.later {now' : Nat} (h : Held now id m t) (hle : now ≤ now') : Held now' id m t :=
  fun e he r hr hid hlive => h e he r hr hid (Nat.le_trans hle hlive)

theorem Apart.later {now' : Nat} (h : Apart now t) (hle : now ≤ now') : Apart now' t :=
  fun id h0 => (h id h0).imp fun _ hheld => hheld.later hle

theorem HasId.mac_eq (h : HasId m id expires t) (hle : now ≤ expires) (hheld : Held now id mac t) :
    m = mac := by
  obtain ⟨e, he, rfl, r, hr, hid, hexp⟩ := h
  exact hheld e he r hr hid (Nat.le_trans hle hexp)

/-- In a table where nobody else has the id, the one who has it is found. -/
theorem Apart.held (h : Apart now t) (h0 : id ≠ 0) (hhas : HasId m id expires t)
    (hle : now ≤ expires) : Held now id m t := by
  obtain ⟨mac, hheld⟩ := h id h0
  rw [hhas.mac_eq hle hheld]
  exact hheld

/-- The record that a change about a session is about. -/
theorem concerns_id {r : ArpnatData} (h : Concerns 0 id r) : r.pppoeId = id := by
  rcases h with ⟨h0, _⟩ | ⟨_, _, hid⟩
  · exact absurd rfl h0
  · exact hid

theorem Held.change (h : Held now id m t) (hmac : id' = id → mac = m)
    (hchange : Change now mac 0 id' t t') : Held now id m t' := by
  cases hchange with
  | prune hpruned =>
      intro e' he' r hr
      obtain ⟨e, he, hee⟩ := hpruned.mem_after he'
      obtain ⟨r', hr', rfl⟩ := hee.2.mem_after hr
      rw [hee.1]
      exact h e he r' hr'
  | @refresh before after older newer r exp hr hexp =>
      have hplace := h ⟨mac, older ++ r :: newer⟩ (by simp)
      intro e he x hx hid hlive
      simp only [List.mem_append, List.mem_cons] at he
      rcases he with he | rfl | he
      · exact h e (by simp [he]) x hx hid hlive
      · simp only [List.mem_append, List.mem_cons] at hx
        rcases hx with hx | rfl | hx
        · exact hplace x (by simp [hx]) hid hlive
        · exact hmac ((concerns_id hr).symm.trans hid)
        · exact hplace x (by simp [hx]) hid hlive
      · exact h e (by simp [he]) x hx hid hlive
  | @record before after data exp hnew hexp =>
      have hplace := h ⟨mac, data⟩ (by simp)
      intro e he x hx hid hlive
      simp only [List.mem_append, List.mem_cons] at he
      rcases he with he | rfl | he
      · exact h e (by simp [he]) x hx hid hlive
      · rcases List.mem_cons.mp hx with rfl | hx
        · exact hmac hid
        · exact hplace x hx hid hlive
      · exact h e (by simp [he]) x hx hid hlive
  | entry hnew =>
      intro e he x hx
      rcases List.mem_cons.mp he with rfl | he
      · cases hx
      · exact h e he x hx

theorem Held.changes (h : Held now id m t) (hmac : id' = id → mac = m)
    (hchanges : Changes now mac 0 id' t t') : Held now id m t' := by
  induction hchanges with
  | refl => exact h
  | tail _ hchange ih => exact ih.change hmac hchange

theorem HasId.change (h : HasId m id expires t) (hle : now ≤ expires)
    (hother : ¬ (mac = m ∧ id' = id)) (hchange : Change now mac 0 id' t t') :
    HasId m id expires t' := by
  obtain ⟨e, he, hm, r, hr, hid, hexp⟩ := h
  have hlive : r.Live now := live_iff.mpr (Nat.le_trans hle hexp)
  cases hchange with
  | prune hpruned =>
      rcases hpruned.mem_before he with hgone | ⟨e', he', hee⟩
      · exact absurd hlive (hgone r hr)
      · exact ⟨e', he', hee.1.trans hm, r, (hee.2.mem_iff hlive).mpr hr, hid, hexp⟩
  | @refresh before after older newer x exp' hx hexp' =>
      simp only [List.mem_append, List.mem_cons] at he
      rcases he with he | rfl | he
      · exact ⟨e, by simp [he], hm, r, hr, hid, hexp⟩
      · refine ⟨_, List.mem_append_right _ List.mem_cons_self, hm, r, ?_, hid, hexp⟩
        simp only [List.mem_append, List.mem_cons] at hr ⊢
        rcases hr with hr | rfl | hr
        · exact Or.inl hr
        · exact absurd ⟨hm, (concerns_id hx).symm.trans hid⟩ hother
        · exact Or.inr (Or.inr hr)
      · exact ⟨e, by simp [he], hm, r, hr, hid, hexp⟩
  | @record before after data exp' hnew hexp' =>
      simp only [List.mem_append, List.mem_cons] at he
      rcases he with he | rfl | he
      · exact ⟨e, by simp [he], hm, r, hr, hid, hexp⟩
      · exact ⟨_, List.mem_append_right _ List.mem_cons_self, hm, r, List.mem_cons_of_mem _ hr, hid,
          hexp⟩
      · exact ⟨e, by simp [he], hm, r, hr, hid, hexp⟩
  | entry hnew => exact ⟨e, List.mem_cons_of_mem _ he, hm, r, hr, hid, hexp⟩

theorem HasId.changes (h : HasId m id expires t) (hle : now ≤ expires)
    (hother : ¬ (mac = m ∧ id' = id)) (hchanges : Changes now mac 0 id' t t') :
    HasId m id expires t' := by
  induction hchanges with
  | refl => exact h
  | tail _ hchange ih => exact ih.change hle hother hchange

/-- Learning an id for its holder keeps ids apart. -/
theorem Apart.changes (h : Apart now t) (hheld : Held now id' mac t)
    (hchanges : Changes now mac 0 id' t t') : Apart now t' := by
  intro id hid
  by_cases heq : id' = id
  · subst heq
    exact ⟨mac, hheld.changes (fun _ => rfl) hchanges⟩
  · obtain ⟨m, hm⟩ := h id hid
    exact ⟨m, hm.changes (fun h => absurd h heq) hchanges⟩

theorem Apart.pruned (h : Apart now t) (hpruned : TablePruned now t t') : Apart now t' := by
  intro id hid
  obtain ⟨m, hm⟩ := h id hid
  exact ⟨m, @Held.change now id id m m t t' hm (fun _ => rfl) (.prune hpruned)⟩

theorem Held.pruned (h : Held now id m t) (hpruned : TablePruned now t t') : Held now id m t' :=
  @Held.change now id id m m t t' h (fun _ => rfl) (.prune hpruned)

theorem HasId.pruned (h : HasId m id expires t) (hle : now ≤ expires)
    (hpruned : TablePruned now t t') : HasId m id expires t' := by
  by_cases h0 : id = 0
  · exact @HasId.change now expires id 1 m m t t' h hle (by simp [h0]) (.prune hpruned)
  · exact @HasId.change now expires id 0 m m t t' h hle (fun h => h0 h.2.symm) (.prune hpruned)

/-! ## Lookups and learning -/

theorem findPppoeNat_pruned (now : Nat) (id : UInt16) (t : ArpnatTable) :
    TablePruned now t (findPppoeNat now id t).toList :=
  findNat_pruned (mac2ipFindPppoeid_finds id) t

theorem findPppoeNat_holds {e : Mac2ip} (hfind : (findPppoeNat now id t).node? = some e) :
    id ≠ 0 ∧ HasId e.mac id now t := by
  unfold findPppoeNat at hfind
  cases hw : findNat (fun tpos => mac2ipFindPppoeid now tpos id) t with
  | miss t' =>
      rw [hw] at hfind
      cases hfind
  | hit before x after =>
      rw [hw] at hfind
      cases hfind
      obtain ⟨pre, y, rfl, _, ⟨r, hr, ⟨h0, hid⟩, hlive⟩, hentry, _⟩ :=
        findNat_hit (mac2ipFindPppoeid_finds id) hw
      exact ⟨h0, y, by simp, hentry.1.symm, r, hr, hid, live_iff.mp hlive⟩

/-- The holder of an id is found. -/
theorem findPppoeNat_of_hasId (h0 : id ≠ 0) (hhas : HasId m id expires t) (hle : now ≤ expires)
    (hheld : Held now id m t) : ∃ e, (findPppoeNat now id t).node? = some e ∧ e.mac = m := by
  obtain ⟨e, he, hm, r, hr, hid, hexp⟩ := hhas
  have hlive : LiveIn now (ArpnatData.IsId id) e :=
    ⟨r, hr, ⟨h0, hid⟩, live_iff.mpr (Nat.le_trans hle hexp)⟩
  have hsome := (findNat_isSome (mac2ipFindPppoeid_finds id) t).mpr ⟨e, he, hlive⟩
  obtain ⟨f, hf⟩ := Option.isSome_iff_exists.mp hsome
  exact ⟨f, hf, (findPppoeNat_holds hf).2.mac_eq (Nat.le_refl _) hheld⟩

/-- How long a record lives after `update_pppoe_nat`. -/
def lifetimeFor (clock : Clock) (flags : UInt8) : Nat :=
  if flags ≠ 0 then (if flags &&& PPPOE_REMOVE ≠ 0 then 1 else 5) * clock.hz else clock.lifetime

theorem setExpires_hasId {clock : Clock} {seconds : Nat} {e : Mac2ip}
    (hlive : LiveIn now (ArpnatData.IsId id) e) :
    (setExpires clock now id seconds e).mac = e.mac ∧
    ∃ r ∈ (setExpires clock now id seconds e).data,
      r.pppoeId = id ∧ r.expires = now + seconds * clock.hz := by
  have hfinds := @mac2ipFindPppoeid_finds now id
  unfold setExpires
  split
  · rename_i older r newer hfound
    obtain ⟨⟨_, hid⟩, _, _⟩ := hfinds.hit hfound
    exact ⟨rfl, { r with expires := now + seconds * clock.hz }, by simp, hid, rfl⟩
  · rename_i data hfound
    obtain ⟨hnone, hpruned⟩ := hfinds.miss hfound
    obtain ⟨r, hr, his, halive⟩ := hlive
    exact absurd ⟨his, halive⟩ (hnone r ((hpruned.mem_iff halive).mpr hr))

/-- `update_pppoe_nat` leaves a record of the id for the MAC. -/
theorem updatePppoeNat_hasId (clock : Clock) (mac : Mac) (flags : UInt8) (t : ArpnatTable)
    (h0 : id ≠ 0) :
    HasId mac id (now + lifetimeFor clock flags)
      (updatePppoeNat clock now mac id flags t).toList := by
  obtain ⟨before, entry, after, hget, hcases⟩ :=
    @updateNat_cases now 0 id clock mac t (by simp [h0])
  obtain ⟨hmac, _, _⟩ := @getEntry_spec now mac 0 id t _ _ _ hget
  have hhit : ∃ e, e.mac = mac ∧ updateNat clock now mac 0 id t = .hit before e after ∧
      ∃ r ∈ e.data, r.pppoeId = id ∧ r.expires = now + clock.lifetime := by
    rcases hcases with ⟨older, r, newer, _, hr, heq⟩ | ⟨data, _, _, heq⟩
    · refine ⟨_, ?_, heq, _, List.mem_append_right _ List.mem_cons_self, concerns_id hr, rfl⟩
      exact hmac
    · refine ⟨_, ?_, heq, _, List.mem_cons_self, rfl, rfl⟩
      exact hmac
  obtain ⟨e, rfl, heq, r, hr, hid, hexp⟩ := hhit
  have hlive : LiveIn now (ArpnatData.IsId id) e :=
    ⟨r, hr, ⟨h0, hid⟩, live_iff.mpr (by omega)⟩
  simp only [updatePppoeNat, heq, lifetimeFor]
  split
  · obtain ⟨hm, x, hx, hxid, hxexp⟩ :=
      @setExpires_hasId now id clock (if flags &&& PPPOE_REMOVE ≠ 0 then 1 else 5) e hlive
    exact ⟨_, by simp [Walk.toList], hm, x, hx, hxid, by omega⟩
  · exact ⟨e, by simp [Walk.toList], rfl, r, hr, hid, by omega⟩

end

/-! ## Discovery packets -/

def PADI_CODE : UInt8 := 0x09
def PADO_CODE : UInt8 := 0x07
def PADR_CODE : UInt8 := 0x19
def PADS_CODE : UInt8 := 0x65

/-- The data of the Host-Uniq tag of the packet at `pppoe`. -/
def hostUniq (skb : Skb) (pppoe : Nat) : Option (List UInt8) :=
  let (tag, isHostUniq) := hostUniqTag skb pppoe
  if isHostUniq then some (skb.bytes (tag + 4) (skb.u16 (tag + 2)).toNat) else none

namespace Event

def pppoe (ev : Event) : Nat := NETWORK_HEADER + (etherProto ev.skb).2

def sid (ev : Event) : UInt16 := ev.skb.u16 (ev.pppoe + 2)

def code (ev : Event) : UInt8 := ev.skb.mem (ev.pppoe + 1)

/-- The sender of a frame that leaves. -/
def client (ev : Event) : Mac := ev.skb.mac 6

/-- The Host-Uniq value of the packet. -/
def tag (ev : Event) : Option (List UInt8) := hostUniq ev.skb ev.pppoe

/-- The Host-Uniq value that a request leaves with: the client's, or the one
`do_pppoed_out` adds. -/
def uniq (ev : Event) : List UInt8 := ev.tag.getD (List.ofFn ev.client)

def IsDiscovery (ev : Event) : Prop :=
  (etherProto ev.skb).1 = ETH_P_PPP_DISC ∧ ev.env.pppoenat ≠ 0

/-- A PADI or PADR leaves. -/
def IsRequest (ev : Event) : Prop :=
  ev.inbound = false ∧ ev.IsDiscovery ∧ ev.sid = 0 ∧ (ev.code = PADI_CODE ∨ ev.code = PADR_CODE)

/-- A PADO or PADS comes in. -/
def IsReply (ev : Event) : Prop :=
  ev.inbound = true ∧ ev.IsDiscovery ∧ (ev.code = PADO_CODE ∨ ev.code = PADS_CODE)

end Event

theorem discoveryFlags_of_ne {skb : Skb} {pppoe : Nat} {flags : UInt8}
    (hcode : skb.mem (pppoe + 1) ≠ PADT_CODE) : discoveryFlags skb pppoe flags = flags := by
  simp [discoveryFlags, hcode]

theorem Event.IsRequest.code_ne {ev : Event} (h : ev.IsRequest) :
    ev.skb.mem (ev.pppoe + 1) ≠ PADT_CODE := by
  rcases h.2.2.2 with hcode | hcode
  · rw [show ev.skb.mem (ev.pppoe + 1) = _ from hcode]
    decide
  · rw [show ev.skb.mem (ev.pppoe + 1) = _ from hcode]
    decide

theorem Event.IsReply.code_ne {ev : Event} (h : ev.IsReply) :
    ev.skb.mem (ev.pppoe + 1) ≠ PADT_CODE := by
  rcases h.2.2 with hcode | hcode
  · rw [show ev.skb.mem (ev.pppoe + 1) = _ from hcode]
    decide
  · rw [show ev.skb.mem (ev.pppoe + 1) = _ from hcode]
    decide

section

variable {env : Env} {now vlan : Nat} {h : Hook}

/-- What a packet without a session teaches when it leaves. -/
theorem doPppoedOut_request (hsid : h.skb.u16 (NETWORK_HEADER + vlan + 2) = 0)
    (hcode : h.skb.mem (NETWORK_HEADER + vlan + 1) ≠ PADT_CODE) :
    (doPppoedOut env now vlan h).2.table =
      (updatePppoeNat env.clock now (h.skb.mac 6)
        (crc16 0 ((hostUniq h.skb (NETWORK_HEADER + vlan)).getD (List.ofFn (h.skb.mac 6))))
        PPPOE_ADD_TMP h.table).toList := by
  simp only [doPppoedOut, hostUniq, hsid, ne_eq, not_true_eq_false, if_false,
    discoveryFlags_of_ne hcode]
  rcases hostUniqTag h.skb (NETWORK_HEADER + vlan) with ⟨tag, isHostUniq⟩
  cases isHostUniq <;> rfl

end

/-- A request teaches the temporary id of its Host-Uniq value. -/
theorem request_run {ev : Event} (h : ev.IsRequest) (t : ArpnatTable) :
    ∃ out, ev.run t = some out ∧
      out.table =
        (updatePppoeNat ev.env.clock ev.jiffies ev.client (crc16 0 ev.uniq) PPPOE_ADD_TMP t).toList := by
  have hcode := h.code_ne
  obtain ⟨hout, ⟨hproto, hnat⟩, hsid, _⟩ := h
  have hne : ETH_P_PPP_DISC ≠ ETH_P_ARP ∧ ETH_P_PPP_DISC ≠ ETH_P_IP ∧
      ETH_P_PPP_DISC ≠ ETH_P_PPP_SES := by decide
  have hswitch : switchOut ev.env ev.jiffies (ev.hook t) =
      some (doPppoedOut ev.env ev.jiffies (etherProto ev.skb).2 (ev.hook t)) := by
    simp [switchOut, Event.hook, hproto, hnat, hne]
  have htable := @doPppoedOut_request ev.env ev.jiffies (etherProto ev.skb).2 (ev.hook t) hsid hcode
  rcases hdo : doPppoedOut ev.env ev.jiffies (etherProto ev.skb).2 (ev.hook t) with ⟨nat, h'⟩
  rw [hdo] at hswitch htable
  refine ⟨if nat then h'.setSource ev.env.devAddr else h', ?_, ?_⟩
  · simp [Event.run, hout, doOut, hswitch]
  · cases nat <;> exact htable

/-! ## Replies -/

/-- The tags are behind the Ethernet header. -/
theorem findHostUniq_congr {skb skb' : Skb} (hsame : ∀ i, NETWORK_HEADER ≤ i → skb'.mem i = skb.mem i)
    (limit n tag : Nat) (htag : NETWORK_HEADER ≤ tag) :
    findHostUniq skb' limit n tag = findHostUniq skb limit n tag ∧
      NETWORK_HEADER ≤ (findHostUniq skb limit n tag).1 := by
  induction n generalizing tag with
  | zero => exact ⟨rfl, htag⟩
  | succ n ih =>
      have hu16 : ∀ i, NETWORK_HEADER ≤ i → skb'.u16 i = skb.u16 i := by
        intro i hi
        simp only [Skb.u16, hsame i hi, hsame (i + 1) (by omega)]
      simp only [findHostUniq, hu16 tag htag, hu16 (tag + 2) (by omega)]
      split
      · split
        · exact ⟨rfl, htag⟩
        · exact ih _ (by omega)
      · exact ⟨rfl, htag⟩

/-- Nor does the Host-Uniq value depend on it. -/
theorem hostUniq_congr {skb skb' : Skb} (hsame : ∀ i, NETWORK_HEADER ≤ i → skb'.mem i = skb.mem i)
    {pppoe : Nat} (hpppoe : NETWORK_HEADER ≤ pppoe) : hostUniq skb' pppoe = hostUniq skb pppoe := by
  have hu16 : ∀ i, NETWORK_HEADER ≤ i → skb'.u16 i = skb.u16 i := by
    intro i hi
    simp only [Skb.u16, hsame i hi, hsame (i + 1) (by omega)]
  have hlength := hu16 (pppoe + 4) (by omega)
  obtain ⟨hfind, hle⟩ := findHostUniq_congr hsame (pppoe + 6 + (skb.u16 (pppoe + 4)).toNat)
    (skb.u16 (pppoe + 4)).toNat (pppoe + 6) (by omega)
  have htag : hostUniqTag skb' pppoe = hostUniqTag skb pppoe := by
    simp only [hostUniqTag, hlength, hfind]
  have hle : NETWORK_HEADER ≤ (hostUniqTag skb pppoe).1 := hle
  simp only [hostUniq, htag, hu16 _ (show NETWORK_HEADER ≤ (hostUniqTag skb pppoe).1 + 2 by omega)]
  have hbytes : ∀ n, skb'.bytes ((hostUniqTag skb pppoe).1 + 4) n =
      skb.bytes ((hostUniqTag skb pppoe).1 + 4) n := by
    intro n
    refine List.map_congr_left fun k _ => hsame _ (by omega)
  rw [hbytes]

section

variable {env : Env} {now vlan : Nat} {h : Hook} {sid : UInt16}

theorem setDest_mem (h : Hook) (m : Mac) (i : Nat) (hi : NETWORK_HEADER ≤ i) :
    (h.setDest m).skb.mem i = h.skb.mem i :=
  Skb.putMac_outside _ _ (Or.inr (by simp only [NETWORK_HEADER] at hi; omega))

theorem pppoedSession_known {e : Mac2ip} (hfind : (findPppoeNat now sid h.table).node? = some e) :
    pppoedSession now sid h =
      (0, false, { h with table := (findPppoeNat now sid h.table).toList }.setDest e.mac) := by
  have h0 := (findPppoeNat_holds hfind).1
  simp only [pppoedSession, h0, ne_eq, not_false_eq_true, if_true, Hook.findId, hfind]

theorem pppoedSession_new (h0 : sid ≠ 0) (hfind : (findPppoeNat now sid h.table).node? = none) :
    pppoedSession now sid h =
      (sid, true, { h with table := (findPppoeNat now sid h.table).toList }) := by
  simp only [pppoedSession, h0, ne_eq, not_false_eq_true, if_true, Hook.findId, hfind]

theorem pppoedSession_zero : pppoedSession now 0 h = (0, true, h) := by
  simp [pppoedSession]

/-- `do_pppoed_in` from what it knows about the session. -/
theorem doPppoedIn_eq {newSid : UInt16} {nat : Bool} {h₁ : Hook}
    (hcode : h.skb.mem (NETWORK_HEADER + vlan + 1) ≠ PADT_CODE)
    (hsession : pppoedSession now (h.skb.u16 (NETWORK_HEADER + vlan + 2)) h = (newSid, nat, h₁))
    (hsame : ∀ i, NETWORK_HEADER ≤ i → h₁.skb.mem i = h.skb.mem i) :
    doPppoedIn env now vlan h =
      match hostUniq h.skb (NETWORK_HEADER + vlan) with
      | some d => pppoedHostUniq env now (h.skb.u16 (NETWORK_HEADER + vlan + 2)) (crc16 0 d) newSid
          PPPOE_ADD_TMP nat h₁
      | none =>
          if newSid = 0 then
            (nat, h₁.learnId env now (h₁.skb.mac 0) (h.skb.u16 (NETWORK_HEADER + vlan + 2)) PPPOE_ADD)
          else (nat, h₁) := by
  have hcode' : h₁.skb.mem (NETWORK_HEADER + vlan + 1) ≠ PADT_CODE := by
    rw [hsame _ (by omega)]
    exact hcode
  rw [← hostUniq_congr hsame (Nat.le_add_right NETWORK_HEADER vlan)]
  simp only [doPppoedIn, hsession, hostUniq, discoveryFlags_of_ne hcode']
  rcases hostUniqTag h₁.skb (NETWORK_HEADER + vlan) with ⟨tag, isHostUniq⟩
  cases isHostUniq <;> rfl

end

/-- The frame after a reply. -/
theorem reply_run {ev : Event} (h : ev.IsReply) (t : ArpnatTable) {nat : Bool} {h' : Hook}
    (hdo : doPppoedIn ev.env ev.jiffies (etherProto ev.skb).2 (ev.hook t) = (nat, h')) :
    ∃ out, ev.run t = some out ∧ out.table = h'.table ∧ (nat = false → out = h') := by
  obtain ⟨hin, ⟨hproto, hpppoe⟩, _⟩ := h
  have hne : ETH_P_PPP_DISC ≠ ETH_P_ARP ∧ ETH_P_PPP_DISC ≠ ETH_P_IP := by decide
  have hswitch : switchIn ev.env ev.jiffies (ev.hook t) = some (nat, h') := by
    simp only [switchIn, show (ev.hook t).skb = ev.skb from rfl, hproto, hne, if_false, hpppoe,
      ne_eq, not_false_eq_true, and_self, if_true, hdo]
  refine ⟨if nat && h'.unicast then h'.setDest ev.env.brAddr else h', ?_, ?_, ?_⟩
  · simp [Event.run, hin, doIn, hswitch]
  · split <;> rfl
  · rintro rfl
    rfl

/-! ## Runs -/

/-- Requests and replies: the table, the time of the last packet, who sent a
Host-Uniq value last, and when the record of a temporary id expires. -/
structure Talk where
  table : ArpnatTable
  time : Nat
  asked : List UInt8 → Option Mac
  expiry : UInt16 → Nat

/-- No request is open. The table may have sessions and addresses. -/
def Talk.start (table : ArpnatTable) (time : Nat) : Talk := ⟨table, time, fun _ => none, fun _ => 0⟩

/-- A record that has not expired gets a new expiry. -/
def renew (now : Nat) (id : UInt16) (expires : Nat) (expiry : UInt16 → Nat) : UInt16 → Nat :=
  if now ≤ expiry id then Function.update expiry id expires else expiry

/-- When temporary records expire after a reply: a PADO gives five seconds
more; a PADS that brings a new session id one second. -/
def answered (clock : Clock) (now : Nat) (tag : Option (List UInt8)) (sid : UInt16)
    (t : ArpnatTable) (expiry : UInt16 → Nat) : UInt16 → Nat :=
  match tag with
  | none => renew now sid (now + clock.lifetime) expiry
  | some d =>
      if sid = 0 then renew now (crc16 0 d) (now + 5 * clock.hz) expiry
      else if (findPppoeNat now sid t).node?.isSome then renew now sid (now + 5 * clock.hz) expiry
      else renew now sid (now + 5 * clock.hz) (renew now (crc16 0 d) (now + 1 * clock.hz) expiry)

/-- The next packet. A request is on record for five seconds; those whose
record has expired are forgotten. -/
def Talk.step (s : Talk) (ev : Event) : Option Talk :=
  (ev.run s.table).map fun h =>
    if ev.inbound then
      { s with
        table := h.table
        time := ev.jiffies
        expiry := answered ev.env.clock ev.jiffies ev.tag ev.sid s.table s.expiry }
    else
      { table := h.table
        time := ev.jiffies
        asked := Function.update
          (fun d => if ev.jiffies ≤ s.expiry (crc16 0 d) then s.asked d else none)
          ev.uniq (some ev.client)
        expiry := Function.update s.expiry (crc16 0 ev.uniq) (ev.jiffies + 5 * ev.env.clock.hz) }

/-- A reply to an open request goes to the client that sent it. -/
def Reaches (s : Talk) (ev : Event) : Prop :=
  ∀ d c, ev.inbound = true → ev.tag = some d → s.asked d = some c →
    ev.jiffies ≤ s.expiry (crc16 0 d) →
      ∃ out, ev.run s.table = some out ∧ out.skb.mac 0 = c

/-- Whoever has an id is who a lookup of the id answers with. -/
def NotMistaken (now : Nat) (t : ArpnatTable) : Prop :=
  ∀ e ∈ t, ∀ id, LiveIn now (ArpnatData.IsId id) e →
    ∃ f, (findPppoeNat now id t).node? = some f ∧ f.mac = e.mac

/-- The temporary id of a request is not 0 and not another host's id; the
session that comes with a reply to an open request is not another host's. -/
def ClearOfOthers (s : Talk) (ev : Event) : Prop :=
  if ev.inbound then
    ∀ d c, ev.tag = some d → s.asked d = some c → ev.jiffies ≤ s.expiry (crc16 0 d) →
      ev.sid ≠ 0 → Held ev.jiffies ev.sid c s.table
  else crc16 0 ev.uniq ≠ 0 ∧ Held ev.jiffies (crc16 0 ev.uniq) ev.client s.table

/-- Every reply of the run reaches its client, and no id is mistaken in any
state. -/
def AllReach : Talk → List Event → Prop
  | s, [] => NotMistaken s.time s.table
  | s, ev :: rest =>
      NotMistaken s.time s.table ∧ Reaches s ev ∧ ∃ s', s.step ev = some s' ∧ AllReach s' rest

/-- Every packet of the run finds its ids clear of others. -/
def AllClearOfOthers : Talk → List Event → Prop
  | _, [] => True
  | s, ev :: rest => ClearOfOthers s ev ∧ ∀ s', s.step ev = some s' → AllClearOfOthers s' rest

/-! ## The invariant -/

/-- Ids are apart, and who asked and is not expired has its record. -/
structure Kept (now : Nat) (asked : List UInt8 → Option Mac) (expiry : UInt16 → Nat)
    (t : ArpnatTable) : Prop where
  apart : Apart now t
  nonzero : ∀ d c, asked d = some c → crc16 0 d ≠ 0
  has : ∀ d c, asked d = some c → now ≤ expiry (crc16 0 d) →
    HasId c (crc16 0 d) (expiry (crc16 0 d)) t

section

variable {now : Nat} {asked : List UInt8 → Option Mac} {expiry : UInt16 → Nat} {t t' : ArpnatTable}
  {id : UInt16} {clock : Clock}

theorem renew_of_ne {id' : UInt16} {expires : Nat} (h : id' ≠ id) :
    renew now id expires expiry id' = expiry id' := by
  unfold renew
  split
  · exact Function.update_of_ne h _ _
  · rfl

theorem Kept.later {now' : Nat} (h : Kept now asked expiry t) (hle : now ≤ now') :
    Kept now' asked expiry t where
  apart := h.apart.later hle
  nonzero := h.nonzero
  has := fun d c hasked hlive => h.has d c hasked (Nat.le_trans hle hlive)

theorem Kept.pruned (h : Kept now asked expiry t) (hpruned : TablePruned now t t') :
    Kept now asked expiry t' where
  apart := h.apart.pruned hpruned
  nonzero := h.nonzero
  has := fun d c hasked hlive => (h.has d c hasked hlive).pruned hlive hpruned

/-- Nothing is promised about an id that is not there. -/
theorem Kept.renew_missing (h : Kept now asked expiry t)
    (hmissing : id ≠ 0 → (findPppoeNat now id t).node? = none) (expires : Nat) :
    Kept now asked (renew now id expires expiry) t where
  apart := h.apart
  nonzero := h.nonzero
  has := by
    intro d c hasked hlive
    have h0 := h.nonzero d c hasked
    by_cases hid : crc16 0 d = id
    · have hclosed : ¬ now ≤ expiry id := by
        intro hopen
        rw [← hid] at hopen
        have hhas := h.has d c hasked hopen
        obtain ⟨e, he, _⟩ := findPppoeNat_of_hasId h0 hhas hopen (h.apart.held h0 hhas hopen)
        rw [hid, hmissing (hid ▸ h0)] at he
        cases he
      rw [renew, if_neg hclosed] at hlive ⊢
      exact h.has d c hasked hlive
    · rw [renew_of_ne hid] at hlive ⊢
      exact h.has d c hasked hlive

/-- The holder of an id learns it again. -/
theorem Kept.learn {m : Mac} (h : Kept now asked expiry t) (hid : id ≠ 0) (hheld : Held now id m t)
    (flags : UInt8) :
    Kept now asked (renew now id (now + lifetimeFor clock flags) expiry)
      (updatePppoeNat clock now m id flags t).toList where
  apart := h.apart.changes hheld (updatePppoeNat_changes clock m id flags t)
  nonzero := h.nonzero
  has := by
    intro d c hasked hlive
    by_cases hd : crc16 0 d = id
    · by_cases hopen : now ≤ expiry id
      · have hc : c = m := by
          subst hd
          exact (h.has d c hasked hopen).mac_eq hopen hheld
        rw [renew, if_pos hopen, hd, Function.update_self, hc]
        exact updatePppoeNat_hasId clock m flags t hid
      · rw [renew, if_neg hopen, hd] at hlive
        exact absurd hlive hopen
    · rw [renew_of_ne hd] at hlive ⊢
      exact (h.has d c hasked hlive).changes hlive (fun hboth => hd hboth.2.symm)
        (updatePppoeNat_changes clock m id flags t)

/-- The id is found, so only its holder has it. -/
theorem Kept.held {e : Mac2ip} (h : Kept now asked expiry t)
    (hfind : (findPppoeNat now id t).node? = some e) : id ≠ 0 ∧ Held now id e.mac t := by
  obtain ⟨h0, hhas⟩ := findPppoeNat_holds hfind
  exact ⟨h0, h.apart.held h0 hhas (Nat.le_refl _)⟩

/-- The record of an open request is found. -/
theorem Kept.find {d : List UInt8} {c : Mac} (h : Kept now asked expiry t)
    (hasked : asked d = some c) (hopen : now ≤ expiry (crc16 0 d)) :
    ∃ e, (findPppoeNat now (crc16 0 d) t).node? = some e ∧ e.mac = c := by
  have h0 := h.nonzero d c hasked
  have hhas := h.has d c hasked hopen
  exact findPppoeNat_of_hasId h0 hhas hopen (h.apart.held h0 hhas hopen)

theorem expired_of_missing (h0 : id ≠ 0) (hfind : (findPppoeNat now id t).node? = none) :
    ∀ e ∈ t, ∀ r ∈ e.data, r.pppoeId = id → ¬ now ≤ r.expires := by
  intro e he r hr hid hlive
  have hsome := (findNat_isSome (mac2ipFindPppoeid_finds id) t).mpr
    ⟨e, he, r, hr, ⟨h0, hid⟩, live_iff.mpr hlive⟩
  rw [show findNat (fun tpos => mac2ipFindPppoeid now tpos id) t = findPppoeNat now id t from rfl,
    hfind] at hsome
  cases hsome

/-- What is not found is not found after a search. -/
theorem missing_of_pruned (hfind : (findPppoeNat now id t).node? = none)
    (hpruned : TablePruned now t t') : (findPppoeNat now id t').node? = none := by
  cases hfound : (findPppoeNat now id t').node? with
  | none => rfl
  | some e =>
      obtain ⟨h0, x, hx, _, r, hr, hid, hlive⟩ := findPppoeNat_holds hfound
      obtain ⟨y, hy, hyx⟩ := hpruned.mem_after hx
      obtain ⟨r', hr', rfl⟩ := hyx.2.mem_after hr
      exact absurd hlive (expired_of_missing h0 hfind y hy r' hr' hid)

/-! ## The Host-Uniq part -/

variable {env : Env} {h : Hook} {sid tmpSid : UInt16} {nat : Bool}

theorem setDest_mac (h : Hook) (m : Mac) : (h.setDest m).skb.mac 0 = m := Skb.mac_putMac _ _ _

/-- A PADO to a request that is on record. -/
theorem pppoedHostUniq_offer {e : Mac2ip} (hfind : (findPppoeNat now tmpSid h.table).node? = some e) :
    ∃ h', pppoedHostUniq env now 0 tmpSid 0 PPPOE_ADD_TMP nat h = (false, h') ∧
      h'.skb.mac 0 = e.mac ∧
      h'.table = (updatePppoeNat env.clock now e.mac tmpSid PPPOE_ADD_TMP
        (findPppoeNat now tmpSid h.table).toList).toList := by
  simp only [pppoedHostUniq, Hook.findId, hfind, ne_eq, not_true_eq_false, if_false, if_true,
    setDest_mac]
  exact ⟨_, rfl, setDest_mac _ _, rfl⟩

theorem pppoedHostUniq_lost (hfind : (findPppoeNat now tmpSid h.table).node? = none) :
    pppoedHostUniq env now 0 tmpSid 0 PPPOE_ADD_TMP nat h =
      (true, { h with table := (findPppoeNat now tmpSid h.table).toList }) := by
  simp only [pppoedHostUniq, Hook.findId, hfind, ne_eq, not_true_eq_false, if_false, if_true]

/-- A PADS with a new session for a request that is on record. -/
theorem pppoedHostUniq_new {e : Mac2ip} (h0 : sid ≠ 0)
    (hfind : (findPppoeNat now tmpSid h.table).node? = some e) :
    ∃ h', pppoedHostUniq env now sid tmpSid sid PPPOE_ADD_TMP nat h = (false, h') ∧
      h'.skb.mac 0 = e.mac ∧
      h'.table = (updatePppoeNat env.clock now e.mac sid PPPOE_ADD_TMP
        (updatePppoeNat env.clock now e.mac tmpSid PPPOE_REMOVE
          (findPppoeNat now tmpSid h.table).toList).toList).toList := by
  simp only [pppoedHostUniq, Hook.findId, hfind, ne_eq, h0, not_false_eq_true, if_true]
  refine ⟨_, rfl, setDest_mac _ _, ?_⟩
  simp only [Hook.learnId, setDest_mac]
  rfl

theorem pppoedHostUniq_newLost (h0 : sid ≠ 0)
    (hfind : (findPppoeNat now tmpSid h.table).node? = none) :
    pppoedHostUniq env now sid tmpSid sid PPPOE_ADD_TMP nat h =
      (true, { h with table := (findPppoeNat now tmpSid h.table).toList }) := by
  simp only [pppoedHostUniq, Hook.findId, hfind, ne_eq, h0, not_false_eq_true, if_true]

/-- A PADS for a session that is known already. -/
theorem pppoedHostUniq_known (h0 : sid ≠ 0) :
    ∃ h', pppoedHostUniq env now sid tmpSid 0 PPPOE_ADD_TMP nat h = (nat, h') ∧
      h'.skb = h.skb ∧
      h'.table = (updatePppoeNat env.clock now (h.skb.mac 0) sid PPPOE_ADD_TMP
        (findPppoeNat now tmpSid h.table).toList).toList := by
  simp only [pppoedHostUniq, Hook.findId, ne_eq, h0, not_true_eq_false, if_false]
  exact ⟨_, rfl, rfl, rfl⟩

end

/-! ## A step -/

/-- What a reply is to leave behind. -/
structure ReplyOk (ev : Event) (asked : List UInt8 → Option Mac) (expiry : UInt16 → Nat)
    (t : ArpnatTable) (nat : Bool) (h : Hook) : Prop where
  kept : Kept ev.jiffies asked (answered ev.env.clock ev.jiffies ev.tag ev.sid t expiry) h.table
  reaches : ∀ d c, ev.tag = some d → asked d = some c → ev.jiffies ≤ expiry (crc16 0 d) →
    (ev.sid ≠ 0 → Held ev.jiffies ev.sid c t) → nat = false ∧ h.skb.mac 0 = c

section

variable {ev : Event} {asked : List UInt8 → Option Mac} {expiry : UInt16 → Nat} {t : ArpnatTable}

/-- A reply without a session. -/
theorem replyOk_zero (hreply : ev.IsReply) (hkept : Kept ev.jiffies asked expiry t)
    (hsid : ev.sid = 0) :
    ∃ nat h', doPppoedIn ev.env ev.jiffies (etherProto ev.skb).2 (ev.hook t) = (nat, h') ∧
      ReplyOk ev asked expiry t nat h' := by
  have hsession : pppoedSession ev.jiffies ev.sid (ev.hook t) = (0, true, ev.hook t) := by
    rw [hsid]
    exact pppoedSession_zero
  have heq := @doPppoedIn_eq ev.env _ _ (ev.hook t) _ _ _ hreply.code_ne hsession fun _ _ => rfl
  change doPppoedIn _ _ _ _ = match ev.tag with
    | some d => pppoedHostUniq ev.env ev.jiffies ev.sid (crc16 0 d) 0 PPPOE_ADD_TMP true (ev.hook t)
    | none => (true, (ev.hook t).learnId ev.env ev.jiffies (ev.skb.mac 0) ev.sid PPPOE_ADD) at heq
  rw [heq, hsid]
  cases htag : ev.tag with
  | none =>
      refine ⟨_, _, rfl, ?_, fun d c h => ?_⟩
      · simp only [answered, htag, hsid, Hook.learnId, updatePppoeNat_zero, Event.hook]
        exact (hkept.pruned (findPppoeNat_pruned _ _ _)).renew_missing (absurd rfl) _
      · rw [htag] at h
        cases h
  | some d =>
      have hanswered : answered ev.env.clock ev.jiffies ev.tag ev.sid t expiry =
          renew ev.jiffies (crc16 0 d) (ev.jiffies + 5 * ev.env.clock.hz) expiry := by
        simp only [answered, htag, hsid, if_true]
      dsimp only
      cases hfind : (findPppoeNat ev.jiffies (crc16 0 d) (ev.hook t).table).node? with
      | none =>
          refine ⟨_, _, pppoedHostUniq_lost hfind, ?_, fun d' c h hasked hopen _ => ?_⟩
          · rw [hanswered]
            exact (hkept.renew_missing (fun _ => hfind) _).pruned (findPppoeNat_pruned _ _ _)
          · cases htag.symm.trans h
            obtain ⟨e, he, _⟩ := hkept.find hasked hopen
            cases hfind.symm.trans he
      | some e =>
          obtain ⟨h', hdo, hmac, htable⟩ :=
            @pppoedHostUniq_offer _ ev.env (ev.hook t) (crc16 0 d) true e hfind
          obtain ⟨h0, hheld⟩ := hkept.held hfind
          have hpruned := findPppoeNat_pruned ev.jiffies (crc16 0 d) t
          refine ⟨_, _, hdo, ?_, fun d' c h hasked hopen _ => ⟨rfl, hmac.trans ?_⟩⟩
          · rw [hanswered, htable]
            exact (hkept.pruned hpruned).learn h0 (hheld.pruned hpruned) PPPOE_ADD_TMP
          · cases htag.symm.trans h
            obtain ⟨e', he', hc⟩ := hkept.find hasked hopen
            cases hfind.symm.trans he'
            exact hc

/-- A reply with a session that the table knows. -/
theorem replyOk_known {e : Mac2ip} (hreply : ev.IsReply) (hkept : Kept ev.jiffies asked expiry t)
    (hfind : (findPppoeNat ev.jiffies ev.sid t).node? = some e) :
    ∃ nat h', doPppoedIn ev.env ev.jiffies (etherProto ev.skb).2 (ev.hook t) = (nat, h') ∧
      ReplyOk ev asked expiry t nat h' := by
  obtain ⟨h0, hheld⟩ := hkept.held hfind
  have hpruned := findPppoeNat_pruned ev.jiffies ev.sid t
  have hsession := @pppoedSession_known ev.jiffies (ev.hook t) ev.sid e hfind
  have heq := @doPppoedIn_eq ev.env _ _ (ev.hook t) _ _ _ hreply.code_ne hsession (setDest_mem _ _)
  rw [show hostUniq (ev.hook t).skb (NETWORK_HEADER + (etherProto ev.skb).2) = ev.tag from rfl,
    show (ev.hook t).skb.u16 (NETWORK_HEADER + (etherProto ev.skb).2 + 2) = ev.sid from rfl] at heq
  rw [heq]
  have hreaches : ∀ d c, asked d = some c →
      (ev.sid ≠ 0 → Held ev.jiffies ev.sid c t) → e.mac = c := by
    intro d c _ hclear
    exact (findPppoeNat_holds hfind).2.mac_eq (Nat.le_refl _) (hclear h0)
  cases htag : ev.tag with
  | none =>
      refine ⟨_, _, rfl, ?_, fun d c h => ?_⟩
      · simp only [answered, htag, Hook.learnId, setDest_mac]
        exact (hkept.pruned hpruned).learn h0 (hheld.pruned hpruned) PPPOE_ADD
      · rw [htag] at h
        cases h
  | some d =>
      have hanswered : answered ev.env.clock ev.jiffies ev.tag ev.sid t expiry =
          renew ev.jiffies ev.sid (ev.jiffies + 5 * ev.env.clock.hz) expiry := by
        simp only [answered, htag, h0, if_false, hfind, Option.isSome_some, if_true]
      obtain ⟨h', hdo, hskb, htable⟩ := @pppoedHostUniq_known ev.jiffies ev.env
        ({ ev.hook t with table := (findPppoeNat ev.jiffies ev.sid t).toList }.setDest e.mac)
        ev.sid (crc16 0 d) false h0
      have hpruned' := findPppoeNat_pruned ev.jiffies (crc16 0 d)
        (findPppoeNat ev.jiffies ev.sid t).toList
      refine ⟨_, _, hdo, ?_, fun d' c h hasked _ hclear => ⟨rfl, ?_⟩⟩
      · rw [hanswered, htable, setDest_mac]
        exact ((hkept.pruned hpruned).pruned hpruned').learn h0
          ((hheld.pruned hpruned).pruned hpruned') PPPOE_ADD_TMP
      · rw [hskb, setDest_mac]
        exact hreaches d' c hasked hclear

/-- A reply with a session that is new. -/
theorem replyOk_new (hreply : ev.IsReply) (hkept : Kept ev.jiffies asked expiry t) (h0 : ev.sid ≠ 0)
    (hmissing : (findPppoeNat ev.jiffies ev.sid t).node? = none) :
    ∃ nat h', doPppoedIn ev.env ev.jiffies (etherProto ev.skb).2 (ev.hook t) = (nat, h') ∧
      ReplyOk ev asked expiry t nat h' := by
  have hpruned := findPppoeNat_pruned ev.jiffies ev.sid t
  have hkept₁ := hkept.pruned hpruned
  have hsession := @pppoedSession_new ev.jiffies (ev.hook t) ev.sid h0 hmissing
  have heq := @doPppoedIn_eq ev.env _ _ (ev.hook t) _ _ _ hreply.code_ne hsession fun _ _ => rfl
  rw [show hostUniq (ev.hook t).skb (NETWORK_HEADER + (etherProto ev.skb).2) = ev.tag from rfl,
    show (ev.hook t).skb.u16 (NETWORK_HEADER + (etherProto ev.skb).2 + 2) = ev.sid from rfl] at heq
  rw [heq]
  cases htag : ev.tag with
  | none =>
      refine ⟨true, _, by rw [if_neg h0], ?_, fun d c h => ?_⟩
      · simp only [answered, htag]
        exact (hkept.renew_missing (fun _ => hmissing) _).pruned hpruned
      · rw [htag] at h
        cases h
  | some d =>
      have hanswered : answered ev.env.clock ev.jiffies ev.tag ev.sid t expiry =
          renew ev.jiffies ev.sid (ev.jiffies + 5 * ev.env.clock.hz)
            (renew ev.jiffies (crc16 0 d) (ev.jiffies + 1 * ev.env.clock.hz) expiry) := by
        simp only [answered, htag, h0, if_false, hmissing, Option.isSome_none, Bool.false_eq_true]
      dsimp only
      cases hfind : (findPppoeNat ev.jiffies (crc16 0 d)
          (findPppoeNat ev.jiffies ev.sid t).toList).node? with
      | none =>
          refine ⟨_, _, pppoedHostUniq_newLost h0 hfind, ?_, fun d' c h hasked hopen _ => ?_⟩
          · rw [hanswered]
            have hmissing₁ := missing_of_pruned hmissing hpruned
            exact ((hkept₁.renew_missing (fun _ => hfind) _).renew_missing (fun _ => hmissing₁)
              _).pruned (findPppoeNat_pruned _ _ _)
          · cases htag.symm.trans h
            obtain ⟨e, he, _⟩ := hkept₁.find hasked hopen
            cases hfind.symm.trans he
      | some e =>
          obtain ⟨h', hdo, hmac, htable⟩ := @pppoedHostUniq_new ev.jiffies ev.env
            { ev.hook t with table := (findPppoeNat ev.jiffies ev.sid t).toList } ev.sid (crc16 0 d)
            true e h0 hfind
          obtain ⟨hx, hheld⟩ := hkept₁.held hfind
          have hpruned' := findPppoeNat_pruned ev.jiffies (crc16 0 d)
            (findPppoeNat ev.jiffies ev.sid t).toList
          have hheldSid : Held ev.jiffies ev.sid e.mac t := fun x hx r hr hid hlive =>
            absurd hlive (expired_of_missing h0 hmissing x hx r hr hid)
          refine ⟨_, _, hdo, ?_, fun d' c h hasked hopen _ => ⟨rfl, hmac.trans ?_⟩⟩
          · rw [hanswered, htable]
            refine ((hkept₁.pruned hpruned').learn hx (hheld.pruned hpruned') PPPOE_REMOVE).learn h0
              ?_ PPPOE_ADD_TMP
            exact ((hheldSid.pruned hpruned).pruned hpruned').changes (fun _ => rfl)
              (updatePppoeNat_changes _ _ _ _ _)
          · cases htag.symm.trans h
            obtain ⟨e', he', hc⟩ := hkept₁.find hasked hopen
            cases hfind.symm.trans he'
            exact hc

/-- A reply keeps the invariant, and reaches the client if its session is
not another host's. -/
theorem Kept.reply (hreply : ev.IsReply) (hkept : Kept ev.jiffies asked expiry t) :
    ∃ out, ev.run t = some out ∧
      Kept ev.jiffies asked (answered ev.env.clock ev.jiffies ev.tag ev.sid t expiry) out.table ∧
      ∀ d c, ev.tag = some d → asked d = some c → ev.jiffies ≤ expiry (crc16 0 d) →
        (ev.sid ≠ 0 → Held ev.jiffies ev.sid c t) → out.skb.mac 0 = c := by
  have hin : ∃ nat h', doPppoedIn ev.env ev.jiffies (etherProto ev.skb).2 (ev.hook t) = (nat, h') ∧
      ReplyOk ev asked expiry t nat h' := by
    by_cases h0 : ev.sid = 0
    · exact replyOk_zero hreply hkept h0
    · cases hfind : (findPppoeNat ev.jiffies ev.sid t).node? with
      | none => exact replyOk_new hreply hkept h0 hfind
      | some e => exact replyOk_known hreply hkept hfind
  obtain ⟨nat, h', hdo, hok⟩ := hin
  obtain ⟨out, hrun, htable, hsame⟩ := reply_run hreply t hdo
  refine ⟨out, hrun, ?_, fun d c htag hasked hopen hclear => ?_⟩
  · rw [htable]
    exact hok.kept
  · obtain ⟨hnat, hmac⟩ := hok.reaches d c htag hasked hopen hclear
    rw [hsame hnat]
    exact hmac

/-- A request whose temporary id is nobody else's keeps the invariant. -/
theorem Kept.request (hkept : Kept ev.jiffies asked expiry t) (h0 : crc16 0 ev.uniq ≠ 0)
    (hheld : Held ev.jiffies (crc16 0 ev.uniq) ev.client t) :
    Kept ev.jiffies
      (Function.update (fun d => if ev.jiffies ≤ expiry (crc16 0 d) then asked d else none) ev.uniq
        (some ev.client))
      (Function.update expiry (crc16 0 ev.uniq) (ev.jiffies + 5 * ev.env.clock.hz))
      (updatePppoeNat ev.env.clock ev.jiffies ev.client (crc16 0 ev.uniq) PPPOE_ADD_TMP t).toList := by
  have hchanges := @updatePppoeNat_changes ev.jiffies ev.env.clock ev.client (crc16 0 ev.uniq)
    PPPOE_ADD_TMP t
  have hnew := @updatePppoeNat_hasId ev.jiffies (crc16 0 ev.uniq) ev.env.clock ev.client
    PPPOE_ADD_TMP t h0
  -- who asked before and is still on record
  have hold : ∀ d c, d ≠ ev.uniq →
      Function.update (fun d => if ev.jiffies ≤ expiry (crc16 0 d) then asked d else none) ev.uniq
        (some ev.client) d = some c → ev.jiffies ≤ expiry (crc16 0 d) ∧ asked d = some c := by
    intro d c hd hasked
    rw [Function.update_of_ne hd] at hasked
    split at hasked
    · exact ⟨by assumption, hasked⟩
    · cases hasked
  refine ⟨hkept.apart.changes hheld hchanges, fun d c hasked => ?_, fun d c hasked _ => ?_⟩
  · by_cases hd : d = ev.uniq
    · rw [hd]
      exact h0
    · exact hkept.nonzero d c (hold d c hd hasked).2
  · by_cases hid : crc16 0 d = crc16 0 ev.uniq
    · rw [hid, Function.update_self]
      have hc : c = ev.client := by
        by_cases hd : d = ev.uniq
        · rw [hd, Function.update_self] at hasked
          exact (Option.some.inj hasked).symm
        · obtain ⟨hopen, hasked⟩ := hold d c hd hasked
          have hhas := hkept.has d c hasked hopen
          rw [hid] at hhas hopen
          exact hhas.mac_eq hopen hheld
      rw [hc]
      exact hnew
    · have hd : d ≠ ev.uniq := fun h => hid (by rw [h])
      obtain ⟨hopen, hasked⟩ := hold d c hd hasked
      rw [Function.update_of_ne hid]
      exact (hkept.has d c hasked hopen).changes hopen (fun hboth => hid hboth.2.symm) hchanges

end

theorem Kept.notMistaken {now : Nat} {asked : List UInt8 → Option Mac} {expiry : UInt16 → Nat}
    {t : ArpnatTable} (hkept : Kept now asked expiry t) : NotMistaken now t := by
  rintro e he id ⟨r, hr, ⟨h0, hid⟩, hlive⟩
  have hhas : HasId e.mac id now t := ⟨e, he, rfl, r, hr, hid, live_iff.mp hlive⟩
  exact findPppoeNat_of_hasId h0 hhas (Nat.le_refl _) (hkept.apart.held h0 hhas (Nat.le_refl _))

/-- The state after a request. -/
theorem Talk.step_request {s : Talk} {ev : Event} (h : ev.IsRequest) :
    s.step ev = some {
      table := (updatePppoeNat ev.env.clock ev.jiffies ev.client (crc16 0 ev.uniq) PPPOE_ADD_TMP
        s.table).toList
      time := ev.jiffies
      asked := Function.update
        (fun d => if ev.jiffies ≤ s.expiry (crc16 0 d) then s.asked d else none)
        ev.uniq (some ev.client)
      expiry := Function.update s.expiry (crc16 0 ev.uniq) (ev.jiffies + 5 * ev.env.clock.hz) } := by
  obtain ⟨out, hrun, htable⟩ := request_run h s.table
  simp only [Talk.step, hrun, Option.map_some, h.1, Bool.false_eq_true, if_false, htable]

/-- One packet keeps the invariant, and a reply reaches its client. -/
theorem Talk.step_kept {s : Talk} {ev : Event} (hkept : Kept s.time s.asked s.expiry s.table)
    (htime : s.time ≤ ev.jiffies) (htalk : ev.IsRequest ∨ ev.IsReply) (hclear : ClearOfOthers s ev) :
    Reaches s ev ∧ ∃ s', s.step ev = some s' ∧ s'.time = ev.jiffies ∧
      Kept s'.time s'.asked s'.expiry s'.table := by
  have hkept' := hkept.later htime
  rcases htalk with hreq | hreply
  · have hout := hreq.1
    simp only [ClearOfOthers, hout, Bool.false_eq_true, if_false] at hclear
    refine ⟨fun d c hin => ?_, _, Talk.step_request hreq, rfl, hkept'.request hclear.1 hclear.2⟩
    cases hout.symm.trans hin
  · have hin := hreply.1
    obtain ⟨out, hrun, hreplied, hreaches⟩ := hkept'.reply hreply
    simp only [ClearOfOthers, hin, if_true] at hclear
    simp only [Talk.step, hrun, Option.map_some, hin, if_true]
    refine ⟨fun d c _ htag hasked hopen => ?_, _, rfl, rfl, hreplied⟩
    exact ⟨out, hrun, hreaches d c htag hasked hopen (hclear d c htag hasked hopen)⟩

theorem reach_from {s : Talk} {events : List Event} (hkept : Kept s.time s.asked s.expiry s.table)
    (horder : InOrder s.time events) (htalk : ∀ ev ∈ events, ev.IsRequest ∨ ev.IsReply)
    (hclear : AllClearOfOthers s events) : AllReach s events := by
  induction events generalizing s with
  | nil => exact hkept.notMistaken
  | cons ev rest ih =>
      obtain ⟨htime, hrest⟩ := horder
      obtain ⟨hhere, hnext⟩ := hclear
      obtain ⟨hreaches, s', hstep, htime', hkept'⟩ :=
        Talk.step_kept hkept htime (htalk ev List.mem_cons_self) hhere
      refine ⟨hkept.notMistaken, hreaches, s', hstep, ih hkept' ?_ ?_ (hnext s' hstep)⟩
      · rw [htime']
        exact hrest
      · exact fun x hx => htalk x (List.mem_cons_of_mem _ hx)

/-- In every run of requests and replies, from any table in which no id is
alive for two MACs: if the temporary id of every request is not 0 and no
other host's, and no reply brings another host's session, then every reply
to an open request reaches the client that sent it, and in all states the
lookup of an id answers for the host that has it. -/
theorem replies_reach (table : ArpnatTable) (time : Nat) (events : List Event)
    (hapart : Apart time table) (horder : InOrder time events)
    (htalk : ∀ ev ∈ events, ev.IsRequest ∨ ev.IsReply)
    (hclear : AllClearOfOthers (Talk.start table time) events) :
    AllReach (Talk.start table time) events := by
  refine reach_from ⟨hapart, ?_, ?_⟩ horder htalk hclear
  · intro d c hasked
    cases hasked
  · intro d c hasked
    cases hasked

/-! ## Two clients -/

/-- A discovery packet with a Host-Uniq tag. -/
def discovery (dmac smac : Mac) (code sid : UInt8) (uniq : List UInt8) : Skb :=
  frameOf (List.ofFn dmac ++ List.ofFn smac ++ [0x88, 0x63, 0x11, code, 0, sid, 0,
    4 + uniq.length.toUInt8, 1, 3, 0, uniq.length.toUInt8] ++ uniq)

/-- A client looks for a server. -/
def padi (smac : Mac) (uniq : List UInt8) (jiffies : Nat) : Event :=
  ⟨false, plainEnv, jiffies, discovery (fun _ => 0xff) smac PADI_CODE 0 uniq, -1⟩

/-- A server offers itself to the bridge's uplink. -/
def pado (uniq : List UInt8) (jiffies : Nat) : Event :=
  ⟨true, plainEnv, jiffies, discovery plainEnv.devAddr ![2, 0, 0, 0, 0, 0x30] PADO_CODE 0 uniq, -1⟩

/-- A server gives a session to the bridge's uplink. -/
def pads (uniq : List UInt8) (sid : UInt8) (jiffies : Nat) : Event :=
  ⟨true, plainEnv, jiffies, discovery plainEnv.devAddr ![2, 0, 0, 0, 0, 0x30] PADS_CODE sid uniq, -1⟩

theorem padi_hostA_isRequest : (padi hostA [1] 0).IsRequest :=
  ⟨rfl, ⟨by decide, by decide⟩, by decide, Or.inl (by decide)⟩

theorem padi_hostB_isRequest : (padi hostB [0, 1] 1).IsRequest :=
  ⟨rfl, ⟨by decide, by decide⟩, by decide, Or.inl (by decide)⟩

/-- Two clients whose Host-Uniq values differ by a leading zero have the
same temporary id. The offer for the first goes to the second. -/
theorem reach_fails_leadingZero :
    InOrder 0 [padi hostA [1] 0, padi hostB [0, 1] 1, pado [1] 2] ∧
    (∀ ev ∈ [padi hostA [1] 0, padi hostB [0, 1] 1, pado [1] 2], ev.IsRequest ∨ ev.IsReply) ∧
    ∃ s, ((Talk.start [] 0).step (padi hostA [1] 0)).bind (Talk.step · (padi hostB [0, 1] 1)) =
        some s ∧
      s.asked [1] = some hostA ∧ 2 ≤ s.expiry (crc16 0 [1]) ∧
      ((pado [1] 2).run s.table).map (fun h => h.skb.mac 0) = some hostB ∧
      ¬ Reaches s (pado [1] 2) := by
  have huniqA : (padi hostA [1] 0).uniq = [1] := by decide
  have huniqB : (padi hostB [0, 1] 1).uniq = [0, 1] := by decide
  have hclientA : (padi hostA [1] 0).client = hostA := by decide
  have hclientB : (padi hostB [0, 1] 1).client = hostB := by decide
  have hcrc : crc16 0 [0, 1] = crc16 0 [1] := by decide +kernel
  have hpado : (pado [1] 2).IsReply := ⟨rfl, ⟨by decide, by decide⟩, Or.inl (by decide)⟩
  have hrun : ((pado [1] 2).run (updatePppoeNat clock100 1 hostB (crc16 0 [1]) PPPOE_ADD_TMP
      (updatePppoeNat clock100 0 hostA (crc16 0 [1]) PPPOE_ADD_TMP []).toList).toList).map
        (fun h => h.skb.mac 0) = some hostB := by decide +kernel
  refine ⟨⟨by decide, by decide, by decide, trivial⟩, ?_, ?_⟩
  · intro ev hev
    simp only [List.mem_cons, List.not_mem_nil, or_false] at hev
    rcases hev with rfl | rfl | rfl
    · exact Or.inl padi_hostA_isRequest
    · exact Or.inl padi_hostB_isRequest
    · exact Or.inr hpado
  · simp only [Talk.step_request padi_hostA_isRequest, Option.bind_some,
      Talk.step_request padi_hostB_isRequest, huniqA, huniqB, hclientA, hclientB, hcrc]
    refine ⟨_, rfl, ?_, ?_, ?_, fun hreaches => ?_⟩
    · simp [padi, plainEnv, clock100]
    · simp [padi, plainEnv, clock100]
    · exact hrun
    · obtain ⟨out, hout, hmac⟩ := hreaches [1] hostA rfl (by decide)
        (by simp [padi, plainEnv, clock100]) (by simp [pado, padi, plainEnv, clock100])
      have hboth := hrun.symm.trans (congrArg (Option.map fun h => h.skb.mac 0) hout)
      rw [Option.map_some, hmac] at hboth
      exact absurd hboth (by decide)

/-- Two clients with other Host-Uniq values: the session goes to the client
that asked for it. -/
theorem replies_reach_twoClients :
    AllReach (Talk.start [] 0) [padi hostA [1] 0, padi hostB [0, 2] 1, pads [1] 7 2] := by
  have hpadiB : (padi hostB [0, 2] 1).IsRequest :=
    ⟨rfl, ⟨by decide, by decide⟩, by decide, Or.inl (by decide)⟩
  have hpads : (pads [1] 7 2).IsReply := ⟨rfl, ⟨by decide, by decide⟩, Or.inr (by decide)⟩
  have huniqA : (padi hostA [1] 0).uniq = [1] := by decide
  have huniqB : (padi hostB [0, 2] 1).uniq = [0, 2] := by decide
  have hclientA : (padi hostA [1] 0).client = hostA := by decide
  have hclientB : (padi hostB [0, 2] 1).client = hostB := by decide
  refine replies_reach [] 0 _ ?_ ⟨by decide, by decide, by decide, trivial⟩ ?_ ?_
  · intro id _
    exact ⟨hostA, by simp [Held]⟩
  · intro ev hev
    simp only [List.mem_cons, List.not_mem_nil, or_false] at hev
    rcases hev with rfl | rfl | rfl
    · exact Or.inl padi_hostA_isRequest
    · exact Or.inl hpadiB
    · exact Or.inr hpads
  · refine ⟨?_, fun s₁ h₁ => ?_⟩
    · simp only [ClearOfOthers, padi_hostA_isRequest.1, huniqA]
      exact ⟨by decide, by simp [Held, Talk.start]⟩
    · rw [Talk.step_request padi_hostA_isRequest, huniqA, hclientA] at h₁
      obtain rfl := Option.some.inj h₁
      refine ⟨?_, fun s₂ h₂ => ?_⟩
      · simp only [ClearOfOthers, hpadiB.1, huniqB, hclientB]
        refine ⟨by decide +kernel, ?_⟩
        have hall : ∀ e ∈ (updatePppoeNat clock100 0 hostA (crc16 0 [1]) PPPOE_ADD_TMP []).toList,
            ∀ r ∈ e.data, r.pppoeId ≠ crc16 0 [0, 2] := by decide +kernel
        exact fun e he r hr hid => absurd hid (hall e he r hr)
      · rw [Talk.step_request hpadiB, huniqB, hclientB] at h₂
        obtain rfl := Option.some.inj h₂
        refine ⟨?_, fun _ _ => trivial⟩
        simp only [ClearOfOthers, hpads.1, if_true]
        intro d c _ _ _ _
        have hall : ∀ e ∈ (updatePppoeNat clock100 1 hostB (crc16 0 [0, 2]) PPPOE_ADD_TMP
            (updatePppoeNat clock100 0 hostA (crc16 0 [1]) PPPOE_ADD_TMP []).toList).toList,
            ∀ r ∈ e.data, r.pppoeId ≠ 7 := by decide +kernel
        have hsid : (pads [1] 7 2).sid = 7 := by decide
        rw [hsid]
        exact fun e he r hr hid => absurd hid (hall e he r hr)

end UbntSdk.Arpnat
