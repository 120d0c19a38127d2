/-
UbntSdk.Arpnat.ArpTheorems — what `do_in` decides about an ARP frame.

A frame for an address that the table knows goes to the host that has it, a
multicast frame is left alone. All others are for the bridge, and
`do_arp_in` would drop a gratuitous one: it compares where the two addresses
stand in the frame and not the addresses, so it never does
(`arpDecision_iff`).
-/
import UbntSdk.Arpnat.RoundTrip

namespace UbntSdk.Arpnat

open UbntSdk.Lib

/-- The first entry that has an unexpired record of the address. -/
def FirstFor (jiffies : Nat) (ip : UInt32) (table : ArpnatTable) (e : Mac2ip) : Prop :=
  ∃ pre post, table = pre ++ e :: post ∧
    (∀ x ∈ pre, ¬LiveIn jiffies (ArpnatData.IsIp ip) x) ∧ LiveIn jiffies (ArpnatData.IsIp ip) e

/-- An unexpired record of the address. -/
def Known (jiffies : Nat) (ip : UInt32) (table : ArpnatTable) : Prop :=
  ∃ e ∈ table, LiveIn jiffies (ArpnatData.IsIp ip) e

section

variable {jiffies vlan : Nat} {ip : UInt32} {table : ArpnatTable} {e : Mac2ip}

/-- What the search finds is the first entry; only its records may be fewer. -/
theorem findIpNat_firstFor (h : (findIpNat jiffies ip table).node? = some e) :
    ∃ x, FirstFor jiffies ip table x ∧ e.mac = x.mac := by
  cases hfind : findIpNat jiffies ip table with
  | miss table' =>
      rw [hfind] at h
      cases h
  | hit before x after =>
      rw [hfind] at h
      cases h
      obtain ⟨pre, y, htable, hpre, hlive, hpruned, _⟩ :=
        findNat_hit (mac2ipFindIp_finds ip) hfind
      exact ⟨y, ⟨pre, after, htable, hpre, hlive⟩, hpruned.1⟩

theorem findIpNat_none_iff :
    (findIpNat jiffies ip table).node? = none ↔ ¬Known jiffies ip table := by
  rw [← Option.not_isSome_iff_eq_none, Known, ← findNat_isSome (mac2ipFindIp_finds ip) table]
  rfl

end

/-! ## The decision -/

/-- The sender and the target address of an ARP frame. -/
def arpSip (vlan : Nat) (skb : Skb) : UInt32 := skb.u32 (NETWORK_HEADER + vlan + 14)
def arpDip (vlan : Nat) (skb : Skb) : UInt32 := skb.u32 (NETWORK_HEADER + vlan + 24)

/-- What is to become of an ARP frame: the hook before and after. -/
structure ArpDecision (env : Env) (jiffies vlan : Nat) (h h' : Hook) : Prop where
  host : Known jiffies (arpDip vlan h.skb) h.table → h.unicast = true →
    ∃ e, FirstFor jiffies (arpDip vlan h.skb) h.table e ∧ h'.skb.mac 0 = e.mac ∧
      h'.skb.mac (NETWORK_HEADER + vlan + 18) = e.mac
  multicast : Known jiffies (arpDip vlan h.skb) h.table → h.unicast = false → h'.skb = h.skb
  gratuitous : ¬Known jiffies (arpDip vlan h.skb) h.table → arpSip vlan h.skb = arpDip vlan h.skb →
    h'.target = EBT_DROP
  bridge : ¬Known jiffies (arpDip vlan h.skb) h.table → arpSip vlan h.skb ≠ arpDip vlan h.skb →
    h'.target = h.target ∧ (h.unicast = true → h'.skb.mac 0 = env.brAddr)

section

variable {env : Env} {jiffies vlan : Nat} {h : Hook}

/-- A frame for an address that the table knows: a multicast frame stays. -/
theorem doIn_arp_multicast {e : Mac2ip} (harp : IsArp vlan h.skb) (hmulti : h.unicast = false)
    (hfind : (findIpNat jiffies (arpDip vlan h.skb) h.table).node? = some e) :
    ∃ h', doIn env jiffies h = some h' ∧ h'.skb = h.skb := by
  obtain ⟨hproto, hip, htalk, hlen⟩ := harp
  obtain ⟨_, _, _, hdip⟩ := arp_pointers hlen
  have hmulti' : ∀ table, Hook.unicast { h with table } = false := fun _ => hmulti
  rw [arpDip] at hfind
  simp only [doIn, switchIn, hproto, if_true, doArpIn, hip, Option.bind_eq_bind, hdip,
    Option.bind_some, htalk, hfind, hmulti']
  exact ⟨_, rfl, rfl⟩

/-- A frame for any other address: the two pointers are never equal. -/
theorem doIn_arp_unknown (harp : IsArp vlan h.skb)
    (hfind : (findIpNat jiffies (arpDip vlan h.skb) h.table).node? = none) :
    ∃ h', doIn env jiffies h = some h' ∧ h'.target = h.target ∧
      (h.unicast = true → h'.skb.mac 0 = env.brAddr) := by
  obtain ⟨hproto, hip, htalk, hlen⟩ := harp
  obtain ⟨_, hsip, _, hdip⟩ := arp_pointers hlen
  have hpointers : ¬ NETWORK_HEADER + vlan + 14 = NETWORK_HEADER + vlan + 24 := by omega
  rw [arpDip] at hfind
  simp only [doIn, switchIn, hproto, if_true, doArpIn, hip, Option.bind_eq_bind, hsip, hdip,
    Option.bind_some, htalk, hfind, Option.some.injEq, hpointers, if_false]
  refine ⟨_, rfl, ?_, fun huni => ?_⟩
  · dsimp only
    split <;> rfl
  · have huni' : ∀ table, Hook.unicast { h with table } = true := fun _ => huni
    simp only [Bool.true_and, huni', if_true]
    exact Skb.mac_putMac _ _ _

/-- Exactly when an ARP frame is treated like that: it is not a gratuitous one
for an address that the table does not know, or all frames are dropped. -/
theorem arpDecision_iff (harp : IsArp vlan h.skb) :
    (∃ h', doIn env jiffies h = some h' ∧ ArpDecision env jiffies vlan h h') ↔
      Known jiffies (arpDip vlan h.skb) h.table ∨ arpSip vlan h.skb ≠ arpDip vlan h.skb ∨
        h.target = EBT_DROP := by
  by_cases hknown : Known jiffies (arpDip vlan h.skb) h.table
  · refine iff_of_true ?_ (Or.inl hknown)
    have hsome : ∃ e, (findIpNat jiffies (arpDip vlan h.skb) h.table).node? = some e := by
      rw [← Option.ne_none_iff_exists']
      exact fun hnone => findIpNat_none_iff.mp hnone hknown
    obtain ⟨e, he⟩ := hsome
    cases huni : h.unicast with
    | true =>
        obtain ⟨h', hdo, hdest, htarget, _⟩ := doIn_arp harp huni he
        obtain ⟨x, hx, hmac⟩ := findIpNat_firstFor he
        refine ⟨h', hdo, fun _ _ => ⟨x, hx, hdest.trans hmac, htarget.trans hmac⟩,
          fun _ hmulti => ?_, fun hno => absurd hknown hno, fun hno => absurd hknown hno⟩
        rw [huni] at hmulti
        cases hmulti
    | false =>
        obtain ⟨h', hdo, hsame⟩ := doIn_arp_multicast harp huni he
        refine ⟨h', hdo, fun _ hmulti => ?_, fun _ _ => hsame, fun hno => absurd hknown hno,
          fun hno => absurd hknown hno⟩
        rw [huni] at hmulti
        cases hmulti
  · obtain ⟨h', hdo, htarget, hdest⟩ := doIn_arp_unknown harp (findIpNat_none_iff.mpr hknown)
    rw [or_iff_right hknown]
    constructor
    · rintro ⟨h'', hdo', hdecision⟩
      have heq : h' = h'' := Option.some.inj (hdo.symm.trans hdo')
      subst heq
      by_cases hsame : arpSip vlan h.skb = arpDip vlan h.skb
      · exact Or.inr (htarget.symm.trans (hdecision.gratuitous hknown hsame))
      · exact Or.inl hsame
    · intro hcond
      refine ⟨h', hdo, fun hyes => absurd hyes hknown, fun hyes => absurd hyes hknown,
        fun _ hsame => ?_, fun _ _ => ⟨htarget, hdest⟩⟩
      rcases hcond with hne | hdrop
      · exact absurd hsame hne
      · exact htarget.trans hdrop

end

/-- An ARP request from `sip` for `dip` that comes in. -/
def arpRequest (dest : List UInt8) (sip dip : List UInt8) : Skb :=
  frameOf (dest ++ [2, 0, 0, 0, 0, 0x30, 8, 6, 0, 1, 8, 0, 6, 4, 0, 1, 2, 0, 0, 0, 0, 0x30] ++ sip ++
    [0, 0, 0, 0, 0, 0] ++ dip)

/-- 10.0.0.9 asks the bridge for 10.0.0.1. -/
def question : Hook :=
  ⟨arpRequest [2, 0, 0, 0, 0, 0x20] [10, 0, 0, 9] [10, 0, 0, 1], [], -1, []⟩

theorem question_isArp : IsArp 0 question.skb := ⟨by decide, by decide, by decide, by decide⟩

/-- A request for an address that nobody is known to have goes to the bridge. -/
theorem arpDecision_question :
    ∃ h', doIn plainEnv 0 question = some h' ∧ ArpDecision plainEnv 0 0 question h' := by
  have hne : arpSip 0 question.skb ≠ arpDip 0 question.skb := by decide
  exact (arpDecision_iff question_isArp).mpr (Or.inr (Or.inl hne))

/-- A broadcast of 10.0.0.9 about itself is let through. -/
def announcement : Hook :=
  ⟨arpRequest [0xff, 0xff, 0xff, 0xff, 0xff, 0xff] [10, 0, 0, 9] [10, 0, 0, 9], [], -1, []⟩

theorem announcement_passes : IsArp 0 announcement.skb ∧
    ¬Known 0 (arpDip 0 announcement.skb) announcement.table ∧
    arpSip 0 announcement.skb = arpDip 0 announcement.skb ∧
    ∃ h', doIn plainEnv 0 announcement = some h' ∧ h'.target ≠ EBT_DROP ∧
      ¬ArpDecision plainEnv 0 0 announcement h' := by
  have harp : IsArp 0 announcement.skb := ⟨by decide, by decide, by decide, by decide⟩
  have hunknown : ¬Known 0 (arpDip 0 announcement.skb) announcement.table := by
    rintro ⟨e, he, _⟩
    cases he
  have hsame : arpSip 0 announcement.skb = arpDip 0 announcement.skb := by decide
  have hin : ∃ h', doIn plainEnv 0 announcement = some h' ∧ h'.target = announcement.target ∧
      (announcement.unicast = true → h'.skb.mac 0 = plainEnv.brAddr) :=
    doIn_arp_unknown harp (findIpNat_none_iff.mpr hunknown)
  obtain ⟨h', hdo, htarget, _⟩ := hin
  have hpasses : h'.target ≠ EBT_DROP := by
    rw [htarget]
    decide
  exact ⟨harp, hunknown, hsame, h', hdo, hpasses, fun hdecision =>
    hpasses (hdecision.gratuitous hunknown hsame)⟩

end UbntSdk.Arpnat
