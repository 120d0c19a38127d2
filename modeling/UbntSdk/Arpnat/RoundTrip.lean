/-
UbntSdk.Arpnat.RoundTrip — out with one address, in with the other.

A host `m` sends from an address `a`, and nobody else does. Whatever goes
through the hooks before and after, frames that come in for `a` are then
rewritten to `m` as long as the record lives (`roundTrip`).

That only `m` sends from `a` makes every frame that teaches `a` clear in the
sense of `UbntSdk.Arpnat.OwnerTheorems`: `Delivers` is the invariant, for
this one address. The bytes of the two frames are those of
`UbntSdk.Arpnat.FrameTheorems`; a DHCP client's packet is the only one of
which more is written (`BootpWrites`).
-/
import UbntSdk.Arpnat.OwnerTheorems

namespace UbntSdk.Arpnat

open UbntSdk.Lib

/-! ## The address of one host -/

/-- Only `m` has records of `a`. -/
def OnlyFrom (m : Mac) (a : UInt32) (t : ArpnatTable) : Prop :=
  ∀ e ∈ t, ∀ r ∈ e.data, r.ip = a → e.mac = m

section

variable {m mac : Mac} {a : UInt32} {jiffies : Nat}

theorem OnlyFrom.change {ip : UInt32} {id : UInt16} {t t' : ArpnatTable}
    (h : OnlyFrom m a t) (hmac : ip = a → mac = m) (hchange : Change jiffies mac ip id t t') :
    OnlyFrom m a t' := by
  cases hchange with
  | prune hpruned =>
      intro e' he' r hr hip
      obtain ⟨e, he, hee⟩ := hpruned.mem_after he'
      obtain ⟨r', hr', rfl⟩ := hee.2.mem_after hr
      exact hee.1.trans (h e he r' hr' hip)
  | @refresh before after older newer r expires hr hexpires =>
      have hplace := h ⟨mac, older ++ r :: newer⟩ (by simp)
      intro e he x hx hip
      simp only [List.mem_append, List.mem_cons] at he
      rcases he with he | rfl | he
      · exact h e (by simp [he]) x hx hip
      · simp only [List.mem_append, List.mem_cons] at hx
        rcases hx with hx | rfl | hx
        · exact hplace x (by simp [hx]) hip
        · exact hplace r (by simp) hip
        · exact hplace x (by simp [hx]) hip
      · exact h e (by simp [he]) x hx hip
  | @record before after data expires hnew hexpires =>
      have hplace := h ⟨mac, data⟩ (by simp)
      intro e he x hx hip
      simp only [List.mem_append, List.mem_cons] at he
      rcases he with he | rfl | he
      · exact h e (by simp [he]) x hx hip
      · rcases List.mem_cons.mp hx with rfl | hx
        · exact hmac hip
        · exact hplace x hx hip
      · exact h e (by simp [he]) x hx hip
  | entry hnew =>
      intro e he x hx hip
      rcases List.mem_cons.mp he with rfl | he
      · cases hx
      · exact h e he x hx hip

theorem OnlyFrom.changes {ip : UInt32} {id : UInt16} {t t' : ArpnatTable}
    (h : OnlyFrom m a t) (hmac : ip = a → mac = m) (hchanges : Changes jiffies mac ip id t t') :
    OnlyFrom m a t' := by
  induction hchanges with
  | refl => exact h
  | tail _ hchange ih => exact ih.change hmac hchange

theorem OnlyFrom.quiet {t t' : ArpnatTable} (h0 : a ≠ 0) (h : OnlyFrom m a t)
    (hquiet : Quiet jiffies t t') : OnlyFrom m a t' := by
  induction hquiet with
  | refl => exact h
  | tail _ hstep ih =>
      obtain ⟨mac, id, hchanges⟩ := hstep
      exact ih.changes (fun hzero => absurd hzero.symm h0) hchanges

/-- A MAC has one entry, so nobody stands in front of `m`. -/
theorem OnlyFrom.clear {t : ArpnatTable} (hs : Sane t) (h : OnlyFrom m a t) :
    Clear jiffies m a t := by
  rintro pre e post rfl he _ x hx ⟨r, hr, ⟨_, hip⟩, _⟩
  have hxm : x.mac = m := h x (by simp [hx]) r hr hip
  have hmacs := hs.ok.macs
  simp only [List.map_append, List.map_cons] at hmacs
  have hdisjoint := (List.nodup_append.mp hmacs).2.2
  exact hdisjoint x.mac (List.mem_map_of_mem hx) e.mac (by simp) (hxm.trans he.symm)

/-- Nobody but `m` has sent from `a`, and the table answers for `m` as long
as the record that was learned last lives. -/
structure Delivers (m : Mac) (a : UInt32) (s : State) : Prop where
  sane : Sane s.table
  only : OnlyFrom m a s.table
  latest : ∀ m' expires, s.latest a = some (m', expires) → m' = m ∧
    (s.time ≤ expires → ∃ since, since ≤ s.time ∧ Owned since m a expires s.table)

theorem Delivers.step {s s' : State} {ev : Event} (h0 : a ≠ 0) (h : Delivers m a s)
    (htime : s.time ≤ ev.jiffies) (hm : ∀ m', ev.learns = some (m', a) → m' = m)
    (hstep : s.step ev = some s') : Delivers m a s' := by
  obtain ⟨hook, hrun, rfl⟩ := Option.map_eq_some_iff.mp hstep
  have htable := Event.run_table hrun
  cases hl : ev.learns with
  | none =>
      rw [hl] at htable
      refine ⟨h.sane.run hrun, h.only.quiet h0 htable, fun m' expires hlatest => ?_⟩
      obtain ⟨hm', howned⟩ := h.latest m' expires hlatest
      refine ⟨hm', fun hle => ?_⟩
      obtain ⟨since, hsince, howned⟩ := howned (by dsimp only at hle; omega)
      exact ⟨since, Nat.le_trans hsince htime, howned.quiet h0 h.sane hle htable⟩
  | some p =>
      obtain ⟨m', ip⟩ := p
      rw [hl] at htable
      dsimp only at htable
      refine ⟨h.sane.run hrun, ?_, fun m'' expires hlatest => ?_⟩
      · dsimp only
        rw [htable]
        refine h.only.changes (fun hip => ?_) (updateNat_changes ev.env.clock m' ip 0 s.table)
        exact hm m' (hip ▸ hl)
      · dsimp only at hlatest ⊢
        rw [htable]
        by_cases hip : a = ip
        · subst hip
          rw [Function.update_self] at hlatest
          cases hlatest
          obtain rfl := hm m' hl
          exact ⟨rfl, fun _ => ⟨ev.jiffies, Nat.le_refl _, owned_learn h0 (h.only.clear h.sane)⟩⟩
        · rw [Function.update_of_ne hip] at hlatest
          obtain ⟨hm', howned⟩ := h.latest m'' expires hlatest
          refine ⟨hm', fun hle => ?_⟩
          obtain ⟨since, hsince, howned⟩ := howned (by omega)
          exact ⟨since, Nat.le_trans hsince htime,
            howned.learn_other h0 (Ne.symm hip) h.sane hle⟩

end

/-! ## Runs -/

/-- The state after some frames. -/
def State.steps : State → List Event → Option State
  | s, [] => some s
  | s, ev :: rest => (s.step ev).bind fun s' => s'.steps rest

theorem step_time {s s' : State} {ev : Event} (h : s.step ev = some s') : s'.time = ev.jiffies := by
  obtain ⟨_, _, rfl⟩ := Option.map_eq_some_iff.mp h
  rfl

/-- The order of two runs and a frame between them. -/
theorem inOrder_append {time : Nat} {before between : List Event} {ev : Event}
    (h : InOrder time (before ++ ev :: between)) {s s' : State} (hs : s.time = time)
    (hsteps : s.steps before = some s') :
    InOrder time before ∧ s'.time ≤ ev.jiffies ∧ InOrder ev.jiffies between := by
  induction before generalizing s time with
  | nil =>
      cases hsteps
      exact ⟨trivial, hs ▸ h.1, h.2⟩
  | cons first rest ih =>
      obtain ⟨s₁, hstep, hsteps⟩ := Option.bind_eq_some_iff.mp hsteps
      obtain ⟨hrest, htime, hbetween⟩ := ih h.2 (step_time hstep) hsteps
      exact ⟨⟨h.1, hrest⟩, htime, hbetween⟩

theorem Delivers.steps {m : Mac} {a : UInt32} {s s' : State} {events : List Event} (h0 : a ≠ 0)
    (h : Delivers m a s) (horder : InOrder s.time events)
    (hm : ∀ ev ∈ events, ∀ m', ev.learns = some (m', a) → m' = m)
    (hsteps : s.steps events = some s') : Delivers m a s' := by
  induction events generalizing s with
  | nil =>
      cases hsteps
      exact h
  | cons ev rest ih =>
      obtain ⟨htime, hrest⟩ := horder
      obtain ⟨hev, hothers⟩ := List.forall_mem_cons.mp hm
      obtain ⟨s₁, hstep, hsteps⟩ := Option.bind_eq_some_iff.mp hsteps
      exact ih (h.step h0 htime hev hstep) (step_time hstep ▸ hrest) hothers hsteps

theorem steps_latest {a : UInt32} {s s' : State} {events : List Event}
    (hsteps : s.steps events = some s') (h : (s.latest a).isSome = true) :
    (s'.latest a).isSome = true := by
  induction events generalizing s with
  | nil =>
      cases hsteps
      exact h
  | cons ev rest ih =>
      obtain ⟨s₁, hstep, hsteps⟩ := Option.bind_eq_some_iff.mp hsteps
      refine ih hsteps ?_
      obtain ⟨hook, _, rfl⟩ := Option.map_eq_some_iff.mp hstep
      cases hl : ev.learns with
      | none => exact h
      | some p =>
          by_cases hip : a = p.2
          · simp [hip]
          · simpa [Function.update_of_ne hip] using h

/-! ## The round trip -/

/-- An ARP request or reply, or an IP packet that is no later fragment, that
host `m` sends from `a`. -/
inductive SentFrom (m : Mac) (a : UInt32) (vlan : Nat) (skb : Skb) : Prop
  | arp (harp : IsArp vlan skb) (hsource : skb.mac 6 = m)
      (hsender : skb.mac (NETWORK_HEADER + vlan + 8) = m)
      (haddr : skb.u32 (NETWORK_HEADER + vlan + 14) = a)
  | ip (hip : IsIp vlan skb) (hfrag : isFragment skb (NETWORK_HEADER + vlan) = false)
      (hsource : skb.mac 6 = m) (haddr : skb.u32 (NETWORK_HEADER + vlan + 12) = a)

theorem SentFrom.learned {m : Mac} {a : UInt32} {vlan : Nat} {skb : Skb}
    (h : SentFrom m a vlan skb) : learned skb = some (m, a) := by
  cases h with
  | arp harp hsource hsender haddr =>
      obtain ⟨hproto, hip, htalk, _⟩ := harp
      simp [Arpnat.learned, hproto, hip, htalk, hsender, haddr]
  | ip hip hfrag hsource haddr =>
      have hne : ETH_P_IP ≠ ETH_P_ARP := by decide
      simp [Arpnat.learned, show etherProto skb = (ETH_P_IP, vlan) from hip, hne, hfrag, hsource,
        haddr]

/-- What leaves: an ARP frame to the bridge as it was, any other frame with
the address of the output device for that of the host, and no other byte
changed but those of `do_bootp_out`. -/
def SentOut (env : Env) (vlan : Nat) (skb skb' : Skb) : Prop :=
  (IsArp vlan skb → env.confirmAddr (skb.u32 (NETWORK_HEADER + vlan + 24)) ≠ 0 → skb' = skb) ∧
  (IsArp vlan skb → env.confirmAddr (skb.u32 (NETWORK_HEADER + vlan + 24)) = 0 →
    skb'.mac 6 = env.devAddr ∧ skb'.mac (NETWORK_HEADER + vlan + 8) = env.devAddr ∧
    SameBut [6, NETWORK_HEADER + vlan + 8] skb skb') ∧
  (IsIp vlan skb → skb'.mac 6 = env.devAddr ∧ skb'.len = skb.len ∧
    ∀ i, i < 6 ∨ 12 ≤ i → ¬ BootpWrites env skb (NETWORK_HEADER + vlan) i → skb'.mem i = skb.mem i)

/-- What comes in: the address of the host in the Ethernet destination and
in the target of an ARP frame, and no other byte changed. -/
def SentIn (m : Mac) (vlan : Nat) (skb skb' : Skb) : Prop :=
  skb'.mac 0 = m ∧
  (IsArp vlan skb → skb'.mac (NETWORK_HEADER + vlan + 18) = m ∧
    SameBut [0, NETWORK_HEADER + vlan + 18] skb skb') ∧
  (IsIp vlan skb → SameBut [0] skb skb')

theorem not_isArp_of_isIp {vlan : Nat} {skb : Skb} (h : IsIp vlan skb) : ¬ IsArp vlan skb := by
  intro harp
  have heq : ETH_P_IP = ETH_P_ARP := congrArg Prod.fst (h.symm.trans harp.1)
  exact absurd heq (by decide)

theorem doOut_sentOut {env : Env} {jiffies vlan : Nat} {m : Mac} {a : UInt32} {h : Hook}
    (hsent : SentFrom m a vlan h.skb) :
    ∃ h', doOut env jiffies h = some h' ∧ SentOut env vlan h.skb h'.skb := by
  cases hsent with
  | arp harp _ _ _ =>
      by_cases hbridge : env.confirmAddr (h.skb.u32 (NETWORK_HEADER + vlan + 24)) = 0
      · obtain ⟨h', hdo, hbytes⟩ := @doOut_arp env jiffies vlan h harp hbridge
        exact ⟨h', hdo, fun _ hne => absurd hbridge hne, fun _ _ => hbytes,
          fun hip => absurd harp (not_isArp_of_isIp hip)⟩
      · obtain ⟨h', hdo, hsame⟩ := @doOut_arp_bridge env jiffies vlan h harp hbridge
        exact ⟨h', hdo, fun _ _ => hsame, fun _ hzero => absurd hzero hbridge,
          fun hip => absurd harp (not_isArp_of_isIp hip)⟩
  | ip hip _ _ _ =>
      obtain ⟨h', hdo, hbytes⟩ := @doOut_ip env jiffies vlan h hip
      exact ⟨h', hdo, fun harp => absurd harp (not_isArp_of_isIp hip),
        fun harp => absurd harp (not_isArp_of_isIp hip), fun _ => hbytes⟩

theorem doIn_sentIn {env : Env} {jiffies vlan : Nat} {a : UInt32} {h : Hook} {e : Mac2ip}
    (hcomes : ComesFor env a vlan h.skb) (huni : h.unicast = true)
    (hfind : (findIpNat jiffies a h.table).node? = some e) :
    ∃ h', doIn env jiffies h = some h' ∧ SentIn e.mac vlan h.skb h'.skb := by
  cases hcomes with
  | arp harp haddr =>
      subst haddr
      obtain ⟨h', hdo, hdest, hbytes⟩ := @doIn_arp env jiffies vlan h e harp huni hfind
      exact ⟨h', hdo, hdest, fun _ => hbytes, fun hip => absurd harp (not_isArp_of_isIp hip)⟩
  | ip hip hlen hdhcp haddr hbridge =>
      subst haddr
      obtain ⟨h', hdo, hdest, hbytes⟩ := @doIn_ip env jiffies vlan h e hip hlen hdhcp hbridge hfind
      exact ⟨h', hdo, hdest, fun harp => absurd harp (not_isArp_of_isIp hip), fun _ => hbytes⟩

/-- Host `m` sends a frame from `a`, after some traffic and before some
more, in all of which nobody else sends from `a`. The frame leaves as
`SentOut` says, and a frame that then comes in for `a` is rewritten to `m`
as `SentIn` says, as long as the record of `a` lives. -/
theorem roundTrip (m : Mac) (a : UInt32) (h0 : a ≠ 0) (before between : List Event) (ev : Event)
    (s₀ : State) (hbefore : State.start.steps before = some s₀) (hout : ev.inbound = false)
    (vlan : Nat) (hsent : SentFrom m a vlan ev.skb)
    (horder : InOrder 0 (before ++ ev :: between))
    (honly : ∀ other ∈ before ++ between, ∀ m', other.learns = some (m', a) → m' = m) :
    (∃ h, ev.run s₀.table = some h ∧ SentOut ev.env vlan ev.skb h.skb) ∧
    ∀ s₂, (s₀.step ev).bind (State.steps · between) = some s₂ →
      ∃ expires, s₂.latest a = some (m, expires) ∧
        ∀ env jiffies vlan' h, s₂.time ≤ jiffies → jiffies ≤ expires → h.table = s₂.table →
          h.unicast = true → ComesFor env a vlan' h.skb →
          ∃ h', doIn env jiffies h = some h' ∧ SentIn m vlan' h.skb h'.skb := by
  obtain ⟨horder₀, htime, horder₂⟩ := inOrder_append horder rfl hbefore
  have hlearns : ev.learns = some (m, a) := by
    simp [Event.learns, hout, hsent.learned, Option.filter, h0]
  have hstart : Delivers m a State.start :=
    ⟨sane_start, fun e he => (by cases he), fun _ _ h => (by cases h)⟩
  have hdelivers₀ : Delivers m a s₀ :=
    hstart.steps h0 horder₀ (fun other h => honly other (List.mem_append_left _ h)) hbefore
  refine ⟨?_, fun s₂ hrun => ?_⟩
  · obtain ⟨h, hdo, hbytes⟩ := @doOut_sentOut ev.env ev.jiffies vlan m a (ev.hook s₀.table) hsent
    exact ⟨h, by simp [Event.run, hout, hdo], hbytes⟩
  · obtain ⟨s₁, hstep, hsteps⟩ := Option.bind_eq_some_iff.mp hrun
    have hdelivers₁ : Delivers m a s₁ :=
      hdelivers₀.step h0 htime (fun m' h => by rw [hlearns] at h; cases h; rfl) hstep
    have hdelivers₂ : Delivers m a s₂ :=
      hdelivers₁.steps h0 (step_time hstep ▸ horder₂)
        (fun other h => honly other (List.mem_append_right _ h)) hsteps
    have hknown : (s₁.latest a).isSome = true := by
      obtain ⟨_, _, rfl⟩ := Option.map_eq_some_iff.mp hstep
      simp [hlearns]
    obtain ⟨⟨m', expires⟩, hlatest⟩ := Option.isSome_iff_exists.mp (steps_latest hsteps hknown)
    obtain ⟨rfl, howned⟩ := hdelivers₂.latest m' expires hlatest
    refine ⟨expires, hlatest, fun env jiffies vlan' h hnow hle htable huni hcomes => ?_⟩
    obtain ⟨since, hsince, howned⟩ := howned (Nat.le_trans hnow hle)
    obtain ⟨e, hfind, hmac⟩ := howned.find h0 (Nat.le_trans hsince hnow) hle
    rw [← htable] at hfind
    obtain ⟨h', hdo, hbytes⟩ := doIn_sentIn hcomes huni hfind
    exact ⟨h', hdo, hmac ▸ hbytes⟩

/-- An IP packet to 10.0.0.1 at the address of the uplink. -/
def packetBack : Skb :=
  frameOf ([2, 0, 0, 0, 0, 0x20, 2, 0, 0, 0, 0, 0x30, 8, 0] ++
    [0x45, 0, 0, 40, 0, 0, 0, 0, 64, 6, 0, 0, 10, 0, 0, 9, 10, 0, 0, 1] ++ List.replicate 20 0)

/-- One host sends, and an answer comes in. -/
theorem roundTrip_hostA :
    (∃ h, (sends hostA 0).run State.start.table = some h ∧
      SentOut plainEnv 0 (packetFrom hostA) h.skb) ∧
    ∃ s, State.start.step (sends hostA 0) = some s ∧
      ∃ h', doIn plainEnv 5 ⟨packetBack, s.table, -1, []⟩ = some h' ∧
        SentIn hostA 0 packetBack h'.skb := by
  have hsent : SentFrom hostA 0x0a000001 0 (packetFrom hostA) :=
    .ip (show etherProto (packetFrom hostA) = (ETH_P_IP, 0) by decide) (by decide) (by decide)
      (by decide)
  have hcomes : ComesFor plainEnv 0x0a000001 0 packetBack :=
    .ip (show etherProto packetBack = (ETH_P_IP, 0) by decide) (by decide) (by decide) (by decide)
      rfl
  obtain ⟨hout, hback⟩ := roundTrip hostA 0x0a000001 (by decide) [] [] (sends hostA 0) State.start
    rfl rfl 0 hsent ⟨Nat.zero_le _, trivial⟩ (by simp)
  refine ⟨hout, _, step_sends_hostA State.start 0, ?_⟩
  obtain ⟨expires, hlatest, hin⟩ := hback _ (by rw [step_sends_hostA]; rfl)
  have hexpires : expires = (sends hostA 0).expires := by
    dsimp only at hlatest
    rw [Function.update_self] at hlatest
    cases hlatest
    rfl
  exact hin plainEnv 5 0 _ (by decide) (by rw [hexpires]; decide) rfl (by decide) hcomes

/-- The bridge has the address 10.0.0.254. -/
def bridgeEnv : Env :=
  { plainEnv with confirmAddr := fun a => if a = 0x0a0000fe then a else 0 }

/-- 10.0.0.1 asks for 10.0.0.254. -/
def arpToBridge : Skb :=
  frameOf ([0xff, 0xff, 0xff, 0xff, 0xff, 0xff] ++ List.ofFn hostA ++ [8, 6] ++
    [0, 1, 8, 0, 6, 4, 0, 1] ++ List.ofFn hostA ++ [10, 0, 0, 1, 0, 0, 0, 0, 0, 0, 10, 0, 0, 254])

/-- A DHCP client asks to keep 10.0.0.1. -/
def dhcpRenewal : Skb :=
  frameOf ([2, 0, 0, 0, 0, 0x30] ++ List.ofFn hostA ++ [8, 0] ++
    [0x45, 0, 0, 68, 0, 0, 0, 0, 64, 17, 0, 0, 10, 0, 0, 1, 10, 0, 0, 9] ++
    [0, 68, 0, 67, 0, 48, 0, 0] ++ List.replicate 40 0)

/-- A UDP datagram without data to 10.0.0.1: 28 bytes behind the MAC header. -/
def shortPacketBack : Skb :=
  frameOf ([2, 0, 0, 0, 0, 0x20, 2, 0, 0, 0, 0, 0x30, 8, 0] ++
    [0x45, 0, 0, 28, 0, 0, 0, 0, 64, 17, 0, 0, 10, 0, 0, 9, 10, 0, 0, 1] ++
    [0, 7, 0, 7, 0, 8, 0, 0])

/-- An ARP frame to the bridge keeps the Ethernet source of the host; of a
DHCP client's packet one more byte is changed, the flags; and an IP packet
of less than 34 bytes does not get the address of the host. -/
theorem roundTrip_exceptions :
    (SentFrom hostA 0x0a000001 0 arpToBridge ∧
      (doOut bridgeEnv 0 ⟨arpToBridge, [], -1, []⟩).map (·.skb.mac 6) = some hostA ∧
      hostA ≠ bridgeEnv.devAddr) ∧
    (SentFrom hostA 0x0a000001 0 dhcpRenewal ∧
      (doOut plainEnv 0 ⟨dhcpRenewal, [], -1, []⟩).map (·.skb.mem 52) = some 0x80 ∧
      dhcpRenewal.mem 52 = 0) ∧
    (etherProto shortPacketBack = (ETH_P_IP, 0) ∧
      shortPacketBack.u32 (NETWORK_HEADER + 16) = 0x0a000001 ∧
      fromDhcpServer plainEnv shortPacketBack NETWORK_HEADER = false ∧
      (doIn plainEnv 1 ⟨shortPacketBack,
        (updateArpNat clock100 0 hostA 0x0a000001 []).toList, -1, []⟩).map (·.skb.mac 0) =
          some plainEnv.devAddr ∧
      plainEnv.devAddr ≠ hostA) := by
  refine ⟨⟨?_, by decide, by decide⟩, ⟨?_, by decide, by decide⟩, by decide, by decide, by decide,
    by decide, by decide⟩
  · exact .arp ⟨by decide, by decide, by decide, by decide⟩ (by decide) (by decide) (by decide)
  · exact .ip (show etherProto dhcpRenewal = (ETH_P_IP, 0) by decide) (by decide) (by decide)
      (by decide)

end UbntSdk.Arpnat
