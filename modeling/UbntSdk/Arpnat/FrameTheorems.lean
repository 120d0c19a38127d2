/-
UbntSdk.Arpnat.FrameTheorems — what the two hooks do to the table and to the
frame.

`learned` is what an outgoing frame teaches: the sender of an ARP request or
reply, the source of an IP packet that is not a later fragment. It is all
that ever gets into the table about addresses: `doOut_learns` for the frames
that teach something, `doOut_quiet` and `doIn_quiet` for all others
(`Quiet`: nothing but unlinking and session ids).

`doIn_arp` and `doIn_ip` are the frames that come in for an address that the
table knows, `doOut_arp` and `doOut_ip` the frames that teach one: which
bytes are written, and that no other is.
-/
import UbntSdk.Arpnat.Frame
import UbntSdk.Arpnat.TableTheorems

namespace UbntSdk.Arpnat

open UbntSdk.Lib

/-! ## Writing into a frame -/

namespace Skb

theorem put_outside (skb : Skb) {off i : Nat} (bs : List UInt8)
    (h : i < off ∨ off + bs.length ≤ i) : (skb.put off bs).mem i = skb.mem i := by
  simp only [put]
  rw [if_neg (by omega)]

theorem putMac_outside (skb : Skb) {off i : Nat} (m : Mac) (h : i < off ∨ off + 6 ≤ i) :
    (skb.putMac off m).mem i = skb.mem i :=
  put_outside skb _ (by simpa using h)

theorem mac_putMac (skb : Skb) (off : Nat) (m : Mac) : (skb.putMac off m).mac off = m := by
  funext k
  have hk : off ≤ off + k.val ∧ off + k.val < off + 6 := by omega
  have hlt : k.val < (List.ofFn m).length := by simp
  simp only [mac, putMac, put, List.length_ofFn, hk, and_self, if_true, Nat.add_sub_cancel_left]
  rw [List.getD_eq_getElem?_getD, List.getElem?_eq_getElem hlt, Option.getD_some, List.getElem_ofFn]

theorem mac_putMac_of_disjoint (skb : Skb) {off off' : Nat} (m : Mac)
    (h : off' + 6 ≤ off ∨ off + 6 ≤ off') : (skb.putMac off m).mac off' = skb.mac off' := by
  funext k
  exact putMac_outside skb m (by omega)

@[simp] theorem put_len (skb : Skb) (off : Nat) (bs : List UInt8) : (skb.put off bs).len = skb.len :=
  rfl

@[simp] theorem putMac_len (skb : Skb) (off : Nat) (m : Mac) : (skb.putMac off m).len = skb.len :=
  rfl

theorem headerPointer_eq_some {skb : Skb} {offset len p : Nat}
    (h : skb.headerPointer offset len = some p) : p = NETWORK_HEADER + offset := by
  unfold headerPointer at h
  split at h
  · cases h
    rfl
  · cases h

theorem headerPointer_some {skb : Skb} {offset len : Nat} (h : offset + len ≤ skb.len) :
    skb.headerPointer offset len = some (NETWORK_HEADER + offset) := by
  simp [headerPointer, h]

end Skb

/-! ## What a frame teaches -/

/-- The MAC and the address that `do_arp_out` or `do_ip_out` learns. -/
def learned (skb : Skb) : Option (Mac × UInt32) :=
  let (proto, vlan) := etherProto skb
  let header := NETWORK_HEADER + vlan
  if proto = ETH_P_ARP then
    if isIpArp skb header && isArpTalk skb header then
      some (skb.mac (header + 8), skb.u32 (header + 14))
    else none
  else if proto = ETH_P_IP then
    if isFragment skb header then none else some (skb.mac 6, skb.u32 (header + 12))
  else none

/-- Changes of the table that are not about an address. -/
def Quiet (jiffies : Nat) : ArpnatTable → ArpnatTable → Prop :=
  Relation.ReflTransGen fun t t' => ∃ mac id, Changes jiffies mac 0 id t t'

theorem Quiet.refl (jiffies : Nat) (t : ArpnatTable) : Quiet jiffies t t :=
  Relation.ReflTransGen.refl

theorem Quiet.pruned {jiffies : Nat} {t t' : ArpnatTable} (h : TablePruned jiffies t t') :
    Quiet jiffies t t' :=
  Relation.ReflTransGen.single ⟨0, 0, Changes.prune h⟩

theorem quiet_findIpNat (jiffies : Nat) (ip : UInt32) (t : ArpnatTable) :
    Quiet jiffies t (findIpNat jiffies ip t).toList :=
  Quiet.pruned (findNat_pruned (mac2ipFindIp_finds ip) t)

theorem quiet_findId (jiffies : Nat) (id : UInt16) (h : Hook) :
    Quiet jiffies h.table (h.findId jiffies id).2.table :=
  Quiet.pruned (findNat_pruned (mac2ipFindPppoeid_finds id) h.table)

theorem quiet_learnId (env : Env) (jiffies : Nat) (mac : Mac) (id : UInt16) (flags : UInt8)
    (h : Hook) : Quiet jiffies h.table (h.learnId env jiffies mac id flags).table :=
  Relation.ReflTransGen.single ⟨mac, id, updatePppoeNat_changes env.clock mac id flags h.table⟩

/-! ## The table after a frame -/

section

variable {env : Env} {jiffies vlan : Nat} {h : Hook}

theorem doArpIn_quiet {nat : Bool} {h' : Hook} (hdo : doArpIn env jiffies vlan h = some (nat, h')) :
    Quiet jiffies h.table h'.table := by
  unfold doArpIn at hdo
  simp only [Option.bind_eq_bind] at hdo
  split at hdo
  · obtain ⟨dipAt, _, hdo⟩ := Option.bind_eq_some_iff.mp hdo
    have hfind := quiet_findIpNat jiffies (h.skb.u32 dipAt) h.table
    split at hdo
    · split at hdo
      · split at hdo
        · obtain ⟨dmacAt, _, hdo⟩ := Option.bind_eq_some_iff.mp hdo
          cases hdo
          exact hfind
        · cases hdo
          exact hfind
      · split at hdo
        · cases hdo
          exact hfind
        · cases hdo
          exact hfind
    · cases hdo
      exact hfind
  · cases hdo
    exact Quiet.refl _ _

theorem doIpIn_quiet : Quiet jiffies h.table (doIpIn env jiffies vlan h).2.table := by
  unfold doIpIn
  dsimp only
  split
  · exact Quiet.refl _ _
  · split
    · exact Quiet.refl _ _
    · split
      · split <;> exact quiet_findIpNat _ _ _
      · split <;> exact quiet_findIpNat _ _ _

theorem pppoedSession_quiet (sid : UInt16) :
    Quiet jiffies h.table (pppoedSession jiffies sid h).2.2.table := by
  have hfind := quiet_findId jiffies sid h
  unfold pppoedSession
  split
  · split
    · rename_i heq
      rw [heq] at hfind
      exact hfind
    · rename_i heq
      rw [heq] at hfind
      exact hfind
  · exact Quiet.refl _ _

theorem pppoedHostUniq_quiet (sid tmpSid newSid : UInt16) (flags : UInt8) (nat : Bool) :
    Quiet jiffies h.table (pppoedHostUniq env jiffies sid tmpSid newSid flags nat h).2.table := by
  unfold pppoedHostUniq
  refine (quiet_findId jiffies tmpSid h).trans ?_
  rcases h.findId jiffies tmpSid with ⟨entry, h₁⟩
  dsimp only
  split
  · split
    · exact (quiet_learnId env jiffies _ _ _ _).trans (quiet_learnId env jiffies _ _ _ _)
    · exact Quiet.refl _ _
  · split
    · split
      · exact Quiet.refl _ _
      · exact quiet_learnId env jiffies _ _ _ _
    · exact quiet_learnId env jiffies _ _ _ _

theorem doPppoedIn_quiet : Quiet jiffies h.table (doPppoedIn env jiffies vlan h).2.table := by
  unfold doPppoedIn
  dsimp only
  refine (pppoedSession_quiet (h.skb.u16 (NETWORK_HEADER + vlan + 2))).trans ?_
  rcases pppoedSession jiffies (h.skb.u16 (NETWORK_HEADER + vlan + 2)) h with ⟨newSid, nat, h₁⟩
  dsimp only
  split
  · exact pppoedHostUniq_quiet _ _ _ _ _
  · split
    · exact quiet_learnId env jiffies _ _ _ _
    · exact Quiet.refl _ _

theorem doPppoesIn_quiet : Quiet jiffies h.table (doPppoesIn env jiffies vlan h).2.table := by
  have hfind := quiet_findId jiffies (h.skb.u16 (NETWORK_HEADER + vlan + 2)) h
  unfold doPppoesIn
  dsimp only
  split
  · rename_i heq
    rw [heq] at hfind
    exact hfind
  · rename_i heq
    rw [heq] at hfind
    exact hfind

/-- A frame that comes in teaches nothing about addresses. -/
theorem doIn_quiet {h' : Hook} (hdo : doIn env jiffies h = some h') :
    Quiet jiffies h.table h'.table := by
  obtain ⟨⟨nat, h₁⟩, hcase, rfl⟩ := Option.map_eq_some_iff.mp hdo
  have hswitch : Quiet jiffies h.table h₁.table := by
    unfold switchIn at hcase
    dsimp only at hcase
    split at hcase
    · exact doArpIn_quiet hcase
    · split at hcase
      · have hquiet := @doIpIn_quiet env jiffies (etherProto h.skb).2 h
        rw [Option.some.inj hcase] at hquiet
        exact hquiet
      · split at hcase
        · have hquiet := @doPppoedIn_quiet env jiffies (etherProto h.skb).2 h
          rw [Option.some.inj hcase] at hquiet
          exact hquiet
        · split at hcase
          · have hquiet := @doPppoesIn_quiet env jiffies (etherProto h.skb).2 h
            rw [Option.some.inj hcase] at hquiet
            exact hquiet
          · cases hcase
            exact Quiet.refl _ _
  dsimp only
  split <;> exact hswitch

theorem doPppoesOut_quiet : Quiet jiffies h.table (doPppoesOut env jiffies vlan h).2.table := by
  unfold doPppoesOut
  dsimp only
  split
  · exact quiet_learnId env jiffies _ _ _ _
  · exact Quiet.refl _ _

theorem doPppoedOut_quiet : Quiet jiffies h.table (doPppoedOut env jiffies vlan h).2.table := by
  unfold doPppoedOut
  dsimp only
  split
  · exact quiet_learnId env jiffies _ _ _ _
  · split
    · exact quiet_learnId env jiffies _ _ _ _
    · exact quiet_learnId env jiffies _ _ _ _

theorem doBootpOut_table : (doBootpOut env vlan h).2.table = h.table := by
  unfold doBootpOut
  dsimp only
  split <;> rfl

/-- What an ARP frame teaches. -/
theorem doArpOut_table {nat : Bool} {h' : Hook}
    (hcase : doArpOut env jiffies vlan h = some (nat, h')) :
    h'.table =
      if isIpArp h.skb (NETWORK_HEADER + vlan) && isArpTalk h.skb (NETWORK_HEADER + vlan) then
        (updateArpNat env.clock jiffies (h.skb.mac (NETWORK_HEADER + vlan + 8))
          (h.skb.u32 (NETWORK_HEADER + vlan + 14)) h.table).toList
      else h.table := by
  unfold doArpOut at hcase
  dsimp only at hcase
  by_cases hip : isIpArp h.skb (NETWORK_HEADER + vlan)
  · by_cases htalk : isArpTalk h.skb (NETWORK_HEADER + vlan)
    · rw [if_pos hip, if_pos htalk] at hcase
      rw [hip, htalk, Bool.and_self, if_pos rfl]
      simp only [Option.bind_eq_bind] at hcase
      obtain ⟨sipAt, hsip, hcase⟩ := Option.bind_eq_some_iff.mp hcase
      obtain ⟨dipAt, _, hcase⟩ := Option.bind_eq_some_iff.mp hcase
      obtain ⟨smacAt, hsmac, hcase⟩ := Option.bind_eq_some_iff.mp hcase
      have hsip := Skb.headerPointer_eq_some hsip
      have hsmac := Skb.headerPointer_eq_some hsmac
      rw [show NETWORK_HEADER + vlan + 8 = smacAt by omega,
        show NETWORK_HEADER + vlan + 14 = sipAt by omega]
      split at hcase
      · cases hcase
        rfl
      · cases hcase
        rfl
    · rw [if_pos hip, if_neg htalk] at hcase
      cases hcase
      simp [htalk]
  · rw [if_neg hip] at hcase
    cases hcase
    simp [hip]

/-- What a frame that leaves teaches about addresses is what `learned` says. -/
theorem doOut_table {h' : Hook} (hdo : doOut env jiffies h = some h') :
    match learned h.skb with
    | some (mac, ip) => h'.table = (updateArpNat env.clock jiffies mac ip h.table).toList
    | none => Quiet jiffies h.table h'.table := by
  obtain ⟨⟨nat, h₁⟩, hcase, rfl⟩ := Option.map_eq_some_iff.mp hdo
  have hfinish : (if nat then h₁.setSource env.devAddr else h₁).table = h₁.table := by
    split <;> rfl
  dsimp only
  rw [hfinish]
  unfold switchOut at hcase
  unfold learned
  generalize etherProto h.skb = tagged at hcase ⊢
  obtain ⟨proto, vlan⟩ := tagged
  dsimp only at hcase ⊢
  by_cases harp : proto = ETH_P_ARP
  · rw [if_pos harp] at hcase ⊢
    have htable := doArpOut_table hcase
    by_cases htalk : (isIpArp h.skb (NETWORK_HEADER + vlan) &&
        isArpTalk h.skb (NETWORK_HEADER + vlan)) = true
    · rw [if_pos htalk] at htable ⊢
      exact htable
    · rw [if_neg htalk] at htable ⊢
      rw [htable]
      exact Quiet.refl _ _
  · rw [if_neg harp] at hcase ⊢
    by_cases hip : proto = ETH_P_IP
    · rw [if_pos hip] at hcase ⊢
      have htable : h₁.table = (doIpOut env jiffies vlan h).2.table := by
        have heq := congrArg (fun p => p.2.table) (Option.some.inj hcase)
        dsimp only at heq
        rw [← heq]
        split
        · exact doBootpOut_table
        · rfl
      by_cases hfrag : isFragment h.skb (NETWORK_HEADER + vlan)
      · simp only [doIpOut, hfrag, if_true] at htable ⊢
        rw [htable]
        exact Quiet.refl _ _
      · simp only [doIpOut, hfrag] at htable ⊢
        exact htable
    · rw [if_neg hip] at hcase ⊢
      split at hcase
      · have hquiet := @doPppoesOut_quiet env jiffies vlan h
        rw [Option.some.inj hcase] at hquiet
        exact hquiet
      · split at hcase
        · have hquiet := @doPppoedOut_quiet env jiffies vlan h
          rw [Option.some.inj hcase] at hquiet
          exact hquiet
        · cases hcase
          exact Quiet.refl _ _

/-! ## The bytes of a frame -/

/-- The frame is as it was, but for the hardware addresses at these
offsets. -/
def SameBut (macs : List Nat) (skb skb' : Skb) : Prop :=
  skb'.len = skb.len ∧ ∀ i, (∀ off ∈ macs, i < off ∨ off + 6 ≤ i) → skb'.mem i = skb.mem i

/-- A complete ARP request or reply for IPv4, behind a tag of `vlan` bytes. -/
def IsArp (vlan : Nat) (skb : Skb) : Prop :=
  etherProto skb = (ETH_P_ARP, vlan) ∧ isIpArp skb (NETWORK_HEADER + vlan) = true ∧
  isArpTalk skb (NETWORK_HEADER + vlan) = true ∧ 28 + vlan ≤ skb.len

/-- An IPv4 packet, behind a tag of `vlan` bytes. -/
def IsIp (vlan : Nat) (skb : Skb) : Prop := etherProto skb = (ETH_P_IP, vlan)

/-- The four pointers into a complete ARP frame. -/
theorem arp_pointers {skb : Skb} (hlen : 28 + vlan ≤ skb.len) :
    skb.headerPointer (8 + vlan) 6 = some (NETWORK_HEADER + vlan + 8) ∧
    skb.headerPointer (8 + 6 + vlan) 4 = some (NETWORK_HEADER + vlan + 14) ∧
    skb.headerPointer (8 + 6 + 4 + vlan) 6 = some (NETWORK_HEADER + vlan + 18) ∧
    skb.headerPointer (8 + 2 * 6 + 4 + vlan) 4 = some (NETWORK_HEADER + vlan + 24) := by
  refine ⟨?_, ?_, ?_, ?_⟩
  all_goals
    rw [Skb.headerPointer_some (by omega)]
    congr 1
    omega

/-- An ARP frame for an address that the table knows. -/
theorem doIn_arp {e : Mac2ip} (harp : IsArp vlan h.skb) (huni : h.unicast = true)
    (hfind : (findIpNat jiffies (h.skb.u32 (NETWORK_HEADER + vlan + 24)) h.table).node? = some e) :
    ∃ h', doIn env jiffies h = some h' ∧ h'.skb.mac 0 = e.mac ∧
      h'.skb.mac (NETWORK_HEADER + vlan + 18) = e.mac ∧
      SameBut [0, NETWORK_HEADER + vlan + 18] h.skb h'.skb := by
  obtain ⟨hproto, hip, htalk, hlen⟩ := harp
  obtain ⟨_, _, hdmac, hdip⟩ := arp_pointers hlen
  have huni' : ∀ table, Hook.unicast { h with table } = true := fun _ => huni
  simp only [doIn, switchIn, hproto, if_true, doArpIn, hip, Option.bind_eq_bind, hdip,
    Option.bind_some, htalk, hfind, huni', hdmac]
  refine ⟨_, rfl, ?_, ?_, rfl, fun i hi => ?_⟩
  · exact Skb.mac_putMac _ _ _
  · exact (Skb.mac_putMac_of_disjoint _ _ (by simp [NETWORK_HEADER])).trans
      (Skb.mac_putMac _ _ _)
  · simp only [List.mem_cons, List.not_mem_nil, or_false, forall_eq_or_imp, forall_eq] at hi
    exact (Skb.putMac_outside _ _ (by omega)).trans (Skb.putMac_outside _ _ (by omega))

/-- An IP packet for an address that the table knows. -/
theorem doIn_ip {e : Mac2ip} (hip : IsIp vlan h.skb) (hlen : 34 + vlan ≤ h.skb.len)
    (hdhcp : fromDhcpServer env h.skb (NETWORK_HEADER + vlan) = false)
    (hbridge : env.confirmAddr (h.skb.u32 (NETWORK_HEADER + vlan + 16)) = 0)
    (hfind : (findIpNat jiffies (h.skb.u32 (NETWORK_HEADER + vlan + 16)) h.table).node? = some e) :
    ∃ h', doIn env jiffies h = some h' ∧ h'.skb.mac 0 = e.mac ∧ SameBut [0] h.skb h'.skb := by
  have hlong : ¬ h.skb.len < 14 + 20 + vlan := by omega
  have hne : ETH_P_IP ≠ ETH_P_ARP := by decide
  simp only [doIn, switchIn, show etherProto h.skb = (ETH_P_IP, vlan) from hip, hne, if_false,
    if_true, doIpIn, hlong, hdhcp, hfind, hbridge]
  refine ⟨_, rfl, Skb.mac_putMac _ _ _, rfl, fun i hi => ?_⟩
  simp only [List.mem_singleton, forall_eq] at hi
  exact Skb.putMac_outside _ _ hi

/-- An ARP frame to anyone but the bridge. -/
theorem doOut_arp (harp : IsArp vlan h.skb)
    (hbridge : env.confirmAddr (h.skb.u32 (NETWORK_HEADER + vlan + 24)) = 0) :
    ∃ h', doOut env jiffies h = some h' ∧ h'.skb.mac 6 = env.devAddr ∧
      h'.skb.mac (NETWORK_HEADER + vlan + 8) = env.devAddr ∧
      SameBut [6, NETWORK_HEADER + vlan + 8] h.skb h'.skb := by
  obtain ⟨hproto, hip, htalk, hlen⟩ := harp
  obtain ⟨hsmac, hsip, _, hdip⟩ := arp_pointers hlen
  simp only [doOut, switchOut, hproto, if_true, doArpOut, hip, htalk, Option.bind_eq_bind, hsip,
    hdip, hsmac, Option.bind_some, hbridge, ne_eq, not_true_eq_false, if_false]
  refine ⟨_, rfl, ?_, ?_, rfl, fun i hi => ?_⟩
  · exact Skb.mac_putMac _ _ _
  · exact (Skb.mac_putMac_of_disjoint _ _ (by simp [NETWORK_HEADER]; omega)).trans
      (Skb.mac_putMac _ _ _)
  · simp only [List.mem_cons, List.not_mem_nil, or_false, forall_eq_or_imp, forall_eq] at hi
    exact (Skb.putMac_outside _ _ (by omega)).trans (Skb.putMac_outside _ _ (by omega))

/-- An ARP frame to the bridge is left alone. -/
theorem doOut_arp_bridge (harp : IsArp vlan h.skb)
    (hbridge : env.confirmAddr (h.skb.u32 (NETWORK_HEADER + vlan + 24)) ≠ 0) :
    ∃ h', doOut env jiffies h = some h' ∧ h'.skb = h.skb := by
  obtain ⟨hproto, hip, htalk, hlen⟩ := harp
  obtain ⟨hsmac, hsip, _, hdip⟩ := arp_pointers hlen
  simp only [doOut, switchOut, hproto, if_true, doArpOut, hip, htalk, Option.bind_eq_bind, hsip,
    hdip, hsmac, Option.bind_some, ne_eq, hbridge, not_false_eq_true]
  exact ⟨_, rfl, rfl⟩

/-- The bytes of a DHCP client's packet that `do_bootp_out` writes: the
checksum, and the relay address or the flags. -/
def BootpWrites (env : Env) (skb : Skb) (iph i : Nat) : Prop :=
  env.bootpnat ≠ 0 ∧ toDhcpServer env skb iph = true ∧
  ((iph + ihl skb iph + 6 ≤ i ∧ i < iph + ihl skb iph + 8) ∨
    (env.bootpnat = BOOTP_RELAY ∧ iph + ihl skb iph + 8 + GIADDR_OFFSET ≤ i ∧
      i < iph + ihl skb iph + 8 + GIADDR_OFFSET + 4) ∨
    (env.bootpnat ≠ BOOTP_RELAY ∧ i = iph + ihl skb iph + 8 + FLAGS_OFFSET))

theorem doBootpOut_bytes (hboot : env.bootpnat ≠ 0) :
    (doBootpOut env vlan h).1 = true ∧ (doBootpOut env vlan h).2.skb.len = h.skb.len ∧
    ∀ i, ¬ BootpWrites env h.skb (NETWORK_HEADER + vlan) i →
      (doBootpOut env vlan h).2.skb.mem i = h.skb.mem i := by
  unfold doBootpOut
  dsimp only
  split
  · rename_i hdhcp
    refine ⟨rfl, ?_, fun i hi => ?_⟩
    · split <;> rfl
    · simp only [BootpWrites, hboot, hdhcp, ne_eq, not_false_eq_true, true_and, not_or] at hi
      obtain ⟨hcheck, hgiaddr, hflags⟩ := hi
      simp only [Skb.put16]
      rw [Skb.put_outside _ _ (by simp only [List.length_cons, List.length_nil]; omega),
        Skb.put_outside _ _ (by simp only [List.length_cons, List.length_nil]; omega)]
      split
      · rename_i hrelay
        have hother : ¬ (_ ∧ _) := fun hin => hgiaddr ⟨hrelay, hin⟩
        exact Skb.put_outside _ _ (by simp only [List.length_cons, List.length_nil]; omega)
      · rename_i hrelay
        have hother : ¬ i = _ := fun heq => hflags ⟨hrelay, heq⟩
        exact Skb.put_outside _ _ (by simp only [List.length_cons, List.length_nil]; omega)
  · exact ⟨rfl, rfl, fun _ _ => rfl⟩

/-- An IP packet. -/
theorem doOut_ip (hip : IsIp vlan h.skb) :
    ∃ h', doOut env jiffies h = some h' ∧ h'.skb.mac 6 = env.devAddr ∧ h'.skb.len = h.skb.len ∧
      ∀ i, i < 6 ∨ 12 ≤ i → ¬ BootpWrites env h.skb (NETWORK_HEADER + vlan) i →
        h'.skb.mem i = h.skb.mem i := by
  have hne : ETH_P_IP ≠ ETH_P_ARP := by decide
  have hskb : (doIpOut env jiffies vlan h).2.skb = h.skb := by
    unfold doIpOut
    dsimp only
    split <;> rfl
  have hnat : (doIpOut env jiffies vlan h).1 = true := by
    unfold doIpOut
    dsimp only
    split <;> rfl
  have hpass : ∃ h₁, (if env.bootpnat ≠ 0 then doBootpOut env vlan (doIpOut env jiffies vlan h).2
      else ((doIpOut env jiffies vlan h).1, (doIpOut env jiffies vlan h).2)) = (true, h₁) ∧
      h₁.skb.len = h.skb.len ∧ ∀ i, ¬ BootpWrites env h.skb (NETWORK_HEADER + vlan) i →
        h₁.skb.mem i = h.skb.mem i := by
    split
    · rename_i hboot
      obtain ⟨htrue, hbytes⟩ := @doBootpOut_bytes env vlan (doIpOut env jiffies vlan h).2 hboot
      rw [hskb] at hbytes
      exact ⟨_, Prod.ext htrue rfl, hbytes⟩
    · exact ⟨_, Prod.ext hnat rfl, by rw [hskb], fun i _ => by rw [hskb]⟩
  obtain ⟨h₁, hpass, hlen, hmem⟩ := hpass
  simp only [doOut, switchOut, show etherProto h.skb = (ETH_P_IP, vlan) from hip, hne, if_false,
    if_true, hpass]
  exact ⟨_, rfl, Skb.mac_putMac _ _ _, hlen,
    fun i hi hboot => (Skb.putMac_outside _ _ (by omega)).trans (hmem i hboot)⟩

end

end UbntSdk.Arpnat
