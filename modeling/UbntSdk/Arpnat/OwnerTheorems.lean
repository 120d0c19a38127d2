/-
UbntSdk.Arpnat.OwnerTheorems — an address that moves from host to host.

`find_ip_nat` answers with the first entry that has an unexpired record of
the address. Entries keep the place they got when their MAC was first seen,
so the answer is the host that used the address last only as long as no
other host with an unexpired record of it stands in front.

`Owned` says that the table answers for the right host; traffic about other
addresses keeps it (`Owned.quiet`, `Owned.learn_other`), and learning the
address establishes it if the place is right (`owned_learn`) and misses it
otherwise (`not_follows_of_blocked`). By induction over the run,
`follows_all_iff` says that the table follows the latest owner in all
states iff every frame that teaches an address finds no such record in
front of its sender.
-/
import UbntSdk.Arpnat.Traffic

namespace UbntSdk.Arpnat

open UbntSdk.Lib

/-- The entry has the record of `ip` that expires at `expires`. -/
def HasRecord (ip : UInt32) (expires : Nat) (e : Mac2ip) : Prop :=
  ∃ r ∈ e.data, r.ip = ip ∧ r.expires = expires

/-- From `since` on, no record of `ip` in the entry is alive. -/
def Silent (since : Nat) (ip : UInt32) (e : Mac2ip) : Prop :=
  ∀ r ∈ e.data, r.ip = ip → r.expires < since

/-- The first entry that is not silent about `ip` is that of `m`, and has
the record. -/
def Owned (since : Nat) (m : Mac) (ip : UInt32) (expires : Nat) : ArpnatTable → Prop
  | [] => False
  | e :: rest =>
      (e.mac = m ∧ HasRecord ip expires e) ∨ (Silent since ip e ∧ Owned since m ip expires rest)

section

variable {since expires jiffies : Nat} {m mac : Mac} {ip : UInt32}

theorem owned_append {before after : ArpnatTable} {e : Mac2ip}
    (hbefore : ∀ x ∈ before, Silent since ip x) (hmac : e.mac = m) (he : HasRecord ip expires e) :
    Owned since m ip expires (before ++ e :: after) := by
  induction before with
  | nil => exact Or.inl ⟨hmac, he⟩
  | cons x before ih =>
      obtain ⟨hx, hrest⟩ := List.forall_mem_cons.mp hbefore
      exact Or.inr ⟨hx, ih hrest⟩

/-- One entry is replaced by one that says the same about `ip`. -/
theorem Owned.replace {before after : ArpnatTable} {e e' : Mac2ip}
    (h : Owned since m ip expires (before ++ e :: after)) (hmac : e'.mac = e.mac)
    (hrecord : HasRecord ip expires e → HasRecord ip expires e')
    (hsilent : Silent since ip e → Silent since ip e') :
    Owned since m ip expires (before ++ e' :: after) := by
  induction before with
  | nil =>
      rcases h with ⟨hm, he⟩ | ⟨he, hrest⟩
      · exact Or.inl ⟨hmac.trans hm, hrecord he⟩
      · exact Or.inr ⟨hsilent he, hrest⟩
  | cons x before ih =>
      rcases h with hx | ⟨hx, hrest⟩
      · exact Or.inl hx
      · exact Or.inr ⟨hx, ih hrest⟩

theorem Silent.pruned {e e' : Mac2ip} (h : Silent since ip e) (hpruned : EntryPruned jiffies e e') :
    Silent since ip e' := by
  intro r hr
  obtain ⟨r', hr', rfl⟩ := hpruned.2.mem_after hr
  exact h r' hr'

theorem HasRecord.pruned {e e' : Mac2ip} (h : HasRecord ip expires e) (hle : jiffies ≤ expires)
    (hpruned : EntryPruned jiffies e e') : HasRecord ip expires e' := by
  obtain ⟨r, hr, hip, hexp⟩ := h
  have hlive : r.Live jiffies := live_iff.mpr (by omega)
  exact ⟨r, (hpruned.2.mem_iff hlive).mpr hr, hip, hexp⟩

theorem Owned.pruned {t t' : ArpnatTable} (h : Owned since m ip expires t)
    (hle : jiffies ≤ expires) (hpruned : TablePruned jiffies t t') :
    Owned since m ip expires t' := by
  induction hpruned with
  | nil => exact h
  | keep hkeep _ ih =>
      rcases h with ⟨hm, he⟩ | ⟨he, hrest⟩
      · exact Or.inl ⟨hkeep.1.trans hm, he.pruned hle hkeep⟩
      · exact Or.inr ⟨he.pruned hkeep, ih hrest⟩
  | unlink hgone _ ih =>
      rcases h with ⟨_, r, hr, _, hexp⟩ | ⟨_, hrest⟩
      · exact absurd (live_iff.mpr (by omega)) (hgone r hr)
      · exact ih hrest

/-- A change that is not about `ip` leaves its records alone. -/
theorem Owned.change {ip' : UInt32} {id : UInt16} {t t' : ArpnatTable} (h0 : ip ≠ 0)
    (hne : ip' ≠ ip) (hunmixed : Unmixed t) (h : Owned since m ip expires t)
    (hle : jiffies ≤ expires) (hchange : Change jiffies mac ip' id t t') :
    Owned since m ip expires t' := by
  cases hchange with
  | prune hpruned => exact h.pruned hle hpruned
  | @refresh before after older newer r exp hr hexp =>
      have hip : r.ip ≠ ip := by
        rcases hr with ⟨_, heq⟩ | ⟨_, hid, heq⟩
        · exact fun h => hne (heq.symm.trans h)
        · -- a record of a session has no address
          rcases hunmixed ⟨mac, older ++ r :: newer⟩ (by simp) r (by simp) with hzero | hzero
          · exact fun h => h0 (h.symm.trans hzero)
          · exact absurd (heq.symm.trans hzero) hid
      refine h.replace rfl ?_ ?_
      · rintro ⟨x, hx, hxip, hxexp⟩
        simp only [List.mem_append, List.mem_cons] at hx
        rcases hx with hx | rfl | hx
        · exact ⟨x, by simp [hx], hxip, hxexp⟩
        · exact absurd hxip hip
        · exact ⟨x, by simp [hx], hxip, hxexp⟩
      · intro hsilent x hx hxip
        simp only [List.mem_append, List.mem_cons] at hx
        rcases hx with hx | rfl | hx
        · exact hsilent x (by simp [hx]) hxip
        · exact absurd hxip hip
        · exact hsilent x (by simp [hx]) hxip
  | record hnew hexp =>
      refine h.replace rfl ?_ ?_
      · rintro ⟨x, hx, hxip, hxexp⟩
        exact ⟨x, List.mem_cons_of_mem _ hx, hxip, hxexp⟩
      · intro hsilent x hx hxip
        rcases List.mem_cons.mp hx with rfl | hx
        · exact absurd hxip hne
        · exact hsilent x hx hxip
  | entry hnew => exact Or.inr ⟨fun r hr => (by cases hr), h⟩

theorem Owned.changes {ip' : UInt32} {id : UInt16} {t t' : ArpnatTable} (h0 : ip ≠ 0)
    (hne : ip' ≠ ip) (hone : ip' = 0 ∨ id = 0) (hs : Sane t) (h : Owned since m ip expires t)
    (hle : jiffies ≤ expires) (hchanges : Changes jiffies mac ip' id t t') :
    Owned since m ip expires t' := by
  have hboth : Sane t' ∧ Owned since m ip expires t' := by
    induction hchanges with
    | refl => exact ⟨hs, h⟩
    | tail _ hchange ih =>
        exact ⟨ih.1.changes hone (Relation.ReflTransGen.single hchange),
          ih.2.change h0 hne ih.1.unmixed hle hchange⟩
  exact hboth.2

theorem Owned.quiet {t t' : ArpnatTable} (h0 : ip ≠ 0) (hs : Sane t)
    (h : Owned since m ip expires t) (hle : jiffies ≤ expires) (hquiet : Quiet jiffies t t') :
    Owned since m ip expires t' := by
  have hboth : Sane t' ∧ Owned since m ip expires t' := by
    induction hquiet with
    | refl => exact ⟨hs, h⟩
    | tail _ hstep ih =>
        obtain ⟨mac, id, hchanges⟩ := hstep
        exact ⟨ih.1.changes (Or.inl rfl) hchanges,
          ih.2.changes h0 (Ne.symm h0) (Or.inl rfl) ih.1 hle hchanges⟩
  exact hboth.2

/-! ## The answer -/

theorem Owned.liveIn {t : ArpnatTable} (h0 : ip ≠ 0) (h : Owned since m ip expires t)
    (hle : jiffies ≤ expires) : ∃ e ∈ t, LiveIn jiffies (ArpnatData.IsIp ip) e := by
  induction t with
  | nil => cases h
  | cons x rest ih =>
      rcases h with ⟨_, r, hr, hip, hexp⟩ | ⟨_, hrest⟩
      · exact ⟨x, List.mem_cons_self, r, hr, ⟨h0, hip⟩, live_iff.mpr (by omega)⟩
      · obtain ⟨e, he, hlive⟩ := ih hrest
        exact ⟨e, List.mem_cons_of_mem _ he, hlive⟩

theorem Owned.first {pre post : ArpnatTable} {x : Mac2ip} (h0 : ip ≠ 0)
    (h : Owned since m ip expires (pre ++ x :: post)) (hsince : since ≤ jiffies)
    (hle : jiffies ≤ expires) (hpre : ∀ z ∈ pre, ¬ LiveIn jiffies (ArpnatData.IsIp ip) z)
    (hx : LiveIn jiffies (ArpnatData.IsIp ip) x) : x.mac = m := by
  induction pre with
  | nil =>
      rcases h with ⟨hm, _⟩ | ⟨hsilent, _⟩
      · exact hm
      · obtain ⟨r, hr, ⟨_, hip⟩, hlive⟩ := hx
        have hlt := hsilent r hr hip
        have hge := live_iff.mp hlive
        omega
  | cons z pre ih =>
      obtain ⟨hz, hrest⟩ := List.forall_mem_cons.mp hpre
      rcases h with ⟨_, r, hr, hip, hexp⟩ | ⟨_, hsub⟩
      · exact absurd ⟨r, hr, ⟨h0, hip⟩, live_iff.mpr (by omega)⟩ hz
      · exact ih hsub hrest

/-- While the record lives, the lookup answers with the entry of the owner. -/
theorem Owned.find {t : ArpnatTable} (h0 : ip ≠ 0) (h : Owned since m ip expires t)
    (hsince : since ≤ jiffies) (hle : jiffies ≤ expires) :
    ∃ e, (findIpNat jiffies ip t).node? = some e ∧ e.mac = m := by
  cases hfind : findIpNat jiffies ip t with
  | miss t' =>
      obtain ⟨hnone, _⟩ := findNat_miss (mac2ipFindIp_finds ip) hfind
      obtain ⟨e, he, hlive⟩ := h.liveIn h0 hle
      exact absurd hlive (hnone e he)
  | hit before e after =>
      obtain ⟨pre, x, rfl, hpre, hx, hpruned, _⟩ := findNat_hit (mac2ipFindIp_finds ip) hfind
      exact ⟨e, rfl, hpruned.1.trans (h.first h0 hsince hle hpre hx)⟩

/-! ## Learning an address -/

/-- The place of a key in a list that has it once. -/
theorem split_unique {α β : Type} {f : α → β} {a b c d : List α} {x y : α}
    (hnodup : ((a ++ x :: b).map f).Nodup) (heq : a ++ x :: b = c ++ y :: d) (hf : f x = f y) :
    a = c := by
  induction a generalizing c with
  | nil =>
      cases c with
      | nil => rfl
      | cons z c =>
          simp only [List.nil_append, List.cons_append, List.cons.injEq] at heq
          obtain ⟨rfl, rfl⟩ := heq
          simp [hf] at hnodup
  | cons w a ih =>
      cases c with
      | nil =>
          simp only [List.nil_append, List.cons_append, List.cons.injEq] at heq
          obtain ⟨rfl, rfl⟩ := heq
          simp [hf] at hnodup
      | cons z c =>
          simp only [List.cons_append, List.cons.injEq] at heq
          obtain ⟨rfl, heq⟩ := heq
          simp only [List.cons_append, List.map_cons, List.nodup_cons] at hnodup
          rw [ih hnodup.2 heq]

/-- Where the entry of `mac` is after an address was learned: at its old
place if it still had an unexpired record, and at the head otherwise. -/
theorem updateArpNat_place (clock : Clock) (jiffies : Nat) (mac : Mac) (h0 : ip ≠ 0)
    (t : ArpnatTable) :
    ∃ before e after, updateArpNat clock jiffies mac ip t = .hit before e after ∧
      e.mac = mac ∧ HasRecord ip (jiffies + clock.lifetime) e ∧
      ((before = [] ∧ ∀ x ∈ t, x.mac = mac → AllExpired jiffies x) ∨
        ∃ pre x, t = pre ++ x :: after ∧ TablePruned jiffies pre before ∧ x.mac = mac ∧
          ∃ r ∈ x.data, r.Live jiffies) := by
  obtain ⟨before, entry, after, hget, hcases⟩ :=
    @updateNat_cases jiffies ip 0 clock mac t (by simp [h0])
  have hplace : entry.mac = mac ∧
      ((before = [] ∧ ∀ x ∈ t, x.mac = mac → AllExpired jiffies x) ∨
        ∃ pre x, t = pre ++ x :: after ∧ TablePruned jiffies pre before ∧ x.mac = mac ∧
          ∃ r ∈ x.data, r.Live jiffies) := by
    unfold getEntry at hget
    split at hget
    · rename_i hfind
      cases hget
      obtain ⟨pre, x, ht, hpre, hx, hmac, hsome, hlive⟩ := findMacNat_hit hfind
      obtain ⟨r, hr⟩ := List.exists_mem_of_ne_nil _ hsome
      exact ⟨hmac, Or.inr ⟨pre, x, ht, hpre, hx.1.symm.trans hmac, r,
        (hx.2.mem_iff (hlive r hr)).mp hr, hlive r hr⟩⟩
    · rename_i hfind
      cases hget
      obtain ⟨hpruned, hnew⟩ := findMacNat_miss hfind
      refine ⟨rfl, Or.inl ⟨rfl, fun x hx hmac => ?_⟩⟩
      rcases hpruned.mem_before hx with hgone | ⟨y, hy, hxy⟩
      · exact hgone
      · exact absurd (hxy.1.trans hmac) (hnew y hy)
  rcases hcases with ⟨older, r, newer, _, hr, heq⟩ | ⟨data, _, _, heq⟩
  · have hip : r.ip = ip := by
      rcases hr with hr | ⟨hzero, _⟩
      · exact hr.2
      · exact absurd hzero h0
    refine ⟨before, _, after, heq, hplace.1,
      ⟨{ r with expires := jiffies + clock.lifetime }, ?_, hip, rfl⟩, hplace.2⟩
    simp
  · exact ⟨before, _, after, heq, hplace.1, ⟨_, List.mem_cons_self, rfl, rfl⟩, hplace.2⟩

/-- No entry in front of that of `m` has an unexpired record of `ip`. An
entry of `m` without an unexpired record does not count: it is about to be
unlinked. -/
def Clear (jiffies : Nat) (m : Mac) (ip : UInt32) (t : ArpnatTable) : Prop :=
  ∀ pre e post, t = pre ++ e :: post → e.mac = m → (∃ r ∈ e.data, r.Live jiffies) →
    ∀ x ∈ pre, ¬ LiveIn jiffies (ArpnatData.IsIp ip) x

theorem silent_of_not_liveIn (h0 : ip ≠ 0) {e : Mac2ip}
    (h : ¬ LiveIn jiffies (ArpnatData.IsIp ip) e) : Silent jiffies ip e := by
  intro r hr hip
  by_contra hge
  exact h ⟨r, hr, ⟨h0, hip⟩, live_iff.mpr (by omega)⟩

theorem owned_learn {clock : Clock} {t : ArpnatTable} (h0 : ip ≠ 0) (hclear : Clear jiffies m ip t) :
    Owned jiffies m ip (jiffies + clock.lifetime) (updateArpNat clock jiffies m ip t).toList := by
  obtain ⟨before, e, after, heq, hmac, hrecord, hplace⟩ :=
    @updateArpNat_place ip clock jiffies m h0 t
  rw [heq]
  refine owned_append (fun x hx => ?_) hmac hrecord
  rcases hplace with ⟨rfl, _⟩ | ⟨pre, y, ht, hpre, hy, hlive⟩
  · cases hx
  · obtain ⟨z, hz, hzx⟩ := hpre.mem_after hx
    exact (silent_of_not_liveIn h0 (hclear pre y after ht hy hlive z hz)).pruned hzx

/-- Learning keeps the records of another address. -/
theorem Owned.learn_other {clock : Clock} {ip' : UInt32} {t : ArpnatTable} (h0 : ip ≠ 0)
    (hne : ip' ≠ ip) (hs : Sane t) (h : Owned since m ip expires t) (hle : jiffies ≤ expires) :
    Owned since m ip expires (updateArpNat clock jiffies mac ip' t).toList :=
  h.changes h0 hne (Or.inr rfl) hs hle (updateNat_changes clock mac ip' 0 t)

/-- With an unexpired record of another host in front, the address goes on
being answered for that host. -/
theorem find_learn_blocked {clock : Clock} {t : ArpnatTable} (h0 : ip ≠ 0) (hs : Sane t)
    (hblocked : ¬ Clear jiffies m ip t) :
    ∃ e, (findIpNat jiffies ip (updateArpNat clock jiffies m ip t).toList).node? = some e ∧
      e.mac ≠ m := by
  simp only [Clear, not_forall, not_not] at hblocked
  obtain ⟨pre, x, post, rfl, hx, hlive, z, hz, hzlive⟩ := hblocked
  have hsane := hs.changes (Or.inr rfl) (@updateNat_changes jiffies clock m ip 0 (pre ++ x :: post))
  obtain ⟨before, e, after, heq, hmac, _, hplace⟩ :=
    @updateArpNat_place ip clock jiffies m h0 (pre ++ x :: post)
  rw [show updateNat clock jiffies m ip 0 (pre ++ x :: post) = .hit before e after from heq] at hsane
  rw [heq]
  have hfront : ∃ z' ∈ before, LiveIn jiffies (ArpnatData.IsIp ip) z' := by
    rcases hplace with ⟨_, hgone⟩ | ⟨pre', x', ht, hpre, hx', _⟩
    · obtain ⟨r, hr, hrlive⟩ := hlive
      exact absurd hrlive (hgone x (by simp) hx r hr)
    · have hsame : pre = pre' := split_unique hs.ok.macs ht (hx.trans hx'.symm)
      subst hsame
      rcases hpre.mem_before hz with hgone | ⟨z', hz', hzz⟩
      · obtain ⟨r, hr, _, hrlive⟩ := hzlive
        exact absurd hrlive (hgone r hr)
      · exact ⟨z', hz', hzz.liveIn.mpr hzlive⟩
  obtain ⟨z', hz', hz'live⟩ := hfront
  cases hfind : findIpNat jiffies ip (Walk.hit before e after).toList with
  | miss t' =>
      obtain ⟨hnone, _⟩ := findNat_miss (mac2ipFindIp_finds ip) hfind
      exact absurd hz'live (hnone z' (by simp [Walk.toList, hz']))
  | hit before' y after' =>
      obtain ⟨pre', y', ht, hpre', _, hpruned, _⟩ := findNat_hit (mac2ipFindIp_finds ip) hfind
      refine ⟨y, rfl, fun hy => ?_⟩
      have hsame : before = pre' :=
        split_unique hsane.ok.macs ht (hmac.trans (hpruned.1.symm.trans hy).symm)
      exact hpre' z' (hsame ▸ hz') hz'live

end

/-! ## Runs -/

/-- A frame for `a` that `do_in` looks up: an ARP frame, or an IP packet
that passes the length check, is no DHCP server's and not for the bridge. -/
inductive ComesFor (env : Env) (a : UInt32) (vlan : Nat) (skb : Skb) : Prop
  | arp (harp : IsArp vlan skb) (haddr : skb.u32 (NETWORK_HEADER + vlan + 24) = a)
  | ip (hip : IsIp vlan skb) (hlen : 34 + vlan ≤ skb.len)
      (hdhcp : fromDhcpServer env skb (NETWORK_HEADER + vlan) = false)
      (haddr : skb.u32 (NETWORK_HEADER + vlan + 16) = a) (hbridge : env.confirmAddr a = 0)

theorem doIn_comesFor {env : Env} {jiffies vlan : Nat} {a : UInt32} {h : Hook} {e : Mac2ip}
    (hcomes : ComesFor env a vlan h.skb) (huni : h.unicast = true)
    (hfind : (findIpNat jiffies a h.table).node? = some e) :
    ∃ h', doIn env jiffies h = some h' ∧ h'.skb.mac 0 = e.mac := by
  cases hcomes with
  | arp harp haddr =>
      subst haddr
      obtain ⟨h', hdo, hmac, _⟩ := @doIn_arp env jiffies vlan h e harp huni hfind
      exact ⟨h', hdo, hmac⟩
  | ip hip hlen hdhcp haddr hbridge =>
      subst haddr
      obtain ⟨h', hdo, hmac, _⟩ := @doIn_ip env jiffies vlan h e hip hlen hdhcp hbridge hfind
      exact ⟨h', hdo, hmac⟩

/-- While the record that was learned last lives, `find_ip_nat` answers with
the entry of the MAC it was learned from, and frames that come in for the
address are rewritten to it. -/
def Follows (s : State) : Prop :=
  ∀ jiffies ip m expires, s.time ≤ jiffies → s.latest ip = some (m, expires) → jiffies ≤ expires →
    (∃ e, (findIpNat jiffies ip s.table).node? = some e ∧ e.mac = m) ∧
    ∀ env vlan h, h.table = s.table → h.unicast = true → ComesFor env ip vlan h.skb →
      ∃ h', doIn env jiffies h = some h' ∧ h'.skb.mac 0 = m

/-- `Follows` holds before and after every frame. -/
def FollowsAll : State → List Event → Prop
  | s, [] => Follows s
  | s, ev :: rest => Follows s ∧ ∀ s', s.step ev = some s' → FollowsAll s' rest

/-- Every frame that teaches an address finds no unexpired record of it in
front of the entry of its sender. -/
def AllClear : State → List Event → Prop
  | _, [] => True
  | s, ev :: rest => ∀ s', s.step ev = some s' →
      (∀ m ip, ev.learns = some (m, ip) → Clear ev.jiffies m ip s.table) ∧ AllClear s' rest

/-- The table answers for every latest owner whose record has not expired. -/
def Tracks (s : State) : Prop :=
  Sane s.table ∧ ∀ ip m expires, s.latest ip = some (m, expires) → ip ≠ 0 ∧
    (s.time ≤ expires → ∃ since, since ≤ s.time ∧ Owned since m ip expires s.table)

theorem Tracks.follows {s : State} (h : Tracks s) : Follows s := by
  intro jiffies ip m expires htime hlatest hle
  obtain ⟨h0, howned⟩ := h.2 ip m expires hlatest
  obtain ⟨since, hsince, howned⟩ := howned (by omega)
  obtain ⟨e, hfind, hmac⟩ := howned.find h0 (Nat.le_trans hsince htime) hle
  refine ⟨⟨e, hfind, hmac⟩, fun env vlan h htable huni hcomes => ?_⟩
  rw [← htable] at hfind
  obtain ⟨h', hdo, hdest⟩ := doIn_comesFor hcomes huni hfind
  exact ⟨h', hdo, hdest.trans hmac⟩

theorem Tracks.step {s s' : State} {ev : Event} (h : Tracks s) (htime : s.time ≤ ev.jiffies)
    (hstep : s.step ev = some s')
    (hclear : ∀ m ip, ev.learns = some (m, ip) → Clear ev.jiffies m ip s.table) : Tracks s' := by
  obtain ⟨hook, hrun, rfl⟩ := Option.map_eq_some_iff.mp hstep
  refine ⟨h.1.run hrun, fun ip m expires hlatest => ?_⟩
  have htable := Event.run_table hrun
  cases hl : ev.learns with
  | none =>
      rw [hl] at htable
      simp only [hl] at hlatest
      obtain ⟨h0, howned⟩ := h.2 ip m expires hlatest
      refine ⟨h0, fun hle => ?_⟩
      obtain ⟨since, hsince, howned⟩ := howned (by dsimp only at hle; omega)
      exact ⟨since, Nat.le_trans hsince htime, howned.quiet h0 h.1 hle htable⟩
  | some p =>
      obtain ⟨m', ip'⟩ := p
      rw [hl] at htable
      simp only [hl] at hlatest
      dsimp only at htable ⊢
      rw [htable]
      by_cases hip : ip = ip'
      · subst hip
        rw [Function.update_self] at hlatest
        cases hlatest
        have h0 := Event.learns_ne_zero hl
        exact ⟨h0, fun _ => ⟨ev.jiffies, Nat.le_refl _, owned_learn h0 (hclear _ _ hl)⟩⟩
      · rw [Function.update_of_ne hip] at hlatest
        obtain ⟨h0, howned⟩ := h.2 ip m expires hlatest
        refine ⟨h0, fun hle => ?_⟩
        obtain ⟨since, hsince, howned⟩ := howned (by omega)
        exact ⟨since, Nat.le_trans hsince htime, howned.learn_other h0 (Ne.symm hip) h.1 hle⟩

/-- A frame that is not clear is answered for the wrong host at once. -/
theorem clear_of_follows {s s' : State} {ev : Event} (hs : Sane s.table)
    (hstep : s.step ev = some s') (hfollows : Follows s') {m : Mac} {ip : UInt32}
    (hl : ev.learns = some (m, ip)) : Clear ev.jiffies m ip s.table := by
  by_contra hblocked
  obtain ⟨hook, hrun, rfl⟩ := Option.map_eq_some_iff.mp hstep
  have h0 := Event.learns_ne_zero hl
  have htable := Event.run_table hrun
  rw [hl] at htable
  dsimp only at htable
  obtain ⟨e, hfind, hmac⟩ := @find_learn_blocked ev.jiffies m ip ev.env.clock s.table h0 hs hblocked
  obtain ⟨⟨e', hfind', hmac'⟩, _⟩ := hfollows ev.jiffies ip m ev.expires (Nat.le_refl _)
    (by simp [hl]) (Nat.le_add_right _ _)
  dsimp only at hfind'
  rw [htable, hfind] at hfind'
  cases hfind'
  exact hmac hmac'

theorem follows_from {s : State} (h : Tracks s) {events : List Event}
    (horder : InOrder s.time events) : FollowsAll s events ↔ AllClear s events := by
  induction events generalizing s with
  | nil => exact iff_of_true h.follows trivial
  | cons ev rest ih =>
      obtain ⟨htime, hrest⟩ := horder
      constructor
      · rintro ⟨_, hall⟩ s' hstep
        have hsub := hall s' hstep
        have hfollows : Follows s' := by
          cases rest with
          | nil => exact hsub
          | cons _ _ => exact hsub.1
        have hclear := fun m ip hl => @clear_of_follows s s' ev h.1 hstep hfollows m ip hl
        have htracks := h.step htime hstep hclear
        have htime' : s'.time = ev.jiffies := by
          obtain ⟨_, _, rfl⟩ := Option.map_eq_some_iff.mp hstep
          rfl
        exact ⟨hclear, (ih htracks (htime' ▸ hrest)).mp hsub⟩
      · intro hall
        refine ⟨h.follows, fun s' hstep => ?_⟩
        obtain ⟨hclear, hsub⟩ := hall s' hstep
        have htracks := h.step htime hstep hclear
        have htime' : s'.time = ev.jiffies := by
          obtain ⟨_, _, rfl⟩ := Option.map_eq_some_iff.mp hstep
          rfl
        exact (ih htracks (htime' ▸ hrest)).mpr hsub

/-- In every run from an empty table the table follows the latest owner of
every address in all states iff every frame that teaches an address is
clear. -/
theorem follows_all_iff (events : List Event) (horder : InOrder 0 events) :
    FollowsAll State.start events ↔ AllClear State.start events :=
  follows_from ⟨sane_start, fun _ _ _ hlatest => (by cases hlatest)⟩ horder

/-! ## An address that moves and moves back -/

/-- A frame with these bytes, behind which the memory is zero. -/
def frameOf (bs : List UInt8) : Skb := ⟨fun i => bs.getD i 0, bs.length - 14, 0⟩

/-- A bridge 02:00:00:00:00:10 without addresses of its own, whose uplink is
02:00:00:00:00:20. -/
def plainEnv : Env where
  clock := clock100
  bootpnat := 1
  pppoenat := 1
  brAddr := ![2, 0, 0, 0, 0, 0x10]
  devAddr := ![2, 0, 0, 0, 0, 0x20]
  confirmAddr := fun _ => 0
  selectAddr := fun _ => 0
  fdbHas := fun _ => false
  ipFastCsum := fun _ _ _ => 0
  csumPartial := fun _ _ _ => 0
  csumTcpudpMagic := fun _ _ _ _ _ => 0

/-- An IP packet (a TCP segment without data) from 10.0.0.1 to 10.0.0.9. -/
def packetFrom (smac : Mac) : Skb :=
  frameOf ([2, 0, 0, 0, 0, 0x30] ++ List.ofFn smac ++ [8, 0] ++
    [0x45, 0, 0, 40, 0, 0, 0, 0, 64, 6, 0, 0, 10, 0, 0, 1, 10, 0, 0, 9] ++ List.replicate 20 0)

/-- The packet leaves at this time. -/
def sends (smac : Mac) (jiffies : Nat) : Event := ⟨false, plainEnv, jiffies, packetFrom smac, -1⟩

/-- The state after an IP packet that teaches an address. -/
theorem step_ip {s : State} {ev : Event} {vlan : Nat} {m : Mac} {ip : UInt32}
    (hout : ev.inbound = false) (hip : IsIp vlan ev.skb) (hlearned : learned ev.skb = some (m, ip)) (h0 : ip ≠ 0) :
    s.step ev = some {
      table := (updateArpNat ev.env.clock ev.jiffies m ip s.table).toList
      time := ev.jiffies
      latest := Function.update s.latest ip (some (m, ev.expires)) } := by
  obtain ⟨h, hdo, _⟩ :=
    @doOut_ip ev.env ev.jiffies vlan (ev.hook s.table) hip
  have hl : ev.learns = some (m, ip) := by simp [Event.learns, hout, hlearned, Option.filter, h0]
  have hrun : ev.run s.table = some h := by simp [Event.run, hout, hdo]
  have htable := Event.run_table hrun
  rw [hl] at htable
  simp only [State.step, hrun, Option.map_some, hl, htable]

theorem step_sends_hostA (s : State) (jiffies : Nat) :
    s.step (sends hostA jiffies) = some {
      table := (updateArpNat clock100 jiffies hostA 0x0a000001 s.table).toList
      time := jiffies
      latest := Function.update s.latest 0x0a000001 (some (hostA, (sends hostA jiffies).expires)) } :=
  @step_ip s (sends hostA jiffies) 0 hostA 0x0a000001 rfl
    (show etherProto (packetFrom hostA) = (ETH_P_IP, 0) by decide)
    (show learned (packetFrom hostA) = some (hostA, 0x0a000001) by decide) (by decide)

theorem step_sends_hostB (s : State) (jiffies : Nat) :
    s.step (sends hostB jiffies) = some {
      table := (updateArpNat clock100 jiffies hostB 0x0a000001 s.table).toList
      time := jiffies
      latest := Function.update s.latest 0x0a000001 (some (hostB, (sends hostB jiffies).expires)) } :=
  @step_ip s (sends hostB jiffies) 0 hostB 0x0a000001 rfl
    (show etherProto (packetFrom hostB) = (ETH_P_IP, 0) by decide)
    (show learned (packetFrom hostB) = some (hostB, 0x0a000001) by decide) (by decide)

/-- A MAC that is new, or the first of the table, has nothing in front of it. -/
theorem clear_of_not_mem_tail {jiffies : Nat} {m : Mac} {ip : UInt32} {t : ArpnatTable}
    (h : m ∉ (t.map (·.mac)).tail) : Clear jiffies m ip t := by
  intro pre e post ht hm _ x hx
  cases pre with
  | nil => cases hx
  | cons y pre => exact absurd (by simp [ht, hm]) h

/-- 10.0.0.1 goes from one host to another, which uses it again. -/
theorem follows_all_moved :
    InOrder 0 [sends hostA 0, sends hostB 1, sends hostB 2] ∧
    FollowsAll State.start [sends hostA 0, sends hostB 1, sends hostB 2] := by
  have horder : InOrder 0 [sends hostA 0, sends hostB 1, sends hostB 2] :=
    ⟨by decide, by decide, by decide, trivial⟩
  have hlearns : (sends hostB 2).learns = some (hostB, 0x0a000001) := by decide
  refine ⟨horder, (follows_all_iff _ horder).mpr ?_⟩
  intro s₁ h₁
  rw [step_sends_hostA] at h₁
  cases h₁
  refine ⟨fun m ip _ => clear_of_not_mem_tail (by simp [State.start]), fun s₂ h₂ => ?_⟩
  rw [step_sends_hostB] at h₂
  cases h₂
  refine ⟨fun m ip _ => clear_of_not_mem_tail ?_, fun s₃ _ => ⟨fun m ip hl => ?_, trivial⟩⟩
  · rw [show ((updateArpNat clock100 0 hostA 0x0a000001 State.start.table).toList.map
      (·.mac)).tail = [] from by decide]
    exact List.not_mem_nil
  · obtain ⟨rfl, rfl⟩ := Prod.mk.inj (Option.some.inj (hl.symm.trans hlearns))
    refine clear_of_not_mem_tail ?_
    rw [show ((updateArpNat clock100 1 hostB 0x0a000001 (updateArpNat clock100 0 hostA 0x0a000001
      State.start.table).toList).toList.map (·.mac)).tail = [hostA] from by decide]
    decide

/-- 10.0.0.1 is used by one host, then by another, then by the first again.
The table still answers with the second. -/
theorem follows_fails_movedBack :
    InOrder 0 [sends hostA 0, sends hostB 1, sends hostA 2] ∧
    ∃ s, ((State.start.step (sends hostA 0)).bind (State.step · (sends hostB 1))).bind
        (State.step · (sends hostA 2)) = some s ∧
      s.latest 0x0a000001 = some (hostA, 60002) ∧
      (findIpNat 2 0x0a000001 s.table).node?.map (·.mac) = some hostB ∧ ¬ Follows s := by
  refine ⟨⟨by decide, by decide, by decide, trivial⟩, ?_⟩
  simp only [step_sends_hostA, step_sends_hostB, Option.bind_some]
  have hfind : (findIpNat 2 0x0a000001 (updateArpNat clock100 2 hostA 0x0a000001
      (updateArpNat clock100 1 hostB 0x0a000001 (updateArpNat clock100 0 hostA 0x0a000001
        State.start.table).toList).toList).toList).node?.map (·.mac) = some hostB := by decide
  have hexpires : (sends hostA 2).expires = 60002 := by decide
  refine ⟨_, rfl, by simp [hexpires], hfind, fun hfollows => ?_⟩
  obtain ⟨⟨e, he, hmac⟩, _⟩ := hfollows 2 0x0a000001 hostA 60002 (Nat.le_refl _)
    (by simp [hexpires]) (by decide)
  dsimp only at he
  rw [he, Option.map_some, hmac] at hfind
  exact absurd hfind (by decide)

end UbntSdk.Arpnat
