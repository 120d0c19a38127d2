/-
UbntSdk.Web.RelayTheorems — the pairs of DHCP relay clients and servers.

The calls keep the pairs: a client is only ever added, at the end, and with it
a server at its index (`Inv`). Loading does not. It looks at the interface of
a server, which is not that of its client, and it does not look at the clients
at all. So the pairs survive when there is nothing for it to remove
(`pairs_kept_iff`).
-/
import UbntSdk.Web.Relay

namespace UbntSdk.Web

namespace Objs

variable (t : Objs)

@[simp] theorem enable_objs (ref : Option Nat) (enabled : Bool) :
    (t.enable ref enabled).objs = t.objs := by
  cases ref <;> rfl

@[simp] theorem enable_next (ref : Option Nat) (enabled : Bool) :
    (t.enable ref enabled).next = t.next := by
  cases ref <;> rfl

@[simp] theorem enable_ip (ref : Option Nat) (enabled : Bool) (r : Nat) :
    ((t.enable ref enabled).obj r).ip = (t.obj r).ip := by
  cases ref with
  | none => rfl
  | some k =>
      by_cases h : r = k
      · subst h
        simp [enable]
      · simp [enable, h]

theorem put_length (i r : Nat) (h : t.objs.length ≤ i) : (t.put i r).objs.length = i + 1 := by
  simp [put, Nat.not_lt.mpr h]
  omega

/-- Another index holds what it held. -/
theorem put_of_ne {i k : Nat} (r : Nat) (h : k ≠ i) :
    ((t.put i r).objs[k]?).join = (t.objs[k]?).join := by
  simp only [put]
  split
  · rw [List.getElem?_set_ne h.symm]
  · rename_i hlt
    by_cases hk : k < t.objs.length
    · rw [List.append_assoc, List.getElem?_append_left hk]
    · rw [List.getElem?_eq_none (not_lt.mp hk), List.append_assoc,
        List.getElem?_append_right (not_lt.mp hk)]
      by_cases hki : k < i
      · rw [List.getElem?_append_left (by simp; omega), List.getElem?_replicate_of_lt (by omega)]
        rfl
      · rw [List.getElem?_eq_none (by simp; omega)]

end Objs

namespace Relay

/-! ## One call -/

/-- The arrays and the addresses are the same. -/
structure Same (s s' : Relay) : Prop where
  clients : s'.client.objs = s.client.objs
  clientNext : s'.client.next = s.client.next
  servers : s'.server.objs = s.server.objs
  serverNext : s'.server.next = s.server.next
  ips : ∀ r, (s'.server.obj r).ip = (s.server.obj r).ip

/-- A client is added, and a server at its index. -/
structure Added (s s' : Relay) : Prop where
  clients : s'.client.objs = s.client.objs ++ [some s.client.next]
  clientNext : s'.client.next = s.client.next + 1
  servers : s'.server.objs = (s.server.put s.client.objs.length s.server.next).objs
  serverNext : s'.server.next = s.server.next + 1
  ips : ∀ r < s.server.next, (s'.server.obj r).ip = (s.server.obj r).ip

theorem Same.refl (s : Relay) : Same s s := ⟨rfl, rfl, rfl, rfl, fun _ => rfl⟩

theorem setDhcpServer_disabled (s : Relay) (i : Nat) (item : LanItem) :
    Same s (s.setDhcpServer i item .disabled) := by
  constructor <;> simp [setDhcpServer, disableRelay]

theorem setDhcpServer_enabled (s : Relay) (i : Nat) (item : LanItem) :
    Same s (s.setDhcpServer i item .enabled) := by
  simp only [setDhcpServer]
  split
  · exact .refl s
  · split <;> constructor <;> simp [setItem, disableRelay]

theorem addRelay_added (s : Relay) (i : Nat) (item : LanItem) : Added s (s.addRelay i item) := by
  refine ⟨rfl, rfl, rfl, rfl, fun r hr => ?_⟩
  simp [addRelay, setItem, Objs.put, Objs.new, Nat.ne_of_lt hr]

theorem setDhcpServer_relay (s : Relay) (i : Nat) (item : LanItem) :
    Same s (s.setDhcpServer i item .relay) ∨ Added s (s.setDhcpServer i item .relay) := by
  simp only [setDhcpServer]
  split
  · exact .inl ⟨rfl, rfl, rfl, rfl, fun _ => rfl⟩
  · split
    · have h := addRelay_added { s with dhcpd := s.dhcpd.enable item.dhcpdObj false,
                                        relayEnabled := true } i item
      exact .inr ⟨h.clients, h.clientNext, h.servers, h.serverNext, h.ips⟩
    · left
      constructor <;> simp

/-- What a call does to the two arrays. -/
theorem step_cases (s : Relay) (call : Call) : Same s (s.step call) ∨ Added s (s.step call) := by
  cases call with
  | addLan devname =>
      left
      simp only [step, addLan]
      split
      · exact .refl s
      · exact ⟨rfl, rfl, rfl, rfl, fun _ => rfl⟩
  | removeLan devname =>
      left
      simp only [step, removeLan]
      split
      · exact .refl s
      · rename_i i item _
        have h := setDhcpServer_disabled s i item
        exact ⟨h.clients, h.clientNext, h.servers, h.serverNext, h.ips⟩
  | getDhcpServer i =>
      left
      simp only [step]
      split
      · exact .refl s
      · simp only [getDhcpServer]
        split
        · exact ⟨rfl, rfl, rfl, rfl, fun _ => rfl⟩
        · split <;> exact ⟨rfl, rfl, rfl, rfl, fun _ => rfl⟩
  | setDhcpServer i mode =>
      simp only [step]
      split
      · exact .inl (.refl s)
      · rename_i item _
        cases mode with
        | disabled => exact .inl (setDhcpServer_disabled s i item)
        | enabled => exact .inl (setDhcpServer_enabled s i item)
        | relay => exact setDhcpServer_relay s i item

/-! ## Runs -/

/-- What a run from a loaded configuration keeps: the clients, the servers
that loading left, and the addresses. -/
structure Inv (d : Dhcp) (servers : List Nat) (s : Relay) : Prop where
  clients : ∃ new, s.client.objs = d.client.objs ++ new ∧ ∀ r, some r ∈ new → d.client.next ≤ r
  clientNext : d.client.next ≤ s.client.next
  stays : ∀ k < d.client.objs.length, (s.server.objs[k]?).join = servers[k]?
  serverNext : d.server.next ≤ s.server.next
  ips : ∀ r < d.server.next, (s.server.obj r).ip = (d.server.obj r).ip
  short : s.server.objs.length ≤ s.client.objs.length
  level : servers.length = d.client.objs.length → s.server.objs.length = s.client.objs.length

theorem Inv.step {d : Dhcp} {servers : List Nat} {s : Relay} (h : Inv d servers s) (call : Call) :
    Inv d servers (s.step call) := by
  rcases step_cases s call with hsame | hadded
  · exact
      { clients := by rw [hsame.clients]; exact h.clients
        clientNext := by rw [hsame.clientNext]; exact h.clientNext
        stays := by rw [hsame.servers]; exact h.stays
        serverNext := by rw [hsame.serverNext]; exact h.serverNext
        ips := fun r hr => (hsame.ips r).trans (h.ips r hr)
        short := by rw [hsame.servers, hsame.clients]; exact h.short
        level := by rw [hsame.servers, hsame.clients]; exact h.level }
  · obtain ⟨new, hnew, hfresh⟩ := h.clients
    have hlen : (s.step call).server.objs.length = s.client.objs.length + 1 := by
      rw [hadded.servers, Objs.put_length _ _ _ h.short]
    have hclients : (s.step call).client.objs.length = s.client.objs.length + 1 := by
      rw [hadded.clients, List.length_append, List.length_singleton]
    have hlong : d.client.objs.length ≤ s.client.objs.length := by
      rw [hnew, List.length_append]
      omega
    exact
      { clients := by
          refine ⟨new ++ [some s.client.next], ?_, fun r hr => ?_⟩
          · rw [hadded.clients, hnew, List.append_assoc]
          · rcases List.mem_append.mp hr with hr | hr
            · exact hfresh r hr
            · rw [List.mem_singleton, Option.some.injEq] at hr
              exact hr ▸ h.clientNext
        clientNext := hadded.clientNext ▸ Nat.le_succ_of_le h.clientNext
        stays := fun k hk => by
          rw [hadded.servers, Objs.put_of_ne _ _ (by omega), h.stays k hk]
        serverNext := hadded.serverNext ▸ Nat.le_succ_of_le h.serverNext
        ips := fun r hr => (hadded.ips r (hr.trans_le h.serverNext)).trans (h.ips r hr)
        short := by omega
        level := fun _ => by omega }

theorem Inv.run {d : Dhcp} {servers : List Nat} {s : Relay} (h : Inv d servers s)
    (calls : List Call) : Inv d servers (s.run calls) := by
  induction calls generalizing s with
  | nil => exact h
  | cons call calls ih => exact ih (h.step call)

/-! ## Pairs -/

/-- A configuration with a server for each client: arrays of one length that
end with an object, with holes at the same places, and each client in one
place. -/
structure Paired (d : Dhcp) : Prop where
  length : d.client.objs.length = d.server.objs.length
  holes : ∀ k : Nat, d.client.objs[k]? = some none ↔ d.server.objs[k]? = some none
  full : d.client.objs.getLast? ≠ some none
  clientNext : ∀ r, some r ∈ d.client.objs → r < d.client.next
  serverNext : ∀ r, some r ∈ d.server.objs → r < d.server.next
  distinct : ∀ (j k r : Nat), d.client.objs[j]? = some (some r) → d.client.objs[k]? = some (some r) → j = k

/-- The interface of an object is one of these. -/
def Exists (ifcs : List Str) (o : DhcpObj) : Prop := ∃ devname ∈ ifcs, o.devname = some devname

/-- The pairs after a run: the arrays have one length, a client of an
interface that exists is there and has the server address it had, and one of
another interface is gone, and its server. -/
structure Kept (ifcs : List Str) (d : Dhcp) (s : Relay) : Prop where
  length : s.client.objs.length = s.server.objs.length
  survives : ∀ k c : Nat, d.client.objs[k]? = some (some c) → Exists ifcs (d.client.obj c) →
    ∃ j v w : Nat, s.client.objs[j]? = some (some c) ∧ d.server.objs[k]? = some (some v) ∧
      s.server.objs[j]? = some (some w) ∧ (s.server.obj w).ip = (d.server.obj v).ip
  removed : ∀ k c : Nat, d.client.objs[k]? = some (some c) → ¬Exists ifcs (d.client.obj c) →
    some c ∉ s.client.objs ∧ ∀ v, d.server.objs[k]? = some (some v) → some v ∉ s.server.objs

/-- Loading has nothing to remove: the interfaces of all clients and of all
servers exist, and there are no holes. -/
def AllExist (ifcs : List Str) (d : Dhcp) : Prop :=
  (∀ c, some c ∈ d.client.objs → Exists ifcs (d.client.obj c)) ∧
    ∀ o ∈ d.server.objs, ∃ v, o = some v ∧ Exists ifcs (d.server.obj v)

/-- The servers that loading leaves. -/
def left (ifcs : List Str) (d : Dhcp) : List Nat :=
  d.server.grepDevname fun devname => devname.any (· ∈ ifcs)

theorem exists_iff (ifcs : List Str) (o : DhcpObj) :
    (o.devname.any fun devname => decide (devname ∈ ifcs)) = true ↔ Exists ifcs o := by
  cases h : o.devname <;> simp [Exists, h]

theorem removeDuplicates_relay (d : Dhcp) :
    d.removeDuplicates.client = d.client ∧ d.removeDuplicates.server = d.server := by
  unfold Dhcp.removeDuplicates
  split <;> exact ⟨rfl, rfl⟩

theorem load_client (net : Net) (lans : List Nat) (ppp : Bool) (d : Dhcp) :
    (load net lans ppp d).client = d.client :=
  (removeDuplicates_relay _).1

theorem load_server (net : Net) (lans : List Nat) (ppp : Bool) (d : Dhcp) :
    (load net lans ppp d).server =
      { d.server with objs := (left (validIfcs net ppp) d).map some } :=
  (removeDuplicates_relay _).2

theorem left_length_le (ifcs : List Str) (d : Dhcp) : (left ifcs d).length ≤ d.server.objs.length :=
  (List.length_filter_le _ _).trans (List.length_filterMap_le _ _)

/-- The objects that pass a test are all that there are, without holes. -/
theorem filter_length_iff (p : Nat → Bool) (objs : List (Option Nat)) :
    ((objs.filterMap id).filter p).length = objs.length ↔ ∀ o ∈ objs, ∃ v, o = some v ∧ p v := by
  induction objs with
  | nil => simp
  | cons o objs ih =>
      have hle := (List.length_filter_le p (objs.filterMap id)).trans (List.length_filterMap_le _ _)
      cases o with
      | none =>
          have hshort : ((objs.filterMap id).filter p).length ≠ objs.length + 1 := by omega
          simpa using hshort
      | some v =>
          rw [show (some v :: objs).filterMap id = v :: objs.filterMap id from rfl, List.filter_cons,
            List.forall_mem_cons, List.length_cons]
          by_cases hv : p v
          · rw [if_pos hv, List.length_cons, Nat.succ_inj, ih]
            simp [hv]
          · rw [if_neg hv]
            constructor
            · intro h
              omega
            · rintro ⟨⟨v', hv', hp⟩, -⟩
              exact absurd (Option.some.inj hv' ▸ hp) hv

theorem filter_eq_self {p : Nat → Bool} {objs : List (Option Nat)}
    (h : ∀ o ∈ objs, ∃ v, o = some v ∧ p v) : ((objs.filterMap id).filter p).map some = objs := by
  induction objs with
  | nil => rfl
  | cons o objs ih =>
      rw [List.forall_mem_cons] at h
      obtain ⟨⟨v, rfl, hv⟩, hrest⟩ := h
      rw [show (some v :: objs).filterMap id = v :: objs.filterMap id from rfl, List.filter_cons,
        if_pos hv, List.map_cons, ih hrest]

/-- All servers are left when they all exist, and fewer when not. -/
theorem left_length_iff (ifcs : List Str) (d : Dhcp) :
    (left ifcs d).length = d.server.objs.length ↔
      ∀ o ∈ d.server.objs, ∃ v, o = some v ∧ Exists ifcs (d.server.obj v) := by
  simp only [← exists_iff]
  exact filter_length_iff _ _

theorem left_eq {ifcs : List Str} {d : Dhcp}
    (h : ∀ o ∈ d.server.objs, ∃ v, o = some v ∧ Exists ifcs (d.server.obj v)) :
    (left ifcs d).map some = d.server.objs := by
  simp only [← exists_iff] at h
  exact filter_eq_self h

theorem load_inv (net : Net) (lans : List Nat) (ppp : Bool) {d : Dhcp} (h : Paired d) :
    Inv d (left (validIfcs net ppp) d) (load net lans ppp d) := by
  have hle := left_length_le (validIfcs net ppp) d
  have hlen := h.length
  exact
    { clients := ⟨[], by rw [load_client, List.append_nil], fun r hr => by cases hr⟩
      clientNext := by rw [load_client]
      stays := fun k _ => by
        rw [load_server, List.getElem?_map]
        cases (left (validIfcs net ppp) d)[k]? <;> rfl
      serverNext := by rw [load_server]
      ips := fun r _ => by rw [load_server]
      short := by
        rw [load_server, load_client, List.length_map]
        omega
      level := fun hall => by rw [load_server, load_client, List.length_map, hall] }

/-- A client that was there is where it was. -/
theorem Inv.client_at {d : Dhcp} {servers : List Nat} {s : Relay} (h : Inv d servers s) {k : Nat}
    (hk : k < d.client.objs.length) : s.client.objs[k]? = d.client.objs[k]? := by
  obtain ⟨new, hnew, -⟩ := h.clients
  rw [hnew, List.getElem?_append_left hk]

/-- It is nowhere else. -/
theorem Inv.client_index {d : Dhcp} (hd : Paired d) {servers : List Nat} {s : Relay}
    (h : Inv d servers s) {j k c : Nat} (hk : d.client.objs[k]? = some (some c))
    (hj : s.client.objs[j]? = some (some c)) : j = k := by
  by_cases hlt : j < d.client.objs.length
  · rw [h.client_at hlt] at hj
    exact hd.distinct j k c hj hk
  · obtain ⟨new, hnew, hfresh⟩ := h.clients
    rw [hnew, List.getElem?_append_right (not_lt.mp hlt)] at hj
    have hnext := hd.clientNext c (List.mem_of_getElem? hk)
    have hge := hfresh c (List.mem_of_getElem? hj)
    omega

/-- The pairs survive loading and any calls exactly when loading has nothing
to remove. -/
theorem pairs_kept_iff (net : Net) (lans : List Nat) (ppp : Bool) {d : Dhcp} (hd : Paired d)
    (calls : List Call) :
    Kept (validIfcs net ppp) d ((load net lans ppp d).run calls) ↔ AllExist (validIfcs net ppp) d := by
  have hinv := (load_inv net lans ppp hd).run calls
  generalize (load net lans ppp d).run calls = s at hinv
  generalize validIfcs net ppp = ifcs at hinv
  constructor
  · intro hkept
    have hclients : ∀ c, some c ∈ d.client.objs → Exists ifcs (d.client.obj c) := by
      intro c hc
      by_contra hno
      obtain ⟨k, hk⟩ := List.mem_iff_getElem?.mp hc
      refine (hkept.removed k c hk hno).1 ?_
      obtain ⟨new, hnew, -⟩ := hinv.clients
      rw [hnew]
      exact List.mem_append_left _ hc
    refine ⟨hclients, (left_length_iff ifcs d).mp ?_⟩
    by_contra hne
    -- the last client has lost its server
    have hle := left_length_le ifcs d
    have hlen := hd.length
    obtain ⟨o, ho⟩ := Option.isSome_iff_exists.mp (List.getLast?_isSome.mpr
      (List.ne_nil_of_length_pos (by omega : 0 < d.client.objs.length)))
    cases o with
    | none => exact hd.full ho
    | some c =>
        rw [List.getLast?_eq_getElem?] at ho
        obtain ⟨j, v, w, hj, -, hw, -⟩ :=
          hkept.survives _ c ho (hclients c (List.mem_of_getElem? ho))
        obtain rfl := hinv.client_index hd ho hj
        have hstays := hinv.stays (d.client.objs.length - 1) (by omega)
        rw [hw, List.getElem?_eq_none (by omega)] at hstays
        cases hstays
  · rintro ⟨hclients, hservers⟩
    have hall := (left_length_iff ifcs d).mpr hservers
    have hleft := left_eq hservers
    refine ⟨(hinv.level (hall.trans hd.length.symm)).symm, ?_, ?_⟩
    · intro k c hk _
      have hlt := (List.getElem?_eq_some_iff.mp hk).1
      have hlt' : k < (left ifcs d).length := by rw [hall, ← hd.length]; exact hlt
      have hv : d.server.objs[k]? = some (some (left ifcs d)[k]) := by
        rw [← hleft, List.getElem?_map, List.getElem?_eq_getElem hlt', Option.map_some]
      have hstays := hinv.stays k hlt
      rw [List.getElem?_eq_getElem hlt', Option.join_eq_some_iff] at hstays
      refine ⟨k, _, _, by rw [hinv.client_at hlt, hk], hv, hstays, ?_⟩
      exact hinv.ips _ (hd.serverNext _ (List.mem_of_getElem? hv))
    · intro k c hk hno
      exact absurd (hclients c (List.mem_of_getElem? hk)) hno

/-! ## A router -/

def ETH0 : Str := "eth0".toList
def ETH1 : Str := "eth1".toList

theorem wan_below_next : ∀ r ∈ some 0, r < 3 := by decide

/-- The WAN on `eth0`, and a management interface. -/
def router : Net where
  isBridge := false
  interfaces := [ETH0, ETH1]
  freeIfc := []
  wan := some 0
  mlan := 1
  lan := fun _ => none
  netconf := [0, 2]
  records := fun r => ⟨if r = 0 then ETH0 else ETH1, if r = 0 then WAN else LAN, true, none, none,
    false, false, r⟩
  aliases := fun _ => []
  next := 3
  bridges := []
  vlan := none
  ebVlan := ⟨false, []⟩
  arpnat := ⟨false, []⟩
  eap := ⟨false, []⟩
  wan_ne := by decide
  wan_lt := wan_below_next
  mlan_lt := by decide

/-- A relay with one client and its server, and their interfaces. -/
def oneRelay (devname serverDevname : Str) : Dhcp where
  dhcpdEnabled := false
  relayEnabled := true
  dhcpd := ⟨[], fun _ => .create [] false, 0⟩
  client := ⟨[some 0], fun _ => ⟨some devname, none, true, 0⟩, 1⟩
  server := ⟨[some 0], fun _ => ⟨some serverDevname, some "10.0.0.1".toList, true, 0⟩, 1⟩

theorem oneRelay_paired (devname serverDevname : Str) :
    Paired (oneRelay devname serverDevname) where
  length := rfl
  holes := fun k => Iff.rfl
  full := by simp [oneRelay]
  clientNext := by simp [oneRelay]
  serverNext := by simp [oneRelay]
  distinct := by
    intro j k r hj hk
    simp only [oneRelay] at hj hk
    have hj := (List.getElem?_eq_some_iff.mp hj).1
    have hk := (List.getElem?_eq_some_iff.mp hk).1
    simp only [List.length_singleton] at hj hk
    omega

/-- A LAN on `eth1` that is relayed, removed and relayed again. -/
theorem pairs_kept_eth1 :
    Kept (validIfcs router false) (oneRelay ETH1 ETH0)
      ((load router [2] false (oneRelay ETH1 ETH0)).run
        [.getDhcpServer 0, .removeLan ETH1, .addLan ETH1, .getDhcpServer 1, .setDhcpServer 1 .relay]) := by
  refine (pairs_kept_iff router [2] false (oneRelay_paired ETH1 ETH0) _).mpr ⟨?_, ?_⟩
  · intro c _
    exact ⟨ETH1, by simp [validIfcs, router], rfl⟩
  · intro o ho
    simp only [oneRelay, List.mem_singleton] at ho
    exact ⟨0, ho, ETH0, by simp [validIfcs, router], rfl⟩

/-- The client of a VLAN that is gone stays, and the server on an interface
that is gone leaves its client. -/
theorem pairs_kept_fails_gone :
    ¬Kept (validIfcs router false) (oneRelay "eth1.7".toList ETH0)
        ((load router [2] false (oneRelay "eth1.7".toList ETH0)).run []) ∧
      ¬Kept (validIfcs router false) (oneRelay ETH1 "eth0.9".toList)
        ((load router [2] false (oneRelay ETH1 "eth0.9".toList)).run []) := by
  constructor
  · intro h
    refine (h.removed 0 0 rfl ?_).1 ?_
    · simp only [Exists, validIfcs, router, oneRelay]
      decide
    · rw [run, List.foldl_nil, load_client]
      simp [oneRelay]
  · intro h
    have hlen := h.length
    rw [run, List.foldl_nil, load_client, load_server] at hlen
    revert hlen
    decide +kernel

end Relay

end UbntSdk.Web
