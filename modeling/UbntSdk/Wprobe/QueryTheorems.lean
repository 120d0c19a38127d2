/-
UbntSdk.Wprobe.QueryTheorems — several clients that dump values of one
interface at the same time.

The first call of a dump takes the values of what was asked for and copies
them to `query_val`; the later calls read `query_val`. There is one
`query_val` for each interface, so the first call of one client takes away
what another has not read yet.

`Query` is the interface with the clients in any interleaving of their
calls, and with what each client's first call took (`taken`). The invariant
`Fresh` says that `query_val` still holds what an unfinished client took; a
later call reads only, and a first call keeps it if no other dump is
unfinished (`Alone`). From it, `unmixed_run` follows for all runs.
-/
import UbntSdk.Wprobe.DumpTheorems
import Mathlib.Logic.Function.Basic

namespace UbntSdk.Wprobe

open UbntSdk.Lib

/-! ## Clients -/

/-- What a `WPROBE_CMD_GET_INFO` request asks for: the link with an address,
or the interface. -/
structure Ask where
  mac : Option Addr
  flags : Option UInt32

def Ask.request (a : Ask) : InfoRequest := ⟨.getInfo, a.mac, a.flags⟩

/-- The items of what is asked for. -/
def Ask.items (a : Ask) (dev : Iface) : List Item :=
  if a.mac.isSome then dev.linkItems else dev.globalItems

/-- The values of what is asked for. -/
def Ask.values (a : Ask) (dev : Iface) : Nat → Value :=
  match a.mac with
  | none => dev.val
  | some mac => (findLink dev mac).elim (fun _ => .zero) fun k => dev.vals (some k)

/-- A client: `cb->args` (none before the first call), and the values its
first call took. -/
structure Client where
  cb : Option InfoArgs
  taken : Nat → Value

/-- The interface and its clients. -/
structure Query (κ : Type) where
  dev : Iface
  clients : κ → Client

/-- A client's next call. -/
structure Callback (κ : Type) where
  client : κ
  sync : SyncData
  now : UInt64
  room : Nat

section

variable {κ : Type} [DecidableEq κ] (asks : κ → Ask)

def Query.call (s : Query κ) (ev : Callback κ) :
    Except Int (Iface × Option (Page InfoRecord InfoArgs)) :=
  dumpInfo s.dev (asks ev.client).request ev.sync ev.now (s.clients ev.client).cb ev.room

/-- The records of the call. -/
def Query.emits (s : Query κ) (ev : Callback κ) : List InfoRecord :=
  match s.call asks ev with
  | .ok (_, some page) => page.records
  | _ => []

/-- After the call. The first one takes the values of what was asked for. -/
def Query.step (s : Query κ) (ev : Callback κ) : Query κ :=
  match s.call asks ev with
  | .ok (dev, some page) =>
      { dev
        clients := Function.update s.clients ev.client {
          cb := some page.next
          taken :=
            if (s.clients ev.client).cb.isNone then (asks ev.client).values dev
            else (s.clients ev.client).taken } }
  | _ => s

/-- The record is the value of an item of what was asked for, as the first
call took it. -/
def Belongs (a : Ask) (dev : Iface) (taken : Nat → Value) (r : InfoRecord) : Prop :=
  ∃ i item flags, (a.items dev)[i]? = some item ∧ r = .value (valueRecord item i flags (taken i))

/-- Every record of the call belongs to its client. -/
def Unmixed (s : Query κ) (ev : Callback κ) : Prop :=
  ∀ r ∈ s.emits asks ev, Belongs (asks ev.client) (s.step asks ev).dev
    ((s.step asks ev).clients ev.client).taken r

/-- A first call finds no other dump unfinished, and its flags do not claim
a link without an address. -/
def Alone (s : Query κ) (ev : Callback κ) : Prop :=
  (s.clients ev.client).cb = none →
    ((asks ev.client).mac = none → (asks ev.client).flags.getD 0 &&& WPROBE_F_LINK = 0) ∧
    ∀ c, c ≠ ev.client → ∀ args, (s.clients c).cb = some args →
      (infoItems s.dev args.vflags).length ≤ args.i

def AllUnmixed : Query κ → List (Callback κ) → Prop
  | _, [] => True
  | s, ev :: rest => Unmixed asks s ev ∧ AllUnmixed (s.step asks ev) rest

def AllAlone : Query κ → List (Callback κ) → Prop
  | _, [] => True
  | s, ev :: rest => Alone asks s ev ∧ AllAlone (s.step asks ev) rest

/-! ## The invariant -/

/-- Every client goes through the items it asked for, and while it has not
finished, what it took is in `query_val`. -/
structure Fresh (s : Query κ) : Prop where
  kind : ∀ c args, (s.clients c).cb = some args → infoItems s.dev args.vflags = (asks c).items s.dev
  taken : ∀ c args, (s.clients c).cb = some args → args.i < (infoItems s.dev args.vflags).length →
    ∀ i, i < (infoItems s.dev args.vflags).length → s.dev.queryVal i = (s.clients c).taken i

end

/-! ## The first call -/

section

variable {dev dev' : Iface} {a : Ask} {sync : SyncData} {now : UInt64} {args : InfoArgs}

@[simp] theorem setVals_items (l : Option Nat) (val : Nat → Value) :
    (dev.setVals l val).linkItems = dev.linkItems ∧
    (dev.setVals l val).globalItems = dev.globalItems ∧
    (dev.setVals l val).links.map (·.addr) = dev.links.map (·.addr) := by
  cases l with
  | none => exact ⟨rfl, rfl, rfl⟩
  | some k =>
      refine ⟨rfl, rfl, ?_⟩
      simp only [Iface.setVals]
      refine List.ext_getElem (by simp) fun i h₁ h₂ => ?_
      simp only [List.getElem_map, List.getElem_modify]
      split <;> rfl

/-- A sync changes values only. -/
theorem snapshot_items (l : Option Nat) :
    (snapshot dev l sync now).linkItems = dev.linkItems ∧
    (snapshot dev l sync now).globalItems = dev.globalItems ∧
    (snapshot dev l sync now).links.map (·.addr) = dev.links.map (·.addr) := by
  simp only [snapshot, syncData]
  split
  · simp
  · split <;> simp

theorem findLink_congr {mac : Addr} (h : dev'.links.map (·.addr) = dev.links.map (·.addr)) :
    findLink dev' mac = findLink dev mac := by
  have hmap : ∀ d : Iface, findLink d mac = (d.links.map (·.addr)).findIdx? (· = mac) := by
    intro d
    simp [findLink, List.findIdx?_map, Function.comp_def]
  rw [hmap, hmap, h]

theorem infoItems_congr (hlink : dev'.linkItems = dev.linkItems)
    (hglobal : dev'.globalItems = dev.globalItems) (vflags : UInt32) :
    infoItems dev' vflags = infoItems dev vflags := by
  simp only [infoItems, hlink, hglobal]

theorem askItems_congr (hlink : dev'.linkItems = dev.linkItems)
    (hglobal : dev'.globalItems = dev.globalItems) : a.items dev' = a.items dev := by
  simp only [Ask.items, hlink, hglobal]

/-- The flag for the link is in the flags of a request with an address. -/
theorem requestFlags_link (vflags : UInt32) (h : a.mac.isSome = true) :
    requestFlags a.request vflags &&& WPROBE_F_LINK ≠ 0 := by
  simp only [requestFlags, Ask.request, h, if_true]
  intro hzero
  have hbit := congrArg (fun x => x.toBitVec.getLsbD 31) hzero
  simp [WPROBE_F_LINK] at hbit

/-- After the first call, `query_val` holds the values of what was asked
for, and the dump goes through its items. -/
theorem startInfo_spec (hstart : startInfo dev a.request sync now = .ok (dev', args))
    (hflags : a.mac = none → a.flags.getD 0 &&& WPROBE_F_LINK = 0) :
    dev'.linkItems = dev.linkItems ∧ dev'.globalItems = dev.globalItems ∧
    infoItems dev' args.vflags = a.items dev' ∧
    ∀ i, i < (infoItems dev' args.vflags).length → dev'.queryVal i = a.values dev' i := by
  unfold startInfo at hstart
  split at hstart
  · cases hstart
  · rename_i l vflags hlink
    have hcmd : a.request.cmd = .getInfo := rfl
    simp only [hcmd, if_true] at hstart
    cases hstart
    obtain ⟨hitems, hglobal, haddrs⟩ := @snapshot_items dev sync now l
    have hquery : ∀ i, i < ((snapshot dev l sync now).items l).length →
        (snapshot dev l sync now).queryVal i = (snapshot dev l sync now).vals l i := by
      intro i hi
      have hvals : (snapshot dev l sync now).vals l = (syncData dev l true sync now).vals l := by
        cases l <;> rfl
      rw [hvals]
      simp only [snapshot, copyVals]
      rw [if_pos]
      exact hi
    refine ⟨hitems, hglobal, ?_⟩
    cases hmac : a.mac with
    | none =>
        have hl : l = none ∧ vflags = 0 := by
          simp only [requestLink, Ask.request, hmac] at hlink
          cases hlink
          exact ⟨rfl, rfl⟩
        obtain ⟨rfl, rfl⟩ := hl
        have hvflags : requestFlags a.request 0 &&& WPROBE_F_LINK = 0 := by
          simp only [requestFlags, Ask.request, hmac]
          simpa using hflags hmac
        have hkind : infoItems (snapshot dev none sync now) (requestFlags a.request 0) =
            a.items (snapshot dev none sync now) := by
          simp [infoItems, hvflags, Ask.items, hmac]
        refine ⟨hkind, fun i hi => ?_⟩
        rw [hkind, Ask.items, hmac] at hi
        simp only [Ask.values, hmac]
        exact hquery i hi
    | some mac =>
        have hl : ∃ k, l = some k ∧ findLink dev mac = some k := by
          simp only [requestLink, Ask.request, hmac] at hlink
          split at hlink
          · cases hlink
          · rename_i k hfind
            cases hlink
            exact ⟨k, rfl, hfind⟩
        obtain ⟨k, rfl, hfind⟩ := hl
        have hvflags := @requestFlags_link a vflags (by simp [hmac])
        have hkind : infoItems (snapshot dev (some k) sync now) (requestFlags a.request vflags) =
            a.items (snapshot dev (some k) sync now) := by
          simp [infoItems, hvflags, Ask.items, hmac]
        refine ⟨hkind, fun i hi => ?_⟩
        rw [hkind, Ask.items, hmac] at hi
        simp only [Ask.values, hmac, findLink_congr haddrs, hfind, Option.elim_some]
        exact hquery i hi

end

/-! ## Steps -/

/-- The records of a call are records of the whole dump that are not sent
yet. -/
theorem resume_mem {ρ : Type} {put : ρ → Nat → Put} {xs : List ρ} {i room : Nat} {page : Page ρ Nat}
    (h : resume put xs i room = some page) : i ≤ page.next ∧ ∀ r ∈ page.records, r ∈ xs.drop i := by
  obtain ⟨f, hf, rfl⟩ := Option.map_eq_some_iff.mp h
  refine ⟨Nat.le_add_right _ _, fun r hr => ?_⟩
  rw [← fill_append hf]
  exact List.mem_append_left _ hr

/-- A value that is sent is read from `query_val`. -/
theorem infoRecords_mem {dev : Iface} {vflags : UInt32} {j : Nat} {r : InfoRecord}
    (h : r ∈ (infoRecords dev .getInfo vflags).drop j) :
    j < (infoItems dev vflags).length ∧
    ∃ i item, (infoItems dev vflags)[i]? = some item ∧ i < (infoItems dev vflags).length ∧
      r = .value (valueRecord item i vflags (dev.queryVal i)) := by
  constructor
  · have hpos := List.length_pos_of_mem h
    simp only [List.length_drop, infoRecords, List.length_mapIdx] at hpos
    omega
  · obtain ⟨i, hi, rfl⟩ := List.mem_mapIdx.mp (List.mem_of_mem_drop h)
    exact ⟨i, _, List.getElem?_eq_getElem hi, hi, rfl⟩

section

variable {κ : Type} {asks : κ → Ask} {s : Query κ} {ev : Callback κ}

/-- What a call that sends a message comes from. -/
theorem call_ok {dev : Iface} {page : Page InfoRecord InfoArgs}
    (h : s.call asks ev = .ok (dev, some page)) :
    ∃ args, (match (s.clients ev.client).cb with
        | none => startInfo s.dev (asks ev.client).request ev.sync ev.now = .ok (dev, args)
        | some args' => dev = s.dev ∧ args = args') ∧
      page.next.vflags = args.vflags ∧ args.i ≤ page.next.i ∧
      ∀ r ∈ page.records, r ∈ (infoRecords dev .getInfo args.vflags).drop args.i := by
  have hmap : ∀ (x : Except Int (Iface × InfoArgs)),
      x.map (fun p => (p.1,
        (resume sendItem (infoRecords p.1 .getInfo p.2.vflags) p.2.i ev.room).map fun page =>
          (⟨page.records, { p.2 with i := page.next }, page.len⟩ : Page InfoRecord InfoArgs))) =
        .ok (dev, some page) →
      ∃ args, x = .ok (dev, args) ∧ page.next.vflags = args.vflags ∧ args.i ≤ page.next.i ∧
        ∀ r ∈ page.records, r ∈ (infoRecords dev .getInfo args.vflags).drop args.i := by
    intro x hx
    cases x with
    | error err => cases hx
    | ok p =>
        obtain ⟨d, args⟩ := p
        simp only [Except.map, Except.ok.injEq, Prod.mk.injEq] at hx
        obtain ⟨rfl, hpage⟩ := hx
        obtain ⟨page', hresume, rfl⟩ := Option.map_eq_some_iff.mp hpage
        exact ⟨args, rfl, rfl, resume_mem hresume⟩
  unfold Query.call dumpInfo at h
  cases hcb : (s.clients ev.client).cb with
  | none =>
      rw [hcb] at h
      obtain ⟨args, hstart, hrest⟩ := hmap _ h
      exact ⟨args, hstart, hrest⟩
  | some args' =>
      rw [hcb] at h
      obtain ⟨args, hcheck, hrest⟩ := hmap _ h
      refine ⟨args, ?_, hrest⟩
      simp only [checkLink] at hcheck
      split at hcheck
      · split at hcheck
        · cases hcheck
          exact ⟨rfl, rfl⟩
        · cases hcheck
      · cases hcheck
        exact ⟨rfl, rfl⟩

/-- Records read from `query_val` belong to the client whose values are
there. -/
theorem belongs_of_taken {a : Ask} {dev : Iface} {vflags : UInt32} {j : Nat} {taken : Nat → Value}
    (hkind : infoItems dev vflags = a.items dev)
    (htaken : ∀ i, i < (infoItems dev vflags).length → dev.queryVal i = taken i) {r : InfoRecord}
    (hr : r ∈ (infoRecords dev .getInfo vflags).drop j) : Belongs a dev taken r := by
  obtain ⟨_, i, item, hitem, hi, rfl⟩ := infoRecords_mem hr
  rw [htaken i hi]
  exact ⟨i, item, vflags, by rw [← hkind, hitem], rfl⟩

/-- One client's state changes, on an interface with the same items. -/
theorem Fresh.update [DecidableEq κ] {dev : Iface} {c : κ} {next : InfoArgs} {taken : Nat → Value}
    (h : Fresh asks s) (hlink : dev.linkItems = s.dev.linkItems)
    (hglobal : dev.globalItems = s.dev.globalItems)
    (hkind : infoItems dev next.vflags = (asks c).items dev)
    (htaken : next.i < (infoItems dev next.vflags).length →
      ∀ i, i < (infoItems dev next.vflags).length → dev.queryVal i = taken i)
    (hothers : ∀ c', c' ≠ c → ∀ args, (s.clients c').cb = some args →
      args.i < (infoItems s.dev args.vflags).length → dev.queryVal = s.dev.queryVal) :
    Fresh asks ⟨dev, Function.update s.clients c ⟨some next, taken⟩⟩ := by
  refine ⟨fun c' args hc => ?_, fun c' args hc hopen => ?_⟩
  · by_cases hclient : c' = c
    · subst hclient
      simp only [Function.update_self, Option.some.injEq] at hc
      rw [← hc]
      exact hkind
    · simp only [Function.update_of_ne hclient] at hc
      have hold := h.kind c' args hc
      rwa [infoItems_congr hlink hglobal, askItems_congr hlink hglobal]
  · by_cases hclient : c' = c
    · subst hclient
      simp only [Function.update_self, Option.some.injEq] at hc hopen ⊢
      rw [← hc] at hopen ⊢
      exact htaken hopen
    · simp only [Function.update_of_ne hclient, infoItems_congr hlink hglobal] at hc hopen ⊢
      rw [hothers c' hclient args hc hopen]
      exact h.taken c' args hc hopen

/-- A call keeps the invariant, and its records belong to its client. -/
theorem Fresh.step [DecidableEq κ] (h : Fresh asks s) (halone : Alone asks s ev) :
    Unmixed asks s ev ∧ Fresh asks (s.step asks ev) := by
  cases hcall : s.call asks ev with
  | error err => exact ⟨by simp [Unmixed, Query.emits, hcall], by simpa [Query.step, hcall] using h⟩
  | ok p =>
      obtain ⟨dev, page⟩ := p
      cases page with
      | none => exact ⟨by simp [Unmixed, Query.emits, hcall], by simpa [Query.step, hcall] using h⟩
      | some page =>
          obtain ⟨args, hargs, hvflags, hle, hrecords⟩ := call_ok hcall
          simp only [Unmixed, Query.emits, Query.step, hcall, Function.update_self]
          cases hcb : (s.clients ev.client).cb with
          | none =>
              rw [hcb] at hargs
              obtain ⟨hflags, hothers⟩ := halone hcb
              obtain ⟨hlink, hglobal, hkind, htaken⟩ := startInfo_spec hargs hflags
              refine ⟨fun r hr => belongs_of_taken hkind htaken (hrecords r hr), ?_⟩
              refine h.update hlink hglobal ?_ ?_ ?_
              · rw [hvflags, hkind]
              · rw [hvflags]
                exact fun _ => htaken
              · intro c hclient args' hc hopen
                have hdone := hothers c hclient args' hc
                omega
          | some args₀ =>
              rw [hcb] at hargs
              obtain ⟨rfl, rfl⟩ := hargs
              have hkind := h.kind ev.client args hcb
              refine ⟨fun r hr => ?_, h.update rfl rfl ?_ ?_ fun _ _ _ _ _ => rfl⟩
              · have hopen := (infoRecords_mem (hrecords r hr)).1
                exact belongs_of_taken hkind (h.taken ev.client args hcb hopen) (hrecords r hr)
              · rw [hvflags, hkind]
              · rw [hvflags]
                exact fun hopen => h.taken ev.client args hcb (by omega)

theorem Fresh.run [DecidableEq κ] (h : Fresh asks s) {events : List (Callback κ)}
    (halone : AllAlone asks s events) : AllUnmixed asks s events := by
  induction events generalizing s with
  | nil => trivial
  | cons ev rest ih =>
      obtain ⟨hhere, hrest⟩ := halone
      obtain ⟨hunmixed, hfresh⟩ := h.step hhere
      exact ⟨hunmixed, ih hfresh hrest⟩

end

/-- No client has started. -/
def Query.start (κ : Type) (dev : Iface) : Query κ := ⟨dev, fun _ => ⟨none, fun _ => .zero⟩⟩

/-- In every interleaving of the calls of any clients on one interface: if
every first call finds no other dump unfinished (and no flags that claim a
link without an address), every value that a client receives is of the link
or the interface it asked for, as its first call took it. -/
theorem unmixed_run {κ : Type} [DecidableEq κ] (asks : κ → Ask) (dev : Iface)
    (events : List (Callback κ)) (halone : AllAlone asks (Query.start κ dev) events) :
    AllUnmixed asks (Query.start κ dev) events := by
  have hfresh : Fresh asks (Query.start κ dev) := by
    refine ⟨fun c args hc => ?_, fun c args hc => ?_⟩
    · cases hc
    · cases hc
  exact hfresh.run halone

/-! ## Two clients -/

/-- Two values of the interface (1 and 2) and two of its one link (7 and 8),
bytes all of them. -/
def valuesIface : Iface :=
  let item : Item := ⟨[0x78], .valU8, 0⟩
  let bytes (x y : UInt64) : Nat → Value := fun i => { Value.zero with num := if i = 0 then x else y }
  { ifaceWith [⟨(linkOf 1).addr, 0, bytes 7 8⟩] none with
    linkItems := [item, item]
    globalItems := [item, item]
    val := bytes 1 2 }

/-- One client asks for the interface, the other for its link. -/
def twoAsks : Bool → Ask
  | false => ⟨none, none⟩
  | true => ⟨some (linkOf 1).addr, none⟩

/-- A call with a message that has room for one value. -/
def callOf (client : Bool) : Callback Bool := ⟨client, idle, 0, 64⟩

/-- The state after some calls. -/
def statesAfter (clients : List Bool) : Query Bool :=
  clients.foldl (fun s c => s.step twoAsks (callOf c)) (Query.start Bool valuesIface)

/-- The second client starts while the first has received one of its two
values. The other value that the first then receives is the link's. -/
theorem unmixed_fails_overlap :
    (statesAfter [false, true]).emits twoAsks (callOf false) =
      [.value ⟨1, 0, .valU8, 0, .u8 8, none⟩] ∧
    ¬ AllUnmixed twoAsks (Query.start Bool valuesIface)
        [callOf false, callOf true, callOf false] := by
  have hemits : (statesAfter [false, true]).emits twoAsks (callOf false) =
      [.value ⟨1, 0, .valU8, 0, .u8 8, none⟩] := by decide +kernel
  have hitems : ((twoAsks false).items (statesAfter [false, true, false]).dev).length = 2 := by
    decide +kernel
  have htaken : ((statesAfter [false, true, false]).clients false).taken 1 =
      { Value.zero with num := 2 } := by decide +kernel
  refine ⟨hemits, fun hall => ?_⟩
  obtain ⟨_, _, hunmixed, _⟩ := hall
  have hmem : InfoRecord.value ⟨1, 0, .valU8, 0, .u8 8, none⟩ ∈
      (statesAfter [false, true]).emits twoAsks (callOf false) := by
    rw [hemits]
    exact List.mem_cons_self
  obtain ⟨i, item, flags, hitem, heq⟩ := hunmixed _ hmem
  have hi : i < 2 := by
    rw [← hitems]
    exact (List.getElem?_eq_some_iff.mp hitem).1
  obtain ⟨hid, _, htype, _, hpayload, _⟩ := ValueRecord.mk.inj (InfoRecord.value.inj heq)
  have hone : i = 1 := by
    rcases Nat.lt_or_ge i 1 with h0 | h1
    · obtain rfl : i = 0 := by omega
      exact absurd hid (by decide)
    · omega
  subst hone
  have htaken' : payloadOf item.type { Value.zero with num := 2 } = .u8 8 := by
    rw [← htaken]
    exact hpayload.symm
  rw [← htype] at htaken'
  exact absurd htaken' (by decide)

/-- The second client starts when the first has received both values. -/
theorem unmixed_run_inTurn :
    AllUnmixed twoAsks (Query.start Bool valuesIface)
      [callOf false, callOf false, callOf true, callOf true] := by
  have hcb₁ : ((statesAfter [false]).clients false).cb.isSome = true := by decide +kernel
  have hcb₂ : ((statesAfter [false, false]).clients false).cb.map (fun args =>
      decide ((infoItems (statesAfter [false, false]).dev args.vflags).length ≤ args.i)) =
        some true := by decide +kernel
  have hcb₃ : ((statesAfter [false, false, true]).clients true).cb.isSome = true := by decide +kernel
  refine unmixed_run twoAsks valuesIface _ ⟨?_, ?_, ?_, ?_, trivial⟩
  · intro _
    refine ⟨fun _ => by decide, fun c _ args hc => ?_⟩
    cases hc
  · intro hnone
    rw [show ((statesAfter [false]).clients false).cb = none from hnone] at hcb₁
    cases hcb₁
  · intro _
    refine ⟨fun hmac => ?_, fun c hne args hc => ?_⟩
    · cases hmac
    · cases c with
      | true => exact absurd rfl hne
      | false =>
          rw [show ((statesAfter [false, false]).clients false).cb = some args from hc] at hcb₂
          exact of_decide_eq_true (Option.some.inj hcb₂)
  · intro hnone
    rw [show ((statesAfter [false, false, true]).clients true).cb = none from hnone] at hcb₃
    cases hcb₃

end UbntSdk.Wprobe
