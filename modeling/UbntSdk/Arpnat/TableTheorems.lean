/-
UbntSdk.Arpnat.TableTheorems — what the calls of the ARPNAT table can do to
it.

`Change` is the abstract view of the table: expired records and empty
entries are unlinked, the record a call is about gets a new expiry, a
record or an entry that is not there yet is added. Every call is a sequence
of such changes (`updateNat_changes`, `updatePppoeNat_changes`), and the
searches only unlink (`findMacNat_pruned`, `findNat_pruned`), so each
invariant has to be looked at once for `Change`.

`findNat_hit` and `findNat_miss` say what a search finds: the first entry
of the table with an unexpired record.
-/
import UbntSdk.Arpnat.Table
import Mathlib.Data.Fin.VecNotation
import Mathlib.Logic.Relation

namespace UbntSdk.Arpnat

open UbntSdk.Lib

/-! ## Expiry -/

/-- The record has not expired. -/
def ArpnatData.Live (jiffies : Nat) (r : ArpnatData) : Prop := timeAfter jiffies r.expires = false

/-- Only expired records are gone. -/
def DataPruned (jiffies : Nat) : List ArpnatData → List ArpnatData → Prop :=
  Pruned Eq fun r => ¬ r.Live jiffies

/-- The same entry, only expired records are gone. -/
def EntryPruned (jiffies : Nat) (e e' : Mac2ip) : Prop :=
  e'.mac = e.mac ∧ DataPruned jiffies e.data e'.data

/-- No record of the entry is left. -/
def AllExpired (jiffies : Nat) (e : Mac2ip) : Prop := ∀ r ∈ e.data, ¬ r.Live jiffies

/-- Only expired records, and entries without any other, are gone. -/
def TablePruned (jiffies : Nat) : ArpnatTable → ArpnatTable → Prop :=
  Pruned (EntryPruned jiffies) (AllExpired jiffies)

theorem live_iff {jiffies : Nat} {r : ArpnatData} : r.Live jiffies ↔ jiffies ≤ r.expires := by
  simp [ArpnatData.Live, timeAfter]

theorem DataPruned.refl (jiffies : Nat) (data : List ArpnatData) : DataPruned jiffies data data :=
  Pruned.refl (fun _ => rfl) data

theorem EntryPruned.refl (jiffies : Nat) (e : Mac2ip) : EntryPruned jiffies e e :=
  ⟨rfl, DataPruned.refl jiffies e.data⟩

theorem TablePruned.refl (jiffies : Nat) (head : ArpnatTable) : TablePruned jiffies head head :=
  Pruned.refl (EntryPruned.refl jiffies) head

section Find

variable {jiffies : Nat}

/-- A record that is still there was there, and an unexpired one stays. -/
theorem DataPruned.mem_iff {data data' : List ArpnatData} (h : DataPruned jiffies data data')
    {r : ArpnatData} (hlive : r.Live jiffies) : r ∈ data' ↔ r ∈ data := by
  constructor
  · intro hr
    obtain ⟨r', hr', rfl⟩ := h.mem_after hr
    exact hr'
  · intro hr
    rcases h.mem_before hr with hdead | ⟨r', hr', rfl⟩
    · exact absurd hlive hdead
    · exact hr'

/-! ## Searching an entry -/

/-- What the two searches of an entry have in common. -/
structure Finds (jiffies : Nat) (sought : ArpnatData → Prop) (find : Mac2ip → Walk ArpnatData) :
    Prop where
  hit : ∀ {e older r newer}, find e = .hit older r newer →
    sought r ∧ r.Live jiffies ∧ DataPruned jiffies e.data (older ++ r :: newer)
  miss : ∀ {e data}, find e = .miss data →
    (∀ r ∈ data, ¬ (sought r ∧ r.Live jiffies)) ∧ DataPruned jiffies e.data data

/-- The three outcomes of a visit to a record. -/
theorem visitData_found {sought : ArpnatData → Bool} {r r' : ArpnatData} :
    visitData jiffies sought r = .found r' ↔ r = r' ∧ r.Live jiffies ∧ sought r = true := by
  simp only [visitData, ArpnatData.Live]
  cases timeAfter jiffies r.expires <;> cases sought r <;> simp

theorem visitData_keep {sought : ArpnatData → Bool} {r r' : ArpnatData} :
    visitData jiffies sought r = .keep r' ↔ r = r' ∧ r.Live jiffies ∧ sought r = false := by
  simp only [visitData, ArpnatData.Live]
  cases timeAfter jiffies r.expires <;> cases sought r <;> simp

theorem visitData_unlink {sought : ArpnatData → Bool} {r : ArpnatData} :
    visitData jiffies sought r = .unlink ↔ ¬ r.Live jiffies := by
  simp only [visitData, ArpnatData.Live]
  cases timeAfter jiffies r.expires <;> cases sought r <;> simp

/-- Passing over records unlinks the expired ones. -/
theorem visitData_pruned {sought : ArpnatData → Bool} {data data' : List ArpnatData}
    (h : Pruned (fun r r' => visitData jiffies sought r = .keep r')
      (fun r => visitData jiffies sought r = .unlink) data data') :
    DataPruned jiffies data data' :=
  h.mono (fun _ _ hk => (visitData_keep.mp hk).1) fun _ hu => visitData_unlink.mp hu

theorem mac2ipFind_finds (sought : ArpnatData → Bool) :
    Finds jiffies (fun r => sought r = true) (mac2ipFind jiffies sought) where
  hit := by
    intro e older r newer h
    obtain ⟨pre, x, hdata, hx, _, hpruned⟩ := walk_hit h
    obtain ⟨rfl, hlive, hsought⟩ := visitData_found.mp hx
    refine ⟨hsought, hlive, ?_⟩
    rw [hdata]
    exact Pruned.append (visitData_pruned hpruned) (DataPruned.refl _ _)
  miss := by
    intro e data h
    obtain ⟨hnone, hpruned⟩ := walk_miss h
    have hdata := visitData_pruned hpruned
    refine ⟨?_, hdata⟩
    rintro r hr ⟨hsought, hlive⟩
    exact hnone r ((hdata.mem_iff hlive).mp hr) r (visitData_found.mpr ⟨rfl, hlive, hsought⟩)

/-- The record is about this address. -/
def ArpnatData.IsIp (ip : UInt32) (r : ArpnatData) : Prop := ip ≠ 0 ∧ r.ip = ip

/-- The record is about this session. -/
def ArpnatData.IsId (id : UInt16) (r : ArpnatData) : Prop := id ≠ 0 ∧ r.pppoeId = id

/-- A search for 0 looks at nothing. -/
theorem finds_zero : Finds jiffies (fun _ => False) fun e => .miss e.data where
  hit := by
    intro e older r newer h
    cases h
  miss := by
    intro e data h
    cases h
    exact ⟨fun r _ h => h.1, DataPruned.refl _ _⟩

theorem mac2ipFindIp_finds (ip : UInt32) :
    Finds jiffies (ArpnatData.IsIp ip) fun e => mac2ipFindIp jiffies e ip := by
  by_cases h0 : ip = 0
  · have hsought : ArpnatData.IsIp ip = fun _ => False := by
      funext r
      simp [ArpnatData.IsIp, h0]
    simp only [mac2ipFindIp, h0, if_true] at hsought ⊢
    rw [hsought]
    exact finds_zero
  · have hsought : ArpnatData.IsIp ip = fun r => decide (r.ip = ip) = true := by
      funext r
      simp [ArpnatData.IsIp, h0]
    simp only [mac2ipFindIp, h0, if_false]
    rw [hsought]
    exact mac2ipFind_finds _

theorem mac2ipFindPppoeid_finds (id : UInt16) :
    Finds jiffies (ArpnatData.IsId id) fun e => mac2ipFindPppoeid jiffies e id := by
  by_cases h0 : id = 0
  · have hsought : ArpnatData.IsId id = fun _ => False := by
      funext r
      simp [ArpnatData.IsId, h0]
    simp only [mac2ipFindPppoeid, h0, if_true] at hsought ⊢
    rw [hsought]
    exact finds_zero
  · have hsought : ArpnatData.IsId id = fun r => decide (r.pppoeId = id) = true := by
      funext r
      simp [ArpnatData.IsId, h0]
    simp only [mac2ipFindPppoeid, h0, if_false]
    rw [hsought]
    exact mac2ipFind_finds _

/-- The outcome of `mac2ip_cleanup`. -/
theorem mac2ipCleanup_spec (item : Mac2ip) :
    EntryPruned jiffies item (mac2ipCleanup item jiffies).2 ∧
    (∀ r ∈ (mac2ipCleanup item jiffies).2.data, r.Live jiffies) ∧
    ((mac2ipCleanup item jiffies).1 = true ↔ (mac2ipCleanup item jiffies).2.data = []) := by
  simp only [mac2ipCleanup, EntryPruned, true_and, List.isEmpty_iff, iff_self, and_true]
  cases hw : walk (visitData jiffies fun _ => false) item.data with
  | hit before r after =>
      obtain ⟨_, x, _, hx, _⟩ := walk_hit hw
      simp [visitData_found] at hx
  | miss data =>
      obtain ⟨_, hpruned⟩ := walk_miss hw
      refine ⟨visitData_pruned hpruned, fun r hr => ?_⟩
      obtain ⟨r', _, hkeep⟩ := hpruned.mem_after hr
      obtain ⟨rfl, hlive, _⟩ := visitData_keep.mp hkeep
      exact hlive

/-! ## Searching the table -/

theorem allExpired_of_pruned {e : Mac2ip} (h : DataPruned jiffies e.data []) :
    AllExpired jiffies e := by
  intro r hr
  rcases h.mem_before hr with hdead | ⟨_, hr', _⟩
  · exact hdead
  · cases hr'

theorem visitMac_found {mac : Mac} {e e' : Mac2ip} (h : visitMac jiffies mac e = .found e') :
    e'.mac = mac ∧ EntryPruned jiffies e e' ∧ e'.data ≠ [] ∧ ∀ r ∈ e'.data, r.Live jiffies := by
  obtain ⟨hpruned, hlive, hempty⟩ := @mac2ipCleanup_spec jiffies e
  simp only [visitMac] at h
  split at h
  · cases h
  · rename_i hsome
    split at h
    · cases h
      exact ⟨by assumption, hpruned, fun hnil => hsome (hempty.mpr hnil), hlive⟩
    · cases h

theorem visitMac_keep {mac : Mac} {e e' : Mac2ip} (h : visitMac jiffies mac e = .keep e') :
    e'.mac ≠ mac ∧ EntryPruned jiffies e e' := by
  obtain ⟨hpruned, _, _⟩ := @mac2ipCleanup_spec jiffies e
  simp only [visitMac] at h
  split at h
  · cases h
  · split at h
    · cases h
    · cases h
      exact ⟨by assumption, hpruned⟩

theorem visitMac_unlink {mac : Mac} {e : Mac2ip} (h : visitMac jiffies mac e = .unlink) :
    AllExpired jiffies e := by
  obtain ⟨hpruned, _, hempty⟩ := @mac2ipCleanup_spec jiffies e
  simp only [visitMac] at h
  split at h
  · rename_i hnil
    rw [EntryPruned, hempty.mp hnil] at hpruned
    exact allExpired_of_pruned hpruned.2
  · split at h <;> cases h

theorem visitMac_pruned {mac : Mac} {head head' : ArpnatTable}
    (h : Pruned (fun e e' => visitMac jiffies mac e = .keep e')
      (fun e => visitMac jiffies mac e = .unlink) head head') : TablePruned jiffies head head' :=
  h.mono (fun _ _ hk => (visitMac_keep hk).2) fun _ hu => visitMac_unlink hu

theorem findMacNat_hit {mac : Mac} {head before after : ArpnatTable} {e : Mac2ip}
    (h : findMacNat jiffies mac head = .hit before e after) :
    ∃ pre x, head = pre ++ x :: after ∧ TablePruned jiffies pre before ∧
      EntryPruned jiffies x e ∧ e.mac = mac ∧ e.data ≠ [] ∧ ∀ r ∈ e.data, r.Live jiffies := by
  obtain ⟨pre, x, hhead, hx, _, hpruned⟩ := walk_hit h
  obtain ⟨hmac, hentry, hsome, hlive⟩ := visitMac_found hx
  exact ⟨pre, x, hhead, visitMac_pruned hpruned, hentry, hmac, hsome, hlive⟩

theorem findMacNat_miss {mac : Mac} {head head' : ArpnatTable}
    (h : findMacNat jiffies mac head = .miss head') :
    TablePruned jiffies head head' ∧ ∀ e ∈ head', e.mac ≠ mac := by
  obtain ⟨_, hpruned⟩ := walk_miss h
  refine ⟨visitMac_pruned hpruned, fun e he => ?_⟩
  obtain ⟨_, _, hkeep⟩ := hpruned.mem_after he
  exact (visitMac_keep hkeep).1

theorem TablePruned.around {pre before after : ArpnatTable} {x e : Mac2ip}
    (hpre : TablePruned jiffies pre before) (hx : EntryPruned jiffies x e) :
    TablePruned jiffies (pre ++ x :: after) (before ++ e :: after) :=
  Pruned.append hpre (.keep hx (TablePruned.refl jiffies after))

theorem findMacNat_pruned (mac : Mac) (head : ArpnatTable) :
    TablePruned jiffies head (findMacNat jiffies mac head).toList := by
  cases h : findMacNat jiffies mac head with
  | miss head' => exact (findMacNat_miss h).1
  | hit before e after =>
      obtain ⟨pre, x, rfl, hpre, hx, _⟩ := findMacNat_hit h
      exact hpre.around hx

/-- The entry has an unexpired record of this kind. -/
def LiveIn (jiffies : Nat) (sought : ArpnatData → Prop) (e : Mac2ip) : Prop :=
  ∃ r ∈ e.data, sought r ∧ r.Live jiffies

section

variable {sought : ArpnatData → Prop} {find : Mac2ip → Walk ArpnatData}

theorem EntryPruned.liveIn {e e' : Mac2ip} (h : EntryPruned jiffies e e') :
    LiveIn jiffies sought e' ↔ LiveIn jiffies sought e := by
  constructor
  · rintro ⟨r, hr, hs, hlive⟩
    exact ⟨r, (h.2.mem_iff hlive).mp hr, hs, hlive⟩
  · rintro ⟨r, hr, hs, hlive⟩
    exact ⟨r, (h.2.mem_iff hlive).mpr hr, hs, hlive⟩

theorem visitNat_found (hf : Finds jiffies sought find) {e e' : Mac2ip}
    (h : visitNat find e = .found e') :
    EntryPruned jiffies e e' ∧ LiveIn jiffies sought e := by
  unfold visitNat at h
  split at h
  · rename_i older r newer hfind
    cases h
    obtain ⟨hs, hlive, hpruned⟩ := hf.hit hfind
    have hentry : EntryPruned jiffies e { e with data := older ++ r :: newer } := ⟨rfl, hpruned⟩
    exact ⟨hentry, hentry.liveIn.mp ⟨r, by simp, hs, hlive⟩⟩
  · split at h <;> cases h

theorem visitNat_keep (hf : Finds jiffies sought find) {e e' : Mac2ip}
    (h : visitNat find e = .keep e') : EntryPruned jiffies e e' := by
  unfold visitNat at h
  split at h
  · cases h
  · rename_i data hfind
    split at h
    · cases h
    · cases h
      exact ⟨rfl, (hf.miss hfind).2⟩

theorem visitNat_unlink (hf : Finds jiffies sought find) {e : Mac2ip}
    (h : visitNat find e = .unlink) : AllExpired jiffies e := by
  unfold visitNat at h
  split at h
  · cases h
  · rename_i data hfind
    split at h
    · rename_i hnil
      have hpruned := (hf.miss hfind).2
      rw [List.isEmpty_iff.mp hnil] at hpruned
      exact allExpired_of_pruned hpruned
    · cases h

theorem visitNat_found_of_liveIn (hf : Finds jiffies sought find) {e : Mac2ip}
    (h : LiveIn jiffies sought e) : ∃ e', visitNat find e = .found e' := by
  unfold visitNat
  cases hfind : find e with
  | hit older r newer => exact ⟨_, rfl⟩
  | miss data =>
      obtain ⟨hnone, hpruned⟩ := hf.miss hfind
      obtain ⟨r, hr, hs, hlive⟩ := h
      exact absurd ⟨hs, hlive⟩ (hnone r ((hpruned.mem_iff hlive).mpr hr))

theorem visitNat_pruned (hf : Finds jiffies sought find) {head head' : ArpnatTable}
    (h : Pruned (fun e e' => visitNat find e = .keep e') (fun e => visitNat find e = .unlink)
      head head') : TablePruned jiffies head head' :=
  h.mono (fun _ _ hk => visitNat_keep hf hk) fun _ hu => visitNat_unlink hf hu

/-- A search that finds something finds the first entry that has it. -/
theorem findNat_hit (hf : Finds jiffies sought find) {head before after : ArpnatTable} {e : Mac2ip}
    (h : findNat find head = .hit before e after) :
    ∃ pre x, head = pre ++ x :: after ∧ (∀ z ∈ pre, ¬ LiveIn jiffies sought z) ∧
      LiveIn jiffies sought x ∧ EntryPruned jiffies x e ∧ TablePruned jiffies pre before := by
  obtain ⟨pre, x, hhead, hx, hnone, hpruned⟩ := walk_hit h
  obtain ⟨hentry, hlive⟩ := visitNat_found hf hx
  refine ⟨pre, x, hhead, fun z hz hin => ?_, hlive, hentry, visitNat_pruned hf hpruned⟩
  obtain ⟨z', hz'⟩ := visitNat_found_of_liveIn hf hin
  exact hnone z hz z' hz'

theorem findNat_miss (hf : Finds jiffies sought find) {head head' : ArpnatTable}
    (h : findNat find head = .miss head') :
    (∀ z ∈ head, ¬ LiveIn jiffies sought z) ∧ TablePruned jiffies head head' := by
  obtain ⟨hnone, hpruned⟩ := walk_miss h
  refine ⟨fun z hz hin => ?_, visitNat_pruned hf hpruned⟩
  obtain ⟨z', hz'⟩ := visitNat_found_of_liveIn hf hin
  exact hnone z hz z' hz'

theorem findNat_pruned (hf : Finds jiffies sought find) (head : ArpnatTable) :
    TablePruned jiffies head (findNat find head).toList := by
  cases h : findNat find head with
  | miss head' => exact (findNat_miss hf h).2
  | hit before e after =>
      obtain ⟨pre, x, rfl, _, _, hx, hpre⟩ := findNat_hit hf h
      exact hpre.around hx

/-- A search finds something iff some entry has it. -/
theorem findNat_isSome (hf : Finds jiffies sought find) (head : ArpnatTable) :
    (findNat find head).node?.isSome = true ↔ ∃ e ∈ head, LiveIn jiffies sought e := by
  cases h : findNat find head with
  | miss head' =>
      obtain ⟨hnone, _⟩ := findNat_miss hf h
      simpa [Walk.node?] using hnone
  | hit before e after =>
      obtain ⟨pre, x, rfl, _, hlive, _⟩ := findNat_hit hf h
      simp only [Walk.node?, Option.isSome_some, true_iff]
      exact ⟨x, by simp, hlive⟩

theorem findNat_node (hf : Finds jiffies sought find) {head : ArpnatTable} {e : Mac2ip}
    (h : (findNat find head).node? = some e) : LiveIn jiffies sought e := by
  cases hw : findNat find head with
  | miss head' =>
      rw [hw] at h
      cases h
  | hit before x after =>
      rw [hw] at h
      cases h
      obtain ⟨_, _, _, _, hlive, hpruned, _⟩ := findNat_hit hf hw
      exact hpruned.liveIn.mpr hlive

end

end Find

/-! ## Changes of the table -/

/-- The record that a call with this address and session id is about. -/
def Concerns (ip : UInt32) (id : UInt16) (r : ArpnatData) : Prop :=
  r.IsIp ip ∨ ip = 0 ∧ r.IsId id

/-- What a call about `mac` and an address or a session id does to the
table, at one place. -/
inductive Change (jiffies : Nat) (mac : Mac) (ip : UInt32) (id : UInt16) :
    ArpnatTable → ArpnatTable → Prop
  | prune {head head' : ArpnatTable} (h : TablePruned jiffies head head') :
      Change jiffies mac ip id head head'
  | refresh {before after : ArpnatTable} {older newer : List ArpnatData} {r : ArpnatData}
      {expires : Nat} (hr : Concerns ip id r) (hexpires : jiffies ≤ expires) :
      Change jiffies mac ip id (before ++ ⟨mac, older ++ r :: newer⟩ :: after)
        (before ++ ⟨mac, older ++ { r with expires } :: newer⟩ :: after)
  | record {before after : ArpnatTable} {data : List ArpnatData} {expires : Nat}
      (hnew : ∀ r ∈ data, ¬ Concerns ip id r) (hexpires : jiffies ≤ expires) :
      Change jiffies mac ip id (before ++ ⟨mac, data⟩ :: after)
        (before ++ ⟨mac, ⟨ip, id, expires⟩ :: data⟩ :: after)
  | entry {head : ArpnatTable} (hnew : ∀ e ∈ head, e.mac ≠ mac) :
      Change jiffies mac ip id head (⟨mac, []⟩ :: head)

/-- A sequence of changes. -/
def Changes (jiffies : Nat) (mac : Mac) (ip : UInt32) (id : UInt16) :
    ArpnatTable → ArpnatTable → Prop :=
  Relation.ReflTransGen (Change jiffies mac ip id)

section Update

variable {jiffies : Nat} {mac : Mac} {ip : UInt32} {id : UInt16} {head : ArpnatTable}

theorem Changes.prune {head' : ArpnatTable} (h : TablePruned jiffies head head') :
    Changes jiffies mac ip id head head' :=
  Relation.ReflTransGen.single (.prune h)

theorem Changes.pruneEntry {before after : ArpnatTable} {e : Mac2ip} {data : List ArpnatData}
    (h : DataPruned jiffies e.data data) :
    Changes jiffies mac ip id (before ++ e :: after) (before ++ { e with data } :: after) :=
  Changes.prune ((TablePruned.refl jiffies before).around ⟨rfl, h⟩)

theorem getEntry_spec (hentry : getEntry jiffies mac head = (before, entry, after)) :
    entry.mac = mac ∧ (∀ r ∈ entry.data, r.Live jiffies) ∧
    Changes jiffies mac ip id head (before ++ entry :: after) := by
  unfold getEntry at hentry
  split at hentry
  · rename_i hfind
    cases hentry
    obtain ⟨pre, x, rfl, hpre, hx, hmac, _, hlive⟩ := findMacNat_hit hfind
    exact ⟨hmac, hlive, Changes.prune (hpre.around hx)⟩
  · rename_i hfind
    cases hentry
    obtain ⟨hpruned, hnew⟩ := findMacNat_miss hfind
    exact ⟨rfl, by simp, (Changes.prune hpruned).tail (.entry hnew)⟩

/-- The search for the record in `update_nat`. -/
theorem updateFind_finds (ip : UInt32) (id : UInt16) :
    Finds jiffies (Concerns ip id) fun e =>
      if ip ≠ 0 then mac2ipFindIp jiffies e ip else mac2ipFindPppoeid jiffies e id := by
  by_cases h0 : ip = 0
  · have hsought : Concerns ip id = ArpnatData.IsId id := by
      funext r
      simp [Concerns, ArpnatData.IsIp, h0]
    simp only [h0, ne_eq, not_true_eq_false, if_false]
    rw [← h0, hsought]
    exact mac2ipFindPppoeid_finds id
  · have hsought : Concerns ip id = ArpnatData.IsIp ip := by
      funext r
      simp [Concerns, h0]
    simp only [h0, ne_eq, not_false_eq_true, if_true]
    rw [hsought]
    exact mac2ipFindIp_finds ip

/-- `update_nat` on an address or a session id: the record is refreshed or
added, in the entry that `find_mac_nat` found or in a new one. -/
theorem updateNat_cases (clock : Clock) (mac : Mac) (head : ArpnatTable)
    (h0 : ¬ (ip = 0 ∧ id = 0)) :
    ∃ before entry after, getEntry jiffies mac head = (before, entry, after) ∧
      ((∃ older r newer, DataPruned jiffies entry.data (older ++ r :: newer) ∧ Concerns ip id r ∧
          updateNat clock jiffies mac ip id head =
            .hit before { entry with
              data := older ++ { r with expires := jiffies + clock.lifetime } :: newer } after) ∨
        ∃ data, DataPruned jiffies entry.data data ∧ (∀ r ∈ data, ¬ Concerns ip id r) ∧
          updateNat clock jiffies mac ip id head =
            .hit before { entry with data := ⟨ip, id, jiffies + clock.lifetime⟩ :: data } after) := by
  rcases hget : getEntry jiffies mac head with ⟨before, entry, after⟩
  obtain ⟨_, hall, _⟩ := @getEntry_spec jiffies mac ip id head _ _ _ hget
  have hfinds := @updateFind_finds jiffies ip id
  refine ⟨before, entry, after, rfl, ?_⟩
  simp only [updateNat, h0, if_false, hget]
  split
  · rename_i older r newer hfound
    obtain ⟨hr, _, hpruned⟩ := hfinds.hit hfound
    exact Or.inl ⟨older, r, newer, hpruned, hr, rfl⟩
  · rename_i data hfound
    obtain ⟨hnone, hpruned⟩ := hfinds.miss hfound
    refine Or.inr ⟨data, hpruned, fun r hr hconcerns => ?_, rfl⟩
    obtain ⟨r', hr', rfl⟩ := hpruned.mem_after hr
    exact hnone r' hr ⟨hconcerns, hall r' hr'⟩

theorem updateNat_changes (clock : Clock) (mac : Mac) (ip : UInt32) (id : UInt16)
    (head : ArpnatTable) :
    Changes jiffies mac ip id head (updateNat clock jiffies mac ip id head).toList := by
  by_cases h0 : ip = 0 ∧ id = 0
  · simp only [updateNat, h0, and_self, if_true]
    exact Relation.ReflTransGen.refl
  · obtain ⟨before, entry, after, hget, hcases⟩ := @updateNat_cases jiffies ip id clock mac head h0
    obtain ⟨rfl, _, hentry⟩ := @getEntry_spec jiffies mac ip id head _ _ _ hget
    rcases hcases with ⟨older, r, newer, hpruned, hr, heq⟩ | ⟨data, hpruned, hnone, heq⟩
    · rw [heq]
      exact (hentry.trans (Changes.pruneEntry hpruned)).tail (.refresh hr (by omega))
    · rw [heq]
      exact (hentry.trans (Changes.pruneEntry hpruned)).tail (.record hnone (by omega))

/-- The shorter lifetimes of `update_pppoe_nat`. -/
theorem setExpires_changes (clock : Clock) (id : UInt16) (seconds : Nat)
    (before : ArpnatTable) (e : Mac2ip) (after : ArpnatTable) :
    Changes jiffies e.mac 0 id (before ++ e :: after)
      (before ++ setExpires clock jiffies id seconds e :: after) := by
  have hfinds := @mac2ipFindPppoeid_finds jiffies id
  unfold setExpires
  split
  · rename_i older r newer hfound
    obtain ⟨hr, _, hpruned⟩ := hfinds.hit hfound
    exact (Changes.pruneEntry hpruned).tail (.refresh (Or.inr ⟨rfl, hr⟩) (by omega))
  · rename_i data hfound
    exact Changes.pruneEntry (hfinds.miss hfound).2

theorem updatePppoeNat_zero (clock : Clock) (mac : Mac) (flags : UInt8) (head : ArpnatTable) :
    updatePppoeNat clock jiffies mac 0 flags head = .miss (findPppoeNat jiffies 0 head).toList := by
  cases h : findPppoeNat jiffies 0 head with
  | miss head' => simp [updatePppoeNat, updateNat, h, Walk.toList]
  | hit before e after =>
      obtain ⟨_, _, _, _, ⟨r, _, hr, _⟩, _⟩ := findNat_hit (mac2ipFindPppoeid_finds 0) h
      exact absurd rfl hr.1

theorem updatePppoeNat_changes (clock : Clock) (mac : Mac) (id : UInt16) (flags : UInt8)
    (head : ArpnatTable) :
    Changes jiffies mac 0 id head (updatePppoeNat clock jiffies mac id flags head).toList := by
  by_cases h0 : id = 0
  · subst h0
    rw [updatePppoeNat_zero]
    exact Changes.prune (findNat_pruned (mac2ipFindPppoeid_finds 0) head)
  · have hupdate := @updateNat_changes jiffies clock mac 0 id head
    obtain ⟨before, entry, after, hget, hcases⟩ :=
      @updateNat_cases jiffies 0 id clock mac head (by simp [h0])
    obtain ⟨hmac, _, _⟩ := @getEntry_spec jiffies mac 0 id head _ _ _ hget
    have hhit : ∃ e, e.mac = mac ∧ updateNat clock jiffies mac 0 id head = .hit before e after := by
      rcases hcases with ⟨older, r, newer, _, _, heq⟩ | ⟨data, _, _, heq⟩
      · refine ⟨_, ?_, heq⟩
        exact hmac
      · refine ⟨_, ?_, heq⟩
        exact hmac
    obtain ⟨e, rfl, heq⟩ := hhit
    rw [heq] at hupdate
    simp only [updatePppoeNat, heq]
    split
    · exact hupdate.trans (setExpires_changes clock id _ before e after)
    · exact hupdate

/-- Every call is a sequence of changes. -/
theorem Call.result_changes (clock : Clock) (call : Call) (head : ArpnatTable) :
    ∃ mac ip id, (ip = 0 ∨ id = 0) ∧
      Changes jiffies mac ip id head (call.result clock jiffies head).toList := by
  cases call with
  | updateArpNat mac ip => exact ⟨mac, ip, 0, Or.inr rfl, updateNat_changes clock mac ip 0 head⟩
  | updatePppoeNat mac id flags =>
      exact ⟨mac, 0, id, Or.inl rfl, updatePppoeNat_changes clock mac id flags head⟩
  | findMacNat mac => exact ⟨mac, 0, 0, Or.inl rfl, Changes.prune (findMacNat_pruned mac head)⟩
  | findIpNat ip =>
      exact ⟨0, 0, 0, Or.inl rfl, Changes.prune (findNat_pruned (mac2ipFindIp_finds ip) head)⟩
  | findPppoeNat id =>
      exact ⟨0, 0, 0, Or.inl rfl, Changes.prune (findNat_pruned (mac2ipFindPppoeid_finds id) head)⟩

end Update

/-! ## The invariant -/

/-- One entry for each MAC, and in an entry one record for each address and
for each session. -/
structure TableOk (head : ArpnatTable) : Prop where
  macs : (head.map (·.mac)).Nodup
  ips : ∀ e ∈ head, ((e.data.map (·.ip)).filter (· ≠ 0)).Nodup
  ids : ∀ e ∈ head, ((e.data.map (·.pppoeId)).filter (· ≠ 0)).Nodup

theorem tableOk_nil : TableOk [] := ⟨List.nodup_nil, by simp, by simp⟩

/-- A column of an entry without repetitions stays so when records go. -/
theorem nodup_of_pruned {β : Type} [DecidableEq β] [Zero β] {jiffies : Nat}
    {data data' : List ArpnatData} (f : ArpnatData → β) (h : DataPruned jiffies data data')
    (hnodup : ((data.map f).filter (· ≠ 0)).Nodup) : ((data'.map f).filter (· ≠ 0)).Nodup := by
  have hsub : (data'.map f).Sublist (data.map f) := h.map_sublist (by rintro x _ rfl; rfl)
  exact (hsub.filter _).nodup hnodup

/-- Only the entry at one place changes. -/
theorem TableOk.replace {before after : ArpnatTable} {e e' : Mac2ip} (hmac : e'.mac = e.mac)
    (h : TableOk (before ++ e :: after)) (hips : ((e'.data.map (·.ip)).filter (· ≠ 0)).Nodup)
    (hids : ((e'.data.map (·.pppoeId)).filter (· ≠ 0)).Nodup) :
    TableOk (before ++ e' :: after) where
  macs := by
    have hmacs := h.macs
    simp only [List.map_append, List.map_cons, hmac] at hmacs ⊢
    exact hmacs
  ips := by
    intro x hx
    rcases List.mem_append.mp hx with hx | hx
    · exact h.ips x (by simp [hx])
    · rcases List.mem_cons.mp hx with rfl | hx
      · exact hips
      · exact h.ips x (by simp [hx])
  ids := by
    intro x hx
    rcases List.mem_append.mp hx with hx | hx
    · exact h.ids x (by simp [hx])
    · rcases List.mem_cons.mp hx with rfl | hx
      · exact hids
      · exact h.ids x (by simp [hx])

theorem TableOk.change {jiffies : Nat} {mac : Mac} {ip : UInt32} {id : UInt16}
    {head head' : ArpnatTable} (hone : ip = 0 ∨ id = 0) (h : TableOk head)
    (hchange : Change jiffies mac ip id head head') : TableOk head' := by
  cases hchange with
  | prune hpruned =>
      refine ⟨?_, ?_, ?_⟩
      · exact (hpruned.map_sublist fun x y hxy => hxy.1).nodup h.macs
      · intro e he
        obtain ⟨x, hx, hxe⟩ := hpruned.mem_after he
        exact nodup_of_pruned _ hxe.2 (h.ips x hx)
      · intro e he
        obtain ⟨x, hx, hxe⟩ := hpruned.mem_after he
        exact nodup_of_pruned _ hxe.2 (h.ids x hx)
  | refresh hr hexpires =>
      have hips := h.ips _ (List.mem_append_right _ List.mem_cons_self)
      have hids := h.ids _ (List.mem_append_right _ List.mem_cons_self)
      refine TableOk.replace (by rfl) h ?_ ?_
      · simpa using hips
      · simpa using hids
  | record hnew hexpires =>
      have hips := h.ips _ (List.mem_append_right _ List.mem_cons_self)
      have hids := h.ids _ (List.mem_append_right _ List.mem_cons_self)
      refine TableOk.replace (by rfl) h ?_ ?_
      · by_cases h0 : ip = 0
        · simpa [h0] using hips
        · have hnot : ∀ r ∈ _, ArpnatData.ip r ≠ ip := fun r hr heq => hnew r hr (Or.inl ⟨h0, heq⟩)
          simp [h0] at hips ⊢
          exact ⟨hnot, hips⟩
      · by_cases h0 : id = 0
        · simpa [h0] using hids
        · have hnot : ∀ r ∈ _, ArpnatData.pppoeId r ≠ id := fun r hr heq =>
            hnew r hr (Or.inr ⟨hone.resolve_right h0, h0, heq⟩)
          simp [h0] at hids ⊢
          exact ⟨hnot, hids⟩
  | entry hnew =>
      refine ⟨?_, ?_, ?_⟩
      · simp only [List.map_cons, List.nodup_cons, List.mem_map, not_exists, not_and]
        exact ⟨hnew, h.macs⟩
      · exact List.forall_mem_cons.mpr ⟨by simp, h.ips⟩
      · exact List.forall_mem_cons.mpr ⟨by simp, h.ids⟩

theorem TableOk.changes {jiffies : Nat} {mac : Mac} {ip : UInt32} {id : UInt16}
    {head head' : ArpnatTable} (hone : ip = 0 ∨ id = 0) (h : TableOk head)
    (hchanges : Changes jiffies mac ip id head head') : TableOk head' := by
  induction hchanges with
  | refl => exact h
  | tail _ hchange ih => exact ih.change hone hchange

theorem TableOk.runCalls {head : ArpnatTable} (h : TableOk head) (calls : List TimedCall) :
    TableOk (runCalls head calls) := by
  induction calls generalizing head with
  | nil => exact h
  | cons c rest ih =>
      obtain ⟨mac, ip, id, hone, hchanges⟩ := @Call.result_changes c.jiffies c.clock c.call head
      exact ih (h.changes hone hchanges)

/-- The table after any calls, at any times: no MAC, and in no entry an
address or a session, is there twice; the two lookups answer iff there is an
unexpired record, with an entry that has it; the lookups unlink nothing but
expired records and entries without any other, and so do those inside the
updates, whose other changes refresh or add one record. -/
theorem arpnatTable_sound (calls : List TimedCall) :
    ((runCalls [] calls).map (·.mac)).Nodup ∧
    (∀ e ∈ runCalls [] calls, ((e.data.map (·.ip)).filter (· ≠ 0)).Nodup ∧
      ((e.data.map (·.pppoeId)).filter (· ≠ 0)).Nodup) ∧
    (∀ jiffies ip, ip ≠ 0 →
      ((findIpNat jiffies ip (runCalls [] calls)).node?.isSome = true ↔
        ∃ e ∈ runCalls [] calls, ∃ r ∈ e.data, r.ip = ip ∧ ¬ timeAfter jiffies r.expires) ∧
      ∀ e, (findIpNat jiffies ip (runCalls [] calls)).node? = some e →
        ∃ r ∈ e.data, r.ip = ip ∧ ¬ timeAfter jiffies r.expires) ∧
    (∀ jiffies id, id ≠ 0 →
      ((findPppoeNat jiffies id (runCalls [] calls)).node?.isSome = true ↔
        ∃ e ∈ runCalls [] calls, ∃ r ∈ e.data, r.pppoeId = id ∧ ¬ timeAfter jiffies r.expires) ∧
      ∀ e, (findPppoeNat jiffies id (runCalls [] calls)).node? = some e →
        ∃ r ∈ e.data, r.pppoeId = id ∧ ¬ timeAfter jiffies r.expires) ∧
    (∀ jiffies mac,
      TablePruned jiffies (runCalls [] calls) (findMacNat jiffies mac (runCalls [] calls)).toList) ∧
    (∀ jiffies ip,
      TablePruned jiffies (runCalls [] calls) (findIpNat jiffies ip (runCalls [] calls)).toList) ∧
    (∀ jiffies id,
      TablePruned jiffies (runCalls [] calls)
        (findPppoeNat jiffies id (runCalls [] calls)).toList) ∧
    (∀ clock jiffies mac ip, Changes jiffies mac ip 0 (runCalls [] calls)
      (updateArpNat clock jiffies mac ip (runCalls [] calls)).toList) ∧
    (∀ clock jiffies mac id flags, Changes jiffies mac 0 id (runCalls [] calls)
      (updatePppoeNat clock jiffies mac id flags (runCalls [] calls)).toList) := by
  have hok : TableOk (runCalls [] calls) := tableOk_nil.runCalls calls
  generalize runCalls [] calls = head at hok
  refine ⟨hok.macs, fun e he => ⟨hok.ips e he, hok.ids e he⟩, ?_, ?_,
    fun jiffies mac => findMacNat_pruned mac head,
    fun jiffies ip => findNat_pruned (mac2ipFindIp_finds ip) head,
    fun jiffies id => findNat_pruned (mac2ipFindPppoeid_finds id) head,
    fun clock jiffies mac ip => updateNat_changes clock mac ip 0 head,
    fun clock jiffies mac id flags => updatePppoeNat_changes clock mac id flags head⟩
  · intro jiffies ip h0
    have hiff : ∀ e, LiveIn jiffies (ArpnatData.IsIp ip) e ↔
        ∃ r ∈ e.data, r.ip = ip ∧ ¬ timeAfter jiffies r.expires := by
      simp [LiveIn, ArpnatData.IsIp, ArpnatData.Live, h0]
    simp only [← hiff]
    exact ⟨findNat_isSome (mac2ipFindIp_finds ip) head,
      fun e he => findNat_node (mac2ipFindIp_finds ip) he⟩
  · intro jiffies id h0
    have hiff : ∀ e, LiveIn jiffies (ArpnatData.IsId id) e ↔
        ∃ r ∈ e.data, r.pppoeId = id ∧ ¬ timeAfter jiffies r.expires := by
      simp [LiveIn, ArpnatData.IsId, ArpnatData.Live, h0]
    simp only [← hiff]
    exact ⟨findNat_isSome (mac2ipFindPppoeid_finds id) head,
      fun e he => findNat_node (mac2ipFindPppoeid_finds id) he⟩

/-- The host 02:00:00:00:00:01. -/
def hostA : Mac := ![2, 0, 0, 0, 0, 1]

/-- The host 02:00:00:00:00:02. -/
def hostB : Mac := ![2, 0, 0, 0, 0, 2]

/-- The settings the module starts with, at 100 ticks per second. -/
def clock100 : Clock := ⟨FLUSHTIMEOUT, 100⟩

/-- One host is learned with one address, and found at any time in the next
ten minutes. -/
theorem arpnatTable_sound_hostA :
    ∃ calls : List TimedCall, ∀ jiffies, jiffies ≤ 60000 →
      (findIpNat jiffies 0x0a000001 (runCalls [] calls)).node?.isSome = true := by
  refine ⟨[⟨clock100, 0, .updateArpNat hostA 0x0a000001⟩], fun jiffies hle => ?_⟩
  refine ((arpnatTable_sound _).2.2.1 jiffies 0x0a000001 (by decide)).1.mpr ?_
  refine ⟨⟨hostA, [⟨0x0a000001, 0, 60000⟩]⟩, by decide, ⟨0x0a000001, 0, 60000⟩, by decide, rfl, ?_⟩
  simp [timeAfter, hle]

end UbntSdk.Arpnat
