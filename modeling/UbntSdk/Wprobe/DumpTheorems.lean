/-
UbntSdk.Wprobe.DumpTheorems — which dumps of the wireless probe are complete.

Filters and items resume at the index they saved, so the rule of
`UbntSdk.Lib.Paging` applies: a record goes in iff its size fits
(`putRecord_puts`, `dumpFilterGroup_puts`, `sendItem_puts`). One thing can
still go wrong: a filter group without items, in a message in which the name
is the last thing that fits, ends a nest that was not started
(`dumpFilterGroup_fault`).

The dump of the links does not resume: its second call passes over every
link, so it ends with what was in the first message (`dumpLinks_ends`).
-/
import UbntSdk.Wprobe.Dump
import Mathlib.Data.Fin.VecNotation

namespace UbntSdk.Wprobe

open UbntSdk.Lib

/-! ## Records and their sizes -/

/-- The room that attributes with these payloads take. -/
def attrsSize (lens : List Nat) : Nat := (lens.map nlaTotalSize).sum

theorem putAttrs_ok {lens : List Nat} {room : Nat} (h : attrsSize lens ≤ room) :
    putAttrs lens room = (room - attrsSize lens, true) := by
  induction lens generalizing room with
  | nil => simp [putAttrs, attrsSize]
  | cons len rest ih =>
      simp only [attrsSize, List.map_cons, List.sum_cons] at h ⊢
      rw [putAttrs, if_pos (by omega), ih (by simp only [attrsSize]; omega)]
      simp only [attrsSize, Prod.mk.injEq, and_true]
      omega

theorem putAttrs_full {lens : List Nat} {room : Nat} (h : room < attrsSize lens) :
    ∃ left, left ≤ room ∧ putAttrs lens room = (left, false) := by
  induction lens generalizing room with
  | nil => simp [attrsSize] at h
  | cons len rest ih =>
      simp only [attrsSize, List.map_cons, List.sum_cons] at h
      rw [putAttrs]
      split
      · obtain ⟨left, hle, heq⟩ := @ih (room - nlaTotalSize len) (by simp only [attrsSize]; omega)
        exact ⟨left, by omega, heq⟩
      · exact ⟨room, Nat.le_refl _, rfl⟩

/-- A record goes in iff there is room for its headers and attributes. -/
theorem putRecord_cases (lens : List Nat) (room : Nat) :
    (GENLMSG_SIZE + attrsSize lens ≤ room ∧
      putRecord lens room = .sent (room - (GENLMSG_SIZE + attrsSize lens))) ∨
    (room < GENLMSG_SIZE + attrsSize lens ∧ putRecord lens room = .full room) := by
  by_cases hhdr : room < GENLMSG_SIZE
  · exact Or.inr ⟨by omega, by simp [putRecord, hhdr]⟩
  · by_cases hfit : attrsSize lens ≤ room - GENLMSG_SIZE
    · refine Or.inl ⟨by omega, ?_⟩
      simp [putRecord, hhdr, putAttrs_ok hfit, Nat.sub_sub]
    · obtain ⟨left, _, heq⟩ := putAttrs_full (Nat.lt_of_not_le hfit)
      exact Or.inr ⟨by omega, by simp [putRecord, hhdr, heq]⟩

/-- With attributes of 20 bytes or more, the unchecked header does no harm
but to leave some attributes behind. -/
theorem putRecordUnchecked_cases {lens : List Nat} (hsize : GENLMSG_SIZE ≤ attrsSize lens)
    (room : Nat) :
    (GENLMSG_SIZE + attrsSize lens ≤ room ∧
      putRecordUnchecked lens room = .sent (room - (GENLMSG_SIZE + attrsSize lens))) ∨
    (room < GENLMSG_SIZE + attrsSize lens ∧
      ∃ left, left ≤ room ∧ putRecordUnchecked lens room = .full left) := by
  by_cases hhdr : room < GENLMSG_SIZE
  · obtain ⟨left, hle, heq⟩ := @putAttrs_full lens room (by omega)
    exact Or.inr ⟨by omega, left, hle, by simp [putRecordUnchecked, hhdr, heq]⟩
  · by_cases hfit : attrsSize lens ≤ room - GENLMSG_SIZE
    · refine Or.inl ⟨by omega, ?_⟩
      simp [putRecordUnchecked, hhdr, putAttrs_ok hfit, Nat.sub_sub]
    · obtain ⟨left, _, heq⟩ := putAttrs_full (Nat.lt_of_not_le hfit)
      exact Or.inr ⟨by omega, room, Nat.le_refl _, by simp [putRecordUnchecked, hhdr, heq]⟩

/-! ## Links -/

/-- The size of a link in a message. -/
def LINK_SIZE : Nat := 32

theorem dumpLink_eq (room : Nat) :
    dumpLink room = if LINK_SIZE ≤ room then .sent (room - LINK_SIZE) else .full room := by
  have hsize : GENLMSG_SIZE + attrsSize [6] = LINK_SIZE := by decide
  have hcases := putRecord_cases [6] room
  rw [hsize] at hcases
  rcases hcases with ⟨hfit, heq⟩ | ⟨hlt, heq⟩
  · rw [dumpLink, heq, if_pos hfit]
  · rw [dumpLink, heq, if_neg (by omega)]

/-- The first call puts as many links as fit. -/
theorem dumpLinksLoop_first (links : List Link) (i room : Nat) :
    dumpLinksLoop 0 links i room =
      ((links.take (room / LINK_SIZE)).map (·.addr), i + min links.length (room / LINK_SIZE),
        room - LINK_SIZE * min links.length (room / LINK_SIZE)) := by
  induction links generalizing i room with
  | nil => simp [dumpLinksLoop]
  | cons l links ih =>
      rw [dumpLinksLoop, if_neg (Nat.not_lt_zero i), dumpLink_eq]
      by_cases hfit : LINK_SIZE ≤ room
      · have hdiv : room / LINK_SIZE = (room - LINK_SIZE) / LINK_SIZE + 1 := by
          simp only [LINK_SIZE] at hfit ⊢
          omega
        rw [if_pos hfit]
        simp only [ih, hdiv, List.take_succ_cons, List.map_cons, List.length_cons,
          Prod.mk.injEq, true_and]
        simp only [LINK_SIZE] at hfit ⊢
        omega
      · have hdiv : room / LINK_SIZE = 0 := by
          simp only [LINK_SIZE] at hfit ⊢
          omega
        simp [if_neg hfit, hdiv]

/-- A later call passes over every link. -/
theorem dumpLinksLoop_later {start : Nat} (h : 0 < start) (links : List Link) (room : Nat) :
    dumpLinksLoop start links 0 room = ([], 0, room) := by
  induction links with
  | nil => rfl
  | cons l links ih => rw [dumpLinksLoop, if_pos h, ih]

/-- The dump of the links ends with the links of the first message. -/
theorem dumpLinks_ends (dev : Iface) {rooms : Nat → Nat} (hroom : ∀ k, LINK_SIZE ≤ rooms k) :
    Complete (dumpLinks dev) rooms 0
      ((dev.links.take (rooms 0 / LINK_SIZE)).map (·.addr)) := by
  have hfirst : dumpLinks dev 0 (rooms 0) = some
      ⟨(dev.links.take (rooms 0 / LINK_SIZE)).map (·.addr),
        0 + min dev.links.length (rooms 0 / LINK_SIZE),
        rooms 0 - (rooms 0 - LINK_SIZE * min dev.links.length (rooms 0 / LINK_SIZE))⟩ := by
    simp only [dumpLinks, dumpLinksLoop_first]
  have hdiv : LINK_SIZE * (rooms 0 / LINK_SIZE) ≤ rooms 0 ∧ 0 < rooms 0 / LINK_SIZE := by
    have hle := hroom 0
    simp only [LINK_SIZE] at hle ⊢
    omega
  by_cases hnil : dev.links.length = 0
  · refine ⟨1, ?_⟩
    simp [dump, hfirst, hnil]
  · refine ⟨2, ?_⟩
    have hsent : 0 < min dev.links.length (rooms 0 / LINK_SIZE) := by omega
    have hlen : ¬ rooms 0 - (rooms 0 - LINK_SIZE * min dev.links.length (rooms 0 / LINK_SIZE)) = 0 := by
      have hmin : LINK_SIZE * min dev.links.length (rooms 0 / LINK_SIZE) ≤ rooms 0 :=
        Nat.le_trans (Nat.mul_le_mul_left _ (Nat.min_le_right _ _)) hdiv.1
      have hpos : 0 < LINK_SIZE * min dev.links.length (rooms 0 / LINK_SIZE) :=
        Nat.mul_pos (by decide) hsent
      omega
    have hsecond : dumpLinks dev (0 + min dev.links.length (rooms 0 / LINK_SIZE)) (rooms 1) =
        some ⟨[], 0, 0⟩ := by
      simp only [dumpLinks, dumpLinksLoop_later (Nat.lt_add_left 0 hsent), Nat.sub_self]
    simp only [dump, hfirst, hlen, if_false, Nat.zero_add] at hsecond ⊢
    simp [hsecond, Dump.after]

theorem dumpLinks_complete_iff (dev : Iface) {rooms : Nat → Nat} (hroom : ∀ k, LINK_SIZE ≤ rooms k) :
    Complete (dumpLinks dev) rooms 0 (dev.links.map (·.addr)) ↔
      LINK_SIZE * dev.links.length ≤ rooms 0 := by
  have hends := dumpLinks_ends dev hroom
  have hiff : LINK_SIZE * dev.links.length ≤ rooms 0 ↔ dev.links.length ≤ rooms 0 / LINK_SIZE := by
    rw [Nat.le_div_iff_mul_le (by decide), Nat.mul_comm]
  rw [hiff]
  constructor
  · intro hcomplete
    have hlen := congrArg List.length (hcomplete.unique hends)
    simp only [List.length_map, List.length_take] at hlen
    omega
  · intro hle
    rw [List.take_of_length_le hle] at hends
    exact hends

/-! ## Filters -/

/-- The size of the nested attributes of the items. -/
def itemsSize (items : List (List UInt8 × FilterCounter)) : Nat :=
  (items.map fun (name, _) => nlaTotalSize 0 + attrsSize [name.length + 1, 8, 8]).sum

/-- The size of a filter group in a message. -/
def FilterRecord.size (fg : FilterRecord) : Nat :=
  GENLMSG_SIZE + attrsSize [fg.name.length + 1] + nlaTotalSize 0 + itemsSize fg.items

/-- A group without items finds room for its name, but not for the nest
behind it. -/
def Tight (fg : FilterRecord) (room : Nat) : Prop :=
  fg.items = [] ∧ GENLMSG_SIZE + attrsSize [fg.name.length + 1] ≤ room ∧ room < fg.size

theorem itemsSize_cons (name : List UInt8) (counter : FilterCounter)
    (items : List (List UInt8 × FilterCounter)) :
    itemsSize ((name, counter) :: items) =
      nlaTotalSize 0 + attrsSize [name.length + 1, 8, 8] + itemsSize items := by
  simp [itemsSize]

/-- The nest of an item that was not started is never ended: no attribute
fits behind it. -/
theorem dumpFilterItems_cases (items : List (List UInt8 × FilterCounter)) (room : Nat) :
    (itemsSize items ≤ room ∧ dumpFilterItems items room = .sent (room - itemsSize items)) ∨
    (room < itemsSize items ∧ ∃ left, dumpFilterItems items room = .full left) := by
  induction items generalizing room with
  | nil => exact Or.inl ⟨Nat.zero_le _, rfl⟩
  | cons entry items ih =>
      obtain ⟨name, counter⟩ := entry
      have hnest : nlaTotalSize 0 = 4 := by decide
      have hattrs : 4 ≤ attrsSize [name.length + 1, 8, 8] := by
        simp only [attrsSize, List.map_cons, List.sum_cons, nlaTotalSize]
        omega
      rw [itemsSize_cons, dumpFilterItems, nestStart, hnest]
      by_cases hroom : 4 ≤ room
      · rw [if_pos hroom]
        by_cases hfit : attrsSize [name.length + 1, 8, 8] ≤ room - 4
        · simp only [putAttrs_ok hfit, if_true]
          rcases ih (room - 4 - attrsSize [name.length + 1, 8, 8]) with ⟨hle, heq⟩ | ⟨hlt, left, heq⟩
          · exact Or.inl ⟨by omega, by rw [heq, Nat.sub_sub, Nat.sub_sub, Nat.add_assoc]⟩
          · exact Or.inr ⟨by omega, left, heq⟩
        · obtain ⟨left, _, heq⟩ := putAttrs_full (Nat.lt_of_not_le hfit)
          exact Or.inr ⟨by omega, left, by simp [heq]⟩
      · obtain ⟨left, _, heq⟩ := @putAttrs_full [name.length + 1, 8, 8] room (by omega)
        exact Or.inr ⟨by omega, left, by simp [if_neg hroom, heq]⟩

theorem dumpFilterGroup_cases (fg : FilterRecord) (room : Nat) :
    (fg.size ≤ room ∧ dumpFilterGroup fg room = .sent (room - fg.size)) ∨
    (room < fg.size ∧ ¬ Tight fg room ∧ dumpFilterGroup fg room = .full room) ∨
    (Tight fg room ∧ dumpFilterGroup fg room = .fault) := by
  have hnest : nlaTotalSize 0 = 4 := by decide
  have hsize : fg.size = GENLMSG_SIZE + attrsSize [fg.name.length + 1] + 4 + itemsSize fg.items := by
    rw [FilterRecord.size, hnest]
  unfold dumpFilterGroup
  by_cases hhdr : room < GENLMSG_SIZE
  · refine Or.inr (Or.inl ⟨by omega, fun htight => ?_, by rw [if_pos hhdr]⟩)
    have hname := htight.2.1
    omega
  · rw [if_neg hhdr]
    by_cases hname : attrsSize [fg.name.length + 1] ≤ room - GENLMSG_SIZE
    · simp only [putAttrs_ok hname, if_true, nestStart, hnest]
      generalize hleft : room - GENLMSG_SIZE - attrsSize [fg.name.length + 1] = left
      by_cases hgroup : 4 ≤ left
      · rw [if_pos hgroup]
        rcases dumpFilterItems_cases fg.items (left - 4) with ⟨hle, heq⟩ | ⟨hlt, rest, heq⟩
        · refine Or.inl ⟨by omega, ?_⟩
          simp only [heq, if_true, Put.sent.injEq]
          omega
        · refine Or.inr (Or.inl ⟨by omega, fun htight => ?_, by simp only [heq]⟩)
          rw [htight.1, itemsSize] at hlt
          simp at hlt
      · rw [if_neg hgroup]
        cases hitems : fg.items with
        | nil =>
            refine Or.inr (Or.inr ⟨⟨hitems, by omega, by omega⟩, ?_⟩)
            simp [dumpFilterItems]
        | cons entry items =>
            obtain ⟨name, counter⟩ := entry
            have hlt : left < itemsSize ((name, counter) :: items) := by
              rw [itemsSize_cons, hnest]
              omega
            rcases dumpFilterItems_cases ((name, counter) :: items) left with ⟨hle, _⟩ | ⟨_, rest, heq⟩
            · omega
            · refine Or.inr (Or.inl ⟨by omega, fun htight => ?_, by simp only [heq]⟩)
              rw [htight.1] at hitems
              cases hitems
    · obtain ⟨left, _, heq⟩ := putAttrs_full (Nat.lt_of_not_le hname)
      refine Or.inr (Or.inl ⟨by omega, fun htight => ?_, by simp [heq]⟩)
      have hle := htight.2.1
      omega

theorem dumpFilterGroup_fault (fg : FilterRecord) (room : Nat) :
    dumpFilterGroup fg room = .fault ↔ Tight fg room := by
  rcases dumpFilterGroup_cases fg room with ⟨hle, heq⟩ | ⟨_, htight, heq⟩ | ⟨htight, heq⟩
  · refine iff_of_false (by simp [heq]) fun htight => ?_
    have hlt := htight.2.2
    omega
  · exact iff_of_false (by simp [heq]) htight
  · exact iff_of_true heq htight

theorem dumpFilterGroup_puts : Puts dumpFilterGroup FilterRecord.size := by
  intro fg room hne
  rcases dumpFilterGroup_cases fg room with hsent | ⟨hlt, _, heq⟩ | ⟨_, heq⟩
  · exact Or.inl hsent
  · exact Or.inr ⟨hlt, room, Nat.le_refl _, heq⟩
  · exact absurd heq hne

/-- The groups of the active filter. -/
def Iface.filterRecords (dev : Iface) : List FilterRecord :=
  (dev.activeFilter.elim [] (·.groups)).map FilterGroup.record

theorem dumpFilters_complete_iff (dev : Iface) {rooms : Nat → Nat}
    (hroom : ∀ k, ∀ fg ∈ dev.filterRecords, fg.size ≤ rooms k) :
    Complete (dumpFilters dev) rooms 0 dev.filterRecords ↔
      ∀ p ∈ tries FilterRecord.size dev.filterRecords (rooms 0) (fun k => rooms (k + 1)),
        ¬ Tight p.1 p.2 := by
  have hpos : ∀ fg : FilterRecord, 0 < fg.size := by
    intro fg
    have hhdr : GENLMSG_SIZE = 20 := rfl
    simp only [FilterRecord.size]
    omega
  cases hfilter : dev.activeFilter with
  | none =>
      have hnil : dev.filterRecords = [] := by simp [Iface.filterRecords, hfilter]
      rw [hnil]
      refine iff_of_true ⟨1, ?_⟩ (by simp [tries])
      simp [dump, dumpFilters, hfilter]
  | some f =>
      have hcall : dumpFilters dev = resume dumpFilterGroup dev.filterRecords := by
        funext i room
        simp [dumpFilters, hfilter, Iface.filterRecords]
      rw [hcall, resume_complete_iff dumpFilterGroup_puts hpos hroom]
      simp only [ne_eq, dumpFilterGroup_fault]

/-! ## Items and values -/

/-- The size of an item or a value in a message. -/
def InfoRecord.size : InfoRecord → Nat
  | .value r => GENLMSG_SIZE + attrsSize r.lens
  | .item r => GENLMSG_SIZE + attrsSize r.lens

theorem valueRecord_attrsSize (r : ValueRecord) : GENLMSG_SIZE ≤ attrsSize r.lens := by
  have hfixed : attrsSize [4, 4, 1, 8] = 36 := by decide
  simp only [attrsSize, ValueRecord.lens, List.map_append, List.sum_append] at hfixed ⊢
  simp only [GENLMSG_SIZE]
  omega

theorem itemRecord_attrsSize (r : ItemRecord) : GENLMSG_SIZE ≤ attrsSize r.lens := by
  simp only [attrsSize, ItemRecord.lens, List.map_append, List.sum_append, List.map_cons,
    List.sum_cons, nlaTotalSize, GENLMSG_SIZE]
  omega

theorem sendItem_cases (r : InfoRecord) (room : Nat) :
    (r.size ≤ room ∧ sendItem r room = .sent (room - r.size)) ∨
    (room < r.size ∧ ∃ left, left ≤ room ∧ sendItem r room = .full left) := by
  cases r with
  | value r => exact putRecordUnchecked_cases (valueRecord_attrsSize r) room
  | item r => exact putRecordUnchecked_cases (itemRecord_attrsSize r) room

theorem sendItem_puts : Puts sendItem InfoRecord.size := fun r room _ => sendItem_cases r room

theorem sendItem_ne_fault (r : InfoRecord) (room : Nat) : sendItem r room ≠ .fault := by
  rcases sendItem_cases r room with ⟨_, heq⟩ | ⟨_, left, _, heq⟩
  · simp [heq]
  · simp [heq]

theorem infoRecord_size_pos (r : InfoRecord) : 0 < r.size := by
  have hhdr : GENLMSG_SIZE = 20 := rfl
  cases r <;> simp only [InfoRecord.size] <;> omega

/-- The calls of one `wprobe_dump_info` dump: the interface and `cb->args`
go from call to call. -/
def infoCall (req : InfoRequest) (sync : SyncData) (now : UInt64) (s : Iface × Option InfoArgs)
    (room : Nat) : Option (Page InfoRecord (Iface × Option InfoArgs)) :=
  match dumpInfo s.1 req sync now s.2 room with
  | .ok (dev, some page) => some ⟨page.records, (dev, some page.next), page.len⟩
  | _ => none

theorem setVals_links_length (dev : Iface) (l : Option Nat) (val : Nat → Value) :
    (dev.setVals l val).links.length = dev.links.length := by
  cases l <;> simp [Iface.setVals]

theorem snapshot_links_length (dev : Iface) (l : Option Nat) (sync : SyncData) (now : UInt64) :
    (snapshot dev l sync now).links.length = dev.links.length := by
  simp only [snapshot, syncData]
  split
  · exact setVals_links_length _ _ _
  · rw [setVals_links_length]
    simp

/-- What the first call finds is still there in the next. -/
theorem checkLink_start {dev dev' : Iface} {req : InfoRequest} {sync : SyncData} {now : UInt64}
    {args : InfoArgs} (hstart : startInfo dev req sync now = .ok (dev', args)) (i : Nat) :
    checkLink dev' { args with i } = .ok (dev', { args with i }) := by
  unfold startInfo at hstart
  split at hstart
  · cases hstart
  · rename_i l vflags hlink
    cases hstart
    unfold checkLink
    cases l with
    | none => rfl
    | some k =>
        have hk : k < dev.links.length := by
          unfold requestLink at hlink
          split at hlink
          · split at hlink
            · cases hlink
            · rename_i hfind
              cases hlink
              unfold findLink at hfind
              exact (List.findIdx?_eq_some_iff_findIdx_eq.mp hfind).1
          · cases hlink
        have hlen : (if req.cmd = .getInfo then snapshot dev (some k) sync now else dev).links.length =
            dev.links.length := by
          split
          · exact snapshot_links_length _ _ _ _
          · rfl
        dsimp only
        rw [if_pos (by rw [hlen]; exact hk)]

theorem dumpInfo_complete {dev dev' : Iface} {req : InfoRequest} {sync : SyncData} {now : UInt64}
    {args : InfoArgs} (hstart : startInfo dev req sync now = .ok (dev', args)) {rooms : Nat → Nat}
    (hroom : ∀ k, ∀ r ∈ infoRecords dev' req.cmd args.vflags, r.size ≤ rooms k) :
    Complete (infoCall req sync now) rooms (dev, none) (infoRecords dev' req.cmd args.vflags) := by
  have hi : args.i = 0 := by
    unfold startInfo at hstart
    split at hstart
    · cases hstart
    · cases hstart
      rfl
  -- the dump is the one that resumes at the index saved in `cb->args[3]`
  have hcongr := @dump_congr InfoRecord _ (infoCall req sync now) Nat
    (resume sendItem (infoRecords dev' req.cmd args.vflags))
    (fun s i => (s = (dev, none) ∧ i = 0) ∨ s = (dev', some { args with i })) (by
      intro s i room hrel
      have hinfo : dumpInfo s.1 req sync now s.2 room = .ok (dev',
          (resume sendItem (infoRecords dev' req.cmd args.vflags) i room).map fun page =>
            ⟨page.records, { args with i := page.next }, page.len⟩) := by
        rcases hrel with ⟨rfl, rfl⟩ | rfl
        · simp only [dumpInfo, hstart, Except.map, hi]
        · simp only [dumpInfo, checkLink_start hstart, Except.map]
      rw [infoCall, hinfo]
      cases resume sendItem (infoRecords dev' req.cmd args.vflags) i room with
      | none => exact .none
      | some page => exact .some ⟨rfl, rfl, Or.inr rfl⟩)
    (dev, none) 0 (Or.inl ⟨rfl, rfl⟩)
  obtain ⟨n, hn⟩ := (resume_complete_iff sendItem_puts infoRecord_size_pos hroom).mpr
    fun p _ => sendItem_ne_fault p.1 p.2
  exact ⟨n, by rw [hcongr, hn]⟩

/-! ## All dumps -/

/-- With messages that have room for any one record: the dumps of the links,
the filters and the items of a device are complete iff all links fit in the
first message and no filter group without items finds room for its name
alone. -/
theorem dumps_complete_iff (dev dev' : Iface) (req : InfoRequest) (sync : SyncData) (now : UInt64)
    (args : InfoArgs) (linkRooms filterRooms infoRooms : Nat → Nat)
    (hstart : startInfo dev req sync now = .ok (dev', args))
    (hlinks : ∀ k, LINK_SIZE ≤ linkRooms k)
    (hfilters : ∀ k, ∀ fg ∈ dev.filterRecords, fg.size ≤ filterRooms k)
    (hinfo : ∀ k, ∀ r ∈ infoRecords dev' req.cmd args.vflags, r.size ≤ infoRooms k) :
    (Complete (dumpLinks dev) linkRooms 0 (dev.links.map (·.addr)) ∧
      Complete (dumpFilters dev) filterRooms 0 dev.filterRecords ∧
      Complete (infoCall req sync now) infoRooms (dev, none)
        (infoRecords dev' req.cmd args.vflags)) ↔
    (LINK_SIZE * dev.links.length ≤ linkRooms 0 ∧
      ∀ p ∈ tries FilterRecord.size dev.filterRecords (filterRooms 0) (fun k => filterRooms (k + 1)),
        ¬ Tight p.1 p.2) := by
  rw [dumpLinks_complete_iff dev hlinks, dumpFilters_complete_iff dev hfilters]
  have hcomplete := dumpInfo_complete hstart hinfo
  constructor
  · rintro ⟨hl, hf, _⟩
    exact ⟨hl, hf⟩
  · rintro ⟨hl, hf⟩
    exact ⟨hl, hf, hcomplete⟩

/-! ## A device with three links -/

/-- A link with this last byte of the address. -/
def linkOf (b : UInt8) : Link := ⟨![2, 0, 0, 0, 0, b], 0, fun _ => .zero⟩

/-- An interface without items that has these links and this filter. -/
def ifaceWith (links : List Link) (activeFilter : Option Filter) : Iface where
  name := [0x77]
  addr := none
  linkItems := []
  globalItems := []
  links := links
  val := fun _ => .zero
  queryVal := fun _ => .zero
  activeFilter := activeFilter
  measureInterval := 0
  measureTimer := false
  scaleMin := 20
  scaleMax := 0x80000000
  scaleM := 1
  scaleD := 10

/-- The driver reports nothing new. -/
def idle : SyncData := fun val => (0, val)

/-- Three links and messages with room for two: the third is never sent. -/
theorem dumpLinks_incomplete_threeLinks :
    (∀ k : Nat, LINK_SIZE ≤ (fun _ => 64) k) ∧
    ¬ Complete (dumpLinks (ifaceWith [linkOf 1, linkOf 2, linkOf 3] none)) (fun _ => 64) 0
      [(linkOf 1).addr, (linkOf 2).addr, (linkOf 3).addr] := by
  have hroom : ∀ k : Nat, LINK_SIZE ≤ (fun _ => 64) k := by
    intro k
    show 32 ≤ 64
    decide
  refine ⟨hroom, fun hcomplete => ?_⟩
  have hle := (dumpLinks_complete_iff (ifaceWith [linkOf 1, linkOf 2, linkOf 3] none) hroom).mp hcomplete
  exact absurd hle (by decide)

/-- Two links, and two filter groups of which one has an item. -/
def twoLinks : Iface :=
  ifaceWith [linkOf 1, linkOf 2] (some ⟨[⟨[0x61], [(⟨[0x62], 0, []⟩, ⟨1, 2⟩)]⟩, ⟨[0x63], []⟩]⟩)

/-- In messages of 128 bytes all of it arrives. -/
theorem dumps_complete_twoLinks :
    Complete (dumpLinks twoLinks) (fun _ => 128) 0 [(linkOf 1).addr, (linkOf 2).addr] ∧
    Complete (dumpFilters twoLinks) (fun _ => 128) 0
      [⟨[0x61], [([0x62], ⟨1, 2⟩)]⟩, ⟨[0x63], []⟩] ∧
    Complete (infoCall ⟨.getList, none, none⟩ idle 0) (fun _ => 128) (twoLinks, none) [] := by
  have hstart : startInfo twoLinks ⟨.getList, none, none⟩ idle 0 = .ok (twoLinks, ⟨none, 0, 0⟩) := rfl
  have hlinks : ∀ k : Nat, LINK_SIZE ≤ (fun _ => 128) k := by
    intro k
    show 32 ≤ 128
    decide
  have hfilters : ∀ k : Nat, ∀ fg ∈ twoLinks.filterRecords, fg.size ≤ (fun _ => 128) k := by
    intro k
    show ∀ fg ∈ twoLinks.filterRecords, fg.size ≤ 128
    decide
  have hinfo : ∀ k : Nat, ∀ r ∈ infoRecords twoLinks .getList 0, r.size ≤ (fun _ => 128) k := by
    intro k
    show ∀ r ∈ infoRecords twoLinks .getList 0, r.size ≤ 128
    decide
  refine (dumps_complete_iff twoLinks twoLinks ⟨.getList, none, none⟩ idle 0 ⟨none, 0, 0⟩
    (fun _ => 128) (fun _ => 128) (fun _ => 128) hstart hlinks hfilters hinfo).mpr ⟨by decide, ?_⟩
  unfold Tight
  decide

end UbntSdk.Wprobe
