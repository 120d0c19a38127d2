/-
UbntSdk.Wprobe.ClientTheorems — what is left of the lists of a client after
a request.

`wprobe_request_data` puts what was not moved back at the end of the list,
whatever happened (`requestData_perm`). `wprobe_update_links` frees it on
success and loses it on an error. For one address at a time a whole run is
known (`saveLinks_withKey`): the replies take the links that are there, first
come, first served, and then those that `malloc` gives.
-/
import UbntSdk.Wprobe.Client

namespace UbntSdk.Wprobe.Client

open UbntSdk.Lib UbntSdk.Lib.Netlink

variable {e : ByteOrder}

/-! ## Attributes -/

/-- All of an attribute but its value. -/
def Attribute.desc (attr : Attribute) : Nat × UInt32 × Int × UInt32 × List UInt8 :=
  (attr.node, attr.id, attr.type, attr.flags, attr.name)

/-- The types that are read through the pointer into the message. -/
def direct : List Attr := [.valS8, .valU8, .valS16, .valU16, .valS32, .valU32]

/-- The reply says that the attribute has one of these types, as it has, and
brings no value. -/
def MissingValue (attr : Attribute) (r : Reply) : Prop :=
  ∃ type, r.tb .type = some type ∧ attr.type = (nlaGetU8 type).toNat ∧
    ∃ ty ∈ direct, Attr.ofCode (nlaGetU8 type).toUInt16 = some ty ∧ r.tb ty = none

/-- The attribute that a reply names. -/
def Reply.id (e : ByteOrder) (r : Reply) : Option UInt32 :=
  (r.tb .id).bind fun id => (r.tb .type).map fun _ => nlaGetU32 e id

theorem handleIntType_eq_none_iff (r : Reply) (ty : Attr) :
    handleIntType e r ty = none ↔ ty ∈ direct ∧ r.tb ty = none := by
  cases ty <;> simp [handleIntType, direct]

theorem saveValue_eq_none_iff (r : Reply) (type : UInt8) (attr : Attribute) :
    saveValue e r type attr = none ↔
      attr.type = type.toNat ∧ ∃ ty ∈ direct, Attr.ofCode type.toUInt16 = some ty ∧ r.tb ty = none := by
  have hrange : ∀ ty ∈ direct,
      ¬(ty.ctorIdx < Attr.valString.ctorIdx ∨ Attr.valU64.ctorIdx < ty.ctorIdx) := by decide
  unfold saveValue
  by_cases htype : attr.type = type.toNat
  · rw [if_neg (not_not.mpr htype)]
    cases hty : Attr.ofCode type.toUInt16 with
    | none => simp
    | some ty =>
        by_cases hout : ty.ctorIdx < Attr.valString.ctorIdx ∨ Attr.valU64.ctorIdx < ty.ctorIdx
        · simp only [if_pos hout]
          constructor
          · intro h
            cases h
          · rintro ⟨-, ty', hdirect, heq, -⟩
            exact absurd hout (Option.some.inj heq ▸ hrange ty' hdirect)
        · simp only [if_neg hout, Option.map_eq_none_iff, handleIntType_eq_none_iff]
          constructor
          · rintro ⟨hdirect, hnone⟩
            exact ⟨htype, ty, hdirect, rfl, hnone⟩
          · rintro ⟨-, ty', hdirect, heq, hnone⟩
            obtain rfl := Option.some.inj heq
            exact ⟨hdirect, hnone⟩
  · simp [htype]

theorem saveValue_desc {r : Reply} {type : UInt8} {attr attr' : Attribute}
    (h : saveValue e r type attr = some attr') : attr'.desc = attr.desc := by
  unfold saveValue at h
  split at h
  · rw [← Option.some.inj h]
  · split at h
    · rw [← Option.some.inj h]
    · split at h
      · rw [← Option.some.inj h]
      · rw [Option.map_eq_some_iff] at h
        obtain ⟨num, -, rfl⟩ := h
        rfl

/-- A reply that names no attribute leaves the lists alone. -/
theorem saveAttrdataHandler_unnamed {r : Reply} (cb : SaveCb Attribute) (h : r.id e = none) :
    saveAttrdataHandler e r cb = some (cb, -1) := by
  unfold saveAttrdataHandler
  split
  · rename_i id type hid htype
    simp [Reply.id, hid, htype] at h
  · rfl

/-- A reply that names one takes the first with this id. -/
theorem saveAttrdataHandler_named {r : Reply} {id : UInt32} (cb : SaveCb Attribute)
    (h : r.id e = some id) :
    ∃ type, r.tb .type = some type ∧ saveAttrdataHandler e r cb =
      match takeKey Attribute.id id cb.oldList with
      | none => some (cb, -1)
      | some (attr, oldList) => (saveValue e r (nlaGetU8 type) attr).map fun attr =>
          (⟨cb.list ++ [attr], oldList⟩, 0) := by
  simp only [Reply.id, Option.bind_eq_some_iff, Option.map_eq_some_iff] at h
  obtain ⟨idBytes, hid, type, htype, rfl⟩ := h
  refine ⟨type, htype, ?_⟩
  simp only [saveAttrdataHandler, hid, htype]
  cases takeKey Attribute.id (nlaGetU32 e idBytes) cb.oldList with
  | none => rfl
  | some found => cases h : saveValue e r (nlaGetU8 type) found.1 <;> simp [h]

theorem saveAttrdataHandler_perm {r : Reply} {cb cb' : SaveCb Attribute} {ret : Int}
    (h : saveAttrdataHandler e r cb = some (cb', ret)) :
    ((cb'.list ++ cb'.oldList).map Attribute.desc).Perm
      ((cb.list ++ cb.oldList).map Attribute.desc) := by
  cases hid : r.id e with
  | none =>
      rw [saveAttrdataHandler_unnamed cb hid, Option.some.injEq, Prod.mk.injEq] at h
      rw [h.1]
  | some id =>
      obtain ⟨type, -, heq⟩ := saveAttrdataHandler_named cb hid
      rw [heq] at h
      split at h
      · rw [Option.some.injEq, Prod.mk.injEq] at h
        rw [h.1]
      · rename_i attr oldList hfound
        rw [Option.map_eq_some_iff] at h
        obtain ⟨attr', hsave, hout⟩ := h
        rw [Prod.mk.injEq] at hout
        obtain ⟨rfl, -⟩ := hout
        have hperm := ((takeKey_some _ hfound).2.2.2.map Attribute.desc).symm
        rw [List.map_cons, ← saveValue_desc hsave] at hperm
        simpa using hperm.append_left (cb.list.map Attribute.desc)

/-- A run moves attributes and changes values. -/
theorem saveAttrdata_perm {replies : List Reply} {cb cb' : SaveCb Attribute}
    (h : saveAttrdata e replies cb = some cb') :
    ((cb'.list ++ cb'.oldList).map Attribute.desc).Perm
      ((cb.list ++ cb.oldList).map Attribute.desc) := by
  induction replies generalizing cb with
  | nil => rw [← Option.some.inj h]
  | cons r replies ih =>
      rw [saveAttrdata, Option.bind_eq_some_iff] at h
      obtain ⟨⟨cb₁, ret⟩, hstep, hrun⟩ := h
      exact (ih hrun).trans (saveAttrdataHandler_perm hstep)

/-- The attributes that are left and the replies that will take them. -/
def matched (e : ByteOrder) (oldList : List Attribute) (replies : List Reply) (id : UInt32) :
    List (Attribute × Reply) :=
  (withKey Attribute.id id oldList).zip (withKey (Reply.id e) (some id) replies)

/-- A run reads through a null pointer exactly when it comes to an attribute
with a reply that lacks its value. -/
theorem saveAttrdata_eq_none_iff (replies : List Reply) (cb : SaveCb Attribute) :
    saveAttrdata e replies cb = none ↔
      ∃ id, ∃ m ∈ matched e cb.oldList replies id, MissingValue m.1 m.2 := by
  induction replies generalizing cb with
  | nil => simp [saveAttrdata, matched]
  | cons r replies ih =>
      rw [saveAttrdata]
      cases hid : r.id e with
      | none =>
          rw [saveAttrdataHandler_unnamed cb hid, Option.bind_some, ih]
          simp [matched, withKey_cons, hid]
      | some id =>
          obtain ⟨type, htype, heq⟩ := saveAttrdataHandler_named cb hid
          rw [heq]
          cases hfound : takeKey Attribute.id id cb.oldList with
          | none =>
              have hempty := (takeKey_eq_none_iff _ _ _).mp hfound
              rw [Option.bind_some, ih]
              refine exists_congr fun id' => ?_
              by_cases hsame : id = id'
              · subst hsame
                simp [matched, hempty]
              · simp [matched, withKey_cons, hid, hsame]
          | some found =>
              obtain ⟨attr, oldList⟩ := found
              obtain ⟨-, hfirst, hothers, -⟩ := takeKey_some _ hfound
              have hmatched : matched e cb.oldList (r :: replies) id =
                  (attr, r) :: matched e oldList replies id := by
                rw [matched, hfirst, withKey_cons, if_pos hid, List.zip_cons_cons, matched]
              have hrest : ∀ id', id' ≠ id → matched e cb.oldList (r :: replies) id' =
                  matched e oldList replies id' := by
                intro id' hne
                rw [matched, matched, hothers id' hne, withKey_cons,
                  if_neg (by rw [hid]; exact fun h => hne (Option.some.inj h).symm)]
              have hlacks : saveValue e r (nlaGetU8 type) attr = none ↔ MissingValue attr r := by
                rw [saveValue_eq_none_iff, MissingValue]
                constructor
                · intro h
                  exact ⟨type, htype, h⟩
                · rintro ⟨type', htype', h⟩
                  obtain rfl := Option.some.inj (htype.symm.trans htype')
                  exact h
              cases hsave : saveValue e r (nlaGetU8 type) attr with
              | none =>
                  have hbad := hlacks.mp hsave
                  refine ⟨fun _ => ⟨id, (attr, r), by simp [hmatched], hbad⟩, fun _ => by simp [hsave]⟩
              | some attr' =>
                  have hgood : ¬MissingValue attr r := by
                    rw [← hlacks, hsave]
                    exact Option.some_ne_none attr'
                  simp only [hsave, Option.map_some, Option.bind_some]
                  rw [ih]
                  refine exists_congr fun id' => ?_
                  by_cases hsame : id' = id
                  · subst hsame
                    simp [hmatched, hgood]
                  · rw [hrest id' hsame]

/-! ## Links -/

/-- A link as an object, whatever its flags. -/
def Link.obj (l : Link) : Nat × List UInt8 := (l.node, l.addr)

/-- The links of an address. -/
def nodesOf (addr : List UInt8) (links : List Link) : List Nat :=
  (withKey Link.addr addr links).map Link.node

/-- What `malloc` has for the replies with an address. -/
def mallocsFor (addr : List UInt8) (replies : List Reply) : List (Option Nat) :=
  (withKey Reply.mac (some addr) replies).map Reply.malloc

/-- The links that are allocated for an address: by the replies that come
after as many as there were links. -/
def newFor (addr : List UInt8) (before : List Link) (replies : List Reply) : List Nat :=
  ((mallocsFor addr replies).drop (nodesOf addr before).length).filterMap id

theorem nodesOf_append (addr : List UInt8) (ls ls' : List Link) :
    nodesOf addr (ls ++ ls') = nodesOf addr ls ++ nodesOf addr ls' := by
  simp [nodesOf]

theorem nodesOf_singleton (addr : List UInt8) (l : Link) :
    nodesOf addr [l] = if l.addr = addr then [l.node] else [] := by
  by_cases h : l.addr = addr <;> simp [nodesOf, withKey_cons, h]

theorem mallocsFor_cons (addr : List UInt8) (r : Reply) (replies : List Reply) :
    mallocsFor addr (r :: replies) =
      if r.mac = some addr then r.malloc :: mallocsFor addr replies else mallocsFor addr replies := by
  by_cases h : r.mac = some addr <;> simp [mallocsFor, withKey_cons, h]

/-- A reply takes the first link of its address, or a new one; or it changes
nothing. -/
theorem saveLinkHandler_cases (e : ByteOrder) (r : Reply) (cb : SaveCb Link) :
    (r.mac = none ∧ (saveLinkHandler e r cb).1 = cb) ∨
      ∃ addr, r.mac = some addr ∧
        ((nodesOf addr cb.oldList = [] ∧ r.malloc = none ∧ (saveLinkHandler e r cb).1 = cb) ∨
          ∃ link oldList, link.addr = addr ∧
            (saveLinkHandler e r cb).1 = ⟨cb.list ++ [link], oldList⟩ ∧
            ((nodesOf addr cb.oldList = [] ∧ r.malloc = some link.node ∧ oldList = cb.oldList) ∨
              (nodesOf addr cb.oldList = link.node :: nodesOf addr oldList ∧
                ∀ addr', addr' ≠ addr → nodesOf addr' oldList = nodesOf addr' cb.oldList))) := by
  cases hmac : r.mac with
  | none => exact .inl ⟨rfl, by simp [saveLinkHandler, hmac]⟩
  | some addr =>
      refine .inr ⟨addr, rfl, ?_⟩
      cases hfound : takeKey Link.addr addr cb.oldList with
      | none =>
          have hnone : nodesOf addr cb.oldList = [] := by
            rw [nodesOf, (takeKey_eq_none_iff _ _ _).mp hfound, List.map_nil]
          cases hmalloc : r.malloc with
          | none => exact .inl ⟨hnone, rfl, by simp [saveLinkHandler, getLink, hmac, hfound, hmalloc]⟩
          | some node =>
              refine .inr ⟨⟨node, (r.tb .flags).elim 0 (nlaGetU32 e), addr⟩, cb.oldList, rfl, ?_,
                .inl ⟨hnone, rfl, rfl⟩⟩
              simp [saveLinkHandler, getLink, hmac, hfound, hmalloc]
      | some found =>
          obtain ⟨link, oldList⟩ := found
          obtain ⟨haddr, hfirst, hothers, -⟩ := takeKey_some _ hfound
          refine .inr ⟨{ link with flags := (r.tb .flags).elim link.flags (nlaGetU32 e) }, oldList,
            haddr, ?_, .inr ⟨?_, ?_⟩⟩
          · simp [saveLinkHandler, getLink, hmac, hfound]
          · rw [nodesOf, hfirst, List.map_cons, nodesOf]
          · intro addr' hne
            rw [nodesOf, nodesOf, hothers addr' hne]

/-- What a run makes of the links of one address. -/
theorem saveLinks_nodesOf (e : ByteOrder) (addr : List UInt8) (replies : List Reply)
    (cb : SaveCb Link) :
    nodesOf addr (saveLinks e replies cb).list = nodesOf addr cb.list ++
      ((nodesOf addr cb.oldList).take (mallocsFor addr replies).length ++
        newFor addr cb.oldList replies) := by
  induction replies generalizing cb with
  | nil => simp [saveLinks, mallocsFor, newFor]
  | cons r replies ih =>
      have hrun : saveLinks e (r :: replies) cb = saveLinks e replies (saveLinkHandler e r cb).1 := rfl
      rw [hrun, ih]
      rcases saveLinkHandler_cases e r cb with ⟨hmac, hcb⟩ | ⟨addr', hmac, hstep⟩
      · simp [hcb, newFor, mallocsFor_cons, hmac]
      · by_cases hsame : addr' = addr
        · subst hsame
          rcases hstep with ⟨hnone, hmalloc, hcb⟩ |
            ⟨link, oldList, haddr, hcb, ⟨hnone, hmalloc, rfl⟩ | ⟨hfirst, -⟩⟩
          · simp [hcb, newFor, mallocsFor_cons, hmac, hnone, hmalloc]
          · simp [hcb, newFor, mallocsFor_cons, hmac, hnone, hmalloc, nodesOf_append,
              nodesOf_singleton, haddr]
          · simp [hcb, newFor, mallocsFor_cons, hmac, hfirst, nodesOf_append, nodesOf_singleton, haddr]
        · rcases hstep with ⟨-, -, hcb⟩ |
            ⟨link, oldList, haddr, hcb, ⟨-, -, rfl⟩ | ⟨-, hothers⟩⟩
          · simp [hcb, newFor, mallocsFor_cons, hmac, hsame]
          · simp [hcb, newFor, mallocsFor_cons, hmac, hsame, nodesOf_append, nodesOf_singleton, haddr]
          · simp [hcb, newFor, mallocsFor_cons, hmac, hsame, nodesOf_append, nodesOf_singleton, haddr,
              hothers addr (Ne.symm hsame)]

theorem mem_nodesOf {addr : List UInt8} {node : Nat} {links : List Link} :
    node ∈ nodesOf addr links ↔ ∃ l ∈ links, l.addr = addr ∧ l.node = node := by
  simp [nodesOf, mem_withKey, and_assoc]

/-- Links are the same objects when they are for each address. -/
theorem objs_perm_iff (links links' : List Link) :
    (links.map Link.obj).Perm (links'.map Link.obj) ↔
      ∀ addr, (nodesOf addr links).Perm (nodesOf addr links') := by
  have hkey : ∀ addr (ls : List Link),
      withKey Prod.snd addr (ls.map Link.obj) = (nodesOf addr ls).map (·, addr) := by
    intro addr ls
    induction ls with
    | nil => rfl
    | cons l ls ih => by_cases h : l.addr = addr <;> simp_all [withKey_cons, nodesOf, Link.obj]
  constructor
  · intro h addr
    have hfiltered : (withKey Prod.snd addr (links.map Link.obj)).Perm
        (withKey Prod.snd addr (links'.map Link.obj)) := h.filter _
    rw [hkey, hkey] at hfiltered
    simpa [Function.comp_def] using hfiltered.map Prod.fst
  · intro h
    refine perm_of_withKey Prod.snd fun addr => ?_
    rw [hkey, hkey]
    exact (h addr).map _

/-- The addresses in the replies. -/
def reported (replies : List Reply) : List (List UInt8) := replies.filterMap Reply.mac

theorem mem_reported {addr : List UInt8} {replies : List Reply} :
    addr ∈ reported replies ↔ mallocsFor addr replies ≠ [] := by
  simp [reported, mallocsFor, withKey]

/-- What an update is to leave: one link for each reported address and no
other, and the object of an address that was known. -/
structure Updated (before : List Link) (replies : List Reply) (after : List Link) : Prop where
  one : ∀ addr ∈ reported replies, (nodesOf addr after).length = 1
  only : ∀ l ∈ after, l.addr ∈ reported replies
  reused : ∀ addr ∈ reported replies, nodesOf addr before ≠ [] →
    ∃ node ∈ nodesOf addr before, node ∈ nodesOf addr after

/-- A reported address is served once: by a link that was there, or by a new
one. -/
def ServedOnce (before : List Link) (replies : List Reply) (addr : List UInt8) : Prop :=
  min (mallocsFor addr replies).length (nodesOf addr before).length +
    (newFor addr before replies).length = 1

/-- All links of an address are served, and no new ones. -/
def ServedAll (before : List Link) (replies : List Reply) (addr : List UInt8) : Prop :=
  (nodesOf addr before).length ≤ (mallocsFor addr replies).length ∧ newFor addr before replies = []

theorem saveLinks_served (e : ByteOrder) (addr : List UInt8) (replies : List Reply)
    (before : List Link) :
    nodesOf addr (saveLinks e replies ⟨[], before⟩).list =
      (nodesOf addr before).take (mallocsFor addr replies).length ++ newFor addr before replies := by
  rw [saveLinks_nodesOf]
  rfl

theorem updated_iff (e : ByteOrder) (replies : List Reply) (before : List Link) :
    Updated before replies (saveLinks e replies ⟨[], before⟩).list ↔
      ∀ addr ∈ reported replies, ServedOnce before replies addr := by
  have hlen : ∀ addr, (nodesOf addr (saveLinks e replies ⟨[], before⟩).list).length =
      min (mallocsFor addr replies).length (nodesOf addr before).length +
        (newFor addr before replies).length := by
    intro addr
    rw [saveLinks_served, List.length_append, List.length_take]
  constructor
  · intro h addr haddr
    rw [ServedOnce, ← hlen]
    exact h.one addr haddr
  · intro h
    refine ⟨fun addr haddr => by rw [hlen]; exact h addr haddr, ?_, ?_⟩
    · intro l hl
      have hnode : l.node ∈ nodesOf l.addr (saveLinks e replies ⟨[], before⟩).list :=
        mem_nodesOf.mpr ⟨l, hl, rfl, rfl⟩
      rw [mem_reported]
      intro hnone
      rw [saveLinks_served, newFor, hnone] at hnode
      simp at hnode
    · intro addr haddr hknown
      obtain ⟨node, nodes, hnodes⟩ := List.exists_cons_of_ne_nil hknown
      obtain ⟨m, ms, hms⟩ := List.exists_cons_of_ne_nil (mem_reported.mp haddr)
      refine ⟨node, by simp [hnodes], ?_⟩
      rw [saveLinks_served, hnodes, hms]
      simp

/-- The objects of `malloc` are new. -/
def Fresh (replies : List Reply) (links : List Link) : Prop :=
  ∀ r ∈ replies, ∀ node, r.malloc = some node → ∀ l ∈ links, l.node ≠ node

theorem objs_kept_iff (e : ByteOrder) {replies : List Reply} {before : List Link}
    (hfresh : Fresh replies before) :
    ((saveLinks e replies ⟨[], before⟩).list.map Link.obj).Perm (before.map Link.obj) ↔
      ∀ addr, ServedAll before replies addr := by
  rw [objs_perm_iff]
  refine forall_congr' fun addr => ?_
  rw [saveLinks_served, ServedAll]
  constructor
  · intro h
    have hnew : newFor addr before replies = [] := by
      rw [List.eq_nil_iff_forall_not_mem]
      intro node hnode
      obtain ⟨l, hl, -, rfl⟩ := mem_nodesOf.mp (h.mem_iff.mp (List.mem_append_right _ hnode))
      have hmalloc : some l.node ∈ mallocsFor addr replies := by
        simp only [newFor, List.mem_filterMap, id_eq, exists_eq_right] at hnode
        exact List.mem_of_mem_drop hnode
      simp only [mallocsFor, List.mem_map, mem_withKey] at hmalloc
      obtain ⟨r, ⟨hr, -⟩, hnode⟩ := hmalloc
      exact hfresh r hr l.node hnode l hl rfl
    have hlen := h.length_eq
    rw [hnew, List.append_nil, List.length_take] at hlen
    exact ⟨by omega, hnew⟩
  · rintro ⟨hle, hnew⟩
    rw [hnew, List.append_nil, List.take_of_length_le hle]

/-! ## Requests -/

@[simp] theorem Dev.attrs_setAttrs (dev : Dev) (link : Bool) (attrs : List Attribute) :
    (dev.setAttrs link attrs).attrs link = attrs := by
  cases link <;> rfl

/-- The attributes that `requestData` is asked for are those it had, and the
other lists are the same. -/
theorem requestData_perm {dev dev' : Dev} {link built : Bool} {replies : List Reply} {err ret : Int}
    (h : requestData e dev link built replies err = some (dev', ret)) :
    ((dev'.attrs link).map Attribute.desc).Perm ((dev.attrs link).map Attribute.desc) ∧
      dev'.attrs (!link) = dev.attrs (!link) ∧ dev'.links = dev.links := by
  unfold requestData at h
  split at h
  · rw [Option.some.injEq, Prod.mk.injEq] at h
    rw [← h.1]
    exact ⟨.refl _, rfl, rfl⟩
  · simp only [Option.bind_eq_bind, Option.pure_def, Option.bind_eq_some_iff, Option.some.injEq,
      Prod.mk.injEq] at h
    obtain ⟨cb, hrun, rfl, -⟩ := h
    refine ⟨?_, by cases link <;> rfl, by cases link <;> rfl⟩
    rw [Dev.attrs_setAttrs]
    exact saveAttrdata_perm hrun

theorem requestData_eq_none_iff (dev : Dev) (link built : Bool) (replies : List Reply) (err : Int) :
    requestData e dev link built replies err = none ↔
      built ∧ ∃ id, ∃ m ∈ matched e (dev.attrs link) replies id, MissingValue m.1 m.2 := by
  rw [← saveAttrdata_eq_none_iff replies ⟨[], dev.attrs link⟩]
  cases built with
  | false => simp [requestData]
  | true => cases h : saveAttrdata e replies ⟨[], dev.attrs link⟩ <;> simp [requestData, h]

/-- The request for values returns with the attributes it found. -/
def RequestKeeps (e : ByteOrder) (dev : Dev) (link built : Bool) (replies : List Reply) (err : Int) :
    Prop :=
  ∃ dev' ret, requestData e dev link built replies err = some (dev', ret) ∧
    ((dev'.attrs link).map Attribute.desc).Perm ((dev.attrs link).map Attribute.desc)

/-- The update leaves the links as they were when it fails, and one for each
reported address when it does not. -/
def UpdateKeeps (e : ByteOrder) (dev : Dev) (built : Bool) (replies : List Reply) (err : Int) : Prop :=
  if (updateLinks e dev built replies err).2 < 0 then
    ((updateLinks e dev built replies err).1.links.map Link.obj).Perm (dev.links.map Link.obj)
  else Updated dev.links replies (updateLinks e dev built replies err).1.links

/-- When the update does: there is nothing to lose, or the replies before the
error are those of the links that are known, or each address is served
once. -/
def UpdateServes (dev : Dev) (built : Bool) (replies : List Reply) (err : Int) : Prop :=
  if ¬built then dev.links = []
  else if err < 0 then ∀ addr, ServedAll dev.links replies addr
  else ∀ addr ∈ reported replies, ServedOnce dev.links replies addr

/-- The lists survive a request for values exactly when no reply lacks the
value of the attribute it comes to, and an update in the cases above. -/
theorem lists_survive_iff (e : ByteOrder) (dev : Dev) (link built : Bool) (replies : List Reply)
    (err : Int) (hfresh : Fresh replies dev.links) :
    (RequestKeeps e dev link built replies err ↔
      ¬(built ∧ ∃ id, ∃ m ∈ matched e (dev.attrs link) replies id, MissingValue m.1 m.2)) ∧
    (UpdateKeeps e dev built replies err ↔ UpdateServes dev built replies err) := by
  constructor
  · rw [← requestData_eq_none_iff dev link built replies err]
    constructor
    · rintro ⟨dev', ret, hout, -⟩ hnone
      rw [hnone] at hout
      cases hout
    · intro hsome
      obtain ⟨⟨dev', ret⟩, hout⟩ := Option.ne_none_iff_exists'.mp hsome
      exact ⟨dev', ret, hout, (requestData_perm hout).1⟩
  · cases built with
    | false =>
        have hpos : ¬ENOMEM ≤ 0 := by decide
        simp [UpdateKeeps, UpdateServes, updateLinks, hpos, eq_comm]
    | true =>
        by_cases herr : err < 0
        · simp only [UpdateKeeps, UpdateServes, updateLinks, not_true, if_false, if_pos herr]
          exact objs_kept_iff e hfresh
        · simp only [UpdateKeeps, UpdateServes, updateLinks, not_true, if_false, if_neg herr,
            lt_self_iff_false]
          exact updated_iff e replies dev.links

/-- Two links are known. -/
def twoLinks : Dev where
  globalAttr := [⟨1, 7, 14, 0, .zero, [0x61]⟩]
  linkAttr := []
  links := [⟨2, 0, [0, 1, 2, 3, 4, 5]⟩, ⟨3, 0, [0, 1, 2, 3, 4, 6]⟩]

/-- The first of them is reported. -/
def seen (malloc : Option Nat) : Reply := ⟨[(2, [0, 1, 2, 3, 4, 5])], malloc, 0⟩

/-- Both are reported once, and no error. -/
theorem lists_survive_both :
    UpdateKeeps .little twoLinks true [seen none, ⟨[(2, [0, 1, 2, 3, 4, 6])], none, 0⟩] 2 := by
  have hfresh : Fresh [seen none, ⟨[(2, [0, 1, 2, 3, 4, 6])], none, 0⟩] twoLinks.links := by
    simp [Fresh, seen]
  have h := lists_survive_iff .little twoLinks false true _ 2 hfresh
  refine h.2.mpr ?_
  have hserved : ∀ addr ∈ reported [seen none, ⟨[(2, [0, 1, 2, 3, 4, 6])], none, 0⟩],
      ServedOnce twoLinks.links [seen none, ⟨[(2, [0, 1, 2, 3, 4, 6])], none, 0⟩] addr := by
    unfold ServedOnce
    decide +kernel
  simpa [UpdateServes] using hserved

/-- An error after the first loses the second; a repeated report makes a
second link of one address; and a value that is missing is read through a
null pointer. -/
theorem lists_lost :
    ¬UpdateKeeps .little twoLinks true [seen none] (-22) ∧
      ¬UpdateKeeps .little twoLinks true [seen none, seen (some 9)] 2 ∧
      ¬RequestKeeps .little twoLinks false true [⟨[(4, [7, 0, 0, 0]), (6, [14])], none, 0⟩] 1 := by
  refine ⟨?_, ?_, ?_⟩
  · intro h
    have hlen := List.Perm.length_eq h
    revert hlen
    decide +kernel
  · intro h
    have hone := Updated.one h [0, 1, 2, 3, 4, 5] (by decide +kernel)
    revert hone
    decide +kernel
  · rintro ⟨dev', ret, hout, -⟩
    have hnone : requestData .little twoLinks false true
        [⟨[(4, [7, 0, 0, 0]), (6, [14])], none, 0⟩] 1 = none := by decide +kernel
    rw [hnone] at hout
    cases hout

end UbntSdk.Wprobe.Client
