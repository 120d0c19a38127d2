/-
UbntSdk.Web.OrderTheorems — the order of the lines of a configuration.

`set` keeps the value of a key that is also a section when the section is an
object by then, and `get` makes an object in the place of a value that came
before. So the order of the lines does not matter exactly when every such value
is empty, or belongs to a section that is always an object because its prototype
has it (`NoClash`).

The result is about texts that do not lead into the array of the exceptions,
which are one list for all sections. The hooks are arbitrary. What is in a
section with an `init` hook may be dropped or renumbered there, so the value of
a key is looked for in the others (`Unhooked`).
-/
import Mathlib.Data.List.Nodup
import UbntSdk.Lib.Updates
import UbntSdk.Web.AssignTheorems
import UbntSdk.Web.TextTheorems

namespace UbntSdk.Web

open UbntSdk.Lib

/-! ## Loading -/

def emptyCfg : Obj := .ofProps .nil

/-- One line. -/
def step (o : Obj) (e : Str × Str) : Obj := assignOwn (.name []) (path e.1) e.2 o

theorem along_foldl (P : Kind → Seg → Prop) (p : List Seg) (l : List (Str × Str)) (o : Obj) :
    Along P (.name []) p (l.foldl step o) ↔ Along P (.name []) p o := by
  induction l generalizing o with
  | nil => exact Iff.rfl
  | cons e l ih => rw [List.foldl_cons, ih, step, along_assignOwn]

/-- `set` on a path of its own, which does not touch the shared array. -/
theorem set_eq {o : Obj} {p : List Seg} (h : Along Own (.name []) p o) (value : Str) :
    set o .nil p value = some (assignOwn (.name []) p value o, .nil) := by
  rw [set, assign_eq (fun _ => rfl) h]
  rfl

/-- So a text of such lines is a fold of `step`. -/
theorem load_eq {l : List (Str × Str)} {o : Obj}
    (h : ∀ e ∈ l, Along Own (.name []) (path e.1) o) : load l o .nil = some (l.foldl step o, .nil) := by
  induction l generalizing o with
  | nil => rfl
  | cons e l ih =>
      have hrest : ∀ x ∈ l, Along Own (.name []) (path x.1) (step o e) := by
        intro x hx
        rw [step, along_assignOwn]
        exact h x (List.mem_cons_of_mem _ hx)
      rw [load, set_eq (h e (List.mem_cons_self ..)), Option.bind_eq_bind, Option.bind_some]
      exact ih hrest

/-! ## Hooks -/

/-- `callInit` when there are no exceptions. -/
def initObj (h : Hooks) (o : Obj) : Obj :=
  { o with kids := if o.kids.arrayLike then o.kids else initProps h o.kids }

theorem callInit_nil (h : Hooks) (o : Obj) : callInit h o .nil = some (initObj h o, .nil) := by
  have hiter (n : Nat) : (initProps h)^[n] .nil = .nil := by
    induction n with
    | zero => rfl
    | succ n ih => rw [Function.iterate_succ_apply, initProps, ih]
  rw [callInit, initObj]
  split
  · rfl
  split
  · rfl
  · rw [if_neg (by simp [Props.meets]), hiter]

theorem parse_eq (h : Hooks) {es : List (Str × Str)} {text : Str} (htext : entries text = es)
    (hown : ∀ e ∈ es, Along Own (.name []) (path e.1) emptyCfg) :
    parse h text .nil = some (initObj h (es.foldl step emptyCfg), .nil) := by
  rw [parse, htext]
  change (load es emptyCfg .nil).bind _ = _
  rw [load_eq hown, Option.bind_some]
  exact callInit_nil h _

/-- The object has no `init` hook. -/
def NoInit (kind : Kind) (_ : Seg) : Prop :=
  match kind with
  | .listed _ => False
  | .shaper => False
  | _ => True

@[simp] theorem init_val (h : Hooks) (o : Obj) : (h.init o).val = o.val := by
  rw [Hooks.init]
  split <;> rfl

theorem init_of_noInit (h : Hooks) {o : Obj} {a : Seg} (hkind : NoInit o.kind a) : h.init o = o := by
  rw [Hooks.init]
  split
  · rename_i hk
    rw [hk] at hkind
    cases hkind
  · rename_i hk
    rw [hk] at hkind
    cases hkind
  · rfl

/-- What `callInit` makes of a property. -/
def initValue (h : Hooks) (a : Seg) : Value → Value
  | .str s => .str s
  | .obj o => if a.visible then .obj (h.init (initObj h o)) else .obj o

theorem find_initProps (h : Hooks) (a : Seg) (p : Props) :
    (initProps h p).find a = (p.find a).map (initValue h a) := by
  induction p with
  | nil => rfl
  | str seg s rest ih =>
      rw [initProps, Props.find, Props.find]
      split
      · rfl
      · exact ih
  | obj seg val kind kids rest _ ih =>
      rw [initProps, Props.find]
      by_cases hseg : a = seg
      · subst hseg
        rw [if_pos rfl, Option.map_some, initValue]
        split
        · rw [find_cons, if_pos rfl]
          rfl
        · rw [Props.find, if_pos rfl]
      · rw [if_neg hseg, ← ih]
        split
        · rw [find_cons, if_neg hseg]
        · rw [Props.find, if_neg hseg]

/-- Whether it is an object, and its own value. -/
def Value.label : Value → Bool × Str
  | .str s => (false, s)
  | .obj o => (true, o.val)

theorem label_initValue (h : Hooks) (a : Seg) (x : Value) : (initValue h a x).label = x.label := by
  cases x with
  | str s => rfl
  | obj o =>
      rw [initValue]
      split
      · simp only [Value.label, init_val]
        rfl
      · rfl

/-- A value is shown by a string, or by an object that has a value of its own. -/
theorem shown_iff (o : Obj) (p : List Seg) (v : Str) :
    Shown o p v ↔ ∃ x, o.at p = some x ∧ (x.label = (false, v) ∨ (x.label = (true, v) ∧ v ≠ [])) := by
  constructor
  · rintro (h | ⟨c, h, hval, hne⟩)
    · exact ⟨_, h, .inl rfl⟩
    · exact ⟨_, h, .inr ⟨by rw [Value.label, hval], hne⟩⟩
  · rintro ⟨x, h, hlabel⟩
    cases x with
    | str s =>
        rcases hlabel with hl | ⟨hl, -⟩
        · exact .inl (by rw [h, (Prod.mk.inj hl).2])
        · exact absurd (Prod.mk.inj hl).1 (by decide)
    | obj c =>
        rcases hlabel with hl | ⟨hl, hne⟩
        · exact absurd (Prod.mk.inj hl).1 (by decide)
        · exact .inr ⟨c, h, (Prod.mk.inj hl).2, hne⟩

/-- The hooks of other objects do not change the value. -/
theorem at_initObj (h : Hooks) {pre : Seg} {p : List Seg} (hp : p ≠ []) {o : Obj} {x : Value}
    (hat : o.at p = some x) (hal : Along NoInit pre p o) :
    ∃ y, (initObj h o).at p = some y ∧ y.label = x.label := by
  induction p generalizing pre o with
  | nil => exact absurd rfl hp
  | cons a p ih =>
      rw [at_cons] at hat ⊢
      obtain ⟨z, hz, hrest⟩ := Option.bind_eq_some_iff.mp hat
      by_cases hlike : o.kids.arrayLike
      · refine ⟨x, ?_, rfl⟩
        have hsame : (initObj h o).kids = o.kids := if_pos hlike
        rw [hsame]
        exact hat
      have hkids : (initObj h o).kids.find a = some (initValue h a z) := by
        have hinit : (initObj h o).kids = initProps h o.kids := if_neg hlike
        rw [hinit, find_initProps, hz, Option.map_some]
      rw [hkids, Option.bind_some]
      cases p with
      | nil =>
          obtain rfl := Option.some.inj hrest
          exact ⟨_, rfl, label_initValue h a z⟩
      | cons b p =>
          obtain ⟨c, hc, hcat⟩ := Option.bind_eq_some_iff.mp hrest
          obtain rfl : z = .obj c := by
            cases z with
            | str s => cases hc
            | obj d => rw [Option.some.inj hc]
          have hnext : o.next pre a = c := by rw [Obj.next, sub_of_find hz, obj?_obj, Option.getD_some]
          have hal' : Along NoInit a (b :: p) c := hnext ▸ hal.2
          rw [initValue]
          split
          · have hfix : h.init (initObj h c) = initObj h c := init_of_noInit h (a := b) hal'.1
            rw [hfix]
            exact ih (by simp) hcat hal'
          · exact ⟨x, hcat, rfl⟩

/-! ## `toCfg` returns -/

theorem assign_names (view : Obj → Props) (pre : Seg) {p : List Seg} (v : Str) (o : Obj)
    (hp : ∀ a ∈ p, ∃ s, a = .name s ∧ s ≠ "except".toList) :
    ∃ o', assign view pre p v o = some (o', none) := by
  induction p generalizing view pre o with
  | nil => exact ⟨o, rfl⟩
  | cons a p ih =>
      cases p with
      | nil => exact ⟨_, rfl⟩
      | cons b p =>
          obtain ⟨s, rfl, hs⟩ := hp a (List.mem_cons_self ..)
          obtain ⟨c, hc⟩ : ∃ c, ((o.sub (.name s)).orElse fun _ =>
              createNewObj (view o) (protoName pre (.name s))) = some c := by
            rw [protoName, createNewObj, if_neg hs]
            cases o.sub (.name s) with
            | none => exact ⟨_, rfl⟩
            | some c => exact ⟨c, rfl⟩
          obtain ⟨o', ho'⟩ := ih (fun c => view (o.put (.name s) (.obj c))) (.name s) c
            fun x hx => hp x (List.mem_cons_of_mem _ hx)
          refine ⟨o.put (.name s) (.obj o'), ?_⟩
          rw [assign, Kind.excepted, if_neg (by decide), hc, Option.bind_eq_bind, Option.bind_some, ho']
          rfl

theorem objToString_isSome (h : Hooks) {shared : Str → Option (List Str)}
    (hshared : ∀ key, (shared key).isSome) (key : Str) (p : Props) :
    (objToString h shared key p).isSome := by
  induction p generalizing key with
  | nil => rfl
  | str seg s rest ih =>
      obtain ⟨lines, hlines⟩ := Option.isSome_iff_exists.mp (ih key)
      rw [objToString, hlines]
      rfl
  | obj seg val kind kids rest ihkids ih =>
      obtain ⟨lines, hlines⟩ := Option.isSome_iff_exists.mp (ih key)
      obtain ⟨below, hbelow⟩ := Option.isSome_iff_exists.mp (ihkids (dotted (key ++ seg.text)))
      obtain ⟨excepts, hexcepts⟩ := Option.isSome_iff_exists.mp (hshared (dotted (key ++ seg.text)))
      rw [objToString, hlines, Option.bind_eq_bind, Option.bind_some]
      split
      swap
      · rfl
      cases kind <;> simp [hbelow, hexcepts]

theorem version_path (a : Seg) (ha : a ∈ path "system.cfg.version".toList) :
    ∃ s, a = .name s ∧ s ≠ "except".toList := by
  have hpath : path "system.cfg.version".toList =
      [.name "system".toList, .name "cfg".toList, .name "version".toList] := by decide +kernel
  rw [hpath] at ha
  simp only [List.mem_cons, List.not_mem_nil, or_false] at ha
  rcases ha with rfl | rfl | rfl
  · exact ⟨_, rfl, by decide⟩
  · exact ⟨_, rfl, by decide⟩
  · exact ⟨_, rfl, by decide⟩

theorem toCfg_isSome (h : Hooks) (o : Obj) : (toCfg h o .nil).isSome := by
  obtain ⟨o', ho'⟩ := assign_names (fun _ => .nil) (.name []) (Nat.toDigits 10 mkVersion) o version_path
  obtain ⟨lines, hlines⟩ := Option.isSome_iff_exists.mp
    (@objToString_isSome h (fun key => objToString h (fun _ => none) key .nil)
      (fun key => rfl) [] o'.kids)
  rw [toCfg, set, ho']
  change (Option.bind (objToString h _ [] o'.kids) _).isSome
  rw [hlines]
  rfl

/-! ## Permutations -/

/-- The names that are not names of sections. -/
def reserved : List String :=
  ["objs", "val", "getIdx", "__proto__", "enabled", "valid", "getDevname", "getInterfaces", "find",
    "findByDevname", "grep", "each", "add", "remove", "removeAll", "replace", "get", "set", "create",
    "clear", "init", "getPorts", "findPort", "addPort", "removePort", "canHavePort", "isVlan",
    "getParent", "getId", "findByFullDevname", "getFullDevname", "_ipProtoStr", "serialize",
    "buildCmd"]

/-- Lines with different keys, none of which leads to the exceptions. -/
structure LinesOk (ls : List (Str × Str)) : Prop where
  distinct : (ls.map Prod.fst).Nodup
  key : ∀ e ∈ ls, '=' ∉ e.1
  line : ∀ e ∈ ls, OneLine (lineOf e)
  names : ∀ e ∈ ls, ∀ s ∈ e.1.splitOn '.', s ∉ reserved.map String.toList
  canonical : ∀ e ∈ ls, ∀ s ∈ e.1.splitOn '.', Canonical s
  own : ∀ e ∈ ls, Along Own (.name []) (path e.1) emptyCfg

/-- The key is a section of another line. -/
def IsSection (ls : List (Str × Str)) (k : Str) : Prop := ∃ e ∈ ls, (k ++ ['.']) <+: e.1

/-- No object on the path has an `init` hook. -/
def Unhooked (k : Str) : Prop := Along NoInit (.name []) (path k) emptyCfg

/-- The text of the lines is parsed, and the result printed. -/
def printed (h : Hooks) (ls : List (Str × Str)) : Option (Obj × List Str) := do
  let (cfg, excepts) ← parse h (joinLines (ls.map lineOf)) .nil
  let (lines, _) ← toCfg h cfg excepts
  return (cfg, lines)

/-- Every order of the lines prints the same set of lines, and keeps the values
of keys that are also sections. -/
def OrderFree (h : Hooks) (ls : List (Str × Str)) : Prop :=
  ∀ ls', ls'.Perm ls → ∃ cfg cfg' out out', printed h ls = some (cfg, out) ∧
    printed h ls' = some (cfg', out') ∧ (∀ line, line ∈ out ↔ line ∈ out') ∧
    ∀ k v, (k, v) ∈ ls → v ≠ [] → IsSection ls k → Unhooked k →
      Shown cfg (path k) v ∧ Shown cfg' (path k) v

/-- A value that is not empty belongs to no section of another line, unless the
prototypes have it. -/
def NoClash (ls : List (Str × Str)) : Prop :=
  ∀ e ∈ ls, ∀ e' ∈ ls, e.2 ≠ [] → path e.1 <+: path e'.1 → path e.1 ≠ path e'.1 →
    Ready (.name []) (path e.1) emptyCfg

instance (ls : List (Str × Str)) : Decidable (NoClash ls) :=
  inferInstanceAs (Decidable (∀ e ∈ ls, ∀ e' ∈ ls, e.2 ≠ [] → path e.1 <+: path e'.1 →
    path e.1 ≠ path e'.1 → Ready (.name []) (path e.1) emptyCfg))

section Order

variable {ls : List (Str × Str)}

theorem LinesOk.perm (h : LinesOk ls) {ls' : List (Str × Str)} (hperm : ls'.Perm ls) : LinesOk ls' where
  distinct := (hperm.map Prod.fst).nodup_iff.mpr h.distinct
  key := fun e he => h.key e (hperm.mem_iff.mp he)
  line := fun e he => h.line e (hperm.mem_iff.mp he)
  names := fun e he => h.names e (hperm.mem_iff.mp he)
  canonical := fun e he => h.canonical e (hperm.mem_iff.mp he)
  own := fun e he => h.own e (hperm.mem_iff.mp he)

theorem LinesOk.path_ne (h : LinesOk ls) {e e' : Str × Str} (he : e ∈ ls) (he' : e' ∈ ls)
    (hne : e ≠ e') : path e.1 ≠ path e'.1 := by
  intro hpath
  have hkey := path_inj (h.canonical e he) (h.canonical e' he') hpath
  exact hne (List.inj_on_of_nodup_map h.distinct he he' hkey)

theorem printed_eq (h : Hooks) (hls : LinesOk ls) :
    printed h ls = (toCfg h (initObj h (ls.foldl step emptyCfg)) .nil).map fun r =>
      (initObj h (ls.foldl step emptyCfg), r.1) := by
  rw [printed, parse_eq h (entries_join hls.key hls.line) hls.own, Option.bind_eq_bind, Option.bind_some]
  change Option.bind (toCfg h _ .nil) _ = _
  cases toCfg h (initObj h (ls.foldl step emptyCfg)) .nil <;> rfl

/-- Lines with different paths may be loaded in any order. -/
theorem commuting_step (hpath : ∀ e ∈ ls, ∀ e' ∈ ls, e ≠ e' → path e.1 ≠ path e'.1) :
    Commuting step
      (fun o => ∀ e ∈ ls, ∀ e' ∈ ls, e.2 ≠ [] → path e.1 <+: path e'.1 → path e.1 ≠ path e'.1 →
        Ready (.name []) (path e.1) o)
      (· ∈ ls) where
  keep := by
    intro o a _ hinv e he e' he' hv hpre hne
    exact (hinv e he e' he' hv hpre hne).assignOwn _
  comm := by
    intro o a b ha hb hinv
    by_cases hab : a = b
    · rw [hab]
    have hne := hpath a ha b hb hab
    have hready {e e' : Str × Str} (he : e ∈ ls) (he' : e' ∈ ls) (hne : path e.1 ≠ path e'.1)
        (hpre : path e.1 <+: path e'.1) : e.2 = [] ∨ Ready (.name []) (path e.1) o := by
      by_cases hv : e.2 = []
      · exact .inl hv
      · exact .inr (hinv e he e' he' hv hpre hne)
    exact assignOwn_comm (.name []) o hne (hready ha hb hne) (hready hb ha hne.symm)
      (path_ne_nil _) (path_ne_nil _)
  idem := by
    intro o a _ _
    exact assignOwn_same _ _ _

/-- The lines commute in a state that has the object ready for every value that other lines
lead through. -/
theorem LinesOk.commuting (h : LinesOk ls) :
    Commuting step
      (fun o => ∀ e ∈ ls, ∀ e' ∈ ls, e.2 ≠ [] → path e.1 <+: path e'.1 → path e.1 ≠ path e'.1 →
        Ready (.name []) (path e.1) o)
      (· ∈ ls) :=
  commuting_step fun _ he _ he' hne => h.path_ne he he' hne

/-- Every value is there, unless it is empty and belongs to an object. -/
theorem NoClash.shown (h : LinesOk ls) (hclash : NoClash ls) {e : Str × Str} (he : e ∈ ls)
    (hv : Ready (.name []) (path e.1) (ls.foldl step emptyCfg) → e.2 ≠ []) :
    Shown (ls.foldl step emptyCfg) (path e.1) e.2 := by
  have hlast : ls.foldl step emptyCfg = (ls ++ [e]).foldl step emptyCfg := by
    refine h.commuting.foldl_eq_of_mem_iff (fun a ha => ha) (fun a => ?_) hclash
    simp only [List.mem_append, List.mem_singleton]
    exact ⟨.inl, fun hc => hc.elim id fun heq => heq ▸ he⟩
  rw [hlast, List.foldl_append, List.foldl_cons, List.foldl_nil]
  exact shown_assignOwn _ (path_ne_nil _) hv

theorem unhooked_foldl {k : Str} (h : Unhooked k) (l : List (Str × Str)) :
    Along NoInit (.name []) (path k) (l.foldl step emptyCfg) :=
  (along_foldl NoInit (path k) l emptyCfg).mpr h

/-- A value that comes before its section is lost. -/
theorem at_foldl_section {p : List Seg} (hp : p ≠ []) {l : List (Str × Str)}
    (hl : ∀ e ∈ l, path e.1 ≠ p) {o : Obj} {x : Value} (hat : o.at p = some x)
    (hx : (x.obj?.map Obj.val).getD [] = []) :
    ∃ y, (l.foldl step o).at p = some y ∧ (y.obj?.map Obj.val).getD [] = [] ∧
      (x.obj?.isSome ∨ (∃ e ∈ l, p <+: path e.1) → y.obj?.isSome) := by
  induction l generalizing o x with
  | nil => exact ⟨x, hat, hx, by simp⟩
  | cons e l ih =>
      have hne := hl e (List.mem_cons_self ..)
      have hrest : ∀ x ∈ l, path x.1 ≠ p := by
        intro x hx
        exact hl x (List.mem_cons_of_mem _ hx)
      rw [List.foldl_cons]
      by_cases hpre : p <+: path e.1
      · obtain ⟨c, hc, hval⟩ := @at_assignOwn_of_isPrefix e.2 (.name []) p _ hp hpre hne.symm o x hat
        obtain ⟨y, hy, hyval, hobj⟩ := ih hrest hc (by simpa using hval.trans hx)
        exact ⟨y, hy, hyval, fun _ => hobj (.inl rfl)⟩
      · obtain ⟨y, hy, hyval, hobj⟩ :=
          ih hrest (at_assignOwn_of_not_isPrefix (.name []) hpre hat) hx
        refine ⟨y, hy, hyval, fun hc => hobj (hc.imp_right ?_)⟩
        rintro ⟨e', he', hpre'⟩
        rcases List.mem_cons.mp he' with rfl | hmem
        · exact absurd hpre' hpre
        · exact ⟨e', hmem, hpre'⟩

/-- Without a clash the lines commute, so every order loads the same object. -/
theorem orderFree_of_noClash (h : Hooks) (hls : LinesOk ls) (hclash : NoClash ls) :
    OrderFree h ls := by
  intro ls' hperm
  have hsame : ls'.foldl step emptyCfg = ls.foldl step emptyCfg :=
    (hls.commuting.foldl_eq_of_mem_iff (fun a ha => ha) (fun a => hperm.mem_iff.symm) hclash).symm
  obtain ⟨r, hr⟩ := Option.isSome_iff_exists.mp (toCfg_isSome h (initObj h (ls.foldl step emptyCfg)))
  have hout := printed_eq h hls
  have hout' := printed_eq h (hls.perm hperm)
  rw [hr, Option.map_some] at hout
  rw [hsame, hr, Option.map_some] at hout'
  refine ⟨_, _, _, _, hout, hout', fun line => Iff.rfl, ?_⟩
  intro k v hmem hv _ hunhooked
  obtain ⟨x, hat, hlabel⟩ := (shown_iff _ _ _).mp (NoClash.shown hls hclash hmem fun _ => hv)
  obtain ⟨y, hy, hylabel⟩ := at_initObj h (path_ne_nil k) hat (unhooked_foldl hunhooked ls)
  have hshown : Shown (initObj h (ls.foldl step emptyCfg)) (path k) v :=
    (shown_iff _ _ _).mpr ⟨y, hy, hylabel ▸ hlabel⟩
  exact ⟨hshown, hshown⟩

/-- The order with the value first loses it. -/
theorem noClash_of_orderFree (h : Hooks) (hls : LinesOk ls) (hunhooked : ∀ e ∈ ls, Unhooked e.1)
    (hfree : OrderFree h ls) : NoClash ls := by
  intro e he e' he' hv hpre hne
  by_contra hready
  have hperm : (e :: ls.erase e).Perm ls := (List.perm_cons_erase he).symm
  obtain ⟨cfg, cfg', out, out', -, hout', -, hshown⟩ := hfree _ hperm
  have hsection : IsSection ls e.1 :=
    ⟨e', he', key_of_path_isPrefix (hls.canonical e he) (hls.canonical e' he') hpre hne⟩
  obtain ⟨-, hlost⟩ := hshown e.1 e.2 he hv hsection (hunhooked e he)
  rw [printed_eq h (hls.perm hperm)] at hout'
  obtain ⟨r, -, hcfg⟩ := Option.map_eq_some_iff.mp hout'
  obtain rfl := (Prod.mk.inj hcfg).1
  -- the value is a string first, and then an object without a value
  have hfirst : (step emptyCfg e).at (path e.1) = some (.str e.2) := by
    rcases at_assignOwn_self (v := e.2) (.name []) (path_ne_nil e.1) emptyCfg with ⟨hat, -⟩ | ⟨c, -, -, hc⟩
    · exact hat
    · exact absurd hc hready
  have hnodup : (e :: ls.erase e).Nodup := hperm.nodup_iff.mpr (List.Nodup.of_map _ hls.distinct)
  have hrest : ∀ x ∈ ls.erase e, path x.1 ≠ path e.1 := by
    intro x hx
    refine hls.path_ne (List.mem_of_mem_erase hx) he ?_
    rintro rfl
    exact (List.nodup_cons.mp hnodup).1 hx
  obtain ⟨y, hy, hyval, hobj⟩ := at_foldl_section (path_ne_nil e.1) hrest hfirst rfl
  have hmem : e' ∈ ls.erase e := (List.mem_erase_of_ne (fun hc => hne (by rw [hc]))).mpr he'
  obtain ⟨c, hc⟩ := Option.isSome_iff_exists.mp (hobj (.inr ⟨e', hmem, hpre⟩))
  obtain ⟨z, hz, hlabel⟩ := at_initObj h (path_ne_nil e.1) hy
    (unhooked_foldl (hunhooked e he) (e :: ls.erase e))
  obtain ⟨w, hw, hwlabel⟩ := (shown_iff _ _ _).mp hlost
  obtain rfl : z = w := Option.some.inj (hz.symm.trans hw)
  have hblank : y.label = (true, []) := by
    cases y with
    | str s => cases hc
    | obj d => exact Prod.ext rfl (by simpa [Value.label] using hyval)
  rw [hlabel, hblank] at hwlabel
  rcases hwlabel with hl | ⟨hl, -⟩
  · exact absurd (Prod.mk.inj hl).1 (by decide)
  · exact hv (Prod.mk.inj hl).2.symm

end Order

/-- The order of the lines does not matter when no value clashes with a section,
and without `init` hooks only then. -/
theorem orderFree_iff (h : Hooks) (ls : List (Str × Str)) (hls : LinesOk ls) :
    (NoClash ls → OrderFree h ls) ∧
      ((∀ e ∈ ls, Unhooked e.1) → OrderFree h ls → NoClash ls) :=
  ⟨orderFree_of_noClash h hls, noClash_of_orderFree h hls⟩

/-- Hooks that keep everything. -/
def keepAll : Hooks := ⟨fun _ o => some o, id, fun _ _ _ => []⟩

/-- A value of a section that the prototype has, and one of a number. -/
def prototypeLines : List (Str × Str) :=
  [("netconf.1.autoip", "manual"), ("netconf.1.autoip.status", "enabled"), ("a.1", "x"),
    ("a.1.b", "y=z")].map fun e => (e.1.toList, e.2.toList)

theorem orderFree_prototypeLines :
    LinesOk prototypeLines ∧ OrderFree keepAll prototypeLines := by
  have hok : LinesOk prototypeLines :=
    ⟨by decide +kernel, by decide +kernel, by decide +kernel, by decide +kernel, by decide +kernel,
      by decide +kernel⟩
  exact ⟨hok, (orderFree_iff keepAll prototypeLines hok).1 (by decide +kernel)⟩

/-- The lines that the comment in `set` is about. -/
def wdsLines : List (Str × Str) :=
  [("wireless.1.wds".toList, "enabled".toList), ("wireless.1.wds.1.peer".toList, [])]

/-- Two lists of exceptions. -/
def dmzLines : List (Str × Str) :=
  [("dmz.1.except.1.port".toList, "80".toList), ("dmz.2.except.1.port".toList, "443".toList)]

theorem orderFree_fails : ¬OrderFree keepAll wdsLines ∧ ¬OrderFree keepAll dmzLines := by
  have hwds (line : Str) (hline : line = "wireless.1.wds=enabled".toList) :
      (printed keepAll wdsLines).map (fun r => decide (line ∈ r.2)) = some false ∧
        (printed keepAll wdsLines.reverse).map (fun r => decide (line ∈ r.2)) = some true := by
    subst hline
    decide +kernel
  have hdmz (line : Str) (hline : line = "dmz.1.except.1.port=80".toList) :
      (printed keepAll dmzLines).map (fun r => decide (line ∈ r.2)) = some false ∧
        (printed keepAll dmzLines.reverse).map (fun r => decide (line ∈ r.2)) = some true := by
    subst hline
    decide +kernel
  have hfails {ls : List (Str × Str)} {line : Str}
      (h : (printed keepAll ls).map (fun r => decide (line ∈ r.2)) = some false ∧
        (printed keepAll ls.reverse).map (fun r => decide (line ∈ r.2)) = some true) :
      ¬OrderFree keepAll ls := by
    intro hfree
    obtain ⟨cfg, cfg', out, out', hout, hout', hsame, -⟩ := hfree _ ls.reverse_perm
    rw [hout, hout'] at h
    simp only [Option.map_some, Option.some.injEq, decide_eq_false_iff_not, decide_eq_true_eq] at h
    exact h.1 ((hsame line).mpr h.2)
  exact ⟨hfails (hwds _ rfl), hfails (hdmz _ rfl)⟩

end UbntSdk.Web
