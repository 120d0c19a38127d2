/-
UbntSdk.Web.PrintTheorems — what a configuration prints.

A configuration is tidy when its names and values can be read back, its numbers
are elements of their arrays, and no hook has anything to do. Loading keeps it
so (`TidyObj.assignOwn`), `callInit` leaves it alone, and `toCfg` prints the
lines of what is shown in it (`objToString_eq`, `mem_leaves_iff`).

Objects and their properties are one tree, and the proofs follow it: an induction
on the properties, with a case for a text and one for an object, or on a path
where something is put. `leaves` lists the lines in the order in which they are
printed, so that printing and what is shown are compared with it one by one.
-/
import UbntSdk.Web.OrderTheorems

namespace UbntSdk.Web

/-! ## Tidy configurations -/

/-- A name that can be read back. -/
def NameOk (s : Str) : Prop := s ≠ [] ∧ '.' ∉ s ∧ '=' ∉ s ∧ OneLine s

instance (s : Str) : Decidable (NameOk s) := inferInstanceAs (Decidable (_ ∧ _))

/-- A place of an object with the value `val`. -/
def PlaceOk (a : Seg) (val : Str) : Prop :=
  match a with
  | .name s => NameOk s ∧ numeric s = false
  | .idx n => 0 < n ∧ n < 2 ^ 32 ∧ val = []

instance (a : Seg) (val : Str) : Decidable (PlaceOk a val) :=
  match a with
  | .name _ => inferInstanceAs (Decidable (_ ∧ _))
  | .idx _ => inferInstanceAs (Decidable (_ ∧ _))

/-- No element of `objs`. -/
def Props.unnumbered : Props → Bool
  | .nil => true
  | .str (.idx _) _ _ => false
  | .str (.name _) _ rest => rest.unnumbered
  | .obj (.idx _) _ _ _ _ => false
  | .obj (.name _) _ _ _ rest => rest.unnumbered

/-- A kind of object that has no hook, or nothing for it to do. -/
def KindOk (kind : Kind) (kids : Props) : Prop :=
  match kind with
  | .plain => True
  | .except => kids.unnumbered = true
  | .listed _ => kids = .nil
  | _ => False

instance (kind : Kind) (kids : Props) : Decidable (KindOk kind kids) :=
  match kind with
  | .plain => inferInstanceAs (Decidable True)
  | .except => inferInstanceAs (Decidable (_ = true))
  | .listed _ => inferInstanceAs (Decidable (kids = .nil))
  | .shaper => inferInstanceAs (Decidable False)
  | .rule _ => inferInstanceAs (Decidable False)

/-- Every property has a place and a value that can be read back. -/
def Tidy : Props → Prop
  | .nil => True
  | .str seg s rest => (∃ n, seg = .name n ∧ NameOk n) ∧ OneLine s ∧ rest.find seg = none ∧ Tidy rest
  | .obj seg val kind kids rest =>
      (PlaceOk seg val ∧ OneLine val ∧ KindOk kind kids ∧ Tidy kids) ∧ rest.find seg = none ∧ Tidy rest

/-- The same of an object, with what its kind asks for. -/
def TidyObj (o : Obj) : Prop := KindOk o.kind o.kids ∧ Tidy o.kids

/-- A value that may be put at a place. -/
def ValueOk (a : Seg) : Value → Prop
  | .str s => (∃ n, a = .name n ∧ NameOk n) ∧ OneLine s
  | .obj o => PlaceOk a o.val ∧ OneLine o.val ∧ TidyObj o

/-- The first property, and the others. -/
theorem tidy_cons (a : Seg) (x : Value) (rest : Props) :
    Tidy (.cons a x rest) ↔ ValueOk a x ∧ rest.find a = none ∧ Tidy rest := by
  cases x with
  | str s => exact ⟨fun h => ⟨⟨h.1, h.2.1⟩, h.2.2⟩, fun h => ⟨h.1.1, h.1.2, h.2⟩⟩
  | obj o => exact Iff.rfl

/-- A property that is found is tidy. -/
theorem Tidy.find {p : Props} (h : Tidy p) {a : Seg} {x : Value} (hfind : p.find a = some x) :
    ValueOk a x := by
  induction p using Props.consInduction with
  | nil => cases hfind
  | cons seg y rest ih =>
      rw [tidy_cons] at h
      rw [find_cons] at hfind
      split at hfind
      · rename_i hseg
        rw [hseg, ← Option.some.inj hfind]
        exact h.1
      · exact ih h.2.2 hfind

/-- A tidy value may be put anywhere. -/
theorem Tidy.put {p : Props} (h : Tidy p) {a : Seg} {x : Value} (hx : ValueOk a x) :
    Tidy (p.put a x) := by
  induction p using Props.consInduction with
  | nil => exact (tidy_cons a x .nil).mpr ⟨hx, rfl, trivial⟩
  | cons seg y rest ih =>
      obtain ⟨hy, hnone, hrest⟩ := (tidy_cons seg y rest).mp h
      rw [put_cons]
      split
      · rename_i hseg
        exact (tidy_cons a x rest).mpr ⟨hx, hseg ▸ hnone, hrest⟩
      rename_i hseg
      split
      · rename_i hlt
        refine (tidy_cons a x _).mpr ⟨hx, ?_, h⟩
        rw [find_cons, if_neg hseg, hlt.2]
      · refine (tidy_cons seg y _).mpr ⟨hy, ?_, ih hrest⟩
        rw [find_put_ne (Ne.symm hseg), hnone]

theorem unnumbered_cons (a : Seg) (x : Value) (rest : Props) :
    (Props.cons a x rest).unnumbered = true ↔ (∃ s, a = .name s) ∧ rest.unnumbered = true := by
  cases a with
  | name s =>
      cases x with
      | str v => simp [Props.cons, Props.unnumbered]
      | obj o => simp [Props.cons, Props.unnumbered]
  | idx n =>
      cases x with
      | str v => simp [Props.cons, Props.unnumbered]
      | obj o => simp [Props.cons, Props.unnumbered]

/-- A name puts no element into `objs`. -/
theorem unnumbered_put {p : Props} (h : p.unnumbered = true) (s : Str) (x : Value) :
    (p.put (.name s) x).unnumbered = true := by
  induction p using Props.consInduction with
  | nil => exact (unnumbered_cons _ _ _).mpr ⟨⟨s, rfl⟩, rfl⟩
  | cons seg y rest ih =>
      obtain ⟨hseg, hrest⟩ := (unnumbered_cons seg y rest).mp h
      rw [put_cons]
      split
      · exact (unnumbered_cons _ _ _).mpr ⟨⟨s, rfl⟩, hrest⟩
      split
      · exact (unnumbered_cons _ _ _).mpr ⟨⟨s, rfl⟩, h⟩
      · exact (unnumbered_cons _ _ _).mpr ⟨hseg, ih hrest⟩

theorem find_of_unnumbered {p : Props} (h : p.unnumbered = true) (n : Nat) : p.find (.idx n) = none := by
  induction p using Props.consInduction with
  | nil => rfl
  | cons seg y rest ih =>
      obtain ⟨⟨s, rfl⟩, hrest⟩ := (unnumbered_cons seg y rest).mp h
      rw [find_cons, if_neg (by simp), ih hrest]

/-! ## Loading -/

/-- The objects that a path may lead through. -/
def PlainWay (kind : Kind) (a : Seg) : Prop :=
  match kind, a with
  | .plain, _ => True
  | .except, .name _ => True
  | _, _ => False

/-- Such a step is one of the object itself. -/
theorem PlainWay.own {kind : Kind} {a : Seg} (h : PlainWay kind a) : Own kind a := by
  cases a with
  | name s => rfl
  | idx n =>
      cases kind with
      | plain => rfl
      | _ => cases h

/-- The steps of a path that can be read back. -/
def PathOk : List Seg → Prop
  | [] => False
  | [a] => ∃ s, a = .name s ∧ NameOk s
  | a :: b :: rest => PlaceOk a [] ∧ PathOk (b :: rest)

/-- What is put along a plain way gives no hook anything to do. -/
theorem KindOk.put {o : Obj} (h : KindOk o.kind o.kids) {a : Seg} (hway : PlainWay o.kind a) (x : Value) :
    KindOk o.kind (o.kids.put a x) := by
  obtain ⟨val, kind, kids⟩ := o
  cases kind with
  | plain => trivial
  | except =>
      cases a with
      | name s => exact unnumbered_put h s x
      | idx n => cases hway
  | _ => cases hway

instance decidableTidy : ∀ p, Decidable (Tidy p)
  | .nil => inferInstanceAs (Decidable True)
  | .str (.name n) s rest =>
      have := decidableTidy rest
      decidable_of_iff (NameOk n ∧ OneLine s ∧ rest.find (.name n) = none ∧ Tidy rest)
        ⟨fun h => ⟨⟨n, rfl, h.1⟩, h.2⟩, fun h => ⟨by obtain ⟨m, hm, hok⟩ := h.1; cases hm; exact hok, h.2⟩⟩
  | .str (.idx n) s rest => isFalse fun h => by
      obtain ⟨m, hm, -⟩ := h.1
      cases hm
  | .obj seg val kind kids rest =>
      have := decidableTidy kids
      have := decidableTidy rest
      inferInstanceAs (Decidable ((PlaceOk seg val ∧ OneLine val ∧ KindOk kind kids ∧ Tidy kids) ∧
        rest.find seg = none ∧ Tidy rest))

theorem prototype_tidy (name : Str) : Tidy (prototype name).kids :=
  forall_prototype (fun o => Tidy o.kids) trivial (by decide +kernel) name

/-- No prototype is an exception. -/
theorem prototype_not_except (name : Str) : (prototype name).kind ≠ .except :=
  forall_prototype (fun o => o.kind ≠ .except) (by decide) (by decide +kernel) name

/-- A new object that a path leads through. -/
theorem prototype_tidyObj {name : Str} {a : Seg} (h : PlainWay (prototype name).kind a) :
    TidyObj (prototype name) := by
  refine ⟨?_, prototype_tidy name⟩
  have hne := prototype_not_except name
  cases hkind : (prototype name).kind with
  | plain => trivial
  | except => exact absurd hkind hne
  | _ =>
      rw [hkind] at h
      cases h

/-- Loading one line keeps the object tidy. The induction is on the path, and the objects
it leads through are new or tidy. -/
theorem TidyObj.assignOwn {p : List Seg} (hp : PathOk p) {v : Str} (hv : OneLine v) {pre : Seg} {o : Obj}
    (ho : TidyObj o) (hway : Along PlainWay pre p o) : TidyObj (assignOwn pre p v o) := by
  induction p generalizing pre o with
  | nil => cases hp
  | cons a p ih =>
      rw [assignOwn_cons]
      refine ⟨ho.1.put hway.1 _, ho.2.put ?_⟩
      cases p with
      | nil =>
          obtain ⟨s, rfl, hs⟩ := hp
          cases hsub : o.sub (.name s) with
          | none => exact ⟨⟨s, rfl, hs⟩, hv⟩
          | some c =>
              obtain ⟨hplace, -, htidy⟩ := ho.2.find (find_of_sub hsub)
              exact ⟨hplace, hv, htidy⟩
      | cons b p =>
          obtain ⟨hplace, hrest⟩ := hp
          have hnext : TidyObj (o.next pre a) ∧ PlaceOk a (o.next pre a).val ∧
              OneLine (o.next pre a).val := by
            rw [Obj.next]
            cases hsub : o.sub a with
            | none =>
                have hkind : PlainWay (prototype (protoName pre a)).kind b := by
                  have := hway.2.1
                  rwa [Obj.next, hsub] at this
                simp only [Option.getD_none, prototype_val]
                exact ⟨prototype_tidyObj hkind, hplace, by decide⟩
            | some c =>
                obtain ⟨hplace, hval, htidy⟩ := ho.2.find (find_of_sub hsub)
                exact ⟨htidy, hplace, hval⟩
          refine ⟨?_, ?_, ih hrest hnext.1 hway.2⟩
          · rw [assignOwn_val]
            exact hnext.2.1
          · rw [assignOwn_val]
            exact hnext.2.2

/-! ## Hooks -/

/-- The hooks leave what is tidy alone, all the way down. -/
theorem initProps_of_tidy (h : Hooks) {p : Props} (hp : Tidy p) : initProps h p = p := by
  induction p with
  | nil => rfl
  | str seg s rest ih => rw [initProps, ih hp.2.2.2]
  | obj seg val kind kids rest ihkids ih =>
      obtain ⟨⟨-, -, hkind, hkids⟩, -, hrest⟩ := hp
      rw [initProps, ih hrest, ihkids hkids, ite_self]
      split
      · have hinit : h.init ⟨val, kind, kids⟩ = ⟨val, kind, kids⟩ := by
          cases kind with
          | listed l =>
              obtain rfl : kids = .nil := hkind
              rfl
          | shaper => cases hkind
          | _ => rfl
        rw [hinit]
        rfl
      · rfl

theorem initObj_of_tidy (h : Hooks) {o : Obj} (ho : TidyObj o) : initObj h o = o := by
  rw [initObj, initProps_of_tidy h ho.2, ite_self]

/-! ## Printing -/

/-- The paths that are printed, with their values. -/
def leaves : Props → List (List Seg × Str)
  | .nil => []
  | .str seg s rest => ([seg], s) :: leaves rest
  | .obj seg val _ kids rest =>
      (if val.isEmpty then [] else [([seg], val)]) ++
        ((leaves kids).map (fun x => (seg :: x.1, x.2)) ++ leaves rest)

theorem leaves_ne_nil {p : Props} {x : List Seg × Str} (h : x ∈ leaves p) : x.1 ≠ [] := by
  induction p with
  | nil => cases h
  | str seg s rest ih =>
      rcases List.mem_cons.mp h with rfl | hrest
      · simp
      · exact ih hrest
  | obj seg val kind kids rest _ ih =>
      simp only [leaves, List.mem_append, List.mem_map] at h
      rcases h with hown | ⟨y, -, rfl⟩ | hrest
      · split at hown
        · cases hown
        · simp [List.mem_singleton.mp hown]
      · simp
      · exact ih hrest

theorem PlaceOk.text_ne {a : Seg} {val : Str} (h : PlaceOk a val) : a.text ≠ [] := by
  cases a with
  | name s => exact h.1.1
  | idx n => exact Nat.toDigits_ne_nil

theorem PlaceOk.visible {a : Seg} {val : Str} (h : PlaceOk a val) : a.visible = true := by
  cases a with
  | name s => rfl
  | idx n =>
      have hlt : n < 4294967296 := h.2.1
      simp [Seg.visible, h.1, hlt]

/-- The key of a longer path begins with its first step. -/
theorem keyOf_cons {a : Seg} {p : List Seg} (hp : p ≠ []) :
    keyOf (a :: p) = a.text ++ '.' :: keyOf p := by
  have hone : keyOf [a] = a.text := by simp [keyOf]
  have happend := @keyOf_append [a] p (by simp) hp
  rwa [hone] at happend

/-- `toCfg` prints the leaves, where there are no exceptions. -/
theorem objToString_eq (h : Hooks) {shared : Str → Option (List Str)}
    (hshared : ∀ key, shared key = some []) (key : Str) {p : Props} (hp : Tidy p) :
    objToString h shared key p = some ((leaves p).map fun x => key ++ lineOf (keyOf x.1, x.2)) := by
  have hone (a : Seg) (v : Str) : key ++ lineOf (keyOf [a], v) = key ++ (a.text ++ ('=' :: v)) := by
    simp [keyOf, lineOf]
  induction p generalizing key with
  | nil => rfl
  | str seg s rest ih =>
      obtain ⟨⟨n, rfl, -⟩, -, -, hrest⟩ := hp
      rw [objToString, ih key hrest hone, leaves, List.map_cons, hone]
      rfl
  | obj seg val kind kids rest ihkids ih =>
      obtain ⟨⟨hplace, -, hkind, hkids⟩, -, hrest⟩ := hp
      have hne := hplace.text_ne
      have hinner : dotted (key ++ seg.text) = key ++ (seg.text ++ ['.']) := by
        rw [dotted, if_neg (by simp [hne]), List.append_assoc]
      have hbelow := ihkids (dotted (key ++ seg.text)) hkids fun a v => by simp [keyOf, lineOf]
      have hmap : (leaves kids).map (fun x => dotted (key ++ seg.text) ++ lineOf (keyOf x.1, x.2)) =
          ((leaves kids).map (fun x => (seg :: x.1, x.2))).map
            fun x => key ++ lineOf (keyOf x.1, x.2) := by
        rw [List.map_map]
        refine List.map_congr_left fun x hx => ?_
        simp only [Function.comp, hinner, lineOf, keyOf_cons (leaves_ne_nil hx)]
        simp
      rw [hmap] at hbelow
      rw [objToString, ih key hrest hone, Option.bind_eq_bind, Option.bind_some, if_pos hplace.visible,
        leaves, List.map_append, List.map_append]
      have hown : (if val.isEmpty then [] else [key ++ (seg.text ++ ('=' :: val))]) =
          (if val.isEmpty then [] else [([seg], val)]).map
            fun x => key ++ lineOf (keyOf x.1, x.2) := by
        split
        · rfl
        · rw [List.map_singleton, hone]
      rw [hown]
      cases kind with
      | rule r => cases hkind
      | except =>
          simp only [hbelow, hshared]
          rfl
      | _ =>
          simp only [hbelow]
          rfl

/-- The first property of an object, or one of the others. -/
theorem shown_cons (seg : Seg) (x : Value) (rest : Props) (a : Seg) (p : List Seg) (v : Str) :
    Shown (.ofProps (.cons seg x rest)) (a :: p) v ↔
      if a = seg then ∃ y, x.into p = some y ∧ (y.label = (false, v) ∨ (y.label = (true, v) ∧ v ≠ []))
      else Shown (.ofProps rest) (a :: p) v := by
  rw [shown_iff, shown_iff, at_cons, at_cons]
  simp only [Obj.ofProps, find_cons]
  split
  · rw [Option.bind_some]
  · exact Iff.rfl

/-- What an object shows is what its properties show. -/
theorem shown_ofProps (o : Obj) {p : List Seg} (hp : p ≠ []) (v : Str) :
    Shown o p v ↔ Shown (.ofProps o.kids) p v := by
  obtain ⟨a, p, rfl⟩ := List.exists_cons_of_ne_nil hp
  rw [Shown, Shown, at_cons, at_cons]
  rfl

/-- Nothing is shown under a name that is not there. -/
theorem not_shown_of_find {q : Props} {a : Seg} (h : q.find a = none) (p : List Seg) (v : Str) :
    ¬Shown (.ofProps q) (a :: p) v := by
  rw [shown_iff, at_cons]
  rintro ⟨x, hx, -⟩
  simp only [Obj.ofProps, h] at hx
  cases hx

/-- What is printed is what is shown. -/
theorem mem_leaves_iff {q : Props} (hq : Tidy q) (a : Seg) (p : List Seg) (v : Str) :
    (a :: p, v) ∈ leaves q ↔ Shown (.ofProps q) (a :: p) v := by
  induction q generalizing a p with
  | nil => exact iff_of_false (by simp [leaves]) (not_shown_of_find rfl p v)
  | str seg s rest ih =>
      obtain ⟨-, -, hnone, hrest⟩ := hq
      refine Iff.trans ?_ (shown_cons seg (.str s) rest a p v).symm
      rw [leaves, List.mem_cons, ih hrest]
      by_cases ha : a = seg
      · subst ha
        simp only [if_true, not_shown_of_find hnone, or_false]
        cases p with
        | nil => simp [Value.into, Value.label, eq_comm]
        | cons b p => simp [Value.into]
      · simp [ha]
  | obj seg val kind kids rest ihkids ih =>
      obtain ⟨⟨-, -, -, hkids⟩, hnone, hrest⟩ := hq
      refine Iff.trans ?_ (shown_cons seg (.obj ⟨val, kind, kids⟩) rest a p v).symm
      rw [leaves, List.mem_append, List.mem_append, ih hrest]
      by_cases ha : a = seg
      swap
      · have hkid : (a :: p, v) ∉ (leaves kids).map fun x => (seg :: x.1, x.2) := by
          simp [Ne.symm ha]
        simp [ha, hkid]
      subst ha
      simp only [if_true, not_shown_of_find hnone, or_false]
      cases p with
      | nil =>
          have hkid : ([a], v) ∉ (leaves kids).map fun x => (a :: x.1, x.2) := by
            rintro hmem
            obtain ⟨x, hx, heq⟩ := List.mem_map.mp hmem
            exact leaves_ne_nil hx (List.cons.inj (Prod.mk.inj heq).1).2
          simp only [hkid, or_false, Value.into, Option.some.injEq, exists_eq_left', Value.label,
            Prod.mk.injEq, Bool.true_eq_false, false_and, false_or, true_and]
          cases val with
          | nil =>
              simp only [List.isEmpty_nil, if_true, List.not_mem_nil, false_iff, not_and]
              rintro rfl hv
              exact hv rfl
          | cons c cs =>
              simp only [List.isEmpty_cons, Bool.false_eq_true, if_false, List.mem_singleton,
                Prod.mk.injEq, true_and]
              constructor
              · rintro rfl
                exact ⟨rfl, by simp⟩
              · rintro ⟨rfl, -⟩
                rfl
      | cons b p =>
          have hown : (a :: b :: p, v) ∉ (if val.isEmpty then [] else [([a], val)]) := by
            split <;> simp
          have hkid : (a :: b :: p, v) ∈ (leaves kids).map (fun x => (a :: x.1, x.2)) ↔
              (b :: p, v) ∈ leaves kids := by
            simp
          rw [hkid, ihkids hkids b p, ← shown_ofProps ⟨val, kind, kids⟩ (by simp), shown_iff]
          simp only [hown, false_or, Value.into, obj?_obj, Option.bind_some]

end UbntSdk.Web
