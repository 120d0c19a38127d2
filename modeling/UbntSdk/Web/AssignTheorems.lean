/-
UbntSdk.Web.AssignTheorems — what `set` does to a configuration.

`assignOwn` is `set` for a path that does not lead into the array of the
exceptions. Two such assignments commute, unless the path of one is a section
of the other (`assignOwn_comm`). Then the value is kept when the section is an
object at that time. Otherwise it is a string, and the object that takes its
place does not have it; an empty value is not seen there.
-/
import UbntSdk.Web.Config

namespace UbntSdk.Web

/-! ## Properties -/

/-- Induction over the properties of one object. -/
theorem Props.consInduction {motive : Props → Prop} (nil : motive .nil)
    (cons : ∀ seg x rest, motive rest → motive (.cons seg x rest)) (p : Props) : motive p := by
  induction p with
  | nil => exact nil
  | str seg s rest ih => exact cons seg (.str s) rest ih
  | obj seg val kind kids rest _ ih => exact cons seg (.obj ⟨val, kind, kids⟩) rest ih

theorem find_cons (a seg : Seg) (x : Value) (rest : Props) :
    (Props.cons seg x rest).find a = if a = seg then some x else rest.find a := by
  cases x <;> rfl

theorem put_cons (a seg : Seg) (x y : Value) (rest : Props) :
    (Props.cons seg y rest).put a x =
      if a = seg then .cons a x rest
      else if a < seg ∧ rest.find a = none then .cons a x (.cons seg y rest)
      else .cons seg y (rest.put a x) := by
  cases y <;> rfl

@[simp] theorem find_put_same (a : Seg) (x : Value) (p : Props) : (p.put a x).find a = some x := by
  induction p using Props.consInduction with
  | nil => simp [Props.put, find_cons]
  | cons seg y rest ih =>
      rw [put_cons]
      split
      · simp [find_cons]
      split
      · simp [find_cons]
      · rename_i hne _
        rw [find_cons, if_neg hne, ih]

theorem find_put_ne {a b : Seg} (hab : a ≠ b) (x : Value) (p : Props) :
    (p.put b x).find a = p.find a := by
  induction p using Props.consInduction with
  | nil => rw [Props.put, find_cons, if_neg hab]
  | cons seg y rest ih =>
      rw [put_cons]
      split
      · rename_i hseg
        rw [find_cons, find_cons, if_neg hab, if_neg (hseg ▸ hab)]
      split
      · rw [find_cons, if_neg hab]
      · rw [find_cons, find_cons, ih]

/-- What is put there again. -/
theorem put_put (a : Seg) (x y : Value) (p : Props) : (p.put a x).put a y = p.put a y := by
  induction p using Props.consInduction with
  | nil => simp [Props.put, put_cons]
  | cons seg z rest ih =>
      rw [put_cons, put_cons]
      split
      · rw [put_cons, if_pos rfl]
      rename_i hne
      split
      · rw [put_cons, if_pos rfl]
      · rename_i hpos
        have hfind : ¬(a < seg ∧ (rest.put a x).find a = none) := by simp
        rw [put_cons, if_neg hne, if_neg hfind, ih]

theorem put_self {a : Seg} {x : Value} {p : Props} (h : p.find a = some x) : p.put a x = p := by
  induction p using Props.consInduction with
  | nil => cases h
  | cons seg y rest ih =>
      rw [find_cons] at h
      rw [put_cons]
      split
      · rename_i hseg
        rw [if_pos hseg] at h
        rw [hseg, Option.some.inj h]
      · rename_i hseg
        rw [if_neg hseg] at h
        rw [if_neg (by simp [h]), ih h]

theorem put_comm {a b : Seg} (hab : a ≠ b) (x y : Value) (p : Props) :
    (p.put a x).put b y = (p.put b y).put a x := by
  induction p using Props.consInduction with
  | nil =>
      rw [Props.put, Props.put, put_cons, put_cons, if_neg hab, if_neg hab.symm]
      simp only [Props.find, and_true, Props.put]
      rcases lt_or_gt_of_ne hab with hlt | hlt
      · rw [if_neg (not_lt_of_gt hlt), if_pos hlt]
      · rw [if_pos hlt, if_neg (not_lt_of_gt hlt)]
  | cons seg z rest ih =>
      by_cases ha : a = seg
      · subst ha
        rw [put_cons a a x z, if_pos rfl, put_cons b a y x, put_cons b a y z, if_neg hab.symm,
          if_neg hab.symm]
        split
        · rename_i hb
          rw [put_cons, if_neg hab, if_neg (fun hc => lt_asymm hc.1 hb.1), put_cons, if_pos rfl]
        · rw [put_cons, if_pos rfl]
      by_cases hb : b = seg
      · subst hb
        rw [put_cons a b x z, if_neg ha, put_cons b b y z, if_pos rfl, put_cons a b x y, if_neg ha]
        split
        · rename_i hlt
          rw [put_cons, if_neg hab.symm, if_neg (fun hc => lt_asymm hc.1 hlt.1), put_cons, if_pos rfl]
        · rw [put_cons, if_pos rfl]
      -- neither is the first one
      rw [put_cons a seg x z, put_cons b seg y z, if_neg ha, if_neg hb]
      by_cases hpa : a < seg ∧ rest.find a = none
      · rw [if_pos hpa]
        by_cases hpb : b < seg ∧ rest.find b = none
        · rw [if_pos hpb, put_cons b a, put_cons a b, if_neg hab, if_neg hab.symm, put_cons b seg,
            put_cons a seg, if_neg ha, if_neg hb, if_pos hpa, if_pos hpb, find_cons, find_cons,
            if_neg ha, if_neg hb]
          simp only [hpa.2, hpb.2, and_true]
          rcases lt_or_gt_of_ne hab with hlt | hlt
          · rw [if_neg (not_lt_of_gt hlt), if_pos hlt]
          · rw [if_pos hlt, if_neg (not_lt_of_gt hlt)]
        · rw [if_neg hpb, put_cons b a, if_neg hab.symm, put_cons b seg, if_neg hb, if_neg hpb,
            put_cons a seg, if_neg ha, find_put_ne hab, if_pos hpa, find_cons, if_neg hb,
            if_neg (fun hc => hpb ⟨lt_trans hc.1 hpa.1, hc.2⟩)]
      · rw [if_neg hpa]
        by_cases hpb : b < seg ∧ rest.find b = none
        · rw [if_pos hpb, put_cons b seg, if_neg hb, find_put_ne hab.symm, if_pos hpb, put_cons a b,
            if_neg hab, put_cons a seg, if_neg ha, if_neg hpa, find_cons, if_neg ha,
            if_neg (fun hc => hpa ⟨lt_trans hc.1 hpb.1, hc.2⟩)]
        · rw [if_neg hpb, put_cons b seg, if_neg hb, find_put_ne hab.symm, if_neg hpb, put_cons a seg,
            if_neg ha, find_put_ne hab, if_neg hpa, ih]

/-! ## Objects -/

/-- The object in a property. -/
def Value.obj? : Value → Option Obj
  | .str _ => none
  | .obj o => some o

@[simp] theorem obj?_obj (o : Obj) : (Value.obj o).obj? = some o := rfl

@[simp] theorem obj?_str (s : Str) : (Value.str s).obj? = none := rfl

theorem sub_eq (o : Obj) (a : Seg) : o.sub a = (o.kids.find a).bind Value.obj? := by
  rw [Obj.sub]
  cases o.kids.find a with
  | none => rfl
  | some x => cases x <;> rfl

theorem find_of_sub {o : Obj} {a : Seg} {c : Obj} (h : o.sub a = some c) :
    o.kids.find a = some (.obj c) := by
  rw [sub_eq] at h
  obtain ⟨y, hy, hyc⟩ := Option.bind_eq_some_iff.mp h
  cases y with
  | str s => cases hyc
  | obj d => rw [hy, Option.some.inj hyc]

@[simp] theorem sub_put_same (o : Obj) (a : Seg) (x : Value) : (o.put a x).sub a = x.obj? := by
  rw [sub_eq, Obj.put, find_put_same, Option.bind_some]

theorem sub_put_ne {a b : Seg} (hab : a ≠ b) (o : Obj) (x : Value) : (o.put b x).sub a = o.sub a := by
  rw [sub_eq, sub_eq, Obj.put, find_put_ne hab]

@[simp] theorem put_kind (o : Obj) (a : Seg) (x : Value) : (o.put a x).kind = o.kind := rfl

@[simp] theorem put_val (o : Obj) (a : Seg) (x : Value) : (o.put a x).val = o.val := rfl

theorem obj_put_put (o : Obj) (a : Seg) (x y : Value) : (o.put a x).put a y = o.put a y := by
  simp only [Obj.put, put_put]

theorem obj_put_comm {a b : Seg} (hab : a ≠ b) (o : Obj) (x y : Value) :
    (o.put a x).put b y = (o.put b y).put a x := by
  simp only [Obj.put, put_comm hab]

theorem obj_put_self {o : Obj} {a : Seg} {x : Value} (h : o.kids.find a = some x) : o.put a x = o := by
  rw [Obj.put, put_self h]

/-! ## Assignments -/

/-- The section `a` of an object, or what it is when it is made. -/
def Obj.next (pre : Seg) (o : Obj) (a : Seg) : Obj := (o.sub a).getD (prototype (protoName pre a))

/-- `set`, for a path that does not lead to the exceptions. -/
def assignOwn (pre : Seg) : List Seg → Str → Obj → Obj
  | [], _, o => o
  | [a], value, o => o.setProp a value
  | a :: b :: rest, value, o => o.put a (.obj (assignOwn a (b :: rest) value (o.next pre a)))

/-- What is put at `a`, where `x` is the object that was there. -/
def below (pre a : Seg) (rest : List Seg) (value : Str) (x : Option Obj) : Value :=
  match rest with
  | [] =>
      match x with
      | some c => .obj { c with val := value }
      | none => .str value
  | b :: rest => .obj (assignOwn a (b :: rest) value (x.getD (prototype (protoName pre a))))

theorem assignOwn_cons (pre a : Seg) (rest : List Seg) (value : Str) (o : Obj) :
    assignOwn pre (a :: rest) value o = o.put a (below pre a rest value (o.sub a)) := by
  cases rest with
  | nil =>
      rw [assignOwn, Obj.setProp]
      cases o.sub a <;> rfl
  | cons b rest => rfl

@[simp] theorem assignOwn_kind (pre : Seg) (p : List Seg) (value : Str) (o : Obj) :
    (assignOwn pre p value o).kind = o.kind := by
  cases p with
  | nil => rfl
  | cons a rest => rw [assignOwn_cons, put_kind]

@[simp] theorem assignOwn_val (pre : Seg) (p : List Seg) (value : Str) (o : Obj) :
    (assignOwn pre p value o).val = o.val := by
  cases p with
  | nil => rfl
  | cons a rest => rw [assignOwn_cons, put_val]

/-- The value of the object itself does not matter. -/
theorem assignOwn_withVal (pre : Seg) (p : List Seg) (value v : Str) (o : Obj) :
    assignOwn pre p value { o with val := v } = { assignOwn pre p value o with val := v } := by
  cases p with
  | nil => rfl
  | cons a rest =>
      rw [assignOwn_cons, assignOwn_cons]
      rfl

/-- What holds of all prototypes, and of the empty object. -/
theorem forall_prototype (P : Obj → Prop) (hnil : P (.ofProps .nil))
    (hall : ∀ x ∈ objPrototypes, P x.2) (name : Str) : P (prototype name) := by
  rw [prototype]
  generalize objPrototypes = l at hall
  induction l with
  | nil => exact hnil
  | cons x l ih =>
      rw [lookupPrototype]
      split
      · exact hall x (List.mem_cons_self ..)
      · exact ih fun y hy => hall y (List.mem_cons_of_mem _ hy)

theorem prototype_val (name : Str) : (prototype name).val = [] :=
  forall_prototype (·.val = []) rfl (by decide +kernel) name

/-! ## Order -/

/-- The property at the end of the path is an object when it is set. -/
def Ready (pre : Seg) : List Seg → Obj → Prop
  | [], _ => False
  | [a], o => (o.sub a).isSome
  | a :: b :: rest, o => Ready a (b :: rest) (o.next pre a)

instance decidableReady (pre : Seg) : ∀ p o, Decidable (Ready pre p o)
  | [], _ => inferInstanceAs (Decidable False)
  | [a], o => inferInstanceAs (Decidable ((o.sub a).isSome = true))
  | a :: b :: rest, o => decidableReady a (b :: rest) (o.next pre a)

theorem ready_cons (pre a b : Seg) (rest : List Seg) (o : Obj) :
    Ready pre (a :: b :: rest) o ↔ Ready a (b :: rest) (o.next pre a) := Iff.rfl

section Order

variable {v w : Str}

/-- The same property, once as a value and once as a section. -/
theorem below_comm_value (pre a b : Seg) (rest : List Seg) {x : Option Obj} (h : v = [] ∨ x.isSome) :
    below pre a (b :: rest) w (below pre a [] v x).obj? =
      below pre a [] v (below pre a (b :: rest) w x).obj? := by
  cases x with
  | some c =>
      simp only [below, obj?_obj, Option.getD_some]
      rw [assignOwn_withVal]
  | none =>
      have hv : v = [] := by simpa using h
      simp only [below, obj?_str, obj?_obj, Option.getD_none, hv, Value.obj.injEq]
      have hval : (assignOwn a (b :: rest) w (prototype (protoName pre a))).val = [] := by
        rw [assignOwn_val, prototype_val]
      rw [← hval]

/-- Assignments of two properties may be made in either order, unless one is a
section of the other. -/
theorem assignOwn_comm {p q : List Seg} (pre : Seg) (o : Obj) (hne : p ≠ q)
    (hpq : p <+: q → v = [] ∨ Ready pre p o) (hqp : q <+: p → w = [] ∨ Ready pre q o)
    (hp : p ≠ []) (hq : q ≠ []) :
    assignOwn pre q w (assignOwn pre p v o) = assignOwn pre p v (assignOwn pre q w o) := by
  induction p generalizing q pre o with
  | nil => exact absurd rfl hp
  | cons a p ih =>
      obtain ⟨b, q, rfl⟩ := List.exists_cons_of_ne_nil hq
      rw [assignOwn_cons, assignOwn_cons, assignOwn_cons, assignOwn_cons]
      by_cases hab : a = b
      swap
      · rw [sub_put_ne (Ne.symm hab), sub_put_ne hab, obj_put_comm hab]
      subst hab
      rw [sub_put_same, sub_put_same, obj_put_put, obj_put_put]
      congr 1
      cases p with
      | nil =>
          cases q with
          | nil => exact absurd rfl hne
          | cons c q =>
              exact below_comm_value pre a c q (hpq ⟨c :: q, rfl⟩)
      | cons c p =>
          cases q with
          | nil => exact (below_comm_value pre a c p (hqp ⟨c :: p, rfl⟩)).symm
          | cons d q =>
              simp only [below, obj?_obj, Option.getD_some]
              congr 1
              exact ih a (o.next pre a) (fun h => hne (by rw [h]))
                (fun h => hpq (List.cons_prefix_cons.mpr ⟨rfl, h⟩))
                (fun h => hqp (List.cons_prefix_cons.mpr ⟨rfl, h⟩)) (by simp) (by simp)

/-- The last value counts. -/
theorem assignOwn_same (pre : Seg) (p : List Seg) (o : Obj) :
    assignOwn pre p w (assignOwn pre p v o) = assignOwn pre p w o := by
  induction p generalizing pre o with
  | nil => rfl
  | cons a p ih =>
      rw [assignOwn_cons, assignOwn_cons, assignOwn_cons, sub_put_same, obj_put_put]
      congr 1
      cases p with
      | nil => cases o.sub a <;> rfl
      | cons b p =>
          simp only [below, obj?_obj, Option.getD_some]
          rw [ih]

end Order

/-! ## Sections along a path -/

section Along

variable {v w : Str}

theorem next_of_ne {a b : Seg} (hab : a ≠ b) (pre : Seg) (q : List Seg) (o : Obj) :
    (assignOwn pre (b :: q) w o).next pre a = o.next pre a := by
  rw [Obj.next, assignOwn_cons, sub_put_ne hab, Obj.next]

/-- A section that is given a value. -/
theorem next_value (pre a : Seg) (o : Obj) :
    ∃ v, (assignOwn pre [a] w o).next pre a = { o.next pre a with val := v } := by
  rw [Obj.next, assignOwn_cons, sub_put_same, Obj.next]
  cases o.sub a with
  | none => exact ⟨(prototype (protoName pre a)).val, rfl⟩
  | some c => exact ⟨w, rfl⟩

theorem next_section (pre a b : Seg) (q : List Seg) (o : Obj) :
    (assignOwn pre (a :: b :: q) w o).next pre a = assignOwn a (b :: q) w (o.next pre a) := by
  rw [Obj.next, assignOwn_cons, sub_put_same]
  rfl

theorem ready_withVal (pre : Seg) (p : List Seg) (o : Obj) :
    Ready pre p { o with val := v } ↔ Ready pre p o := by
  match p with
  | [] => exact Iff.rfl
  | [a] => exact Iff.rfl
  | a :: b :: p => exact Iff.rfl

theorem sub_isSome_assignOwn (pre a b : Seg) (q : List Seg) (o : Obj) :
    ((assignOwn pre (b :: q) w o).sub a).isSome ↔ (o.sub a).isSome ∨ (a = b ∧ q ≠ []) := by
  rw [assignOwn_cons]
  by_cases hab : a = b
  · subst hab
    rw [sub_put_same]
    cases q with
    | nil => cases o.sub a <;> simp [below]
    | cons c q => simp [below]
  · rw [sub_put_ne hab]
    simp [hab]

/-- What is an object stays one. -/
theorem Ready.assignOwn {pre : Seg} {p : List Seg} {o : Obj} (h : Ready pre p o) (q : List Seg) :
    Ready pre p (assignOwn pre q w o) := by
  induction p generalizing pre o q with
  | nil => exact h
  | cons a p ih =>
      cases q with
      | nil => exact h
      | cons b q =>
          cases p with
          | nil => exact (sub_isSome_assignOwn pre a b q o).mpr (.inl h)
          | cons c p =>
              rw [ready_cons] at h ⊢
              by_cases hab : a = b
              swap
              · rwa [next_of_ne hab]
              subst hab
              cases q with
              | nil =>
                  obtain ⟨v, hv⟩ := @next_value w pre a o
                  rwa [hv, ready_withVal]
              | cons d q =>
                  rw [next_section]
                  exact ih h (d :: q)

/-- A property that became an object is a section of what was set. -/
theorem ready_of_assignOwn {pre : Seg} {p q : List Seg} {o : Obj}
    (h : Ready pre p (assignOwn pre q w o)) : Ready pre p o ∨ (p <+: q ∧ p ≠ q) := by
  induction p generalizing pre o q with
  | nil => exact .inl h
  | cons a p ih =>
      cases q with
      | nil => exact .inl h
      | cons b q =>
          cases p with
          | nil =>
              rcases (sub_isSome_assignOwn pre a b q o).mp h with hsub | ⟨rfl, hq⟩
              · exact .inl hsub
              · exact .inr ⟨⟨q, rfl⟩, fun hc => hq (List.cons.inj hc).2.symm⟩
          | cons c p =>
              rw [ready_cons] at h ⊢
              by_cases hab : a = b
              swap
              · rw [next_of_ne hab] at h
                exact .inl h
              subst hab
              cases q with
              | nil =>
                  obtain ⟨v, hv⟩ := @next_value w pre a o
                  rw [hv, ready_withVal] at h
                  exact .inl h
              | cons d q =>
                  rw [next_section] at h
                  rcases ih h with hready | ⟨hpre, hne⟩
                  · exact .inl hready
                  · exact .inr ⟨List.cons_prefix_cons.mpr ⟨rfl, hpre⟩,
                      fun hc => hne (List.cons.inj hc).2⟩

/-- `P` holds of every object on the path and the step that is taken there. -/
def Along (P : Kind → Seg → Prop) (pre : Seg) : List Seg → Obj → Prop
  | [], _ => True
  | a :: rest, o => P o.kind a ∧ Along P a rest (o.next pre a)

instance decidableAlong (P : Kind → Seg → Prop) [∀ k a, Decidable (P k a)] (pre : Seg) :
    ∀ p o, Decidable (Along P pre p o)
  | [], _ => inferInstanceAs (Decidable True)
  | a :: rest, o =>
      have := decidableAlong P a rest (o.next pre a)
      inferInstanceAs (Decidable (P o.kind a ∧ Along P a rest (o.next pre a)))

theorem along_withVal (P : Kind → Seg → Prop) (pre : Seg) (p : List Seg) (o : Obj) :
    Along P pre p { o with val := v } ↔ Along P pre p o := by
  cases p with
  | nil => exact Iff.rfl
  | cons a p => exact Iff.rfl

/-- Assignments do not change what kind the objects are. -/
theorem along_assignOwn (P : Kind → Seg → Prop) (pre : Seg) (p q : List Seg) (o : Obj) :
    Along P pre p (assignOwn pre q w o) ↔ Along P pre p o := by
  induction p generalizing pre q o with
  | nil => exact Iff.rfl
  | cons a p ih =>
      cases q with
      | nil => exact Iff.rfl
      | cons b q =>
          rw [Along, Along, assignOwn_kind]
          refine and_congr_right fun _ => ?_
          by_cases hab : a = b
          swap
          · rw [next_of_ne hab]
          subst hab
          cases q with
          | nil =>
              obtain ⟨v, hv⟩ := @next_value w pre a o
              rw [hv, along_withVal]
          | cons d q =>
              rw [next_section]
              exact ih a (d :: q) _

theorem Along.mono {P Q : Kind → Seg → Prop} (hPQ : ∀ k a, P k a → Q k a) {pre : Seg} {p : List Seg}
    {o : Obj} (h : Along P pre p o) : Along Q pre p o := by
  induction p generalizing pre o with
  | nil => trivial
  | cons a p ih => exact ⟨hPQ _ _ h.1, ih h.2⟩

end Along

/-- The step does not lead to the exceptions. -/
def Own (kind : Kind) (a : Seg) : Prop := kind.excepted a = false

instance (kind : Kind) (a : Seg) : Decidable (Own kind a) :=
  inferInstanceAs (Decidable (kind.excepted a = false))

theorem createNewObj_nil (name : Str) : createNewObj .nil name = some (prototype name) := by
  rw [createNewObj]
  split
  · rename_i h
    have hexcept : prototype "except".toList = .ofProps .nil := by decide +kernel
    rw [h, hexcept]
    rfl
  · rfl

theorem assign_eq {view : Obj → Props} (hview : ∀ o, view o = .nil) {pre : Seg} {p : List Seg}
    {o : Obj} (h : Along Own pre p o) (value : Str) :
    assign view pre p value o = some (assignOwn pre p value o, none) := by
  induction p generalizing view pre o with
  | nil => rfl
  | cons a p ih =>
      cases p with
      | nil => rfl
      | cons b p =>
          obtain ⟨hown, hrest⟩ := h
          have hnext : ((o.sub a).orElse fun _ => createNewObj (view o) (protoName pre a)) =
              some (o.next pre a) := by
            rw [hview, createNewObj_nil, Obj.next]
            cases o.sub a <;> rfl
          rw [assign, hown, if_neg (by decide)]
          rw [hnext, Option.bind_eq_bind, Option.bind_some,
            ih (fun c => hview (o.put a (.obj c))) hrest]
          rfl

/-! ## Values -/

/-- What is at a path. -/
def Obj.at (o : Obj) : List Seg → Option Value
  | [] => some (.obj o)
  | [a] => o.kids.find a
  | a :: b :: rest => (o.sub a).bind fun c => c.at (b :: rest)

/-- The same from a value on. -/
def Value.into (x : Value) (rest : List Seg) : Option Value :=
  match rest with
  | [] => some x
  | b :: rest => x.obj?.bind fun c => c.at (b :: rest)

theorem at_cons (o : Obj) (a : Seg) (rest : List Seg) :
    o.at (a :: rest) = (o.kids.find a).bind fun x => x.into rest := by
  cases rest with
  | nil =>
      rw [Obj.at]
      cases o.kids.find a <;> rfl
  | cons b rest =>
      rw [Obj.at, sub_eq, Option.bind_assoc]
      rfl

theorem sub_of_find {o : Obj} {a : Seg} {x : Value} (h : o.kids.find a = some x) :
    o.sub a = x.obj? := by
  rw [sub_eq, h, Option.bind_some]

theorem find_assignOwn_same (pre a : Seg) (q : List Seg) (w : Str) (o : Obj) :
    (assignOwn pre (a :: q) w o).kids.find a = some (below pre a q w (o.sub a)) := by
  rw [assignOwn_cons, Obj.put, find_put_same]

theorem find_assignOwn_ne {a b : Seg} (hab : a ≠ b) (pre : Seg) (q : List Seg) (w : Str) (o : Obj) :
    (assignOwn pre (b :: q) w o).kids.find a = o.kids.find a := by
  rw [assignOwn_cons, Obj.put, find_put_ne hab]

section Values

variable {v w : Str}

/-- The value is there, and with it the object if there is one. -/
theorem at_assignOwn_self (pre : Seg) {p : List Seg} (hp : p ≠ []) (o : Obj) :
    ((assignOwn pre p v o).at p = some (.str v) ∧ ¬Ready pre p o) ∨
      ∃ c, (assignOwn pre p v o).at p = some (.obj c) ∧ c.val = v ∧ Ready pre p o := by
  induction p generalizing pre o with
  | nil => exact absurd rfl hp
  | cons a p ih =>
      rw [at_cons, find_assignOwn_same, Option.bind_some]
      cases p with
      | nil =>
          rw [Ready]
          cases hsub : o.sub a with
          | none => exact .inl ⟨rfl, by simp⟩
          | some c => exact .inr ⟨_, rfl, rfl, rfl⟩
      | cons b p => exact ih a (by simp) (o.next pre a)

/-- What is not a section of the assignment stays. -/
theorem at_assignOwn_of_not_isPrefix (pre : Seg) {p q : List Seg} (hpq : ¬p <+: q) {o : Obj} {x : Value}
    (h : o.at p = some x) : (assignOwn pre q w o).at p = some x := by
  induction p generalizing pre q o with
  | nil => exact absurd (List.nil_prefix) hpq
  | cons a p ih =>
      cases q with
      | nil => exact h
      | cons b q =>
          rw [at_cons] at h ⊢
          by_cases hab : a = b
          swap
          · rwa [find_assignOwn_ne hab]
          subst hab
          obtain ⟨y, hy, hrest⟩ := Option.bind_eq_some_iff.mp h
          rw [find_assignOwn_same, Option.bind_some, sub_of_find hy]
          have hpq' : ¬p <+: q := fun hc => hpq (List.cons_prefix_cons.mpr ⟨rfl, hc⟩)
          cases p with
          | nil => exact absurd List.nil_prefix hpq'
          | cons c p =>
              obtain ⟨d, hd, hat⟩ := Option.bind_eq_some_iff.mp hrest
              rw [hd]
              cases q with
              | nil =>
                  -- the path goes through the object that is given a value
                  rw [at_cons] at hat
                  rw [below, Value.into, obj?_obj, Option.bind_some, at_cons]
                  exact hat
              | cons e q => exact ih a hpq' hat

/-- A section of the assignment is an object, and keeps its value if it was
one before. -/
theorem at_assignOwn_of_isPrefix (pre : Seg) {p q : List Seg} (hp : p ≠ []) (hpq : p <+: q) (hne : p ≠ q)
    {o : Obj} {x : Value} (h : o.at p = some x) :
    ∃ c, (assignOwn pre q w o).at p = some (.obj c) ∧ c.val = (x.obj?.map Obj.val).getD [] := by
  induction p generalizing pre q o with
  | nil => exact absurd rfl hp
  | cons a p ih =>
      obtain ⟨q, rfl⟩ : ∃ r, q = a :: r := by
        obtain ⟨r, rfl⟩ := hpq
        exact ⟨p ++ r, rfl⟩
      have hpq' := (List.cons_prefix_cons.mp hpq).2
      have hne' : p ≠ q := fun hc => hne (by rw [hc])
      rw [at_cons] at h ⊢
      obtain ⟨y, hy, hrest⟩ := Option.bind_eq_some_iff.mp h
      rw [find_assignOwn_same, Option.bind_some, sub_of_find hy]
      obtain ⟨b, q, rfl⟩ : ∃ b r, q = b :: r := by
        cases q with
        | nil => exact absurd (List.prefix_nil.mp hpq') hne'
        | cons b r => exact ⟨b, r, rfl⟩
      cases p with
      | nil =>
          obtain rfl := Option.some.inj hrest
          refine ⟨_, rfl, ?_⟩
          rw [assignOwn_val]
          cases y with
          | str s => exact prototype_val _
          | obj c => rfl
      | cons c p =>
          obtain ⟨d, hd, hat⟩ := Option.bind_eq_some_iff.mp hrest
          rw [hd]
          exact ih a (by simp) hpq' hne' hat

/-- What is at a path is printed as this value. -/
def Shown (o : Obj) (p : List Seg) (v : Str) : Prop :=
  o.at p = some (.str v) ∨ ∃ c, o.at p = some (.obj c) ∧ c.val = v ∧ v ≠ []

theorem shown_assignOwn (pre : Seg) {p : List Seg} (hp : p ≠ []) {o : Obj}
    (h : Ready pre p o → v ≠ []) : Shown (assignOwn pre p v o) p v := by
  rcases at_assignOwn_self pre hp o with ⟨hat, -⟩ | ⟨c, hat, hval, hready⟩
  · exact .inl hat
  · exact .inr ⟨c, hat, hval, h hready⟩

theorem Shown.assignOwn {o : Obj} {p q : List Seg} (h : Shown o p v) (pre : Seg) (hpq : ¬p <+: q) :
    Shown (assignOwn pre q w o) p v := by
  rcases h with hat | ⟨c, hat, hval⟩
  · exact .inl (at_assignOwn_of_not_isPrefix pre hpq hat)
  · exact .inr ⟨c, at_assignOwn_of_not_isPrefix pre hpq hat, hval⟩

/-- Assigning what is there changes nothing. -/
theorem Shown.assignOwn_self {o : Obj} {p : List Seg} (h : Shown o p v) (pre : Seg) :
    Web.assignOwn pre p v o = o := by
  induction p generalizing pre o with
  | nil => rfl
  | cons a p ih =>
      rw [Shown, at_cons] at h
      obtain ⟨y, hy⟩ : ∃ y, o.kids.find a = some y := by
        rcases h with h | ⟨c, h, -⟩
        · exact ⟨_, (Option.bind_eq_some_iff.mp h).choose_spec.1⟩
        · exact ⟨_, (Option.bind_eq_some_iff.mp h).choose_spec.1⟩
      rw [assignOwn_cons, sub_of_find hy]
      refine obj_put_self (hy.trans (congrArg some ?_))
      rw [hy] at h
      simp only [Option.bind_some] at h
      cases p with
      | nil =>
          rcases h with h | ⟨c, h, hval, -⟩
          · obtain rfl := Option.some.inj h
            rfl
          · obtain rfl := Option.some.inj h
            simp only [below, obj?_obj, ← hval]
      | cons b p =>
          have hobj : ∃ d, y = .obj d ∧ Shown d (b :: p) v := by
            cases y with
            | str s => simp [Value.into] at h
            | obj d => exact ⟨d, rfl, h⟩
          obtain ⟨d, rfl, hd⟩ := hobj
          simp only [below, obj?_obj, Option.getD_some, ih hd]

end Values

end UbntSdk.Web
