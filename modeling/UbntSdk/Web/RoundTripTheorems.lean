/-
UbntSdk.Web.RoundTripTheorems — a text that is parsed and printed.

Every line of the text is printed, and what is printed prints itself again.
The argument is about sets of lines, as the lines of a text commute:

* lines whose key comes again are left out (`foldl_lasts`);
* the printed lines contain those of the text, and each of them is already in
  the configuration, so loading them gives the configuration back
  (`reload_printed`);
* the version, which `toCfg` writes over whatever was there, counts as if it
  came last (`stamp_absorbs`).

The list of exceptions of the `dmz` objects stays empty, so it does not matter
how many texts were parsed before.
-/
import Mathlib.Data.List.Induction
import Mathlib.Data.List.Infix
import UbntSdk.Web.PrintTheorems

namespace UbntSdk.Web

open UbntSdk.Lib

/-! ## Keys and paths -/

theorem mem_splitOn_dot {key s : Str} (h : s ∈ key.splitOn '.') : '.' ∉ s ∧ s ⊆ key := by
  induction key generalizing s with
  | nil =>
      obtain rfl : s = [] := by simpa using h
      simp
  | cons c cs ih =>
      rw [List.splitOn_cons_eq_if_modifyHead] at h
      split at h
      · rcases List.mem_cons.mp h with rfl | hmem
        · simp
        · obtain ⟨hdot, hsub⟩ := ih hmem
          exact ⟨hdot, fun x hx => List.mem_cons_of_mem _ (hsub hx)⟩
      · rename_i hc
        obtain ⟨t, ts, hts⟩ := List.exists_cons_of_ne_nil (List.splitOn_ne_nil '.' cs)
        rw [hts, List.modifyHead_cons] at h
        rcases List.mem_cons.mp h with rfl | hmem
        · obtain ⟨hdot, hsub⟩ := @ih t (hts ▸ List.mem_cons_self ..)
          have hcdot : c ≠ '.' := by simpa using hc
          exact ⟨by simp [Ne.symm hcdot, hdot], List.cons_subset_cons c hsub⟩
        · obtain ⟨hdot, hsub⟩ := @ih s (hts ▸ List.mem_cons_of_mem _ hmem)
          exact ⟨hdot, fun x hx => List.mem_cons_of_mem _ (hsub hx)⟩

/-- A segment of a key in a line. -/
theorem nameOk_of_key {key s : Str} (heq : '=' ∉ key) (hline : OneLine key) (h : s ∈ key.splitOn '.')
    (hne : s ≠ []) : NameOk s := by
  obtain ⟨hdot, hsub⟩ := mem_splitOn_dot h
  exact ⟨hne, hdot, fun hc => heq (hsub hc), fun hc => hline.1 (hsub hc), fun hc => hline.2 (hsub hc)⟩

theorem pathOk_pathOf {segs : List Str} (hne : segs ≠ [])
    (hsegs : ∀ s ∈ segs, NameOk s ∧ Canonical s) (hsmall : ∀ n, .idx n ∈ pathOf segs → n < 2 ^ 32) :
    PathOk (pathOf segs) := by
  induction segs with
  | nil => exact absurd rfl hne
  | cons s segs ih =>
      obtain ⟨hs, hcanon⟩ := hsegs s (List.mem_cons_self ..)
      cases segs with
      | nil => exact ⟨s, rfl, hs⟩
      | cons t segs =>
          have hrest : PathOk (pathOf (t :: segs)) := by
            refine ih (by simp) (fun x hx => hsegs x (List.mem_cons_of_mem _ hx)) fun n hn => ?_
            exact hsmall n (List.mem_cons_of_mem _ hn)
          obtain ⟨a, p, hp⟩ : ∃ a p, pathOf (t :: segs) = a :: p := by
            cases segs with
            | nil => exact ⟨_, _, rfl⟩
            | cons u segs => exact ⟨_, _, rfl⟩
          have hhead : (if numeric s then Seg.idx (parseInt s) else .name s) ∈ pathOf (s :: t :: segs) :=
            List.mem_cons_self ..
          rw [pathOf]
          rw [hp] at hrest ⊢
          refine ⟨?_, hrest⟩
          split
          · rename_i hnum
            rw [if_pos hnum] at hhead
            exact ⟨(hcanon hnum).1, hsmall _ hhead, rfl⟩
          · rename_i hnum
            exact ⟨hs, by simpa using hnum⟩

theorem numeric_toDigits (n : Nat) : numeric (Nat.toDigits 10 n) = true := by
  have hne : (Nat.toDigits 10 n).isEmpty = false := by simp
  have hall : (Nat.toDigits 10 n).all Char.isDigit = true := by
    rw [List.all_eq_true]
    intro c hc
    exact Nat.isDigit_of_mem_toDigits (by decide) (by decide) hc
  rw [numeric, hne, hall]
  rfl

/-- A path that can be read back is. -/
theorem pathOf_texts {p : List Seg} (h : PathOk p) : pathOf (p.map Seg.text) = p := by
  induction p with
  | nil => cases h
  | cons a p ih =>
      cases p with
      | nil =>
          obtain ⟨s, rfl, -⟩ := h
          rfl
      | cons b p =>
          obtain ⟨hplace, hrest⟩ := h
          have hih := ih hrest
          rw [List.map_cons] at hih
          rw [List.map_cons, List.map_cons, pathOf, hih]
          congr 1
          cases a with
          | name s => rw [Seg.text, if_neg (by simp [hplace.2])]
          | idx n =>
              rw [Seg.text, if_pos (numeric_toDigits n), parseInt, Nat.ofDigitChars_ten_toDigits]

theorem PathOk.text {p : List Seg} (h : PathOk p) {t : Str} (ht : t ∈ p.map Seg.text) :
    '.' ∉ t ∧ '=' ∉ t ∧ OneLine t := by
  have hplace {a : Seg} {v : Str} (ha : PlaceOk a v) : '.' ∉ a.text ∧ '=' ∉ a.text ∧ OneLine a.text := by
    cases a with
    | name s => exact ha.1.2
    | idx n =>
        have hdigit {c : Char} (hc : c ∈ Nat.toDigits 10 n) : c.isDigit = true :=
          Nat.isDigit_of_mem_toDigits (by decide) (by decide) hc
        exact ⟨fun hc => absurd (hdigit hc) (by decide), fun hc => absurd (hdigit hc) (by decide),
          fun hc => absurd (hdigit hc) (by decide), fun hc => absurd (hdigit hc) (by decide)⟩
  induction p with
  | nil => cases h
  | cons a p ih =>
      cases p with
      | nil =>
          obtain ⟨s, rfl, hs⟩ := h
          obtain rfl : t = s := by simpa [Seg.text] using ht
          exact hs.2
      | cons b p =>
          rcases List.mem_cons.mp ht with rfl | hmem
          · exact hplace h.1
          · exact ih h.2 hmem

theorem path_keyOf {p : List Seg} (h : PathOk p) : path (keyOf p) = p := by
  have hne : p.map Seg.text ≠ [] := by
    cases p with
    | nil => cases h
    | cons a p => simp
  rw [path, keyOf, List.splitOn_intercalate _ (fun t ht => (h.text ht).1) hne, pathOf_texts h]

theorem mem_keyOf {c : Char} {p : List Seg} (h : c ∈ keyOf p) :
    c = '.' ∨ ∃ t ∈ p.map Seg.text, c ∈ t := by
  induction p with
  | nil => simp [keyOf] at h
  | cons a p ih =>
      cases p with
      | nil =>
          right
          exact ⟨a.text, by simp, by simpa [keyOf] using h⟩
      | cons b p =>
          rw [keyOf_cons (by simp), List.mem_append, List.mem_cons] at h
          rcases h with h | rfl | h
          · exact .inr ⟨a.text, by simp, h⟩
          · exact .inl rfl
          · rcases ih h with rfl | ⟨t, ht, hc⟩
            · exact .inl rfl
            · exact .inr ⟨t, List.mem_cons_of_mem _ ht, hc⟩

/-- The key of such a path can stand in a line. -/
theorem PathOk.key {p : List Seg} (h : PathOk p) : '=' ∉ keyOf p ∧ OneLine (keyOf p) := by
  have hnot {c : Char} (hdot : c ≠ '.') (htext : ∀ t ∈ p.map Seg.text, c ∉ t) : c ∉ keyOf p := by
    intro hc
    rcases mem_keyOf hc with rfl | ⟨t, ht, hmem⟩
    · exact hdot rfl
    · exact htext t ht hmem
  exact ⟨hnot (by decide) fun t ht => (h.text ht).2.1, hnot (by decide) fun t ht => (h.text ht).2.2.1,
    hnot (by decide) fun t ht => (h.text ht).2.2.2⟩

/-! ## Shown paths -/

/-- A path that is shown can be read back, and leads through plain objects. -/
theorem Shown.pathOk {o : Obj} (ho : TidyObj o) {p : List Seg} (hp : p ≠ []) {v : Str}
    (h : Shown o p v) (pre : Seg) : PathOk p ∧ OneLine v ∧ Along PlainWay pre p o := by
  induction p generalizing o pre with
  | nil => exact absurd rfl hp
  | cons a p ih =>
      obtain ⟨x, hat, hlabel⟩ := (shown_iff _ _ _).mp h
      rw [at_cons] at hat
      obtain ⟨y, hy, hinto⟩ := Option.bind_eq_some_iff.mp hat
      have hvalue := ho.2.find hy
      have hway : PlainWay o.kind a := by
        have hkind := ho.1
        cases hk : o.kind with
        | plain => trivial
        | except =>
            rw [hk] at hkind
            cases a with
            | name s => trivial
            | idx n =>
                rw [find_of_unnumbered hkind n] at hy
                cases hy
        | listed l =>
            rw [hk] at hkind
            have hnil : o.kids = .nil := hkind
            rw [hnil] at hy
            cases hy
        | _ =>
            rw [hk] at hkind
            cases hkind
      cases p with
      | nil =>
          obtain rfl := Option.some.inj hinto
          cases y with
          | str s =>
              obtain ⟨⟨n, rfl, hn⟩, hs⟩ := hvalue
              have hv : s = v := by simpa [Value.label] using hlabel
              exact ⟨⟨n, rfl, hn⟩, hv ▸ hs, hway, trivial⟩
          | obj c =>
              obtain ⟨hplace, hline, -⟩ := hvalue
              have hv : c.val = v ∧ v ≠ [] := by simpa [Value.label] using hlabel
              cases a with
              | name s => exact ⟨⟨s, rfl, hplace.1⟩, hv.1 ▸ hline, hway, trivial⟩
              | idx n => exact absurd (hv.1.symm.trans hplace.2.2) hv.2
      | cons b p =>
          obtain ⟨c, hc, hcat⟩ := Option.bind_eq_some_iff.mp hinto
          obtain rfl : y = .obj c := by
            cases y with
            | str s => cases hc
            | obj d => rw [Option.some.inj hc]
          obtain ⟨hplace, -, htidy⟩ := hvalue
          have hnext : o.next pre a = c := by rw [Obj.next, sub_of_find hy, obj?_obj, Option.getD_some]
          obtain ⟨hpath, hline, hal⟩ := ih htidy (by simp) ((shown_iff _ _ _).mpr ⟨x, hcat, hlabel⟩) a
          refine ⟨⟨?_, hpath⟩, hline, hway, hnext ▸ hal⟩
          cases a with
          | name s => exact hplace
          | idx n => exact ⟨hplace.1, hplace.2.1, rfl⟩

theorem Shown.unique {o : Obj} {p : List Seg} {v w : Str} (h : Shown o p v) (h' : Shown o p w) :
    v = w := by
  obtain ⟨x, hx, hlabel⟩ := (shown_iff _ _ _).mp h
  obtain ⟨y, hy, hlabel'⟩ := (shown_iff _ _ _).mp h'
  obtain rfl := Option.some.inj (hx.symm.trans hy)
  rcases hlabel with hl | ⟨hl, -⟩
  · rcases hlabel' with hl' | ⟨hl', -⟩
    · exact (Prod.mk.inj (hl.symm.trans hl')).2
    · exact absurd (Prod.mk.inj (hl.symm.trans hl')).1 (by decide)
  · rcases hlabel' with hl' | ⟨hl', -⟩
    · exact absurd (Prod.mk.inj (hl.symm.trans hl')).1 (by decide)
    · exact (Prod.mk.inj (hl.symm.trans hl')).2

/-! ## Objects with a value -/

/-- No object in here has a value. -/
def Props.blank : Props → Bool
  | .nil => true
  | .str _ _ rest => rest.blank
  | .obj _ val _ kids rest => val.isEmpty && kids.blank && rest.blank

theorem blank_find {q : Props} (h : q.blank = true) {a : Seg} {c : Obj} (hfind : q.find a = some (.obj c)) :
    c.val = [] ∧ c.kids.blank = true := by
  induction q with
  | nil => cases hfind
  | str seg s rest ih =>
      rw [Props.find] at hfind
      split at hfind
      · cases hfind
      · exact ih h hfind
  | obj seg val kind kids rest _ ih =>
      simp only [Props.blank, Bool.and_eq_true, List.isEmpty_iff] at h
      rw [Props.find] at hfind
      split at hfind
      · obtain rfl := Value.obj.inj (Option.some.inj hfind)
        exact h.1
      · exact ih h.2 hfind

theorem blank_at {o : Obj} (h : o.kids.blank = true) {p : List Seg} (hp : p ≠ []) {c : Obj}
    (hat : o.at p = some (.obj c)) : c.val = [] := by
  induction p generalizing o with
  | nil => exact absurd rfl hp
  | cons a p ih =>
      rw [at_cons] at hat
      obtain ⟨y, hy, hinto⟩ := Option.bind_eq_some_iff.mp hat
      cases p with
      | nil =>
          obtain rfl := Option.some.inj hinto
          exact (blank_find h hy).1
      | cons b p =>
          obtain ⟨d, hd, hdat⟩ := Option.bind_eq_some_iff.mp hinto
          cases y with
          | str s => cases hd
          | obj e =>
              obtain rfl := Option.some.inj hd
              exact ih (blank_find h hy).2 (by simp) hdat

theorem prototype_blank (name : Str) : (prototype name).kids.blank = true :=
  forall_prototype (fun o => o.kids.blank = true) rfl (by decide +kernel) name

/-- An object has a value because it had one, or because it is given one. -/
theorem valued_origin {pre : Seg} {p q : List Seg} {w : Str} {o c : Obj} (hp : p ≠ [])
    (hat : (assignOwn pre q w o).at p = some (.obj c)) (hval : c.val ≠ []) :
    (∃ d, o.at p = some (.obj d) ∧ d.val ≠ []) ∨ (p = q ∧ Ready pre p o) := by
  induction p generalizing pre q o with
  | nil => exact absurd rfl hp
  | cons a p ih =>
      cases q with
      | nil => exact .inl ⟨c, hat, hval⟩
      | cons b q =>
          by_cases hab : a = b
          swap
          · rw [at_cons, find_assignOwn_ne hab, ← at_cons] at hat
            exact .inl ⟨c, hat, hval⟩
          subst hab
          rw [at_cons, find_assignOwn_same, Option.bind_some] at hat
          rw [at_cons]
          cases p with
          | nil =>
              have hbelow := Option.some.inj hat
              cases hsub : o.sub a with
              | none =>
                  rw [hsub] at hbelow
                  cases q with
                  | nil => cases hbelow
                  | cons d q =>
                      obtain rfl := Value.obj.inj hbelow
                      rw [assignOwn_val] at hval
                      exact absurd (prototype_val _) hval
              | some d =>
                  rw [hsub] at hbelow
                  cases q with
                  | nil => exact .inr ⟨rfl, by rw [Ready, hsub]; rfl⟩
                  | cons e q =>
                      obtain rfl := Value.obj.inj hbelow
                      rw [assignOwn_val] at hval
                      rw [find_of_sub hsub]
                      exact .inl ⟨d, rfl, hval⟩
          | cons d p =>
              cases q with
              | nil =>
                  cases hsub : o.sub a with
                  | none =>
                      rw [hsub] at hat
                      cases hat
                  | some e =>
                      rw [hsub] at hat
                      rw [find_of_sub hsub, Option.bind_some]
                      refine .inl ⟨c, ?_, hval⟩
                      have hsame : ({ e with val := w } : Obj).at (d :: p) = e.at (d :: p) := by
                        rw [at_cons, at_cons]
                      exact hsame.symm.trans hat
              | cons f q =>
                  rcases ih (by simp) (show (assignOwn a (f :: q) w (o.next pre a)).at (d :: p) =
                    some (.obj c) from hat) with ⟨g, hg, hgval⟩ | ⟨heq, hready⟩
                  · cases hsub : o.sub a with
                    | none =>
                        rw [Obj.next, hsub, Option.getD_none] at hg
                        exact absurd (blank_at (prototype_blank _) (by simp) hg) hgval
                    | some e =>
                        rw [Obj.next, hsub, Option.getD_some] at hg
                        rw [find_of_sub hsub, Option.bind_some]
                        exact .inl ⟨g, hg, hgval⟩
                  · exact .inr ⟨by rw [heq], hready⟩

theorem ready_foldl {p : List Seg} {l : List (Str × Str)} {o : Obj}
    (h : Ready (.name []) p (l.foldl step o)) :
    Ready (.name []) p o ∨ ∃ e ∈ l, p <+: path e.1 ∧ p ≠ path e.1 := by
  induction l generalizing o with
  | nil => exact .inl h
  | cons e l ih =>
      rcases ih h with hready | ⟨x, hx, hpre⟩
      · rcases ready_of_assignOwn hready with hready | hpre
        · exact .inl hready
        · exact .inr ⟨e, List.mem_cons_self .., hpre⟩
      · exact .inr ⟨x, List.mem_cons_of_mem _ hx, hpre⟩

/-- A value is with an object that the prototypes have, when no key is a section
of another. -/
theorem valued_foldl {l : List (Str × Str)}
    (hfree : ∀ e ∈ l, ∀ e' ∈ l, path e.1 <+: path e'.1 → path e.1 = path e'.1) {p : List Seg}
    (hp : p ≠ []) {c : Obj} (hat : (l.foldl step emptyCfg).at p = some (.obj c)) (hval : c.val ≠ []) :
    Ready (.name []) p emptyCfg := by
  induction l using List.reverseRecOn generalizing c with
  | nil => exact absurd (blank_at rfl hp hat) hval
  | append_singleton l e ih =>
      have hsub : ∀ x ∈ l, x ∈ l ++ [e] := fun x hx => List.mem_append_left _ hx
      rw [List.foldl_append, List.foldl_cons, List.foldl_nil] at hat
      rcases valued_origin hp hat hval with ⟨d, hd, hdval⟩ | ⟨rfl, hready⟩
      · exact ih (fun x hx y hy => hfree x (hsub x hx) y (hsub y hy)) hd hdval
      · rcases ready_foldl hready with hready | ⟨x, hx, hpre, hne⟩
        · exact hready
        · exact absurd (hfree e (by simp) x (hsub x hx) hpre) hne

/-! ## Repeated keys -/

/-- The lines whose key does not come again. -/
def lasts : List (Str × Str) → List (Str × Str)
  | [] => []
  | e :: l => if e.1 ∈ l.map Prod.fst then lasts l else e :: lasts l

theorem mem_of_mem_lasts {l : List (Str × Str)} {e : Str × Str} (h : e ∈ lasts l) : e ∈ l := by
  induction l with
  | nil => cases h
  | cons x l ih =>
      rw [lasts] at h
      split at h
      · exact List.mem_cons_of_mem _ (ih h)
      · rcases List.mem_cons.mp h with rfl | hmem
        · exact List.mem_cons_self ..
        · exact List.mem_cons_of_mem _ (ih hmem)

theorem lasts_distinct (l : List (Str × Str)) : ((lasts l).map Prod.fst).Nodup := by
  induction l with
  | nil => exact List.nodup_nil
  | cons e l ih =>
      rw [lasts]
      split
      · exact ih
      · rename_i hnot
        rw [List.map_cons, List.nodup_cons]
        refine ⟨fun hmem => hnot ?_, ih⟩
        obtain ⟨x, hx, hkey⟩ := List.mem_map.mp hmem
        exact List.mem_map.mpr ⟨x, mem_of_mem_lasts hx, hkey⟩

/-- No key of the list is a section of another one. -/
def Apart (l : List (Str × Str)) : Prop :=
  ∀ e ∈ l, ∀ e' ∈ l, path e.1 <+: path e'.1 → e.1 = e'.1

theorem Apart.comm {l : List (Str × Str)} (h : Apart l) {e e' : Str × Str} (he : e ∈ l) (he' : e' ∈ l)
    (hne : e.1 ≠ e'.1) (o : Obj) : step (step o e) e' = step (step o e') e := by
  refine assignOwn_comm (.name []) o (fun hc => hne (h e he e' he' (hc ▸ List.prefix_refl _)))
    (fun hc => absurd (h e he e' he' hc) hne) (fun hc => absurd (h e' he' e he hc) hne.symm)
    (path_ne_nil _) (path_ne_nil _)

theorem foldl_shadowed {l : List (Str × Str)} {e : Str × Str} (h : Apart (e :: l))
    (hmem : e.1 ∈ l.map Prod.fst) (o : Obj) : l.foldl step (step o e) = l.foldl step o := by
  induction l generalizing o with
  | nil => cases hmem
  | cons x l ih =>
      rw [List.foldl_cons, List.foldl_cons]
      by_cases hx : e.1 = x.1
      · have hover : step (step o e) x = step o x := by
          rw [step, step, step, hx, assignOwn_same]
        rw [hover]
      · have hrest : Apart (e :: l) := by
          intro a ha b hb
          have hsub : ∀ y ∈ e :: l, y ∈ e :: x :: l := by
            intro y hy
            rcases List.mem_cons.mp hy with rfl | hy
            · exact List.mem_cons_self ..
            · exact List.mem_cons_of_mem _ (List.mem_cons_of_mem _ hy)
          exact h a (hsub a ha) b (hsub b hb)
        have hmem' : e.1 ∈ l.map Prod.fst := by
          rcases List.mem_cons.mp hmem with heq | hmem
          · exact absurd heq hx
          · exact hmem
        rw [h.comm (by simp) (by simp) hx]
        exact ih hrest hmem' (step o x)

theorem foldl_lasts {l : List (Str × Str)} (h : Apart l) (o : Obj) :
    l.foldl step o = (lasts l).foldl step o := by
  induction l generalizing o with
  | nil => rfl
  | cons e l ih =>
      have hrest : Apart l := by
        intro a ha b hb
        exact h a (List.mem_cons_of_mem _ ha) b (List.mem_cons_of_mem _ hb)
      rw [lasts]
      split
      · rename_i hmem
        rw [List.foldl_cons, foldl_shadowed h hmem, ih hrest]
      · rw [List.foldl_cons, List.foldl_cons, ih hrest]

/-! ## The version -/

def versionPath : List Seg := path "system.cfg.version".toList

/-- What `toCfg` sets. -/
def versionEntry : Str × Str := ("system.cfg.version".toList, Nat.toDigits 10 mkVersion)

/-- A string in the place of a section is not seen. -/
theorem assignOwn_over {pre : Seg} {p q : List Seg} {v w : Str} (hp : p ≠ []) (hpq : p <+: q)
    (hne : p ≠ q) {o : Obj} (hready : ¬Ready pre p o) :
    assignOwn pre q v (assignOwn pre p w o) = assignOwn pre q v o := by
  induction p generalizing pre q o with
  | nil => exact absurd rfl hp
  | cons a p ih =>
      obtain ⟨q, rfl⟩ : ∃ r, q = a :: r := by
        obtain ⟨r, rfl⟩ := hpq
        exact ⟨p ++ r, rfl⟩
      have hpq' := (List.cons_prefix_cons.mp hpq).2
      have hne' : p ≠ q := fun hc => hne (by rw [hc])
      obtain ⟨b, q, rfl⟩ : ∃ b r, q = b :: r := by
        cases q with
        | nil => exact absurd (List.prefix_nil.mp hpq') hne'
        | cons b r => exact ⟨b, r, rfl⟩
      rw [assignOwn_cons, assignOwn_cons, assignOwn_cons, sub_put_same, obj_put_put]
      congr 1
      cases p with
      | nil =>
          have hsub : o.sub a = none := by
            rw [Ready] at hready
            simpa using hready
          rw [hsub]
          rfl
      | cons c p =>
          simp only [below, obj?_obj, Option.getD_some]
          congr 1
          exact ih (by simp) hpq' hne' hready

section Version

variable {l : List (Str × Str)}

/-- What was there before the version is set does not count. -/
theorem stamp_absorbs (hl : ∀ e ∈ l, path e.1 <+: versionPath → path e.1 = versionPath) (o : Obj)
    (w : Str) :
    step (l.foldl step (assignOwn (.name []) versionPath w o)) versionEntry =
      step (l.foldl step o) versionEntry := by
  induction l generalizing o with
  | nil => exact assignOwn_same _ _ _
  | cons e l ih =>
      have hrest : ∀ x ∈ l, path x.1 <+: versionPath → path x.1 = versionPath := by
        intro x hx
        exact hl x (List.mem_cons_of_mem _ hx)
      rw [List.foldl_cons, List.foldl_cons]
      by_cases heq : path e.1 = versionPath
      · have hover : step (assignOwn (.name []) versionPath w o) e = step o e := by
          rw [step, step, heq, assignOwn_same]
        rw [hover]
      have hback : ¬path e.1 <+: versionPath := fun hc => heq (hl e (List.mem_cons_self ..) hc)
      by_cases hover : versionPath <+: path e.1 ∧ ¬Ready (.name []) versionPath o
      · have hsame : step (assignOwn (.name []) versionPath w o) e = step o e :=
          assignOwn_over (path_ne_nil _) hover.1 (Ne.symm heq) hover.2
        rw [hsame]
      · have hcomm : step (assignOwn (.name []) versionPath w o) e =
            assignOwn (.name []) versionPath w (step o e) := by
          refine assignOwn_comm (.name []) o (Ne.symm heq) (fun hc => .inr ?_)
            (fun hc => absurd hc hback) (path_ne_nil _) (path_ne_nil _)
          by_contra hready
          exact hover ⟨hc, hready⟩
        rw [hcomm]
        exact ih hrest (step o e)

theorem stamp_filter (hl : ∀ e ∈ l, path e.1 <+: versionPath → path e.1 = versionPath) (o : Obj) :
    step (l.foldl step o) versionEntry =
      step ((l.filter fun e => path e.1 ≠ versionPath).foldl step o) versionEntry := by
  induction l generalizing o with
  | nil => rfl
  | cons e l ih =>
      have hrest : ∀ x ∈ l, path x.1 <+: versionPath → path x.1 = versionPath := by
        intro x hx
        exact hl x (List.mem_cons_of_mem _ hx)
      rw [List.foldl_cons]
      by_cases heq : path e.1 = versionPath
      · rw [List.filter_cons_of_neg (by simpa using heq), step.eq_1 o e, heq, stamp_absorbs hrest,
          ih hrest]
      · rw [List.filter_cons_of_pos (by simpa using heq), List.foldl_cons, ih hrest]

end Version

/-! ## Reading back -/

/-- The printed lines, as entries. -/
def shownEntries (o : Obj) : List (Str × Str) := (leaves o.kids).map fun x => (keyOf x.1, x.2)

theorem mem_shownEntries {o : Obj} (ho : TidyObj o) {e : Str × Str} :
    e ∈ shownEntries o ↔ ∃ p, p ≠ [] ∧ keyOf p = e.1 ∧ Shown o p e.2 := by
  have hleaf (p : List Seg) (v : Str) : (p, v) ∈ leaves o.kids ↔ p ≠ [] ∧ Shown o p v := by
    cases p with
    | nil => exact iff_of_false (fun hc => leaves_ne_nil hc rfl) (by simp)
    | cons a p =>
        rw [mem_leaves_iff ho.2, ← shown_ofProps o (by simp)]
        simp
  rw [shownEntries, List.mem_map]
  constructor
  · rintro ⟨⟨p, v⟩, hx, rfl⟩
    obtain ⟨hne, hshown⟩ := (hleaf p v).mp hx
    exact ⟨p, hne, rfl, hshown⟩
  · rintro ⟨p, hne, hkey, hshown⟩
    exact ⟨(p, e.2), (hleaf p e.2).mpr ⟨hne, hshown⟩, Prod.ext hkey rfl⟩

theorem shown_of_mem {o : Obj} (ho : TidyObj o) {e : Str × Str} (he : e ∈ shownEntries o) :
    PathOk (path e.1) ∧ keyOf (path e.1) = e.1 ∧ Shown o (path e.1) e.2 := by
  obtain ⟨p, hne, hkey, hshown⟩ := (mem_shownEntries ho).mp he
  have hok := (hshown.pathOk ho hne (.name [])).1
  have hpath : path e.1 = p := by rw [← hkey, path_keyOf hok]
  rw [hpath]
  exact ⟨hok, hkey, hshown⟩

/-- Loading what is already there. -/
theorem foldl_shown {l : List (Str × Str)} {o : Obj} (h : ∀ e ∈ l, Shown o (path e.1) e.2) :
    l.foldl step o = o := by
  induction l with
  | nil => rfl
  | cons e l ih =>
      have hself : step o e = o := (h e (List.mem_cons_self ..)).assignOwn_self _
      rw [List.foldl_cons, hself]
      exact ih fun x hx => h x (List.mem_cons_of_mem _ hx)

/-- The sections of an assignment are objects. -/
theorem obj_of_isPrefix {pre : Seg} {p q : List Seg} {w : Str} (hp : p ≠ []) (hpq : p <+: q) (hne : p ≠ q)
    (o : Obj) : ∃ c, (assignOwn pre q w o).at p = some (.obj c) := by
  induction p generalizing pre q o with
  | nil => exact absurd rfl hp
  | cons a p ih =>
      obtain ⟨r, rfl⟩ := hpq
      have hr : r ≠ [] := by
        rintro rfl
        exact hne (by simp)
      rw [at_cons, List.cons_append, find_assignOwn_same, Option.bind_some]
      obtain ⟨b, q, hq⟩ : ∃ b q, p ++ r = b :: q := by
        obtain ⟨b, r, rfl⟩ := List.exists_cons_of_ne_nil hr
        cases p with
        | nil => exact ⟨b, r, rfl⟩
        | cons c p => exact ⟨c, p ++ b :: r, rfl⟩
      rw [hq]
      cases p with
      | nil => exact ⟨_, rfl⟩
      | cons c p =>
          refine ih (by simp) ?_ ?_ (o.next pre a)
          · exact ⟨r, hq⟩
          · rw [← hq]
            simpa using hr

section Reload

variable {ls : List (Str × Str)}

/-- The configuration that is printed. -/
def stamped (ls : List (Str × Str)) : Obj := step (ls.foldl step emptyCfg) versionEntry

/-- An object with a value is the version, or one that the prototypes have. -/
theorem valued_stamped (hfree : Apart ls) {p : List Seg} (hp : p ≠ []) {c : Obj}
    (hat : (stamped ls).at p = some (.obj c)) (hval : c.val ≠ []) :
    Ready (.name []) p emptyCfg ∨ p = versionPath := by
  rcases valued_origin hp hat hval with ⟨d, hd, hdval⟩ | ⟨rfl, -⟩
  · refine .inl (valued_foldl (fun e he e' he' hpre => ?_) hp hd hdval)
    rw [hfree e he e' he' hpre]
  · exact .inr rfl

/-- No section of the version has a value. -/
theorem not_ready_version {p : List Seg} (hpre : p <+: versionPath) :
    ¬Ready (.name []) p emptyCfg := by
  have hmem := (List.mem_inits p versionPath).mpr hpre
  have hall : ∀ q ∈ versionPath.inits, ¬Ready (.name []) q emptyCfg := by decide +kernel
  exact hall p hmem

theorem shown_not_isPrefix (hfree : Apart ls) {p : List Seg} (hp : p ≠ []) {v : Str}
    (h : Shown (stamped ls) p v) (hpre : p <+: versionPath) : p = versionPath := by
  by_contra hne
  obtain ⟨c, hc⟩ := @obj_of_isPrefix (.name []) p versionPath versionEntry.2 hp hpre hne
    (ls.foldl step emptyCfg)
  rcases h with hat | ⟨d, hat, hval, hv⟩
  · cases hat.symm.trans hc
  · rcases valued_stamped hfree hp hat (hval ▸ hv) with hready | heq
    · exact not_ready_version hpre hready
    · exact hne heq

/-- Loading the printed lines gives the configuration back. -/
theorem reload_printed (hfree : Apart ls) (htidy : TidyObj (stamped ls))
    (hver : ∀ e ∈ ls, path e.1 <+: versionPath → path e.1 = versionPath)
    (hkey : ∀ e ∈ ls, keyOf (path e.1) = e.1)
    (hshown : ∀ e ∈ ls, path e.1 ≠ versionPath → Shown (stamped ls) (path e.1) e.2) :
    step ((shownEntries (stamped ls)).foldl step emptyCfg) versionEntry = stamped ls := by
  have hentry {e : Str × Str} (he : e ∈ shownEntries (stamped ls)) := shown_of_mem htidy he
  have hback : ∀ e ∈ shownEntries (stamped ls), path e.1 <+: versionPath → path e.1 = versionPath := by
    intro e he hpre
    exact shown_not_isPrefix hfree (path_ne_nil _) (hentry he).2.2 hpre
  -- without the version the printed lines commute
  have hmem : ∀ e ∈ (shownEntries (stamped ls)).filter (fun e => path e.1 ≠ versionPath),
      e ∈ shownEntries (stamped ls) ∧ path e.1 ≠ versionPath := by
    intro e he
    simpa using List.mem_filter.mp he
  have hcommuting := @commuting_step ((shownEntries (stamped ls)).filter
    fun e => path e.1 ≠ versionPath) fun e he e' he' hne hpath => by
      obtain ⟨-, hk, hs⟩ := hentry (hmem e he).1
      obtain ⟨-, hk', hs'⟩ := hentry (hmem e' he').1
      rw [← hpath] at hk' hs'
      exact hne (Prod.ext (hk.symm.trans hk') (hs.unique hs'))
  have hstart : ∀ e ∈ (shownEntries (stamped ls)).filter (fun e => path e.1 ≠ versionPath),
      ∀ e' ∈ (shownEntries (stamped ls)).filter (fun e => path e.1 ≠ versionPath), e.2 ≠ [] →
        path e.1 <+: path e'.1 → path e.1 ≠ path e'.1 → Ready (.name []) (path e.1) emptyCfg := by
    intro e he e' he' hv hpre hne
    obtain ⟨-, -, hs⟩ := hentry (hmem e he).1
    obtain ⟨-, -, hs'⟩ := hentry (hmem e' he').1
    rcases hs with hat | ⟨c, hat, hval, -⟩
    · -- a string has nothing below it
      obtain ⟨c, hc⟩ := @obj_of_isPrefix (.name []) (path e.1) (path e'.1) e'.2 (path_ne_nil e.1)
        hpre hne (stamped ls)
      rw [hs'.assignOwn_self] at hc
      cases hat.symm.trans hc
    · rcases valued_stamped hfree (path_ne_nil _) hat (hval ▸ hv) with hready | heq
      · exact hready
      · exact absurd heq (hmem e he).2
  -- the lines of the text are among them
  have hsub : ls.filter (fun e => path e.1 ≠ versionPath) ⊆
      (shownEntries (stamped ls)).filter fun e => path e.1 ≠ versionPath := by
    intro e he
    obtain ⟨hls, hne⟩ : e ∈ ls ∧ path e.1 ≠ versionPath := by simpa using List.mem_filter.mp he
    refine List.mem_filter.mpr ⟨?_, by simpa using hne⟩
    exact (mem_shownEntries htidy).mpr ⟨path e.1, path_ne_nil _, hkey e hls, hshown e hls hne⟩
  have hfilter : ∀ e ∈ (shownEntries (stamped ls)).filter (fun e => path e.1 ≠ versionPath),
      path e.1 <+: versionPath → path e.1 = versionPath := by
    intro e he
    exact hback e (hmem e he).1
  calc step ((shownEntries (stamped ls)).foldl step emptyCfg) versionEntry
      = step (((shownEntries (stamped ls)).filter fun e => path e.1 ≠ versionPath).foldl step
          emptyCfg) versionEntry := stamp_filter hback emptyCfg
    _ = step (((shownEntries (stamped ls)).filter fun e => path e.1 ≠ versionPath).foldl step
          ((ls.filter fun e => path e.1 ≠ versionPath).foldl step emptyCfg)) versionEntry := by
        rw [hcommuting.foldl_absorb_all (fun a ha => ha) hsub hstart]
    _ = step (((shownEntries (stamped ls)).filter fun e => path e.1 ≠ versionPath).foldl step
          (stamped ls)) versionEntry := by
        have hstamp : assignOwn (.name []) versionPath versionEntry.2
            ((ls.filter fun e => path e.1 ≠ versionPath).foldl step emptyCfg) = stamped ls :=
          (stamp_filter hver emptyCfg).symm
        rw [← stamp_absorbs hfilter _ versionEntry.2, hstamp]
    _ = step (stamped ls) versionEntry := by
        rw [foldl_shown fun e he => (hentry (hmem e he).1).2.2]
    _ = stamped ls := assignOwn_same _ _ _

end Reload

/-! ## The round trip -/

/-- The object has no hook. -/
def NoHook (kind : Kind) (_ : Seg) : Prop := kind = .plain ∨ kind = .except

instance (kind : Kind) (a : Seg) : Decidable (NoHook kind a) := inferInstanceAs (Decidable (_ ∨ _))

/-- A text whose keys are paths of names and numbers, none a section of another
and none in a section with a hook. -/
structure TextForm (text : Str) : Prop where
  names : ∀ e ∈ entries text, ∀ s ∈ e.1.splitOn '.', s ≠ [] ∧ s ∉ reserved.map String.toList ∧ Canonical s
  sections : ∀ e ∈ entries text, ∀ e' ∈ entries text, ¬(e.1 ++ ['.']) <+: e'.1
  unhooked : ∀ e ∈ entries text, Along NoHook (.name []) (path e.1) emptyCfg

/-- A text that can be stored without loss: left out is what `toCfg` cannot
keep, which is exceptions of `dmz` objects, numbers that are no index of an
array, an empty value of an object, and the version, which `toCfg` sets itself. -/
structure TextOk (text : Str) : Prop extends TextForm text where
  own : ∀ e ∈ entries text, Along Own (.name []) (path e.1) emptyCfg
  small : ∀ e ∈ entries text, ∀ a ∈ path e.1, a.visible = true
  valued : ∀ e ∈ lasts (entries text), Ready (.name []) (path e.1) emptyCfg → e.2 ≠ []
  version : ∀ e ∈ lasts (entries text), e.1 ≠ "system".toList ∧ e.1 ≠ "system.cfg".toList ∧
    (e.1 = "system.cfg.version".toList → e.2 = Nat.toDigits 10 mkVersion)

/-- The list of exceptions after texts were parsed. -/
def parsedBefore (h : Hooks) : List Str → Props → Option Props
  | [], excepts => some excepts
  | text :: texts, excepts => do
      let (_, excepts) ← parse h text excepts
      parsedBefore h texts excepts

/-- What a text prints, and what that prints. -/
def roundTrip (h : Hooks) (text : Str) (excepts : Props) : Option (List Str × List Str) := do
  let (cfg, excepts) ← parse h text excepts
  let (out, _, excepts) ← toCfg h cfg excepts
  let (cfg, excepts) ← parse h (joinLines out) excepts
  let (again, _, _) ← toCfg h cfg excepts
  return (out, again)

/-- After the texts `before`, every line of the text is printed, and printing
what was printed gives the same set of lines. -/
def RoundTrips (h : Hooks) (before : List Str) (text : Str) : Prop :=
  ∃ excepts out again, parsedBefore h before .nil = some excepts ∧
    roundTrip h text excepts = some (out, again) ∧
    (∀ e ∈ lasts (entries text), lineOf e ∈ out) ∧ ∀ line, line ∈ out ↔ line ∈ again

theorem along_and {P Q R : Kind → Seg → Prop} (hR : ∀ k a, P k a → Q k a → R k a) {pre : Seg}
    {p : List Seg} {o : Obj} (hP : Along P pre p o) (hQ : Along Q pre p o) : Along R pre p o := by
  induction p generalizing pre o with
  | nil => trivial
  | cons a p ih => exact ⟨hR _ _ hP.1 hQ.1, ih hP.2 hQ.2⟩

theorem plainWay_of_own {kind : Kind} {a : Seg} (hhook : NoHook kind a) (hown : Own kind a) :
    PlainWay kind a := by
  rcases hhook with rfl | rfl
  · trivial
  · cases a with
    | name s => trivial
    | idx n => cases hown

/-- A line that can be loaded and read back. -/
def EntryOk (e : Str × Str) : Prop :=
  PathOk (path e.1) ∧ OneLine e.2 ∧ Along PlainWay (.name []) (path e.1) emptyCfg

theorem tidy_foldl {l : List (Str × Str)} (hl : ∀ e ∈ l, EntryOk e) :
    TidyObj (l.foldl step emptyCfg) := by
  induction l using List.reverseRecOn with
  | nil => exact ⟨trivial, trivial⟩
  | append_singleton l e ih =>
      obtain ⟨hpath, hline, hway⟩ := hl e (by simp)
      rw [List.foldl_append, List.foldl_cons, List.foldl_nil]
      refine (ih fun x hx => hl x (List.mem_append_left _ hx)).assignOwn hpath hline ?_
      exact (along_foldl PlainWay (path e.1) l emptyCfg).mpr hway

theorem versionEntry_ok : EntryOk versionEntry := by
  have hpath : path versionEntry.1 =
      [.name "system".toList, .name "cfg".toList, .name "version".toList] := by decide +kernel
  refine ⟨?_, by decide +kernel, ?_⟩
  · rw [hpath]
    exact ⟨by decide +kernel, by decide +kernel, _, rfl, by decide +kernel⟩
  · refine along_and (P := NoHook) (Q := Own) (fun k a => plainWay_of_own) ?_ ?_
    · decide +kernel
    · decide +kernel

theorem tidy_stamped {l : List (Str × Str)} (hl : ∀ e ∈ l, EntryOk e) : TidyObj (stamped l) := by
  have happend := @tidy_foldl (l ++ [versionEntry]) fun e he => by
    rcases List.mem_append.mp he with hmem | hmem
    · exact hl e hmem
    · rw [List.mem_singleton.mp hmem]
      exact versionEntry_ok
  rwa [List.foldl_append] at happend

theorem parse_ok (h : Hooks) {text : Str} (hes : ∀ e ∈ entries text, EntryOk e) :
    parse h text .nil = some ((entries text).foldl step emptyCfg, .nil) := by
  rw [parse_eq h rfl fun e he => (hes e he).2.2.mono fun k a => PlainWay.own,
    initObj_of_tidy h (tidy_foldl hes)]

/-- `toCfg` prints what is shown. -/
theorem toCfg_ok (h : Hooks) {l : List (Str × Str)} (hl : ∀ e ∈ l, EntryOk e) :
    toCfg h (l.foldl step emptyCfg) .nil =
      some ((shownEntries (stamped l)).map lineOf, stamped l, .nil) := by
  have hown : Along Own (.name []) (path "system.cfg.version".toList) (l.foldl step emptyCfg) :=
    (along_foldl Own _ l emptyCfg).mpr (versionEntry_ok.2.2.mono fun k a => PlainWay.own)
  rw [toCfg, set_eq hown]
  change Option.bind (objToString h _ [] (stamped l).kids) _ = _
  have hlines := @objToString_eq h (fun key => objToString h (fun _ => none) key .nil)
    (fun key => rfl) [] (stamped l).kids (tidy_stamped hl).2
  rw [hlines, shownEntries, List.map_map]
  rfl

section Text

variable {text : Str} (h : TextOk text)
include h

theorem TextOk.apart : Apart (entries text) := by
  intro e he e' he' hpre
  by_contra hne
  have hcanon {x : Str × Str} (hx : x ∈ entries text) : ∀ s ∈ x.1.splitOn '.', Canonical s :=
    fun s hs => (h.names x hx s hs).2.2
  refine h.sections e he e' he' (key_of_path_isPrefix (hcanon he) (hcanon he') hpre fun hpath => ?_)
  exact hne (path_inj (hcanon he) (hcanon he') hpath)

theorem TextOk.entryOk : ∀ e ∈ entries text, EntryOk e := by
  intro e he
  obtain ⟨hkey, hline⟩ := mem_entries he
  have hkeyLine : OneLine e.1 := by
    simp only [OneLine, lineOf, List.mem_append, not_or] at hline
    exact ⟨hline.1.1, hline.2.1⟩
  have hvalue : OneLine e.2 := by
    simp only [OneLine, lineOf, List.mem_append, List.mem_cons, not_or] at hline
    exact ⟨hline.1.2.2, hline.2.2.2⟩
  refine ⟨pathOk_pathOf (List.splitOn_ne_nil _ _) (fun s hs => ?_) fun n hn => ?_, hvalue,
    along_and (fun k a => plainWay_of_own) (h.unhooked e he) (h.own e he)⟩
  · obtain ⟨hne, -, hcanon⟩ := h.names e he s hs
    exact ⟨nameOk_of_key hkey hkeyLine hs hne, hcanon⟩
  · have hvisible := h.small e he (.idx n) hn
    simp only [Seg.visible, Bool.and_eq_true, decide_eq_true_eq] at hvisible
    exact hvisible.2

theorem TextOk.lastOk : ∀ e ∈ lasts (entries text), EntryOk e :=
  fun e he => h.entryOk e (mem_of_mem_lasts he)

theorem TextOk.lasts_apart : Apart (lasts (entries text)) :=
  fun e he e' he' => h.apart e (mem_of_mem_lasts he) e' (mem_of_mem_lasts he')

theorem TextOk.keyOf_path : ∀ e ∈ lasts (entries text), keyOf (path e.1) = e.1 :=
  fun e he => Web.keyOf_path fun s hs => (h.names e (mem_of_mem_lasts he) s hs).2.2

theorem TextOk.linesOk : LinesOk (lasts (entries text)) where
  distinct := lasts_distinct _
  key := fun _ he => (mem_entries (mem_of_mem_lasts he)).1
  line := fun _ he => (mem_entries (mem_of_mem_lasts he)).2
  names := fun e he s hs => (h.names e (mem_of_mem_lasts he) s hs).2.1
  canonical := fun e he s hs => (h.names e (mem_of_mem_lasts he) s hs).2.2
  own := fun e he => h.own e (mem_of_mem_lasts he)

/-- A line at a section of the version is the version. -/
theorem TextOk.at_version {e : Str × Str} (he : e ∈ lasts (entries text))
    (hpre : path e.1 <+: versionPath) : path e.1 = versionPath := by
  obtain ⟨hsystem, hcfg, -⟩ := h.version e he
  have hall : ∀ q ∈ versionPath.inits, q = [] ∨ keyOf q = "system".toList ∨
      keyOf q = "system.cfg".toList ∨ q = versionPath := by decide +kernel
  rcases hall _ ((List.mem_inits _ _).mpr hpre) with hnil | hkey | hkey | heq
  · exact absurd hnil (path_ne_nil _)
  · exact absurd ((h.keyOf_path e he).symm.trans hkey) hsystem
  · exact absurd ((h.keyOf_path e he).symm.trans hkey) hcfg
  · exact heq

/-- Every line is shown. -/
theorem TextOk.shown {e : Str × Str} (he : e ∈ lasts (entries text)) :
    Shown (stamped (lasts (entries text))) (path e.1) e.2 := by
  by_cases hver : path e.1 = versionPath
  · have hkey : e.1 = "system.cfg.version".toList := by
      have hversion : keyOf versionPath = "system.cfg.version".toList := by decide +kernel
      rw [← h.keyOf_path e he, hver, hversion]
    rw [hver, (h.version e he).2.2 hkey]
    exact shown_assignOwn _ (path_ne_nil _) fun _ => by decide +kernel
  · have hclash : NoClash (lasts (entries text)) := by
      intro x hx y hy _ hpre hne
      exact absurd (congrArg path (h.lasts_apart x hx y hy hpre)) hne
    refine (NoClash.shown h.linesOk hclash he fun hready => ?_).assignOwn _ fun hpre =>
      hver (h.at_version he hpre)
    rcases ready_foldl hready with hready | ⟨x, hx, hpre, hne⟩
    · exact h.valued e he hready
    · exact absurd (congrArg path (h.lasts_apart e he x hx hpre)) hne

/-- What is printed prints itself. -/
theorem TextOk.restored (hooks : Hooks) :
    Web.roundTrip hooks text .nil =
      some ((shownEntries (stamped (lasts (entries text)))).map lineOf,
        (shownEntries (stamped (lasts (entries text)))).map lineOf) := by
  have hparse := parse_ok hooks h.entryOk
  rw [foldl_lasts h.apart] at hparse
  have hprint := toCfg_ok hooks h.lastOk
  have htidy := tidy_stamped h.lastOk
  have hentries : entries (joinLines ((shownEntries (stamped (lasts (entries text)))).map lineOf)) =
      shownEntries (stamped (lasts (entries text))) := by
    refine entries_join (fun e he => ?_) fun e he => ?_
    · obtain ⟨hpath, hkey, -⟩ := shown_of_mem htidy he
      rw [← hkey]
      exact hpath.key.1
    · obtain ⟨hpath, hkey, hshown⟩ := shown_of_mem htidy he
      have hline := (hshown.pathOk htidy (path_ne_nil _) (.name [])).2.1
      have hkeyLine := hpath.key.2
      rw [hkey] at hkeyLine
      exact ⟨by simp [lineOf, hkeyLine.1, hline.1], by simp [lineOf, hkeyLine.2, hline.2]⟩
  have hok : ∀ e ∈ shownEntries (stamped (lasts (entries text))), EntryOk e := by
    intro e he
    obtain ⟨hpath, -, hshown⟩ := shown_of_mem htidy he
    obtain ⟨-, hline, hway⟩ := hshown.pathOk htidy (path_ne_nil _) (.name [])
    refine ⟨hpath, hline, ?_⟩
    rw [stamped, step, along_assignOwn] at hway
    exact (along_foldl PlainWay _ _ _).mp hway
  have hagain := @parse_ok hooks (joinLines ((shownEntries (stamped (lasts (entries text)))).map lineOf))
    (by rw [hentries]; exact hok)
  rw [hentries] at hagain
  have hreload : stamped (shownEntries (stamped (lasts (entries text)))) =
      stamped (lasts (entries text)) :=
    reload_printed h.lasts_apart htidy (fun e he => h.at_version he) h.keyOf_path fun e he _ => h.shown he
  have hlast := toCfg_ok hooks hok
  rw [hreload] at hlast
  rw [Web.roundTrip, hparse]
  change Option.bind (toCfg hooks _ .nil) _ = _
  rw [hprint]
  change Option.bind (parse hooks _ .nil) _ = _
  rw [hagain]
  change Option.bind (toCfg hooks _ .nil) _ = _
  rw [hlast]
  rfl

end Text

theorem parsedBefore_nil (h : Hooks) {before : List Str} (hbefore : ∀ text ∈ before, TextOk text) :
    parsedBefore h before .nil = some .nil := by
  induction before with
  | nil => rfl
  | cons text before ih =>
      have htext := hbefore text (List.mem_cons_self ..)
      rw [parsedBefore, parse_ok h htext.entryOk]
      exact ih fun x hx => hbefore x (List.mem_cons_of_mem _ hx)

/-- Texts that are parsed one after the other are stored without loss. -/
theorem roundTrips_of_textOk (h : Hooks) (before : List Str) (text : Str)
    (hbefore : ∀ t ∈ before, TextOk t) (htext : TextOk text) : RoundTrips h before text := by
  refine ⟨.nil, _, _, parsedBefore_nil h hbefore, htext.restored h, fun e he => ?_,
    fun line => Iff.rfl⟩
  refine List.mem_map.mpr ⟨e, ?_, rfl⟩
  exact (mem_shownEntries (tidy_stamped htext.lastOk)).mpr
    ⟨path e.1, path_ne_nil _, htext.keyOf_path e he, htext.shown he⟩

/-- Texts with numbered objects, values with `=`, an empty value, and a key that is repeated. -/
def storedTexts : List Str :=
  ["a.1.b=x\ra.1.b=y\na.2.b=z=1\nno line",
    "bridge.1.devname=br0\nbridge.1.port.1.devname=eth0\ndmz.1.devname=eth0\n" ++
      "dmz.2.devname=ath0\nusers.1.name=\ngui.language=en_US"].map String.toList

theorem roundTrips_storedTexts : (∀ text ∈ storedTexts, TextOk text) ∧
    RoundTrips keepAll storedTexts (storedTexts.getLast (by decide)) := by
  have hok : ∀ text ∈ storedTexts, TextOk text := by
    intro text htext
    -- The texts are characters before they are evaluated.
    refine ⟨⟨?_, ?_, ?_⟩, ?_, ?_, ?_, ?_⟩ <;> revert text <;>
      simp only [storedTexts, reserved, List.map_cons, List.map_nil, String.toList_append,
        String.reduceToList] <;>
      decide +kernel
  exact ⟨hok, roundTrips_of_textOk keepAll storedTexts _ hok (hok _ (List.getLast_mem _))⟩

/-- A line that is not printed. -/
theorem not_roundTrips {h : Hooks} {text : Str} {e : Str × Str} (he : e ∈ lasts (entries text))
    (hout : (roundTrip h text .nil).map (fun r => decide (lineOf e ∈ r.1)) = some false) :
    ¬RoundTrips h [] text := by
  rintro ⟨excepts, out, again, hbefore, hround, hlines, -⟩
  cases hbefore
  rw [hround] at hout
  simp only [Option.map_some, Option.some.injEq, decide_eq_false_iff_not] at hout
  exact hout (hlines e he)

/-- The version is replaced, and the exceptions of one `dmz` object are those of every other. -/
theorem roundTrips_fails :
    (TextForm "system.cfg.version=1".toList ∧ ¬RoundTrips keepAll [] "system.cfg.version=1".toList) ∧
      TextForm "dmz.1.except.1.port=80\ndmz.2.except.1.port=443".toList ∧
        ¬RoundTrips keepAll [] "dmz.1.except.1.port=80\ndmz.2.except.1.port=443".toList := by
  simp only [String.reduceToList]
  refine ⟨⟨⟨?_, ?_, ?_⟩, ?_⟩, ⟨?_, ?_, ?_⟩, ?_⟩
  · simp only [reserved, List.map_cons, List.map_nil, String.reduceToList]
    decide +kernel
  · decide +kernel
  · decide +kernel
  · refine @not_roundTrips _ _ ("system.cfg.version".toList, "1".toList) ?_ ?_ <;>
      simp only [String.reduceToList] <;> decide +kernel
  · simp only [reserved, List.map_cons, List.map_nil, String.reduceToList]
    decide +kernel
  · decide +kernel
  · decide +kernel
  · refine @not_roundTrips _ _ ("dmz.1.except.1.port".toList, "80".toList) ?_ ?_ <;>
      simp only [String.reduceToList] <;> decide +kernel

end UbntSdk.Web
