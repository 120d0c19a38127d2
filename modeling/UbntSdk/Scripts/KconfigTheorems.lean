/-
UbntSdk.Scripts.KconfigTheorems — the laws of the kernel configurations.

A hash is what its `lookup` says. The operators are operations on partial functions
(`values_configAnd` and the like), and an expression has a value in these
(`Expr.value`), which the parser arrives at for the arguments of every expression
(`kconfig_args`). So the laws are about partial functions, for all nestings.
-/
import Mathlib.Data.List.Infix
import UbntSdk.Scripts.Kconfig
import UbntSdk.Scripts.MetadataTheorems

namespace UbntSdk.Scripts

theorem lookup_filter_ne {α : Type} {k x : Str} (hx : x ≠ k) (h : List (Str × α)) :
    (h.filter (·.1 ≠ k)).lookup x = h.lookup x := by
  induction h with
  | nil => rfl
  | cons e h ih =>
      obtain ⟨k', v⟩ := e
      by_cases hk : k' = k
      · subst hk
        rw [List.filter_cons_of_neg (by simp), ih, List.lookup_cons, beq_eq_false_iff_ne.mpr hx]
      · rw [List.filter_cons_of_pos (by simpa using hk), List.lookup_cons, List.lookup_cons, ih]

theorem lookup_put {α : Type} (h : List (Str × α)) (k x : Str) (v : α) :
    (put h k v).lookup x = if x = k then some v else h.lookup x := by
  by_cases hx : x = k
  · subst hx
    rw [put, List.lookup_cons, beq_self_eq_true, if_pos rfl]
  · rw [put, List.lookup_cons, beq_eq_false_iff_ne.mpr hx, if_neg hx]
    exact lookup_filter_ne hx h

theorem lookup_eq_none {α : Type} {h : List (Str × α)} {k : Str} :
    h.lookup k = none ↔ k ∉ h.map Prod.fst := by
  rw [List.lookup_eq_none_iff, List.mem_map, not_exists]
  refine forall_congr' fun e => ?_
  rw [bne_iff_ne, ne_eq, not_and]
  exact imp_congr_right fun _ => not_congr eq_comm

namespace Kconfig

/-! ## Hashes -/

theorem mem_keys {config : Config} {k : Str} : k ∈ keys config ↔ config.lookup k ≠ none := by
  rw [keys, List.mem_dedup, ne_eq, lookup_eq_none, not_not]

theorem nodup_keys (config : Config) : (keys config).Nodup := List.nodup_dedup _

/-- A step of an operator changes the value of its own key only. -/
theorem lookup_keyStep (f : Str → Option Str → Option Str) (config : Config) (k x : Str) :
    (keyStep f config k).lookup x =
      if x = k then (f k (config.lookup k)).or (config.lookup k) else config.lookup x := by
  unfold keyStep
  cases f k (config.lookup k) with
  | none =>
      by_cases hx : x = k
      · rw [if_pos hx, hx, Option.none_or]
      · rw [if_neg hx]
  | some v => exact lookup_put config k x v

/-- A loop over keys changes each option once. -/
theorem lookup_forKeys (f : Str → Option Str → Option Str) {ks : List Str} (hks : ks.Nodup)
    (config : Config) (x : Str) : (forKeys f ks config).lookup x =
      if x ∈ ks then (f x (config.lookup x)).or (config.lookup x) else config.lookup x := by
  induction ks generalizing config with
  | nil => rfl
  | cons k ks ih =>
      obtain ⟨hk, hks⟩ := List.nodup_cons.mp hks
      rw [forKeys, List.foldl_cons, ← forKeys, ih hks]
      by_cases hx : x = k
      · subst hx
        rw [if_neg hk, lookup_keyStep, if_pos rfl, if_pos List.mem_cons_self]
      · rw [lookup_keyStep, if_neg hx]
        simp only [List.mem_cons, hx, false_or]

/-! ## Operators -/

/-- What a hash says of the options. -/
abbrev Values := Str → Option Str

def values (config : Config) : Values := fun x => config.lookup x

namespace Values

variable (f g : Values)

def and : Values := fun x => if f x = g x then (f x).filter truthy else none

def add : Values := fun x => (g x).or (f x)

def addPlus : Values := fun x => if f x = some ['y'] then some ['y'] else (g x).or (f x)

def diff (newOnly : Bool) : Values := fun x =>
  if f x = g x ∨ (newOnly = true ∧ f x = none ∧ g x = some undef) then none else g x

def sub : Values := fun x => if g x = none then f x else none

end Values

/-- `&` keeps the values that both files have, as long as Perl takes them for true. -/
theorem values_configAnd (cfg1 cfg2 : Config) :
    values (configAnd cfg1 cfg2) = Values.and (values cfg1) (values cfg2) := by
  funext x
  rw [values, configAnd, lookup_forKeys _ (nodup_keys cfg1), Values.and, values, values]
  cases h1 : cfg1.lookup x with
  | none => simp [mem_keys, h1]
  | some val1 =>
      cases h2 : cfg2.lookup x with
      | none => simp [mem_keys, h1]
      | some val2 =>
          by_cases heq : val1 = val2
          · subst heq
            simp [mem_keys, h1, Option.filter]
          · simp [mem_keys, h1, heq]

theorem lookup_addTo (modPlus : Bool) (config cfg : Config) (x : Str) :
    (addTo modPlus config cfg).lookup x =
      if modPlus = true ∧ config.lookup x = some ['y'] then some ['y']
      else (cfg.lookup x).or (config.lookup x) := by
  rw [addTo, lookup_forKeys _ (nodup_keys cfg)]
  by_cases hy : modPlus = true ∧ config.lookup x = some ['y']
  · simp [hy]
  · simp only [hy, if_false]
    cases hcfg : cfg.lookup x with
    | none => simp [mem_keys, hcfg]
    | some v => simp [mem_keys, hcfg]

/-- `+` prefers the second file. -/
theorem values_configAdd (cfg1 cfg2 : Config) :
    values (configAdd cfg1 cfg2 false) = Values.add (values cfg1) (values cfg2) := by
  funext x
  simp [values, configAdd, lookup_addTo, Values.add]

theorem values_configAddPlus (cfg1 cfg2 : Config) :
    values (configAdd cfg1 cfg2 true) = Values.addPlus (values cfg1) (values cfg2) := by
  funext x
  by_cases hy : cfg1.lookup x = some ['y']
  · simp [values, configAdd, lookup_addTo, Values.addPlus, hy]
  · simp [values, configAdd, lookup_addTo, Values.addPlus, hy]

theorem values_configDiff (cfg1 cfg2 : Config) (newOnly : Bool) :
    values (configDiff cfg1 cfg2 newOnly) = Values.diff (values cfg1) (values cfg2) newOnly := by
  funext x
  rw [values, configDiff, lookup_forKeys _ (nodup_keys cfg2), Values.diff, values, values]
  cases h2 : cfg2.lookup x with
  | none => simp [mem_keys, h2]
  | some val2 =>
      cases h1 : cfg1.lookup x with
      | none => cases newOnly <;> simp [mem_keys, h2]
      | some val1 => simp [mem_keys, h2, eq_comm]

theorem values_configSub (cfg1 cfg2 : Config) :
    values (configSub cfg1 cfg2) = Values.sub (values cfg1) (values cfg2) := by
  have hdelete : ∀ (x : Str) (ks : List Str) (config : Config),
      (ks.foldl (fun config k => config.filter (·.1 ≠ k)) config).lookup x =
        if x ∈ ks then none else config.lookup x := by
    intro x ks
    induction ks with
    | nil => exact fun config => rfl
    | cons k ks ih =>
        intro config
        rw [List.foldl_cons, ih]
        by_cases hx : x = k
        · subst hx
          have hgone : (config.filter (·.1 ≠ x)).lookup x = none := by
            rw [lookup_eq_none]
            simp
          rw [hgone, if_pos List.mem_cons_self, ite_self]
        · rw [lookup_filter_ne hx]
          simp [hx]
  funext x
  rw [values, configSub, hdelete, Values.sub, values, values]
  by_cases h2 : cfg2.lookup x = none
  · simp [mem_keys, h2]
  · simp [mem_keys, h2]

/-! ## Files -/

/-- The settings of a file. -/
def settings (lines : List Str) : Config := lines.filterMap parseLine

/-- Every option occurs at most once. -/
def Once (lines : List Str) : Prop := ((settings lines).map Prod.fst).Nodup

instance (lines : List Str) : Decidable (Once lines) :=
  inferInstanceAs (Decidable ((settings lines).map Prod.fst).Nodup)

/-- No option has the literal value `#undef`. -/
def NoUndef (lines : List Str) : Prop := ∀ line ∈ lines, ∀ e ∈ parseValue line, e.2 ≠ undef

instance (lines : List Str) : Decidable (NoUndef lines) :=
  inferInstanceAs (Decidable (∀ line ∈ lines, ∀ e ∈ parseValue line, e.2 ≠ undef))

theorem loadConfig_eq (lines : List Str) (modPlus : Bool) : loadConfig lines modPlus =
    (settings lines).foldl (fun config e => setConfig config e.1 e.2 modPlus) [] := by
  have hfold : ∀ config, lines.foldl (loadLine modPlus) config =
      (settings lines).foldl (fun config e => setConfig config e.1 e.2 modPlus) config := by
    induction lines with
    | nil => exact fun config => rfl
    | cons line lines ih =>
        intro config
        rw [List.foldl_cons, ih, settings, settings, loadLine]
        cases h : parseLine line with
        | none => rw [List.filterMap_cons_none h]
        | some e => rw [List.filterMap_cons_some h, List.foldl_cons]
  exact hfold []

/-- Where every option occurs once it has the value of its line. -/
theorem lookup_loadConfig {lines : List Str} (h : Once lines) (modPlus : Bool) (x : Str) :
    (loadConfig lines modPlus).lookup x = (settings lines).lookup x := by
  have hfold : ∀ (es : Config) (config : Config), (es.map Prod.fst).Nodup →
      (∀ e ∈ es, config.lookup e.1 = none) →
      (es.foldl (fun config e => setConfig config e.1 e.2 modPlus) config).lookup x =
        (es.lookup x).or (config.lookup x) := by
    intro es
    induction es with
    | nil => exact fun config _ _ => rfl
    | cons e es ih =>
        intro config hnd hnew
        obtain ⟨he, hnd⟩ := List.nodup_cons.mp hnd
        have hset : setConfig config e.1 e.2 modPlus = put config e.1 e.2 := by
          rw [setConfig, hnew e List.mem_cons_self]
        have hnew' : ∀ e' ∈ es, (put config e.1 e.2).lookup e'.1 = none := by
          intro e' he'
          have hne : e'.1 ≠ e.1 := fun heq => he (heq ▸ List.mem_map_of_mem he')
          rw [lookup_put, if_neg hne]
          exact hnew e' (List.mem_cons_of_mem _ he')
        rw [List.foldl_cons, hset, ih _ hnd hnew', lookup_put]
        obtain ⟨k, v⟩ := e
        by_cases hx : x = k
        · subst hx
          have hes : es.lookup x = none := lookup_eq_none.mpr he
          simp [hes]
        · rw [if_neg hx, List.lookup_cons, beq_eq_false_iff_ne.mpr hx]
  rw [loadConfig_eq, hfold _ _ h fun e _ => rfl]
  simp

/-! ## Expressions -/

/-- An expression over files. -/
inductive Expr where
  | file (name : Str)
  | and (e₁ e₂ : Expr)
  | add (e₁ e₂ : Expr)
  | addPlus (e₁ e₂ : Expr)
  | diff (newOnly : Bool) (e₁ e₂ : Expr)
  | sub (e₁ e₂ : Expr)

namespace Expr

/-- The arguments of the program. -/
def args : Expr → List Str
  | file name => [name]
  | and e₁ e₂ => ['&'] :: (e₁.args ++ e₂.args)
  | add e₁ e₂ => ['+'] :: (e₁.args ++ e₂.args)
  | addPlus e₁ e₂ => ['m', '+'] :: (e₁.args ++ e₂.args)
  | diff newOnly e₁ e₂ => (if newOnly then ['>', '+'] else ['>']) :: (e₁.args ++ e₂.args)
  | sub e₁ e₂ => ['-'] :: (e₁.args ++ e₂.args)

variable (files : Str → Option (List Str))

/-- What an expression says of the options. -/
def value : Expr → Values
  | file name => values (loadConfig ((files name).getD []) false)
  | and e₁ e₂ => (e₁.value).and e₂.value
  | add e₁ e₂ => (e₁.value).add e₂.value
  | addPlus e₁ e₂ => (e₁.value).addPlus e₂.value
  | diff newOnly e₁ e₂ => (e₁.value).diff e₂.value newOnly
  | sub e₁ e₂ => (e₁.value).sub e₂.value

/-- A name that the parser takes for a file. -/
def IsFileName (name : Str) : Prop :=
  truthy name ∧ name ≠ ['&'] ∧ ¬['+'].isPrefixOf name ∧ ¬['m', '+'].isPrefixOf name ∧
    name ≠ ['>'] ∧ name ≠ ['>', '+'] ∧ name ≠ ['-']

instance (name : Str) : Decidable (IsFileName name) := by
  unfold IsFileName
  infer_instance

/-- The files exist; one that is added with `m+` has every option at most once. -/
def Reads : Expr → Bool → Prop
  | file name, modPlus =>
      IsFileName name ∧ ∃ lines, files name = some lines ∧ (modPlus = true → Once lines)
  | addPlus e₁ e₂, _ => e₁.Reads false ∧ e₂.Reads true
  | and e₁ e₂, _ | add e₁ e₂, _ | diff _ e₁ e₂, _ | sub e₁ e₂, _ =>
      e₁.Reads false ∧ e₂.Reads false

/-- The names of the files. -/
def names : Expr → List Str
  | file name => [name]
  | and e₁ e₂ | add e₁ e₂ | addPlus e₁ e₂ | diff _ e₁ e₂ | sub e₁ e₂ => e₁.names ++ e₂.names

/-- The files exist, and every option occurs at most once in each. -/
def Ok (e : Expr) : Prop := ∀ name ∈ e.names,
  IsFileName name ∧ ∃ lines, files name = some lines ∧ Once lines ∧ NoUndef lines

end Expr

variable {files : Str → Option (List Str)}

theorem Expr.ok_file {name : Str} {lines : List Str} (hname : IsFileName name)
    (hfile : files name = some lines) (h : Once lines ∧ NoUndef lines) :
    (Expr.file name).Ok files :=
  List.forall_mem_singleton.mpr ⟨hname, lines, hfile, h⟩

theorem Expr.Ok.both {e₁ e₂ : Expr}
    (h : ∀ name ∈ e₁.names ++ e₂.names, Expr.IsFileName name ∧
      ∃ lines, files name = some lines ∧ Once lines ∧ NoUndef lines) :
    e₁.Ok files ∧ e₂.Ok files :=
  List.forall_mem_append.mp h

/-- Files that are well formed are read as partial functions, whatever is done with them. -/
theorem Expr.Ok.reads {e : Expr} (h : e.Ok files) (modPlus : Bool) : e.Reads files modPlus := by
  induction e generalizing modPlus with
  | file name =>
      obtain ⟨hname, lines, hfile, honce, -⟩ := h name List.mem_cons_self
      exact ⟨hname, lines, hfile, fun _ => honce⟩
  | and e₁ e₂ ih₁ ih₂ | add e₁ e₂ ih₁ ih₂ | diff newOnly e₁ e₂ ih₁ ih₂ | sub e₁ e₂ ih₁ ih₂ =>
      exact ⟨ih₁ (Ok.both h).1 false, ih₂ (Ok.both h).2 false⟩
  | addPlus e₁ e₂ ih₁ ih₂ => exact ⟨ih₁ (Ok.both h).1 false, ih₂ (Ok.both h).2 true⟩

/-- Two operands that are parsed one after the other. -/
theorem parse_two {n : Nat} {e₁ e₂ : Expr} {rest : List Str} {modPlus2 : Bool}
    {f : Config → Config → Config} {g : Values → Values → Values}
    (hop : ∀ c₁ c₂, values (f c₁ c₂) = g (values c₁) (values c₂))
    (h₁ : ∃ c, parseExpr files n (e₁.args ++ (e₂.args ++ rest)) false =
      some (c, e₂.args ++ rest) ∧ values c = e₁.value files)
    (h₂ : ∃ c, parseExpr files n (e₂.args ++ rest) modPlus2 = some (c, rest) ∧
      values c = e₂.value files) :
    ∃ c, (do
      let (arg1, args) ← parseExpr files n ((e₁.args ++ e₂.args) ++ rest) false
      let (arg2, args) ← parseExpr files n args modPlus2
      some (f arg1 arg2, args)) = some (c, rest) ∧
      values c = g (e₁.value files) (e₂.value files) := by
  obtain ⟨c₁, hc₁, hv₁⟩ := h₁
  obtain ⟨c₂, hc₂, hv₂⟩ := h₂
  refine ⟨f c₁ c₂, ?_, by rw [hop, hv₁, hv₂]⟩
  rw [List.append_assoc, hc₁]
  change (parseExpr files n (e₂.args ++ rest) modPlus2).bind _ = _
  rw [hc₂]
  rfl

theorem operands_le {n : Nat} {arg : Str} {a b : List Str}
    (h : (arg :: (a ++ b)).length ≤ n) : ∃ m, n = m + 1 ∧ a.length ≤ m ∧ b.length ≤ m := by
  rw [List.length_cons, List.length_append] at h
  exact ⟨n - 1, by omega, by omega, by omega⟩

/-- The parser comes to the value of an expression. -/
theorem parseExpr_args (e : Expr) : ∀ (n : Nat) (rest : List Str) (modPlus : Bool),
    e.Reads files modPlus → e.args.length ≤ n →
    ∃ c, parseExpr files n (e.args ++ rest) modPlus = some (c, rest) ∧
      values c = e.value files := by
  induction e with
  | file name =>
      intro n rest modPlus hok hn
      obtain ⟨⟨htrue, h1, h2, h3, h4, h5, h6⟩, lines, hfile, honce⟩ := hok
      cases n with
      | zero => cases hn
      | succ n =>
          refine ⟨loadConfig lines modPlus, ?_, ?_⟩
          · simp [Expr.args, parseExpr, htrue, h1, h2, h3, h4, h5, h6, hfile]
          · rw [Expr.value, hfile, Option.getD_some]
            cases modPlus with
            | false => rfl
            | true =>
                funext x
                rw [values, values, lookup_loadConfig (honce rfl), lookup_loadConfig (honce rfl)]
  | and e₁ e₂ ih₁ ih₂ =>
      intro n rest modPlus hok hn
      obtain ⟨m, rfl, h₁, h₂⟩ := operands_le hn
      exact parse_two values_configAnd (ih₁ m _ _ hok.1 h₁) (ih₂ m _ false hok.2 h₂)
  | add e₁ e₂ ih₁ ih₂ =>
      intro n rest modPlus hok hn
      obtain ⟨m, rfl, h₁, h₂⟩ := operands_le hn
      exact parse_two values_configAdd (ih₁ m _ _ hok.1 h₁) (ih₂ m _ false hok.2 h₂)
  | addPlus e₁ e₂ ih₁ ih₂ =>
      intro n rest modPlus hok hn
      obtain ⟨m, rfl, h₁, h₂⟩ := operands_le hn
      exact parse_two values_configAddPlus (ih₁ m _ _ hok.1 h₁) (ih₂ m _ true hok.2 h₂)
  | diff newOnly e₁ e₂ ih₁ ih₂ =>
      intro n rest modPlus hok hn
      obtain ⟨m, rfl, h₁, h₂⟩ := operands_le hn
      cases newOnly with
      | false =>
          exact parse_two (f := (configDiff · · false)) (g := (Values.diff · · false))
            (fun c₁ c₂ => values_configDiff c₁ c₂ false) (ih₁ m _ _ hok.1 h₁)
            (ih₂ m _ false hok.2 h₂)
      | true =>
          exact parse_two (f := (configDiff · · true)) (g := (Values.diff · · true))
            (fun c₁ c₂ => values_configDiff c₁ c₂ true) (ih₁ m _ _ hok.1 h₁)
            (ih₂ m _ false hok.2 h₂)
  | sub e₁ e₂ ih₁ ih₂ =>
      intro n rest modPlus hok hn
      obtain ⟨m, rfl, h₁, h₂⟩ := operands_le hn
      exact parse_two values_configSub (ih₁ m _ _ hok.1 h₁) (ih₂ m _ false hok.2 h₂)

/-- The program comes to the value of an expression. -/
theorem kconfig_args {e : Expr} (h : e.Reads files false) :
    ∃ c, kconfig files e.args = some c ∧ values c = e.value files := by
  obtain ⟨c, hc, hv⟩ := parseExpr_args e e.args.length [] false h (Nat.le_refl _)
  rw [List.append_nil] at hc
  refine ⟨c, ?_, hv⟩
  rw [kconfig, hc]
  rfl

/-! ## Lines -/

theorem splitAtSep_eq {sep s f r : Str} (h : splitAtSep sep s = some (f, r)) :
    s = f ++ (sep ++ r) := by
  induction s generalizing f with
  | nil =>
      rw [splitAtSep] at h
      split at h
      · rename_i hsep
        obtain ⟨rfl, rfl⟩ := Prod.mk.inj (Option.some.inj h)
        rw [hsep]
        rfl
      · cases h
  | cons c s ih =>
      rw [splitAtSep] at h
      split at h
      · rename_i hpre
        obtain ⟨rfl, rfl⟩ := Prod.mk.inj (Option.some.inj h)
        exact (List.prefix_iff_eq_append.mp (List.isPrefixOf_iff_prefix.mp hpre)).symm
      · obtain ⟨⟨f', r'⟩, hs, hfr⟩ := Option.map_eq_some_iff.mp h
        obtain ⟨rfl, rfl⟩ := Prod.mk.inj hfr
        rw [ih hs]
        rfl

theorem splitAtSep_self {sep : Str} : splitAtSep sep sep = some ([], []) := by
  cases sep with
  | nil => rfl
  | cons c sep => simp [splitAtSep]

/-- The text in front is found again when only the separator follows. -/
theorem splitAtSep_front {sep s f r : Str} (h : splitAtSep sep s = some (f, r)) :
    splitAtSep sep (f ++ sep) = some (f, []) := by
  induction f generalizing s with
  | nil => exact splitAtSep_self
  | cons c f ih =>
      have heq := splitAtSep_eq h
      subst heq
      rw [List.cons_append, splitAtSep] at h
      split at h
      · cases h
      · rename_i hpre
        obtain ⟨⟨f', r'⟩, hs, hfr⟩ := Option.map_eq_some_iff.mp h
        obtain ⟨hf, rfl⟩ := Prod.mk.inj hfr
        obtain rfl : f' = f := (List.cons.inj hf).2
        have hpre' : ¬sep.isPrefixOf (c :: (f' ++ sep)) = true := by
          intro hp
          refine hpre (List.isPrefixOf_iff_prefix.mpr ?_)
          refine (List.isPrefixOf_iff_prefix.mp hp).trans ⟨r', ?_⟩
          simp
        rw [List.cons_append, splitAtSep, if_neg hpre', ih hs]
        rfl

/-- No end of the separator begins it. -/
def Borderless (sep : Str) : Prop := ∀ k < sep.length, 0 < k → ¬(sep.drop k).isPrefixOf sep

/-- A text that does not contain the separator is found in front of it. -/
theorem splitAtSep_append {sep f : Str} (hsep : Borderless sep) (hf : ¬sep <:+: f) :
    splitAtSep sep (f ++ sep) = some (f, []) := by
  induction f with
  | nil => exact splitAtSep_self
  | cons c f ih =>
      have hpre : ¬sep.isPrefixOf (c :: (f ++ sep)) = true := by
        intro hp
        have hp : sep <+: (c :: f) ++ sep := List.isPrefixOf_iff_prefix.mp hp
        rcases List.prefix_or_prefix_of_prefix hp (List.prefix_append (c :: f) sep) with h | h
        · exact hf h.isInfix
        · obtain ⟨t, rfl⟩ := h
          have ht : t <+: (c :: f) ++ t := (List.prefix_append_right_inj _).mp hp
          rcases List.eq_nil_or_concat t with rfl | ⟨t', d, rfl⟩
          · exact hf (by simp)
          · refine hsep (c :: f).length (by simp) (by simp) ?_
            rw [List.drop_left]
            exact List.isPrefixOf_iff_prefix.mpr ht
      have hf' : ¬sep <:+: f := fun h => hf (h.trans (List.suffix_cons c f).isInfix)
      rw [List.cons_append, splitAtSep, if_neg hpre, ih hf']
      rfl

theorem after_append {key rest : Str} (hrest : rest ≠ []) :
    after key (key ++ rest) = some rest := by
  have hkey : key.isPrefixOf (key ++ rest) = true :=
    List.isPrefixOf_iff_prefix.mpr (List.prefix_append key rest)
  simp only [after, hkey, if_true, List.drop_left, hrest, if_false]

theorem eq_of_after {key line rest : Str} (h : after key line = some rest) :
    line = key ++ rest := by
  unfold after at h
  split at h
  · rename_i hkey
    dsimp only at h
    split at h
    · cases h
    · rw [← Option.some.inj h]
      exact (List.prefix_iff_eq_append.mp (List.isPrefixOf_iff_prefix.mp hkey)).symm
  · cases h

theorem eq_of_parseValue {line x v : Str} (h : parseValue line = some (x, v)) :
    line = PREFIX ++ x ++ ['='] ++ v ∧ v ≠ [] ∧ x ≠ [] := by
  obtain ⟨rest, hrest, h⟩ := Option.bind_eq_some_iff.mp h
  obtain ⟨⟨name, value⟩, hsplit, h⟩ := Option.bind_eq_some_iff.mp h
  cases rest with
  | nil => cases hsplit
  | cons c s =>
      obtain ⟨⟨f, r⟩, hs, hfr⟩ := Option.map_eq_some_iff.mp hsplit
      obtain ⟨rfl, rfl⟩ := Prod.mk.inj hfr
      dsimp only at h
      split at h
      · cases h
      · rename_i hv
        obtain ⟨rfl, rfl⟩ := Prod.mk.inj (Option.some.inj h)
        refine ⟨?_, hv, List.cons_ne_nil _ _⟩
        rw [eq_of_after hrest, splitAtSep_eq hs]
        simp

theorem eq_of_parseUnset {line x v : Str} (h : parseUnset line = some (x, v)) :
    v = undef ∧ ∃ c f, x = c :: f ∧ splitAtSep isNotSet (f ++ isNotSet) = some (f, []) := by
  obtain ⟨rest, -, h⟩ := Option.bind_eq_some_iff.mp h
  obtain ⟨⟨name, r⟩, hsplit, h⟩ := Option.bind_eq_some_iff.mp h
  cases rest with
  | nil => cases hsplit
  | cons c s =>
      obtain ⟨⟨f, r⟩, hs, hfr⟩ := Option.map_eq_some_iff.mp hsplit
      obtain ⟨rfl, rfl⟩ := Prod.mk.inj hfr
      obtain ⟨rfl, rfl⟩ := Prod.mk.inj (Option.some.inj h)
      exact ⟨rfl, c, f, rfl, splitAtSep_front hs⟩

/-- No proper beginning of ` is not set` is an end of it, so the text is found at one place
of a line only. -/
theorem isNotSet_borderless : Borderless isNotSet := by
  unfold Borderless
  decide

theorem parseLine_unset {c : Char} {f : Str}
    (h : splitAtSep isNotSet (f ++ isNotSet) = some (f, [])) :
    parseLine ("# ".toList ++ PREFIX ++ (c :: f) ++ isNotSet) = some (c :: f, undef) := by
  have hvalue : parseValue ("# ".toList ++ PREFIX ++ (c :: f) ++ isNotSet) = none := by
    have hkey : PREFIX.isPrefixOf ("# ".toList ++ PREFIX ++ (c :: f) ++ isNotSet) = false := by
      rw [List.append_assoc, List.append_assoc]
      rfl
    rw [parseValue, after, hkey]
    rfl
  have hafter : after ("# ".toList ++ PREFIX) ("# ".toList ++ PREFIX ++ (c :: f) ++ isNotSet) =
      some ((c :: f) ++ isNotSet) := by
    rw [List.append_assoc _ (c :: f)]
    exact after_append (List.cons_ne_nil _ _)
  rw [parseLine, hvalue, Option.none_or, parseUnset, hafter]
  simp [lazySplit, h]

/-- What is read for a value that was printed: `n` is read as not set. -/
def readBack (v : Str) : Str := if v = ['n'] then undef else v

/-- An option with a value that a line can give it. -/
def Written (x v : Str) : Prop :=
  ∃ line, parseLine line = some (x, v) ∧ (parseValue line = some (x, v) → v ≠ undef)

/-- A line that is printed is read as what it was printed for. -/
theorem parseLine_printCfgline {x v : Str} (h : Written x v)
    (hn : v = ['n'] → ¬isNotSet <:+: x.tail) :
    parseLine (printCfgline x v) = some (x, readBack v) := by
  obtain ⟨line, hline, hundef⟩ := h
  cases hvalue : parseValue line with
  | some e =>
      rw [parseLine, hvalue, Option.some_or] at hline
      rw [Option.some.inj hline] at hvalue
      obtain ⟨heq, -, hx⟩ := eq_of_parseValue hvalue
      by_cases hv : v = ['n']
      · obtain ⟨c, f, rfl⟩ := List.exists_cons_of_ne_nil hx
        rw [printCfgline, if_pos (.inr hv), readBack, if_pos hv]
        exact parseLine_unset (splitAtSep_append isNotSet_borderless (hn hv))
      · have hne : ¬(v = undef ∨ v = ['n']) := not_or.mpr ⟨hundef hvalue, hv⟩
        rw [printCfgline, if_neg hne, ← heq, parseLine, hvalue, readBack, if_neg hv]
        rfl
  | none =>
      rw [parseLine, hvalue, Option.none_or] at hline
      obtain ⟨rfl, c, f, rfl, hs⟩ := eq_of_parseUnset hline
      rw [printCfgline, if_pos (.inl rfl), parseLine_unset hs]
      rfl

theorem setConfig_eq (config : Config) (idx newval : Str) (modPlus : Bool) :
    setConfig config idx newval modPlus = put config idx newval ∨
      setConfig config idx newval modPlus = config := by
  unfold setConfig
  split
  · exact .inl rfl
  · split
    · exact .inl rfl
    · exact .inr rfl

/-- A value that is loaded is that of a line. -/
theorem mem_settings_of_lookup {lines : List Str} {modPlus : Bool} {x v : Str}
    (h : (loadConfig lines modPlus).lookup x = some v) : (x, v) ∈ settings lines := by
  have hfold : ∀ (es config : Config),
      (es.foldl (fun config e => setConfig config e.1 e.2 modPlus) config).lookup x = some v →
      (x, v) ∈ es ∨ config.lookup x = some v := by
    intro es
    induction es with
    | nil => exact fun config hx => .inr hx
    | cons e es ih =>
        intro config hx
        rw [List.foldl_cons] at hx
        rcases ih _ hx with hmem | hx
        · exact .inl (List.mem_cons_of_mem e hmem)
        · rcases setConfig_eq config e.1 e.2 modPlus with hset | hset
          · rw [hset, lookup_put] at hx
            split at hx
            · rename_i hxe
              exact .inl (by rw [hxe, ← Option.some.inj hx]; exact List.mem_cons_self)
            · exact .inr hx
          · rw [hset] at hx
            exact .inr hx
  rw [loadConfig_eq] at h
  exact (hfold _ _ h).resolve_right nofun

/-- A value of an expression is one that a file has. -/
theorem mem_settings_of_value {e : Expr} {x v : Str} (h : e.value files x = some v) :
    ∃ name ∈ e.names, (x, v) ∈ settings ((files name).getD []) := by
  have hboth : ∀ {e₁ e₂ : Expr},
      (∃ name ∈ e₁.names, (x, v) ∈ settings ((files name).getD [])) ∨
        (∃ name ∈ e₂.names, (x, v) ∈ settings ((files name).getD [])) →
      ∃ name ∈ e₁.names ++ e₂.names, (x, v) ∈ settings ((files name).getD []) := by
    rintro e₁ e₂ (⟨name, hname, hmem⟩ | ⟨name, hname, hmem⟩)
    · exact ⟨name, List.mem_append_left _ hname, hmem⟩
    · exact ⟨name, List.mem_append_right _ hname, hmem⟩
  induction e with
  | file name => exact ⟨name, List.mem_cons_self, mem_settings_of_lookup h⟩
  | and e₁ e₂ ih₁ ih₂ =>
      refine hboth (.inl (ih₁ ?_))
      simp only [Expr.value, Values.and] at h
      split at h
      · exact (Option.filter_eq_some_iff.mp h).1
      · cases h
  | add e₁ e₂ ih₁ ih₂ =>
      rcases Option.or_eq_some_iff.mp h with h | ⟨-, h⟩
      · exact hboth (.inr (ih₂ h))
      · exact hboth (.inl (ih₁ h))
  | addPlus e₁ e₂ ih₁ ih₂ =>
      simp only [Expr.value, Values.addPlus] at h
      split at h
      · rename_i hy
        exact hboth (.inl (ih₁ (hy.trans h)))
      · rcases Option.or_eq_some_iff.mp h with h | ⟨-, h⟩
        · exact hboth (.inr (ih₂ h))
        · exact hboth (.inl (ih₁ h))
  | diff newOnly e₁ e₂ ih₁ ih₂ =>
      refine hboth (.inr (ih₂ ?_))
      simp only [Expr.value, Values.diff] at h
      split at h
      · cases h
      · exact h
  | sub e₁ e₂ ih₁ ih₂ =>
      refine hboth (.inl (ih₁ ?_))
      simp only [Expr.value, Values.sub] at h
      split at h
      · exact h
      · cases h

theorem written_of_value {e : Expr} (hok : e.Ok files) {x v : Str}
    (h : e.value files x = some v) : Written x v := by
  obtain ⟨name, hname, hmem⟩ := mem_settings_of_value h
  obtain ⟨-, lines, hfile, -, hundef⟩ := hok name hname
  rw [hfile, Option.getD_some] at hmem
  obtain ⟨line, hline, hparse⟩ := List.mem_filterMap.mp hmem
  exact ⟨line, hparse, hundef line hline (x, v)⟩

/-- No option has an empty value. -/
theorem value_ne_nil {e : Expr} {x : Str} : e.value files x ≠ some [] := by
  intro h
  obtain ⟨name, -, hmem⟩ := mem_settings_of_value h
  obtain ⟨line, -, hparse⟩ := List.mem_filterMap.mp hmem
  rcases Option.or_eq_some_iff.mp hparse with hparse | ⟨-, hparse⟩
  · exact (eq_of_parseValue hparse).2.1 rfl
  · exact absurd (eq_of_parseUnset hparse).1 (by decide)

/-- A configuration that is printed and loaded again. -/
theorem values_loadConfig_dumpConfig {cfg : Config}
    (hcfg : ∀ x v, cfg.lookup x = some v →
      Written x v ∧ (v = ['n'] → ¬isNotSet <:+: x.tail)) (modPlus : Bool) :
    values (loadConfig (dumpConfig cfg) modPlus) = fun x => (cfg.lookup x).map readBack := by
  have hperm : ((keys cfg).mergeSort (· ≤ ·)).Perm (keys cfg) := List.mergeSort_perm _ _
  have hsettings : settings (dumpConfig cfg) =
      ((keys cfg).mergeSort (· ≤ ·)).map fun k =>
        (k, readBack ((cfg.lookup k).getD [])) := by
    rw [settings, dumpConfig, List.filterMap_map, ← List.filterMap_eq_map]
    refine List.filterMap_congr fun k hk => ?_
    obtain ⟨v, hv⟩ := Option.ne_none_iff_exists'.mp (mem_keys.mp (hperm.mem_iff.mp hk))
    obtain ⟨hwritten, hn⟩ := hcfg k v hv
    simp only [Function.comp_apply, hv, Option.getD_some]
    exact parseLine_printCfgline hwritten hn
  have honce : Once (dumpConfig cfg) := by
    rw [Once, hsettings, List.map_map]
    exact (List.map_id' _).symm ▸ hperm.nodup_iff.mpr (nodup_keys cfg)
  funext x
  rw [values, lookup_loadConfig honce, hsettings]
  cases hx : cfg.lookup x with
  | none =>
      rw [Option.map_none, lookup_eq_none, List.map_map]
      intro hmem
      obtain ⟨k, hk, rfl⟩ := List.mem_map.mp hmem
      exact mem_keys.mp (hperm.mem_iff.mp hk) hx
  | some v =>
      have hmem : x ∈ (keys cfg).mergeSort (· ≤ ·) :=
        hperm.mem_iff.mpr (mem_keys.mpr (by rw [hx]; nofun))
      rw [List.lookup_graph _ hmem, hx]
      rfl

/-! ## Laws -/

namespace Values

variable {f g : Values}

theorem and_eq_some {x v : Str} :
    and f g x = some v ↔ f x = some v ∧ g x = some v ∧ truthy v := by
  rw [and]
  split
  · rename_i heq
    rw [Option.filter_eq_some_iff, ← heq]
    exact ⟨fun ⟨hf, hv⟩ => ⟨hf, hf, hv⟩, fun ⟨hf, _, hv⟩ => ⟨hf, hv⟩⟩
  · rename_i hne
    exact ⟨nofun, fun ⟨hf, hg, _⟩ => absurd (hf.trans hg.symm) hne⟩

theorem and_comm (f g : Values) : and f g = and g f := by
  funext x
  refine Option.ext fun v => ?_
  rw [and_eq_some, and_eq_some]
  exact and_left_comm

theorem and_assoc (f g h : Values) : and (and f g) h = and f (and g h) := by
  funext x
  refine Option.ext fun v => ?_
  simp only [and_eq_some]
  grind

theorem add_diff (f g : Values) : add f (diff f g false) = add f g := by
  funext x
  by_cases heq : f x = g x
  · simp [add, diff, heq]
  · simp [add, diff, heq]

/-- What two configurations have in common and what the first has besides. -/
theorem and_add_diff (f g : Values) : add (and f g) (diff (and f g) f false) = f := by
  funext x
  by_cases heq : f x = and f g x
  · simp [add, diff, ← heq]
  · have hdiff : diff (and f g) f false x = f x := by
      simp [diff, Ne.symm heq]
    rw [add, hdiff]
    cases hf : f x with
    | none => simp [and, hf]
    | some v => rfl

theorem add_assoc (f g h : Values) : add (add f g) h = add f (add g h) :=
  funext fun _ => (Option.or_assoc ..).symm

theorem add_self (f : Values) : add f f = f := funext fun _ => Option.or_self

theorem addPlus_assoc (f g h : Values) :
    addPlus (addPlus f g) h = addPlus f (addPlus g h) := by
  funext x
  by_cases hf : f x = some ['y']
  · simp [addPlus, hf]
  · cases hg : g x with
    | none => simp [addPlus, hf, hg]
    | some w =>
        by_cases hw : w = ['y']
        · simp [addPlus, hf, hg, hw]
        · cases hh : h x <;> simp [addPlus, hf, hg, hh, hw]

theorem add_none (f : Values) : add f (fun _ => none) = f := funext fun _ => Option.none_or

theorem none_add (f : Values) : add (fun _ => none) f = f := funext fun _ => Option.or_none

theorem addPlus_none (f : Values) : addPlus f (fun _ => none) = f := by
  funext x
  by_cases hf : f x = some ['y']
  · simp [addPlus, hf]
  · simp [addPlus, hf]

theorem none_addPlus (f : Values) : addPlus (fun _ => none) f = f := by
  funext x
  simp [addPlus]

/-- Under `m+` an option is built in where one of the operands has it so. -/
theorem addPlus_eq_y {x : Str} (h : f x = some ['y'] ∨ g x = some ['y']) :
    addPlus f g x = some ['y'] := by
  by_cases hf : f x = some ['y']
  · simp [addPlus, hf]
  · simp [addPlus, hf, h.resolve_left hf]

theorem addPlus_self (f : Values) : addPlus f f = f := by
  funext x
  by_cases hf : f x = some ['y']
  · simp [addPlus, hf]
  · simp [addPlus, hf]

end Values

/-- What the program makes of an expression. -/
def result (files : Str → Option (List Str)) (e : Expr) : Option Values :=
  (kconfig files e.args).map values

/-- What the script computes for an expression is the value of the expression. -/
theorem result_eq {e : Expr} (h : e.Reads files false) : result files e = some (e.value files) := by
  obtain ⟨c, hc, hv⟩ := kconfig_args h
  rw [result, hc, Option.map_some, hv]

theorem result_congr {e e' : Expr} (h : e.Reads files false) (h' : e'.Reads files false)
    (hv : e.value files = e'.value files) : result files e = result files e' := by
  rw [result_eq h, result_eq h', hv]

/-- The laws of the program, for three expressions. -/
structure Laws (files : Str → Option (List Str)) (a b c : Expr) : Prop where
  patch : ∃ va vb, result files a = some va ∧ result files b = some vb ∧
    result files (.add a (.diff false a b)) = some fun x => (vb x).or (va x)
  factor : result files (.add (.and a b) (.diff false (.and a b) a)) = result files a
  add_assoc : result files (.add (.add a b) c) = result files (.add a (.add b c))
  add_self : result files (.add a a) = result files a
  add_empty : result files b = some (fun _ => none) →
    result files (.add a b) = result files a ∧ result files (.add b a) = result files a
  addPlus_assoc :
    result files (.addPlus (.addPlus a b) c) = result files (.addPlus a (.addPlus b c))
  addPlus_self : result files (.addPlus a a) = result files a
  addPlus_empty : result files b = some (fun _ => none) →
    result files (.addPlus a b) = result files a ∧ result files (.addPlus b a) = result files a
  addPlus_y : ∃ va vb vab, result files a = some va ∧ result files b = some vb ∧
    result files (.addPlus a b) = some vab ∧
    ∀ x, va x = some ['y'] ∨ vb x = some ['y'] → vab x = some ['y']
  reload : ∃ cfg, kconfig files a.args = some cfg ∧
    ((∀ x, cfg.lookup x = some ['n'] → ¬isNotSet <:+: x.tail) →
      ∀ modPlus, values (loadConfig (dumpConfig cfg) modPlus) =
        fun x => (cfg.lookup x).map readBack)

/-- The laws of the operators, for all expressions over well-formed files: each is an
equation of partial functions, carried over by `result_eq` and `result_congr`. -/
theorem kconfig_laws {a b c : Expr} (ha : a.Ok files) (hb : b.Ok files) (hc : c.Ok files) :
    Laws files a b c := by
  have ra := ha.reads
  have rb := hb.reads
  have rc := hc.reads
  have hempty {e : Expr} (he : e.Ok files) (h : result files e = some (fun _ => none)) :
      e.value files = fun _ => none :=
    Option.some.inj ((result_eq (he.reads false)).symm.trans h)
  constructor
  case patch =>
    refine ⟨_, _, result_eq (ra false), result_eq (rb false), (result_eq ?_).trans ?_⟩
    · exact ⟨ra false, ra false, rb false⟩
    · exact congrArg some (Values.add_diff _ _)
  case factor =>
    refine result_congr ?_ (ra false) (Values.and_add_diff _ _)
    exact ⟨⟨ra false, rb false⟩, ⟨ra false, rb false⟩, ra false⟩
  case add_assoc =>
    refine result_congr ?_ ?_ (Values.add_assoc _ _ _)
    · exact ⟨⟨ra false, rb false⟩, rc false⟩
    · exact ⟨ra false, rb false, rc false⟩
  case add_self =>
    exact result_congr ⟨ra false, ra false⟩ (ra false) (Values.add_self _)
  case add_empty =>
    intro h
    have hb' := hempty hb h
    constructor
    · refine result_congr ⟨ra false, rb false⟩ (ra false) ?_
      rw [Expr.value, hb']
      exact Values.add_none _
    · refine result_congr ⟨rb false, ra false⟩ (ra false) ?_
      rw [Expr.value, hb']
      exact Values.none_add _
  case addPlus_assoc =>
    refine result_congr ?_ ?_ (Values.addPlus_assoc _ _ _)
    · exact ⟨⟨ra false, rb true⟩, rc true⟩
    · exact ⟨ra false, rb false, rc true⟩
  case addPlus_self =>
    exact result_congr ⟨ra false, ra true⟩ (ra false) (Values.addPlus_self _)
  case addPlus_empty =>
    intro h
    have hb' := hempty hb h
    constructor
    · refine result_congr ⟨ra false, rb true⟩ (ra false) ?_
      rw [Expr.value, hb']
      exact Values.addPlus_none _
    · refine result_congr ⟨rb false, ra true⟩ (ra false) ?_
      rw [Expr.value, hb']
      exact Values.none_addPlus _
  case addPlus_y =>
    have rab : (Expr.addPlus a b).Reads files false := ⟨ra false, rb true⟩
    exact ⟨_, _, _, result_eq (ra false), result_eq (rb false), result_eq rab,
      fun x => Values.addPlus_eq_y⟩
  case reload =>
    obtain ⟨cfg, hcfg, hv⟩ := kconfig_args (ra false)
    refine ⟨cfg, hcfg, fun hn => values_loadConfig_dumpConfig fun x v hx => ?_⟩
    have hwritten : Written x v := written_of_value ha (by rw [← hv]; exact hx)
    exact ⟨hwritten, fun hvn => hn x (hvn ▸ hx)⟩

/-- Two configurations of a kernel. -/
def targets (name : Str) : Option (List Str) :=
  if name = ['a'] then
    some ["CONFIG_SMP=y".toList, "CONFIG_USB=n".toList, "# CONFIG_PCI is not set".toList]
  else if name = ['b'] then some ["CONFIG_SMP=n".toList, "CONFIG_HZ=100".toList]
  else none

theorem kconfig_laws_targets :
    (Expr.file ['a']).Ok targets ∧ (Expr.file ['b']).Ok targets ∧
    Laws targets (.file ['a']) (.file ['b']) (.file ['a']) := by
  have ha : (Expr.file ['a']).Ok targets := Expr.ok_file (by decide) rfl (by decide)
  have hb : (Expr.file ['b']).Ok targets := Expr.ok_file (by decide) rfl (by decide)
  exact ⟨ha, hb, kconfig_laws ha hb ha⟩

/-- An option whose name has ` is not set` in it, with the value `n`. -/
def longNamed (_ : Str) : Option (List Str) := some ["CONFIG_X is not set=n".toList]

/-- It is printed as a line that names another option. -/
theorem kconfig_not_reloaded : (Expr.file ['a']).Ok longNamed ∧
    ∃ cfg, kconfig longNamed (Expr.file ['a']).args = some cfg ∧
      values cfg "X is not set".toList = some ['n'] ∧
      values (loadConfig (dumpConfig cfg) false) "X is not set".toList = none := by
  have hcfg : kconfig longNamed (Expr.file ['a']).args =
      some [("X is not set".toList, ['n'])] := by decide
  have hdump : dumpConfig [("X is not set".toList, ['n'])] =
      ["# CONFIG_X is not set is not set".toList] := by
    have hkeys : keys [("X is not set".toList, ['n'])] = ["X is not set".toList] := by decide
    rw [dumpConfig, hkeys, List.mergeSort_singleton]
    decide
  refine ⟨Expr.ok_file (by decide) rfl (by decide), _, hcfg, by decide, ?_⟩
  rw [hdump]
  decide

/-! ## Intersection -/

/-- The program gives an option a value. -/
def Gives (files : Str → Option (List Str)) (e : Expr) (x v : Str) : Prop :=
  ∃ r, result files e = some r ∧ r x = some v

theorem gives_iff {e : Expr} (h : e.Reads files false) {x v : Str} :
    Gives files e x v ↔ e.value files x = some v := by
  rw [Gives, result_eq h]
  exact ⟨fun ⟨r, hr, hv⟩ => Option.some.inj hr ▸ hv, fun hv => ⟨_, rfl, hv⟩⟩

/-- `&` is the intersection. -/
structure Intersects (files : Str → Option (List Str)) (a b c : Expr) : Prop where
  gives_and : ∀ x v, v ≠ [] →
    (Gives files (.and a b) x v ↔ Gives files a x v ∧ Gives files b x v)
  self : result files (.and a a) = result files a
  comm : result files (.and a b) = result files (.and b a)
  assoc : result files (.and (.and a b) c) = result files (.and a (.and b c))

/-- It is the intersection unless a value is `0`, which Perl takes for false. -/
theorem intersects_iff {a b c : Expr} (ha : a.Reads files false) (hb : b.Reads files false)
    (hc : c.Reads files false) :
    Intersects files a b c ↔ ∀ x, ¬Gives files a x ['0'] := by
  have haa : (Expr.and a a).Reads files false := ⟨ha, ha⟩
  have hab : (Expr.and a b).Reads files false := ⟨ha, hb⟩
  constructor
  · intro h x hx
    rw [gives_iff ha] at hx
    have hself : (a.value files).and (a.value files) = a.value files :=
      Option.some.inj ((result_eq haa).symm.trans (h.self.trans (result_eq ha)))
    exact absurd (Values.and_eq_some.mp ((congrFun hself x).trans hx)).2.2 (by decide)
  · intro h
    have htruthy : ∀ x v, a.value files x = some v → truthy v := by
      intro x v hv
      have hnil : v ≠ [] := fun hnil => value_ne_nil (hnil ▸ hv)
      have hzero : v ≠ ['0'] := fun hzero => h x ((gives_iff ha).mpr (hzero ▸ hv))
      simp [truthy, hnil, hzero]
    constructor
    case gives_and =>
      intro x v _
      rw [gives_iff hab, gives_iff ha, gives_iff hb, Expr.value, Values.and_eq_some]
      exact ⟨fun ⟨hf, hg, _⟩ => ⟨hf, hg⟩, fun ⟨hf, hg⟩ => ⟨hf, hg, htruthy x v hf⟩⟩
    case self =>
      refine result_congr haa ha (funext fun x => Option.ext fun v => ?_)
      rw [Expr.value, Values.and_eq_some]
      exact ⟨fun hv => hv.1, fun hv => ⟨hv, hv, htruthy x v hv⟩⟩
    case comm => exact result_congr hab ⟨hb, ha⟩ (Values.and_comm _ _)
    case assoc => exact result_congr ⟨hab, hc⟩ ⟨ha, hb, hc⟩ (Values.and_assoc _ _ _)

theorem intersects_targets : Intersects targets (.file ['a']) (.file ['b']) (.file ['a']) := by
  have ha : (Expr.file ['a']).Reads targets false := ⟨by decide, _, rfl, nofun⟩
  have hb : (Expr.file ['b']).Reads targets false := ⟨by decide, _, rfl, nofun⟩
  refine (intersects_iff ha hb ha).mpr ?_
  -- no value of the three options is `0`
  rintro x ⟨r, hr, hx⟩
  have hread : kconfig targets (Expr.file ['a']).args = some [("PCI".toList, "#undef".toList),
      ("USB".toList, ['n']), ("SMP".toList, ['y'])] := by decide
  rw [result, hread, Option.map_some, Option.some.injEq] at hr
  subst hr
  obtain ⟨before, after, hsplit, -⟩ := List.lookup_eq_some_iff.mp hx
  have hvalue : ['0'] ∈ [("PCI".toList, "#undef".toList), ("USB".toList, ['n']),
      ("SMP".toList, ['y'])].map Prod.snd := by
    rw [hsplit]
    simp
  exact absurd hvalue (by decide)

/-- An option with the value `0`. -/
def zeroValued (_ : Str) : Option (List Str) := some ["CONFIG_X=0".toList]

theorem and_drops_zero :
    kconfig zeroValued [['a']] = some [(['X'], ['0'])] ∧
      kconfig zeroValued [['&'], ['a'], ['a']] = some [] := by
  decide

end Kconfig

end UbntSdk.Scripts
