/-
UbntSdk.Nvram.CliTheorems — whether the two loops of `main` agree.

`scansAgree_iff` says for which arguments the first loop opens the store
for writing exactly if the second one performs a `set`, `unset` or
`commit`, consumes the same arguments for each command it comes across, and
no loop looks at `argv[argc]`: those of `Regular`.

Each loop is first written as a recursion over the arguments
(`preScan_eq`, `execute_eq`). In this form the two differ at the operand of
`get`, which the first loop takes for a command, and at an argument that is
no command, where only the second one stops.
-/
import UbntSdk.Nvram.Cli

namespace UbntSdk.Nvram

open UbntSdk.Lib

/-! ## The words -/

/-- The command of a word that stands alone. -/
def plain (arg : CStr) : Option Command :=
  if arg = wordShow then some .show
  else if arg = wordInfo then some .info
  else if arg = wordCommit then some .commit
  else none

/-- The command of a word that takes an operand. -/
def withOperand (arg : CStr) : Option (CStr → Command) :=
  if arg = wordGet then some .get
  else if arg = wordUnset then some .unset
  else if arg = wordSet then some .set
  else none

/-! ## The loops as recursions -/

/-- The first loop; `none` is a look at `argv[argc]`. -/
def preScanSpec : List CStr → Option PreScan
  | [] => some { write := false, steps := [] }
  | arg :: rest =>
      if arg = wordSet ∨ arg = wordUnset then
        match rest with
        | [] => none
        | _ :: behind => some { write := true, steps := [⟨arg :: rest, behind⟩] }
      else if arg = wordCommit then some { write := true, steps := [⟨arg :: rest, rest⟩] }
      else (preScanSpec rest).map fun p => { p with steps := ⟨arg :: rest, rest⟩ :: p.steps }

/-- The second loop; `none` is a look at `argv[argc]`. -/
def executeSpec : List CStr → Option Executed
  | [] => some { commands := [], unknown := none }
  | arg :: rest =>
      match plain arg with
      | some c => (executeSpec rest).map fun e =>
          { e with commands := (c, ⟨arg :: rest, rest⟩) :: e.commands }
      | none =>
          match withOperand arg with
          | none => some { commands := [], unknown := some arg }
          | some c =>
              match rest with
              | [] => none
              | var :: behind => (executeSpec behind).map fun e =>
                  { e with commands := (c var, ⟨arg :: rest, behind⟩) :: e.commands }

theorem preScanSpec_cons (arg : CStr) (rest : List CStr) :
    preScanSpec (arg :: rest) =
      if arg = wordSet ∨ arg = wordUnset then
        match rest with
        | [] => none
        | _ :: behind => some { write := true, steps := [⟨arg :: rest, behind⟩] }
      else if arg = wordCommit then some { write := true, steps := [⟨arg :: rest, rest⟩] }
      else (preScanSpec rest).map fun p => { p with steps := ⟨arg :: rest, rest⟩ :: p.steps } := by
  cases rest <;> rfl

theorem executeSpec_cons (arg : CStr) (rest : List CStr) :
    executeSpec (arg :: rest) =
      match plain arg with
      | some c => (executeSpec rest).map fun e =>
          { e with commands := (c, ⟨arg :: rest, rest⟩) :: e.commands }
      | none =>
          match withOperand arg with
          | none => some { commands := [], unknown := some arg }
          | some c =>
              match rest with
              | [] => none
              | var :: behind => (executeSpec behind).map fun e =>
                  { e with commands := (c var, ⟨arg :: rest, behind⟩) :: e.commands } := by
  rw [executeSpec.eq_def]

theorem expectsWrite_cons (arg : CStr) (rest : List CStr) :
    expectsWrite (arg :: rest) =
      if arg = wordSet ∨ arg = wordUnset then
        if rest = [] then none else some (true, rest)
      else some (decide (arg = wordCommit), arg :: rest) := by
  have hne : wordSet ≠ wordUnset := by decide
  by_cases hset : arg = wordSet
  · cases rest <;> simp [expectsWrite, takesOperand, isWord, hset]
  · by_cases hunset : arg = wordUnset
    · cases rest <;> simp [expectsWrite, takesOperand, isWord, hunset, hne.symm]
    · simp [expectsWrite, takesOperand, isWord, hset, hunset]

theorem command_cons (arg : CStr) (rest : List CStr) :
    command (arg :: rest) =
      match plain arg with
      | some c => some (some c, arg :: rest)
      | none =>
          match withOperand arg with
          | none => some (none, arg :: rest)
          | some c =>
              match rest with
              | [] => none
              | var :: behind => some (some (c var), var :: behind) := by
  by_cases hshow : arg = wordShow
  · subst hshow
    rfl
  · by_cases hinfo : arg = wordInfo
    · subst hinfo
      rfl
    · by_cases hget : arg = wordGet
      · subst hget
        cases rest <;> rfl
      · by_cases hunset : arg = wordUnset
        · subst hunset
          cases rest <;> rfl
        · by_cases hset : arg = wordSet
          · subst hset
            cases rest <;> rfl
          · by_cases hcommit : arg = wordCommit
            · subst hcommit
              rfl
            · simp [command, takesOperand, isWord, plain, withOperand, hshow, hinfo, hget, hunset,
                hset, hcommit]

/-- The first loop from any point on, after the steps `steps`. -/
theorem run_preScan : ∀ (args : List CStr) (steps : List Step) (n : Nat), args.length < n →
    run preScanBody n (args, steps) =
      match preScanSpec args with
      | none => .fault
      | some p => .done { p with steps := steps ++ p.steps } := by
  intro args
  induction args with
  | nil =>
      intro steps n hn
      obtain ⟨k, rfl⟩ := Nat.exists_eq_succ_of_ne_zero (Nat.ne_of_gt hn)
      have hbody : preScanBody ([], steps) = .stop { write := false, steps } := by
        simp [preScanBody]
      rw [run_stop hbody, preScanSpec]
      simp
  | cons arg rest ih =>
      intro steps n hn
      obtain ⟨k, rfl⟩ := Nat.exists_eq_succ_of_ne_zero (Nat.ne_of_gt (Nat.lt_of_le_of_lt
        (Nat.zero_le _) hn))
      rw [List.length_cons] at hn
      by_cases hword : arg = wordSet ∨ arg = wordUnset
      · cases rest with
        | nil =>
            have hbody : preScanBody ([arg], steps) = .fault := by
              simp [preScanBody, expectsWrite_cons, hword]
            rw [run_fault hbody, preScanSpec_cons, if_pos hword]
        | cons var behind =>
            have hbody : preScanBody (arg :: var :: behind, steps)
                = .stop { write := true, steps := steps ++ [⟨arg :: var :: behind, behind⟩] } := by
              simp [preScanBody, expectsWrite_cons, hword]
            rw [run_stop hbody, preScanSpec_cons, if_pos hword]
      · by_cases hcommit : arg = wordCommit
        · have hbody : preScanBody (arg :: rest, steps)
              = .stop { write := true, steps := steps ++ [⟨arg :: rest, rest⟩] } := by
            simp only [preScanBody, expectsWrite_cons, hcommit]
            rfl
          rw [run_stop hbody, preScanSpec_cons, if_neg hword, if_pos hcommit]
        · have hbody : preScanBody (arg :: rest, steps)
              = .next (rest, steps ++ [⟨arg :: rest, rest⟩]) := by
            simp [preScanBody, expectsWrite_cons, hword, hcommit]
          rw [run_next hbody, ih _ k (by omega), preScanSpec_cons, if_neg hword, if_neg hcommit]
          cases preScanSpec rest with
          | none => rfl
          | some p => simp

theorem preScan_eq (args : List CStr) :
    preScan args = match preScanSpec args with
      | none => .fault
      | some p => .done p := by
  rw [preScan, run_preScan args [] _ (Nat.lt_succ_self _)]
  cases preScanSpec args <;> simp

/-- The second loop from any point on, after the commands `commands`. -/
theorem run_execute : ∀ (n : Nat) (args : List CStr) (commands : List (Command × Step)),
    args.length < n →
    run executeBody n (args, commands) =
      match executeSpec args with
      | none => .fault
      | some e => .done { e with commands := commands ++ e.commands } := by
  intro n
  induction n with
  | zero =>
      intro args commands hn
      cases hn
  | succ n ih =>
      intro args commands hn
      cases args with
      | nil =>
          have hbody : executeBody ([], commands) = .stop { commands, unknown := none } := by
            simp [executeBody]
          rw [run_stop hbody, executeSpec]
          simp
      | cons arg rest =>
          rw [List.length_cons] at hn
          cases hplain : plain arg with
          | some c =>
              have hbody : executeBody (arg :: rest, commands)
                  = .next (rest, commands ++ [(c, ⟨arg :: rest, rest⟩)]) := by
                simp [executeBody, command_cons, hplain]
              rw [run_next hbody, ih _ _ (by omega)]
              simp only [executeSpec_cons, hplain]
              cases executeSpec rest with
              | none => rfl
              | some e => simp
          | none =>
              cases hoperand : withOperand arg with
              | none =>
                  have hbody : executeBody (arg :: rest, commands)
                      = .stop { commands, unknown := some arg } := by
                    simp [executeBody, command_cons, hplain, hoperand]
                  rw [run_stop hbody]
                  simp [executeSpec_cons, hplain, hoperand]
              | some c =>
                  cases rest with
                  | nil =>
                      have hbody : executeBody ([arg], commands) = .fault := by
                        simp [executeBody, command_cons, hplain, hoperand]
                      rw [run_fault hbody]
                      simp [executeSpec_cons, hplain, hoperand]
                  | cons var behind =>
                      have hbody : executeBody (arg :: var :: behind, commands) = .next (behind,
                          commands ++ [(c var, ⟨arg :: var :: behind, behind⟩)]) := by
                        simp [executeBody, command_cons, hplain, hoperand]
                      rw [List.length_cons] at hn
                      rw [run_next hbody, ih _ _ (by omega)]
                      simp only [executeSpec_cons, hplain, hoperand]
                      cases executeSpec behind with
                      | none => rfl
                      | some e => simp

theorem execute_eq (args : List CStr) :
    execute args = match executeSpec args with
      | none => .fault
      | some e => .done e := by
  rw [execute, run_execute _ args [] (Nat.lt_succ_self _)]
  cases executeSpec args <;> simp

/-! ## When they agree -/

/-- The second loop finds every operand, up to the argument that stops it. -/
def OperandsPresent : List CStr → Prop
  | [] => True
  | arg :: rest =>
      if arg = wordShow ∨ arg = wordInfo ∨ arg = wordCommit then OperandsPresent rest
      else if arg = wordGet ∨ arg = wordUnset ∨ arg = wordSet then
        match rest with
        | [] => False
        | _ :: behind => OperandsPresent behind
      else True

/-- `show` and `info`, then `set` or `unset` with an operand or `commit`,
and commands with their operands up to an argument that is none; or an
argument that is no command, with no `set`, `unset` or `commit` behind it. -/
def Regular : List CStr → Prop
  | [] => True
  | arg :: rest =>
      if arg = wordShow ∨ arg = wordInfo then Regular rest
      else if arg = wordSet ∨ arg = wordUnset then
        match rest with
        | [] => False
        | _ :: behind => OperandsPresent behind
      else if arg = wordCommit then OperandsPresent rest
      else arg ≠ wordGet ∧
        ∀ word ∈ rest, word ≠ wordSet ∧ word ≠ wordUnset ∧ word ≠ wordCommit

/-- The number of arguments behind the last step. -/
def PreScan.left (p : PreScan) (args : List CStr) : Nat :=
  match p.steps.getLast? with
  | none => args.length
  | some step => step.stop.length

/-- The loops end without a look at `argv[argc]`, the first one expects a
write exactly if the second one performs one, and every command that starts
in front of the first loop's end is a step of that loop too. -/
def ScansAgree (args : List CStr) : Prop :=
  ∃ p e, preScan args = .done p ∧ execute args = .done e ∧
    (p.write = true ↔ ∃ c ∈ e.commands, c.1.writes = true) ∧
    ∀ c ∈ e.commands, p.left args < c.2.start.length → c.2 ∈ p.steps

theorem scansAgree_spec {args : List CStr} :
    ScansAgree args ↔ ∃ p e, preScanSpec args = some p ∧ executeSpec args = some e ∧
      (p.write = true ↔ ∃ c ∈ e.commands, c.1.writes = true) ∧
      ∀ c ∈ e.commands, p.left args < c.2.start.length → c.2 ∈ p.steps := by
  have hpre : ∀ p, preScan args = .done p ↔ preScanSpec args = some p := by
    intro p
    rw [preScan_eq]
    cases preScanSpec args <;> simp
  have hexec : ∀ e, execute args = .done e ↔ executeSpec args = some e := by
    intro e
    rw [execute_eq]
    cases executeSpec args <;> simp
  simp only [ScansAgree, hpre, hexec]

/-! ### What the steps are -/

theorem plain_eq_none {arg : CStr} :
    plain arg = none ↔ ¬(arg = wordShow ∨ arg = wordInfo ∨ arg = wordCommit) := by
  unfold plain
  split
  · simp_all
  · split
    · simp_all
    · split <;> simp_all

theorem withOperand_eq_none {arg : CStr} :
    withOperand arg = none ↔ ¬(arg = wordGet ∨ arg = wordUnset ∨ arg = wordSet) := by
  unfold withOperand
  split
  · simp_all
  · split
    · simp_all
    · split <;> simp_all

/-- The second loop ends exactly if it finds its operands. -/
theorem executeSpec_isSome : ∀ (n : Nat) (args : List CStr), args.length ≤ n →
    ((∃ e, executeSpec args = some e) ↔ OperandsPresent args) := by
  intro n
  induction n with
  | zero =>
      intro args hn
      cases args with
      | nil => simp [executeSpec, OperandsPresent]
      | cons arg rest => cases hn
  | succ n ih =>
      intro args hn
      cases args with
      | nil => simp [executeSpec, OperandsPresent]
      | cons arg rest =>
          rw [List.length_cons] at hn
          rw [executeSpec_cons, OperandsPresent.eq_def]
          simp only
          by_cases hplain : arg = wordShow ∨ arg = wordInfo ∨ arg = wordCommit
          · obtain ⟨c, hc⟩ := Option.ne_none_iff_exists'.mp fun h => plain_eq_none.mp h hplain
            rw [hc, if_pos hplain, ← ih rest (by omega)]
            simp only [Option.map_eq_some_iff]
            constructor
            · rintro ⟨_, e, he, _⟩
              exact ⟨e, he⟩
            · rintro ⟨e, he⟩
              exact ⟨_, e, he, rfl⟩
          · rw [plain_eq_none.mpr hplain, if_neg hplain]
            by_cases hoperand : arg = wordGet ∨ arg = wordUnset ∨ arg = wordSet
            · obtain ⟨c, hc⟩ :=
                Option.ne_none_iff_exists'.mp fun h => withOperand_eq_none.mp h hoperand
              simp only [hc, if_pos hoperand]
              cases rest with
              | nil => simp
              | cons var behind =>
                  rw [List.length_cons] at hn
                  simp only [← ih behind (by omega), Option.map_eq_some_iff]
                  constructor
                  · rintro ⟨_, e, he, _⟩
                    exact ⟨e, he⟩
                  · rintro ⟨e, he⟩
                    exact ⟨_, e, he, rfl⟩
            · simp only [withOperand_eq_none.mpr hoperand, if_neg hoperand]
              simp

theorem executeSpec_start : ∀ (n : Nat) (args : List CStr) (e : Executed), args.length ≤ n →
    executeSpec args = some e → ∀ c ∈ e.commands, c.2.start.length ≤ args.length := by
  intro n
  induction n with
  | zero =>
      intro args e hn he
      cases args with
      | nil =>
          cases he
          simp
      | cons arg rest => cases hn
  | succ n ih =>
      intro args e hn he
      cases args with
      | nil =>
          cases he
          simp
      | cons arg rest =>
          rw [List.length_cons] at hn
          rw [executeSpec_cons] at he
          split at he
          · obtain ⟨e', he', rfl⟩ := Option.map_eq_some_iff.mp he
            intro c hc
            rcases List.mem_cons.mp hc with rfl | hc
            · exact Nat.le_refl _
            · have hle := ih rest e' (by omega) he' c hc
              rw [List.length_cons]
              omega
          · split at he
            · cases he
              simp
            · split at he
              · cases he
              · rename_i var behind
                obtain ⟨e', he', rfl⟩ := Option.map_eq_some_iff.mp he
                rw [List.length_cons] at hn
                intro c hc
                rcases List.mem_cons.mp hc with rfl | hc
                · exact Nat.le_refl _
                · have hle := ih behind e' (by omega) he' c hc
                  simp only [List.length_cons]
                  omega

theorem preScanSpec_steps : ∀ {args : List CStr} {p : PreScan}, preScanSpec args = some p →
    ∀ step ∈ p.steps, step.start.length ≤ args.length ∧ step.stop.length < args.length := by
  intro args
  induction args with
  | nil =>
      intro p hp
      cases hp
      simp
  | cons arg rest ih =>
      intro p hp
      rw [preScanSpec_cons] at hp
      split at hp
      · split at hp
        · cases hp
        · cases hp
          simp only [List.mem_singleton, forall_eq, List.length_cons]
          omega
      · split at hp
        · cases hp
          simp
        · obtain ⟨p', hp', rfl⟩ := Option.map_eq_some_iff.mp hp
          intro step hstep
          rcases List.mem_cons.mp hstep with rfl | hstep
          · simp
          · obtain ⟨hstart, hstop⟩ := ih hp' step hstep
            rw [List.length_cons]
            omega

theorem left_le {args : List CStr} {p : PreScan} (h : preScanSpec args = some p) :
    p.left args ≤ args.length := by
  unfold PreScan.left
  split
  · exact Nat.le_refl _
  · rename_i step hlast
    have hstop := (preScanSpec_steps h step (List.mem_of_getLast? hlast)).2
    omega

/-- A step in front does not move the end. -/
theorem left_cons (p : PreScan) (arg : CStr) (rest : List CStr) :
    ({ p with steps := ⟨arg :: rest, rest⟩ :: p.steps } : PreScan).left (arg :: rest)
      = p.left rest := by
  unfold PreScan.left
  simp only [List.getLast?_cons]
  cases p.steps.getLast? <;> rfl

/-- The first loop expects no write exactly if it comes across none of the
three words. -/
theorem preScanSpec_quiet : ∀ {args : List CStr},
    (∃ p, preScanSpec args = some p ∧ p.write = false) ↔
      ∀ word ∈ args, word ≠ wordSet ∧ word ≠ wordUnset ∧ word ≠ wordCommit := by
  intro args
  induction args with
  | nil => simp [preScanSpec]
  | cons arg rest ih =>
      rw [List.forall_mem_cons, ← ih, preScanSpec_cons]
      by_cases hword : arg = wordSet ∨ arg = wordUnset
      · rw [if_pos hword]
        cases rest with
        | nil => simp; tauto
        | cons var behind => simp; tauto
      · by_cases hcommit : arg = wordCommit
        · rw [if_neg hword, if_pos hcommit]
          simp [hcommit]
        · rw [if_neg hword, if_neg hcommit]
          rw [not_or] at hword
          simp [hword, hcommit, Option.map_eq_some_iff]

/-! ### One command in front -/

/-- A command that reads, and takes no operand, changes nothing. -/
theorem scansAgree_reads {arg : CStr} {rest : List CStr} {c : Command} (hplain : plain arg = some c)
    (hreads : c.writes = false) (hset : ¬(arg = wordSet ∨ arg = wordUnset))
    (hcommit : arg ≠ wordCommit) : ScansAgree (arg :: rest) ↔ ScansAgree rest := by
  have hpre : preScanSpec (arg :: rest) = (preScanSpec rest).map fun p =>
      { p with steps := ⟨arg :: rest, rest⟩ :: p.steps } := by
    rw [preScanSpec_cons, if_neg hset, if_neg hcommit]
  have hexec : executeSpec (arg :: rest) = (executeSpec rest).map fun e =>
      { e with commands := (c, ⟨arg :: rest, rest⟩) :: e.commands } := by
    rw [executeSpec_cons, hplain]
  rw [scansAgree_spec, scansAgree_spec, hpre, hexec]
  simp only [Option.map_eq_some_iff]
  constructor
  · rintro ⟨_, _, ⟨p, hp, rfl⟩, ⟨e, he, rfl⟩, hwrite, hsteps⟩
    refine ⟨p, e, hp, he, ?_, ?_⟩
    · simpa [hreads] using hwrite
    · intro d hd hleft
      have hmem := hsteps d (List.mem_cons_of_mem _ hd) (by rw [left_cons]; exact hleft)
      rcases List.mem_cons.mp hmem with heq | hmem
      · have hle := executeSpec_start _ rest e (Nat.le_refl _) he d hd
        rw [heq, List.length_cons] at hle
        omega
      · exact hmem
  · rintro ⟨p, e, hp, he, hwrite, hsteps⟩
    refine ⟨_, _, ⟨p, hp, rfl⟩, ⟨e, he, rfl⟩, ?_, ?_⟩
    · simpa [hreads] using hwrite
    · intro d hd hleft
      rw [left_cons] at hleft
      rcases List.mem_cons.mp hd with rfl | hd
      · exact List.mem_cons_self
      · exact List.mem_cons_of_mem _ (hsteps d hd hleft)

/-- A command that writes ends the first loop; the second one goes on with
the arguments behind it. -/
theorem scansAgree_writes {args behind : List CStr} {c : Command} (hwrites : c.writes = true)
    (hpre : preScanSpec args = some { write := true, steps := [⟨args, behind⟩] })
    (hexec : executeSpec args = (executeSpec behind).map fun e =>
      { e with commands := (c, ⟨args, behind⟩) :: e.commands }) :
    ScansAgree args ↔ OperandsPresent behind := by
  rw [scansAgree_spec, ← executeSpec_isSome _ behind (Nat.le_refl _), hpre, hexec]
  simp only [Option.map_eq_some_iff]
  constructor
  · rintro ⟨_, _, _, ⟨e, he, _⟩, _⟩
    exact ⟨e, he⟩
  · rintro ⟨e, he⟩
    refine ⟨_, _, rfl, ⟨e, he, rfl⟩, ?_, ?_⟩
    · simp [hwrites]
    · intro d hd hleft
      rcases List.mem_cons.mp hd with rfl | hd
      · exact List.mem_cons_self
      · have hle := executeSpec_start _ behind e (Nat.le_refl _) he d hd
        simp only [PreScan.left, List.getLast?_singleton] at hleft
        omega

/-- The first loop takes the operand of `get` for a command. -/
theorem scansAgree_get (rest : List CStr) : ¬ScansAgree (wordGet :: rest) := by
  rw [scansAgree_spec]
  rintro ⟨p, e, hp, he, -, hsteps⟩
  have hset : ¬(wordGet = wordSet ∨ wordGet = wordUnset) := by decide
  have hcommit : wordGet ≠ wordCommit := by decide
  rw [preScanSpec_cons, if_neg hset, if_neg hcommit] at hp
  obtain ⟨q, hq, rfl⟩ := Option.map_eq_some_iff.mp hp
  cases rest with
  | nil => cases he
  | cons var behind =>
      have hexec : executeSpec (wordGet :: var :: behind) = (executeSpec behind).map fun e =>
          { e with commands := (.get var, ⟨wordGet :: var :: behind, behind⟩) :: e.commands } := by
        rw [executeSpec_cons]
        rfl
      rw [hexec] at he
      obtain ⟨e, he, rfl⟩ := Option.map_eq_some_iff.mp he
      have hleft := left_le hq
      have hmem := hsteps _ List.mem_cons_self (by
        rw [left_cons]
        simp only [List.length_cons] at hleft ⊢
        omega)
      rcases List.mem_cons.mp hmem with heq | hmem
      · simp at heq
      · have hstart := (preScanSpec_steps hq _ hmem).1
        simp only [List.length_cons] at hstart
        omega

/-- At an argument that is no command only the second loop stops. -/
theorem scansAgree_unknown {arg : CStr} {rest : List CStr} (hplain : plain arg = none)
    (hoperand : withOperand arg = none) :
    ScansAgree (arg :: rest) ↔ ∀ word ∈ rest, word ≠ wordSet ∧ word ≠ wordUnset ∧ word ≠ wordCommit := by
  have hset : ¬(arg = wordSet ∨ arg = wordUnset) := by
    have hnone := withOperand_eq_none.mp hoperand
    tauto
  have hcommit : ¬arg = wordCommit := by
    have hnone := plain_eq_none.mp hplain
    tauto
  have hexec : executeSpec (arg :: rest) = some { commands := [], unknown := some arg } := by
    rw [executeSpec_cons, hplain]
    simp only [hoperand]
  rw [scansAgree_spec, hexec, preScanSpec_cons, if_neg hset, if_neg hcommit, ← preScanSpec_quiet]
  simp only [Option.map_eq_some_iff]
  constructor
  · rintro ⟨_, e, ⟨p, hp, rfl⟩, he, hwrite, _⟩
    cases he
    refine ⟨p, hp, ?_⟩
    simpa using hwrite
  · rintro ⟨p, hp, hwrite⟩
    refine ⟨_, _, ⟨p, hp, rfl⟩, rfl, ?_, ?_⟩
    · simp [hwrite]
    · simp

/-- The two loops agree exactly on regular arguments. -/
theorem scansAgree_iff : ∀ (args : List CStr), ScansAgree args ↔ Regular args := by
  intro args
  induction args with
  | nil =>
      rw [scansAgree_spec]
      simp [preScanSpec, executeSpec, Regular]
  | cons arg rest ih =>
      rw [Regular.eq_def]
      simp only
      by_cases hreads : arg = wordShow ∨ arg = wordInfo
      · rw [if_pos hreads, ← ih]
        rcases hreads with rfl | rfl
        · exact scansAgree_reads (c := .show) rfl rfl (by decide) (by decide)
        · exact scansAgree_reads (c := .info) rfl rfl (by decide) (by decide)
      · rw [if_neg hreads]
        by_cases hset : arg = wordSet ∨ arg = wordUnset
        · rw [if_pos hset]
          cases rest with
          | nil =>
              rw [scansAgree_spec, preScanSpec_cons, if_pos hset]
              simp
          | cons var behind =>
              have hpre : preScanSpec (arg :: var :: behind)
                  = some { write := true, steps := [⟨arg :: var :: behind, behind⟩] } := by
                rw [preScanSpec_cons, if_pos hset]
              rcases hset with rfl | rfl
              · exact scansAgree_writes (c := .set var) rfl hpre (by rw [executeSpec_cons]; rfl)
              · exact scansAgree_writes (c := .unset var) rfl hpre (by rw [executeSpec_cons]; rfl)
        · rw [if_neg hset]
          by_cases hcommit : arg = wordCommit
          · subst hcommit
            rw [if_pos rfl]
            exact scansAgree_writes (c := .commit) rfl rfl (by rw [executeSpec_cons]; rfl)
          · rw [if_neg hcommit]
            by_cases hget : arg = wordGet
            · subst hget
              simp [scansAgree_get]
            · have hplain : plain arg = none := by
                rw [plain_eq_none]
                tauto
              have hoperand : withOperand arg = none := by
                rw [withOperand_eq_none]
                tauto
              simp [scansAgree_unknown hplain hoperand, hget]

/-- `nvram get commit` only reads, but opens the store for writing. -/
theorem scans_getCommit :
    (∃ p, preScan [wordGet, wordCommit] = .done p ∧ p.write = true) ∧
    (∃ e, execute [wordGet, wordCommit] = .done e ∧ ∀ c ∈ e.commands, c.1.writes = false) ∧
    ¬ScansAgree [wordGet, wordCommit] := by
  refine ⟨⟨_, rfl, rfl⟩, ⟨_, rfl, by decide⟩, scansAgree_get _⟩

end UbntSdk.Nvram
