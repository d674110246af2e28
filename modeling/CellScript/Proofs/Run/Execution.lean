/-
Module: CellScript.Proofs.Run.Execution
Purpose: Rules of execution that know no number of rounds, and what they say of a gas limit.
Main exports: Code, Code.Runs, Code.runs_iff, Program.Runs, Program.runs_iff, Program.run_gasLimit
-/
import CellScript.Proofs.Run.GasLimit

namespace CellScript

/-!
### Rules of execution

The rules build up an outcome from the outcomes of parts, a loop from its next round. Nothing in
them bounds the rounds of a loop: what has an outcome by these rules comes to an end by itself.
-/

/-- What can be executed. After the body of a loop come the statements of a list. -/
inductive Code where
  | stmt (stmt : Stmt)
  | seq (stmts : List Stmt)
  | block (stmts : List Stmt)
  | loop (statement : TokenKind) (condition : Expr) (body after : List Stmt)

/-- The signal with which a loop ends because of a signal of its body, if it does. -/
def Signal.leaving : Signal → Option Signal
  | normal => none
  | continueLoop _ => none
  | breakLoop _ => some .normal
  | stop => some .stop
  | goto token target => some (.goto token target)

/-- The rules. -/
inductive Code.Runs (s : Settings) : Code → Machine → Outcome Signal → Prop where
  | outOfGas {stmt m} (hgas : s.gasLimit ≤ m.gas) :
      Runs s (.stmt stmt) m (.error (.gasExhausted s.gasLimit), m.spend)
  | basic {stmt m} (hgas : m.gas < s.gasLimit) (hbasic : stmt.isBasic = true) :
      Runs s (.stmt stmt) m (stmt.exec s m)
  | ifFails {token condition yes no m e m'} (hgas : m.gas < s.gasLimit)
      (hcondition : m.spend.condition s .ifElse condition = (.error e, m')) :
      Runs s (.stmt (.ifElse token condition yes no)) m (.error e, m')
  | ifYes {token condition yes no m m' o} (hgas : m.gas < s.gasLimit)
      (hcondition : m.spend.condition s .ifElse condition = (.ok true, m'))
      (hyes : Runs s (.block yes) m' o) :
      Runs s (.stmt (.ifElse token condition yes no)) m o
  | ifNo {token condition yes block m m' o} (hgas : m.gas < s.gasLimit)
      (hcondition : m.spend.condition s .ifElse condition = (.ok false, m'))
      (hno : Runs s (.block block) m' o) :
      Runs s (.stmt (.ifElse token condition yes (some block))) m o
  | ifNeither {token condition yes m m'} (hgas : m.gas < s.gasLimit)
      (hcondition : m.spend.condition s .ifElse condition = (.ok false, m')) :
      Runs s (.stmt (.ifElse token condition yes none)) m (.ok .normal, m')
  | whileLoop {token condition body m o} (hgas : m.gas < s.gasLimit)
      (hloop : Runs s (.loop .whileLoop condition body []) m.spend o) :
      Runs s (.stmt (.whileLoop token condition body)) m o
  | forLoop {token init condition increment body m m' o} (hgas : m.gas < s.gasLimit)
      (hinit : Runs s (.stmt init) m.spend.enter (.ok .normal, m'))
      (hloop : Runs s (.loop .forLoop condition body [increment]) m' o) :
      Runs s (.stmt (.forLoop token init condition increment body)) m (o.leave m.spend)
  | forEnds {token init condition increment body m o} (hgas : m.gas < s.gasLimit)
      (hinit : Runs s (.stmt init) m.spend.enter o) (hends : o.1 ≠ .ok .normal) :
      Runs s (.stmt (.forLoop token init condition increment body)) m (o.leave m.spend)
  | block {stmts m o} (hseq : Runs s (.seq stmts) m.enter o) :
      Runs s (.block stmts) m (o.leave m)
  | nil {m} : Runs s (.seq []) m (.ok .normal, m)
  | next {stmt rest m m' o} (hstmt : Runs s (.stmt stmt) m (.ok .normal, m'))
      (hrest : Runs s (.seq rest) m' o) : Runs s (.seq (stmt :: rest)) m o
  | ends {stmt rest m o} (hstmt : Runs s (.stmt stmt) m o) (hends : o.1 ≠ .ok .normal) :
      Runs s (.seq (stmt :: rest)) m o
  | loopFails {statement condition body after m e m'}
      (hcondition : m.condition s statement condition = (.error e, m')) :
      Runs s (.loop statement condition body after) m (.error e, m')
  | loopDone {statement condition body after m m'}
      (hcondition : m.condition s statement condition = (.ok false, m')) :
      Runs s (.loop statement condition body after) m (.ok .normal, m')
  | bodyFails {statement condition body after m m₁ e m₂}
      (hcondition : m.condition s statement condition = (.ok true, m₁))
      (hbody : Runs s (.block body) m₁ (.error e, m₂)) :
      Runs s (.loop statement condition body after) m (.error e, m₂)
  | bodyLeaves {statement condition body after m m₁ signal m₂ last}
      (hcondition : m.condition s statement condition = (.ok true, m₁))
      (hbody : Runs s (.block body) m₁ (.ok signal, m₂)) (hleaving : signal.leaving = some last) :
      Runs s (.loop statement condition body after) m (.ok last, m₂)
  | afterEnds {statement condition body after m m₁ signal m₂ o}
      (hcondition : m.condition s statement condition = (.ok true, m₁))
      (hbody : Runs s (.block body) m₁ (.ok signal, m₂)) (hleaving : signal.leaving = none)
      (hafter : Runs s (.seq after) m₂ o) (hends : o.1 ≠ .ok .normal) :
      Runs s (.loop statement condition body after) m o
  | again {statement condition body after m m₁ signal m₂ m₃ o}
      (hcondition : m.condition s statement condition = (.ok true, m₁))
      (hbody : Runs s (.block body) m₁ (.ok signal, m₂)) (hleaving : signal.leaving = none)
      (hafter : Runs s (.seq after) m₂ (.ok .normal, m₃))
      (hloop : Runs s (.loop statement condition body after) m₃ o) :
      Runs s (.loop statement condition body after) m o

/-- Execute code. -/
def Code.exec (s : Settings) : Code → Machine → Outcome Signal
  | .stmt x, m => x.exec s m
  | .seq stmts, m => Stmt.execAll s stmts m
  | .block stmts, m => m.inBlock fun m => Stmt.execAll s stmts m
  | .loop statement condition body after, m => Stmt.cycle s statement condition body after m

/-!
### Every execution follows the rules

By recursion on the code. For a loop it is an induction on the gas that is left, since its next
round is a loop with the same code.
-/

theorem Stmt.exec_of_le {s : Settings} {m : Machine} (h : s.gasLimit ≤ m.gas) (stmt : Stmt) :
    stmt.exec s m = (.error (.gasExhausted s.gasLimit), m.spend) := by
  cases stmt <;> rw [Stmt.exec, Machine.tick_of_le h]

namespace Machine

variable {condition : Machine → Outcome Bool} {body after next : Machine → Outcome Signal}
  {m m₁ m₂ : Machine} {signal last : Signal}

theorem afterBody_of_leaving (h : signal.leaving = some last) (m : Machine) :
    afterBody after next signal m = (.ok last, m) := by
  cases signal <;> cases h <;> rfl

theorem afterBody_of_not_leaving (h : signal.leaving = none) (m : Machine) :
    afterBody after next signal m =
      Outcome.andThen (after m) fun signal m =>
        if signal.isNormal then next m else (.ok signal, m) := by
  cases signal <;> cases h <;> rfl

/-- A round whose condition holds, after its body. -/
theorem round_of_body (hcondition : condition m = (.ok true, m₁)) {o : Outcome Signal}
    (hbody : body m₁ = o) :
    round condition body after next m = Outcome.andThen o (afterBody after next) := by
  rw [round, hcondition, ← hbody]
  rfl

/-- A round that comes to what is after its body. -/
theorem round_of_after (hcondition : condition m = (.ok true, m₁))
    (hbody : body m₁ = (.ok signal, m₂)) (hleaving : signal.leaving = none) {o : Outcome Signal}
    (hafter : after m₂ = o) :
    round condition body after next m =
      Outcome.andThen o fun signal m => if signal.isNormal then next m else (.ok signal, m) := by
  rw [round_of_body hcondition hbody, ← hafter]
  exact afterBody_of_not_leaving hleaving m₂

end Machine

theorem Outcome.normal_or (o : Outcome Signal) :
    (∃ m, o = (.ok .normal, m)) ∨ o.1 ≠ .ok .normal := by
  by_cases h : o.1 = .ok .normal
  · exact .inl ⟨o.2, Prod.ext h rfl⟩
  · exact .inr h

/-- An outcome that does not go on to the next statement is passed on. -/
theorem Outcome.andThen_isNormal_of_ne {o : Outcome Signal} (h : o.1 ≠ .ok .normal)
    (next : Machine → Outcome Signal) :
    (o.andThen fun signal m => if signal.isNormal then next m else (.ok signal, m)) = o := by
  obtain ⟨e | signal, m⟩ := o
  · rfl
  · cases signal with
    | normal => exact absurd rfl h
    | stop => rfl
    | breakLoop token => rfl
    | continueLoop token => rfl
    | goto token target => rfl

namespace Code

variable {s : Settings}

/-- Only a statement that has the gas to start needs a rule of its own. -/
theorem runs_of_lt {stmt : Stmt} {m : Machine}
    (h : m.gas < s.gasLimit → Runs s (.stmt stmt) m (stmt.exec s m)) :
    Runs s (.stmt stmt) m (stmt.exec s m) := by
  by_cases hgas : m.gas < s.gasLimit
  · exact h hgas
  · rw [Stmt.exec_of_le (Nat.le_of_not_lt hgas)]
    exact .outOfGas (Nat.le_of_not_lt hgas)

theorem runs_basic {stmt : Stmt} (m : Machine) (h : stmt.isBasic = true) :
    Runs s (.stmt stmt) m (stmt.exec s m) :=
  runs_of_lt fun hgas => .basic hgas h

theorem runs_cons {stmt : Stmt} {rest : List Stmt} {m : Machine}
    (hstmt : Runs s (.stmt stmt) m (stmt.exec s m))
    (hrest : ∀ m, Runs s (.seq rest) m (Stmt.execAll s rest m)) :
    Runs s (.seq (stmt :: rest)) m (Stmt.execAll s (stmt :: rest) m) := by
  rw [Stmt.execAll_cons]
  rcases Outcome.normal_or (stmt.exec s m) with ⟨m', hexec⟩ | hends
  · rw [hexec] at hstmt ⊢
    exact .next hstmt (hrest m')
  · rw [Outcome.andThen_isNormal_of_ne hends]
    exact .ends hstmt hends

theorem runs_cycle {statement : TokenKind} {condition : Expr} {body after : List Stmt}
    (hbody : ∀ m, Runs s (.seq body) m (Stmt.execAll s body m))
    (hafter : ∀ m, Runs s (.seq after) m (Stmt.execAll s after m)) {m : Machine}
    (hm : m.gas ≤ s.gasLimit) :
    Runs s (.loop statement condition body after) m
      (Stmt.cycle s statement condition body after m) := by
  induction hleft : s.gasLimit - m.gas using Nat.strongRecOn generalizing m with
  | ind left ih =>
      rw [Stmt.cycle_eq hm, Machine.round]
      rcases hcondition : m.condition s statement condition with ⟨e | _ | _, m₁⟩
      · exact .loopFails hcondition
      · exact .loopDone hcondition
      · obtain ⟨hgas₁, hlimit₁⟩ := Stmt.spends_condition s statement condition hcondition hm
        have hblock : Runs s (.block body) m₁ (m₁.inBlock fun m => Stmt.execAll s body m) :=
          .block (hbody m₁.enter)
        simp only [Outcome.andThen, if_true]
        rcases hexec : m₁.inBlock fun m => Stmt.execAll s body m with ⟨e | signal, m₂⟩
        · rw [hexec] at hblock
          exact .bodyFails hcondition hblock
        · rw [hexec] at hblock
          obtain ⟨hgas₂, hlimit₂⟩ := Stmt.spendsBlock s body hexec hlimit₁
          rcases hleaving : signal.leaving with _ | last
          · simp only [Machine.afterBody_of_not_leaving hleaving]
            have hseq := hafter m₂
            rcases Outcome.normal_or (Stmt.execAll s after m₂) with ⟨m₃, hall⟩ | hends
            · rw [hall] at hseq ⊢
              obtain ⟨hgas₃, hlimit₃⟩ := Stmt.spendsAll s after hall hlimit₂
              exact .again hcondition hblock hleaving hseq
                (ih (s.gasLimit - m₃.gas) (by omega) hlimit₃ rfl)
            · rw [Outcome.andThen_isNormal_of_ne hends]
              exact .afterEnds hcondition hblock hleaving hseq hends
          · simp only [Machine.afterBody_of_leaving hleaving]
            exact .bodyLeaves hcondition hblock hleaving

end Code

mutual

theorem Stmt.runs_exec (s : Settings) :
    ∀ (stmt : Stmt) (m : Machine), Code.Runs s (.stmt stmt) m (stmt.exec s m)
  | .ifElse token condition yes no, m => by
      refine Code.runs_of_lt fun hgas => ?_
      rw [Stmt.exec, Machine.tick_of_lt hgas]
      rcases hcondition : m.spend.condition s .ifElse condition with ⟨e | _ | _, m'⟩
      · exact .ifFails hgas hcondition
      · cases no with
        | none => exact .ifNeither hgas hcondition
        | some block => exact .ifNo hgas hcondition (.block (Stmt.runs_execAll s block m'.enter))
      · exact .ifYes hgas hcondition (.block (Stmt.runs_execAll s yes m'.enter))
  | .whileLoop token condition body, m => by
      refine Code.runs_of_lt fun hgas => ?_
      rw [Stmt.exec_whileLoop, Machine.tick_of_lt hgas]
      exact .whileLoop hgas (Code.runs_cycle (Stmt.runs_execAll s body) (fun _ => .nil) hgas)
  | .forLoop token init condition increment body, m => by
      refine Code.runs_of_lt fun hgas => ?_
      rw [Stmt.exec_forLoop, Machine.tick_of_lt hgas, Machine.inBlock_eq]
      have hinit := Stmt.runs_exec s init m.spend.enter
      rcases Outcome.normal_or (init.exec s m.spend.enter) with ⟨m', hexec⟩ | hends
      · rw [hexec] at hinit ⊢
        obtain ⟨_, hlimit⟩ := init.spends s hexec hgas
        have hincrement m := Code.runs_cons (Stmt.runs_exec s increment m) fun _ => .nil
        exact .forLoop hgas hinit
          (Code.runs_cycle (Stmt.runs_execAll s body) hincrement hlimit)
      · rw [Outcome.andThen_isNormal_of_ne hends]
        exact .forEnds hgas hinit hends
  | .assign type token chain value, m => Code.runs_basic m rfl
  | .command token, m => Code.runs_basic m rfl
  | .stop token, m => Code.runs_basic m rfl
  | .breakLoop token, m => Code.runs_basic m rfl
  | .continueLoop token, m => Code.runs_basic m rfl
  | .print token value, m => Code.runs_basic m rfl
  | .goto token target, m => Code.runs_basic m rfl
  | .place token x y z pos template, m => Code.runs_basic m rfl

theorem Stmt.runs_execAll (s : Settings) :
    ∀ (stmts : List Stmt) (m : Machine), Code.Runs s (.seq stmts) m (Stmt.execAll s stmts m)
  | [], _ => .nil
  | stmt :: rest, m => Code.runs_cons (Stmt.runs_exec s stmt m) (Stmt.runs_execAll s rest)

end

/-!
### The rules give no other outcome

By induction on the rules, from within the limit. Each premise starts within the limit again, for
what came before it has succeeded.
-/

theorem Code.Runs.exec_eq {s : Settings} {code : Code} {m : Machine} {o : Outcome Signal}
    (h : Code.Runs s code m o) (hm : m.gas ≤ s.gasLimit) : code.exec s m = o := by
  induction h with
  | outOfGas hgas => exact Stmt.exec_of_le hgas _
  | basic hgas hbasic => rfl
  | ifFails hgas hcondition =>
      rw [Code.exec, Stmt.exec, Machine.tick_of_lt hgas, hcondition]
      rfl
  | ifYes hgas hcondition hyes ih =>
      obtain ⟨_, hlimit⟩ := Stmt.spends_condition s _ _ hcondition hgas
      rw [Code.exec, Stmt.exec, Machine.tick_of_lt hgas, hcondition]
      exact ih hlimit
  | ifNo hgas hcondition hno ih =>
      obtain ⟨_, hlimit⟩ := Stmt.spends_condition s _ _ hcondition hgas
      rw [Code.exec, Stmt.exec, Machine.tick_of_lt hgas, hcondition]
      exact ih hlimit
  | ifNeither hgas hcondition =>
      rw [Code.exec, Stmt.exec, Machine.tick_of_lt hgas, hcondition]
      rfl
  | whileLoop hgas hloop ih =>
      rw [Code.exec, Stmt.exec_whileLoop, Machine.tick_of_lt hgas]
      exact ih hgas
  | forLoop hgas hinit hloop ihInit ihLoop =>
      have hexec : Stmt.exec s _ _ = _ := ihInit hgas
      obtain ⟨_, hlimit⟩ := Stmt.spends s _ hexec hgas
      rw [Code.exec, Stmt.exec_forLoop, Machine.tick_of_lt hgas, Machine.inBlock_eq, hexec,
        ← ihLoop hlimit]
      rfl
  | forEnds hgas hinit hends ih =>
      have hexec : Stmt.exec s _ _ = _ := ih hgas
      rw [Code.exec, Stmt.exec_forLoop, Machine.tick_of_lt hgas, Machine.inBlock_eq, hexec,
        Outcome.andThen_isNormal_of_ne hends]
  | block hseq ih => exact congrArg (Outcome.leave · _) (ih hm)
  | nil => rfl
  | next hstmt hrest ihStmt ihRest =>
      have hexec : Stmt.exec s _ _ = _ := ihStmt hm
      obtain ⟨_, hlimit⟩ := Stmt.spends s _ hexec hm
      rw [Code.exec, Stmt.execAll_cons, hexec]
      exact ihRest hlimit
  | ends hstmt hends ih =>
      have hexec : Stmt.exec s _ _ = _ := ih hm
      rw [Code.exec, Stmt.execAll_cons, hexec, Outcome.andThen_isNormal_of_ne hends]
  | loopFails hcondition =>
      rw [Code.exec, Stmt.cycle_eq hm, Machine.round, hcondition]
      rfl
  | loopDone hcondition =>
      rw [Code.exec, Stmt.cycle_eq hm, Machine.round, hcondition]
      rfl
  | bodyFails hcondition hbody ih =>
      obtain ⟨_, hlimit⟩ := Stmt.spends_condition s _ _ hcondition hm
      exact (Stmt.cycle_eq hm).trans (Machine.round_of_body hcondition (ih hlimit))
  | bodyLeaves hcondition hbody hleaving ih =>
      obtain ⟨_, hlimit⟩ := Stmt.spends_condition s _ _ hcondition hm
      refine (Stmt.cycle_eq hm).trans ((Machine.round_of_body hcondition (ih hlimit)).trans ?_)
      exact Machine.afterBody_of_leaving hleaving _
  | afterEnds hcondition hbody hleaving hafter hends ihBody ihAfter =>
      obtain ⟨_, hlimit₁⟩ := Stmt.spends_condition s _ _ hcondition hm
      obtain ⟨_, hlimit₂⟩ := Stmt.spendsBlock s _ (ihBody hlimit₁) hlimit₁
      have hround := (Stmt.cycle_eq hm).trans
        (Machine.round_of_after hcondition (ihBody hlimit₁) hleaving (ihAfter hlimit₂))
      exact hround.trans (Outcome.andThen_isNormal_of_ne hends _)
  | again hcondition hbody hleaving hafter hloop ihBody ihAfter ihLoop =>
      obtain ⟨_, hlimit₁⟩ := Stmt.spends_condition s _ _ hcondition hm
      obtain ⟨_, hlimit₂⟩ := Stmt.spendsBlock s _ (ihBody hlimit₁) hlimit₁
      obtain ⟨_, hlimit₃⟩ := Stmt.spendsAll s _ (ihAfter hlimit₂) hlimit₂
      have hround := (Stmt.cycle_eq hm).trans
        (Machine.round_of_after hcondition (ihBody hlimit₁) hleaving (ihAfter hlimit₂))
      exact hround.trans (ihLoop hlimit₃)

theorem Code.runs_iff {s : Settings} {code : Code} {m : Machine} {o : Outcome Signal}
    (hm : m.gas ≤ s.gasLimit) : Code.Runs s code m o ↔ code.exec s m = o := by
  constructor
  · exact fun h => h.exec_eq hm
  · rintro rfl
    cases code with
    | stmt x => exact Stmt.runs_exec s x m
    | seq stmts => exact Stmt.runs_execAll s stmts m
    | block stmts => exact .block (Stmt.runs_execAll s stmts m.enter)
    | loop statement condition body after =>
        exact Code.runs_cycle (Stmt.runs_execAll s body) (Stmt.runs_execAll s after) hm

/-!
### The root

The root goes from statement to statement, with jumps back as well as on.
-/

namespace Program

/-- The rules for the rest of the root. -/
inductive RunsFrom (s : Settings) (program : Program) :
    List Stmt → Machine → Outcome Unit → Prop where
  | done {m} : RunsFrom s program [] m (.ok (), m)
  | fails {stmt rest m e m'} (hstmt : Code.Runs s (.stmt stmt) m (.error e, m')) :
      RunsFrom s program (stmt :: rest) m (.error e, m')
  | refused {stmt rest m signal m' e} (hstmt : Code.Runs s (.stmt stmt) m (.ok signal, m'))
      (hfollow : program.follow rest signal = .error e) :
      RunsFrom s program (stmt :: rest) m (.error e, m')
  | stops {stmt rest m signal m'} (hstmt : Code.Runs s (.stmt stmt) m (.ok signal, m'))
      (hfollow : program.follow rest signal = .ok none) :
      RunsFrom s program (stmt :: rest) m (.ok (), m')
  | goesOn {stmt rest m signal m' stmts o} (hstmt : Code.Runs s (.stmt stmt) m (.ok signal, m'))
      (hfollow : program.follow rest signal = .ok (some stmts))
      (hrest : RunsFrom s program stmts m' o) : RunsFrom s program (stmt :: rest) m o

/-- The outcomes of a program: those of its root, in a block of its own. -/
def Runs (s : Settings) (program : Program) (m : Machine) (o : Outcome Unit) : Prop :=
  ∃ root, RunsFrom s program program.body m.enter root ∧ o = root.leave m

variable {s : Settings} {program : Program} {m : Machine}

theorem runsFrom_runRest {stmts : List Stmt} (hm : m.gas ≤ s.gasLimit) :
    RunsFrom s program stmts m (program.runRest s stmts m) := by
  induction hleft : s.gasLimit - m.gas using Nat.strongRecOn generalizing stmts m with
  | ind left ih =>
      cases stmts with
      | nil => exact .done
      | cons stmt rest =>
          have hstmt : Code.Runs s (.stmt stmt) m (stmt.exec s m) := (Code.runs_iff hm).2 rfl
          rw [runRest_cons program stmt rest hm]
          rcases hexec : stmt.exec s m with ⟨e | signal, m'⟩
          · rw [hexec] at hstmt
            exact .fails hstmt
          · rw [hexec] at hstmt
            obtain ⟨hlt, hlimit⟩ := stmt.spends s hexec hm
            simp only [Outcome.andThen, proceed]
            rcases hfollow : program.follow rest signal with e | _ | stmts
            · exact .refused hstmt hfollow
            · exact .stops hstmt hfollow
            · exact .goesOn hstmt hfollow (ih (s.gasLimit - m'.gas) (by omega) hlimit rfl)

theorem RunsFrom.runRest_eq {stmts : List Stmt} {o : Outcome Unit}
    (h : RunsFrom s program stmts m o) (hm : m.gas ≤ s.gasLimit) :
    program.runRest s stmts m = o := by
  induction h with
  | done => rfl
  | fails hstmt =>
      have hexec : Stmt.exec s _ _ = _ := (Code.runs_iff hm).1 hstmt
      rw [runRest_cons program _ _ hm, hexec]
      rfl
  | refused hstmt hfollow =>
      have hexec : Stmt.exec s _ _ = _ := (Code.runs_iff hm).1 hstmt
      rw [runRest_cons program _ _ hm, hexec]
      simp only [Outcome.andThen, proceed, hfollow]
  | stops hstmt hfollow =>
      have hexec : Stmt.exec s _ _ = _ := (Code.runs_iff hm).1 hstmt
      rw [runRest_cons program _ _ hm, hexec]
      simp only [Outcome.andThen, proceed, hfollow]
  | goesOn hstmt hfollow hrest ih =>
      have hexec : Stmt.exec s _ _ = _ := (Code.runs_iff hm).1 hstmt
      obtain ⟨_, hlimit⟩ := Stmt.spends s _ hexec hm
      rw [runRest_cons program _ _ hm, hexec]
      simp only [Outcome.andThen, proceed, hfollow]
      exact ih hlimit

/-- A program has exactly one outcome by the rules, and it is the one that the run computes. -/
theorem runs_iff {o : Outcome Unit} (hm : m.gas ≤ s.gasLimit) :
    program.Runs s m o ↔ o = program.run s m := by
  have hrun : program.run s m = (program.runRest s program.body m.enter).leave m := rfl
  constructor
  · rintro ⟨root, hroot, rfl⟩
    rw [hrun, hroot.runRest_eq hm]
  · rintro rfl
    exact ⟨_, runsFrom_runRest hm, hrun⟩

/-!
### What a gas limit does

A run under a limit comes to an end. The limit is not seen in a run that ends within it, and of such
a run any lower limit leaves a part.
-/

theorem metered_run (program : Program) (hm : m.gas ≤ s.gasLimit) :
    Metered s.gasLimit 0 m (program.run s m) :=
  (program.truncates_run s (Nat.le_refl s.gasLimit) m).metered hm

/-- Any limit that the gas of a finished run allows gives the same run, be it lower or higher. -/
theorem run_eq_of_gas_le (hm : m.gas ≤ s.gasLimit)
    (hfinished : ∀ limit, (program.run s m).1 ≠ .error (.gasExhausted limit)) {limit : Nat}
    (hlimit : (program.run s m).2.gas ≤ limit) :
    program.run (s.withLimit limit) m = program.run s m := by
  have hmetered := program.metered_run hm
  rcases Nat.le_total limit s.gasLimit with hle | hle
  · have hstart := Nat.le_trans hmetered.gas_le hlimit
    rcases (program.truncates_run s hle m).truncated hstart with ⟨heq, _⟩ | ⟨_, hlt, _⟩
    · exact heq
    · exact absurd hlimit (Nat.not_le_of_lt hlt)
  · rcases (program.truncates_run s hle m).truncated hm with ⟨heq, _⟩ | ⟨⟨herror, _⟩, _⟩
    · exact heq.symm
    · exact absurd herror (hfinished _)

/-- A limit below the gas of a finished run cuts it off. -/
theorem run_exhausted_of_lt (hm : m.gas ≤ s.gasLimit)
    (hfinished : ∀ limit, (program.run s m).1 ≠ .error (.gasExhausted limit)) {limit : Nat}
    (hlow : m.gas ≤ limit) (hlt : limit < (program.run s m).2.gas) :
    (program.run (s.withLimit limit) m).Exhausted limit ∧
      (program.run (s.withLimit limit) m).2.world.trace <+: (program.run s m).2.world.trace := by
  have hmetered := program.metered_run hm
  have hle : limit ≤ s.gasLimit := by
    rcases hmetered.ends with ⟨_, hgas⟩ | ⟨herror, _⟩
    · omega
    · exact absurd herror (hfinished _)
  rcases (program.truncates_run s hle m).truncated hlow with ⟨_, _, hgas⟩ | ⟨hcut, _, htrace⟩
  · exact absurd hgas (Nat.not_le_of_lt hlt)
  · exact ⟨hcut, htrace⟩

/-- A run ends by itself, with at most one unit more than the limit. If it does not end for want of
gas, then it is the run under all limits that its gas allows, and under any lower one it is cut off
at the first unit too many, with a part of its effects. -/
theorem run_withLimit (s : Settings) (program : Program) (m : Machine)
    (hm : m.gas ≤ s.gasLimit) :
    (∀ o, program.Runs s m o ↔ o = program.run s m) ∧
      (program.run s m).2.gas ≤ s.gasLimit + 1 ∧
      ((∀ limit, (program.run s m).1 ≠ .error (.gasExhausted limit)) →
        (∀ limit, (program.run s m).2.gas ≤ limit →
          program.run (s.withLimit limit) m = program.run s m) ∧
        ∀ limit, m.gas ≤ limit → limit < (program.run s m).2.gas →
          (program.run (s.withLimit limit) m).1 = .error (.gasExhausted limit) ∧
          (program.run (s.withLimit limit) m).2.gas = limit + 1 ∧
          (program.run (s.withLimit limit) m).2.world.texts <+:
            (program.run s m).2.world.texts ∧
          (program.run (s.withLimit limit) m).2.world.commands <+:
            (program.run s m).2.world.commands ∧
          (program.run (s.withLimit limit) m).2.world.writes <+:
            (program.run s m).2.world.writes) := by
  have hmetered := program.metered_run hm
  refine ⟨fun o => runs_iff hm, ?_, fun hfinished => ⟨fun limit hlimit => ?_, ?_⟩⟩
  · rcases hmetered.ends with ⟨_, hgas⟩ | ⟨_, hgas⟩ <;> omega
  · exact run_eq_of_gas_le hm hfinished hlimit
  · intro limit hlow hlt
    obtain ⟨hgas, htrace⟩ := run_exhausted_of_lt hm hfinished hlow hlt
    exact ⟨hgas.1, hgas.2, htrace.filterMap _, htrace.filterMap _, htrace.filterMap _⟩

end Program

/-- A loop that prints and leaves in its first round. -/
def printAndBreak : Program :=
  let origin : Position := ⟨0, 0, 0⟩
  let yes : Expr := .literal .bool ⟨.bool, origin⟩ [⟨.one, origin⟩]
  ⟨[.whileLoop ⟨.whileLoop, origin⟩ yes
    [.print ⟨.print, origin⟩ yes, .breakLoop ⟨.breakLoop, origin⟩]]⟩

/-- Five units are enough for it; with four it has printed when it is cut off. -/
theorem run_withLimit_printAndBreak :
    (printAndBreak.run { gasLimit := 10 } {}).2.gas = 5 ∧
      (∀ limit, 5 ≤ limit → printAndBreak.run { gasLimit := limit } {} =
        printAndBreak.run { gasLimit := 10 } {}) ∧
      (printAndBreak.run { gasLimit := 4 } {}).1 = .error (.gasExhausted 4) ∧
      (printAndBreak.run { gasLimit := 4 } {}).2.world.texts = ["true"] ∧
      (printAndBreak.run { gasLimit := 4 } {}).2.world.texts <+:
        (printAndBreak.run { gasLimit := 10 } {}).2.world.texts := by
  have hgas : (printAndBreak.run { gasLimit := 10 } {}).2.gas = 5 := by rfl
  have hresult : (printAndBreak.run { gasLimit := 10 } {}).1 = .ok () := by rfl
  have hfinished : ∀ limit, (printAndBreak.run { gasLimit := 10 } {}).1 ≠
      .error (.gasExhausted limit) := by
    intro limit h
    rw [hresult] at h
    cases h
  obtain ⟨hsame, hcut⟩ :=
    (Program.run_withLimit { gasLimit := 10 } printAndBreak {} (by decide)).2.2 hfinished
  rw [hgas] at hsame hcut
  obtain ⟨herror, _, htexts, _⟩ := hcut 4 (by decide) (by decide)
  exact ⟨hgas, hsame, herror, by rfl, htexts⟩

end CellScript
