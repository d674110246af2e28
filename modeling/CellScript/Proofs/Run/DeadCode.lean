/-
Module: CellScript.Proofs.Run.DeadCode
Purpose: What stands after a jump in a nested block is never run, so it can be anything.
Main exports: Stmt.isJump, Code.SameLive, Program.SameLive, Stmt.execAll_of_isJump,
  Code.SameLive.exec_eq, Program.run_of_sameLive
-/
import CellScript.Proofs.Run.Execution
import Mathlib.Data.List.Forall2

namespace CellScript

/-!
### Programs that differ in dead code

The statements after a jump are dead in a branch and in the body of a loop. At the root they are
not: a `GOTO` may lead to them.
-/

/-- Whether a statement never goes on to the next one. -/
def Stmt.isJump : Stmt → Bool
  | stop _ => true
  | breakLoop _ => true
  | continueLoop _ => true
  | goto _ _ => true
  | _ => false

/-- Two statements, or the statements of two nested blocks, that differ only in what stands after a
jump in one of their nested blocks. -/
inductive Code.SameLive : Code → Code → Prop where
  | refl (code : Code) : SameLive code code
  | ifElse {token condition yes yes'} (hyes : SameLive (.seq yes) (.seq yes')) :
      SameLive (.stmt (.ifElse token condition yes none))
        (.stmt (.ifElse token condition yes' none))
  | ifBoth {token condition yes yes' no no'} (hyes : SameLive (.seq yes) (.seq yes'))
      (hno : SameLive (.seq no) (.seq no')) :
      SameLive (.stmt (.ifElse token condition yes (some no)))
        (.stmt (.ifElse token condition yes' (some no')))
  | whileLoop {token condition body body'} (hbody : SameLive (.seq body) (.seq body')) :
      SameLive (.stmt (.whileLoop token condition body))
        (.stmt (.whileLoop token condition body'))
  | forLoop {token init init' condition increment increment' body body'}
      (hinit : SameLive (.stmt init) (.stmt init'))
      (hincrement : SameLive (.stmt increment) (.stmt increment'))
      (hbody : SameLive (.seq body) (.seq body')) :
      SameLive (.stmt (.forLoop token init condition increment body))
        (.stmt (.forLoop token init' condition increment' body'))
  | cons {stmt stmt' rest rest'} (hstmt : SameLive (.stmt stmt) (.stmt stmt'))
      (hrest : SameLive (.seq rest) (.seq rest')) :
      SameLive (.seq (stmt :: rest)) (.seq (stmt' :: rest'))
  | jump {stmt} (hjump : stmt.isJump = true) (rest rest' : List Stmt) :
      SameLive (.seq (stmt :: rest)) (.seq (stmt :: rest'))

/-- Two programs that differ only in what stands after a jump in a nested block. Their roots have
the same number of statements. -/
def Program.SameLive (p p' : Program) : Prop :=
  List.Forall₂ (fun stmt stmt' => Code.SameLive (.stmt stmt) (.stmt stmt')) p.body p'.body

/-!
### Jumps

A jump ends with a signal or an error, so that nothing after it matters.
-/

namespace Stmt

variable {s : Settings} {m : Machine} {stmt : Stmt}

theorem exec_ne_normal_of_isJump (h : stmt.isJump = true) : (stmt.exec s m).1 ≠ .ok .normal := by
  rcases Nat.lt_or_ge m.gas s.gasLimit with hgas | hgas
  · cases stmt with
    | stop token =>
        rw [exec, Machine.tick_of_lt hgas]
        simp
    | breakLoop token =>
        rw [exec, Machine.tick_of_lt hgas]
        simp
    | continueLoop token =>
        rw [exec, Machine.tick_of_lt hgas]
        simp
    | goto token target =>
        rw [exec, Machine.tick_of_lt hgas]
        split
        · rcases m.spend.integer s .gotoTarget target with ⟨e | n, m'⟩ <;> simp [Outcome.andThen]
        · simp
    | _ => cases h
  · rw [exec_of_le hgas]
    simp

theorem execAll_of_isJump (h : stmt.isJump = true) (rest : List Stmt) :
    execAll s (stmt :: rest) m = stmt.exec s m := by
  rw [execAll_cons]
  exact Outcome.andThen_isNormal_of_ne (exec_ne_normal_of_isJump h) _

end Stmt

/-!
### Runs

By induction on how the code differs. Where its parts do the same from every state, a loop does the
same in each of its rounds.
-/

theorem Code.SameLive.exec_eq {code code' : Code} (h : code.SameLive code') (s : Settings)
    (m : Machine) : code.exec s m = code'.exec s m := by
  induction h generalizing m with
  | refl code => rfl
  | @ifElse _ _ yes yes' _ ih =>
      have hyes : Stmt.execAll s yes = Stmt.execAll s yes' := funext ih
      simp only [exec, Stmt.exec, Stmt.execElse, hyes]
  | @ifBoth _ _ yes yes' no no' _ _ ihYes ihNo =>
      have hyes : Stmt.execAll s yes = Stmt.execAll s yes' := funext ihYes
      have hno : Stmt.execAll s no = Stmt.execAll s no' := funext ihNo
      simp only [exec, Stmt.exec, Stmt.execElse, hyes, hno]
  | @whileLoop _ _ body body' _ ih =>
      have hbody : Stmt.execAll s body = Stmt.execAll s body' := funext ih
      simp only [exec, Stmt.exec, hbody]
  | @forLoop _ init init' _ increment increment' body body' _ _ _ ihInit ihIncrement ihBody =>
      have hinit : init.exec s = init'.exec s := funext ihInit
      have hincrement : increment.exec s = increment'.exec s := funext ihIncrement
      have hbody : Stmt.execAll s body = Stmt.execAll s body' := funext ihBody
      simp only [exec, Stmt.exec, hinit, hincrement, hbody]
  | @cons stmt stmt' rest rest' _ _ ihStmt ihRest =>
      have hstmt : stmt.exec s m = stmt'.exec s m := ihStmt m
      have hrest : Stmt.execAll s rest = Stmt.execAll s rest' := funext ihRest
      simp only [exec, Stmt.execAll_cons, hstmt, hrest]
  | jump hjump rest rest' =>
      simp only [exec, Stmt.execAll_of_isJump hjump]

namespace Program

variable {p p' : Program} {s : Settings}

/-- The roots go on with statements that correspond, wherever a jump leads. -/
theorem SameLive.runFrom_eq (h : p.SameLive p') (fuel : Nat) {stmts stmts' : List Stmt}
    (hstmts : SameLive ⟨stmts⟩ ⟨stmts'⟩) (m : Machine) :
    p.runFrom s fuel stmts m = p'.runFrom s fuel stmts' m := by
  induction fuel generalizing stmts stmts' m with
  | zero => cases hstmts <;> rfl
  | succ fuel ih =>
      cases hstmts with
      | nil => rfl
      | @cons stmt stmt' rest rest' hstmt hrest =>
          have hexec : stmt.exec s m = stmt'.exec s m := hstmt.exec_eq s m
          rw [runFrom_cons, runFrom_cons, hexec]
          congr 1
          funext signal m
          cases signal with
          | normal => exact ih hrest m
          | stop => rfl
          | breakLoop token => rfl
          | continueLoop token => rfl
          | goto token target =>
              have hlength : p.body.length = p'.body.length := List.Forall₂.length_eq h
              by_cases htarget : 0 ≤ target.toInt ∧ target.toInt.toNat < p'.body.length
              · simp only [proceed, follow, hlength, if_pos htarget]
                exact ih (List.forall₂_drop _ h) m
              · simp only [proceed, follow, hlength, if_neg htarget]

/-- Programs that differ only in what stands after a `STOP`, `BREAK`, `CONTINUE` or `GOTO` in a
branch or in the body of a loop do the same: they have the same result, and leave the same gas,
variables and world, with the same record of texts, commands and writes. -/
theorem run_of_sameLive (s : Settings) (p p' : Program) (h : p.SameLive p') (m : Machine) :
    p.run s m = p'.run s m := by
  rw [run, run, Machine.inBlock_eq, Machine.inBlock_eq, h.runFrom_eq _ h]

end Program

/-- A loop whose branch prints and leaves it. What comes after that in the branch, and after the
`CONTINUE` at the end of the body, are parameters. -/
def printAndLeave (afterBreak afterContinue : List Stmt) : Program :=
  let origin : Position := ⟨0, 0, 0⟩
  let yes : Expr := .literal .bool ⟨.bool, origin⟩ [⟨.one, origin⟩]
  let leave : List Stmt :=
    .print ⟨.print, origin⟩ yes :: .breakLoop ⟨.breakLoop, origin⟩ :: afterBreak
  ⟨[.whileLoop ⟨.whileLoop, origin⟩ yes
    (.ifElse ⟨.ifElse, origin⟩ yes leave none :: .continueLoop ⟨.continueLoop, origin⟩ ::
      afterContinue)]⟩

/-- A command without a hook and a jump that is not allowed do no harm there. -/
theorem run_of_sameLive_printAndLeave :
    (printAndLeave [.command ⟨.command, ⟨0, 0, 0⟩⟩] []).SameLive
        (printAndLeave [] [.goto ⟨.goto, ⟨0, 0, 0⟩⟩ (.constant .pi ⟨.pi, ⟨0, 0, 0⟩⟩)]) ∧
      (printAndLeave [.command ⟨.command, ⟨0, 0, 0⟩⟩] []).run {} {} =
        (printAndLeave [] [.goto ⟨.goto, ⟨0, 0, 0⟩⟩ (.constant .pi ⟨.pi, ⟨0, 0, 0⟩⟩)]).run {} {} ∧
      ((printAndLeave [.command ⟨.command, ⟨0, 0, 0⟩⟩] []).run {} {}).2.world.texts = ["true"] := by
  have hsame : (printAndLeave [.command ⟨.command, ⟨0, 0, 0⟩⟩] []).SameLive
      (printAndLeave [] [.goto ⟨.goto, ⟨0, 0, 0⟩⟩ (.constant .pi ⟨.pi, ⟨0, 0, 0⟩⟩)]) :=
    .cons (.whileLoop (.cons (.ifElse (.cons (.refl _) (.jump rfl _ _))) (.jump rfl _ _))) .nil
  exact ⟨hsame, Program.run_of_sameLive {} _ _ hsame {}, rfl⟩

end CellScript
