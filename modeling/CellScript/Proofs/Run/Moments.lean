/-
Module: CellScript.Proofs.Run.Moments
Purpose: The states that a run goes through: those in which something that it executes starts or
  has ended. What gas and blocks do not touch, and basic statements keep, is true in all of them.
Main exports: Code.Calls, Program.Reaches, Program.Passes, Program.Invariant,
  Program.Invariant.passes
-/
import CellScript.Proofs.Run.Execution
import CellScript.Proofs.Run.Law
import Mathlib.Logic.Relation

namespace CellScript

/-!
### What executing code executes

Each rule of execution has the outcomes of parts as its premises, and each such premise is a call. A
part is executed from the state that the parts before it have led to.
-/

namespace Code

/-- Executing code in a state executes other code, in the state that it has come to by then. -/
inductive Calls (s : Settings) : Code × Machine → Code × Machine → Prop where
  | yes {token condition yes no m m'} (hgas : m.gas < s.gasLimit)
      (hcondition : m.spend.condition s .ifElse condition = (.ok true, m')) :
      Calls s (.stmt (.ifElse token condition yes no), m) (.block yes, m')
  | no {token condition yes block m m'} (hgas : m.gas < s.gasLimit)
      (hcondition : m.spend.condition s .ifElse condition = (.ok false, m')) :
      Calls s (.stmt (.ifElse token condition yes (some block)), m) (.block block, m')
  | whileLoop {token condition body m} (hgas : m.gas < s.gasLimit) :
      Calls s (.stmt (.whileLoop token condition body), m)
        (.loop .whileLoop condition body [], m.spend)
  | init {token init condition increment body m} (hgas : m.gas < s.gasLimit) :
      Calls s (.stmt (.forLoop token init condition increment body), m)
        (.stmt init, m.spend.enter)
  | forLoop {token init condition increment body m m'} (hgas : m.gas < s.gasLimit)
      (hinit : init.exec s m.spend.enter = (.ok .normal, m')) :
      Calls s (.stmt (.forLoop token init condition increment body), m)
        (.loop .forLoop condition body [increment], m')
  | block {stmts m} : Calls s (.block stmts, m) (.seq stmts, m.enter)
  | first {stmt rest m} : Calls s (.seq (stmt :: rest), m) (.stmt stmt, m)
  | rest {stmt rest m m'} (hstmt : stmt.exec s m = (.ok .normal, m')) :
      Calls s (.seq (stmt :: rest), m) (.seq rest, m')
  | body {statement condition body after m m₁}
      (hcondition : m.condition s statement condition = (.ok true, m₁)) :
      Calls s (.loop statement condition body after, m) (.block body, m₁)
  | after {statement condition body after m m₁ signal m₂}
      (hcondition : m.condition s statement condition = (.ok true, m₁))
      (hbody : exec s (.block body) m₁ = (.ok signal, m₂)) (hleaving : signal.leaving = none) :
      Calls s (.loop statement condition body after, m) (.seq after, m₂)
  | again {statement condition body after m m₁ signal m₂ m₃}
      (hcondition : m.condition s statement condition = (.ok true, m₁))
      (hbody : exec s (.block body) m₁ = (.ok signal, m₂)) (hleaving : signal.leaving = none)
      (hafter : exec s (.seq after) m₂ = (.ok .normal, m₃)) :
      Calls s (.loop statement condition body after, m) (.loop statement condition body after, m₃)

/-- The statements that code may execute itself. -/
def stmts : Code → List Stmt
  | .stmt x => [x]
  | .seq l => l
  | .block l => l
  | .loop _ _ body after => body ++ after

/-- What code of a program executes is of the program too. -/
theorem Calls.hasStmt {s : Settings} {program : Program} {c c' : Code × Machine}
    (h : Calls s c c') (hcode : ∀ x ∈ c.1.stmts, program.HasStmt x) :
    ∀ x ∈ c'.1.stmts, program.HasStmt x := by
  intro x hx
  cases h with
  | yes => exact (hcode _ List.mem_cons_self).child (List.mem_append_left _ hx)
  | no => exact (hcode _ List.mem_cons_self).child (List.mem_append_right _ hx)
  | whileLoop =>
      rw [stmts, List.append_nil] at hx
      exact (hcode _ List.mem_cons_self).child hx
  | init =>
      cases List.mem_singleton.1 hx
      exact (hcode _ List.mem_cons_self).child List.mem_cons_self
  | forLoop =>
      apply (hcode _ List.mem_cons_self).child
      rcases List.mem_append.1 hx with hx | hx
      · exact List.mem_cons_of_mem _ (List.mem_cons_of_mem _ hx)
      · cases List.mem_singleton.1 hx
        exact List.mem_cons_of_mem _ List.mem_cons_self
  | block => exact hcode x hx
  | first =>
      cases List.mem_singleton.1 hx
      exact hcode _ List.mem_cons_self
  | rest => exact hcode x (List.mem_cons_of_mem _ hx)
  | body => exact hcode x (List.mem_append_left _ hx)
  | after => exact hcode x (List.mem_append_right _ hx)
  | again => exact hcode x hx

end Code

namespace Program

/-!
### Moments of a run

Between the moments listed here nothing but gas changes: a basic statement changes the variables or
the world once, as the last thing that it does.
-/

/-- The root comes to a rest of its statements, by jumps too. -/
inductive Reaches (s : Settings) (program : Program) (m : Machine) :
    List Stmt → Machine → Prop where
  | start : Reaches s program m program.body m.enter
  | next {stmt rest stmts signal m₁ m₂} (h : Reaches s program m (stmt :: rest) m₁)
      (hstmt : stmt.exec s m₁ = (.ok signal, m₂))
      (hfollow : program.follow rest signal = .ok (some stmts)) : Reaches s program m stmts m₂

/-- Code is executed in the course of a run, from a state. -/
def Executes (s : Settings) (program : Program) (m : Machine) (code : Code) (m' : Machine) : Prop :=
  ∃ stmt rest m₁, program.Reaches s m (stmt :: rest) m₁ ∧
    Relation.ReflTransGen (Code.Calls s) (.stmt stmt, m₁) (code, m')

/-- The states that a run goes through: before and after the whole, before and after everything that
is executed in its course, and where the root has come to. -/
inductive Passes (s : Settings) (program : Program) (m : Machine) : Machine → Prop where
  | start : Passes s program m m
  | root {stmts m'} (h : program.Reaches s m stmts m') : Passes s program m m'
  | before {code m'} (h : program.Executes s m code m') : Passes s program m m'
  | after {code m'} (h : program.Executes s m code m') : Passes s program m (code.exec s m').2
  | finish : Passes s program m (program.run s m).2

/-!
### Invariants

What one step keeps, a run keeps. It is enough to look at the basic statements of the program.
-/

/-- A property of states that a run keeps: gas and blocks do not matter to it, and every basic
statement of the program keeps it, whatever its outcome. -/
structure Invariant (s : Settings) (program : Program) (I : Machine → Prop) : Prop where
  gas : ∀ m gas, I m → I { m with gas }
  enter : ∀ m, I m → I m.enter
  exit : ∀ m depth, I m → I { m with scopes := m.scopes.exit depth }
  basic : ∀ stmt, program.HasStmt stmt → stmt.isBasic = true → ∀ m, I m → I (stmt.exec s m).2

namespace Invariant

variable {s : Settings} {program : Program} {I : Machine → Prop} {m m' : Machine} {code : Code}

theorem nests (h : program.Invariant s I) : Machine.Nests fun m m' => I m → I m' where
  refl := fun _ hm => hm
  trans := fun hfirst hsecond hm => hsecond (hfirst hm)
  gas := h.gas
  block := fun hbody hm => h.exit _ _ (hbody (h.enter _ hm))

theorem stmt (h : program.Invariant s I) {stmt : Stmt} (hstmt : program.HasStmt stmt) (hm : I m) :
    I (stmt.exec s m).2 :=
  h.nests.exec (fun _ hparent _ => hparent.child) h.basic stmt hstmt m hm

/-- Code made from statements of the program keeps an invariant. -/
theorem exec (h : program.Invariant s I) (hcode : ∀ stmt ∈ code.stmts, program.HasStmt stmt)
    (hm : I m) : I (code.exec s m).2 := by
  have hall {stmts : List Stmt} (hstmts : ∀ stmt ∈ stmts, program.HasStmt stmt) :
      Machine.Moves (fun m m' => I m → I m') (Stmt.execAll s stmts) :=
    h.nests.execAll (fun _ hparent _ => hparent.child) h.basic stmts hstmts
  cases code with
  | stmt x => exact h.stmt (hcode x List.mem_cons_self) hm
  | seq stmts => exact hall hcode m hm
  | block stmts => exact h.nests.inBlock (hall hcode) m hm
  | loop statement condition body after =>
      have hbody := hall fun stmt hstmt => hcode stmt (List.mem_append_left _ hstmt)
      have hafter := hall fun stmt hstmt => hcode stmt (List.mem_append_right _ hstmt)
      exact h.nests.cycle (h.nests.evalAs _ _ condition) (h.nests.inBlock hbody) hafter m hm

theorem exec_eq (h : program.Invariant s I) {r : Except EvalError Signal}
    (hexec : code.exec s m = (r, m')) (hcode : ∀ stmt ∈ code.stmts, program.HasStmt stmt)
    (hm : I m) : I m' := by
  have hend := h.exec hcode hm
  rwa [hexec] at hend

theorem condition (h : program.Invariant s I) {statement : TokenKind} {condition : Expr}
    {r : Except EvalError Bool} (hcondition : m.condition s statement condition = (r, m'))
    (hm : I m) : I m' := by
  have hend : I (m.condition s statement condition).2 := h.nests.evalAs _ _ condition m hm
  rwa [hcondition] at hend

/-- What code executes starts in a state in which the invariant is true. -/
theorem calls (h : program.Invariant s I) {c c' : Code × Machine} (hcalls : Code.Calls s c c')
    (hcode : ∀ stmt ∈ c.1.stmts, program.HasStmt stmt) (hm : I c.2) : I c'.2 := by
  have hspend : ∀ m, I m → I m.spend := fun m => h.gas m (m.gas + 1)
  cases hcalls with
  | yes hgas hcondition => exact h.condition hcondition (hspend _ hm)
  | no hgas hcondition => exact h.condition hcondition (hspend _ hm)
  | whileLoop hgas => exact hspend _ hm
  | init hgas => exact h.enter _ (hspend _ hm)
  | forLoop hgas hinit =>
      have hfirst := (hcode _ List.mem_cons_self).child List.mem_cons_self
      have hend := h.stmt hfirst (h.enter _ (hspend _ hm))
      rwa [hinit] at hend
  | block => exact h.enter _ hm
  | first => exact hm
  | rest hstmt =>
      have hend := h.stmt (hcode _ List.mem_cons_self) hm
      rwa [hstmt] at hend
  | body hcondition => exact h.condition hcondition hm
  | after hcondition hbody hleaving =>
      exact h.exec_eq hbody (fun n hn => hcode n (List.mem_append_left _ hn))
        (h.condition hcondition hm)
  | again hcondition hbody hleaving hafter =>
      have hm₂ := h.exec_eq hbody (fun n hn => hcode n (List.mem_append_left _ hn))
        (h.condition hcondition hm)
      exact h.exec_eq hafter (fun n hn => hcode n (List.mem_append_right _ hn)) hm₂

/-- An invariant holds wherever the root is, and what is left to run is a part of the root. -/
theorem reaches (h : program.Invariant s I) (hm : I m) {stmts : List Stmt}
    (hreaches : program.Reaches s m stmts m') : stmts ⊆ program.body ∧ I m' := by
  induction hreaches with
  | start => exact ⟨List.Subset.refl _, h.enter _ hm⟩
  | next _ hstmt hfollow ih =>
      obtain ⟨hsubset, hm₁⟩ := ih
      obtain ⟨hmem, hrest⟩ := List.cons_subset.1 hsubset
      have hend := h.stmt (.of_mem hmem) hm₁
      rw [hstmt] at hend
      exact ⟨subset_of_follow hrest hfollow, hend⟩

/-- An invariant holds wherever code of the program is about to run. -/
theorem executes (h : program.Invariant s I) (hm : I m)
    (hexecutes : program.Executes s m code m') :
    (∀ stmt ∈ code.stmts, program.HasStmt stmt) ∧ I m' := by
  obtain ⟨stmt, rest, m₁, hreaches, hcalls⟩ := hexecutes
  obtain ⟨hsubset, hm₁⟩ := h.reaches hm hreaches
  have hstmt : ∀ n ∈ (Code.stmt stmt).stmts, program.HasStmt n := by
    simpa [Code.stmts] using HasStmt.of_mem (hsubset List.mem_cons_self)
  generalize hend : (code, m') = c at hcalls
  have hall : (∀ n ∈ c.1.stmts, program.HasStmt n) ∧ I c.2 := by
    clear hend
    induction hcalls with
    | refl => exact ⟨hstmt, hm₁⟩
    | tail _ hcall ih => exact ⟨hcall.hasStmt ih.1, h.calls hcall ih.1 ih.2⟩
  rwa [← hend] at hall

/-- An invariant that is true at the start of a run is true in all states that it goes through. -/
theorem passes (h : program.Invariant s I) (hm : I m) (hpasses : program.Passes s m m') :
    I m' := by
  cases hpasses with
  | start => exact hm
  | root hreaches => exact (h.reaches hm hreaches).2
  | before hexecutes => exact (h.executes hm hexecutes).2
  | after hexecutes =>
      obtain ⟨hcode, hbefore⟩ := h.executes hm hexecutes
      exact h.exec hcode hbefore
  | finish => exact h.nests.run (fun stmt hstmt m => h.stmt (.of_mem hstmt)) m hm

end Invariant

end Program

end CellScript
