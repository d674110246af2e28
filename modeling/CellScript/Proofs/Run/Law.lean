/-
Module: CellScript.Proofs.Run.Law
Purpose: What single effects do to the state, statements and programs do, whatever their outcome.
  A law is a relation between the states before and after. If it holds of each effect and passes
  from a block to what is around it, then it holds of every run.
Main exports: Machine.Moves, Machine.Chains, Machine.Nests, Machine.Nests.exec, Machine.Nests.run,
  Machine.Law, Machine.Law.exec, Machine.Law.run
-/
import CellScript.Proofs.Program.Parts
import CellScript.Proofs.Run.Rounds

namespace CellScript

namespace Machine

/-- Whatever comes out of it, `f` leads from a state to one that `R` relates to it. -/
def Moves {α : Type} (R : Machine → Machine → Prop) (f : Machine → Outcome α) : Prop :=
  ∀ m, R m (f m).2

/-- A relation that can be followed from state to state, and to which gas does not matter. -/
structure Chains (R : Machine → Machine → Prop) : Prop where
  refl : ∀ m, R m m
  trans : ∀ {m₁ m₂ m₃}, R m₁ m₂ → R m₂ m₃ → R m₁ m₃
  gas : ∀ m gas, R m { m with gas }

namespace Chains

variable {α β : Type} {R : Machine → Machine → Prop} {s : Settings}

theorem result (h : Chains R) (r : Except EvalError α) : Moves R fun m => (r, m) :=
  h.refl

theorem andThen (h : Chains R) {f : Machine → Outcome α} {next : α → Machine → Outcome β}
    (hf : Moves R f) (hnext : ∀ a, Moves R (next a)) :
    Moves R fun m => (f m).andThen next := by
  intro m
  show R m ((f m).andThen next).2
  have hfirst := hf m
  generalize f m = o at hfirst ⊢
  rcases o with ⟨e | a, m'⟩
  · exact hfirst
  · exact h.trans hfirst (hnext a m')

theorem ite (c : Prop) [Decidable c] {f g : Machine → Outcome α} (hf : Moves R f)
    (hg : Moves R g) : Moves R fun m => if c then f m else g m := by
  intro m
  by_cases hc : c
  · simpa only [if_pos hc] using hf m
  · simpa only [if_neg hc] using hg m

theorem tick (h : Chains R) {f : Machine → Outcome α} (hf : Moves R f) :
    Moves R fun m => m.tick s f := by
  intro m
  show R m (m.tick s f).2
  have hspend : R m m.spend := h.gas m (m.gas + 1)
  by_cases hgas : m.gas < s.gasLimit
  · rw [tick_of_lt hgas]
    exact h.trans hspend (hf m.spend)
  · rw [tick_of_le (Nat.le_of_not_lt hgas)]
    exact hspend

theorem eval (h : Chains R) (e : Expr) : Moves R fun m => m.eval s e := by
  intro m
  exact h.gas m (e.eval s m.scopes m.gas).2

theorem evalAs (h : Chains R) (take? : Value → Option α) (mismatch : ValueType → Mismatch)
    (e : Expr) : Moves R fun m => m.evalAs s take? mismatch e := by
  apply h.andThen (h.eval e)
  intro v
  rcases take? v with _ | a
  · exact h.result _
  · exact h.result (.ok a)

/-- Going on to what comes next only where control does. -/
theorem ifNormal (h : Chains R) {f next : Machine → Outcome Signal} (hf : Moves R f)
    (hnext : Moves R next) :
    Moves R fun m => (f m).andThen fun signal m =>
      if signal.isNormal then next m else (.ok signal, m) := by
  apply h.andThen hf
  intro signal
  exact ite _ hnext (h.result (.ok signal))

section Loop

variable {condition : Machine → Outcome Bool} {body after next : Machine → Outcome Signal}

theorem round (h : Chains R) (hcondition : Moves R condition) (hbody : Moves R body)
    (hafter : Moves R after) (hnext : Moves R next) :
    Moves R (Machine.round condition body after next) := by
  apply h.andThen hcondition
  intro holds
  refine ite _ (h.andThen hbody ?_) (h.result (.ok Signal.normal))
  intro signal
  cases signal with
  | normal => exact h.ifNormal hafter hnext
  | continueLoop token => exact h.ifNormal hafter hnext
  | stop => exact h.result _
  | breakLoop token => exact h.result _
  | goto token target => exact h.result _

theorem loop (h : Chains R) (hcondition : Moves R condition) (hbody : Moves R body)
    (hafter : Moves R after) (fuel : Nat) : Moves R (Machine.loop s condition body after fuel) := by
  induction fuel with
  | zero => exact h.refl
  | succ fuel ih =>
      intro m
      rw [loop_succ]
      exact h.round hcondition hbody hafter ih m

/-- A loop with all its rounds. Their number is read off the state in which the loop starts. -/
theorem cycle (h : Chains R) (hcondition : Moves R condition) (hbody : Moves R body)
    (hafter : Moves R after) : Moves R (Machine.cycle s condition body after) := by
  intro m
  exact h.loop hcondition hbody hafter (m.rounds s) m

end Loop

/-- The root goes from one of its statements to another. -/
theorem runFrom (h : Chains R) {program : Program}
    (hexec : ∀ stmt ∈ program.body, Moves R (stmt.exec s)) (fuel : Nat) {stmts : List Stmt}
    (hstmts : stmts ⊆ program.body) : Moves R (program.runFrom s fuel stmts) := by
  induction fuel generalizing stmts with
  | zero => cases stmts <;> exact h.refl
  | succ fuel ih =>
      cases stmts with
      | nil => exact h.refl
      | cons stmt rest =>
          obtain ⟨hstmt, hrest⟩ := List.cons_subset.1 hstmts
          intro m
          rw [Program.runFrom_cons]
          refine h.andThen (hexec stmt hstmt) ?_ m
          intro signal m'
          rw [Program.proceed]
          split
          · next hfollow => exact ih (Program.subset_of_follow hrest hfollow) m'
          · exact h.refl m'
          · exact h.refl m'

end Chains

/-!
### Statements by their blocks

A statement that runs others runs them in blocks. The effects of the rest are the assignments, the
texts, the commands and the writes.
-/

end Machine

namespace Stmt

/-- Whether a statement is an assignment. -/
def isAssign : Stmt → Bool
  | assign .. => true
  | _ => false

/-- Whether a statement emits a text. -/
def isPrint : Stmt → Bool
  | print .. => true
  | _ => false

/-- What a `FOR` runs in the block around its loop. -/
def execFor (s : Settings) (init : Stmt) (condition : Expr) (increment : Stmt) (body : List Stmt)
    (m : Machine) : Outcome Signal :=
  Outcome.andThen (init.exec s m) fun signal m =>
    if signal.isNormal then cycle s .forLoop condition body [increment] m else (.ok signal, m)

/-- What a statement runs in blocks of their own. -/
def blocks (s : Settings) : Stmt → List (Machine → Outcome Signal)
  | ifElse _ _ yes none => [execAll s yes]
  | ifElse _ _ yes (some no) => [execAll s yes, execAll s no]
  | whileLoop _ _ body => [execAll s body]
  | forLoop _ init condition increment body => [execFor s init condition increment body]
  | _ => []

end Stmt

namespace Machine

/-- A statement that runs others does what its blocks do. -/
theorem Chains.exec_of_blocks {R : Machine → Machine → Prop} (h : Chains R) {s : Settings}
    {stmt : Stmt} (hbasic : stmt.isBasic = true → Moves R (stmt.exec s))
    (hblocks : ∀ f ∈ stmt.blocks s, Moves R fun m => m.inBlock f) : Moves R (stmt.exec s) := by
  cases stmt with
  | ifElse token condition yes no =>
      intro m
      rw [Stmt.exec]
      refine h.tick (h.andThen (h.evalAs _ _ condition) fun holds => ?_) m
      cases no with
      | none => exact Chains.ite _ (hblocks _ (by simp [Stmt.blocks])) (h.result _)
      | some no =>
          have hno := hblocks (Stmt.execAll s no) (by simp [Stmt.blocks])
          exact Chains.ite _ (hblocks _ (by simp [Stmt.blocks])) hno
  | whileLoop token condition body =>
      intro m
      rw [Stmt.exec_whileLoop]
      have hbody := hblocks (Stmt.execAll s body) (by simp [Stmt.blocks])
      exact h.tick (h.cycle (h.evalAs _ _ condition) hbody (h.result _)) m
  | forLoop token init condition increment body =>
      intro m
      rw [Stmt.exec_forLoop]
      have hfor := hblocks (Stmt.execFor s init condition increment body) (by simp [Stmt.blocks])
      exact h.tick hfor m
  | _ => exact hbasic rfl

/-- A relation that holds of the effects on the world that no value goes into. -/
structure Acts (R : Machine → Machine → Prop) : Prop extends Chains R where
  execute : ∀ m pos world, m.world.execute pos = .ok world → R m { m with world }
  write : ∀ m pos symbol, R m { m with world := m.world.write pos symbol }

namespace Acts

variable {R : Machine → Machine → Prop} {s : Settings}

theorem command (h : Acts R) (token : Token) : Moves R fun m => m.command token := by
  intro m
  show R m (m.command token).2
  unfold Machine.command
  split
  · next world hexecute => exact h.execute m token.pos world hexecute
  · exact h.refl m
  · exact h.refl m

theorem place (h : Acts R) (x y z : Expr) (template : Symbol) :
    Moves R fun m => m.place s x y z template := by
  apply h.andThen (h.evalAs _ _ x)
  intro x
  apply h.andThen (h.evalAs _ _ y)
  intro y
  apply h.andThen (h.evalAs _ _ z)
  intro z m
  exact h.write m ⟨x, y, z⟩ template

theorem exec_of_isBasic (h : Acts R) {stmt : Stmt} (hassign : stmt.isAssign = false)
    (hprint : stmt.isPrint = false) (hbasic : stmt.isBasic = true) : Moves R (stmt.exec s) := by
  intro m
  cases stmt with
  | assign type token chain value => cases hassign
  | print token value => cases hprint
  | command token =>
      rw [Stmt.exec]
      exact h.tick (h.command token) m
  | stop token =>
      rw [Stmt.exec]
      exact h.tick (h.result _) m
  | breakLoop token =>
      rw [Stmt.exec]
      exact h.tick (h.result _) m
  | continueLoop token =>
      rw [Stmt.exec]
      exact h.tick (h.result _) m
  | goto token target =>
      rw [Stmt.exec]
      have hjump := h.andThen (h.evalAs (s := s) Value.int? (.integer .gotoTarget) target)
        fun n => h.result (.ok (Signal.goto token n))
      exact h.tick (Chains.ite _ hjump (h.result (.error (.gotoDisabled token)))) m
  | place token x y z templatePos template =>
      rw [Stmt.exec]
      exact h.tick (h.place x y z template) m
  | ifElse token condition yes no => cases hbasic
  | whileLoop token condition body => cases hbasic
  | forLoop token init condition increment body => cases hbasic

end Acts

/-- A relation that holds of every effect on the world. -/
structure Effects (R : Machine → Machine → Prop) : Prop extends Acts R where
  emit : ∀ m text, R m { m with world := m.world.emit text }

namespace Effects

variable {R : Machine → Machine → Prop} {s : Settings}

theorem exec_of_isBasic (h : Effects R) {stmt : Stmt} (hstmt : stmt.isAssign = false)
    (hbasic : stmt.isBasic = true) : Moves R (stmt.exec s) := by
  cases stmt with
  | print token value =>
      intro m
      rw [Stmt.exec]
      exact h.tick (h.andThen (h.eval value) fun v m => h.emit m v.text) m
  | _ => exact h.toActs.exec_of_isBasic hstmt rfl hbasic

/-- A statement that is no assignment does what its blocks do and what effects on the world do. -/
theorem exec_of_blocks (h : Effects R) {stmt : Stmt} (hstmt : stmt.isAssign = false)
    (hblocks : ∀ f ∈ stmt.blocks s, Moves R fun m => m.inBlock f) : Moves R (stmt.exec s) :=
  h.toChains.exec_of_blocks (h.exec_of_isBasic hstmt) hblocks

end Effects

/-!
### Statements inside statements

A block is known to a relation by the states after it was entered and before it is left. What holds
of the statements that run no others then holds of all.
-/

/-- A relation that holds of a block if it holds of what the block runs. -/
structure Nests (R : Machine → Machine → Prop) : Prop extends Chains R where
  block : ∀ {m m'}, R m.enter m' → R m { m' with scopes := m'.scopes.exit m.scopes.depth }

namespace Nests

variable {R : Machine → Machine → Prop} {s : Settings} {Q : Stmt → Prop}

theorem inBlock {α : Type} (h : Nests R) {f : Machine → Outcome α} (hf : Moves R f) :
    Moves R fun m => m.inBlock f := by
  intro m
  exact h.block (hf m.enter)

theorem execFor (h : Nests R) {init increment : Stmt} {body : List Stmt}
    (hinit : Moves R (init.exec s)) (hincrement : Moves R (increment.exec s))
    (hbody : Moves R (Stmt.execAll s body)) (condition : Expr) :
    Moves R (Stmt.execFor s init condition increment body) := by
  refine h.ifNormal hinit (h.cycle (h.evalAs _ _ condition) (h.inBlock hbody) ?_)
  intro m
  show R m (Stmt.execAll s [increment] m).2
  rw [Stmt.execAll_singleton]
  exact hincrement m

mutual

/-- What holds of each basic statement of a kind holds of each statement of that kind, if it is made
from statements of that kind. -/
theorem exec (h : Nests R) (hQ : ∀ stmt, Q stmt → ∀ child ∈ stmt.children, Q child)
    (hbasic : ∀ stmt, Q stmt → stmt.isBasic = true → Moves R (stmt.exec s)) :
    ∀ stmt : Stmt, Q stmt → Moves R (stmt.exec s)
  | .ifElse token condition yes none, hstmt => by
      refine h.exec_of_blocks (hbasic _ hstmt) ?_
      have hyes := execAll h hQ hbasic yes fun n hn => hQ _ hstmt n (by simp [Stmt.children, hn])
      simpa [Stmt.blocks] using h.inBlock hyes
  | .ifElse token condition yes (some no), hstmt => by
      refine h.exec_of_blocks (hbasic _ hstmt) ?_
      have hyes := execAll h hQ hbasic yes fun n hn => hQ _ hstmt n (by simp [Stmt.children, hn])
      have hno := execAll h hQ hbasic no fun n hn => hQ _ hstmt n (by simp [Stmt.children, hn])
      simpa [Stmt.blocks] using ⟨h.inBlock hyes, h.inBlock hno⟩
  | .whileLoop token condition body, hstmt => by
      refine h.exec_of_blocks (hbasic _ hstmt) ?_
      have hbody := execAll h hQ hbasic body fun n hn => hQ _ hstmt n (by simp [Stmt.children, hn])
      simpa [Stmt.blocks] using h.inBlock hbody
  | .forLoop token init condition increment body, hstmt => by
      refine h.exec_of_blocks (hbasic _ hstmt) ?_
      have hinit := exec h hQ hbasic init (hQ _ hstmt _ (by simp [Stmt.children]))
      have hincrement := exec h hQ hbasic increment (hQ _ hstmt _ (by simp [Stmt.children]))
      have hbody := execAll h hQ hbasic body fun n hn => hQ _ hstmt n (by simp [Stmt.children, hn])
      simpa [Stmt.blocks] using h.inBlock (h.execFor hinit hincrement hbody condition)
  | .assign _ _ _ _, hstmt => hbasic _ hstmt rfl
  | .command _, hstmt => hbasic _ hstmt rfl
  | .stop _, hstmt => hbasic _ hstmt rfl
  | .breakLoop _, hstmt => hbasic _ hstmt rfl
  | .continueLoop _, hstmt => hbasic _ hstmt rfl
  | .print _ _, hstmt => hbasic _ hstmt rfl
  | .goto _ _, hstmt => hbasic _ hstmt rfl
  | .place _ _ _ _ _ _, hstmt => hbasic _ hstmt rfl

theorem execAll (h : Nests R) (hQ : ∀ stmt, Q stmt → ∀ child ∈ stmt.children, Q child)
    (hbasic : ∀ stmt, Q stmt → stmt.isBasic = true → Moves R (stmt.exec s)) :
    ∀ stmts : List Stmt, (∀ stmt ∈ stmts, Q stmt) → Moves R (Stmt.execAll s stmts)
  | [], _ => h.refl
  | stmt :: rest, hstmts => by
      obtain ⟨hstmt, hrest⟩ := List.forall_mem_cons.1 hstmts
      intro m
      rw [Stmt.execAll_cons]
      exact h.ifNormal (exec h hQ hbasic stmt hstmt) (execAll h hQ hbasic rest hrest) m

end

/-- What holds of each statement of a program holds of the program. -/
theorem run (h : Nests R) {program : Program}
    (hexec : ∀ stmt ∈ program.body, Moves R (stmt.exec s)) : Moves R (program.run s) := by
  apply h.inBlock
  intro m
  exact h.runFrom hexec (m.rounds s) (List.Subset.refl _) m

end Nests

/-!
### Laws

A law asks nothing of the statements.
-/

/-- A relation that holds of every effect, and of a block if it holds of what the block runs. -/
structure Law (R : Machine → Machine → Prop) : Prop extends Effects R, Nests R where
  assign : ∀ m index v, R m { m with scopes := m.scopes.assign index v }

namespace Law

variable {R : Machine → Machine → Prop}

theorem assignment (h : Law R) (type : ValueType) (token : Token) (chain : List Token) (v : Value) :
    Moves R fun m => m.assign type token chain v := by
  intro m
  show R m (m.assign type token chain v).2
  unfold Machine.assign
  split
  · exact h.assign m chain.length _
  · exact h.refl m

theorem exec_of_isBasic (h : Law R) {s : Settings} (stmt : Stmt) (hbasic : stmt.isBasic = true) :
    Moves R (stmt.exec s) := by
  cases stmt with
  | assign type token chain value =>
      intro m
      rw [Stmt.exec]
      exact h.tick (h.andThen (h.eval value) (h.assignment type token chain)) m
  | _ => exact h.toEffects.exec_of_isBasic rfl hbasic

/-- A law holds of every statement. -/
theorem exec (h : Law R) (s : Settings) (stmt : Stmt) : Moves R (stmt.exec s) :=
  h.toNests.exec (Q := fun _ => True) (fun _ _ _ _ => trivial) (fun n _ => h.exec_of_isBasic n)
    stmt trivial

theorem execAll (h : Law R) (s : Settings) (stmts : List Stmt) : Moves R (Stmt.execAll s stmts) :=
  h.toNests.execAll (Q := fun _ => True) (fun _ _ _ _ => trivial) (fun n _ => h.exec_of_isBasic n)
    stmts fun _ _ => trivial

/-- A law holds of what a statement runs in blocks. -/
theorem blocks (h : Law R) (s : Settings) (stmt : Stmt) : ∀ f ∈ stmt.blocks s, Moves R f := by
  cases stmt with
  | ifElse token condition yes no =>
      cases no with
      | none => simpa [Stmt.blocks] using h.execAll s yes
      | some no => simpa [Stmt.blocks] using ⟨h.execAll s yes, h.execAll s no⟩
  | whileLoop token condition body => simpa [Stmt.blocks] using h.execAll s body
  | forLoop token init condition increment body =>
      simpa [Stmt.blocks] using
        h.execFor (h.exec s init) (h.exec s increment) (h.execAll s body) condition
  | _ => simp [Stmt.blocks]

/-- A law holds of the root of every program. -/
theorem root (h : Law R) (s : Settings) (program : Program) :
    Moves R fun m => program.runFrom s (m.rounds s) program.body m := by
  intro m
  exact h.runFrom (fun stmt _ => h.exec s stmt) (m.rounds s) (List.Subset.refl _) m

/-- A law holds of every program. -/
theorem run (h : Law R) (s : Settings) (program : Program) : Moves R (program.run s) :=
  h.toNests.run fun stmt _ => h.exec s stmt

end Law

end Machine

end CellScript
