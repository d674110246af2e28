/-
Module: CellScript.Proofs.Run.Conduct
Purpose: What a run can do. Its effects, faults and jumps are those of the statements in it, each
  taken by itself, and on another grid it goes the same way.
Main exports: Expr.Raises, Expr.fails_of_eval, Stmt.Does, Stmt.Raises, Pairing, Machine.Twins,
  Machine.Conducts, Stmt.conducts, Program.conducts_run, Stmt.fails_of_exec, Stmt.signals_of_exec,
  Program.fails_of_run
-/
import CellScript.Proofs.Program.Parts
import CellScript.Proofs.Run.Effects
import CellScript.Proofs.Run.Rounds

namespace CellScript

open Std

/-!
### Faults of expressions

An expression has a value if it has the gas and its own part succeeds. It fails at one of the
expressions inside it, for a reason of its own, or for want of gas.
-/

section Faults

variable {error : EvalError}

/-- A node takes its unit of gas before anything else. -/
theorem metered_error {α : Type} {limit gas gas' : Nat} {next : Nat → Except EvalError α × Nat}
    (h : metered limit gas next = (.error error, gas')) :
    error = .gasExhausted limit ∨ next (gas + 1) = (.error error, gas') := by
  unfold metered at h
  split at h
  · cases h
    exact .inl rfl
  · exact .inr h

theorem metered_ok {α : Type} {limit gas gas' : Nat} {next : Nat → Except EvalError α × Nat} {a : α}
    (h : metered limit gas next = (.ok a, gas')) : next (gas + 1) = (.ok a, gas') := by
  unfold metered at h
  split at h
  · cases h
  · exact h

theorem mapError_eq_ok {ε ε' α : Type} {r : Except ε α} {f : ε → ε'} {a : α}
    (h : r.mapError f = .ok a) : r = .ok a := by
  cases r with
  | error fault => cases h
  | ok b => exact congrArg Except.ok (Except.ok.inj h)

theorem mapError_eq_error {ε α : Type} {r : Except ε α} {f : ε → EvalError}
    (h : r.mapError f = .error error) : ∃ fault, f fault = error := by
  cases r with
  | error fault => exact ⟨fault, Except.error.inj h⟩
  | ok a => cases h

namespace Expr

/-- The errors of an expression itself, when its operands have values. -/
inductive Raises : Expr → EvalError → Prop where
  | literal {type : ValueType} {token : Token} {bits : List Token} {e : EvalError} :
      literalValue type token bits = .error e → Raises (.literal type token bits) e
  | var {token : Token} {chain : List Token} :
      Raises (.var token chain) (.undefinedVariable token chain.length)
  | unary {op : UnaryOp} {token : Token} {operand : Expr} {fault : OperationFault} :
      Raises (.unary op token operand) (.ofOperation token fault)
  | binary {op : BinaryOp} {token : Token} {left right : Expr} {fault : OperationFault} :
      Raises (.binary op token left right) (.ofOperation token fault)

/-- The errors that evaluating an expression can end with. -/
def Fails (limit : Nat) (e : Expr) (error : EvalError) : Prop :=
  error = .gasExhausted limit ∨ ∃ n : Expr, n.Within e ∧ n.Raises error

variable {limit : Nat} {e : Expr}

theorem Raises.fails (h : e.Raises error) : e.Fails limit error :=
  .inr ⟨e, .refl e, h⟩

theorem Fails.of_operand {operand : Expr} (hoperand : operand ∈ e.operands)
    (h : operand.Fails limit error) : e.Fails limit error := by
  rcases h with hgas | ⟨n, hn, hraises⟩
  · exact .inl hgas
  · exact .inr ⟨n, .inside hoperand hn, hraises⟩

/-- Evaluation fails for want of gas, or at an expression inside. -/
theorem fails_of_eval {s : Settings} {vars : Scopes} {gas gas' : Nat}
    (h : e.eval s vars gas = (.error error, gas')) : e.Fails s.gasLimit error := by
  induction e generalizing gas gas' with
  | literal type token bits =>
      rcases metered_error h with hgas | h
      · exact .inl hgas
      · exact Raises.fails (.literal (Prod.mk.inj h).1)
  | var token chain =>
      rcases metered_error h with hgas | h
      · exact .inl hgas
      · have hvalue := (Prod.mk.inj h).1
        unfold variableValue at hvalue
        split at hvalue
        · cases hvalue
        · cases hvalue
          exact Raises.fails .var
  | constant value token =>
      rcases metered_error h with hgas | h
      · exact .inl hgas
      · cases h
  | unary op token operand ih =>
      rcases metered_error h with hgas | h
      · exact .inl hgas
      · split at h
        · next hoperand =>
            cases h
            exact Fails.of_operand (by simp [operands]) (ih hoperand)
        · obtain ⟨fault, rfl⟩ := mapError_eq_error (Prod.mk.inj h).1
          exact Raises.fails .unary
  | binary op token left right ihLeft ihRight =>
      rcases metered_error h with hgas | h
      · exact .inl hgas
      · split at h
        · next hleft =>
            cases h
            exact Fails.of_operand (by simp [operands]) (ihLeft hleft)
        · split at h
          · next hright =>
              cases h
              exact Fails.of_operand (by simp [operands]) (ihRight hright)
          · obtain ⟨fault, rfl⟩ := mapError_eq_error (Prod.mk.inj h).1
            exact Raises.fails .binary

end Expr

end Faults

/-!
### What a statement does itself

The effects, the errors and the jumps of a statement, apart from those of the statements inside it.
-/

namespace Stmt

/-- The effects of a statement itself, when there have been others before. A command runs only if
the host lets it. -/
inductive Does (host : Host) (effects : List Effect) : Stmt → Effect → Prop where
  | print {token : Token} {value : Expr} {text : String} :
      Does host effects (.print token value) (.emitted text)
  | command {token : Token} : host.answer effects token.pos = .ok () →
      Does host effects (.command token) (.executed token.pos)
  | place {token : Token} {x y z : Expr} {templatePos pos : Position} {template : Symbol} :
      Does host effects (.place token x y z templatePos template) (.wrote pos template)

/-- The errors of a statement itself. `wrongType` is about the value of an operand. The last three
are those of a signal that the root cannot follow. -/
inductive Raises : Stmt → EvalError → Prop where
  | operand {stmt : Stmt} {operand n : Expr} {error : EvalError} :
      operand ∈ stmt.operands → n.Within operand → n.Raises error → Raises stmt error
  | wrongType {stmt : Stmt} {operand : Expr} {mismatch : Mismatch} :
      operand ∈ stmt.operands → Raises stmt (.typeMismatch operand.token mismatch)
  | conversion {type source : ValueType} {token : Token} {chain : List Token} {value : Expr}
      {text : String} :
      Raises (.assign type token chain value) (.conversion token source type text)
  | missingCommandHook {token : Token} : Raises (.command token) (.missingCommandHook token)
  | commandFailed {token : Token} {message : String} :
      Raises (.command token) (.commandFailed token message)
  | gotoDisabled {token : Token} {target : Expr} :
      Raises (.goto token target) (.gotoDisabled token)
  | gotoOutOfBounds {token : Token} {target : Expr} {n : Int32} {length : Nat} :
      Raises (.goto token target) (.gotoOutOfBounds token n length)
  | strayBreak {token : Token} : Raises (.breakLoop token) (.strayControl token)
  | strayContinue {token : Token} : Raises (.continueLoop token) (.strayControl token)

/-- The jumps of a statement itself. -/
inductive Signals : Stmt → Signal → Prop where
  | stop {token : Token} : Signals (.stop token) .stop
  | breakLoop {token : Token} : Signals (.breakLoop token) (.breakLoop token)
  | continueLoop {token : Token} : Signals (.continueLoop token) (.continueLoop token)
  | goto {token : Token} {target : Expr} {n : Int32} :
      Signals (.goto token target) (.goto token n)

end Stmt

/-!
### Two runs on different grids

One run starts from a world, the other from the same world on another grid. Both keep to a set of
statements and to a gas limit.
-/

/-- What two runs side by side go by. -/
structure Pairing where
  stmts : Stmt → Prop
  limit : Nat
  world : World
  grid : Grid

namespace Pairing

/-- Effects of the statements, each with those before it. -/
def Does (c : Pairing) (done : List Effect) : Prop :=
  ∀ earlier effect later, done = earlier ++ effect :: later →
    ∃ n, c.stmts n ∧ n.Does c.world.host (earlier.reverse ++ c.world.effects) effect

theorem Does.concat {c : Pairing} {done : List Effect} (h : c.Does done) {n : Stmt}
    (hn : c.stmts n) {effect : Effect}
    (heffect : n.Does c.world.host (done.reverse ++ c.world.effects) effect) :
    c.Does (done ++ [effect]) := by
  intro earlier other later heq
  rcases List.eq_nil_or_concat later with rfl | ⟨later, last, rfl⟩
  · obtain ⟨rfl, hlast⟩ := List.append_inj' heq rfl
    cases hlast
    exact ⟨n, hn, heffect⟩
  · rw [List.concat_eq_append, ← List.cons_append, ← List.append_assoc] at heq
    exact h earlier other later (List.append_inj' heq rfl).1

/-- The errors of the statements, and the want of gas. -/
def Fails (c : Pairing) (error : EvalError) : Prop :=
  error = .gasExhausted c.limit ∨ ∃ n, c.stmts n ∧ n.Raises error

/-- The jumps of the statements, and going on. -/
def Signals (c : Pairing) (signal : Signal) : Prop :=
  signal = .normal ∨ ∃ n, c.stmts n ∧ n.Signals signal

end Pairing

/-- The same state on another grid. -/
def Machine.onGrid (m : Machine) (g : Grid) : Machine :=
  { m with world := m.world.onGrid g }

/-- Two states of the runs: they have the same variables and gas, and the same effects led to them
from where the runs started. -/
structure Machine.Twins (c : Pairing) (m m' : Machine) : Prop where
  scopes : m'.scopes = m.scopes
  gas : m'.gas = m.gas
  world : ∃ done, c.Does done ∧ m.world = c.world.after done ∧
    m'.world = (c.world.onGrid c.grid).after done

/-- Two outcomes of the runs: they have the same result, which is one of the good ones or an error
of the statements. -/
structure Outcome.Twins {α : Type} (c : Pairing) (good : α → Prop) (o o' : Outcome α) : Prop where
  result : o'.1 = o.1
  good : ∀ a, o.1 = .ok a → good a
  fails : ∀ error, o.1 = .error error → c.Fails error
  state : Machine.Twins c o.2 o'.2

namespace Machine

namespace Twins

variable {c : Pairing} {m m' : Machine}

theorem start (stmts : Stmt → Prop) (limit : Nat) (m : Machine) (g : Grid) :
    Twins ⟨stmts, limit, m.world, g⟩ m (m.onGrid g) :=
  ⟨rfl, rfl, [], by simp [Pairing.Does], rfl, rfl⟩

theorem spend (h : Twins c m m') : Twins c m.spend m'.spend :=
  ⟨h.scopes, congrArg (· + 1) h.gas, h.world⟩

/-- Both runs have the host that they started with, and the same record. -/
theorem host (h : Twins c m m') :
    m.world.host = c.world.host ∧ m'.world.host = c.world.host ∧
      m'.world.effects = m.world.effects := by
  obtain ⟨done, -, hworld, hworld'⟩ := h.world
  rw [hworld, hworld', World.host_after, World.host_after, World.effects_after,
    World.effects_after]
  exact ⟨rfl, rfl, rfl⟩

/-- Both runs do the same thing more. -/
theorem act (h : Twins c m m') {n : Stmt} (hn : c.stmts n) {effect : Effect}
    (heffect : n.Does c.world.host m.world.effects effect) :
    Twins c { m with world := m.world.act effect } { m' with world := m'.world.act effect } := by
  obtain ⟨done, hdone, hworld, hworld'⟩ := h.world
  rw [hworld, World.effects_after] at heffect
  refine ⟨h.scopes, h.gas, done ++ [effect], hdone.concat hn heffect, ?_, ?_⟩
  · rw [World.after_append, ← hworld]
    rfl
  · rw [World.after_append, ← hworld']
    rfl

end Twins

/-- From twin states `f` leads to twin outcomes. -/
def Conducts {α : Type} (c : Pairing) (good : α → Prop) (f : Machine → Outcome α) : Prop :=
  ∀ ⦃m m'⦄, Twins c m m' → Outcome.Twins c good (f m) (f m')

namespace Conducts

variable {α β : Type} {c : Pairing} {good : α → Prop} {f : Machine → Outcome α} {s : Settings}

theorem ok {a : α} (h : good a) : Conducts c good fun m => (.ok a, m) := by
  intro m m' hm
  exact ⟨rfl, fun b hb => Except.ok.inj hb ▸ h, fun e he => (nomatch he), hm⟩

theorem error {error : EvalError} (h : c.Fails error) :
    Conducts c good fun m => (.error error, m) := by
  intro m m' hm
  exact ⟨rfl, fun a ha => (nomatch ha), fun e he => Except.error.inj he ▸ h, hm⟩

theorem andThen {next : α → Machine → Outcome β} {good' : β → Prop} (h : Conducts c good f)
    (hnext : ∀ a, good a → Conducts c good' (next a)) :
    Conducts c good' fun m => (f m).andThen next := by
  intro m m' hm
  obtain ⟨hresult, hgood, hfails, hstate⟩ := h hm
  show Outcome.Twins c good' ((f m).andThen next) ((f m').andThen next)
  generalize f m = o at hresult hgood hfails hstate ⊢
  generalize f m' = o' at hresult hstate ⊢
  obtain ⟨r, m₁⟩ := o
  obtain ⟨r', m₁'⟩ := o'
  cases hresult
  cases r with
  | error e =>
      refine ⟨rfl, fun a ha => (nomatch ha), fun e' he => ?_, hstate⟩
      cases he
      exact hfails e rfl
  | ok a => exact hnext a (hgood a rfl) hstate

theorem ite (p : Prop) [Decidable p] {f' : Machine → Outcome α} (hf : Conducts c good f)
    (hf' : Conducts c good f') : Conducts c good fun m => if p then f m else f' m := by
  by_cases hp : p
  · simpa only [if_pos hp] using hf
  · simpa only [if_neg hp] using hf'

theorem tick (hlimit : s.gasLimit = c.limit) (h : Conducts c good f) :
    Conducts c good fun m => m.tick s f := by
  intro m m' hm
  show Outcome.Twins c good (m.tick s f) (m'.tick s f)
  by_cases hgas : m.gas < s.gasLimit
  · rw [tick_of_lt hgas, tick_of_lt (hm.gas ▸ hgas)]
    exact h hm.spend
  · have hle := Nat.le_of_not_lt hgas
    rw [tick_of_le hle, tick_of_le (hm.gas ▸ hle)]
    exact error (.inl (by rw [hlimit])) hm.spend

theorem inBlock (h : Conducts c good f) : Conducts c good fun m => m.inBlock f := by
  intro m m' hm
  have henter : Twins c m.enter m'.enter :=
    ⟨congrArg Scopes.enter hm.scopes, hm.gas, hm.world⟩
  obtain ⟨hresult, hgood, hfails, hscopes, hgas, hworld⟩ := h henter
  refine ⟨hresult, hgood, hfails, ?_, hgas, hworld⟩
  show (f m'.enter).2.scopes.exit m'.scopes.depth = (f m.enter).2.scopes.exit m.scopes.depth
  rw [hscopes, hm.scopes]

/-- The value of an expression depends on the variables and the gas only. -/
theorem eval (hlimit : s.gasLimit = c.limit) {e : Expr}
    (he : ∀ error, e.Fails c.limit error → c.Fails error) :
    Conducts c (fun _ => True) fun m => m.eval s e := by
  intro m m' hm
  show Outcome.Twins c _ (m.eval s e) (m'.eval s e)
  rw [Machine.eval, Machine.eval, hm.scopes, hm.gas]
  rcases heval : e.eval s m.scopes m.gas with ⟨r, gas⟩
  refine ⟨rfl, fun _ _ => trivial, fun error herror => ?_, rfl, rfl, hm.world⟩
  cases herror
  exact he error (hlimit ▸ Expr.fails_of_eval heval)

/-! Going on only where control does, and loops. -/

theorem ifNormal {f next : Machine → Outcome Signal} (h : Conducts c c.Signals f)
    (hnext : Conducts c c.Signals next) :
    Conducts c c.Signals fun m => (f m).andThen fun signal m =>
      if signal.isNormal then next m else (.ok signal, m) :=
  h.andThen fun _ hsignal => ite _ hnext (ok hsignal)

section Loop

variable {condition : Machine → Outcome Bool} {body after next : Machine → Outcome Signal}

theorem round (hcondition : Conducts c (fun _ => True) condition)
    (hbody : Conducts c c.Signals body) (hafter : Conducts c c.Signals after)
    (hnext : Conducts c c.Signals next) :
    Conducts c c.Signals (Machine.round condition body after next) := by
  apply hcondition.andThen
  intro holds _
  refine ite _ (hbody.andThen ?_) (ok (.inl rfl))
  intro signal hsignal
  cases signal with
  | normal => exact hafter.ifNormal hnext
  | continueLoop token => exact hafter.ifNormal hnext
  | stop => exact ok hsignal
  | breakLoop token => exact ok (.inl rfl)
  | goto token target => exact ok hsignal

/-- Both loops have the same number of rounds, as their gas is the same. -/
theorem cycle (hlimit : s.gasLimit = c.limit) (hcondition : Conducts c (fun _ => True) condition)
    (hbody : Conducts c c.Signals body) (hafter : Conducts c c.Signals after) :
    Conducts c c.Signals (Machine.cycle s condition body after) := by
  have hloop : ∀ fuel, Conducts c c.Signals (loop s condition body after fuel) := by
    intro fuel
    induction fuel with
    | zero => exact error (.inl (by rw [hlimit]))
    | succ fuel ih =>
        intro m m' hm
        rw [loop_succ, loop_succ]
        exact round hcondition hbody hafter ih hm
  intro m m' hm
  rw [Machine.cycle, Machine.cycle, rounds, rounds, hm.gas]
  exact hloop _ hm

end Loop

end Conducts

end Machine

/-!
### Statements

Each statement does what it does itself, and what the statements inside it do.
-/

namespace Pairing

variable {c : Pairing} {stmt : Stmt} {operand : Expr}

/-- A statement that does not go beyond those of the runs. -/
def Admits (c : Pairing) (stmt : Stmt) : Prop :=
  ∀ n, n.Within stmt → c.stmts n

theorem Admits.self (h : c.Admits stmt) : c.stmts stmt :=
  h stmt (.refl stmt)

theorem Admits.child (h : c.Admits stmt) {child : Stmt} (hchild : child ∈ stmt.children) :
    c.Admits child :=
  fun n hn => h n (.inside hchild hn)

theorem Admits.raises (h : c.Admits stmt) {error : EvalError} (herror : stmt.Raises error) :
    c.Fails error :=
  .inr ⟨stmt, h.self, herror⟩

theorem Admits.signals (h : c.Admits stmt) {signal : Signal} (hsignal : stmt.Signals signal) :
    c.Signals signal :=
  .inr ⟨stmt, h.self, hsignal⟩

theorem Admits.of_operand (h : c.Admits stmt) (hoperand : operand ∈ stmt.operands)
    (error : EvalError) (herror : operand.Fails c.limit error) : c.Fails error := by
  rcases herror with hgas | ⟨n, hn, hraises⟩
  · exact .inl hgas
  · exact h.raises (.operand hoperand hn hraises)

end Pairing

/-- A command by the answer of the host. -/
theorem Machine.command_eq (token : Token) (m : Machine) :
    m.command token =
      match m.world.host.answer m.world.effects token.pos with
      | .error (.missing _) => (.error (.missingCommandHook token), m)
      | .error (.failed _ message) => (.error (.commandFailed token message), m)
      | .ok () => (.ok .normal, { m with world := m.world.act (.executed token.pos) }) := by
  unfold Machine.command World.execute
  rcases m.world.host.answer m.world.effects token.pos with (_ | _) | _ <;> rfl

namespace Machine.Conducts

variable {c : Pairing} {stmt : Stmt} {s : Settings}

/-- A value whose type is asked for by the statement around it. -/
theorem evalAs {α : Type} (hlimit : s.gasLimit = c.limit) (h : c.Admits stmt) (operand : Expr)
    (hoperand : operand ∈ stmt.operands) (take? : Value → Option α)
    (mismatch : ValueType → Mismatch) :
    Conducts c (fun _ => True) fun m => m.evalAs s take? mismatch operand := by
  apply (eval hlimit (h.of_operand hoperand)).andThen
  intro v _
  rcases take? v with _ | a
  · exact error (h.raises (.wrongType hoperand))
  · exact ok trivial

/-- An effect of a statement, after which control goes on. -/
theorem act (h : c.Admits stmt) {effect : Effect}
    (heffect : ∀ effects, stmt.Does c.world.host effects effect) :
    Conducts c c.Signals fun m => (.ok .normal, { m with world := m.world.act effect }) := by
  intro m m' hm
  exact ok (.inl rfl) (hm.act h.self (heffect _))

theorem assign {type : ValueType} {token : Token} {chain : List Token} {value : Expr}
    (h : c.Admits (.assign type token chain value)) (v : Value) :
    Conducts c c.Signals fun m => m.assign type token chain v := by
  unfold Machine.assign
  split
  · intro m m' hm
    refine ok (.inl rfl) ⟨?_, hm.gas, hm.world⟩
    exact congrArg (Scopes.assign · _ _) hm.scopes
  · exact error (h.raises .conversion)

/-- Both runs get the same answer, for their records are the same. -/
theorem command {token : Token} (h : c.Admits (.command token)) :
    Conducts c c.Signals fun m => m.command token := by
  intro m m' hm
  obtain ⟨hhost, hhost', heffects⟩ := hm.host
  show Outcome.Twins c _ (m.command token) (m'.command token)
  rw [command_eq, command_eq, hhost, hhost', heffects]
  rcases hanswer : c.world.host.answer m.world.effects token.pos with (_ | _) | _
  · exact error (h.raises .missingCommandHook) hm
  · exact error (h.raises .commandFailed) hm
  · exact ok (.inl rfl) (hm.act h.self (.command hanswer))

theorem place (hlimit : s.gasLimit = c.limit) {token : Token} {x y z : Expr}
    {templatePos : Position} {template : Symbol}
    (h : c.Admits (.place token x y z templatePos template)) :
    Conducts c c.Signals fun m => m.place s x y z template := by
  apply (evalAs hlimit h x (by simp [Stmt.operands]) _ _).andThen
  intro x _
  apply (evalAs hlimit h y (by simp [Stmt.operands]) _ _).andThen
  intro y _
  apply (evalAs hlimit h z (by simp [Stmt.operands]) _ _).andThen
  intro z _
  exact act h fun _ => .place

end Machine.Conducts

open Machine (Conducts)

namespace Stmt

variable {c : Pairing} {s : Settings}

mutual

/-- A statement of the runs conducts itself as its parts allow. -/
theorem conducts (hlimit : s.gasLimit = c.limit) :
    ∀ stmt : Stmt, c.Admits stmt → Conducts c c.Signals fun m => stmt.exec s m
  | .assign type token chain value, h => by
      simp only [exec]
      exact .tick hlimit ((Conducts.eval hlimit (h.of_operand (by simp [operands]))).andThen
        fun v _ => .assign h v)
  | .command token, h => by
      simp only [exec]
      exact .tick hlimit (.command h)
  | .stop token, h => by
      simp only [exec]
      exact .tick hlimit (.ok (h.signals .stop))
  | .breakLoop token, h => by
      simp only [exec]
      exact .tick hlimit (.ok (h.signals .breakLoop))
  | .continueLoop token, h => by
      simp only [exec]
      exact .tick hlimit (.ok (h.signals .continueLoop))
  | .print token value, h => by
      simp only [exec]
      exact .tick hlimit ((Conducts.eval hlimit (h.of_operand (by simp [operands]))).andThen
        fun v _ => .act h fun _ => .print)
  | .goto token target, h => by
      simp only [exec]
      have hjump := (Conducts.evalAs hlimit h target (by simp [operands]) Value.int?
        (.integer .gotoTarget)).andThen
        fun n _ => Conducts.ok (h.signals (.goto (n := n)))
      exact .tick hlimit (.ite _ hjump (.error (h.raises .gotoDisabled)))
  | .place token x y z templatePos template, h => by
      simp only [exec]
      exact .tick hlimit (.place hlimit h)
  | .ifElse token condition yes no, h => by
      simp only [exec]
      have hyes := conductsAll hlimit yes fun stmt hstmt => h.child (by simp [children, hstmt])
      have hno := conductsElse hlimit no fun block hblock stmt hstmt =>
        h.child (by simp [children, hblock, hstmt])
      exact .tick hlimit ((Conducts.evalAs hlimit h condition (by simp [operands]) _ _).andThen
        fun _ _ => .ite _ hyes.inBlock hno)
  | .whileLoop token condition body, h => by
      simp only [exec_whileLoop]
      have hbody := conductsAll hlimit body fun stmt hstmt => h.child (by simp [children, hstmt])
      have hcondition := Conducts.evalAs hlimit h condition (by simp [operands]) Value.bool?
        (.condition .whileLoop)
      exact .tick hlimit (.cycle hlimit hcondition hbody.inBlock (.ok (.inl rfl)))
  | .forLoop token init condition increment body, h => by
      simp only [exec_forLoop]
      have hinit := conducts hlimit init (h.child (by simp [children]))
      have hincrement := conducts hlimit increment (h.child (by simp [children]))
      have hbody := conductsAll hlimit body fun stmt hstmt => h.child (by simp [children, hstmt])
      have hcondition := Conducts.evalAs hlimit h condition (by simp [operands]) Value.bool?
        (.condition .forLoop)
      have hafter : Conducts c c.Signals (execAll s [increment]) := by
        simpa only [← execAll_singleton] using hincrement
      exact .tick hlimit (hinit.ifNormal (.cycle hlimit hcondition hbody.inBlock hafter)).inBlock

theorem conductsAll (hlimit : s.gasLimit = c.limit) :
    ∀ stmts : List Stmt, (∀ stmt ∈ stmts, c.Admits stmt) → Conducts c c.Signals (execAll s stmts)
  | [], _ => .ok (.inl rfl)
  | stmt :: rest, h => by
      obtain ⟨hstmt, hrest⟩ := List.forall_mem_cons.1 h
      have hcons := (conducts hlimit stmt hstmt).ifNormal (conductsAll hlimit rest hrest)
      simpa only [← execAll_cons] using hcons

theorem conductsElse (hlimit : s.gasLimit = c.limit) :
    ∀ no : Option (List Stmt), (∀ block, no = some block → ∀ stmt ∈ block, c.Admits stmt) →
      Conducts c c.Signals (execElse s no)
  | none, _ => .ok (.inl rfl)
  | some block, h => (conductsAll hlimit block (h block rfl)).inBlock

end

end Stmt

/-!
### Programs

The root takes up the signals of its statements. One that it cannot follow is an error of the
statement that it comes from.
-/

namespace Program

variable {c : Pairing} {s : Settings}

theorem fails_of_follow {program : Program} {rest : List Stmt} {signal : Signal}
    (hsignal : c.Signals signal) {error : EvalError}
    (h : program.follow rest signal = .error error) : c.Fails error := by
  rcases hsignal with rfl | ⟨n, hn, hsignals⟩
  · cases h
  · refine .inr ⟨n, hn, ?_⟩
    cases hsignals with
    | stop => cases h
    | breakLoop =>
        cases h
        exact .strayBreak
    | continueLoop =>
        cases h
        exact .strayContinue
    | goto =>
        simp only [follow] at h
        split at h
        · cases h
        · cases h
          exact .gotoOutOfBounds

theorem conducts_runFrom (hlimit : s.gasLimit = c.limit) {program : Program}
    (hprogram : ∀ stmt ∈ program.body, c.Admits stmt) (fuel : Nat) (stmts : List Stmt)
    (hstmts : ∀ stmt ∈ stmts, c.Admits stmt) :
    Conducts c (fun _ => True) (program.runFrom s fuel stmts) := by
  induction fuel generalizing stmts with
  | zero =>
      cases stmts with
      | nil => exact .ok trivial
      | cons stmt rest => exact .error (.inl (by rw [hlimit]))
  | succ fuel ih =>
      cases stmts with
      | nil => exact .ok trivial
      | cons stmt rest =>
          obtain ⟨hstmt, hrest⟩ := List.forall_mem_cons.1 hstmts
          have hnext : ∀ signal, c.Signals signal → Conducts c (fun _ => True)
              (program.proceed (program.runFrom s fuel) rest signal) := by
            intro signal hsignal
            unfold proceed
            rcases hfollow : program.follow rest signal with e | _ | stmts
            · exact .error (fails_of_follow hsignal hfollow)
            · exact .ok trivial
            · refine ih stmts fun n hn => ?_
              rcases List.mem_append.1 (mem_of_follow hfollow hn) with hn | hn
              · exact hrest n hn
              · exact hprogram n hn
          have hcons := (Stmt.conducts hlimit stmt hstmt).andThen hnext
          simpa only [← runFrom_cons] using hcons

/-- A program conducts itself as its statements allow. -/
theorem conducts_run (hlimit : s.gasLimit = c.limit) {program : Program}
    (hprogram : ∀ stmt ∈ program.body, c.Admits stmt) :
    Conducts c (fun _ => True) (program.run s) := by
  refine .inBlock fun m m' hm => ?_
  rw [Machine.rounds, Machine.rounds, hm.gas]
  exact conducts_runFrom hlimit hprogram _ program.body hprogram hm

end Program

/-!
### Errors and jumps of a run

One of the two runs by itself: it fails for want of gas, or at a statement inside, and it jumps as
one does.
-/

section Errors

variable {s : Settings} {m : Machine} {error : EvalError}

theorem Stmt.fails_of_exec {stmt : Stmt} (h : (stmt.exec s m).1 = .error error) :
    error = .gasExhausted s.gasLimit ∨ ∃ n : Stmt, n.Within stmt ∧ n.Raises error := by
  let c : Pairing := ⟨fun n => n.Within stmt, s.gasLimit, m.world, m.world.grid⟩
  have hconducts : Machine.Conducts c c.Signals fun m => stmt.exec s m :=
    conducts rfl stmt fun _ hn => hn
  exact (hconducts (.start _ _ m _)).fails error h

/-- Control goes on, or it jumps as a statement inside does. -/
theorem Stmt.signals_of_exec {stmt : Stmt} {signal : Signal}
    (h : (stmt.exec s m).1 = .ok signal) :
    signal = .normal ∨ ∃ n : Stmt, n.Within stmt ∧ n.Signals signal := by
  let c : Pairing := ⟨fun n => n.Within stmt, s.gasLimit, m.world, m.world.grid⟩
  have hconducts : Machine.Conducts c c.Signals fun m => stmt.exec s m :=
    conducts rfl stmt fun _ hn => hn
  exact (hconducts (.start _ _ m _)).good signal h

theorem Program.fails_of_run {program : Program} (h : (program.run s m).1 = .error error) :
    error = .gasExhausted s.gasLimit ∨ ∃ n, program.HasStmt n ∧ n.Raises error := by
  let c : Pairing := ⟨program.HasStmt, s.gasLimit, m.world, m.world.grid⟩
  have hconducts : Machine.Conducts c (fun _ => True) (program.run s) :=
    program.conducts_run rfl fun stmt hstmt n hn => ⟨stmt, hstmt, hn⟩
  exact (hconducts (.start _ _ m _)).fails error h

end Errors

end CellScript
