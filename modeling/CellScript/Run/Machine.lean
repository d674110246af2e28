/-
Module: CellScript.Run.Machine
Purpose: Running statements: what they do to variables and the world, and where control goes.
Main exports: Machine, Signal, Stmt.exec, Program.run
-/
import CellScript.Run.Eval
import CellScript.Run.World

namespace CellScript

/-- The state of a run. -/
structure Machine where
  scopes : Scopes := {}
  gas : Nat := 0
  world : World := {}
deriving Inhabited

/-- How a statement ended: on to the next one, or a jump that someone further out takes up. -/
inductive Signal where
  | normal
  | stop
  | breakLoop (token : Token)
  | continueLoop (token : Token)
  | goto (token : Token) (target : Int32)
deriving DecidableEq, Repr, Inhabited

/-- Whether control goes on to the next statement. -/
def Signal.isNormal : Signal → Bool
  | normal => true
  | _ => false

/-- A result or an error, and the state that either leaves behind. -/
abbrev Outcome (α : Type) := Except EvalError α × Machine

namespace Outcome

/-- Go on with a result; an error ends the run where it stands. -/
@[inline] def andThen {α β : Type} (r : Outcome α) (next : α → Machine → Outcome β) :
    Outcome β :=
  match r with
  | (.ok a, m) => next a m
  | (.error e, m) => (.error e, m)

end Outcome

namespace Machine

/-- Evaluate an expression. Nothing but the gas changes. -/
def eval (s : Settings) (e : Expr) (m : Machine) : Outcome Value :=
  match e.eval s m.scopes m.gas with
  | (r, gas) => (r, { m with gas })

/-- Evaluate an expression for what `take?` finds in a value of the right type. -/
def evalAs {α : Type} (s : Settings) (take? : Value → Option α) (mismatch : ValueType → Mismatch)
    (e : Expr) (m : Machine) : Outcome α :=
  Outcome.andThen (m.eval s e) fun v m =>
    match take? v with
    | some a => (.ok a, m)
    | none => (.error (.typeMismatch e.token (mismatch v.type)), m)

/-- Evaluate a condition of a statement. -/
def condition (s : Settings) (statement : TokenKind) (e : Expr) (m : Machine) : Outcome Bool :=
  m.evalAs s Value.bool? (.condition statement) e

/-- Evaluate an expression that has to be an integer. -/
def integer (s : Settings) (role : IntRole) (e : Expr) (m : Machine) : Outcome Int32 :=
  m.evalAs s Value.int? (.integer role) e

/-- Use one unit of gas, and go on if the limit allows it. -/
@[inline] def tick {α : Type} (s : Settings) (m : Machine) (next : Machine → Outcome α) :
    Outcome α :=
  let m := { m with gas := m.gas + 1 }
  if s.gasLimit < m.gas then (.error (.gasExhausted s.gasLimit), m) else next m

/-- Run something in a block of its own. The block is left on every way out. -/
@[inline] def inBlock {α : Type} (m : Machine) (next : Machine → Outcome α) : Outcome α :=
  match next { m with scopes := m.scopes.enter } with
  | (r, m') => (r, { m' with scopes := m'.scopes.exit m.scopes.depth })

/-- More rounds than a loop can make: each one uses gas. -/
def rounds (s : Settings) (m : Machine) : Nat :=
  s.gasLimit - m.gas + 1

/-- Run `body` and then `after` as long as `condition` holds, for at most `fuel` rounds. A break
ends the loop, a continue ends the round, and any other jump goes through. -/
def loop (s : Settings) (condition : Machine → Outcome Bool)
    (body after : Machine → Outcome Signal) : Nat → Machine → Outcome Signal
  | 0, m => (.error (.gasExhausted s.gasLimit), m)
  | fuel + 1, m =>
      match condition m with
      | (.error e, m) => (.error e, m)
      | (.ok false, m) => (.ok .normal, m)
      | (.ok true, m) =>
          match body m with
          | (.error e, m) => (.error e, m)
          | (.ok (.breakLoop _), m) => (.ok .normal, m)
          | (.ok .stop, m) => (.ok .stop, m)
          | (.ok (.goto token target), m) => (.ok (.goto token target), m)
          | (.ok .normal, m) | (.ok (.continueLoop _), m) =>
              match after m with
              | (.ok .normal, m) => loop s condition body after fuel m
              | (r, m) => (r, m)

/-- Store a value, converted to a type, in the variable that a chain names. -/
def assign (type : ValueType) (token : Token) (chain : List Token) (v : Value) (m : Machine) :
    Outcome Signal :=
  match v.coerce? type with
  | some v => (.ok .normal, { m with scopes := m.scopes.assign chain.length v })
  | none => (.error (.conversion token v.type type v.text), m)

/-- Run the command at a token's cell. -/
def command (token : Token) (m : Machine) : Outcome Signal :=
  match m.world.execute token.pos with
  | .ok world => (.ok .normal, { m with world })
  | .error (.missing _) => (.error (.missingCommandHook token), m)
  | .error (.failed _ message) => (.error (.commandFailed token message), m)

/-- Write a template to the cell with the coordinates that three expressions give. -/
def place (s : Settings) (x y z : Expr) (template : Symbol) (m : Machine) : Outcome Signal :=
  Outcome.andThen (m.integer s .placeCoordinate x) fun x m =>
    Outcome.andThen (m.integer s .placeCoordinate y) fun y m =>
      Outcome.andThen (m.integer s .placeCoordinate z) fun z m =>
        (.ok .normal, { m with world := m.world.write ⟨x, y, z⟩ template })

end Machine

mutual

/-- Run a statement. -/
def Stmt.exec (s : Settings) : Stmt → Machine → Outcome Signal
  | .assign type token chain value, m =>
      m.tick s fun m => Outcome.andThen (m.eval s value) fun v m => m.assign type token chain v
  | .command token, m => m.tick s fun m => m.command token
  | .stop _, m => m.tick s fun m => (.ok .stop, m)
  | .breakLoop token, m => m.tick s fun m => (.ok (.breakLoop token), m)
  | .continueLoop token, m => m.tick s fun m => (.ok (.continueLoop token), m)
  | .print _ value, m =>
      m.tick s fun m =>
        Outcome.andThen (m.eval s value) fun v m =>
          (.ok .normal, { m with world := m.world.emit v.text })
  | .goto token target, m =>
      m.tick s fun m =>
        if s.gotoEnabled then
          Outcome.andThen (m.integer s .gotoTarget target) fun n m => (.ok (.goto token n), m)
        else
          (.error (.gotoDisabled token), m)
  | .place _ x y z _ template, m => m.tick s fun m => m.place s x y z template
  | .ifElse _ condition yes no, m =>
      m.tick s fun m =>
        Outcome.andThen (m.condition s .ifElse condition) fun holds m =>
          if holds then m.inBlock fun m => Stmt.execAll s yes m else Stmt.execElse s no m
  | .whileLoop _ condition body, m =>
      m.tick s fun m =>
        Machine.loop s (fun m => m.condition s .whileLoop condition)
          (fun m => m.inBlock fun m => Stmt.execAll s body m) (fun m => (.ok .normal, m))
          (m.rounds s) m
  | .forLoop _ init condition increment body, m =>
      m.tick s fun m =>
        m.inBlock fun m =>
          Outcome.andThen (init.exec s m) fun signal m =>
            if signal.isNormal then
              Machine.loop s (fun m => m.condition s .forLoop condition)
                (fun m => m.inBlock fun m => Stmt.execAll s body m) (fun m => increment.exec s m)
                (m.rounds s) m
            else
              (.ok signal, m)

/-- Run statements in turn, up to the first jump. -/
def Stmt.execAll (s : Settings) : List Stmt → Machine → Outcome Signal
  | [], m => (.ok .normal, m)
  | stmt :: rest, m =>
      match stmt.exec s m with
      | (.ok .normal, m) => Stmt.execAll s rest m
      | (r, m) => (r, m)

/-- Run the other branch of a condition, if there is one. -/
def Stmt.execElse (s : Settings) : Option (List Stmt) → Machine → Outcome Signal
  | none, m => (.ok .normal, m)
  | some block, m => m.inBlock fun m => Stmt.execAll s block m

end

/-- Run the rest of the root block, for at most `fuel` statements. `GOTO` goes on with the
statement whose number it gives. -/
def Program.runFrom (s : Settings) (program : Program) :
    Nat → List Stmt → Machine → Outcome Unit
  | _, [], m => (.ok (), m)
  | 0, _ :: _, m => (.error (.gasExhausted s.gasLimit), m)
  | fuel + 1, stmt :: rest, m =>
      match stmt.exec s m with
      | (.error e, m) => (.error e, m)
      | (.ok .normal, m) => program.runFrom s fuel rest m
      | (.ok .stop, m) => (.ok (), m)
      | (.ok (.breakLoop token), m) => (.error (.strayControl token), m)
      | (.ok (.continueLoop token), m) => (.error (.strayControl token), m)
      | (.ok (.goto token target), m) =>
          if 0 ≤ target.toInt ∧ target.toInt.toNat < program.body.length then
            program.runFrom s fuel (program.body.drop target.toInt.toNat) m
          else
            (.error (.gotoOutOfBounds token target program.body.length), m)

/-- Run a program in a block of its own. What it did before an error stays done. -/
def Program.run (s : Settings) (program : Program) (m : Machine) : Outcome Unit :=
  m.inBlock fun m => program.runFrom s (m.rounds s) program.body m

end CellScript
