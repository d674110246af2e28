/-
Module: CellScript.Run.World
Purpose: What a program can act on: the grid, a host that runs commands, and a record of effects.
Main exports: Hook, HookError, Effect, Host, Host.ofHooks, World
-/
import CellScript.Space.Grid

namespace CellScript

open Std

/-- Why a command did not run. -/
inductive HookError where
  | missing (pos : Position)
  | failed (pos : Position) (message : String)
deriving DecidableEq, Repr

/-- The error in one line. -/
def HookError.text : HookError → String
  | missing pos => "no command hook at " ++ pos.text
  | failed pos message => "command at " ++ pos.text ++ " failed: " ++ message

/-- Something that a run did. -/
inductive Effect where
  | emitted (text : String)
  | executed (pos : Position)
  | wrote (pos : Position) (symbol : Symbol)
deriving DecidableEq, Repr

namespace Effect

/-- The text of an emission. -/
def text? : Effect → Option String
  | emitted text => some text
  | _ => none

/-- The cell of a command that ran. -/
def command? : Effect → Option Position
  | executed pos => some pos
  | _ => none

/-- The cell and symbol of a write. -/
def write? : Effect → Option (Position × Symbol)
  | wrote pos symbol => some (pos, symbol)
  | _ => none

end Effect

/-- Who runs the commands. The answer to a command at a cell may go by all effects there have been,
the newest first. A command that is refused ends the run, so it does not count for later ones. -/
structure Host where
  answer : List Effect → Position → Except HookError Unit

/-- What happens when the command at a cell is run. -/
inductive Hook where
  | succeeds
  | fails (message : String)
deriving DecidableEq, Repr, Inhabited

/-- The answer of the hook at a cell. -/
def Hook.answer (pos : Position) : Hook → Except HookError Unit
  | succeeds => .ok ()
  | fails message => .error (.failed pos message)

namespace Host

/-- The host that runs the commands to which hooks are bound. -/
def ofHooks (hooks : TreeMap Position Hook) : Host where
  answer _ pos :=
    match hooks[pos]? with
    | none => .error (.missing pos)
    | some hook => hook.answer pos

/-- The same host with a hook at a cell, in place of what it does there. -/
def bind (h : Host) (cell : Position) (hook : Hook) : Host where
  answer effects pos := if pos = cell then hook.answer pos else h.answer effects pos

instance : Inhabited Host :=
  ⟨.ofHooks ∅⟩

end Host

/-- The world of a run. The effects are recorded newest first. -/
structure World where
  grid : Grid := .empty
  host : Host := .ofHooks ∅
  effects : List Effect := []
deriving Inhabited

namespace World

/-- Bind a command to a cell, in place of an earlier one. -/
def register (w : World) (pos : Position) (hook : Hook) : World :=
  { w with host := w.host.bind pos hook }

/-- Emit a text. -/
def emit (w : World) (text : String) : World :=
  { w with effects := .emitted text :: w.effects }

/-- Have the host run the command at a cell. Only success is recorded. -/
def execute (w : World) (pos : Position) : Except HookError World :=
  match w.host.answer w.effects pos with
  | .error e => .error e
  | .ok () => .ok { w with effects := .executed pos :: w.effects }

/-- Write a symbol to the grid. -/
def write (w : World) (pos : Position) (symbol : Symbol) : World :=
  { w with grid := w.grid.write pos symbol, effects := .wrote pos symbol :: w.effects }

/-- The effects in the order in which they happened. -/
def trace (w : World) : List Effect :=
  w.effects.reverse

/-- The texts emitted, in order. -/
def texts (w : World) : List String :=
  w.trace.filterMap Effect.text?

/-- The cells of the commands that ran, in order. -/
def commands (w : World) : List Position :=
  w.trace.filterMap Effect.command?

/-- The writes to the grid, in order. -/
def writes (w : World) : List (Position × Symbol) :=
  w.trace.filterMap Effect.write?

end World

end CellScript
