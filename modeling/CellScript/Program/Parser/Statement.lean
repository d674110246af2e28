/-
Module: CellScript.Program.Parser.Statement
Purpose: Reading statements from a list of tokens, with slots in any order.
Main exports: Parser.statement, Parser.stmtReader
-/
import CellScript.Program.Parser.Expression

namespace CellScript.Parser

/-!
A compound statement takes its parts from slots, each opened by a marker. Slots come in any order,
each at most once. Branches and the statements in the slots of `FOR` take one level of nesting.
-/

/-- A parser for a statement. -/
abbrev StmtReader := List Token → Except ParseError (Parsed Stmt)

/-- Read what a slot holds, unless it is filled already. -/
def once {α : Type} (slot : Option α) (marker : Token)
    (read : List Token → Except ParseError (Parsed α)) (ts : List Token) :
    Except ParseError (Parsed α) :=
  match slot with
  | some _ => .error (.duplicateArgument marker)
  | none => read ts

/-- The contents of a slot that a statement cannot do without. -/
def require {α : Type} (slot : Option α) (token : Token) (kind : TokenKind) :
    Except ParseError α :=
  match slot with
  | some a => .ok a
  | none => .error (.missingArgument token kind)

/-! ### Assignment -/

/-- An assignment after its marker. The chain that names the variable stands before or after the
value. -/
def assignment (room : Nat) (marker : Token) (ts : List Token) :
    Except ParseError (Parsed Stmt) := do
  let type ← markedType marker
  match ts.takeWhile isIndex with
  | [] => do
      let (value, rest) ← expression room ts
      return (.assign type marker (rest.takeWhile isIndex) value, rest.dropWhile isIndex)
  | chain => do
      let (value, rest) ← expression room (ts.dropWhile isIndex)
      return (.assign type marker chain value, rest)

/-! ### Placing a block -/

/-- The slots of `PLACEBLOCK` read so far. The fourth keeps its marker only. -/
structure PlaceSlots where
  x : Option Expr := none
  y : Option Expr := none
  z : Option Expr := none
  fourth : Option Token := none

/-- Whether no slot is open. -/
def PlaceSlots.isComplete (s : PlaceSlots) : Bool :=
  s.x.isSome && s.y.isSome && s.z.isSome && s.fourth.isSome

/-- Drop the tokens that stand on a line of cells: the first at `next`, each further one a
displacement on. -/
def skipLine (displacement next : Position) : List Token → List Token
  | [] => []
  | token :: rest =>
      if token.pos = next then
        skipLine displacement (next + displacement) rest
      else
        token :: rest

/-- Read slots until none is open or the input ends, at most `fuel` tokens far. Tokens between the
slots are skipped. After the fourth marker come the cells that the scan read on the line from the
statement through the marker; they are no part of the program. -/
def placeSlots (room : Nat) (token : Token) :
    Nat → PlaceSlots → List Token → Except ParseError (Parsed PlaceSlots)
  | 0, s, ts => .ok (s, ts)
  | _ + 1, s, [] => .ok (s, [])
  | fuel + 1, s, marker :: rest =>
      if s.isComplete then
        .ok (s, marker :: rest)
      else
        match marker.kind with
        | .firstArgument => do
            let (e, rest) ← once s.x marker (expression room) rest
            placeSlots room token fuel { s with x := some e } rest
        | .secondArgument => do
            let (e, rest) ← once s.y marker (expression room) rest
            placeSlots room token fuel { s with y := some e } rest
        | .thirdArgument => do
            let (e, rest) ← once s.z marker (expression room) rest
            placeSlots room token fuel { s with z := some e } rest
        | .fourthArgument => do
            let displacement := marker.pos - token.pos
            let (m, rest) ←
              once s.fourth marker
                (fun ts => .ok (marker, skipLine displacement (marker.pos + displacement) ts)) rest
            placeSlots room token fuel { s with fourth := some m } rest
        | _ => placeSlots room token fuel s rest

/-- `PLACEBLOCK` after its token. The template lies as far beyond the fourth marker as the marker
lies from the statement, and its symbol is read now. -/
def place (g : Grid) (room : Nat) (token : Token) (ts : List Token) :
    Except ParseError (Parsed Stmt) := do
  let (s, rest) ← placeSlots room token ts.length {} ts
  let x ← require s.x token .firstArgument
  let y ← require s.y token .secondArgument
  let z ← require s.z token .thirdArgument
  let marker ← require s.fourth token .fourthArgument
  let templatePos := marker.pos + (marker.pos - token.pos)
  return (.place token x y z templatePos (g.symbolAt templatePos), rest)

/-! ### Branches and loops -/

/-- Statements up to the end of a branch, at most `fuel` of them. -/
def block (read : StmtReader) : Nat → List Token → Except ParseError (Parsed (List Stmt))
  | 0, _ => .error (.unexpectedEnd (.kind .branchEnd))
  | _ + 1, [] => .error (.unexpectedEnd (.kind .branchEnd))
  | fuel + 1, token :: rest =>
      if token.kind = .branchEnd then
        .ok ([], rest)
      else do
        let (first, rest) ← read (token :: rest)
        let (others, rest) ← block read fuel rest
        return (first :: others, rest)

/-- A branch, which takes one level. Each statement takes a token, so there are no more of them
than tokens. -/
def branch (inner : Option StmtReader) (opener : Token) (ts : List Token) :
    Except ParseError (Parsed (List Stmt)) := do
  let read ← deeper inner opener
  block read (ts.length + 1) ts

/-- A statement in a slot, which takes one level. -/
def nested (inner : Option StmtReader) (opener : Token) (ts : List Token) :
    Except ParseError (Parsed Stmt) := do
  let read ← deeper inner opener
  read ts

/-- More rounds than any statement has slots. -/
def slotRounds : Nat := 5

/-- Fill slots as long as the next token opens one, for at most `fuel` rounds. `fill` says what a
marker does to the slots, and has nothing to say on other tokens. -/
def slots {σ : Type} (fill : σ → Token → List Token → Option (Except ParseError (Parsed σ))) :
    Nat → σ → List Token → Except ParseError (Parsed σ)
  | 0, s, ts => .ok (s, ts)
  | _ + 1, s, [] => .ok (s, [])
  | fuel + 1, s, marker :: rest =>
      match fill s marker rest with
      | none => .ok (s, marker :: rest)
      | some (.error e) => .error e
      | some (.ok (s, rest)) => slots fill fuel s rest

/-- The slots of `IF`. -/
structure IfSlots where
  condition : Option Expr := none
  yes : Option (List Stmt) := none
  no : Option (List Stmt) := none

/-- What a marker does to the slots of `IF`. -/
def fillIf (room : Nat) (inner : Option StmtReader) (s : IfSlots) (marker : Token)
    (ts : List Token) : Option (Except ParseError (Parsed IfSlots)) :=
  match marker.kind with
  | .firstArgument => some do
      let (e, rest) ← once s.condition marker (expression room) ts
      return ({ s with condition := some e }, rest)
  | .secondArgument => some do
      let (b, rest) ← once s.yes marker (branch inner marker) ts
      return ({ s with yes := some b }, rest)
  | .thirdArgument => some do
      let (b, rest) ← once s.no marker (branch inner marker) ts
      return ({ s with no := some b }, rest)
  | _ => none

/-- `IF` after its token. The third slot may be missing. -/
def ifElse (room : Nat) (inner : Option StmtReader) (token : Token) (ts : List Token) :
    Except ParseError (Parsed Stmt) := do
  let (s, rest) ← slots (fillIf room inner) slotRounds {} ts
  let condition ← require s.condition token .firstArgument
  let yes ← require s.yes token .secondArgument
  return (.ifElse token condition yes s.no, rest)

/-- The slots of `WHILE`. -/
structure WhileSlots where
  condition : Option Expr := none
  body : Option (List Stmt) := none

/-- What a marker does to the slots of `WHILE`. -/
def fillWhile (room : Nat) (inner : Option StmtReader) (s : WhileSlots) (marker : Token)
    (ts : List Token) : Option (Except ParseError (Parsed WhileSlots)) :=
  match marker.kind with
  | .firstArgument => some do
      let (e, rest) ← once s.condition marker (expression room) ts
      return ({ s with condition := some e }, rest)
  | .secondArgument => some do
      let (b, rest) ← once s.body marker (branch inner marker) ts
      return ({ s with body := some b }, rest)
  | _ => none

/-- `WHILE` after its token. -/
def whileLoop (room : Nat) (inner : Option StmtReader) (token : Token) (ts : List Token) :
    Except ParseError (Parsed Stmt) := do
  let (s, rest) ← slots (fillWhile room inner) slotRounds {} ts
  let condition ← require s.condition token .firstArgument
  let body ← require s.body token .secondArgument
  return (.whileLoop token condition body, rest)

/-- The slots of `FOR`. -/
structure ForSlots where
  init : Option Stmt := none
  condition : Option Expr := none
  increment : Option Stmt := none
  body : Option (List Stmt) := none

/-- What a marker does to the slots of `FOR`. -/
def fillFor (room : Nat) (inner : Option StmtReader) (s : ForSlots) (marker : Token)
    (ts : List Token) : Option (Except ParseError (Parsed ForSlots)) :=
  match marker.kind with
  | .firstArgument => some do
      let (i, rest) ← once s.init marker (nested inner marker) ts
      return ({ s with init := some i }, rest)
  | .secondArgument => some do
      let (e, rest) ← once s.condition marker (expression room) ts
      return ({ s with condition := some e }, rest)
  | .thirdArgument => some do
      let (i, rest) ← once s.increment marker (nested inner marker) ts
      return ({ s with increment := some i }, rest)
  | .fourthArgument => some do
      let (b, rest) ← once s.body marker (branch inner marker) ts
      return ({ s with body := some b }, rest)
  | _ => none

/-- `FOR` after its token. -/
def forLoop (room : Nat) (inner : Option StmtReader) (token : Token) (ts : List Token) :
    Except ParseError (Parsed Stmt) := do
  let (s, rest) ← slots (fillFor room inner) slotRounds {} ts
  let init ← require s.init token .firstArgument
  let condition ← require s.condition token .secondArgument
  let increment ← require s.increment token .thirdArgument
  let body ← require s.body token .fourthArgument
  return (.forLoop token init condition increment body, rest)

/-! ### Statements -/

/-- A statement after its first token, where `room` levels are left and `inner` reads statements
one level down. -/
def statementFrom (g : Grid) (room : Nat) (inner : Option StmtReader) (token : Token)
    (rest : List Token) : Except ParseError (Parsed Stmt) :=
  match token.kind with
  | .int | .float | .string | .bool => assignment room token rest
  | .command => .ok (.command token, rest)
  | .stop => .ok (.stop token, rest)
  | .breakLoop => .ok (.breakLoop token, rest)
  | .continueLoop => .ok (.continueLoop token, rest)
  | .print => do
      let (value, rest) ← expression room rest
      return (.print token value, rest)
  | .goto => do
      let (target, rest) ← expression room rest
      return (.goto token target, rest)
  | .placeBlock => place g room token rest
  | .ifElse => ifElse room inner token rest
  | .whileLoop => whileLoop room inner token rest
  | .forLoop => forLoop room inner token rest
  | _ => .error (.unexpectedToken token)

/-- A statement. -/
def statement (g : Grid) (room : Nat) (inner : Option StmtReader) (ts : List Token) :
    Except ParseError (Parsed Stmt) := do
  let (token, rest) ← nextToken .statement ts
  statementFrom g room inner token rest

theorem statement_cons (g : Grid) (room : Nat) (inner : Option StmtReader) (token : Token)
    (rest : List Token) :
    statement g room inner (token :: rest) = statementFrom g room inner token rest := rfl

/-- Read a statement with so many levels left. -/
def stmtReader (g : Grid) : Nat → List Token → Except ParseError (Parsed Stmt)
  | 0, ts => statement g 0 none ts
  | room + 1, ts => statement g (room + 1) (some (stmtReader g room)) ts

end CellScript.Parser
