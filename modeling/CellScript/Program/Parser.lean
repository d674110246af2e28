/-
Module: CellScript.Program.Parser
Purpose: Reading a program from its tokens.
Main exports: Program.parse
-/
import CellScript.Program.Parser.Statement

namespace CellScript

/-- Statements up to the end of the input, at most `fuel` of them. -/
def Parser.statements (read : Parser.StmtReader) :
    Nat → List Token → Except ParseError (List Stmt)
  | _, [] => .ok []
  | 0, _ :: _ => .ok []
  | fuel + 1, ts => do
      let (first, rest) ← read ts
      let others ← statements read fuel rest
      return first :: others

/-- The program that tokens stand for. Templates are read from the grid. Each statement takes a
token, so there are no more of them than tokens. -/
def Program.parse (g : Grid) (ts : List Token) : Except ParseError Program := do
  let body ← Parser.statements (Parser.stmtReader g Parser.maxNesting) ts.length ts
  return ⟨body⟩

end CellScript
