/-
Module: CellScript.Token
Purpose: A token is a kind read at a position.
Main exports: Token, Token.text
-/
import CellScript.Space.Position
import CellScript.Token.Kind

namespace CellScript

/-- A kind of token together with the cell it was read from. -/
structure Token where
  kind : TokenKind
  pos : Position
deriving DecidableEq, Repr, Inhabited

/-- A token as it stands in messages. -/
def Token.text (t : Token) : String :=
  t.kind.name ++ " at " ++ t.pos.text

end CellScript
