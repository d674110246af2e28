/-
Module: CellScript.Program.Parser.Expression
Purpose: Reading expressions from a list of tokens, with a bound on their nesting.
Main exports: Parser.Parsed, Parser.maxNesting, Parser.deeper, Parser.Part, Parser.reader,
  Parser.expression
-/
import CellScript.Program
import CellScript.Program.Error

namespace CellScript.Parser

/-!
Expressions have two levels of left-associative operators:

* `sum = term { additive term }`
* `term = factor { multiplicative factor }`
* `factor = unary factor | LPAR sum RPAR | literal | USE_VAR VAR_INDEX* | PI | E`

Entering an expression, an operand of a unary operator and every operator of a chain takes one
level of nesting, the last until its chain ends: a chain makes a tree as deep as the chain is
long. So the levels that are left bound the recursion, and each parser is made from the parsers
with one level less.
-/

/-- What was read, and the tokens after it. -/
abbrev Parsed (α : Type) := α × List Token

/-- How many levels expressions, branches and slots may nest. -/
def maxNesting : Nat := 256

/-- Go one level deeper, or blame a token where no level is left. -/
def deeper {α : Type} (inner : Option α) (token : Token) : Except ParseError α :=
  match inner with
  | some reader => .ok reader
  | none => .error (.nestingTooDeep token maxNesting)

/-- The next token, where the grammar needs one. -/
def nextToken (what : Expectation) : List Token → Except ParseError (Parsed Token)
  | [] => .error (.unexpectedEnd what)
  | token :: rest => .ok (token, rest)

/-- The kind of the next token, if there is one. -/
def peekKind? (ts : List Token) : Option TokenKind :=
  ts.head?.map Token.kind

/-- The type that a marker names. -/
def markedType (marker : Token) : Except ParseError ValueType :=
  match ValueType.ofKind? marker.kind with
  | some type => .ok type
  | none => .error (.expected .typeMarker marker)

theorem bind_of_ok {α β : Type} {x : Except ParseError α} {a : α} (h : x = .ok a)
    (f : α → Except ParseError β) : x >>= f = f a := by
  rw [h]
  rfl

theorem markedType_eq {marker : Token} {type : ValueType}
    (h : ValueType.ofKind? marker.kind = some type) : markedType marker = .ok type := by
  rw [markedType, h]

/-- The part of an expression to be read: the `Rest` of a chain goes on from its left side. -/
inductive Part where
  | factor
  | term
  | termRest (left : Expr)
  | sum
  | sumRest (left : Expr)

/-- A parser for each part of an expression. -/
abbrev Reader := Part → List Token → Except ParseError (Parsed Expr)

/-- An expression entered from outside: the level it takes is blamed on its first token. -/
def enter (inner : Option Reader) (ts : List Token) : Except ParseError (Parsed Expr) :=
  match ts with
  | [] => .error (.unexpectedEnd .value)
  | token :: _ => do
      let read ← deeper inner token
      read .sum ts

/-- Drop a token of a given kind. -/
def expect (kind : TokenKind) : List Token → Except ParseError (List Token)
  | [] => .error (.unexpectedEnd (.kind kind))
  | token :: rest =>
      if token.kind = kind then .ok rest else .error (.expected (.kind kind) token)

/-- A literal after its marker: bits, the number of which has to suit the type. -/
def literal (marker : Token) (ts : List Token) : Except ParseError (Parsed Expr) := do
  let type ← markedType marker
  let bits := ts.takeWhile fun t => t.kind.isBit
  match type.checkWidth bits.length with
  | .ok () => .ok (.literal type marker bits, ts.dropWhile fun t => t.kind.isBit)
  | .error fault => .error (.malformedLiteral marker fault)

/-- Whether a token continues the chain that names a variable. -/
def isIndex (t : Token) : Bool :=
  t.kind == .varIndex

/-- A factor after its first token. -/
def factorFrom (inner : Option Reader) (token : Token) (rest : List Token) :
    Except ParseError (Parsed Expr) :=
  match UnaryOp.ofKind? token.kind with
  | some op => do
      let read ← deeper inner token
      let (operand, rest) ← read .factor rest
      return (.unary op token operand, rest)
  | none =>
      match token.kind with
      | .lpar => do
          let (e, rest) ← enter inner rest
          let rest ← expect .rpar rest
          return (e, rest)
      | .int | .float | .string | .bool => literal token rest
      | .useVar => .ok (.var token (rest.takeWhile isIndex), rest.dropWhile isIndex)
      | .pi => .ok (.constant .pi token, rest)
      | .expBase => .ok (.constant .expBase token, rest)
      | _ => .error (.expected .value token)

/-- A factor. -/
def factor (inner : Option Reader) (ts : List Token) : Except ParseError (Parsed Expr) := do
  let (token, rest) ← nextToken .value ts
  factorFrom inner token rest

theorem factor_cons (inner : Option Reader) (token : Token) (rest : List Token) :
    factor inner (token :: rest) = factorFrom inner token rest := rfl

/-- The rest of a chain of operators of one level, after its left side. -/
def chainRest (op? : TokenKind → Option BinaryOp) (operand : Part) (again : Expr → Part)
    (inner : Option Reader) (left : Expr) (ts : List Token) : Except ParseError (Parsed Expr) :=
  match (peekKind? ts).bind op? with
  | none => .ok (left, ts)
  | some op => do
      let (token, rest) ← nextToken .operator ts
      let read ← deeper inner token
      let (right, rest) ← read operand rest
      read (again (.binary op token left right)) rest

section Chain

variable {op? : TokenKind → Option BinaryOp} {token : Token}

theorem chainRest_of_none (h : op? token.kind = none) (operand : Part) (again : Expr → Part)
    (inner : Option Reader) (left : Expr) (rest : List Token) :
    chainRest op? operand again inner left (token :: rest) = .ok (left, token :: rest) := by
  simp only [chainRest, peekKind?, List.head?_cons, Option.map_some, Option.bind_some, h]

/-- The operator that was looked at is the next token, so there is one. -/
theorem chainRest_of_some {op : BinaryOp} (h : op? token.kind = some op) (operand : Part)
    (again : Expr → Part) (inner : Option Reader) (left : Expr) (rest : List Token) :
    chainRest op? operand again inner left (token :: rest) =
      deeper inner token >>= fun read => read operand rest >>= fun right =>
        read (again (.binary op token left right.1)) right.2 := by
  simp only [chainRest, peekKind?, List.head?_cons, Option.map_some, Option.bind_some, h]
  rfl

end Chain

/-- The rest of a chain of tighter operators. -/
def termRest (inner : Option Reader) (left : Expr) (ts : List Token) :
    Except ParseError (Parsed Expr) :=
  chainRest BinaryOp.multiplicative? .factor .termRest inner left ts

/-- A term. -/
def term (inner : Option Reader) (ts : List Token) : Except ParseError (Parsed Expr) := do
  let (left, rest) ← factor inner ts
  termRest inner left rest

/-- The rest of a chain of looser operators. -/
def sumRest (inner : Option Reader) (left : Expr) (ts : List Token) :
    Except ParseError (Parsed Expr) :=
  chainRest BinaryOp.additive? .term .sumRest inner left ts

/-- A whole expression. -/
def sum (inner : Option Reader) (ts : List Token) : Except ParseError (Parsed Expr) := do
  let (left, rest) ← term inner ts
  sumRest inner left rest

/-- Read a part with the parsers of one level less. -/
def part (inner : Option Reader) : Part → List Token → Except ParseError (Parsed Expr)
  | .factor, ts => factor inner ts
  | .term, ts => term inner ts
  | .termRest left, ts => termRest inner left ts
  | .sum, ts => sum inner ts
  | .sumRest left, ts => sumRest inner left ts

/-- Read a part with so many levels left. -/
def reader : Nat → Part → List Token → Except ParseError (Parsed Expr)
  | 0, p, ts => part none p ts
  | room + 1, p, ts => part (some (reader room)) p ts

/-- The parsers one level below `room` levels. -/
def readerBelow : Nat → Option Reader
  | 0 => none
  | room + 1 => some (reader room)

/-- Read an expression where so many levels are left. -/
def expression (room : Nat) (ts : List Token) : Except ParseError (Parsed Expr) :=
  enter (readerBelow room) ts

end CellScript.Parser
