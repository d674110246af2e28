/-
Module: CellScript.Proofs.Parser.Spelling
Purpose: The written form of a program, with as few parentheses as the two levels of operators
  allow, and the levels of nesting that reading it takes.
Main exports: Mark, Expr.marks, Stmt.marks, Program.print, Expr.need, Stmt.need, Program.need,
  Expr.WellFormed, Stmt.WellFormed, Program.WellFormed
-/
import CellScript.Program.Parser
import Mathlib.Data.List.Forall2

namespace CellScript

/-!
### Marks

A tree keeps most of the tokens that it was read from. Parentheses, the markers of slots and the
ends of branches are not kept: of these only the kind is written, and they may stand anywhere.
-/

/-- A place in the written form: a token of the tree, or any token of a kind. -/
inductive Mark where
  | kept (token : Token)
  | loose (kind : TokenKind)
deriving DecidableEq, Repr

namespace Mark

/-- The token at a mark, at a given position where the tree does not say. -/
def token (pos : Position) : Mark → Token
  | kept token => token
  | loose kind => ⟨kind, pos⟩

/-- Whether a token may stand at a mark. -/
def Fits : Mark → Token → Prop
  | kept token, t => t = token
  | loose kind, t => t.kind = kind

theorem fits_token (pos : Position) (m : Mark) : m.Fits (m.token pos) := by
  cases m with
  | kept token => rfl
  | loose kind => rfl

end Mark

/-- Tokens that stand at marks, one at each. -/
abbrev Spells (marks : List Mark) (ts : List Token) : Prop :=
  List.Forall₂ Mark.Fits marks ts

namespace Spells

theorem append_inv {xs ys : List Mark} {ts : List Token} (h : Spells (xs ++ ys) ts) :
    ∃ us vs, ts = us ++ vs ∧ Spells xs us ∧ Spells ys vs := by
  induction xs generalizing ts with
  | nil => exact ⟨[], ts, rfl, .nil, h⟩
  | cons x xs ih =>
      cases h with
      | cons hx hrest =>
          obtain ⟨us, vs, rfl, hus, hvs⟩ := ih hrest
          exact ⟨_ :: us, vs, rfl, .cons hx hus, hvs⟩

theorem kept_inv {t : Token} {ms : List Mark} {ts : List Token} (h : Spells (.kept t :: ms) ts) :
    ∃ us, ts = t :: us ∧ Spells ms us := by
  cases h with
  | cons ht hrest =>
      cases ht
      exact ⟨_, rfl, hrest⟩

theorem loose_inv {kind : TokenKind} {ms : List Mark} {ts : List Token}
    (h : Spells (.loose kind :: ms) ts) :
    ∃ t us, ts = t :: us ∧ t.kind = kind ∧ Spells ms us := by
  cases h with
  | cons ht hrest => exact ⟨_, _, rfl, ht, hrest⟩

theorem map_kept_inv {tokens ts : List Token} (h : Spells (tokens.map .kept) ts) :
    ts = tokens := by
  induction tokens generalizing ts with
  | nil =>
      cases h
      rfl
  | cons t tokens ih =>
      obtain ⟨us, rfl, hus⟩ := kept_inv h
      rw [ih hus]

theorem mapIdx (place : Nat → Position) (ms : List Mark) :
    Spells ms (ms.mapIdx fun i m => m.token (place i)) := by
  induction ms generalizing place with
  | nil => exact .nil
  | cons m ms ih =>
      rw [List.mapIdx_cons]
      exact .cons (m.fits_token _) (ih fun i => place (i + 1))

end Spells

/-!
### Expressions

Where an operand stands decides whether it needs parentheses: next to a looser operator of the same
chain nothing does, the other places want a term or a factor.
-/

/-- Whether an operator binds on the tighter of the two levels. -/
def BinaryOp.isTight (op : BinaryOp) : Bool :=
  (multiplicative? op.kind).isSome

/-- Where an expression stands: as a whole expression or the left side of a looser operator, as a
term, or as a factor. -/
inductive Site where
  | sum
  | term
  | factor
deriving DecidableEq, Repr

/-- Where the left operand of an operator stands. -/
def BinaryOp.leftSite (op : BinaryOp) : Site :=
  if op.isTight then .term else .sum

/-- Where the right operand of an operator stands. -/
def BinaryOp.rightSite (op : BinaryOp) : Site :=
  if op.isTight then .factor else .term

namespace Expr

/-- Whether an expression needs parentheses where it stands. -/
def wrapped : Site → Expr → Bool
  | .term, .binary op _ _ _ => !op.isTight
  | .factor, .binary _ _ _ _ => true
  | _, _ => false

/-- Put marks in parentheses, or leave them as they are. -/
def enclose (parens : Bool) (ms : List Mark) : List Mark :=
  if parens then .loose .lpar :: (ms ++ [.loose .rpar]) else ms

/-- The written form of an expression that stands for itself. -/
def marks : Expr → List Mark
  | literal _ token bits => .kept token :: bits.map .kept
  | var token chain => .kept token :: chain.map .kept
  | constant _ token => [.kept token]
  | unary _ token operand =>
      .kept token :: enclose (operand.wrapped .factor) operand.marks
  | binary op token left right =>
      enclose (left.wrapped op.leftSite) left.marks ++
        .kept token :: enclose (right.wrapped op.rightSite) right.marks

/-- The written form of an expression where it stands. -/
def marksAt (site : Site) (e : Expr) : List Mark :=
  enclose (e.wrapped site) e.marks

/-- The length of the chain of operators of one level that an expression is. -/
def chain (tight : Bool) : Expr → Nat
  | binary op _ left _ => if op.isTight = tight then left.chain tight + 1 else 0
  | _ => 0

/-- How many levels reading an expression takes, once it is entered. An operand of a unary operator
takes one, parentheses take one, and the operators of a chain take one each from where they stand to
the end of the chain: the right side of the `k`th has `k` levels less than its chain. -/
def need : Expr → Nat
  | literal _ _ _ => 0
  | var _ _ => 0
  | constant _ _ => 0
  | unary _ _ operand => (operand.need + if operand.wrapped .factor then 1 else 0) + 1
  | binary op _ left right =>
      max (left.need + if left.wrapped op.leftSite then 1 else 0)
        (left.chain op.isTight + 1 +
          (right.need + if right.wrapped op.rightSite then 1 else 0))

/-- How many levels reading an expression takes where it stands. -/
def needAt (site : Site) (e : Expr) : Nat :=
  e.need + if e.wrapped site then 1 else 0

/-- Every token has the kind that its node says, and literals have a width that their type admits. -/
def WellFormed : Expr → Prop
  | literal type token bits =>
      token.kind = type.marker ∧ (∀ b ∈ bits, b.kind.isBit = true) ∧
        type.checkWidth bits.length = .ok ()
  | var token chain => token.kind = .useVar ∧ ∀ t ∈ chain, t.kind = .varIndex
  | constant value token => token.kind = value.kind
  | unary op token operand => token.kind = op.kind ∧ operand.WellFormed
  | binary op token left right => token.kind = op.kind ∧ left.WellFormed ∧ right.WellFormed

theorem marks_binary (op : BinaryOp) (token : Token) (left right : Expr) :
    (binary op token left right).marks =
      left.marksAt op.leftSite ++ .kept token :: right.marksAt op.rightSite := rfl

theorem need_unary (op : UnaryOp) (token : Token) (operand : Expr) :
    (unary op token operand).need = operand.needAt .factor + 1 := rfl

theorem need_binary (op : BinaryOp) (token : Token) (left right : Expr) :
    (binary op token left right).need =
      max (left.needAt op.leftSite)
        (left.chain op.isTight + 1 + right.needAt op.rightSite) := rfl

/-- A whole expression needs no parentheses. -/
theorem wrapped_sum (e : Expr) : e.wrapped .sum = false := by
  cases e <;> rfl

theorem needAt_of_wrapped {site : Site} {e : Expr} (h : e.wrapped site = true) :
    e.needAt site = e.need + 1 := by
  simp [needAt, h]

theorem needAt_of_not_wrapped {site : Site} {e : Expr} (h : e.wrapped site = false) :
    e.needAt site = e.need := by
  simp [needAt, h]

theorem marksAt_of_wrapped {site : Site} {e : Expr} (h : e.wrapped site = true) :
    e.marksAt site = .loose .lpar :: (e.marks ++ [.loose .rpar]) := by
  simp [marksAt, enclose, h]

theorem marksAt_of_not_wrapped {site : Site} {e : Expr} (h : e.wrapped site = false) :
    e.marksAt site = e.marks := by
  simp [marksAt, enclose, h]

end Expr

/-!
### Statements

A chain stands before the value that is assigned to it, slots stand in the order of their markers,
and a branch is closed by its end.
-/

/-- The written form of a slot. -/
def slotMarks (marker : TokenKind) (contents : List Mark) : List Mark :=
  .loose marker :: contents

mutual

/-- The written form of a statement. -/
def Stmt.marks : Stmt → List Mark
  | .assign _ token chain value => .kept token :: (chain.map .kept ++ value.marks)
  | .command token => [.kept token]
  | .stop token => [.kept token]
  | .breakLoop token => [.kept token]
  | .continueLoop token => [.kept token]
  | .print token value => .kept token :: value.marks
  | .goto token target => .kept token :: target.marks
  | .place _ _ _ _ _ _ => []
  | .ifElse token condition yes no =>
      .kept token :: (slotMarks .firstArgument condition.marks ++
        (slotMarks .secondArgument (Stmt.marksAll yes ++ [.loose .branchEnd]) ++
          Stmt.marksElse no))
  | .whileLoop token condition body =>
      .kept token :: (slotMarks .firstArgument condition.marks ++
        slotMarks .secondArgument (Stmt.marksAll body ++ [.loose .branchEnd]))
  | .forLoop token init condition increment body =>
      .kept token :: (slotMarks .firstArgument init.marks ++
        (slotMarks .secondArgument condition.marks ++
          (slotMarks .thirdArgument increment.marks ++
            slotMarks .fourthArgument (Stmt.marksAll body ++ [.loose .branchEnd]))))

/-- The written form of statements in turn. -/
def Stmt.marksAll : List Stmt → List Mark
  | [] => []
  | stmt :: rest => stmt.marks ++ Stmt.marksAll rest

/-- The written form of the other branch of a condition, if there is one. -/
def Stmt.marksElse : Option (List Stmt) → List Mark
  | none => []
  | some block => slotMarks .thirdArgument (Stmt.marksAll block ++ [.loose .branchEnd])

end

mutual

/-- How many levels reading a statement takes. Entering an expression takes one, and so do a branch
and a statement in a slot of `FOR`. -/
def Stmt.need : Stmt → Nat
  | .assign _ _ _ value => value.need + 1
  | .command _ => 0
  | .stop _ => 0
  | .breakLoop _ => 0
  | .continueLoop _ => 0
  | .print _ value => value.need + 1
  | .goto _ target => target.need + 1
  | .place _ x y z _ _ => max (x.need + 1) (max (y.need + 1) (z.need + 1))
  | .ifElse _ condition yes no =>
      max (condition.need + 1) (max (Stmt.needAll yes + 1) (Stmt.needElse no))
  | .whileLoop _ condition body => max (condition.need + 1) (Stmt.needAll body + 1)
  | .forLoop _ init condition increment body =>
      max (init.need + 1)
        (max (condition.need + 1) (max (increment.need + 1) (Stmt.needAll body + 1)))

/-- How many levels reading statements in turn takes. -/
def Stmt.needAll : List Stmt → Nat
  | [] => 0
  | stmt :: rest => max stmt.need (Stmt.needAll rest)

/-- How many levels reading the other branch of a condition takes. -/
def Stmt.needElse : Option (List Stmt) → Nat
  | none => 0
  | some block => Stmt.needAll block + 1

end

/-- Whether a statement is written without slots. -/
def Stmt.isSlotless : Stmt → Bool
  | .assign _ _ _ _ | .command _ | .stop _ | .breakLoop _ | .continueLoop _ | .print _ _
  | .goto _ _ => true
  | .place _ _ _ _ _ _ | .ifElse _ _ _ _ | .whileLoop _ _ _ | .forLoop _ _ _ _ _ => false

mutual

/-- Every token has the kind that its node says, nothing is placed, and the statements in the slots
of `FOR` have no slots of their own. -/
def Stmt.WellFormed : Stmt → Prop
  | .assign type token chain value =>
      token.kind = type.marker ∧ (∀ t ∈ chain, t.kind = .varIndex) ∧ value.WellFormed
  | .command token => token.kind = .command
  | .stop token => token.kind = .stop
  | .breakLoop token => token.kind = .breakLoop
  | .continueLoop token => token.kind = .continueLoop
  | .print token value => token.kind = .print ∧ value.WellFormed
  | .goto token target => token.kind = .goto ∧ target.WellFormed
  | .place _ _ _ _ _ _ => False
  | .ifElse token condition yes no =>
      token.kind = .ifElse ∧ condition.WellFormed ∧ Stmt.AllWellFormed yes ∧
        Stmt.ElseWellFormed no
  | .whileLoop token condition body =>
      token.kind = .whileLoop ∧ condition.WellFormed ∧ Stmt.AllWellFormed body
  | .forLoop token init condition increment body =>
      token.kind = .forLoop ∧ (init.isSlotless = true ∧ init.WellFormed) ∧ condition.WellFormed ∧
        (increment.isSlotless = true ∧ increment.WellFormed) ∧ Stmt.AllWellFormed body

/-- Well-formed statements in turn. -/
def Stmt.AllWellFormed : List Stmt → Prop
  | [] => True
  | stmt :: rest => stmt.WellFormed ∧ Stmt.AllWellFormed rest

/-- A well-formed other branch, or none. -/
def Stmt.ElseWellFormed : Option (List Stmt) → Prop
  | none => True
  | some block => Stmt.AllWellFormed block

end

namespace Program

/-- A program of well-formed statements. -/
def WellFormed (p : Program) : Prop :=
  Stmt.AllWellFormed p.body

/-- How many levels reading a program takes. -/
def need (p : Program) : Nat :=
  Stmt.needAll p.body

/-- The tokens of a program. The tokens that the tree does not keep stand where `place` says. -/
def print (place : Nat → Position) (p : Program) : List Token :=
  (Stmt.marksAll p.body).mapIdx fun i m => m.token (place i)

end Program

end CellScript
