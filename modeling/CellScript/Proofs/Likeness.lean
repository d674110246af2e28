/-
Module: CellScript.Proofs.Likeness
Purpose: What it means that two readings correspond: of two grids, from positions that look alike,
  to tokens, errors and trees.
Main exports: Agree, Likeness, Likeness.Grids, Likeness.Token, ParseError.Alike, Expr.Alike,
  Stmt.Alike, Program.Alike
-/
import CellScript.Program
import CellScript.Program.Error
import CellScript.Proofs.Program.Parts
import CellScript.Token.Symbols
import Mathlib.Data.List.Forall2

namespace CellScript

/-! ### Results that correspond -/

/-- Both fail with errors that `E` relates, or both succeed with results that `A` relates. -/
inductive Agree {ε α β : Type} (E : ε → ε → Prop) (A : α → β → Prop) :
    Except ε α → Except ε β → Prop where
  | ok {a : α} {b : β} (h : A a b) : Agree E A (.ok a) (.ok b)
  | error {e e' : ε} (h : E e e') : Agree E A (.error e) (.error e')

namespace Agree

variable {ε α β γ δ : Type} {E : ε → ε → Prop} {A : α → β → Prop} {B : γ → δ → Prop}

theorem bind {r : Except ε α} {r' : Except ε β} {f : α → Except ε γ} {f' : β → Except ε δ}
    (h : Agree E A r r') (hf : ∀ a b, A a b → Agree E B (f a) (f' b)) :
    Agree E B (r >>= f) (r' >>= f') := by
  cases h with
  | ok h => exact hf _ _ h
  | error h => exact .error h

theorem mapError {ε' : Type} {E' : ε' → ε' → Prop} {f : ε → ε'} {r : Except ε α} {r' : Except ε β}
    (h : Agree E A r r') (hf : ∀ e e', E e e' → E' (f e) (f e')) :
    Agree E' A (r.mapError f) (r'.mapError f) := by
  cases h with
  | ok h => exact .ok h
  | error h => exact .error (hf _ _ h)

end Agree

/-!
### Positions, tokens and grids

Two grids are read side by side, each from its own position. What matters of the positions is that
equal displacements lead to corresponding positions again, and that corresponding positions have the
same cell. Of the tokens that are read something may be known.
-/

/-- Which positions correspond, and what is known of a token on the first side. -/
structure Likeness where
  pos : Position → Position → Prop
  known : Token → Prop

namespace Likeness

variable {L : Likeness}

/-- Tokens of one kind at corresponding positions. -/
structure Token (L : Likeness) (t t' : CellScript.Token) : Prop where
  known : L.known t
  kind : t'.kind = t.kind
  pos : L.pos t.pos t'.pos

/-- Lists of corresponding tokens. -/
abbrev Tokens (L : Likeness) (ts ts' : List CellScript.Token) : Prop :=
  List.Forall₂ L.Token ts ts'

/-- Two grids that look the same from corresponding positions. A token that stands for its own cell
is known. -/
structure Grids (L : Likeness) (g g' : Grid) : Prop where
  known : ∀ {t}, g.symbolAt t.pos = t.kind.symbol → L.known t
  cell : ∀ {p p'}, L.pos p p' → g'.cell? p' = g.cell? p
  size : g'.size = g.size
  eq_iff : ∀ {p p' q q'}, L.pos p p' → L.pos q q' → (p' = q' ↔ p = q)
  sub_eq : ∀ {p p' q q'}, L.pos p p' → L.pos q q' → p' - q' = p - q
  add : ∀ {p p'}, L.pos p p' → ∀ v, L.pos (p + v) (p' + v)

namespace Grids

variable {g g' : Grid} {p p' : Position}

theorem symbolAt (h : L.Grids g g') (hp : L.pos p p') : g'.symbolAt p' = g.symbolAt p := by
  rw [Grid.symbolAt, Grid.symbolAt, h.cell hp]

theorem facingAt (h : L.Grids g g') (hp : L.pos p p') : g'.facingAt p' = g.facingAt p := by
  rw [Grid.facingAt, Grid.facingAt, h.cell hp]

theorem step (h : L.Grids g g') (hp : L.pos p p') (d : Direction) :
    L.pos (p.step d) (p'.step d) :=
  h.add hp d.vector

end Grids

/-- A line of tokens of one class ends at the same place on both sides. -/
theorem Tokens.takeWhile_dropWhile {c : CellScript.Token → Bool}
    (hc : ∀ t t', L.Token t t' → c t' = c t) {ts ts' : List CellScript.Token}
    (h : L.Tokens ts ts') :
    L.Tokens (ts.takeWhile c) (ts'.takeWhile c) ∧ L.Tokens (ts.dropWhile c) (ts'.dropWhile c) := by
  induction h with
  | nil => exact ⟨.nil, .nil⟩
  | cons ht hts ih =>
      simp only [List.takeWhile_cons, List.dropWhile_cons, hc _ _ ht]
      split
      · exact ⟨.cons ht ih.1, ih.2⟩
      · exact ⟨.nil, .cons ht hts⟩

/-! A grid and a list of tokens look like themselves. -/

/-- Every position corresponds to itself only. -/
def same (known : CellScript.Token → Prop) : Likeness :=
  ⟨Eq, known⟩

theorem same_grids {known : CellScript.Token → Prop} {g : Grid}
    (h : ∀ t, g.symbolAt t.pos = t.kind.symbol → known t) : (same known).Grids g g where
  known := h _
  cell := by rintro p _ rfl; rfl
  size := rfl
  eq_iff := by rintro p _ q _ rfl rfl; exact Iff.rfl
  sub_eq := by rintro p _ q _ rfl rfl; rfl
  add := by rintro p _ rfl v; exact rfl

theorem same_tokens {known : CellScript.Token → Prop} {ts : List CellScript.Token}
    (h : ∀ t ∈ ts, known t) : (same known).Tokens ts ts :=
  List.forall₂_same.2 fun t ht => ⟨h t ht, rfl, rfl⟩

end Likeness

/-!
### Errors of the parser

The same error on both sides, with corresponding tokens. The rules are those by which a parser
fails: it asks for a statement, for a value or for tokens of a kind. It also looks for the marker of
a type and for an operator, but only where it has seen one.
-/

/-- Corresponding errors of two parsers. -/
inductive ParseError.Alike (L : Likeness) : ParseError → ParseError → Prop where
  | expectedValue {t t' : Token} : L.Token t t' →
      Alike L (.expected .value t) (.expected .value t')
  | expectedKind {k : TokenKind} {t t' : Token} : L.Token t t' →
      Alike L (.expected (.kind k) t) (.expected (.kind k) t')
  | unexpectedToken {t t' : Token} : L.Token t t' →
      Alike L (.unexpectedToken t) (.unexpectedToken t')
  | endBeforeStatement : Alike L (.unexpectedEnd .statement) (.unexpectedEnd .statement)
  | endBeforeValue : Alike L (.unexpectedEnd .value) (.unexpectedEnd .value)
  | endBeforeKind {k : TokenKind} : Alike L (.unexpectedEnd (.kind k)) (.unexpectedEnd (.kind k))
  | missingArgument {slot : TokenKind} {t t' : Token} : L.Token t t' →
      Alike L (.missingArgument t slot) (.missingArgument t' slot)
  | duplicateArgument {t t' : Token} : L.Token t t' →
      Alike L (.duplicateArgument t) (.duplicateArgument t')
  | malformedLiteral {fault : LiteralFault} {t t' : Token} : L.Token t t' →
      Alike L (.malformedLiteral t fault) (.malformedLiteral t' fault)
  | nestingTooDeep {limit : Nat} {t t' : Token} : L.Token t t' →
      Alike L (.nestingTooDeep t limit) (.nestingTooDeep t' limit)

/-! ### Trees -/

/-- Expressions that differ at most in the positions of their tokens. -/
inductive Expr.Alike (L : Likeness) : Expr → Expr → Prop where
  | literal {type : ValueType} {t t' : Token} {bits bits' : List Token} :
      L.Token t t' → L.Tokens bits bits' → Alike L (.literal type t bits) (.literal type t' bits')
  | var {t t' : Token} {chain chain' : List Token} :
      L.Token t t' → L.Tokens chain chain' → Alike L (.var t chain) (.var t' chain')
  | constant {value : Constant} {t t' : Token} :
      L.Token t t' → Alike L (.constant value t) (.constant value t')
  | unary {op : UnaryOp} {t t' : Token} {operand operand' : Expr} :
      L.Token t t' → Alike L operand operand' →
      Alike L (.unary op t operand) (.unary op t' operand')
  | binary {op : BinaryOp} {t t' : Token} {left left' right right' : Expr} :
      L.Token t t' → Alike L left left' → Alike L right right' →
      Alike L (.binary op t left right) (.binary op t' left' right')

mutual

/-- Statements that differ at most in positions. -/
inductive Stmt.Alike (L : Likeness) : Stmt → Stmt → Prop where
  | assign {type : ValueType} {t t' : Token} {chain chain' : List Token} {value value' : Expr} :
      L.Token t t' → L.Tokens chain chain' → value.Alike L value' →
      Stmt.Alike L (.assign type t chain value) (.assign type t' chain' value')
  | command {t t' : Token} : L.Token t t' → Stmt.Alike L (.command t) (.command t')
  | stop {t t' : Token} : L.Token t t' → Stmt.Alike L (.stop t) (.stop t')
  | breakLoop {t t' : Token} : L.Token t t' → Stmt.Alike L (.breakLoop t) (.breakLoop t')
  | continueLoop {t t' : Token} :
      L.Token t t' → Stmt.Alike L (.continueLoop t) (.continueLoop t')
  | print {t t' : Token} {value value' : Expr} :
      L.Token t t' → value.Alike L value' → Stmt.Alike L (.print t value) (.print t' value')
  | goto {t t' : Token} {target target' : Expr} :
      L.Token t t' → target.Alike L target' → Stmt.Alike L (.goto t target) (.goto t' target')
  | place {t t' : Token} {x x' y y' z z' : Expr} {p p' : Position} {template : Symbol} :
      L.Token t t' → x.Alike L x' → y.Alike L y' → z.Alike L z' → L.pos p p' →
      Stmt.Alike L (.place t x y z p template) (.place t' x' y' z' p' template)
  | ifElse {t t' : Token} {condition condition' : Expr} {yes yes' : List Stmt}
      {no no' : Option (List Stmt)} :
      L.Token t t' → condition.Alike L condition' → Stmt.AllAlike L yes yes' →
      Stmt.ElseAlike L no no' →
      Stmt.Alike L (.ifElse t condition yes no) (.ifElse t' condition' yes' no')
  | whileLoop {t t' : Token} {condition condition' : Expr} {body body' : List Stmt} :
      L.Token t t' → condition.Alike L condition' → Stmt.AllAlike L body body' →
      Stmt.Alike L (.whileLoop t condition body) (.whileLoop t' condition' body')
  | forLoop {t t' : Token} {init init' increment increment' : Stmt} {condition condition' : Expr}
      {body body' : List Stmt} :
      L.Token t t' → Stmt.Alike L init init' → condition.Alike L condition' →
      Stmt.Alike L increment increment' → Stmt.AllAlike L body body' →
      Stmt.Alike L (.forLoop t init condition increment body)
        (.forLoop t' init' condition' increment' body')

/-- Corresponding statements in turn. -/
inductive Stmt.AllAlike (L : Likeness) : List Stmt → List Stmt → Prop where
  | nil : Stmt.AllAlike L [] []
  | cons {stmt stmt' : Stmt} {rest rest' : List Stmt} :
      Stmt.Alike L stmt stmt' → Stmt.AllAlike L rest rest' →
      Stmt.AllAlike L (stmt :: rest) (stmt' :: rest')

/-- Corresponding other branches, or none on both sides. -/
inductive Stmt.ElseAlike (L : Likeness) : Option (List Stmt) → Option (List Stmt) → Prop where
  | none : Stmt.ElseAlike L none none
  | some {block block' : List Stmt} :
      Stmt.AllAlike L block block' → Stmt.ElseAlike L (some block) (some block')

end

theorem Stmt.ElseAlike.of_rel {L : Likeness} {no no' : Option (List Stmt)}
    (h : Option.Rel (Stmt.AllAlike L) no no') : Stmt.ElseAlike L no no' := by
  cases h with
  | none => exact .none
  | some hblock => exact .some hblock

/-- Programs of corresponding statements. -/
def Program.Alike (L : Likeness) (p p' : Program) : Prop :=
  Stmt.AllAlike L p.body p'.body

/-!
### What is known of the tokens in a tree

What is inside a tree that has a counterpart has one too.
-/

section Known

variable {L : Likeness}

theorem Expr.Alike.token {e e' : Expr} (h : e.Alike L e') : L.Token e.token e'.token := by
  cases h <;> assumption

theorem Expr.Alike.of_within {n e e' : Expr} (h : e.Alike L e') (hn : n.Within e) :
    ∃ n', n.Alike L n' := by
  refine hn.inherit (Q := fun e => ∃ e', e.Alike L e') ?_ ⟨e', h⟩
  rintro e ⟨e', h⟩ child hchild
  cases h with
  | unary _ hoperand =>
      obtain rfl := List.mem_singleton.1 hchild
      exact ⟨_, hoperand⟩
  | binary _ hleft hright =>
      simp only [operands, List.mem_cons, List.not_mem_nil, or_false] at hchild
      rcases hchild with rfl | rfl
      · exact ⟨_, hleft⟩
      · exact ⟨_, hright⟩
  | _ => cases hchild

namespace Stmt

variable {stmt stmt' : Stmt}

theorem Alike.token (h : stmt.Alike L stmt') : L.Token stmt.token stmt'.token := by
  cases h <;> assumption

theorem Alike.of_operand (h : stmt.Alike L stmt') {e : Expr} (he : e ∈ stmt.operands) :
    ∃ e', e.Alike L e' := by
  cases h <;> simp only [operands, List.mem_cons, List.not_mem_nil, or_false] at he
  case place hx hy hz _ =>
    rcases he with rfl | rfl | rfl
    · exact ⟨_, hx⟩
    · exact ⟨_, hy⟩
    · exact ⟨_, hz⟩
  all_goals
    subst he
    exact ⟨_, by assumption⟩

theorem AllAlike.of_mem {stmts stmts' : List Stmt} (h : AllAlike L stmts stmts')
    (hmem : stmt ∈ stmts) : ∃ stmt', stmt.Alike L stmt' := by
  induction stmts generalizing stmts' with
  | nil => cases hmem
  | cons first rest ih =>
      cases h with
      | cons hfirst hrest =>
          rcases List.mem_cons.1 hmem with rfl | hmem
          · exact ⟨_, hfirst⟩
          · exact ih hrest hmem

theorem Alike.of_within {n : Stmt} (h : stmt.Alike L stmt') (hn : n.Within stmt) :
    ∃ n', n.Alike L n' := by
  refine hn.inherit (Q := fun stmt => ∃ stmt', stmt.Alike L stmt') ?_ ⟨stmt', h⟩
  rintro stmt ⟨stmt', h⟩ child hchild
  cases h with
  | ifElse _ _ hyes hno =>
      rcases List.mem_append.1 hchild with hchild | hchild
      · exact hyes.of_mem hchild
      · cases hno with
        | none => cases hchild
        | some hblock => exact hblock.of_mem hchild
  | whileLoop _ _ hbody => exact hbody.of_mem hchild
  | forLoop _ hinit _ hincrement hbody =>
      rcases List.mem_cons.1 hchild with rfl | hchild
      · exact ⟨_, hinit⟩
      · rcases List.mem_cons.1 hchild with rfl | hchild
        · exact ⟨_, hincrement⟩
        · exact hbody.of_mem hchild
  | _ => cases hchild

end Stmt

namespace Program

variable {p p' : Program}

theorem Alike.of_hasStmt (h : p.Alike L p') {n : Stmt} (hn : p.HasStmt n) : ∃ n', n.Alike L n' := by
  obtain ⟨stmt, hstmt, hn⟩ := hn
  obtain ⟨stmt', halike⟩ := h.of_mem hstmt
  exact halike.of_within hn

end Program

end Known

end CellScript
