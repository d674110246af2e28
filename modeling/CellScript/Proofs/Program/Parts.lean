/-
Module: CellScript.Proofs.Program.Parts
Purpose: The statements and expressions inside a program, at any depth.
Main exports: Expr.Within, Stmt.children, Stmt.operands, Stmt.Within, Program.HasStmt,
  Program.HasExpr
-/
import CellScript.Program

namespace CellScript

namespace Expr

/-- The expressions that an expression is made from. -/
def operands : Expr → List Expr
  | unary _ _ operand => [operand]
  | binary _ _ left right => [left, right]
  | _ => []

/-- An expression is another one or inside it. -/
inductive Within : Expr → Expr → Prop where
  | refl (e : Expr) : Within e e
  | inside {n child e : Expr} (hchild : child ∈ e.operands) (h : Within n child) : Within n e

/-- What passes from an expression to its operands passes to all that is inside. -/
theorem Within.inherit {Q : Expr → Prop} (hQ : ∀ e, Q e → ∀ child ∈ e.operands, Q child)
    {n e : Expr} (h : n.Within e) (he : Q e) : Q n := by
  induction h with
  | refl => exact he
  | inside hchild _ ih => exact ih (hQ _ he _ hchild)

end Expr

namespace Stmt

/-- The statements that a statement is made from. -/
def children : Stmt → List Stmt
  | ifElse _ _ yes no => yes ++ no.getD []
  | whileLoop _ _ body => body
  | forLoop _ init _ increment body => init :: increment :: body
  | _ => []

/-- The expressions that a statement evaluates itself. -/
def operands : Stmt → List Expr
  | assign _ _ _ value => [value]
  | print _ value => [value]
  | goto _ target => [target]
  | place _ x y z _ _ => [x, y, z]
  | ifElse _ condition _ _ => [condition]
  | whileLoop _ condition _ => [condition]
  | forLoop _ _ condition _ _ => [condition]
  | _ => []

/-- A statement is another one or inside it. -/
inductive Within : Stmt → Stmt → Prop where
  | refl (stmt : Stmt) : Within stmt stmt
  | inside {n child stmt : Stmt} (hchild : child ∈ stmt.children) (h : Within n child) :
      Within n stmt

/-- What passes from a statement to those it is made from passes to all that is inside. -/
theorem Within.inherit {Q : Stmt → Prop} (hQ : ∀ stmt, Q stmt → ∀ child ∈ stmt.children, Q child)
    {n stmt : Stmt} (h : n.Within stmt) (hstmt : Q stmt) : Q n := by
  induction h with
  | refl => exact hstmt
  | inside hchild _ ih => exact ih (hQ _ hstmt _ hchild)

theorem Within.child {n child stmt : Stmt} (h : n.Within stmt) (hchild : child ∈ n.children) :
    child.Within stmt := by
  induction h with
  | refl => exact .inside hchild (.refl child)
  | inside hfirst _ ih => exact .inside hfirst ih

end Stmt

namespace Program

/-- A statement of a program, at any depth. -/
def HasStmt (p : Program) (n : Stmt) : Prop :=
  ∃ stmt ∈ p.body, n.Within stmt

/-- An expression of a program, at any depth. -/
def HasExpr (p : Program) (e : Expr) : Prop :=
  ∃ stmt, p.HasStmt stmt ∧ ∃ operand ∈ stmt.operands, e.Within operand

variable {p : Program}

theorem HasStmt.of_mem {stmt : Stmt} (h : stmt ∈ p.body) : p.HasStmt stmt :=
  ⟨stmt, h, .refl stmt⟩

theorem HasStmt.child {stmt child : Stmt} (h : p.HasStmt stmt) (hchild : child ∈ stmt.children) :
    p.HasStmt child := by
  obtain ⟨root, hroot, hstmt⟩ := h
  exact ⟨root, hroot, hstmt.child hchild⟩

theorem HasStmt.operand {stmt : Stmt} {e : Expr} (h : p.HasStmt stmt) (he : e ∈ stmt.operands) :
    p.HasExpr e :=
  ⟨stmt, h, e, he, .refl e⟩

end Program

end CellScript
