/-
Module: CellScript.Proofs.LiteralSafety
Purpose: A program that was read holds no malformed literal, so none is met when it or a part of it
  runs. What the parser never asks for.
Main exports: Stmt.Consistent.of_within, literalValue_of_wellFormed, Stmt.Consistent.exec_ne,
  Program.parse_literalSafe
-/
import CellScript.Proofs.Parser.Likeness
import CellScript.Proofs.Parser.Tokens
import CellScript.Proofs.Run.Conduct

namespace CellScript

/-! ### The parts of consistent trees -/

theorem Expr.WellFormed.of_within {n e : Expr} (h : e.WellFormed) (hn : n.Within e) :
    n.WellFormed := by
  refine hn.inherit ?_ h
  intro e h child hchild
  cases e with
  | unary op token operand =>
      obtain rfl := List.mem_singleton.1 hchild
      exact h.2
  | binary op token left right =>
      simp only [operands, List.mem_cons, List.not_mem_nil, or_false] at hchild
      rcases hchild with rfl | rfl
      · exact h.2.1
      · exact h.2.2
  | _ => cases hchild

namespace Stmt

theorem AllConsistent.of_mem {stmts : List Stmt} (h : AllConsistent stmts) {stmt : Stmt}
    (hmem : stmt ∈ stmts) : stmt.Consistent := by
  induction stmts with
  | nil => cases hmem
  | cons first rest ih =>
      rw [AllConsistent] at h
      rcases List.mem_cons.1 hmem with rfl | hmem
      · exact h.1
      · exact ih h.2 hmem

theorem Consistent.of_child {stmt child : Stmt} (h : stmt.Consistent)
    (hchild : child ∈ stmt.children) : child.Consistent := by
  cases stmt with
  | ifElse token condition yes no =>
      rw [Consistent] at h
      rcases List.mem_append.1 hchild with hchild | hchild
      · exact h.2.2.1.of_mem hchild
      · cases no with
        | none => cases hchild
        | some block =>
            have hblock := h.2.2.2
            rw [ElseConsistent] at hblock
            exact hblock.of_mem hchild
  | whileLoop token condition body =>
      rw [Consistent] at h
      exact h.2.2.of_mem hchild
  | forLoop token init condition increment body =>
      rw [Consistent] at h
      obtain ⟨-, hinit, -, hincrement, hbody⟩ := h
      rcases List.mem_cons.1 hchild with rfl | hchild
      · exact hinit
      · rcases List.mem_cons.1 hchild with rfl | hchild
        · exact hincrement
        · exact hbody.of_mem hchild
  | _ => cases hchild

theorem Consistent.of_within {n stmt : Stmt} (h : stmt.Consistent) (hn : n.Within stmt) :
    n.Consistent :=
  hn.inherit (fun _ h _ hchild => h.of_child hchild) h

theorem Consistent.wellFormed {stmt : Stmt} (h : stmt.Consistent) {e : Expr}
    (he : e ∈ stmt.operands) : e.WellFormed := by
  cases stmt <;> simp only [operands, List.mem_cons, List.not_mem_nil, or_false] at he <;>
    rw [Consistent] at h
  case assign => exact he ▸ h.2.2
  case print => exact he ▸ h.2
  case goto => exact he ▸ h.2
  case place =>
    rcases he with rfl | rfl | rfl
    · exact h.2.1
    · exact h.2.2.1
    · exact h.2.2.2
  case ifElse => exact he ▸ h.2.1
  case whileLoop => exact he ▸ h.2.1
  case forLoop => exact he ▸ h.2.2.1

end Stmt

/-! ### No malformed literal -/

/-- Tokens that are bits stand for bits. -/
theorem bitsOfTokens_of_isBit {bits : List Token} (h : ∀ b ∈ bits, b.kind.isBit = true) :
    ∃ bs, bitsOfTokens bits = .ok bs ∧ bs.length = bits.length := by
  induction bits with
  | nil => exact ⟨[], rfl, rfl⟩
  | cons b bits ih =>
      obtain ⟨hb, hbits⟩ := List.forall_mem_cons.1 h
      obtain ⟨bs, hbs, hlength⟩ := ih hbits
      have hkind : b.kind = .zero ∨ b.kind = .one := by
        revert hb
        cases b.kind <;> simp [TokenKind.isBit]
      rcases hkind with hkind | hkind
      · exact ⟨false :: bs, by rw [bitsOfTokens, hkind, hbs]; rfl, by simp [hlength]⟩
      · exact ⟨true :: bs, by rw [bitsOfTokens, hkind, hbs]; rfl, by simp [hlength]⟩

/-- A literal with bits in a number that suits its type has a value. -/
theorem literalValue_of_wellFormed {type : ValueType} {token : Token} {bits : List Token}
    (h : (Expr.literal type token bits).WellFormed) :
    ∃ v, literalValue type token bits = .ok v := by
  obtain ⟨-, hbits, hwidth⟩ := h
  obtain ⟨bs, hbs, hlength⟩ := bitsOfTokens_of_isBit hbits
  rw [literalValue, hbs]
  simp only [Except.bind, Value.ofBits?, hlength, hwidth]
  exact ⟨_, rfl⟩

section Faults

variable {token : Token} {fault : LiteralFault}

theorem Expr.WellFormed.not_raises {e : Expr} (h : e.WellFormed) :
    ¬e.Raises (.invalidLiteral token fault) := by
  intro hraises
  generalize herror : EvalError.invalidLiteral token fault = error at hraises
  cases hraises with
  | literal hvalue =>
      obtain ⟨v, hv⟩ := literalValue_of_wellFormed h
      rw [hv] at hvalue
      cases hvalue
  | var => cases herror
  | @unary _ _ _ other => cases other <;> cases herror
  | @binary _ _ _ _ other => cases other <;> cases herror

theorem Stmt.Consistent.not_raises {stmt : Stmt} (h : stmt.Consistent) :
    ¬stmt.Raises (.invalidLiteral token fault) := by
  intro hraises
  cases hraises with
  | operand hoperand hn hraises =>
      exact ((h.wellFormed hoperand).of_within hn).not_raises hraises

theorem Expr.WellFormed.eval_ne {e : Expr} (h : e.WellFormed) (s : Settings) (vars : Scopes)
    (gas : Nat) : (e.eval s vars gas).1 ≠ .error (.invalidLiteral token fault) := by
  intro heval
  rcases fails_of_eval (Prod.ext heval rfl) with hgas | ⟨n, hn, hraises⟩
  · cases hgas
  · exact (h.of_within hn).not_raises hraises

theorem Stmt.Consistent.exec_ne {stmt : Stmt} (h : stmt.Consistent) (s : Settings) (m : Machine) :
    (stmt.exec s m).1 ≠ .error (.invalidLiteral token fault) := by
  intro hexec
  rcases fails_of_exec hexec with hgas | ⟨n, hn, hraises⟩
  · cases hgas
  · exact (h.of_within hn).not_raises hraises

end Faults

/-! ### What the parser asks for -/

theorem TokenKind.name_ne (k : TokenKind) : k.name ≠ "type marker" ∧ k.name ≠ "operator" := by
  cases k <;> decide

namespace ParseError.Alike

variable {L : Likeness} {what : Expectation}

theorem expected_ne {token : Token} {e' : ParseError} (h : Alike L (.expected what token) e') :
    what.name ≠ "type marker" := by
  cases h with
  | expectedValue => decide
  | expectedKind => exact (TokenKind.name_ne _).1

theorem unexpectedEnd_ne {e' : ParseError} (h : Alike L (.unexpectedEnd what) e') :
    what.name ≠ "operator" := by
  cases h with
  | endBeforeStatement => decide
  | endBeforeValue => decide
  | endBeforeKind => exact (TokenKind.name_ne _).2

end ParseError.Alike

/-! ### Programs that were read -/

namespace Program

variable {g : Grid} {ts : List Token} {p : Program}

theorem consistent_of_hasStmt (h : parse g ts = .ok p) {stmt : Stmt} (hstmt : p.HasStmt stmt) :
    stmt.Consistent := by
  obtain ⟨body, hbody, h⟩ := Parser.ok_of_bind h
  cases h
  have hread := Parser.stmtReader_faithful g Parser.maxNesting
  obtain ⟨root, hroot, hwithin⟩ := hstmt
  exact ((Parser.allConsistent_of_statements hread hbody).of_mem hroot).of_within hwithin

/-- An error of the parser is one by which parsers fail: it has itself for a counterpart. -/
theorem alike_of_parse {e : ParseError} (h : parse g ts = .error e) :
    e.Alike (.same fun _ => True) e := by
  have hgrid : (Likeness.same fun _ => True).Grids g g := Likeness.same_grids fun _ _ => trivial
  have htokens : (Likeness.same fun _ => True).Tokens ts ts :=
    Likeness.same_tokens fun _ _ => trivial
  have hparse := parse_alike hgrid htokens
  rw [h] at hparse
  cases hparse with
  | error he => exact he

/-- No part of a program that was read ever reports a malformed literal, in whatever state and under
whatever settings it runs. The parser never asks for the marker of a type, and the end of the input
never comes where an operator is needed. -/
theorem parse_literalSafe (g : Grid) (ts : List Token) :
    (∀ p, parse g ts = .ok p →
      (∀ s m token fault, (p.run s m).1 ≠ .error (.invalidLiteral token fault)) ∧
      (∀ stmt, p.HasStmt stmt → ∀ s m token fault,
        (stmt.exec s m).1 ≠ .error (.invalidLiteral token fault)) ∧
      ∀ e, p.HasExpr e → ∀ s vars gas token fault,
        (e.eval s vars gas).1 ≠ .error (.invalidLiteral token fault)) ∧
    (∀ what token, parse g ts = .error (.expected what token) → what.name ≠ "type marker") ∧
    ∀ what, parse g ts = .error (.unexpectedEnd what) → what.name ≠ "operator" := by
  refine ⟨fun p hp => ⟨?_, ?_, ?_⟩, ?_, ?_⟩
  · intro s m token fault hrun
    rcases fails_of_run hrun with hgas | ⟨n, hn, hraises⟩
    · cases hgas
    · exact (consistent_of_hasStmt hp hn).not_raises hraises
  · intro stmt hstmt s m token fault
    exact (consistent_of_hasStmt hp hstmt).exec_ne s m
  · intro e he s vars gas token fault
    obtain ⟨stmt, hstmt, operand, hoperand, he⟩ := he
    have hwellFormed := (consistent_of_hasStmt hp hstmt).wellFormed hoperand
    exact (hwellFormed.of_within he).eval_ne s vars gas
  · intro what token h
    exact (alike_of_parse h).expected_ne
  · intro what h
    exact (alike_of_parse h).unexpectedEnd_ne

/-- On a token that names no type, the parser of a literal would ask for the marker of one. -/
example : Parser.literal ⟨.plus, ⟨0, 0, 0⟩⟩ [] =
    .error (.expected .typeMarker ⟨.plus, ⟨0, 0, 0⟩⟩) := by
  rfl

/-- A tree that was not read may hold a malformed literal. -/
example : ((Expr.literal .int ⟨.int, ⟨0, 0, 0⟩⟩ []).eval {} {} 0).1 =
    .error (.invalidLiteral ⟨.int, ⟨0, 0, 0⟩⟩ (.noBits .int)) := by
  rfl

end Program

/-- The tokens of a condition with a branch that prints a literal, on a line of cells. -/
def printInBranch : List Token :=
  let kinds : List TokenKind :=
    [.ifElse, .firstArgument, .bool, .one, .secondArgument, .print, .int, .one, .zero, .branchEnd]
  kinds.mapIdx fun i kind => ⟨kind, ⟨Int32.ofNat i, 0, 0⟩⟩

/-- They are read, and the literal in the branch is never reported, alone or when all is run. -/
theorem parse_literalSafe_printInBranch :
    ∃ p, Program.parse .empty printInBranch = .ok p ∧
      ∃ e, p.HasExpr e ∧ e.token = ⟨.int, ⟨6, 0, 0⟩⟩ ∧
        (∀ s vars gas token fault,
          (e.eval s vars gas).1 ≠ .error (.invalidLiteral token fault)) ∧
        ∀ s m token fault, (p.run s m).1 ≠ .error (.invalidLiteral token fault) := by
  have hparse : ∃ p, Program.parse .empty printInBranch = .ok p ∧
      ∃ e, p.HasExpr e ∧ e.token = ⟨.int, ⟨6, 0, 0⟩⟩ := by
    refine ⟨_, rfl, _, ⟨_, ⟨_, .head _, .inside (.head _) (.refl _)⟩, _, .head _, .refl _⟩, rfl⟩
  obtain ⟨p, hp, e, he, htoken⟩ := hparse
  obtain ⟨hsafe, -⟩ := Program.parse_literalSafe .empty printInBranch
  obtain ⟨hrun, -, heval⟩ := hsafe p hp
  exact ⟨p, hp, e, he, htoken, heval e he, hrun⟩

end CellScript
