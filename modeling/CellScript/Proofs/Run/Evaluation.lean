/-
Module: CellScript.Proofs.Run.Evaluation
Purpose: What an expression comes to when there is gas enough. The variables alone decide on it, and
  all that a gas limit can do is cut an evaluation off.
Main exports: Expr.value, Value.truth, Expr.eval_cut_or_value, Machine.condition_cut_or_value
-/
import CellScript.Run.Machine

namespace CellScript

/-- The value of an expression, without regard to gas. Texts that are built have at most `limit`
bytes. -/
def Expr.value (limit : Nat) (vars : Scopes) : Expr → Except EvalError Value
  | .literal type token bits => literalValue type token bits
  | .var token chain => variableValue vars token chain
  | .constant c _ => .ok c.value
  | .unary op token operand =>
      (operand.value limit vars).bind fun v => (op.apply v).mapError (.ofOperation token)
  | .binary op token left right =>
      (left.value limit vars).bind fun l =>
        (right.value limit vars).bind fun r =>
          (op.apply limit l r).mapError (.ofOperation token)

/-- What a statement takes a value for that has to be a truth value. -/
def Value.truth (statement : TokenKind) (token : Token) : Value → Except EvalError Bool
  | .bool b => .ok b
  | v => .error (.typeMismatch token (.condition statement v.type))

/-- A result that is a want of gas, or the one that there would be without limit. -/
def CutOr {α : Type} (limit : Nat) (full found : Except EvalError α) : Prop :=
  found = .error (.gasExhausted limit) ∨ found = full

theorem CutOr.bind {α β : Type} {limit : Nat} {full found : Except EvalError α}
    {next : α → Except EvalError β} (h : CutOr limit full found) :
    CutOr limit (full.bind next) (found.bind next) := by
  rcases h with rfl | rfl
  · exact .inl rfl
  · exact .inr rfl

/-- A result that is no want of gas is the one that there would be without limit. -/
theorem CutOr.eq_of_ne {α : Type} {limit : Nat} {full found : Except EvalError α}
    (h : CutOr limit full found) (hcut : ∀ limit, found ≠ .error (.gasExhausted limit)) :
    found = full := by
  rcases h with hgas | hfull
  · exact absurd hgas (hcut limit)
  · exact hfull

theorem metered_cut_or {α : Type} {limit gas : Nat} {next : Nat → Except EvalError α × Nat}
    {full : Except EvalError α} (h : CutOr limit full (next (gas + 1)).1) :
    CutOr limit full (metered limit gas next).1 := by
  unfold metered
  split
  · exact .inl rfl
  · exact h

/-- Gas decides only whether an expression is evaluated to the end, not what is found. -/
theorem Expr.eval_cut_or_value (s : Settings) (vars : Scopes) (e : Expr) (gas : Nat) :
    CutOr s.gasLimit (e.value s.maxStringLength vars) (e.eval s vars gas).1 := by
  induction e generalizing gas with
  | literal type token bits => exact metered_cut_or (.inr rfl)
  | var token chain => exact metered_cut_or (.inr rfl)
  | constant c token => exact metered_cut_or (.inr rfl)
  | unary op token operand ih =>
      refine metered_cut_or ?_
      have hoperand := ih (gas + 1)
      generalize operand.eval s vars (gas + 1) = found at hoperand ⊢
      rcases found with ⟨error | v, gas₁⟩
      · exact hoperand.bind
      · exact hoperand.bind
  | binary op token left right ihleft ihright =>
      refine metered_cut_or ?_
      have hleft := ihleft (gas + 1)
      generalize left.eval s vars (gas + 1) = found at hleft ⊢
      rcases found with ⟨error | l, gas₁⟩
      · -- where an operand is cut off, so is the whole
        exact hleft.bind
      · have hvalue : .ok l = left.value s.maxStringLength vars := hleft.eq_of_ne (by simp)
        have hright := ihright gas₁
        rw [value, ← hvalue]
        dsimp only
        generalize right.eval s vars gas₁ = found at hright ⊢
        rcases found with ⟨error | r, gas₂⟩
        · exact hright.bind
        · exact hright.bind

namespace Machine

theorem eval_cut_or_value (s : Settings) (e : Expr) (m : Machine) :
    CutOr s.gasLimit (e.value s.maxStringLength m.scopes) (m.eval s e).1 :=
  e.eval_cut_or_value s m.scopes m.gas

theorem condition_cut_or_value (s : Settings) (statement : TokenKind) (e : Expr) (m : Machine) :
    CutOr s.gasLimit ((e.value s.maxStringLength m.scopes).bind (Value.truth statement e.token))
      (m.condition s statement e).1 := by
  have heval := m.eval_cut_or_value s e
  unfold condition evalAs
  generalize m.eval s e = found at heval ⊢
  rcases found with ⟨error | v, m'⟩
  · exact heval.bind
  · cases v with
    | bool b => exact heval.bind
    | int n => exact heval.bind
    | float x => exact heval.bind
    | string text => exact heval.bind

end Machine

end CellScript
