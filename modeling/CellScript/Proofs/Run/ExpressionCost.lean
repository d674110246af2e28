/-
Module: CellScript.Proofs.Run.ExpressionCost
Purpose: What an expression costs. Its value takes one unit of gas for each of its nodes, whatever
  its operands come to, and a failure takes no more than that.
Main exports: Expr.nodes, Spends, Expr.spends_eval, Expr.eval_of_within, Machine.eval_cost
-/
import CellScript.Proofs.Run.Conduct

namespace CellScript

/-!
### Spending

An evaluation that finds a value has spent a fixed amount. One that fails has left off somewhere on
the way there.
-/

/-- The outcome of an evaluation for which `gas` units had been used before: with a value it has used
`n` units more, and with an error at most so many. -/
structure Spends {α : Type} (n gas : Nat) (o : Except EvalError α × Nat) : Prop where
  gas_le : gas ≤ o.2
  le_add : o.2 ≤ gas + n
  eq_of_ok : ∀ a, o.1 = .ok a → o.2 = gas + n

section Spends

variable {α β : Type} {n k gas gas₁ : Nat}

theorem spends_zero (r : Except EvalError α) (gas : Nat) : Spends 0 gas (r, gas) :=
  ⟨Nat.le_refl gas, Nat.le_refl gas, fun _ _ => rfl⟩

/-- An error leaves what would have come after it unspent. -/
theorem Spends.error {error : EvalError} (h : Spends n gas ((.error error, gas₁) : Except _ α × _))
    (hle : n ≤ k) : Spends k gas ((.error error, gas₁) : Except _ β × _) :=
  ⟨h.gas_le, Nat.le_trans h.le_add (Nat.add_le_add_left hle gas), nofun⟩

theorem Spends.andThen {a : α} {o : Except EvalError β × Nat} (h : Spends n gas (.ok a, gas₁))
    (ho : Spends k gas₁ o) : Spends (n + k) gas o := by
  have hgas : gas₁ = gas + n := h.eq_of_ok a rfl
  subst hgas
  obtain ⟨hle, hadd, hok⟩ := ho
  refine ⟨by omega, by omega, fun b hb => ?_⟩
  rw [hok b hb, Nat.add_assoc]

/-- The unit of a node is spent whether or not there is gas for what comes after it. -/
theorem Spends.metered {limit : Nat} {next : Nat → Except EvalError α × Nat}
    (h : Spends n (gas + 1) (next (gas + 1))) :
    gas < (metered limit gas next).2 ∧ Spends (n + 1) gas (metered limit gas next) := by
  unfold CellScript.metered
  split
  · exact ⟨Nat.lt_succ_self gas, Nat.le_succ gas, by omega, nofun⟩
  · obtain ⟨hle, hadd, hok⟩ := h
    refine ⟨hle, by omega, by omega, fun a ha => ?_⟩
    rw [hok a ha]
    omega

end Spends

/-!
### Expressions
-/

namespace Expr

/-- The number of nodes of an expression. -/
def nodes : Expr → Nat
  | literal _ _ _ => 1
  | var _ _ => 1
  | constant _ _ => 1
  | unary _ _ operand => operand.nodes + 1
  | binary _ _ left right => left.nodes + right.nodes + 1

/-- Evaluating takes at least one unit and at most one for each node; if it gives a value, it takes
one for each. -/
theorem spends_eval (s : Settings) (vars : Scopes) (e : Expr) (gas : Nat) :
    gas < (e.eval s vars gas).2 ∧ Spends e.nodes gas (e.eval s vars gas) := by
  induction e generalizing gas with
  | literal type token bits => exact (spends_zero _ _).metered
  | var token chain => exact (spends_zero _ _).metered
  | constant c token => exact (spends_zero _ _).metered
  | unary op token operand ih =>
      refine Spends.metered ?_
      have hoperand := (ih (gas + 1)).2
      generalize operand.eval s vars (gas + 1) = found at hoperand ⊢
      rcases found with ⟨error | v, gas₁⟩
      · exact hoperand.error (Nat.le_refl _)
      · exact hoperand.andThen (spends_zero _ gas₁)
  | binary op token left right ihLeft ihRight =>
      refine Spends.metered ?_
      have hleft := (ihLeft (gas + 1)).2
      generalize left.eval s vars (gas + 1) = found at hleft ⊢
      rcases found with ⟨error | l, gas₁⟩
      · exact hleft.error (Nat.le_add_right _ _)
      · -- the right operand is evaluated whatever the left one is
        have hright := (ihRight gas₁).2
        refine hleft.andThen ?_
        dsimp only
        generalize right.eval s vars gas₁ = found at hright ⊢
        rcases found with ⟨error | r, gas₂⟩
        · exact hright.error (Nat.le_refl _)
        · exact hright.andThen (spends_zero _ gas₂)

variable {s : Settings} {vars : Scopes} {e : Expr} {gas gas' : Nat} {v : Value}

theorem gas_of_eval (h : e.eval s vars gas = (.ok v, gas')) : gas' = gas + e.nodes := by
  have hspends := (e.spends_eval s vars gas).2
  rw [h] at hspends
  exact hspends.eq_of_ok v rfl

/-- Part of the evaluation of `e` from `gas` on is one of `n`, and it finds a value. -/
def Evaluates (s : Settings) (vars : Scopes) (gas : Nat) (e n : Expr) : Prop :=
  ∃ used w, used + n.nodes ≤ e.nodes ∧
    n.eval s vars (gas + used) = (.ok w, gas + used + n.nodes)

/-- No operand is left out where the whole has a value. -/
theorem evaluates_operand (h : e.eval s vars gas = (.ok v, gas')) {child : Expr}
    (hchild : child ∈ e.operands) : e.Evaluates s vars gas child := by
  cases e with
  | literal type token bits => cases hchild
  | var token chain => cases hchild
  | constant c token => cases hchild
  | unary op token operand =>
      cases List.mem_singleton.1 hchild
      have hnode := metered_ok h
      split at hnode
      · cases hnode
      · next w gas₁ hoperand =>
          cases gas_of_eval hoperand
          exact ⟨1, w, by simp only [nodes]; omega, hoperand⟩
  | binary op token left right =>
      have hnode := metered_ok h
      split at hnode
      · cases hnode
      · next l gas₁ hleft =>
          split at hnode
          · cases hnode
          · next r gas₂ hright =>
              cases gas_of_eval hleft
              cases gas_of_eval hright
              rcases List.mem_cons.1 hchild with rfl | hchild
              · exact ⟨1, l, by simp only [nodes]; omega, hleft⟩
              · cases List.mem_singleton.1 hchild
                refine ⟨1 + left.nodes, r, by simp only [nodes]; omega, ?_⟩
                rwa [← Nat.add_assoc]

theorem evaluates_of_within {n : Expr} (hn : n.Within e)
    (h : e.eval s vars gas = (.ok v, gas')) : e.Evaluates s vars gas n := by
  induction hn generalizing gas gas' v with
  | refl =>
      cases gas_of_eval h
      exact ⟨0, v, by omega, h⟩
  | inside hchild _ ih =>
      obtain ⟨used, w, hused, hoperand⟩ := evaluates_operand h hchild
      obtain ⟨more, u, hmore, hinner⟩ := ih hoperand
      refine ⟨used + more, u, by omega, ?_⟩
      rwa [← Nat.add_assoc]

end Expr

/-- Evaluating an expression changes nothing but the gas. If it has a value, it has used one unit for
each of its nodes, and every expression inside it, be it the second operand of a logic operator, has
been evaluated to a value of its own. If it fails, it has used at least one unit and at most as
many as there are nodes. -/
theorem Machine.eval_cost (s : Settings) (e : Expr) (m : Machine) :
    (m.eval s e).2 = { m with gas := (m.eval s e).2.gas } ∧
      (∀ v, (m.eval s e).1 = .ok v →
        (m.eval s e).2.gas = m.gas + e.nodes ∧
          ∀ n : Expr, n.Within e → e.Evaluates s m.scopes m.gas n) ∧
      (∀ error, (m.eval s e).1 = .error error →
        m.gas + 1 ≤ (m.eval s e).2.gas ∧ (m.eval s e).2.gas ≤ m.gas + e.nodes) := by
  obtain ⟨hpos, hspends⟩ := e.spends_eval s m.scopes m.gas
  refine ⟨rfl, fun v hv => ⟨hspends.eq_of_ok v hv, fun n hn => ?_⟩, fun _ _ => ⟨hpos, hspends.le_add⟩⟩
  exact Expr.evaluates_of_within hn (Prod.ext hv rfl)

/-- The conjunction of a false literal and a variable. -/
def falseAndVariable : Expr :=
  let origin : Position := ⟨0, 0, 0⟩
  .binary .and ⟨.and, origin⟩ (.literal .bool ⟨.bool, origin⟩ [⟨.zero, origin⟩])
    (.var ⟨.useVar, origin⟩ [])

/-- A machine that has used seven units of gas, and whose only variables are given. -/
def sevenUsed (bindings : List Binding) : Machine :=
  { scopes := { bindings }, gas := 7 }

/-- The literal settles the value, but the variable is paid for, and missed if it is not there. -/
theorem Machine.eval_cost_falseAndVariable :
    ((sevenUsed [⟨0, .bool true, 0⟩]).eval {} falseAndVariable).1 = .ok (.bool false) ∧
      ((sevenUsed [⟨0, .bool true, 0⟩]).eval {} falseAndVariable).2.gas = 10 ∧
      falseAndVariable.Evaluates {} { bindings := [⟨0, .bool true, 0⟩] } 7
        (.var ⟨.useVar, ⟨0, 0, 0⟩⟩ []) ∧
      ((sevenUsed []).eval {} falseAndVariable).1 =
        .error (.undefinedVariable ⟨.useVar, ⟨0, 0, 0⟩⟩ 0) ∧
      8 ≤ ((sevenUsed []).eval {} falseAndVariable).2.gas ∧
      ((sevenUsed []).eval {} falseAndVariable).2.gas ≤ 10 := by
  have hvariable : Expr.Within (.var ⟨.useVar, ⟨0, 0, 0⟩⟩ []) falseAndVariable :=
    .inside (by decide) (.refl _)
  obtain ⟨hgas, hinside⟩ :=
    (eval_cost {} falseAndVariable (sevenUsed [⟨0, .bool true, 0⟩])).2.1 (.bool false) rfl
  exact ⟨rfl, hgas, hinside _ hvariable, rfl,
    (eval_cost {} falseAndVariable (sevenUsed [])).2.2 _ rfl⟩

end CellScript
