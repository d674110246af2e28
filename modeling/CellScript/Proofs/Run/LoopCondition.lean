/-
Module: CellScript.Proofs.Run.LoopCondition
Purpose: The condition of a `WHILE` comes to the same at each of its tests, for the block around the
  body gives back all variables. What its body assigns can therefore not end the loop.
Main exports: Stmt.Tests, Stmt.Tests.exec_eq, Stmt.Tests.loop_eq_loop, Stmt.Tests.scopes_eq,
  Stmt.whileLoop_tests_agree
-/
import CellScript.Proofs.Run.Evaluation
import CellScript.Proofs.Run.Execution
import CellScript.Proofs.Run.ScopeFrame

namespace CellScript

namespace Stmt

/-!
### The tests of a loop

A loop goes on from one test to the next, and looks at its condition in no other state.
-/

/-- The states in which a `WHILE` that is executed from a state tests its condition. -/
inductive Tests (s : Settings) (condition : Expr) (body : List Stmt) (m : Machine) :
    Machine → Prop where
  | first (hgas : m.gas < s.gasLimit) : Tests s condition body m m.spend
  | again {m₁ m₂ signal m₃} (h : Tests s condition body m m₁)
      (hcondition : m₁.condition s .whileLoop condition = (.ok true, m₂))
      (hbody : m₂.inBlock (execAll s body) = (.ok signal, m₃)) (hleaving : signal.leaving = none) :
      Tests s condition body m m₃

namespace Tests

variable {s : Settings} {condition : Expr} {body : List Stmt} {m m₁ : Machine}

theorem gas_le (h : Tests s condition body m m₁) : m₁.gas ≤ s.gasLimit := by
  induction h with
  | first hgas => exact hgas
  | again _ hcondition hbody _ ih =>
      have hgas := (spends_condition s .whileLoop condition hcondition ih).2
      exact (spendsBlock s body hbody hgas).2

/-- What there is left to do at a test is the loop itself. -/
theorem exec_eq (h : Tests s condition body m m₁) (token : Token) :
    (whileLoop token condition body).exec s m = cycle s .whileLoop condition body [] m₁ := by
  induction h with
  | first hgas => rw [exec_whileLoop, Machine.tick_of_lt hgas]
  | again h hcondition hbody hleaving ih =>
      rw [ih, cycle_eq h.gas_le, Machine.round_of_after hcondition hbody hleaving rfl]
      rfl

/-- Another condition makes no difference, if it is no other at the tests. -/
theorem loop_eq_loop {other : Machine → Outcome Bool} {after : Machine → Outcome Signal}
    (hafter : ∀ m, after m = (.ok .normal, m))
    (hother : ∀ m₁, Tests s condition body m m₁ → other m₁ = m₁.condition s .whileLoop condition)
    (h : Tests s condition body m m₁) (fuel : Nat) :
    Machine.loop s other (fun m => m.inBlock (execAll s body)) after fuel m₁ =
      Machine.loop s (fun m => m.condition s .whileLoop condition)
        (fun m => m.inBlock (execAll s body)) after fuel m₁ := by
  induction fuel generalizing m₁ with
  | zero => rfl
  | succ fuel ih =>
      rw [Machine.loop_succ, Machine.loop_succ, Machine.round, Machine.round, hother m₁ h]
      rcases hcondition : m₁.condition s .whileLoop condition with ⟨_ | _ | _, m₂⟩
      · rfl
      · rfl
      · simp only [Outcome.andThen, if_true]
        rcases hbody : m₂.inBlock (execAll s body) with ⟨_ | signal, m₃⟩
        · rfl
        · rcases hleaving : signal.leaving with _ | last
          · apply Machine.afterBody_congr
            intro m' hm'
            cases (hafter m₃).symm.trans hm'
            exact ih (.again h hcondition hbody hleaving)
          · dsimp only
            rw [Machine.afterBody_of_leaving hleaving, Machine.afterBody_of_leaving hleaving]

/-- A loop that ends normally does so at a test, by the condition or by a break of the body. -/
theorem exists_of_normal {after : Machine → Outcome Signal} {fuel : Nat} {m' : Machine}
    (hafter : ∀ m, after m = (.ok .normal, m)) (h : Tests s condition body m m₁)
    (hloop : Machine.loop s (fun m => m.condition s .whileLoop condition)
      (fun m => m.inBlock (execAll s body)) after fuel m₁ = (.ok .normal, m')) :
    ∃ m₂ m₃, Tests s condition body m m₂ ∧
      (m₂.condition s .whileLoop condition = (.ok false, m₃) ∨
        m₂.condition s .whileLoop condition = (.ok true, m₃) ∧
          ∃ jump m₄, m₃.inBlock (execAll s body) = (.ok (.breakLoop jump), m₄)) := by
  induction fuel generalizing m₁ with
  | zero => cases hloop
  | succ fuel ih =>
      rw [Machine.loop_succ] at hloop
      rcases hcondition : m₁.condition s .whileLoop condition with ⟨_ | _ | _, m₂⟩
      · rw [Machine.round, hcondition] at hloop
        cases hloop
      · exact ⟨m₁, m₂, h, .inl hcondition⟩
      · rw [Machine.round_of_body hcondition rfl] at hloop
        rcases hbody : m₂.inBlock (execAll s body) with ⟨_ | signal, m₃⟩
        · rw [hbody] at hloop
          cases hloop
        · rw [hbody] at hloop
          cases signal with
          | normal =>
              simp only [Outcome.andThen, Machine.afterBody, hafter] at hloop
              exact ih (.again h hcondition hbody rfl) hloop
          | continueLoop jump =>
              simp only [Outcome.andThen, Machine.afterBody, hafter] at hloop
              exact ih (.again h hcondition hbody rfl) hloop
          | breakLoop jump => exact ⟨m₁, m₂, h, .inr ⟨hcondition, jump, m₃, hbody⟩⟩
          | stop => cases hloop
          | goto jump target => cases hloop

/-!
### The variables at the tests

A test uses gas only, and the body is in a block.
-/

theorem scopes_eq (h : Tests s condition body m m₁) (hm : m.scopes.Settled) :
    m₁.scopes = m.scopes := by
  have hrestores : Machine.RestoresScopes m m₁ := by
    have heffects := Machine.effects_restoresScopes
    induction h with
    | first hgas => exact heffects.gas m (m.gas + 1)
    | @again m₁ m₂ signal m₃ _ hcondition hbody _ ih =>
        have htest : m₁.RestoresScopes (m₁.condition s .whileLoop condition).2 :=
          heffects.evalAs _ _ condition m₁
        have hblock : m₂.RestoresScopes (m₂.inBlock (execAll s body)).2 :=
          Machine.restoresScopes_inBlock (Machine.law_keepsScopes.execAll s body) m₂
        rw [hcondition] at htest
        rw [hbody] at hblock
        exact heffects.trans (heffects.trans ih htest) hblock
  exact hrestores hm

/-- An evaluation that gas does not cut off comes to what the variables before the loop say. -/
theorem eval_eq (h : Tests s condition body m m₁) (hm : m.scopes.Settled)
    (hcut : ∀ limit, (m₁.eval s condition).1 ≠ .error (.gasExhausted limit)) :
    (m₁.eval s condition).1 = condition.value s.maxStringLength m.scopes := by
  rw [← h.scopes_eq hm]
  exact (m₁.eval_cut_or_value s condition).eq_of_ne hcut

theorem condition_eq (h : Tests s condition body m m₁) (hm : m.scopes.Settled)
    (hcut : ∀ limit, (m₁.condition s .whileLoop condition).1 ≠ .error (.gasExhausted limit)) :
    (m₁.condition s .whileLoop condition).1 =
      (condition.value s.maxStringLength m.scopes).bind
        (Value.truth .whileLoop condition.token) := by
  rw [← h.scopes_eq hm]
  exact (m₁.condition_cut_or_value s .whileLoop condition).eq_of_ne hcut

/-- There is a test after the first only if the condition was true at the first. -/
theorem eq_spend_or (h : Tests s condition body m m₁) :
    m₁ = m.spend ∨ (m.spend.condition s .whileLoop condition).1 = .ok true := by
  induction h with
  | first hgas => exact .inl rfl
  | again _ hcondition _ _ ih =>
      rcases ih with rfl | htrue
      · exact .inr (congrArg Prod.fst hcondition)
      · exact .inr htrue

/-- A test that finds the condition false is the first one. -/
theorem first_of_false (h : Tests s condition body m m₁) (hgas : m.gas < s.gasLimit)
    (hm : m.scopes.Settled) (hfalse : (m₁.condition s .whileLoop condition).1 = .ok false) :
    (m.spend.condition s .whileLoop condition).1 = .ok false := by
  rcases h.eq_spend_or with rfl | htrue
  · exact hfalse
  · have hstart : Tests s condition body m m.spend := .first hgas
    rw [hstart.condition_eq hm (by simp [htrue]), ← h.condition_eq hm (by simp [hfalse]), hfalse]

end Tests

/-- In a state in which no variable belongs to a deeper block, all tests of the condition of a
`WHILE` that gas does not cut off come to the same value or the same error. So if the loop ends
normally, then the first test found the condition false, or the body ended with a break. The tests
are those states, and no others, in which the execution looks at the condition: it goes through each
of them, and any condition that is no other in them makes the same execution. -/
theorem whileLoop_tests_agree (s : Settings) (m : Machine) (token : Token) (condition : Expr)
    (body : List Stmt) (hm : m.scopes.Settled) :
    (∀ m₁ m₂, Tests s condition body m m₁ → Tests s condition body m m₂ →
        ((∀ limit, (m₁.eval s condition).1 ≠ .error (.gasExhausted limit)) →
          (∀ limit, (m₂.eval s condition).1 ≠ .error (.gasExhausted limit)) →
          (m₁.eval s condition).1 = (m₂.eval s condition).1) ∧
        ((∀ limit, (m₁.condition s .whileLoop condition).1 ≠ .error (.gasExhausted limit)) →
          (∀ limit, (m₂.condition s .whileLoop condition).1 ≠ .error (.gasExhausted limit)) →
          (m₁.condition s .whileLoop condition).1 = (m₂.condition s .whileLoop condition).1)) ∧
      (∀ m', (whileLoop token condition body).exec s m = (.ok .normal, m') →
        (m.spend.condition s .whileLoop condition).1 = .ok false ∨
          ∃ m₁ m₂ jump m₃, Tests s condition body m m₁ ∧
            m₁.condition s .whileLoop condition = (.ok true, m₂) ∧
            m₂.inBlock (execAll s body) = (.ok (.breakLoop jump), m₃)) ∧
      (∀ m₁, Tests s condition body m m₁ →
        (whileLoop token condition body).exec s m = cycle s .whileLoop condition body [] m₁) ∧
      ∀ other : Machine → Outcome Bool,
        (∀ m₁, Tests s condition body m m₁ → other m₁ = m₁.condition s .whileLoop condition) →
        (whileLoop token condition body).exec s m =
          m.tick s
            (Machine.cycle s other (fun m => m.inBlock (execAll s body)) (execAll s [])) := by
  have hafter : ∀ m, execAll s [] m = (.ok .normal, m) := fun m => by rw [execAll]
  refine ⟨fun m₁ m₂ h₁ h₂ => ⟨fun hcut₁ hcut₂ => ?_, fun hcut₁ hcut₂ => ?_⟩, fun m' hexec => ?_,
    fun m₁ h₁ => h₁.exec_eq token, fun other hother => ?_⟩
  · rw [h₁.eval_eq hm hcut₁, h₂.eval_eq hm hcut₂]
  · rw [h₁.condition_eq hm hcut₁, h₂.condition_eq hm hcut₂]
  · by_cases hgas : m.gas < s.gasLimit
    · rw [exec_whileLoop, Machine.tick_of_lt hgas] at hexec
      obtain ⟨m₁, m₂, h₁, hfalse | ⟨htrue, jump, m₃, hbreak⟩⟩ :=
        Tests.exists_of_normal hafter (.first hgas) hexec
      · exact .inl (h₁.first_of_false hgas hm (congrArg Prod.fst hfalse))
      · exact .inr ⟨m₁, m₂, jump, m₃, h₁, htrue, hbreak⟩
    · rw [exec_of_le (Nat.le_of_not_lt hgas)] at hexec
      cases hexec
  · by_cases hgas : m.gas < s.gasLimit
    · rw [exec_whileLoop, Machine.tick_of_lt hgas, Machine.tick_of_lt hgas]
      exact ((Tests.first hgas).loop_eq_loop hafter hother (m.spend.rounds s)).symm
    · have hle := Nat.le_of_not_lt hgas
      rw [exec_of_le hle, Machine.tick_of_le hle]

/-- The variable of chain length zero. -/
def flag : Expr :=
  .var ⟨.useVar, ⟨0, 0, 0⟩⟩ []

/-- Set that variable to false. -/
def clearFlag : Stmt :=
  let origin : Position := ⟨0, 0, 0⟩
  .assign .bool ⟨.bool, origin⟩ [] (.literal .bool ⟨.bool, origin⟩ [⟨.zero, origin⟩])

/-- A loop over a flag that its body clears tests the flag again, and it is set. -/
theorem whileLoop_tests_agree_clearFlag :
    ∃ m₁, Tests { gasLimit := 6 } flag [clearFlag]
        { scopes := Scopes.after [.assign 0 (.bool true)] } m₁ ∧
      m₁.gas = 4 ∧ (m₁.eval { gasLimit := 6 } flag).1 = .ok (.bool true) := by
  have hfirst : Tests { gasLimit := 6 } flag [clearFlag]
      { scopes := Scopes.after [.assign 0 (.bool true)] } _ := .first (by decide)
  have hsecond := hfirst.again rfl rfl rfl
  refine ⟨_, hsecond, rfl, ?_⟩
  have hagree := (whileLoop_tests_agree { gasLimit := 6 } _ ⟨.whileLoop, ⟨0, 0, 0⟩⟩ flag [clearFlag]
    (Scopes.settled_after _)).1 _ _ hfirst hsecond
  rw [← hagree.1 (fun limit h => nomatch h) (fun limit h => nomatch h)]
  rfl

end Stmt

end CellScript
