/-
Module: CellScript.Proofs.Run.Rounds
Purpose: A loop whose rounds use gas never runs out of rounds, so it goes on as long as it has to.
Main exports: Machine.round, Machine.Spends, Machine.Paced, Machine.cycle, Stmt.cycle,
  Program.follow, Program.runRest
-/
import CellScript.Run.Machine

namespace CellScript

namespace Machine

/-!
### Gas and blocks

A tick and a block, each by what it does to the state.
-/

/-- The state with one more unit of gas used. -/
def spend (m : Machine) : Machine :=
  { m with gas := m.gas + 1 }

/-- The state in a new block. -/
def enter (m : Machine) : Machine :=
  { m with scopes := m.scopes.enter }

theorem tick_of_lt {α : Type} {s : Settings} {m : Machine} (h : m.gas < s.gasLimit)
    (next : Machine → Outcome α) : m.tick s next = next m.spend :=
  if_neg (Nat.not_lt.2 h)

theorem tick_of_le {α : Type} {s : Settings} {m : Machine} (h : s.gasLimit ≤ m.gas)
    (next : Machine → Outcome α) :
    m.tick s next = (.error (.gasExhausted s.gasLimit), m.spend) :=
  if_pos (Nat.lt_succ_of_le h)

end Machine

/-- An outcome seen from outside the block in which it came about. -/
def Outcome.leave {α : Type} (o : Outcome α) (m : Machine) : Outcome α :=
  (o.1, { o.2 with scopes := o.2.scopes.exit m.scopes.depth })

namespace Machine

theorem inBlock_eq {α : Type} (m : Machine) (next : Machine → Outcome α) :
    m.inBlock next = (next m.enter).leave m := rfl

/-!
### One round

What a loop does from one test of its condition to the next. The next round is a parameter.
-/

/-- Take up the signal of a loop's body. -/
def afterBody (after next : Machine → Outcome Signal) : Signal → Machine → Outcome Signal
  | .breakLoop _, m => (.ok .normal, m)
  | .stop, m => (.ok .stop, m)
  | .goto token target, m => (.ok (.goto token target), m)
  | .normal, m | .continueLoop _, m =>
      Outcome.andThen (after m) fun signal m => if signal.isNormal then next m else (.ok signal, m)

/-- A round of a loop. -/
def round (condition : Machine → Outcome Bool) (body after next : Machine → Outcome Signal)
    (m : Machine) : Outcome Signal :=
  Outcome.andThen (condition m) fun holds m =>
    if holds then Outcome.andThen (body m) (afterBody after next) else (.ok .normal, m)

section Loop

variable {s : Settings} {condition : Machine → Outcome Bool}
  {body after next : Machine → Outcome Signal} {m : Machine}

/-- The last part of a round is what a loop does after its body. -/
theorem andThen_isNormal (o : Outcome Signal) :
    (Outcome.andThen o fun signal m => if signal.isNormal then next m else (.ok signal, m)) =
      match o with
      | (.ok .normal, m) => next m
      | (r, m) => (r, m) := by
  obtain ⟨_ | signal, m⟩ := o
  · rfl
  · cases signal <;> rfl

theorem loop_succ (fuel : Nat) :
    loop s condition body after (fuel + 1) m =
      round condition body after (loop s condition body after fuel) m := by
  rw [loop, round]
  obtain ⟨_ | _ | _, m₁⟩ := condition m
  · rfl
  · rfl
  · simp only [Outcome.andThen, if_true]
    obtain ⟨_ | signal, m₂⟩ := body m₁
    · rfl
    · cases signal with
      | normal => exact (andThen_isNormal (after m₂)).symm
      | continueLoop token => exact (andThen_isNormal (after m₂)).symm
      | stop => rfl
      | breakLoop token => rfl
      | goto token target => rfl

theorem afterBody_congr {f g : Machine → Outcome Signal} {signal : Signal}
    (h : ∀ {m'}, after m = (.ok .normal, m') → f m' = g m') :
    afterBody after f signal m = afterBody after g signal m := by
  have hafter : (Outcome.andThen (after m) fun signal m =>
      if signal.isNormal then f m else (.ok signal, m)) =
      Outcome.andThen (after m) fun signal m =>
        if signal.isNormal then g m else (.ok signal, m) := by
    rw [andThen_isNormal, andThen_isNormal]
    rcases hlast : after m with ⟨_ | last, m'⟩
    · rfl
    · cases last with
      | normal => exact h hlast
      | stop => rfl
      | breakLoop token => rfl
      | continueLoop token => rfl
      | goto token target => rfl
  cases signal with
  | normal => exact hafter
  | continueLoop token => exact hafter
  | stop => rfl
  | breakLoop token => rfl
  | goto token target => rfl

/-- A round looks at the next one only where it has come through all its parts. -/
theorem round_congr {f g : Machine → Outcome Signal}
    (h : ∀ {m₁ signal m₂ m₃}, condition m = (.ok true, m₁) → body m₁ = (.ok signal, m₂) →
      after m₂ = (.ok .normal, m₃) → f m₃ = g m₃) :
    round condition body after f m = round condition body after g m := by
  rw [round, round]
  rcases hcondition : condition m with ⟨_ | _ | _, m₁⟩
  · rfl
  · rfl
  · simp only [Outcome.andThen, if_true]
    rcases hbody : body m₁ with ⟨_ | signal, m₂⟩
    · rfl
    · exact afterBody_congr fun hafter => h hcondition hbody hafter

end Loop

/-!
### Loops that use gas

The rounds that a loop is given are one more than the gas that is left. As each round uses gas, they
are never used up, and the loop is equal to a round of itself.
-/

/-- Success from within the limit uses at least so much gas and stays within the limit. -/
def Spends {α : Type} (limit cost : Nat) (f : Machine → Outcome α) : Prop :=
  ∀ ⦃m a m'⦄, f m = (.ok a, m') → m.gas ≤ limit → m.gas + cost ≤ m'.gas ∧ m'.gas ≤ limit

/-- The condition of a loop uses gas, and its other parts give none back. -/
structure Paced (limit : Nat) (condition : Machine → Outcome Bool)
    (body after : Machine → Outcome Signal) : Prop where
  condition : Spends limit 1 condition
  body : Spends limit 0 body
  after : Spends limit 0 after

/-- A loop with all the rounds that it can make. -/
def cycle (s : Settings) (condition : Machine → Outcome Bool)
    (body after : Machine → Outcome Signal) (m : Machine) : Outcome Signal :=
  loop s condition body after (m.rounds s) m

namespace Paced

variable {s : Settings} {limit : Nat} {condition : Machine → Outcome Bool}
  {body after : Machine → Outcome Signal} {m m₁ m₂ m₃ : Machine}

/-- A whole round uses gas. -/
theorem gas_lt (h : Paced limit condition body after) (hm : m.gas ≤ limit)
    (hcondition : condition m = (.ok true, m₁)) {signal last : Signal}
    (hbody : body m₁ = (.ok signal, m₂)) (hafter : after m₂ = (.ok last, m₃)) :
    m.gas < m₃.gas ∧ m₃.gas ≤ limit := by
  obtain ⟨hgas₁, hlimit₁⟩ := h.condition hcondition hm
  obtain ⟨hgas₂, hlimit₂⟩ := h.body hbody hlimit₁
  obtain ⟨hgas₃, hlimit₃⟩ := h.after hafter hlimit₂
  exact ⟨by omega, hlimit₃⟩

/-- Any two numbers of rounds that are above the gas left do the same. -/
theorem loop_eq_loop (h : Paced s.gasLimit condition body after) {n k : Nat}
    (hm : m.gas ≤ s.gasLimit) (hn : s.gasLimit - m.gas < n) (hk : s.gasLimit - m.gas < k) :
    loop s condition body after n m = loop s condition body after k m := by
  induction n generalizing k m with
  | zero => exact absurd hn (Nat.not_lt_zero _)
  | succ n ih =>
      cases k with
      | zero => exact absurd hk (Nat.not_lt_zero _)
      | succ k =>
          rw [loop_succ, loop_succ]
          refine round_congr fun hcondition hbody hafter => ?_
          obtain ⟨hlt, hle⟩ := h.gas_lt hm hcondition hbody hafter
          exact ih hle (by omega) (by omega)

theorem cycle_eq (h : Paced s.gasLimit condition body after) (hm : m.gas ≤ s.gasLimit) :
    cycle s condition body after m =
      round condition body after (cycle s condition body after) m := by
  rw [cycle, rounds, loop_succ]
  refine round_congr fun hcondition hbody hafter => ?_
  obtain ⟨hlt, hle⟩ := h.gas_lt hm hcondition hbody hafter
  exact h.loop_eq_loop hle (by omega) (Nat.lt_succ_self _)

end Paced

end Machine

/-!
### Statements and the root by their rounds

The statements that run others, with a loop in place of its rounds. A statement of the root is a
round too: its signal says with which statements the root goes on.
-/

namespace Stmt

/-- Whether a statement runs no other one. -/
def isBasic : Stmt → Bool
  | ifElse .. => false
  | whileLoop .. => false
  | forLoop .. => false
  | _ => true

/-- The loop of a statement. What comes after its body are the statements of a list. -/
def cycle (s : Settings) (statement : TokenKind) (condition : Expr) (body after : List Stmt)
    (m : Machine) : Outcome Signal :=
  Machine.cycle s (fun m => m.condition s statement condition)
    (fun m => m.inBlock fun m => execAll s body m) (fun m => execAll s after m) m

variable (s : Settings) (m : Machine)

theorem execAll_cons (stmt : Stmt) (rest : List Stmt) :
    execAll s (stmt :: rest) m =
      Outcome.andThen (stmt.exec s m) fun signal m =>
        if signal.isNormal then execAll s rest m else (.ok signal, m) := by
  rw [execAll]
  exact (Machine.andThen_isNormal (stmt.exec s m)).symm

theorem execAll_singleton (stmt : Stmt) : execAll s [stmt] m = stmt.exec s m := by
  rw [execAll_cons]
  obtain ⟨_ | signal, m'⟩ := stmt.exec s m
  · rfl
  · cases signal <;> simp [Outcome.andThen, Signal.isNormal, execAll]

theorem exec_whileLoop (token : Token) (condition : Expr) (body : List Stmt) :
    (whileLoop token condition body).exec s m =
      m.tick s fun m => cycle s .whileLoop condition body [] m := by
  simp only [exec, cycle, Machine.cycle, execAll]

theorem exec_forLoop (token : Token) (init increment : Stmt) (condition : Expr)
    (body : List Stmt) :
    (forLoop token init condition increment body).exec s m =
      m.tick s fun m => m.inBlock fun m =>
        Outcome.andThen (init.exec s m) fun signal m =>
          if signal.isNormal then cycle s .forLoop condition body [increment] m
          else (.ok signal, m) := by
  simp only [exec, cycle, Machine.cycle, execAll_singleton]

end Stmt

namespace Program

/-- The statements with which the root goes on after a signal, if it does. -/
def follow (program : Program) (rest : List Stmt) : Signal → Except EvalError (Option (List Stmt))
  | .normal => .ok (some rest)
  | .stop => .ok none
  | .breakLoop token => .error (.strayControl token)
  | .continueLoop token => .error (.strayControl token)
  | .goto token target =>
      if 0 ≤ target.toInt ∧ target.toInt.toNat < program.body.length then
        .ok (some (program.body.drop target.toInt.toNat))
      else
        .error (.gotoOutOfBounds token target program.body.length)

theorem mem_of_follow {program : Program} {rest stmts : List Stmt} {signal : Signal}
    (h : program.follow rest signal = .ok (some stmts)) : stmts ⊆ rest ++ program.body := by
  cases signal with
  | normal =>
      cases h
      exact List.subset_append_left _ _
  | stop => cases h
  | breakLoop token => cases h
  | continueLoop token => cases h
  | goto token target =>
      simp only [follow] at h
      split at h
      · cases h
        exact fun n hn => List.mem_append_right _ (List.mem_of_mem_drop hn)
      · cases h

/-- The root goes on with statements of its own. -/
theorem subset_of_follow {program : Program} {rest stmts : List Stmt} {signal : Signal}
    (hrest : rest ⊆ program.body) (h : program.follow rest signal = .ok (some stmts)) :
    stmts ⊆ program.body := by
  intro n hn
  rcases List.mem_append.1 (mem_of_follow h hn) with hn | hn
  · exact hrest hn
  · exact hn

/-- Take up the signal of a statement of the root. -/
def proceed (program : Program) (next : List Stmt → Machine → Outcome Unit) (rest : List Stmt)
    (signal : Signal) (m : Machine) : Outcome Unit :=
  match program.follow rest signal with
  | .ok (some stmts) => next stmts m
  | .ok none => (.ok (), m)
  | .error e => (.error e, m)

theorem runFrom_cons (s : Settings) (program : Program) (fuel : Nat) (stmt : Stmt)
    (rest : List Stmt) (m : Machine) :
    program.runFrom s (fuel + 1) (stmt :: rest) m =
      Outcome.andThen (stmt.exec s m) (program.proceed (program.runFrom s fuel) rest) := by
  rw [runFrom]
  obtain ⟨_ | signal, m'⟩ := stmt.exec s m
  · rfl
  · cases signal with
    | normal => rfl
    | stop => rfl
    | breakLoop token => rfl
    | continueLoop token => rfl
    | goto token target =>
        simp only [Outcome.andThen, proceed, follow]
        split <;> rfl

/-- The rest of the root with all the rounds that it can make. -/
def runRest (s : Settings) (program : Program) (stmts : List Stmt) (m : Machine) : Outcome Unit :=
  program.runFrom s (m.rounds s) stmts m

end Program

end CellScript
