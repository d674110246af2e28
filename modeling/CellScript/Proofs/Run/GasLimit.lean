/-
Module: CellScript.Proofs.Run.GasLimit
Purpose: What a lower gas limit does to a run: nothing, or it cuts the run off.
Main exports: Settings.withLimit, Outcome.Finished, Outcome.Exhausted, Metered, Truncated,
  Truncates, Stmt.truncates, Program.truncates_run
-/
import CellScript.Proofs.Run.Effects
import CellScript.Proofs.Run.Rounds

namespace CellScript

/-- The settings with another gas limit. -/
def Settings.withLimit (s : Settings) (limit : Nat) : Settings :=
  { s with gasLimit := limit }

/-!
### Two ends of a run

A run under a limit ends within it, or it ends with the one unit too many that it could not have.
Of two runs from one state, the one with the lower limit either is the other, or has done a part of
what the other does when it runs out of gas.
-/

namespace Outcome

variable {α : Type}

/-- The run ended within the limit, and not for want of gas. -/
def Finished (limit : Nat) (o : Outcome α) : Prop :=
  (∀ other, o.1 ≠ .error (.gasExhausted other)) ∧ o.2.gas ≤ limit

/-- The run ended for want of gas. -/
def Exhausted (limit : Nat) (o : Outcome α) : Prop :=
  o.1 = .error (.gasExhausted limit) ∧ o.2.gas = limit + 1

end Outcome

section Laws

variable {α β : Type} {limit cost low high : Nat} {m : Machine}

/-- A run from a state uses at least so much gas, only adds to what was done before, and has one of
the two ends. -/
structure Metered (limit cost : Nat) (m : Machine) (o : Outcome α) : Prop where
  gas_le : m.gas + cost ≤ o.2.gas
  trace : m.world.trace <+: o.2.world.trace
  ends : o.Finished limit ∨ o.Exhausted limit

/-- What is done with the gas that there is: none is used, and none is wanting. -/
structure Gasless (m : Machine) (o : Outcome α) : Prop where
  gas_eq : o.2.gas = m.gas
  trace : m.world.trace <+: o.2.world.trace
  fault : ∀ limit, o.1 ≠ .error (.gasExhausted limit)

/-- A result or a fault that leaves the state alone. -/
theorem Gasless.of_result {r : Except EvalError α}
    (h : ∀ limit, r ≠ .error (.gasExhausted limit)) : Gasless m (r, m) :=
  ⟨rfl, List.prefix_refl _, h⟩

/-- What a lower limit makes of a longer run. -/
def Truncated (low : Nat) (short long : Outcome α) : Prop :=
  (short = long ∧ long.Finished low) ∨
    (short.Exhausted low ∧ low < long.2.gas ∧ short.2.world.trace <+: long.2.world.trace)

theorem Metered.gas_le_of_ok {a : α} {m' : Machine} (h : Metered limit cost m (.ok a, m')) :
    m'.gas ≤ limit := by
  rcases h.ends with hfinished | hexhausted
  · exact hfinished.2
  · cases hexhausted.1

theorem Metered.weaken {o : Outcome α} (h : Metered limit cost m o) : Metered limit 0 m o :=
  ⟨Nat.le_trans (Nat.le_add_right _ _) h.gas_le, h.trace, h.ends⟩

theorem Metered.andThen {o : Outcome α} {next : α → Machine → Outcome β}
    (h : Metered limit cost m o)
    (hnext : ∀ {a m'}, o = (.ok a, m') → Metered limit 0 m' (next a m')) :
    Metered limit cost m (o.andThen next) := by
  obtain ⟨e | a, m'⟩ := o
  · refine ⟨h.gas_le, h.trace, ?_⟩
    -- An error is passed on as it is, at another type.
    rcases h.ends with hfinished | hexhausted
    · refine .inl ⟨fun other herror => hfinished.1 other ?_, hfinished.2⟩
      cases herror
      rfl
    · obtain ⟨herror, hgas⟩ := hexhausted
      cases herror
      exact .inr ⟨rfl, hgas⟩
  · have hafter := hnext rfl
    exact ⟨Nat.le_trans h.gas_le hafter.gas_le, h.trace.trans hafter.trace, hafter.ends⟩

/-- A run that has gone beyond a limit is still beyond it after what comes next. -/
theorem Truncated.andThen {short long : Outcome α} {f g : α → Machine → Outcome β}
    (h : Truncated low short long)
    (hlong : ∀ {a m'}, long = (.ok a, m') → Metered high 0 m' (g a m'))
    (hnext : ∀ {a m'}, long = (.ok a, m') → m'.gas ≤ low → Truncated low (f a m') (g a m')) :
    Truncated low (short.andThen f) (long.andThen g) := by
  rcases h with ⟨rfl, hfinished⟩ | ⟨⟨herror, hgas⟩, hlow, htrace⟩
  · obtain ⟨e | a, m'⟩ := short
    · refine .inl ⟨rfl, fun other herror => hfinished.1 other ?_, hfinished.2⟩
      cases herror
      rfl
    · exact hnext rfl hfinished.2
  · obtain ⟨_, m₁⟩ := short
    cases herror
    refine .inr ⟨⟨rfl, hgas⟩, ?_⟩
    obtain ⟨e | a, m'⟩ := long
    · exact ⟨hlow, htrace⟩
    · have hafter := hlong rfl
      exact ⟨Nat.lt_of_lt_of_le hlow hafter.gas_le, htrace.trans hafter.trace⟩

/-!
### Runs that a limit truncates

The laws for something that can be run under every limit. They are stated for one state and two
limits first, since a loop has them at a state once it has them at all states with less gas left.
-/

/-- The laws of a run from a state under two limits. -/
structure TruncatesAt (low high cost : Nat) (run : Nat → Machine → Outcome α) (m : Machine) :
    Prop where
  metered : m.gas ≤ high → Metered high cost m (run high m)
  truncated : m.gas ≤ low → Truncated low (run low m) (run high m)

/-- The laws of a run, from every state and under all limits. -/
def Truncates (cost : Nat) (run : Nat → Machine → Outcome α) : Prop :=
  ∀ ⦃low high : Nat⦄, low ≤ high → ∀ m, TruncatesAt low high cost run m

variable {run : Nat → Machine → Outcome α} {next : α → Nat → Machine → Outcome β}

theorem TruncatesAt.weaken (h : TruncatesAt low high cost run m) :
    TruncatesAt low high 0 run m :=
  ⟨fun hm => (h.metered hm).weaken, h.truncated⟩

theorem TruncatesAt.andThen (h : TruncatesAt low high cost run m)
    (hnext : ∀ {a m'}, m.gas ≤ high → run high m = (.ok a, m') →
      TruncatesAt low high 0 (next a) m') (hle : low ≤ high) :
    TruncatesAt low high cost (fun limit m => (run limit m).andThen fun a m => next a limit m)
      m where
  metered hm := (h.metered hm).andThen fun hok =>
    (hnext hm hok).metered (hok ▸ h.metered hm).gas_le_of_ok
  truncated hm := by
    have hhigh := Nat.le_trans hm hle
    exact (h.truncated hm).andThen
      (fun hok => (hnext hhigh hok).metered (hok ▸ h.metered hhigh).gas_le_of_ok)
      (fun hok hlow => (hnext hhigh hok).truncated hlow)

/-- What does not ask for gas and does not fail for want of it is the same under all limits. -/
theorem TruncatesAt.of_effect (effect : Machine → Outcome α) (h : Gasless m (effect m)) :
    TruncatesAt low high 0 (fun _ => effect) m where
  metered hm := ⟨Nat.le_of_eq h.gas_eq.symm, h.trace, .inl ⟨h.fault, h.gas_eq ▸ hm⟩⟩
  truncated hm := .inl ⟨rfl, h.fault, h.gas_eq ▸ hm⟩

theorem TruncatesAt.ok (a : α) : TruncatesAt low high 0 (fun _ m => (.ok a, m)) m :=
  .of_effect (fun m => (.ok a, m)) (.of_result fun _ => by simp)

namespace Truncates

theorem weaken (h : Truncates cost run) : Truncates 0 run :=
  fun _ _ hle m => (h hle m).weaken

theorem andThen (h : Truncates cost run) (hnext : ∀ a, Truncates 0 (next a)) :
    Truncates cost fun limit m => (run limit m).andThen fun a m => next a limit m :=
  fun _ _ hle m => (h hle m).andThen (fun _ _ => hnext _ hle _) hle

theorem of_effect (effect : Machine → Outcome α) (h : ∀ m, Gasless m (effect m)) :
    Truncates 0 fun _ => effect :=
  fun _ _ _ m => .of_effect effect (h m)

theorem of_result (r : Except EvalError α) (hfault : ∀ limit, r ≠ .error (.gasExhausted limit)) :
    Truncates 0 fun _ m => (r, m) :=
  .of_effect _ fun _ => .of_result hfault

theorem ok (a : α) : Truncates 0 fun _ m => (.ok a, m) :=
  .of_result _ fun _ => by simp

theorem ite (c : Prop) [Decidable c] {other : Nat → Machine → Outcome α}
    (h : Truncates cost run) (hother : Truncates cost other) :
    Truncates cost fun limit m => if c then run limit m else other limit m := by
  by_cases hc : c
  · simpa only [if_pos hc] using h
  · simpa only [if_neg hc] using hother

/-- A tick is where a limit cuts. -/
theorem tick (s : Settings) (h : Truncates 0 run) :
    Truncates 1 fun limit m => m.tick (s.withLimit limit) (run limit) := by
  intro low high hle m
  have hrun := h hle m.spend
  constructor
  · intro hm
    by_cases hlt : m.gas < high
    · simp only [Machine.tick_of_lt (s := s.withLimit high) hlt]
      have hmetered := hrun.metered hlt
      exact ⟨hmetered.gas_le, hmetered.trace, hmetered.ends⟩
    · have hgas : m.gas = high := by omega
      simp only [Machine.tick_of_le (s := s.withLimit high) (Nat.le_of_not_lt hlt)]
      exact ⟨Nat.le_refl _, List.prefix_refl _, .inr ⟨rfl, congrArg (· + 1) hgas⟩⟩
  · intro hm
    by_cases hlt : m.gas < low
    · simp only [Machine.tick_of_lt (s := s.withLimit low) hlt,
        Machine.tick_of_lt (s := s.withLimit high) (Nat.lt_of_lt_of_le hlt hle)]
      exact hrun.truncated hlt
    · have hgas : m.gas = low := by omega
      simp only [Machine.tick_of_le (s := s.withLimit low) (Nat.le_of_not_lt hlt)]
      refine .inr ⟨⟨rfl, congrArg (· + 1) hgas⟩, ?_⟩
      by_cases hhigh : m.gas < high
      · simp only [Machine.tick_of_lt (s := s.withLimit high) hhigh]
        have hmetered := hrun.metered hhigh
        exact ⟨hgas ▸ hmetered.gas_le, hmetered.trace⟩
      · simp only [Machine.tick_of_le (s := s.withLimit high) (Nat.le_of_not_lt hhigh)]
        exact ⟨hgas ▸ Nat.lt_succ_self _, List.prefix_refl _⟩

/-- Leaving the block changes neither the gas nor what was done. -/
theorem inBlock (h : Truncates cost run) :
    Truncates cost fun limit m => m.inBlock (run limit) := by
  intro low high hle m
  have hrun := h hle m.enter
  constructor
  · intro hm
    obtain ⟨hgas, htrace, hends⟩ := hrun.metered hm
    exact ⟨hgas, htrace, hends⟩
  · intro hm
    rcases hrun.truncated hm with ⟨heq, hfinished⟩ | hcut
    · exact .inl ⟨congrArg (Outcome.leave · m) heq, hfinished⟩
    · exact .inr hcut

theorem spends (h : Truncates cost run) (limit : Nat) : Machine.Spends limit cost (run limit) := by
  intro m a m' hok hm
  have hmetered := (h (Nat.le_refl limit) m).metered hm
  rw [hok] at hmetered
  exact ⟨hmetered.gas_le, hmetered.gas_le_of_ok⟩

theorem paced {condition : Nat → Machine → Outcome Bool}
    {body after : Nat → Machine → Outcome Signal} (hcondition : Truncates 1 condition)
    (hbody : Truncates 0 body) (hafter : Truncates 0 after) (limit : Nat) :
    Machine.Paced limit (condition limit) (body limit) (after limit) :=
  ⟨hcondition.spends limit, hbody.spends limit, hafter.spends limit⟩

end Truncates

/-- A round has the laws at a state if the next rounds have them at all states with less gas left. -/
theorem TruncatesAt.round {condition : Nat → Machine → Outcome Bool}
    {body after rest : Nat → Machine → Outcome Signal} (hcondition : Truncates 1 condition)
    (hbody : Truncates 0 body) (hafter : Truncates 0 after) (hle : low ≤ high)
    (hrest : ∀ {m'}, m.gas < m'.gas → m'.gas ≤ high → TruncatesAt low high 0 rest m') :
    TruncatesAt low high 0
      (fun limit m => Machine.round (condition limit) (body limit) (after limit) (rest limit) m)
      m := by
  refine ((hcondition hle m).andThen (fun {holds m₁} hm hholds => ?_) hle).weaken
  obtain ⟨hgas₁, hlimit₁⟩ := hcondition.spends high hholds hm
  cases holds with
  | false => exact .ok _
  | true =>
      refine (hbody hle m₁).andThen (fun {signal m₂} _ hsignal => ?_) hle
      obtain ⟨hgas₂, hlimit₂⟩ := hbody.spends high hsignal hlimit₁
      have hagain : TruncatesAt low high 0
          (fun limit m => Outcome.andThen (after limit m) fun signal m =>
            if signal.isNormal then rest limit m else (.ok signal, m)) m₂ := by
        refine (hafter hle m₂).andThen (fun {last m₃} _ hlast => ?_) hle
        obtain ⟨hgas₃, hlimit₃⟩ := hafter.spends high hlast hlimit₂
        cases last with
        | normal => exact hrest (by omega) hlimit₃
        | stop => exact .ok _
        | breakLoop token => exact .ok _
        | continueLoop token => exact .ok _
        | goto token target => exact .ok _
      cases signal with
      | normal => exact hagain
      | continueLoop token => exact hagain
      | stop => exact .ok _
      | breakLoop token => exact .ok _
      | goto token target => exact .ok _

theorem Truncates.cycle (s : Settings) {condition : Nat → Machine → Outcome Bool}
    {body after : Nat → Machine → Outcome Signal} (hcondition : Truncates 1 condition)
    (hbody : Truncates 0 body) (hafter : Truncates 0 after) :
    Truncates 0 fun limit m =>
      Machine.cycle (s.withLimit limit) (condition limit) (body limit) (after limit) m := by
  intro low high hle m
  -- The induction is on the gas that is left under the higher limit.
  induction hleft : high - m.gas using Nat.strongRecOn generalizing m with
  | ind left ih =>
      have hpaced := hcondition.paced hbody hafter
      have hround := TruncatesAt.round (m := m) hcondition hbody hafter hle
        fun {m'} hlt hhigh => ih (high - m'.gas) (by omega) m' rfl
      constructor
      · intro hm
        rw [(hpaced high).cycle_eq (s := s.withLimit high) hm]
        exact hround.metered hm
      · intro hm
        rw [(hpaced low).cycle_eq (s := s.withLimit low) hm,
          (hpaced high).cycle_eq (s := s.withLimit high) (Nat.le_trans hm hle)]
        exact hround.truncated hm

end Laws

/-!
### Expressions

Each node of an expression is a tick and then an action on the values of its operands.
-/

namespace Machine

variable (s : Settings) (m : Machine)

theorem eval_literal (type : ValueType) (token : Token) (bits : List Token) :
    m.eval s (.literal type token bits) = m.tick s fun m => (literalValue type token bits, m) := by
  by_cases h : s.gasLimit < m.gas + 1 <;> simp [eval, Expr.eval, metered, tick, h]

theorem eval_var (token : Token) (chain : List Token) :
    m.eval s (.var token chain) = m.tick s fun m => (variableValue m.scopes token chain, m) := by
  by_cases h : s.gasLimit < m.gas + 1 <;> simp [eval, Expr.eval, metered, tick, h]

theorem eval_constant (c : Constant) (token : Token) :
    m.eval s (.constant c token) = m.tick s fun m => (.ok c.value, m) := by
  by_cases h : s.gasLimit < m.gas + 1 <;> simp [eval, Expr.eval, metered, tick, h]

theorem eval_unary (op : UnaryOp) (token : Token) (operand : Expr) :
    m.eval s (.unary op token operand) = m.tick s fun m =>
      Outcome.andThen (m.eval s operand) fun v m =>
        ((op.apply v).mapError (.ofOperation token), m) := by
  by_cases h : s.gasLimit < m.gas + 1
  · simp [eval, Expr.eval, metered, tick, h]
  · simp only [eval, Expr.eval, metered, tick, h, if_false, Outcome.andThen]
    obtain ⟨_ | v, gas⟩ := operand.eval s m.scopes (m.gas + 1) <;> rfl

theorem eval_binary (op : BinaryOp) (token : Token) (left right : Expr) :
    m.eval s (.binary op token left right) = m.tick s fun m =>
      Outcome.andThen (m.eval s left) fun l m =>
        Outcome.andThen (m.eval s right) fun r m =>
          ((op.apply s.maxStringLength l r).mapError (.ofOperation token), m) := by
  by_cases h : s.gasLimit < m.gas + 1
  · simp [eval, Expr.eval, metered, tick, h]
  · simp only [eval, Expr.eval, metered, tick, h, if_false, Outcome.andThen]
    obtain ⟨_ | l, gas⟩ := left.eval s m.scopes (m.gas + 1)
    · rfl
    · simp only
      obtain ⟨_ | r, gas⟩ := right.eval s m.scopes gas <;> rfl

end Machine

theorem mapError_ne_gasExhausted {ε α : Type} {f : ε → EvalError}
    (hf : ∀ e limit, f e ≠ .gasExhausted limit) (r : Except ε α) (limit : Nat) :
    r.mapError f ≠ .error (.gasExhausted limit) := by
  intro h
  cases r with
  | error e => exact hf e limit (Except.error.inj h)
  | ok a => cases h

theorem ofOperation_ne_gasExhausted (token : Token) (fault : OperationFault) (limit : Nat) :
    EvalError.ofOperation token fault ≠ .gasExhausted limit := by
  cases fault <;> simp [EvalError.ofOperation]

theorem variableValue_ne_gasExhausted (vars : Scopes) (token : Token) (chain : List Token)
    (limit : Nat) : variableValue vars token chain ≠ .error (.gasExhausted limit) := by
  rw [variableValue]
  split <;> simp

theorem Expr.truncates (s : Settings) (e : Expr) :
    Truncates 1 fun limit m => m.eval (s.withLimit limit) e := by
  induction e with
  | literal type token bits =>
      simp only [Machine.eval_literal]
      exact .tick s (.of_result _ (mapError_ne_gasExhausted (by simp) _))
  | var token chain =>
      simp only [Machine.eval_var]
      exact .tick s (.of_effect _ fun m =>
        .of_result (variableValue_ne_gasExhausted m.scopes token chain))
  | constant c token =>
      simp only [Machine.eval_constant]
      exact .tick s (.ok c.value)
  | unary op token operand ih =>
      simp only [Machine.eval_unary]
      refine .tick s (ih.weaken.andThen fun v => ?_)
      exact .of_result _ (mapError_ne_gasExhausted (ofOperation_ne_gasExhausted token) _)
  | binary op token left right ihl ihr =>
      simp only [Machine.eval_binary]
      refine .tick s (ihl.weaken.andThen fun l => ihr.weaken.andThen fun r => ?_)
      exact .of_result ((op.apply s.maxStringLength l r).mapError (.ofOperation token))
        (mapError_ne_gasExhausted (ofOperation_ne_gasExhausted token) _)

theorem truncates_evalAs {α : Type} (s : Settings) (take? : Value → Option α)
    (mismatch : ValueType → Mismatch) (e : Expr) :
    Truncates 1 fun limit m => m.evalAs (s.withLimit limit) take? mismatch e := by
  refine (e.truncates s).andThen fun v => ?_
  rcases take? v with _ | a
  · exact .of_result _ (by simp)
  · exact .ok a

/-!
### Statements

What a statement does besides evaluating is done without asking for gas, so the tick before it and
the ticks of its expressions are the places where a limit can cut.
-/

/-- Doing one thing more. -/
theorem Gasless.of_effects {m m' : Machine} {a : Signal} {effect : Effect}
    (hgas : m'.gas = m.gas) (heffects : m'.world.effects = effect :: m.world.effects) :
    Gasless m (.ok a, m') := by
  refine ⟨hgas, ?_, by simp⟩
  rw [World.trace, World.trace, heffects, List.reverse_cons]
  exact List.prefix_append _ _

theorem gasless_assign (type : ValueType) (token : Token) (chain : List Token) (v : Value)
    (m : Machine) : Gasless m (m.assign type token chain v) := by
  rw [Machine.assign]
  split
  · exact ⟨rfl, List.prefix_refl _, by simp⟩
  · exact .of_result (by simp)

theorem gasless_command (token : Token) (m : Machine) : Gasless m (m.command token) := by
  rw [Machine.command]
  split
  · next world hexecute =>
    exact .of_effects rfl (congrArg World.effects (World.act_of_execute hexecute))
  · exact .of_result (by simp)
  · exact .of_result (by simp)

theorem truncates_place (s : Settings) (x y z : Expr) (template : Symbol) :
    Truncates 1 fun limit m => m.place (s.withLimit limit) x y z template := by
  refine (truncates_evalAs s _ _ x).andThen fun x => ?_
  refine (truncates_evalAs s _ _ y).weaken.andThen fun y => ?_
  refine (truncates_evalAs s _ _ z).weaken.andThen fun z => ?_
  exact .of_effect _ fun m => .of_effects rfl rfl

theorem Truncates.ifNormal {rest : Nat → Machine → Outcome Signal} (h : Truncates 0 rest)
    (signal : Signal) :
    Truncates 0 fun limit m => if signal.isNormal then rest limit m else (.ok signal, m) :=
  .ite _ h (.ok signal)

mutual

theorem Stmt.truncates (s : Settings) :
    ∀ stmt : Stmt, Truncates 1 fun limit m => stmt.exec (s.withLimit limit) m
  | .assign type token chain value => by
      simp only [Stmt.exec]
      exact .tick s ((value.truncates s).weaken.andThen fun v =>
        .of_effect _ (gasless_assign type token chain v))
  | .command token => by
      simp only [Stmt.exec]
      exact .tick s (.of_effect _ (gasless_command token))
  | .stop _ => by
      simp only [Stmt.exec]
      exact .tick s (.ok _)
  | .breakLoop token => by
      simp only [Stmt.exec]
      exact .tick s (.ok _)
  | .continueLoop token => by
      simp only [Stmt.exec]
      exact .tick s (.ok _)
  | .print _ value => by
      simp only [Stmt.exec]
      exact .tick s ((value.truncates s).weaken.andThen fun v =>
        .of_effect _ fun m => .of_effects rfl rfl)
  | .goto token target => by
      simp only [Stmt.exec]
      refine .tick s (.ite (s.gotoEnabled = true) ?_
        (.of_result (.error (.gotoDisabled token)) (by simp)))
      exact (truncates_evalAs s _ _ target).weaken.andThen fun n => .ok _
  | .place _ x y z _ template => by
      simp only [Stmt.exec]
      exact .tick s (truncates_place s x y z template).weaken
  | .ifElse _ condition yes no => by
      simp only [Stmt.exec]
      refine .tick s ((truncates_evalAs s _ _ condition).weaken.andThen fun holds => ?_)
      exact .ite _ (Stmt.truncatesAll s yes).inBlock (Stmt.truncatesElse s no)
  | .whileLoop token condition body => by
      simp only [Stmt.exec_whileLoop]
      exact .tick s (.cycle s (truncates_evalAs s _ _ condition)
        (Stmt.truncatesAll s body).inBlock (.ok _))
  | .forLoop token init condition increment body => by
      simp only [Stmt.exec_forLoop]
      refine .tick s (.inBlock ((Stmt.truncates s init).weaken.andThen fun signal => ?_))
      refine .ifNormal (.cycle s (truncates_evalAs s _ _ condition)
        (Stmt.truncatesAll s body).inBlock ?_) signal
      simp only [Stmt.execAll_singleton]
      exact (Stmt.truncates s increment).weaken

theorem Stmt.truncatesAll (s : Settings) :
    ∀ stmts : List Stmt, Truncates 0 fun limit m => Stmt.execAll (s.withLimit limit) stmts m
  | [] => .ok _
  | stmt :: rest => by
      simp only [Stmt.execAll_cons]
      exact (Stmt.truncates s stmt).weaken.andThen (Stmt.truncatesAll s rest).ifNormal

theorem Stmt.truncatesElse (s : Settings) :
    ∀ no : Option (List Stmt), Truncates 0 fun limit m => Stmt.execElse (s.withLimit limit) no m
  | none => .ok _
  | some block => by
      simp only [Stmt.execElse]
      exact (Stmt.truncatesAll s block).inBlock

end

namespace Stmt

variable (s : Settings)

theorem spends (stmt : Stmt) : Machine.Spends s.gasLimit 1 (stmt.exec s) :=
  (stmt.truncates s).spends s.gasLimit

theorem spendsAll (stmts : List Stmt) : Machine.Spends s.gasLimit 0 (execAll s stmts) :=
  (truncatesAll s stmts).spends s.gasLimit

theorem spendsBlock (stmts : List Stmt) :
    Machine.Spends s.gasLimit 0 fun m => m.inBlock fun m => execAll s stmts m :=
  (truncatesAll s stmts).inBlock.spends s.gasLimit

theorem spends_condition (statement : TokenKind) (e : Expr) :
    Machine.Spends s.gasLimit 1 fun m => m.condition s statement e :=
  (truncates_evalAs s _ _ e).spends s.gasLimit

/-- The loop of a statement is a round of itself. -/
theorem cycle_eq {s : Settings} {statement : TokenKind} {condition : Expr} {body after : List Stmt}
    {m : Machine} (hm : m.gas ≤ s.gasLimit) :
    cycle s statement condition body after m =
      Machine.round (fun m => m.condition s statement condition)
        (fun m => m.inBlock fun m => execAll s body m) (fun m => execAll s after m)
        (cycle s statement condition body after) m :=
  Machine.Paced.cycle_eq
    ⟨spends_condition s statement condition, spendsBlock s body, spendsAll s after⟩ hm

end Stmt

/-!
### The root

Each statement of the root uses gas, so the root too has always a round left.
-/

namespace Program

/-- Any two numbers of statements that are above the gas left do the same. -/
theorem runFrom_eq_runFrom {s : Settings} (program : Program) {n k : Nat} {stmts : List Stmt}
    {m : Machine} (hm : m.gas ≤ s.gasLimit) (hn : s.gasLimit - m.gas < n)
    (hk : s.gasLimit - m.gas < k) :
    program.runFrom s n stmts m = program.runFrom s k stmts m := by
  induction n generalizing k stmts m with
  | zero => exact absurd hn (Nat.not_lt_zero _)
  | succ n ih =>
      cases k with
      | zero => exact absurd hk (Nat.not_lt_zero _)
      | succ k =>
          cases stmts with
          | nil => rfl
          | cons stmt rest =>
              rw [runFrom_cons, runFrom_cons]
              rcases hexec : stmt.exec s m with ⟨_ | signal, m'⟩
              · rfl
              · obtain ⟨hlt, hle⟩ := stmt.spends s hexec hm
                simp only [Outcome.andThen, proceed]
                split
                · exact ih hle (by omega) (by omega)
                · rfl
                · rfl

theorem runRest_cons {s : Settings} (program : Program) (stmt : Stmt) (rest : List Stmt)
    {m : Machine} (hm : m.gas ≤ s.gasLimit) :
    program.runRest s (stmt :: rest) m =
      Outcome.andThen (stmt.exec s m) (program.proceed (program.runRest s) rest) := by
  rw [runRest, Machine.rounds, runFrom_cons]
  rcases hexec : stmt.exec s m with ⟨_ | signal, m'⟩
  · rfl
  · obtain ⟨hlt, hle⟩ := stmt.spends s hexec hm
    simp only [Outcome.andThen, proceed]
    split
    · exact program.runFrom_eq_runFrom hle (by omega) (Nat.lt_succ_self _)
    · rfl
    · rfl

theorem follow_ne_gasExhausted (program : Program) (rest : List Stmt) (signal : Signal)
    (limit : Nat) : program.follow rest signal ≠ .error (.gasExhausted limit) := by
  cases signal with
  | goto token target =>
      rw [follow]
      split <;> simp
  | normal => simp [follow]
  | stop => simp [follow]
  | breakLoop token => simp [follow]
  | continueLoop token => simp [follow]

theorem truncatesAt_proceed (program : Program) (rest : List Stmt) (signal : Signal)
    {next : Nat → List Stmt → Machine → Outcome Unit} {low high : Nat} {m : Machine}
    (hnext : ∀ stmts, TruncatesAt low high 0 (fun limit m => next limit stmts m) m) :
    TruncatesAt low high 0 (fun limit m => program.proceed (next limit) rest signal m) m := by
  simp only [proceed]
  split
  · exact hnext _
  · exact .ok ()
  · next e hfollow =>
      refine .of_effect (fun m => (.error e, m)) (.of_result fun limit herror => ?_)
      cases herror
      exact program.follow_ne_gasExhausted rest signal limit hfollow

theorem truncates_runRest (s : Settings) (program : Program) (stmts : List Stmt) :
    Truncates 0 fun limit m => program.runRest (s.withLimit limit) stmts m := by
  intro low high hle m
  -- As for a loop, the induction is on the gas that is left; after a jump the statements are others.
  induction hleft : high - m.gas using Nat.strongRecOn generalizing stmts m with
  | ind left ih =>
      cases stmts with
      | nil => exact .ok ()
      | cons stmt rest =>
          have hstep : TruncatesAt low high 0
              (fun limit m => Outcome.andThen (stmt.exec (s.withLimit limit) m) fun signal m =>
                program.proceed (program.runRest (s.withLimit limit)) rest signal m) m := by
            refine ((stmt.truncates s hle m).andThen (fun {signal m'} hm hexec => ?_) hle).weaken
            obtain ⟨hlt, hhigh⟩ := (stmt.truncates s).spends high hexec hm
            exact truncatesAt_proceed program rest signal fun stmts =>
              ih (high - m'.gas) (by omega) stmts m' rfl
          constructor
          · intro hm
            rw [program.runRest_cons (s := s.withLimit high) stmt rest hm]
            exact hstep.metered hm
          · intro hm
            rw [program.runRest_cons (s := s.withLimit low) stmt rest hm,
              program.runRest_cons (s := s.withLimit high) stmt rest (Nat.le_trans hm hle)]
            exact hstep.truncated hm

theorem truncates_run (s : Settings) (program : Program) :
    Truncates 0 fun limit m => program.run (s.withLimit limit) m :=
  (program.truncates_runRest s program.body).inBlock

end Program

end CellScript
