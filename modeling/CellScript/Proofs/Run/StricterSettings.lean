/-
Module: CellScript.Proofs.Run.StricterSettings
Purpose: What a lower limit on texts, or a ban on jumps, does to a run: nothing, or it ends the run
  with its own error after a part of the effects.
Main exports: Settings.Stricter, Settings.Refuses, Machine.Grows, Outcome.Curbed, Machine.Curbs,
  Stmt.curbs, Program.curbs_run
-/
import CellScript.Proofs.Run.Effects
import CellScript.Proofs.Run.GasLimit
import CellScript.Proofs.Run.Law

namespace CellScript

/-- The same gas, texts that are at most as long, and jumps only where the others allow them. -/
structure Settings.Stricter (strict lax : Settings) : Prop where
  gasLimit : strict.gasLimit = lax.gasLimit
  maxStringLength : strict.maxStringLength ≤ lax.maxStringLength
  gotoEnabled : strict.gotoEnabled = true → lax.gotoEnabled = true

/-- The errors of settings at what others allow. -/
inductive Settings.Refuses (strict lax : Settings) : EvalError → Prop where
  | stringTooLong {token : Token} {length : Nat} :
      strict.maxStringLength < lax.maxStringLength → strict.maxStringLength < length →
      Refuses strict lax (.stringTooLong token length strict.maxStringLength)
  | gotoDisabled {token : Token} :
      strict.gotoEnabled = false → lax.gotoEnabled = true →
      Refuses strict lax (.gotoDisabled token)

/-!
### Effects are only added

A run leads from a world to the one that the effects of the run make of it. So what was done when a
run was refused is also done by the run that goes on.
-/

namespace Machine

/-- What was done before stays done, and more may be done. -/
def Grows (m m' : Machine) : Prop :=
  ∃ effects, m'.world = m.world.after effects

theorem Grows.trans {m₁ m₂ m₃ : Machine} (h : Grows m₁ m₂) (h' : Grows m₂ m₃) : Grows m₁ m₃ := by
  obtain ⟨first, hfirst⟩ := h
  obtain ⟨second, hsecond⟩ := h'
  exact ⟨first ++ second, by rw [hsecond, hfirst, World.after_append]⟩

theorem law_grows : Law Grows where
  refl _ := ⟨[], rfl⟩
  trans := Grows.trans
  gas _ _ := ⟨[], rfl⟩
  emit _ text := ⟨[.emitted text], rfl⟩
  execute _ pos _ h := ⟨[.executed pos], World.act_of_execute h⟩
  write _ pos symbol := ⟨[.wrote pos symbol], rfl⟩
  assign _ _ _ := ⟨[], rfl⟩
  block h := h

end Machine

/-!
### Two runs side by side

The first run is the second, or it was refused something and has done a part of what the second
does.
-/

/-- The first outcome is the second, or it is a refusal on the way to it. -/
def Outcome.Curbed {α : Type} (refused : EvalError → Prop) (short long : Outcome α) : Prop :=
  short = long ∨ ∃ e m, short = (.error e, m) ∧ refused e ∧ m.Grows long.2

namespace Machine

/-- From every state the first is curbed by refusals, and the second only adds to what was done. -/
structure Curbs {α : Type} (refused : EvalError → Prop) (strict lax : Machine → Outcome α) :
    Prop where
  curbed : ∀ m, (strict m).Curbed refused (lax m)
  grows : Moves Grows lax

namespace Curbs

variable {α β : Type} {refused : EvalError → Prop} {f f' : Machine → Outcome α}
  {s s' : Settings}

/-- What no setting changes is not curbed. -/
theorem same (h : Moves Grows f) : Curbs refused f f :=
  ⟨fun _ => .inl rfl, h⟩

theorem result (r : Except EvalError α) : Curbs refused (fun m => (r, m)) fun m => (r, m) :=
  .same (law_grows.result r)

/-- A refusal in place of anything that only adds to what was done. -/
theorem refusal {e : EvalError} (he : refused e) (h : Moves Grows f) :
    Curbs refused (fun m => (.error e, m)) f :=
  ⟨fun m => .inr ⟨e, m, rfl, he, h m⟩, h⟩

theorem andThen (h : Curbs refused f' f) {next next' : α → Machine → Outcome β}
    (hnext : ∀ a, Curbs refused (next' a) (next a)) :
    Curbs refused (fun m => (f' m).andThen next') fun m => (f m).andThen next := by
  refine ⟨fun m => ?_, law_grows.andThen h.grows fun a => (hnext a).grows⟩
  rcases h.curbed m with heq | ⟨e, m', heq, he, hgrows⟩
  · simp only [heq]
    rcases f m with ⟨e | a, m'⟩
    · exact .inl rfl
    · exact (hnext a).curbed m'
  · simp only [heq]
    refine .inr ⟨e, m', rfl, he, ?_⟩
    -- the other run may go on from where this one was refused
    rcases hlong : f m with ⟨e' | a, m''⟩
    · rw [hlong] at hgrows
      exact hgrows
    · rw [hlong] at hgrows
      exact law_grows.trans hgrows ((hnext a).grows m'')

theorem ite (c : Prop) [Decidable c] {g g' : Machine → Outcome α} (hf : Curbs refused f' f)
    (hg : Curbs refused g' g) :
    Curbs refused (fun m => if c then f' m else g' m) fun m => if c then f m else g m := by
  by_cases hc : c
  · simpa only [if_pos hc] using hf
  · simpa only [if_neg hc] using hg

theorem tick (hgas : s'.gasLimit = s.gasLimit) (h : Curbs refused f' f) :
    Curbs refused (fun m => m.tick s' f') fun m => m.tick s f := by
  refine ⟨fun m => ?_, law_grows.tick h.grows⟩
  by_cases hlt : m.gas < s.gasLimit
  · simp only [tick_of_lt hlt, tick_of_lt (hgas ▸ hlt : m.gas < s'.gasLimit)]
    exact h.curbed m.spend
  · have hle := Nat.le_of_not_lt hlt
    simp only [tick_of_le hle, tick_of_le (hgas ▸ hle : s'.gasLimit ≤ m.gas), hgas]
    exact .inl rfl

theorem inBlock (h : Curbs refused f' f) :
    Curbs refused (fun m => m.inBlock f') fun m => m.inBlock f := by
  refine ⟨fun m => ?_, law_grows.inBlock h.grows⟩
  rcases h.curbed m.enter with heq | ⟨e, m', heq, he, hgrows⟩
  · exact .inl (congrArg (Outcome.leave · m) heq)
  · exact .inr ⟨e, _, congrArg (Outcome.leave · m) heq, he, hgrows⟩

theorem ifNormal {f f' next next' : Machine → Outcome Signal} (h : Curbs refused f' f)
    (hnext : Curbs refused next' next) :
    Curbs refused
      (fun m => (f' m).andThen fun signal m =>
        if signal.isNormal then next' m else (.ok signal, m))
      fun m => (f m).andThen fun signal m =>
        if signal.isNormal then next m else (.ok signal, m) :=
  h.andThen fun signal => ite _ hnext (result (.ok signal))

section Loop

variable {condition condition' : Machine → Outcome Bool}
  {body body' after after' next next' : Machine → Outcome Signal}

theorem round (hcondition : Curbs refused condition' condition) (hbody : Curbs refused body' body)
    (hafter : Curbs refused after' after) (hnext : Curbs refused next' next) :
    Curbs refused (Machine.round condition' body' after' next')
      (Machine.round condition body after next) := by
  apply hcondition.andThen
  intro holds
  refine ite _ (hbody.andThen ?_) (result (.ok Signal.normal))
  intro signal
  cases signal with
  | normal => exact hafter.ifNormal hnext
  | continueLoop token => exact hafter.ifNormal hnext
  | stop => exact result _
  | breakLoop token => exact result _
  | goto token target => exact result _

/-- With the same gas both loops have the same number of rounds. -/
theorem cycle (hgas : s'.gasLimit = s.gasLimit) (hcondition : Curbs refused condition' condition)
    (hbody : Curbs refused body' body) (hafter : Curbs refused after' after) :
    Curbs refused (Machine.cycle s' condition' body' after')
      (Machine.cycle s condition body after) := by
  have hloop : ∀ fuel, Curbs refused (loop s' condition' body' after' fuel)
      (loop s condition body after fuel) := by
    intro fuel
    induction fuel with
    | zero =>
        have hout : loop s' condition' body' after' 0 = loop s condition body after 0 := by
          funext m
          rw [loop, loop, hgas]
        rw [hout]
        exact result _
    | succ fuel ih =>
        have hround := round hcondition hbody hafter ih
        refine ⟨fun m => ?_, fun m => ?_⟩
        · rw [loop_succ, loop_succ]
          exact hround.curbed m
        · rw [loop_succ]
          exact hround.grows m
  refine ⟨fun m => ?_, fun m => (hloop (m.rounds s)).grows m⟩
  rw [Machine.cycle, Machine.cycle, rounds, rounds, hgas]
  exact (hloop _).curbed m

end Loop

end Curbs

end Machine

/-!
### Operators

Only the operators that build texts look at the longest text, and all they do with it is refuse.
-/

namespace BinaryOp

/-- A lower limit leaves an answer as it is, or refuses a text that is longer. -/
def Shortened (low high : Nat) (short long : Except OperationFault Value) : Prop :=
  short = long ∨ low < high ∧ ∃ length, low < length ∧ short = .error (.stringTooLong length low)

variable {low high : Nat}

theorem Shortened.of_length (h : low ≤ high) (length : Nat) (r : Except OperationFault Value) :
    Shortened low high (if low < length then .error (.stringTooLong length low) else r)
      (if high < length then .error (.stringTooLong length high) else r) := by
  by_cases hlow : low < length
  · rcases Nat.eq_or_lt_of_le h with heq | hlt
    · rw [heq]
      exact .inl rfl
    · rw [if_pos hlow]
      exact .inr ⟨hlt, length, hlow, rfl⟩
  · have hhigh : ¬high < length := fun hlt => hlow (Nat.lt_of_le_of_lt h hlt)
    rw [if_neg hlow, if_neg hhigh]
    exact .inl rfl

theorem shortened_sum (h : low ≤ high) (l r : Value) :
    Shortened low high (sum low l r) (sum high l r) := by
  unfold sum
  split
  · exact .inl rfl
  · split
    · exact .of_length h _ _
    · exact .of_length h _ _
    · exact .inl rfl

theorem shortened_product (h : low ≤ high) (l r : Value) :
    Shortened low high (product low l r) (product high l r) := by
  unfold product
  split
  · exact .of_length h _ _
  · exact .inl rfl

theorem shortened_apply (h : low ≤ high) (op : BinaryOp) (l r : Value) :
    Shortened low high (op.apply low l r) (op.apply high l r) := by
  cases op with
  | add => exact shortened_sum h l r
  | mul => exact shortened_product h l r
  | _ => exact .inl rfl

end BinaryOp

/-!
### Expressions, statements and programs
-/

namespace Machine

variable {s s' : Settings}

theorem curbs_apply (h : s'.Stricter s) (op : BinaryOp) (token : Token) (l r : Value) :
    Curbs (s'.Refuses s)
      (fun m => ((op.apply s'.maxStringLength l r).mapError (.ofOperation token), m))
      fun m => ((op.apply s.maxStringLength l r).mapError (.ofOperation token), m) := by
  rcases BinaryOp.shortened_apply h.maxStringLength op l r with heq | ⟨hlt, length, hlong, heq⟩
  · rw [heq]
    exact .result _
  · rw [heq]
    exact .refusal (.stringTooLong hlt hlong) (law_grows.result _)

theorem curbs_eval (h : s'.Stricter s) (e : Expr) :
    Curbs (s'.Refuses s) (fun m => m.eval s' e) fun m => m.eval s e := by
  induction e with
  | literal type token bits =>
      simp only [eval_literal]
      exact .tick h.gasLimit (.result _)
  | var token chain =>
      simp only [eval_var]
      exact .tick h.gasLimit (.same fun m => law_grows.refl m)
  | constant c token =>
      simp only [eval_constant]
      exact .tick h.gasLimit (.result _)
  | unary op token operand ih =>
      simp only [eval_unary]
      exact .tick h.gasLimit (ih.andThen fun v => .result _)
  | binary op token left right ihleft ihright =>
      simp only [eval_binary]
      exact .tick h.gasLimit
        (ihleft.andThen fun l => ihright.andThen fun r => curbs_apply h op token l r)

theorem curbs_evalAs {α : Type} (h : s'.Stricter s) (take? : Value → Option α)
    (mismatch : ValueType → Mismatch) (e : Expr) :
    Curbs (s'.Refuses s) (fun m => m.evalAs s' take? mismatch e)
      fun m => m.evalAs s take? mismatch e := by
  refine (curbs_eval h e).andThen fun v => ?_
  rcases take? v with _ | a <;> exact .result _

theorem curbs_place (h : s'.Stricter s) (x y z : Expr) (template : Symbol) :
    Curbs (s'.Refuses s) (fun m => m.place s' x y z template) fun m => m.place s x y z template :=
  (curbs_evalAs h _ _ x).andThen fun x =>
    (curbs_evalAs h _ _ y).andThen fun y =>
      (curbs_evalAs h _ _ z).andThen fun z => .same fun m => law_grows.write m ⟨x, y, z⟩ template

/-- Where only the others allow jumps, the jump is refused before its target is known. -/
theorem curbs_goto (h : s'.Stricter s) (token : Token) (target : Expr) :
    Curbs (s'.Refuses s)
      (fun m => if s'.gotoEnabled then
        Outcome.andThen (m.integer s' .gotoTarget target) fun n m => (.ok (Signal.goto token n), m)
        else (.error (.gotoDisabled token), m))
      fun m => if s.gotoEnabled then
        Outcome.andThen (m.integer s .gotoTarget target) fun n m => (.ok (Signal.goto token n), m)
        else (.error (.gotoDisabled token), m) := by
  have hjump := (curbs_evalAs h Value.int? (.integer .gotoTarget) target).andThen
    fun n => .result (.ok (Signal.goto token n))
  cases hstrict : s'.gotoEnabled with
  | true =>
      simp only [h.gotoEnabled hstrict, if_true]
      exact hjump
  | false =>
      cases hlax : s.gotoEnabled with
      | true =>
          simp only [Bool.false_eq_true, if_false, if_true]
          exact .refusal (.gotoDisabled hstrict hlax) hjump.grows
      | false => exact .result _

end Machine

open Machine

namespace Stmt

variable {s s' : Settings}

theorem curbs_cycle (h : s'.Stricter s) (statement : TokenKind) (condition : Expr)
    {body after : List Stmt} (hbody : Curbs (s'.Refuses s) (execAll s' body) (execAll s body))
    (hafter : Curbs (s'.Refuses s) (execAll s' after) (execAll s after)) :
    Curbs (s'.Refuses s) (cycle s' statement condition body after)
      (cycle s statement condition body after) :=
  .cycle h.gasLimit (curbs_evalAs h _ _ condition) hbody.inBlock hafter

mutual

/-- A statement under stricter settings. -/
theorem curbs (h : s'.Stricter s) :
    ∀ stmt : Stmt, Curbs (s'.Refuses s) (fun m => stmt.exec s' m) fun m => stmt.exec s m
  | .assign type token chain value => by
      simp only [exec]
      exact .tick h.gasLimit ((curbs_eval h value).andThen fun v =>
        .same (law_grows.assignment type token chain v))
  | .command token => by
      simp only [exec]
      exact .tick h.gasLimit (.same (law_grows.command token))
  | .stop _ => by
      simp only [exec]
      exact .tick h.gasLimit (.result _)
  | .breakLoop _ => by
      simp only [exec]
      exact .tick h.gasLimit (.result _)
  | .continueLoop _ => by
      simp only [exec]
      exact .tick h.gasLimit (.result _)
  | .print _ value => by
      simp only [exec]
      exact .tick h.gasLimit ((curbs_eval h value).andThen fun v =>
        .same fun m => law_grows.emit m v.text)
  | .goto token target => by
      simp only [exec]
      exact .tick h.gasLimit (curbs_goto h token target)
  | .place _ x y z _ template => by
      simp only [exec]
      exact .tick h.gasLimit (curbs_place h x y z template)
  | .ifElse _ condition yes no => by
      simp only [exec]
      exact .tick h.gasLimit ((curbs_evalAs h _ _ condition).andThen fun holds =>
        .ite _ (curbsAll h yes).inBlock (curbsElse h no))
  | .whileLoop _ condition body => by
      simp only [exec_whileLoop]
      exact .tick h.gasLimit (curbs_cycle h _ condition (curbsAll h body) (.result _))
  | .forLoop _ init condition increment body => by
      simp only [exec_forLoop]
      have hafter : Curbs (s'.Refuses s) (execAll s' [increment]) (execAll s [increment]) := by
        have hincrement := curbs h increment
        simpa only [← execAll_singleton] using hincrement
      exact .tick h.gasLimit ((curbs h init).ifNormal
        (curbs_cycle h _ condition (curbsAll h body) hafter)).inBlock

theorem curbsAll (h : s'.Stricter s) :
    ∀ stmts : List Stmt, Curbs (s'.Refuses s) (execAll s' stmts) (execAll s stmts)
  | [] => .result (.ok Signal.normal)
  | stmt :: rest => by
      have hcons := (curbs h stmt).ifNormal (curbsAll h rest)
      simpa only [← execAll_cons] using hcons

theorem curbsElse (h : s'.Stricter s) :
    ∀ no : Option (List Stmt), Curbs (s'.Refuses s) (execElse s' no) (execElse s no)
  | none => .result (.ok Signal.normal)
  | some block => (curbsAll h block).inBlock

end

end Stmt

namespace Program

variable {s s' : Settings}

/-- The roots take the same way, as long as they do not differ in a statement. -/
theorem curbs_runFrom (h : s'.Stricter s) (program : Program) (fuel : Nat) (stmts : List Stmt) :
    Curbs (s'.Refuses s) (program.runFrom s' fuel stmts) (program.runFrom s fuel stmts) := by
  induction fuel generalizing stmts with
  | zero =>
      cases stmts with
      | nil => exact .result (.ok ())
      | cons stmt rest =>
          have hout : program.runFrom s' 0 (stmt :: rest) = program.runFrom s 0 (stmt :: rest) := by
            funext m
            rw [runFrom, runFrom, h.gasLimit]
          rw [hout]
          exact .result _
  | succ fuel ih =>
      cases stmts with
      | nil => exact .result (.ok ())
      | cons stmt rest =>
          have hnext : ∀ signal, Curbs (s'.Refuses s)
              (program.proceed (program.runFrom s' fuel) rest signal)
              (program.proceed (program.runFrom s fuel) rest signal) := by
            intro signal
            unfold proceed
            rcases program.follow rest signal with e | _ | stmts
            · exact .result (.error e)
            · exact .result (.ok ())
            · exact ih stmts
          have hcons := (Stmt.curbs h stmt).andThen hnext
          simpa only [← runFrom_cons] using hcons

/-- A program under stricter settings. -/
theorem curbs_run (h : s'.Stricter s) (program : Program) :
    Curbs (s'.Refuses s) (program.run s') (program.run s) := by
  refine .inBlock ⟨fun m => ?_, law_grows.root s program⟩
  rw [rounds, rounds, h.gasLimit]
  exact (curbs_runFrom h program _ program.body).curbed m

end Program

end CellScript
