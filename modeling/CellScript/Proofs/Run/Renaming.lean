/-
Module: CellScript.Proofs.Run.Renaming
Purpose: A variable is known by the length of its chain and by nothing else. If an injective map
  gives all chains other lengths, a run does the same as before, with its variables renamed.
Main exports: Program.rename, Program.IsRenaming, Machine.rename, EvalError.rename,
  Machine.Renames, Stmt.renames, Program.renames_run, Program.run_of_isRenaming
-/
import CellScript.Proofs.Run.Conduct
import CellScript.Proofs.Run.GasLimit

namespace CellScript

/-!
### Renamed programs

A renamed tree has its chains in one usual form, as their tokens do not matter. So renaming by the
identity forgets these tokens, and what differs in them only becomes equal.
-/

/-- A chain of a given length. -/
def indexChain (length : Nat) : List Token :=
  List.replicate length ⟨.varIndex, ⟨0, 0, 0⟩⟩

@[simp] theorem length_indexChain (length : Nat) : (indexChain length).length = length :=
  List.length_replicate

/-- The expression with chains of renamed lengths. -/
def Expr.rename (r : Nat → Nat) : Expr → Expr
  | .literal type token bits => .literal type token bits
  | .var token chain => .var token (indexChain (r chain.length))
  | .constant value token => .constant value token
  | .unary op token operand => .unary op token (operand.rename r)
  | .binary op token left right => .binary op token (left.rename r) (right.rename r)

theorem Expr.token_rename (r : Nat → Nat) (e : Expr) : (e.rename r).token = e.token := by
  cases e <;> rfl

mutual

/-- The statement with chains of renamed lengths. -/
def Stmt.rename (r : Nat → Nat) : Stmt → Stmt
  | .assign type token chain value =>
      .assign type token (indexChain (r chain.length)) (value.rename r)
  | .command token => .command token
  | .stop token => .stop token
  | .breakLoop token => .breakLoop token
  | .continueLoop token => .continueLoop token
  | .print token value => .print token (value.rename r)
  | .goto token target => .goto token (target.rename r)
  | .place token x y z templatePos template =>
      .place token (x.rename r) (y.rename r) (z.rename r) templatePos template
  | .ifElse token condition yes no =>
      .ifElse token (condition.rename r) (Stmt.renameAll r yes) (Stmt.renameElse r no)
  | .whileLoop token condition body =>
      .whileLoop token (condition.rename r) (Stmt.renameAll r body)
  | .forLoop token init condition increment body =>
      .forLoop token (init.rename r) (condition.rename r) (increment.rename r)
        (Stmt.renameAll r body)

/-- The statements with chains of renamed lengths. -/
def Stmt.renameAll (r : Nat → Nat) : List Stmt → List Stmt
  | [] => []
  | stmt :: rest => stmt.rename r :: Stmt.renameAll r rest

/-- The other branch of a condition with chains of renamed lengths. -/
def Stmt.renameElse (r : Nat → Nat) : Option (List Stmt) → Option (List Stmt)
  | none => none
  | some block => some (Stmt.renameAll r block)

end

theorem Stmt.renameAll_eq_map (r : Nat → Nat) (stmts : List Stmt) :
    Stmt.renameAll r stmts = stmts.map (Stmt.rename r) := by
  induction stmts with
  | nil => rfl
  | cons stmt rest ih => rw [Stmt.renameAll, ih, List.map_cons]

namespace Program

/-- The program with chains of renamed lengths. -/
def rename (r : Nat → Nat) (p : Program) : Program :=
  ⟨Stmt.renameAll r p.body⟩

/-- A program differs from another one only in its chains, and each chain has the renamed length. -/
def IsRenaming (r : Nat → Nat) (p p' : Program) : Prop :=
  p'.rename id = p.rename r

end Program

/-!
### Renamed states

Renaming keeps the order of the variables and the blocks that they belong to.
-/

/-- The variable with a renamed index. -/
def Binding.rename (r : Nat → Nat) (b : Binding) : Binding :=
  { b with index := r b.index }

namespace Scopes

/-- The variables with renamed indices. -/
def rename (r : Nat → Nat) (vars : Scopes) : Scopes :=
  { vars with bindings := vars.bindings.map (Binding.rename r) }

theorem rename_id (vars : Scopes) : vars.rename id = vars := by
  have hbindings : vars.bindings.map (Binding.rename id) = vars.bindings :=
    List.map_id vars.bindings
  rw [rename, hbindings]

theorem rename_exit (r : Nat → Nat) (vars : Scopes) (depth : Nat) :
    (vars.exit depth).rename r = (vars.rename r).exit depth := by
  have hfilter : (vars.bindings.map (Binding.rename r)).filter (fun b => b.depth ≤ depth) =
      (vars.bindings.filter fun b => b.depth ≤ depth).map (Binding.rename r) :=
    List.filter_map
  exact congrArg (Scopes.mk · depth) hfilter.symm

variable {r : Nat → Nat} (hr : Function.Injective r) (vars : Scopes) (index : Nat)
include hr

/-- Different indices stay different, so the same variable is found. -/
theorem get?_rename : (vars.rename r).get? (r index) = vars.get? index := by
  have hindex (b : Binding) : ((b.rename r).index == r index) = (b.index == index) :=
    Bool.eq_iff_iff.2 (by simp [Binding.rename, hr.eq_iff])
  simp only [get?, rename, List.find?_map, Function.comp_def, hindex, Option.map_map]
  rfl

theorem owns_rename (b : Binding) :
    (vars.rename r).owns (r index) (b.rename r) = vars.owns index b :=
  Bool.eq_iff_iff.2 (by simp [owns, rename, Binding.rename, hr.eq_iff])

theorem rename_assign (value : Value) :
    (vars.assign index value).rename r = (vars.rename r).assign (r index) value := by
  have hbindings : (vars.rename r).bindings = vars.bindings.map (Binding.rename r) := rfl
  have hany : (vars.rename r).bindings.any ((vars.rename r).owns (r index)) =
      vars.bindings.any (vars.owns index) := by
    simp only [hbindings, List.any_map, Function.comp_def, owns_rename hr]
  have hmap : (vars.bindings.map fun b => if vars.owns index b then { b with value } else b).map
      (Binding.rename r) =
      (vars.rename r).bindings.map fun b =>
        if (vars.rename r).owns (r index) b then { b with value } else b := by
    rw [hbindings, List.map_map, List.map_map]
    refine List.map_congr_left fun b _ => ?_
    simp only [Function.comp_apply, owns_rename hr]
    split <;> rfl
  rw [assign, assign, hany]
  split
  · exact congrArg (Scopes.mk · vars.depth) hmap
  · rfl

end Scopes

/-- The error with a renamed index, if it has one. -/
def EvalError.rename (r : Nat → Nat) : EvalError → EvalError
  | .undefinedVariable token index => .undefinedVariable token (r index)
  | e => e

/-- The state with renamed variables. Its gas and its world are the same. -/
def Machine.rename (r : Nat → Nat) (m : Machine) : Machine :=
  { m with scopes := m.scopes.rename r }

/-- The outcome with renamed variables, in an error too. -/
def Outcome.rename {α : Type} (r : Nat → Nat) (o : Outcome α) : Outcome α :=
  (o.1.mapError (.rename r), o.2.rename r)

theorem EvalError.rename_id (e : EvalError) : e.rename id = e := by
  cases e <;> rfl

theorem Machine.rename_id (m : Machine) : m.rename id = m := by
  rw [rename, Scopes.rename_id]

theorem Outcome.rename_id {α : Type} (o : Outcome α) : o.rename id = o := by
  obtain ⟨e | a, m⟩ := o
  · show ((.error (e.rename id), m.rename id) : Outcome α) = (.error e, m)
    rw [EvalError.rename_id, Machine.rename_id]
  · show ((.ok a, m.rename id) : Outcome α) = (.ok a, m)
    rw [Machine.rename_id]

/-- A block that is left keeps the counterparts of the variables that it kept. -/
theorem Outcome.rename_leave {α : Type} (r : Nat → Nat) (o : Outcome α) (m : Machine) :
    (o.leave m).rename r = (o.rename r).leave (m.rename r) := by
  obtain ⟨x, m'⟩ := o
  have hexit := Scopes.rename_exit r m'.scopes m.scopes.depth
  exact congrArg (fun scopes => (x.mapError (EvalError.rename r), { m' with scopes })) hexit

/-!
### Two runs side by side

The second run starts from the renamed state. All that it meets on its way is the renamed
counterpart of what the first one meets.
-/

namespace Machine

/-- From a renamed state the second leads to the renamed outcome of the first. -/
def Renames {α : Type} (r : Nat → Nat) (f f' : Machine → Outcome α) : Prop :=
  ∀ m, f' (m.rename r) = (f m).rename r

namespace Renames

variable {α β : Type} {r : Nat → Nat} {s : Settings} {f f' : Machine → Outcome α}

theorem ok (a : α) : Renames r (fun m => (.ok a, m)) fun m => (.ok a, m) :=
  fun _ => rfl

theorem error {e e' : EvalError} (h : e' = e.rename r) :
    Renames (α := α) r (fun m => (.error e, m)) fun m => (.error e', m) := by
  intro m
  rw [h]
  rfl

/-- The result of something that knows no variables. -/
theorem mapError {ε : Type} {x : Except ε α} {g : ε → EvalError}
    (h : ∀ fault, (g fault).rename r = g fault) :
    Renames r (fun m => (x.mapError g, m)) fun m => (x.mapError g, m) := by
  cases x with
  | ok a => exact ok a
  | error fault => exact error (h fault).symm

theorem andThen {next next' : α → Machine → Outcome β} (h : Renames r f f')
    (hnext : ∀ a, Renames r (next a) (next' a)) :
    Renames r (fun m => (f m).andThen next) fun m => (f' m).andThen next' := by
  intro m
  simp only [h m]
  obtain ⟨e | a, m'⟩ := f m
  · rfl
  · exact hnext a m'

theorem ite (c : Prop) [Decidable c] {g g' : Machine → Outcome α} (hf : Renames r f f')
    (hg : Renames r g g') :
    Renames r (fun m => if c then f m else g m) fun m => if c then f' m else g' m := by
  by_cases hc : c
  · simpa only [if_pos hc] using hf
  · simpa only [if_neg hc] using hg

theorem tick (h : Renames r f f') :
    Renames r (fun m => m.tick s f) fun m => m.tick s f' := by
  intro m
  show (m.rename r).tick s f' = (m.tick s f).rename r
  by_cases hgas : m.gas < s.gasLimit
  · rw [tick_of_lt hgas, tick_of_lt (m := m.rename r) hgas]
    exact h m.spend
  · have hle := Nat.le_of_not_lt hgas
    rw [tick_of_le hle, tick_of_le (m := m.rename r) hle]
    rfl

theorem inBlock (h : Renames r f f') :
    Renames r (fun m => m.inBlock f) fun m => m.inBlock f' := by
  intro m
  have henter : f' (m.rename r).enter = (f m.enter).rename r := h m.enter
  show (f' (m.rename r).enter).leave (m.rename r) = ((f m.enter).leave m).rename r
  rw [henter, Outcome.rename_leave]

/-! Going on only where control does, and loops. -/

theorem ifNormal {f f' next next' : Machine → Outcome Signal} (h : Renames r f f')
    (hnext : Renames r next next') :
    Renames r
      (fun m => (f m).andThen fun signal m => if signal.isNormal then next m else (.ok signal, m))
      fun m => (f' m).andThen fun signal m =>
        if signal.isNormal then next' m else (.ok signal, m) :=
  h.andThen fun signal => ite _ hnext (ok signal)

section Loop

variable {condition condition' : Machine → Outcome Bool}
  {body body' after after' next next' : Machine → Outcome Signal}

theorem round (hcondition : Renames r condition condition') (hbody : Renames r body body')
    (hafter : Renames r after after') (hnext : Renames r next next') :
    Renames r (Machine.round condition body after next)
      (Machine.round condition' body' after' next') := by
  apply hcondition.andThen
  intro holds
  refine ite _ (hbody.andThen ?_) (ok Signal.normal)
  intro signal
  cases signal with
  | normal => exact hafter.ifNormal hnext
  | continueLoop token => exact hafter.ifNormal hnext
  | stop => exact ok _
  | breakLoop token => exact ok _
  | goto token target => exact ok _

/-- Both loops have the same number of rounds, as their gas is the same. -/
theorem cycle (hcondition : Renames r condition condition') (hbody : Renames r body body')
    (hafter : Renames r after after') :
    Renames r (Machine.cycle s condition body after) (Machine.cycle s condition' body' after') := by
  have hloop : ∀ fuel, Renames r (loop s condition body after fuel)
      (loop s condition' body' after' fuel) := by
    intro fuel
    induction fuel with
    | zero => exact error rfl
    | succ fuel ih =>
        intro m
        rw [loop_succ, loop_succ]
        exact round hcondition hbody hafter ih m
  intro m
  exact hloop (m.rounds s) m

end Loop

end Renames

end Machine

/-!
### Expressions and actions

Only a variable that is read or set, and the error of one that is not there, have an index.
-/

namespace Machine.Renames

variable {r : Nat → Nat} {s : Settings}

theorem ofOperation_rename (token : Token) (fault : OperationFault) :
    (EvalError.ofOperation token fault).rename r = .ofOperation token fault := by
  cases fault <;> rfl

theorem variableValue (hr : Function.Injective r) (token : Token) (chain : List Token) :
    Renames r (fun m => (CellScript.variableValue m.scopes token chain, m))
      fun m => (CellScript.variableValue m.scopes token (indexChain (r chain.length)), m) := by
  intro m
  have hget : (m.rename r).scopes.get? (r chain.length) = m.scopes.get? chain.length :=
    Scopes.get?_rename hr m.scopes chain.length
  simp only [CellScript.variableValue, length_indexChain, hget]
  cases m.scopes.get? chain.length <;> rfl

/-- A renamed expression has the value of the expression, and fails where it fails. -/
theorem eval (hr : Function.Injective r) (e : Expr) :
    Renames r (fun m => m.eval s e) fun m => m.eval s (e.rename r) := by
  induction e with
  | literal type token bits =>
      simp only [Expr.rename, eval_literal]
      exact tick (mapError fun _ => rfl)
  | var token chain =>
      simp only [Expr.rename, eval_var]
      exact tick (variableValue hr token chain)
  | constant c token =>
      simp only [Expr.rename, eval_constant]
      exact tick (ok c.value)
  | unary op token operand ih =>
      simp only [Expr.rename, eval_unary]
      exact tick (ih.andThen fun v => mapError (ofOperation_rename token))
  | binary op token left right ihleft ihright =>
      simp only [Expr.rename, eval_binary]
      exact tick (ihleft.andThen fun l =>
        ihright.andThen fun v => mapError (ofOperation_rename token))

theorem evalAs {α : Type} (hr : Function.Injective r) (take? : Value → Option α)
    (mismatch : ValueType → Mismatch) (e : Expr) :
    Renames r (fun m => m.evalAs s take? mismatch e)
      fun m => m.evalAs s take? mismatch (e.rename r) := by
  unfold Machine.evalAs
  refine (eval hr e).andThen fun v => ?_
  rw [Expr.token_rename]
  rcases take? v with _ | a
  · exact error rfl
  · exact ok a

theorem assign (hr : Function.Injective r) (type : ValueType) (token : Token)
    (chain : List Token) (v : Value) :
    Renames r (fun m => m.assign type token chain v)
      fun m => m.assign type token (indexChain (r chain.length)) v := by
  unfold Machine.assign
  cases v.coerce? type with
  | none => exact error rfl
  | some v =>
      intro m
      have hassign := Scopes.rename_assign hr m.scopes chain.length v
      simp only [length_indexChain, Outcome.rename, Machine.rename, hassign]
      rfl

/-- A command gets the same answer, for the world is the same. -/
theorem command (token : Token) :
    Renames r (fun m => m.command token) fun m => m.command token := by
  intro m
  have hworld : (m.rename r).world = m.world := rfl
  show (m.rename r).command token = (m.command token).rename r
  rw [command_eq, command_eq, hworld]
  rcases m.world.host.answer m.world.effects token.pos with (_ | _) | _ <;> rfl

theorem place (hr : Function.Injective r) (x y z : Expr) (template : Symbol) :
    Renames r (fun m => m.place s x y z template)
      fun m => m.place s (x.rename r) (y.rename r) (z.rename r) template :=
  (evalAs hr _ _ x).andThen fun _ => (evalAs hr _ _ y).andThen fun _ =>
    (evalAs hr _ _ z).andThen fun _ _ => rfl

end Machine.Renames

open Machine (Renames)

/-! ### Statements -/

namespace Stmt

variable {r : Nat → Nat} {s : Settings}

mutual

/-- A renamed statement does from a renamed state what the statement does. -/
theorem renames (hr : Function.Injective r) :
    ∀ stmt : Stmt, Renames r (fun m => stmt.exec s m) fun m => (stmt.rename r).exec s m
  | .assign type token chain value => by
      simp only [rename, exec]
      exact .tick ((Renames.eval hr value).andThen (.assign hr type token chain))
  | .command token => by
      simp only [rename, exec]
      exact .tick (.command token)
  | .stop _ => by
      simp only [rename, exec]
      exact .tick (.ok _)
  | .breakLoop _ => by
      simp only [rename, exec]
      exact .tick (.ok _)
  | .continueLoop _ => by
      simp only [rename, exec]
      exact .tick (.ok _)
  | .print _ value => by
      simp only [rename, exec]
      exact .tick ((Renames.eval hr value).andThen fun v m => rfl)
  | .goto token target => by
      simp only [rename, exec]
      have hjump := (Renames.evalAs (s := s) hr Value.int? (.integer .gotoTarget) target).andThen
        fun n => .ok (Signal.goto token n)
      exact .tick (.ite _ hjump (.error rfl))
  | .place _ x y z _ template => by
      simp only [rename, exec]
      exact .tick (.place hr x y z template)
  | .ifElse _ condition yes no => by
      simp only [rename, exec]
      exact .tick ((Renames.evalAs hr _ _ condition).andThen fun holds =>
        .ite _ (renames_all hr yes).inBlock (renames_else hr no))
  | .whileLoop _ condition body => by
      simp only [rename, exec_whileLoop]
      exact .tick (.cycle (.evalAs hr _ _ condition) (renames_all hr body).inBlock (.ok _))
  | .forLoop _ init condition increment body => by
      simp only [rename, exec_forLoop]
      have hincrement := renames hr increment
      have hafter : Renames r (execAll s [increment]) (execAll s [increment.rename r]) := by
        simpa only [← execAll_singleton] using hincrement
      exact .tick ((renames hr init).ifNormal
        (.cycle (.evalAs hr _ _ condition) (renames_all hr body).inBlock hafter)).inBlock

theorem renames_all (hr : Function.Injective r) :
    ∀ stmts : List Stmt, Renames r (execAll s stmts) (execAll s (renameAll r stmts))
  | [] => .ok Signal.normal
  | stmt :: rest => by
      have hcons := (renames hr stmt).ifNormal (renames_all hr rest)
      simp only [← execAll_cons] at hcons
      exact hcons

theorem renames_else (hr : Function.Injective r) :
    ∀ no : Option (List Stmt), Renames r (execElse s no) (execElse s (renameElse r no))
  | none => .ok Signal.normal
  | some block => (renames_all hr block).inBlock

end

end Stmt

/-!
### Programs

The renamed root has as many statements, so jumps lead to the counterparts of where they led.
-/

namespace Program

variable {r : Nat → Nat} {s : Settings}

theorem follow_rename (program : Program) (rest : List Stmt) (signal : Signal) :
    (program.rename r).follow (Stmt.renameAll r rest) signal =
      (program.follow rest signal).map (Option.map (Stmt.renameAll r)) := by
  cases signal with
  | goto token target =>
      have hlength : (program.rename r).body.length = program.body.length := by
        rw [rename, Stmt.renameAll_eq_map, List.length_map]
      have hdrop (n : Nat) :
          (program.rename r).body.drop n = Stmt.renameAll r (program.body.drop n) := by
        rw [rename, Stmt.renameAll_eq_map, Stmt.renameAll_eq_map, List.map_drop]
      simp only [follow, hlength, hdrop]
      split <;> rfl
  | _ => rfl

/-- The root cannot follow some signals, but it never fails because of a variable. -/
theorem rename_of_follow {program : Program} {rest : List Stmt} {signal : Signal} {e : EvalError}
    (h : program.follow rest signal = .error e) : e.rename r = e := by
  cases signal with
  | normal => cases h
  | stop => cases h
  | breakLoop token => cases h; rfl
  | continueLoop token => cases h; rfl
  | goto token target =>
      simp only [follow] at h
      split at h <;> cases h
      rfl

theorem renames_runFrom (hr : Function.Injective r) (program : Program) (fuel : Nat)
    (stmts : List Stmt) :
    Renames r (program.runFrom s fuel stmts)
      ((program.rename r).runFrom s fuel (Stmt.renameAll r stmts)) := by
  induction fuel generalizing stmts with
  | zero =>
      cases stmts with
      | nil => exact .ok ()
      | cons stmt rest => exact .error rfl
  | succ fuel ih =>
      cases stmts with
      | nil => exact .ok ()
      | cons stmt rest =>
          have hnext : ∀ signal, Renames r (program.proceed (program.runFrom s fuel) rest signal)
              ((program.rename r).proceed ((program.rename r).runFrom s fuel)
                (Stmt.renameAll r rest) signal) := by
            intro signal
            unfold proceed
            rw [follow_rename]
            rcases hfollow : program.follow rest signal with e | _ | stmts
            · exact .error (rename_of_follow hfollow).symm
            · exact .ok ()
            · exact ih stmts
          have hcons := (Stmt.renames (s := s) hr stmt).andThen hnext
          simp only [← runFrom_cons] at hcons
          exact hcons

/-- A renamed program does from a renamed state what the program does. -/
theorem renames_run (hr : Function.Injective r) (program : Program) :
    Renames r (program.run s) ((program.rename r).run s) := by
  refine .inBlock fun m => ?_
  exact renames_runFrom hr program (m.rounds s) program.body m

/-- If the chains of a program get other lengths, by an injective map, then from the renamed state
it has the same result, uses the same gas and does the same to the world, and the variables at its
end are the renamed ones. Only the index in an error about a variable that is not there is another
one. The new chains may be made from any tokens. -/
theorem run_of_isRenaming (r : Nat → Nat) (hr : Function.Injective r) (s : Settings)
    (p p' : Program) (hp : p.IsRenaming r p') (m : Machine) :
    p'.run s (m.rename r) =
      ((p.run s m).1.mapError (.rename r), (p.run s m).2.rename r) := by
  have hsame : (p'.rename id).run s ((m.rename r).rename id) = (p'.run s (m.rename r)).rename id :=
    renames_run Function.injective_id p' (m.rename r)
  rw [Machine.rename_id, Outcome.rename_id, hp] at hsame
  rw [← hsame]
  exact renames_run hr p m

end Program

/-- A program that reads the variable of an empty chain, hides it in a loop, and then reads a
variable that is not there. The chains are parameters. -/
def readAndHide (known unknown : List Token) : Program :=
  let origin : Position := ⟨0, 0, 0⟩
  let yes : Expr := .literal .bool ⟨.bool, origin⟩ [⟨.one, origin⟩]
  let readKnown : Stmt := .print ⟨.print, origin⟩ (.var ⟨.useVar, origin⟩ known)
  ⟨[readKnown,
    .whileLoop ⟨.whileLoop, origin⟩ yes
      [.assign .bool ⟨.bool, origin⟩ known yes, readKnown, .breakLoop ⟨.breakLoop, origin⟩],
    readKnown,
    .print ⟨.print, origin⟩ (.var ⟨.useVar, origin⟩ unknown)]⟩

/-- With chains that are longer by two it prints the same, and fails at the renamed variable. -/
theorem run_of_isRenaming_readAndHide :
    (readAndHide [] [⟨.varIndex, ⟨1, 0, 0⟩⟩]).IsRenaming (· + 2)
        (readAndHide (indexChain 2) (⟨.varIndex, ⟨0, 7, 0⟩⟩ :: indexChain 2)) ∧
      ((readAndHide (indexChain 2) (⟨.varIndex, ⟨0, 7, 0⟩⟩ :: indexChain 2)).run {}
        { scopes := { bindings := [⟨2, .int 7, 0⟩] } }).1 =
        .error (.undefinedVariable ⟨.useVar, ⟨0, 0, 0⟩⟩ 3) ∧
      ((readAndHide (indexChain 2) (⟨.varIndex, ⟨0, 7, 0⟩⟩ :: indexChain 2)).run {}
        { scopes := { bindings := [⟨2, .int 7, 0⟩] } }).2.world.texts = ["7", "true", "7"] := by
  have hrenaming : (readAndHide [] [⟨.varIndex, ⟨1, 0, 0⟩⟩]).IsRenaming (· + 2)
      (readAndHide (indexChain 2) (⟨.varIndex, ⟨0, 7, 0⟩⟩ :: indexChain 2)) := rfl
  have hrun := Program.run_of_isRenaming (· + 2) (fun _ _ h => Nat.add_right_cancel h) {} _ _
    hrenaming { scopes := { bindings := [⟨0, .int 7, 0⟩] } }
  have hmachine : ({ scopes := { bindings := [⟨0, .int 7, 0⟩] } } : Machine).rename (· + 2) =
      { scopes := { bindings := [⟨2, .int 7, 0⟩] } } := rfl
  rw [hmachine] at hrun
  rw [hrun]
  exact ⟨hrenaming, rfl, rfl⟩

end CellScript
