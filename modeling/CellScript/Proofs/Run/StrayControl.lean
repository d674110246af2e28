/-
Module: CellScript.Proofs.Run.StrayControl
Purpose: A `BREAK` or `CONTINUE` gets out of a statement only if no loop of it has it in its body.
Main exports: Stmt.Exposed, Program.Exposes, Outcome.Contained, Code.Runs.contained,
  Stmt.contained, Program.exposes_of_strayControl, exposed_of_stray
-/
import CellScript.Proofs.Run.Conduct
import CellScript.Proofs.Run.Execution

namespace CellScript

/-!
### Outside the bodies of loops

The first and the last part of a `FOR` are statements too, but no loop takes up their jumps.
-/

/-- The statements that a statement is made from, apart from the body of a loop. -/
def Stmt.outsideBody : Stmt → List Stmt
  | ifElse _ _ yes no => yes ++ no.getD []
  | forLoop _ init _ increment _ => [init, increment]
  | _ => []

/-- A statement is another one or inside it, and there in no loop's body. -/
inductive Stmt.Exposed : Stmt → Stmt → Prop where
  | refl (stmt : Stmt) : Exposed stmt stmt
  | inside {n child stmt : Stmt} (hchild : child ∈ stmt.outsideBody) (h : Exposed n child) :
      Exposed n stmt

/-- A statement of a program that is in no loop's body. -/
def Program.Exposes (program : Program) (n : Stmt) : Prop :=
  ∃ stmt ∈ program.body, n.Exposed stmt

/-- The statements of code that is being executed, as seen from outside: a loop that has started
shows what comes after its body. -/
def Code.Exposes (n : Stmt) : Code → Prop
  | .stmt x => n.Exposed x
  | .seq stmts => ∃ x ∈ stmts, n.Exposed x
  | .block stmts => ∃ x ∈ stmts, n.Exposed x
  | .loop _ _ _ after => ∃ x ∈ after, n.Exposed x

theorem Stmt.Exposed.eq_of_whileLoop {n : Stmt} {token : Token} {condition : Expr}
    {body : List Stmt} (h : n.Exposed (.whileLoop token condition body)) :
    n = .whileLoop token condition body := by
  cases h with
  | refl => rfl
  | inside hchild => simp [outsideBody] at hchild

theorem Stmt.Within.eq_of_isBasic {n stmt : Stmt} (h : n.Within stmt)
    (hbasic : stmt.isBasic = true) : n = stmt := by
  cases h with
  | refl => rfl
  | inside hchild => cases stmt <;> simp_all [children, isBasic]

/-!
### What gets out

A signal to a loop comes from an exposed statement. Nothing but the root fails because of one.
-/

/-- Whether a signal is for the loop around a statement. -/
def Signal.isForLoop : Signal → Bool
  | breakLoop _ => true
  | continueLoop _ => true
  | _ => false

/-- An outcome whose signals to a loop come from certain statements, and that is not a failure
because of such a signal. -/
structure Outcome.Contained (exposed : Stmt → Prop) (o : Outcome Signal) : Prop where
  signal : ∀ signal, o.1 = .ok signal → signal.isForLoop = true →
    ∃ n, exposed n ∧ n.Signals signal
  error : ∀ token, o.1 ≠ .error (.strayControl token)

namespace Outcome.Contained

variable {exposed : Stmt → Prop} {o : Outcome Signal}

theorem mono {exposed' : Stmt → Prop} (h : o.Contained exposed)
    (hexposed : ∀ n, exposed n → exposed' n) : o.Contained exposed' := by
  refine ⟨fun signal hsignal hloop => ?_, h.error⟩
  obtain ⟨n, hn, hsignals⟩ := h.signal signal hsignal hloop
  exact ⟨n, hexposed n hn, hsignals⟩

theorem leave (h : o.Contained exposed) (m : Machine) : (o.leave m).Contained exposed :=
  ⟨h.signal, h.error⟩

theorem of_signal {signal : Signal} (h : signal.isForLoop = false) (m : Machine) :
    Outcome.Contained exposed (.ok signal, m) := by
  refine ⟨fun signal' hsignal hloop => ?_, fun token herror => nomatch herror⟩
  cases hsignal
  exact absurd hloop (by simp [h])

theorem of_error {e : EvalError} (h : ∀ token, e ≠ .strayControl token) (m : Machine) :
    Outcome.Contained exposed (.error e, m) :=
  ⟨fun _ hsignal => (nomatch hsignal), fun token herror => h token (Except.error.inj herror)⟩

end Outcome.Contained

theorem Signal.isForLoop_of_leaving {signal last : Signal} (h : signal.leaving = some last) :
    last.isForLoop = false := by
  cases signal <;> cases h <;> rfl

/-!
### Where failures come from

An expression cannot fail because of a jump, and a statement that runs no other one does not
either: `BREAK` and `CONTINUE` by themselves succeed.
-/

section Failures

variable {s : Settings} {m m' : Machine} {token : Token}

theorem Expr.Raises.ne_strayControl {e : Expr} {error : EvalError} (h : e.Raises error) :
    error ≠ .strayControl token := by
  rintro rfl
  generalize herror : EvalError.strayControl token = error at h
  cases h with
  | literal hvalue =>
      obtain ⟨fault, hfault⟩ := mapError_eq_error hvalue
      cases hfault.trans herror.symm
  | var => cases herror
  | @unary _ _ _ fault => cases fault <;> cases herror
  | @binary _ _ _ _ fault => cases fault <;> cases herror

theorem Expr.Fails.ne_strayControl {e : Expr} {limit : Nat} {error : EvalError}
    (h : e.Fails limit error) : error ≠ .strayControl token := by
  rcases h with rfl | ⟨n, -, hraises⟩
  · exact nofun
  · exact hraises.ne_strayControl

theorem Machine.condition_ne_strayControl {statement : TokenKind} {condition : Expr}
    {error : EvalError} (h : m.condition s statement condition = (.error error, m')) :
    error ≠ .strayControl token := by
  rw [Machine.condition, Machine.evalAs, Machine.eval] at h
  rcases heval : condition.eval s m.scopes m.gas with ⟨e | v, gas⟩
  · rw [heval] at h
    cases h
    exact (Expr.fails_of_eval heval).ne_strayControl
  · rw [heval] at h
    intro herror
    cases v <;> cases h <;> cases herror

theorem Stmt.contained_of_isBasic {stmt : Stmt} (hbasic : stmt.isBasic = true)
    (hgas : m.gas < s.gasLimit) : (stmt.exec s m).Contained (·.Exposed stmt) := by
  constructor
  · intro signal hsignal hloop
    rcases stmt.signals_of_exec hsignal with rfl | ⟨n, hn, hsignals⟩
    · exact absurd hloop (by simp [Signal.isForLoop])
    · cases hn.eq_of_isBasic hbasic
      exact ⟨stmt, .refl stmt, hsignals⟩
  · intro token herror
    rcases stmt.fails_of_exec herror with hgas | ⟨n, hn, hraises⟩
    · cases hgas
    · cases hn.eq_of_isBasic hbasic
      cases hraises with
      | operand _ _ hraises => exact hraises.ne_strayControl rfl
      | strayBreak => rw [exec, Machine.tick_of_lt hgas] at herror; cases herror
      | strayContinue => rw [exec, Machine.tick_of_lt hgas] at herror; cases herror

end Failures

/-!
### Statements

By induction on the rules. A loop lets no signal of its body through, so that only what comes after
the body is left to expose.
-/

theorem Code.Runs.contained {s : Settings} {code : Code} {m : Machine} {o : Outcome Signal}
    (h : Code.Runs s code m o) : o.Contained (code.Exposes ·) := by
  induction h with
  | outOfGas hgas =>
      refine .of_error (fun token herror => ?_) _
      cases herror
  | basic hgas hbasic => exact Stmt.contained_of_isBasic hbasic hgas
  | ifFails hgas hcondition =>
      exact .of_error (fun _ => Machine.condition_ne_strayControl hcondition) _
  | ifYes hgas hcondition hyes ih =>
      refine ih.mono fun n ⟨x, hx, hn⟩ => ?_
      exact Stmt.Exposed.inside (by simp [Stmt.outsideBody, hx]) hn
  | ifNo hgas hcondition hno ih =>
      refine ih.mono fun n ⟨x, hx, hn⟩ => ?_
      exact Stmt.Exposed.inside (by simp [Stmt.outsideBody, hx]) hn
  | ifNeither hgas hcondition => exact .of_signal rfl _
  | whileLoop hgas hloop ih => exact ih.mono fun n ⟨x, hx, hn⟩ => nomatch hx
  | forLoop hgas hinit hloop ihInit ihLoop =>
      refine (ihLoop.mono fun n ⟨x, hx, hn⟩ => ?_).leave _
      exact Stmt.Exposed.inside (by simp_all [Stmt.outsideBody]) hn
  | forEnds hgas hinit hends ih =>
      exact (ih.mono fun n hn => Stmt.Exposed.inside (by simp [Stmt.outsideBody]) hn).leave _
  | block hseq ih => exact ih.leave _
  | nil => exact .of_signal rfl _
  | next hstmt hrest ihStmt ihRest =>
      exact ihRest.mono fun n ⟨x, hx, hn⟩ => ⟨x, List.mem_cons_of_mem _ hx, hn⟩
  | ends hstmt hends ih => exact ih.mono fun n hn => ⟨_, List.mem_cons_self, hn⟩
  | loopFails hcondition =>
      exact .of_error (fun _ => Machine.condition_ne_strayControl hcondition) _
  | loopDone hcondition => exact .of_signal rfl _
  | bodyFails hcondition hbody ih =>
      exact .of_error (fun token herror => ih.error token (congrArg _ herror)) _
  | bodyLeaves hcondition hbody hleaving ih =>
      exact .of_signal (Signal.isForLoop_of_leaving hleaving) _
  | afterEnds hcondition hbody hleaving hafter hends ihBody ihAfter => exact ihAfter
  | again hcondition hbody hleaving hafter hloop ihBody ihAfter ihLoop => exact ihLoop

namespace Stmt

variable {s : Settings} {m : Machine} {stmt : Stmt} {token : Token}

theorem contained (s : Settings) (stmt : Stmt) (m : Machine) :
    (stmt.exec s m).Contained (·.Exposed stmt) :=
  (stmt.runs_exec s m).contained

theorem exposed_of_break (h : (stmt.exec s m).1 = .ok (.breakLoop token)) :
    (breakLoop token).Exposed stmt := by
  obtain ⟨n, hn, hsignals⟩ := (stmt.contained s m).signal _ h rfl
  cases hsignals
  exact hn

theorem exposed_of_continue (h : (stmt.exec s m).1 = .ok (.continueLoop token)) :
    (continueLoop token).Exposed stmt := by
  obtain ⟨n, hn, hsignals⟩ := (stmt.contained s m).signal _ h rfl
  cases hsignals
  exact hn

end Stmt

/-!
### Programs

The root goes on with statements of its own only, wherever a jump leads.
-/

namespace Program

variable {s : Settings} {program : Program} {m : Machine} {token : Token}

/-- The root refuses a signal to a loop, and no other signal in this way. -/
theorem eq_of_follow_strayControl {rest : List Stmt} {signal : Signal}
    (h : program.follow rest signal = .error (.strayControl token)) :
    signal = .breakLoop token ∨ signal = .continueLoop token := by
  cases signal with
  | normal => cases h
  | stop => cases h
  | breakLoop t => cases h; exact .inl rfl
  | continueLoop t => cases h; exact .inr rfl
  | goto t target =>
      simp only [follow] at h
      split at h <;> cases h

theorem exposes_of_runFrom {fuel : Nat} {stmts : List Stmt} (hstmts : stmts ⊆ program.body)
    (h : (program.runFrom s fuel stmts m).1 = .error (.strayControl token)) :
    program.Exposes (.breakLoop token) ∨ program.Exposes (.continueLoop token) := by
  induction fuel generalizing stmts m with
  | zero => cases stmts <;> cases h
  | succ fuel ih =>
      cases stmts with
      | nil => cases h
      | cons stmt rest =>
          obtain ⟨hstmt, hrest⟩ := List.cons_subset.1 hstmts
          rw [runFrom_cons] at h
          rcases hexec : stmt.exec s m with ⟨e | signal, m'⟩
          · have herror := (stmt.contained s m).error token
            rw [hexec] at h herror
            cases h
            exact absurd rfl herror
          · have hsignal : (stmt.exec s m).1 = .ok signal := by rw [hexec]
            simp only [hexec, Outcome.andThen, proceed] at h
            rcases hfollow : program.follow rest signal with e | _ | next
            · rw [hfollow] at h
              cases h
              rcases eq_of_follow_strayControl hfollow with rfl | rfl
              · exact .inl ⟨stmt, hstmt, Stmt.exposed_of_break hsignal⟩
              · exact .inr ⟨stmt, hstmt, Stmt.exposed_of_continue hsignal⟩
            · rw [hfollow] at h
              cases h
            · rw [hfollow] at h
              exact ih (subset_of_follow hrest hfollow) h

theorem exposes_of_strayControl (h : (program.run s m).1 = .error (.strayControl token)) :
    program.Exposes (.breakLoop token) ∨ program.Exposes (.continueLoop token) :=
  exposes_of_runFrom (fun _ hn => hn) h

end Program

/-- A statement that ends with a signal to a loop has the `BREAK` or `CONTINUE` that it names, in no
loop's body; so a `WHILE` never ends in this way. A program fails because of such a signal only if
it has that statement in no loop's body, and never if it has none there. -/
theorem exposed_of_stray (s : Settings) :
    (∀ (stmt : Stmt) (m : Machine) (token : Token),
        ((stmt.exec s m).1 = .ok (.breakLoop token) → (Stmt.breakLoop token).Exposed stmt) ∧
        ((stmt.exec s m).1 = .ok (.continueLoop token) →
          (Stmt.continueLoop token).Exposed stmt)) ∧
      (∀ (token : Token) (condition : Expr) (body : List Stmt) (m : Machine) (jump : Token),
        ((Stmt.whileLoop token condition body).exec s m).1 ≠ .ok (.breakLoop jump) ∧
        ((Stmt.whileLoop token condition body).exec s m).1 ≠ .ok (.continueLoop jump)) ∧
      (∀ (program : Program) (m : Machine) (token : Token),
        (program.run s m).1 = .error (.strayControl token) →
          program.Exposes (.breakLoop token) ∨ program.Exposes (.continueLoop token)) ∧
      ∀ program : Program,
        (∀ token, ¬program.Exposes (.breakLoop token) ∧
          ¬program.Exposes (.continueLoop token)) →
        ∀ (m : Machine) (token : Token), (program.run s m).1 ≠ .error (.strayControl token) := by
  refine ⟨fun stmt m token => ⟨Stmt.exposed_of_break, Stmt.exposed_of_continue⟩,
    fun token condition body m jump => ⟨fun h => ?_, fun h => ?_⟩,
    fun program m token => Program.exposes_of_strayControl,
    fun program hnone m token h => ?_⟩
  · cases (Stmt.exposed_of_break h).eq_of_whileLoop
  · cases (Stmt.exposed_of_continue h).eq_of_whileLoop
  · rcases Program.exposes_of_strayControl h with hexposed | hexposed
    · exact (hnone token).1 hexposed
    · exact (hnone token).2 hexposed

/-- A loop whose body continues, and that breaks in its last part. -/
def breakAfterBody : Stmt :=
  let origin : Position := ⟨0, 0, 0⟩
  let yes : Expr := .literal .bool ⟨.bool, origin⟩ [⟨.one, origin⟩]
  .forLoop ⟨.forLoop, origin⟩ (.assign .bool ⟨.bool, origin⟩ [] yes) yes
    (.breakLoop ⟨.breakLoop, origin⟩) [.continueLoop ⟨.continueLoop, origin⟩]

/-- The break gets out of this loop, and out of the program. In the body of another loop it does
not. -/
theorem exposed_of_stray_breakAfterBody :
    (breakAfterBody.exec {} {}).1 = .ok (.breakLoop ⟨.breakLoop, ⟨0, 0, 0⟩⟩) ∧
      (Stmt.breakLoop ⟨.breakLoop, ⟨0, 0, 0⟩⟩).Exposed breakAfterBody ∧
      ((⟨[breakAfterBody]⟩ : Program).run {} {}).1 =
        .error (.strayControl ⟨.breakLoop, ⟨0, 0, 0⟩⟩) ∧
      ∀ (token : Token) (condition : Expr) (m : Machine) (jump : Token),
        ((⟨[.whileLoop token condition [breakAfterBody]]⟩ : Program).run {} m).1 ≠
          .error (.strayControl jump) := by
  obtain ⟨hstmt, _, _, hnone⟩ := exposed_of_stray {}
  have hbreak : (breakAfterBody.exec {} {}).1 = .ok (.breakLoop ⟨.breakLoop, ⟨0, 0, 0⟩⟩) := rfl
  refine ⟨hbreak, (hstmt _ _ _).1 hbreak, rfl, fun token condition => hnone _ fun jump => ?_⟩
  constructor
  · rintro ⟨stmt, hmem, hexposed⟩
    cases List.mem_singleton.1 hmem
    cases hexposed.eq_of_whileLoop
  · rintro ⟨stmt, hmem, hexposed⟩
    cases List.mem_singleton.1 hmem
    cases hexposed.eq_of_whileLoop

end CellScript
