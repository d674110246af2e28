/-
Module: CellScript.Proofs.ErrorLocation
Purpose: The cell that an error blames was there before the run, with the symbol that the error
  speaks of.
Main exports: Grid.Shows, RunError.Located, located_of_compile, located_of_run
-/
import CellScript.Proofs.Pipeline.Likeness
import CellScript.Proofs.Run.Conduct

namespace CellScript

/-- The cell of a token has the token's symbol. -/
def Grid.Shows (g : Grid) (t : Token) : Prop :=
  g.symbolAt t.pos = t.kind.symbol

/-- What a grid has where an error blames it.

* A malformed redirector is one, and has no facing.
* Where walks form a cycle or side-scans nest too deeply, there is a token or a redirector.
* A token that an error carries is shown. -/
def RunError.Located (g : Grid) : RunError → Prop
  | scan (.malformedRedirector p) => g.symbolAt p = .redirector ∧ g.facingAt p = none
  | scan (.redirectCycle p _) | scan (.depthExceeded p _) =>
      (∃ kind : TokenKind, g.symbolAt p = kind.symbol) ∨ g.symbolAt p = .redirector
  | parse e => ∀ t, e.token? = some t → g.Shows t
  | eval e => ∀ t, e.token? = some t → g.Shows t

/-! ### Compiling

A grid read next to itself: all tokens that are read are shown, and so are those that an error or a
tree carries.
-/

theorem ParseError.Alike.known {L : Likeness} {e e' : ParseError} (h : e.Alike L e') {t : Token}
    (ht : e.token? = some t) : L.known t := by
  cases h with
  | endBeforeStatement => cases ht
  | endBeforeValue => cases ht
  | endBeforeKind => cases ht
  | _ htoken =>
      cases ht
      exact htoken.known

theorem RunError.Alike.located {g : Grid} {e e' : RunError} (h : e.Alike (.same g.Shows) g e') :
    e.Located g := by
  cases h with
  | parse he => exact fun t ht => he.known ht
  | scan he =>
      cases he with
      | malformedRedirector _ hsymbol hfacing => exact ⟨hsymbol, hfacing⟩
      | redirectCycle _ hmeaning => exact Symbol.eq_of_meaning_ne_unknown hmeaning
      | depthExceeded _ hmeaning => exact Symbol.eq_of_meaning_ne_unknown hmeaning

section Compile

variable (c : RunConfig) (g : Grid) (p : Position) (d : Direction)

theorem compile_shown :
    Agree (RunError.Alike (.same g.Shows) g) (Program.Alike (.same g.Shows)) (compile c g p d)
      (compile c g p d) :=
  compile_alike (Likeness.same_grids fun _ ht => ht) c rfl d

variable {c g p d}

theorem located_of_compile {e : RunError} (h : compile c g p d = .error e) : e.Located g := by
  have hshown := compile_shown c g p d
  rw [h] at hshown
  cases hshown with
  | error he => exact he.located

theorem alike_of_compile {program : Program} (h : compile c g p d = .ok program) :
    program.Alike (.same g.Shows) program := by
  have hshown := compile_shown c g p d
  rw [h] at hshown
  cases hshown with
  | ok hprogram => exact hprogram

end Compile

/-!
### Running

An error of a run blames the token of the statement or expression that raised it.
-/

theorem EvalError.token?_ofOperation (token : Token) (fault : OperationFault) :
    (ofOperation token fault).token? = some token := by
  cases fault <;> rfl

theorem Expr.Raises.token? {e : Expr} {error : EvalError} (h : e.Raises error) :
    error.token? = some e.token := by
  cases h with
  | literal hvalue =>
      obtain ⟨fault, rfl⟩ := mapError_eq_error hvalue
      rfl
  | var => rfl
  | unary => exact EvalError.token?_ofOperation _ _
  | binary => exact EvalError.token?_ofOperation _ _

theorem Stmt.Raises.known {L : Likeness} {stmt stmt' : Stmt} (hstmt : stmt.Alike L stmt')
    {error : EvalError} (h : stmt.Raises error) {t : Token} (ht : error.token? = some t) :
    L.known t := by
  cases h with
  | operand hoperand hn hraises =>
      obtain ⟨operand', halike⟩ := hstmt.of_operand hoperand
      obtain ⟨n', halike⟩ := halike.of_within hn
      rw [hraises.token?] at ht
      cases ht
      exact halike.token.known
  | wrongType hoperand =>
      obtain ⟨operand', halike⟩ := hstmt.of_operand hoperand
      cases ht
      exact halike.token.known
  | _ =>
      cases ht
      exact hstmt.token.known

theorem Program.Alike.known_of_run {L : Likeness} {program program' : Program}
    (hprogram : program.Alike L program') {s : Settings} {m : Machine} {error : EvalError}
    (h : (program.run s m).1 = .error error) {t : Token} (ht : error.token? = some t) :
    L.known t := by
  rcases fails_of_run h with rfl | ⟨n, hn, hraises⟩
  · cases ht
  · obtain ⟨n', halike⟩ := hprogram.of_hasStmt hn
    exact hraises.known halike ht

/-! ### All stages -/

/-- The cell of a report is that of the token it blames. -/
theorem RunError.pos?_parse (e : ParseError) : (parse e).pos? = e.token?.map Token.pos :=
  Diagnostic.pos_atToken? .parse e.message e.token?

theorem RunError.pos?_eval (e : EvalError) : (eval e).pos? = e.token?.map Token.pos :=
  Diagnostic.pos_atToken? .eval e.message e.token?

theorem RunError.pos?_eq_none_iff (e : RunError) :
    e.pos? = none ↔
      (∃ what, e = .parse (.unexpectedEnd what)) ∨ ∃ limit, e = .eval (.gasExhausted limit) := by
  cases e with
  | scan e => simp [pos?, diagnostic, ScanError.diagnostic, Diagnostic.atPosition]
  | parse e => cases e <;> simp [pos?_parse, ParseError.token?]
  | eval e => cases e <;> simp [pos?_eval, EvalError.token?]

variable {c : RunConfig} {w : World} {p : Position} {d : Direction} {e : RunError}

theorem compileAndRun_eq_error (h : (compileAndRun c w p d).1 = .error e) :
    compile c w.grid p d = .error e ∨
      ∃ program error, compile c w.grid p d = .ok program ∧
        (program.run c.settings { world := w }).1 = .error error ∧ e = .eval error := by
  unfold compileAndRun at h
  split at h
  · next hcompile =>
      cases h
      exact .inl hcompile
  · next program hcompile =>
      rcases hrun : program.run c.settings { world := w } with ⟨r, m⟩
      rw [hrun] at h
      cases r with
      | ok _ => cases h
      | error error =>
          cases h
          exact .inr ⟨program, error, hcompile, congrArg Prod.fst hrun, rfl⟩

theorem run_fst (c : RunConfig) (w : World) (p : Position) (d : Direction) :
    (run c w p d).1 = (compileAndRun c w p d).1 := by
  unfold run
  split <;> next heq => rw [heq]

/-- A run that fails blames a cell of the grid as it was before the run, whatever the run has
written since. It blames none only at the end of the input and for want of gas. -/
theorem located_of_run (h : (run c w p d).1 = .error e) :
    e.Located w.grid ∧
      (e.pos? = none ↔
        (∃ what, e = .parse (.unexpectedEnd what)) ∨ ∃ limit, e = .eval (.gasExhausted limit)) := by
  refine ⟨?_, e.pos?_eq_none_iff⟩
  rw [run_fst] at h
  rcases compileAndRun_eq_error h with hcompile | ⟨program, error, hcompile, hrun, rfl⟩
  · exact located_of_compile hcompile
  · intro t ht
    exact (alike_of_compile hcompile).known_of_run hrun ht

/-- A line of cells that ends with a command at the origin. The statement before it writes air
there. -/
def clearedCommand : World :=
  let kinds : List TokenKind :=
    [.placeBlock, .firstArgument, .int, .zero, .secondArgument, .int, .zero, .thirdArgument, .int,
      .zero, .fourthArgument, .command]
  { grid := (Grid.empty.placeLine ⟨-11, 0, 0⟩ .east (kinds.map TokenKind.symbol)).1 }

/-- The command has no hook. When it is blamed its cell is empty, but it was there before. -/
theorem located_of_run_clearedCommand :
    (run {} clearedCommand ⟨-11, 0, 0⟩ .east).1 =
        .error (.eval (.missingCommandHook ⟨.command, ⟨0, 0, 0⟩⟩)) ∧
      (run {} clearedCommand ⟨-11, 0, 0⟩ .east).2.grid.symbolAt ⟨0, 0, 0⟩ = .air ∧
      clearedCommand.grid.symbolAt ⟨0, 0, 0⟩ = TokenKind.symbol .command := by
  have hrun : (run {} clearedCommand ⟨-11, 0, 0⟩ .east).1 =
      .error (.eval (.missingCommandHook ⟨.command, ⟨0, 0, 0⟩⟩)) := by
    rfl
  refine ⟨hrun, by decide +kernel, ?_⟩
  exact (located_of_run hrun).1 _ rfl

end CellScript
