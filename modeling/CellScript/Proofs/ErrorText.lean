/-
Module: CellScript.Proofs.ErrorText
Purpose: The text of an error and its report are written apart, but they never say different things.
Main exports: Text.dropPrefix_append, Text.Tells, ScanError.tells, ParseError.tells,
  EvalError.tells, Diagnostic.Reports, diagnostic_reports
-/
import CellScript.Pipeline

namespace CellScript

/-!
### Texts that tell a place

A text of an error is made from left to right: the place, a colon with the first words, and what
comes after them.
-/

namespace Text

/-- A text that tells a place and then a message. -/
def Tells (place text message : String) : Prop :=
  text = "error at " ++ place ++ ": " ++ message

namespace Tells

variable {place text message : String}

theorem intro (place message : String) :
    Tells place ("error at " ++ place ++ ": " ++ message) message :=
  rfl

/-- The colon may be in one piece with the first words. -/
theorem words (place first : String) :
    Tells place ("error at " ++ place ++ (": " ++ first)) first :=
  String.append_assoc.symm

theorem append (h : Tells place text message) (rest : String) :
    Tells place (text ++ rest) (message ++ rest) := by
  rw [Tells, h, String.append_assoc]

end Tells

/-- What stands at the start of a text can be taken off. -/
theorem dropPrefix_append (start rest : String) :
    ((start ++ rest).dropPrefix start).copy = rest := by
  have hstarts : (start ++ rest).startsWith start = true := by
    rw [String.startsWith_string_iff, String.toList_append]
    exact List.prefix_append _ _
  rw [String.dropPrefix, String.Slice.dropPrefix]
  cases hdrop : (start ++ rest).toSlice.dropPrefix? start with
  | none =>
      have hnot := String.Slice.dropPrefix?_eq_none_iff.1 hdrop
      exact absurd hstarts (by rw [String.startsWith, hnot]; simp)
  | some slice =>
      have happend := String.eq_append_of_dropPrefix?_string_eq_some hdrop
      exact ((String.append_right_inj start).1 happend).symm

end Text

/-!
### Errors

Where there is a token, or a cell in the case of a scan, the text tells it and then the message.
-/

theorem ScanError.tells (e : ScanError) : Text.Tells e.pos.text e.text e.message := by
  cases e with
  | malformedRedirector p => exact .words _ "redirector has no facing"
  | redirectCycle p heading =>
      exact ((Text.Tells.words _ "redirectors form a cycle (heading ").append _).append _
  | depthExceeded p limit => exact (Text.Tells.words _ "side-scans nested deeper than ").append _

theorem ParseError.tells {e : ParseError} {token : Token} (h : e.token? = some token) :
    Text.Tells token.text e.text e.message := by
  cases e with
  | expected what found =>
      cases h
      exact (((Text.Tells.words _ "expected ").append _).append _).append _
  | unexpectedToken token =>
      cases h
      exact (Text.Tells.intro _ token.kind.name).append _
  | unexpectedEnd what => cases h
  | missingArgument token slot =>
      cases h
      exact ((Text.Tells.intro _ token.kind.name).append _).append _
  | duplicateArgument marker =>
      cases h
      exact (Text.Tells.intro _ token.kind.name).append _
  | malformedLiteral token fault =>
      cases h
      exact Text.Tells.intro _ fault.message
  | nestingTooDeep token limit =>
      cases h
      exact (Text.Tells.words _ "nesting deeper than ").append _

/-- Every text that blames a token starts by telling it. -/
theorem EvalError.exists_tells {e : EvalError} {token : Token} (h : e.token? = some token) :
    ∃ message, Text.Tells token.text e.text message := by
  cases e with
  | typeMismatch token mismatch =>
      cases h
      exact ⟨_, Text.Tells.intro _ mismatch.message⟩
  | undefinedVariable token index =>
      cases h
      exact ⟨_, ((Text.Tells.words _ "variable ").append _).append _⟩
  | divisionByZero token =>
      cases h
      exact ⟨_, Text.Tells.words _ "division by zero"⟩
  | conversion token source target text =>
      cases h
      have hsource := (Text.Tells.words token.text "cannot convert ").append source.name
      exact ⟨_, (((hsource.append _).append text).append _).append _⟩
  | stringTooLong token length limit =>
      cases h
      exact ⟨_, (((Text.Tells.words _ "string of ").append _).append _).append _⟩
  | invalidLiteral token fault =>
      cases h
      exact ⟨_, Text.Tells.intro _ fault.message⟩
  | missingCommandHook token =>
      cases h
      exact ⟨_, Text.Tells.words _ "no command hook at this cell"⟩
  | commandFailed token message =>
      cases h
      exact ⟨_, (Text.Tells.words _ "command failed: ").append message⟩
  | gotoOutOfBounds token target length =>
      cases h
      exact ⟨_, (((Text.Tells.words _ "GOTO target ").append _).append _).append _⟩
  | gotoDisabled token =>
      cases h
      exact ⟨_, Text.Tells.words _ "GOTO is disabled"⟩
  | strayControl token =>
      cases h
      exact ⟨_, (Text.Tells.intro _ token.kind.name).append _⟩
  | gasExhausted limit => cases h

theorem EvalError.tells {e : EvalError} {token : Token} (h : e.token? = some token) :
    Text.Tells token.text e.text e.message := by
  obtain ⟨message, htells⟩ := e.exists_tells h
  have hmessage : e.message = message := by
    simp only [EvalError.message, h]
    rw [htells]
    exact Text.dropPrefix_append _ message
  rwa [hmessage]

/-!
### Reports

A report is printed with its stage before what the error says.
-/

/-- A report is about an error of a stage with the given text, token and cell. -/
structure Diagnostic.Reports (d : Diagnostic) (stage : Stage) (text : String)
    (token : Option Token) (pos : Option Position) : Prop where
  stage_eq : d.stage = stage
  text_eq : d.text = "[" ++ stage.name ++ "] " ++ text
  token_eq : d.token = token
  pos_eq : d.pos = pos

namespace Diagnostic

variable {stage : Stage} {text message : String}

theorem reports_atPosition {p : Position} (h : Text.Tells p.text text message) :
    (atPosition stage message p).Reports stage text none (some p) where
  stage_eq := rfl
  text_eq := by
    rw [h]
    simp only [Diagnostic.text, atPosition, String.append_assoc]
  token_eq := rfl
  pos_eq := rfl

theorem reports_atToken {token : Token} (h : Text.Tells token.text text message) :
    (atToken stage message token).Reports stage text (some token) (some token.pos) where
  stage_eq := rfl
  text_eq := by
    rw [h]
    simp only [Diagnostic.text, atToken, String.append_assoc]
  token_eq := rfl
  pos_eq := rfl

/-- Without a token the message is the whole text. -/
theorem reports_atToken? {token? : Option Token}
    (hsome : ∀ token, token? = some token → Text.Tells token.text text message)
    (hnone : token? = none → text = message) :
    (atToken? stage message token?).Reports stage text token? (token?.map Token.pos) := by
  cases token? with
  | none =>
      rw [hnone rfl]
      exact ⟨rfl, rfl, rfl, rfl⟩
  | some token => exact reports_atToken (hsome token rfl)

end Diagnostic

theorem ParseError.text_of_no_token {e : ParseError} (h : e.token? = none) :
    e.text = e.message := by
  cases e <;> cases h
  rfl

theorem EvalError.text_of_no_token {e : EvalError} (h : e.token? = none) :
    e.text = e.message := by
  simp only [message, h]

/-- The report of an error has the stage in which it came up. Its text is that of the error after
the stage in brackets. It blames the token of the error and the cell of that token, or the cell
alone for an error of a scan. Only at the end of the input and for want of gas is there neither. -/
theorem diagnostic_reports :
    (∀ e : ScanError, e.diagnostic.Reports .scan e.text none (some e.pos)) ∧
      (∀ e : ParseError,
        e.diagnostic.Reports .parse e.text e.token? (e.token?.map Token.pos) ∧
          (e.diagnostic.pos = none ↔ ∃ what, e = .unexpectedEnd what)) ∧
      ∀ e : EvalError,
        e.diagnostic.Reports .eval e.text e.token? (e.token?.map Token.pos) ∧
          (e.diagnostic.pos = none ↔ ∃ limit, e = .gasExhausted limit) := by
  refine ⟨fun e => Diagnostic.reports_atPosition e.tells, fun e => ?_, fun e => ?_⟩
  · have hreports : e.diagnostic.Reports .parse e.text e.token? (e.token?.map Token.pos) :=
      Diagnostic.reports_atToken? (fun _ => e.tells) e.text_of_no_token
    refine ⟨hreports, ?_⟩
    rw [hreports.pos_eq]
    cases e <;> simp [ParseError.token?]
  · have hreports : e.diagnostic.Reports .eval e.text e.token? (e.token?.map Token.pos) :=
      Diagnostic.reports_atToken? (fun _ => e.tells) e.text_of_no_token
    refine ⟨hreports, ?_⟩
    rw [hreports.pos_eq]
    cases e <;> simp [EvalError.token?]

end CellScript
