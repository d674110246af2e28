/-
Module: CellScript.Proofs.PrintedLiteral
Purpose: A line of cells that was made to print a value prints it: the cells are read as a literal,
  the literal has the value, and the run emits the value's text and does nothing else.
Main exports: TokenKind.ofBit, Value.HasLiteral, Value.printed, compile_printed, run_printed
-/
import CellScript.Pipeline
import CellScript.Proofs.Parser.RoundTrip
import CellScript.Proofs.Run.Effects
import CellScript.Proofs.Run.Rounds
import CellScript.Proofs.Scan.Line
import CellScript.Proofs.Value.Literal

namespace CellScript

/-! ### Tokens that print a value -/

/-- The kind of token that a bit is written as. -/
def TokenKind.ofBit : Bool → TokenKind
  | false => .zero
  | true => .one

namespace Value

/-- Whether a value has a literal. A text has one if it has characters and they all are bytes; it is
not so long that the line which prints it comes back to its own start. -/
def HasLiteral : Value → Prop
  | string s => s ≠ "" ∧ (∀ c ∈ s.toList, c.toNat < 256) ∧ 8 * s.toList.length + 2 < 2 ^ 32
  | _ => True

/-- The kinds of the tokens that print a value. -/
def printed (v : Value) : List TokenKind :=
  .print :: v.type.marker :: v.toBits.map TokenKind.ofBit

variable {v : Value}

theorem HasLiteral.ofBits? (h : v.HasLiteral) : Value.ofBits? v.type v.toBits = .ok v := by
  cases v with
  | int n => exact ofBits?_toBits_int n
  | float x => exact ofBits?_toBits_float x
  | bool b => exact ofBits?_toBits_bool b
  | string s =>
      obtain ⟨hchars, hbytes, -⟩ := h
      exact (ofBits?_toBits_string hchars).trans (by rw [lowBytes_eq_self hbytes])

theorem HasLiteral.checkWidth (h : v.HasLiteral) : v.type.checkWidth v.toBits.length = .ok () := by
  have hok : ∃ value, Value.ofBits? v.type v.toBits = .ok value := ⟨v, h.ofBits?⟩
  exact (v.type.checkWidth_eq_ok_iff _).2 ((ofBits?_isOk_iff _ _).1 hok)

theorem HasLiteral.length_printed_lt (h : v.HasLiteral) : v.printed.length < 2 ^ 32 := by
  rw [printed, List.length_cons, List.length_cons, List.length_map]
  cases v with
  | int n => simp [toBits_int]
  | float x => simp [toBits_float]
  | bool b => simp [toBits, digits]
  | string s =>
      rw [length_toBits_string]
      exact h.2.2

end Value

/-! ### Reading them -/

theorem TokenKind.isBit_ofBit (b : Bool) : (ofBit b).isBit = true := by
  cases b <;> rfl

theorem bitsOfTokens_of_kinds {tokens : List Token} {bits : List Bool}
    (h : tokens.map Token.kind = bits.map TokenKind.ofBit) : bitsOfTokens tokens = .ok bits := by
  induction tokens generalizing bits with
  | nil =>
      cases bits with
      | nil => rfl
      | cons b bits => cases h
  | cons t tokens ih =>
      cases bits with
      | nil => cases h
      | cons b bits =>
          obtain ⟨hkind, hrest⟩ := List.cons.inj h
          rw [bitsOfTokens, hkind, ih hrest]
          cases b <;> rfl

/-- A literal after `PRINT` is read as the one statement of a program. -/
theorem Program.parse_printLiteral (g : Grid) (token : Token) {marker : Token} {bits : List Token}
    {type : ValueType} (hprint : token.kind = .print)
    (hliteral : (Expr.literal type marker bits).WellFormed) :
    parse g (token :: marker :: bits) = .ok ⟨[.print token (.literal type marker bits)]⟩ := by
  have hwf : WellFormed ⟨[.print token (.literal type marker bits)]⟩ := by
    simp only [WellFormed, Stmt.AllWellFormed, Stmt.WellFormed]
    exact ⟨⟨hprint, hliteral⟩, trivial⟩
  have hmarks : Stmt.marksAll [.print token (.literal type marker bits)] =
      (token :: marker :: bits).map Mark.kept := by
    simp [Stmt.marksAll, Stmt.marks, Expr.marks]
  have hspells : Spells (Stmt.marksAll [.print token (.literal type marker bits)])
      (token :: marker :: bits) := by
    rw [hmarks, Spells, List.forall₂_map_left_iff]
    exact List.forall₂_same.2 fun t _ => rfl
  have hneed : Program.need ⟨[.print token (.literal type marker bits)]⟩ ≤ Parser.maxNesting := by
    simp [Program.need, Stmt.needAll, Stmt.need, Expr.need, Parser.maxNesting]
  exact (guarded_parse g hwf hspells).1 hneed

section Printed

variable {v : Value} (p : Position) (d : Direction)

/-- The literal of a value, where it stands on the line that prints the value. -/
def Value.literal (v : Value) : Expr :=
  .literal v.type ⟨v.type.marker, p.step d⟩
    (Token.line ((p.step d).step d) d (v.toBits.map TokenKind.ofBit))

theorem Value.HasLiteral.wellFormed_literal (h : v.HasLiteral) : (v.literal p d).WellFormed := by
  have hkinds := Token.map_kind_line ((p.step d).step d) d (v.toBits.map TokenKind.ofBit)
  refine ⟨rfl, fun b hb => ?_, ?_⟩
  · have hmem := List.mem_map_of_mem (f := Token.kind) hb
    rw [hkinds] at hmem
    obtain ⟨bit, -, hbit⟩ := List.mem_map.1 hmem
    rw [← hbit]
    exact TokenKind.isBit_ofBit bit
  · have hlength := congrArg List.length hkinds
    rw [List.length_map, List.length_map] at hlength
    rw [hlength]
    exact h.checkWidth

/-- The line that prints a value is compiled to a program that prints the value's literal. -/
theorem compile_printed (c : RunConfig) (h : v.HasLiteral) :
    compile c (.line p d v.printed) p d = .ok ⟨[.print ⟨.print, p⟩ (v.literal p d)]⟩ := by
  have htokens : Token.line p d v.printed = ⟨.print, p⟩ :: ⟨v.type.marker, p.step d⟩ ::
      Token.line ((p.step d).step d) d (v.toBits.map TokenKind.ofBit) := by
    rw [Value.printed, Token.line_cons, Token.line_cons]
  rw [compile, scan_line _ h.length_printed_lt, htokens]
  have hparse := Program.parse_printLiteral (.line p d v.printed) ⟨.print, p⟩ rfl
    (h.wellFormed_literal p d)
  exact congrArg (Except.mapError RunError.parse) hparse

/-! ### Running them -/

theorem Value.HasLiteral.eval_literal (h : v.HasLiteral) (s : Settings) (vars : Scopes) {gas : Nat}
    (hgas : gas < s.gasLimit) : (v.literal p d).eval s vars gas = (.ok v, gas + 1) := by
  have hvalue : literalValue v.type ⟨v.type.marker, p.step d⟩
      (Token.line ((p.step d).step d) d (v.toBits.map TokenKind.ofBit)) = .ok v := by
    rw [literalValue, bitsOfTokens_of_kinds (Token.map_kind_line _ _ _)]
    exact congrArg _ h.ofBits?
  rw [Value.literal, Expr.eval, metered, if_neg (Nat.not_lt.2 hgas), hvalue]

theorem Program.run_printLiteral (h : v.HasLiteral) {s : Settings} (hgas : 2 ≤ s.gasLimit)
    (token : Token) (w : World) :
    run s ⟨[.print token (v.literal p d)]⟩ { world := w } =
      (.ok (), { gas := 2, world := w.emit v.text }) := by
  have hexec : (Stmt.print token (v.literal p d)).exec s (Machine.enter { world := w }) =
      (.ok .normal, { scopes := Scopes.enter {}, gas := 2, world := w.emit v.text }) := by
    rw [Stmt.exec, Machine.tick_of_lt (by exact Nat.lt_of_succ_lt hgas), Machine.eval,
      h.eval_literal p d s _ (by exact hgas)]
    rfl
  rw [run, Machine.inBlock_eq, Machine.rounds, runFrom_cons, hexec]
  cases s.gasLimit - (Machine.enter { world := w }).gas <;> rfl

end Printed

/-- On an otherwise empty grid, the cells that print a value do so: the run succeeds, emits the
value's text and nothing else, runs no command and leaves the grid as it is. This holds for every
value that has a literal, wherever the line starts and whichever way it goes, and under every
configuration that allows two units of gas. -/
theorem run_printed (c : RunConfig) (w : World) (p : Position) (d : Direction) (v : Value)
    (hliteral : v.HasLiteral) (hgas : 2 ≤ c.gasLimit.toNat) :
    let g := (Grid.empty.placeLine p d (v.printed.map TokenKind.symbol)).1
    (run c (w.onGrid g) p d).1 = .ok () ∧
      (run c (w.onGrid g) p d).2.texts = w.texts ++ [v.text] ∧
      (run c (w.onGrid g) p d).2.commands = w.commands ∧
      (run c (w.onGrid g) p d).2.writes = w.writes ∧
      (run c (w.onGrid g) p d).2.grid = g := by
  intro g
  have hcompile : compile c g p d = .ok ⟨[.print ⟨.print, p⟩ (v.literal p d)]⟩ :=
    compile_printed p d c hliteral
  have hrun : run c (w.onGrid g) p d = (.ok (), (w.onGrid g).act (.emitted v.text)) := by
    rw [run, compileAndRun, World.onGrid, hcompile]
    simp only [Program.run_printLiteral p d hliteral (s := c.settings) hgas]
    rfl
  rw [hrun]
  refine ⟨rfl, ?_, ?_, ?_, rfl⟩
  · exact World.filterMap_trace_act Effect.text? (w.onGrid g) _
  · exact (World.filterMap_trace_act Effect.command? (w.onGrid g) _).trans (List.append_nil _)
  · exact (World.filterMap_trace_act Effect.write? (w.onGrid g) _).trans (List.append_nil _)

/-- A text with a character beyond the seven-bit ones, on a line that wraps around. -/
theorem run_printed_acrossTheEdge :
    let p : Position := ⟨2147483640, 0, 0⟩
    let g := (Grid.empty.placeLine p .east ((Value.string "hé").printed.map TokenKind.symbol)).1
    (run {} { grid := g } p .east).1 = .ok () ∧ (run {} { grid := g } p .east).2.texts = ["hé"] := by
  obtain ⟨hresult, htexts, -⟩ := run_printed {} {} ⟨2147483640, 0, 0⟩ .east (.string "hé")
    ⟨by decide, by simp, by decide⟩ (by decide)
  exact ⟨hresult, htexts⟩

end CellScript
