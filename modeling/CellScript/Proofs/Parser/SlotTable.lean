/-
Module: CellScript.Proofs.Parser.SlotTable
Purpose: One account of all statements with slots. What the slots of a statement hold is a table by
  the kinds of their markers; the records that the parser keeps for each statement are views of
  such tables, and the statement is made from the table that was read.
Main exports: Parser.slotUse?, Parser.SlotTable, Parser.fillTable, Parser.readTable,
  Parser.assemble, Parser.statement_eq_assembled
-/
import CellScript.Proofs.Parser.Derivation
import Mathlib.Logic.Function.Basic

namespace CellScript.Parser

/-! ### What slots are for -/

/-- What stands in a slot: an expression, the statements of a branch, a single statement, or nothing
but the marker that points to a template. -/
inductive SlotUse where
  | value
  | branch
  | statement
  | template
deriving DecidableEq, Repr

/-- The slots of each statement: what a marker opens after the token of a statement, both given by
their kinds. -/
def slotUse? : TokenKind → TokenKind → Option SlotUse
  | .ifElse, .firstArgument => some .value
  | .ifElse, .secondArgument => some .branch
  | .ifElse, .thirdArgument => some .branch
  | .whileLoop, .firstArgument => some .value
  | .whileLoop, .secondArgument => some .branch
  | .forLoop, .firstArgument => some .statement
  | .forLoop, .secondArgument => some .value
  | .forLoop, .thirdArgument => some .statement
  | .forLoop, .fourthArgument => some .branch
  | .placeBlock, .firstArgument => some .value
  | .placeBlock, .secondArgument => some .value
  | .placeBlock, .thirdArgument => some .value
  | .placeBlock, .fourthArgument => some .template
  | _, _ => none

/-- What was read into a slot. -/
inductive Filling where
  | value (e : Expr)
  | branch (body : List Stmt)
  | statement (stmt : Stmt)
  | template (marker : Token)

namespace Filling

/-- The expression in a slot. -/
def value? : Filling → Option Expr
  | value e => some e
  | _ => none

/-- The statements of the branch in a slot. -/
def branch? : Filling → Option (List Stmt)
  | branch body => some body
  | _ => none

/-- The statement in a slot. -/
def statement? : Filling → Option Stmt
  | statement stmt => some stmt
  | _ => none

/-- The marker of a template. -/
def template? : Filling → Option Token
  | template marker => some marker
  | _ => none

end Filling

/-- What the slots of a statement hold, by the kinds of their markers. -/
abbrev SlotTable := TokenKind → Option Filling

/-- A table without contents. -/
def SlotTable.empty : SlotTable :=
  fun _ => none

/-- Whether all four slots are filled. -/
def SlotTable.isComplete (s : SlotTable) : Bool :=
  (s .firstArgument).isSome && (s .secondArgument).isSome && (s .thirdArgument).isSome &&
    (s .fourthArgument).isSome

/-- Read what a slot holds, after its marker. -/
def readSlot (room : Nat) (inner : Option StmtReader) (token : Token) (use : SlotUse)
    (marker : Token) (ts : List Token) : Except ParseError (Parsed Filling) :=
  match use with
  | .value => do
      let (e, rest) ← expression room ts
      return (.value e, rest)
  | .branch => do
      let (body, rest) ← branch inner marker ts
      return (.branch body, rest)
  | .statement => do
      let (stmt, rest) ← nested inner marker ts
      return (.statement stmt, rest)
  | .template =>
      let displacement := marker.pos - token.pos
      .ok (.template marker, skipLine displacement (marker.pos + displacement) ts)

/-- What a marker does to the slots of the statement that `token` starts. -/
def fillTable (room : Nat) (inner : Option StmtReader) (token : Token) (s : SlotTable)
    (marker : Token) (ts : List Token) : Option (Except ParseError (Parsed SlotTable)) :=
  match slotUse? token.kind marker.kind with
  | none => none
  | some use => some do
      let (filling, rest) ← once (s marker.kind) marker (readSlot room inner token use marker) ts
      return (Function.update s marker.kind (some filling), rest)

/-- Read slots until none is open or the input ends, and skip the tokens between them. -/
def placeTable (room : Nat) (inner : Option StmtReader) (token : Token) :
    Nat → SlotTable → List Token → Except ParseError (Parsed SlotTable)
  | 0, s, ts => .ok (s, ts)
  | _ + 1, s, [] => .ok (s, [])
  | fuel + 1, s, marker :: rest =>
      if s.isComplete then
        .ok (s, marker :: rest)
      else
        match fillTable room inner token s marker rest with
        | none => placeTable room inner token fuel s rest
        | some r => do
            let (s, rest) ← r
            placeTable room inner token fuel s rest

/-- The slots of the statement that `token` starts. -/
def readTable (room : Nat) (inner : Option StmtReader) (token : Token) (ts : List Token) :
    Except ParseError (Parsed SlotTable) :=
  if token.kind = .placeBlock then
    placeTable room inner token ts.length .empty ts
  else
    slots (fillTable room inner token) slotRounds .empty ts

/-- The statement that `token` starts, from what its slots hold. -/
def assemble (g : Grid) (token : Token) (s : SlotTable) : Except ParseError Stmt :=
  let value := fun kind => require ((s kind).bind Filling.value?) token kind
  let branch := fun kind => require ((s kind).bind Filling.branch?) token kind
  let statement := fun kind => require ((s kind).bind Filling.statement?) token kind
  match token.kind with
  | .ifElse => do
      let condition ← value .firstArgument
      let yes ← branch .secondArgument
      return .ifElse token condition yes ((s .thirdArgument).bind Filling.branch?)
  | .whileLoop => do
      let condition ← value .firstArgument
      let body ← branch .secondArgument
      return .whileLoop token condition body
  | .forLoop => do
      let init ← statement .firstArgument
      let condition ← value .secondArgument
      let increment ← statement .thirdArgument
      let body ← branch .fourthArgument
      return .forLoop token init condition increment body
  | .placeBlock => do
      let x ← value .firstArgument
      let y ← value .secondArgument
      let z ← value .thirdArgument
      let marker ← require ((s .fourthArgument).bind Filling.template?) token .fourthArgument
      let templatePos := marker.pos + (marker.pos - token.pos)
      return .place token x y z templatePos (g.symbolAt templatePos)
  | _ => .error (.unexpectedToken token)

/-! ### The records of slots are tables -/

/-- The slots of `IF` as a table. -/
def IfSlots.table (s : IfSlots) : SlotTable
  | .firstArgument => s.condition.map .value
  | .secondArgument => s.yes.map .branch
  | .thirdArgument => s.no.map .branch
  | _ => none

/-- The slots of `WHILE` as a table. -/
def WhileSlots.table (s : WhileSlots) : SlotTable
  | .firstArgument => s.condition.map .value
  | .secondArgument => s.body.map .branch
  | _ => none

/-- The slots of `FOR` as a table. -/
def ForSlots.table (s : ForSlots) : SlotTable
  | .firstArgument => s.init.map .statement
  | .secondArgument => s.condition.map .value
  | .thirdArgument => s.increment.map .statement
  | .fourthArgument => s.body.map .branch
  | _ => none

/-- The slots of `PLACEBLOCK` as a table. -/
def PlaceSlots.table (s : PlaceSlots) : SlotTable
  | .firstArgument => s.x.map .value
  | .secondArgument => s.y.map .value
  | .thirdArgument => s.z.map .value
  | .fourthArgument => s.fourth.map .template
  | _ => none

/-- What a marker does to the slots of `PLACEBLOCK`. -/
def fillPlace (room : Nat) (token : Token) (s : PlaceSlots) (marker : Token) (ts : List Token) :
    Option (Except ParseError (Parsed PlaceSlots)) :=
  match marker.kind with
  | .firstArgument => some do
      let (e, rest) ← once s.x marker (expression room) ts
      return ({ s with x := some e }, rest)
  | .secondArgument => some do
      let (e, rest) ← once s.y marker (expression room) ts
      return ({ s with y := some e }, rest)
  | .thirdArgument => some do
      let (e, rest) ← once s.z marker (expression room) ts
      return ({ s with z := some e }, rest)
  | .fourthArgument => some do
      let displacement := marker.pos - token.pos
      let (m, rest) ←
        once s.fourth marker
          (fun ts => .ok (marker, skipLine displacement (marker.pos + displacement) ts)) ts
      return ({ s with fourth := some m }, rest)
  | _ => none

/-- One round of the loop over the slots of `PLACEBLOCK`. -/
theorem placeSlots_cons (room : Nat) (token : Token) (fuel : Nat) (s : PlaceSlots) (marker : Token)
    (rest : List Token) :
    placeSlots room token (fuel + 1) s (marker :: rest) =
      if s.isComplete then
        .ok (s, marker :: rest)
      else
        match fillPlace room token s marker rest with
        | none => placeSlots room token fuel s rest
        | some r => r >>= fun (s, rest) => placeSlots room token fuel s rest := by
  rw [placeSlots]
  congr 1
  split
  · simp only [fillPlace, ‹marker.kind = _›]
    cases once s.x marker (expression room) rest <;> rfl
  · simp only [fillPlace, ‹marker.kind = _›]
    cases once s.y marker (expression room) rest <;> rfl
  · simp only [fillPlace, ‹marker.kind = _›]
    cases once s.z marker (expression room) rest <;> rfl
  · simp only [fillPlace, ‹marker.kind = _›]
    cases s.fourth <;> rfl
  · have hnone : fillPlace room token s marker rest = none := by
      unfold fillPlace
      split <;> simp_all
    rw [hnone]

/-- The outcome of reading slots, seen as a table. -/
def viewed {σ : Type} (view : σ → SlotTable) (r : Except ParseError (Parsed σ)) :
    Except ParseError (Parsed SlotTable) := do
  let (s, rest) ← r
  return (view s, rest)

/-- Filling a slot of a record fills the slot of its table. -/
theorem fillTable_view {σ α : Type} (view : σ → SlotTable) (hold : α → Filling) (put : α → σ)
    {room : Nat} {inner : Option StmtReader} {token marker : Token} {statement kind : TokenKind}
    {use : SlotUse} {s : σ} {slot : Option α} {read : List Token → Except ParseError (Parsed α)}
    (hstatement : token.kind = statement) (hmarker : marker.kind = kind)
    (huse : slotUse? statement kind = some use)
    (hread : readSlot room inner token use marker = fun ts => do
      let (a, rest) ← read ts
      return (hold a, rest))
    (hslot : view s kind = slot.map hold)
    (hput : ∀ a, view (put a) = Function.update (view s) kind (some (hold a)))
    (ts : List Token) :
    fillTable room inner token (view s) marker ts = some (viewed view do
      let (a, rest) ← once slot marker read ts
      return (put a, rest)) := by
  simp only [fillTable, hstatement, hmarker, huse, hread, hslot]
  cases slot with
  | some a => rfl
  | none =>
      simp only [once, Option.map_none]
      cases read ts with
      | error e => rfl
      | ok r =>
          show some (Except.ok _) = some (Except.ok _)
          rw [hput]

section Records

variable (room : Nat) (inner : Option StmtReader) {token : Token} (marker : Token)
  (ts : List Token)

theorem fillTable_if (hkind : token.kind = .ifElse) (s : IfSlots) :
    fillTable room inner token s.table marker ts =
      (fillIf room inner s marker ts).map (viewed IfSlots.table) := by
  unfold fillIf
  split
  · exact fillTable_view IfSlots.table .value (fun a => { s with condition := some a }) hkind ‹_›
      rfl rfl rfl (fun _ => funext fun k => by cases k <;> rfl) ts
  · exact fillTable_view IfSlots.table .branch (fun a => { s with yes := some a }) hkind ‹_›
      rfl rfl rfl (fun _ => funext fun k => by cases k <;> rfl) ts
  · exact fillTable_view IfSlots.table .branch (fun a => { s with no := some a }) hkind ‹_›
      rfl rfl rfl (fun _ => funext fun k => by cases k <;> rfl) ts
  · have hnone : slotUse? .ifElse marker.kind = none := by
      unfold slotUse?
      split <;> simp_all
    simp only [fillTable, hkind, hnone, Option.map_none]

theorem fillTable_while (hkind : token.kind = .whileLoop) (s : WhileSlots) :
    fillTable room inner token s.table marker ts =
      (fillWhile room inner s marker ts).map (viewed WhileSlots.table) := by
  unfold fillWhile
  split
  · exact fillTable_view WhileSlots.table .value (fun a => { s with condition := some a }) hkind ‹_›
      rfl rfl rfl (fun _ => funext fun k => by cases k <;> rfl) ts
  · exact fillTable_view WhileSlots.table .branch (fun a => { s with body := some a }) hkind ‹_›
      rfl rfl rfl (fun _ => funext fun k => by cases k <;> rfl) ts
  · have hnone : slotUse? .whileLoop marker.kind = none := by
      unfold slotUse?
      split <;> simp_all
    simp only [fillTable, hkind, hnone, Option.map_none]

theorem fillTable_for (hkind : token.kind = .forLoop) (s : ForSlots) :
    fillTable room inner token s.table marker ts =
      (fillFor room inner s marker ts).map (viewed ForSlots.table) := by
  unfold fillFor
  split
  · exact fillTable_view ForSlots.table .statement (fun a => { s with init := some a }) hkind ‹_›
      rfl rfl rfl (fun _ => funext fun k => by cases k <;> rfl) ts
  · exact fillTable_view ForSlots.table .value (fun a => { s with condition := some a }) hkind ‹_›
      rfl rfl rfl (fun _ => funext fun k => by cases k <;> rfl) ts
  · exact fillTable_view ForSlots.table .statement (fun a => { s with increment := some a }) hkind
      ‹_› rfl rfl rfl (fun _ => funext fun k => by cases k <;> rfl) ts
  · exact fillTable_view ForSlots.table .branch (fun a => { s with body := some a }) hkind ‹_›
      rfl rfl rfl (fun _ => funext fun k => by cases k <;> rfl) ts
  · have hnone : slotUse? .forLoop marker.kind = none := by
      unfold slotUse?
      split <;> simp_all
    simp only [fillTable, hkind, hnone, Option.map_none]

theorem fillTable_place (hkind : token.kind = .placeBlock) (s : PlaceSlots) :
    fillTable room inner token s.table marker ts =
      (fillPlace room token s marker ts).map (viewed PlaceSlots.table) := by
  unfold fillPlace
  split
  · exact fillTable_view PlaceSlots.table .value (fun a => { s with x := some a }) hkind ‹_›
      rfl rfl rfl (fun _ => funext fun k => by cases k <;> rfl) ts
  · exact fillTable_view PlaceSlots.table .value (fun a => { s with y := some a }) hkind ‹_›
      rfl rfl rfl (fun _ => funext fun k => by cases k <;> rfl) ts
  · exact fillTable_view PlaceSlots.table .value (fun a => { s with z := some a }) hkind ‹_›
      rfl rfl rfl (fun _ => funext fun k => by cases k <;> rfl) ts
  · exact fillTable_view PlaceSlots.table .template (fun a => { s with fourth := some a }) hkind ‹_›
      rfl rfl rfl (fun _ => funext fun k => by cases k <;> rfl) ts
  · have hnone : slotUse? .placeBlock marker.kind = none := by
      unfold slotUse?
      split <;> simp_all
    simp only [fillTable, hkind, hnone, Option.map_none]

end Records

/-- If each filling of a record is one of its table, then so are all. -/
theorem slots_view {σ : Type} {view : σ → SlotTable}
    {fill : σ → Token → List Token → Option (Except ParseError (Parsed σ))}
    {fillView : SlotTable → Token → List Token → Option (Except ParseError (Parsed SlotTable))}
    (hfill : ∀ s marker ts, fillView (view s) marker ts = (fill s marker ts).map (viewed view))
    (fuel : Nat) (s : σ) (ts : List Token) :
    slots fillView fuel (view s) ts = viewed view (slots fill fuel s ts) := by
  induction fuel generalizing s ts with
  | zero => rfl
  | succ fuel ih =>
      cases ts with
      | nil => rfl
      | cons marker ts =>
          rw [slots, slots, hfill]
          cases fill s marker ts with
          | none => rfl
          | some r =>
              cases r with
              | error e => rfl
              | ok r => exact ih r.1 r.2

theorem PlaceSlots.isComplete_table (s : PlaceSlots) : s.table.isComplete = s.isComplete := by
  simp [SlotTable.isComplete, PlaceSlots.isComplete, PlaceSlots.table]

theorem placeTable_view (room : Nat) (inner : Option StmtReader) {token : Token}
    (hkind : token.kind = .placeBlock) (fuel : Nat) (s : PlaceSlots) (ts : List Token) :
    placeTable room inner token fuel s.table ts =
      viewed PlaceSlots.table (placeSlots room token fuel s ts) := by
  induction fuel generalizing s ts with
  | zero => rfl
  | succ fuel ih =>
      cases ts with
      | nil => rfl
      | cons marker ts =>
          rw [placeTable, placeSlots_cons, s.isComplete_table, fillTable_place room inner _ _ hkind]
          cases s.isComplete with
          | true => rfl
          | false =>
              cases fillPlace room token s marker ts with
              | none => exact ih s ts
              | some r =>
                  cases r with
                  | error e => rfl
                  | ok r => exact ih r.1 r.2

/-! ### Statements with slots -/

/-- Whether a statement that a token of this kind starts has slots. -/
def hasSlots : TokenKind → Bool
  | .ifElse | .whileLoop | .forLoop | .placeBlock => true
  | _ => false

/-- The statement from a table that was read. -/
def assembled (g : Grid) (token : Token) (r : Except ParseError (Parsed SlotTable)) :
    Except ParseError (Parsed Stmt) := do
  let (s, rest) ← r
  let stmt ← assemble g token s
  return (stmt, rest)

section Statements

variable (g : Grid) (room : Nat) (inner : Option StmtReader) {token : Token} (ts : List Token)

theorem ifElse_eq_assembled (hkind : token.kind = .ifElse) :
    ifElse room inner token ts = assembled g token (readTable room inner token ts) := by
  have hempty : SlotTable.empty = ({} : IfSlots).table := funext fun k => by cases k <;> rfl
  have hfill := fun s marker ts => fillTable_if room inner marker ts hkind s
  simp only [readTable, hkind, reduceCtorEq, if_false, hempty, slots_view hfill, ifElse]
  cases slots (fillIf room inner) slotRounds {} ts with
  | error e => rfl
  | ok r =>
      obtain ⟨⟨condition, yes, no⟩, rest⟩ := r
      simp only [assembled, viewed, bind, Except.bind, assemble, hkind]
      cases condition <;> cases yes <;> cases no <;> rfl

theorem whileLoop_eq_assembled (hkind : token.kind = .whileLoop) :
    whileLoop room inner token ts = assembled g token (readTable room inner token ts) := by
  have hempty : SlotTable.empty = ({} : WhileSlots).table := funext fun k => by cases k <;> rfl
  have hfill := fun s marker ts => fillTable_while room inner marker ts hkind s
  simp only [readTable, hkind, reduceCtorEq, if_false, hempty, slots_view hfill, whileLoop]
  cases slots (fillWhile room inner) slotRounds {} ts with
  | error e => rfl
  | ok r =>
      obtain ⟨⟨condition, body⟩, rest⟩ := r
      simp only [assembled, viewed, bind, Except.bind, assemble, hkind]
      cases condition <;> cases body <;> rfl

theorem forLoop_eq_assembled (hkind : token.kind = .forLoop) :
    forLoop room inner token ts = assembled g token (readTable room inner token ts) := by
  have hempty : SlotTable.empty = ({} : ForSlots).table := funext fun k => by cases k <;> rfl
  have hfill := fun s marker ts => fillTable_for room inner marker ts hkind s
  simp only [readTable, hkind, reduceCtorEq, if_false, hempty, slots_view hfill, forLoop]
  cases slots (fillFor room inner) slotRounds {} ts with
  | error e => rfl
  | ok r =>
      obtain ⟨⟨init, condition, increment, body⟩, rest⟩ := r
      simp only [assembled, viewed, bind, Except.bind, assemble, hkind]
      cases init <;> cases condition <;> cases increment <;> cases body <;> rfl

theorem place_eq_assembled (hkind : token.kind = .placeBlock) :
    place g room token ts = assembled g token (readTable room inner token ts) := by
  have hempty : SlotTable.empty = ({} : PlaceSlots).table := funext fun k => by cases k <;> rfl
  simp only [readTable, hkind, if_true, hempty, placeTable_view room inner hkind, place]
  cases placeSlots room token ts.length {} ts with
  | error e => rfl
  | ok r =>
      obtain ⟨⟨x, y, z, fourth⟩, rest⟩ := r
      simp only [assembled, viewed, bind, Except.bind, assemble, hkind]
      cases x <;> cases y <;> cases z <;> cases fourth <;> rfl

/-- All statements with slots are read in the same way: what the slots hold is read into a table,
and the statement is made from the table. -/
theorem statement_eq_assembled (hslots : hasSlots token.kind = true) :
    statement g room inner (token :: ts) =
      assembled g token (readTable room inner token ts) := by
  unfold hasSlots at hslots
  split at hslots
  · rename_i hkind
    rw [statement_cons, statementFrom, ← ifElse_eq_assembled g room inner ts hkind]
    simp only [hkind]
  · rename_i hkind
    rw [statement_cons, statementFrom, ← whileLoop_eq_assembled g room inner ts hkind]
    simp only [hkind]
  · rename_i hkind
    rw [statement_cons, statementFrom, ← forLoop_eq_assembled g room inner ts hkind]
    simp only [hkind]
  · rename_i hkind
    rw [statement_cons, statementFrom, ← place_eq_assembled g room inner ts hkind]
    simp only [hkind]
  · cases hslots

end Statements

end CellScript.Parser
