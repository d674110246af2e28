/-
Module: CellScript.Proofs.Parser.Likeness
Purpose: Parsers that are given corresponding tokens read corresponding trees or have corresponding
  errors.
Main exports: Parser.ReadAlike, Parser.andThen_alike, Parser.expression_alike, Parser.slots_alike,
  Parser.statement_alike, Program.parse_alike
-/
import CellScript.Program.Parser
import CellScript.Proofs.Likeness

namespace CellScript

namespace Parser

variable {L : Likeness} {ts ts' : List Token} {t t' : Token}

/-- Both read something that `A` relates and go on with corresponding tokens, or both fail. -/
abbrev ReadAlike {α : Type} (L : Likeness) (A : α → α → Prop) :
    Except ParseError (Parsed α) → Except ParseError (Parsed α) → Prop :=
  Agree (ParseError.Alike L) fun r r' => A r.1 r'.1 ∧ L.Tokens r.2 r'.2

/-- Going on after two parsers, with what they read and the tokens after it. -/
theorem andThen_alike {α β : Type} {A : α → α → Prop} {B : β → β → Prop}
    {r r' : Except ParseError (Parsed α)} {f f' : Parsed α → Except ParseError β}
    (h : ReadAlike L A r r')
    (hf : ∀ a a' rest rest', A a a' → L.Tokens rest rest' →
      Agree (ParseError.Alike L) B (f (a, rest)) (f' (a', rest'))) :
    Agree (ParseError.Alike L) B (r >>= f) (r' >>= f') :=
  h.bind fun a b hab => hf a.1 b.1 a.2 b.2 hab.1 hab.2

/-! ### Single tokens and lines of tokens -/

theorem deeper_alike {α : Type} {A : α → α → Prop} {inner inner' : Option α}
    (hinner : Option.Rel A inner inner') (ht : L.Token t t') :
    Agree (ParseError.Alike L) A (deeper inner t) (deeper inner' t') := by
  cases hinner with
  | some h => exact .ok h
  | none => exact .error (.nestingTooDeep ht)

theorem expect_alike (kind : TokenKind) (hts : L.Tokens ts ts') :
    Agree (ParseError.Alike L) L.Tokens (expect kind ts) (expect kind ts') := by
  cases hts with
  | nil => exact .error .endBeforeKind
  | cons ht hts =>
      simp only [expect, ht.kind]
      split
      · exact .ok hts
      · exact .error (.expectedKind ht)

/-- The indices at the front and what comes after them. -/
theorem span_isIndex (hts : L.Tokens ts ts') :
    L.Tokens (ts.takeWhile isIndex) (ts'.takeWhile isIndex) ∧
      L.Tokens (ts.dropWhile isIndex) (ts'.dropWhile isIndex) := by
  apply hts.takeWhile_dropWhile
  intro t t' ht
  rw [isIndex, isIndex, ht.kind]

/-- Corresponding markers name the same type. -/
theorem markedType_alike {type : ValueType} (ht : L.Token t t')
    (htype : ValueType.ofKind? t.kind = some type) :
    markedType t = .ok type ∧ markedType t' = .ok type :=
  ⟨markedType_eq htype, markedType_eq (ht.kind ▸ htype)⟩

theorem literal_alike {type : ValueType} (ht : L.Token t t')
    (htype : ValueType.ofKind? t.kind = some type) (hts : L.Tokens ts ts') :
    ReadAlike L (Expr.Alike L) (literal t ts) (literal t' ts') := by
  obtain ⟨hbits, hrest⟩ :=
    hts.takeWhile_dropWhile (c := fun t => t.kind.isBit) fun t t' ht => by rw [ht.kind]
  obtain ⟨hmarked, hmarked'⟩ := markedType_alike ht htype
  rw [literal, literal, bind_of_ok hmarked, bind_of_ok hmarked']
  simp only [← hbits.length_eq]
  split
  · exact .ok ⟨.literal ht hbits, hrest⟩
  · exact .error (.malformedLiteral ht)

/-!
### Expressions

As the parsers themselves, each lemma goes from the parsers with one level less to the next.
-/

/-- Corresponding tasks: the left sides of chains correspond. -/
inductive Part.Alike (L : Likeness) : Part → Part → Prop where
  | factor : Alike L .factor .factor
  | term : Alike L .term .term
  | termRest {left left' : Expr} : left.Alike L left' → Alike L (.termRest left) (.termRest left')
  | sum : Alike L .sum .sum
  | sumRest {left left' : Expr} : left.Alike L left' → Alike L (.sumRest left) (.sumRest left')

/-- Parsers that have corresponding results on corresponding tokens. -/
def ReadersAlike (L : Likeness) (read read' : Reader) : Prop :=
  ∀ {p p'}, p.Alike L p' → ∀ {ts ts'}, L.Tokens ts ts' →
    ReadAlike L (Expr.Alike L) (read p ts) (read' p' ts')

section Expression

variable {inner inner' : Option Reader} (hinner : Option.Rel (ReadersAlike L) inner inner')

include hinner

theorem enter_alike (hts : L.Tokens ts ts') :
    ReadAlike L (Expr.Alike L) (enter inner ts) (enter inner' ts') := by
  cases hts with
  | nil => exact .error .endBeforeValue
  | cons ht hts =>
      apply (deeper_alike hinner ht).bind
      intro read read' hread
      exact hread .sum (.cons ht hts)

theorem factor_alike (hts : L.Tokens ts ts') :
    ReadAlike L (Expr.Alike L) (factor inner ts) (factor inner' ts') := by
  cases hts with
  | nil => exact .error .endBeforeValue
  | cons ht hts =>
      simp only [factor_cons, factorFrom, ht.kind]
      split
      · -- a unary operator
        apply (deeper_alike hinner ht).bind
        intro read read' hread
        apply andThen_alike (hread .factor hts)
        intro operand operand' rest rest' hoperand hrest
        exact .ok ⟨.unary ht hoperand, hrest⟩
      · split
        · -- a parenthesis
          apply andThen_alike (enter_alike hinner hts)
          intro e e' rest rest' he hrest
          apply (expect_alike .rpar hrest).bind
          intro rest rest' hrest
          exact .ok ⟨he, hrest⟩
        · -- the four kinds of the list are markers of types
          exact literal_alike ht (congrArg ValueType.ofKind? ‹_›) hts
        · exact literal_alike ht (congrArg ValueType.ofKind? ‹_›) hts
        · exact literal_alike ht (congrArg ValueType.ofKind? ‹_›) hts
        · exact literal_alike ht (congrArg ValueType.ofKind? ‹_›) hts
        · exact .ok ⟨.var ht (span_isIndex hts).1, (span_isIndex hts).2⟩
        · exact .ok ⟨.constant ht, hts⟩
        · exact .ok ⟨.constant ht, hts⟩
        · exact .error (.expectedValue ht)

theorem chainRest_alike (op? : TokenKind → Option BinaryOp) {operand : Part}
    (hoperand : operand.Alike L operand) {again : Expr → Part}
    (hagain : ∀ {e e'}, e.Alike L e' → (again e).Alike L (again e')) {left left' : Expr}
    (hleft : left.Alike L left') (hts : L.Tokens ts ts') :
    ReadAlike L (Expr.Alike L) (chainRest op? operand again inner left ts)
      (chainRest op? operand again inner' left' ts') := by
  cases hts with
  | nil => exact .ok ⟨hleft, .nil⟩
  | @cons t t' ts ts' ht hts =>
      cases hop : op? t'.kind with
      | none =>
        rw [chainRest_of_none (ht.kind ▸ hop), chainRest_of_none hop]
        exact .ok ⟨hleft, .cons ht hts⟩
      | some op =>
        rw [chainRest_of_some (ht.kind ▸ hop), chainRest_of_some hop]
        apply (deeper_alike hinner ht).bind
        intro read read' hread
        apply andThen_alike (hread hoperand hts)
        intro right right' rest rest' hright hrest
        exact hread (hagain (.binary ht hleft hright)) hrest

theorem termRest_alike {left left' : Expr} (hleft : left.Alike L left') (hts : L.Tokens ts ts') :
    ReadAlike L (Expr.Alike L) (termRest inner left ts) (termRest inner' left' ts') :=
  chainRest_alike hinner _ .factor .termRest hleft hts

theorem sumRest_alike {left left' : Expr} (hleft : left.Alike L left') (hts : L.Tokens ts ts') :
    ReadAlike L (Expr.Alike L) (sumRest inner left ts) (sumRest inner' left' ts') :=
  chainRest_alike hinner _ .term .sumRest hleft hts

theorem term_alike (hts : L.Tokens ts ts') :
    ReadAlike L (Expr.Alike L) (term inner ts) (term inner' ts') := by
  apply andThen_alike (factor_alike hinner hts)
  intro left left' rest rest' hleft hrest
  exact termRest_alike hinner hleft hrest

theorem sum_alike (hts : L.Tokens ts ts') :
    ReadAlike L (Expr.Alike L) (sum inner ts) (sum inner' ts') := by
  apply andThen_alike (term_alike hinner hts)
  intro left left' rest rest' hleft hrest
  exact sumRest_alike hinner hleft hrest

theorem part_alike : ReadersAlike L (part inner) (part inner') := by
  intro p p' hp ts ts' hts
  cases hp with
  | factor => exact factor_alike hinner hts
  | term => exact term_alike hinner hts
  | termRest hleft => exact termRest_alike hinner hleft hts
  | sum => exact sum_alike hinner hts
  | sumRest hleft => exact sumRest_alike hinner hleft hts

end Expression

theorem reader_alike (room : Nat) : ReadersAlike L (reader room) (reader room) := by
  induction room with
  | zero => exact part_alike .none
  | succ room ih => exact part_alike (.some ih)

theorem expression_alike (room : Nat) (hts : L.Tokens ts ts') :
    ReadAlike L (Expr.Alike L) (expression room ts) (expression room ts') := by
  refine enter_alike ?_ hts
  cases room with
  | zero => exact .none
  | succ room => exact .some (reader_alike room)

/-! ### Slots -/

/-- Parsers of statements that have corresponding results on corresponding tokens. -/
def StmtReadersAlike (L : Likeness) (read read' : StmtReader) : Prop :=
  ∀ {ts ts'}, L.Tokens ts ts' → ReadAlike L (Stmt.Alike L) (read ts) (read' ts')

section Slots

variable {α : Type} {A : α → α → Prop} {slot slot' : Option α}

theorem once_alike (hslot : Option.Rel A slot slot') (ht : L.Token t t')
    {read read' : List Token → Except ParseError (Parsed α)}
    (hread : ReadAlike L A (read ts) (read' ts')) :
    ReadAlike L A (once slot t read ts) (once slot' t' read' ts') := by
  cases hslot with
  | some _ => exact .error (.duplicateArgument ht)
  | none => exact hread

theorem require_alike (hslot : Option.Rel A slot slot') (ht : L.Token t t') (kind : TokenKind) :
    Agree (ParseError.Alike L) A (require slot t kind) (require slot' t' kind) := by
  cases hslot with
  | some h => exact .ok h
  | none => exact .error (.missingArgument ht)

theorem isSome_eq (hslot : Option.Rel A slot slot') : slot'.isSome = slot.isSome := by
  cases hslot <;> rfl

/-- Slots are filled alike by rounds that do alike. -/
theorem slots_alike {σ : Type} {S : σ → σ → Prop}
    {fill fill' : σ → Token → List Token → Option (Except ParseError (Parsed σ))}
    (hfill : ∀ {s s' t t' ts ts'}, S s s' → L.Token t t' → L.Tokens ts ts' →
      Option.Rel (ReadAlike L S) (fill s t ts) (fill' s' t' ts'))
    (fuel : Nat) {s s' : σ} (hs : S s s') (hts : L.Tokens ts ts') :
    ReadAlike L S (slots fill fuel s ts) (slots fill' fuel s' ts') := by
  induction fuel generalizing s s' ts ts' with
  | zero => exact .ok ⟨hs, hts⟩
  | succ fuel ih =>
      cases hts with
      | nil => exact .ok ⟨hs, .nil⟩
      | @cons t t' rest rest' ht hrest =>
          have hround := hfill hs ht hrest
          unfold slots
          generalize fill s t rest = round at hround
          generalize fill' s' t' rest' = round' at hround
          cases hround with
          | none => exact .ok ⟨hs, .cons ht hrest⟩
          | some hround =>
              cases hround with
              | error he => exact .error he
              | ok h => exact ih h.1 h.2

end Slots

/-! ### Assignment and placing a block -/

theorem assignment_alike (room : Nat) {type : ValueType} (ht : L.Token t t')
    (htype : ValueType.ofKind? t.kind = some type) (hts : L.Tokens ts ts') :
    ReadAlike L (Stmt.Alike L) (assignment room t ts) (assignment room t' ts') := by
  obtain ⟨hchain, hvalue⟩ := span_isIndex hts
  obtain ⟨hmarked, hmarked'⟩ := markedType_alike ht htype
  rw [assignment, assignment, bind_of_ok hmarked, bind_of_ok hmarked']
  generalize ts.takeWhile isIndex = chain at hchain
  generalize ts'.takeWhile isIndex = chain' at hchain
  cases hchain with
  | nil =>
      apply andThen_alike (expression_alike room hts)
      intro value value' rest rest' hvalue hrest
      exact .ok ⟨.assign ht (span_isIndex hrest).1 hvalue, (span_isIndex hrest).2⟩
  | cons hfirst hchain =>
      apply andThen_alike (expression_alike room hvalue)
      intro value value' rest rest' hvalue hrest
      exact .ok ⟨.assign ht (.cons hfirst hchain) hvalue, hrest⟩

/-- Slots of `PLACEBLOCK` with corresponding contents. -/
structure PlaceSlots.Alike (L : Likeness) (s s' : PlaceSlots) : Prop where
  x : Option.Rel (Expr.Alike L) s.x s'.x
  y : Option.Rel (Expr.Alike L) s.y s'.y
  z : Option.Rel (Expr.Alike L) s.z s'.z
  fourth : Option.Rel L.Token s.fourth s'.fourth

section Place

variable {g g' : Grid} (hg : L.Grids g g')

include hg

/-- A line of cells ends at the same place on both sides, since each is as far from the one before
it. -/
theorem skipLine_alike (displacement : Position) {p p' : Position} (hp : L.pos p p')
    (hts : L.Tokens ts ts') :
    L.Tokens (skipLine displacement p ts) (skipLine displacement p' ts') := by
  induction hts generalizing p p' with
  | nil => exact .nil
  | cons ht hts ih =>
      simp only [skipLine, hg.eq_iff ht.pos hp]
      split
      · exact ih (hg.add hp displacement)
      · exact .cons ht hts

theorem placeSlots_alike (room : Nat) (ht : L.Token t t') (fuel : Nat) {s s' : PlaceSlots}
    (hs : s.Alike L s') (hts : L.Tokens ts ts') :
    ReadAlike L (PlaceSlots.Alike L) (placeSlots room t fuel s ts)
      (placeSlots room t' fuel s' ts') := by
  induction fuel generalizing s s' ts ts' with
  | zero => exact .ok ⟨hs, hts⟩
  | succ fuel ih =>
      cases hts with
      | nil => exact .ok ⟨hs, .nil⟩
      | @cons marker marker' rest rest' hmarker hrest =>
          have hcomplete : s'.isComplete = s.isComplete := by
            simp only [PlaceSlots.isComplete, isSome_eq hs.x, isSome_eq hs.y, isSome_eq hs.z,
              isSome_eq hs.fourth]
          simp only [placeSlots, hcomplete, hmarker.kind, hg.sub_eq hmarker.pos ht.pos]
          split
          · exact .ok ⟨hs, .cons hmarker hrest⟩
          · split
            · apply andThen_alike (once_alike hs.x hmarker (expression_alike room hrest))
              intro e e' rest rest' he hrest
              exact ih { hs with x := .some he } hrest
            · apply andThen_alike (once_alike hs.y hmarker (expression_alike room hrest))
              intro e e' rest rest' he hrest
              exact ih { hs with y := .some he } hrest
            · apply andThen_alike (once_alike hs.z hmarker (expression_alike room hrest))
              intro e e' rest rest' he hrest
              exact ih { hs with z := .some he } hrest
            · have hline := skipLine_alike hg (marker.pos - t.pos)
                (hg.add hmarker.pos (marker.pos - t.pos)) hrest
              apply andThen_alike (once_alike hs.fourth hmarker (.ok ⟨hmarker, hline⟩))
              intro m m' rest rest' hm hrest
              exact ih { hs with fourth := .some hm } hrest
            · exact ih hs hrest

theorem place_alike (room : Nat) (ht : L.Token t t') (hts : L.Tokens ts ts') :
    ReadAlike L (Stmt.Alike L) (place g room t ts) (place g' room t' ts') := by
  unfold place
  rw [← hts.length_eq]
  apply andThen_alike (placeSlots_alike hg room ht ts.length ⟨.none, .none, .none, .none⟩ hts)
  intro s s' rest rest' hs hrest
  apply (require_alike hs.x ht _).bind
  intro x x' hx
  apply (require_alike hs.y ht _).bind
  intro y y' hy
  apply (require_alike hs.z ht _).bind
  intro z z' hz
  apply (require_alike hs.fourth ht _).bind
  intro marker marker' hmarker
  have htemplate := hg.add hmarker.pos (marker.pos - t.pos)
  simp only [hg.sub_eq hmarker.pos ht.pos, hg.symbolAt htemplate]
  exact .ok ⟨.place ht hx hy hz htemplate, hrest⟩

end Place

/-! ### Branches and loops -/

theorem block_alike {read read' : StmtReader} (hread : StmtReadersAlike L read read') (fuel : Nat)
    (hts : L.Tokens ts ts') :
    ReadAlike L (Stmt.AllAlike L) (block read fuel ts) (block read' fuel ts') := by
  induction fuel generalizing ts ts' with
  | zero => exact .error .endBeforeKind
  | succ fuel ih =>
      cases hts with
      | nil => exact .error .endBeforeKind
      | cons ht hts =>
          simp only [block, ht.kind]
          split
          · exact .ok ⟨.nil, hts⟩
          · apply andThen_alike (hread (.cons ht hts))
            intro first first' rest rest' hfirst hrest
            apply andThen_alike (ih hrest)
            intro others others' rest rest' hothers hrest
            exact .ok ⟨.cons hfirst hothers, hrest⟩

section Inner

variable {inner inner' : Option StmtReader} (hinner : Option.Rel (StmtReadersAlike L) inner inner')

include hinner

theorem branch_alike (ht : L.Token t t') (hts : L.Tokens ts ts') :
    ReadAlike L (Stmt.AllAlike L) (branch inner t ts) (branch inner' t' ts') := by
  apply (deeper_alike hinner ht).bind
  intro read read' hread
  rw [← hts.length_eq]
  exact block_alike hread _ hts

theorem nested_alike (ht : L.Token t t') (hts : L.Tokens ts ts') :
    ReadAlike L (Stmt.Alike L) (nested inner t ts) (nested inner' t' ts') := by
  apply (deeper_alike hinner ht).bind
  intro read read' hread
  exact hread hts

end Inner

/-- Slots of `IF` with corresponding contents. -/
structure IfSlots.Alike (L : Likeness) (s s' : IfSlots) : Prop where
  condition : Option.Rel (Expr.Alike L) s.condition s'.condition
  yes : Option.Rel (Stmt.AllAlike L) s.yes s'.yes
  no : Option.Rel (Stmt.AllAlike L) s.no s'.no

/-- Slots of `WHILE` with corresponding contents. -/
structure WhileSlots.Alike (L : Likeness) (s s' : WhileSlots) : Prop where
  condition : Option.Rel (Expr.Alike L) s.condition s'.condition
  body : Option.Rel (Stmt.AllAlike L) s.body s'.body

/-- Slots of `FOR` with corresponding contents. -/
structure ForSlots.Alike (L : Likeness) (s s' : ForSlots) : Prop where
  init : Option.Rel (Stmt.Alike L) s.init s'.init
  condition : Option.Rel (Expr.Alike L) s.condition s'.condition
  increment : Option.Rel (Stmt.Alike L) s.increment s'.increment
  body : Option.Rel (Stmt.AllAlike L) s.body s'.body

section Inner

variable {inner inner' : Option StmtReader} (hinner : Option.Rel (StmtReadersAlike L) inner inner')

include hinner

theorem fillIf_alike (room : Nat) {s s' : IfSlots} (hs : s.Alike L s') (ht : L.Token t t')
    (hts : L.Tokens ts ts') :
    Option.Rel (ReadAlike L (IfSlots.Alike L)) (fillIf room inner s t ts)
      (fillIf room inner' s' t' ts') := by
  simp only [fillIf, ht.kind]
  split
  · constructor
    apply andThen_alike (once_alike hs.condition ht (expression_alike room hts))
    intro e e' rest rest' he hrest
    exact .ok ⟨{ hs with condition := .some he }, hrest⟩
  · constructor
    apply andThen_alike (once_alike hs.yes ht (branch_alike hinner ht hts))
    intro b b' rest rest' hb hrest
    exact .ok ⟨{ hs with yes := .some hb }, hrest⟩
  · constructor
    apply andThen_alike (once_alike hs.no ht (branch_alike hinner ht hts))
    intro b b' rest rest' hb hrest
    exact .ok ⟨{ hs with no := .some hb }, hrest⟩
  · exact .none

theorem ifElse_alike (room : Nat) (ht : L.Token t t') (hts : L.Tokens ts ts') :
    ReadAlike L (Stmt.Alike L) (ifElse room inner t ts) (ifElse room inner' t' ts') := by
  apply andThen_alike (slots_alike (fillIf_alike hinner room) slotRounds ⟨.none, .none, .none⟩ hts)
  intro s s' rest rest' hs hrest
  apply (require_alike hs.condition ht _).bind
  intro condition condition' hcondition
  apply (require_alike hs.yes ht _).bind
  intro yes yes' hyes
  exact .ok ⟨.ifElse ht hcondition hyes (.of_rel hs.no), hrest⟩

theorem fillWhile_alike (room : Nat) {s s' : WhileSlots} (hs : s.Alike L s') (ht : L.Token t t')
    (hts : L.Tokens ts ts') :
    Option.Rel (ReadAlike L (WhileSlots.Alike L)) (fillWhile room inner s t ts)
      (fillWhile room inner' s' t' ts') := by
  simp only [fillWhile, ht.kind]
  split
  · constructor
    apply andThen_alike (once_alike hs.condition ht (expression_alike room hts))
    intro e e' rest rest' he hrest
    exact .ok ⟨{ hs with condition := .some he }, hrest⟩
  · constructor
    apply andThen_alike (once_alike hs.body ht (branch_alike hinner ht hts))
    intro b b' rest rest' hb hrest
    exact .ok ⟨{ hs with body := .some hb }, hrest⟩
  · exact .none

theorem whileLoop_alike (room : Nat) (ht : L.Token t t') (hts : L.Tokens ts ts') :
    ReadAlike L (Stmt.Alike L) (whileLoop room inner t ts) (whileLoop room inner' t' ts') := by
  apply andThen_alike (slots_alike (fillWhile_alike hinner room) slotRounds ⟨.none, .none⟩ hts)
  intro s s' rest rest' hs hrest
  apply (require_alike hs.condition ht _).bind
  intro condition condition' hcondition
  apply (require_alike hs.body ht _).bind
  intro body body' hbody
  exact .ok ⟨.whileLoop ht hcondition hbody, hrest⟩

theorem fillFor_alike (room : Nat) {s s' : ForSlots} (hs : s.Alike L s') (ht : L.Token t t')
    (hts : L.Tokens ts ts') :
    Option.Rel (ReadAlike L (ForSlots.Alike L)) (fillFor room inner s t ts)
      (fillFor room inner' s' t' ts') := by
  simp only [fillFor, ht.kind]
  split
  · constructor
    apply andThen_alike (once_alike hs.init ht (nested_alike hinner ht hts))
    intro i i' rest rest' hi hrest
    exact .ok ⟨{ hs with init := .some hi }, hrest⟩
  · constructor
    apply andThen_alike (once_alike hs.condition ht (expression_alike room hts))
    intro e e' rest rest' he hrest
    exact .ok ⟨{ hs with condition := .some he }, hrest⟩
  · constructor
    apply andThen_alike (once_alike hs.increment ht (nested_alike hinner ht hts))
    intro i i' rest rest' hi hrest
    exact .ok ⟨{ hs with increment := .some hi }, hrest⟩
  · constructor
    apply andThen_alike (once_alike hs.body ht (branch_alike hinner ht hts))
    intro b b' rest rest' hb hrest
    exact .ok ⟨{ hs with body := .some hb }, hrest⟩
  · exact .none

theorem forLoop_alike (room : Nat) (ht : L.Token t t') (hts : L.Tokens ts ts') :
    ReadAlike L (Stmt.Alike L) (forLoop room inner t ts) (forLoop room inner' t' ts') := by
  apply andThen_alike
    (slots_alike (fillFor_alike hinner room) slotRounds ⟨.none, .none, .none, .none⟩ hts)
  intro s s' rest rest' hs hrest
  apply (require_alike hs.init ht _).bind
  intro init init' hinit
  apply (require_alike hs.condition ht _).bind
  intro condition condition' hcondition
  apply (require_alike hs.increment ht _).bind
  intro increment increment' hincrement
  apply (require_alike hs.body ht _).bind
  intro body body' hbody
  exact .ok ⟨.forLoop ht hinit hcondition hincrement hbody, hrest⟩

/-! ### Statements -/

theorem statement_alike {g g' : Grid} (hg : L.Grids g g') (room : Nat) (hts : L.Tokens ts ts') :
    ReadAlike L (Stmt.Alike L) (statement g room inner ts) (statement g' room inner' ts') := by
  cases hts with
  | nil => exact .error .endBeforeStatement
  | cons ht hts =>
      simp only [statement_cons, statementFrom, ht.kind]
      split
      · -- the four kinds of the list are markers of types
        exact assignment_alike room ht (congrArg ValueType.ofKind? ‹_›) hts
      · exact assignment_alike room ht (congrArg ValueType.ofKind? ‹_›) hts
      · exact assignment_alike room ht (congrArg ValueType.ofKind? ‹_›) hts
      · exact assignment_alike room ht (congrArg ValueType.ofKind? ‹_›) hts
      · exact .ok ⟨.command ht, hts⟩
      · exact .ok ⟨.stop ht, hts⟩
      · exact .ok ⟨.breakLoop ht, hts⟩
      · exact .ok ⟨.continueLoop ht, hts⟩
      · apply andThen_alike (expression_alike room hts)
        intro value value' rest rest' hvalue hrest
        exact .ok ⟨.print ht hvalue, hrest⟩
      · apply andThen_alike (expression_alike room hts)
        intro target target' rest rest' htarget hrest
        exact .ok ⟨.goto ht htarget, hrest⟩
      · exact place_alike hg room ht hts
      · exact ifElse_alike hinner room ht hts
      · exact whileLoop_alike hinner room ht hts
      · exact forLoop_alike hinner room ht hts
      · exact .error (.unexpectedToken ht)

end Inner

theorem stmtReader_alike {g g' : Grid} (hg : L.Grids g g') (room : Nat) :
    StmtReadersAlike L (stmtReader g room) (stmtReader g' room) := by
  induction room with
  | zero =>
      intro ts ts' hts
      exact statement_alike .none hg 0 hts
  | succ room ih =>
      intro ts ts' hts
      exact statement_alike (.some ih) hg (room + 1) hts

theorem statements_alike {read read' : StmtReader} (hread : StmtReadersAlike L read read')
    (fuel : Nat) (hts : L.Tokens ts ts') :
    Agree (ParseError.Alike L) (Stmt.AllAlike L) (statements read fuel ts)
      (statements read' fuel ts') := by
  induction fuel generalizing ts ts' with
  | zero => cases hts <;> exact .ok .nil
  | succ fuel ih =>
      cases hts with
      | nil => exact .ok .nil
      | cons ht hts =>
          apply andThen_alike (hread (.cons ht hts))
          intro first first' rest rest' hfirst hrest
          apply (ih hrest).bind
          intro others others' hothers
          exact .ok (.cons hfirst hothers)

end Parser

/-- Corresponding tokens make corresponding programs. -/
theorem Program.parse_alike {L : Likeness} {g g' : Grid} (hg : L.Grids g g')
    {ts ts' : List Token} (hts : L.Tokens ts ts') :
    Agree (ParseError.Alike L) (Program.Alike L) (parse g ts) (parse g' ts') := by
  rw [parse, parse, ← hts.length_eq]
  apply (Parser.statements_alike (Parser.stmtReader_alike hg _) ts.length hts).bind
  intro body body' hbody
  exact .ok hbody

end CellScript
