/-
Module: CellScript.Proofs.Parser.Height
Purpose: How deep a tree the parser can give. The guard counts the levels at which a token is read,
  and the operators of a chain take theirs only after the left end of the chain is read. So a way
  down the tree is held to the limit where it goes to the right, but not where it goes to the left:
  below the left end of a chain nearly all levels are there again.
Main exports: Expr.height, Expr.rightHeight, Stmt.levels, Program.height, Program.rightHeight,
  Parser.deepest, Program.height_of_parse
-/
import CellScript.Proofs.Parser.Derivation
import CellScript.Proofs.Parser.RoundTrip
import Mathlib.Tactic.Ring

namespace CellScript

/-! ### Heights -/

namespace Expr

/-- The most operators on a way from the root to a leaf. -/
def height : Expr → Nat
  | literal _ _ _ => 0
  | var _ _ => 0
  | constant _ _ => 0
  | unary _ _ operand => operand.height + 1
  | binary _ _ left right => max left.height right.height + 1

/-- The most operators on a way from the root to a leaf, without those whose left side the way
takes. -/
def rightHeight : Expr → Nat
  | literal _ _ _ => 0
  | var _ _ => 0
  | constant _ _ => 0
  | unary _ _ operand => operand.rightHeight + 1
  | binary _ _ left right => max left.rightHeight (right.rightHeight + 1)

end Expr

mutual

/-- The most levels on a way through a statement, where expressions have as many as `measure` says:
each branch and each statement in a slot of `FOR` is one. -/
def Stmt.levels (measure : Expr → Nat) : Stmt → Nat
  | .assign _ _ _ value => measure value
  | .command _ => 0
  | .stop _ => 0
  | .breakLoop _ => 0
  | .continueLoop _ => 0
  | .print _ value => measure value
  | .goto _ target => measure target
  | .place _ x y z _ _ => max (measure x) (max (measure y) (measure z))
  | .ifElse _ condition yes no =>
      max (measure condition)
        (max (Stmt.levelsAll measure yes + 1) (Stmt.levelsElse measure no))
  | .whileLoop _ condition body => max (measure condition) (Stmt.levelsAll measure body + 1)
  | .forLoop _ init condition increment body =>
      max (init.levels measure + 1)
        (max (measure condition)
          (max (increment.levels measure + 1) (Stmt.levelsAll measure body + 1)))

/-- The most levels on a way through one of several statements. -/
def Stmt.levelsAll (measure : Expr → Nat) : List Stmt → Nat
  | [] => 0
  | stmt :: rest => max (stmt.levels measure) (Stmt.levelsAll measure rest)

/-- The most levels on a way through the other branch of a condition. -/
def Stmt.levelsElse (measure : Expr → Nat) : Option (List Stmt) → Nat
  | none => 0
  | some block => Stmt.levelsAll measure block + 1

end

namespace Program

/-- The most levels on a way from the root of a program to a leaf. -/
def height (p : Program) : Nat :=
  Stmt.levelsAll Expr.height p.body

/-- The most levels on a way from the root of a program to a leaf, without the operators whose left
side the way takes. -/
def rightHeight (p : Program) : Nat :=
  Stmt.levelsAll Expr.rightHeight p.body

end Program

namespace Parser

/-! ### The deepest tree -/

/-- The height of the deepest tree that can be read with so many levels left. -/
def deepest : Nat → Nat
  | 0 => 0
  | room + 1 => max (deepest room + 1) (2 * room + deepest room)

theorem deepest_succ (room : Nat) : deepest (room + 1) = room * (room + 1) + 1 := by
  induction room with
  | zero => rfl
  | succ room ih =>
      rw [deepest, ih]
      have hsquare : (room + 1) * (room + 1 + 1) = room * (room + 1) + 2 * (room + 1) := by ring
      rw [hsquare]
      omega

/-- The height that a part can have. A chain of as many operators as there are levels may stand on
top of what is at its left end. -/
def partHeight (room : Nat) : Part → Nat
  | .factor => deepest room
  | .term => room + deepest room
  | .termRest left => room + max left.height (deepest room)
  | .sum => 2 * room + deepest room
  | .sumRest left => room + max left.height (room + deepest room)

theorem Derives.height_le {room : Nat} {p : Part} {ts rest : List Token} {e : Expr}
    (h : Derives room p ts e rest) : e.height ≤ partHeight room p := by
  induction h with
  | unary _ _ ih =>
      simp only [Expr.height, partHeight, deepest] at ih ⊢
      omega
  | parens _ _ _ ih =>
      simp only [partHeight, deepest] at ih ⊢
      omega
  | literal _ _ => exact Nat.zero_le _
  | var _ => exact Nat.zero_le _
  | constant _ => exact Nat.zero_le _
  | termEnd _ =>
      simp only [partHeight]
      omega
  | termStep _ _ _ ihRight ihRest =>
      simp only [Expr.height, partHeight, deepest] at ihRight ihRest ⊢
      omega
  | term _ _ ihLeft ihRest =>
      simp only [partHeight] at ihLeft ihRest ⊢
      omega
  | sumEnd _ =>
      simp only [partHeight]
      omega
  | sumStep _ _ _ ihRight ihRest =>
      simp only [Expr.height, partHeight, deepest] at ihRight ihRest ⊢
      omega
  | sum _ _ ihLeft ihRest =>
      simp only [partHeight] at ihLeft ihRest ⊢
      omega

/-- The levels that a part can have to the right of what stands at its left end. -/
def partRightHeight (room : Nat) : Part → Nat
  | .factor => room
  | .term => room
  | .termRest left => max left.rightHeight room
  | .sum => room
  | .sumRest left => max left.rightHeight room

theorem Derives.rightHeight_le {room : Nat} {p : Part} {ts rest : List Token} {e : Expr}
    (h : Derives room p ts e rest) : e.rightHeight ≤ partRightHeight room p := by
  induction h with
  | unary _ _ ih => exact Nat.succ_le_succ ih
  | parens _ _ _ ih => exact Nat.le_succ_of_le ih
  | literal _ _ => exact Nat.zero_le _
  | var _ => exact Nat.zero_le _
  | constant _ => exact Nat.zero_le _
  | termEnd _ => exact Nat.le_max_left _ _
  | termStep _ _ _ ihRight ihRest =>
      simp only [Expr.rightHeight, partRightHeight] at ihRight ihRest ⊢
      omega
  | term _ _ ihLeft ihRest =>
      simp only [partRightHeight] at ihLeft ihRest ⊢
      omega
  | sumEnd _ => exact Nat.le_max_left _ _
  | sumStep _ _ _ ihRight ihRest =>
      simp only [Expr.rightHeight, partRightHeight] at ihRight ihRest ⊢
      omega
  | sum _ _ ihLeft ihRest =>
      simp only [partRightHeight] at ihLeft ihRest ⊢
      omega

theorem height_le_of_expression {room : Nat} {ts rest : List Token} {e : Expr}
    (h : expression room ts = .ok (e, rest)) : e.height ≤ deepest room := by
  obtain ⟨r, rfl, hd⟩ := expression_derives h
  have hle := hd.height_le
  simp only [partHeight, deepest] at hle ⊢
  omega

theorem rightHeight_le_of_expression {room : Nat} {ts rest : List Token} {e : Expr}
    (h : expression room ts = .ok (e, rest)) : e.rightHeight ≤ room := by
  obtain ⟨r, rfl, hd⟩ := expression_derives h
  exact Nat.le_succ_of_le hd.rightHeight_le

/-! ### Statements

A bound on expressions that grows by at least one with each level is also a bound on statements.
-/

section Levels

variable {measure : Expr → Nat} {bound : Nat → Nat}

/-- Expressions that are read keep to a bound, which leaves a level for what stands around them. -/
structure IsBound (measure : Expr → Nat) (bound : Nat → Nat) : Prop where
  expression : ∀ {room : Nat} {ts rest : List Token} {e : Expr},
    Parser.expression room ts = .ok (e, rest) → measure e ≤ bound room
  step : ∀ room, bound room + 1 ≤ bound (room + 1)

/-- The statements that a parser reads keep to a number of levels. -/
def ReadsWithin (measure : Expr → Nat) (limit : Nat) (read : StmtReader) : Prop :=
  ∀ (ts : List Token) (stmt : Stmt) (rest : List Token),
    read ts = .ok (stmt, rest) → stmt.levels measure ≤ limit

/-- The parser one level down, if there is one, keeps to a level less than the limit. -/
def InnerWithin (measure : Expr → Nat) (limit : Nat) (inner : Option StmtReader) : Prop :=
  ∀ read, inner = some read → ∃ below, below + 1 ≤ limit ∧ ReadsWithin measure below read

theorem BlockRead.levelsAll_le {read : StmtReader} {limit : Nat}
    (hread : ReadsWithin measure limit read) {ts rest : List Token} {body : List Stmt}
    (h : BlockRead read ts body rest) : Stmt.levelsAll measure body ≤ limit := by
  induction h with
  | nil _ =>
      rw [Stmt.levelsAll]
      exact Nat.zero_le _
  | cons _ hstmt _ ih =>
      rw [Stmt.levelsAll]
      exact Nat.max_le.2 ⟨hread _ _ _ hstmt, ih⟩

theorem levels_of_branch {inner : Option StmtReader} {limit : Nat}
    (hinner : InnerWithin measure limit inner) {opener : Token} {ts rest : List Token}
    {body : List Stmt} (h : branch inner opener ts = .ok (body, rest)) :
    Stmt.levelsAll measure body + 1 ≤ limit := by
  obtain ⟨read, hread, hblock⟩ := branch_ok h
  obtain ⟨below, hbelow, hwithin⟩ := hinner read hread
  have hle := hblock.levelsAll_le hwithin
  omega

theorem levels_of_nested {inner : Option StmtReader} {limit : Nat}
    (hinner : InnerWithin measure limit inner) {opener : Token} {ts rest : List Token}
    {stmt : Stmt} (h : nested inner opener ts = .ok (stmt, rest)) :
    stmt.levels measure + 1 ≤ limit := by
  obtain ⟨read, hread, hstmt⟩ := nested_ok h
  obtain ⟨below, hbelow, hwithin⟩ := hinner read hread
  have hle := hwithin _ _ _ hstmt
  omega

theorem levels_of_ifElse (hb : IsBound measure bound) {room : Nat} {inner : Option StmtReader}
    (hinner : InnerWithin measure (bound room) inner) {condition : Expr} {yes : List Stmt}
    {no : Option (List Stmt)} {ts rest : List Token}
    (h : slots (fillIf room inner) slotRounds {} ts = .ok (⟨some condition, some yes, no⟩, rest)) :
    measure condition ≤ bound room ∧ Stmt.levelsAll measure yes + 1 ≤ bound room ∧
      Stmt.levelsElse measure no ≤ bound room := by
  have hinv := slots_invariant
    (I := fun s _ => (∀ e ∈ s.condition, measure e ≤ bound room) ∧
      (∀ b ∈ s.yes, Stmt.levelsAll measure b + 1 ≤ bound room) ∧
      Stmt.levelsElse measure s.no ≤ bound room)
    (fun s marker ts s' rest hs hfill => ?_) ?_ h
  · exact ⟨hinv.1 _ rfl, hinv.2.1 _ rfl, hinv.2.2⟩
  · obtain ⟨hcondition, hyes, hno⟩ := hs
    rcases fillIf_ok hfill with ⟨_, _, e, he, rfl⟩ | ⟨_, _, b, hb', rfl⟩ | ⟨_, _, b, hb', rfl⟩
    · refine ⟨?_, hyes, hno⟩
      rintro _ ⟨⟩
      exact hb.expression he
    · refine ⟨hcondition, ?_, hno⟩
      rintro _ ⟨⟩
      exact levels_of_branch hinner hb'
    · refine ⟨hcondition, hyes, ?_⟩
      rw [Stmt.levelsElse]
      exact levels_of_branch hinner hb'
  · simp [Stmt.levelsElse]

theorem levels_of_whileLoop (hb : IsBound measure bound) {room : Nat}
    {inner : Option StmtReader} (hinner : InnerWithin measure (bound room) inner)
    {condition : Expr} {body : List Stmt} {ts rest : List Token}
    (h : slots (fillWhile room inner) slotRounds {} ts = .ok (⟨some condition, some body⟩, rest)) :
    measure condition ≤ bound room ∧ Stmt.levelsAll measure body + 1 ≤ bound room := by
  have hinv := slots_invariant
    (I := fun s _ => (∀ e ∈ s.condition, measure e ≤ bound room) ∧
      ∀ b ∈ s.body, Stmt.levelsAll measure b + 1 ≤ bound room)
    (fun s marker ts s' rest hs hfill => ?_) ?_ h
  · exact ⟨hinv.1 _ rfl, hinv.2 _ rfl⟩
  · obtain ⟨hcondition, hbody⟩ := hs
    rcases fillWhile_ok hfill with ⟨_, _, e, he, rfl⟩ | ⟨_, _, b, hb', rfl⟩
    · refine ⟨?_, hbody⟩
      rintro _ ⟨⟩
      exact hb.expression he
    · refine ⟨hcondition, ?_⟩
      rintro _ ⟨⟩
      exact levels_of_branch hinner hb'
  · simp

theorem levels_of_forLoop (hb : IsBound measure bound) {room : Nat}
    {inner : Option StmtReader} (hinner : InnerWithin measure (bound room) inner)
    {init increment : Stmt} {condition : Expr} {body : List Stmt} {ts rest : List Token}
    (h : slots (fillFor room inner) slotRounds {} ts =
      .ok (⟨some init, some condition, some increment, some body⟩, rest)) :
    init.levels measure + 1 ≤ bound room ∧ measure condition ≤ bound room ∧
      increment.levels measure + 1 ≤ bound room ∧
      Stmt.levelsAll measure body + 1 ≤ bound room := by
  have hinv := slots_invariant
    (I := fun s _ => (∀ i ∈ s.init, i.levels measure + 1 ≤ bound room) ∧
      (∀ e ∈ s.condition, measure e ≤ bound room) ∧
      (∀ i ∈ s.increment, i.levels measure + 1 ≤ bound room) ∧
      ∀ b ∈ s.body, Stmt.levelsAll measure b + 1 ≤ bound room)
    (fun s marker ts s' rest hs hfill => ?_) ?_ h
  · exact ⟨hinv.1 _ rfl, hinv.2.1 _ rfl, hinv.2.2.1 _ rfl, hinv.2.2.2 _ rfl⟩
  · obtain ⟨hinit, hcondition, hincrement, hbody⟩ := hs
    rcases fillFor_ok hfill with
      ⟨_, _, i, hi, rfl⟩ | ⟨_, _, e, he, rfl⟩ | ⟨_, _, i, hi, rfl⟩ | ⟨_, _, b, hb', rfl⟩
    · refine ⟨?_, hcondition, hincrement, hbody⟩
      rintro _ ⟨⟩
      exact levels_of_nested hinner hi
    · refine ⟨hinit, ?_, hincrement, hbody⟩
      rintro _ ⟨⟩
      exact hb.expression he
    · refine ⟨hinit, hcondition, ?_, hbody⟩
      rintro _ ⟨⟩
      exact levels_of_nested hinner hi
    · refine ⟨hinit, hcondition, hincrement, ?_⟩
      rintro _ ⟨⟩
      exact levels_of_branch hinner hb'
  · simp

theorem levels_of_place (hb : IsBound measure bound) {room : Nat} {token marker : Token}
    {x y z : Expr} {fuel : Nat} {ts rest : List Token}
    (h : placeSlots room token fuel {} ts = .ok (⟨some x, some y, some z, some marker⟩, rest)) :
    measure x ≤ bound room ∧ measure y ≤ bound room ∧ measure z ≤ bound room := by
  have hinv := placeSlots_invariant
    (I := fun s => (∀ e ∈ s.x, measure e ≤ bound room) ∧ (∀ e ∈ s.y, measure e ≤ bound room) ∧
      ∀ e ∈ s.z, measure e ≤ bound room)
    (fun s ts e rest hs he => ?_) (fun s ts e rest hs he => ?_) (fun s ts e rest hs he => ?_)
    (fun s marker hs => hs) ?_ h
  · exact ⟨hinv.1 _ rfl, hinv.2.1 _ rfl, hinv.2.2 _ rfl⟩
  · refine ⟨?_, hs.2.1, hs.2.2⟩
    rintro _ ⟨⟩
    exact hb.expression he
  · refine ⟨hs.1, ?_, hs.2.2⟩
    rintro _ ⟨⟩
    exact hb.expression he
  · refine ⟨hs.1, hs.2.1, ?_⟩
    rintro _ ⟨⟩
    exact hb.expression he
  · simp

theorem levels_of_statement (hb : IsBound measure bound) {g : Grid} {room : Nat}
    {inner : Option StmtReader} (hinner : InnerWithin measure (bound room) inner)
    {ts rest : List Token} {stmt : Stmt} (h : StatementRead g room inner ts stmt rest) :
    stmt.levels measure ≤ bound room := by
  cases h with
  | assignChainFirst _ _ hvalue =>
      rw [Stmt.levels]
      exact hb.expression hvalue
  | assignValueFirst _ _ hvalue =>
      rw [Stmt.levels]
      exact hb.expression hvalue
  | print _ hvalue =>
      rw [Stmt.levels]
      exact hb.expression hvalue
  | goto _ htarget =>
      rw [Stmt.levels]
      exact hb.expression htarget
  | place _ hslots =>
      obtain ⟨hx, hy, hz⟩ := levels_of_place hb hslots
      rw [Stmt.levels]
      exact Nat.max_le.2 ⟨hx, Nat.max_le.2 ⟨hy, hz⟩⟩
  | ifElse _ hslots =>
      obtain ⟨hcondition, hyes, hno⟩ := levels_of_ifElse hb hinner hslots
      rw [Stmt.levels]
      exact Nat.max_le.2 ⟨hcondition, Nat.max_le.2 ⟨hyes, hno⟩⟩
  | whileLoop _ hslots =>
      obtain ⟨hcondition, hbody⟩ := levels_of_whileLoop hb hinner hslots
      rw [Stmt.levels]
      exact Nat.max_le.2 ⟨hcondition, hbody⟩
  | forLoop _ hslots =>
      obtain ⟨hinit, hcondition, hincrement, hbody⟩ := levels_of_forLoop hb hinner hslots
      rw [Stmt.levels]
      exact Nat.max_le.2 ⟨hinit, Nat.max_le.2 ⟨hcondition, Nat.max_le.2 ⟨hincrement, hbody⟩⟩⟩
  | _ =>
      rw [Stmt.levels]
      exact Nat.zero_le _

/-- A statement keeps to the bound of the levels that it is read with. -/
theorem stmtReader_within (hb : IsBound measure bound) (g : Grid) (room : Nat) :
    ReadsWithin measure (bound room) (stmtReader g room) := by
  induction room with
  | zero =>
      intro ts stmt rest h
      rw [stmtReader_eq_statement] at h
      have hinner : InnerWithin measure (bound 0) (levelBelow (stmtReader g) 0) :=
        fun read hread => absurd hread (by simp [levelBelow])
      exact levels_of_statement hb hinner (statement_read h)
  | succ room ih =>
      intro ts stmt rest h
      rw [stmtReader_eq_statement] at h
      have hinner : InnerWithin measure (bound (room + 1)) (levelBelow (stmtReader g) (room + 1)) := by
        rintro _ ⟨⟩
        exact ⟨bound room, hb.step room, ih⟩
      exact levels_of_statement hb hinner (statement_read h)

theorem levelsAll_of_statements {read : StmtReader} {limit : Nat}
    (hread : ReadsWithin measure limit read) {fuel : Nat} {ts : List Token} {body : List Stmt}
    (h : statements read fuel ts = .ok body) : Stmt.levelsAll measure body ≤ limit := by
  induction fuel generalizing ts body with
  | zero =>
      cases ts <;>
      · cases h
        rw [Stmt.levelsAll]
        exact Nat.zero_le _
  | succ fuel ih =>
      cases ts with
      | nil =>
          cases h
          rw [Stmt.levelsAll]
          exact Nat.zero_le _
      | cons token ts =>
          rw [statements] at h
          · obtain ⟨⟨stmt, mid⟩, hstmt, h⟩ := ok_of_bind h
            obtain ⟨others, hothers, h⟩ := ok_of_bind h
            cases h
            rw [Stmt.levelsAll]
            exact Nat.max_le.2 ⟨hread _ _ _ hstmt, ih hothers⟩
          · simp

theorem levelsAll_of_parse (hb : IsBound measure bound) {g : Grid} {ts : List Token}
    {p : Program} (h : Program.parse g ts = .ok p) :
    Stmt.levelsAll measure p.body ≤ bound maxNesting := by
  obtain ⟨body, hbody, h⟩ := ok_of_bind h
  cases h
  exact levelsAll_of_statements (stmtReader_within hb g maxNesting) hbody

end Levels

theorem isBound_height : IsBound Expr.height deepest where
  expression := height_le_of_expression
  step room := by
    rw [deepest]
    exact Nat.le_max_left _ _

theorem isBound_rightHeight : IsBound Expr.rightHeight id where
  expression := rightHeight_le_of_expression
  step _ := Nat.le_refl _

end Parser

/-!
### A tree that is as deep as can be

At each level a chain of tighter operators stands on a factor, and a chain of looser ones on that.
In parentheses the whole is the factor of the next level.
-/

/-- A constant, at the origin. -/
def leafPi : Expr :=
  .constant .pi ⟨.pi, ⟨0, 0, 0⟩⟩

/-- An expression followed by so many operators of one kind. -/
def chained (op : BinaryOp) (e : Expr) : Nat → Expr
  | 0 => e
  | n + 1 => .binary op ⟨op.kind, ⟨0, 0, 0⟩⟩ (chained op e n) leafPi

/-- A factor for which one level more than the number suffices. -/
def tower : Nat → Expr
  | 0 => .unary .neg ⟨.minus, ⟨0, 0, 0⟩⟩ leafPi
  | n + 1 => chained .add (chained .mul (tower n) (n + 1)) (n + 1)

theorem wellFormed_chained (op : BinaryOp) {e : Expr} (h : e.WellFormed) (n : Nat) :
    (chained op e n).WellFormed := by
  induction n with
  | zero => exact h
  | succ n ih => exact ⟨rfl, ih, rfl⟩

theorem height_chained (op : BinaryOp) (e : Expr) (n : Nat) :
    (chained op e n).height = e.height + n := by
  induction n with
  | zero => rfl
  | succ n ih =>
      rw [chained, Expr.height, ih, leafPi, Expr.height]
      omega

theorem chain_chained (op : BinaryOp) {e : Expr} (h : e.chain op.isTight = 0) (n : Nat) :
    (chained op e n).chain op.isTight = n := by
  induction n with
  | zero => exact h
  | succ n ih => rw [chained, Expr.chain, if_pos rfl, ih]

/-- A chain needs as many levels as it has operators, or what its left end needs. -/
theorem needAt_chained (op : BinaryOp) {e : Expr} (h : e.chain op.isTight = 0) (n : Nat) :
    (chained op e n).needAt op.leftSite = max (e.needAt op.leftSite) n := by
  induction n with
  | zero => exact (Nat.max_zero _).symm
  | succ n ih =>
      have hbare : (chained op e (n + 1)).wrapped op.leftSite = false := by
        rw [chained, BinaryOp.leftSite]
        cases hop : op.isTight with
        | true => simp [Expr.wrapped, hop]
        | false => rfl
      have hleaf : leafPi.needAt op.rightSite = 0 := by
        rw [BinaryOp.rightSite]
        cases op.isTight <;> rfl
      rw [Expr.needAt_of_not_wrapped hbare, chained, Expr.need_binary, ih, hleaf,
        chain_chained op h n]
      omega

theorem wellFormed_tower (n : Nat) : (tower n).WellFormed := by
  induction n with
  | zero => exact ⟨rfl, rfl⟩
  | succ n ih => exact wellFormed_chained .add (wellFormed_chained .mul ih (n + 1)) (n + 1)

theorem height_tower (n : Nat) : (tower n).height = n * (n + 1) + 1 := by
  induction n with
  | zero => rfl
  | succ n ih =>
      rw [tower, height_chained, height_chained, ih]
      ring

/-- The need of a level, from the need of the factor below it. -/
theorem need_level {e : Expr} (h : e.chain true = 0) (tight loose : Nat) :
    (chained .add (chained .mul e (tight + 1)) loose).need =
      max (e.needAt .term) (max (tight + 1) loose) := by
  have hmul : (chained .mul e (tight + 1)).needAt .sum = max (e.needAt .term) (tight + 1) :=
    needAt_chained .mul h (tight + 1)
  have hadd : (chained .add (chained .mul e (tight + 1)) loose).needAt .sum =
      max ((chained .mul e (tight + 1)).needAt .sum) loose := needAt_chained .add rfl loose
  rw [hmul, Expr.needAt_of_not_wrapped (Expr.wrapped_sum _)] at hadd
  rw [hadd, Nat.max_assoc]

theorem needAt_tower (n : Nat) : (tower n).needAt .term = n + 1 := by
  induction n with
  | zero => rfl
  | succ n ih =>
      have hchain : (tower n).chain true = 0 := by cases n <;> rfl
      have hwrapped : (tower (n + 1)).wrapped .term = true := rfl
      rw [Expr.needAt_of_wrapped hwrapped, tower, need_level hchain, ih]
      omega

/-- A program that prints a tower. -/
def printTower (n : Nat) : Program :=
  ⟨[.print ⟨.print, ⟨0, 0, 0⟩⟩ (tower n)]⟩

theorem wellFormed_printTower (n : Nat) : (printTower n).WellFormed := by
  simp [Program.WellFormed, printTower, Stmt.AllWellFormed, Stmt.WellFormed, wellFormed_tower]

theorem need_printTower (n : Nat) : (printTower (n + 1)).need = n + 2 := by
  have hwrapped : (tower (n + 1)).wrapped .term = true := rfl
  have hneed := needAt_tower (n + 1)
  rw [Expr.needAt_of_wrapped hwrapped] at hneed
  simp only [Program.need, printTower, Stmt.needAll, Stmt.need]
  omega

theorem height_printTower (n : Nat) : (printTower n).height = n * (n + 1) + 1 := by
  simp [Program.height, printTower, Stmt.levelsAll, Stmt.levels, height_tower]

/-- The tower with a level less than the limit is read back. -/
theorem parse_printTower (g : Grid) :
    Program.parse g ((printTower (Parser.maxNesting - 1)).print fun _ => ⟨0, 0, 0⟩) =
      .ok (printTower (Parser.maxNesting - 1)) := by
  have hneed : (printTower (Parser.maxNesting - 1)).need ≤ Parser.maxNesting :=
    Nat.le_of_eq (need_printTower 254)
  exact (Program.guarded_parse g (wellFormed_printTower _) (Spells.mapIdx _ _)).1 hneed

/-- A way through an accepted program has at most `maxNesting` levels besides the operators that it
leaves on their left side; so the limit holds for all ways that leave none there. With these
operators a way can have up to `maxNesting * (maxNesting - 1) + 1` levels, and on every grid there is
an accepted program with such a way. -/
theorem Program.height_of_parse (g : Grid) :
    (∀ (ts : List Token) (p : Program), Program.parse g ts = .ok p →
        p.rightHeight ≤ Parser.maxNesting ∧
          p.height ≤ Parser.maxNesting * (Parser.maxNesting - 1) + 1) ∧
      ∃ ts p, Program.parse g ts = .ok p ∧
        p.height = Parser.maxNesting * (Parser.maxNesting - 1) + 1 := by
  constructor
  · intro ts p h
    refine ⟨Parser.levelsAll_of_parse Parser.isBound_rightHeight h, ?_⟩
    have hheight := Parser.levelsAll_of_parse Parser.isBound_height h
    have hdeepest : Parser.deepest Parser.maxNesting =
        Parser.maxNesting * (Parser.maxNesting - 1) + 1 := Parser.deepest_succ 255
    rw [← hdeepest]
    exact hheight
  · exact ⟨_, _, parse_printTower g, height_printTower 255⟩

/-- A program that prints two chains, the looser one on top of the tighter one. -/
def printTwoChains : Program :=
  ⟨[.print ⟨.print, ⟨0, 0, 0⟩⟩ (chained .add (chained .mul leafPi 128) 129)]⟩

/-- Two chains that together are longer than the limit are read. -/
theorem maxNesting_lt_height_printTwoChains :
    Program.parse .empty (printTwoChains.print fun _ => ⟨0, 0, 0⟩) = .ok printTwoChains ∧
      Parser.maxNesting < printTwoChains.height := by
  have hleaf : leafPi.WellFormed := rfl
  have hwf : printTwoChains.WellFormed := by
    have hchains := wellFormed_chained .add (wellFormed_chained .mul hleaf 128) 129
    simp [Program.WellFormed, printTwoChains, Stmt.AllWellFormed, Stmt.WellFormed, hchains]
  have hneed : printTwoChains.need ≤ Parser.maxNesting := by
    have hlevel : (chained .add (chained .mul leafPi 128) 129).need = 129 := need_level rfl 127 129
    simp only [Program.need, printTwoChains, Stmt.needAll, Stmt.need, hlevel]
    decide
  have hheight : printTwoChains.height = 257 := by
    simp [Program.height, printTwoChains, Stmt.levelsAll, Stmt.levels, height_chained, leafPi,
      Expr.height]
  refine ⟨(Program.guarded_parse .empty hwf (Spells.mapIdx _ _)).1 hneed, ?_⟩
  rw [hheight]
  decide

end CellScript
