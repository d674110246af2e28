/-
Module: CellScript.Proofs.Parser.RoundTrip
Purpose: Reading back the written form of a program. The parser gives exactly the program if it
  nests no deeper than the limit, and a complaint about the nesting if it does.
Main exports: Parser.ReadsStmt, Parser.ReadsBlock, Stmt.reads, Program.guarded_parse,
  Program.parse_print
-/
import CellScript.Proofs.Parser.Expression

namespace CellScript

namespace Parser

/-! ### Where a statement ends -/

/-- Kinds that would be read as part of a statement before them. -/
def extendsStmt (k : TokenKind) : Bool :=
  extendsSum k || k.isArgument

theorem NotFirst.sum_of_stmt {ts : List Token} (h : NotFirst extendsStmt ts) :
    NotFirst extendsSum ts :=
  h.mono fun k hk => by simp [extendsStmt, hk]

theorem stmtReader_eq_statement (g : Grid) (room : Nat) (ts : List Token) :
    stmtReader g room ts = statement g room (levelBelow (stmtReader g) room) ts := by
  cases room with
  | zero => rfl
  | succ room => rfl

end Parser

/-- The first token of an expression is none of a chain that names a variable. -/
theorem Expr.notFirst_index {e : Expr} (h : e.WellFormed) {ts : List Token} (rest : List Token)
    (hts : Spells e.marks ts) : Parser.NotFirst (fun k => k == .varIndex) (ts ++ rest) := by
  induction e generalizing ts rest with
  | literal type token bits =>
      obtain ⟨us, rfl, _⟩ := Spells.kept_inv hts
      have hkind : token.kind = type.marker := h.1
      simp only [List.cons_append, Parser.NotFirst, hkind]
      cases type <;> rfl
  | var token chain =>
      obtain ⟨us, rfl, _⟩ := Spells.kept_inv hts
      have hkind : token.kind = .useVar := h.1
      simp only [List.cons_append, Parser.NotFirst, hkind]
      rfl
  | constant value token =>
      obtain ⟨us, rfl, _⟩ := Spells.kept_inv hts
      have hkind : token.kind = value.kind := h
      simp only [List.cons_append, Parser.NotFirst, hkind]
      cases value <;> rfl
  | unary op token operand =>
      obtain ⟨us, rfl, _⟩ := Spells.kept_inv hts
      have hkind : token.kind = op.kind := h.1
      simp only [List.cons_append, Parser.NotFirst, hkind]
      cases op <;> rfl
  | binary op token left right ihl _ =>
      rw [Expr.marks_binary] at hts
      obtain ⟨us, vs, rfl, hus, _⟩ := Spells.append_inv hts
      rw [List.append_assoc]
      cases hsite : left.wrapped op.leftSite with
      | true =>
          rw [Expr.marksAt_of_wrapped hsite] at hus
          obtain ⟨lpar, ws, rfl, hlpar, _⟩ := Spells.loose_inv hus
          simp only [List.cons_append, Parser.NotFirst, hlpar]
          rfl
      | false =>
          rw [Expr.marksAt_of_not_wrapped hsite] at hus
          exact ihl h.2.1 (vs ++ rest) hus

namespace Stmt

/-- The written form of a statement begins with its token. -/
theorem spells_marks_inv {stmt : Stmt} (h : stmt.WellFormed) {ts : List Token}
    (hts : Spells stmt.marks ts) : ∃ us, ts = stmt.token :: us := by
  cases stmt with
  | place token x y z templatePos template => exact absurd h (by simp [WellFormed])
  | _ =>
      rw [Stmt.marks] at hts
      obtain ⟨us, rfl, _⟩ := Spells.kept_inv hts
      exact ⟨us, rfl⟩

/-- The token of a statement neither goes on with what stands before it nor ends a branch. -/
theorem token_kind_of_wellFormed {stmt : Stmt} (h : stmt.WellFormed) :
    Parser.extendsStmt stmt.token.kind = false ∧ stmt.token.kind ≠ .branchEnd := by
  cases stmt with
  | assign type token chain value =>
      have hkind : token.kind = type.marker := by
        rw [WellFormed] at h
        exact h.1
      simp only [Stmt.token, hkind]
      cases type <;> decide
  | place token x y z templatePos template => exact absurd h (by simp [WellFormed])
  | _ =>
      rw [WellFormed] at h
      simp only [Stmt.token, h]
      decide

end Stmt

namespace Parser

/-- After a statement stands another one, or what stands after them all. -/
theorem notFirst_marksAll {body : List Stmt} (h : Stmt.AllWellFormed body) {ts rest : List Token}
    (hts : Spells (Stmt.marksAll body) ts) (hrest : NotFirst extendsStmt rest) :
    NotFirst extendsStmt (ts ++ rest) := by
  cases body with
  | nil =>
      cases hts
      exact hrest
  | cons stmt body =>
      rw [Stmt.AllWellFormed] at h
      rw [Stmt.marksAll] at hts
      obtain ⟨us, vs, rfl, hus, _⟩ := Spells.append_inv hts
      obtain ⟨us, rfl⟩ := Stmt.spells_marks_inv h.1 hus
      exact (Stmt.token_kind_of_wellFormed h.1).1

/-! ### Statements without slots -/

/-- A statement is read back, before anything that does not go on with it. -/
def ReadsStmt (g : Grid) (stmt : Stmt) : Prop :=
  ∀ (room : Nat) (ts rest : List Token), Spells stmt.marks ts → NotFirst extendsStmt rest →
    Guarded stmt.need room (stmtReader g room (ts ++ rest)) (.ok (stmt, rest))

/-- The statements of a branch are read back, with the end of the branch. -/
def ReadsBlock (g : Grid) (body : List Stmt) : Prop :=
  ∀ (room fuel : Nat) (ts : List Token) (closer : Token) (rest : List Token),
    Spells (Stmt.marksAll body) ts → closer.kind = .branchEnd → ts.length < fuel →
      Guarded (Stmt.needAll body) room (block (stmtReader g room) fuel (ts ++ closer :: rest))
        (.ok (body, rest))

/-- A marker at the start of a statement is that of an assignment. -/
theorem statement_of_marker {g : Grid} {room : Nat} {inner : Option StmtReader} {type : ValueType}
    {token : Token} (hkind : token.kind = type.marker) (ts : List Token) :
    statement g room inner (token :: ts) = assignment room token ts := by
  rw [statement_cons, statementFrom, hkind]
  cases type <;> rfl

theorem guarded_assignment {type : ValueType} {token : Token} {chain : List Token} {value : Expr}
    (htype : ValueType.ofKind? token.kind = some type)
    (hchain : ∀ t ∈ chain, t.kind = .varIndex) (hvalue : value.WellFormed) (room : Nat)
    {vs rest : List Token} (hvs : Spells value.marks vs) (hrest : NotFirst extendsSum rest) :
    Guarded (value.need + 1) room (assignment room token (chain ++ (vs ++ rest)))
      (.ok (.assign type token chain value, rest)) := by
  obtain ⟨htake, hdrop⟩ := collect_index hchain (Expr.notFirst_index hvalue rest hvs)
  have hexpr := guarded_expression hvalue room hvs hrest
  cases chain with
  | nil =>
      -- no chain before the value, and none after it either
      have hnone : ∀ t ∈ ([] : List Token), t.kind = .varIndex := by simp
      obtain ⟨hafter, hleft⟩ := collect_index hnone hrest.term_of_sum.factor_of_term.index
      rw [List.nil_append] at hafter hleft htake ⊢
      rw [assignment, bind_of_ok (markedType_eq htype), htake]
      refine hexpr.map ?_
      simp only [hafter, hleft]
      rfl
  | cons t chain =>
      rw [assignment, bind_of_ok (markedType_eq htype), htake, hdrop]
      exact hexpr.map rfl

/-- A statement without slots only asks that no expression goes on after it. -/
theorem guarded_slotless (g : Grid) {stmt : Stmt} (h : stmt.WellFormed)
    (hslots : stmt.isSlotless = true) (room : Nat) {ts rest : List Token}
    (hts : Spells stmt.marks ts) (hrest : NotFirst extendsSum rest) :
    Guarded stmt.need room (stmtReader g room (ts ++ rest)) (.ok (stmt, rest)) := by
  rw [stmtReader_eq_statement]
  cases stmt with
  | assign type token chain value =>
      rw [Stmt.WellFormed] at h
      obtain ⟨hkind, hchain, hvalue⟩ := h
      rw [Stmt.marks] at hts
      obtain ⟨us, rfl, hus⟩ := Spells.kept_inv hts
      obtain ⟨cs, vs, rfl, hcs, hvs⟩ := Spells.append_inv hus
      have htype : ValueType.ofKind? token.kind = some type := by
        rw [hkind, ValueType.ofKind?_marker]
      rw [Spells.map_kept_inv hcs, List.cons_append, List.append_assoc, statement_of_marker hkind,
        Stmt.need]
      exact guarded_assignment htype hchain hvalue room hvs hrest
  | print token value =>
      rw [Stmt.WellFormed] at h
      rw [Stmt.marks] at hts
      obtain ⟨us, rfl, hus⟩ := Spells.kept_inv hts
      rw [List.cons_append, statement_cons, statementFrom, h.1, Stmt.need]
      exact (guarded_expression h.2 room hus hrest).map rfl
  | goto token target =>
      rw [Stmt.WellFormed] at h
      rw [Stmt.marks] at hts
      obtain ⟨us, rfl, hus⟩ := Spells.kept_inv hts
      rw [List.cons_append, statement_cons, statementFrom, h.1, Stmt.need]
      exact (guarded_expression h.2 room hus hrest).map rfl
  | place token x y z templatePos template => cases hslots
  | ifElse token condition yes no => cases hslots
  | whileLoop token condition body => cases hslots
  | forLoop token init condition increment body => cases hslots
  | _ =>
      rw [Stmt.WellFormed] at h
      rw [Stmt.marks] at hts
      obtain ⟨us, rfl, hus⟩ := Spells.kept_inv hts
      cases hus
      rw [List.cons_append, List.nil_append, statement_cons, statementFrom, h, Stmt.need]
      exact Guarded.refl room _

/-! ### Slots -/

/-- A branch takes one level more than its statements. -/
theorem ReadsBlock.guarded_branch {g : Grid} {body : List Stmt} (h : ReadsBlock g body)
    (room : Nat) (opener : Token) {ts : List Token} {closer : Token} (rest : List Token)
    (hts : Spells (Stmt.marksAll body) ts) (hcloser : closer.kind = .branchEnd) :
    Guarded (Stmt.needAll body + 1) room
      (branch (levelBelow (stmtReader g) room) opener (ts ++ closer :: rest))
      (.ok (body, rest)) := by
  refine Guarded.deeper fun r _ => ?_
  refine h r _ ts closer rest hts hcloser ?_
  rw [List.length_append]
  omega

/-- A statement in a slot takes one level more than the statement. -/
theorem guarded_nested (g : Grid) {stmt : Stmt} (h : stmt.WellFormed)
    (hslots : stmt.isSlotless = true) (room : Nat) (opener : Token) {ts rest : List Token}
    (hts : Spells stmt.marks ts) (hrest : NotFirst extendsSum rest) :
    Guarded (stmt.need + 1) room
      (nested (levelBelow (stmtReader g) room) opener (ts ++ rest)) (.ok (stmt, rest)) :=
  Guarded.deeper fun r _ => guarded_slotless g h hslots r hts hrest

section Slots

variable {σ : Type} {fill : σ → Token → List Token → Option (Except ParseError (Parsed σ))}

/-- A slot is filled, and the others after it. -/
theorem guarded_slots {fuel n k room : Nat} {s s' : σ} {marker : Token} {ts rest : List Token}
    {x : Except ParseError (Parsed σ)} {y : Except ParseError (Parsed σ)}
    (hfill : fill s marker ts = some x) (hx : Guarded n room x (.ok (s', rest)))
    (hrest : Guarded k room (slots fill fuel s' rest) y) :
    Guarded (max n k) room (slots fill (fuel + 1) s (marker :: ts)) y := by
  have hslots : slots fill (fuel + 1) s (marker :: ts) =
      x >>= fun r => slots fill fuel r.1 r.2 := by
    simp only [slots, hfill]
    cases x with
    | error e => rfl
    | ok r => rfl
  rw [hslots]
  exact hx.bind hrest

/-- The last slot is filled. -/
theorem guarded_slots_last {fuel n room : Nat} {s s' : σ} {marker : Token}
    {ts rest : List Token} {x : Except ParseError (Parsed σ)}
    (hfill : fill s marker ts = some x) (hx : Guarded n room x (.ok (s', rest)))
    (hrest : slots fill fuel s' rest = .ok (s', rest)) :
    Guarded n room (slots fill (fuel + 1) s (marker :: ts)) (.ok (s', rest)) := by
  have hstop : Guarded 0 room (slots fill fuel s' rest) (.ok (s', rest)) := by
    rw [hrest]
    exact Guarded.refl room _
  simpa using guarded_slots hfill hx hstop

/-- No slot is filled where no marker stands. -/
theorem slots_of_notFirst (hfill : ∀ s marker ts, marker.kind.isArgument = false →
      fill s marker ts = none) (fuel : Nat) (s : σ) {rest : List Token}
    (hrest : NotFirst extendsStmt rest) : slots fill fuel s rest = .ok (s, rest) := by
  cases fuel with
  | zero => rfl
  | succ fuel =>
      cases rest with
      | nil => rfl
      | cons t rest =>
          have ht : extendsStmt t.kind = false := hrest
          have harg : t.kind.isArgument = false := (Bool.or_eq_false_iff.1 ht).2
          simp only [slots, hfill s t rest harg]

end Slots

/-- The marker of a slot is no part of an expression before it. -/
theorem notFirst_argument {marker : Token} (h : marker.kind.isArgument = true)
    (rest : List Token) : NotFirst extendsSum (marker :: rest) := by
  simp only [NotFirst]
  revert h
  cases marker.kind <;> decide

/-- A branch in its slot. -/
theorem spells_branch_inv {marker : TokenKind} {body : List Stmt} {ts : List Token}
    (h : Spells (slotMarks marker (Stmt.marksAll body ++ [.loose .branchEnd])) ts) :
    ∃ m us closer, ts = m :: (us ++ [closer]) ∧ m.kind = marker ∧
      Spells (Stmt.marksAll body) us ∧ closer.kind = .branchEnd := by
  obtain ⟨m, vs, rfl, hm, hvs⟩ := Spells.loose_inv h
  obtain ⟨us, ws, rfl, hus, hws⟩ := Spells.append_inv hvs
  obtain ⟨closer, xs, rfl, hcloser, hxs⟩ := Spells.loose_inv hws
  cases hxs
  exact ⟨m, us, closer, rfl, hm, hus, hcloser⟩

/-! ### Conditions and loops -/

theorem fillIf_eq_none (room : Nat) (inner : Option StmtReader) (s : IfSlots) (marker : Token)
    (ts : List Token) (h : marker.kind.isArgument = false) :
    fillIf room inner s marker ts = none := by
  unfold fillIf
  split <;> simp_all [TokenKind.isArgument]

/-- The other branch, where the first two slots are filled. -/
theorem guarded_else {g : Grid} (condition : Expr) (yes : List Stmt) {no : Option (List Stmt)}
    (hno : ∀ body ∈ no, ReadsBlock g body) (room fuel : Nat) {ts rest : List Token}
    (hts : Spells (Stmt.marksElse no) ts) (hrest : NotFirst extendsStmt rest) :
    Guarded (Stmt.needElse no) room
      (slots (fillIf room (levelBelow (stmtReader g) room)) (fuel + 1)
        ⟨some condition, some yes, none⟩ (ts ++ rest))
      (.ok (⟨some condition, some yes, no⟩, rest)) := by
  generalize hinner : levelBelow (stmtReader g) room = inner
  have hstop := fun fuel s => slots_of_notFirst (fillIf_eq_none room inner) fuel s hrest
  cases no with
  | none =>
      cases hts
      rw [List.nil_append, hstop]
      exact Guarded.refl room _
  | some body =>
      rw [Stmt.marksElse] at hts
      obtain ⟨m, us, closer, rfl, hm, hus, hcloser⟩ := spells_branch_inv hts
      rw [List.cons_append, List.append_assoc, List.cons_append, List.nil_append]
      have hbranch := (hno body rfl).guarded_branch room m rest hus hcloser
      rw [hinner] at hbranch
      have hfill : fillIf room inner ⟨some condition, some yes, none⟩ m (us ++ closer :: rest) =
          some (branch inner m (us ++ closer :: rest) >>= fun r =>
            .ok (⟨some condition, some yes, some r.1⟩, r.2)) := by
        simp only [fillIf, hm, once]
        rfl
      exact guarded_slots_last hfill (hbranch.map rfl) (hstop _ _)

theorem readsStmt_ifElse {g : Grid} {token : Token} {condition : Expr} {yes : List Stmt}
    {no : Option (List Stmt)} (hkind : token.kind = .ifElse) (hcondition : condition.WellFormed)
    (hyes : ReadsBlock g yes) (hno : ∀ body ∈ no, ReadsBlock g body) :
    ReadsStmt g (.ifElse token condition yes no) := by
  intro room ts rest hts hrest
  rw [Stmt.marks] at hts
  obtain ⟨us, rfl, hus⟩ := Spells.kept_inv hts
  obtain ⟨cs, vs, rfl, hcs, hvs⟩ := Spells.append_inv hus
  obtain ⟨ys, ns, rfl, hys, hns⟩ := Spells.append_inv hvs
  obtain ⟨m₁, cs, rfl, hm₁, hcs⟩ := Spells.loose_inv hcs
  obtain ⟨m₂, ys, closer, rfl, hm₂, hys, hcloser⟩ := spells_branch_inv hys
  have hmarker : NotFirst extendsSum (m₂ :: (ys ++ closer :: (ns ++ rest))) :=
    notFirst_argument (by rw [hm₂]; rfl) _
  have hfirst := guarded_expression hcondition room hcs hmarker
  have hsecond := hyes.guarded_branch room m₂ (ns ++ rest) hys hcloser
  have hthird := guarded_else condition yes hno room 2 hns hrest
  rw [stmtReader_eq_statement, List.cons_append, statement_cons, statementFrom, hkind,
    Stmt.need]
  simp only [List.append_assoc, List.cons_append, List.nil_append, ifElse]
  generalize levelBelow (stmtReader g) room = inner at hsecond hthird ⊢
  have hfill₁ : fillIf room inner {} m₁ (cs ++ m₂ :: (ys ++ closer :: (ns ++ rest))) =
      some (expression room (cs ++ m₂ :: (ys ++ closer :: (ns ++ rest))) >>= fun r =>
        .ok (⟨some r.1, none, none⟩, r.2)) := by
    simp only [fillIf, hm₁, once]
    rfl
  have hfill₂ : fillIf room inner ⟨some condition, none, none⟩ m₂
        (ys ++ closer :: (ns ++ rest)) =
      some (branch inner m₂ (ys ++ closer :: (ns ++ rest)) >>= fun r =>
        .ok (⟨some condition, some r.1, none⟩, r.2)) := by
    simp only [fillIf, hm₂, once]
    rfl
  have hslots := guarded_slots hfill₁ (hfirst.map rfl) (guarded_slots hfill₂ (hsecond.map rfl) hthird)
  exact hslots.map rfl

theorem fillWhile_eq_none (room : Nat) (inner : Option StmtReader) (s : WhileSlots)
    (marker : Token) (ts : List Token) (h : marker.kind.isArgument = false) :
    fillWhile room inner s marker ts = none := by
  unfold fillWhile
  split <;> simp_all [TokenKind.isArgument]

theorem readsStmt_whileLoop {g : Grid} {token : Token} {condition : Expr} {body : List Stmt}
    (hkind : token.kind = .whileLoop) (hcondition : condition.WellFormed)
    (hbody : ReadsBlock g body) : ReadsStmt g (.whileLoop token condition body) := by
  intro room ts rest hts hrest
  rw [Stmt.marks] at hts
  obtain ⟨us, rfl, hus⟩ := Spells.kept_inv hts
  obtain ⟨cs, bs, rfl, hcs, hbs⟩ := Spells.append_inv hus
  obtain ⟨m₁, cs, rfl, hm₁, hcs⟩ := Spells.loose_inv hcs
  obtain ⟨m₂, bs, closer, rfl, hm₂, hbs, hcloser⟩ := spells_branch_inv hbs
  have hmarker : NotFirst extendsSum (m₂ :: (bs ++ closer :: rest)) :=
    notFirst_argument (by rw [hm₂]; rfl) _
  have hfirst := guarded_expression hcondition room hcs hmarker
  have hsecond := hbody.guarded_branch room m₂ rest hbs hcloser
  rw [stmtReader_eq_statement, List.cons_append, statement_cons, statementFrom, hkind,
    Stmt.need]
  simp only [List.append_assoc, List.cons_append, List.nil_append, whileLoop]
  generalize levelBelow (stmtReader g) room = inner at hsecond ⊢
  have hstop := fun fuel s => slots_of_notFirst (fillWhile_eq_none room inner) fuel s hrest
  have hfill₁ : fillWhile room inner {} m₁ (cs ++ m₂ :: (bs ++ closer :: rest)) =
      some (expression room (cs ++ m₂ :: (bs ++ closer :: rest)) >>= fun r =>
        .ok (⟨some r.1, none⟩, r.2)) := by
    simp only [fillWhile, hm₁, once]
    rfl
  have hfill₂ : fillWhile room inner ⟨some condition, none⟩ m₂ (bs ++ closer :: rest) =
      some (branch inner m₂ (bs ++ closer :: rest) >>= fun r =>
        .ok (⟨some condition, some r.1⟩, r.2)) := by
    simp only [fillWhile, hm₂, once]
    rfl
  have hslots := guarded_slots hfill₁ (hfirst.map rfl)
    (guarded_slots_last hfill₂ (hsecond.map rfl) (hstop 3 _))
  exact hslots.map rfl

theorem fillFor_eq_none (room : Nat) (inner : Option StmtReader) (s : ForSlots)
    (marker : Token) (ts : List Token) (h : marker.kind.isArgument = false) :
    fillFor room inner s marker ts = none := by
  unfold fillFor
  split <;> simp_all [TokenKind.isArgument]

theorem readsStmt_forLoop {g : Grid} {token : Token} {init increment : Stmt} {condition : Expr}
    {body : List Stmt} (hkind : token.kind = .forLoop)
    (hinit : init.isSlotless = true ∧ init.WellFormed) (hcondition : condition.WellFormed)
    (hincrement : increment.isSlotless = true ∧ increment.WellFormed)
    (hbody : ReadsBlock g body) : ReadsStmt g (.forLoop token init condition increment body) := by
  intro room ts rest hts hrest
  rw [Stmt.marks] at hts
  obtain ⟨us, rfl, hus⟩ := Spells.kept_inv hts
  obtain ⟨is, vs, rfl, his, hvs⟩ := Spells.append_inv hus
  obtain ⟨cs, ws, rfl, hcs, hws⟩ := Spells.append_inv hvs
  obtain ⟨ks, bs, rfl, hks, hbs⟩ := Spells.append_inv hws
  obtain ⟨m₁, is, rfl, hm₁, his⟩ := Spells.loose_inv his
  obtain ⟨m₂, cs, rfl, hm₂, hcs⟩ := Spells.loose_inv hcs
  obtain ⟨m₃, ks, rfl, hm₃, hks⟩ := Spells.loose_inv hks
  obtain ⟨m₄, bs, closer, rfl, hm₄, hbs, hcloser⟩ := spells_branch_inv hbs
  have hmarker : ∀ (m : Token) (us : List Token), m.kind.isArgument = true →
      NotFirst extendsSum (m :: us) := fun m us h => notFirst_argument h us
  rw [stmtReader_eq_statement, List.cons_append, statement_cons, statementFrom, hkind,
    Stmt.need]
  simp only [List.append_assoc, List.cons_append, List.nil_append, forLoop]
  have hfourth := hbody.guarded_branch room m₄ rest hbs hcloser
  generalize hus₃ : bs ++ closer :: rest = us₃ at hfourth ⊢
  have hthird := guarded_nested g hincrement.2 hincrement.1 room m₃ hks
    (hmarker m₄ us₃ (by rw [hm₄]; rfl))
  generalize hus₂ : ks ++ m₄ :: us₃ = us₂ at hthird ⊢
  have hsecond := guarded_expression hcondition room hcs (hmarker m₃ us₂ (by rw [hm₃]; rfl))
  generalize hus₁ : cs ++ m₃ :: us₂ = us₁ at hsecond ⊢
  have hfirst := guarded_nested g hinit.2 hinit.1 room m₁ his (hmarker m₂ us₁ (by rw [hm₂]; rfl))
  generalize hus₀ : is ++ m₂ :: us₁ = us₀ at hfirst ⊢
  generalize levelBelow (stmtReader g) room = inner at hfirst hthird hfourth ⊢
  have hstop := fun fuel s => slots_of_notFirst (fillFor_eq_none room inner) fuel s hrest
  have hfill₁ : fillFor room inner {} m₁ us₀ =
      some (nested inner m₁ us₀ >>= fun r => .ok (⟨some r.1, none, none, none⟩, r.2)) := by
    simp only [fillFor, hm₁, once]
    rfl
  have hfill₂ : fillFor room inner ⟨some init, none, none, none⟩ m₂ us₁ =
      some (expression room us₁ >>= fun r => .ok (⟨some init, some r.1, none, none⟩, r.2)) := by
    simp only [fillFor, hm₂, once]
    rfl
  have hfill₃ : fillFor room inner ⟨some init, some condition, none, none⟩ m₃ us₂ =
      some (nested inner m₃ us₂ >>= fun r =>
        .ok (⟨some init, some condition, some r.1, none⟩, r.2)) := by
    simp only [fillFor, hm₃, once]
    rfl
  have hfill₄ : fillFor room inner ⟨some init, some condition, some increment, none⟩ m₄ us₃ =
      some (branch inner m₄ us₃ >>= fun r =>
        .ok (⟨some init, some condition, some increment, some r.1⟩, r.2)) := by
    simp only [fillFor, hm₄, once]
    rfl
  have hslots := guarded_slots hfill₁ (hfirst.map rfl) (guarded_slots hfill₂ (hsecond.map rfl)
    (guarded_slots hfill₃ (hthird.map rfl)
      (guarded_slots_last hfill₄ (hfourth.map rfl) (hstop 1 _))))
  exact hslots.map rfl

/-! ### Blocks -/

theorem readsBlock_nil (g : Grid) : ReadsBlock g [] := by
  intro room fuel ts closer rest hts hcloser hfuel
  cases hts
  cases fuel with
  | zero => exact absurd hfuel (Nat.not_lt_zero _)
  | succ fuel =>
      rw [List.nil_append, block, if_pos hcloser]
      exact Guarded.refl room _

theorem readsBlock_cons {g : Grid} {stmt : Stmt} {body : List Stmt} (hwf : stmt.WellFormed)
    (hbodyWf : Stmt.AllWellFormed body) (hstmt : ReadsStmt g stmt) (hbody : ReadsBlock g body) :
    ReadsBlock g (stmt :: body) := by
  intro room fuel ts closer rest hts hcloser hfuel
  rw [Stmt.marksAll] at hts
  obtain ⟨us, vs, rfl, hus, hvs⟩ := Spells.append_inv hts
  have hfirst := hstmt room us (vs ++ closer :: rest) hus
    (notFirst_marksAll hbodyWf hvs (by simp only [NotFirst, hcloser]; rfl))
  obtain ⟨us, rfl⟩ := Stmt.spells_marks_inv hwf hus
  have hopen := (Stmt.token_kind_of_wellFormed hwf).2
  cases fuel with
  | zero => exact absurd hfuel (Nat.not_lt_zero _)
  | succ fuel =>
      rw [List.append_assoc, List.cons_append, block, if_neg hopen, Stmt.needAll]
      rw [List.cons_append] at hfirst
      refine hfirst.bind ?_
      have hshort : vs.length < fuel := by
        simp only [List.cons_append, List.length_cons, List.length_append] at hfuel
        omega
      exact (hbody room fuel vs closer rest hvs hcloser hshort).map rfl

end Parser

mutual

/-- A well-formed statement is read back from its written form. -/
theorem Stmt.reads (g : Grid) : ∀ (stmt : Stmt), stmt.WellFormed → Parser.ReadsStmt g stmt
  | .ifElse token condition yes no, h => by
      rw [Stmt.WellFormed] at h
      obtain ⟨hkind, hcondition, hyes, hno⟩ := h
      exact Parser.readsStmt_ifElse hkind hcondition (Stmt.readsAll g yes hyes)
        (Stmt.readsElse g no hno)
  | .whileLoop token condition body, h => by
      rw [Stmt.WellFormed] at h
      obtain ⟨hkind, hcondition, hbody⟩ := h
      exact Parser.readsStmt_whileLoop hkind hcondition (Stmt.readsAll g body hbody)
  | .forLoop token init condition increment body, h => by
      rw [Stmt.WellFormed] at h
      obtain ⟨hkind, hinit, hcondition, hincrement, hbody⟩ := h
      exact Parser.readsStmt_forLoop hkind hinit hcondition hincrement
        (Stmt.readsAll g body hbody)
  | .place token x y z templatePos template, h => absurd h (by simp [Stmt.WellFormed])
  | .assign type token chain value, h => fun room _ _ hts hrest =>
      Parser.guarded_slotless g h rfl room hts hrest.sum_of_stmt
  | .command token, h => fun room _ _ hts hrest =>
      Parser.guarded_slotless g h rfl room hts hrest.sum_of_stmt
  | .stop token, h => fun room _ _ hts hrest =>
      Parser.guarded_slotless g h rfl room hts hrest.sum_of_stmt
  | .breakLoop token, h => fun room _ _ hts hrest =>
      Parser.guarded_slotless g h rfl room hts hrest.sum_of_stmt
  | .continueLoop token, h => fun room _ _ hts hrest =>
      Parser.guarded_slotless g h rfl room hts hrest.sum_of_stmt
  | .print token value, h => fun room _ _ hts hrest =>
      Parser.guarded_slotless g h rfl room hts hrest.sum_of_stmt
  | .goto token target, h => fun room _ _ hts hrest =>
      Parser.guarded_slotless g h rfl room hts hrest.sum_of_stmt

/-- Well-formed statements are read back as a branch. -/
theorem Stmt.readsAll (g : Grid) :
    ∀ (body : List Stmt), Stmt.AllWellFormed body → Parser.ReadsBlock g body
  | [], _ => Parser.readsBlock_nil g
  | stmt :: body, h => by
      rw [Stmt.AllWellFormed] at h
      exact Parser.readsBlock_cons h.1 h.2 (Stmt.reads g stmt h.1) (Stmt.readsAll g body h.2)

/-- The other branch of a condition is read back, if there is one. -/
theorem Stmt.readsElse (g : Grid) : ∀ (no : Option (List Stmt)), Stmt.ElseWellFormed no →
    ∀ body ∈ no, Parser.ReadsBlock g body
  | none, _ => fun _ hbody => absurd hbody (by simp)
  | some block, h => fun body hbody => by
      rw [Stmt.ElseWellFormed] at h
      cases hbody
      exact Stmt.readsAll g block h

end

/-! ### Programs -/

/-- The statements of a program are read back in turn. -/
theorem Stmt.guarded_statements (g : Grid) {body : List Stmt} (h : Stmt.AllWellFormed body)
    (room fuel : Nat) {ts : List Token} (hts : Spells (Stmt.marksAll body) ts)
    (hfuel : ts.length ≤ fuel) :
    Parser.Guarded (Stmt.needAll body) room
      (Parser.statements (Parser.stmtReader g room) fuel ts) (.ok body) := by
  induction body generalizing fuel ts with
  | nil =>
      cases hts
      rw [Parser.statements]
      exact Parser.Guarded.refl room _
  | cons stmt body ih =>
      rw [Stmt.AllWellFormed] at h
      rw [Stmt.marksAll] at hts
      obtain ⟨us, vs, rfl, hus, hvs⟩ := Spells.append_inv hts
      have hend : Parser.NotFirst Parser.extendsStmt (vs ++ []) :=
        Parser.notFirst_marksAll h.2 hvs trivial
      rw [List.append_nil] at hend
      have hfirst := Stmt.reads g stmt h.1 room us vs hus hend
      obtain ⟨us, rfl⟩ := Stmt.spells_marks_inv h.1 hus
      cases fuel with
      | zero => exact absurd hfuel (by simp)
      | succ fuel =>
          rw [List.cons_append, Parser.statements, Stmt.needAll]
          · rw [List.cons_append] at hfirst
            refine hfirst.bind ?_
            have hshort : vs.length ≤ fuel := by
              simp only [List.cons_append, List.length_cons, List.length_append] at hfuel
              omega
            exact (ih h.2 fuel hvs hshort).map rfl
          · simp

/-- A written program is read back, or its nesting is blamed. -/
theorem Program.guarded_parse (g : Grid) {p : Program} (h : p.WellFormed) {ts : List Token}
    (hts : Spells (Stmt.marksAll p.body) ts) :
    Parser.Guarded p.need Parser.maxNesting (Program.parse g ts) (.ok p) :=
  (Stmt.guarded_statements g h Parser.maxNesting ts.length hts (Nat.le_refl _)).map rfl

/-- The parser reads a written program back exactly if its nesting keeps to the limit, and blames
the nesting otherwise. -/
theorem Program.parse_print (g : Grid) (place : Nat → Position) (p : Program)
    (h : p.WellFormed) :
    (p.need ≤ Parser.maxNesting → Program.parse g (p.print place) = .ok p) ∧
      (Parser.maxNesting < p.need →
        ∃ token, Program.parse g (p.print place) =
          .error (.nestingTooDeep token Parser.maxNesting)) :=
  Program.guarded_parse g h (Spells.mapIdx place (Stmt.marksAll p.body))

/-- A number with signs before it. -/
def signs : Nat → Expr
  | 0 => .constant .pi ⟨.pi, ⟨0, 0, 0⟩⟩
  | n + 1 => .unary .neg ⟨.minus, ⟨0, 0, 0⟩⟩ (signs n)

/-- A program that prints a number with signs before it, if a variable is set. -/
def printSigns (n : Nat) : Program where
  body := [.assign .bool ⟨.bool, ⟨0, 0, 0⟩⟩ [⟨.varIndex, ⟨1, 0, 0⟩⟩]
      (.literal .bool ⟨.bool, ⟨2, 0, 0⟩⟩ [⟨.one, ⟨3, 0, 0⟩⟩]),
    .ifElse ⟨.ifElse, ⟨4, 0, 0⟩⟩ (.var ⟨.useVar, ⟨5, 0, 0⟩⟩ [⟨.varIndex, ⟨6, 0, 0⟩⟩])
      [.print ⟨.print, ⟨7, 0, 0⟩⟩ (signs n)] (some [])]

theorem wellFormed_signs (n : Nat) : (signs n).WellFormed := by
  induction n with
  | zero => rfl
  | succ n ih => exact ⟨rfl, ih⟩

theorem need_signs (n : Nat) : (signs n).need = n := by
  induction n with
  | zero => rfl
  | succ n ih =>
      have hsite : (signs n).wrapped .factor = false := by cases n <;> rfl
      rw [signs, Expr.need_unary, Expr.needAt_of_not_wrapped hsite, ih]

theorem wellFormed_printSigns (n : Nat) : (printSigns n).WellFormed := by
  simp [Program.WellFormed, printSigns, Stmt.AllWellFormed, Stmt.WellFormed, Stmt.ElseWellFormed,
    Expr.WellFormed, wellFormed_signs, ValueType.marker, TokenKind.isBit, ValueType.checkWidth]

theorem need_printSigns (n : Nat) : (printSigns n).need = n + 2 := by
  simp [Program.need, printSigns, Stmt.needAll, Stmt.need, Stmt.needElse, Expr.need, need_signs]

/-- In a branch, 254 signs are within the limit and 255 are beyond it. -/
theorem parse_print_printSigns :
    (printSigns 254).WellFormed ∧ (printSigns 255).WellFormed ∧
      Program.parse .empty ((printSigns 254).print fun i => ⟨.ofNat i, 1, 0⟩) =
        .ok (printSigns 254) ∧
      ∃ token, Program.parse .empty ((printSigns 255).print fun i => ⟨.ofNat i, 1, 0⟩) =
        .error (.nestingTooDeep token Parser.maxNesting) :=
  ⟨wellFormed_printSigns 254, wellFormed_printSigns 255,
    (Program.parse_print .empty _ (printSigns 254) (wellFormed_printSigns 254)).1
      (by rw [need_printSigns]; decide),
    (Program.parse_print .empty _ (printSigns 255) (wellFormed_printSigns 255)).2
      (by rw [need_printSigns]; decide)⟩

end CellScript
