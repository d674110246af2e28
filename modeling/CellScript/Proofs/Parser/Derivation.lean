/-
Module: CellScript.Proofs.Parser.Derivation
Purpose: What a successful parse went through. An expression that was read has a derivation in the
  grammar, with the levels of nesting that were left at each part. A statement that was read is
  described by the expressions, branches and statements in its slots.
Main exports: Parser.Derives, Parser.reader_derives, Parser.expression_derives,
  Parser.StatementRead, Parser.statement_read, Parser.slots_invariant, Parser.BlockRead
-/
import CellScript.Program.Parser
import CellScript.Proofs.Parser.Expression

namespace CellScript.Parser

/-! ### Sequences of parsers -/

theorem ok_of_bind {α β : Type} {x : Except ParseError α} {f : α → Except ParseError β} {b : β}
    (h : x >>= f = .ok b) : ∃ a, x = .ok a ∧ f a = .ok b := by
  cases x with
  | error e => cases h
  | ok a => exact ⟨a, rfl, h⟩

theorem deeper_ok {β : Type} {inner : Option β} {token : Token} {read : β}
    (h : deeper inner token = .ok read) : inner = some read := by
  cases inner with
  | none => cases h
  | some other =>
      cases h
      rfl

theorem readerBelow_eq_some {room : Nat} {read : Reader} (h : readerBelow room = some read) :
    ∃ r, room = r + 1 ∧ read = reader r := by
  cases room with
  | zero => cases h
  | succ r =>
      cases h
      exact ⟨r, rfl, rfl⟩

theorem enter_ok {room : Nat} {ts rest : List Token} {e : Expr}
    (h : enter (readerBelow room) ts = .ok (e, rest)) :
    ∃ r, room = r + 1 ∧ reader r .sum ts = .ok (e, rest) := by
  cases ts with
  | nil => cases h
  | cons token ts =>
      obtain ⟨read, hread, hsum⟩ := ok_of_bind h
      obtain ⟨r, rfl, rfl⟩ := readerBelow_eq_some (deeper_ok hread)
      exact ⟨r, rfl, hsum⟩

theorem expect_ok {kind : TokenKind} {ts rest : List Token} (h : expect kind ts = .ok rest) :
    ∃ token, ts = token :: rest ∧ token.kind = kind := by
  cases ts with
  | nil => cases h
  | cons token ts =>
      simp only [expect] at h
      split at h
      · rename_i hkind
        cases h
        exact ⟨token, rfl, hkind⟩
      · cases h

/-! ### Derivations of expressions -/

/-- A part of an expression is read from the front of a list of tokens, with `room` levels left, and
leaves the rest. -/
inductive Derives : Nat → Part → List Token → Expr → List Token → Prop where
  | unary {room : Nat} {op : UnaryOp} {token : Token} {operand : Expr} {ts rest : List Token} :
      UnaryOp.ofKind? token.kind = some op → Derives room .factor ts operand rest →
      Derives (room + 1) .factor (token :: ts) (.unary op token operand) rest
  | parens {room : Nat} {opener closer : Token} {e : Expr} {ts rest : List Token} :
      opener.kind = .lpar → Derives room .sum ts e (closer :: rest) → closer.kind = .rpar →
      Derives (room + 1) .factor (opener :: ts) e rest
  | literal {room : Nat} {type : ValueType} {token : Token} {ts : List Token} :
      ValueType.ofKind? token.kind = some type →
      type.checkWidth (ts.takeWhile fun t => t.kind.isBit).length = .ok () →
      Derives room .factor (token :: ts)
        (.literal type token (ts.takeWhile fun t => t.kind.isBit))
        (ts.dropWhile fun t => t.kind.isBit)
  | var {room : Nat} {token : Token} {ts : List Token} :
      token.kind = .useVar →
      Derives room .factor (token :: ts) (.var token (ts.takeWhile isIndex))
        (ts.dropWhile isIndex)
  | constant {room : Nat} {value : Constant} {token : Token} {ts : List Token} :
      token.kind = value.kind → Derives room .factor (token :: ts) (.constant value token) ts
  | termEnd {room : Nat} {left : Expr} {ts : List Token} :
      NotFirst (fun k => (BinaryOp.multiplicative? k).isSome) ts →
      Derives room (.termRest left) ts left ts
  | termStep {room : Nat} {op : BinaryOp} {token : Token} {left right e : Expr}
      {ts mid rest : List Token} :
      BinaryOp.multiplicative? token.kind = some op → Derives room .factor ts right mid →
      Derives room (.termRest (.binary op token left right)) mid e rest →
      Derives (room + 1) (.termRest left) (token :: ts) e rest
  | term {room : Nat} {left e : Expr} {ts mid rest : List Token} :
      Derives room .factor ts left mid → Derives room (.termRest left) mid e rest →
      Derives room .term ts e rest
  | sumEnd {room : Nat} {left : Expr} {ts : List Token} :
      NotFirst (fun k => (BinaryOp.additive? k).isSome) ts →
      Derives room (.sumRest left) ts left ts
  | sumStep {room : Nat} {op : BinaryOp} {token : Token} {left right e : Expr}
      {ts mid rest : List Token} :
      BinaryOp.additive? token.kind = some op → Derives room .term ts right mid →
      Derives room (.sumRest (.binary op token left right)) mid e rest →
      Derives (room + 1) (.sumRest left) (token :: ts) e rest
  | sum {room : Nat} {left e : Expr} {ts mid rest : List Token} :
      Derives room .term ts left mid → Derives room (.sumRest left) mid e rest →
      Derives room .sum ts e rest

/-- The parser that is one level down gives derivations. -/
def DerivesBelow (room : Nat) : Prop :=
  ∀ (r : Nat) (p : Part) (ts : List Token) (e : Expr) (rest : List Token),
    room = r + 1 → reader r p ts = .ok (e, rest) → Derives r p ts e rest

theorem literal_derives {room : Nat} {type : ValueType} {token : Token} {ts rest : List Token}
    {e : Expr} (htype : ValueType.ofKind? token.kind = some type)
    (h : literal token ts = .ok (e, rest)) : Derives room .factor (token :: ts) e rest := by
  simp only [literal, bind_of_ok (markedType_eq htype)] at h
  split at h
  · rename_i hwidth
    cases h
    exact .literal htype hwidth
  · cases h

theorem factor_derives {room : Nat} (hbelow : DerivesBelow room) {ts rest : List Token} {e : Expr}
    (h : factor (readerBelow room) ts = .ok (e, rest)) : Derives room .factor ts e rest := by
  cases ts with
  | nil => cases h
  | cons token ts =>
      rw [factor_cons, factorFrom] at h
      split at h
      · rename_i op hop
        obtain ⟨read, hread, h⟩ := ok_of_bind h
        obtain ⟨r, rfl, rfl⟩ := readerBelow_eq_some (deeper_ok hread)
        obtain ⟨⟨operand, mid⟩, hoperand, h⟩ := ok_of_bind h
        cases h
        exact .unary hop (hbelow r _ _ _ _ rfl hoperand)
      · split at h
        · rename_i hkind
          obtain ⟨⟨inner, mid⟩, hinner, h⟩ := ok_of_bind h
          obtain ⟨after, hafter, h⟩ := ok_of_bind h
          cases h
          obtain ⟨r, rfl, hsum⟩ := enter_ok hinner
          obtain ⟨closer, rfl, hcloser⟩ := expect_ok hafter
          exact .parens hkind (hbelow r _ _ _ _ rfl hsum) hcloser
        · exact literal_derives (congrArg ValueType.ofKind? ‹_›) h
        · exact literal_derives (congrArg ValueType.ofKind? ‹_›) h
        · exact literal_derives (congrArg ValueType.ofKind? ‹_›) h
        · exact literal_derives (congrArg ValueType.ofKind? ‹_›) h
        · rename_i hkind
          cases h
          exact .var hkind
        · rename_i hkind
          cases h
          exact .constant hkind
        · rename_i hkind
          cases h
          exact .constant hkind
        · cases h

/-- A chain either ends or goes on with an operator and its right side. -/
theorem chainRest_ok {op? : TokenKind → Option BinaryOp} {operand : Part} {again : Expr → Part}
    {room : Nat} {left e : Expr} {ts rest : List Token}
    (h : chainRest op? operand again (readerBelow room) left ts = .ok (e, rest)) :
    (NotFirst (fun k => (op? k).isSome) ts ∧ e = left ∧ rest = ts) ∨
      ∃ r op token us right mid, room = r + 1 ∧ ts = token :: us ∧ op? token.kind = some op ∧
        reader r operand us = .ok (right, mid) ∧
        reader r (again (.binary op token left right)) mid = .ok (e, rest) := by
  cases ts with
  | nil =>
      cases h
      exact .inl ⟨trivial, rfl, rfl⟩
  | cons token us =>
      cases hop : op? token.kind with
      | none =>
        rw [chainRest_of_none hop] at h
        cases h
        refine .inl ⟨?_, rfl, rfl⟩
        simp [NotFirst, hop]
      | some op =>
        rw [chainRest_of_some hop] at h
        obtain ⟨read, hread, h⟩ := ok_of_bind h
        obtain ⟨r, rfl, rfl⟩ := readerBelow_eq_some (deeper_ok hread)
        obtain ⟨⟨right, mid⟩, hright, h⟩ := ok_of_bind h
        exact .inr ⟨r, op, token, us, right, mid, rfl, rfl, hop, hright, h⟩

theorem termRest_derives {room : Nat} (hbelow : DerivesBelow room) {left e : Expr}
    {ts rest : List Token} (h : termRest (readerBelow room) left ts = .ok (e, rest)) :
    Derives room (.termRest left) ts e rest := by
  rcases chainRest_ok h with
    ⟨hend, rfl, rfl⟩ | ⟨r, op, token, us, right, mid, rfl, rfl, hop, hright, hagain⟩
  · exact .termEnd hend
  · exact .termStep hop (hbelow r _ _ _ _ rfl hright) (hbelow r _ _ _ _ rfl hagain)

theorem term_derives {room : Nat} (hbelow : DerivesBelow room) {ts rest : List Token} {e : Expr}
    (h : term (readerBelow room) ts = .ok (e, rest)) : Derives room .term ts e rest := by
  obtain ⟨⟨left, mid⟩, hleft, h⟩ := ok_of_bind h
  exact .term (factor_derives hbelow hleft) (termRest_derives hbelow h)

theorem sumRest_derives {room : Nat} (hbelow : DerivesBelow room) {left e : Expr}
    {ts rest : List Token} (h : sumRest (readerBelow room) left ts = .ok (e, rest)) :
    Derives room (.sumRest left) ts e rest := by
  rcases chainRest_ok h with
    ⟨hend, rfl, rfl⟩ | ⟨r, op, token, us, right, mid, rfl, rfl, hop, hright, hagain⟩
  · exact .sumEnd hend
  · exact .sumStep hop (hbelow r _ _ _ _ rfl hright) (hbelow r _ _ _ _ rfl hagain)

theorem sum_derives {room : Nat} (hbelow : DerivesBelow room) {ts rest : List Token} {e : Expr}
    (h : sum (readerBelow room) ts = .ok (e, rest)) : Derives room .sum ts e rest := by
  obtain ⟨⟨left, mid⟩, hleft, h⟩ := ok_of_bind h
  exact .sum (term_derives hbelow hleft) (sumRest_derives hbelow h)

/-- What the parser reads has a derivation. -/
theorem reader_derives {room : Nat} {p : Part} {ts rest : List Token} {e : Expr}
    (h : reader room p ts = .ok (e, rest)) : Derives room p ts e rest := by
  induction room using Nat.strongRecOn generalizing p ts e rest with
  | ind room ih =>
      have hbelow : DerivesBelow room :=
        fun r _ _ _ _ hr hread => ih r (by omega) hread
      rw [reader_eq_part] at h
      cases p with
      | factor => exact factor_derives hbelow h
      | term => exact term_derives hbelow h
      | termRest left => exact termRest_derives hbelow h
      | sum => exact sum_derives hbelow h
      | sumRest left => exact sumRest_derives hbelow h

theorem expression_derives {room : Nat} {ts rest : List Token} {e : Expr}
    (h : expression room ts = .ok (e, rest)) : ∃ r, room = r + 1 ∧ Derives r .sum ts e rest := by
  obtain ⟨r, hr, hsum⟩ := enter_ok h
  exact ⟨r, hr, reader_derives hsum⟩

/-! ### Statements -/

/-- What a statement was read from, with `room` levels left and `inner` one level down. -/
inductive StatementRead (g : Grid) (room : Nat) (inner : Option StmtReader) :
    List Token → Stmt → List Token → Prop where
  | assignChainFirst {type : ValueType} {token : Token} {value : Expr} {ts rest : List Token} :
      ValueType.ofKind? token.kind = some type → ts.takeWhile isIndex ≠ [] →
      expression room (ts.dropWhile isIndex) = .ok (value, rest) →
      StatementRead g room inner (token :: ts)
        (.assign type token (ts.takeWhile isIndex) value) rest
  | assignValueFirst {type : ValueType} {token : Token} {value : Expr} {ts mid : List Token} :
      ValueType.ofKind? token.kind = some type → ts.takeWhile isIndex = [] →
      expression room ts = .ok (value, mid) →
      StatementRead g room inner (token :: ts)
        (.assign type token (mid.takeWhile isIndex) value) (mid.dropWhile isIndex)
  | command {token : Token} {ts : List Token} : token.kind = .command →
      StatementRead g room inner (token :: ts) (.command token) ts
  | stop {token : Token} {ts : List Token} : token.kind = .stop →
      StatementRead g room inner (token :: ts) (.stop token) ts
  | breakLoop {token : Token} {ts : List Token} : token.kind = .breakLoop →
      StatementRead g room inner (token :: ts) (.breakLoop token) ts
  | continueLoop {token : Token} {ts : List Token} : token.kind = .continueLoop →
      StatementRead g room inner (token :: ts) (.continueLoop token) ts
  | print {token : Token} {value : Expr} {ts rest : List Token} : token.kind = .print →
      expression room ts = .ok (value, rest) →
      StatementRead g room inner (token :: ts) (.print token value) rest
  | goto {token : Token} {target : Expr} {ts rest : List Token} : token.kind = .goto →
      expression room ts = .ok (target, rest) →
      StatementRead g room inner (token :: ts) (.goto token target) rest
  | place {token marker : Token} {x y z : Expr} {ts rest : List Token} :
      token.kind = .placeBlock →
      placeSlots room token ts.length {} ts = .ok (⟨some x, some y, some z, some marker⟩, rest) →
      StatementRead g room inner (token :: ts)
        (.place token x y z (marker.pos + (marker.pos - token.pos))
          (g.symbolAt (marker.pos + (marker.pos - token.pos)))) rest
  | ifElse {token : Token} {condition : Expr} {yes : List Stmt} {no : Option (List Stmt)}
      {ts rest : List Token} : token.kind = .ifElse →
      slots (fillIf room inner) slotRounds {} ts = .ok (⟨some condition, some yes, no⟩, rest) →
      StatementRead g room inner (token :: ts) (.ifElse token condition yes no) rest
  | whileLoop {token : Token} {condition : Expr} {body : List Stmt} {ts rest : List Token} :
      token.kind = .whileLoop →
      slots (fillWhile room inner) slotRounds {} ts = .ok (⟨some condition, some body⟩, rest) →
      StatementRead g room inner (token :: ts) (.whileLoop token condition body) rest
  | forLoop {token : Token} {init increment : Stmt} {condition : Expr} {body : List Stmt}
      {ts rest : List Token} : token.kind = .forLoop →
      slots (fillFor room inner) slotRounds {} ts =
        .ok (⟨some init, some condition, some increment, some body⟩, rest) →
      StatementRead g room inner (token :: ts) (.forLoop token init condition increment body) rest

theorem require_ok {α : Type} {slot : Option α} {token : Token} {kind : TokenKind} {a : α}
    (h : require slot token kind = .ok a) : slot = some a := by
  cases slot with
  | none => cases h
  | some b =>
      cases h
      rfl

theorem assignment_read {g : Grid} {room : Nat} {inner : Option StmtReader} {type : ValueType}
    {token : Token} {ts rest : List Token} {stmt : Stmt}
    (htype : ValueType.ofKind? token.kind = some type)
    (h : assignment room token ts = .ok (stmt, rest)) :
    StatementRead g room inner (token :: ts) stmt rest := by
  rw [assignment, bind_of_ok (markedType_eq htype)] at h
  split at h
  · rename_i hchain
    obtain ⟨⟨value, mid⟩, hvalue, h⟩ := ok_of_bind h
    cases h
    exact .assignValueFirst htype hchain hvalue
  · rename_i hchain
    obtain ⟨⟨value, mid⟩, hvalue, h⟩ := ok_of_bind h
    cases h
    exact .assignChainFirst htype hchain hvalue

theorem place_read {g : Grid} {room : Nat} {inner : Option StmtReader} {token : Token}
    {ts rest : List Token} {stmt : Stmt} (hkind : token.kind = .placeBlock)
    (h : place g room token ts = .ok (stmt, rest)) :
    StatementRead g room inner (token :: ts) stmt rest := by
  obtain ⟨⟨⟨x?, y?, z?, marker?⟩, mid⟩, hslots, h⟩ := ok_of_bind h
  obtain ⟨x, hx, h⟩ := ok_of_bind h
  obtain ⟨y, hy, h⟩ := ok_of_bind h
  obtain ⟨z, hz, h⟩ := ok_of_bind h
  obtain ⟨marker, hmarker, h⟩ := ok_of_bind h
  cases require_ok hx
  cases require_ok hy
  cases require_ok hz
  cases require_ok hmarker
  cases h
  exact .place hkind hslots

theorem ifElse_read {g : Grid} {room : Nat} {inner : Option StmtReader} {token : Token}
    {ts rest : List Token} {stmt : Stmt} (hkind : token.kind = .ifElse)
    (h : ifElse room inner token ts = .ok (stmt, rest)) :
    StatementRead g room inner (token :: ts) stmt rest := by
  obtain ⟨⟨⟨condition?, yes?, no⟩, mid⟩, hslots, h⟩ := ok_of_bind h
  obtain ⟨condition, hcondition, h⟩ := ok_of_bind h
  obtain ⟨yes, hyes, h⟩ := ok_of_bind h
  cases require_ok hcondition
  cases require_ok hyes
  cases h
  exact .ifElse hkind hslots

theorem whileLoop_read {g : Grid} {room : Nat} {inner : Option StmtReader} {token : Token}
    {ts rest : List Token} {stmt : Stmt} (hkind : token.kind = .whileLoop)
    (h : whileLoop room inner token ts = .ok (stmt, rest)) :
    StatementRead g room inner (token :: ts) stmt rest := by
  obtain ⟨⟨⟨condition?, body?⟩, mid⟩, hslots, h⟩ := ok_of_bind h
  obtain ⟨condition, hcondition, h⟩ := ok_of_bind h
  obtain ⟨body, hbody, h⟩ := ok_of_bind h
  cases require_ok hcondition
  cases require_ok hbody
  cases h
  exact .whileLoop hkind hslots

theorem forLoop_read {g : Grid} {room : Nat} {inner : Option StmtReader} {token : Token}
    {ts rest : List Token} {stmt : Stmt} (hkind : token.kind = .forLoop)
    (h : forLoop room inner token ts = .ok (stmt, rest)) :
    StatementRead g room inner (token :: ts) stmt rest := by
  obtain ⟨⟨⟨init?, condition?, increment?, body?⟩, mid⟩, hslots, h⟩ := ok_of_bind h
  obtain ⟨init, hinit, h⟩ := ok_of_bind h
  obtain ⟨condition, hcondition, h⟩ := ok_of_bind h
  obtain ⟨increment, hincrement, h⟩ := ok_of_bind h
  obtain ⟨body, hbody, h⟩ := ok_of_bind h
  cases require_ok hinit
  cases require_ok hcondition
  cases require_ok hincrement
  cases require_ok hbody
  cases h
  exact .forLoop hkind hslots

theorem statement_read {g : Grid} {room : Nat} {inner : Option StmtReader} {ts rest : List Token}
    {stmt : Stmt} (h : statement g room inner ts = .ok (stmt, rest)) :
    StatementRead g room inner ts stmt rest := by
  cases ts with
  | nil => cases h
  | cons token ts =>
      rw [statement_cons, statementFrom] at h
      split at h
      · exact assignment_read (congrArg ValueType.ofKind? ‹_›) h
      · exact assignment_read (congrArg ValueType.ofKind? ‹_›) h
      · exact assignment_read (congrArg ValueType.ofKind? ‹_›) h
      · exact assignment_read (congrArg ValueType.ofKind? ‹_›) h
      · cases h
        exact .command ‹_›
      · cases h
        exact .stop ‹_›
      · cases h
        exact .breakLoop ‹_›
      · cases h
        exact .continueLoop ‹_›
      · obtain ⟨⟨value, mid⟩, hvalue, h⟩ := ok_of_bind h
        cases h
        exact .print ‹_› hvalue
      · obtain ⟨⟨target, mid⟩, htarget, h⟩ := ok_of_bind h
        cases h
        exact .goto ‹_› htarget
      · exact place_read ‹_› h
      · exact ifElse_read ‹_› h
      · exact whileLoop_read ‹_› h
      · exact forLoop_read ‹_› h
      · cases h

/-! ### Slots and blocks -/

theorem once_ok {α : Type} {slot : Option α} {marker : Token}
    {read : List Token → Except ParseError (Parsed α)} {ts : List Token} {r : Parsed α}
    (h : once slot marker read ts = .ok r) : slot = none ∧ read ts = .ok r := by
  cases slot with
  | none => exact ⟨rfl, h⟩
  | some a => cases h

/-- What filling a slot keeps, filling all slots keeps. -/
theorem slots_invariant {σ : Type}
    {fill : σ → Token → List Token → Option (Except ParseError (Parsed σ))}
    {I : σ → List Token → Prop}
    (hfill : ∀ s marker ts s' rest, I s (marker :: ts) →
      fill s marker ts = some (.ok (s', rest)) → I s' rest)
    {fuel : Nat} {s s' : σ} {ts rest : List Token} (hs : I s ts)
    (h : slots fill fuel s ts = .ok (s', rest)) : I s' rest := by
  induction fuel generalizing s ts with
  | zero =>
      cases h
      exact hs
  | succ fuel ih =>
      cases ts with
      | nil =>
          cases h
          exact hs
      | cons marker ts =>
          rw [slots] at h
          split at h
          · cases h
            exact hs
          · cases h
          · rename_i s₁ mid hstep
            exact ih (hfill s marker ts s₁ mid hs hstep) h

/-- The statements of a branch, read one after the other up to the end of the branch. -/
inductive BlockRead (read : StmtReader) : List Token → List Stmt → List Token → Prop where
  | nil {closer : Token} {rest : List Token} : closer.kind = .branchEnd →
      BlockRead read (closer :: rest) [] rest
  | cons {token : Token} {stmt : Stmt} {body : List Stmt} {ts mid rest : List Token} :
      token.kind ≠ .branchEnd → read (token :: ts) = .ok (stmt, mid) →
      BlockRead read mid body rest → BlockRead read (token :: ts) (stmt :: body) rest

theorem block_read {read : StmtReader} {fuel : Nat} {ts rest : List Token} {body : List Stmt}
    (h : block read fuel ts = .ok (body, rest)) : BlockRead read ts body rest := by
  induction fuel generalizing ts body with
  | zero => cases h
  | succ fuel ih =>
      cases ts with
      | nil => cases h
      | cons token ts =>
          rw [block] at h
          split at h
          · rename_i hkind
            cases h
            exact .nil hkind
          · rename_i hkind
            obtain ⟨⟨stmt, mid⟩, hstmt, h⟩ := ok_of_bind h
            obtain ⟨⟨others, after⟩, hothers, h⟩ := ok_of_bind h
            cases h
            exact .cons hkind hstmt (ih hothers)

theorem branch_ok {inner : Option StmtReader} {opener : Token} {ts rest : List Token}
    {body : List Stmt} (h : branch inner opener ts = .ok (body, rest)) :
    ∃ read, inner = some read ∧ BlockRead read ts body rest := by
  obtain ⟨read, hread, hblock⟩ := ok_of_bind h
  exact ⟨read, deeper_ok hread, block_read hblock⟩

theorem nested_ok {inner : Option StmtReader} {opener : Token} {ts rest : List Token}
    {stmt : Stmt} (h : nested inner opener ts = .ok (stmt, rest)) :
    ∃ read, inner = some read ∧ read ts = .ok (stmt, rest) := by
  obtain ⟨read, hread, hstmt⟩ := ok_of_bind h
  exact ⟨read, deeper_ok hread, hstmt⟩

/-- A marker fills one slot of `IF`, which was open. -/
theorem fillIf_ok {room : Nat} {inner : Option StmtReader} {s s' : IfSlots} {marker : Token}
    {ts rest : List Token} (h : fillIf room inner s marker ts = some (.ok (s', rest))) :
    (marker.kind = .firstArgument ∧ s.condition = none ∧
        ∃ e, expression room ts = .ok (e, rest) ∧ s' = { s with condition := some e }) ∨
      (marker.kind = .secondArgument ∧ s.yes = none ∧
        ∃ b, branch inner marker ts = .ok (b, rest) ∧ s' = { s with yes := some b }) ∨
      (marker.kind = .thirdArgument ∧ s.no = none ∧
        ∃ b, branch inner marker ts = .ok (b, rest) ∧ s' = { s with no := some b }) := by
  unfold fillIf at h
  split at h
  · obtain ⟨⟨e, mid⟩, he, h⟩ := ok_of_bind (Option.some.inj h)
    obtain ⟨hnone, hread⟩ := once_ok he
    cases h
    exact .inl ⟨‹_›, hnone, e, hread, rfl⟩
  · obtain ⟨⟨b, mid⟩, hb, h⟩ := ok_of_bind (Option.some.inj h)
    obtain ⟨hnone, hread⟩ := once_ok hb
    cases h
    exact .inr (.inl ⟨‹_›, hnone, b, hread, rfl⟩)
  · obtain ⟨⟨b, mid⟩, hb, h⟩ := ok_of_bind (Option.some.inj h)
    obtain ⟨hnone, hread⟩ := once_ok hb
    cases h
    exact .inr (.inr ⟨‹_›, hnone, b, hread, rfl⟩)
  · cases h

/-- A marker fills one slot of `WHILE`, which was open. -/
theorem fillWhile_ok {room : Nat} {inner : Option StmtReader} {s s' : WhileSlots} {marker : Token}
    {ts rest : List Token} (h : fillWhile room inner s marker ts = some (.ok (s', rest))) :
    (marker.kind = .firstArgument ∧ s.condition = none ∧
        ∃ e, expression room ts = .ok (e, rest) ∧ s' = { s with condition := some e }) ∨
      (marker.kind = .secondArgument ∧ s.body = none ∧
        ∃ b, branch inner marker ts = .ok (b, rest) ∧ s' = { s with body := some b }) := by
  unfold fillWhile at h
  split at h
  · obtain ⟨⟨e, mid⟩, he, h⟩ := ok_of_bind (Option.some.inj h)
    obtain ⟨hnone, hread⟩ := once_ok he
    cases h
    exact .inl ⟨‹_›, hnone, e, hread, rfl⟩
  · obtain ⟨⟨b, mid⟩, hb, h⟩ := ok_of_bind (Option.some.inj h)
    obtain ⟨hnone, hread⟩ := once_ok hb
    cases h
    exact .inr ⟨‹_›, hnone, b, hread, rfl⟩
  · cases h

/-- A marker fills one slot of `FOR`, which was open. -/
theorem fillFor_ok {room : Nat} {inner : Option StmtReader} {s s' : ForSlots} {marker : Token}
    {ts rest : List Token} (h : fillFor room inner s marker ts = some (.ok (s', rest))) :
    (marker.kind = .firstArgument ∧ s.init = none ∧
        ∃ i, nested inner marker ts = .ok (i, rest) ∧ s' = { s with init := some i }) ∨
      (marker.kind = .secondArgument ∧ s.condition = none ∧
        ∃ e, expression room ts = .ok (e, rest) ∧ s' = { s with condition := some e }) ∨
      (marker.kind = .thirdArgument ∧ s.increment = none ∧
        ∃ i, nested inner marker ts = .ok (i, rest) ∧ s' = { s with increment := some i }) ∨
      (marker.kind = .fourthArgument ∧ s.body = none ∧
        ∃ b, branch inner marker ts = .ok (b, rest) ∧ s' = { s with body := some b }) := by
  unfold fillFor at h
  split at h
  · obtain ⟨⟨i, mid⟩, hi, h⟩ := ok_of_bind (Option.some.inj h)
    obtain ⟨hnone, hread⟩ := once_ok hi
    cases h
    exact .inl ⟨‹_›, hnone, i, hread, rfl⟩
  · obtain ⟨⟨e, mid⟩, he, h⟩ := ok_of_bind (Option.some.inj h)
    obtain ⟨hnone, hread⟩ := once_ok he
    cases h
    exact .inr (.inl ⟨‹_›, hnone, e, hread, rfl⟩)
  · obtain ⟨⟨i, mid⟩, hi, h⟩ := ok_of_bind (Option.some.inj h)
    obtain ⟨hnone, hread⟩ := once_ok hi
    cases h
    exact .inr (.inr (.inl ⟨‹_›, hnone, i, hread, rfl⟩))
  · obtain ⟨⟨b, mid⟩, hb, h⟩ := ok_of_bind (Option.some.inj h)
    obtain ⟨hnone, hread⟩ := once_ok hb
    cases h
    exact .inr (.inr (.inr ⟨‹_›, hnone, b, hread, rfl⟩))
  · cases h

/-- What filling each slot of `PLACEBLOCK` keeps, reading them all keeps. -/
theorem placeSlots_invariant {room : Nat} {token : Token} {I : PlaceSlots → Prop}
    (hx : ∀ s ts e rest, I s → expression room ts = .ok (e, rest) → I { s with x := some e })
    (hy : ∀ s ts e rest, I s → expression room ts = .ok (e, rest) → I { s with y := some e })
    (hz : ∀ s ts e rest, I s → expression room ts = .ok (e, rest) → I { s with z := some e })
    (hfourth : ∀ s marker, I s → I { s with fourth := some marker })
    {fuel : Nat} {s s' : PlaceSlots} {ts rest : List Token} (hs : I s)
    (h : placeSlots room token fuel s ts = .ok (s', rest)) : I s' := by
  induction fuel generalizing s ts with
  | zero =>
      cases h
      exact hs
  | succ fuel ih =>
      cases ts with
      | nil =>
          cases h
          exact hs
      | cons marker ts =>
          rw [placeSlots] at h
          split at h
          · cases h
            exact hs
          · split at h
            · obtain ⟨⟨e, mid⟩, he, h⟩ := ok_of_bind h
              exact ih (hx s ts e mid hs (once_ok he).2) h
            · obtain ⟨⟨e, mid⟩, he, h⟩ := ok_of_bind h
              exact ih (hy s ts e mid hs (once_ok he).2) h
            · obtain ⟨⟨e, mid⟩, he, h⟩ := ok_of_bind h
              exact ih (hz s ts e mid hs (once_ok he).2) h
            · obtain ⟨⟨m, mid⟩, _, h⟩ := ok_of_bind h
              exact ih (hfourth s m hs) h
            · exact ih hs h

end CellScript.Parser
