/-
Module: CellScript.Proofs.Parser.Visits
Purpose: Where in a program statements are read. Whatever the tokens of a statement that the parser
  visits are exchanged for, at any depth, the program is the same if the statement is; and in an
  accepted program no visited statement is followed by a token that could go on with an expression.
Main exports: Parser.ComesTo, Parser.Calls, Program.Visits, Program.Visits.parse_congr,
  Program.Visits.endsWell
-/
import CellScript.Proofs.Parser.SlotLoop
import Mathlib.Logic.Relation

namespace CellScript

namespace Parser

/-! ### Statements one after the other -/

/-- Statements are read one after the other, until some tokens are left. -/
inductive ComesTo (read : StmtReader) : List Token → List Stmt → List Token → Prop where
  | refl (ts : List Token) : ComesTo read ts [] ts
  | step {stmt : Stmt} {body : List Stmt} {ts mid us : List Token} :
      read ts = .ok (stmt, mid) → ComesTo read mid body us → ComesTo read ts (stmt :: body) us

theorem statements_succ (read : StmtReader) (fuel : Nat) (token : Token) (ts : List Token) :
    statements read (fuel + 1) (token :: ts) =
      read (token :: ts) >>= fun (stmt, rest) =>
        statements read fuel rest >>= fun others => .ok (stmt :: others) := by
  rfl

section Sequences

variable {read : StmtReader} (hread : LocalStmt read)
include hread

theorem ComesTo.local {ts us : List Token} {body : List Stmt} (h : ComesTo read ts body us) :
    ∃ before, ts = before ++ us ∧
      ∀ us', SameFirst us us' → ComesTo read (before ++ us') body us' := by
  induction h with
  | refl ts => exact ⟨[], rfl, fun us' _ => .refl us'⟩
  | step hstmt _ ih =>
      obtain ⟨before, rfl, hbefore⟩ := ih
      obtain ⟨used, -, rfl, hused⟩ := hread hstmt
      refine ⟨used ++ before, by simp, fun us' hus' => ?_⟩
      rw [List.append_assoc]
      exact .step (hused _ (.inl (hus'.append before))) (hbefore us' hus')

theorem statements_fuel {fuel fuel' : Nat} {ts : List Token} (hfuel : ts.length ≤ fuel)
    (hfuel' : ts.length ≤ fuel') : statements read fuel ts = statements read fuel' ts := by
  induction fuel generalizing fuel' ts with
  | zero =>
      cases List.length_eq_zero_iff.1 (Nat.le_zero.1 hfuel)
      simp only [statements]
  | succ fuel ih =>
      cases ts with
      | nil => simp only [statements]
      | cons token ts =>
          obtain _ | fuel' := fuel'
          · exact absurd hfuel' (Nat.not_succ_le_zero _)
          · rw [List.length_cons] at hfuel hfuel'
            rw [statements_succ, statements_succ]
            rcases hstmt : read (token :: ts) with e | ⟨stmt, mid⟩
            · rfl
            · have hmid := hread.length_lt hstmt
              rw [List.length_cons] at hmid
              have hothers : statements read fuel mid = statements read fuel' mid :=
                ih (by omega) (by omega)
              show (statements read fuel mid >>= _) = (statements read fuel' mid >>= _)
              rw [hothers]

theorem block_fuel {fuel fuel' : Nat} {ts : List Token} (hfuel : ts.length < fuel)
    (hfuel' : ts.length < fuel') : block read fuel ts = block read fuel' ts := by
  induction fuel generalizing fuel' ts with
  | zero => exact absurd hfuel (Nat.not_lt_zero _)
  | succ fuel ih =>
      obtain _ | fuel' := fuel'
      · exact absurd hfuel' (Nat.not_lt_zero _)
      · cases ts with
        | nil => rfl
        | cons token ts =>
            rw [List.length_cons] at hfuel hfuel'
            rw [block, block]
            split
            · rfl
            · rcases hstmt : read (token :: ts) with e | ⟨stmt, mid⟩
              · rfl
              · have hmid := hread.length_lt hstmt
                rw [List.length_cons] at hmid
                have hothers : block read fuel mid = block read fuel' mid :=
                  ih (by omega) (by omega)
                show (block read fuel mid >>= _) = (block read fuel' mid >>= _)
                rw [hothers]

/-- Statements that are read first are the first of all. -/
theorem ComesTo.statements_eq {ts us : List Token} {body : List Stmt}
    (h : ComesTo read ts body us) :
    statements read ts.length ts = (statements read us.length us).map (body ++ ·) := by
  induction h with
  | refl ts =>
      cases statements read ts.length ts with
      | error e => rfl
      | ok others => rfl
  | @step stmt body ts mid us hstmt _ ih =>
      have hmid := hread.length_lt hstmt
      cases ts with
      | nil => exact absurd hmid (Nat.not_lt_zero _)
      | cons token ts =>
          rw [List.length_cons, statements_succ]
          refine (bind_of_ok hstmt _).trans ?_
          simp only
          rw [statements_fuel hread (Nat.le_of_lt_succ hmid) (Nat.le_refl _), ih]
          cases statements read us.length us with
          | error e => rfl
          | ok others => rfl

/-- Tokens can be exchanged at a statement if the statement is the same. -/
theorem statements_congr {us us' : List Token} (hfirst : SameFirst us us')
    (hsame : read us' = read us) :
    statements read us'.length us' = statements read us.length us := by
  cases us with
  | nil => rw [hfirst.eq_nil]
  | cons token us =>
      obtain ⟨us', rfl⟩ := hfirst.exists_cons
      rw [List.length_cons, List.length_cons, statements_succ, statements_succ, hsame]
      rcases hstmt : read (token :: us) with e | ⟨stmt, mid⟩
      · rfl
      · have hmid : statements read us'.length mid = statements read us.length mid :=
          statements_fuel hread (Nat.le_of_lt_succ (hread.length_lt (hsame.trans hstmt)))
            (Nat.le_of_lt_succ (hread.length_lt hstmt))
        show (statements read us'.length mid >>= _) = (statements read us.length mid >>= _)
        rw [hmid]

end Sequences

/-! ### Statements inside statements -/

/-- No token that goes on with an expression or ends a branch starts a statement. -/
theorem StatementRead.first {g : Grid} {room : Nat} {inner : Option StmtReader} {token : Token}
    {ts rest : List Token} {stmt : Stmt} (h : StatementRead g room inner (token :: ts) stmt rest) :
    extendsSum token.kind = false ∧ token.kind ≠ .branchEnd := by
  have htype {type : ValueType} (h : ValueType.ofKind? token.kind = some type) :
      extendsSum token.kind = false ∧ token.kind ≠ .branchEnd := by
    rw [ValueType.marker_of_ofKind? h]
    cases type <;> decide
  cases h with
  | assignChainFirst h => exact htype h
  | assignValueFirst h => exact htype h
  | command hkind => rw [hkind]; decide
  | stop hkind => rw [hkind]; decide
  | breakLoop hkind => rw [hkind]; decide
  | continueLoop hkind => rw [hkind]; decide
  | print hkind => rw [hkind]; decide
  | goto hkind => rw [hkind]; decide
  | place hkind => rw [hkind]; decide
  | ifElse hkind => rw [hkind]; decide
  | whileLoop hkind => rw [hkind]; decide
  | forLoop hkind => rw [hkind]; decide

section Calls

variable {g : Grid} {room : Nat}

theorem stmtReader_first {token : Token} {ts : List Token} {r : Parsed Stmt}
    (h : stmtReader g room (token :: ts) = .ok r) :
    extendsSum token.kind = false ∧ token.kind ≠ .branchEnd := by
  rw [stmtReader_eq_statement] at h
  exact (statement_read h).first

theorem notFirst_of_stmtReader {ts : List Token} {r : Parsed Stmt}
    (h : stmtReader g room ts = .ok r) : NotFirst extendsSum ts := by
  cases ts with
  | nil => trivial
  | cons token ts => exact (stmtReader_first h).1

/-- Statements of a branch that are read first are the first of all. -/
theorem ComesTo.block_eq {ts us : List Token} {body : List Stmt}
    (h : ComesTo (stmtReader g room) ts body us) :
    block (stmtReader g room) (ts.length + 1) ts =
      (block (stmtReader g room) (us.length + 1) us).map fun (others, rest) =>
        (body ++ others, rest) := by
  have hread := stmtReader_local g room
  induction h with
  | refl ts =>
      cases block (stmtReader g room) (ts.length + 1) ts with
      | error e => rfl
      | ok others => rfl
  | @step stmt body ts mid us hstmt _ ih =>
      have hmid := hread.length_lt hstmt
      cases ts with
      | nil => exact absurd hmid (Nat.not_lt_zero _)
      | cons token ts =>
          rw [block, if_neg (stmtReader_first hstmt).2]
          refine (bind_of_ok hstmt _).trans ?_
          simp only
          rw [block_fuel hread hmid (Nat.lt_succ_self _), ih]
          cases block (stmtReader g room) (us.length + 1) us with
          | error e => rfl
          | ok others => rfl

theorem block_congr {token : Token} {us us' : List Token} (hkind : token.kind ≠ .branchEnd)
    (hsame : stmtReader g room (token :: us') = stmtReader g room (token :: us)) :
    block (stmtReader g room) ((token :: us').length + 1) (token :: us') =
      block (stmtReader g room) ((token :: us).length + 1) (token :: us) := by
  have hread := stmtReader_local g room
  rw [block, block, if_neg hkind, if_neg hkind, hsame]
  rcases hstmt : stmtReader g room (token :: us) with e | ⟨stmt, mid⟩
  · rfl
  · have hmid : block (stmtReader g room) (token :: us').length mid =
        block (stmtReader g room) (token :: us).length mid :=
      block_fuel hread (hread.length_lt (hsame.trans hstmt)) (hread.length_lt hstmt)
    show (block _ (token :: us').length mid >>= _) = (block _ (token :: us).length mid >>= _)
    rw [hmid]

theorem below_local (g : Grid) (room : Nat) :
    ∀ read ∈ levelBelow (stmtReader g) room, LocalStmt read :=
  levelBelow_local fun r _ => stmtReader_local g r

/-- Reading the statement that `keyword` starts comes to a marker of which the slot is open, with
`us` after it. -/
def Opens (g : Grid) (room : Nat) (keyword : Token) (ts : List Token) (marker : Token)
    (us : List Token) : Prop :=
  ∃ s : SlotTable, s marker.kind = none ∧
    SlotTable.Reaches room (levelBelow (stmtReader g) room) keyword .empty ts s (marker :: us)

/-- Reading a statement comes to a statement one level down, in a branch or in a slot. Both are
given by the levels that are left and the tokens that are not taken yet. -/
inductive Calls (g : Grid) : Nat × List Token → Nat × List Token → Prop where
  | branch {room : Nat} {keyword marker token : Token} {body : List Stmt}
      {ts us vs : List Token} : slotUse? keyword.kind marker.kind = some .branch →
      Opens g (room + 1) keyword ts marker us →
      ComesTo (stmtReader g room) us body (token :: vs) → token.kind ≠ .branchEnd →
      Calls g (room + 1, keyword :: ts) (room, token :: vs)
  | slot {room : Nat} {keyword marker : Token} {ts us : List Token} :
      slotUse? keyword.kind marker.kind = some .statement →
      Opens g (room + 1) keyword ts marker us →
      Calls g (room + 1, keyword :: ts) (room, us)

theorem hasSlots_of_slotUse? {statement marker : TokenKind} {use : SlotUse}
    (h : slotUse? statement marker = some use) : hasSlots statement = true := by
  unfold slotUse? at h
  split at h <;> first | rfl | cases h

/-- Reading a statement with slots. -/
theorem stmtReader_eq_assembled {keyword : Token} (ts : List Token)
    (hslots : hasSlots keyword.kind = true) :
    stmtReader g room (keyword :: ts) = assembled g keyword
      (tableRest room (levelBelow (stmtReader g) room) keyword .empty ts) := by
  rw [stmtReader_eq_statement, statement_eq_assembled g room _ ts hslots, readTable_eq_tableRest]

/-- At an open slot, reading a statement goes on with what the slot holds, whatever that is. -/
theorem Opens.stmtReader_eq {keyword marker : Token} {use : SlotUse} {ts us : List Token}
    (h : Opens g room keyword ts marker us)
    (huse : slotUse? keyword.kind marker.kind = some use) :
    ∃ before s, ts = before ++ marker :: us ∧ ∀ us',
      stmtReader g room (keyword :: (before ++ marker :: us')) = assembled g keyword
        (readSlot room (levelBelow (stmtReader g) room) keyword use marker us' >>=
          fun (filling, rest) => tableRest room (levelBelow (stmtReader g) room) keyword
            (Function.update s marker.kind (some filling)) rest) := by
  have hinner := below_local g room
  obtain ⟨s, hopen, hreaches⟩ := h
  obtain ⟨before, hts, hbefore⟩ := hreaches.local hinner
  refine ⟨before, s, hts, fun us' => ?_⟩
  rw [stmtReader_eq_assembled _ (hasSlots_of_slotUse? huse),
    (hbefore (marker :: us') rfl).tableRest_eq hinner, tableRest_slot hinner us' huse hopen]

/-- Tokens after a marker can be exchanged if the slot holds the same and leaves the same. -/
theorem Opens.stmtReader_congr {keyword marker : Token} {use : SlotUse} {ts us : List Token}
    (h : Opens g room keyword ts marker us)
    (huse : slotUse? keyword.kind marker.kind = some use) :
    ∃ before, ts = before ++ marker :: us ∧ ∀ us',
      readSlot room (levelBelow (stmtReader g) room) keyword use marker us' =
        readSlot room (levelBelow (stmtReader g) room) keyword use marker us →
      stmtReader g room (keyword :: (before ++ marker :: us')) =
        stmtReader g room (keyword :: ts) := by
  obtain ⟨before, s, rfl, hstmt⟩ := h.stmtReader_eq huse
  refine ⟨before, rfl, fun us' hsame => ?_⟩
  rw [hstmt us', hstmt us, hsame]

/-- Tokens can be exchanged at a statement one level down if that statement is the same. -/
theorem Calls.stmtReader_congr {room' : Nat} {ts us : List Token}
    (h : Calls g (room, ts) (room', us)) :
    ∃ before, ts = before ++ us ∧ ∀ us', SameFirst us us' →
      stmtReader g room' us' = stmtReader g room' us →
      stmtReader g room (before ++ us') = stmtReader g room ts := by
  cases h with
  | @branch _ keyword marker token body ts us vs huse hopens hcomes hkind =>
      obtain ⟨before, rfl, hbefore⟩ := hopens.stmtReader_congr huse
      obtain ⟨more, rfl, hmore⟩ := hcomes.local (stmtReader_local g room')
      refine ⟨keyword :: (before ++ marker :: more), by simp, fun us' hfirst hsame => ?_⟩
      obtain ⟨us', rfl⟩ := hfirst.exists_cons
      rw [List.cons_append, List.append_assoc, List.cons_append]
      apply hbefore
      have hblock : Parser.branch (some (stmtReader g room')) marker (more ++ token :: us') =
          Parser.branch (some (stmtReader g room')) marker (more ++ token :: vs) := by
        show block _ _ _ = block _ _ _
        rw [(hmore (token :: us') rfl).block_eq, hcomes.block_eq, block_congr hkind hsame]
      simp only [readSlot, levelBelow, hblock]
  | @slot _ keyword marker ts us huse hopens =>
      obtain ⟨before, rfl, hbefore⟩ := hopens.stmtReader_congr huse
      refine ⟨keyword :: (before ++ [marker]), by simp, fun us' _ hsame => ?_⟩
      rw [List.cons_append, List.append_assoc, List.singleton_append]
      apply hbefore
      have hnested : nested (some (stmtReader g room')) marker us' =
          nested (some (stmtReader g room')) marker us := hsame
      simp only [readSlot, levelBelow, hnested]

/-- Tokens can be exchanged at a statement at any depth. -/
theorem stmtReader_congr {c c' : Nat × List Token} (h : Relation.ReflTransGen (Calls g) c c') :
    ∃ before, c.2 = before ++ c'.2 ∧ ∀ us', SameFirst c'.2 us' →
      stmtReader g c'.1 us' = stmtReader g c'.1 c'.2 →
      stmtReader g c.1 (before ++ us') = stmtReader g c.1 c.2 := by
  induction h using Relation.ReflTransGen.head_induction_on with
  | refl => exact ⟨[], rfl, fun us' _ hsame => hsame⟩
  | @head c c₁ hcalls _ ih =>
      -- the exchange inside is one that the statement around it does not notice
      obtain ⟨more, hmore, hinner⟩ := ih
      obtain ⟨before, hbefore, houter⟩ := hcalls.stmtReader_congr
      refine ⟨before ++ more, by rw [hbefore, hmore, List.append_assoc], fun us' hfirst hsame => ?_⟩
      rw [List.append_assoc]
      refine houter (more ++ us') ?_ (hinner us' hfirst hsame)
      rw [hmore]
      exact hfirst.append more

/-! ### What follows a statement -/

/-- A statement is read, and what follows it cannot go on with an expression. -/
def EndsWell (g : Grid) (c : Nat × List Token) : Prop :=
  ∃ stmt rest, stmtReader g c.1 c.2 = .ok (stmt, rest) ∧ NotFirst extendsSum rest

theorem BlockRead.notFirst {ts rest : List Token} {body : List Stmt}
    (h : BlockRead (stmtReader g room) ts body rest) : NotFirst extendsSum ts := by
  cases h with
  | nil hkind =>
      show extendsSum _ = false
      rw [hkind]
      decide
  | cons _ hstmt => exact notFirst_of_stmtReader hstmt

/-- In a branch that is read, each statement is followed by another one or by the end. -/
theorem ComesTo.endsWell {token : Token} {ts vs rest : List Token} {body all : List Stmt}
    (h : ComesTo (stmtReader g room) ts body (token :: vs)) (hkind : token.kind ≠ .branchEnd)
    (hall : BlockRead (stmtReader g room) ts all rest) : EndsWell g (room, token :: vs) := by
  have hblock := hall.block_eq (stmtReader_local g room) (Nat.lt_succ_self _)
  rw [h.block_eq] at hblock
  cases hothers : block (stmtReader g room) ((token :: vs).length + 1) (token :: vs) with
  | error e =>
      rw [hothers] at hblock
      cases hblock
  | ok r =>
      obtain ⟨others, after⟩ := r
      cases block_read hothers with
      | nil hclosed => exact absurd hclosed hkind
      | cons _ hstmt hmore => exact ⟨_, _, hstmt, hmore.notFirst⟩

/-- In a statement that is read, what an open slot holds is read, and then the other slots. -/
theorem Opens.readSlot_ok {keyword marker : Token} {use : SlotUse} {stmt : Stmt}
    {ts us rest : List Token} (h : Opens g room keyword ts marker us)
    (huse : slotUse? keyword.kind marker.kind = some use)
    (hstmt : stmtReader g room (keyword :: ts) = .ok (stmt, rest)) :
    ∃ filling mid s s',
      readSlot room (levelBelow (stmtReader g) room) keyword use marker us = .ok (filling, mid) ∧
        tableRest room (levelBelow (stmtReader g) room) keyword
          (Function.update s marker.kind (some filling)) mid = .ok (s', rest) ∧
        assemble g keyword s' = .ok stmt := by
  obtain ⟨before, s, rfl, hread⟩ := h.stmtReader_eq huse
  rw [hread us] at hstmt
  obtain ⟨s', hs', hassemble⟩ := assembled_ok hstmt
  obtain ⟨⟨filling, mid⟩, hfilling, hrest⟩ := ok_of_bind hs'
  exact ⟨filling, mid, s, s', hfilling, hrest, hassemble⟩

theorem isArgument_of_slotUse? {statement marker : TokenKind} {use : SlotUse}
    (h : slotUse? statement marker = some use) : marker.isArgument = true := by
  rcases kind_of_slotUse? h with rfl | rfl | rfl | rfl
  all_goals rfl

/-- Between slots stands nothing that could go on with an expression. -/
theorem notFirst_of_tableRest {keyword : Token} {s s' : SlotTable} {ts rest : List Token}
    (hkind : keyword.kind ≠ .placeBlock)
    (h : tableRest room (levelBelow (stmtReader g) room) keyword s ts = .ok (s', rest))
    (hrest : NotFirst extendsSum rest) : NotFirst extendsSum ts := by
  cases ts with
  | nil => trivial
  | cons marker ts =>
      rcases tableRest_cons_ok (below_local g room) h with
        ⟨-, rfl, -⟩ | ⟨s₁, mid, hfill, -⟩ | ⟨hplace, -⟩
      · exact hrest
      · obtain ⟨use, filling, huse, -⟩ := fillTable_ok hfill
        exact notFirst_argument (isArgument_of_slotUse? huse) ts
      · exact absurd hplace hkind

theorem Calls.endsWell {c c' : Nat × List Token} (h : Calls g c c') (hc : EndsWell g c) :
    EndsWell g c' := by
  obtain ⟨stmt, rest, hstmt, hrest⟩ := hc
  cases h with
  | branch huse hopens hcomes hkind =>
      obtain ⟨filling, mid, -, -, hread, -⟩ := hopens.readSlot_ok huse hstmt
      obtain ⟨⟨all, after⟩, hbranch, -⟩ := ok_of_bind hread
      obtain ⟨_, ⟨⟩, hall⟩ := branch_ok hbranch
      exact hcomes.endsWell hkind hall
  | slot huse hopens =>
      obtain ⟨filling, mid, s, s', hread, htable, -⟩ := hopens.readSlot_ok huse hstmt
      obtain ⟨⟨first, after⟩, hnested, hread⟩ := ok_of_bind hread
      cases hread
      refine ⟨first, _, hnested, notFirst_of_tableRest ?_ htable hrest⟩
      -- only `FOR` has statements in its slots
      intro hplace
      rw [hplace] at huse
      unfold slotUse? at huse
      split at huse <;> simp_all

theorem EndsWell.trans {c c' : Nat × List Token} (hc : EndsWell g c)
    (h : Relation.ReflTransGen (Calls g) c c') : EndsWell g c' := by
  induction h with
  | refl => exact hc
  | tail _ hcalls ih => exact hcalls.endsWell ih

end Calls

/-- A program that is read is read to its end, statement by statement. -/
theorem endsWell_of_statements {g : Grid} {room : Nat} {token : Token} {ts : List Token}
    {body : List Stmt}
    (h : statements (stmtReader g room) (token :: ts).length (token :: ts) = .ok body) :
    EndsWell g (room, token :: ts) := by
  obtain ⟨stmt, mid, others, hstmt, hothers, -⟩ := statements_cons h
  refine ⟨stmt, mid, hstmt, ?_⟩
  cases mid with
  | nil => trivial
  | cons next mid =>
      have hread := stmtReader_local g room
      rw [statements_fuel hread (Nat.le_of_lt_succ (hread.length_lt hstmt)) (Nat.le_refl _)]
        at hothers
      obtain ⟨_, _, _, hnext, -, -⟩ := statements_cons hothers
      exact notFirst_of_stmtReader hnext

end Parser

namespace Program

/-- In the course of reading a program, a statement is read from some tokens, with `room` levels
left. -/
def Visits (g : Grid) (ts : List Token) (room : Nat) (us : List Token) : Prop :=
  ∃ body vs, Parser.ComesTo (Parser.stmtReader g Parser.maxNesting) ts body vs ∧
    Relation.ReflTransGen (Parser.Calls g) (Parser.maxNesting, vs) (room, us)

/-- The tokens of a statement that is read somewhere in a program can be exchanged for others that
give the same statement, or the same error, and leave the same tokens. -/
theorem Visits.parse_congr {g : Grid} {ts us : List Token} {room : Nat}
    (h : Visits g ts room us) :
    ∃ before, ts = before ++ us ∧ ∀ us', Parser.SameFirst us us' →
      Parser.stmtReader g room us' = Parser.stmtReader g room us →
      Program.parse g (before ++ us') = Program.parse g ts := by
  obtain ⟨body, vs, hcomes, hcalls⟩ := h
  have hread := Parser.stmtReader_local g Parser.maxNesting
  obtain ⟨more, hvs, hinner⟩ := Parser.stmtReader_congr hcalls
  dsimp only at hvs hinner
  subst hvs
  obtain ⟨before, rfl, hbefore⟩ := hcomes.local hread
  refine ⟨before ++ more, by simp, fun us' hfirst hsame => ?_⟩
  have hmore := hfirst.append more
  have hstatements := Parser.statements_congr hread hmore (hinner us' hfirst hsame)
  rw [List.append_assoc, parse, parse, (hbefore _ hmore).statements_eq hread,
    hcomes.statements_eq hread, hstatements]

/-- In an accepted program, each statement that is read ends before the end, before another
statement, or before a token that closes its branch or opens a slot. -/
theorem Visits.endsWell {g : Grid} {token : Token} {ts us : List Token} {room : Nat}
    {program : Program} (h : Visits g ts room (token :: us))
    (hparse : Program.parse g ts = .ok program) : Parser.EndsWell g (room, token :: us) := by
  obtain ⟨body, vs, hcomes, hcalls⟩ := h
  obtain ⟨all, hall, -⟩ := Parser.ok_of_bind hparse
  rw [hcomes.statements_eq (Parser.stmtReader_local g _)] at hall
  have hvs : Parser.EndsWell g (Parser.maxNesting, vs) := by
    cases vs with
    | nil =>
        -- nothing is read from no tokens
        rcases hcalls.cases_head with heq | ⟨c, hc, -⟩
        · cases heq
        · cases hc
    | cons first vs =>
        cases hothers : Parser.statements (Parser.stmtReader g Parser.maxNesting)
            (first :: vs).length (first :: vs) with
        | error e =>
            rw [hothers] at hall
            cases hall
        | ok others => exact Parser.endsWell_of_statements hothers
  exact hvs.trans hcalls

end Program

end CellScript
