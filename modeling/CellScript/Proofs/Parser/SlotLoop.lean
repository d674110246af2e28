/-
Module: CellScript.Proofs.Parser.SlotLoop
Purpose: The loop over the slots of a statement, one for all statements that have slots. Its rounds
  never run out, and it looks no further than the next token; hence neither does the parser for
  statements.
Main exports: Parser.tableRest, Parser.tableRest_slot, Parser.tableRest_cons_ok,
  Parser.SlotTable.Reaches, Parser.statement_local, Parser.stmtReader_local
-/
import CellScript.Proofs.Parser.Lookahead
import CellScript.Proofs.Parser.SlotTable

namespace CellScript.Parser

variable {rest rest' : List Token}

/-! ### Slots -/

/-- Continuations before which what a slot holds ends alike. -/
def Filling.EndsLike : Filling → List Token → List Token → Prop
  | .value _ => Parser.EndsLike
  | .branch _ => fun _ _ => True
  | .statement stmt => StmtEndsLike stmt
  | .template _ => SameFirst

theorem SameFirst.filling (h : SameFirst rest rest') (filling : Filling) :
    filling.EndsLike rest rest' := by
  cases filling with
  | value e => exact .inl h
  | branch body => trivial
  | statement stmt => exact .inl h
  | template marker => exact h

section Slots

variable {room : Nat} {inner : Option StmtReader} (hinner : ∀ read ∈ inner, LocalStmt read)
  {token : Token}

include hinner in
/-- What a slot holds ends where it ended. Only a template may take no token. -/
theorem readSlot_local {use : SlotUse} {marker : Token} {ts rest : List Token} {filling : Filling}
    (h : readSlot room inner token use marker ts = .ok (filling, rest)) :
    ∃ used, ts = used ++ rest ∧ ∀ rest', filling.EndsLike rest rest' →
      readSlot room inner token use marker (used ++ rest') = .ok (filling, rest') := by
  cases use with
  | value =>
      obtain ⟨⟨e, mid⟩, he, h⟩ := ok_of_bind h
      cases h
      obtain ⟨used, -, rfl, hused⟩ := expression_local room he
      exact ⟨used, rfl, fun rest' hrest' => bind_of_ok (hused rest' hrest') _⟩
  | branch =>
      obtain ⟨⟨body, mid⟩, hbody, h⟩ := ok_of_bind h
      cases h
      obtain ⟨used, -, rfl, hused⟩ := branch_local hinner marker hbody
      exact ⟨used, rfl, fun rest' _ => bind_of_ok (hused rest' trivial) _⟩
  | statement =>
      obtain ⟨⟨stmt, mid⟩, hstmt, h⟩ := ok_of_bind h
      cases h
      obtain ⟨used, -, rfl, hused⟩ := nested_local hinner marker hstmt
      exact ⟨used, rfl, fun rest' hrest' => bind_of_ok (hused rest' hrest') _⟩
  | template =>
      cases h
      obtain ⟨used, hts, hused⟩ :=
        skipLine_local (marker.pos - token.pos) (marker.pos + (marker.pos - token.pos)) ts
      refine ⟨used, hts, fun rest' hrest' => ?_⟩
      simp only [readSlot, hused rest' hrest']

theorem fillTable_eq_none {s : SlotTable} {marker : Token} {ts : List Token}
    (h : slotUse? token.kind marker.kind = none) :
    fillTable room inner token s marker ts = none := by
  simp only [fillTable, h]

theorem fillTable_of_readSlot {s : SlotTable} {marker : Token} {ts rest : List Token}
    {use : SlotUse} {filling : Filling} (huse : slotUse? token.kind marker.kind = some use)
    (hopen : s marker.kind = none)
    (hread : readSlot room inner token use marker ts = .ok (filling, rest)) :
    fillTable room inner token s marker ts =
      some (.ok (Function.update s marker.kind (some filling), rest)) := by
  simp only [fillTable, huse, hopen, once]
  exact congrArg some (bind_of_ok hread _)

/-- A marker fills one slot, which was open. -/
theorem fillTable_ok {s s' : SlotTable} {marker : Token} {ts rest : List Token}
    (h : fillTable room inner token s marker ts = some (.ok (s', rest))) :
    ∃ use filling, slotUse? token.kind marker.kind = some use ∧ s marker.kind = none ∧
      readSlot room inner token use marker ts = .ok (filling, rest) ∧
      s' = Function.update s marker.kind (some filling) := by
  unfold fillTable at h
  split at h
  · cases h
  · rename_i use huse
    obtain ⟨⟨filling, mid⟩, hfilling, h⟩ := ok_of_bind (Option.some.inj h)
    obtain ⟨hopen, hread⟩ := once_ok hfilling
    cases h
    exact ⟨use, filling, huse, hopen, hread, rfl⟩

include hinner in
theorem fillTable_local {s s' : SlotTable} {marker : Token} {ts rest : List Token}
    (h : fillTable room inner token s marker ts = some (.ok (s', rest))) :
    ∃ used, ts = used ++ rest ∧ ∀ rest', SameFirst rest rest' →
      fillTable room inner token s marker (used ++ rest') = some (.ok (s', rest')) := by
  obtain ⟨use, filling, huse, hopen, hread, rfl⟩ := fillTable_ok h
  obtain ⟨used, rfl, hused⟩ := readSlot_local hinner hread
  exact ⟨used, rfl, fun rest' hrest' =>
    fillTable_of_readSlot huse hopen (hused rest' (hrest'.filling filling))⟩

include hinner in
theorem fillTable_length_le {s s' : SlotTable} {marker : Token} {ts rest : List Token}
    (h : fillTable room inner token s marker ts = some (.ok (s', rest))) :
    rest.length ≤ ts.length := by
  obtain ⟨used, rfl, -⟩ := fillTable_local hinner h
  simp

/-! ### The loop over the slots

The rounds that the parser grants to a statement never run out: a table has four places, and each
round fills one of them or takes a token.
-/

/-- How many slots are filled. -/
def SlotTable.filled (s : SlotTable) : Nat :=
  [TokenKind.firstArgument, .secondArgument, .thirdArgument, .fourthArgument].countP
    fun kind => (s kind).isSome

theorem SlotTable.exists_round (s : SlotTable) : ∃ fuel, slotRounds - s.filled = fuel + 1 := by
  have hfilled : s.filled < slotRounds := Nat.lt_succ_of_le List.countP_le_length
  obtain ⟨fuel, hfuel⟩ := Nat.exists_eq_add_of_lt hfilled
  exact ⟨fuel, by omega⟩

/-- Only the four markers open slots. -/
theorem kind_of_slotUse? {statement marker : TokenKind} {use : SlotUse}
    (h : slotUse? statement marker = some use) :
    marker = .firstArgument ∨ marker = .secondArgument ∨ marker = .thirdArgument ∨
      marker = .fourthArgument := by
  unfold slotUse? at h
  split at h <;> simp_all

theorem SlotTable.filled_update {s : SlotTable} {statement kind : TokenKind} {use : SlotUse}
    (huse : slotUse? statement kind = some use) (hopen : s kind = none) (filling : Filling) :
    SlotTable.filled (Function.update s kind (some filling)) = s.filled + 1 := by
  rcases kind_of_slotUse? huse with rfl | rfl | rfl | rfl
  all_goals simp [filled, List.countP_cons, Function.update, hopen]
  all_goals omega

theorem SlotTable.isComplete_eq_false {s : SlotTable} {statement kind : TokenKind} {use : SlotUse}
    (huse : slotUse? statement kind = some use) (hopen : s kind = none) :
    s.isComplete = false := by
  rcases kind_of_slotUse? huse with rfl | rfl | rfl | rfl
  all_goals simp [isComplete, hopen]

variable (room inner token) in
/-- What is left to read of the slots of a statement, where some are filled. -/
def tableRest (s : SlotTable) (ts : List Token) : Except ParseError (Parsed SlotTable) :=
  if token.kind = .placeBlock then
    placeTable room inner token ts.length s ts
  else
    slots (fillTable room inner token) (slotRounds - s.filled) s ts

theorem readTable_eq_tableRest (ts : List Token) :
    readTable room inner token ts = tableRest room inner token .empty ts :=
  rfl

include hinner in
theorem placeTable_fuel {fuel fuel' : Nat} (s : SlotTable) {ts : List Token}
    (hfuel : ts.length ≤ fuel) (hfuel' : ts.length ≤ fuel') :
    placeTable room inner token fuel s ts = placeTable room inner token fuel' s ts := by
  induction fuel generalizing fuel' s ts with
  | zero =>
      cases List.length_eq_zero_iff.1 (Nat.le_zero.1 hfuel)
      cases fuel' with
      | zero => rfl
      | succ fuel' => rfl
  | succ fuel ih =>
      cases ts with
      | nil =>
          cases fuel' with
          | zero => rfl
          | succ fuel' => rfl
      | cons marker ts =>
          obtain _ | fuel' := fuel'
          · exact absurd hfuel' (Nat.not_succ_le_zero _)
          · rw [List.length_cons] at hfuel hfuel'
            rw [placeTable, placeTable]
            split
            · rfl
            · split
              · exact ih s (by omega) (by omega)
              · rename_i r hr
                obtain e | ⟨s₁, mid⟩ := r
                · rfl
                · have hmid := fillTable_length_le hinner hr
                  exact ih s₁ (by omega) (by omega)

@[simp] theorem tableRest_nil (s : SlotTable) :
    tableRest room inner token s [] = .ok (s, []) := by
  unfold tableRest
  split
  · rfl
  · cases slotRounds - s.filled with
    | zero => rfl
    | succ fuel => rfl

include hinner in
/-- A marker of an open slot is followed by what the slot holds, and by the other slots. -/
theorem tableRest_slot {s : SlotTable} {marker : Token} {use : SlotUse} (ts : List Token)
    (huse : slotUse? token.kind marker.kind = some use) (hopen : s marker.kind = none) :
    tableRest room inner token s (marker :: ts) =
      readSlot room inner token use marker ts >>= fun (filling, rest) =>
        tableRest room inner token (Function.update s marker.kind (some filling)) rest := by
  have hfill : fillTable room inner token s marker ts =
      some (readSlot room inner token use marker ts >>= fun (filling, rest) =>
        .ok (Function.update s marker.kind (some filling), rest)) := by
    simp only [fillTable, huse, hopen, once]
    rfl
  unfold tableRest
  split
  · -- the fuel is the length of the input, and what the slot holds takes as much of both
    rw [List.length_cons, placeTable, SlotTable.isComplete_eq_false huse hopen, hfill]
    rcases hread : readSlot room inner token use marker ts with e | ⟨filling, rest⟩
    · rfl
    · obtain ⟨used, rfl, -⟩ := readSlot_local hinner hread
      exact placeTable_fuel hinner _ (by simp) (Nat.le_refl _)
  · -- the rounds left are counted by the open slots, of which there is one less
    obtain ⟨fuel, hfuel⟩ := s.exists_round
    rw [hfuel, slots, hfill]
    rcases readSlot room inner token use marker ts with e | ⟨filling, rest⟩
    · rfl
    · have hleft : slotRounds -
          SlotTable.filled (Function.update s marker.kind (some filling)) = fuel := by
        rw [SlotTable.filled_update huse hopen]
        omega
      show slots _ fuel _ _ = slots _ (slotRounds - SlotTable.filled _) _ _
      rw [hleft]

/-- `PLACEBLOCK` skips tokens that open none of its slots, as long as one is open. -/
theorem tableRest_skip {s : SlotTable} {marker : Token} (ts : List Token)
    (hkind : token.kind = .placeBlock) (hopen : s.isComplete = false)
    (huse : slotUse? token.kind marker.kind = none) :
    tableRest room inner token s (marker :: ts) = tableRest room inner token s ts := by
  simp only [tableRest, hkind, if_true, List.length_cons, placeTable, hopen, Bool.false_eq_true,
    if_false, fillTable_eq_none huse]

/-- `PLACEBLOCK` ends where all its slots are filled. -/
theorem tableRest_complete {s : SlotTable} (ts : List Token) (hkind : token.kind = .placeBlock)
    (hcomplete : s.isComplete = true) : tableRest room inner token s ts = .ok (s, ts) := by
  cases ts with
  | nil => exact tableRest_nil s
  | cons marker ts =>
      simp only [tableRest, hkind, if_true, List.length_cons, placeTable, hcomplete]

/-- The other statements end before a token that opens none of their slots. -/
theorem tableRest_stop {s : SlotTable} {marker : Token} (ts : List Token)
    (hkind : token.kind ≠ .placeBlock) (huse : slotUse? token.kind marker.kind = none) :
    tableRest room inner token s (marker :: ts) = .ok (s, marker :: ts) := by
  obtain ⟨fuel, hfuel⟩ := s.exists_round
  rw [tableRest, if_neg hkind, hfuel, slots, fillTable_eq_none huse]

/-- A slot is not filled twice. -/
theorem tableRest_filled {s : SlotTable} {marker : Token} {use : SlotUse} {filling : Filling}
    (ts : List Token) (hkind : token.kind = .placeBlock → s.isComplete = false)
    (huse : slotUse? token.kind marker.kind = some use) (hfilled : s marker.kind = some filling) :
    tableRest room inner token s (marker :: ts) = .error (.duplicateArgument marker) := by
  have hfill : fillTable room inner token s marker ts =
      some (.error (.duplicateArgument marker)) := by
    simp only [fillTable, huse, hfilled, once]
    rfl
  unfold tableRest
  split
  · rename_i hplace
    rw [List.length_cons, placeTable, hkind hplace, hfill]
    rfl
  · obtain ⟨fuel, hfuel⟩ := s.exists_round
    rw [hfuel, slots, hfill]

include hinner in
/-- A round over the slots ends the loop whatever follows, fills a slot, or skips a token. -/
theorem tableRest_cons_ok {s s' : SlotTable} {marker : Token} {ts rest : List Token}
    (h : tableRest room inner token s (marker :: ts) = .ok (s', rest)) :
    (s' = s ∧ rest = marker :: ts ∧
        ∀ ts', tableRest room inner token s (marker :: ts') = .ok (s, marker :: ts')) ∨
      (∃ s₁ mid, fillTable room inner token s marker ts = some (.ok (s₁, mid)) ∧
        tableRest room inner token s₁ mid = .ok (s', rest)) ∨
      (token.kind = .placeBlock ∧ s.isComplete = false ∧
        slotUse? token.kind marker.kind = none ∧
        tableRest room inner token s ts = .ok (s', rest)) := by
  by_cases hend : token.kind = .placeBlock ∧ s.isComplete = true
  · have hstop : ∀ ts, tableRest room inner token s ts = .ok (s, ts) := fun ts =>
      tableRest_complete ts hend.1 hend.2
    rw [hstop] at h
    cases h
    exact .inl ⟨rfl, rfl, fun ts' => hstop (marker :: ts')⟩
  · have hopen : token.kind = .placeBlock → s.isComplete = false := by simpa using hend
    cases huse : slotUse? token.kind marker.kind with
    | none =>
        by_cases hkind : token.kind = .placeBlock
        · rw [tableRest_skip ts hkind (hopen hkind) huse] at h
          exact .inr (.inr ⟨hkind, hopen hkind, rfl, h⟩)
        · rw [tableRest_stop ts hkind huse] at h
          cases h
          exact .inl ⟨rfl, rfl, fun ts' => tableRest_stop ts' hkind huse⟩
    | some use =>
        cases hslot : s marker.kind with
        | some filling =>
            rw [tableRest_filled ts hopen huse hslot] at h
            cases h
        | none =>
            rw [tableRest_slot hinner ts huse hslot] at h
            obtain ⟨⟨filling, mid⟩, hread, h⟩ := ok_of_bind h
            exact .inr (.inl ⟨_, mid, fillTable_of_readSlot huse hslot hread, h⟩)

variable (room inner token) in
/-- The loop over the slots of a statement comes from one table and its tokens to another. -/
inductive SlotTable.Reaches : SlotTable → List Token → SlotTable → List Token → Prop where
  | refl (s : SlotTable) (ts : List Token) : Reaches s ts s ts
  | fill {s s₁ s' : SlotTable} {marker : Token} {ts mid us : List Token} :
      fillTable room inner token s marker ts = some (.ok (s₁, mid)) → Reaches s₁ mid s' us →
      Reaches s (marker :: ts) s' us
  | skip {s s' : SlotTable} {marker : Token} {ts us : List Token} :
      token.kind = .placeBlock → s.isComplete = false →
      slotUse? token.kind marker.kind = none → Reaches s ts s' us → Reaches s (marker :: ts) s' us

include hinner in
theorem SlotTable.Reaches.tableRest_eq {s s' : SlotTable} {ts us : List Token}
    (h : Reaches room inner token s ts s' us) :
    tableRest room inner token s ts = tableRest room inner token s' us := by
  induction h with
  | refl s ts => rfl
  | fill hfill _ ih =>
      obtain ⟨use, filling, huse, hopen, hread, rfl⟩ := fillTable_ok hfill
      rw [tableRest_slot hinner _ huse hopen, ← ih]
      exact bind_of_ok hread _
  | skip hkind hopen huse _ ih => rw [tableRest_skip _ hkind hopen huse, ih]

include hinner in
/-- What comes before does not depend on the tokens where the loop has come to, but for the
first. -/
theorem SlotTable.Reaches.local {s s' : SlotTable} {ts us : List Token}
    (h : Reaches room inner token s ts s' us) :
    ∃ before, ts = before ++ us ∧
      ∀ us', SameFirst us us' → Reaches room inner token s (before ++ us') s' us' := by
  induction h with
  | refl s ts => exact ⟨[], rfl, fun us' _ => .refl s us'⟩
  | @fill s s₁ s' marker ts mid us hfill _ ih =>
      obtain ⟨used, rfl, hused⟩ := fillTable_local hinner hfill
      obtain ⟨before, rfl, hbefore⟩ := ih
      refine ⟨marker :: (used ++ before), by simp, fun us' hus' => ?_⟩
      rw [List.cons_append, List.append_assoc]
      exact .fill (hused _ (hus'.append before)) (hbefore us' hus')
  | @skip s s' marker ts us hkind hopen huse _ ih =>
      obtain ⟨before, rfl, hbefore⟩ := ih
      exact ⟨marker :: before, rfl, fun us' hus' =>
        .skip hkind hopen huse (hbefore us' hus')⟩

include hinner in
/-- The loop comes to the table that it gives, and ends there before all that begins alike. -/
theorem reaches_of_tableRest {s s' : SlotTable} {ts rest : List Token}
    (h : tableRest room inner token s ts = .ok (s', rest)) :
    SlotTable.Reaches room inner token s ts s' rest ∧
      ∀ rest', SameFirst rest rest' → tableRest room inner token s' rest' = .ok (s', rest') := by
  induction hlength : ts.length using Nat.strongRecOn generalizing s ts with
  | ind n ih =>
      cases ts with
      | nil =>
          rw [tableRest_nil] at h
          cases h
          refine ⟨.refl _ _, fun rest' hrest' => ?_⟩
          cases hrest'.eq_nil
          exact tableRest_nil _
      | cons marker ts =>
          rw [List.length_cons] at hlength
          rcases tableRest_cons_ok hinner h with
            ⟨rfl, rfl, hstop⟩ | ⟨s₁, mid, hfill, hmid⟩ | ⟨hkind, hopen, huse, hmid⟩
          · refine ⟨.refl _ _, fun rest' hrest' => ?_⟩
            obtain ⟨us, rfl⟩ := hrest'.exists_cons
            exact hstop us
          · have hle := fillTable_length_le hinner hfill
            obtain ⟨hreaches, hend⟩ := ih mid.length (by omega) hmid rfl
            exact ⟨.fill hfill hreaches, hend⟩
          · obtain ⟨hreaches, hend⟩ := ih ts.length (by omega) hmid rfl
            exact ⟨.skip hkind hopen huse hreaches, hend⟩

include hinner in
theorem tableRest_local {s s' : SlotTable} {ts rest : List Token}
    (h : tableRest room inner token s ts = .ok (s', rest)) :
    ∃ used, ts = used ++ rest ∧ ∀ rest', SameFirst rest rest' →
      tableRest room inner token s (used ++ rest') = .ok (s', rest') := by
  obtain ⟨hreaches, hend⟩ := reaches_of_tableRest hinner h
  obtain ⟨used, hts, hused⟩ := hreaches.local hinner
  refine ⟨used, hts, fun rest' hrest' => ?_⟩
  rw [(hused rest' hrest').tableRest_eq hinner]
  exact hend rest' hrest'

end Slots

/-! ### Statements -/

theorem assembled_ok {g : Grid} {token : Token} {rest : List Token}
    {r : Except ParseError (Parsed SlotTable)}
    {stmt : Stmt} (h : assembled g token r = .ok (stmt, rest)) :
    ∃ s, r = .ok (s, rest) ∧ assemble g token s = .ok stmt := by
  obtain ⟨⟨s, mid⟩, hs, h⟩ := ok_of_bind h
  obtain ⟨stmt', hstmt, h⟩ := ok_of_bind h
  cases h
  exact ⟨s, hs, hstmt⟩

section Assignment

variable {room : Nat} {type : ValueType} {marker : Token} {ts rest : List Token} {value : Expr}

/-- An assignment whose chain stands before the value. -/
theorem assignment_of_chain (htype : ValueType.ofKind? marker.kind = some type)
    {chain : List Token} (hne : chain ≠ []) (hchain : ∀ t ∈ chain, t.kind = .varIndex)
    (hts : NotFirst (fun k => k == .varIndex) ts)
    (hvalue : expression room ts = .ok (value, rest)) :
    assignment room marker (chain ++ ts) = .ok (.assign type marker chain value, rest) := by
  obtain ⟨htake, hdrop⟩ := collect_index hchain hts
  obtain ⟨first, chain, rfl⟩ := List.exists_cons_of_ne_nil hne
  rw [assignment, bind_of_ok (markedType_eq htype), htake, hdrop]
  exact bind_of_ok hvalue _

/-- An assignment whose chain, if it has one, stands after the value. -/
theorem assignment_of_value (htype : ValueType.ofKind? marker.kind = some type)
    {chain : List Token} (hchain : ∀ t ∈ chain, t.kind = .varIndex)
    (hts : NotFirst (fun k => k == .varIndex) ts)
    (hvalue : expression room ts = .ok (value, chain ++ rest))
    (hrest : NotFirst (fun k => k == .varIndex) rest) :
    assignment room marker ts = .ok (.assign type marker chain value, rest) := by
  have htake : ([] ++ ts).takeWhile isIndex = [] :=
    (collect_index (List.forall_mem_nil _) hts).1
  rw [List.nil_append] at htake
  obtain ⟨hchain, hdrop⟩ := collect_index hchain hrest
  rw [assignment, bind_of_ok (markedType_eq htype), htake]
  refine (bind_of_ok hvalue _).trans ?_
  simp only [hchain, hdrop]
  rfl

end Assignment

theorem notFirst_append {c : TokenKind → Bool} {used rest : List Token} (hne : used ≠ [])
    (h : NotFirst c (used ++ rest)) (rest' : List Token) : NotFirst c (used ++ rest') := by
  obtain ⟨first, used, rfl⟩ := List.exists_cons_of_ne_nil hne
  exact h

section Statements

variable {g : Grid} {room : Nat} {inner : Option StmtReader}

/-- A statement without slots ends where it ended, before all that cannot go on with an
expression. -/
theorem StatementRead.local {ts rest : List Token} {stmt : Stmt}
    (h : StatementRead g room inner ts stmt rest) (hslots : stmt.isSlotless = true) :
    ∃ used, used ≠ [] ∧ ts = used ++ rest ∧ ∀ rest', EndsLike rest rest' →
      statement g room inner (used ++ rest') = .ok (stmt, rest') := by
  have htakes {token : Token} {used : List Token} : token :: used ≠ [] := List.cons_ne_nil _ _
  cases h with
  | @assignChainFirst type token value ts rest htype hne hvalue =>
      have hchain : ∀ t ∈ ts.takeWhile isIndex, t.kind = .varIndex := fun t ht =>
        kind_of_isIndex (List.mem_takeWhile_imp ht)
      have hfirst := notFirst_dropWhile (fun k => k == .varIndex) ts
      obtain ⟨used, hused, hts, hread⟩ := expression_local room hvalue
      refine ⟨token :: (ts.takeWhile isIndex ++ used), htakes, ?_, fun rest' hrest' => ?_⟩
      · rw [List.cons_append, List.append_assoc, ← hts, List.takeWhile_append_dropWhile]
      · rw [List.cons_append, statement_of_marker (ValueType.marker_of_ofKind? htype),
          List.append_assoc]
        change NotFirst _ (ts.dropWhile isIndex) at hfirst
        rw [hts] at hfirst
        exact assignment_of_chain htype hne hchain (notFirst_append hused hfirst rest')
          (hread rest' hrest')
  | @assignValueFirst type token value ts mid htype hnone hvalue =>
      have hchain : ∀ t ∈ mid.takeWhile isIndex, t.kind = .varIndex := fun t ht =>
        kind_of_isIndex (List.mem_takeWhile_imp ht)
      have hfirst : NotFirst (fun k => k == .varIndex) ts := by
        have hdrop := notFirst_dropWhile (fun k => k == .varIndex) ts
        change NotFirst _ (ts.dropWhile isIndex) at hdrop
        rwa [← List.takeWhile_append_dropWhile (p := isIndex) (l := ts), hnone]
      obtain ⟨used, hused, rfl, hread⟩ := expression_local room hvalue
      refine ⟨token :: (used ++ mid.takeWhile isIndex), htakes, ?_, fun rest' hrest' => ?_⟩
      · rw [List.cons_append, List.append_assoc, List.takeWhile_append_dropWhile]
      · rw [List.cons_append, statement_of_marker (ValueType.marker_of_ofKind? htype),
          List.append_assoc]
        have hend := hrest'.notFirst extendsSum_index
          (notFirst_dropWhile (fun k => k == .varIndex) mid)
        have hmid := hrest'.append (mid.takeWhile isIndex)
        rw [List.takeWhile_append_dropWhile] at hmid
        exact assignment_of_value htype hchain (notFirst_append hused hfirst _) (hread _ hmid) hend
  | @command token ts hkind =>
      refine ⟨[token], htakes, rfl, fun rest' _ => ?_⟩
      simp only [List.singleton_append, statement_cons, statementFrom, hkind]
  | @stop token ts hkind =>
      refine ⟨[token], htakes, rfl, fun rest' _ => ?_⟩
      simp only [List.singleton_append, statement_cons, statementFrom, hkind]
  | @breakLoop token ts hkind =>
      refine ⟨[token], htakes, rfl, fun rest' _ => ?_⟩
      simp only [List.singleton_append, statement_cons, statementFrom, hkind]
  | @continueLoop token ts hkind =>
      refine ⟨[token], htakes, rfl, fun rest' _ => ?_⟩
      simp only [List.singleton_append, statement_cons, statementFrom, hkind]
  | @print token value ts rest hkind hvalue =>
      obtain ⟨used, -, rfl, hread⟩ := expression_local room hvalue
      refine ⟨token :: used, htakes, rfl, fun rest' hrest' => ?_⟩
      simp only [List.cons_append, statement_cons, statementFrom, hkind]
      exact bind_of_ok (hread rest' hrest') _
  | @goto token target ts rest hkind htarget =>
      obtain ⟨used, -, rfl, hread⟩ := expression_local room htarget
      refine ⟨token :: used, htakes, rfl, fun rest' hrest' => ?_⟩
      simp only [List.cons_append, statement_cons, statementFrom, hkind]
      exact bind_of_ok (hread rest' hrest') _
  | place => cases hslots
  | ifElse => cases hslots
  | whileLoop => cases hslots
  | forLoop => cases hslots

/-- A statement with slots is none without. -/
theorem StatementRead.hasSlots_of_isSlotless {token : Token} {ts rest : List Token} {stmt : Stmt}
    (h : StatementRead g room inner (token :: ts) stmt rest) (hslots : stmt.isSlotless = false) :
    hasSlots token.kind = true := by
  cases h with
  | place hkind => exact congrArg hasSlots hkind
  | ifElse hkind => exact congrArg hasSlots hkind
  | whileLoop hkind => exact congrArg hasSlots hkind
  | forLoop hkind => exact congrArg hasSlots hkind
  | _ => cases hslots

/-- A statement ends where it ended: without slots, before all that cannot go on with an
expression; with slots, before all that begins alike. -/
theorem statement_local (hinner : ∀ read ∈ inner, LocalStmt read) :
    LocalStmt (statement g room inner) := by
  intro ts stmt rest h
  have hread := statement_read h
  cases hslots : stmt.isSlotless with
  | true =>
      obtain ⟨used, hne, hts, hused⟩ := hread.local hslots
      exact ⟨used, hne, hts, fun rest' hrest' => hused rest' hrest'.endsLike⟩
  | false =>
      cases ts with
      | nil => cases h
      | cons token ts =>
          have htoken := hread.hasSlots_of_isSlotless hslots
          rw [statement_eq_assembled g room inner ts htoken] at h
          obtain ⟨s, hs, hstmt⟩ := assembled_ok h
          rw [readTable_eq_tableRest] at hs
          obtain ⟨used, rfl, hused⟩ := tableRest_local hinner hs
          refine ⟨token :: used, List.cons_ne_nil _ _, rfl, fun rest' hrest' => ?_⟩
          -- with slots, only the same first token will do: another one might open a slot
          have hsame : SameFirst rest rest' := by
            rcases hrest' with hsame | ⟨hslotless, -⟩
            · exact hsame
            · rw [hslots] at hslotless
              cases hslotless
          rw [List.cons_append, statement_eq_assembled g room inner _ htoken,
            readTable_eq_tableRest, hused rest' hsame]
          exact bind_of_ok hstmt _

end Statements

theorem levelBelow_local {g : Grid} {room : Nat} (h : ∀ r < room, LocalStmt (stmtReader g r)) :
    ∀ read ∈ levelBelow (stmtReader g) room, LocalStmt read := by
  intro read hread
  cases room with
  | zero => cases hread
  | succ room =>
      cases hread
      exact h room (Nat.lt_succ_self room)

theorem stmtReader_local (g : Grid) (room : Nat) : LocalStmt (stmtReader g room) := by
  induction room using Nat.strongRecOn with
  | ind room ih =>
      intro ts stmt rest h
      simp only [stmtReader_eq_statement] at h ⊢
      exact statement_local (levelBelow_local ih) h

end CellScript.Parser
