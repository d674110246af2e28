/-
Module: CellScript.Proofs.Parser.Lookahead
Purpose: How far the parser looks ahead. What is read from the front of a list of tokens depends on
  the tokens that are taken and, of what stands after them, on the next token only; an expression
  ends before every token that cannot go on with one, and a branch says itself where it ends.
Main exports: Parser.SameFirst, Parser.EndsLike, Parser.Derives.local, Parser.Derives.reader_eq,
  Parser.Local, Parser.expression_local, Parser.branch_local, Parser.skipLine_local
-/
import CellScript.Proofs.Parser.Tokens

namespace CellScript.Parser

variable {rest rest' : List Token}

/-! ### Continuations -/

/-- Continuations that begin with the same token, or are both empty. -/
def SameFirst (rest rest' : List Token) : Prop :=
  rest'.head? = rest.head?

namespace SameFirst

theorem eq_nil (h : SameFirst [] rest') : rest' = [] :=
  List.head?_eq_none_iff.1 h

theorem exists_cons {token : Token} (h : SameFirst (token :: rest) rest') :
    ∃ ts, rest' = token :: ts :=
  List.head?_eq_some_iff.1 h

theorem append (h : SameFirst rest rest') (used : List Token) :
    SameFirst (used ++ rest) (used ++ rest') := by
  cases used with
  | nil => exact h
  | cons token used => rfl

theorem of_ne_nil {used : List Token} (h : used ≠ []) (rest rest' : List Token) :
    SameFirst (used ++ rest) (used ++ rest') := by
  obtain ⟨first, used, rfl⟩ := List.exists_cons_of_ne_nil h
  rfl

theorem notFirst {c : TokenKind → Bool} (h : SameFirst rest rest') (hrest : NotFirst c rest) :
    NotFirst c rest' := by
  cases rest with
  | nil =>
      cases h.eq_nil
      trivial
  | cons token rest =>
      obtain ⟨ts, rfl⟩ := h.exists_cons
      exact hrest

end SameFirst

/-- A continuation before which an expression ends if it ends before another one: it begins with the
same token, or with none that goes on with an expression. -/
def EndsLike (rest rest' : List Token) : Prop :=
  SameFirst rest rest' ∨ NotFirst extendsSum rest'

namespace EndsLike

theorem append (h : EndsLike rest rest') (used : List Token) :
    EndsLike (used ++ rest) (used ++ rest') := by
  cases used with
  | nil => exact h
  | cons token used => exact .inl rfl

theorem notFirst {c : TokenKind → Bool} (h : EndsLike rest rest')
    (hc : ∀ k, c k = true → extendsSum k = true) (hrest : NotFirst c rest) : NotFirst c rest' := by
  rcases h with hsame | hend
  · exact hsame.notFirst hrest
  · exact hend.mono hc

end EndsLike

theorem notFirst_dropWhile (c : TokenKind → Bool) (ts : List Token) :
    NotFirst c (ts.dropWhile fun t => c t.kind) := by
  induction ts with
  | nil => trivial
  | cons token ts ih =>
      rw [List.dropWhile_cons]
      split
      · exact ih
      · rename_i hc
        simpa [NotFirst] using hc

/-- What is collected while a class lasts is collected again before a continuation that ends it. -/
theorem collect_takeWhile {c : TokenKind → Bool} (ts : List Token)
    (hrest : NotFirst c rest') :
    (ts.takeWhile (fun t => c t.kind) ++ rest').takeWhile (fun t => c t.kind) =
        ts.takeWhile (fun t => c t.kind) ∧
      (ts.takeWhile (fun t => c t.kind) ++ rest').dropWhile (fun t => c t.kind) = rest' :=
  collect_append (fun _ ht => List.mem_takeWhile_imp (p := fun t : Token => c t.kind) ht) hrest

theorem extendsSum_bit (k : TokenKind) (h : k.isBit = true) : extendsSum k = true := by
  simp only [extendsSum, extendsTerm, extendsFactor, h, Bool.true_or]

theorem extendsSum_index (k : TokenKind) (h : (k == .varIndex) = true) : extendsSum k = true := by
  simp only [extendsSum, extendsTerm, extendsFactor, h, Bool.or_true, Bool.true_or]

/-! ### Expressions -/

/-- A part of an expression is derived from the tokens that it takes, before all that ends it. -/
theorem Derives.local {room : Nat} {p : Part} {ts rest : List Token} {e : Expr}
    (h : Derives room p ts e rest) :
    ∃ used, ts = used ++ rest ∧
      ∀ rest', EndsLike rest rest' → Derives room p (used ++ rest') e rest' := by
  -- of the parts of a derivation, only the last one that takes a token meets the continuation
  induction h with
  | @unary room op token operand ts rest hop _ ih =>
      obtain ⟨used, rfl, hused⟩ := ih
      exact ⟨token :: used, rfl, fun rest' hrest' => .unary hop (hused rest' hrest')⟩
  | @parens room opener closer e ts rest hopener _ hcloser ih =>
      obtain ⟨used, rfl, hused⟩ := ih
      refine ⟨opener :: (used ++ [closer]), by simp, fun rest' _ => ?_⟩
      have hinside := hused (closer :: rest') (.inl rfl)
      rw [List.cons_append, List.append_assoc, List.singleton_append]
      exact .parens hopener hinside hcloser
  | @literal room type token ts htype hwidth =>
      refine ⟨token :: ts.takeWhile fun t => t.kind.isBit, ?_, fun rest' hrest' => ?_⟩
      · rw [List.cons_append, List.takeWhile_append_dropWhile]
      · have hbit := hrest'.notFirst extendsSum_bit (notFirst_dropWhile TokenKind.isBit ts)
        obtain ⟨htake, hdrop⟩ := collect_takeWhile ts hbit
        have hderives : Derives room .factor
            (token :: (ts.takeWhile (fun t => t.kind.isBit) ++ rest')) _ _ :=
          .literal htype (by rwa [htake])
        rwa [htake, hdrop] at hderives
  | @var room token ts hkind =>
      refine ⟨token :: ts.takeWhile isIndex, ?_, fun rest' hrest' => ?_⟩
      · rw [List.cons_append, List.takeWhile_append_dropWhile]
      · have hindex := hrest'.notFirst extendsSum_index
          (notFirst_dropWhile (fun k => k == .varIndex) ts)
        obtain ⟨htake, hdrop⟩ := collect_takeWhile ts hindex
        have hderives : Derives room .factor (token :: (ts.takeWhile isIndex ++ rest')) _ _ :=
          .var hkind
        change (ts.takeWhile isIndex ++ rest').takeWhile isIndex = _ at htake
        change (ts.takeWhile isIndex ++ rest').dropWhile isIndex = _ at hdrop
        rwa [htake, hdrop] at hderives
  | @constant room value token ts hkind => exact ⟨[token], rfl, fun rest' _ => .constant hkind⟩
  | @termEnd room left ts hend =>
      refine ⟨[], rfl, fun rest' hrest' => .termEnd (hrest'.notFirst (fun k hk => ?_) hend)⟩
      simp [extendsSum, extendsTerm, hk]
  | @termStep room op token left right e ts mid rest hop _ _ ihRight ihRest =>
      obtain ⟨used, rfl, hused⟩ := ihRight
      obtain ⟨more, rfl, hmore⟩ := ihRest
      refine ⟨token :: (used ++ more), by simp, fun rest' hrest' => ?_⟩
      rw [List.cons_append, List.append_assoc]
      exact .termStep hop (hused _ (hrest'.append more)) (hmore rest' hrest')
  | @term room left e ts mid rest _ _ ihLeft ihRest =>
      obtain ⟨used, rfl, hused⟩ := ihLeft
      obtain ⟨more, rfl, hmore⟩ := ihRest
      refine ⟨used ++ more, by simp, fun rest' hrest' => ?_⟩
      rw [List.append_assoc]
      exact .term (hused _ (hrest'.append more)) (hmore rest' hrest')
  | @sumEnd room left ts hend =>
      refine ⟨[], rfl, fun rest' hrest' => .sumEnd (hrest'.notFirst (fun k hk => ?_) hend)⟩
      simp [extendsSum, hk]
  | @sumStep room op token left right e ts mid rest hop _ _ ihRight ihRest =>
      obtain ⟨used, rfl, hused⟩ := ihRight
      obtain ⟨more, rfl, hmore⟩ := ihRest
      refine ⟨token :: (used ++ more), by simp, fun rest' hrest' => ?_⟩
      rw [List.cons_append, List.append_assoc]
      exact .sumStep hop (hused _ (hrest'.append more)) (hmore rest' hrest')
  | @sum room left e ts mid rest _ _ ihLeft ihRest =>
      obtain ⟨used, rfl, hused⟩ := ihLeft
      obtain ⟨more, rfl, hmore⟩ := ihRest
      refine ⟨used ++ more, by simp, fun rest' hrest' => ?_⟩
      rw [List.append_assoc]
      exact .sum (hused _ (hrest'.append more)) (hmore rest' hrest')

theorem reader_nil (room : Nat) (e : Expr) (rest : List Token) :
    reader room .sum [] ≠ .ok (e, rest) := by
  rw [reader_eq_part]
  intro h
  cases h

theorem enter_of_reader {room : Nat} {ts rest : List Token} {e : Expr}
    (h : reader room .sum ts = .ok (e, rest)) : enter (some (reader room)) ts = .ok (e, rest) := by
  cases ts with
  | nil => exact absurd h (reader_nil room e rest)
  | cons token ts => exact h

/-- A chain goes on with an operator and its right side. -/
theorem chainRest_of_op {op? : TokenKind → Option BinaryOp} {operand : Part}
    {again : Expr → Part} {room : Nat} {op : BinaryOp} {token : Token} {left right e : Expr}
    {ts mid rest : List Token} (hop : op? token.kind = some op)
    (hright : reader room operand ts = .ok (right, mid))
    (hrest : reader room (again (.binary op token left right)) mid = .ok (e, rest)) :
    chainRest op? operand again (some (reader room)) left (token :: ts) = .ok (e, rest) := by
  rw [chainRest_of_some hop]
  exact (bind_of_ok hright _).trans hrest

/-- What has a derivation is read. -/
theorem Derives.reader_eq {room : Nat} {p : Part} {ts rest : List Token} {e : Expr}
    (h : Derives room p ts e rest) : reader room p ts = .ok (e, rest) := by
  induction h with
  | unary hop _ ih =>
      simp only [reader, part, factor_cons, factorFrom, hop, deeper]
      exact bind_of_ok ih _
  | parens hopener _ hcloser ih =>
      simp only [reader, part, factor_cons, factorFrom, hopener, UnaryOp.ofKind?]
      refine (bind_of_ok (enter_of_reader ih) _).trans ?_
      simp only [expect, hcloser]
      rfl
  | @literal room type token ts htype hwidth =>
      rw [reader_eq_part, part, factor_of_marker (ValueType.marker_of_ofKind? htype),
        literal_of_width htype hwidth]
  | var hkind =>
      rw [reader_eq_part, part, factor_cons, factorFrom, hkind]
      rfl
  | @constant room value token ts hkind =>
      rw [reader_eq_part, part, factor_cons, factorFrom, hkind]
      cases value with
      | pi => rfl
      | expBase => rfl
  | termEnd hend =>
      rw [reader_eq_part]
      exact chainRest_of_notFirst _ _ _ _ hend
  | termStep hop _ _ ihRight ihRest => exact chainRest_of_op hop ihRight ihRest
  | term _ _ ihLeft ihRest =>
      rw [reader_eq_part] at ihLeft ihRest ⊢
      exact (bind_of_ok ihLeft _).trans ihRest
  | sumEnd hend =>
      rw [reader_eq_part]
      exact chainRest_of_notFirst _ _ _ _ hend
  | sumStep hop _ _ ihRight ihRest => exact chainRest_of_op hop ihRight ihRest
  | sum _ _ ihLeft ihRest =>
      rw [reader_eq_part] at ihLeft ihRest ⊢
      exact (bind_of_ok ihLeft _).trans ihRest

theorem expression_of_derives {room : Nat} {ts rest : List Token} {e : Expr}
    (h : Derives room .sum ts e rest) : expression (room + 1) ts = .ok (e, rest) :=
  enter_of_reader h.reader_eq

/-! ### Parsers that look no further than the next token -/

/-- What a parser reads depends on the tokens that it takes, at least one, and not on what stands
after them, as long as `admits` allows for it. -/
def Local {α : Type} (admits : α → List Token → List Token → Prop)
    (read : List Token → Except ParseError (Parsed α)) : Prop :=
  ∀ ⦃ts a rest⦄, read ts = .ok (a, rest) → ∃ used, used ≠ [] ∧ ts = used ++ rest ∧
    ∀ rest', admits a rest rest' → read (used ++ rest') = .ok (a, rest')

theorem Local.length_lt {α : Type} {admits : α → List Token → List Token → Prop}
    {read : List Token → Except ParseError (Parsed α)} (hread : Local admits read)
    {ts rest : List Token} {a : α} (h : read ts = .ok (a, rest)) : rest.length < ts.length := by
  obtain ⟨used, hne, rfl, -⟩ := hread h
  have hpos := List.length_pos_iff.2 hne
  rw [List.length_append]
  omega

/-- An expression ends where it ended, before all that cannot go on with it. -/
theorem expression_local (room : Nat) : Local (fun _ => EndsLike) (expression room) := by
  intro ts e rest h
  obtain ⟨r, rfl, hderives⟩ := expression_derives h
  obtain ⟨used, rfl, hused⟩ := hderives.local
  refine ⟨used, ?_, rfl, fun rest' hrest' => expression_of_derives (hused rest' hrest')⟩
  rintro rfl
  -- an expression takes a token, since none is read from nothing
  exact reader_nil r e [] (hused [] (.inr trivial)).reader_eq

/-- A continuation before which a statement ends if it ends before another one. A statement with
slots looks at the next token to see whether it opens a slot. -/
def StmtEndsLike (stmt : Stmt) (rest rest' : List Token) : Prop :=
  SameFirst rest rest' ∨ stmt.isSlotless = true ∧ NotFirst extendsSum rest'

theorem StmtEndsLike.endsLike {stmt : Stmt} (h : StmtEndsLike stmt rest rest') :
    EndsLike rest rest' :=
  h.imp_right And.right

/-- A parser for statements that looks no further than the next token. -/
abbrev LocalStmt (read : StmtReader) : Prop :=
  Local StmtEndsLike read

/-- A branch says itself where it ends. -/
theorem BlockRead.local {read : StmtReader} (hread : LocalStmt read) {ts rest : List Token}
    {body : List Stmt} (h : BlockRead read ts body rest) :
    ∃ used, used ≠ [] ∧ ts = used ++ rest ∧
      ∀ rest', BlockRead read (used ++ rest') body rest' := by
  induction h with
  | @nil closer rest hkind =>
      exact ⟨[closer], List.cons_ne_nil _ _, rfl, fun rest' => .nil hkind⟩
  | @cons token stmt body ts mid rest hkind hstmt _ ih =>
      obtain ⟨more, hmore, rfl, hbody⟩ := ih
      obtain ⟨used, hne, hts, hused⟩ := hread hstmt
      obtain ⟨first, used, rfl⟩ := List.exists_cons_of_ne_nil hne
      obtain ⟨rfl, rfl⟩ := List.cons.inj hts
      refine ⟨token :: used ++ more, by simp, by simp, fun rest' => ?_⟩
      rw [List.append_assoc]
      exact .cons hkind (hused _ (.inl (.of_ne_nil hmore _ _))) (hbody rest')

theorem BlockRead.block_eq {read : StmtReader} (hread : LocalStmt read) {ts rest : List Token}
    {body : List Stmt} (h : BlockRead read ts body rest) {fuel : Nat} (hfuel : ts.length < fuel) :
    block read fuel ts = .ok (body, rest) := by
  induction h generalizing fuel with
  | nil hkind =>
      obtain ⟨fuel, rfl⟩ := Nat.exists_eq_add_of_lt hfuel
      simp only [block, hkind, if_true]
  | @cons token stmt body ts mid rest hkind hstmt _ ih =>
      obtain _ | fuel := fuel
      · exact absurd hfuel (Nat.not_lt_zero _)
      · have hmid := hread.length_lt hstmt
        simp only [block, hkind, if_false]
        refine (bind_of_ok hstmt _).trans ?_
        exact bind_of_ok (ih (by omega)) _

section Inner

variable {inner : Option StmtReader} (hinner : ∀ read ∈ inner, LocalStmt read)
include hinner

theorem branch_local (opener : Token) : Local (fun _ _ _ => True) (branch inner opener) := by
  intro ts body rest h
  obtain ⟨read, rfl, hblock⟩ := branch_ok h
  obtain ⟨used, hne, rfl, hused⟩ := hblock.local (hinner read rfl)
  exact ⟨used, hne, rfl, fun rest' _ =>
    (hused rest').block_eq (hinner read rfl) (Nat.lt_succ_self _)⟩

theorem nested_local (opener : Token) : LocalStmt (nested inner opener) := by
  intro ts stmt rest h
  obtain ⟨read, rfl, hstmt⟩ := nested_ok h
  exact hinner read rfl hstmt

end Inner

theorem skipLine_local (displacement next : Position) (ts : List Token) :
    ∃ used, ts = used ++ skipLine displacement next ts ∧
      ∀ rest', SameFirst (skipLine displacement next ts) rest' →
        skipLine displacement next (used ++ rest') = rest' := by
  induction ts generalizing next with
  | nil =>
      refine ⟨[], rfl, fun rest' hrest' => ?_⟩
      cases hrest'.eq_nil
      rfl
  | cons token ts ih =>
      by_cases hpos : token.pos = next
      · obtain ⟨used, hts, hused⟩ := ih (next + displacement)
        refine ⟨token :: used, ?_, ?_⟩
        · rw [skipLine, if_pos hpos, List.cons_append, ← hts]
        · intro rest' hrest'
          rw [skipLine, if_pos hpos] at hrest'
          rw [List.cons_append, skipLine, if_pos hpos]
          exact hused rest' hrest'
      · refine ⟨[], by rw [skipLine, if_neg hpos]; rfl, fun rest' hrest' => ?_⟩
        rw [skipLine, if_neg hpos] at hrest'
        obtain ⟨us, rfl⟩ := hrest'.exists_cons
        rw [List.nil_append, skipLine, if_neg hpos]

end CellScript.Parser
