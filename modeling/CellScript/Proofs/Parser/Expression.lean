/-
Module: CellScript.Proofs.Parser.Expression
Purpose: Reading back the written form of an expression. The parser gives the expression and what
  stands after it where enough levels are left, and blames the nesting where they are not.
Main exports: Parser.Guarded, Parser.NotFirst, Parser.Reads, Expr.reads,
  Parser.guarded_expression
-/
import CellScript.Proofs.Parser.Spelling

namespace CellScript

namespace Parser

/-! ### The guard

A parser that needs some levels either has them and does what it should, or it lacks them and is
stopped by the guard. This is kept through sequences of parsers: together they need as many levels
as the one that needs most.
-/

/-- With `room` levels left, `actual` is `ideal` if `need` levels suffice, and a complaint about the
nesting otherwise. -/
def Guarded {α : Type} (need room : Nat) (actual ideal : Except ParseError α) : Prop :=
  (need ≤ room → actual = ideal) ∧
    (room < need → ∃ token, actual = .error (.nestingTooDeep token maxNesting))

/-- The parser of one level less, if there is one. -/
def levelBelow {β : Type} (read : Nat → β) : Nat → Option β
  | 0 => none
  | room + 1 => some (read room)

theorem readerBelow_eq (room : Nat) : readerBelow room = levelBelow reader room := by
  cases room with
  | zero => rfl
  | succ room => rfl

theorem reader_eq_part (room : Nat) (p : Part) (ts : List Token) :
    reader room p ts = part (readerBelow room) p ts := by
  cases room with
  | zero => rfl
  | succ room => rfl

namespace Guarded

theorem refl {α : Type} (room : Nat) (x : Except ParseError α) : Guarded 0 room x x :=
  ⟨fun _ => rfl, fun h => absurd h (Nat.not_lt_zero room)⟩

theorem trans {α : Type} {n k room : Nat} {x y z : Except ParseError α}
    (hxy : Guarded n room x y) (hyz : Guarded k room y z) : Guarded (max n k) room x z := by
  constructor
  · intro hle
    rw [hxy.1 (by omega), hyz.1 (by omega)]
  · intro hlt
    by_cases hn : n ≤ room
    · rw [hxy.1 hn]
      exact hyz.2 (by omega)
    · exact hxy.2 (by omega)

theorem bind {α β : Type} {n k room : Nat} {x : Except ParseError α} {a : α}
    {f : α → Except ParseError β} {y : Except ParseError β}
    (hx : Guarded n room x (.ok a)) (hf : Guarded k room (f a) y) :
    Guarded (max n k) room (x >>= f) y := by
  have hstep : Guarded n room (x >>= f) (f a) := by
    constructor
    · intro hle
      rw [hx.1 hle]
      rfl
    · intro hlt
      obtain ⟨token, htoken⟩ := hx.2 hlt
      exact ⟨token, by rw [htoken]; rfl⟩
  exact hstep.trans hf

/-- What follows a parser needs no levels of its own. -/
theorem map {α β : Type} {n room : Nat} {x : Except ParseError α} {a : α}
    {f : α → Except ParseError β} {y : Except ParseError β}
    (hx : Guarded n room x (.ok a)) (hf : f a = y) : Guarded n room (x >>= f) y := by
  have hzero : Guarded 0 room (f a) y := hf ▸ refl room (f a)
  simpa using hx.bind hzero

/-- Going one level deeper takes one level. -/
theorem deeper {α β : Type} {need room : Nat} {read : Nat → β} {token : Token}
    {f : β → Except ParseError α} {y : Except ParseError α}
    (h : ∀ r, room = r + 1 → Guarded need r (f (read r)) y) :
    Guarded (need + 1) room (deeper (levelBelow read room) token >>= f) y := by
  cases room with
  | zero => exact ⟨fun hle => absurd hle (by omega), fun _ => ⟨token, rfl⟩⟩
  | succ r =>
      have hr := h r rfl
      exact ⟨fun hle => hr.1 (by omega), fun hlt => hr.2 (by omega)⟩

/-- Levels that are gone already count as needed. -/
theorem shift {α : Type} {need room gone : Nat} {x y : Except ParseError α} (hpos : 0 < need)
    (h : Guarded need (room - gone) x y) : Guarded (gone + need) room x y :=
  ⟨fun hle => h.1 (by omega), fun hlt => h.2 (by omega)⟩

end Guarded

/-! ### Where an expression ends -/

/-- Tokens whose first, if there is one, is not of a class. -/
def NotFirst (class? : TokenKind → Bool) : List Token → Prop
  | [] => True
  | t :: _ => class? t.kind = false

/-- Kinds that would be read as part of a factor before them. -/
def extendsFactor (k : TokenKind) : Bool :=
  k.isBit || k == .varIndex

/-- Kinds that would be read as part of a term before them. -/
def extendsTerm (k : TokenKind) : Bool :=
  extendsFactor k || (BinaryOp.multiplicative? k).isSome

/-- Kinds that would be read as part of an expression before them. -/
def extendsSum (k : TokenKind) : Bool :=
  extendsTerm k || (BinaryOp.additive? k).isSome

namespace NotFirst

theorem mono {c d : TokenKind → Bool} (hcd : ∀ k, c k = true → d k = true) {ts : List Token}
    (h : NotFirst d ts) : NotFirst c ts := by
  cases ts with
  | nil => trivial
  | cons t ts =>
      have hd : d t.kind = false := h
      have hc : ¬ c t.kind = true := fun hc => by simp [hcd _ hc] at hd
      simpa [NotFirst] using hc

theorem factor_of_term {ts : List Token} (h : NotFirst extendsTerm ts) :
    NotFirst extendsFactor ts :=
  h.mono fun k hk => by simp [extendsTerm, hk]

theorem term_of_sum {ts : List Token} (h : NotFirst extendsSum ts) : NotFirst extendsTerm ts :=
  h.mono fun k hk => by simp [extendsSum, hk]

theorem bit {ts : List Token} (h : NotFirst extendsFactor ts) : NotFirst TokenKind.isBit ts :=
  h.mono fun k hk => by simp [extendsFactor, hk]

theorem index {ts : List Token} (h : NotFirst extendsFactor ts) :
    NotFirst (fun k => k == .varIndex) ts :=
  h.mono fun k hk => by simp only [extendsFactor, hk, Bool.or_true]

end NotFirst

/-- What is collected while a class lasts is the tokens of the class before the first other one. -/
theorem collect_append {c : TokenKind → Bool} {xs rest : List Token}
    (hxs : ∀ t ∈ xs, c t.kind = true) (hrest : NotFirst c rest) :
    (xs ++ rest).takeWhile (fun t => c t.kind) = xs ∧
      (xs ++ rest).dropWhile (fun t => c t.kind) = rest := by
  rw [List.takeWhile_append_of_pos hxs, List.dropWhile_append_of_pos hxs]
  cases rest with
  | nil => simp
  | cons t rest =>
      have ht : c t.kind = false := hrest
      simp [ht]

/-- The chain that names a variable. -/
theorem collect_index {chain rest : List Token} (hchain : ∀ t ∈ chain, t.kind = .varIndex)
    (hrest : NotFirst (fun k => k == .varIndex) rest) :
    (chain ++ rest).takeWhile isIndex = chain ∧ (chain ++ rest).dropWhile isIndex = rest := by
  have hindex : ∀ t ∈ chain, (t.kind == .varIndex) = true := fun t ht => by simp [hchain t ht]
  exact collect_append hindex hrest

/-- A chain ends where no operator of its level stands. -/
theorem chainRest_of_notFirst {op? : TokenKind → Option BinaryOp} (operand : Part)
    (again : Expr → Part) (inner : Option Reader) (left : Expr) {ts : List Token}
    (h : NotFirst (fun k => (op? k).isSome) ts) :
    chainRest op? operand again inner left ts = .ok (left, ts) := by
  cases ts with
  | nil => rfl
  | cons token ts =>
      have hop : op? token.kind = none := by simpa [NotFirst] using h
      exact chainRest_of_none hop operand again inner left ts

theorem termRest_of_notFirst (room : Nat) (e : Expr) {rest : List Token}
    (h : NotFirst extendsTerm rest) : reader room (.termRest e) rest = .ok (e, rest) := by
  rw [reader_eq_part]
  exact chainRest_of_notFirst _ _ _ e (h.mono fun k hk => by simp [extendsTerm, hk])

theorem sumRest_of_notFirst (room : Nat) (e : Expr) {rest : List Token}
    (h : NotFirst extendsSum rest) : reader room (.sumRest e) rest = .ok (e, rest) := by
  rw [reader_eq_part]
  exact chainRest_of_notFirst _ _ _ e (h.mono fun k hk => by simp [extendsSum, hk])

end Parser

/-! ### Operators and their tokens -/

namespace BinaryOp

theorem multiplicative?_kind {op : BinaryOp} (h : op.isTight = true) :
    multiplicative? op.kind = some op := by
  revert h
  cases op <;> decide

theorem additive?_kind {op : BinaryOp} (h : op.isTight = false) :
    additive? op.kind = some op := by
  revert h
  cases op <;> decide

theorem extendsFactor_kind (op : BinaryOp) : Parser.extendsFactor op.kind = false := by
  cases op <;> rfl

theorem extendsTerm_kind {op : BinaryOp} (h : op.isTight = false) :
    Parser.extendsTerm op.kind = false := by
  revert h
  cases op <;> decide

end BinaryOp

theorem UnaryOp.ofKind?_kind (op : UnaryOp) : UnaryOp.ofKind? op.kind = some op := by
  cases op <;> rfl

theorem ValueType.ofKind?_marker (type : ValueType) : ofKind? type.marker = some type := by
  cases type <;> rfl

theorem ValueType.marker_of_ofKind? {k : TokenKind} {type : ValueType}
    (h : ofKind? k = some type) : k = type.marker := by
  cases k <;> cases h <;> rfl

theorem UnaryOp.ofKind?_marker (type : ValueType) : UnaryOp.ofKind? type.marker = none := by
  cases type <;> rfl

namespace Parser

/-!
### Reading an expression where it stands

The rest of a chain is read by the parser that read its beginning, with as many levels less as the
beginning has operators. So what is shown of an expression at the beginning of a chain is that the
parser goes on with the rest of the chain from there.
-/

/-- An expression is read as the beginning of a chain of looser operators. -/
def ReadsSum (e : Expr) : Prop :=
  ∀ (room : Nat) (ts rest : List Token), Spells (e.marksAt .sum) ts → NotFirst extendsTerm rest →
    Guarded (e.needAt .sum) room (reader room .sum (ts ++ rest))
      (reader (room - e.chain false) (.sumRest e) rest)

/-- An expression is read as the beginning of a chain of tighter operators. -/
def ReadsTerm (e : Expr) : Prop :=
  ∀ (room : Nat) (ts rest : List Token), Spells (e.marksAt .term) ts → NotFirst extendsFactor rest →
    Guarded (e.needAt .term) room (reader room .term (ts ++ rest))
      (reader (room - e.chain true) (.termRest e) rest)

/-- An expression is read as a factor. -/
def ReadsFactor (e : Expr) : Prop :=
  ∀ (room : Nat) (ts rest : List Token), Spells (e.marksAt .factor) ts →
    NotFirst extendsFactor rest →
    Guarded (e.needAt .factor) room (reader room .factor (ts ++ rest)) (.ok (e, rest))

/-- An expression is read back wherever it stands. -/
structure Reads (e : Expr) : Prop where
  sum : ReadsSum e
  term : ReadsTerm e
  factor : ReadsFactor e

/-- A term that is no chain of its own is a factor. -/
theorem ReadsFactor.readsTerm {e : Expr} (h : ReadsFactor e) (hchain : e.chain true = 0)
    (hsite : e.wrapped .term = e.wrapped .factor) : ReadsTerm e := by
  intro room ts rest hts hrest
  have hmarks : e.marksAt .term = e.marksAt .factor := by simp only [Expr.marksAt, hsite]
  have hneed : e.needAt .term = e.needAt .factor := by simp only [Expr.needAt, hsite]
  rw [hmarks] at hts
  have hfactor := h room ts rest hts hrest
  rw [hneed, hchain, Nat.sub_zero, reader_eq_part room .term, part, term]
  rw [reader_eq_part, part] at hfactor
  exact hfactor.map (reader_eq_part room (.termRest e) rest).symm

/-- An expression that is no chain of its own is a term. -/
theorem ReadsTerm.readsSum {e : Expr} (h : ReadsTerm e) (hchain : e.chain false = 0)
    (hsite : e.wrapped .term = false) : ReadsSum e := by
  intro room ts rest hts hrest
  have hmarks : e.marksAt .sum = e.marksAt .term := by
    rw [Expr.marksAt_of_not_wrapped hsite, Expr.marksAt_of_not_wrapped e.wrapped_sum]
  have hneed : e.needAt .sum = e.needAt .term := by
    rw [Expr.needAt_of_not_wrapped hsite, Expr.needAt_of_not_wrapped e.wrapped_sum]
  rw [hmarks] at hts
  have hterm := h room ts rest hts hrest.factor_of_term
  rw [termRest_of_notFirst _ e hrest, reader_eq_part, part] at hterm
  rw [hneed, hchain, Nat.sub_zero, reader_eq_part room .sum, part, sum]
  exact hterm.map (reader_eq_part room (.sumRest e) rest).symm

theorem ne_nil_of_spells_marks {e : Expr} {ts : List Token} (h : Spells e.marks ts) :
    ts ≠ [] := by
  rintro rfl
  have hnil := List.forall₂_nil_right_iff.1 h
  cases e <;> simp [Expr.marks] at hnil

/-- An expression that is entered, as a whole or in parentheses, takes one level more. -/
theorem ReadsSum.guarded_enter {e : Expr} (h : ReadsSum e) (room : Nat) {ts rest : List Token}
    (hts : Spells e.marks ts) (hrest : NotFirst extendsSum rest) :
    Guarded (e.need + 1) room (enter (readerBelow room) (ts ++ rest)) (.ok (e, rest)) := by
  cases ts with
  | nil => exact absurd rfl (ne_nil_of_spells_marks hts)
  | cons t ts =>
      rw [List.cons_append, enter, readerBelow_eq]
      refine Guarded.deeper fun r _ => ?_
      have hsum := h r (t :: ts) rest hts hrest.term_of_sum
      rw [sumRest_of_notFirst _ e hrest] at hsum
      exact hsum

/-- In parentheses any expression is a factor. -/
theorem ReadsSum.readsFactor {e : Expr} (h : ReadsSum e) (hsite : e.wrapped .factor = true) :
    ReadsFactor e := by
  intro room ts rest hts hrest
  rw [Expr.marksAt_of_wrapped hsite] at hts
  obtain ⟨lpar, us, rfl, hlpar, hus⟩ := Spells.loose_inv hts
  obtain ⟨vs, ws, rfl, hvs, hws⟩ := Spells.append_inv hus
  obtain ⟨rpar, xs, rfl, hrpar, hxs⟩ := Spells.loose_inv hws
  cases hxs
  have hclose : NotFirst extendsSum (rpar :: rest) := by
    simp only [NotFirst, hrpar]
    rfl
  have henter := h.guarded_enter room hvs hclose
  rw [Expr.needAt_of_wrapped hsite, reader_eq_part, part]
  simp only [List.cons_append, List.append_assoc, List.nil_append, factor_cons, factorFrom, hlpar]
  exact henter.map (by simp [expect, hrpar])

/-- An operator of a chain, with its right side. -/
theorem guarded_chainRest {op? : TokenKind → Option BinaryOp} {operand : Part}
    {again : Expr → Part} {op : BinaryOp} {t : Token} {left right : Expr} {us rest : List Token}
    {need : Nat} (room : Nat) (hop : op? t.kind = some op)
    (hright : ∀ r, Guarded need r (reader r operand us) (.ok (right, rest))) :
    Guarded (need + 1) room (chainRest op? operand again (readerBelow room) left (t :: us))
      (reader (room - 1) (again (.binary op t left right)) rest) := by
  rw [chainRest_of_some hop, readerBelow_eq]
  refine Guarded.deeper fun r hr => ?_
  refine (hright r).map ?_
  rw [hr, Nat.add_sub_cancel]

/-! ### The cases of an expression -/

/-- A marker is followed by the bits of a literal. -/
theorem factor_of_marker {type : ValueType} {token : Token} (hkind : token.kind = type.marker)
    (inner : Option Reader) (ts : List Token) :
    factor inner (token :: ts) = literal token ts := by
  rw [factor_cons, factorFrom, hkind, UnaryOp.ofKind?_marker]
  cases type <;> rfl

/-- Bits of a width that the type has are a literal. -/
theorem literal_of_width {type : ValueType} {token : Token} {ts : List Token}
    (htype : ValueType.ofKind? token.kind = some type)
    (hwidth : type.checkWidth (ts.takeWhile fun t => t.kind.isBit).length = .ok ()) :
    literal token ts =
      .ok (.literal type token (ts.takeWhile fun t => t.kind.isBit),
        ts.dropWhile fun t => t.kind.isBit) := by
  rw [literal, bind_of_ok (markedType_eq htype)]
  simp only [hwidth]

theorem readsFactor_literal {type : ValueType} {token : Token} {bits : List Token}
    (h : (Expr.literal type token bits).WellFormed) : ReadsFactor (.literal type token bits) := by
  obtain ⟨hkind, hbits, hwidth⟩ := h
  intro room ts rest hts hrest
  obtain ⟨us, rfl, hus⟩ := Spells.kept_inv hts
  have htype : ValueType.ofKind? token.kind = some type := by
    rw [hkind, ValueType.ofKind?_marker]
  obtain ⟨htake, hdrop⟩ := collect_append hbits hrest.bit
  rw [Spells.map_kept_inv hus, List.cons_append, reader_eq_part, part, factor_of_marker hkind,
    literal_of_width htype (by rw [htake, hwidth]), htake, hdrop]
  exact Guarded.refl room _

theorem readsFactor_var {token : Token} {chain : List Token}
    (h : (Expr.var token chain).WellFormed) : ReadsFactor (.var token chain) := by
  obtain ⟨hkind, hchain⟩ := h
  intro room ts rest hts hrest
  obtain ⟨us, rfl, hus⟩ := Spells.kept_inv hts
  rw [Spells.map_kept_inv hus, List.cons_append, reader_eq_part, part, factor_cons, factorFrom,
    hkind]
  obtain ⟨htake, hdrop⟩ := collect_index hchain hrest.index
  simp only [UnaryOp.ofKind?, htake, hdrop]
  exact Guarded.refl room _

theorem readsFactor_constant {value : Constant} {token : Token}
    (h : (Expr.constant value token).WellFormed) : ReadsFactor (.constant value token) := by
  have hkind : token.kind = value.kind := h
  intro room ts rest hts _
  obtain ⟨us, rfl, hus⟩ := Spells.kept_inv hts
  cases hus
  rw [List.cons_append, reader_eq_part, part, factor_cons, factorFrom, hkind]
  cases value with
  | pi => exact Guarded.refl room _
  | expBase => exact Guarded.refl room _

theorem readsFactor_unary {op : UnaryOp} {token : Token} {operand : Expr}
    (hkind : token.kind = op.kind) (h : ReadsFactor operand) :
    ReadsFactor (.unary op token operand) := by
  intro room ts rest hts hrest
  obtain ⟨us, rfl, hus⟩ := Spells.kept_inv hts
  rw [List.cons_append, reader_eq_part, part, factor_cons, factorFrom, hkind,
    UnaryOp.ofKind?_kind, readerBelow_eq]
  refine Guarded.deeper fun r _ => ?_
  exact (h r us rest hus hrest).map rfl

theorem readsTerm_binary {op : BinaryOp} {token : Token} {left right : Expr}
    (htight : op.isTight = true) (hkind : token.kind = op.kind) (hleft : ReadsTerm left)
    (hright : ReadsFactor right) : ReadsTerm (.binary op token left right) := by
  intro room ts rest hts hrest
  have hsite : (Expr.binary op token left right).wrapped .term = false := by
    simp [Expr.wrapped, htight]
  rw [Expr.marksAt_of_not_wrapped hsite, Expr.marks_binary, BinaryOp.leftSite, BinaryOp.rightSite,
    if_pos htight, if_pos htight] at hts
  obtain ⟨us, vs, rfl, hus, hvs⟩ := Spells.append_inv hts
  obtain ⟨ws, rfl, hws⟩ := Spells.kept_inv hvs
  have hop : NotFirst extendsFactor (token :: (ws ++ rest)) := by
    simpa [NotFirst, hkind] using op.extendsFactor_kind
  have hbegin := hleft room us (token :: (ws ++ rest)) hus hop
  have hmult : BinaryOp.multiplicative? token.kind = some op := by
    rw [hkind]
    exact BinaryOp.multiplicative?_kind htight
  have hstep : Guarded (right.needAt .factor + 1) (room - left.chain true)
      (reader (room - left.chain true) (.termRest left) (token :: (ws ++ rest)))
      (reader (room - left.chain true - 1) (.termRest (.binary op token left right)) rest) := by
    rw [reader_eq_part, part, termRest]
    exact guarded_chainRest _ hmult fun r => hright r ws rest hws hrest
  have hchain : (Expr.binary op token left right).chain true = left.chain true + 1 := by
    simp [Expr.chain, htight]
  rw [Expr.needAt_of_not_wrapped hsite, Expr.need_binary, BinaryOp.leftSite, BinaryOp.rightSite,
    if_pos htight, if_pos htight, htight, hchain, ← Nat.sub_sub, List.append_assoc,
    List.cons_append, Nat.add_assoc, Nat.add_comm 1]
  exact hbegin.trans (hstep.shift (Nat.succ_pos _))

theorem readsSum_binary {op : BinaryOp} {token : Token} {left right : Expr}
    (hloose : op.isTight = false) (hkind : token.kind = op.kind) (hleft : ReadsSum left)
    (hright : ReadsTerm right) : ReadsSum (.binary op token left right) := by
  intro room ts rest hts hrest
  have hsite : (Expr.binary op token left right).wrapped .sum = false := rfl
  have hnot : ¬ op.isTight = true := by simp [hloose]
  rw [Expr.marksAt_of_not_wrapped hsite, Expr.marks_binary, BinaryOp.leftSite, BinaryOp.rightSite,
    if_neg hnot, if_neg hnot] at hts
  obtain ⟨us, vs, rfl, hus, hvs⟩ := Spells.append_inv hts
  obtain ⟨ws, rfl, hws⟩ := Spells.kept_inv hvs
  have hop : NotFirst extendsTerm (token :: (ws ++ rest)) := by
    simpa [NotFirst, hkind] using BinaryOp.extendsTerm_kind hloose
  have hbegin := hleft room us (token :: (ws ++ rest)) hus hop
  have hadd : BinaryOp.additive? token.kind = some op := by
    rw [hkind]
    exact BinaryOp.additive?_kind hloose
  have hoperand : ∀ r, Guarded (right.needAt .term) r (reader r .term (ws ++ rest))
      (.ok (right, rest)) := by
    intro r
    have hterm := hright r ws rest hws hrest.factor_of_term
    rw [termRest_of_notFirst _ right hrest] at hterm
    exact hterm
  have hstep : Guarded (right.needAt .term + 1) (room - left.chain false)
      (reader (room - left.chain false) (.sumRest left) (token :: (ws ++ rest)))
      (reader (room - left.chain false - 1) (.sumRest (.binary op token left right)) rest) := by
    rw [reader_eq_part, part, sumRest]
    exact guarded_chainRest _ hadd hoperand
  have hchain : (Expr.binary op token left right).chain false = left.chain false + 1 := by
    simp [Expr.chain, hloose]
  rw [Expr.needAt_of_not_wrapped hsite, Expr.need_binary, BinaryOp.leftSite, BinaryOp.rightSite,
    if_neg hnot, if_neg hnot, hloose, hchain, ← Nat.sub_sub, List.append_assoc, List.cons_append,
    Nat.add_assoc, Nat.add_comm 1]
  exact hbegin.trans (hstep.shift (Nat.succ_pos _))

/-- A factor that needs no parentheses is also a term and an expression. -/
theorem Reads.of_factor {e : Expr} (h : ReadsFactor e) (hchain : ∀ tight, e.chain tight = 0)
    (hsite : ∀ site, e.wrapped site = false) : Reads e := by
  have hterm : ReadsTerm e := h.readsTerm (hchain true) (by rw [hsite, hsite])
  exact ⟨hterm.readsSum (hchain false) (hsite .term), hterm, h⟩

end Parser

/-- A well-formed expression is read back from its written form, wherever it stands. -/
theorem Expr.reads {e : Expr} (h : e.WellFormed) : Parser.Reads e := by
  induction e with
  | literal type token bits =>
      exact .of_factor (Parser.readsFactor_literal h) (fun _ => rfl) (fun site => by cases site <;> rfl)
  | var token chain =>
      exact .of_factor (Parser.readsFactor_var h) (fun _ => rfl) (fun site => by cases site <;> rfl)
  | constant value token =>
      exact .of_factor (Parser.readsFactor_constant h) (fun _ => rfl)
        (fun site => by cases site <;> rfl)
  | unary op token operand ih =>
      obtain ⟨hkind, hoperand⟩ := h
      exact .of_factor (Parser.readsFactor_unary hkind (ih hoperand).factor) (fun _ => rfl)
        (fun site => by cases site <;> rfl)
  | binary op token left right ihl ihr =>
      obtain ⟨hkind, hleft, hright⟩ := h
      have hl := ihl hleft
      have hr := ihr hright
      cases hop : op.isTight with
      | true =>
          -- a tighter operator makes a term, which is an expression, which is a factor in
          -- parentheses
          have hterm := Parser.readsTerm_binary hop hkind hl.term hr.factor
          have hsum := hterm.readsSum (by simp [chain, hop]) (by simp [wrapped, hop])
          exact ⟨hsum, hterm, hsum.readsFactor rfl⟩
      | false =>
          have hsum := Parser.readsSum_binary hop hkind hl.sum hr.term
          have hfactor := hsum.readsFactor rfl
          exact ⟨hsum, hfactor.readsTerm (by simp [chain, hop]) (by simp [wrapped, hop]), hfactor⟩

namespace Parser

/-- Reading a whole expression takes one level more than the expression itself. -/
theorem guarded_expression {e : Expr} (h : e.WellFormed) (room : Nat) {ts rest : List Token}
    (hts : Spells e.marks ts) (hrest : NotFirst extendsSum rest) :
    Guarded (e.need + 1) room (expression room (ts ++ rest)) (.ok (e, rest)) :=
  (Expr.reads h).sum.guarded_enter room hts hrest

end Parser

end CellScript
