/-
Module: CellScript.Proofs.Parser.Tokens
Purpose: What becomes of the tokens that are read. A tree keeps each of them once, but for
  parentheses, the markers of slots and the ends of branches, and each node agrees with its token.
Main exports: TokenKind.isLoose, Expr.tokens, Stmt.tokens, Stmt.Consistent, Parser.Takes,
  Parser.Faithful, Program.tokens_of_parse
-/
import CellScript.Proofs.Parser.Derivation
import CellScript.Proofs.Parser.RoundTrip
import Mathlib.Algebra.Order.Group.Multiset
import Mathlib.Data.List.TakeWhile
import Mathlib.Tactic.Abel

namespace CellScript

/-! ### The tokens of a tree -/

/-- The kinds of which a tree keeps no token. -/
def TokenKind.isLoose : TokenKind → Bool
  | lpar | rpar | branchEnd => true
  | firstArgument | secondArgument | thirdArgument | fourthArgument => true
  | _ => false

/-- The tokens that an expression keeps. -/
def Expr.tokens : Expr → Multiset Token
  | literal _ token bits => {token} + ↑bits
  | var token chain => {token} + ↑chain
  | constant _ token => {token}
  | unary _ token operand => {token} + operand.tokens
  | binary _ token left right => left.tokens + ({token} + right.tokens)

mutual

/-- The tokens that a statement keeps. -/
def Stmt.tokens : Stmt → Multiset Token
  | .assign _ token chain value => {token} + (↑chain + value.tokens)
  | .command token => {token}
  | .stop token => {token}
  | .breakLoop token => {token}
  | .continueLoop token => {token}
  | .print token value => {token} + value.tokens
  | .goto token target => {token} + target.tokens
  | .place token x y z _ _ => {token} + (x.tokens + y.tokens + z.tokens)
  | .ifElse token condition yes no =>
      {token} + (condition.tokens + Stmt.tokensAll yes + Stmt.tokensElse no)
  | .whileLoop token condition body => {token} + (condition.tokens + Stmt.tokensAll body)
  | .forLoop token init condition increment body =>
      {token} + (init.tokens + condition.tokens + increment.tokens + Stmt.tokensAll body)

/-- The tokens that statements keep. -/
def Stmt.tokensAll : List Stmt → Multiset Token
  | [] => 0
  | stmt :: rest => stmt.tokens + Stmt.tokensAll rest

/-- The tokens that the other branch of a condition keeps, if there is one. -/
def Stmt.tokensElse : Option (List Stmt) → Multiset Token
  | none => 0
  | some block => Stmt.tokensAll block

end

mutual

/-- Every token has the kind that its node says, and the expressions are well-formed. -/
def Stmt.Consistent : Stmt → Prop
  | .assign type token chain value =>
      token.kind = type.marker ∧ (∀ t ∈ chain, t.kind = .varIndex) ∧ value.WellFormed
  | .command token => token.kind = .command
  | .stop token => token.kind = .stop
  | .breakLoop token => token.kind = .breakLoop
  | .continueLoop token => token.kind = .continueLoop
  | .print token value => token.kind = .print ∧ value.WellFormed
  | .goto token target => token.kind = .goto ∧ target.WellFormed
  | .place token x y z _ _ =>
      token.kind = .placeBlock ∧ x.WellFormed ∧ y.WellFormed ∧ z.WellFormed
  | .ifElse token condition yes no =>
      token.kind = .ifElse ∧ condition.WellFormed ∧ Stmt.AllConsistent yes ∧
        Stmt.ElseConsistent no
  | .whileLoop token condition body =>
      token.kind = .whileLoop ∧ condition.WellFormed ∧ Stmt.AllConsistent body
  | .forLoop token init condition increment body =>
      token.kind = .forLoop ∧ init.Consistent ∧ condition.WellFormed ∧ increment.Consistent ∧
        Stmt.AllConsistent body

/-- Consistent statements in turn. -/
def Stmt.AllConsistent : List Stmt → Prop
  | [] => True
  | stmt :: rest => stmt.Consistent ∧ Stmt.AllConsistent rest

/-- A consistent other branch, or none. -/
def Stmt.ElseConsistent : Option (List Stmt) → Prop
  | none => True
  | some block => Stmt.AllConsistent block

end

namespace Program

/-- The tokens that a program keeps. -/
def tokens (p : Program) : Multiset Token :=
  Stmt.tokensAll p.body

/-- A program of consistent statements. -/
def Consistent (p : Program) : Prop :=
  Stmt.AllConsistent p.body

end Program

/-- The token that starts a statement is among those that it keeps. -/
theorem Stmt.token_mem_tokens (stmt : Stmt) : stmt.token ∈ stmt.tokens := by
  cases stmt <;> simp [Stmt.token, Stmt.tokens]

/-! ### Kinds by what they stand for -/

theorem BinaryOp.kind_of_multiplicative? {k : TokenKind} {op : BinaryOp}
    (h : multiplicative? k = some op) : k = op.kind := by
  cases k <;> cases h <;> rfl

theorem BinaryOp.kind_of_additive? {k : TokenKind} {op : BinaryOp}
    (h : additive? k = some op) : k = op.kind := by
  cases k <;> cases h <;> rfl

theorem UnaryOp.kind_of_ofKind? {k : TokenKind} {op : UnaryOp} (h : ofKind? k = some op) :
    k = op.kind := by
  cases k <;> cases h <;> rfl

theorem BinaryOp.isLoose_kind (op : BinaryOp) : op.kind.isLoose = false := by
  cases op <;> rfl

theorem UnaryOp.isLoose_kind (op : UnaryOp) : op.kind.isLoose = false := by
  cases op <;> rfl

theorem ValueType.isLoose_marker (type : ValueType) : type.marker.isLoose = false := by
  cases type <;> rfl

theorem Constant.isLoose_kind (value : Constant) : value.kind.isLoose = false := by
  cases value <;> rfl

namespace Parser

theorem isLoose_of_isBit {t : Token} (h : t.kind.isBit = true) : t.kind.isLoose = false := by
  revert h
  cases t.kind <;> decide

theorem kind_of_isIndex {t : Token} (h : isIndex t = true) : t.kind = .varIndex :=
  eq_of_beq h

/-!
### Reading on

A parser goes from a list of tokens to a rest of it. The tokens in between are kept, or they are of
the loose kinds.
-/

/-- The tokens that are to be kept. -/
def kept (ts : List Token) : Multiset Token :=
  ↑(ts.filter fun t => !t.kind.isLoose)

/-- Reading goes from `ts` to `rest` and keeps `tokens`, which is all that there is to keep. -/
structure Takes (ts : List Token) (tokens : Multiset Token) (rest : List Token) : Prop where
  suffix : rest <:+ ts
  kept_eq : kept ts = tokens + kept rest

namespace Takes

variable {ts mid rest : List Token} {first second : Multiset Token}

theorem refl (ts : List Token) : Takes ts 0 ts where
  suffix := List.suffix_refl ts
  kept_eq := (zero_add _).symm

theorem trans (h : Takes ts first mid) (h' : Takes mid second rest) :
    Takes ts (first + second) rest where
  suffix := h'.suffix.trans h.suffix
  kept_eq := by rw [h.kept_eq, h'.kept_eq, add_assoc]

theorem keep {token : Token} {kind : TokenKind} (hkind : token.kind = kind)
    (hloose : kind.isLoose = false) (ts : List Token) : Takes (token :: ts) {token} ts where
  suffix := List.suffix_cons token ts
  kept_eq := by simp [kept, hkind, hloose]

theorem drop {token : Token} {kind : TokenKind} (hkind : token.kind = kind)
    (hloose : kind.isLoose = true) (ts : List Token) : Takes (token :: ts) 0 ts where
  suffix := List.suffix_cons token ts
  kept_eq := by simp [kept, hkind, hloose]

/-- Tokens collected while a class lasts. -/
theorem collect {c : Token → Bool} (hc : ∀ t, c t = true → t.kind.isLoose = false)
    (ts : List Token) : Takes ts ↑(ts.takeWhile c) (ts.dropWhile c) where
  suffix := List.dropWhile_suffix c
  kept_eq := by
    have hall : (ts.takeWhile c).filter (fun t => !t.kind.isLoose) = ts.takeWhile c := by
      rw [List.filter_eq_self]
      intro t ht
      simp [hc t (List.mem_takeWhile_imp ht)]
    conv_lhs => rw [← List.takeWhile_append_dropWhile (p := c) (l := ts)]
    rw [kept, List.filter_append, hall]
    rfl

theorem bits (ts : List Token) :
    Takes ts ↑(ts.takeWhile fun t => t.kind.isBit) (ts.dropWhile fun t => t.kind.isBit) :=
  .collect (fun _ => isLoose_of_isBit) ts

theorem chain (ts : List Token) : Takes ts ↑(ts.takeWhile isIndex) (ts.dropWhile isIndex) :=
  .collect (fun _ ht => congrArg TokenKind.isLoose (kind_of_isIndex ht)) ts

theorem length_lt {token : Token} (h : Takes ts first rest) (hmem : token ∈ first) :
    rest.length < ts.length := by
  apply lt_of_le_of_ne h.suffix.length_le
  intro hlength
  have heq : rest = ts := h.suffix.eq_of_length hlength
  have hkept := h.kept_eq
  rw [heq, right_eq_add] at hkept
  simp [hkept] at hmem

end Takes

/-! ### Expressions -/

/-- The tokens that were kept before a part is read. -/
def Part.tokens : Part → Multiset Token
  | termRest left => left.tokens
  | sumRest left => left.tokens
  | _ => 0

/-- What was read before a part is well-formed. -/
def Part.WellFormed : Part → Prop
  | termRest left => left.WellFormed
  | sumRest left => left.WellFormed
  | _ => True

theorem Derives.takes {room : Nat} {p : Part} {ts rest : List Token} {e : Expr}
    (h : Derives room p ts e rest) :
    ∃ tokens, e.tokens = p.tokens + tokens ∧ Takes ts tokens rest := by
  induction h with
  | unary hop _ ih =>
      obtain ⟨tokens, heq, htakes⟩ := ih
      have htoken := Takes.keep (UnaryOp.kind_of_ofKind? hop) (UnaryOp.isLoose_kind _)
      refine ⟨_, ?_, (htoken _).trans htakes⟩
      simp [Expr.tokens, heq, Part.tokens]
  | parens hopener _ hcloser ih =>
      obtain ⟨tokens, heq, htakes⟩ := ih
      have hinside := (Takes.drop hopener rfl _).trans htakes
      refine ⟨_, ?_, hinside.trans (.drop hcloser rfl _)⟩
      simp [heq, Part.tokens]
  | literal htype _ =>
      have hmarker := Takes.keep (ValueType.marker_of_ofKind? htype) (ValueType.isLoose_marker _)
      refine ⟨_, ?_, (hmarker _).trans (.bits _)⟩
      simp [Expr.tokens, Part.tokens]
  | var hkind =>
      refine ⟨_, ?_, (Takes.keep hkind rfl _).trans (.chain _)⟩
      simp [Expr.tokens, Part.tokens]
  | constant hkind =>
      refine ⟨_, ?_, .keep hkind (Constant.isLoose_kind _) _⟩
      simp [Expr.tokens, Part.tokens]
  | termEnd _ => exact ⟨0, (add_zero _).symm, .refl _⟩
  | termStep hop _ _ ihRight ihRest =>
      obtain ⟨right, hright, htakesRight⟩ := ihRight
      obtain ⟨tokens, heq, htakes⟩ := ihRest
      have hop := Takes.keep (BinaryOp.kind_of_multiplicative? hop) (BinaryOp.isLoose_kind _)
      refine ⟨_, ?_, ((hop _).trans htakesRight).trans htakes⟩
      simp [heq, hright, Expr.tokens, Part.tokens, add_assoc]
  | term _ _ ihLeft ihRest =>
      obtain ⟨left, hleft, htakesLeft⟩ := ihLeft
      obtain ⟨tokens, heq, htakes⟩ := ihRest
      refine ⟨_, ?_, htakesLeft.trans htakes⟩
      simp [heq, hleft, Part.tokens]
  | sumEnd _ => exact ⟨0, (add_zero _).symm, .refl _⟩
  | sumStep hop _ _ ihRight ihRest =>
      obtain ⟨right, hright, htakesRight⟩ := ihRight
      obtain ⟨tokens, heq, htakes⟩ := ihRest
      have hop := Takes.keep (BinaryOp.kind_of_additive? hop) (BinaryOp.isLoose_kind _)
      refine ⟨_, ?_, ((hop _).trans htakesRight).trans htakes⟩
      simp [heq, hright, Expr.tokens, Part.tokens, add_assoc]
  | sum _ _ ihLeft ihRest =>
      obtain ⟨left, hleft, htakesLeft⟩ := ihLeft
      obtain ⟨tokens, heq, htakes⟩ := ihRest
      refine ⟨_, ?_, htakesLeft.trans htakes⟩
      simp [heq, hleft, Part.tokens]

theorem Derives.wellFormed {room : Nat} {p : Part} {ts rest : List Token} {e : Expr}
    (h : Derives room p ts e rest) (hp : p.WellFormed) : e.WellFormed := by
  induction h with
  | unary hop _ ih => exact ⟨UnaryOp.kind_of_ofKind? hop, ih trivial⟩
  | parens _ _ _ ih => exact ih trivial
  | literal htype hwidth =>
      refine ⟨ValueType.marker_of_ofKind? htype, ?_, hwidth⟩
      intro t ht
      exact List.mem_takeWhile_imp (p := fun t : Token => t.kind.isBit) ht
  | var hkind => exact ⟨hkind, fun t ht => kind_of_isIndex (List.mem_takeWhile_imp ht)⟩
  | constant hkind => exact hkind
  | termEnd _ => exact hp
  | termStep hop _ _ ihRight ihRest =>
      exact ihRest ⟨BinaryOp.kind_of_multiplicative? hop, hp, ihRight trivial⟩
  | term _ _ ihLeft ihRest => exact ihRest (ihLeft trivial)
  | sumEnd _ => exact hp
  | sumStep hop _ _ ihRight ihRest =>
      exact ihRest ⟨BinaryOp.kind_of_additive? hop, hp, ihRight trivial⟩
  | sum _ _ ihLeft ihRest => exact ihRest (ihLeft trivial)

/-!
### What reading keeps

Reading gives a part of a tree that satisfies a condition, and takes its tokens. The second is asked
only of tokens with no `PLACEBLOCK` among them, as that statement skips tokens.
-/

/-- Nothing is placed. -/
def Placeless (ts : List Token) : Prop :=
  ∀ t ∈ ts, t.kind ≠ .placeBlock

/-- What was read between `ts` and `rest` satisfies a condition and has the tokens it should. -/
structure Faithful (condition : Prop) (tokens : Multiset Token) (ts rest : List Token) : Prop where
  holds : condition
  takes : Placeless ts → Takes ts tokens rest

namespace Faithful

variable {C D : Prop} {first second : Multiset Token} {ts mid rest : List Token}

theorem of_takes (hC : C) (h : Takes ts first rest) : Faithful C first ts rest :=
  ⟨hC, fun _ => h⟩

theorem andThen (h : Faithful C first ts mid) (h' : Faithful D second mid rest) :
    Faithful (C ∧ D) (first + second) ts rest where
  holds := ⟨h.holds, h'.holds⟩
  takes hts := by
    have htakes := h.takes hts
    have hmid : Placeless mid := fun t ht => hts t (htakes.suffix.mem ht)
    exact htakes.trans (h'.takes hmid)

/-- The same reading, with the condition and the tokens in other words. -/
theorem imp (h : Faithful C first ts rest) (hC : C → D) (htokens : first = second) :
    Faithful D second ts rest :=
  ⟨hC h.holds, htokens ▸ h.takes⟩

/-- A token that a node keeps. -/
theorem token {token : Token} {kind : TokenKind} (hkind : token.kind = kind)
    (hloose : kind.isLoose = false) (ts : List Token) :
    Faithful (token.kind = kind) {token} (token :: ts) ts :=
  .of_takes hkind (.keep hkind hloose ts)

/-- A marker that nothing keeps. -/
theorem marker {marker : Token} (hloose : marker.kind.isLoose = true) (ts : List Token) :
    Faithful True 0 (marker :: ts) ts :=
  .of_takes trivial (.drop rfl hloose ts)

/-- The chain of a variable. -/
theorem chain (ts : List Token) :
    Faithful (∀ t ∈ ts.takeWhile isIndex, t.kind = .varIndex) ↑(ts.takeWhile isIndex) ts
      (ts.dropWhile isIndex) :=
  .of_takes (fun _ ht => kind_of_isIndex (List.mem_takeWhile_imp ht)) (.chain ts)

end Faithful

theorem faithful_expression {room : Nat} {ts rest : List Token} {e : Expr}
    (h : expression room ts = .ok (e, rest)) : Faithful e.WellFormed e.tokens ts rest := by
  obtain ⟨r, rfl, hd⟩ := expression_derives h
  obtain ⟨tokens, heq, htakes⟩ := hd.takes
  have htokens : tokens = e.tokens := (heq.trans (zero_add tokens)).symm
  exact .of_takes (hd.wellFormed trivial) (htokens ▸ htakes)

/-! ### Blocks and slots -/

/-- A parser whose statements are as they should be. -/
def ReadsFaithfully (read : StmtReader) : Prop :=
  ∀ (ts : List Token) (stmt : Stmt) (rest : List Token),
    read ts = .ok (stmt, rest) → Faithful stmt.Consistent stmt.tokens ts rest

/-- The parser one level down, if there is one, reads faithfully. -/
def InnerFaithful (inner : Option StmtReader) : Prop :=
  ∀ read, inner = some read → ReadsFaithfully read

theorem BlockRead.faithful {read : StmtReader} (hread : ReadsFaithfully read)
    {ts rest : List Token} {body : List Stmt} (h : BlockRead read ts body rest) :
    Faithful (Stmt.AllConsistent body) (Stmt.tokensAll body) ts rest := by
  induction h with
  | nil hkind =>
      rw [Stmt.AllConsistent, Stmt.tokensAll]
      exact .marker (congrArg TokenKind.isLoose hkind) _
  | cons _ hstmt _ ih =>
      rw [Stmt.AllConsistent, Stmt.tokensAll]
      exact (hread _ _ _ hstmt).andThen ih

section Slots

variable {room : Nat} {inner : Option StmtReader} {ts rest : List Token}

theorem faithful_branch (hinner : InnerFaithful inner) {opener : Token} {body : List Stmt}
    (h : branch inner opener ts = .ok (body, rest)) :
    Faithful (Stmt.AllConsistent body) (Stmt.tokensAll body) ts rest := by
  obtain ⟨read, hread, hblock⟩ := branch_ok h
  exact hblock.faithful (hinner read hread)

theorem faithful_nested (hinner : InnerFaithful inner) {opener : Token} {stmt : Stmt}
    (h : nested inner opener ts = .ok (stmt, rest)) :
    Faithful stmt.Consistent stmt.tokens ts rest := by
  obtain ⟨read, hread, hstmt⟩ := nested_ok h
  exact hinner read hread _ _ _ hstmt

/-- The tokens in a slot, none in an open one. -/
def slotTokens {α : Type} (tokens : α → Multiset Token) : Option α → Multiset Token
  | none => 0
  | some a => tokens a

/-- Filling a slot adds what is read after a marker. -/
structure Fills {σ : Type} (condition : σ → Prop) (tokens : σ → Multiset Token) (s s' : σ)
    (marker : Token) (ts rest : List Token) : Prop where
  isLoose : marker.kind.isLoose = true
  contents : ∃ C added, Faithful C added ts rest ∧ (condition s → C → condition s') ∧
    tokens s' = tokens s + added

/-- If each filling adds what is read, then the slots hold what was read. -/
theorem faithful_slots {σ : Type}
    {fill : σ → Token → List Token → Option (Except ParseError (Parsed σ))}
    {condition : σ → Prop} {tokens : σ → Multiset Token}
    (hfill : ∀ s marker ts s' rest, fill s marker ts = some (.ok (s', rest)) →
      Fills condition tokens s s' marker ts rest)
    {fuel : Nat} {s s' : σ} (hs : condition s) (hempty : tokens s = 0)
    (h : slots fill fuel s ts = .ok (s', rest)) :
    Faithful (condition s') (tokens s') ts rest := by
  have hstart : Faithful (condition s) (tokens s) ts ts :=
    .of_takes hs (hempty ▸ .refl ts)
  refine slots_invariant (I := fun s rest => Faithful (condition s) (tokens s) ts rest) ?_ hstart h
  intro s₁ marker mid s₂ after hread hstep
  obtain ⟨hloose, C, added, hadded, hcondition, htokens⟩ := hfill s₁ marker mid s₂ after hstep
  have hall := (hread.andThen (.marker hloose mid)).andThen hadded
  exact hall.imp (fun hC => hcondition hC.1.1 hC.2) (by rw [htokens, add_zero])

/-- What the slots of `IF` hold is consistent. -/
def IfSlots.Consistent (s : IfSlots) : Prop :=
  (∀ e ∈ s.condition, e.WellFormed) ∧ (∀ b ∈ s.yes, Stmt.AllConsistent b) ∧
    ∀ b ∈ s.no, Stmt.AllConsistent b

/-- The tokens in the slots of `IF`. -/
def IfSlots.tokens (s : IfSlots) : Multiset Token :=
  slotTokens Expr.tokens s.condition + slotTokens Stmt.tokensAll s.yes +
    slotTokens Stmt.tokensAll s.no

theorem fills_if (hinner : InnerFaithful inner) (s : IfSlots) (marker : Token) (ts : List Token)
    (s' : IfSlots) (rest : List Token) (h : fillIf room inner s marker ts = some (.ok (s', rest))) :
    Fills IfSlots.Consistent IfSlots.tokens s s' marker ts rest := by
  rcases fillIf_ok h with
    ⟨hkind, hnone, e, he, rfl⟩ | ⟨hkind, hnone, b, hb, rfl⟩ | ⟨hkind, hnone, b, hb, rfl⟩
  · refine ⟨congrArg TokenKind.isLoose hkind, _, _, faithful_expression he, ?_, ?_⟩
    · rintro ⟨_, hyes, hno⟩ hcondition
      exact ⟨by simpa using hcondition, hyes, hno⟩
    · simp only [IfSlots.tokens, hnone, slotTokens]
      abel
  · refine ⟨congrArg TokenKind.isLoose hkind, _, _, faithful_branch hinner hb, ?_, ?_⟩
    · rintro ⟨hcondition, _, hno⟩ hyes
      exact ⟨hcondition, by simpa using hyes, hno⟩
    · simp only [IfSlots.tokens, hnone, slotTokens]
      abel
  · refine ⟨congrArg TokenKind.isLoose hkind, _, _, faithful_branch hinner hb, ?_, ?_⟩
    · rintro ⟨hcondition, hyes, _⟩ hno
      exact ⟨hcondition, hyes, by simpa using hno⟩
    · simp only [IfSlots.tokens, hnone, slotTokens]
      abel

/-- What the slots of `WHILE` hold is consistent. -/
def WhileSlots.Consistent (s : WhileSlots) : Prop :=
  (∀ e ∈ s.condition, e.WellFormed) ∧ ∀ b ∈ s.body, Stmt.AllConsistent b

/-- The tokens in the slots of `WHILE`. -/
def WhileSlots.tokens (s : WhileSlots) : Multiset Token :=
  slotTokens Expr.tokens s.condition + slotTokens Stmt.tokensAll s.body

theorem fills_while (hinner : InnerFaithful inner) (s : WhileSlots) (marker : Token)
    (ts : List Token) (s' : WhileSlots) (rest : List Token)
    (h : fillWhile room inner s marker ts = some (.ok (s', rest))) :
    Fills WhileSlots.Consistent WhileSlots.tokens s s' marker ts rest := by
  rcases fillWhile_ok h with ⟨hkind, hnone, e, he, rfl⟩ | ⟨hkind, hnone, b, hb, rfl⟩
  · refine ⟨congrArg TokenKind.isLoose hkind, _, _, faithful_expression he, ?_, ?_⟩
    · rintro ⟨_, hbody⟩ hcondition
      exact ⟨by simpa using hcondition, hbody⟩
    · simp only [WhileSlots.tokens, hnone, slotTokens]
      abel
  · refine ⟨congrArg TokenKind.isLoose hkind, _, _, faithful_branch hinner hb, ?_, ?_⟩
    · rintro ⟨hcondition, _⟩ hbody
      exact ⟨hcondition, by simpa using hbody⟩
    · simp only [WhileSlots.tokens, hnone, slotTokens]
      abel

/-- What the slots of `FOR` hold is consistent. -/
def ForSlots.Consistent (s : ForSlots) : Prop :=
  (∀ i ∈ s.init, i.Consistent) ∧ (∀ e ∈ s.condition, e.WellFormed) ∧
    (∀ i ∈ s.increment, i.Consistent) ∧ ∀ b ∈ s.body, Stmt.AllConsistent b

/-- The tokens in the slots of `FOR`. -/
def ForSlots.tokens (s : ForSlots) : Multiset Token :=
  slotTokens Stmt.tokens s.init + slotTokens Expr.tokens s.condition +
    slotTokens Stmt.tokens s.increment + slotTokens Stmt.tokensAll s.body

theorem fills_for (hinner : InnerFaithful inner) (s : ForSlots) (marker : Token) (ts : List Token)
    (s' : ForSlots) (rest : List Token)
    (h : fillFor room inner s marker ts = some (.ok (s', rest))) :
    Fills ForSlots.Consistent ForSlots.tokens s s' marker ts rest := by
  rcases fillFor_ok h with
    ⟨hkind, hnone, i, hi, rfl⟩ | ⟨hkind, hnone, e, he, rfl⟩ | ⟨hkind, hnone, i, hi, rfl⟩ |
    ⟨hkind, hnone, b, hb, rfl⟩
  · refine ⟨congrArg TokenKind.isLoose hkind, _, _, faithful_nested hinner hi, ?_, ?_⟩
    · rintro ⟨_, hcondition, hincrement, hbody⟩ hinit
      exact ⟨by simpa using hinit, hcondition, hincrement, hbody⟩
    · simp only [ForSlots.tokens, hnone, slotTokens]
      abel
  · refine ⟨congrArg TokenKind.isLoose hkind, _, _, faithful_expression he, ?_, ?_⟩
    · rintro ⟨hinit, _, hincrement, hbody⟩ hcondition
      exact ⟨hinit, by simpa using hcondition, hincrement, hbody⟩
    · simp only [ForSlots.tokens, hnone, slotTokens]
      abel
  · refine ⟨congrArg TokenKind.isLoose hkind, _, _, faithful_nested hinner hi, ?_, ?_⟩
    · rintro ⟨hinit, hcondition, _, hbody⟩ hincrement
      exact ⟨hinit, hcondition, by simpa using hincrement, hbody⟩
    · simp only [ForSlots.tokens, hnone, slotTokens]
      abel
  · refine ⟨congrArg TokenKind.isLoose hkind, _, _, faithful_branch hinner hb, ?_, ?_⟩
    · rintro ⟨hinit, hcondition, hincrement, _⟩ hbody
      exact ⟨hinit, hcondition, hincrement, by simpa using hbody⟩
    · simp only [ForSlots.tokens, hnone, slotTokens]
      abel

theorem wellFormed_of_placeSlots {token marker : Token} {x y z : Expr} {fuel : Nat}
    (h : placeSlots room token fuel {} ts = .ok (⟨some x, some y, some z, some marker⟩, rest)) :
    x.WellFormed ∧ y.WellFormed ∧ z.WellFormed := by
  have hinv := placeSlots_invariant
    (I := fun s => (∀ e ∈ s.x, e.WellFormed) ∧ (∀ e ∈ s.y, e.WellFormed) ∧
      ∀ e ∈ s.z, e.WellFormed)
    (fun s ts e rest hs he => ⟨by simpa using (faithful_expression he).holds, hs.2.1, hs.2.2⟩)
    (fun s ts e rest hs he => ⟨hs.1, by simpa using (faithful_expression he).holds, hs.2.2⟩)
    (fun s ts e rest hs he => ⟨hs.1, hs.2.1, by simpa using (faithful_expression he).holds⟩)
    (fun s marker hs => hs) (by simp) h
  exact ⟨hinv.1 _ rfl, hinv.2.1 _ rfl, hinv.2.2 _ rfl⟩

end Slots

/-! ### Statements -/

theorem StatementRead.faithful {g : Grid} {room : Nat} {inner : Option StmtReader}
    (hinner : InnerFaithful inner) {ts rest : List Token} {stmt : Stmt}
    (h : StatementRead g room inner ts stmt rest) :
    Faithful stmt.Consistent stmt.tokens ts rest := by
  cases h with
  | @assignChainFirst type token value ts rest htype _ hvalue =>
      rw [Stmt.Consistent, Stmt.tokens]
      have hkind := ValueType.marker_of_ofKind? htype
      exact (Faithful.token hkind type.isLoose_marker ts).andThen
        ((Faithful.chain ts).andThen (faithful_expression hvalue))
  | @assignValueFirst type token value ts mid htype _ hvalue =>
      rw [Stmt.Consistent, Stmt.tokens]
      have hkind := ValueType.marker_of_ofKind? htype
      have hread := (Faithful.token hkind type.isLoose_marker ts).andThen
        ((faithful_expression hvalue).andThen (Faithful.chain mid))
      exact hread.imp (fun ⟨hkind, hvalue, hchain⟩ => ⟨hkind, hchain, hvalue⟩)
        (by rw [add_comm value.tokens])
  | command hkind =>
      rw [Stmt.Consistent, Stmt.tokens]
      exact .token hkind rfl _
  | stop hkind =>
      rw [Stmt.Consistent, Stmt.tokens]
      exact .token hkind rfl _
  | breakLoop hkind =>
      rw [Stmt.Consistent, Stmt.tokens]
      exact .token hkind rfl _
  | continueLoop hkind =>
      rw [Stmt.Consistent, Stmt.tokens]
      exact .token hkind rfl _
  | print hkind hvalue =>
      rw [Stmt.Consistent, Stmt.tokens]
      exact (Faithful.token hkind rfl _).andThen (faithful_expression hvalue)
  | goto hkind htarget =>
      rw [Stmt.Consistent, Stmt.tokens]
      exact (Faithful.token hkind rfl _).andThen (faithful_expression htarget)
  | place hkind hslots =>
      rw [Stmt.Consistent]
      refine ⟨⟨hkind, wellFormed_of_placeSlots hslots⟩, fun hts => ?_⟩
      exact absurd hkind (hts _ List.mem_cons_self)
  | @ifElse token condition yes no ts rest hkind hslots =>
      rw [Stmt.Consistent, Stmt.tokens]
      have hread := (Faithful.token hkind rfl ts).andThen
        (faithful_slots (fills_if hinner) (by simp [IfSlots.Consistent]) rfl hslots)
      have helse : Stmt.tokensElse no = slotTokens Stmt.tokensAll no := by
        cases no <;> rw [Stmt.tokensElse, slotTokens]
      refine hread.imp ?_ (by rw [helse]; rfl)
      rintro ⟨hkind, hcondition, hyes, hno⟩
      refine ⟨hkind, hcondition _ rfl, hyes _ rfl, ?_⟩
      cases no with
      | none => rw [Stmt.ElseConsistent]; trivial
      | some block => rw [Stmt.ElseConsistent]; exact hno _ rfl
  | @whileLoop token condition body ts rest hkind hslots =>
      rw [Stmt.Consistent, Stmt.tokens]
      have hread := (Faithful.token hkind rfl ts).andThen
        (faithful_slots (fills_while hinner) (by simp [WhileSlots.Consistent]) rfl hslots)
      refine hread.imp ?_ rfl
      rintro ⟨hkind, hcondition, hbody⟩
      exact ⟨hkind, hcondition _ rfl, hbody _ rfl⟩
  | @forLoop token init increment condition body ts rest hkind hslots =>
      rw [Stmt.Consistent, Stmt.tokens]
      have hread := (Faithful.token hkind rfl ts).andThen
        (faithful_slots (fills_for hinner) (by simp [ForSlots.Consistent]) rfl hslots)
      refine hread.imp ?_ rfl
      rintro ⟨hkind, hinit, hcondition, hincrement, hbody⟩
      exact ⟨hkind, hinit _ rfl, hcondition _ rfl, hincrement _ rfl, hbody _ rfl⟩

theorem stmtReader_faithful (g : Grid) (room : Nat) : ReadsFaithfully (stmtReader g room) := by
  induction room with
  | zero =>
      intro ts stmt rest h
      rw [stmtReader_eq_statement] at h
      have hinner : InnerFaithful (levelBelow (stmtReader g) 0) := by
        rintro _ ⟨⟩
      exact (statement_read h).faithful hinner
  | succ room ih =>
      intro ts stmt rest h
      rw [stmtReader_eq_statement] at h
      have hinner : InnerFaithful (levelBelow (stmtReader g) (room + 1)) := by
        rintro _ ⟨⟩
        exact ih
      exact (statement_read h).faithful hinner

/-! ### Programs -/

section Statements

variable {read : StmtReader} {fuel : Nat} {ts : List Token} {body : List Stmt}

theorem statements_cons {token : Token} (h : statements read (fuel + 1) (token :: ts) = .ok body) :
    ∃ stmt mid others, read (token :: ts) = .ok (stmt, mid) ∧
      statements read fuel mid = .ok others ∧ body = stmt :: others := by
  rw [statements] at h
  · obtain ⟨⟨stmt, mid⟩, hstmt, h⟩ := ok_of_bind h
    obtain ⟨others, hothers, h⟩ := ok_of_bind h
    cases h
    exact ⟨stmt, mid, others, hstmt, hothers, rfl⟩
  · simp

theorem allConsistent_of_statements (hread : ReadsFaithfully read)
    (h : statements read fuel ts = .ok body) : Stmt.AllConsistent body := by
  induction fuel generalizing ts body with
  | zero =>
      cases ts <;>
      · cases h
        rw [Stmt.AllConsistent]
        trivial
  | succ fuel ih =>
      cases ts with
      | nil =>
          cases h
          rw [Stmt.AllConsistent]
          trivial
      | cons token ts =>
          obtain ⟨stmt, mid, others, hstmt, hothers, rfl⟩ := statements_cons h
          rw [Stmt.AllConsistent]
          exact ⟨(hread _ _ _ hstmt).holds, ih hothers⟩

/-- As each statement takes a token, the statements go to the end of the input. -/
theorem tokensAll_of_statements (hread : ReadsFaithfully read) (hts : Placeless ts)
    (hfuel : ts.length ≤ fuel) (h : statements read fuel ts = .ok body) :
    Stmt.tokensAll body = kept ts := by
  induction fuel generalizing ts body with
  | zero =>
      cases List.eq_nil_of_length_eq_zero (Nat.le_zero.1 hfuel)
      cases h
      rw [Stmt.tokensAll]
      rfl
  | succ fuel ih =>
      cases ts with
      | nil =>
          cases h
          rw [Stmt.tokensAll]
          rfl
      | cons token ts =>
          obtain ⟨stmt, mid, others, hstmt, hothers, rfl⟩ := statements_cons h
          have htakes := (hread _ _ _ hstmt).takes hts
          have hmid : Placeless mid := fun t ht => hts t (htakes.suffix.mem ht)
          have hlength := htakes.length_lt stmt.token_mem_tokens
          have hrest := ih hmid (Nat.le_of_lt_succ (Nat.lt_of_lt_of_le hlength hfuel)) hothers
          rw [Stmt.tokensAll, hrest, htakes.kept_eq]

end Statements

end Parser

/-- In a program that was read, each node agrees with its token: operators, types and constants are
those that the kind of the token stands for, literals hold bits in a number that their type admits,
and chains hold indices only. If nothing is placed, then the program keeps each token that was read
exactly once, but for parentheses, the ends of branches and the markers of slots, of which it keeps
none. -/
theorem Program.tokens_of_parse {g : Grid} {ts : List Token} {p : Program}
    (h : Program.parse g ts = .ok p) :
    p.Consistent ∧
      ((∀ t ∈ ts, t.kind ≠ .placeBlock) →
        p.tokens = ↑(ts.filter fun t => !t.kind.isLoose)) := by
  obtain ⟨body, hbody, h⟩ := Parser.ok_of_bind h
  cases h
  have hread := Parser.stmtReader_faithful g Parser.maxNesting
  exact ⟨Parser.allConsistent_of_statements hread hbody,
    fun hts => Parser.tokensAll_of_statements hread hts (Nat.le_refl _) hbody⟩

/-- The tokens of an assignment with its chain after the value, and of a condition with its slots
out of order, on a line of cells. -/
def slotsOutOfOrder : List Token :=
  let kinds : List TokenKind :=
    [.float, .pi, .varIndex, .ifElse, .secondArgument, .stop, .branchEnd, .firstArgument, .lpar,
      .not, .bool, .one, .rpar]
  kinds.mapIdx fun i kind => ⟨kind, ⟨Int32.ofNat i, 0, 0⟩⟩

/-- They are read, and of thirteen tokens the program keeps eight. -/
theorem tokens_of_parse_slotsOutOfOrder :
    ∃ p, Program.parse .empty slotsOutOfOrder = .ok p ∧ p.Consistent ∧
      p.tokens.map Token.kind =
        {.float, .pi, .varIndex, .ifElse, .stop, .not, .bool, .one} := by
  have hparse : ∃ p, Program.parse .empty slotsOutOfOrder = .ok p := ⟨_, rfl⟩
  obtain ⟨p, hp⟩ := hparse
  obtain ⟨hconsistent, htokens⟩ := Program.tokens_of_parse hp
  refine ⟨p, hp, hconsistent, ?_⟩
  rw [htokens (by decide)]
  rfl

end CellScript
