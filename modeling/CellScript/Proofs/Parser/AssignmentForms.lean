/-
Module: CellScript.Proofs.Parser.AssignmentForms
Purpose: An assignment with the chain of its variable before the value, and one with the chain after
  it. The two agree unless the value ends in a variable, which takes the chain for its own.
Main exports: Expr.lengthenLast, Parser.endsInVar, Parser.Derives.absorbs,
  Parser.assignment_forms
-/
import CellScript.Proofs.Parser.SlotLoop

namespace CellScript

namespace Expr

/-- Whether a variable is used. -/
def usesVar : Expr → Bool
  | literal _ _ _ => false
  | var _ _ => true
  | constant _ _ => false
  | unary _ _ operand => operand.usesVar
  | binary _ _ left right => left.usesVar || right.usesVar

/-- The expression in which the chain of the last variable is longer. The last is the last in the
order of reading. -/
def lengthenLast (more : List Token) : Expr → Expr
  | literal type token bits => .literal type token bits
  | var token chain => .var token (chain ++ more)
  | constant value token => .constant value token
  | unary op token operand => .unary op token (operand.lengthenLast more)
  | binary op token left right =>
      if right.usesVar then
        .binary op token left (right.lengthenLast more)
      else
        .binary op token (left.lengthenLast more) right

end Expr

namespace Parser

/-- Whether the last token names a variable or goes on with its chain. -/
def endsInVar (ts : List Token) : Bool :=
  ts.getLast?.any fun t => t.kind == .useVar || t.kind == .varIndex

theorem endsInVar_append (ts : List Token) {us : List Token} (h : us ≠ []) :
    endsInVar (ts ++ us) = endsInVar us := by
  rw [endsInVar, endsInVar, List.getLast?_append_of_ne_nil ts h]

theorem endsInVar_cons (token : Token) {ts : List Token} (h : ts ≠ []) :
    endsInVar (token :: ts) = endsInVar ts :=
  endsInVar_append [token] h

theorem endsInVar_eq_false {ts : List Token}
    (h : ∀ t ∈ ts, t.kind ≠ .useVar ∧ t.kind ≠ .varIndex) : endsInVar ts = false := by
  rw [endsInVar, Option.any_eq_false]
  intro t ht
  obtain ⟨huse, hindex⟩ := h t (List.mem_of_mem_getLast? ht)
  simp [huse, hindex]

theorem endsInVar_var {token : Token} {chain : List Token} (hkind : token.kind = .useVar)
    (hchain : ∀ t ∈ chain, t.kind = .varIndex) : endsInVar (token :: chain) = true := by
  rw [endsInVar, List.getLast?_cons, Option.any_some]
  cases hlast : chain.getLast? with
  | none => simp [hkind]
  | some t => simp [hchain t (List.mem_of_mem_getLast? hlast)]

/-- Kinds that would be read as part of an expression before them, even if it does not end in a
variable. -/
def extendsValue (k : TokenKind) : Bool :=
  extendsSum k && k != .varIndex

theorem extendsValue_bit (k : TokenKind) (h : k.isBit = true) : extendsValue k = true := by
  revert h
  cases k <;> decide

theorem extendsValue_multiplicative (k : TokenKind)
    (h : (BinaryOp.multiplicative? k).isSome = true) : extendsValue k = true := by
  revert h
  cases k <;> decide

theorem extendsValue_additive (k : TokenKind) (h : (BinaryOp.additive? k).isSome = true) :
    extendsValue k = true := by
  revert h
  cases k <;> decide

/-! ### Parts that take no token -/

/-- The expression that a part goes on with. -/
def Part.start? : Part → Option Expr
  | .termRest left => some left
  | .sumRest left => some left
  | _ => none

/-- A part takes a token, unless it adds nothing to what it goes on with. -/
theorem Derives.length_lt_or_start {room : Nat} {p : Part} {ts rest : List Token} {e : Expr}
    (h : Derives room p ts e rest) :
    rest.length < ts.length ∨ p.start? = some e ∧ rest = ts := by
  induction h with
  | unary _ _ ih =>
      rcases ih with hlt | ⟨⟨⟩, -⟩
      exact .inl (Nat.lt_succ_of_lt hlt)
  | parens _ _ _ ih =>
      rcases ih with hlt | ⟨⟨⟩, -⟩
      exact .inl (Nat.lt_succ_of_lt (Nat.lt_of_succ_lt hlt))
  | literal => exact .inl (Nat.lt_succ_of_le (List.dropWhile_sublist _).length_le)
  | var => exact .inl (Nat.lt_succ_of_le (List.dropWhile_sublist _).length_le)
  | constant => exact .inl (Nat.lt_succ_self _)
  | termEnd => exact .inr ⟨rfl, rfl⟩
  | termStep _ _ _ ihRight ihRest =>
      rcases ihRight with hlt | ⟨⟨⟩, -⟩
      rcases ihRest with hlt' | ⟨-, rfl⟩
      · exact .inl (Nat.lt_succ_of_lt (Nat.lt_trans hlt' hlt))
      · exact .inl (Nat.lt_succ_of_lt hlt)
  | term _ _ ihLeft ihRest =>
      rcases ihLeft with hlt | ⟨⟨⟩, -⟩
      rcases ihRest with hlt' | ⟨-, rfl⟩
      · exact .inl (Nat.lt_trans hlt' hlt)
      · exact .inl hlt
  | sumEnd => exact .inr ⟨rfl, rfl⟩
  | sumStep _ _ _ ihRight ihRest =>
      rcases ihRight with hlt | ⟨⟨⟩, -⟩
      rcases ihRest with hlt' | ⟨-, rfl⟩
      · exact .inl (Nat.lt_succ_of_lt (Nat.lt_trans hlt' hlt))
      · exact .inl (Nat.lt_succ_of_lt hlt)
  | sum _ _ ihLeft ihRest =>
      rcases ihLeft with hlt | ⟨⟨⟩, -⟩
      rcases ihRest with hlt' | ⟨-, rfl⟩
      · exact .inl (Nat.lt_trans hlt' hlt)
      · exact .inl hlt

/-- A factor, a term or a sum takes a token. -/
theorem Derives.ne_nil {room : Nat} {p : Part} {used rest : List Token} {e : Expr}
    (h : Derives room p (used ++ rest) e rest) (hp : p.start? = none) : used ≠ [] := by
  rintro rfl
  rcases h.length_lt_or_start with hlt | ⟨hstart, -⟩
  · exact absurd hlt (Nat.lt_irrefl _)
  · rw [hp] at hstart
    cases hstart

/-- The rest of a chain that takes no token adds nothing. -/
theorem Derives.eq_start {room : Nat} {p : Part} {rest : List Token} {e left : Expr}
    (h : Derives room p rest e rest) (hp : p.start? = some left) : e = left := by
  rcases h.length_lt_or_start with hlt | ⟨hstart, -⟩
  · exact absurd hlt (Nat.lt_irrefl _)
  · exact Option.some.inj (hstart.symm.trans hp)

/-! ### A chain after an expression -/

/-- A part that is read from `used` is read again with a chain after it. Where `used` ends in a
variable, the chain becomes a part of it, and else it is left. -/
def Absorbs (room : Nat) (p : Part) (used : List Token) (e : Expr) (chain rest : List Token) :
    Prop :=
  if endsInVar used then
    e.usesVar = true ∧ Derives room p (used ++ (chain ++ rest)) (e.lengthenLast chain) rest
  else
    Derives room p (used ++ (chain ++ rest)) e (chain ++ rest)

section Chain

variable {chain rest : List Token} (hne : chain ≠ []) (hchain : ∀ t ∈ chain, t.kind = .varIndex)
  (hrest : NotFirst extendsSum rest)

include hne hchain in
theorem notFirst_chain : NotFirst extendsValue (chain ++ rest) := by
  obtain ⟨first, chain, rfl⟩ := List.exists_cons_of_ne_nil hne
  show extendsValue first.kind = false
  rw [hchain first List.mem_cons_self]
  decide

include hrest in
theorem notFirst_rest : NotFirst extendsValue rest :=
  hrest.mono fun _ hk => (Bool.and_eq_true_iff.1 hk).1

theorem absorbs_of_value {room : Nat} {p : Part} {used : List Token} {e : Expr}
    (hlast : endsInVar used = false)
    (h : Derives room p (used ++ (chain ++ rest)) e (chain ++ rest)) :
    Absorbs room p used e chain rest := by
  rw [Absorbs, hlast]
  exact h

include hne hchain in
theorem absorbs_literal {room : Nat} {type : ValueType} {token : Token} {ts : List Token}
    (htype : ValueType.ofKind? token.kind = some type)
    (hwidth : type.checkWidth (ts.takeWhile fun t => t.kind.isBit).length = .ok ()) :
    Absorbs room .factor (token :: ts.takeWhile fun t => t.kind.isBit)
      (.literal type token (ts.takeWhile fun t => t.kind.isBit)) chain rest := by
  apply absorbs_of_value
  · refine endsInVar_eq_false (List.forall_mem_cons.2 ⟨?_, fun t ht => ?_⟩)
    · rw [ValueType.marker_of_ofKind? htype]
      cases type <;> decide
    · have hbit := List.mem_takeWhile_imp (p := fun t : Token => t.kind.isBit) ht
      constructor
      all_goals
        intro hkind
        rw [hkind] at hbit
        cases hbit
  · have hend : NotFirst TokenKind.isBit (chain ++ rest) :=
      (notFirst_chain hne hchain).mono extendsValue_bit
    obtain ⟨htake, hdrop⟩ := collect_takeWhile ts hend
    have hderives : Derives room .factor
        (token :: (ts.takeWhile (fun t => t.kind.isBit) ++ (chain ++ rest))) _ _ :=
      .literal htype (by rwa [htake])
    rwa [htake, hdrop] at hderives

include hchain hrest in
/-- A variable takes a chain after it for its own. -/
theorem absorbs_var {room : Nat} {token : Token} (hkind : token.kind = .useVar)
    (ts : List Token) :
    Absorbs room .factor (token :: ts.takeWhile isIndex) (.var token (ts.takeWhile isIndex)) chain
      rest := by
  have hindex : ∀ t ∈ ts.takeWhile isIndex, t.kind = .varIndex := fun t ht =>
    kind_of_isIndex (List.mem_takeWhile_imp ht)
  obtain ⟨htake, hdrop⟩ := collect_index (List.forall_mem_append.2 ⟨hindex, hchain⟩)
    (hrest.mono extendsSum_index)
  have hderives : Derives room .factor
      (token :: (ts.takeWhile isIndex ++ chain ++ rest)) _ _ := .var hkind
  rw [htake, hdrop, List.append_assoc] at hderives
  rw [Absorbs, endsInVar_var hkind hindex]
  exact ⟨rfl, hderives⟩

include hne hchain hrest in
/-- What absorbs a chain does so as a part of something else that ends where it ends. -/
theorem Absorbs.map {room room' : Nat} {p p' : Part} {used used' : List Token} {e : Expr}
    (f : Expr → Expr) (h : Absorbs room p used e chain rest)
    (hlast : endsInVar used' = endsInVar used)
    (hf : e.usesVar = true →
      (f e).usesVar = true ∧ (f e).lengthenLast chain = f (e.lengthenLast chain))
    (hderives : ∀ e tail, NotFirst extendsValue tail →
      Derives room p (used ++ (chain ++ rest)) e tail →
      Derives room' p' (used' ++ (chain ++ rest)) (f e) tail) :
    Absorbs room' p' used' (f e) chain rest := by
  unfold Absorbs at h ⊢
  rw [hlast]
  split at h
  · rename_i hvar
    obtain ⟨huses, h⟩ := h
    obtain ⟨huses', hlengthen⟩ := hf huses
    rw [if_pos hvar, hlengthen]
    exact ⟨huses', hderives _ _ (notFirst_rest hrest) h⟩
  · rename_i hvar
    rw [if_neg hvar]
    exact hderives _ _ (notFirst_chain hne hchain) h

include hne hchain hrest in
/-- An operand and what goes on with it: the chain meets the operand where nothing goes on. -/
theorem Absorbs.append {room room' : Nat} {q p p' : Part} {front used more tail : List Token}
    {first e : Expr} (f : Expr → Expr) (hused : used ≠ [])
    (hfirst : Absorbs room q used first chain rest)
    (hmore : Derives room p (more ++ tail) e tail) (hstart : p.start? = some (f first))
    (hf : first.usesVar = true →
      (f first).usesVar = true ∧ (f first).lengthenLast chain = f (first.lengthenLast chain))
    (hend : ∀ e tail, NotFirst extendsValue tail →
      Derives room q (used ++ (chain ++ rest)) e tail →
      Derives room' p' (front ++ (used ++ (chain ++ rest))) (f e) tail)
    (hgoes : more ≠ [] → Absorbs room p more e chain rest)
    (hon : more ≠ [] → ∀ e tail, Derives room p (more ++ (chain ++ rest)) e tail →
      Derives room' p' (front ++ (used ++ (more ++ (chain ++ rest)))) e tail) :
    Absorbs room' p' (front ++ (used ++ more)) e chain rest := by
  by_cases hempty : more = []
  · subst hempty
    cases hmore.eq_start hstart
    rw [List.append_nil]
    refine hfirst.map hne hchain hrest f (endsInVar_append front hused) hf fun e tail htail h => ?_
    rw [List.append_assoc]
    exact hend e tail htail h
  · refine (hgoes hempty).map hne hchain hrest id ?_ (fun h => ⟨h, rfl⟩) fun e tail _ h => ?_
    · rw [← List.append_assoc, endsInVar_append _ hempty]
    · rw [List.append_assoc, List.append_assoc]
      exact hon hempty e tail h

theorem lengthenLast_binary {op : BinaryOp} {token : Token} {left right : Expr}
    (h : right.usesVar = true) :
    (Expr.binary op token left right).usesVar = true ∧
      (Expr.binary op token left right).lengthenLast chain =
        .binary op token left (right.lengthenLast chain) := by
  simp [Expr.usesVar, Expr.lengthenLast, h]

include hne hchain hrest in
/-- Every part absorbs a chain in this way. -/
theorem Derives.absorbs {room : Nat} {p : Part} {ts tail : List Token} {e : Expr}
    (h : Derives room p ts e tail) {used : List Token} (hts : ts = used ++ tail)
    (hused : used ≠ []) : Absorbs room p used e chain rest := by
  -- the chain meets the last factor that was read; all before it is followed by the same tokens
  induction h generalizing used with
  | @unary room op token operand ts tail hop hoperand ih =>
      obtain ⟨first, used, rfl⟩ := List.exists_cons_of_ne_nil hused
      obtain ⟨rfl, rfl⟩ := List.cons.inj hts
      have hne' := hoperand.ne_nil rfl
      exact (ih rfl hne').map hne hchain hrest (.unary op token) (endsInVar_cons token hne')
        (fun h => ⟨h, rfl⟩) fun e tail _ h => .unary hop h
  | @parens room opener closer e ts tail hopener hinside hcloser _ =>
      obtain ⟨inside, rfl, hlocal⟩ := hinside.local
      have htokens : (opener :: (inside ++ [closer])) ++ tail = used ++ tail := by simpa using hts
      cases List.append_cancel_right htokens
      apply absorbs_of_value
      · rw [endsInVar_cons opener (by simp), endsInVar_append inside (by simp)]
        exact endsInVar_eq_false (by simp [hcloser])
      · rw [List.cons_append, List.append_assoc, List.singleton_append]
        exact .parens hopener (hlocal _ (.inl rfl)) hcloser
  | @literal room type token ts htype hwidth =>
      have htokens : (token :: ts.takeWhile fun t => t.kind.isBit) ++
          ts.dropWhile (fun t => t.kind.isBit) = used ++ ts.dropWhile fun t => t.kind.isBit := by
        rw [List.cons_append, List.takeWhile_append_dropWhile, hts]
      cases List.append_cancel_right htokens
      exact absorbs_literal hne hchain htype hwidth
  | @var room token ts hkind =>
      have htokens : (token :: ts.takeWhile isIndex) ++ ts.dropWhile isIndex =
          used ++ ts.dropWhile isIndex := by
        rw [List.cons_append, List.takeWhile_append_dropWhile, hts]
      cases List.append_cancel_right htokens
      exact absorbs_var hchain hrest hkind ts
  | @constant room value token ts hkind =>
      have htokens : [token] ++ ts = used ++ ts := hts
      cases List.append_cancel_right htokens
      refine absorbs_of_value (endsInVar_eq_false ?_) (.constant hkind)
      cases value <;> simp [hkind, Constant.kind]
  | termEnd => exact absurd (List.self_eq_append_left.1 hts) hused
  | @termStep room op token left right e ts mid tail hop hright hmore ihRight ihMore =>
      obtain ⟨used₁, rfl, hlocal⟩ := hright.local
      obtain ⟨used₂, rfl, -⟩ := hmore.local
      have htokens : ([token] ++ (used₁ ++ used₂)) ++ tail = used ++ tail := by simpa using hts
      cases List.append_cancel_right htokens
      have hne₁ := hright.ne_nil rfl
      exact (ihRight rfl hne₁).append hne hchain hrest (.binary op token left) hne₁ hmore rfl
        lengthenLast_binary
        (fun e tail htail h =>
          .termStep hop h (.termEnd (htail.mono extendsValue_multiplicative)))
        (ihMore rfl)
        fun hne₂ e tail h => .termStep hop (hlocal _ (.inl (.of_ne_nil hne₂ _ _))) h
  | @term room left e ts mid tail hleft hmore ihLeft ihMore =>
      obtain ⟨used₁, rfl, hlocal⟩ := hleft.local
      obtain ⟨used₂, rfl, -⟩ := hmore.local
      have htokens : ([] ++ (used₁ ++ used₂)) ++ tail = used ++ tail := by simpa using hts
      cases List.append_cancel_right htokens
      have hne₁ := hleft.ne_nil rfl
      exact (ihLeft rfl hne₁).append hne hchain hrest id hne₁ hmore rfl (fun h => ⟨h, rfl⟩)
        (fun e tail htail h => .term h (.termEnd (htail.mono extendsValue_multiplicative)))
        (ihMore rfl)
        fun hne₂ e tail h => .term (hlocal _ (.inl (.of_ne_nil hne₂ _ _))) h
  | sumEnd => exact absurd (List.self_eq_append_left.1 hts) hused
  | @sumStep room op token left right e ts mid tail hop hright hmore ihRight ihMore =>
      obtain ⟨used₁, rfl, hlocal⟩ := hright.local
      obtain ⟨used₂, rfl, -⟩ := hmore.local
      have htokens : ([token] ++ (used₁ ++ used₂)) ++ tail = used ++ tail := by simpa using hts
      cases List.append_cancel_right htokens
      have hne₁ := hright.ne_nil rfl
      exact (ihRight rfl hne₁).append hne hchain hrest (.binary op token left) hne₁ hmore rfl
        lengthenLast_binary
        (fun e tail htail h => .sumStep hop h (.sumEnd (htail.mono extendsValue_additive)))
        (ihMore rfl)
        fun hne₂ e tail h => .sumStep hop (hlocal _ (.inl (.of_ne_nil hne₂ _ _))) h
  | @sum room left e ts mid tail hleft hmore ihLeft ihMore =>
      obtain ⟨used₁, rfl, hlocal⟩ := hleft.local
      obtain ⟨used₂, rfl, -⟩ := hmore.local
      have htokens : ([] ++ (used₁ ++ used₂)) ++ tail = used ++ tail := by simpa using hts
      cases List.append_cancel_right htokens
      have hne₁ := hleft.ne_nil rfl
      exact (ihLeft rfl hne₁).append hne hchain hrest id hne₁ hmore rfl (fun h => ⟨h, rfl⟩)
        (fun e tail htail h => .sum h (.sumEnd (htail.mono extendsValue_additive)))
        (ihMore rfl)
        fun hne₂ e tail h => .sum (hlocal _ (.inl (.of_ne_nil hne₂ _ _))) h

end Chain

/-! ### The two forms -/

/-- An expression begins with no token of a chain. -/
theorem Derives.first {room : Nat} {p : Part} {ts rest : List Token} {e : Expr}
    (h : Derives room p ts e rest) (hp : p.start? = none) :
    NotFirst (fun k => k == .varIndex) ts := by
  induction h with
  | @unary room op token operand ts rest hop =>
      simp only [NotFirst, UnaryOp.kind_of_ofKind? hop]
      cases op <;> rfl
  | parens hopener => simp [NotFirst, hopener]
  | @literal room type token ts htype =>
      simp only [NotFirst, ValueType.marker_of_ofKind? htype]
      cases type <;> rfl
  | var hkind => simp [NotFirst, hkind]
  | @constant room value token ts hkind =>
      simp only [NotFirst, hkind]
      cases value <;> rfl
  | term _ _ ih => exact ih rfl
  | sum _ _ ih => exact ih rfl
  | termEnd => cases hp
  | termStep => cases hp
  | sumEnd => cases hp
  | sumStep => cases hp

/-- An assignment of an expression, written `ts`, to a variable that a chain names, with something
after it that cannot go on with an expression. Where the chain stands before the value, the variable
gets the value. Where it stands after the value, it is the same, unless the value ends in a
variable. Then the chain belongs to that variable, and the assignment is to the variable without a
chain. -/
theorem assignment_forms (g : Grid) {room : Nat} {type : ValueType} {marker : Token}
    {chain ts rest : List Token} {value : Expr}
    (htype : ValueType.ofKind? marker.kind = some type) (hne : chain ≠ [])
    (hchain : ∀ t ∈ chain, t.kind = .varIndex)
    (hvalue : expression room ts = .ok (value, [])) (hrest : NotFirst extendsSum rest) :
    stmtReader g room (marker :: (chain ++ (ts ++ rest))) =
        .ok (.assign type marker chain value, rest) ∧
      (endsInVar ts = false → stmtReader g room (marker :: (ts ++ (chain ++ rest))) =
        .ok (.assign type marker chain value, rest)) ∧
      (endsInVar ts = true → stmtReader g room (marker :: (ts ++ (chain ++ rest))) =
        .ok (.assign type marker [] (value.lengthenLast chain), rest)) := by
  obtain ⟨r, rfl, hderives⟩ := expression_derives hvalue
  obtain ⟨used, hused, hts, hread⟩ := expression_local (r + 1) hvalue
  rw [List.append_nil] at hts
  subst hts
  have hfirst : ∀ tail, NotFirst (fun k => k == .varIndex) (ts ++ tail) := by
    have hts := hderives.first rfl
    rw [← List.append_nil ts] at hts
    exact notFirst_append hused hts
  have habsorbs := hderives.absorbs hne hchain hrest (List.append_nil ts).symm hused
  have hindex := hrest.mono extendsSum_index
  simp only [stmtReader_eq_statement,
    statement_of_marker (ValueType.marker_of_ofKind? htype)]
  refine ⟨?_, fun hlast => ?_, fun hlast => ?_⟩
  · exact assignment_of_chain htype hne hchain (hfirst rest) (hread rest (.inr hrest))
  · rw [Absorbs, hlast] at habsorbs
    exact assignment_of_value htype hchain (hfirst _) (expression_of_derives habsorbs) hindex
  · rw [Absorbs, hlast] at habsorbs
    exact assignment_of_value htype (List.forall_mem_nil _) (hfirst _)
      (expression_of_derives habsorbs.2) hindex

/-- The sum of a constant and a variable. -/
def piPlusVar : List Token :=
  [⟨.pi, ⟨1, 0, 0⟩⟩, ⟨.plus, ⟨2, 0, 0⟩⟩, ⟨.useVar, ⟨3, 0, 0⟩⟩]

/-- With the chain after it, the variable of the sum takes it. -/
theorem assignment_forms_piPlusVar :
    ∃ value, expression maxNesting piPlusVar = .ok (value, []) ∧
      stmtReader .empty maxNesting (⟨.float, ⟨0, 0, 0⟩⟩ ::
          ([⟨.varIndex, ⟨4, 0, 0⟩⟩] ++ (piPlusVar ++ [⟨.stop, ⟨5, 0, 0⟩⟩]))) =
        .ok (.assign .float ⟨.float, ⟨0, 0, 0⟩⟩ [⟨.varIndex, ⟨4, 0, 0⟩⟩] value,
          [⟨.stop, ⟨5, 0, 0⟩⟩]) ∧
      stmtReader .empty maxNesting (⟨.float, ⟨0, 0, 0⟩⟩ ::
          (piPlusVar ++ ([⟨.varIndex, ⟨4, 0, 0⟩⟩] ++ [⟨.stop, ⟨5, 0, 0⟩⟩]))) =
        .ok (.assign .float ⟨.float, ⟨0, 0, 0⟩⟩ []
          (value.lengthenLast [⟨.varIndex, ⟨4, 0, 0⟩⟩]), [⟨.stop, ⟨5, 0, 0⟩⟩]) := by
  have hvalue : ∃ value, expression maxNesting piPlusVar = .ok (value, []) := ⟨_, rfl⟩
  obtain ⟨value, hvalue⟩ := hvalue
  have htype : ValueType.ofKind? (⟨.float, ⟨0, 0, 0⟩⟩ : Token).kind = some .float := rfl
  have hchain : ∀ t ∈ [(⟨.varIndex, ⟨4, 0, 0⟩⟩ : Token)], t.kind = .varIndex := by decide
  have hrest : NotFirst extendsSum [⟨.stop, ⟨5, 0, 0⟩⟩] := rfl
  obtain ⟨hbefore, -, hafter⟩ :=
    assignment_forms .empty htype (List.cons_ne_nil _ _) hchain hvalue hrest
  exact ⟨value, hvalue, hbefore, hafter rfl⟩

end Parser

end CellScript
