/-
Module: CellScript.Proofs.Run.TextLength
Purpose: How long the texts of a run can get. An operator refuses to build a text that is longer
  than the settings allow, and texts that no operator has built are those of literals and numbers.
Main exports: BinaryOp.built?, BinaryOp.apply_of_built, BinaryOp.plain_of_not_built,
  Program.MayHold, Expr.mayGive_of_eval, Program.invariant_fair, texts_bounded
-/
import CellScript.Proofs.Run.Conduct
import CellScript.Proofs.Run.Moments

namespace CellScript

/-!
### Lengths

The length of a text is counted before the text is built, and only as far as a word goes.
-/

/-- Below the greatest word, a length that was counted tells as much as the length itself. -/
theorem lt_countedLength_iff {limit n : Nat} (h : limit < UInt64.size - 1) :
    limit < countedLength n ↔ limit < n := by
  have hmin : countedLength n = min n (UInt64.size - 1) := rfl
  omega

theorem utf8ByteSize_join_replicate (s : String) (n : Nat) :
    (String.join (List.replicate n s)).utf8ByteSize = s.utf8ByteSize * n := by
  induction n with
  | zero => rfl
  | succ n ih =>
      rw [List.replicate_succ, String.join_cons, String.utf8ByteSize_append, ih, Nat.mul_succ,
        Nat.add_comm]

theorem repeatText_eq (s : String) (n : Nat) :
    repeatText s n = String.join (List.replicate n s) := by
  unfold repeatText
  split
  · next hempty =>
      cases String.isEmpty_iff.1 hempty
      induction n with
      | zero => rfl
      | succ n ih => rw [List.replicate_succ, String.join_cons, ← ih, String.empty_append]
  · rfl

namespace BinaryOp

/-!
### Texts that operators build

Two operators build texts, and only from some values. All other answers are known by their type.
-/

/-- The text that an operator is to build from two values, if it is to build one: the texts of both
in a row, or the first one as often as the second says, which is not at all for a negative
number. -/
def built? : BinaryOp → Value → Value → Option String
  | add, .string s, r => some (s ++ r.text)
  | add, l, .string t => some (l.text ++ t)
  | mul, .string s, .int n => some (String.join (List.replicate n.toInt.toNat s))
  | _, _, _ => none

variable {limit : Nat} {op : BinaryOp} {l r : Value}

theorem concat_eq (hlimit : limit < UInt64.size - 1) (l r : Value) :
    concat limit l r =
      if limit < (l.text ++ r.text).utf8ByteSize then
        .error (.stringTooLong (countedLength (l.text ++ r.text).utf8ByteSize) limit)
      else
        .ok (.string (l.text ++ r.text)) := by
  simp only [concat, lt_countedLength_iff hlimit, String.utf8ByteSize_append]

theorem repetition_eq (hlimit : limit < UInt64.size - 1) (s : String) (n : Int32) :
    repetition limit s n =
      let text := String.join (List.replicate n.toInt.toNat s)
      if limit < text.utf8ByteSize then
        .error (.stringTooLong (countedLength text.utf8ByteSize) limit)
      else
        .ok (.string text) := by
  simp only [repetition, lt_countedLength_iff hlimit, utf8ByteSize_join_replicate, repeatText_eq]

/-- An operator builds the text that it is to build, unless that is too long. -/
theorem apply_of_built (hlimit : limit < UInt64.size - 1) {text : String}
    (h : op.built? l r = some text) :
    op.apply limit l r =
      if limit < text.utf8ByteSize then
        .error (.stringTooLong (countedLength text.utf8ByteSize) limit)
      else
        .ok (.string text) := by
  unfold built? at h
  split at h
  · cases h
    exact concat_eq hlimit _ r
  · cases h
    cases l <;> exact concat_eq hlimit _ _
  · cases h
    exact repetition_eq hlimit _ _
  · cases h

/-- An answer that is no text, and no complaint about the length of one. -/
structure Plain (r : Except OperationFault Value) : Prop where
  ok : ∀ text, r ≠ .ok (.string text)
  error : ∀ length limit, r ≠ .error (.stringTooLong length limit)

theorem plain_of_type {v : Value} (h : v.type ≠ .string) : Plain (.ok v) := by
  refine ⟨fun text htext => ?_, fun _ _ => nofun⟩
  cases htext
  exact h rfl

theorem plain_mismatch (op : BinaryOp) (wanted : Operands) (l r : Value) :
    Plain (.error (op.mismatch wanted l r)) :=
  ⟨fun _ => nofun, fun _ _ => nofun⟩

theorem plain_onNumbers {f : Single → Single → Except OperationFault Value}
    (hf : ∀ a b, Plain (f a b)) : Plain (op.onNumbers f l r) := by
  unfold onNumbers
  split
  · exact hf _ _
  · exact plain_mismatch op .numbers l r

theorem plain_arithmetic (f : Int32 → Int32 → Int32) (g : Single → Single → Single) :
    Plain (op.arithmetic f g l r) := by
  unfold arithmetic
  split
  · exact plain_of_type nofun
  · exact plain_onNumbers fun _ _ => plain_of_type nofun

theorem plain_onInts (f : Int32 → Int32 → Int32) : Plain (op.onInts f l r) := by
  unfold onInts
  split
  · exact plain_of_type nofun
  · exact plain_mismatch op .ints _ _

theorem plain_onBools (f : Bool → Bool → Bool) : Plain (op.onBools f l r) := by
  unfold onBools
  split
  · exact plain_of_type nofun
  · exact plain_mismatch op .bools _ _

theorem plain_comparison (f : Single → Single → Bool) : Plain (op.comparison f l r) :=
  plain_onNumbers fun _ _ => plain_of_type nofun

theorem plain_unlessZero {p : Prop} [Decidable p] {v : Value} (h : v.type ≠ .string) :
    Plain (if p then .error .divisionByZero else .ok v) := by
  split
  · exact ⟨fun _ => nofun, fun _ _ => nofun⟩
  · exact plain_of_type h

theorem plain_remainder : Plain (remainder l r) := by
  unfold remainder
  split
  · exact plain_unlessZero nofun
  · exact plain_onNumbers fun _ _ => plain_unlessZero nofun

theorem plain_sum (h : add.built? l r = none) : Plain (sum limit l r) := by
  unfold sum
  split
  · exact plain_arithmetic _ _
  · split
    · cases h
    · cases l <;> cases h
    · exact plain_mismatch add .numbersOrText _ _

theorem plain_product (h : mul.built? l r = none) : Plain (product limit l r) := by
  unfold product
  split
  · cases h
  · exact plain_arithmetic _ _

/-- An operator that is to build no text has a plain answer. -/
theorem plain_of_not_built (h : op.built? l r = none) : Plain (op.apply limit l r) := by
  cases op with
  | add => exact plain_sum h
  | sub => exact plain_arithmetic _ _
  | mul => exact plain_product h
  | div => exact plain_onNumbers fun _ _ => plain_unlessZero nofun
  | mod => exact plain_remainder
  | pow => exact plain_onNumbers fun _ _ => plain_of_type nofun
  | bitAnd => exact plain_onInts _
  | bitOr => exact plain_onInts _
  | bitXor => exact plain_onInts _
  | shl => exact plain_onInts _
  | shr => exact plain_onInts _
  | and => exact plain_onBools _
  | or => exact plain_onBools _
  | xor => exact plain_onBools _
  | eq => exact plain_of_type nofun
  | ne => exact plain_of_type nofun
  | gt => exact plain_comparison _
  | lt => exact plain_comparison _
  | ge => exact plain_comparison _
  | le => exact plain_comparison _

/-- A text that an operator has built is not too long. -/
theorem length_of_apply (hlimit : limit < UInt64.size - 1) {text : String}
    (h : op.apply limit l r = .ok (.string text)) : text.utf8ByteSize ≤ limit := by
  rcases hbuilt : op.built? l r with _ | built
  · exact absurd h ((plain_of_not_built hbuilt).ok text)
  · rw [apply_of_built hlimit hbuilt] at h
    split at h
    · cases h
    · next hshort =>
        cases h
        exact Nat.le_of_not_lt hshort

/-- An operator complains about a text exactly if the one that it is to build is too long. -/
theorem apply_tooLong_iff (hlimit : limit < UInt64.size - 1) :
    (∃ length limit', op.apply limit l r = .error (.stringTooLong length limit')) ↔
      ∃ text, op.built? l r = some text ∧ limit < text.utf8ByteSize := by
  constructor
  · rintro ⟨length, limit', h⟩
    rcases hbuilt : op.built? l r with _ | text
    · exact absurd h ((plain_of_not_built hbuilt).error length limit')
    · rw [apply_of_built hlimit hbuilt] at h
      split at h
      · next hlong => exact ⟨text, rfl, hlong⟩
      · cases h
  · rintro ⟨text, hbuilt, hlong⟩
    exact ⟨_, limit, (apply_of_built hlimit hbuilt).trans (if_pos hlong)⟩

end BinaryOp

theorem UnaryOp.type_of_apply {op : UnaryOp} {v w : Value} (h : op.apply v = .ok w) :
    w.type ≠ .string := by
  unfold UnaryOp.apply at h
  split at h
  case h_9 =>
    split at h
    · cases h
      exact nofun
    · cases h
  all_goals
    cases h
    exact nofun

/-!
### Texts that a run comes to

A value is a text that was built, or it is taken from a literal, or it is made from a value of
another type when that is assigned or printed.
-/

/-- A text that a run of a program may come to: one that is not too long, or that a literal of the
program spells, or that stands for a value of another type. -/
inductive Program.MayHold (program : Program) (limit : Nat) : String → Prop where
  | short {text : String} : text.utf8ByteSize ≤ limit → MayHold program limit text
  | literal {token : Token} {bits : List Token} {text : String} :
      program.HasExpr (.literal .string token bits) →
      literalValue .string token bits = .ok (.string text) → MayHold program limit text
  | canonical {v : Value} : v.type ≠ .string → MayHold program limit v.text

/-- A value that, if it is a text, is one that a run may come to. -/
def Program.MayGive (program : Program) (limit : Nat) (v : Value) : Prop :=
  ∀ text, v = .string text → program.MayHold limit text

namespace Program.MayGive

variable {program : Program} {limit : Nat} {v w : Value}

theorem of_type (h : v.type ≠ .string) : program.MayGive limit v := by
  rintro text rfl
  exact absurd rfl h

theorem text (h : program.MayGive limit v) : program.MayHold limit v.text := by
  cases v with
  | string text => exact h text rfl
  | int n => exact .canonical (v := .int n) nofun
  | float x => exact .canonical (v := .float x) nofun
  | bool b => exact .canonical (v := .bool b) nofun

theorem coerce (h : program.MayGive limit v) {type : ValueType} (hw : v.coerce? type = some w) :
    program.MayGive limit w := by
  cases type with
  | int =>
      obtain ⟨n, -, rfl⟩ := Option.map_eq_some_iff.1 hw
      exact of_type nofun
  | float =>
      obtain ⟨x, -, rfl⟩ := Option.map_eq_some_iff.1 hw
      exact of_type nofun
  | bool =>
      cases hw
      exact of_type nofun
  | string =>
      cases hw
      rintro text ⟨⟩
      exact h.text

end Program.MayGive

theorem type_of_literalValue {type : ValueType} {token : Token} {bits : List Token} {v : Value}
    (h : literalValue type token bits = .ok v) : v.type = type := by
  unfold literalValue at h
  rcases hbits : bitsOfTokens bits with fault | bits
  · rw [hbits] at h
    cases h
  · simp only [hbits, Except.bind, Value.ofBits?] at h
    split at h
    · cases h
    · cases type <;> cases h <;> rfl

/-- An expression of a program has such a value if the variables have. The operands do not matter:
what an operator makes of them is no text, or it is short. -/
theorem Expr.mayGive_of_eval {s : Settings} (hlimit : s.maxStringLength < UInt64.size - 1)
    {program : Program} {vars : Scopes}
    (hvars : ∀ b ∈ vars.bindings, program.MayGive s.maxStringLength b.value) {e : Expr}
    (he : program.HasExpr e) {gas gas' : Nat} {v : Value}
    (h : e.eval s vars gas = (.ok v, gas')) : program.MayGive s.maxStringLength v := by
  cases e with
  | literal type token bits =>
      have hvalue := (Prod.mk.inj (metered_ok h)).1
      rintro text rfl
      cases type_of_literalValue hvalue
      exact .literal he hvalue
  | var token chain =>
      have hvalue := (Prod.mk.inj (metered_ok h)).1
      unfold variableValue at hvalue
      split at hvalue
      · next hget =>
          cases hvalue
          obtain ⟨b, hb, rfl⟩ := Option.map_eq_some_iff.1 hget
          exact hvars b (List.mem_of_find?_eq_some hb)
      · cases hvalue
  | constant value token =>
      cases metered_ok h
      cases value <;> exact .of_type nofun
  | unary op token operand =>
      have hnode := metered_ok h
      split at hnode
      · cases hnode
      · exact .of_type (UnaryOp.type_of_apply (mapError_eq_ok (Prod.mk.inj hnode).1))
  | binary op token left right =>
      have hnode := metered_ok h
      split at hnode
      · cases hnode
      · split at hnode
        · cases hnode
        · rintro text rfl
          exact .short (BinaryOp.length_of_apply hlimit (mapError_eq_ok (Prod.mk.inj hnode).1))

/-!
### Statements and programs

Only assignments change variables, and only `PRINT` emits. What they store and emit is the value of
an expression of the program.
-/

/-- The variables are such as a run may come to, and so are the texts that have been emitted after
certain others. -/
structure Program.Fair (program : Program) (limit : Nat) (before : List String) (m : Machine) :
    Prop where
  held : ∀ b ∈ m.scopes.bindings, program.MayGive limit b.value
  emitted : ∃ texts, m.world.texts = before ++ texts ∧ ∀ text ∈ texts, program.MayHold limit text

namespace Program.Fair

variable {program : Program} {limit : Nat} {before : List String} {m : Machine}

theorem assign (h : program.Fair limit before m) {v : Value} (hv : program.MayGive limit v)
    (index : Nat) : program.Fair limit before { m with scopes := m.scopes.assign index v } := by
  refine ⟨fun b hb => ?_, h.emitted⟩
  simp only [Scopes.assign] at hb
  split at hb
  · obtain ⟨a, ha, rfl⟩ := List.mem_map.1 hb
    split
    · exact hv
    · exact h.held a ha
  · rcases List.mem_cons.1 hb with rfl | hb
    · exact hv
    · exact h.held b hb

theorem emit (h : program.Fair limit before m) {text : String} (htext : program.MayHold limit text) :
    program.Fair limit before { m with world := m.world.emit text } := by
  obtain ⟨texts, heq, htexts⟩ := h.emitted
  refine ⟨h.held, texts ++ [text], ?_, ?_⟩
  · calc
      (m.world.emit text).texts = m.world.texts ++ [text] :=
        World.filterMap_trace_act Effect.text? m.world (.emitted text)
      _ = before ++ (texts ++ [text]) := by rw [heq, List.append_assoc]
  · simpa [or_imp, forall_and] using ⟨htexts, htext⟩

theorem act (h : program.Fair limit before m) (effect : Effect) (heffect : effect.text? = none) :
    program.Fair limit before { m with world := m.world.act effect } := by
  obtain ⟨texts, heq, htexts⟩ := h.emitted
  refine ⟨h.held, texts, ?_, htexts⟩
  have hact := World.filterMap_trace_act Effect.text? m.world effect
  rw [heffect, Option.toList_none, List.append_nil] at hact
  exact hact.trans heq

/-- Commands and writes leave variables and texts as they are. -/
theorem acts (program : Program) (limit : Nat) (before : List String) :
    Machine.Acts fun m m' => program.Fair limit before m → program.Fair limit before m' where
  refl := fun _ hm => hm
  trans := fun hfirst hsecond hm => hsecond (hfirst hm)
  gas := fun _ _ hm => ⟨hm.held, hm.emitted⟩
  execute := by
    intro m pos world hexecute hm
    rw [World.act_of_execute hexecute]
    exact hm.act (.executed pos) rfl
  write := fun m pos symbol hm => hm.act (.wrote pos symbol) rfl

end Program.Fair

namespace Machine

variable {s : Settings} {program : Program} {before : List String}

/-- What is done with the value of an expression of the program may count on the value. -/
theorem fair_eval_andThen (hlimit : s.maxStringLength < UInt64.size - 1) {e : Expr}
    (he : program.HasExpr e) {next : Value → Machine → Outcome Signal}
    (hnext : ∀ v, program.MayGive s.maxStringLength v →
      ∀ m, program.Fair s.maxStringLength before m →
        program.Fair s.maxStringLength before (next v m).2)
    {m : Machine} (hm : program.Fair s.maxStringLength before m) :
    program.Fair s.maxStringLength before (Outcome.andThen (m.eval s e) next).2 := by
  rw [Machine.eval]
  rcases heval : e.eval s m.scopes m.gas with ⟨error | v, gas⟩
  · exact ⟨hm.held, hm.emitted⟩
  · exact hnext v (e.mayGive_of_eval hlimit hm.held he heval) _ ⟨hm.held, hm.emitted⟩

end Machine

namespace Program

variable {s : Settings} {program : Program} {before : List String} {m : Machine}

theorem fair_exec_assign (hlimit : s.maxStringLength < UInt64.size - 1) {type : ValueType}
    {token : Token} {chain : List Token} {value : Expr}
    (hstmt : program.HasStmt (.assign type token chain value))
    (hm : program.Fair s.maxStringLength before m) :
    program.Fair s.maxStringLength before ((Stmt.assign type token chain value).exec s m).2 := by
  rw [Stmt.exec]
  refine (Fair.acts program s.maxStringLength before).tick (fun m hm => ?_) m hm
  refine Machine.fair_eval_andThen hlimit (hstmt.operand List.mem_cons_self) (fun v hv m hm => ?_) hm
  unfold Machine.assign
  split
  · next hcoerce => exact hm.assign (hv.coerce hcoerce) _
  · exact hm

theorem fair_exec_print (hlimit : s.maxStringLength < UInt64.size - 1) {token : Token}
    {value : Expr} (hstmt : program.HasStmt (.print token value))
    (hm : program.Fair s.maxStringLength before m) :
    program.Fair s.maxStringLength before ((Stmt.print token value).exec s m).2 := by
  rw [Stmt.exec]
  refine (Fair.acts program s.maxStringLength before).tick (fun m hm => ?_) m hm
  exact Machine.fair_eval_andThen hlimit (hstmt.operand List.mem_cons_self)
    (fun v hv m hm => hm.emit hv.text) hm

theorem invariant_fair (hlimit : s.maxStringLength < UInt64.size - 1) (program : Program)
    (before : List String) : program.Invariant s (program.Fair s.maxStringLength before) where
  gas := fun _ _ hm => ⟨hm.held, hm.emitted⟩
  enter := fun _ hm => ⟨hm.held, hm.emitted⟩
  exit := fun _ _ hm => ⟨fun b hb => hm.held b (List.mem_filter.1 hb).1, hm.emitted⟩
  basic := by
    intro stmt hstmt hbasic m hm
    cases stmt with
    | assign type token chain value => exact fair_exec_assign hlimit hstmt hm
    | print token value => exact fair_exec_print hlimit hstmt hm
    | _ => exact (Fair.acts program _ before).exec_of_isBasic rfl rfl hbasic m hm

end Program

/-- In every state that a run from no variables goes through, the texts in variables and those that
were emitted are not too long, or a literal of the program spells them, or they stand for values of
other types. An operator complains about a text exactly if the one that it is to build is too long;
otherwise it builds that text. -/
theorem texts_bounded (s : Settings) (hlimit : s.maxStringLength < UInt64.size - 1) :
    (∀ (program : Program) (m m' : Machine), m.scopes.isEmpty = true → program.Passes s m m' →
        (∀ b ∈ m'.scopes.bindings, ∀ text, b.value = .string text →
          program.MayHold s.maxStringLength text) ∧
        ∃ emitted, m'.world.texts = m.world.texts ++ emitted ∧
          ∀ text ∈ emitted, program.MayHold s.maxStringLength text) ∧
      (∀ (op : BinaryOp) (l r : Value),
        (∃ length limit,
          op.apply s.maxStringLength l r = .error (.stringTooLong length limit)) ↔
        ∃ text, op.built? l r = some text ∧ s.maxStringLength < text.utf8ByteSize) ∧
      ∀ (op : BinaryOp) (l r : Value) (text : String), op.built? l r = some text →
        text.utf8ByteSize ≤ s.maxStringLength →
        op.apply s.maxStringLength l r = .ok (.string text) := by
  refine ⟨fun program m m' hempty hpasses => ?_, fun op l r => BinaryOp.apply_tooLong_iff hlimit,
    fun op l r text hbuilt hshort => ?_⟩
  · have hnone : m.scopes.bindings = [] := List.isEmpty_iff.1 hempty
    have hstart : program.Fair s.maxStringLength m.world.texts m := by
      refine ⟨fun b hb => ?_, [], by simp, by simp⟩
      rw [hnone] at hb
      cases hb
    obtain ⟨hheld, hemitted⟩ :=
      (program.invariant_fair hlimit m.world.texts).passes hstart hpasses
    exact ⟨hheld, hemitted⟩
  · rw [BinaryOp.apply_of_built hlimit hbuilt, if_neg (Nat.not_lt.2 hshort)]

/-- A program that stores the text of a literal and prints it. -/
def storeAndPrint : Program :=
  let origin : Position := ⟨0, 0, 0⟩
  let bits : List TokenKind := [.one, .zero, .zero, .zero, .zero, .one, .one, .zero]
  let a : Expr := .literal .string ⟨.string, origin⟩ (bits.map fun kind => ⟨kind, origin⟩)
  ⟨[.assign .string ⟨.string, origin⟩ [] a, .print ⟨.print, origin⟩ (.var ⟨.useVar, origin⟩ [])]⟩

/-- A run that may build no text at all can still hold and print one. It cannot double it. -/
theorem texts_bounded_storeAndPrint :
    (∃ m', storeAndPrint.Passes { maxStringLength := 0 } {} m' ∧
        m'.scopes.bindings = [⟨0, .string "a", 1⟩] ∧ m'.world.texts = ["a"] ∧
        storeAndPrint.MayHold 0 "a") ∧
      (∃ length limit, BinaryOp.mul.apply 0 (.string "a") (.int 2) =
        .error (.stringTooLong length limit)) ∧
      BinaryOp.mul.apply 0 (.string "a") (.int (-2)) = .ok (.string "") := by
  obtain ⟨hpasses, hlong, hshort⟩ := texts_bounded { maxStringLength := 0 } (by decide)
  refine ⟨⟨_, .root (.next (.next .start rfl rfl) rfl rfl), rfl, rfl, ?_⟩, ?_, ?_⟩
  · have hmoment := hpasses storeAndPrint {} _ rfl (.root (.next (.next .start rfl rfl) rfl rfl))
    exact hmoment.1 ⟨0, .string "a", 1⟩ List.mem_cons_self "a" rfl
  · exact (hlong .mul (.string "a") (.int 2)).2 ⟨"aa", rfl, by decide⟩
  · exact hshort .mul (.string "a") (.int (-2)) "" rfl (by decide)

end CellScript
