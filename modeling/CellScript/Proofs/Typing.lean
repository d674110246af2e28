/-
Module: CellScript.Proofs.Typing
Purpose: Types are decided by types. What an expression comes to is abstracted to its type or to the
  error about types that it runs into, and this can be computed from the types of the variables.
  Values matter only to faults that stand in the way of a result: a division by zero and a text that
  is too long.
Main exports: BinaryOp.type?, UnaryOp.type?, Expr.typing, Follows, BinaryOp.follows_apply,
  UnaryOp.follows_apply, Expr.follows_value, Expr.eval_of_sameTypes
-/
import CellScript.Proofs.Run.Evaluation

namespace CellScript

/-!
### Types of operators

The table of the types that operators take and give.
-/

/-- Whether the values of a type are numbers. -/
def ValueType.isNumber : ValueType → Bool
  | int | float => true
  | string | bool => false

namespace BinaryOp

/-- Two integers give an integer, and any other two numbers a number in single precision. -/
def arithmeticType? (l r : ValueType) : Option ValueType :=
  if l = .int ∧ r = .int then some .int
  else if l.isNumber ∧ r.isNumber then some .float
  else none

/-- The type of an operator's result by the types of its operands, if it takes them. -/
def type? (op : BinaryOp) (l r : ValueType) : Option ValueType :=
  match op with
  | add => if l = .string ∨ r = .string then some .string else arithmeticType? l r
  | mul => if l = .string ∧ r = .int then some .string else arithmeticType? l r
  | sub | mod => arithmeticType? l r
  | div | pow => if l.isNumber ∧ r.isNumber then some .float else none
  | bitAnd | bitOr | bitXor | shl | shr => if l = .int ∧ r = .int then some .int else none
  | and | or | xor => if l = .bool ∧ r = .bool then some .bool else none
  | eq | ne => some .bool
  | gt | lt | ge | le => if l.isNumber ∧ r.isNumber then some .bool else none

/-- What an operator asks for when it refuses its operands. -/
def demand : BinaryOp → Operands
  | add => .numbersOrText
  | bitAnd | bitOr | bitXor | shl | shr => .ints
  | and | or | xor => .bools
  | _ => .numbers

/-- The type of an operator's result, or its complaint about the types of its operands. -/
def typing (op : BinaryOp) (l r : ValueType) : Except OperationFault ValueType :=
  match op.type? l r with
  | some type => .ok type
  | none => .error (.mismatch (.binary op op.demand l r))

end BinaryOp

namespace UnaryOp

/-- The type of an operator's result by the type of its operand, if it takes it. -/
def type? : UnaryOp → ValueType → Option ValueType
  | plus | neg | abs => fun type => if type.isNumber then some type else none
  | bitNot => fun type => if type = .int then some .int else none
  | not => fun type => if type = .bool then some .bool else none
  | _ => fun type => if type.isNumber then some .float else none

/-- The type of an operator's result, or its complaint about the type of its operand. -/
def typing (op : UnaryOp) (type : ValueType) : Except OperationFault ValueType :=
  match op.type? type with
  | some result => .ok result
  | none => .error (.mismatch (.unary op type))

end UnaryOp

/-!
### Results and their types

A result follows a typing if it has the type, or is the error, that the typing says. Besides, there
may be an error that only the values can tell.
-/

/-- Whether a fault depends on the values of operands, and not on their types alone. -/
def OperationFault.isIncidental : OperationFault → Bool
  | mismatch _ => false
  | divisionByZero => true
  | stringTooLong _ _ => true

/-- Whether an error of an expression depends on values or on the gas, and not on types alone. -/
def EvalError.isIncidental : EvalError → Bool
  | divisionByZero _ => true
  | stringTooLong _ _ _ => true
  | gasExhausted _ => true
  | _ => false

theorem EvalError.isIncidental_ofOperation (token : Token) (fault : OperationFault) :
    (EvalError.ofOperation token fault).isIncidental = fault.isIncidental := by
  cases fault <;> rfl

/-- A result is what its typing says, or it is an error that is incidental to the typing. -/
inductive Follows {ε : Type} (incidental : ε → Bool) :
    Except ε ValueType → Except ε Value → Prop where
  | ok {type : ValueType} {v : Value} (h : v.type = type) : Follows incidental (.ok type) (.ok v)
  | error {e : ε} : Follows incidental (.error e) (.error e)
  | fault {typing : Except ε ValueType} {e : ε} (h : incidental e = true) :
      Follows incidental typing (.error e)

namespace Follows

variable {ε : Type} {incidental : ε → Bool} {typing : Except ε ValueType} {r : Except ε Value}

theorem eq_type {v : Value} (h : Follows incidental typing (.ok v)) : typing = .ok v.type := by
  cases h with
  | ok htype => rw [htype]

theorem eq_error {e : ε} (h : Follows incidental typing (.error e)) (he : incidental e = false) :
    typing = .error e := by
  cases h with
  | error => rfl
  | fault hfault => exact absurd hfault (by simp [he])

theorem of_error {e : ε} (h : Follows incidental (.error e) r) :
    r = .error e ∨ ∃ other, r = .error other ∧ incidental other = true := by
  cases h with
  | error => exact .inl rfl
  | fault hfault => exact .inr ⟨_, rfl, hfault⟩

theorem mapError {typing : Except OperationFault ValueType} {r : Except OperationFault Value}
    (h : Follows OperationFault.isIncidental typing r) (token : Token) :
    Follows EvalError.isIncidental (typing.mapError (.ofOperation token))
      (r.mapError (.ofOperation token)) := by
  cases h with
  | ok htype => exact .ok htype
  | error => exact .error
  | fault hfault => exact .fault ((EvalError.isIncidental_ofOperation token _).trans hfault)

/-- What comes next looks at the type of a value, and follows the typing for that type. -/
theorem bind {nextTyping : ValueType → Except ε ValueType} {next : Value → Except ε Value}
    (h : Follows incidental typing r)
    (hnext : ∀ v, Follows incidental (nextTyping v.type) (next v)) :
    Follows incidental (typing.bind nextTyping) (r.bind next) := by
  cases h with
  | @ok _ v htype =>
      subst htype
      exact hnext v
  | error => exact .error
  | fault hfault => exact .fault hfault

end Follows

/-! ### Operators -/

namespace Value

variable {v : Value}

theorem eq_int_of_type (h : v.type = .int) : ∃ n, v = .int n := by
  cases v <;> cases h
  exact ⟨_, rfl⟩

theorem eq_bool_of_type (h : v.type = .bool) : ∃ b, v = .bool b := by
  cases v <;> cases h
  exact ⟨_, rfl⟩

theorem eq_string_of_type (h : v.type = .string) : ∃ text, v = .string text := by
  cases v <;> cases h
  exact ⟨_, rfl⟩

end Value

namespace BinaryOp

variable {op : BinaryOp} {limit : Nat} {l r : Value}

/-- A result of the type that the table gives. -/
theorem follows_ok {v : Value} (h : op.type? l.type r.type = some v.type) :
    Follows OperationFault.isIncidental (op.typing l.type r.type) (.ok v) := by
  rw [typing, h]
  exact .ok rfl

theorem follows_mismatch (h : op.type? l.type r.type = none) :
    Follows OperationFault.isIncidental (op.typing l.type r.type)
      (.error (op.mismatch op.demand l r)) := by
  rw [typing, h]
  exact .error

/-- Division and remainder look at the divisor after the types. -/
theorem follows_unlessZero {p : Prop} [Decidable p] {v : Value}
    (h : op.type? l.type r.type = some v.type) :
    Follows OperationFault.isIncidental (op.typing l.type r.type)
      (if p then .error .divisionByZero else .ok v) := by
  split
  · exact .fault rfl
  · exact follows_ok h

/-- A text is built only if it is not too long. -/
theorem follows_unlessTooLong {p : Prop} [Decidable p] {length : Nat} {text : String}
    (h : op.type? l.type r.type = some .string) :
    Follows OperationFault.isIncidental (op.typing l.type r.type)
      (if p then .error (.stringTooLong length limit) else .ok (.string text)) := by
  split
  · exact .fault rfl
  · exact follows_ok h

/-- The operands are not both integers, as a table sees it. -/
theorem not_ints (h : ∀ a b, l = .int a → r = .int b → False) :
    ¬(l.type = .int ∧ r.type = .int) := by
  intro htypes
  obtain ⟨a, rfl⟩ := Value.eq_int_of_type htypes.1
  obtain ⟨b, rfl⟩ := Value.eq_int_of_type htypes.2
  exact h a b rfl rfl

/-- An operator on any two numbers. -/
theorem follows_onNumbers {f : Single → Single → Except OperationFault Value} {type : ValueType}
    (hdemand : op.demand = .numbers)
    (htype : op.type? l.type r.type =
      if l.type.isNumber ∧ r.type.isNumber then some type else none)
    (hf : op.type? l.type r.type = some type → ∀ a b,
      Follows OperationFault.isIncidental (op.typing l.type r.type) (f a b)) :
    Follows OperationFault.isIncidental (op.typing l.type r.type) (op.onNumbers f l r) := by
  have hrefused (h : op.type? l.type r.type = none) :
      Follows OperationFault.isIncidental (op.typing l.type r.type)
        (.error (op.mismatch .numbers l r)) :=
    hdemand ▸ follows_mismatch h
  cases l with
  | int m => cases r with
    | int n => exact hf htype _ _
    | float y => exact hf htype _ _
    | bool c => exact hrefused htype
    | string t => exact hrefused htype
  | float x => cases r with
    | int n => exact hf htype _ _
    | float y => exact hf htype _ _
    | bool c => exact hrefused htype
    | string t => exact hrefused htype
  | bool b => exact hrefused htype
  | string s => exact hrefused htype

theorem follows_arithmetic (f : Int32 → Int32 → Int32) (g : Single → Single → Single)
    (hdemand : op.demand = .numbers)
    (htype : op.type? l.type r.type = arithmeticType? l.type r.type) :
    Follows OperationFault.isIncidental (op.typing l.type r.type) (op.arithmetic f g l r) := by
  unfold arithmetic
  split
  · exact follows_ok htype
  · next hne =>
      apply follows_onNumbers hdemand
      · rw [htype, arithmeticType?, if_neg (not_ints hne)]
      · intro hfloat a b
        exact follows_ok hfloat

theorem follows_onInts (f : Int32 → Int32 → Int32) (hdemand : op.demand = .ints)
    (htype : op.type? l.type r.type =
      if l.type = .int ∧ r.type = .int then some .int else none) :
    Follows OperationFault.isIncidental (op.typing l.type r.type) (op.onInts f l r) := by
  unfold onInts
  split
  · exact follows_ok htype
  · next hne =>
      rw [← hdemand]
      exact follows_mismatch (htype.trans (if_neg (not_ints hne)))

theorem follows_onBools (f : Bool → Bool → Bool) (hdemand : op.demand = .bools)
    (htype : op.type? l.type r.type =
      if l.type = .bool ∧ r.type = .bool then some .bool else none) :
    Follows OperationFault.isIncidental (op.typing l.type r.type) (op.onBools f l r) := by
  unfold onBools
  split
  · exact follows_ok htype
  · next hne =>
      have hbools : ¬(l.type = .bool ∧ r.type = .bool) := by
        intro htypes
        obtain ⟨a, rfl⟩ := Value.eq_bool_of_type htypes.1
        obtain ⟨b, rfl⟩ := Value.eq_bool_of_type htypes.2
        exact hne a b rfl rfl
      rw [← hdemand]
      exact follows_mismatch (htype.trans (if_neg hbools))

theorem follows_comparison (f : Single → Single → Bool) (hdemand : op.demand = .numbers)
    (htype : op.type? l.type r.type =
      if l.type.isNumber ∧ r.type.isNumber then some .bool else none) :
    Follows OperationFault.isIncidental (op.typing l.type r.type) (op.comparison f l r) := by
  apply follows_onNumbers hdemand htype
  intro hbool a b
  exact follows_ok hbool

theorem follows_sum :
    Follows OperationFault.isIncidental (add.typing l.type r.type) (sum limit l r) := by
  cases l with
  | string s => exact follows_unlessTooLong rfl
  | int m => cases r with
    | string t => exact follows_unlessTooLong rfl
    | int n => exact follows_ok rfl
    | float y => exact follows_ok rfl
    | bool c => exact follows_mismatch rfl
  | float x => cases r with
    | string t => exact follows_unlessTooLong rfl
    | int n => exact follows_ok rfl
    | float y => exact follows_ok rfl
    | bool c => exact follows_mismatch rfl
  | bool b => cases r with
    | string t => exact follows_unlessTooLong rfl
    | int n => exact follows_mismatch rfl
    | float y => exact follows_mismatch rfl
    | bool c => exact follows_mismatch rfl

theorem follows_product :
    Follows OperationFault.isIncidental (mul.typing l.type r.type) (product limit l r) := by
  unfold product
  split
  · exact follows_unlessTooLong rfl
  · next hne =>
      apply follows_arithmetic _ _ rfl
      have htext : ¬(l.type = .string ∧ r.type = .int) := by
        intro htypes
        obtain ⟨text, rfl⟩ := Value.eq_string_of_type htypes.1
        obtain ⟨n, rfl⟩ := Value.eq_int_of_type htypes.2
        exact hne text n rfl rfl
      exact if_neg htext

theorem follows_remainder :
    Follows OperationFault.isIncidental (mod.typing l.type r.type) (remainder l r) := by
  unfold remainder
  split
  · exact follows_unlessZero rfl
  · next hne =>
      apply follows_onNumbers rfl
      · exact if_neg (not_ints hne)
      · intro hfloat a b
        exact follows_unlessZero hfloat

/-- What an operator gives follows the table. -/
theorem follows_apply (op : BinaryOp) (limit : Nat) (l r : Value) :
    Follows OperationFault.isIncidental (op.typing l.type r.type) (op.apply limit l r) := by
  cases op with
  | add => exact follows_sum
  | sub => exact follows_arithmetic _ _ rfl rfl
  | mul => exact follows_product
  | div => exact follows_onNumbers rfl rfl fun h _ _ => follows_unlessZero h
  | mod => exact follows_remainder
  | pow => exact follows_onNumbers rfl rfl fun h _ _ => follows_ok h
  | bitAnd => exact follows_onInts _ rfl rfl
  | bitOr => exact follows_onInts _ rfl rfl
  | bitXor => exact follows_onInts _ rfl rfl
  | shl => exact follows_onInts _ rfl rfl
  | shr => exact follows_onInts _ rfl rfl
  | and => exact follows_onBools _ rfl rfl
  | or => exact follows_onBools _ rfl rfl
  | xor => exact follows_onBools _ rfl rfl
  | eq => exact follows_ok rfl
  | ne => exact follows_ok rfl
  | gt => exact follows_comparison _ rfl rfl
  | lt => exact follows_comparison _ rfl rfl
  | ge => exact follows_comparison _ rfl rfl
  | le => exact follows_comparison _ rfl rfl

end BinaryOp

theorem UnaryOp.follows_apply (op : UnaryOp) (v : Value) :
    Follows OperationFault.isIncidental (op.typing v.type) (op.apply v) := by
  cases op <;> cases v <;> first | exact .ok rfl | exact .error

/-!
### Expressions

The typing goes the way of the evaluation, with a type in place of each value. So it stops at the
same error, unless the values stop the evaluation before.
-/

/-- The types of the variables that can be seen. -/
def Scopes.types (vars : Scopes) (index : Nat) : Option ValueType :=
  (vars.get? index).map Value.type

/-- The type of an expression by the types of the variables, or the error that is in its way. -/
def Expr.typing (types : Nat → Option ValueType) : Expr → Except EvalError ValueType
  | .literal type token bits => (literalValue type token bits).map Value.type
  | .var token chain =>
      match types chain.length with
      | some type => .ok type
      | none => .error (.undefinedVariable token chain.length)
  | .constant _ _ => .ok .float
  | .unary op token operand =>
      (operand.typing types).bind fun type => (op.typing type).mapError (.ofOperation token)
  | .binary op token left right =>
      (left.typing types).bind fun l =>
        (right.typing types).bind fun r => (op.typing l r).mapError (.ofOperation token)

/-- The typing of an expression tells the type of its value and all errors but incidental ones. -/
theorem Expr.follows_value (limit : Nat) (vars : Scopes) (e : Expr) :
    Follows EvalError.isIncidental (e.typing vars.types) (e.value limit vars) := by
  induction e with
  | literal type token bits =>
      rw [typing, value]
      cases literalValue type token bits with
      | ok v => exact .ok rfl
      | error error => exact .error
  | var token chain =>
      rw [typing, value, Scopes.types, variableValue]
      cases vars.get? chain.length with
      | some v => exact .ok rfl
      | none => exact .error
  | constant c token =>
      cases c with
      | pi => exact .ok rfl
      | expBase => exact .ok rfl
  | unary op token operand ih =>
      apply ih.bind
      intro v
      exact (op.follows_apply v).mapError token
  | binary op token left right ihleft ihright =>
      apply ihleft.bind
      intro l
      apply ihright.bind
      intro r
      exact (op.follows_apply limit l r).mapError token

/-- An evaluation follows the typing too, as gas can only cut it off. -/
theorem Expr.follows_eval (s : Settings) (vars : Scopes) (e : Expr) (gas : Nat) :
    Follows EvalError.isIncidental (e.typing vars.types) (e.eval s vars gas).1 := by
  rcases e.eval_cut_or_value s vars gas with hcut | hvalue
  · rw [hcut]
    exact .fault rfl
  · rw [hvalue]
    exact e.follows_value s.maxStringLength vars

/-!
### Two evaluations

With variables of the same types two evaluations follow the same typing.
-/

/-- Whether an error is about types: an operand of a type that is not taken, or a variable that is
not there. -/
def EvalError.isOfTypes : EvalError → Bool
  | typeMismatch _ _ => true
  | undefinedVariable _ _ => true
  | _ => false

theorem EvalError.isIncidental_of_isOfTypes {e : EvalError} (h : e.isOfTypes = true) :
    e.isIncidental = false := by
  cases e <;> first | rfl | cases h

/-- An error that is not incidental is met by every evaluation that gets so far. -/
theorem Expr.error_of_types_eq {e : Expr} {s s' : Settings} {vars vars' : Scopes} {gas gas' : Nat}
    {error : EvalError} (htypes : vars'.types = vars.types) (herror : error.isIncidental = false)
    (h : (e.eval s vars gas).1 = .error error) :
    (e.eval s' vars' gas').1 = .error error ∨
      ∃ other, (e.eval s' vars' gas').1 = .error other ∧ other.isIncidental = true := by
  have hfollows := e.follows_eval s vars gas
  have hfollows' := e.follows_eval s' vars' gas'
  rw [h] at hfollows
  rw [htypes, hfollows.eq_error herror] at hfollows'
  exact hfollows'.of_error

theorem Expr.ne_ok_of_types_eq {e : Expr} {s s' : Settings} {vars vars' : Scopes} {gas gas' : Nat}
    {error : EvalError} (htypes : vars'.types = vars.types) (herror : error.isOfTypes = true)
    (h : (e.eval s vars gas).1 = .error error) (v : Value) : (e.eval s' vars' gas').1 ≠ .ok v := by
  intro hok
  have hincidental := EvalError.isIncidental_of_isOfTypes herror
  rcases error_of_types_eq htypes hincidental h with hsame | ⟨other, hother, -⟩
  · cases hok.symm.trans hsame
  · cases hok.symm.trans hother

/-- Take two evaluations of an expression, with variables of the same types. Whatever the limits and
the gas, values that they come to have the same type. If one ends with an error about types, the
other does not come to a value. And an error of one is the error of the other, except that either
may meet a division by zero, a text that is too long or a want of gas. -/
theorem Expr.eval_of_sameTypes (e : Expr) (s s' : Settings) (vars vars' : Scopes) (gas gas' : Nat)
    (h : ∀ index, (vars'.get? index).map Value.type = (vars.get? index).map Value.type) :
    (∀ v v', (e.eval s vars gas).1 = .ok v → (e.eval s' vars' gas').1 = .ok v' →
        v'.type = v.type) ∧
      (∀ error, error.isOfTypes = true →
        ((e.eval s vars gas).1 = .error error → ∀ v', (e.eval s' vars' gas').1 ≠ .ok v') ∧
        ((e.eval s' vars' gas').1 = .error error → ∀ v, (e.eval s vars gas).1 ≠ .ok v)) ∧
      ∀ error, error.isIncidental = false → (e.eval s vars gas).1 = .error error →
        (e.eval s' vars' gas').1 = .error error ∨
          ∃ other, (e.eval s' vars' gas').1 = .error other ∧ other.isIncidental = true := by
  have htypes : vars'.types = vars.types := funext h
  refine ⟨fun v v' hv hv' => ?_, fun error herror => ⟨?_, ?_⟩, fun error herror => ?_⟩
  · have hfollows := e.follows_eval s vars gas
    have hfollows' := e.follows_eval s' vars' gas'
    rw [hv] at hfollows
    rw [htypes, hv', hfollows.eq_type] at hfollows'
    exact (Except.ok.inj hfollows'.eq_type).symm
  · exact ne_ok_of_types_eq htypes herror
  · exact ne_ok_of_types_eq htypes.symm herror
  · exact error_of_types_eq htypes herror

/-- A quotient of two variables, to which a truth value is added. -/
def addTruthToQuotient : Expr :=
  let origin : Position := ⟨0, 0, 0⟩
  .binary .add ⟨.plus, origin⟩
    (.binary .div ⟨.div, origin⟩ (.var ⟨.useVar, origin⟩ []) (.var ⟨.useVar, origin⟩
      [⟨.varIndex, origin⟩]))
    (.literal .bool ⟨.bool, origin⟩ [⟨.one, origin⟩])

/-- The sum is refused for its types, so with other integers it is refused too, be it that the
divisor is zero. -/
theorem Expr.eval_of_sameTypes_addTruthToQuotient :
    (addTruthToQuotient.eval {} { bindings := [⟨0, .int 6, 0⟩, ⟨1, .int 3, 0⟩] } 0).1 =
        .error (.typeMismatch ⟨.plus, ⟨0, 0, 0⟩⟩ (.binary .add .numbersOrText .float .bool)) ∧
      (addTruthToQuotient.eval {} { bindings := [⟨0, .int 6, 0⟩, ⟨1, .int 0, 0⟩] } 0).1 =
        .error (.divisionByZero ⟨.div, ⟨0, 0, 0⟩⟩) ∧
      ∀ (s : Settings) (m n : Int32) (gas : Nat) (v : Value),
        (addTruthToQuotient.eval s { bindings := [⟨0, .int m, 0⟩, ⟨1, .int n, 0⟩] } gas).1 ≠
          .ok v := by
  have hmismatch : (addTruthToQuotient.eval {}
      { bindings := [⟨0, .int 6, 0⟩, ⟨1, .int 3, 0⟩] } 0).1 =
      .error (.typeMismatch ⟨.plus, ⟨0, 0, 0⟩⟩ (.binary .add .numbersOrText .float .bool)) := by
    rfl
  refine ⟨hmismatch, by rfl, fun s m n gas => ?_⟩
  have htypes : ∀ index,
      (Scopes.get? { bindings := [⟨0, .int m, 0⟩, ⟨1, .int n, 0⟩] } index).map Value.type =
      (Scopes.get? { bindings := [⟨0, .int 6, 0⟩, ⟨1, .int 3, 0⟩] } index).map Value.type := by
    intro index
    match index with
    | 0 => rfl
    | 1 => rfl
    | _ + 2 => rfl
  exact ((eval_of_sameTypes addTruthToQuotient {} s _ _ 0 gas htypes).2.1 _ rfl).1 hmismatch

end CellScript
