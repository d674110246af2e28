/-
Module: CellScript.Proofs.Translation
Purpose: Compiling does not depend on where in the grid a program stands. Moved by a vector it is
  the same program with the vector added to every position, or it has the same error there.
Main exports: Grid.translate, Program.translate, RunError.translate, compile_translate
-/
import CellScript.Proofs.Pipeline.Likeness
import CellScript.Proofs.Space.Arithmetic

namespace CellScript

open Std

/-! ### Moving a grid -/

namespace Grid

/-- The grid with every cell moved by a vector. -/
def translate (g : Grid) (v : Position) : Grid :=
  ⟨.ofList (g.cells.toList.map fun (p, cell) => (p + v, cell))⟩

variable (g : Grid) (v : Position)

/-- Cells stay apart when they are moved. -/
theorem translate_distinct :
    (g.cells.toList.map fun (p, cell) => (p + v, cell)).Pairwise
      fun a b => ¬compare a.1 b.1 = .eq := by
  refine List.pairwise_map.2 (TreeMap.distinct_keys_toList.imp ?_)
  intro a b hab
  simpa only [LawfulEqCmp.compare_eq_iff_eq, Position.add_left_inj] using hab

theorem size_translate : (g.translate v).size = g.size := by
  rw [size, translate, TreeMap.size_ofList (translate_distinct g v), List.length_map,
    TreeMap.length_toList, size]

theorem cell?_translate (p : Position) : (g.translate v).cell? (p + v) = g.cell? p := by
  cases hcell : g.cell? p with
  | some cell =>
      have hmem : (p, cell) ∈ g.cells.toList := TreeMap.mem_toList_iff_getElem?_eq_some.2 hcell
      exact TreeMap.getElem?_ofList_of_mem ReflCmp.compare_self (translate_distinct g v)
        (List.mem_map_of_mem hmem)
  | none =>
      have hfree : p + v ∉ (g.cells.toList.map fun (p, cell) => (p + v, cell)).map Prod.fst := by
        intro hmem
        obtain ⟨_, hmoved, hpos⟩ := List.mem_map.1 hmem
        obtain ⟨⟨q, cell⟩, hq, rfl⟩ := List.mem_map.1 hmoved
        obtain rfl := (Position.add_left_inj q p v).1 hpos
        rw [cell?, TreeMap.mem_toList_iff_getElem?_eq_some.1 hq] at hcell
        cases hcell
      apply TreeMap.getElem?_ofList_of_contains_eq_false
      simpa only [List.contains_eq_mem, decide_eq_false_iff_not] using hfree

end Grid

/-! ### Moving what was read -/

/-- The token as read one vector further. -/
def Token.translate (t : Token) (v : Position) : Token :=
  { t with pos := t.pos + v }

/-- The expression with all tokens moved. -/
def Expr.translate (v : Position) : Expr → Expr
  | literal type token bits =>
      literal type (token.translate v) (bits.map fun t => t.translate v)
  | var token chain => var (token.translate v) (chain.map fun t => t.translate v)
  | constant value token => constant value (token.translate v)
  | unary op token operand => unary op (token.translate v) (operand.translate v)
  | binary op token left right =>
      binary op (token.translate v) (left.translate v) (right.translate v)

mutual

/-- The statement with all tokens and templates moved. -/
def Stmt.translate (v : Position) : Stmt → Stmt
  | .assign type token chain value =>
      .assign type (token.translate v) (chain.map fun t => t.translate v) (value.translate v)
  | .command token => .command (token.translate v)
  | .stop token => .stop (token.translate v)
  | .breakLoop token => .breakLoop (token.translate v)
  | .continueLoop token => .continueLoop (token.translate v)
  | .print token value => .print (token.translate v) (value.translate v)
  | .goto token target => .goto (token.translate v) (target.translate v)
  | .place token x y z templatePos template =>
      .place (token.translate v) (x.translate v) (y.translate v) (z.translate v)
        (templatePos + v) template
  | .ifElse token condition yes no =>
      .ifElse (token.translate v) (condition.translate v) (Stmt.translateAll v yes)
        (Stmt.translateElse v no)
  | .whileLoop token condition body =>
      .whileLoop (token.translate v) (condition.translate v) (Stmt.translateAll v body)
  | .forLoop token init condition increment body =>
      .forLoop (token.translate v) (Stmt.translate v init) (condition.translate v)
        (Stmt.translate v increment) (Stmt.translateAll v body)

/-- All statements moved. -/
def Stmt.translateAll (v : Position) : List Stmt → List Stmt
  | [] => []
  | stmt :: rest => Stmt.translate v stmt :: Stmt.translateAll v rest

/-- The other branch moved, if there is one. -/
def Stmt.translateElse (v : Position) : Option (List Stmt) → Option (List Stmt)
  | none => none
  | some block => some (Stmt.translateAll v block)

end

/-- The program with all tokens and templates moved. -/
def Program.translate (p : Program) (v : Position) : Program :=
  ⟨Stmt.translateAll v p.body⟩

/-- The error at a cell moved by a vector. -/
def ScanError.translate (v : Position) : ScanError → ScanError
  | malformedRedirector p => malformedRedirector (p + v)
  | redirectCycle p heading => redirectCycle (p + v) heading
  | depthExceeded p limit => depthExceeded (p + v) limit

/-- The error with its token moved, if it blames one. -/
def ParseError.translate (v : Position) : ParseError → ParseError
  | expected what found => expected what (found.translate v)
  | unexpectedToken token => unexpectedToken (token.translate v)
  | unexpectedEnd what => unexpectedEnd what
  | missingArgument token slot => missingArgument (token.translate v) slot
  | duplicateArgument marker => duplicateArgument (marker.translate v)
  | malformedLiteral token fault => malformedLiteral (token.translate v) fault
  | nestingTooDeep token limit => nestingTooDeep (token.translate v) limit

/-- The error of a compilation moved. What goes wrong in a run is none. -/
def RunError.translate (v : Position) : RunError → RunError
  | scan e => scan (e.translate v)
  | parse e => parse (e.translate v)
  | eval e => eval e

/-! ### Compiling a moved program -/

namespace Likeness

/-- Every position corresponds to the one a vector further. -/
def moved (v : Position) : Likeness where
  pos p p' := p' = p + v
  known _ := True

theorem moved_grids (g : Grid) (v : Position) : (moved v).Grids g (g.translate v) where
  known _ := trivial
  cell := by
    rintro p _ rfl
    exact g.cell?_translate v p
  size := g.size_translate v
  eq_iff := by
    rintro p _ q _ rfl rfl
    exact Position.add_left_inj p q v
  sub_eq := by
    rintro p _ q _ rfl rfl
    exact Position.add_sub_add_right p q v
  add := by
    rintro p _ rfl w
    exact Position.add_right_comm p v w

end Likeness

section Moved

variable {v : Position}

theorem Likeness.Token.eq_translate {t t' : CellScript.Token} (h : (moved v).Token t t') :
    t' = t.translate v := by
  obtain ⟨kind', pos'⟩ := t'
  obtain ⟨_, hkind, hpos⟩ := h
  simp only [CellScript.Token.translate, CellScript.Token.mk.injEq]
  exact ⟨hkind, hpos⟩

theorem Likeness.Tokens.eq_translate {ts ts' : List CellScript.Token}
    (h : (moved v).Tokens ts ts') : ts' = ts.map fun t => t.translate v := by
  induction h with
  | nil => rfl
  | cons ht _ ih => rw [ht.eq_translate, ih, List.map_cons]

theorem ScanError.Alike.eq_translate {g : Grid} {e e' : ScanError} (h : e.Alike (.moved v) g e') :
    e' = e.translate v := by
  cases h with
  | malformedRedirector hp =>
      obtain rfl := hp
      rfl
  | redirectCycle hp =>
      obtain rfl := hp
      rfl
  | depthExceeded hp =>
      obtain rfl := hp
      rfl

theorem ParseError.Alike.eq_translate {e e' : ParseError} (h : e.Alike (.moved v) e') :
    e' = e.translate v := by
  cases h with
  | endBeforeStatement => rfl
  | endBeforeValue => rfl
  | endBeforeKind => rfl
  | _ ht =>
      obtain rfl := ht.eq_translate
      rfl

theorem Expr.Alike.eq_translate {e e' : Expr} (h : e.Alike (.moved v) e') :
    e' = e.translate v := by
  induction h with
  | literal ht hbits => rw [translate, ht.eq_translate, hbits.eq_translate]
  | var ht hchain => rw [translate, ht.eq_translate, hchain.eq_translate]
  | constant ht => rw [translate, ht.eq_translate]
  | unary ht _ ih => rw [translate, ht.eq_translate, ih]
  | binary ht _ _ ihleft ihright => rw [translate, ht.eq_translate, ihleft, ihright]

mutual

theorem Stmt.Alike.eq_translate {stmt stmt' : Stmt} (h : stmt.Alike (.moved v) stmt') :
    stmt' = stmt.translate v := by
  cases h with
  | assign ht hchain hvalue =>
      rw [translate, ht.eq_translate, Likeness.Tokens.eq_translate hchain, hvalue.eq_translate]
  | command ht => rw [translate, ht.eq_translate]
  | stop ht => rw [translate, ht.eq_translate]
  | breakLoop ht => rw [translate, ht.eq_translate]
  | continueLoop ht => rw [translate, ht.eq_translate]
  | print ht hvalue => rw [translate, ht.eq_translate, hvalue.eq_translate]
  | goto ht htarget => rw [translate, ht.eq_translate, htarget.eq_translate]
  | place ht hx hy hz hp =>
      obtain rfl := hp
      rw [translate, ht.eq_translate, hx.eq_translate, hy.eq_translate, hz.eq_translate]
  | ifElse ht hcondition hyes hno =>
      rw [translate, ht.eq_translate, hcondition.eq_translate, AllAlike.eq_translate hyes,
        ElseAlike.eq_translate hno]
  | whileLoop ht hcondition hbody =>
      rw [translate, ht.eq_translate, hcondition.eq_translate, AllAlike.eq_translate hbody]
  | forLoop ht hinit hcondition hincrement hbody =>
      rw [translate, ht.eq_translate, Alike.eq_translate hinit, hcondition.eq_translate,
        Alike.eq_translate hincrement, AllAlike.eq_translate hbody]

theorem Stmt.AllAlike.eq_translate {stmts stmts' : List Stmt}
    (h : Stmt.AllAlike (.moved v) stmts stmts') : stmts' = Stmt.translateAll v stmts := by
  cases h with
  | nil => rw [translateAll]
  | cons hfirst hrest => rw [translateAll, Alike.eq_translate hfirst, AllAlike.eq_translate hrest]

theorem Stmt.ElseAlike.eq_translate {no no' : Option (List Stmt)}
    (h : Stmt.ElseAlike (.moved v) no no') : no' = Stmt.translateElse v no := by
  cases h with
  | none => rw [translateElse]
  | some hblock => rw [translateElse, AllAlike.eq_translate hblock]

end

theorem RunError.Alike.eq_translate {g : Grid} {e e' : RunError} (h : e.Alike (.moved v) g e') :
    e' = e.translate v := by
  cases h with
  | scan he => rw [translate, he.eq_translate]
  | parse he => rw [translate, he.eq_translate]

theorem Program.Alike.eq_translate {p p' : Program} (h : p.Alike (.moved v) p') :
    p' = p.translate v := by
  obtain ⟨body'⟩ := p'
  rw [translate, ← Stmt.AllAlike.eq_translate h]

end Moved

/-- The program that starts a vector further in a grid moved by that vector is the program moved,
with the vector added to every position in it. Where there is no program the error is moved, and it
is one of reading the cells or the tokens. -/
theorem compile_translate (c : RunConfig) (g : Grid) (p v : Position) (d : Direction) :
    compile c (g.translate v) (p + v) d =
        ((compile c g p d).map fun program => program.translate v).mapError (RunError.translate v) ∧
      ∀ e, compile c g p d ≠ .error (.eval e) := by
  have halike : Agree (RunError.Alike (.moved v) g) (Program.Alike (.moved v)) (compile c g p d)
      (compile c (g.translate v) (p + v) d) :=
    compile_alike (Likeness.moved_grids g v) c rfl d
  generalize compile c g p d = result at halike ⊢
  generalize compile c (g.translate v) (p + v) d = result' at halike ⊢
  cases halike with
  | ok hprogram =>
      rw [hprogram.eq_translate]
      refine ⟨rfl, ?_⟩
      rintro _ ⟨⟩
  | error he =>
      rw [he.eq_translate]
      refine ⟨rfl, ?_⟩
      rintro _ ⟨⟩
      cases he

end CellScript
