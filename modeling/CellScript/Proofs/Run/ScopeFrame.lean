/-
Module: CellScript.Proofs.Run.ScopeFrame
Purpose: Statements leave the blocks that they enter, on every way out. What they change in the
  variables is at most the current block, and only an assignment changes that. No block has two
  variables with one index, so an assignment changes one variable.
Main exports: Scopes.Settled, Scopes.outer, Scopes.Kept, Scopes.Distinct,
  Scopes.Distinct.bindings_assign, Machine.law_keepsScopes, Machine.law_distinct,
  Stmt.restoresScopes_exec, Program.restoresScopes_run, scopes_restored
-/
import CellScript.Proofs.Run.Law
import CellScript.Proofs.ScopeStack

namespace CellScript

namespace Scopes

/-! ### Variables around the current block -/

/-- No variable belongs to a block deeper than the current one. -/
def Settled (s : Scopes) : Prop :=
  ∀ b ∈ s.bindings, b.depth ≤ s.depth

/-- The variables of the blocks around the current one. -/
def outer (s : Scopes) : List Binding :=
  s.bindings.filter fun b => b.depth < s.depth

/-- Later in the same block: the variables around it are the same. -/
structure Kept (s s' : Scopes) : Prop where
  depth_eq : s'.depth = s.depth
  outer_eq : s'.outer = s.outer
  settled : s'.Settled

variable {s s' : Scopes}

theorem Settled.kept (h : s.Settled) : Kept s s :=
  ⟨rfl, rfl, h⟩

theorem Kept.trans {s'' : Scopes} (h : Kept s s') (h' : Kept s' s'') : Kept s s'' :=
  ⟨h'.depth_eq.trans h.depth_eq, h'.outer_eq.trans h.outer_eq, h'.settled⟩

/-- In a new block every variable is one of those around it. -/
theorem Settled.outer_enter (h : s.Settled) : s.enter.outer = s.bindings := by
  apply List.filter_eq_self.2
  intro b hb
  exact decide_eq_true (Nat.lt_succ_of_le (h b hb))

theorem Settled.enter (h : s.Settled) : s.enter.Settled := by
  intro b hb
  exact Nat.le_succ_of_le (h b hb)

theorem settled_exit (s : Scopes) (depth : Nat) : (s.exit depth).Settled := by
  intro b hb
  exact of_decide_eq_true (List.mem_filter.1 hb).2

/-- Leaving a block gives back what was there before it was entered. -/
theorem Kept.exit_eq (h : Kept s.enter s') (hs : s.Settled) : s'.exit s.depth = s := by
  have hdepth : s'.depth = s.depth + 1 := h.depth_eq
  have hbindings : s'.bindings.filter (fun b => b.depth ≤ s.depth) = s.bindings := by
    rw [← hs.outer_enter, ← h.outer_eq, outer, hdepth]
    simp only [Nat.lt_succ_iff]
  rw [exit, hbindings]

/-- A variable of the current block is changed where it stands. -/
theorem outer_map (s : Scopes) (index : Nat) (value : Value) :
    (s.bindings.map fun b => if s.owns index b then { b with value } else b).filter
      (fun b => b.depth < s.depth) = s.outer := by
  have hdepth : ((fun b : Binding => decide (b.depth < s.depth)) ∘
      fun b => if s.owns index b then { b with value } else b) =
      fun b => decide (b.depth < s.depth) := by
    funext b
    simp only [Function.comp]
    split <;> rfl
  have hsame : ∀ b ∈ s.outer, (if s.owns index b then { b with value } else b) = id b := by
    intro b hb
    have hlt : b.depth < s.depth := of_decide_eq_true (List.mem_filter.1 hb).2
    have hother : s.owns index b = false := by
      rw [owns, beq_eq_false_iff_ne.2 (Nat.ne_of_lt hlt), Bool.and_false]
    rw [hother]
    rfl
  rw [List.filter_map, hdepth]
  exact (List.map_congr_left hsame).trans (List.map_id _)

/-- An assignment is in the current block. -/
theorem Settled.kept_assign (h : s.Settled) (index : Nat) (value : Value) :
    Kept s (s.assign index value) := by
  unfold assign
  split
  · refine ⟨rfl, outer_map s index value, ?_⟩
    intro b hb
    obtain ⟨a, ha, rfl⟩ := List.mem_map.1 hb
    split
    · exact h a ha
    · exact h a ha
  · refine ⟨rfl, ?_, ?_⟩
    · exact List.filter_cons_of_neg (by simp)
    · intro b hb
      rcases List.mem_cons.1 hb with rfl | hb
      · exact Nat.le_refl _
      · exact h b hb

/-! ### Variables that operations have made -/

/-- The variables after operations on new ones. -/
def after (ops : List ScopeOp) : Scopes :=
  ops.foldl (fun s op => (s.step op).2) {}

theorem Settled.step (h : s.Settled) (op : ScopeOp) : (s.step op).2.Settled := by
  cases op with
  | enter => exact h.enter
  | exit depth => exact settled_exit s depth
  | assign index value => exact (h.kept_assign index value).settled
  | get index => exact h

/-- What holds of new variables and is kept by each operation holds after all of them. -/
theorem after_induction {P : Scopes → Prop} (hnew : P {})
    (hstep : ∀ s op, P s → P (s.step op).2) (ops : List ScopeOp) : P (after ops) := by
  have hfold : ∀ s : Scopes, P s → P (ops.foldl (fun s op => (s.step op).2) s) := by
    induction ops with
    | nil => exact fun s hs => hs
    | cons op ops ih => exact fun s hs => ih (s.step op).2 (hstep s op hs)
  exact hfold {} hnew

theorem settled_after (ops : List ScopeOp) : (after ops).Settled := by
  refine after_induction ?_ (fun s op hs => hs.step op) ops
  intro b hb
  cases hb

/-!
### One variable for each index

The index and the depth of a variable never change. An assignment makes a variable only where the
block has none with the index, and a block that is left takes its variables with it.
-/

end Scopes

/-- What tells a variable from the others. -/
def Binding.key (b : Binding) : Nat × Nat :=
  (b.index, b.depth)

namespace Scopes

/-- No block has two variables with one index. -/
def Distinct (s : Scopes) : Prop :=
  (s.bindings.map Binding.key).Nodup

variable {s : Scopes}

theorem owns_iff (s : Scopes) (index : Nat) (b : Binding) :
    s.owns index b = true ↔ b.key = (index, s.depth) := by
  simp [owns, Binding.key]

theorem Distinct.exit (h : s.Distinct) (depth : Nat) : (s.exit depth).Distinct :=
  h.sublist (List.filter_sublist.map Binding.key)

theorem Distinct.assign (h : s.Distinct) (index : Nat) (value : Value) :
    (s.assign index value).Distinct := by
  unfold Scopes.assign
  split
  · have hkey : (Binding.key ∘ fun b => if s.owns index b then { b with value } else b) =
        Binding.key := by
      funext b
      simp only [Function.comp]
      split <;> rfl
    rw [Distinct, List.map_map, hkey]
    exact h
  · next hnone =>
    refine List.nodup_cons.2 ⟨?_, h⟩
    intro hmem
    obtain ⟨b, hb, hkey⟩ := List.mem_map.1 hmem
    exact hnone (List.any_eq_true.2 ⟨b, hb, (s.owns_iff index b).2 hkey⟩)

theorem distinct_after (ops : List ScopeOp) : (after ops).Distinct := by
  refine after_induction List.nodup_nil (fun s op hs => ?_) ops
  cases op with
  | enter => exact hs
  | exit depth => exact hs.exit depth
  | assign index value => exact hs.assign index value
  | get index => exact hs

/-- An assignment to a variable that the block has changes that variable and no other. -/
theorem Distinct.bindings_assign (h : s.Distinct) {index : Nat} {before later : List Binding}
    {b : Binding} (hs : s.bindings = before ++ b :: later) (hb : s.owns index b = true)
    (value : Value) : (s.assign index value).bindings = before ++ { b with value } :: later := by
  have hany : s.bindings.any (s.owns index) = true :=
    List.any_eq_true.2 ⟨b, by simp [hs], hb⟩
  rw [Distinct, hs, List.map_append, List.map_cons, List.nodup_append] at h
  obtain ⟨-, hlater, hbefore⟩ := h
  -- another variable that the block owns would have the key of this one
  have hkeep : ∀ bs : List Binding, (∀ a ∈ bs, a.key ≠ b.key) →
      (bs.map fun a => if s.owns index a then { a with value } else a) = bs := by
    intro bs hbs
    refine (List.map_congr_left fun a ha => ?_).trans (List.map_id bs)
    have hother : ¬s.owns index a = true := fun hown =>
      hbs a ha (((s.owns_iff index a).1 hown).trans ((s.owns_iff index b).1 hb).symm)
    rw [if_neg hother, id]
  have hfirst := hkeep before fun a ha =>
    hbefore _ (List.mem_map_of_mem ha) _ (List.mem_cons_self ..)
  have hlast := hkeep later fun a ha heq =>
    (List.nodup_cons.1 hlater).1 (heq ▸ List.mem_map_of_mem ha)
  rw [Scopes.assign, if_pos hany]
  simp only [hs, List.map_append, List.map_cons, hfirst, hlast, if_pos hb]

end Scopes

/-!
### Statements

That the variables around the current block are kept is a law. A block restores all variables, for
those around what it runs are those that were there before. So does every statement that does not
assign in the current block itself.
-/

namespace Machine

/-- The variables around the current block are kept. -/
def KeepsScopes (m m' : Machine) : Prop :=
  m.scopes.Settled → m.scopes.Kept m'.scopes

/-- All variables are as before. -/
def RestoresScopes (m m' : Machine) : Prop :=
  m.scopes.Settled → m'.scopes = m.scopes

theorem effects_restoresScopes : Effects RestoresScopes where
  refl _ _ := rfl
  trans h₁ h₂ hm := (h₂ (h₁ hm ▸ hm)).trans (h₁ hm)
  gas _ _ _ := rfl
  emit _ _ _ := rfl
  execute _ _ _ _ _ := rfl
  write _ _ _ _ := rfl

/-- A block restores the variables if what it runs keeps those around it. -/
theorem KeepsScopes.leave {m m' : Machine} (h : KeepsScopes m.enter m') :
    RestoresScopes m { m' with scopes := m'.scopes.exit m.scopes.depth } := by
  intro hm
  exact (h hm.enter).exit_eq hm

theorem law_keepsScopes : Law KeepsScopes where
  refl _ hm := hm.kept
  trans h₁ h₂ hm := (h₁ hm).trans (h₂ (h₁ hm).settled)
  gas _ _ hm := hm.kept
  assign _ index v hm := hm.kept_assign index v
  emit _ _ hm := hm.kept
  execute _ _ _ _ hm := hm.kept
  write _ _ _ hm := hm.kept
  block h hm := by
    rw [KeepsScopes.leave h hm]
    exact hm.kept

/-- No statement gives a block two variables with one index. -/
theorem law_distinct : Law fun m m' => m.scopes.Distinct → m'.scopes.Distinct where
  refl _ hm := hm
  trans h₁ h₂ hm := h₂ (h₁ hm)
  gas _ _ hm := hm
  assign _ index v hm := hm.assign index v
  emit _ _ hm := hm
  execute _ _ _ _ hm := hm
  write _ _ _ hm := hm
  block h hm := (h hm).exit _

theorem restoresScopes_inBlock {α : Type} {f : Machine → Outcome α} (hf : Moves KeepsScopes f) :
    Moves RestoresScopes fun m => m.inBlock f := by
  intro m
  exact KeepsScopes.leave (hf m.enter)

end Machine

theorem Stmt.restoresScopes_exec (s : Settings) {stmt : Stmt} (hstmt : stmt.isAssign = false) :
    Machine.Moves Machine.RestoresScopes (stmt.exec s) := by
  apply Machine.effects_restoresScopes.exec_of_blocks hstmt
  intro f hf
  exact Machine.restoresScopes_inBlock (Machine.law_keepsScopes.blocks s stmt f hf)

theorem Program.restoresScopes_run (s : Settings) (program : Program) :
    Machine.Moves Machine.RestoresScopes (program.run s) :=
  Machine.restoresScopes_inBlock (Machine.law_keepsScopes.root s program)

/-- A statement ends in the block in which it started, be it with a signal or an error, and the
variables of the blocks around are as they were; if it is no assignment, all variables are. A
program leaves all variables as they were. This asks that no variable belongs to a deeper block than
the current one, which statements preserve, and which holds of all variables that operations on new
ones have made. -/
theorem scopes_restored (s : Settings) :
    (∀ (m : Machine) (stmt : Stmt), m.scopes.Settled →
        (stmt.exec s m).2.scopes.depth = m.scopes.depth ∧
        (stmt.exec s m).2.scopes.outer = m.scopes.outer ∧
        (stmt.exec s m).2.scopes.Settled ∧
        (stmt.isAssign = false → (stmt.exec s m).2.scopes = m.scopes)) ∧
      (∀ (m : Machine) (program : Program), m.scopes.Settled →
        (program.run s m).2.scopes = m.scopes) ∧
      ∀ ops : List ScopeOp, (Scopes.after ops).Settled := by
  refine ⟨fun m stmt hm => ?_, fun m program hm => program.restoresScopes_run s m hm,
    Scopes.settled_after⟩
  obtain ⟨hdepth, houter, hsettled⟩ := Machine.law_keepsScopes.exec s stmt m hm
  exact ⟨hdepth, houter, hsettled, fun hstmt => Stmt.restoresScopes_exec s hstmt m hm⟩

/-- A loop that assigns to a variable before its rounds and in them. -/
def shadowInLoop : Stmt :=
  let origin : Position := ⟨0, 0, 0⟩
  let one : Expr := .literal .int ⟨.int, origin⟩ [⟨.one, origin⟩]
  let yes : Expr := .literal .bool ⟨.bool, origin⟩ [⟨.one, origin⟩]
  let set : Stmt := .assign .int ⟨.int, origin⟩ [] one
  .forLoop ⟨.forLoop, origin⟩ set yes set [set, set]

/-- It runs out of gas in its block, and the variable of the block around has its value. -/
theorem scopes_restored_shadowInLoop :
    (shadowInLoop.exec { gasLimit := 7 }
        { scopes := Scopes.after [.enter, .assign 0 (.int 7)] }).1 =
        .error (.gasExhausted 7) ∧
      (shadowInLoop.exec { gasLimit := 7 }
        { scopes := Scopes.after [.enter, .assign 0 (.int 7)] }).2.scopes.get? 0 =
        some (.int 7) := by
  obtain ⟨hstmt, _, hsettled⟩ := scopes_restored { gasLimit := 7 }
  have hscopes := (hstmt { scopes := Scopes.after [.enter, .assign 0 (.int 7)] } shadowInLoop
    (hsettled _)).2.2.2 rfl
  refine ⟨by rfl, ?_⟩
  rw [hscopes]
  rfl

end CellScript
