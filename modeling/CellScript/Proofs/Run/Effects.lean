/-
Module: CellScript.Proofs.Run.Effects
Purpose: The world that effects make of another one: its record, its host and its grid.
Main exports: Grid.writeAll, Grid.symbolAt_writeAll, Grid.cell?_writeAll,
  Host.answer_ofHooks_eq_ok_iff, Host.bind_ofHooks, World.act, World.after, World.onGrid, Handler,
  Handler.execute_of_host, Handler.state_after
-/
import CellScript.Run.World

namespace CellScript

open Std

/-!
### Writes to a grid

A write leaves a symbol without facing, or nothing if the symbol is air, and all other cells as they
are. Of several writes to a position the last one counts.
-/

namespace Grid

variable (g : Grid)

/-- The grid after writes, in the order of the list. -/
def writeAll (writes : List (Position × Symbol)) : Grid :=
  writes.foldl (fun g w => g.write w.1 w.2) g

theorem cell?_write (p q : Position) (s : Symbol) :
    (g.write p s).cell? q =
      if p = q then (if s.isAir then none else some { symbol := s }) else g.cell? q := by
  unfold write cell?
  split
  · simp only [remove, TreeMap.getElem?_erase, LawfulEqCmp.compare_eq_iff_eq]
  · simp only [place, insert, TreeMap.getElem?_insert, LawfulEqCmp.compare_eq_iff_eq]

theorem symbolAt_write (p : Position) (s : Symbol) : (g.write p s).symbolAt p = s := by
  rw [symbolAt, cell?_write, if_pos rfl]
  by_cases hair : s.isAir
  · simp only [hair, if_true]
    exact (eq_of_beq hair).symm
  · simp only [hair, if_false, Bool.false_eq_true]

theorem facingAt_write (p : Position) (s : Symbol) : (g.write p s).facingAt p = none := by
  rw [facingAt, cell?_write, if_pos rfl]
  split <;> rfl

/-- A position to which nothing is written keeps its cell. -/
theorem cell?_writeAll {p : Position} {writes : List (Position × Symbol)}
    (h : ∀ w ∈ writes, w.1 ≠ p) : (g.writeAll writes).cell? p = g.cell? p := by
  induction writes generalizing g with
  | nil => rfl
  | cons w writes ih =>
      obtain ⟨hfirst, hrest⟩ := List.forall_mem_cons.1 h
      calc ((g.write w.1 w.2).writeAll writes).cell? p
          = (g.write w.1 w.2).cell? p := ih _ hrest
        _ = g.cell? p := by rw [cell?_write, if_neg hfirst]

variable {first last : List (Position × Symbol)} {p : Position}

/-- What a position holds is what the last write to it left. -/
theorem cell?_writeAll_of_last (h : ∀ w ∈ last, w.1 ≠ p) (s : Symbol) :
    (g.writeAll (first ++ (p, s) :: last)).cell? p = ((g.writeAll first).write p s).cell? p := by
  rw [writeAll, List.foldl_append]
  exact cell?_writeAll _ h

theorem symbolAt_writeAll (h : ∀ w ∈ last, w.1 ≠ p) (s : Symbol) :
    (g.writeAll (first ++ (p, s) :: last)).symbolAt p = s := by
  rw [symbolAt, cell?_writeAll_of_last g h]
  exact symbolAt_write _ p s

theorem facingAt_writeAll (h : ∀ w ∈ last, w.1 ≠ p) (s : Symbol) :
    (g.writeAll (first ++ (p, s) :: last)).facingAt p = none := by
  rw [facingAt, cell?_writeAll_of_last g h]
  exact facingAt_write _ p s

end Grid

/-! ### Hosts that go by hooks -/

namespace Host

/-- A command runs just where a hook that succeeds is bound. -/
theorem answer_ofHooks_eq_ok_iff {hooks : TreeMap Position Hook} {effects : List Effect}
    {pos : Position} :
    (ofHooks hooks).answer effects pos = .ok () ↔ hooks[pos]? = some .succeeds := by
  simp only [ofHooks]
  rcases hooks[pos]? with _ | _ | message <;> simp [Hook.answer]

/-- A hook that is bound to a cell takes the place of the one there. -/
theorem bind_ofHooks (hooks : TreeMap Position Hook) (cell : Position) (hook : Hook) :
    (ofHooks hooks).bind cell hook = ofHooks (hooks.insert cell hook) := by
  refine congrArg Host.mk (funext fun _ => funext fun pos => ?_)
  rw [TreeMap.getElem?_insert]
  simp only [LawfulEqCmp.compare_eq_iff_eq, eq_comm (a := pos)]
  split <;> rfl

end Host

/-! ### Worlds after effects -/

namespace World

/-- The world after an effect. -/
def act (w : World) : Effect → World
  | .emitted text => w.emit text
  | .executed pos => { w with effects := .executed pos :: w.effects }
  | .wrote pos symbol => w.write pos symbol

/-- The world after effects, in the order of the list. -/
def after (w : World) (effects : List Effect) : World :=
  effects.foldl act w

theorem after_append (w : World) (first second : List Effect) :
    w.after (first ++ second) = (w.after first).after second :=
  List.foldl_append

theorem trace_act (w : World) (effect : Effect) : (w.act effect).trace = w.trace ++ [effect] := by
  cases effect <;> exact List.reverse_cons

/-- The effects of one kind, after one effect more. -/
theorem filterMap_trace_act {β : Type} (kind : Effect → Option β) (w : World) (effect : Effect) :
    (w.act effect).trace.filterMap kind = w.trace.filterMap kind ++ (kind effect).toList := by
  rw [trace_act, List.filterMap_append]
  rcases hkind : kind effect with _ | b <;> simp [hkind]

@[simp] theorem trace_after (w : World) (effects : List Effect) :
    (w.after effects).trace = w.trace ++ effects := by
  induction effects generalizing w with
  | nil => exact (List.append_nil _).symm
  | cons effect effects ih =>
      rw [after, List.foldl_cons, ← after, ih, trace_act, List.append_assoc, List.singleton_append]

theorem act_of_execute {w w' : World} {pos : Position} (h : w.execute pos = .ok w') :
    w' = w.act (.executed pos) := by
  unfold execute at h
  split at h
  · cases h
  · exact (Except.ok.inj h).symm

@[simp] theorem effects_after (w : World) (effects : List Effect) :
    (w.after effects).effects = effects.reverse ++ w.effects := by
  have htrace := congrArg List.reverse (w.trace_after effects)
  rwa [trace, List.reverse_reverse, List.reverse_append, trace, List.reverse_reverse] at htrace

@[simp] theorem host_after (w : World) (effects : List Effect) :
    (w.after effects).host = w.host := by
  induction effects generalizing w with
  | nil => rfl
  | cons effect effects ih =>
      rw [after, List.foldl_cons, ← after, ih]
      cases effect <;> rfl

/-- Of all effects only the writes are seen in the grid. -/
theorem grid_after (w : World) (effects : List Effect) :
    (w.after effects).grid = w.grid.writeAll (effects.filterMap Effect.write?) := by
  induction effects generalizing w with
  | nil => rfl
  | cons effect effects ih =>
      rw [after, List.foldl_cons, ← after, ih]
      cases effect <;> rfl

/-- The same world on another grid. -/
def onGrid (w : World) (g : Grid) : World :=
  { w with grid := g }

end World

/-!
### Hosts with a state

A host may have a state that every command and every text changes. As the effects tell all commands
and texts, they tell the state and with it the answers.
-/

/-- How commands and texts change the state of a host. -/
structure Handler (σ : Type) where
  execute : σ → Position → Except HookError Unit × σ
  emit : σ → String → σ

namespace Handler

variable {σ : Type} (h : Handler σ) (start : σ)

/-- The state after an effect. Writes do not go through the host. -/
def act (state : σ) : Effect → σ
  | .emitted text => h.emit state text
  | .executed pos => (h.execute state pos).2
  | .wrote _ _ => state

/-- The state to which effects have led, the newest first. -/
def state (effects : List Effect) : σ :=
  effects.foldr (fun effect state => h.act state effect) start

/-- The host that answers from its state. -/
def host : Host where
  answer effects pos := (h.execute (h.state start effects) pos).1

/-- A command is answered from the state, and if it runs it leaves the state that it makes. -/
theorem execute_of_host {w : World} (hw : w.host = h.host start) {pos : Position}
    {answer : Except HookError Unit} {state : σ}
    (hexecute : h.execute (h.state start w.effects) pos = (answer, state)) :
    w.execute pos = answer.map (fun _ => w.act (.executed pos)) ∧
      h.state start (w.act (.executed pos)).effects = state := by
  have hanswer : w.host.answer w.effects pos = answer := by
    rw [hw]
    exact congrArg Prod.fst hexecute
  refine ⟨?_, congrArg Prod.snd hexecute⟩
  rw [World.execute, hanswer]
  cases answer <;> rfl

/-- The state follows the effects in their order. -/
theorem state_after (w : World) (effects : List Effect) :
    h.state start (w.after effects).effects = effects.foldl h.act (h.state start w.effects) := by
  rw [World.effects_after, state, List.foldr_append, List.foldr_reverse, ← state]

end Handler

/-- A host that goes by hooks has them as its state, which nothing changes. -/
theorem Host.ofHooks_eq_host (hooks : TreeMap Position Hook) :
    ofHooks hooks = Handler.host ⟨fun hooks pos => ((ofHooks hooks).answer [] pos, hooks),
      fun hooks _ => hooks⟩ hooks := by
  refine congrArg Host.mk (funext fun effects => ?_)
  induction effects with
  | nil => rfl
  | cons effect effects ih => cases effect <;> exact ih

end CellScript
