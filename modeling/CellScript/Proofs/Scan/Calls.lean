/-
Module: CellScript.Proofs.Scan.Calls
Purpose: Every call of a walk comes to an end by itself, and so does the walk. Each move that does
  not halt it leaves fewer stored headings at which it has not been.
Main exports: Walk.left, Walk.Calls, Walk.calls_iff, Walk.Calls.outcome, Walk.exists_yields
-/
import CellScript.Proofs.Scan.CycleGuard
import CellScript.Proofs.Scan.Likeness

namespace CellScript

open Std

/-- A walk reads the kind that its cell stands for. -/
theorem Heading.meaning_of_look {g : Grid} {h next : Heading} {step : Step}
    (hlook : h.look g = .token step next) :
    (g.symbolAt step.token.pos).meaning = .token step.token.kind := by
  rw [look] at hlook
  split at hlook
  · next kind hkind =>
      cases hlook
      exact hkind
  · split at hlook <;> cases hlook
  · cases hlook

namespace Walk

variable {g : Grid} {w w' : Walk} {r : Option (Except ScanError Step)}

/-!
### What is left to look at

A walk in any state, also one that no walk comes to from its start: what it has looked at may be any
set of headings.
-/

/-- The number of stored headings at which a walk has not looked. -/
def left (g : Grid) (w : Walk) : Nat :=
  ((Heading.stored g).filter fun h => !w.visited.contains h).length

theorem left_le (g : Grid) (w : Walk) : w.left g ≤ 6 * g.size := by
  rw [← Heading.length_stored]
  exact List.length_filter_le _ _

/-- Looking at one more heading leaves fewer. -/
theorem left_lt_of_visited (hstored : w.here ∈ Heading.stored g)
    (hfresh : w.visited.contains w.here = false)
    (hvisited : w'.visited = w.visited.insert w.here) : w'.left g < w.left g := by
  have hseen : ∀ h, w'.visited.contains h = (w.here == h || w.visited.contains h) := by
    intro h
    rw [hvisited, TreeSet.contains_insert, Bool.eq_iff_iff]
    simp
  have hfilter : ((Heading.stored g).filter fun h => !w'.visited.contains h) =
      ((Heading.stored g).filter fun h => !w.visited.contains h).filter fun h => w.here != h := by
    rw [List.filter_filter]
    congr 1
    funext h
    rw [hseen, Bool.not_or]
    rfl
  rw [left, left, hfilter, List.length_filter_lt_length_iff_exists]
  exact ⟨w.here, List.mem_filter.2 ⟨hstored, by simp [hfresh]⟩, by simp⟩

/-- A move halts the walk, or it leads on from a stored heading that is new to it. -/
theorem move_cases (g : Grid) (w : Walk) :
    (∃ fault w', w.move g = (.halt fault, w') ∧ w'.finished = true) ∨
      ∃ w', w'.left g < w.left g ∧
        ((∃ step, w.move g = (.emit step, w') ∧
            (g.symbolAt step.token.pos).meaning = .token step.token.kind) ∨
          w.move g = (.turn, w')) := by
  by_cases hfinished : w.finished = true
  · exact .inl ⟨none, w, by simp [move, hfinished], hfinished⟩
  have hopen : w.finished = false := eq_false_of_ne_true hfinished
  by_cases hagain : w.visited.contains w.here = true
  · exact .inl ⟨some (.redirectCycle w.here.pos w.here.dir), { w with finished := true },
      by simp [move, hopen, hagain], rfl⟩
  have hfresh : w.visited.contains w.here = false := eq_false_of_ne_true hagain
  have hmove := move_of_fresh (g := g) hopen hfresh
  have hleft : ∀ next, (w.here.look g).next? = some next →
      left g { w.seen with here := next } < w.left g := by
    intro next hnext
    exact left_lt_of_visited (Heading.mem_stored_of_look hnext) hfresh rfl
  cases hlook : w.here.look g with
  | token step next =>
      rw [hlook] at hmove
      refine .inr ⟨_, hleft next (by rw [hlook]; rfl), .inl ⟨step, hmove, ?_⟩⟩
      exact Heading.meaning_of_look hlook
  | turn next =>
      rw [hlook] at hmove
      exact .inr ⟨_, hleft next (by rw [hlook]; rfl), .inr hmove⟩
  | unknown =>
      rw [hlook] at hmove
      exact .inl ⟨_, _, hmove, rfl⟩
  | malformed =>
      rw [hlook] at hmove
      exact .inl ⟨_, _, hmove, rfl⟩

theorem emit_spec {step : Step} (h : w.move g = (.emit step, w')) :
    w'.left g < w.left g ∧ (g.symbolAt step.token.pos).meaning = .token step.token.kind := by
  rcases move_cases g w with ⟨_, _, hmove, -⟩ | ⟨_, hleft, ⟨_, hmove, hmeaning⟩ | hmove⟩
  · cases h.symm.trans hmove
  · cases h.symm.trans hmove
    exact ⟨hleft, hmeaning⟩
  · cases h.symm.trans hmove

theorem left_lt_of_turn (h : w.move g = (.turn, w')) : w'.left g < w.left g := by
  rcases move_cases g w with ⟨_, _, hmove, -⟩ | ⟨_, hleft, ⟨_, hmove, -⟩ | hmove⟩
  · cases h.symm.trans hmove
  · cases h.symm.trans hmove
  · cases h.symm.trans hmove
    exact hleft

theorem finished_of_halt {fault : Option ScanError} (h : w.move g = (.halt fault, w')) :
    w'.finished = true := by
  rcases move_cases g w with ⟨_, _, hmove, hfinished⟩ | ⟨_, -, ⟨_, hmove, -⟩ | hmove⟩
  · cases h.symm.trans hmove
    exact hfinished
  · cases h.symm.trans hmove
  · cases h.symm.trans hmove

/-!
### Calls

The rules for a call bound no number of cells: what has an answer by these rules comes to an end by
itself.
-/

/-- A call of a walk: its answer, and the walk after it. -/
inductive Calls (g : Grid) : Walk → Option (Except ScanError Step) → Walk → Prop where
  | emits {w step w'} (hmove : w.move g = (.emit step, w')) : Calls g w (some (.ok step)) w'
  | turns {w w' r w''} (hmove : w.move g = (.turn, w')) (hcall : Calls g w' r w'') :
      Calls g w r w''
  | halts {w fault w'} (hmove : w.move g = (.halt fault, w')) : Calls g w (fault.map .error) w'

theorem calls_nextWithin {fuel : Nat} (hfuel : w.left g < fuel) :
    Calls g w (w.nextWithin g fuel).1 (w.nextWithin g fuel).2 := by
  induction fuel generalizing w with
  | zero => exact absurd hfuel (Nat.not_lt_zero _)
  | succ fuel ih =>
      rw [nextWithin]
      rcases move_cases g w with ⟨fault, w', hmove, -⟩ | ⟨w', hleft, ⟨step, hmove, -⟩ | hmove⟩
      · rw [hmove]
        cases fault with
        | none => exact Calls.halts hmove
        | some e => exact Calls.halts hmove
      · rw [hmove]
        exact .emits hmove
      · rw [hmove]
        exact .turns hmove (ih (by omega))

theorem Calls.nextWithin_eq (h : Calls g w r w') {fuel : Nat} (hfuel : w.left g < fuel) :
    w.nextWithin g fuel = (r, w') := by
  obtain ⟨fuel, rfl⟩ := Nat.exists_eq_succ_of_ne_zero (Nat.ne_zero_of_lt hfuel)
  induction h generalizing fuel with
  | emits hmove => rw [nextWithin, hmove]
  | @halts _ fault _ hmove =>
      rw [nextWithin, hmove]
      cases fault <;> rfl
  | turns hmove hcall ih =>
      have hleft := left_lt_of_turn hmove
      obtain ⟨fuel, rfl⟩ := Nat.exists_eq_succ_of_ne_zero (Nat.ne_zero_of_lt (by omega : 0 < fuel))
      rw [nextWithin, hmove]
      exact ih fuel (by omega)

/-- A call has exactly one answer by the rules, and it is the one that is computed. -/
theorem calls_iff : Calls g w r w' ↔ w.next g = (r, w') := by
  have hfuel : w.left g < reach g := by
    have hleft := w.left_le g
    rw [reach]
    omega
  constructor
  · intro h
    exact h.nextWithin_eq hfuel
  · intro h
    have hcall := calls_nextWithin hfuel
    rwa [← next, h] at hcall

/-- What a call leads to. A token was read from its cell, and fewer headings are left. Without a
token the walk is finished. -/
theorem Calls.outcome (h : Calls g w r w') :
    (∃ step, r = some (.ok step) ∧ w'.left g < w.left g ∧
        (g.symbolAt step.token.pos).meaning = .token step.token.kind) ∨
      ∃ fault : Option ScanError, r = fault.map .error ∧ w'.finished = true := by
  induction h with
  | emits hmove =>
      obtain ⟨hleft, hmeaning⟩ := emit_spec hmove
      exact .inl ⟨_, rfl, hleft, hmeaning⟩
  | halts hmove => exact .inr ⟨_, rfl, finished_of_halt hmove⟩
  | turns hmove hcall ih =>
      have hturn := left_lt_of_turn hmove
      rcases ih with ⟨step, hstep, hleft, hmeaning⟩ | hhalt
      · exact .inl ⟨step, hstep, Nat.lt_trans hleft hturn, hmeaning⟩
      · exact .inr hhalt

theorem Calls.token_spec {step : Step} (h : Calls g w (some (.ok step)) w') :
    w'.left g < w.left g ∧ (g.symbolAt step.token.pos).meaning = .token step.token.kind := by
  rcases h.outcome with ⟨_, hstep, hspec⟩ | ⟨fault, hfault, -⟩
  · cases hstep
    exact hspec
  · cases fault <;> cases hfault

theorem Calls.left_lt {step : Step} (h : Calls g w (some (.ok step)) w') :
    w'.left g < w.left g :=
  h.token_spec.1

theorem Calls.kind_eq {step : Step} (h : Calls g w (some (.ok step)) w') :
    (g.symbolAt step.token.pos).kind? = some step.token.kind :=
  Symbol.kind?_of_meaning h.token_spec.2

/-! ### Walks -/

/-- A walk gives no more tokens than it has headings left, and then it ends. -/
theorem exists_yields (g : Grid) (w : Walk) :
    ∃ steps fault, w.Yields g steps fault ∧ steps.length ≤ w.left g := by
  induction hn : w.left g using Nat.strongRecOn generalizing w with
  | ind n ih =>
      have hcall : Calls g w (w.next g).1 (w.next g).2 := calls_iff.2 rfl
      rcases hcall.outcome with ⟨step, hstep, hleft, -⟩ | ⟨fault, hfault, hfinished⟩
      · obtain ⟨steps, fault, hrest, hlength⟩ := ih _ (hn ▸ hleft) (w.next g).2 rfl
        refine ⟨step :: steps, fault, .cons (Prod.ext hstep rfl) hrest, ?_⟩
        rw [List.length_cons]
        omega
      · exact ⟨[], fault, .halt (Prod.ext hfault rfl) hfinished, Nat.zero_le n⟩

/-! What a walk yields, by its next call. -/

namespace Yields

variable {steps : List Step} {fault : Option ScanError} {step : Step}

theorem of_halt (h : w.Yields g steps fault) (last : Option ScanError)
    (hcall : Calls g w (last.map .error) w') : steps = [] ∧ fault = last := by
  rcases hcall.outcome with ⟨step, hstep, -⟩ | ⟨_, -, hfinished⟩
  · cases last <;> cases hstep
  · exact h.unique (.halt (calls_iff.1 hcall) hfinished)

theorem of_token (h : w.Yields g steps fault) (hcall : Calls g w (some (.ok step)) w') :
    ∃ rest, steps = step :: rest ∧ w'.Yields g rest fault := by
  obtain ⟨rest, fault', hrest, -⟩ := exists_yields g w'
  obtain ⟨rfl, rfl⟩ := h.unique (.cons (calls_iff.1 hcall) hrest)
  exact ⟨rest, rfl, hrest⟩

end Yields

end Walk

end CellScript
