/-
Module: CellScript.Proofs.Scan.Course
Purpose: The course of a walk that does not look out for cycles: where it stands after so many
  moves, what it has read by then, and how it comes to an end. A course that comes back to a
  heading never ends, and one that does not is no longer than the grid allows.
Main exports: Sight, Heading.look, Heading.after, Heading.stepsBefore, Heading.NeverEnds,
  Heading.FirstRepeat, Heading.EndsAt, Heading.EndsAt.le
-/
import CellScript.Scan.Walk
import Mathlib.Data.List.Perm.Subperm
import Mathlib.Data.Nat.Find

namespace CellScript

open Std

/-!
### One move

A walk without a guard looks at its cell and goes on by what it sees there, wherever it has been
before.
-/

/-- What a walk sees in the cell that it has come to. -/
inductive Sight where
  | token (step : Step) (next : Heading)
  | turn (next : Heading)
  | unknown
  | malformed
deriving DecidableEq, Repr

namespace Sight

/-- Where the walk goes on, if it does. -/
def next? : Sight → Option Heading
  | token _ next => some next
  | turn next => some next
  | unknown => none
  | malformed => none

/-- What the walk reads. -/
def step? : Sight → Option Step
  | token step _ => some step
  | _ => none

end Sight

namespace Heading

/-- What a walk sees at a heading. It goes straight on from a token, and into the facing of a
redirector. -/
def look (g : Grid) (h : Heading) : Sight :=
  match (g.symbolAt h.pos).meaning with
  | .token kind => .token ⟨⟨kind, h.pos⟩, h.dir⟩ h.ahead
  | .redirector =>
      match g.facingAt h.pos with
      | some facing => .turn (h.turn facing)
      | none => .malformed
  | .unknown => .unknown

/-- A walk goes on from stored cells only. -/
theorem mem_keys_of_look {g : Grid} {h k : Heading} (hnext : (h.look g).next? = some k) :
    h.pos ∈ g.cells.keys := by
  rw [TreeMap.mem_keys, TreeMap.mem_iff_isSome_getElem?]
  rcases hcell : g.cells[h.pos]? with _ | cell
  · have hair : g.symbolAt h.pos = .air := by
      rw [Grid.symbolAt, Grid.cell?, hcell]
    have hmeaning : Symbol.air.meaning = .unknown := by rfl
    simp [look, hair, hmeaning, Sight.next?] at hnext
  · rfl

/-!
### Many moves

The course from a heading is a partial sequence of headings. It is defined up to where the walk
ends.
-/

/-- Where a walk without a guard stands after `n` moves, unless it has ended before. -/
def after (g : Grid) (h : Heading) : Nat → Option Heading
  | 0 => some h
  | n + 1 => (h.after g n).bind fun k => (k.look g).next?

/-- What a walk without a guard reads in its first `n` moves. -/
def stepsBefore (g : Grid) (h : Heading) : Nat → List Step
  | 0 => []
  | n + 1 => h.stepsBefore g n ++ ((h.after g n).bind fun k => (k.look g).step?).toList

/-- A walk without a guard goes on and on. -/
def NeverEnds (g : Grid) (h : Heading) : Prop :=
  ∀ n, ∃ k, h.after g n = some k

/-- After `n` moves a walk without a guard comes, for the first time, to a heading at which it has
been before. -/
structure FirstRepeat (g : Grid) (h : Heading) (n : Nat) (k : Heading) : Prop where
  here : h.after g n = some k
  before : ∃ i < n, h.after g i = some k
  fresh : ∀ i j, i < j → j < n → h.after g i ≠ h.after g j

/-- How a course ends after `n` moves. Coming back to a heading is an end too: what follows is known
from there. -/
inductive EndsAt (g : Grid) (h : Heading) : Nat → Option ScanError → Prop where
  | unknown {n : Nat} {k : Heading} : h.after g n = some k → k.look g = .unknown →
      EndsAt g h n none
  | malformed {n : Nat} {k : Heading} : h.after g n = some k → k.look g = .malformed →
      EndsAt g h n (some (.malformedRedirector k.pos))
  | cycle {n : Nat} {k : Heading} : h.FirstRepeat g n k →
      EndsAt g h n (some (.redirectCycle k.pos k.dir))

variable {g : Grid} {h k : Heading} {n i j : Nat}

theorem after_succ (hn : h.after g n = some k) : h.after g (n + 1) = (k.look g).next? := by
  rw [after, hn, Option.bind_some]

theorem stepsBefore_succ (hn : h.after g n = some k) :
    h.stepsBefore g (n + 1) = h.stepsBefore g n ++ (k.look g).step?.toList := by
  rw [stepsBefore, hn, Option.bind_some]

theorem length_stepsBefore_le (n : Nat) : (h.stepsBefore g n).length ≤ n := by
  induction n with
  | zero => exact Nat.le_refl 0
  | succ n ih =>
      rw [stepsBefore, List.length_append]
      exact Nat.add_le_add ih (Option.length_toList_le)

/-- The course goes on from where it stands as if it started there. -/
theorem after_add (i k : Nat) : h.after g (i + k) = (h.after g i).bind fun x => x.after g k := by
  induction k with
  | zero => cases h.after g i <;> rfl
  | succ k ih =>
      rw [← Nat.add_assoc, after, ih, Option.bind_assoc]
      rfl

theorem after_of_le (hn : h.after g n = some k) (hle : i ≤ n) : ∃ x, h.after g i = some x := by
  obtain ⟨m, rfl⟩ := Nat.exists_eq_add_of_le hle
  rw [after_add] at hn
  obtain ⟨x, hx, -⟩ := Option.bind_eq_some_iff.1 hn
  exact ⟨x, hx⟩

/-! ### Courses that come back -/

/-- From a heading at which it was before, a course repeats what came in between, for ever. -/
theorem neverEnds_of_repeat (hlt : i < j) (hi : h.after g i = some k) (hj : h.after g j = some k) :
    h.NeverEnds g := by
  intro n
  induction n using Nat.strongRecOn with
  | ind n ih =>
      rcases Nat.le_total n j with hle | hle
      · exact after_of_le hj hle
      · -- `n` moves lead to the same heading as one period fewer
        obtain ⟨m, rfl⟩ := Nat.exists_eq_add_of_le hle
        have hperiod : h.after g (j + m) = h.after g (i + m) := by
          rw [after_add, after_add, hi, hj]
        rw [hperiod]
        exact ih (i + m) (by omega)

/-- A course that ends never was at a heading twice. -/
theorem fresh_of_end (hend : h.after g (n + 1) = none) (hi : h.after g i = some k) (hlt : i < j) :
    h.after g i ≠ h.after g j := by
  intro heq
  obtain ⟨x, hx⟩ := neverEnds_of_repeat hlt hi (heq ▸ hi) (n + 1)
  rw [hend] at hx
  cases hx

/-- All headings at stored cells. -/
def stored (g : Grid) : List Heading :=
  g.cells.keys.flatMap fun p => Direction.all.map fun d => ⟨p, d⟩

theorem length_stored (g : Grid) : (stored g).length = 6 * g.size := by
  simp [stored, List.length_flatMap, Direction.all, Grid.size, Nat.mul_comm]

theorem mem_stored_of_look (hnext : (h.look g).next? = some k) : h ∈ stored g := by
  refine List.mem_flatMap.2 ⟨h.pos, mem_keys_of_look hnext, List.mem_map.2 ⟨h.dir, ?_, rfl⟩⟩
  cases h.dir <;> decide

/-- As long as it comes to new headings, a course makes at most six moves for each stored cell. -/
theorem le_of_fresh (hn : h.after g n = some k)
    (hfresh : ∀ i j, i < j → j < n → h.after g i ≠ h.after g j) : n ≤ 6 * g.size := by
  have hnodup : ((List.range n).map (h.after g)).Nodup := by
    refine List.pairwise_map.2 (List.pairwise_lt_range.imp_of_mem ?_)
    intro i j _ hj hlt
    exact hfresh i j hlt (List.mem_range.1 hj)
  have hsubset : (List.range n).map (h.after g) ⊆ (stored g).map some := by
    intro x hx
    obtain ⟨i, hi, rfl⟩ := List.mem_map.1 hx
    have hi : i < n := List.mem_range.1 hi
    obtain ⟨y, hy⟩ := after_of_le hn (Nat.le_of_lt hi)
    obtain ⟨z, hz⟩ := after_of_le hn (Nat.succ_le_of_lt hi)
    rw [after_succ hy] at hz
    rw [hy]
    exact List.mem_map_of_mem (mem_stored_of_look hz)
  have hlength := (List.subperm_of_subset hnodup hsubset).length_le
  rwa [List.length_map, List.length_range, List.length_map, length_stored] at hlength

/-!
### Ends of a course

Every course ends in one of the three ways, for a course without an end comes back to a heading.
-/

theorem FirstRepeat.neverEnds (hrepeat : h.FirstRepeat g n k) : h.NeverEnds g := by
  obtain ⟨i, hlt, hi⟩ := hrepeat.before
  exact neverEnds_of_repeat hlt hi hrepeat.here

theorem NeverEnds.exists_firstRepeat (hnever : h.NeverEnds g) : ∃ n k, h.FirstRepeat g n k := by
  have hrepeat : ∃ n, ∃ i < n, h.after g i = h.after g n := by
    by_contra hnone
    push Not at hnone
    obtain ⟨k, hk⟩ := hnever (6 * g.size + 1)
    have hle := le_of_fresh hk fun i j hlt _ => hnone j i hlt
    omega
  obtain ⟨i, hlt, heq⟩ := Nat.find_spec hrepeat
  obtain ⟨k, hk⟩ := hnever (Nat.find hrepeat)
  refine ⟨Nat.find hrepeat, k, hk, ⟨i, hlt, heq.trans hk⟩, fun i j hij hj heq => ?_⟩
  exact Nat.find_min hrepeat hj ⟨i, hij, heq⟩

theorem exists_endsAt (g : Grid) (h : Heading) : ∃ n fault, h.EndsAt g n fault := by
  by_cases hnever : h.NeverEnds g
  · obtain ⟨n, k, hrepeat⟩ := hnever.exists_firstRepeat
    exact ⟨n, _, .cycle hrepeat⟩
  · have hend : ∃ n, h.after g (n + 1) = none := by
      simp only [NeverEnds, not_forall, not_exists, ← Option.eq_none_iff_forall_ne_some] at hnever
      obtain ⟨_ | n, hn⟩ := hnever
      · cases hn
      · exact ⟨n, hn⟩
    -- the last heading is the one before the first move that is not made
    have hlast : ∃ k, h.after g (Nat.find hend) = some k := by
      cases hfind : Nat.find hend with
      | zero => exact ⟨h, rfl⟩
      | succ n =>
          have hmin := Nat.find_min hend (m := n) (by omega)
          exact Option.ne_none_iff_exists'.1 hmin
    obtain ⟨k, hk⟩ := hlast
    have hnone : (k.look g).next? = none := (after_succ hk).symm.trans (Nat.find_spec hend)
    cases hlook : k.look g with
    | token step next => simp [hlook, Sight.next?] at hnone
    | turn next => simp [hlook, Sight.next?] at hnone
    | unknown => exact ⟨_, _, .unknown hk hlook⟩
    | malformed => exact ⟨_, _, .malformed hk hlook⟩

namespace EndsAt

variable {fault : Option ScanError}

theorem here (hend : h.EndsAt g n fault) : ∃ k, h.after g n = some k := by
  cases hend with
  | unknown hn _ => exact ⟨_, hn⟩
  | malformed hn _ => exact ⟨_, hn⟩
  | cycle hrepeat => exact ⟨_, hrepeat.here⟩

/-- Before its end a course comes to new headings only. -/
theorem fresh (hend : h.EndsAt g n fault) : ∀ i j, i < j → j < n → h.after g i ≠ h.after g j := by
  intro i j hlt hj
  obtain ⟨k, hn⟩ := hend.here
  obtain ⟨x, hx⟩ := after_of_le hn (Nat.le_of_lt (Nat.lt_trans hlt hj))
  cases hend with
  | unknown hn hlook => exact fresh_of_end (by rw [after_succ hn, hlook]; rfl) hx hlt
  | malformed hn hlook => exact fresh_of_end (by rw [after_succ hn, hlook]; rfl) hx hlt
  | cycle hrepeat => exact hrepeat.fresh i j hlt hj

/-- A course ends after at most six moves for each stored cell. -/
theorem le (hend : h.EndsAt g n fault) : n ≤ 6 * g.size := by
  obtain ⟨k, hn⟩ := hend.here
  exact le_of_fresh hn hend.fresh

end EndsAt

end Heading

end CellScript
