/-
Module: CellScript.Proofs.Scan.CycleGuard
Purpose: The guard against cycles is exact. A walk reads what it would read without the guard, and
  reports a cycle where it would go on for ever, at the first heading that it comes back to.
Main exports: Walk.answer, Walk.Yields, Walk.yields_of_endsAt, Walk.trail_of_endsAt,
  Walk.next_exact
-/
import CellScript.Proofs.Scan.Course

namespace CellScript

open Std

namespace Walk

/-!
### Answers of a walk

A walk is known by what its calls answer, one after the other. There is no last call.
-/

/-- The answer of call number `n`, counted from zero. -/
def answer (g : Grid) (w : Walk) : Nat → Option (Except ScanError Step)
  | 0 => (w.next g).1
  | n + 1 => (w.next g).2.answer g n

/-- The calls answer with the steps in turn, then with the fault if there is one, and with nothing
ever after. -/
def Yields (g : Grid) (w : Walk) (steps : List Step) (fault : Option ScanError) : Prop :=
  ∀ n, w.answer g n = (steps.map .ok ++ (fault.map .error).toList)[n]?

variable {g : Grid} {w w' : Walk} {steps steps' : List Step} {fault fault' : Option ScanError}

theorem next_of_finished (h : w.finished = true) : w.next g = (none, w) := by
  simp [next, reach, nextWithin, move, h]

theorem answer_of_finished (h : w.finished = true) (n : Nat) : w.answer g n = none := by
  induction n with
  | zero => rw [answer, next_of_finished h]
  | succ n ih => rw [answer, next_of_finished h, ih]

theorem Yields.halt (hnext : w.next g = (fault.map .error, w')) (hfinished : w'.finished = true) :
    w.Yields g [] fault := by
  intro n
  cases n with
  | zero => cases fault <;> simp [answer, hnext]
  | succ n =>
      rw [answer, hnext, answer_of_finished hfinished]
      cases fault <;> rfl

theorem Yields.cons {step : Step} (hnext : w.next g = (some (.ok step), w'))
    (hrest : w'.Yields g steps fault) : w.Yields g (step :: steps) fault := by
  intro n
  cases n with
  | zero => simp [answer, hnext]
  | succ n =>
      rw [answer, hnext, hrest n]
      simp

/-- The answers tell the steps and the fault. -/
theorem Yields.unique (h : w.Yields g steps fault) (h' : w.Yields g steps' fault') :
    steps = steps' ∧ fault = fault' := by
  have hlist : steps.map .ok ++ (fault.map .error).toList =
      steps'.map .ok ++ (fault'.map (.error : ScanError → Except ScanError Step)).toList :=
    List.ext_getElem? fun n => (h n).symm.trans (h' n)
  have hsteps : steps = steps' := by
    have hoks := congrArg (List.filterMap Except.toOption) hlist
    cases fault <;> cases fault' <;>
      simpa [List.filterMap_map, List.filterMap_cons, Function.comp_def, Except.toOption] using hoks
  subst hsteps
  have htail := congrArg List.head? (List.append_cancel_left hlist)
  rw [Option.head?_toList, Option.head?_toList] at htail
  exact ⟨rfl, Option.map_injective (fun _ _ => Except.error.inj) htail⟩

/-!
### A guarded walk keeps to the course

Up to the end of the course, a walk stands where the course stands and has looked at the headings
before. So it meets a heading that it has looked at exactly where the course comes back.
-/

/-- The walk after it has looked at where it is. -/
def seen (w : Walk) : Walk :=
  { w with visited := w.visited.insert w.here }

/-- A walk from `h` after `n` moves. -/
structure OnCourse (g : Grid) (h : Heading) (n : Nat) (w : Walk) : Prop where
  underWay : w.finished = false
  here : h.after g n = some w.here
  visited : ∀ k, w.visited.contains k = true ↔ ∃ i < n, h.after g i = some k

theorem move_of_fresh (hopen : w.finished = false) (hfresh : w.visited.contains w.here = false) :
    w.move g =
      match w.here.look g with
      | .token step next => (.emit step, { w.seen with here := next })
      | .turn next => (.turn, { w.seen with here := next })
      | .unknown => (.halt none, { w.seen with finished := true })
      | .malformed =>
          (.halt (some (.malformedRedirector w.here.pos)), { w.seen with finished := true }) := by
  obtain ⟨here, visited, finished⟩ := w
  cases hopen
  simp only [move, hfresh, Heading.look, Bool.false_eq_true, if_false]
  cases (g.symbolAt here.pos).meaning with
  | token kind => rfl
  | redirector => cases g.facingAt here.pos <;> rfl
  | unknown => rfl

theorem onCourse_start (g : Grid) (p : Position) (d : Direction) :
    OnCourse g ⟨p, d⟩ 0 (start p d) where
  underWay := rfl
  here := rfl
  visited k := by simp [start]

namespace OnCourse

variable {h next : Heading} {n k : Nat}

theorem not_visited (hw : OnCourse g h n w) (hfresh : ∀ i < n, h.after g i ≠ h.after g n) :
    w.visited.contains w.here = false := by
  rw [Bool.eq_false_iff, Ne, hw.visited]
  rintro ⟨i, hi, heq⟩
  exact hfresh i hi (heq.trans hw.here.symm)

theorem advance (hw : OnCourse g h n w) (hnext : h.after g (n + 1) = some next) :
    OnCourse g h (n + 1) { w.seen with here := next } where
  underWay := hw.underWay
  here := hnext
  visited x := by
    simp only [seen, TreeSet.contains_insert, Bool.or_eq_true, beq_iff_eq,
      LawfulEqCmp.compare_eq_iff_eq, hw.visited]
    constructor
    · rintro (rfl | ⟨i, hi, heq⟩)
      · exact ⟨n, Nat.lt_succ_self n, hw.here⟩
      · exact ⟨i, Nat.lt_succ_of_lt hi, heq⟩
    · rintro ⟨i, hi, heq⟩
      rcases Nat.lt_succ_iff_lt_or_eq.1 hi with hi | rfl
      · exact .inr ⟨i, hi, heq⟩
      · exact .inl (Option.some.inj (hw.here.symm.trans heq))

/-- Before the end of the course the walk goes on as the course does. -/
theorem move_of_lt (hend : h.EndsAt g k fault) (hw : OnCourse g h n w) (hlt : n < k) :
    ∃ next, OnCourse g h (n + 1) { w.seen with here := next } ∧
      ((∃ step, w.here.look g = .token step next ∧
          w.move g = (.emit step, { w.seen with here := next })) ∨
        w.here.look g = .turn next ∧ w.move g = (.turn, { w.seen with here := next })) := by
  obtain ⟨last, hlast⟩ := hend.here
  obtain ⟨next, hnext⟩ := Heading.after_of_le hlast (Nat.succ_le_of_lt hlt)
  have hmove := move_of_fresh (g := g) hw.underWay
    (hw.not_visited fun i hi => hend.fresh i n hi hlt)
  refine ⟨next, hw.advance hnext, ?_⟩
  rw [Heading.after_succ hw.here] at hnext
  cases hlook : w.here.look g with
  | token step k =>
      rw [hlook] at hnext hmove
      cases hnext
      exact .inl ⟨step, rfl, hmove⟩
  | turn k =>
      rw [hlook] at hnext hmove
      cases hnext
      exact .inr ⟨rfl, hmove⟩
  | unknown => simp [hlook, Sight.next?] at hnext
  | malformed => simp [hlook, Sight.next?] at hnext

/-- At the end of the course the walk halts. -/
theorem move_of_end (hend : h.EndsAt g n fault) (hw : OnCourse g h n w) :
    ∃ w', w.move g = (.halt fault, w') ∧ w'.finished = true := by
  -- where the course has nowhere to go, the walk has not been there
  have hnew : h.after g (n + 1) = none → w.visited.contains w.here = false := by
    intro hnone
    refine hw.not_visited fun i hi => ?_
    obtain ⟨x, hx⟩ := Heading.after_of_le hw.here (Nat.le_of_lt hi)
    exact Heading.fresh_of_end hnone hx hi
  cases hend with
  | unknown hn hlook =>
      cases hw.here.symm.trans hn
      have hfresh := hnew (by rw [Heading.after_succ hn, hlook]; rfl)
      exact ⟨_, by rw [move_of_fresh hw.underWay hfresh, hlook], rfl⟩
  | malformed hn hlook =>
      cases hw.here.symm.trans hn
      have hfresh := hnew (by rw [Heading.after_succ hn, hlook]; rfl)
      exact ⟨_, by rw [move_of_fresh hw.underWay hfresh, hlook], rfl⟩
  | cycle hrepeat =>
      cases hw.here.symm.trans hrepeat.here
      have hagain : w.visited.contains w.here = true := (hw.visited _).2 hrepeat.before
      exact ⟨{ w with finished := true }, by simp [move, hw.underWay, hagain], rfl⟩

/-- With fuel for the rest of the course, a call leads to its next step or to its end. -/
theorem nextWithin_cases (hend : h.EndsAt g k fault) (hw : OnCourse g h n w) (hle : n ≤ k)
    {fuel : Nat} (hfuel : k < n + fuel) :
    (h.stepsBefore g k = h.stepsBefore g n ∧
        ∃ w', w.nextWithin g fuel = (fault.map .error, w') ∧ w'.finished = true) ∨
      ∃ n' step w', n < n' ∧ n' ≤ k ∧ h.stepsBefore g n' = h.stepsBefore g n ++ [step] ∧
        w.nextWithin g fuel = (some (.ok step), w') ∧ OnCourse g h n' w' := by
  induction fuel generalizing n w with
  | zero => omega
  | succ fuel ih =>
      rcases Nat.eq_or_lt_of_le hle with rfl | hlt
      · obtain ⟨w', hmove, hfinished⟩ := hw.move_of_end hend
        refine .inl ⟨rfl, w', ?_, hfinished⟩
        cases fault <;> simp [nextWithin, hmove]
      · obtain ⟨next, hnext, ⟨step, hlook, hmove⟩ | ⟨hlook, hmove⟩⟩ := hw.move_of_lt hend hlt
        · refine .inr ⟨n + 1, step, _, Nat.lt_succ_self n, hlt, ?_, ?_, hnext⟩
          · rw [Heading.stepsBefore_succ hw.here, hlook]
            rfl
          · simp [nextWithin, hmove]
        · -- a turn reads nothing
          have hsteps : h.stepsBefore g (n + 1) = h.stepsBefore g n := by
            rw [Heading.stepsBefore_succ hw.here, hlook]
            exact List.append_nil _
          have hcall : w.nextWithin g (fuel + 1) =
              Walk.nextWithin g fuel { w.seen with here := next } := by
            simp [nextWithin, hmove]
          rw [hcall]
          rcases ih hnext hlt (by omega) with ⟨hlast, hhalt⟩ | ⟨n', step, w', hn', hle', hstep, hok⟩
          · exact .inl ⟨hlast.trans hsteps, hhalt⟩
          · exact .inr ⟨n', step, w', by omega, hle', hsteps ▸ hstep, hok⟩

/-- The calls of a walk under way answer with the rest of the course. -/
theorem yields (hend : h.EndsAt g k fault) (hw : OnCourse g h n w) (hle : n ≤ k) :
    ∃ rest, h.stepsBefore g k = h.stepsBefore g n ++ rest ∧ w.Yields g rest fault := by
  induction hleft : k - n using Nat.strongRecOn generalizing n w with
  | ind left ih =>
      have hfuel : k < n + reach g := by
        have hbound := hend.le
        rw [reach]
        omega
      rcases hw.nextWithin_cases hend hle hfuel with
        ⟨hsteps, w', hnext, hfinished⟩ | ⟨n', step, w', hn', hle', hsteps, hnext, hw'⟩
      · exact ⟨[], by rw [hsteps, List.append_nil], .halt hnext hfinished⟩
      · obtain ⟨rest, hrest, hyields⟩ := ih (k - n') (by omega) hw' hle' rfl
        refine ⟨step :: rest, ?_, .cons hnext hyields⟩
        rw [hrest, hsteps, List.append_assoc, List.singleton_append]

end OnCourse

/-! ### Whole walks -/

variable {p : Position} {d : Direction}

theorem yields_of_endsAt {n : Nat} (hend : Heading.EndsAt g ⟨p, d⟩ n fault) :
    (start p d).Yields g (Heading.stepsBefore g ⟨p, d⟩ n) fault := by
  obtain ⟨rest, hsteps, hyields⟩ := (onCourse_start g p d).yields hend (Nat.zero_le n)
  rwa [hsteps]

theorem yields_iff :
    (start p d).Yields g steps fault ↔
      ∃ n, Heading.EndsAt g ⟨p, d⟩ n fault ∧ steps = Heading.stepsBefore g ⟨p, d⟩ n := by
  constructor
  · intro h
    obtain ⟨n, fault', hend⟩ := Heading.exists_endsAt g ⟨p, d⟩
    obtain ⟨rfl, rfl⟩ := h.unique (yields_of_endsAt hend)
    exact ⟨n, hend, rfl⟩
  · rintro ⟨n, hend, rfl⟩
    exact yields_of_endsAt hend

theorem Yields.next_of_nil (h : w.Yields g [] fault) : ∃ w', w.next g = (fault.map .error, w') := by
  have hfirst : (w.next g).1 = _ := h 0
  refine ⟨(w.next g).2, Prod.ext (hfirst.trans ?_) rfl⟩
  cases fault <;> rfl

theorem Yields.next_of_cons {step : Step} (h : w.Yields g (step :: steps) fault) :
    ∃ w', w.next g = (some (.ok step), w') ∧ w'.Yields g steps fault :=
  ⟨(w.next g).2, Prod.ext (h 0) rfl, fun n => h (n + 1)⟩

/-- Collecting the answers takes one call for each step and one more. -/
theorem Yields.trailWithin_eq (h : w.Yields g steps fault) {fuel : Nat}
    (hfuel : steps.length < fuel) : w.trailWithin g fuel = (steps, fault) := by
  induction steps generalizing w fuel with
  | nil =>
      obtain ⟨fuel, rfl⟩ := Nat.exists_eq_succ_of_ne_zero (Nat.ne_zero_of_lt hfuel)
      obtain ⟨w', hnext⟩ := h.next_of_nil
      cases fault <;> simp [trailWithin, hnext]
  | cons step steps ih =>
      obtain ⟨fuel, rfl⟩ := Nat.exists_eq_succ_of_ne_zero (Nat.ne_zero_of_lt hfuel)
      obtain ⟨w', hnext, hrest⟩ := h.next_of_cons
      simp [trailWithin, hnext, ih hrest (Nat.lt_of_succ_lt_succ hfuel)]

/-- All that a walk gives, by the end of its course. -/
theorem trail_of_endsAt {n : Nat} (hend : Heading.EndsAt g ⟨p, d⟩ n fault) :
    trail g p d = (Heading.stepsBefore g ⟨p, d⟩ n, fault) := by
  apply (yields_of_endsAt hend).trailWithin_eq
  have hlength := Heading.length_stepsBefore_le (g := g) (h := ⟨p, d⟩) n
  have hbound := hend.le
  rw [reach]
  omega

/-- A walk answers with the steps that it would read without its guard, in their order, and then
ends in one of three ways. It has no more answer exactly if the course leads to an unknown cell, it
reports the first redirector without facing exactly if the course leads to one, and it reports a
cycle exactly if the course never ends. The cycle is reported at the first heading that the course
comes back to, and the steps are those read before. After that no call has an answer. -/
theorem next_exact (g : Grid) (p : Position) (d : Direction) :
    (∃ steps, (start p d).Yields g steps none ∨
        (∃ pos, (start p d).Yields g steps (some (.malformedRedirector pos))) ∨
        ∃ pos dir, (start p d).Yields g steps (some (.redirectCycle pos dir))) ∧
      (∀ steps, (start p d).Yields g steps none ↔
        ∃ n k, Heading.after g ⟨p, d⟩ n = some k ∧ k.look g = .unknown ∧
          steps = Heading.stepsBefore g ⟨p, d⟩ n) ∧
      (∀ steps pos, (start p d).Yields g steps (some (.malformedRedirector pos)) ↔
        ∃ n k, Heading.after g ⟨p, d⟩ n = some k ∧ k.look g = .malformed ∧ k.pos = pos ∧
          steps = Heading.stepsBefore g ⟨p, d⟩ n) ∧
      (∀ steps pos dir, (start p d).Yields g steps (some (.redirectCycle pos dir)) ↔
        ∃ n, Heading.FirstRepeat g ⟨p, d⟩ n ⟨pos, dir⟩ ∧
          steps = Heading.stepsBefore g ⟨p, d⟩ n) ∧
      (Heading.NeverEnds g ⟨p, d⟩ ↔
        ∃ steps pos dir, (start p d).Yields g steps (some (.redirectCycle pos dir))) := by
  simp only [yields_iff]
  refine ⟨?_, fun steps => ⟨?_, ?_⟩, fun steps pos => ⟨?_, ?_⟩, fun steps pos dir => ⟨?_, ?_⟩,
    ?_, ?_⟩
  · obtain ⟨n, fault, hend⟩ := Heading.exists_endsAt g ⟨p, d⟩
    refine ⟨Heading.stepsBefore g ⟨p, d⟩ n, ?_⟩
    cases hend with
    | unknown hn hlook => exact .inl ⟨n, .unknown hn hlook, rfl⟩
    | malformed hn hlook => exact .inr (.inl ⟨_, n, .malformed hn hlook, rfl⟩)
    | cycle hrepeat => exact .inr (.inr ⟨_, _, n, .cycle hrepeat, rfl⟩)
  · rintro ⟨n, ⟨hn, hlook⟩, hsteps⟩
    exact ⟨n, _, hn, hlook, hsteps⟩
  · rintro ⟨n, k, hn, hlook, hsteps⟩
    exact ⟨n, .unknown hn hlook, hsteps⟩
  · rintro ⟨n, ⟨⟩ | ⟨hn, hlook⟩, hsteps⟩
    exact ⟨n, _, hn, hlook, rfl, hsteps⟩
  · rintro ⟨n, k, hn, hlook, rfl, hsteps⟩
    exact ⟨n, .malformed hn hlook, hsteps⟩
  · rintro ⟨n, ⟨⟩ | ⟨⟩ | hrepeat, hsteps⟩
    exact ⟨n, hrepeat, hsteps⟩
  · rintro ⟨n, hrepeat, hsteps⟩
    exact ⟨n, .cycle hrepeat, hsteps⟩
  · intro hnever
    obtain ⟨n, k, hrepeat⟩ := hnever.exists_firstRepeat
    exact ⟨_, k.pos, k.dir, n, .cycle hrepeat, rfl⟩
  · rintro ⟨steps, pos, dir, n, ⟨⟩ | ⟨⟩ | hrepeat, -⟩
    exact hrepeat.neverEnds

end Walk

end CellScript
