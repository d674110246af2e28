/-
Module: CellScript.Proofs.Scan.Likeness
Purpose: Scans of grids that look alike read corresponding tokens or fail at corresponding cells,
  and the cell that a scan blames is one that it read.
Main exports: ScanError.Alike, Walk.Alike, Walk.move_alike, Walk.trail_alike, Scan.within_alike,
  scan_alike
-/
import CellScript.Proofs.Likeness
import CellScript.Scan

namespace CellScript

open Std

/-! ### What symbols mean -/

namespace Symbol

theorem kind?_of_meaning {s : Symbol} {kind : TokenKind} (h : s.meaning = .token kind) :
    s.kind? = some kind := by
  unfold meaning at h
  split at h
  · next hkind =>
      cases h
      exact hkind
  · split at h <;> cases h

theorem eq_of_meaning_token {s : Symbol} {kind : TokenKind} (h : s.meaning = .token kind) :
    s = kind.symbol := by
  have heq := List.find?_some (kind?_of_meaning h)
  exact (beq_iff_eq.1 heq).symm

theorem eq_of_meaning_redirector {s : Symbol} (h : s.meaning = .redirector) : s = redirector := by
  unfold meaning at h
  split at h
  · cases h
  · split at h
    · next heq => exact beq_iff_eq.1 heq
    · cases h

/-- A symbol that means something is that of a token or the redirector. -/
theorem eq_of_meaning_ne_unknown {s : Symbol} (h : s.meaning ≠ .unknown) :
    (∃ kind : TokenKind, s = kind.symbol) ∨ s = redirector := by
  cases hmeaning : s.meaning with
  | token kind => exact .inl ⟨kind, eq_of_meaning_token hmeaning⟩
  | redirector => exact .inr (eq_of_meaning_redirector hmeaning)
  | unknown => exact absurd hmeaning h

end Symbol

/-!
### Errors, headings and steps

Corresponding errors of two scans come with what the first grid has at the blamed cell.
-/

/-- Corresponding errors of two scans. -/
inductive ScanError.Alike (L : Likeness) (g : Grid) : ScanError → ScanError → Prop where
  | malformedRedirector {p p' : Position} : L.pos p p' →
      g.symbolAt p = .redirector → g.facingAt p = none →
      Alike L g (.malformedRedirector p) (.malformedRedirector p')
  | redirectCycle {p p' : Position} {d : Direction} : L.pos p p' →
      (g.symbolAt p).meaning ≠ .unknown → Alike L g (.redirectCycle p d) (.redirectCycle p' d)
  | depthExceeded {p p' : Position} {limit : Nat} : L.pos p p' →
      (g.symbolAt p).meaning ≠ .unknown →
      Alike L g (.depthExceeded p limit) (.depthExceeded p' limit)

namespace Likeness

variable {L : Likeness}

/-- One direction from corresponding positions. -/
structure Heading (L : Likeness) (h h' : CellScript.Heading) : Prop where
  pos : L.pos h.pos h'.pos
  dir : h'.dir = h.dir

/-- Corresponding tokens that were read in one direction. -/
structure Step (L : Likeness) (step step' : CellScript.Step) : Prop where
  token : L.Token step.token step'.token
  heading : step'.heading = step.heading

theorem Heading.eq_iff {g g' : Grid} (hg : L.Grids g g') {h h' k k' : CellScript.Heading}
    (hh : L.Heading h h') (hk : L.Heading k k') : h' = k' ↔ h = k := by
  obtain ⟨p, d⟩ := h
  obtain ⟨p', d'⟩ := h'
  obtain ⟨q, e⟩ := k
  obtain ⟨q', e'⟩ := k'
  obtain ⟨hp, rfl⟩ := hh
  obtain ⟨hq, rfl⟩ := hk
  simp only [Heading.mk.injEq, hg.eq_iff hp hq]

theorem Heading.ahead {g g' : Grid} (hg : L.Grids g g') {h h' : CellScript.Heading}
    (hh : L.Heading h h') : L.Heading h.ahead h'.ahead := by
  refine ⟨?_, hh.dir⟩
  simp only [CellScript.Heading.ahead, hh.dir]
  exact hg.step hh.pos h.dir

end Likeness

/-!
### Walks

Two walks side by side have looked at corresponding headings. While a walk is not over, every cell
that it has looked at means something: the first one that does not is where it ends.
-/

/-- Two walks that have come equally far. -/
structure Walk.Alike (L : Likeness) (g : Grid) (w w' : Walk) : Prop where
  here : L.Heading w.here w'.here
  finished : w'.finished = w.finished
  visited : ∀ {h h'}, L.Heading h h' → w'.visited.contains h' = w.visited.contains h
  meant : w.finished = false →
    ∀ h, w.visited.contains h = true → (g.symbolAt h.pos).meaning ≠ .unknown

/-- Corresponding moves. -/
inductive Walk.Move.Alike (L : Likeness) (g : Grid) : Walk.Move → Walk.Move → Prop where
  | emit {step step' : Step} : L.Step step step' → Alike L g (.emit step) (.emit step')
  | turn : Alike L g .turn .turn
  | done : Alike L g (.halt none) (.halt none)
  | failed {e e' : ScanError} : e.Alike L g e' → Alike L g (.halt (some e)) (.halt (some e'))

namespace Walk

variable {L : Likeness} {g g' : Grid} {w w' : Walk}

theorem Alike.start {p p' : Position} (hp : L.pos p p') (d : Direction) :
    (Walk.start p d).Alike L g (Walk.start p' d) where
  here := ⟨hp, rfl⟩
  finished := rfl
  visited _ := by simp [Walk.start]
  meant _ h hh := by simp [Walk.start] at hh

/-- Both walks end. -/
theorem Alike.finish (h : w.Alike L g w') :
    Alike L g { w with finished := true } { w' with finished := true } where
  here := h.here
  finished := rfl
  visited := h.visited
  meant hfinished := nomatch hfinished

theorem Alike.visited_insert (hg : L.Grids g g') (h : w.Alike L g w') {k k' : Heading}
    (hk : L.Heading k k') :
    (w'.visited.insert w'.here).contains k' = (w.visited.insert w.here).contains k := by
  have hhere : compare w'.here k' = .eq ↔ compare w.here k = .eq := by
    simpa only [LawfulEqCmp.compare_eq_iff_eq] using h.here.eq_iff hg hk
  rw [TreeSet.contains_insert, TreeSet.contains_insert, h.visited hk]
  simp only [beq_eq_decide, hhere]

/-- Both walks have looked at where they are, and something stands there. -/
theorem Alike.look (hg : L.Grids g g') (h : w.Alike L g w')
    (hmeant : (g.symbolAt w.here.pos).meaning ≠ .unknown) :
    Alike L g { w with visited := w.visited.insert w.here }
      { w' with visited := w'.visited.insert w'.here } where
  here := h.here
  finished := h.finished
  visited := h.visited_insert hg
  meant hopen k hk := by
    rw [TreeSet.contains_insert, Bool.or_eq_true, beq_iff_eq] at hk
    rcases hk with hk | hk
    · rwa [← LawfulEqCmp.compare_eq_iff_eq.1 hk]
    · exact h.meant hopen k hk

theorem Alike.go {k k' : Heading} (h : w.Alike L g w') (hk : L.Heading k k') :
    Alike L g { w with here := k } { w' with here := k' } where
  here := hk
  finished := h.finished
  visited := h.visited
  meant := h.meant

/-- One look leads both walks to corresponding moves. -/
theorem move_alike (hg : L.Grids g g') (h : w.Alike L g w') :
    (w.move g).1.Alike L g (w'.move g').1 ∧ (w.move g).2.Alike L g (w'.move g').2 := by
  obtain ⟨here, visited, finished⟩ := w
  obtain ⟨here', visited', finished'⟩ := w'
  obtain rfl : finished' = finished := h.finished
  have hseen : visited'.contains here' = visited.contains here := h.visited h.here
  have hsymbol : g'.symbolAt here'.pos = g.symbolAt here.pos := hg.symbolAt h.here.pos
  have hfacing : g'.facingAt here'.pos = g.facingAt here.pos := hg.facingAt h.here.pos
  simp only [move, hseen, hsymbol, hfacing]
  split
  · exact ⟨.done, h⟩
  · next hfinished =>
    have hopen : finished' = false := Bool.eq_false_iff.2 hfinished
    split
    · next hagain =>
        have hdir : here'.dir = here.dir := h.here.dir
        rw [hdir]
        exact ⟨.failed (.redirectCycle h.here.pos (h.meant hopen _ hagain)), h.finish⟩
    · split
      · next kind hmeaning =>
          have hlook := h.look hg (by rw [hmeaning]; exact nofun)
          have htoken : L.Token ⟨kind, here.pos⟩ ⟨kind, here'.pos⟩ :=
            ⟨hg.known (Symbol.eq_of_meaning_token hmeaning), rfl, h.here.pos⟩
          exact ⟨.emit ⟨htoken, h.here.dir⟩, hlook.go (h.here.ahead hg)⟩
      · next hmeaning =>
          have hlook := h.look hg (by rw [hmeaning]; exact nofun)
          split
          · next facing _ =>
              exact ⟨.turn, hlook.go ⟨hg.step h.here.pos facing, rfl⟩⟩
          · next hnone =>
              have hredirector := Symbol.eq_of_meaning_redirector hmeaning
              exact ⟨.failed (.malformedRedirector h.here.pos hredirector hnone), hlook.finish⟩
      · exact ⟨.done, h.here, rfl, h.visited_insert hg, nofun⟩

/-- The next tokens of both walks correspond, if they are found. -/
theorem nextWithin_alike (hg : L.Grids g g') (fuel : Nat) (h : w.Alike L g w') :
    Option.Rel (Agree (ScanError.Alike L g) L.Step) (w.nextWithin g fuel).1
        (w'.nextWithin g' fuel).1 ∧
      (w.nextWithin g fuel).2.Alike L g (w'.nextWithin g' fuel).2 := by
  induction fuel generalizing w w' with
  | zero => exact ⟨.none, h.finish⟩
  | succ fuel ih =>
      obtain ⟨hmove, hnext⟩ := move_alike hg h
      unfold nextWithin
      generalize w.move g = moved at hmove hnext
      generalize w'.move g' = moved' at hmove hnext
      obtain ⟨move, next⟩ := moved
      obtain ⟨move', next'⟩ := moved'
      cases hmove with
      | emit hstep => exact ⟨.some (.ok hstep), hnext⟩
      | turn => exact ih hnext
      | done => exact ⟨.none, hnext⟩
      | failed he => exact ⟨.some (.error he), hnext⟩

theorem reach_eq (hg : L.Grids g g') : reach g' = reach g := by
  rw [reach, reach, hg.size]

theorem next_alike (hg : L.Grids g g') (h : w.Alike L g w') :
    Option.Rel (Agree (ScanError.Alike L g) L.Step) (w.next g).1 (w'.next g').1 ∧
      (w.next g).2.Alike L g (w'.next g').2 := by
  rw [next, next, reach_eq hg]
  exact nextWithin_alike hg _ h

theorem trailWithin_alike (hg : L.Grids g g') (fuel : Nat) (h : w.Alike L g w') :
    List.Forall₂ L.Step (w.trailWithin g fuel).1 (w'.trailWithin g' fuel).1 ∧
      Option.Rel (ScanError.Alike L g) (w.trailWithin g fuel).2 (w'.trailWithin g' fuel).2 := by
  induction fuel generalizing w w' with
  | zero => exact ⟨.nil, .none⟩
  | succ fuel ih =>
      obtain ⟨hfound, hnext⟩ := next_alike hg h
      unfold trailWithin
      generalize w.next g = result at hfound hnext
      generalize w'.next g' = result' at hfound hnext
      obtain ⟨found, next⟩ := result
      obtain ⟨found', next'⟩ := result'
      cases hfound with
      | none => exact ⟨.nil, .none⟩
      | some hfound =>
          cases hfound with
          | ok hstep => exact ⟨.cons hstep (ih hnext).1, (ih hnext).2⟩
          | error he => exact ⟨.nil, .some he⟩

/-- Walks from corresponding positions read corresponding tokens up to the same end. -/
theorem trail_alike (hg : L.Grids g g') {p p' : Position} (hp : L.pos p p') (d : Direction) :
    List.Forall₂ L.Step (trail g p d).1 (trail g' p' d).1 ∧
      Option.Rel (ScanError.Alike L g) (trail g p d).2 (trail g' p' d).2 := by
  rw [trail, trail, reach_eq hg]
  exact trailWithin_alike hg _ (.start hp d)

end Walk

/-! ### Side-scans -/

namespace Scan

variable {L : Likeness} {g g' : Grid}

/-- Tokens that correspond, or errors that do. -/
abbrev ReadsAlike (L : Likeness) (g : Grid) :
    Except ScanError (List Token) → Except ScanError (List Token) → Prop :=
  Agree (ScanError.Alike L g) L.Tokens

/-- Scans that read alike from corresponding positions. -/
def ScansAlike (L : Likeness) (g : Grid)
    (scan scan' : Position → Direction → Except ScanError (List Token)) : Prop :=
  ∀ {p p'}, L.pos p p' → ∀ d, ReadsAlike L g (scan p d) (scan' p' d)

variable {limit : Nat}
  {deeper deeper' : Option (Position → Direction → Except ScanError (List Token))}

theorem side_alike (hg : L.Grids g g') (hdeeper : Option.Rel (ScansAlike L g) deeper deeper')
    {t t' : Token} (ht : L.Token t t') (d : Direction) :
    ReadsAlike L g (side g limit deeper t d) (side g' limit deeper' t' d) := by
  have hpos := hg.step ht.pos d
  simp only [side, hg.symbolAt hpos]
  split
  · exact .ok .nil
  · next hmeant =>
      cases hdeeper with
      | some hscan => exact hscan hpos d
      | none => exact .error (.depthExceeded hpos hmeant)

theorem sides_alike (hg : L.Grids g g') (hdeeper : Option.Rel (ScansAlike L g) deeper deeper')
    {t t' : Token} (ht : L.Token t t') (ds : List Direction) :
    ReadsAlike L g (sides g limit deeper t ds) (sides g' limit deeper' t' ds) := by
  induction ds with
  | nil => exact .ok .nil
  | cons d ds ih =>
      apply (side_alike hg hdeeper ht d).bind
      intro first first' hfirst
      apply ih.bind
      intro others others' hothers
      exact .ok (List.rel_append hfirst hothers)

theorem splice_alike (hg : L.Grids g g') (hdeeper : Option.Rel (ScansAlike L g) deeper deeper')
    {fault fault' : Option ScanError} (hfault : Option.Rel (ScanError.Alike L g) fault fault')
    {steps steps' : List Step} (hsteps : List.Forall₂ L.Step steps steps') :
    ReadsAlike L g (splice g limit deeper fault steps) (splice g' limit deeper' fault' steps') := by
  induction hsteps with
  | nil =>
      cases hfault with
      | none => exact .ok .nil
      | some he => exact .error he
  | @cons step step' steps steps' hstep _ ih =>
      have hrest : ∀ around around', L.Tokens around around' → ReadsAlike L g
          (do
            let others ← splice g limit deeper fault steps
            return step.token :: (around ++ others))
          (do
            let others ← splice g' limit deeper' fault' steps'
            return step'.token :: (around' ++ others)) := by
        intro around around' haround
        apply ih.bind
        intro others others' hothers
        exact .ok (.cons hstep.token (List.rel_append haround hothers))
      rw [splice, splice, hstep.token.kind, hstep.heading]
      split
      · exact (sides_alike hg hdeeper hstep.token _).bind hrest
      · exact (Agree.ok .nil : ReadsAlike L g (.ok []) (.ok [])).bind hrest

/-- With any number of levels to spare, scans from corresponding positions read alike. -/
theorem within_alike (hg : L.Grids g g') (levels : Nat) :
    ScansAlike L g (within g limit levels) (within g' limit levels) := by
  induction levels with
  | zero =>
      intro p p' hp d
      obtain ⟨hsteps, hfault⟩ := Walk.trail_alike hg hp d
      exact splice_alike hg .none hfault hsteps
  | succ levels ih =>
      intro p p' hp d
      obtain ⟨hsteps, hfault⟩ := Walk.trail_alike hg hp d
      exact splice_alike hg (.some ih) hfault hsteps

end Scan

/-- Scans of grids that look alike have corresponding results. -/
theorem scan_alike {L : Likeness} {g g' : Grid} (hg : L.Grids g g') (limit : Nat)
    {p p' : Position} (hp : L.pos p p') (d : Direction) :
    Scan.ReadsAlike L g (scan g limit p d) (scan g' limit p' d) :=
  Scan.within_alike hg limit hp d

end CellScript
