/-
Module: CellScript.Proofs.Scan.Termination
Purpose: A scan comes to an end on every grid, however walks turn and side-scans call each other,
  and the number of its tokens is bounded by the cells of the grid and the limit on side-scans.
Main exports: Scan.Part, Scan.Reads, Scan.reads_iff, Scan.most, Scan.Reads.length_le,
  Scan.Reads.kind_eq, scan_terminates
-/
import CellScript.Proofs.Scan.Calls
import CellScript.Proofs.Scan.DepthLimit
import Mathlib.Algebra.BigOperators.Ring.Finset
import Mathlib.Tactic.Ring

namespace CellScript

theorem Direction.length_sides (d : Direction) : d.sides.length = 4 := by
  cases d <;> rfl

namespace Scan

variable {g : Grid} {limit depth : Nat}

/-!
### Rules of scanning

The rules call a walk again and again, and start a walk for each side-scan. They know how deep a
side-scan is nested, but nothing in them bounds the steps of a walk or the number of side-scans:
what has an outcome by these rules comes to an end by itself.
-/

/-- What a scan is made from: the rest of a walk, and the side-scans around a token. -/
inductive Part where
  | walk (w : Walk)
  | around (token : Token) (sides : List Direction)

/-- The rules. -/
inductive Reads (g : Grid) (limit : Nat) : Nat → Part → Except ScanError (List Token) → Prop where
  | ends {depth w w'} (hcall : Walk.Calls g w none w') : Reads g limit depth (.walk w) (.ok [])
  | fails {depth w e w'} (hcall : Walk.Calls g w (some (.error e)) w') :
      Reads g limit depth (.walk w) (.error e)
  | plain {depth w step w' o} (hcall : Walk.Calls g w (some (.ok step)) w')
      (hkind : step.token.kind.startsSideScan = false) (hrest : Reads g limit depth (.walk w') o) :
      Reads g limit depth (.walk w) (o.map (step.token :: ·))
  | trigger {depth w step w' around o} (hcall : Walk.Calls g w (some (.ok step)) w')
      (hkind : step.token.kind.startsSideScan = true)
      (haround : Reads g limit depth (.around step.token step.heading.sides) (.ok around))
      (hrest : Reads g limit depth (.walk w') o) :
      Reads g limit depth (.walk w) (o.map fun rest => step.token :: (around ++ rest))
  | triggerFails {depth w step w' e} (hcall : Walk.Calls g w (some (.ok step)) w')
      (hkind : step.token.kind.startsSideScan = true)
      (haround : Reads g limit depth (.around step.token step.heading.sides) (.error e)) :
      Reads g limit depth (.walk w) (.error e)
  | noSide {depth token} : Reads g limit depth (.around token []) (.ok [])
  | skips {depth token d sides o}
      (hmeaning : (g.symbolAt (token.pos.step d)).meaning = .unknown)
      (hrest : Reads g limit depth (.around token sides) o) :
      Reads g limit depth (.around token (d :: sides)) o
  | tooDeep {depth token d sides}
      (hmeaning : (g.symbolAt (token.pos.step d)).meaning ≠ .unknown) (hdepth : limit < depth + 1) :
      Reads g limit depth (.around token (d :: sides))
        (.error (.depthExceeded (token.pos.step d) limit))
  | enters {depth token d sides first o}
      (hmeaning : (g.symbolAt (token.pos.step d)).meaning ≠ .unknown) (hdepth : depth + 1 ≤ limit)
      (hside : Reads g limit (depth + 1) (.walk (.start (token.pos.step d) d)) (.ok first))
      (hrest : Reads g limit depth (.around token sides) o) :
      Reads g limit depth (.around token (d :: sides)) (o.map (first ++ ·))
  | sideFails {depth token d sides e}
      (hmeaning : (g.symbolAt (token.pos.step d)).meaning ≠ .unknown) (hdepth : depth + 1 ≤ limit)
      (hside : Reads g limit (depth + 1) (.walk (.start (token.pos.step d) d)) (.error e)) :
      Reads g limit depth (.around token (d :: sides)) (.error e)

/-!
### Scans by what their walks yield

Each equation takes a scan apart as one of the rules does.
-/

/-- The scan one level down, with so many levels to spare. -/
def below (g : Grid) (limit : Nat) : Nat → Deeper
  | 0 => none
  | levels + 1 => some (within g limit levels)

theorem within_eq_splice {p : Position} {d : Direction} {steps : List Step}
    {fault : Option ScanError} (h : (Walk.start p d).Yields g steps fault) (levels : Nat) :
    within g limit levels p d = splice g limit (below g limit levels) fault steps := by
  have htrail : Walk.trail g p d = (steps, fault) := by
    obtain ⟨steps', fault', h', hlength⟩ := Walk.exists_yields g (Walk.start p d)
    obtain ⟨rfl, rfl⟩ := h.unique h'
    have hleft := Walk.left_le g (Walk.start p d)
    apply h.trailWithin_eq
    rw [Walk.reach]
    omega
  cases levels <;> rw [within, htrail] <;> rfl

section Equations

variable {deeper : Deeper} {fault : Option ScanError} {step : Step} {steps : List Step}
  {token : Token} {d : Direction} {ds : List Direction}

theorem splice_of_plain (h : step.token.kind.startsSideScan = false) :
    splice g limit deeper fault (step :: steps) =
      (splice g limit deeper fault steps).map (step.token :: ·) := by
  rw [splice, h]
  cases splice g limit deeper fault steps <;> rfl

theorem splice_of_trigger (h : step.token.kind.startsSideScan = true) {around : List Token}
    (haround : sides g limit deeper step.token step.heading.sides = .ok around) :
    splice g limit deeper fault (step :: steps) =
      (splice g limit deeper fault steps).map fun rest => step.token :: (around ++ rest) := by
  rw [splice, if_pos h, haround]
  cases splice g limit deeper fault steps <;> rfl

theorem splice_of_triggerFails (h : step.token.kind.startsSideScan = true) {e : ScanError}
    (haround : sides g limit deeper step.token step.heading.sides = .error e) :
    splice g limit deeper fault (step :: steps) = .error e := by
  rw [splice, if_pos h, haround]
  rfl

theorem sides_of_side {first : List Token} (h : side g limit deeper token d = .ok first) :
    sides g limit deeper token (d :: ds) =
      (sides g limit deeper token ds).map (first ++ ·) := by
  rw [sides, h]
  cases sides g limit deeper token ds <;> rfl

theorem sides_of_sideFails {e : ScanError} (h : side g limit deeper token d = .error e) :
    sides g limit deeper token (d :: ds) = .error e := by
  rw [sides, h]
  rfl

theorem sides_of_unknown (h : (g.symbolAt (token.pos.step d)).meaning = .unknown) :
    sides g limit deeper token (d :: ds) = sides g limit deeper token ds := by
  have hside : side g limit deeper token d = .ok [] := by
    simp only [side, h]
  rw [sides_of_side hside]
  cases sides g limit deeper token ds <;> rfl

theorem side_of_tooDeep (h : (g.symbolAt (token.pos.step d)).meaning ≠ .unknown) :
    side g limit none token d = .error (.depthExceeded (token.pos.step d) limit) := by
  simp only [side]

theorem side_of_enters (h : (g.symbolAt (token.pos.step d)).meaning ≠ .unknown)
    (scan : Position → Direction → Except ScanError (List Token)) :
    side g limit (some scan) token d = scan (token.pos.step d) d := by
  simp only [side]

end Equations

/-!
### The rules give what a scan computes

By induction on the rules. Any state of a walk yields something, so each premise about a walk can be
used.
-/

/-- What a scan computes for a part of it. -/
def Part.Gives (g : Grid) (limit depth : Nat) : Part → Except ScanError (List Token) → Prop
  | .walk w, o => ∀ steps fault, w.Yields g steps fault →
      splice g limit (below g limit (limit - depth)) fault steps = o
  | .around token ds, o => sides g limit (below g limit (limit - depth)) token ds = o

theorem below_of_lt (h : depth < limit) :
    below g limit (limit - depth) = some (within g limit (limit - (depth + 1))) := by
  obtain ⟨n, rfl⟩ := Nat.exists_eq_add_of_lt h
  rw [show depth + n + 1 - depth = n + 1 by omega, show depth + n + 1 - (depth + 1) = n by omega]
  rfl

theorem below_of_le (h : limit ≤ depth) : below g limit (limit - depth) = none := by
  rw [Nat.sub_eq_zero_of_le h]
  rfl

/-- A walk that has started yields one scan. -/
theorem Part.Gives.within_eq {p : Position} {d : Direction} {o : Except ScanError (List Token)}
    (h : Part.Gives g limit depth (.walk (.start p d)) o) :
    within g limit (limit - depth) p d = o := by
  obtain ⟨steps, fault, hyields, -⟩ := Walk.exists_yields g (Walk.start p d)
  rw [within_eq_splice hyields]
  exact h steps fault hyields

theorem Reads.gives {part : Part} {o : Except ScanError (List Token)}
    (h : Reads g limit depth part o) : part.Gives g limit depth o := by
  induction h with
  | ends hcall =>
      intro steps fault hyields
      obtain ⟨rfl, rfl⟩ := hyields.of_halt none hcall
      rfl
  | fails hcall =>
      intro steps fault hyields
      obtain ⟨rfl, rfl⟩ := hyields.of_halt (some _) hcall
      rfl
  | plain hcall hkind hrest ih =>
      intro steps fault hyields
      obtain ⟨rest, rfl, hyieldsRest⟩ := hyields.of_token hcall
      rw [splice_of_plain hkind, ih rest fault hyieldsRest]
  | trigger hcall hkind haround hrest ihAround ihRest =>
      intro steps fault hyields
      obtain ⟨rest, rfl, hyieldsRest⟩ := hyields.of_token hcall
      rw [splice_of_trigger hkind ihAround, ihRest rest fault hyieldsRest]
  | triggerFails hcall hkind haround ih =>
      intro steps fault hyields
      obtain ⟨rest, rfl, -⟩ := hyields.of_token hcall
      exact splice_of_triggerFails hkind ih
  | noSide => rfl
  | skips hmeaning hrest ih => exact (sides_of_unknown hmeaning).trans ih
  | tooDeep hmeaning hdepth =>
      rw [Part.Gives, below_of_le (Nat.le_of_lt_succ hdepth)]
      exact sides_of_sideFails (side_of_tooDeep hmeaning)
  | enters hmeaning hdepth hside hrest ihSide ihRest =>
      rw [Part.Gives, below_of_lt hdepth] at ihRest ⊢
      rw [sides_of_side ((side_of_enters hmeaning _).trans ihSide.within_eq), ihRest]
  | sideFails hmeaning hdepth hside ih =>
      rw [Part.Gives, below_of_lt hdepth]
      exact sides_of_sideFails ((side_of_enters hmeaning _).trans ih.within_eq)

/-!
### What a scan computes follows the rules

By induction on the levels to spare, and for each level on the steps that a walk yields.
-/

theorem reads_walk {deeper : Deeper}
    (haround : ∀ token ds, Reads g limit depth (.around token ds) (sides g limit deeper token ds))
    {w : Walk} {steps : List Step} {fault : Option ScanError} (h : w.Yields g steps fault) :
    Reads g limit depth (.walk w) (splice g limit deeper fault steps) := by
  induction steps generalizing w with
  | nil =>
      obtain ⟨w', hnext⟩ := h.next_of_nil
      cases fault with
      | none => exact .ends (Walk.calls_iff.2 hnext)
      | some e => exact .fails (Walk.calls_iff.2 hnext)
  | cons step steps ih =>
      obtain ⟨w', hnext, hrest⟩ := h.next_of_cons
      have hcall := Walk.calls_iff.2 hnext
      cases hkind : step.token.kind.startsSideScan with
      | false =>
          rw [splice_of_plain hkind]
          exact .plain hcall hkind (ih hrest)
      | true =>
          have hsides := haround step.token step.heading.sides
          cases hresult : sides g limit deeper step.token step.heading.sides with
          | ok around =>
              rw [hresult] at hsides
              rw [splice_of_trigger hkind hresult]
              exact .trigger hcall hkind hsides (ih hrest)
          | error e =>
              rw [hresult] at hsides
              rw [splice_of_triggerFails hkind hresult]
              exact .triggerFails hcall hkind hsides

theorem reads_around
    (hside : depth < limit → ∀ p d, Reads g limit (depth + 1) (.walk (.start p d))
      (within g limit (limit - (depth + 1)) p d)) (token : Token) (ds : List Direction) :
    Reads g limit depth (.around token ds)
      (sides g limit (below g limit (limit - depth)) token ds) := by
  induction ds with
  | nil => exact .noSide
  | cons d ds ih =>
      by_cases hmeaning : (g.symbolAt (token.pos.step d)).meaning = .unknown
      · rw [sides_of_unknown hmeaning]
        exact .skips hmeaning ih
      rcases Nat.lt_or_ge depth limit with hdepth | hdepth
      · have hscan := hside hdepth (token.pos.step d) d
        rw [below_of_lt hdepth] at ih ⊢
        have henters : side g limit (some (within g limit (limit - (depth + 1)))) token d = _ :=
          side_of_enters hmeaning _
        cases hresult : within g limit (limit - (depth + 1)) (token.pos.step d) d with
        | ok first =>
            rw [hresult] at hscan henters
            rw [sides_of_side henters]
            exact .enters hmeaning hdepth hscan ih
        | error e =>
            rw [hresult] at hscan henters
            rw [sides_of_sideFails henters]
            exact .sideFails hmeaning hdepth hscan
      · rw [below_of_le hdepth, sides_of_sideFails (side_of_tooDeep hmeaning)]
        exact .tooDeep hmeaning (Nat.lt_succ_of_le hdepth)

theorem reads_within (g : Grid) (limit depth : Nat) (p : Position) (d : Direction) :
    Reads g limit depth (.walk (.start p d)) (within g limit (limit - depth) p d) := by
  induction hn : limit - depth using Nat.strongRecOn generalizing depth p d with
  | ind n ih =>
      subst hn
      obtain ⟨steps, fault, hyields, -⟩ := Walk.exists_yields g (Walk.start p d)
      rw [within_eq_splice hyields]
      refine reads_walk (reads_around fun hdepth p d => ?_) hyields
      exact ih _ (by omega) (depth + 1) p d rfl

/-- A scan has exactly one outcome by the rules, and it is the one that is computed. -/
theorem reads_iff {p : Position} {d : Direction} {o : Except ScanError (List Token)} :
    Reads g limit 0 (.walk (.start p d)) o ↔ o = scan g limit p d := by
  constructor
  · intro h
    exact h.gives.within_eq.symm
  · rintro rfl
    exact reads_within g limit 0 p d

/-!
### How much is read

A walk reads at most as many tokens as headings are left to it. Around each there are at most four
side-scans, with one level less to spare.
-/

/-- The most tokens of a side-scan: one that is the last level down reads a token for each heading,
and each level more has four scans of the level below around each token. -/
def most (headings levels : Nat) : Nat :=
  ∑ k ∈ Finset.range levels, 4 ^ k * headings ^ (k + 1)

theorem most_succ (headings levels : Nat) :
    most headings (levels + 1) = headings * (1 + 4 * most headings levels) := by
  rw [most, most, Finset.sum_range_succ', Nat.mul_add, Finset.mul_sum, Finset.mul_sum,
    Nat.add_comm]
  congr 1
  · simp
  · refine Finset.sum_congr rfl fun k _ => ?_
    ring

/-- The most tokens of a part of a scan. -/
def Part.most (g : Grid) (levels : Nat) : Part → Nat
  | .walk w => w.left g * (1 + 4 * Scan.most (6 * g.size) levels)
  | .around _ ds => ds.length * Scan.most (6 * g.size) levels

theorem Part.most_start (g : Grid) (levels : Nat) (p : Position) (d : Direction) :
    (Part.walk (.start p d)).most g levels ≤ Scan.most (6 * g.size) (levels + 1) := by
  rw [most_succ]
  exact Nat.mul_le_mul_right _ (Walk.left_le g _)

/-- One token with its side-scans uses up one heading. -/
theorem Part.add_most_le {w w' : Walk} (hleft : w'.left g < w.left g) {levels around rest : Nat}
    (haround : around ≤ 4 * Scan.most (6 * g.size) levels)
    (hrest : rest ≤ (Part.walk w').most g levels) :
    around + rest + 1 ≤ (Part.walk w).most g levels := by
  calc around + rest + 1
      ≤ (w'.left g + 1) * (1 + 4 * Scan.most (6 * g.size) levels) := by
        rw [Nat.succ_mul]
        rw [Part.most] at hrest
        omega
    _ ≤ w.left g * (1 + 4 * Scan.most (6 * g.size) levels) := Nat.mul_le_mul_right _ hleft

theorem Reads.length_le {part : Part} {o : Except ScanError (List Token)}
    (h : Reads g limit depth part o) (tokens : List Token) (ho : o = .ok tokens) :
    tokens.length ≤ part.most g (limit - depth) := by
  induction h generalizing tokens with
  | ends hcall =>
      cases ho
      exact Nat.zero_le _
  | @plain _ _ _ _ o hcall hkind hrest ih =>
      obtain _ | rest := o <;> cases ho
      have hlength := Part.add_most_le hcall.left_lt (Nat.zero_le _) (ih rest rfl)
      rwa [Nat.zero_add] at hlength
  | @trigger _ _ step _ around o hcall hkind haround hrest ihAround ihRest =>
      obtain _ | rest := o <;> cases ho
      have hfour : around.length ≤ step.heading.sides.length * _ := ihAround around rfl
      rw [Direction.length_sides] at hfour
      have hlength := Part.add_most_le hcall.left_lt hfour (ihRest rest rfl)
      rwa [← List.length_append] at hlength
  | noSide =>
      cases ho
      exact Nat.zero_le _
  | skips hmeaning hrest ih =>
      refine Nat.le_trans (ih tokens ho) ?_
      exact Nat.mul_le_mul_right _ (Nat.le_succ _)
  | @enters depth token d sides first o hmeaning hdepth hside hrest ihSide ihRest =>
      obtain _ | rest := o <;> cases ho
      have hfirst := Nat.le_trans (ihSide first rfl) (Part.most_start g _ _ _)
      rw [show limit - (depth + 1) + 1 = limit - depth by omega] at hfirst
      have hlength := Nat.add_le_add hfirst (ihRest rest rfl)
      rwa [Nat.add_comm (Scan.most _ _), ← List.length_append, Part.most, ← Nat.succ_mul] at hlength
  | _ => cases ho

/-- Each token of a scan has the kind that its cell stands for. -/
theorem Reads.kind_eq {part : Part} {o : Except ScanError (List Token)}
    (h : Reads g limit depth part o) (tokens : List Token) (ho : o = .ok tokens) :
    ∀ t ∈ tokens, (g.symbolAt t.pos).kind? = some t.kind := by
  induction h generalizing tokens with
  | ends hcall =>
      cases ho
      simp
  | @plain _ _ _ _ o hcall hkind hrest ih =>
      obtain _ | rest := o <;> cases ho
      exact List.forall_mem_cons.2 ⟨hcall.kind_eq, ih rest rfl⟩
  | @trigger _ _ step _ around o hcall hkind haround hrest ihAround ihRest =>
      obtain _ | rest := o <;> cases ho
      refine List.forall_mem_cons.2 ⟨hcall.kind_eq, List.forall_mem_append.2 ⟨?_, ihRest rest rfl⟩⟩
      exact ihAround around rfl
  | noSide =>
      cases ho
      simp
  | skips hmeaning hrest ih => exact ih tokens ho
  | @enters depth token d sides first o hmeaning hdepth hside hrest ihSide ihRest =>
      obtain _ | rest := o <;> cases ho
      exact List.forall_mem_append.2 ⟨ihSide first rfl, ihRest rest rfl⟩
  | _ => cases ho

end Scan

/-- Scanning ends on every grid, whatever its cells are.

* A call of a walk in any state has one answer by rules that bound no number of cells.
* A walk in any state gives at most six tokens for each stored cell, and then it ends or fails.
* A scan has one outcome by rules that bound no number of steps or side-scans.
* A scan that succeeds has a bounded number of tokens, and each has the kind that its cell stands
  for. -/
theorem scan_terminates (g : Grid) (limit : Nat) (p : Position) (d : Direction) :
    (∀ w r w', Walk.Calls g w r w' ↔ w.next g = (r, w')) ∧
      (∀ w : Walk, ∃ steps fault, w.Yields g steps fault ∧ steps.length ≤ 6 * g.size) ∧
      (∀ o, Scan.Reads g limit 0 (.walk (.start p d)) o ↔ o = scan g limit p d) ∧
      ∀ tokens, scan g limit p d = .ok tokens →
        tokens.length ≤ ∑ k ∈ Finset.range (limit + 1), 4 ^ k * (6 * g.size) ^ (k + 1) ∧
          ∀ t ∈ tokens, (g.symbolAt t.pos).kind? = some t.kind := by
  refine ⟨fun w r w' => Walk.calls_iff, fun w => ?_, fun o => Scan.reads_iff,
    fun tokens hscan => ?_⟩
  · obtain ⟨steps, fault, hyields, hlength⟩ := Walk.exists_yields g w
    exact ⟨steps, fault, hyields, Nat.le_trans hlength (w.left_le g)⟩
  · have hreads : Scan.Reads g limit 0 (.walk (.start p d)) (.ok tokens) :=
      Scan.reads_iff.2 hscan.symm
    refine ⟨?_, hreads.kind_eq tokens rfl⟩
    exact Nat.le_trans (hreads.length_le tokens rfl) (Scan.Part.most_start g limit p d)

/-- A line that turns up after its first token, which has a constant on one of its sides. -/
def turnWithSide : Grid :=
  let line := (Grid.empty.place ⟨0, 0, 0⟩ (TokenKind.symbol .print)).place ⟨1, 1, 0⟩
    (TokenKind.symbol .stop)
  (line.placeFacing ⟨1, 0, 0⟩ .redirector .up).place ⟨0, 0, 1⟩ (TokenKind.symbol .pi)

/-- With four cells and one level of side-scans there are three tokens, well within the bound. -/
theorem scan_terminates_turnWithSide :
    scan turnWithSide 1 ⟨0, 0, 0⟩ .east =
        .ok [⟨.print, ⟨0, 0, 0⟩⟩, ⟨.pi, ⟨0, 0, 1⟩⟩, ⟨.stop, ⟨1, 1, 0⟩⟩] ∧
      3 ≤ ∑ k ∈ Finset.range 2, 4 ^ k * (6 * turnWithSide.size) ^ (k + 1) ∧
      (turnWithSide.symbolAt ⟨0, 0, 1⟩).kind? = some .pi := by
  have hscan : scan turnWithSide 1 ⟨0, 0, 0⟩ .east =
      .ok [⟨.print, ⟨0, 0, 0⟩⟩, ⟨.pi, ⟨0, 0, 1⟩⟩, ⟨.stop, ⟨1, 1, 0⟩⟩] := by
    rfl
  obtain ⟨-, -, -, hbound⟩ := scan_terminates turnWithSide 1 ⟨0, 0, 0⟩ .east
  obtain ⟨hlength, hkind⟩ := hbound _ hscan
  exact ⟨hscan, hlength, hkind ⟨.pi, ⟨0, 0, 1⟩⟩ (by simp)⟩

end CellScript
