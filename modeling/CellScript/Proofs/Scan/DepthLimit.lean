/-
Module: CellScript.Proofs.Scan.DepthLimit
Purpose: A lower limit on side-scans does not change what is read: it is the same, or the scan fails
  at the limit.
Main exports: Scan.Curbed, Scan.curbed_within, scan_of_lower_limit
-/
import CellScript.Scan

namespace CellScript

namespace Scan

/-- The first of two scans gave what the second did, or it met its limit. -/
def Curbed {α : Type} (limit : Nat) (short long : Except ScanError α) : Prop :=
  short = long ∨ ∃ pos, short = .error (.depthExceeded pos limit)

/-- The scan one level down, which is there only within the limit. -/
abbrev Deeper := Option (Position → Direction → Except ScanError (List Token))

/-- What is one level down is curbed too, if it is there at all. -/
def CurbedBelow (limit : Nat) (short long : Deeper) : Prop :=
  ∀ scan, short = some scan →
    ∃ other, long = some other ∧ ∀ p d, Curbed limit (scan p d) (other p d)

section Curbed

variable {α β : Type} {low high : Nat}

theorem Curbed.refl (result : Except ScanError α) : Curbed low result result :=
  .inl rfl

/-- Going on after two scans. Where the first one met its limit, nothing comes after it. -/
theorem Curbed.bind {short long : Except ScanError α} {f g : α → Except ScanError β}
    (h : Curbed low short long) (hnext : ∀ a, Curbed low (f a) (g a)) :
    Curbed low (short >>= f) (long >>= g) := by
  rcases h with rfl | ⟨pos, rfl⟩
  · cases short with
    | error e => exact .refl _
    | ok a => exact hnext a
  · exact .inr ⟨pos, rfl⟩

variable {g : Grid} {short long : Deeper}

theorem curbed_side (h : CurbedBelow low short long) (token : Token) (d : Direction) :
    Curbed low (side g low short token d) (side g high long token d) := by
  unfold side
  simp only
  split
  · exact .refl _
  · cases short with
    | none => exact .inr ⟨_, rfl⟩
    | some scan =>
        obtain ⟨other, rfl, hscan⟩ := h scan rfl
        exact hscan _ d

theorem curbed_sides (h : CurbedBelow low short long) (token : Token) (ds : List Direction) :
    Curbed low (sides g low short token ds) (sides g high long token ds) := by
  induction ds with
  | nil => exact .refl _
  | cons d ds ih =>
      apply (curbed_side h token d).bind
      intro first
      exact ih.bind fun others => .refl _

theorem curbed_splice (h : CurbedBelow low short long) (fault : Option ScanError)
    (steps : List Step) :
    Curbed low (splice g low short fault steps) (splice g high long fault steps) := by
  induction steps with
  | nil => exact .refl _
  | cons step steps ih =>
      have hrest : ∀ around, Curbed low
          (do
            let others ← splice g low short fault steps
            return step.token :: (around ++ others))
          (do
            let others ← splice g high long fault steps
            return step.token :: (around ++ others)) := by
        intro around
        exact ih.bind fun others => .refl _
      rw [splice, splice]
      split
      · exact (curbed_sides h step.token step.heading.sides).bind hrest
      · exact (Curbed.refl (.ok [])).bind hrest

/-- Fewer levels to spare only make a scan meet its limit. -/
theorem curbed_within {n k : Nat} (h : n ≤ k) (p : Position) (d : Direction) :
    Curbed low (within g low n p d) (within g high k p d) := by
  induction n generalizing k p d with
  | zero =>
      have hbelow : ∀ long, CurbedBelow low none long := by
        intro long scan hscan
        cases hscan
      cases k with
      | zero => exact curbed_splice (hbelow _) _ _
      | succ k => exact curbed_splice (hbelow _) _ _
  | succ n ih =>
      cases k with
      | zero => exact absurd h (Nat.not_succ_le_zero n)
      | succ k =>
          apply curbed_splice
          rintro _ ⟨⟩
          exact ⟨_, rfl, ih (Nat.le_of_succ_le_succ h)⟩

end Curbed

end Scan

/-- Under a lower limit a scan reads the same tokens or has the same error, unless the limit was
really lowered and the scan ends there. -/
theorem scan_of_lower_limit (g : Grid) {low high : Nat} (h : low ≤ high) (p : Position)
    (d : Direction) :
    scan g low p d = scan g high p d ∨
      low < high ∧ ∃ pos, scan g low p d = .error (.depthExceeded pos low) := by
  rcases Nat.eq_or_lt_of_le h with rfl | hlt
  · exact .inl rfl
  · rcases Scan.curbed_within h p d with heq | hlimit
    · exact .inl heq
    · exact .inr ⟨hlt, hlimit⟩

end CellScript
