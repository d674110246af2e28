/-
Module: CellScript.Proofs.Value.FloatText
Purpose: A number in single precision converted to a text and back is the same number, to the bit.
  White space around the text does not matter.
Main exports: Text.trim_append, Single.SpellsPattern, Single.ofText?_text, Value.coerce_float_string
-/
import CellScript.Proofs.Number.DecimalText
import CellScript.Value

namespace CellScript

namespace Text

theorem dropWhile_isBlank_of_solid {cs : List Char} (h : ∀ c ∈ cs, isBlank c = false) :
    cs.dropWhile isBlank = cs := by
  cases cs with
  | nil => rfl
  | cons c cs => exact List.dropWhile_cons_of_neg (Bool.not_eq_true _ ▸ h c List.mem_cons_self)

/-- Trimming takes away the white space around a text that has none itself. -/
theorem trim_append {before cs after : List Char} (hbefore : ∀ c ∈ before, isBlank c = true)
    (hsolid : ∀ c ∈ cs, isBlank c = false) (hafter : ∀ c ∈ after, isBlank c = true) :
    trim (before ++ cs ++ after) = cs := by
  have hreverse : ∀ c ∈ cs.reverse, isBlank c = false := fun c hc =>
    hsolid c (List.mem_reverse.1 hc)
  have hback : ∀ c ∈ after.reverse, isBlank c = true := fun c hc =>
    hafter c (List.mem_reverse.1 hc)
  have hfront : (before ++ cs ++ after).dropWhile isBlank = (cs ++ after).dropWhile isBlank := by
    rw [List.append_assoc, List.dropWhile_append_of_pos hbefore]
  rw [trim, hfront]
  cases cs with
  | nil => simp [List.dropWhile_eq_nil_iff.2 hafter]
  | cons c cs =>
      have hc : ¬isBlank c = true := by simp [hsolid c List.mem_cons_self]
      rw [List.cons_append, List.dropWhile_cons_of_neg hc, ← List.cons_append,
        List.reverse_append, List.dropWhile_append_of_pos hback,
        dropWhile_isBlank_of_solid hreverse, List.reverse_reverse]

/-- The white space characters of ASCII. -/
def asciiBlanks : List Char :=
  [' ', '\t', '\n', '\x0B', '\x0C', '\r']

theorem isBlank_of_mem_asciiBlanks : ∀ c ∈ asciiBlanks, isBlank c = true :=
  List.all_eq_true.1 (by decide)

end Text

namespace Single

/-!
### Magnitudes

A sign stands before the text of a magnitude, which has no sign and no white space of its own.
-/

/-- A text without sign and white space that is read as a pattern. -/
structure SpellsPattern (cs : List Char) (pattern : Nat) : Prop where
  reads : readMagnitude? cs = some pattern
  unsigned : ∀ rest, cs ≠ '-' :: rest ∧ cs ≠ '+' :: rest
  solid : ∀ c ∈ cs, Text.isBlank c = false

variable {cs : List Char} {d : Decimal}

/-- The words for special values start with letters, and decimals with digits. -/
theorem readMagnitude?_of_decimalText (h : DecimalText cs d) :
    readMagnitude? cs = some (patternOfDecimal d) := by
  obtain ⟨c, rest, rfl, hc⟩ := h.exists_cons
  have hletters : c.toLower ≠ 'i' ∧ c.toLower ≠ 'n' := by
    obtain ⟨k, hk, rfl⟩ := Text.exists_digitChar_of_isDigit hc
    exact (by decide : ∀ k < 10, k.digitChar.toLower ≠ 'i' ∧ k.digitChar.toLower ≠ 'n') k hk
  simp [readMagnitude?, hletters, h.readDecimal?_eq]

theorem spellsPattern_of_decimalText (h : DecimalText cs d) :
    SpellsPattern cs (patternOfDecimal d) where
  reads := readMagnitude?_of_decimalText h
  unsigned := by
    obtain ⟨c, rest, rfl, hc⟩ := h.exists_cons
    intro tail
    constructor
    · rintro ⟨⟩
      exact absurd hc (by decide)
    · rintro ⟨⟩
      exact absurd hc (by decide)
  solid := h.not_isBlank

theorem spellsPattern_infinity : SpellsPattern ['i', 'n', 'f'] infinityPattern where
  reads := rfl
  unsigned := by simp
  solid := by simp [Text.isBlank, Text.blankRanges]

theorem spellsPattern_zero : SpellsPattern ['0', '.', '0'] 0 where
  reads := by decide
  unsigned := by simp
  solid := by simp [Text.isBlank, Text.blankRanges]

/-- The layout of the shortest decimal spells its pattern: its value is that of the decimal which
reads back. -/
theorem spellsPattern_shortest {pattern : Nat} (hpos : 0 < pattern)
    (hfinite : pattern < infinityPattern) :
    SpellsPattern (shortest pattern).layout.toList pattern := by
  have hback := readsBack_shortest hpos
  obtain ⟨-, hlow, hhigh⟩ := lead_bounds_of_readsBack hpos hfinite hback
  have hcap : (shortest pattern).lead.natAbs < exponentCap := by
    unfold Decimal.lead exponentCap
    omega
  obtain ⟨d, htext, hvalue⟩ := Decimal.decimalText_layout hcap
  have hspells := spellsPattern_of_decimalText htext
  rw [← readsBack_congr hvalue] at hback
  rwa [patternOfDecimal_of_readsBack hpos hfinite hback] at hspells

/-!
### Signs
-/

theorem ofText?_of_spellsPattern {pattern : Nat} (h : SpellsPattern cs pattern) (negative : Bool) :
    ofText? (if negative then '-' :: cs else cs) = some (ofPattern negative pattern) := by
  cases negative with
  | true =>
      show (readMagnitude? cs).map (ofPattern true) = _
      rw [h.reads, Option.map_some]
  | false =>
      show ofText? cs = _
      unfold ofText?
      split
      · exact absurd rfl (h.unsigned _).1
      · exact absurd rfl (h.unsigned _).2
      · rw [h.reads, Option.map_some]

/-- A number is its sign and its pattern. -/
theorem ofPattern_pattern (x : Single) : ofPattern x.negative x.pattern = x := by
  have hpattern : x.pattern < 2 ^ 31 := Nat.mod_lt _ (by decide)
  have hsplit : (if x.negative then 2 ^ 31 else 0) + x.pattern = x.bits.toNat := by
    have hbits := x.bits.toNat_lt
    have hmod : x.pattern = x.bits.toNat % 2 ^ 31 := rfl
    have hsign : x.negative = decide (2 ^ 31 ≤ x.bits.toNat) := rfl
    rw [hsign, hmod]
    simp only [decide_eq_true_eq]
    split <;> omega
  have hbits := toNat_ofPattern x.negative hpattern
  rw [hsplit] at hbits
  exact congrArg Single.mk (UInt32.toNat_inj.1 hbits)

/-- The text of a number is the text of its magnitude, with a sign if it is negative. -/
theorem exists_spellsPattern_text {x : Single} (hx : x.isNaN = false) :
    ∃ cs, SpellsPattern cs x.pattern ∧
      x.text.toList = if x.negative then '-' :: cs else cs := by
  have hle : x.pattern ≤ infinityPattern := Nat.not_lt.1 (of_decide_eq_false hx)
  rcases Nat.lt_or_eq_of_le hle with hfinite | hinfinite
  · have hclass : x.classify = .finite x.negative (units x.pattern) := if_pos hfinite
    rcases Nat.eq_zero_or_pos x.pattern with hzero | hpos
    · refine ⟨['0', '.', '0'], hzero ▸ spellsPattern_zero, ?_⟩
      simp only [text, hclass, units_eq_zero_iff.2 hzero, if_true]
      cases x.negative <;> rfl
    · refine ⟨_, spellsPattern_shortest hpos hfinite, ?_⟩
      have hunits : units x.pattern ≠ 0 := mt units_eq_zero_iff.1 (Nat.ne_of_gt hpos)
      simp only [text, hclass, if_neg hunits]
      cases x.negative with
      | true => exact String.toList_append
      | false => rfl
  · have hclass : x.classify = .infinite x.negative := by
      rw [classify, if_neg (Nat.not_lt.2 (Nat.le_of_eq hinfinite.symm)), if_pos hinfinite]
    refine ⟨['i', 'n', 'f'], hinfinite ▸ spellsPattern_infinity, ?_⟩
    simp only [text, hclass]
    cases x.negative <;> rfl

/-- The text of a number, with white space around it, is read as the number. -/
theorem ofText?_text {x : Single} (hx : x.isNaN = false) {before after : List Char}
    (hbefore : ∀ c ∈ before, Text.isBlank c = true)
    (hafter : ∀ c ∈ after, Text.isBlank c = true) :
    ofText? (Text.trim (before ++ x.text.toList ++ after)) = some x := by
  obtain ⟨cs, hspells, htext⟩ := exists_spellsPattern_text hx
  have hsolid : ∀ c ∈ x.text.toList, Text.isBlank c = false := by
    rw [htext]
    split
    · exact List.forall_mem_cons.2 ⟨by decide, hspells.solid⟩
    · exact hspells.solid
  rw [Text.trim_append hbefore hsolid hafter, htext, ofText?_of_spellsPattern hspells,
    ofPattern_pattern]

end Single

namespace Value

theorem coerce?_text_float {x : Single} (hx : x.isNaN = false) {before after : String}
    (hbefore : ∀ c ∈ before.toList, Text.isBlank c = true)
    (hafter : ∀ c ∈ after.toList, Text.isBlank c = true) :
    (string (before ++ x.text ++ after)).coerce? .float = some (float x) := by
  have hread := Single.ofText?_text hx hbefore hafter
  rw [← String.toList_append, ← String.toList_append] at hread
  show (Single.ofText? (Text.trim (before ++ x.text ++ after).toList)).map float = _
  rw [hread, Option.map_some]

/-- A number in single precision converted to a text and back has the same bits, whether it is
zero of either sign, subnormal, normal or infinite. White space around the text changes nothing. -/
theorem coerce_float_string (x : Single) (hx : x.isNaN = false) (before after : String)
    (hbefore : ∀ c ∈ before.toList, c ∈ Text.asciiBlanks)
    (hafter : ∀ c ∈ after.toList, c ∈ Text.asciiBlanks) :
    ((float x).coerce? .string).bind (fun v => v.coerce? .float) = some (float x) ∧
      ∃ text, (float x).coerce? .string = some (string text) ∧
        (string (before ++ text ++ after)).coerce? .float = some (float x) := by
  have hbare : (string ("" ++ x.text ++ "")).coerce? .float = some (float x) :=
    coerce?_text_float hx nofun nofun
  rw [String.empty_append, String.append_empty] at hbare
  refine ⟨hbare, x.text, rfl, ?_⟩
  exact coerce?_text_float hx (fun c hc => Text.isBlank_of_mem_asciiBlanks c (hbefore c hc))
    (fun c hc => Text.isBlank_of_mem_asciiBlanks c (hafter c hc))

theorem coerce_float_string_leastSubnormal :
    Single.isNaN ⟨0x80000001⟩ = false ∧ '\t' ∈ Text.asciiBlanks ∧
      Single.text ⟨0x80000001⟩ = "-1e-45" ∧
      ((float ⟨0x80000001⟩).coerce? .string).bind (fun v => v.coerce? .float) =
        some (float ⟨0x80000001⟩) ∧
      ∃ text, (float ⟨0x80000001⟩).coerce? .string = some (string text) ∧
        (string ("\t " ++ text ++ "\r\n")).coerce? .float = some (float ⟨0x80000001⟩) :=
  ⟨by decide, by simp [Text.asciiBlanks], by decide +kernel,
    coerce_float_string ⟨0x80000001⟩ (by decide) "\t " "\r\n"
      (by simp [Text.asciiBlanks]) (by simp [Text.asciiBlanks])⟩

end Value

end CellScript
