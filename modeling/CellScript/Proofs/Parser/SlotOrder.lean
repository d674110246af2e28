/-
Module: CellScript.Proofs.Parser.SlotOrder
Purpose: The slots of a statement may be written in any order. Each fills its own place of the
  table, so that a statement is the same for all orders, and with it the program.
Main exports: Parser.Segment, Parser.Segment.Holds, Parser.Adds, Parser.Adds.perm,
  Program.parse_slot_order
-/
import CellScript.Proofs.Parser.Visits
import Mathlib.Data.List.Perm.Basic

namespace CellScript

namespace Parser

/-! ### Written slots -/

/-- A slot as it is written: its marker, and what stands after it. -/
structure Segment where
  marker : Token
  contents : List Token

namespace Segment

/-- The tokens of a written slot. -/
def tokens (seg : Segment) : List Token :=
  seg.marker :: seg.contents

/-- The tokens of written slots, one slot after the other. -/
def spell (segments : List Segment) : List Token :=
  segments.flatMap tokens

theorem spell_cons_append (seg : Segment) (segments : List Segment) (post : List Token) :
    spell (seg :: segments) ++ post =
      seg.marker :: (seg.contents ++ (spell segments ++ post)) := by
  simp [spell, tokens]

/-- A written slot of the statement that `keyword` starts, and what it holds. A statement in a slot
has no slots of its own. -/
def Holds (g : Grid) (room : Nat) (keyword : Token) (seg : Segment) (filling : Filling) : Prop :=
  ∃ use, slotUse? keyword.kind seg.marker.kind = some use ∧
    readSlot room (levelBelow (stmtReader g) room) keyword use seg.marker seg.contents =
      .ok (filling, []) ∧
    ∀ stmt, filling = .statement stmt → stmt.isSlotless = true

/-- No token stands where a template line would begin. -/
def Clear (keyword : Token) (segments : List Segment) (ts : List Token) : Prop :=
  keyword.kind = .placeBlock → ∀ seg ∈ segments, seg.marker.kind = .fourthArgument →
    ∀ t ∈ ts, t.pos ≠ seg.marker.pos + (seg.marker.pos - keyword.pos)

end Segment

theorem slotUse?_eq_template {statement marker : TokenKind}
    (h : slotUse? statement marker = some .template) :
    statement = .placeBlock ∧ marker = .fourthArgument := by
  unfold slotUse? at h
  split at h <;> simp_all

theorem skipLine_of_clear (displacement : Position) {next : Position} {ts : List Token}
    (h : ∀ t ∈ ts, t.pos ≠ next) : skipLine displacement next ts = ts := by
  cases ts with
  | nil => rfl
  | cons token ts => rw [skipLine, if_neg (h token List.mem_cons_self)]

section Orders

variable {g : Grid} {room : Nat} {keyword : Token}

/-- A written slot holds the same wherever it stands, if what follows cannot go on with an
expression and is no template line. -/
theorem Segment.Holds.readSlot_append {seg : Segment} {filling : Filling} {use : SlotUse}
    {following : List Token} (h : seg.Holds g room keyword filling)
    (huse : slotUse? keyword.kind seg.marker.kind = some use)
    (hfollowing : NotFirst extendsSum following)
    (hclear : Segment.Clear keyword [seg] (seg.contents ++ following)) :
    readSlot room (levelBelow (stmtReader g) room) keyword use seg.marker
      (seg.contents ++ following) = .ok (filling, following) := by
  obtain ⟨use', huse', hread, hplain⟩ := h
  cases huse.symm.trans huse'
  obtain ⟨used, hcontents, hused⟩ := readSlot_local (below_local g room) hread
  rw [List.append_nil] at hcontents
  subst hcontents
  cases use with
  | value =>
      obtain ⟨⟨e, mid⟩, -, h⟩ := ok_of_bind hread
      cases h
      exact hused following (.inr hfollowing)
  | branch =>
      obtain ⟨⟨body, mid⟩, -, h⟩ := ok_of_bind hread
      cases h
      exact hused following trivial
  | statement =>
      obtain ⟨⟨stmt, mid⟩, -, h⟩ := ok_of_bind hread
      cases h
      exact hused following (.inr ⟨hplain stmt rfl, hfollowing⟩)
  | template =>
      -- nothing stands on the template line, neither in the slot nor after it
      obtain ⟨hkeyword, hmarker⟩ := slotUse?_eq_template huse
      have hoff := hclear hkeyword seg List.mem_cons_self hmarker
      obtain ⟨hcontents, hrest⟩ := List.forall_mem_append.1 hoff
      simp only [readSlot, skipLine_of_clear _ hcontents] at hread
      obtain ⟨rfl, hnil⟩ := Prod.mk.inj (Except.ok.inj hread)
      simp only [readSlot, hnil, List.nil_append, skipLine_of_clear _ hrest]

/-- Written slots are read into a table one after the other, each into a place that is free. -/
inductive Adds (g : Grid) (room : Nat) (keyword : Token) :
    SlotTable → List Segment → SlotTable → Prop where
  | nil (s : SlotTable) : Adds g room keyword s [] s
  | cons {s s' : SlotTable} {seg : Segment} {segments : List Segment} {filling : Filling} :
      s seg.marker.kind = none → seg.Holds g room keyword filling →
      Adds g room keyword (Function.update s seg.marker.kind (some filling)) segments s' →
      Adds g room keyword s (seg :: segments) s'

/-- The order of slots does not matter to the table. -/
theorem Adds.perm {s s' : SlotTable} {segments segments' : List Segment}
    (hperm : segments.Perm segments') (h : Adds g room keyword s segments s') :
    Adds g room keyword s segments' s' := by
  induction hperm generalizing s with
  | nil => exact h
  | cons seg _ ih =>
      cases h with
      | cons hopen hholds h => exact .cons hopen hholds (ih h)
  | swap first second segments =>
      cases h with
      | cons hsecond hholds₂ h =>
          cases h with
          | cons hfirst hholds₁ h =>
              -- the place of one slot was free when the other was filled already
              have hne : first.marker.kind ≠ second.marker.kind := by
                intro heq
                rw [heq, Function.update_self] at hfirst
                cases hfirst
              rw [Function.update_of_ne hne] at hfirst
              rw [Function.update_comm hne.symm] at h
              refine .cons hfirst hholds₁ (.cons ?_ hholds₂ h)
              rw [Function.update_of_ne hne.symm]
              exact hsecond
  | trans _ _ ih₁ ih₂ => exact ih₂ (ih₁ h)

theorem notFirst_spell {segments : List Segment} {post : List Token}
    (h : ∀ seg ∈ segments, ∃ filling, seg.Holds g room keyword filling)
    (hpost : NotFirst extendsSum post) : NotFirst extendsSum (Segment.spell segments ++ post) := by
  cases segments with
  | nil => exact hpost
  | cons seg segments =>
      obtain ⟨filling, use, huse, -⟩ := h seg List.mem_cons_self
      exact notFirst_argument (isArgument_of_slotUse? huse) _

theorem Adds.holds {s s' : SlotTable} {segments : List Segment}
    (h : Adds g room keyword s segments s') :
    ∀ seg ∈ segments, ∃ filling, seg.Holds g room keyword filling := by
  induction h with
  | nil s => exact List.forall_mem_nil _
  | cons _ hholds _ ih => exact List.forall_mem_cons.2 ⟨⟨_, hholds⟩, ih⟩

theorem Segment.Clear.mono {segments segments' : List Segment} {ts ts' : List Token}
    (h : Clear keyword segments ts) (hsegments : segments' ⊆ segments) (hts : ts' ⊆ ts) :
    Clear keyword segments' ts' :=
  fun hkind seg hseg hmarker t ht => h hkind seg (hsegments hseg) hmarker t (hts ht)

/-- Reading written slots comes to the table that they add up to. -/
theorem Adds.tableRest_eq {s s' : SlotTable} {segments : List Segment} {post : List Token}
    (h : Adds g room keyword s segments s') (hpost : NotFirst extendsSum post)
    (hclear : Segment.Clear keyword segments (Segment.spell segments ++ post)) :
    tableRest room (levelBelow (stmtReader g) room) keyword s (Segment.spell segments ++ post) =
      tableRest room (levelBelow (stmtReader g) room) keyword s' post := by
  induction h with
  | nil s => rfl
  | @cons s s' seg segments filling hopen hholds hadds ih =>
      have hfollowing := notFirst_spell hadds.holds hpost
      obtain ⟨use, huse, -⟩ := id hholds
      rw [Segment.spell_cons_append] at hclear ⊢
      have hread := hholds.readSlot_append huse hfollowing
        (hclear.mono (by simp) (List.subset_cons_self _ _))
      rw [tableRest_slot (below_local g room) _ huse hopen]
      refine (bind_of_ok hread _).trans (ih (hclear.mono (List.subset_cons_self _ _) ?_))
      exact List.subset_cons_of_subset _ (List.subset_append_right _ _)

/-- Conversely, where reading written slots leaves what stands after them, they add up. -/
theorem adds_of_tableRest {s s' : SlotTable} {segments : List Segment} {post : List Token}
    (hsegments : ∀ seg ∈ segments, ∃ filling, seg.Holds g room keyword filling)
    (hpost : NotFirst extendsSum post)
    (hclear : Segment.Clear keyword segments (Segment.spell segments ++ post))
    (h : tableRest room (levelBelow (stmtReader g) room) keyword s
      (Segment.spell segments ++ post) = .ok (s', post)) :
    ∃ s₁, Adds g room keyword s segments s₁ := by
  induction segments generalizing s with
  | nil => exact ⟨s, .nil s⟩
  | cons seg segments ih =>
      obtain ⟨⟨filling, hholds⟩, hothers⟩ := List.forall_mem_cons.1 hsegments
      have hfollowing := notFirst_spell hothers hpost
      obtain ⟨use, huse, -⟩ := id hholds
      rw [Segment.spell_cons_append] at hclear h
      have hread := hholds.readSlot_append huse hfollowing
        (hclear.mono (by simp) (List.subset_cons_self _ _))
      rcases tableRest_cons_ok (below_local g room) h with
        ⟨-, hend, -⟩ | ⟨s₁, mid, hfill, hmid⟩ | ⟨-, -, hnone, -⟩
      · -- the statement would end before its own slots
        have hlength := congrArg List.length hend
        simp only [List.length_cons, List.length_append] at hlength
        omega
      · obtain ⟨use', filling', huse', hopen, hread', rfl⟩ := fillTable_ok hfill
        cases huse.symm.trans huse'
        cases hread.symm.trans hread'
        obtain ⟨s₂, hadds⟩ := ih hothers (hclear.mono (List.subset_cons_self _ _)
          (List.subset_cons_of_subset _ (List.subset_append_right _ _))) hmid
        exact ⟨s₂, .cons hopen hholds hadds⟩
      · rw [huse] at hnone
        cases hnone

/-- A statement that takes its keyword and its written slots is the same for all orders. -/
theorem stmtReader_slot_order {stmt : Stmt} {segments segments' : List Segment}
    {post : List Token} (hkeyword : hasSlots keyword.kind = true)
    (hsegments : ∀ seg ∈ segments, ∃ filling, seg.Holds g room keyword filling)
    (hclear : Segment.Clear keyword segments (Segment.spell segments ++ post))
    (hpost : NotFirst extendsSum post) (hperm : segments.Perm segments')
    (h : stmtReader g room (keyword :: (Segment.spell segments ++ post)) = .ok (stmt, post)) :
    stmtReader g room (keyword :: (Segment.spell segments' ++ post)) = .ok (stmt, post) := by
  have htable := h
  rw [stmtReader_eq_assembled _ hkeyword] at htable
  obtain ⟨s, hs, -⟩ := assembled_ok htable
  obtain ⟨s₁, hadds⟩ := adds_of_tableRest hsegments hpost hclear hs
  have hclear' : Segment.Clear keyword segments' (Segment.spell segments' ++ post) := by
    refine hclear.mono hperm.symm.subset (List.append_subset.2 ⟨?_, ?_⟩)
    · exact fun t ht => List.mem_append_left _ ((hperm.symm.flatMap_right _).subset ht)
    · exact List.subset_append_right _ _
  rw [← h, stmtReader_eq_assembled _ hkeyword, stmtReader_eq_assembled _ hkeyword,
    hadds.tableRest_eq hpost hclear, (hadds.perm hperm).tableRest_eq hpost hclear']

end Orders

end Parser

/-- Let a statement be read somewhere in a program, from its keyword and its written slots, so that
it ends before `post`. Where it is `FOR`, the statements in its slots have no slots of their own,
and where it is `PLACEBLOCK`, no token stands where its template line would begin. If the program is
accepted with the slots in one order, then it is accepted with them in any order, and it is the
same. -/
theorem Program.parse_slot_order (g : Grid) {before post : List Token} {keyword : Token}
    {segments segments' : List Parser.Segment} {room : Nat} {stmt : Stmt} {program : Program}
    (hkeyword : Parser.hasSlots keyword.kind = true)
    (hsegments : ∀ seg ∈ segments, ∃ filling, seg.Holds g room keyword filling)
    (hclear : Parser.Segment.Clear keyword segments (Parser.Segment.spell segments ++ post))
    (hvisits : Program.Visits g (before ++ keyword :: (Parser.Segment.spell segments ++ post)) room
      (keyword :: (Parser.Segment.spell segments ++ post)))
    (hstmt : Parser.stmtReader g room (keyword :: (Parser.Segment.spell segments ++ post)) =
      .ok (stmt, post))
    (hparse : Program.parse g (before ++ keyword :: (Parser.Segment.spell segments ++ post)) =
      .ok program)
    (hperm : segments.Perm segments') :
    Program.parse g (before ++ keyword :: (Parser.Segment.spell segments' ++ post)) =
      .ok program := by
  obtain ⟨stmt', rest, hread, hrest⟩ := hvisits.endsWell hparse
  cases hread.symm.trans hstmt
  have hsame := Parser.stmtReader_slot_order hkeyword hsegments hclear hrest hperm hstmt
  obtain ⟨before', hbefore, hcongr⟩ := hvisits.parse_congr
  cases List.append_cancel_right hbefore
  exact (hcongr (keyword :: (Parser.Segment.spell segments' ++ post)) rfl
    (hsame.trans hstmt.symm)).trans hparse

/-- A written slot on the first axis. -/
def Parser.Segment.ofKinds (x : Nat) (marker : TokenKind) (contents : List TokenKind) : Segment :=
  ⟨⟨marker, ⟨.ofNat x, 0, 0⟩⟩,
    contents.mapIdx fun i kind => ⟨kind, ⟨.ofNat (x + i + 1), 0, 0⟩⟩⟩

/-- The slots of `FOR`, with assignments in the first and the third. -/
def forSegments : List Parser.Segment :=
  [.ofKinds 10 .firstArgument [.float, .pi], .ofKinds 20 .secondArgument [.pi],
    .ofKinds 30 .thirdArgument [.float, .varIndex, .pi],
    .ofKinds 40 .fourthArgument [.stop, .branchEnd]]

/-- `FOR` in the branch of a condition, with its slots in an order. -/
def forInBranch (segments : List Parser.Segment) : List Token :=
  (⟨.ifElse, ⟨0, 0, 0⟩⟩ :: Parser.Segment.spell
      [.ofKinds 1 .firstArgument [.pi], .ofKinds 3 .secondArgument []]) ++
    ⟨.forLoop, ⟨9, 0, 0⟩⟩ :: (Parser.Segment.spell segments ++ [⟨.branchEnd, ⟨50, 0, 0⟩⟩])

/-- The slots may come last first. -/
theorem parse_slot_order_forInBranch :
    ∃ program, Program.parse .empty (forInBranch forSegments) = .ok program ∧
      Program.parse .empty (forInBranch forSegments.reverse) = .ok program := by
  have hvisits : Program.Visits .empty (forInBranch forSegments) 255
      ((forInBranch forSegments).drop 4) :=
    ⟨[], _, .refl _, .single (.branch rfl ⟨_, rfl, .fill rfl (.refl _ _)⟩ (.refl _) (by decide))⟩
  have hsegments : ∀ seg ∈ forSegments, ∃ filling,
      seg.Holds .empty 255 ⟨.forLoop, ⟨9, 0, 0⟩⟩ filling := by
    simp only [forSegments, List.forall_mem_cons]
    refine ⟨⟨_, _, rfl, rfl, ?_⟩, ⟨_, _, rfl, rfl, ?_⟩, ⟨_, _, rfl, rfl, ?_⟩, ⟨_, _, rfl, rfl, ?_⟩,
      List.forall_mem_nil _⟩
    · rintro _ ⟨⟩
      rfl
    · rintro _ ⟨⟩
    · rintro _ ⟨⟩
      rfl
    · rintro _ ⟨⟩
  exact ⟨_, rfl, Program.parse_slot_order .empty rfl hsegments (by rintro ⟨⟩) hvisits rfl rfl
    (List.reverse_perm _).symm⟩

end CellScript
