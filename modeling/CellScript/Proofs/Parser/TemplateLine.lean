/-
Module: CellScript.Proofs.Parser.TemplateLine
Purpose: The tokens on the line from `PLACEBLOCK` through its fourth marker are cells of the
  template. Whatever they are, the program is the same without them.
Main exports: Position.along, Parser.skipLine_append, Program.parse_template_line
-/
import CellScript.Proofs.Parser.Visits
import CellScript.Proofs.Space.Arithmetic

namespace CellScript

namespace Position

/-- The cell `n` displacements beyond an origin. -/
def along (origin displacement : Position) (n : Nat) : Position :=
  origin + displacement.scale (.ofNat n)

theorem along_succ (origin displacement : Position) (n : Nat) :
    origin.along displacement (n + 1) = origin.along displacement n + displacement := by
  simp only [along, scale, Int32.ofNat_add, add_def, mk.injEq]
  grind

theorem along_one (origin displacement : Position) :
    origin.along displacement 1 = origin + displacement := by
  simp only [along, scale, add_def, mk.injEq]
  grind

end Position

namespace Parser

/-- The tokens of a line are dropped up to the first that stands off it. -/
theorem skipLine_append {origin displacement : Position} {n : Nat} {onLine rest : List Token}
    (hline : ∀ i (h : i < onLine.length), onLine[i].pos = origin.along displacement (n + i))
    (hrest : ∀ t ∈ rest.head?, t.pos ≠ origin.along displacement (n + onLine.length)) :
    skipLine displacement (origin.along displacement n) (onLine ++ rest) = rest := by
  induction onLine generalizing n with
  | nil =>
      cases rest with
      | nil => rfl
      | cons first rest =>
          have hfirst : first.pos ≠ origin.along displacement n := hrest first rfl
          rw [List.nil_append, skipLine, if_neg hfirst]
  | cons token onLine ih =>
      have htoken : token.pos = origin.along displacement n := hline 0 (Nat.zero_lt_succ _)
      rw [List.cons_append, skipLine, if_pos htoken, ← Position.along_succ]
      apply ih
      · intro i hi
        rw [Nat.add_right_comm]
        exact hline (i + 1) (Nat.succ_lt_succ hi)
      · rwa [Nat.add_right_comm]

section Slots

variable {room : Nat} {inner : Option StmtReader} {token : Token}

/-- What a slot holds stays there. -/
theorem SlotTable.Reaches.mono {s s' : SlotTable} {ts us : List Token}
    (h : Reaches room inner token s ts s' us) {kind : TokenKind} {filling : Filling}
    (hs : s kind = some filling) : s' kind = some filling := by
  induction h with
  | refl s ts => exact hs
  | fill hfill _ ih =>
      obtain ⟨use, other, -, hopen, -, rfl⟩ := fillTable_ok hfill
      apply ih
      rw [Function.update_of_ne _ _ _]
      · exact hs
      · rintro rfl
        rw [hopen] at hs
        cases hs
  | skip _ _ _ _ ih => exact ih hs

theorem assemble_place {g : Grid} {s : SlotTable} {marker : Token} {stmt : Stmt}
    (hkind : token.kind = .placeBlock) (hs : s .fourthArgument = some (.template marker))
    (h : assemble g token s = .ok stmt) :
    ∃ x y z, stmt = .place token x y z (marker.pos + (marker.pos - token.pos))
      (g.symbolAt (marker.pos + (marker.pos - token.pos))) := by
  simp only [assemble, hkind] at h
  obtain ⟨x, -, h⟩ := ok_of_bind h
  obtain ⟨y, -, h⟩ := ok_of_bind h
  obtain ⟨z, -, h⟩ := ok_of_bind h
  obtain ⟨m, hm, h⟩ := ok_of_bind h
  have hmarker := require_ok hm
  rw [hs] at hmarker
  cases hmarker
  cases h
  exact ⟨x, y, z, rfl⟩

end Slots

/-- The statement takes the template that its fourth marker points to. -/
theorem Opens.template {g : Grid} {room : Nat} {token marker : Token} {ts us after : List Token}
    {stmt : Stmt} (h : Opens g room token ts marker us) (htoken : token.kind = .placeBlock)
    (hmarker : marker.kind = .fourthArgument)
    (hstmt : stmtReader g room (token :: ts) = .ok (stmt, after)) :
    ∃ x y z, stmt = .place token x y z (marker.pos + (marker.pos - token.pos))
      (g.symbolAt (marker.pos + (marker.pos - token.pos))) := by
  have huse : slotUse? token.kind marker.kind = some .template := by
    rw [htoken, hmarker]
    rfl
  obtain ⟨filling, mid, s, s', hread, hrest, hassemble⟩ := h.readSlot_ok huse hstmt
  cases hread
  have hfilled := (reaches_of_tableRest (below_local g room) hrest).1.mono
    (Function.update_self marker.kind (some (Filling.template marker)) s)
  rw [hmarker] at hfilled
  exact assemble_place htoken hfilled hassemble

end Parser

/-- Let `PLACEBLOCK` be read somewhere in a program and take its fourth marker. If the tokens after
the marker go on with the line from the statement through the marker, one displacement after the
other, and then leave it, then the program, or the error, is the same without them, of whatever kind
they are. The template lies one displacement beyond the marker. -/
theorem Program.parse_template_line (g : Grid) {before between onLine rest : List Token}
    {token marker : Token} {room : Nat} (htoken : token.kind = .placeBlock)
    (hmarker : marker.kind = .fourthArgument)
    (hvisits : Program.Visits g (before ++ token :: (between ++ marker :: (onLine ++ rest))) room
      (token :: (between ++ marker :: (onLine ++ rest))))
    (htakes : Parser.Opens g room token (between ++ marker :: (onLine ++ rest)) marker
      (onLine ++ rest))
    (hline : ∀ i (h : i < onLine.length),
      onLine[i].pos = marker.pos.along (marker.pos - token.pos) (i + 1))
    (hrest : ∀ t ∈ rest.head?,
      t.pos ≠ marker.pos.along (marker.pos - token.pos) (onLine.length + 1) ∧
        t.pos ≠ marker.pos + (marker.pos - token.pos)) :
    Program.parse g (before ++ token :: (between ++ marker :: rest)) =
        Program.parse g (before ++ token :: (between ++ marker :: (onLine ++ rest))) ∧
      ∀ stmt after, Parser.stmtReader g room (token :: (between ++ marker :: (onLine ++ rest))) =
          .ok (stmt, after) →
        ∃ x y z, stmt = .place token x y z (marker.pos + (marker.pos - token.pos))
          (g.symbolAt (marker.pos + (marker.pos - token.pos))) := by
  refine ⟨?_, fun stmt after => htakes.template htoken hmarker⟩
  have huse : Parser.slotUse? token.kind marker.kind = some .template := by
    rw [htoken, hmarker]
    rfl
  have hskip : Parser.skipLine (marker.pos - token.pos)
      (marker.pos + (marker.pos - token.pos)) (onLine ++ rest) = rest := by
    rw [← Position.along_one]
    refine Parser.skipLine_append (fun i hi => ?_) fun t ht => ?_
    · rw [Nat.add_comm]
      exact hline i hi
    · rw [Nat.add_comm]
      exact (hrest t ht).1
  have hbare : Parser.skipLine (marker.pos - token.pos)
      (marker.pos + (marker.pos - token.pos)) ([] ++ rest) = rest := by
    rw [← Position.along_one]
    refine Parser.skipLine_append (fun i hi => absurd hi (Nat.not_lt_zero i)) fun t ht => ?_
    rw [List.length_nil, Nat.add_zero, Position.along_one]
    exact (hrest t ht).2
  obtain ⟨between', hbetween, hstmt⟩ := htakes.stmtReader_congr huse
  obtain ⟨before', hbefore, hparse⟩ := hvisits.parse_congr
  cases List.append_cancel_right hbetween
  cases List.append_cancel_right hbefore
  refine hparse _ rfl (hstmt rest ?_)
  rw [List.nil_append] at hbare
  simp only [Parser.readSlot, hskip, hbare]

/-- A token on the first axis. -/
def onAxis (kind : TokenKind) (x : Int32) : Token :=
  ⟨kind, ⟨x, 0, 0⟩⟩

/-- `PLACEBLOCK` in the body of a loop, with a line of tokens after its fourth marker. -/
def placeInLoop (onLine : List Token) : List Token :=
  [onAxis .whileLoop 0, onAxis .firstArgument 1, onAxis .pi 2, onAxis .secondArgument 3] ++
    onAxis .placeBlock 10 :: ([onAxis .firstArgument 4, onAxis .pi 5] ++
      onAxis .fourthArgument 12 :: (onLine ++
        [onAxis .thirdArgument 6, onAxis .pi 7, onAxis .secondArgument 8, onAxis .pi 9,
          onAxis .branchEnd 20]))

/-- The end of a branch and a statement on the template line do not close the loop. -/
theorem parse_template_line_branchEnd :
    ∃ program, Program.parse .empty (placeInLoop []) = .ok program ∧
      Program.parse .empty (placeInLoop [onAxis .branchEnd 14, onAxis .stop 16]) =
        .ok program := by
  have hvisits : Program.Visits .empty (placeInLoop [onAxis .branchEnd 14, onAxis .stop 16]) 255
      ((placeInLoop [onAxis .branchEnd 14, onAxis .stop 16]).drop 4) :=
    ⟨[], _, .refl _, .single (.branch rfl ⟨_, rfl, .fill rfl (.refl _ _)⟩ (.refl _) (by decide))⟩
  have hsame := (Program.parse_template_line .empty rfl rfl hvisits ⟨_, rfl, .fill rfl (.refl _ _)⟩
    (by decide) (by decide)).1
  exact ⟨_, rfl, hsame.symm.trans rfl⟩

end CellScript
