/-
Module: CellScript.Proofs.Json.Spelling
Purpose: How the lexemes of a JSON text may be written, and that the reader of characters finds them
  again whichever way they are.
Main exports: Json.IsNumber, Json.SpellsCodes, Json.Lexeme.Spells, Json.Spaced, Json.lex_of_spaced
-/
import CellScript.Json.Lexeme
import CellScript.Proofs.Value.IntegerText
import Mathlib.Data.List.Chain

namespace CellScript.Json

/-!
### Ways of writing

A number is its literal. Every code point of a text has several spellings: it may stand for itself
or be escaped, and hexadecimal digits may be small or capital.
-/

/-- The digits of a number before the point. Only a lone zero starts with one. -/
inductive IsWhole : List Char → Prop where
  | zero : IsWhole ['0']
  | digits {c : Char} {cs : List Char} (hc : c ≠ '0') (h : ∀ d ∈ c :: cs, d.isDigit = true) :
      IsWhole (c :: cs)

/-- What may stand after the whole part. -/
inductive IsFraction : List Char → Prop where
  | none : IsFraction []
  | digits {c : Char} {cs : List Char} (h : ∀ d ∈ c :: cs, d.isDigit = true) :
      IsFraction ('.' :: c :: cs)

/-- What may stand at the end of a number. -/
inductive IsExponent : List Char → Prop where
  | none : IsExponent []
  | digits {mark c : Char} {sign cs : List Char} (hmark : mark = 'e' ∨ mark = 'E')
      (hsign : sign = [] ∨ sign = ['+'] ∨ sign = ['-']) (h : ∀ d ∈ c :: cs, d.isDigit = true) :
      IsExponent (mark :: (sign ++ c :: cs))

/-- The literals of numbers. -/
inductive IsNumber : List Char → Prop where
  | parts {sign whole fraction exponent : List Char} (hsign : sign = [] ∨ sign = ['-'])
      (hwhole : IsWhole whole) (hfraction : IsFraction fraction) (hexponent : IsExponent exponent) :
      IsNumber (sign ++ whole ++ fraction ++ exponent)

/-- Escapes of one character, with the code points they stand for. -/
def shortEscapes : List (Char × Nat) :=
  [('"', 0x22), ('\\', 0x5C), ('/', 0x2F), ('b', 0x08), ('f', 0x0C), ('n', 0x0A), ('r', 0x0D),
   ('t', 0x09)]

/-- A hexadecimal digit, small or capital, and its value. -/
def IsHex (c : Char) (n : Nat) : Prop :=
  n < 16 ∧ (c = n.digitChar ∨ c = n.digitChar.toUpper)

/-- What may stand between quotation marks for a list of code points. -/
inductive SpellsCodes : List Nat → List Char → Prop where
  | nil : SpellsCodes [] []
  | plain {c : Char} {codes : List Nat} {cs : List Char} (hcontrol : 0x20 ≤ c.toNat)
      (hquote : c ≠ '"') (hescape : c ≠ '\\') (h : SpellsCodes codes cs) :
      SpellsCodes (c.toNat :: codes) (c :: cs)
  | short {mark : Char} {code : Nat} {codes : List Nat} {cs : List Char}
      (hmark : (mark, code) ∈ shortEscapes) (h : SpellsCodes codes cs) :
      SpellsCodes (code :: codes) ('\\' :: mark :: cs)
  | hex {a b c d : Char} {i j k l : Nat} {codes : List Nat} {cs : List Char} (ha : IsHex a i)
      (hb : IsHex b j) (hc : IsHex c k) (hd : IsHex d l) (h : SpellsCodes codes cs) :
      SpellsCodes ((((i * 16 + j) * 16 + k) * 16 + l) :: codes)
        ('\\' :: 'u' :: a :: b :: c :: d :: cs)

/-- The ways to write a lexeme. -/
inductive Lexeme.Spells : Lexeme → List Char → Prop where
  | openBrace : Spells .openBrace ['\x7b']
  | closeBrace : Spells .closeBrace ['\x7d']
  | openBracket : Spells .openBracket ['[']
  | closeBracket : Spells .closeBracket [']']
  | colon : Spells .colon [':']
  | comma : Spells .comma [',']
  | null : Spells .null ['n', 'u', 'l', 'l']
  | true : Spells (.bool true) ['t', 'r', 'u', 'e']
  | false : Spells (.bool false) ['f', 'a', 'l', 's', 'e']
  | number {literal : List Char} (h : IsNumber literal) : Spells (.number literal) literal
  | text {codes : List Nat} {cs : List Char} (h : SpellsCodes codes cs) :
      Spells (.text codes) ('"' :: (cs ++ ['"']))

/-- Lexemes in turn, with white space before each and after the last. -/
inductive Spaced : List Lexeme → List Char → Prop where
  | nil {space : List Char} (hspace : ∀ c ∈ space, isSpace c = true) : Spaced [] space
  | cons {l : Lexeme} {ls : List Lexeme} {space cs rest : List Char}
      (hspace : ∀ c ∈ space, isSpace c = true) (hl : l.Spells cs) (hrest : Spaced ls rest) :
      Spaced (l :: ls) (space ++ (cs ++ rest))

/-- A lexeme that ends a number right before it. -/
def Lexeme.EndsNumber : Lexeme → Prop
  | .closeBrace | .closeBracket | .comma => True
  | _ => False

/-- Nothing follows a number that could be taken for more of it. -/
def Separated (ls : List Lexeme) : Prop :=
  ls.IsChain fun l next => ∀ literal, l = .number literal → next.EndsNumber

/-!
### Reading characters
-/

section Steps

variable {mode mode' mode'' : Mode} {c : Char} {cs rest : List Char}

theorem lexFrom_of_silent (h : stepChar mode c = some ([], mode')) (rest : List Char) :
    lexFrom mode (c :: rest) = lexFrom mode' rest := by
  rw [lexFrom, h]
  exact Option.map_id_apply

theorem lexFrom_of_emit {l : Lexeme} (h : stepChar mode c = some ([l], mode')) (rest : List Char) :
    lexFrom mode (c :: rest) = (lexFrom mode' rest).map (l :: ·) := by
  rw [lexFrom, h]
  rfl

/-- Characters that lead from one mode to another without completing a lexeme. -/
def Silent (mode : Mode) (cs : List Char) (mode' : Mode) : Prop :=
  ∀ rest, lexFrom mode (cs ++ rest) = lexFrom mode' rest

theorem Silent.nil (mode : Mode) : Silent mode [] mode :=
  fun _ => rfl

theorem Silent.cons (h : stepChar mode c = some ([], mode')) (hcs : Silent mode' cs mode'') :
    Silent mode (c :: cs) mode'' := by
  intro rest
  rw [List.cons_append, lexFrom_of_silent h]
  exact hcs rest

theorem Silent.append {cs' : List Char} (h : Silent mode cs mode') (h' : Silent mode' cs' mode'') :
    Silent mode (cs ++ cs') mode'' := by
  intro rest
  rw [List.append_assoc, h, h']

theorem silent_space (h : ∀ c ∈ cs, isSpace c = true) : Silent .between cs .between := by
  induction cs with
  | nil => exact .nil _
  | cons c cs ih =>
      obtain ⟨hc, hcs⟩ := List.forall_mem_cons.1 h
      exact .cons (if_pos hc) (ih hcs)

/-! ### Numbers -/

theorem silent_digit {phase phase' : NumberPhase} (hphase : phase.next? c = some phase')
    (read : List Char) : Silent (.number phase read) [c] (.number phase' (c :: read)) := by
  refine .cons ?_ (.nil _)
  rw [stepChar, hphase]

/-- A phase that digits do not leave. -/
theorem silent_digits {phase : NumberPhase}
    (hphase : ∀ c : Char, c.isDigit = true → phase.next? c = some phase)
    (h : ∀ c ∈ cs, c.isDigit = true) (read : List Char) :
    Silent (.number phase read) cs (.number phase (cs.reverse ++ read)) := by
  induction cs generalizing read with
  | nil => exact .nil _
  | cons c cs ih =>
      obtain ⟨hc, hcs⟩ := List.forall_mem_cons.1 h
      have hrest := ih hcs (c :: read)
      rw [List.reverse_cons, List.append_assoc]
      exact (silent_digit (hphase c hc) read).append hrest

/-- From the start of a literal on, or after its sign. -/
theorem silent_whole (h : IsWhole cs) :
    ∃ phase, (phase = .zero ∨ phase = .whole) ∧ Silent .between cs (.number phase cs.reverse) ∧
      Silent (.number .minus ['-']) cs (.number phase (cs.reverse ++ ['-'])) := by
  cases h with
  | zero => exact ⟨.zero, .inl rfl, .cons rfl (.nil _), .cons rfl (.nil _)⟩
  | @digits c cs hc h =>
      obtain ⟨hdigit, hcs⟩ := List.forall_mem_cons.1 h
      have hfirst : stepChar .between c = some ([], .number .whole [c]) := by
        obtain ⟨d, hd, rfl⟩ := Text.exists_digitChar_of_isDigit hdigit
        have hall : ∀ d < 10, d.digitChar ≠ '0' →
            stepChar .between d.digitChar = some ([], .number .whole [d.digitChar]) := by
          decide
        exact hall d hd hc
      have hsigned : NumberPhase.minus.next? c = some .whole := by
        simp [NumberPhase.next?, hc, hdigit]
      have hmore : ∀ read, Silent (.number .whole read) cs (.number .whole (cs.reverse ++ read)) :=
        silent_digits (fun c hc => by simp [NumberPhase.next?, hc]) hcs
      refine ⟨.whole, .inr rfl, ?_, ?_⟩
      · rw [List.reverse_cons]
        exact .cons hfirst (hmore [c])
      · rw [List.reverse_cons, List.append_assoc]
        exact (silent_digit hsigned _).append (hmore [c, '-'])

theorem silent_fraction (h : IsFraction cs) {phase : NumberPhase}
    (hphase : phase = .zero ∨ phase = .whole) (read : List Char) :
    ∃ phase', (phase' = .zero ∨ phase' = .whole ∨ phase' = .fraction) ∧
      Silent (.number phase read) cs (.number phase' (cs.reverse ++ read)) := by
  cases h with
  | none => exact ⟨phase, by tauto, .nil _⟩
  | @digits c cs h =>
      obtain ⟨hdigit, hcs⟩ := List.forall_mem_cons.1 h
      have hpoint : phase.next? '.' = some .point := by
        rcases hphase with rfl | rfl <;> rfl
      have hfirst : NumberPhase.point.next? c = some .fraction := if_pos hdigit
      have hmore : ∀ read,
          Silent (.number .fraction read) cs (.number .fraction (cs.reverse ++ read)) :=
        silent_digits (fun c hc => by simp [NumberPhase.next?, hc]) hcs
      refine ⟨.fraction, .inr (.inr rfl), ?_⟩
      have hall := (silent_digit hpoint read).append ((silent_digit hfirst _).append (hmore _))
      simpa using hall

theorem silent_exponent (h : IsExponent cs) {phase : NumberPhase}
    (hphase : phase = .zero ∨ phase = .whole ∨ phase = .fraction) (read : List Char) :
    ∃ phase', phase'.mayEnd = true ∧
      Silent (.number phase read) cs (.number phase' (cs.reverse ++ read)) := by
  cases h with
  | none => exact ⟨phase, by rcases hphase with rfl | rfl | rfl <;> rfl, .nil _⟩
  | @digits mark c sign cs hmark hsign h =>
      obtain ⟨hdigit, hcs⟩ := List.forall_mem_cons.1 h
      have hmarked : phase.next? mark = some .mark := by
        rcases hphase with rfl | rfl | rfl <;> rcases hmark with rfl | rfl <;> rfl
      have hmore : ∀ read,
          Silent (.number .exponent read) cs (.number .exponent (cs.reverse ++ read)) :=
        silent_digits (fun c hc => by simp [NumberPhase.next?, hc]) hcs
      have hfirst : Silent (.number .mark (mark :: read)) (sign ++ [c])
          (.number .exponent (c :: (sign.reverse ++ mark :: read))) := by
        have hmark : NumberPhase.mark.next? c = some .exponent := if_pos hdigit
        have hsigned : NumberPhase.sign.next? c = some .exponent := if_pos hdigit
        rcases hsign with rfl | rfl | rfl
        · exact silent_digit hmark _
        · exact (silent_digit rfl _).append (silent_digit hsigned _)
        · exact (silent_digit rfl _).append (silent_digit hsigned _)
      refine ⟨.exponent, rfl, ?_⟩
      have hall := (silent_digit hmarked read).append (hfirst.append (hmore _))
      simpa using hall

theorem silent_number (h : IsNumber cs) :
    ∃ phase, phase.mayEnd = true ∧ Silent .between cs (.number phase cs.reverse) := by
  obtain @⟨sign, whole, fraction, exponent, hsign, hwhole, hfraction, hexponent⟩ := h
  obtain ⟨phase, hphase, hplain, hsigned⟩ := silent_whole hwhole
  have hstart : Silent .between (sign ++ whole) (.number phase (sign ++ whole).reverse) := by
    rcases hsign with rfl | rfl
    · exact hplain
    · rw [List.reverse_append]
      exact (Silent.cons rfl (.nil _)).append hsigned
  obtain ⟨phase₁, hphase₁, hpoint⟩ := silent_fraction hfraction hphase (sign ++ whole).reverse
  obtain ⟨phase₂, hend, hmark⟩ := silent_exponent hexponent hphase₁ _
  refine ⟨phase₂, hend, ?_⟩
  rw [List.reverse_append, List.reverse_append]
  exact (hstart.append hpoint).append hmark

/-- A number ends where the text ends, at white space, a comma or a closing bracket. -/
def Stops (rest : List Char) : Prop :=
  ∀ c ∈ rest.head?, isSpace c = true ∨ c = ',' ∨ c = ']' ∨ c = '\x7d'

theorem lexFrom_number {phase : NumberPhase} (hphase : phase.mayEnd = true) (hrest : Stops rest)
    (read : List Char) :
    lexFrom (.number phase read) rest =
      (lexFrom .between rest).map (.number read.reverse :: ·) := by
  cases rest with
  | nil => simp [lexFrom, finish, hphase]
  | cons c rest =>
      have hnone : phase.next? c = none := by
        have hc := hrest c rfl
        simp only [isSpace, Bool.or_eq_true, beq_iff_eq] at hc
        rcases hc with (((rfl | rfl) | rfl) | rfl) | rfl | rfl | rfl <;> cases phase <;> rfl
      simp only [lexFrom, stepChar, hnone, hphase, if_true]
      cases stepBetween c with
      | none => rfl
      | some found => simp [Option.map_map, Function.comp_def]

/-! ### Texts -/

theorem hexValue?_of_isHex {n : Nat} (h : IsHex c n) : hexValue? c = some n := by
  obtain ⟨hn, rfl | rfl⟩ := h
  · have hall : ∀ n < 16, hexValue? n.digitChar = some n := by decide
    exact hall n hn
  · have hall : ∀ n < 16, hexValue? n.digitChar.toUpper = some n := by decide
    exact hall n hn

theorem silent_hex {n : Nat} (h : IsHex c n) (read : List Nat) (left value : Nat) :
    Silent (.hex read (left + 1) value) [c] (.hex read left (value * 16 + n)) := by
  refine .cons ?_ (.nil _)
  rw [stepChar, hexValue?_of_isHex h]

theorem silent_hex_last {n : Nat} (h : IsHex c n) (read : List Nat) (value : Nat) :
    Silent (.hex read 0 value) [c] (.text ((value * 16 + n) :: read)) := by
  refine .cons ?_ (.nil _)
  rw [stepChar, hexValue?_of_isHex h]

/-- The spelling of code points adds them, last first, to those that were read. -/
theorem silent_codes {codes : List Nat} (h : SpellsCodes codes cs) (read : List Nat) :
    Silent (.text read) cs (.text (codes.reverse ++ read)) := by
  induction h generalizing read with
  | nil => exact .nil _
  | @plain c codes cs hcontrol hquote hescape h ih =>
      rw [List.reverse_cons, List.append_assoc]
      refine .cons ?_ (ih (c.toNat :: read))
      simp [stepChar, hquote, hescape, Nat.not_lt.2 hcontrol]
  | @short mark code codes cs hmark h ih =>
      have hall : ∀ escape ∈ shortEscapes,
          escape.1 ≠ 'u' ∧ escapeCode? escape.1 = some escape.2 := by
        decide
      obtain ⟨hne, hcode⟩ := hall _ hmark
      rw [List.reverse_cons, List.append_assoc]
      refine .cons rfl (.cons ?_ (ih (code :: read)))
      rw [stepChar, if_neg hne, hcode]
      rfl
  | @hex a b c d i j k l codes cs ha hb hc hd h ih =>
      rw [List.reverse_cons, List.append_assoc]
      refine .cons rfl (.cons rfl ?_)
      have hcode := (silent_hex ha read 2 0).append ((silent_hex hb read 1 _).append
        ((silent_hex hc read 0 _).append (silent_hex_last hd read _)))
      rw [Nat.zero_mul, Nat.zero_add] at hcode
      exact hcode.append (ih _)

/-!
### Lexemes
-/

theorem lexFrom_of_spells {l : Lexeme} (h : l.Spells cs)
    (hrest : ∀ literal, l = .number literal → Stops rest) :
    lexFrom .between (cs ++ rest) = (lexFrom .between rest).map (l :: ·) := by
  cases h with
  | openBrace => exact lexFrom_of_emit rfl rest
  | closeBrace => exact lexFrom_of_emit rfl rest
  | openBracket => exact lexFrom_of_emit rfl rest
  | closeBracket => exact lexFrom_of_emit rfl rest
  | colon => exact lexFrom_of_emit rfl rest
  | comma => exact lexFrom_of_emit rfl rest
  | null =>
      have hword : Silent .between ['n', 'u', 'l'] (.word ['l'] .null) :=
        .cons rfl (.cons rfl (.cons rfl (.nil _)))
      exact (hword ('l' :: rest)).trans (lexFrom_of_emit rfl rest)
  | true =>
      have hword : Silent .between ['t', 'r', 'u'] (.word ['e'] (.bool true)) :=
        .cons rfl (.cons rfl (.cons rfl (.nil _)))
      exact (hword ('e' :: rest)).trans (lexFrom_of_emit rfl rest)
  | false =>
      have hword : Silent .between ['f', 'a', 'l', 's'] (.word ['e'] (.bool false)) :=
        .cons rfl (.cons rfl (.cons rfl (.cons rfl (.nil _))))
      exact (hword ('e' :: rest)).trans (lexFrom_of_emit rfl rest)
  | number h =>
      obtain ⟨phase, hphase, hsilent⟩ := silent_number h
      rw [hsilent, lexFrom_number hphase (hrest _ rfl), List.reverse_reverse]
  | @text codes cs h =>
      have hquoted : Silent .between ('"' :: cs) (.text codes.reverse) := by
        have hcodes := silent_codes h []
        rw [List.append_nil] at hcodes
        exact .cons rfl hcodes
      have hclose : stepChar (.text codes.reverse) '"' = some ([.text codes], .between) := by
        rw [stepChar, if_pos rfl, List.reverse_reverse]
      rw [List.cons_append, List.append_assoc]
      exact (hquoted ('"' :: rest)).trans (lexFrom_of_emit hclose rest)

end Steps

/-- What ends a number starts with a character that does. -/
theorem Spaced.stops {ls : List Lexeme} {cs : List Char} (h : Spaced ls cs)
    (hhead : ∀ l ∈ ls.head?, l.EndsNumber) : Stops cs := by
  intro c hc
  cases h with
  | nil hspace => exact .inl (hspace c (List.mem_of_head? hc))
  | @cons l ls space cs rest hspace hl hrest =>
      cases space with
      | cons c space =>
          cases hc
          exact .inl (hspace _ List.mem_cons_self)
      | nil =>
          have hends : l.EndsNumber := hhead l rfl
          cases hl with
          | closeBrace => cases hc; simp
          | closeBracket => cases hc; simp
          | comma => cases hc; simp
          | _ => exact hends.elim

/-- The reader of characters finds the lexemes of a text, however they are written. -/
theorem lex_of_spaced {ls : List Lexeme} {cs : List Char} (h : Spaced ls cs)
    (hseparated : Separated ls) : lex cs = some ls := by
  unfold lex
  induction h with
  | nil hspace =>
      have hend := silent_space hspace []
      rwa [List.append_nil] at hend
  | @cons l ls space cs rest hspace hl hrest ih =>
      have hstops : ∀ literal, l = .number literal → Stops rest := fun literal hnumber =>
        hrest.stops fun next hnext => hseparated.rel_head? hnext literal hnumber
      rw [silent_space hspace, lexFrom_of_spells hl hstops, ih hseparated.tail]
      rfl

end CellScript.Json
