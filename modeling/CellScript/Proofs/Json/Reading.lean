/-
Module: CellScript.Proofs.Json.Reading
Purpose: A text that spells a document is read as that document, and the compact text of a document
  spells it.
Main exports: Json.lexemes, Json.Spells, Json.parse?_of_spells, Json.WellFormed, Json.spells_render
-/
import CellScript.Json.Reader
import CellScript.Proofs.Json.Spelling

namespace CellScript.Json

/-!
### The lexemes of a document
-/

mutual

/-- The lexemes of a document. -/
def lexemes : Json → List Lexeme
  | null => [.null]
  | bool b => [.bool b]
  | number literal => [.number literal]
  | text codes => [.text codes]
  | array items => .openBracket :: (lexemesOfItems items ++ [.closeBracket])
  | object members => .openBrace :: (lexemesOfMembers members ++ [.closeBrace])

/-- The lexemes of items, with commas between them. -/
def lexemesOfItems : List Json → List Lexeme
  | [] => []
  | [item] => lexemes item
  | item :: rest => lexemes item ++ .comma :: lexemesOfItems rest

/-- The lexemes of members, with commas between them. -/
def lexemesOfMembers : List (List Nat × Json) → List Lexeme
  | [] => []
  | [member] => lexemesOfMember member
  | member :: rest => lexemesOfMember member ++ .comma :: lexemesOfMembers rest

/-- The lexemes of a member. -/
def lexemesOfMember : List Nat × Json → List Lexeme
  | (key, value) => .text key :: .colon :: lexemes value

end

/-- A text spells a document if it is made of the document's lexemes. -/
def Spells (j : Json) (cs : List Char) : Prop :=
  Spaced j.lexemes cs

/-!
### Reading lexemes
-/

/-- What the reader comes to by some lexemes. -/
def Leads (e : Expect) (ls : List Lexeme) (e' : Expect) : Prop :=
  ls.foldlM stepLexeme e = some e'

section Leads

variable {e e' e'' : Expect} {l : Lexeme} {ls ls' : List Lexeme} {stack : List Frame}

theorem Leads.one (h : stepLexeme e l = some e') : Leads e [l] e' := by
  rw [Leads, List.foldlM_cons, h]
  rfl

theorem Leads.append (h : Leads e ls e') (h' : Leads e' ls' e'') : Leads e (ls ++ ls') e'' := by
  rw [Leads, List.foldlM_append, h]
  exact h'

theorem Leads.cons (h : stepLexeme e l = some e') (h' : Leads e' ls e'') : Leads e (l :: ls) e'' :=
  (Leads.one h).append h'

/-- The first item of an array is read like any other: no value starts with a closing bracket. -/
theorem Leads.firstItem {read : List Json}
    (h : Leads (.value (.items [] :: stack)) ls (.afterItem stack read)) :
    Leads (.firstItem stack) ls (.afterItem stack read) := by
  rcases ls with _ | ⟨l, ls⟩
  · cases h
  · cases l with
    | closeBracket => cases h
    | _ => exact h

theorem Leads.firstKey {read : List (List Nat × Json)}
    (h : Leads (.key stack []) ls (.afterMember stack read)) :
    Leads (.firstKey stack) ls (.afterMember stack read) := by
  rcases ls with _ | ⟨l, ls⟩
  · cases h
  · cases l with
    | text key => exact h
    | _ => cases h

end Leads

mutual

/-- A value goes into the innermost open container. -/
theorem leads_lexemes : ∀ (j : Json) (stack : List Frame),
    Leads (.value stack) j.lexemes (complete stack j)
  | null, _ => .one rfl
  | bool _, _ => .one rfl
  | number _, _ => .one rfl
  | text _, _ => .one rfl
  | array items, stack => by
      rcases leads_lexemesOfItems items stack [] with rfl | hitems
      · exact .cons rfl (.one rfl)
      · have hclose : stepLexeme (.afterItem stack (items.reverse ++ [])) .closeBracket =
            some (complete stack (array items)) := by
          simp [stepLexeme]
        exact .cons rfl (hitems.firstItem.append (.one hclose))
  | object members, stack => by
      rcases leads_lexemesOfMembers members stack [] with rfl | hmembers
      · exact .cons rfl (.one rfl)
      · have hclose : stepLexeme (.afterMember stack (members.reverse ++ [])) .closeBrace =
            some (complete stack (object members)) := by
          simp [stepLexeme]
        exact .cons rfl (hmembers.firstKey.append (.one hclose))

theorem leads_lexemesOfItems : ∀ (items : List Json) (stack : List Frame) (read : List Json),
    items = [] ∨ Leads (.value (.items read :: stack)) (lexemesOfItems items)
      (.afterItem stack (items.reverse ++ read))
  | [], _, _ => .inl rfl
  | [item], stack, read => .inr (leads_lexemes item (.items read :: stack))
  | item :: next :: rest, stack, read => by
      have hitem := leads_lexemes item (.items read :: stack)
      rcases leads_lexemesOfItems (next :: rest) stack (item :: read) with hnil | hrest
      · cases hnil
      · rw [List.reverse_cons, List.append_assoc]
        exact .inr (hitem.append (.cons rfl hrest))

theorem leads_lexemesOfMembers : ∀ (members : List (List Nat × Json)) (stack : List Frame)
    (read : List (List Nat × Json)),
    members = [] ∨ Leads (.key stack read) (lexemesOfMembers members)
      (.afterMember stack (members.reverse ++ read))
  | [], _, _ => .inl rfl
  | [member], stack, read => .inr (leads_lexemesOfMember member stack read)
  | member :: next :: rest, stack, read => by
      have hmember := leads_lexemesOfMember member stack read
      rcases leads_lexemesOfMembers (next :: rest) stack (member :: read) with hnil | hrest
      · cases hnil
      · rw [List.reverse_cons, List.append_assoc]
        exact .inr (hmember.append (.cons rfl hrest))

theorem leads_lexemesOfMember : ∀ (member : List Nat × Json) (stack : List Frame)
    (read : List (List Nat × Json)),
    Leads (.key stack read) (lexemesOfMember member) (.afterMember stack (member :: read))
  | (key, value), stack, read =>
      .cons rfl (.cons rfl (leads_lexemes value (.members read key :: stack)))

end

theorem ofLexemes?_lexemes (j : Json) : ofLexemes? j.lexemes = some j := by
  have hleads : j.lexemes.foldlM stepLexeme (.value []) = some (.nothing j) := leads_lexemes j []
  rw [ofLexemes?, hleads]

/-!
### Numbers are set off

Before a rest that may follow a value, the lexemes of a document leave no number unended.
-/

section Separated

variable {l : Lexeme} {ls : List Lexeme}

/-- Lexemes that may follow a value. -/
def Follows (ls : List Lexeme) : Prop :=
  Separated ls ∧ ∀ l ∈ ls.head?, l.EndsNumber

theorem Separated.cons (hl : ∀ literal, l ≠ .number literal) (h : Separated ls) :
    Separated (l :: ls) :=
  List.IsChain.cons h fun _ _ literal hnumber => absurd hnumber (hl literal)

theorem Separated.follows (hl : l.EndsNumber) (h : Separated ls) : Follows (l :: ls) := by
  refine ⟨h.cons ?_, ?_⟩
  · rintro literal rfl
    exact hl
  · rintro _ ⟨⟩
    exact hl

theorem Follows.number (h : Follows ls) (literal : List Char) : Separated (.number literal :: ls) :=
  List.IsChain.cons h.1 fun next hnext _ _ => h.2 next hnext

end Separated

mutual

theorem separated_lexemes : ∀ (j : Json) {rest : List Lexeme}, Follows rest →
    Separated (j.lexemes ++ rest)
  | null, _, h => h.1.cons nofun
  | bool _, _, h => h.1.cons nofun
  | number literal, _, h => h.number literal
  | text _, _, h => h.1.cons nofun
  | array items, rest, h => by
      have hclose : Follows (.closeBracket :: rest) := h.1.follows trivial
      have hitems := separated_lexemesOfItems items hclose
      rw [lexemes, List.cons_append, List.append_assoc]
      exact hitems.cons nofun
  | object members, rest, h => by
      have hclose : Follows (.closeBrace :: rest) := h.1.follows trivial
      have hmembers := separated_lexemesOfMembers members hclose
      rw [lexemes, List.cons_append, List.append_assoc]
      exact hmembers.cons nofun

theorem separated_lexemesOfItems : ∀ (items : List Json) {rest : List Lexeme}, Follows rest →
    Separated (lexemesOfItems items ++ rest)
  | [], _, h => h.1
  | [item], _, h => separated_lexemes item h
  | item :: next :: more, rest, h => by
      have hmore := separated_lexemesOfItems (next :: more) h
      rw [lexemesOfItems, List.append_assoc]
      · exact separated_lexemes item (hmore.follows trivial)
      · simp

theorem separated_lexemesOfMembers : ∀ (members : List (List Nat × Json)) {rest : List Lexeme},
    Follows rest → Separated (lexemesOfMembers members ++ rest)
  | [], _, h => h.1
  | [member], _, h => separated_lexemesOfMember member h
  | member :: next :: more, rest, h => by
      have hmore := separated_lexemesOfMembers (next :: more) h
      rw [lexemesOfMembers, List.append_assoc]
      · exact separated_lexemesOfMember member (hmore.follows trivial)
      · simp

theorem separated_lexemesOfMember : ∀ (member : List Nat × Json) {rest : List Lexeme},
    Follows rest → Separated (lexemesOfMember member ++ rest)
  | (_, value), rest, h => by
      have hcolon : Separated (.colon :: (value.lexemes ++ rest)) :=
        (separated_lexemes value h).cons nofun
      exact hcolon.cons nofun

end

/-- A text is read as the document that it spells. -/
theorem parse?_of_spells {j : Json} {s : String} (h : Spells j s.toList) : parse? s = some j := by
  have hseparated : Separated (j.lexemes ++ []) := separated_lexemes j ⟨.nil, by simp⟩
  rw [List.append_nil] at hseparated
  rw [parse?, lex_of_spaced h hseparated]
  exact ofLexemes?_lexemes j

/-!
### Compact texts
-/

/-- A lexeme in the way in which it stands in compact texts. -/
def Lexeme.chars : Lexeme → List Char
  | .openBrace => ['\x7b']
  | .closeBrace => ['\x7d']
  | .openBracket => ['[']
  | .closeBracket => [']']
  | .colon => [':']
  | .comma => [',']
  | .null => ['n', 'u', 'l', 'l']
  | .bool b => if b then ['t', 'r', 'u', 'e'] else ['f', 'a', 'l', 's', 'e']
  | .number literal => literal
  | .text codes => renderText codes

mutual

theorem renderChars_eq : ∀ j : Json, j.renderChars = j.lexemes.flatMap Lexeme.chars
  | null => rfl
  | bool true => rfl
  | bool false => rfl
  | number _ => (List.append_nil _).symm
  | text _ => (List.append_nil _).symm
  | array items => by
      rw [renderChars, lexemes, renderItems_eq items, List.flatMap_cons, List.flatMap_append]
      rfl
  | object members => by
      rw [renderChars, lexemes, renderMembers_eq members, List.flatMap_cons, List.flatMap_append]
      rfl

theorem renderItems_eq : ∀ items : List Json,
    renderItems items = (lexemesOfItems items).flatMap Lexeme.chars
  | [] => rfl
  | [item] => renderChars_eq item
  | item :: next :: rest => by
      rw [renderItems, lexemesOfItems, renderChars_eq item, renderItems_eq (next :: rest),
        List.flatMap_append]
      · rfl
      · simp
      · simp

theorem renderMembers_eq : ∀ members : List (List Nat × Json),
    renderMembers members = (lexemesOfMembers members).flatMap Lexeme.chars
  | [] => rfl
  | [member] => renderMember_eq member
  | member :: next :: rest => by
      rw [renderMembers, lexemesOfMembers, renderMember_eq member, renderMembers_eq (next :: rest),
        List.flatMap_append]
      · rfl
      · simp
      · simp

theorem renderMember_eq : ∀ member : List Nat × Json,
    renderMember member = (lexemesOfMember member).flatMap Lexeme.chars
  | (key, value) => by
      rw [renderMember, lexemesOfMember, renderChars_eq value]
      rfl

end

/-- A lexeme that can be written: the literal of a number, or code points of Unicode. -/
def Lexeme.WellFormed : Lexeme → Prop
  | .number literal => IsNumber literal
  | .text codes => ∀ code ∈ codes, code < 0x110000
  | _ => True

/-- A document that can be written. -/
def WellFormed (j : Json) : Prop :=
  ∀ l ∈ j.lexemes, l.WellFormed

theorem toNat_ofNat_of_valid {code : Nat} (h : code < 0x110000)
    (hhigh : isHighSurrogate code = false) (hlow : isLowSurrogate code = false) :
    (Char.ofNat code).toNat = code := by
  have hvalid : code.isValidChar := by
    simp only [isHighSurrogate, isLowSurrogate, Bool.and_eq_false_iff, decide_eq_false_iff_not]
      at hhigh hlow
    unfold Nat.isValidChar
    omega
  rw [Char.ofNat, dif_pos hvalid]
  rfl

theorem isHex_digitChar {n : Nat} (h : n < 16) : IsHex n.digitChar n :=
  ⟨h, .inl rfl⟩

/-- Only code points below `0x10000` are escaped, so four digits suffice. -/
theorem spellsCodes_unicodeEscape {code : Nat} {codes : List Nat} {cs : List Char}
    (hcode : code < 0x10000) (h : SpellsCodes codes cs) :
    SpellsCodes (code :: codes) (unicodeEscape code ++ cs) := by
  have hdigits : ((code / 4096 % 16 * 16 + code / 256 % 16) * 16 + code / 16 % 16) * 16 +
      code % 16 = code := by
    omega
  have hhex := SpellsCodes.hex (isHex_digitChar (Nat.mod_lt (code / 4096) (by decide)))
    (isHex_digitChar (Nat.mod_lt (code / 256) (by decide)))
    (isHex_digitChar (Nat.mod_lt (code / 16) (by decide)))
    (isHex_digitChar (Nat.mod_lt code (by decide))) h
  rw [hdigits] at hhex
  exact hhex

theorem spellsCodes_renderCode {code : Nat} {codes : List Nat} {cs : List Char}
    (hcode : code < 0x110000) (h : SpellsCodes codes cs) :
    SpellsCodes (code :: codes) (renderCode code ++ cs) := by
  unfold renderCode
  split
  · next heq => exact heq ▸ .short (by decide) h
  split
  · next heq => exact heq ▸ .short (by decide) h
  split
  · next heq => exact heq ▸ .short (by decide) h
  split
  · next heq => exact heq ▸ .short (by decide) h
  split
  · next heq => exact heq ▸ .short (by decide) h
  split
  · next heq => exact heq ▸ .short (by decide) h
  split
  · next heq => exact heq ▸ .short (by decide) h
  split
  · next hescaped =>
      refine spellsCodes_unicodeEscape ?_ h
      simp only [isHighSurrogate, isLowSurrogate, Bool.or_eq_true, Bool.and_eq_true,
        decide_eq_true_eq] at hescaped
      omega
  · next hquote hescape _ _ _ _ _ hplain =>
      simp only [Bool.or_eq_true, not_or, Bool.not_eq_true, decide_eq_false_iff_not] at hplain
      obtain ⟨⟨hcontrol, hhigh⟩, hlow⟩ := hplain
      have hchar := toNat_ofNat_of_valid hcode hhigh hlow
      have hspells : SpellsCodes ((Char.ofNat code).toNat :: codes) (Char.ofNat code :: cs) := by
        refine .plain (by omega) ?_ ?_ h
        · intro heq
          rw [heq] at hchar
          exact hquote hchar.symm
        · intro heq
          rw [heq] at hchar
          exact hescape hchar.symm
      rwa [hchar] at hspells

theorem spellsCodes_flatMap {codes : List Nat} (h : ∀ code ∈ codes, code < 0x110000) :
    SpellsCodes codes (codes.flatMap renderCode) := by
  induction codes with
  | nil => exact .nil
  | cons code codes ih =>
      obtain ⟨hcode, hcodes⟩ := List.forall_mem_cons.1 h
      rw [List.flatMap_cons]
      exact spellsCodes_renderCode hcode (ih hcodes)

theorem Lexeme.spells_chars {l : Lexeme} (h : l.WellFormed) : l.Spells l.chars := by
  cases l with
  | openBrace => exact .openBrace
  | closeBrace => exact .closeBrace
  | openBracket => exact .openBracket
  | closeBracket => exact .closeBracket
  | colon => exact .colon
  | comma => exact .comma
  | null => exact .null
  | bool b =>
      cases b with
      | true => exact .true
      | false => exact .false
  | number literal => exact .number h
  | text codes => exact .text (spellsCodes_flatMap h)

theorem spaced_flatMap {ls : List Lexeme} (h : ∀ l ∈ ls, l.WellFormed) :
    Spaced ls (ls.flatMap Lexeme.chars) := by
  induction ls with
  | nil => exact .nil (by simp)
  | cons l ls ih =>
      obtain ⟨hl, hls⟩ := List.forall_mem_cons.1 h
      have hnone : ∀ c ∈ ([] : List Char), isSpace c = true := by simp
      exact .cons hnone (Lexeme.spells_chars hl) (ih hls)

/-- The compact text of a document spells it. -/
theorem spells_render {j : Json} (h : j.WellFormed) : Spells j j.render.toList := by
  rw [render, String.toList_ofList, renderChars_eq]
  exact spaced_flatMap h

end CellScript.Json
