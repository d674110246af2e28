/-
Module: CellScript.Proofs.Json.Field
Purpose: What the readers of plain values and of records find in a document: a text, a number or a
  name is read as what was written, and a member is found by its name wherever it stands.
Main exports: Json.Stands, Json.textOfCodes?_of_stands, Json.word?_ofNat, Json.int32?_ofInt,
  Json.Carries, Json.member?_of_carries, Json.fields?_of_carries, Json.SpellsObject,
  Json.spellsObject_render
-/
import CellScript.Json.Field
import CellScript.Proofs.Json.Reading
import Mathlib.Data.List.Forall2
import Mathlib.Data.List.Nodup

namespace CellScript.Json

/-!
### Texts
-/

/-- The code points that stand for characters. A character from `0x10000` on may also be given by a
pair of surrogates. -/
inductive Stands : List Nat → List Char → Prop where
  | nil : Stands [] []
  | char {c : Char} {codes : List Nat} {cs : List Char} (h : Stands codes cs) :
      Stands (c.toNat :: codes) (c :: cs)
  | pair {c : Char} {codes : List Nat} {cs : List Char} (hc : 0x10000 ≤ c.toNat)
      (h : Stands codes cs) :
      Stands ((0xD800 + (c.toNat - 0x10000) / 0x400) :: (0xDC00 + (c.toNat - 0x10000) % 0x400) ::
        codes) (c :: cs)

theorem stands_codesOf (s : String) : Stands (codesOf s) s.toList := by
  rw [codesOf]
  induction s.toList with
  | nil => exact .nil
  | cons c cs ih => exact .char ih

theorem toNat_lt (c : Char) : c.toNat < 0x110000 := by
  rcases c.valid with h | ⟨_, h⟩
  · exact Nat.lt_trans h (by decide)
  · exact h

/-- A character is no surrogate. -/
theorem not_surrogate (c : Char) :
    isHighSurrogate c.toNat = false ∧ isLowSurrogate c.toNat = false := by
  have hvalid : c.toNat < 0xD800 ∨ 0xDFFF < c.toNat := by
    rcases c.valid with h | ⟨h, _⟩
    · exact .inl h
    · exact .inr h
  simp only [isHighSurrogate, isLowSurrogate, Bool.and_eq_false_iff, decide_eq_false_iff_not]
  omega

theorem charsOfCodes_char (c : Char) (codes : List Nat) :
    charsOfCodes (c.toNat :: codes) = (charsOfCodes codes).map (c :: ·) := by
  obtain ⟨hhigh, hlow⟩ := not_surrogate c
  cases codes with
  | nil => simp [charsOfCodes, hhigh, hlow]
  | cons next rest => simp [charsOfCodes, hhigh, hlow]

theorem charsOfCodes_of_stands {codes : List Nat} {cs : List Char} (h : Stands codes cs) :
    charsOfCodes codes = some cs := by
  induction h with
  | nil => rfl
  | char h ih => rw [charsOfCodes_char, ih, Option.map_some]
  | @pair c codes cs hc h ih =>
      have hlt := toNat_lt c
      have hhigh : isHighSurrogate (0xD800 + (c.toNat - 0x10000) / 0x400) = true := by
        simp only [isHighSurrogate, Bool.and_eq_true, decide_eq_true_eq]
        omega
      have hlow : isLowSurrogate (0xDC00 + (c.toNat - 0x10000) % 0x400) = true := by
        simp only [isLowSurrogate, Bool.and_eq_true, decide_eq_true_eq]
        omega
      have hsum : 0x10000 + (0xD800 + (c.toNat - 0x10000) / 0x400 - 0xD800) * 0x400 +
          (0xDC00 + (c.toNat - 0x10000) % 0x400 - 0xDC00) = c.toNat := by
        omega
      rw [charsOfCodes, if_pos hhigh, if_pos hlow, ih, pairedChar, hsum, Char.ofNat_toNat,
        Option.map_some]

theorem textOfCodes?_of_stands {codes : List Nat} {s : String} (h : Stands codes s.toList) :
    textOfCodes? codes = some s := by
  rw [textOfCodes?, charsOfCodes_of_stands h, Option.map_some, String.ofList_toList]

theorem text?_ofText (s : String) : (ofText s).text? = some s :=
  textOfCodes?_of_stands (stands_codesOf s)

theorem name?_ofText (s : String) : (ofText s).name? = some s :=
  textOfCodes?_of_stands (stands_codesOf s)

theorem wellFormed_text (s : String) : (Lexeme.text (codesOf s)).WellFormed := by
  intro code hcode
  obtain ⟨c, -, rfl⟩ := List.mem_map.1 hcode
  exact toNat_lt c

/-!
### Numbers
-/

/-- The digits of a number above zero start with none. -/
theorem exists_cons_toDigits {n : Nat} (hn : 0 < n) :
    ∃ c cs, Nat.toDigits 10 n = c :: cs ∧ c ≠ '0' := by
  induction n using Nat.strongRecOn with
  | ind n ih =>
      rcases Nat.lt_or_ge n 10 with hlt | hge
      · refine ⟨n.digitChar, [], Nat.toDigits_of_lt_base hlt, ?_⟩
        rw [ne_eq, Nat.digitChar_eq_zero]
        omega
      · obtain ⟨c, cs, hfront, hc⟩ := ih (n / 10) (by omega) (by omega)
        refine ⟨c, cs ++ [(n % 10).digitChar], ?_, hc⟩
        rw [Nat.toDigits_of_base_le (by decide) hge, hfront, List.cons_append]

theorem isWhole_toDigits (n : Nat) : IsWhole (Nat.toDigits 10 n) := by
  rcases Nat.eq_zero_or_pos n with rfl | hn
  · exact .zero
  · obtain ⟨c, cs, hdigits, hc⟩ := exists_cons_toDigits hn
    have hall : ∀ d ∈ Nat.toDigits 10 n, d.isDigit = true := fun d hd =>
      Nat.isDigit_of_mem_toDigits (by decide) (by decide) hd
    rw [hdigits] at hall ⊢
    exact .digits hc hall

theorem isNumber_toDigits (n : Nat) : IsNumber (Nat.toDigits 10 n) := by
  have hparts := IsNumber.parts (.inl rfl) (isWhole_toDigits n) .none .none
  simpa using hparts

theorem isNumber_integerText (n : Int) : IsNumber (Text.integerText n).toList := by
  cases n with
  | ofNat n =>
      rw [Text.integerText, Nat.toList_repr]
      exact isNumber_toDigits n
  | negSucc n =>
      rw [Text.integerText, String.toList_append, Nat.toList_repr]
      have hparts := IsNumber.parts (.inr rfl) (isWhole_toDigits (n + 1)) .none .none
      simpa using hparts

theorem word?_ofNat (n : UInt64) : (ofNat n.toNat).word? = some n := by
  have hread : (ofNat n.toNat).natural? = some n.toNat :=
    (Text.digits_toDigits n.toNat).readDigits?_eq
  rw [word?, hread]
  show (if n.toNat < UInt64.size then some (UInt64.ofNat n.toNat) else none) = some n
  rw [if_pos n.toNat_lt_size, UInt64.ofNat_toNat]

/-- A digit is no sign. -/
theorem integer?_of_digits {cs : List Char} {n : Nat} (h : Text.Digits cs n) :
    (number cs).integer? = some (n : Int) := by
  have hread := h.readDigits?_eq
  have hdigits := (Text.readDigits?_eq_some.1 hread).2.1
  unfold integer?
  split
  · next heq =>
      cases heq
      exact absurd (hdigits '-' (by simp)) (by decide)
  · next heq =>
      cases heq
      rw [hread]
      rfl
  · next hnone => exact absurd rfl (hnone _)

theorem integer?_ofInt (n : Int) : (ofInt n).integer? = some n := by
  cases n with
  | ofNat n =>
      rw [ofInt, Text.integerText, Nat.toList_repr]
      exact integer?_of_digits (Text.digits_toDigits n)
  | negSucc n =>
      have hread := (Text.digits_toDigits (n + 1)).readDigits?_eq
      rw [ofInt, Text.integerText, String.toList_append, Nat.toList_repr]
      unfold integer?
      simp only [String.reduceToList, List.cons_append, List.nil_append, hread]
      rfl

theorem int32?_ofInt (n : Int32) : (ofInt n.toInt).int32? = some n := by
  have hrange : Int32.minValue.toInt ≤ n.toInt ∧ n.toInt ≤ Int32.maxValue.toInt :=
    ⟨n.le_toInt, Int.le_of_lt_add_one n.toInt_lt⟩
  rw [int32?, integer?_ofInt]
  show (if Int32.minValue.toInt ≤ n.toInt ∧ n.toInt ≤ Int32.maxValue.toInt then
    some (Int32.ofInt n.toInt) else none) = some n
  rw [if_pos hrange, Int32.ofInt_toInt]

/-!
### Records
-/

/-- The members of an object carry fields, in the same order: a key stands for the field's name. -/
def Carries (members : List (List Nat × Json)) (fields : List (String × Json)) : Prop :=
  List.Forall₂ (fun member field => Stands member.1 field.1.toList ∧ member.2 = field.2)
    members fields

theorem carries_map (fields : List (String × Json)) :
    Carries (fields.map fun field => (codesOf field.1, field.2)) fields := by
  rw [Carries, List.forall₂_map_left_iff]
  exact List.forall₂_same.2 fun field _ => ⟨stands_codesOf field.1, rfl⟩

section Carries

variable {members : List (List Nat × Json)} {fields : List (String × Json)}

theorem isSome_of_carries (h : Carries members fields) :
    (members.all fun member => (textOfCodes? member.1).isSome) = true := by
  induction h with
  | nil => rfl
  | cons hfirst _ ih => simp [textOfCodes?_of_stands hfirst.1, ih]

/-- The members with a name have the values of the fields with that name. -/
theorem filter_of_carries (h : Carries members fields) (name : String) :
    (members.filter fun member => textOfCodes? member.1 == some name).map Prod.snd =
      (fields.filter fun field => field.1 == name).map Prod.snd := by
  induction h with
  | nil => rfl
  | @cons member field members fields hfirst _ ih =>
      obtain ⟨hkey, hvalue⟩ := hfirst
      have htest : (textOfCodes? member.1 == some name) = (field.1 == name) := by
        rw [textOfCodes?_of_stands hkey]
        rfl
      rw [List.filter_cons, List.filter_cons, htest]
      split
      · rw [List.map_cons, List.map_cons, ih, hvalue]
      · exact ih

/-- A field that is given at most once is found if it is there. -/
theorem member?_of_carries (h : Carries members fields) {name : String}
    (honce : (fields.map Prod.fst).count name ≤ 1) :
    name ∉ fields.map Prod.fst ∧ member? members name = some none ∨
      ∃ v, (name, v) ∈ fields ∧ member? members name = some (some v) := by
  have hvalues := filter_of_carries h name
  have hcount : (fields.filter fun field => field.1 == name).length ≤ 1 := by
    rwa [List.count_eq_countP, List.countP_map, List.countP_eq_length_filter] at honce
  unfold member?
  rcases hfields : fields.filter fun field => field.1 == name with _ | ⟨field, _ | ⟨second, more⟩⟩
  · rw [hfields, List.map_nil, List.map_eq_nil_iff] at hvalues
    rw [hvalues]
    refine .inl ⟨fun hmem => ?_, rfl⟩
    obtain ⟨field, hfield, rfl⟩ := List.mem_map.1 hmem
    have hnone := List.filter_eq_nil_iff.1 hfields field hfield
    exact hnone (beq_self_eq_true field.1)
  · rw [hfields] at hvalues
    obtain ⟨member, hmember, hvalue⟩ := List.map_eq_singleton_iff.1 hvalues
    rw [hmember]
    have hfield : field ∈ fields.filter fun field => field.1 == name := by simp [hfields]
    obtain ⟨hmem, hname⟩ := List.mem_filter.1 hfield
    cases eq_of_beq hname
    exact .inr ⟨field.2, hmem, congrArg (fun v => some (some v)) hvalue⟩
  · rw [hfields] at hcount
    exact absurd hcount (by simp)

/-- What a reader makes of a field that is given at most once. -/
theorem read_of_carries (h : Carries members fields) {β : Type} {name : String}
    {read : Option Json → Option β} {value : β} (honce : (fields.map Prod.fst).count name ≤ 1)
    (habsent : name ∉ fields.map Prod.fst → read none = some value)
    (hpresent : ∀ v, (name, v) ∈ fields → read (some v) = some value) :
    ∃ found, member? members name = some found ∧ read found = some value := by
  rcases member?_of_carries h honce with ⟨hname, hmember⟩ | ⟨v, hv, hmember⟩
  · exact ⟨none, hmember, habsent hname⟩
  · exact ⟨some v, hmember, hpresent v hv⟩

/-- A field that is needed, in a record whose names are all different. -/
theorem required?_of_carries (h : Carries members fields) (hnames : (fields.map Prod.fst).Nodup)
    (name : String) {β : Type} {v : Json} {read : Json → Option β} {value : β}
    (hv : (name, v) ∈ fields) (hread : read v = some value) :
    ∃ found, member? members name = some found ∧ required? read found = some value := by
  apply read_of_carries h (List.nodup_iff_count_le_one.1 hnames name)
  · intro habsent
    exact absurd (List.mem_map_of_mem hv) habsent
  · intro w hw
    cases List.inj_on_of_nodup_map hnames hw hv rfl
    exact hread

/-- A field that may be left out or null if it has no value. -/
theorem optional?_of_carries (h : Carries members fields) (hnames : (fields.map Prod.fst).Nodup)
    (name : String) {β : Type} {read : Json → Option β} {write : β → Json} {value : Option β}
    (hread : ∀ b, read (write b) = some b) (hne : ∀ b, write b ≠ null)
    (hgiven : ∀ b, value = some b → (name, write b) ∈ fields)
    (hempty : value = none → ∀ v, (name, v) ∈ fields → v = null) :
    ∃ found, member? members name = some found ∧ optional? read found = some value := by
  apply read_of_carries h (List.nodup_iff_count_le_one.1 hnames name)
  · intro habsent
    cases value with
    | none => rfl
    | some b => exact absurd (List.mem_map_of_mem (hgiven b rfl)) habsent
  · intro v hv
    cases value with
    | none =>
        rw [hempty rfl v hv]
        rfl
    | some b =>
        cases List.inj_on_of_nodup_map hnames hv (hgiven b rfl) rfl
        rw [optional?, hread b]
        · rfl
        · exact hne b

theorem fields?_of_carries (h : Carries members fields) (names : List String) (short : Bool) :
    fields? names short (object members) = names.mapM (member? members) := by
  rw [fields?, if_pos (isSome_of_carries h)]

end Carries

/-- The texts of objects with some fields, in this order. -/
def SpellsObject (fields : List (String × Json)) (cs : List Char) : Prop :=
  ∃ members, Carries members fields ∧ Spells (object members) cs

/-!
### Documents that can be written
-/

theorem wellFormed_null : null.WellFormed := by
  simp [WellFormed, lexemes, Lexeme.WellFormed]

theorem wellFormed_bool (b : Bool) : (bool b).WellFormed := by
  simp [WellFormed, lexemes, Lexeme.WellFormed]

theorem wellFormed_ofText (s : String) : (ofText s).WellFormed := by
  intro l hl
  cases List.mem_singleton.1 hl
  exact wellFormed_text s

theorem wellFormed_ofNat (n : Nat) : (ofNat n).WellFormed := by
  intro l hl
  cases List.mem_singleton.1 hl
  exact isNumber_toDigits n

theorem wellFormed_ofInt (n : Int) : (ofInt n).WellFormed := by
  intro l hl
  cases List.mem_singleton.1 hl
  exact isNumber_integerText n

theorem mem_lexemesOfMembers {l : Lexeme} {members : List (List Nat × Json)}
    (h : l ∈ lexemesOfMembers members) :
    l = .comma ∨ ∃ member ∈ members, l ∈ lexemesOfMember member := by
  induction members with
  | nil => cases h
  | cons member rest ih =>
      cases rest with
      | nil => exact .inr ⟨member, by simp, h⟩
      | cons next rest =>
          rcases List.mem_append.1 h with hfirst | hrest
          · exact .inr ⟨member, by simp, hfirst⟩
          · rcases List.mem_cons.1 hrest with hcomma | hrest
            · exact .inl hcomma
            · rcases ih hrest with hcomma | ⟨found, hfound, hl⟩
              · exact .inl hcomma
              · exact .inr ⟨found, List.mem_cons_of_mem _ hfound, hl⟩

theorem wellFormed_ofFields {fields : List (String × Json)}
    (h : ∀ field ∈ fields, field.2.WellFormed) : (ofFields fields).WellFormed := by
  intro l hl
  rcases List.mem_cons.1 hl with rfl | hl
  · trivial
  rcases List.mem_append.1 hl with hl | hl
  · rcases mem_lexemesOfMembers hl with rfl | ⟨member, hmember, hl⟩
    · trivial
    · obtain ⟨field, hfield, rfl⟩ := List.mem_map.1 hmember
      rcases List.mem_cons.1 hl with rfl | hl
      · exact wellFormed_text field.1
      · rcases List.mem_cons.1 hl with rfl | hl
        · trivial
        · exact h field hfield l hl
  · cases List.mem_singleton.1 hl
    trivial

/-- The compact text of an object is one of its texts. -/
theorem spellsObject_render {fields : List (String × Json)}
    (h : ∀ field ∈ fields, field.2.WellFormed) :
    SpellsObject fields (ofFields fields).render.toList :=
  ⟨_, carries_map fields, spells_render (wellFormed_ofFields h)⟩

end CellScript.Json
