/-
Module: CellScript.Proofs.Json.Configuration
Purpose: A configuration read from an object with some of the fields, in any order and among other
  members, differs from the default in these fields alone.
Main exports: RunConfig.Holds, RunConfig.taking, RunConfig.ofJson?_of_carries,
  RunConfig.parse_partial
-/
import CellScript.Json.Document
import CellScript.Proofs.Json.Field

namespace CellScript

namespace RunConfig

/-- The documents that stand for the fields of a configuration. -/
inductive Holds (c : RunConfig) : String → Json → Prop where
  | maxScanDepth : Holds c "max_scan_depth" (.ofNat c.maxScanDepth.toNat)
  | gasLimit : Holds c "gas_limit" (.ofNat c.gasLimit.toNat)
  | maxStringLength : Holds c "max_string_len" (.ofNat c.maxStringLength.toNat)
  | gotoEnabled : Holds c "goto_enabled" (.bool c.gotoEnabled)
  | errorLabel {codes : List Nat} (h : Json.Stands codes c.errorLabel.toList) :
      Holds c "error_prefix" (.text codes)

/-- The default configuration, but for the named fields, which are those of `c`. -/
def taking (c : RunConfig) (names : List String) : RunConfig :=
  let default : RunConfig := {}
  { maxScanDepth := if "max_scan_depth" ∈ names then c.maxScanDepth else default.maxScanDepth
    gasLimit := if "gas_limit" ∈ names then c.gasLimit else default.gasLimit
    maxStringLength :=
      if "max_string_len" ∈ names then c.maxStringLength else default.maxStringLength
    gotoEnabled := if "goto_enabled" ∈ names then c.gotoEnabled else default.gotoEnabled
    errorLabel := if "error_prefix" ∈ names then c.errorLabel else default.errorLabel }

theorem taking_fieldNames (c : RunConfig) : c.taking fieldNames = c := by
  simp [taking, fieldNames]

section Reading

variable {c : RunConfig} {members : List (List Nat × Json)} {fields : List (String × Json)}

/-- A field is read as what it stands for if it is there, and as its default if it is not. -/
theorem withDefault?_of_carries (h : Json.Carries members fields) {α : Type} {name : String}
    {read : Json → Option α} {value : α}
    (honce : (fields.map Prod.fst).count name ≤ 1)
    (hread : ∀ v, (name, v) ∈ fields → read v = some value) (default : α) :
    ∃ found, Json.member? members name = some found ∧
      Json.withDefault? read default found =
        some (if name ∈ fields.map Prod.fst then value else default) := by
  apply Json.read_of_carries h honce
  · intro hname
    rw [if_neg hname]
    rfl
  · intro v hv
    rw [if_pos (List.mem_map_of_mem hv)]
    exact hread v hv

/-- By the name of a field its reader is known. -/
theorem Holds.reads {name : String} {v : Json} (h : c.Holds name v) :
    (name = "max_scan_depth" → v.word? = some c.maxScanDepth) ∧
      (name = "gas_limit" → v.word? = some c.gasLimit) ∧
      (name = "max_string_len" → v.word? = some c.maxStringLength) ∧
      (name = "goto_enabled" → v.bool? = some c.gotoEnabled) ∧
      (name = "error_prefix" → v.text? = some c.errorLabel) := by
  cases h with
  | maxScanDepth => simp [Json.word?_ofNat]
  | gasLimit => simp [Json.word?_ofNat]
  | maxStringLength => simp [Json.word?_ofNat]
  | gotoEnabled => simp [Json.bool?]
  | errorLabel h => simp [Json.text?, Json.textOfCodes?_of_stands h]

theorem ofJson?_of_carries (h : Json.Carries members fields)
    (hholds : ∀ field ∈ fields, field.1 ∈ fieldNames → c.Holds field.1 field.2)
    (honce : ∀ name ∈ fieldNames, (fields.map Prod.fst).count name ≤ 1) :
    ofJson? (.object members) = some (c.taking (fields.map Prod.fst)) := by
  have hnames : ∀ name ∈ fieldNames, (fields.map Prod.fst).count name ≤ 1 ∧
      ∀ v, (name, v) ∈ fields → c.Holds name v := fun name hname =>
    ⟨honce name hname, fun v hv => hholds (name, v) hv hname⟩
  simp only [fieldNames, List.forall_mem_cons] at hnames
  obtain ⟨⟨hscan₁, hscan₂⟩, ⟨hgas₁, hgas₂⟩, ⟨hlength₁, hlength₂⟩, ⟨hgoto₁, hgoto₂⟩,
    ⟨hlabel₁, hlabel₂⟩, -⟩ := hnames
  let default : RunConfig := {}
  obtain ⟨scan, hscan, hscanValue⟩ := withDefault?_of_carries h hscan₁
    (fun v hv => (hscan₂ v hv).reads.1 rfl) default.maxScanDepth
  obtain ⟨gas, hgas, hgasValue⟩ := withDefault?_of_carries h hgas₁
    (fun v hv => (hgas₂ v hv).reads.2.1 rfl) default.gasLimit
  obtain ⟨length, hlength, hlengthValue⟩ := withDefault?_of_carries h hlength₁
    (fun v hv => (hlength₂ v hv).reads.2.2.1 rfl) default.maxStringLength
  obtain ⟨goto, hgoto, hgotoValue⟩ := withDefault?_of_carries h hgoto₁
    (fun v hv => (hgoto₂ v hv).reads.2.2.2.1 rfl) default.gotoEnabled
  obtain ⟨label, hlabel, hlabelValue⟩ := withDefault?_of_carries h hlabel₁
    (fun v hv => (hlabel₂ v hv).reads.2.2.2.2 rfl) default.errorLabel
  have hfields : Json.fields? fieldNames true (.object members) =
      some [scan, gas, length, goto, label] := by
    rw [Json.fields?_of_carries h]
    simp [fieldNames, hscan, hgas, hlength, hgoto, hlabel]
  dsimp only [default] at hscanValue hgasValue hlengthValue hgotoValue hlabelValue
  rw [ofJson?, hfields]
  simp only [hscanValue, hgasValue, hlengthValue, hgotoValue, hlabelValue]
  rfl

theorem parse?_of_spellsObject {text : String} (h : Json.SpellsObject fields text.toList)
    (hholds : ∀ field ∈ fields, field.1 ∈ fieldNames → c.Holds field.1 field.2)
    (honce : ∀ name ∈ fieldNames, (fields.map Prod.fst).count name ≤ 1) :
    parse? text = some (c.taking (fields.map Prod.fst)) := by
  obtain ⟨members, hcarries, hspells⟩ := h
  rw [parse?, Json.parse?_of_spells hspells]
  exact ofJson?_of_carries hcarries hholds honce

end Reading

theorem holds_of_mem_fields {c : RunConfig} {field : String × Json} (h : field ∈ c.fields) :
    c.Holds field.1 field.2 := by
  simp only [fields, fieldNames, List.zip_cons_cons, List.zip_nil_right, List.mem_cons,
    List.not_mem_nil, or_false] at h
  rcases h with rfl | rfl | rfl | rfl | rfl
  · exact .maxScanDepth
  · exact .gasLimit
  · exact .maxStringLength
  · exact .gotoEnabled
  · exact .errorLabel (Json.stands_codesOf c.errorLabel)

theorem wellFormed_of_mem_fields {c : RunConfig} {field : String × Json} (h : field ∈ c.fields) :
    field.2.WellFormed := by
  simp only [fields, fieldNames, List.zip_cons_cons, List.zip_nil_right, List.mem_cons,
    List.not_mem_nil, or_false] at h
  rcases h with rfl | rfl | rfl | rfl | rfl
  · exact Json.wellFormed_ofNat _
  · exact Json.wellFormed_ofNat _
  · exact Json.wellFormed_ofNat _
  · exact Json.wellFormed_bool _
  · exact Json.wellFormed_ofText _

/-- Let a text be one of an object in which some of the fields of `c` are given, each once, in any
order and with any other members between them. It is read as the default configuration with just
these fields taken from `c`. In particular the text that is written for `c` is read as `c`. -/
theorem parse_partial (c : RunConfig) :
    (∀ (fields : List (String × Json)) (text : String), Json.SpellsObject fields text.toList →
        (∀ field ∈ fields, field.1 ∈ fieldNames → c.Holds field.1 field.2) →
        (∀ name ∈ fieldNames, (fields.map Prod.fst).count name ≤ 1) →
        parse? text = some (c.taking (fields.map Prod.fst))) ∧
      parse? c.toJson.render = some c := by
  have hnames : ∀ name ∈ fieldNames, fieldNames.count name ≤ 1 := by decide
  have hwritten : parse? c.toJson.render = some (c.taking fieldNames) :=
    parse?_of_spellsObject (Json.spellsObject_render fun _ => wellFormed_of_mem_fields)
      (fun _ hfield _ => holds_of_mem_fields hfield) hnames
  rw [taking_fieldNames] at hwritten
  exact ⟨fun _ _ => parse?_of_spellsObject, hwritten⟩

/-- Two of the fields out of order, the label in surrogates, among members of no meaning. -/
def labelInSurrogates : List (String × Json) :=
  [("note", .array [.null]), ("error_prefix", .text [0xD83D, 0xDE00, 0x0A, 0x22]),
   ("gas_limit", .ofNat 18446744073709551615), ("note", .bool true)]

theorem parse_partial_labelInSurrogates :
    parse? ("\x7b\"note\":[null],\"error_prefix\":\"\\ud83d\\ude00\\n\\\"\"," ++
        "\"gas_limit\":18446744073709551615,\"note\":true\x7d") =
      some { gasLimit := 18446744073709551615, errorLabel := "😀\n\"" } := by
  have htext : (Json.ofFields labelInSurrogates).render =
      "\x7b\"note\":[null],\"error_prefix\":\"\\ud83d\\ude00\\n\\\"\"," ++
        "\"gas_limit\":18446744073709551615,\"note\":true\x7d" := by
    decide +kernel
  have hspells : Json.SpellsObject labelInSurrogates
      (Json.ofFields labelInSurrogates).render.toList := by
    apply Json.spellsObject_render
    simp [labelInSurrogates, Json.WellFormed, Json.lexemes, Json.lexemesOfItems, Json.ofNat,
      Json.Lexeme.WellFormed, Json.isNumber_toDigits]
  rw [htext] at hspells
  refine (parse_partial { gasLimit := 18446744073709551615, errorLabel := "😀\n\"" }).1
    labelInSurrogates _ hspells ?_ (by decide)
  have hlabel : Json.Stands [0xD83D, 0xDE00, 0x0A, 0x22] "😀\n\"".toList := by
    rw [show "😀\n\"".toList = ['😀', '\n', '"'] by decide]
    exact .pair (c := '😀') (by decide) (.char (c := '\n') (.char (c := '"') .nil))
  intro field hfield hname
  simp only [labelInSurrogates, List.mem_cons, List.not_mem_nil, or_false] at hfield
  rcases hfield with rfl | rfl | rfl | rfl
  · exact absurd hname (by decide)
  · exact .errorLabel hlabel
  · exact .gasLimit
  · exact absurd hname (by decide)

end RunConfig

end CellScript
