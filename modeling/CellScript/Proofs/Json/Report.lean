/-
Module: CellScript.Proofs.Json.Report
Purpose: A diagnostic is read back from the text that is written for it. What it does not have is not
  written, and may as well be null.
Main exports: Position.ofJson?_toJson, Token.ofJson?_toJson, Diagnostic.present,
  Diagnostic.absent, Diagnostic.ofJson?_of_carries, Diagnostic.read_written
-/
import CellScript.Json.Document
import CellScript.Proofs.Json.Field

namespace CellScript

/-! ### Names -/

theorem TokenKind.mem_all (k : TokenKind) : k ∈ all := by
  cases k <;> decide

theorem TokenKind.ofName?_name (k : TokenKind) : ofName? k.name = some k := by
  have hall : ∀ k ∈ all, ofName? k.name = some k := by decide +kernel
  exact hall k (mem_all k)

theorem TokenKind.ofJson?_toJson (k : TokenKind) : ofJson? k.toJson = some k := by
  rw [ofJson?, toJson, Json.name?_ofText]
  exact ofName?_name k

theorem Stage.ofJson?_toJson (s : Stage) : ofJson? s.toJson = some s := by
  rw [ofJson?, toJson, Json.name?_ofText]
  cases s <;> rfl

/-! ### Positions and tokens -/

namespace Position

theorem ofJson?_toJson (p : Position) : ofJson? p.toJson = some p := by
  have hcarries := Json.carries_map p.fields
  have hnames : (p.fields.map Prod.fst).Nodup := (by decide : ["x", "y", "z"].Nodup)
  obtain ⟨x, hx, hxValue⟩ :=
    Json.required?_of_carries hcarries hnames "x" (by simp [fields]) (Json.int32?_ofInt p.x)
  obtain ⟨y, hy, hyValue⟩ :=
    Json.required?_of_carries hcarries hnames "y" (by simp [fields]) (Json.int32?_ofInt p.y)
  obtain ⟨z, hz, hzValue⟩ :=
    Json.required?_of_carries hcarries hnames "z" (by simp [fields]) (Json.int32?_ofInt p.z)
  have hfields : p.toJson.fields? ["x", "y", "z"] false = some [x, y, z] := by
    rw [toJson, Json.ofFields, Json.fields?_of_carries hcarries]
    simp [hx, hy, hz]
  rw [ofJson?, hfields]
  simp only [hxValue, hyValue, hzValue]
  rfl

theorem wellFormed_toJson (p : Position) : p.toJson.WellFormed := by
  apply Json.wellFormed_ofFields
  simp [fields, Json.wellFormed_ofInt]

end Position

namespace Token

theorem ofJson?_toJson (t : Token) : ofJson? t.toJson = some t := by
  have hcarries := Json.carries_map t.fields
  have hnames : (t.fields.map Prod.fst).Nodup := (by decide : ["kind", "pos"].Nodup)
  obtain ⟨kind, hkind, hkindValue⟩ :=
    Json.required?_of_carries hcarries hnames "kind" (by simp [fields]) t.kind.ofJson?_toJson
  obtain ⟨pos, hpos, hposValue⟩ :=
    Json.required?_of_carries hcarries hnames "pos" (by simp [fields]) t.pos.ofJson?_toJson
  have hfields : t.toJson.fields? ["kind", "pos"] false = some [kind, pos] := by
    rw [toJson, Json.ofFields, Json.fields?_of_carries hcarries]
    simp [hkind, hpos]
  rw [ofJson?, hfields]
  simp only [hkindValue, hposValue]
  rfl

theorem wellFormed_toJson (t : Token) : t.toJson.WellFormed := by
  apply Json.wellFormed_ofFields
  simp [fields, TokenKind.toJson, Json.wellFormed_ofText, Position.wellFormed_toJson]

end Token

/-! ### Diagnostics -/

namespace Diagnostic

/-- The names of the fields that a diagnostic has. -/
def present (d : Diagnostic) : List String :=
  ["stage", "message"] ++ (if d.token.isSome then ["token"] else [])
    ++ (if d.pos.isSome then ["pos"] else [])

/-- The names of the fields that a diagnostic may have and does not. -/
def absent (d : Diagnostic) : List String :=
  (if d.token.isSome then [] else ["token"]) ++ (if d.pos.isSome then [] else ["pos"])

theorem map_fst_fields (d : Diagnostic) : d.fields.map Prod.fst = d.present := by
  obtain ⟨stage, message, _ | token, _ | pos⟩ := d <;> rfl

theorem nodup_names (d : Diagnostic) : (d.present ++ d.absent).Nodup := by
  obtain ⟨stage, message, _ | token, _ | pos⟩ := d <;> simp [present, absent]

section Fields

variable {d : Diagnostic} {v : Json} {name : String}

theorem mem_fields_iff : (name, v) ∈ d.fields ↔
    name = "stage" ∧ v = d.stage.toJson ∨ name = "message" ∧ v = .ofText d.message ∨
      (name = "token" ∧ ∃ token, d.token = some token ∧ v = token.toJson) ∨
      (name = "pos" ∧ ∃ pos, d.pos = some pos ∧ v = pos.toJson) := by
  obtain ⟨stage, message, _ | token, _ | pos⟩ := d <;> simp [fields, Json.optionalField]

theorem wellFormed_of_mem_fields (h : (name, v) ∈ d.fields) : v.WellFormed := by
  rcases mem_fields_iff.1 h with ⟨-, rfl⟩ | ⟨-, rfl⟩ | ⟨-, token, -, rfl⟩ | ⟨-, pos, -, rfl⟩
  · exact Json.wellFormed_ofText _
  · exact Json.wellFormed_ofText _
  · exact token.wellFormed_toJson
  · exact pos.wellFormed_toJson

end Fields

section Reading

variable {d : Diagnostic} {members : List (List Nat × Json)} {fields : List (String × Json)}
  {nulls : List String}

/-- Fields that are null beside those that the diagnostic has. -/
theorem ofJson?_of_carries (h : Json.Carries members fields) (hnulls : nulls.Sublist d.absent)
    (hfields : fields.Perm (d.fields ++ nulls.map fun name => (name, Json.null))) :
    ofJson? (.object members) = some d := by
  have hnames : (fields.map Prod.fst).Nodup := by
    have hperm := hfields.map Prod.fst
    rw [List.map_append, map_fst_fields, List.map_map] at hperm
    have hsub : (d.present ++ nulls).Sublist (d.present ++ d.absent) := hnulls.append_left _
    rw [hperm.nodup_iff]
    simpa [Function.comp_def] using d.nodup_names.sublist hsub
  have hmem : ∀ {name v}, (name, v) ∈ fields ↔
      (name, v) ∈ d.fields ∨ name ∈ nulls ∧ v = .null := by
    intro name v
    rw [hfields.mem_iff]
    simp [eq_comm]
  obtain ⟨stage, hstage, hstageValue⟩ :=
    Json.required?_of_carries h hnames "stage" (hmem.2 (.inl (mem_fields_iff.2 (by simp))))
      d.stage.ofJson?_toJson
  obtain ⟨message, hmessage, hmessageValue⟩ :=
    Json.required?_of_carries h hnames "message" (hmem.2 (.inl (mem_fields_iff.2 (by simp))))
      (Json.text?_ofText d.message)
  obtain ⟨token, htoken, htokenValue⟩ : ∃ found, Json.member? members "token" = some found ∧
      Json.optional? Token.ofJson? found = some d.token := by
    apply Json.optional?_of_carries h hnames "token" Token.ofJson?_toJson nofun
    · intro t ht
      exact hmem.2 (.inl (mem_fields_iff.2 (by simp [ht])))
    · intro hnone v hv
      rcases hmem.1 hv with hv | ⟨-, hnull⟩
      · simp [mem_fields_iff, hnone] at hv
      · exact hnull
  obtain ⟨pos, hpos, hposValue⟩ : ∃ found, Json.member? members "pos" = some found ∧
      Json.optional? Position.ofJson? found = some d.pos := by
    apply Json.optional?_of_carries h hnames "pos" Position.ofJson?_toJson nofun
    · intro p hp
      exact hmem.2 (.inl (mem_fields_iff.2 (by simp [hp])))
    · intro hnone v hv
      rcases hmem.1 hv with hv | ⟨-, hnull⟩
      · simp [mem_fields_iff, hnone] at hv
      · exact hnull
  have hall : Json.fields? ["stage", "message", "token", "pos"] false (.object members) =
      some [stage, message, token, pos] := by
    rw [Json.fields?_of_carries h]
    simp [hstage, hmessage, htoken, hpos]
  rw [ofJson?, hall]
  simp only [hstageValue, hmessageValue, htokenValue, hposValue]
  rfl

theorem read_of_spellsObject {text : String} (hnulls : nulls.Sublist d.absent)
    (hfields : fields.Perm (d.fields ++ nulls.map fun name => (name, Json.null)))
    (h : Json.SpellsObject fields text.toList) : (Json.parse? text).bind ofJson? = some d := by
  obtain ⟨members, hcarries, hspells⟩ := h
  rw [Json.parse?_of_spells hspells]
  exact ofJson?_of_carries hcarries hnulls hfields

end Reading

/-- The text that is written for a diagnostic is that of an object with the fields that it has, and is
read as the diagnostic again. So is every text of an object with these fields, in any order, to which
some of those that the diagnostic does not have are added as null. -/
theorem read_written (d : Diagnostic) :
    (Json.parse? d.toJson.render).bind ofJson? = some d ∧
      (∃ fields, Json.SpellsObject fields d.toJson.render.toList ∧
        fields.map Prod.fst = d.present) ∧
      ∀ (nulls : List String) (fields : List (String × Json)) (text : String),
        nulls.Sublist d.absent →
        fields.Perm (d.fields ++ nulls.map fun name => (name, Json.null)) →
        Json.SpellsObject fields text.toList → (Json.parse? text).bind ofJson? = some d := by
  have hwritten : Json.SpellsObject d.fields d.toJson.render.toList :=
    Json.spellsObject_render fun _ => wellFormed_of_mem_fields
  have hsame : d.fields.Perm (d.fields ++ List.map (fun name => (name, Json.null)) []) := by simp
  refine ⟨?_, ⟨d.fields, hwritten, d.map_fst_fields⟩, fun _ _ _ => read_of_spellsObject⟩
  exact read_of_spellsObject (List.nil_sublist _) hsame hwritten

/-- A report with a quotation, a control character and a far cell, but no token. -/
def farCell : Diagnostic :=
  { stage := .eval, message := "say \"😀\"\u0001", pos := some ⟨-2147483648, 0, 7⟩ }

/-- The fields in the opposite order, and the token as null before them. -/
theorem read_written_farCell :
    (Json.parse? ("\x7b\"token\":null,\"pos\":\x7b\"x\":-2147483648,\"y\":0,\"z\":7\x7d," ++
      "\"message\":\"say \\\"😀\\\"\\u0001\",\"stage\":\"eval\"\x7d")).bind ofJson? =
        some farCell := by
  have htext : (Json.ofFields (farCell.fields ++ [("token", Json.null)]).reverse).render =
      "\x7b\"token\":null,\"pos\":\x7b\"x\":-2147483648,\"y\":0,\"z\":7\x7d," ++
        "\"message\":\"say \\\"😀\\\"\\u0001\",\"stage\":\"eval\"\x7d" := by
    decide +kernel
  rw [← htext]
  refine (read_written farCell).2.2 ["token"] _ _ (.refl _) (List.reverse_perm _)
    (Json.spellsObject_render ?_)
  rintro ⟨name, v⟩ hfield
  rcases List.mem_append.1 (List.mem_reverse.1 hfield) with hfield | hnull
  · exact wellFormed_of_mem_fields hfield
  · cases List.mem_singleton.1 hnull
    exact Json.wellFormed_null

end Diagnostic

end CellScript
