import AttestationIntake.Json.Value
import Mathlib.Data.List.Basic
import Mathlib.Data.List.Forall2

/-!
Other ways to write the JSON of a value. The keys of an object may stand in another order, and the
values of an object may stand alone in an array, in the order of its keys. Both may be done at any
depth and independently of each other.
-/

namespace AttestationIntake.Json

inductive Restates : Json → Json → Prop
  | same (json : Json) : Restates json json
  | array {items items' : List Json} (hitems : List.Forall₂ Restates items items') :
      Restates (.array items) (.array items')
  | object {fields entries : List (String × Json)} {values : List Json}
      (hvalues : List.Forall₂ Restates (fields.map (·.2)) values)
      (hentries : entries.Perm ((fields.map (·.1)).zip values)) :
      Restates (.object fields) (.object entries)
  | positional {fields : List (String × Json)} {values : List Json}
      (hvalues : List.Forall₂ Restates (fields.map (·.2)) values) :
      Restates (.object fields) (.array values)

namespace Restates

variable {json : Json}

theorem forall₂_same (items : List Json) : List.Forall₂ Restates items items :=
  List.forall₂_same.mpr fun json _ => .same json

theorem eq_of_natural {value : UInt64} (h : Restates (.natural value) json) :
    json = .natural value := by
  cases h
  rfl

theorem eq_of_text {value : String} (h : Restates (.text value) json) : json = .text value := by
  cases h
  rfl

theorem array_inv {items : List Json} (h : Restates (.array items) json) :
    ∃ items', json = .array items' ∧ List.Forall₂ Restates items items' := by
  cases h with
  | same => exact ⟨items, rfl, forall₂_same items⟩
  | array hitems => exact ⟨_, rfl, hitems⟩

/-- An object is restated by its values, each restated: under its keys in some order, or alone. -/
theorem object_inv {fields : List (String × Json)} (h : Restates (.object fields) json) :
    ∃ values, List.Forall₂ Restates (fields.map (·.2)) values ∧
      ((∃ entries, json = .object entries ∧ entries.Perm ((fields.map (·.1)).zip values)) ∨
        json = .array values) := by
  cases h with
  | same =>
    refine ⟨fields.map (·.2), forall₂_same _, .inl ⟨fields, rfl, ?_⟩⟩
    rw [List.zip_map', List.map_id'']
    exact fun _ => rfl
  | object hvalues hentries => exact ⟨_, hvalues, .inl ⟨_, rfl, hentries⟩⟩
  | positional hvalues => exact ⟨_, hvalues, .inr rfl⟩

end Restates

end AttestationIntake.Json
