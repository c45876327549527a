import FormCalc.Json.Record

/-!
# Records of forms

A form has computed fields, and checking a formula has a verdict. Both are exchanged as JSON.

* `ComputedField`: a field with its formula. Its label and its type may be missing.
* `Verdict`: whether a formula can be used, and what is wrong with it if not.
-/

namespace FormCalc

/-- A computed field of a form. -/
structure ComputedField where
  id : String
  formula : String
  label : String := ""
  type : String := "computed"
deriving DecidableEq

namespace ComputedField

/-- A field that is being read. -/
structure Draft where
  id? : Option String := none
  formula? : Option String := none
  label? : Option String := none
  type? : Option String := none

/-- The record form of a field. -/
def format : Json.Record Draft where
  name := "FormComputedField"
  blank := {}
  members := [
    { name := "id", required := true, filled := fun d => d.id?.isSome
      fill := do let s ← Json.string; return fun d => { d with id? := some s } },
    { name := "formula", required := true, filled := fun d => d.formula?.isSome
      fill := do let s ← Json.string; return fun d => { d with formula? := some s } },
    { name := "label", required := false, filled := fun d => d.label?.isSome
      fill := do let s ← Json.string; return fun d => { d with label? := some s } },
    { name := "type", required := false, filled := fun d => d.type?.isSome
      fill := do let s ← Json.string; return fun d => { d with type? := some s } }]

/-- The field of a draft in which the required members are filled in. -/
def ofDraft (d : Draft) : ComputedField where
  id := d.id?.getD ""
  formula := d.formula?.getD ""
  label := d.label?.getD ""
  type := d.type?.getD "computed"

/-- Reads a field. -/
def reader : Json.Reader ComputedField :=
  ofDraft <$> Json.record format

/-- Reads a field from a JSON text. -/
def read (text : String) : Except Json.Fault ComputedField :=
  Json.document reader text

/-- Reads the fields of a form from a JSON text. -/
def readForm (text : String) : Except Json.Fault (List ComputedField) :=
  Json.document (Json.list reader) text

/-- The JSON text of a field. -/
def write (f : ComputedField) : List Char :=
  Json.objectText [
    ("id", Json.quote f.id.toList),
    ("formula", Json.quote f.formula.toList),
    ("label", Json.quote f.label.toList),
    ("type", Json.quote f.type.toList)]

/-- Whether the field has nothing but an id and a formula. -/
def isPlain (f : ComputedField) : Bool :=
  f = { id := f.id, formula := f.formula }

end ComputedField

/-- The outcome of checking a formula. -/
structure Verdict where
  valid : Bool
  error? : Option String := none
deriving DecidableEq

namespace Verdict

/-- A verdict that is being read. -/
structure Draft where
  valid? : Option Bool := none
  error? : Option (Option String) := none

/-- The record form of a verdict. -/
def format : Json.Record Draft where
  name := "ValidationResult"
  blank := {}
  members := [
    { name := "valid", required := true, filled := fun d => d.valid?.isSome
      fill := do let b ← Json.boolean; return fun d => { d with valid? := some b } },
    { name := "error", required := false, filled := fun d => d.error?.isSome
      fill := do let s? ← Json.string?; return fun d => { d with error? := some s? } }]

/-- The verdict of a draft in which the required members are filled in. -/
def ofDraft (d : Draft) : Verdict where
  valid := d.valid?.getD false
  error? := d.error?.getD none

/-- Reads a verdict from a JSON text. -/
def read (text : String) : Except Json.Fault Verdict :=
  (Json.document (Json.record format) text).map ofDraft

/-- The JSON text of a verdict. An error that is absent is left out. -/
def write (v : Verdict) : List Char :=
  Json.objectText <|
    ("valid", (if v.valid then "true" else "false").toList) ::
      (v.error?.toList.map fun e => ("error", Json.quote e.toList))

end Verdict

end FormCalc
