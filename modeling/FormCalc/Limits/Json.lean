import FormCalc.Json.Record
import FormCalc.Limits

/-!
# Ceilings in JSON

Ceilings are written as a record of four numbers. When they are read, a ceiling that is missing
keeps its standard value.
-/

namespace FormCalc.Limits

/-- Ceilings that are being read. -/
structure Draft where
  formulaLength? : Option Nat := none
  depth? : Option Nat := none
  nodes? : Option Nat := none
  arraySize? : Option Nat := none

/-- The record form of ceilings. -/
def format : Json.Record Draft where
  name := "Limits"
  blank := {}
  members := [
    { name := "max_formula_length", required := false, filled := fun d => d.formulaLength?.isSome
      fill := do let n ← Json.natural; return fun d => { d with formulaLength? := some n } },
    { name := "max_ast_depth", required := false, filled := fun d => d.depth?.isSome
      fill := do let n ← Json.natural; return fun d => { d with depth? := some n } },
    { name := "max_node_count", required := false, filled := fun d => d.nodes?.isSome
      fill := do let n ← Json.natural; return fun d => { d with nodes? := some n } },
    { name := "max_array_size", required := false, filled := fun d => d.arraySize?.isSome
      fill := do let n ← Json.natural; return fun d => { d with arraySize? := some n } }]

/-- The ceilings of a draft. -/
def ofDraft (d : Draft) : Limits where
  formulaLength := d.formulaLength?.getD standard.formulaLength
  depth := d.depth?.getD standard.depth
  nodes := d.nodes?.getD standard.nodes
  arraySize := d.arraySize?.getD standard.arraySize

/-- Reads ceilings from a JSON text. -/
def read (text : String) : Except Json.Fault Limits :=
  (Json.document (Json.record format) text).map ofDraft

/-- The JSON text of ceilings. -/
def write (l : Limits) : List Char :=
  Json.objectText [
    ("max_formula_length", Number.digits l.formulaLength),
    ("max_ast_depth", Number.digits l.depth),
    ("max_node_count", Number.digits l.nodes),
    ("max_array_size", Number.digits l.arraySize)]

end FormCalc.Limits
