import FormCalc.Expr.Eval
import FormCalc.Form
import FormCalc.Value.Json

/-!
# Engines and caches

An engine compiles formulas under its ceilings, keeps them in a cache under the ids of the fields
they belong to, and evaluates them. Several engines may use one cache. Everything that is done is
also told in a log.

* `Workspace`: the caches and the log.
* `Engine.parseFormula`: the only operation of an engine that changes a cache, and it does so only
  if the formula can be parsed.
* `Engine.evaluate`, `Engine.evalFormula`: evaluation with and without the cache.
* `Engine.parseForm`, `Engine.evaluateForm`: the same for every field of a form.
-/

namespace FormCalc

/-- A formula in a cache. The stamp tells one parse from another of the same text. -/
structure Entry where
  formula : Formula
  stamp : Nat

namespace Entry

/-- The text that was parsed. -/
def text (e : Entry) : String :=
  String.ofList e.formula.source.contents

end Entry

/-- Formulas by the ids of their fields. -/
abbrev Cache := Table Entry

/-- What is told in the log. -/
inductive Event where
  | parsed (id : String) (nodes : Nat)
  | evaluating (id : String)
  | evaluated (text : List Char) (value : Value)
  | rejected (id : String) (error : FormulaError)

/-- The line of an event in the log: its level and its text. -/
def Event.line : Event → String
  | .parsed id nodes => s!"DEBUG parsed formula for `{id}` ({nodes} nodes)"
  | .evaluating id => s!"TRACE evaluating `{id}`"
  | .evaluated text value =>
    "TRACE evaluated `" ++ String.ofList text ++ "` to " ++ String.ofList value.write
  | .rejected id error => s!"WARN rejected formula for `{id}`: {error.message}"

/-- The caches by their numbers, the number of parses so far, and the log. A cache that was never
used is empty. -/
structure Workspace where
  caches : Nat → Cache := fun _ => []
  parses : Nat := 0
  log : List Event := []

namespace Workspace

/-- Changes one cache. -/
def change (w : Workspace) (cache : Nat) (f : Cache → Cache) : Workspace :=
  { w with caches := fun n => if n = cache then f (w.caches n) else w.caches n }

/-- Appends to the log. -/
def tell (w : Workspace) (e : Event) : Workspace :=
  { w with log := w.log ++ [e] }

/-- Keeps a newly parsed formula. -/
def store (w : Workspace) (cache : Nat) (id : String) (f : Formula) : Workspace :=
  { w.change cache (Table.insert id ⟨f, w.parses⟩) with parses := w.parses + 1 }

@[simp] theorem caches_tell (w : Workspace) (e : Event) : (w.tell e).caches = w.caches := rfl

@[simp] theorem caches_store (w : Workspace) (cache n : Nat) (id : String) (f : Formula) :
    (w.store cache id f).caches n =
      if n = cache then Table.insert id ⟨f, w.parses⟩ (w.caches n) else w.caches n := rfl

end Workspace

/-- Something that an engine does in a workspace. -/
abbrev Action := StateM Workspace

/-- An engine: the number of its cache, and its ceilings. -/
structure Engine where
  cache : Nat
  limits : Limits := Limits.standard
deriving DecidableEq

namespace Engine

/-- The name under which diagnostics refer to a formula. -/
def sourceName : String := "formula"

variable (e : Engine)

/-- The formula of a text under the ceilings of the engine. -/
def compile (text : String) : Except FormulaError Formula :=
  parse sourceName text e.limits

/-- Checks a formula without keeping it. -/
def validate (text : String) : Verdict :=
  match e.compile text with
  | .ok _ => { valid := true }
  | .error err => { valid := false, error? := some err.message }

/-- Evaluates a formula and tells its value. -/
def evalParsed (f : Formula) (context : Value) : Action (Except FormulaError Value) := do
  let r := f.eval e.limits context
  if let .ok v := r then modify (·.tell (.evaluated f.tree.span.text v))
  return r

/-- Parses a text and evaluates it at once. -/
def evalFormula (text : String) (context : Value) : Action (Except FormulaError Value) :=
  match e.compile text with
  | .ok f => e.evalParsed f context
  | .error err => return .error err

/-- Parses the formula of a field and keeps it. A formula that was kept before is replaced only if
parsing succeeds. -/
def parseFormula (id text : String) : Action (Except FormulaError Unit) :=
  match e.compile text with
  | .ok f => do
    modify (·.tell (.parsed id f.tree.nodeCount))
    modify (·.store e.cache id f)
    return .ok ()
  | .error err => return .error err

/-- Evaluates the formula that is kept for a field. -/
def evaluate (id : String) (context : Value) : Action (Except FormulaError Value) := do
  match Table.find? id ((← get).caches e.cache) with
  | some entry =>
    modify (·.tell (.evaluating id))
    e.evalParsed entry.formula context
  | none => return .error (.notParsed id)

/-- Parses every field of a form and adds the errors, by id, to those so far. -/
def parseFields : List ComputedField → Table FormulaError → Action (Table FormulaError)
  | [], errors => return errors
  | f :: fields, errors => do
    match ← e.parseFormula f.id f.formula with
    | .ok _ => parseFields fields errors
    | .error err =>
      modify (·.tell (.rejected f.id err))
      parseFields fields (Table.insert f.id err errors)

/-- Parses every field of a form. Fields that fail are reported by id and do not keep the others
from being parsed. -/
def parseForm (fields : List ComputedField) : Action (Table FormulaError) :=
  e.parseFields fields []

/-- Evaluates every field of a form and adds the results, by id, to those so far. -/
def evaluateFields (context : Value) :
    List ComputedField → Table (Except FormulaError Value) →
      Action (Table (Except FormulaError Value))
  | [], results => return results
  | f :: fields, results => do
    let r ← e.evaluate f.id context
    evaluateFields context fields (Table.insert f.id r results)

/-- Evaluates every field of a form in one context. -/
def evaluateForm (fields : List ComputedField) (context : Value) :
    Action (Table (Except FormulaError Value)) :=
  e.evaluateFields context fields []

end Engine

end FormCalc
