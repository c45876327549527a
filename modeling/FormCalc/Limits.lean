import FormCalc.Text.Diagnostic

/-!
# Ceilings on the work of a formula

Formulas are written by people who may be hostile, so every unit of work is bounded by structure
and not by time: the length of the text bounds reading, nesting depth and node count bound the
tree, and the array ceiling bounds every look into an array. Names that some object models
reserve are refused wherever a name is used.

* `checkLength`, `checkDepth`, `checkNodes`, `checkArray`: a value up to its ceiling passes.
* `checkName`: a name passes unless it is exactly one of `blockedNames`.
-/

namespace FormCalc

/-- The ceilings. -/
structure Limits where
  /-- Characters of a formula. -/
  formulaLength : Nat := 10000
  /-- Levels of nesting; the formula itself is the first. -/
  depth : Nat := 20
  /-- Nodes of an expression tree. -/
  nodes : Nat := 500
  /-- Elements of an array that is looked into. -/
  arraySize : Nat := 1000
deriving DecidableEq

/-- The ceilings that hold unless others are given. -/
def Limits.standard : Limits := {}

/-- Names that may not be looked up. -/
def blockedNames : List String := ["__proto__", "constructor", "prototype"]

/-- Whether a name is one of the blocked names; names that only contain one are not. -/
def isBlocked (name : String) : Bool :=
  blockedNames.contains name

/-- A ceiling that was passed, or a blocked name that was used. -/
inductive LimitError where
  | formulaLength (observed limit : Nat)
  | depth (observed limit : Nat)
  | nodes (observed limit : Nat)
  | arraySize (observed limit : Nat)
  | blockedName (name : String)
deriving DecidableEq

namespace LimitError

/-- The attack that the ceiling prevents. -/
def rationale : LimitError → String
  | .formulaLength .. =>
    "Oversized formulas are rejected before parsing to prevent resource exhaustion."
  | .depth .. =>
    "Deeply nested formulas are rejected to prevent stack overflow during parsing and evaluation."
  | .nodes .. =>
    "Large expression trees are rejected to prevent CPU and memory exhaustion during evaluation."
  | .arraySize .. =>
    "Large arrays are rejected to prevent CPU and memory exhaustion during evaluation."
  | .blockedName .. =>
    "Reserved names are rejected to prevent prototype pollution and object-model injection."

/-- What the author of the formula can do. -/
def remedy : LimitError → String
  | .formulaLength .. =>
    "Shorten the formula or split the calculation across several computed fields."
  | .depth .. => "Reduce the number of nested parentheses, function calls or array indexes."
  | .nodes .. => "Simplify the formula or split it across several computed fields."
  | .arraySize .. =>
    "Reduce the number of entries or aggregate the data before evaluating the formula."
  | .blockedName .. => "Rename the property to a name that is not reserved."

/-- What was observed and what is allowed. -/
def finding : LimitError → String
  | .formulaLength observed limit =>
    s!"formula length exceeds maximum of {limit} characters (got {observed})."
  | .depth observed limit =>
    s!"formula nesting depth exceeds maximum of {limit} levels (got {observed})."
  | .nodes observed limit =>
    s!"formula complexity exceeds maximum of {limit} nodes (got {observed})."
  | .arraySize observed limit =>
    s!"array size exceeds maximum of {limit} elements (got {observed})."
  | .blockedName name =>
    let reserved := ", ".intercalate blockedNames
    s!"access to property `{name}` is blocked (reserved names: {reserved}; got `{name}`)."

/-- The full message: the finding, the rationale and the remedy. -/
def message (e : LimitError) : String :=
  e.finding ++ " " ++ e.rationale ++ " " ++ e.remedy

/-- The name of the kind of error. -/
def kind : LimitError → String
  | .formulaLength .. => "FormulaLengthExceeded"
  | .depth .. => "FormulaDepthExceeded"
  | .nodes .. => "FormulaComplexityExceeded"
  | .arraySize .. => "ArraySizeExceeded"
  | .blockedName .. => "BlockedPropertyAccess"

/-- The error as a record of its kind and its figures. -/
def summary (e : LimitError) : String :=
  match e with
  | .formulaLength observed limit | .depth observed limit | .nodes observed limit
  | .arraySize observed limit =>
    e.kind ++ s!" \x7b observed: {observed}, limit: {limit} \x7d"
  | .blockedName name =>
    e.kind ++ " \x7b name: " ++ String.ofList (Text.quoted name.toList) ++ " \x7d"

end LimitError

/-- A value passes if it is at most its ceiling. -/
def ensureAtMost (limit observed : Nat) (e : Nat → Nat → LimitError) : Except LimitError Unit :=
  if observed ≤ limit then .ok () else .error (e observed limit)

namespace Limits

/-- Checks the number of characters of a formula. -/
def checkLength (l : Limits) (observed : Nat) : Except LimitError Unit :=
  ensureAtMost l.formulaLength observed .formulaLength

/-- Checks a level of nesting. -/
def checkDepth (l : Limits) (observed : Nat) : Except LimitError Unit :=
  ensureAtMost l.depth observed .depth

/-- Checks a number of nodes. -/
def checkNodes (l : Limits) (observed : Nat) : Except LimitError Unit :=
  ensureAtMost l.nodes observed .nodes

/-- Checks the number of elements of an array. -/
def checkArray (l : Limits) (observed : Nat) : Except LimitError Unit :=
  ensureAtMost l.arraySize observed .arraySize

end Limits

/-- Refuses a blocked name. -/
def checkName (name : String) : Except LimitError Unit :=
  if isBlocked name then .error (.blockedName name) else .ok ()

theorem ensureAtMost_eq_ok_iff {limit observed : Nat} {e : Nat → Nat → LimitError} :
    ensureAtMost limit observed e = .ok () ↔ observed ≤ limit := by
  unfold ensureAtMost
  split <;> simp_all

theorem ensureAtMost_eq_error_iff {limit observed : Nat} {e : Nat → Nat → LimitError}
    {err : LimitError} :
    ensureAtMost limit observed e = .error err ↔ limit < observed ∧ err = e observed limit := by
  by_cases h : observed ≤ limit
  · simp [ensureAtMost, h, Nat.not_lt.2 h]
  · simp [ensureAtMost, h, Nat.lt_of_not_le h, eq_comm]

theorem checkName_eq_ok_iff {name : String} : checkName name = .ok () ↔ name ∉ blockedNames := by
  simp [checkName, isBlocked]

theorem checkName_eq_error_iff {name : String} {err : LimitError} :
    checkName name = .error err ↔ name ∈ blockedNames ∧ err = .blockedName name := by
  by_cases h : name ∈ blockedNames <;> simp [checkName, isBlocked, h, eq_comm]

end FormCalc
