import FormCalc.Value

/-!
# Taking values apart and changing objects

* `asBool`, `asString`, `asNumber`, `asArray`, `asObject`: the content of a value of a known kind.
* `set`, `unset`: change a member of an object and give back what it was before.
* `follow`: looks up keys and indices one after another.
-/

namespace FormCalc.Value

/-- The value is not of the kind that was asked for. -/
inductive AccessError where
  | notBool | notString | notNumber | notArray | notObject
deriving DecidableEq

/-- The wording of the error. -/
def AccessError.message : AccessError → String
  | .notBool => "not a bool"
  | .notString => "not a string"
  | .notNumber => "not a number"
  | .notArray => "not an array"
  | .notObject => "not an object"

/-- The content of a boolean. -/
def asBool : Value → Except AccessError Bool
  | .bool b => .ok b
  | _ => .error .notBool

/-- The content of a string. -/
def asString : Value → Except AccessError String
  | .string s => .ok s
  | _ => .error .notString

/-- The content of a number. -/
def asNumber : Value → Except AccessError Float
  | .number x => .ok x
  | _ => .error .notNumber

/-- The elements of an array. -/
def asArray : Value → Except AccessError (List Value)
  | .array items => .ok items
  | _ => .error .notArray

/-- The members of an object. -/
def asObject : Value → Except AccessError (Table Value)
  | .object members => .ok members
  | _ => .error .notObject

/-- Puts a value under a key of an object. Gives the value that was there and the new object. -/
def set (v : Value) (key : String) (new : Value) : Except AccessError (Option Value × Value) := do
  let members ← v.asObject
  return (Table.find? key members, .object (Table.insert key new members))

/-- Removes a key of an object. Gives the value that was there and the new object. -/
def unset (v : Value) (key : String) : Except AccessError (Option Value × Value) := do
  let members ← v.asObject
  return (Table.find? key members, .object (Table.erase key members))

/-- A step into a value. -/
inductive Step where
  | key (name : String)
  | index (i : Nat)
deriving DecidableEq

/-- Looks up one step after another. -/
def follow (v : Value) (path : List Step) : Value :=
  path.foldl (fun v s => match s with
    | .key name => v.member name
    | .index i => v.element i) v

end FormCalc.Value
