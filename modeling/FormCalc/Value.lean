import FormCalc.Number.Binary
import FormCalc.Table

/-!
# Values

What a formula reads and what it returns: the values of JSON, and one more for what is absent (a
member that an object does not have, an index outside an array). The members of an object are a
table, so they are in order of their keys.

* `Value.member`, `Value.element`: look-ups, which give the absent value where nothing is.
* `Value.eq`: equality, where numbers are compared as numbers.
-/

namespace FormCalc

/-- A value. -/
inductive Value where
  | null
  | bool (b : Bool)
  | number (x : Float)
  | string (s : String)
  | array (items : List Value)
  | object (members : List (String × Value))
  | undefined

/-- The kinds of values. -/
inductive Kind where
  | null | boolean | number | string | array | object | undefined
deriving DecidableEq

/-- The name of a kind. -/
def Kind.name : Kind → String
  | .null => "null"
  | .boolean => "boolean"
  | .number => "number"
  | .string => "string"
  | .array => "array"
  | .object => "object"
  | .undefined => "undefined"

namespace Value

/-- The kind of a value. -/
def kind : Value → Kind
  | .null => .null
  | .bool _ => .boolean
  | .number _ => .number
  | .string _ => .string
  | .array _ => .array
  | .object _ => .object
  | .undefined => .undefined

/-- The object without members. -/
def emptyObject : Value := .object []

/-- The member of an object under a name. -/
def member (v : Value) (name : String) : Value :=
  match v with
  | .object members => (Table.find? name members).getD .undefined
  | _ => .undefined

/-- The element of an array at an index, counted from zero. -/
def element (v : Value) (i : Nat) : Value :=
  match v with
  | .array items => items[i]?.getD .undefined
  | _ => .undefined

/-- The number nearest to an integer. -/
def ofInt (i : Int) : Value :=
  .number (if i < 0 then -(Float.ofNat i.natAbs) else Float.ofNat i.natAbs)

mutual

/-- Equality of values. Numbers are equal if they compare so: not a number differs from itself, and
the two zeros are equal. The absent value differs from null. -/
def eq : Value → Value → Bool
  | .null, .null => true
  | .undefined, .undefined => true
  | .bool a, .bool b => a == b
  | .number x, .number y => x == y
  | .string s, .string t => s == t
  | .array xs, .array ys => eqItems xs ys
  | .object ms, .object ns => eqMembers ms ns
  | _, _ => false

/-- Equality element by element. -/
def eqItems : List Value → List Value → Bool
  | [], [] => true
  | x :: xs, y :: ys => eq x y && eqItems xs ys
  | _, _ => false

/-- Equality member by member. -/
def eqMembers : List (String × Value) → List (String × Value) → Bool
  | [], [] => true
  | (k, x) :: ms, (l, y) :: ns => k == l && eq x y && eqMembers ms ns
  | _, _ => false

end

end Value

end FormCalc
