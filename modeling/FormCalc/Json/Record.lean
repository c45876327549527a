import FormCalc.Json.Skip

/-!
# Records in JSON

A record is an object with known members. Members may come in any order, each at most once, and
members with other names are skipped. A record may also be given as the list of its members in
order. Members that may be missing have a default.

* `Record`: the members of a record and how each is filled in.
* `record`: reads a record in either form.
-/

namespace FormCalc.Json

/-- A member of a record that is collected in a value of type `σ`. -/
structure Member (σ : Type) where
  name : String
  /-- The record cannot be without it. -/
  required : Bool
  /-- It has been filled in. -/
  filled : σ → Bool
  /-- Reads its value. -/
  fill : Reader (σ → σ)

/-- The name of a kind of record, its members in order, and the record that has none of them. -/
structure Record (σ : Type) where
  name : String
  members : List (Member σ)
  blank : σ

/-- Reads a scalar only to say what was found where something else was wanted. -/
def mismatch {α : Type} (wanted : Wanted) : Reader α := do
  match ← peek with
  | none => throw .endInValue
  | some c =>
    let found : Found ←
      if c = 'n' then do skip; keyword ['u', 'l', 'l']; pure Found.null
      else if c = 't' then do skip; keyword ['r', 'u', 'e']; pure (Found.boolean true)
      else if c = 'f' then do skip; keyword ['a', 'l', 's', 'e']; pure (Found.boolean false)
      else if c = '-' then do skip; pure (numberFound (← number true))
      else if c.isDigit then do pure (numberFound (← number false))
      else if c = '"' then do skip; pure (Found.string (← stringBody).toList)
      else if c = '[' then pure Found.sequence
      else if c = '{' then pure Found.map
      else throw .noValue
    throw (.wrongType found wanted)
where
  /-- How a number of the wrong type is named. -/
  numberFound : NumberToken → Found
    | .integer i => .integer i
    | .floating x => .floating x

/-- Reads a string. -/
def string : Reader String := do
  match ← peek with
  | some '"' => skip; stringBody
  | _ => mismatch .string

/-- Reads a string or `null`. -/
def string? : Reader (Option String) := do
  match ← peek with
  | some 'n' => skip; keyword ['u', 'l', 'l']; return none
  | _ => return some (← string)

/-- Reads a boolean. -/
def boolean : Reader Bool := do
  match ← peek with
  | some 't' => skip; keyword ['r', 'u', 'e']; return true
  | some 'f' => skip; keyword ['a', 'l', 's', 'e']; return false
  | _ => mismatch .boolean

/-- The natural number of a token. -/
def NumberToken.toNatural : NumberToken → Except Fault Nat
  | .integer i => if i < 0 then .error (.negative i) else .ok i.toNat
  | .floating x => .error (.wrongType (.floating x) .natural)

/-- Reads a natural number of at most 64 bits. -/
def natural : Reader Nat := do
  match ← peek with
  | some '-' => skip; (← number true).toNatural
  | some c => if c.isDigit then (← number false).toNatural else mismatch .natural
  | none => mismatch .natural

/-- Fills in members given by name until the object ends. -/
def fillByName {σ : Type} (r : Record σ) : Nat → Bool → σ → Reader σ
  | 0, _, s => return s
  | n + 1, first, s => do
    if ← moreMembers first then
      let key ← stringBody
      match r.members.find? (·.name = key) with
      | some m =>
        if m.filled s then throw (.duplicateField key)
        colon
        let f ← m.fill
        fillByName r n false (f s)
      | none =>
        colon
        skipValue
        fillByName r n false s
    else return s

/-- Fills in members given in order. -/
def fillInOrder {σ : Type} (r : Record σ) : List (Member σ) → Nat → σ → Reader σ
  | [], _, s => return s
  | m :: ms, count, s => do
    if ← moreElements (count = 0) then
      let f ← m.fill
      fillInOrder r ms (count + 1) (f s)
    else if m.required then throw (.tooFewElements count r.name r.members.length)
    else fillInOrder r ms count s

/-- The required members have all been filled in. -/
def checkFilled {σ : Type} (r : Record σ) (s : σ) : Except Fault Unit :=
  match r.members.find? fun m => m.required && !m.filled s with
  | some m => .error (.missingField m.name)
  | none => .ok ()

/-- Reads a record. -/
def record {σ : Type} (r : Record σ) : Reader σ := do
  match ← peek with
  | none => throw .endInValue
  | some c =>
    if c = '[' then
      skip
      let s ← fillInOrder r r.members 0 r.blank
      closeList
      return s
    else if c = '{' then
      skip
      let bound := (← get).length + 1
      let s ← fillByName r bound true r.blank
      checkFilled r s
      closeObject
      return s
    else mismatch (.record r.name)

/-- Reads a list of values. -/
def list {α : Type} (element : Reader α) : Reader (List α) := do
  match ← peek with
  | none => throw .endInValue
  | some c =>
    if c = '[' then
      skip
      let bound := (← get).length + 1
      let xs ← elements element bound true
      closeList
      return xs
    else mismatch .sequence

/-- The written form of an object with the given members. -/
def objectText (members : List (String × List Char)) : List Char :=
  ['{'] ++ [','].intercalate (members.map fun m => quote m.1.toList ++ ':' :: m.2) ++ ['}']

end FormCalc.Json
