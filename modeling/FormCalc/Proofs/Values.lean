import FormCalc.Value.Json
import FormCalc.Proofs.Number.Whole

/-!
# Values and what is inside them

* `Value.induct`: induction over values; elements and members come as lists.
* `Value.subvalues`: a value and all values inside it.
* `Value.nesting`: how many arrays and objects stand inside one another.
* `Value.Tabled`: the members of every object are in order.
* `Value.asJson`: what is left of a value in JSON, and when nothing is lost.
-/

namespace FormCalc

namespace Value

/-- Induction over values. -/
theorem induct {P : Value → Prop} (null : P .null) (bool : ∀ b, P (.bool b))
    (number : ∀ x, P (.number x)) (string : ∀ s, P (.string s))
    (array : ∀ items, (∀ v ∈ items, P v) → P (.array items))
    (object : ∀ members, (∀ m ∈ members, P m.2) → P (.object members))
    (undefined : P .undefined) (v : Value) : P v :=
  @Value.rec P (fun items => ∀ v ∈ items, P v) (fun members => ∀ m ∈ members, P m.2)
    (fun m => P m.2) null bool number string array object undefined
    (fun _ hv => absurd hv List.not_mem_nil)
    (fun _ _ h hs => List.forall_mem_cons.2 ⟨h, hs⟩)
    (fun _ hm => absurd hm List.not_mem_nil)
    (fun _ _ h hs => List.forall_mem_cons.2 ⟨h, hs⟩)
    (fun _ _ h => h) v

mutual

/-- A value and all values inside it. -/
def subvalues : Value → List Value
  | .array items => .array items :: subvaluesItems items
  | .object members => .object members :: subvaluesMembers members
  | v => [v]

/-- Elements and all values inside them. -/
def subvaluesItems : List Value → List Value
  | [] => []
  | v :: items => subvalues v ++ subvaluesItems items

/-- The values of members and all values inside them. -/
def subvaluesMembers : List (String × Value) → List Value
  | [] => []
  | (_, v) :: members => subvalues v ++ subvaluesMembers members

end

mutual

/-- The number of arrays and objects that stand inside one another. -/
def nesting : Value → Nat
  | .array items => nestingItems items + 1
  | .object members => nestingMembers members + 1
  | _ => 0

/-- The greatest nesting of elements. -/
def nestingItems : List Value → Nat
  | [] => 0
  | v :: items => max (nesting v) (nestingItems items)

/-- The greatest nesting of members. -/
def nestingMembers : List (String × Value) → Nat
  | [] => 0
  | (_, v) :: members => max (nesting v) (nestingMembers members)

end

mutual

/-- What is left of a value in JSON: the absent value and what is no finite number are null. -/
def asJson : Value → Value
  | .undefined => .null
  | .number x =>
    match Number.Binary.ofFloat x with
    | .finite _ _ _ => .number x
    | _ => .null
  | .array items => .array (asJsonItems items)
  | .object members => .object (asJsonMembers members)
  | v => v

/-- What is left of elements. -/
def asJsonItems : List Value → List Value
  | [] => []
  | v :: items => asJson v :: asJsonItems items

/-- What is left of members. -/
def asJsonMembers : List (String × Value) → List (String × Value)
  | [] => []
  | (k, v) :: members => (k, asJson v) :: asJsonMembers members

end

/-- The members of every object inside the value are a table: in order of their keys, and no key
more than once. -/
def Tabled (v : Value) : Prop :=
  ∀ members, .object members ∈ v.subvalues → Table.Sorted members

section

variable {v w : Value} {items : List Value} {members : List (String × Value)}

theorem mem_subvaluesItems : w ∈ subvaluesItems items ↔ ∃ v ∈ items, w ∈ v.subvalues := by
  induction items with
  | nil => simp [subvaluesItems]
  | cons v items ih => simp [subvaluesItems, ih]

theorem mem_subvaluesMembers :
    w ∈ subvaluesMembers members ↔ ∃ m ∈ members, w ∈ m.2.subvalues := by
  induction members with
  | nil => simp [subvaluesMembers]
  | cons m members ih => simp [subvaluesMembers, ih]

/-- A value is the first of its subvalues. -/
theorem self_mem_subvalues (v : Value) : v ∈ v.subvalues := by
  cases v <;> simp [subvalues]

theorem mem_subvalues_array (hv : v ∈ items) (hw : w ∈ v.subvalues) :
    w ∈ (Value.array items).subvalues := by
  rw [subvalues]
  exact List.mem_cons_of_mem _ (mem_subvaluesItems.2 ⟨v, hv, hw⟩)

theorem mem_subvalues_object {m : String × Value} (hm : m ∈ members) (hw : w ∈ m.2.subvalues) :
    w ∈ (Value.object members).subvalues := by
  rw [subvalues]
  exact List.mem_cons_of_mem _ (mem_subvaluesMembers.2 ⟨m, hm, hw⟩)

theorem nesting_le_items (hv : v ∈ items) : v.nesting ≤ nestingItems items := by
  induction items with
  | nil => simp at hv
  | cons u items ih =>
    rw [nestingItems]
    rcases List.mem_cons.1 hv with rfl | hv
    · exact Nat.le_max_left _ _
    · exact Nat.le_trans (ih hv) (Nat.le_max_right _ _)

theorem nesting_le_members {m : String × Value} (hm : m ∈ members) :
    m.2.nesting ≤ nestingMembers members := by
  induction members with
  | nil => simp at hm
  | cons n members ih =>
    rw [nestingMembers]
    rcases List.mem_cons.1 hm with rfl | hm
    · exact Nat.le_max_left _ _
    · exact Nat.le_trans (ih hm) (Nat.le_max_right _ _)

theorem asJsonItems_eq_map (items : List Value) : asJsonItems items = items.map asJson := by
  induction items with
  | nil => rfl
  | cons v items ih => rw [asJsonItems, ih, List.map_cons]

theorem asJsonMembers_eq_map (members : List (String × Value)) :
    asJsonMembers members = members.map fun m => (m.1, m.2.asJson) := by
  induction members with
  | nil => rfl
  | cons m members ih => rw [asJsonMembers, ih, List.map_cons]

theorem asJson_of_isFinite {x : Float} (h : Number.IsFinite x) :
    (Value.number x).asJson = .number x := by
  obtain ⟨negative, m, e, h⟩ := h
  rw [asJson, h]

theorem asJson_of_not_isFinite {x : Float} (h : ¬Number.IsFinite x) :
    (Value.number x).asJson = .null := by
  rw [asJson]
  split
  · rename_i negative m e hx
    exact absurd ⟨negative, m, e, hx⟩ h
  · rfl

/-- **JSON loses nothing but what is absent and what is no finite number.** -/
theorem asJson_eq_self (hundefined : .undefined ∉ v.subvalues)
    (hfinite : ∀ x, .number x ∈ v.subvalues → Number.IsFinite x) : v.asJson = v := by
  induction v using induct with
  | null | bool | string => rfl
  | number x => exact asJson_of_isFinite (hfinite x (self_mem_subvalues _))
  | array items ih =>
    have hitems : items.map asJson = items.map id := List.map_congr_left fun v hv =>
      ih v hv (fun hmem => hundefined (mem_subvalues_array hv hmem))
        fun x hx => hfinite x (mem_subvalues_array hv hx)
    rw [asJson, asJsonItems_eq_map, hitems, List.map_id]
  | object members ih =>
    have hmembers : members.map (fun m => (m.1, m.2.asJson)) = members.map id := by
      refine List.map_congr_left fun m hm => ?_
      rw [ih m hm (fun hmem => hundefined (mem_subvalues_object hm hmem))
        fun x hx => hfinite x (mem_subvalues_object hm hx)]
      rfl
    rw [asJson, asJsonMembers_eq_map, hmembers, List.map_id]
  | undefined => exact absurd (self_mem_subvalues _) hundefined

end

end Value

end FormCalc
