import FormCalc.Proofs.Eval.Simulation
import FormCalc.Proofs.Eval.Errors

/-!
# Blocked keys cannot be seen

* `Value.scrub`: a value without the members that have a blocked key, at every level.
* `Value.Alike`: two values are the same but for such members.
* `eval_alike`: in contexts that are alike, an expression evaluates to values that are alike, or
  fails with the same error, or ends the program in both. The expression may have blocked names in
  it.
-/

namespace FormCalc

namespace Value

mutual

/-- The value without members that have a blocked key. -/
def scrub : Value → Value
  | .array items => .array (scrubAll items)
  | .object members => .object (scrubMembers members)
  | v => v

/-- Several values without members that have a blocked key. -/
def scrubAll : List Value → List Value
  | [] => []
  | v :: vs => scrub v :: scrubAll vs

/-- The members of which the key is not blocked, without such members inside of them. -/
def scrubMembers : List (String × Value) → List (String × Value)
  | [] => []
  | (k, v) :: ms => if isBlocked k then scrubMembers ms else (k, scrub v) :: scrubMembers ms

end

/-- The same values but for members that have a blocked key. -/
def Alike (v w : Value) : Prop :=
  v.scrub = w.scrub

theorem outer_scrub (v : Value) : v.scrub.outer = v.outer := by
  cases v <;> rfl

theorem scrubAll_eq_map (vs : List Value) : scrubAll vs = vs.map scrub := by
  induction vs with
  | nil => rfl
  | cons v vs ih => rw [scrubAll, ih, List.map_cons]

/-- A key that is not blocked is found as before. -/
theorem find?_scrubMembers {name : String} (h : name ∉ blockedNames)
    (ms : List (String × Value)) :
    Table.find? name (scrubMembers ms) = (Table.find? name ms).map scrub := by
  induction ms with
  | nil => rfl
  | cons entry ms ih =>
    obtain ⟨k, v⟩ := entry
    rw [scrubMembers, Table.find?]
    by_cases hk : k = name
    · -- the entry that is looked for is not scrubbed away
      have hfree : isBlocked k = false := by
        rw [hk]
        simpa [isBlocked] using h
      rw [hfree, if_neg Bool.false_ne_true, Table.find?, if_pos hk, if_pos hk, Option.map_some]
    · rw [if_neg hk, ← ih]
      split
      · rfl
      · rw [Table.find?, if_neg hk]

theorem member_scrub {name : String} (h : name ∉ blockedNames) (v : Value) :
    v.scrub.member name = (v.member name).scrub := by
  cases v with
  | object ms =>
    rw [scrub, member, member, find?_scrubMembers h]
    cases Table.find? name ms <;> rfl
  | _ => rfl

theorem element_scrub (v : Value) (i : Nat) : v.scrub.element i = (v.element i).scrub := by
  cases v with
  | array items =>
    rw [scrub, element, element, scrubAll_eq_map, List.getElem?_map]
    cases items[i]? <;> rfl
  | _ => rfl

/-- **A look-up cannot see blocked keys.** It refuses them before it looks. -/
theorem select_scrub (v j : Value) : v.scrub.select j.scrub = (v.select j).map scrub := by
  cases v with
  | array items =>
    cases j with
    | number x =>
      cases h : Number.natural? x with
      | none =>
        simp only [select, scrub, h]
        rfl
      | some i =>
        have helement := element_scrub (.array items) i
        simp only [select, scrub, h] at helement ⊢
        exact congrArg Except.ok helement
    | _ => rfl
  | object ms =>
    cases j with
    | string name =>
      change (checkName name >>= fun _ => _) = Except.map scrub (checkName name >>= fun _ => _)
      -- both refuse the same names, and find the same under all others
      cases hcheck : checkName name with
      | error e => rfl
      | ok u =>
        have hname : name ∉ blockedNames := checkName_eq_ok_iff.1 hcheck
        exact congrArg Except.ok (member_scrub hname (.object ms))
    | _ => rfl
  | _ => rfl

theorem numbers_scrubAll (vs : List Value) : numbers (scrubAll vs) = numbers vs := by
  induction vs with
  | nil => rfl
  | cons v vs ih =>
    unfold numbers at ih ⊢
    rw [scrubAll, List.filterMap_cons, List.filterMap_cons, ih]
    cases v <;> rfl

theorem length_scrubAll (vs : List Value) : (scrubAll vs).length = vs.length := by
  rw [scrubAll_eq_map, List.length_map]

end Value

variable {limits : Limits}

namespace Operand

/-- The operand with its value scrubbed. -/
def scrub (o : Operand) : Operand :=
  ⟨o.span, o.value.scrub⟩

theorem number_scrub {operation : String} (o : Operand) :
    o.scrub.number operation = o.number operation :=
  number_eq (Value.outer_scrub o.value)

theorem items_scrub {operation : String} (o : Operand) :
    o.scrub.items operation = (o.items operation).map Value.scrubAll := by
  obtain ⟨span, v⟩ := o
  cases v <;> rfl

end Operand

namespace Builtin

/-- The elements that `count` and `sum` look into. -/
theorem elements_scrub {b : Builtin} (arg : Operand) :
    b.elements limits arg.scrub = (b.elements limits arg).map Value.scrubAll := by
  unfold elements
  rw [Operand.items_scrub]
  cases arg.items b.name with
  | error err => rfl
  | ok items =>
    change (ensure (limits.checkArray (Value.scrubAll items).length) >>= fun _ => _) =
      Except.map Value.scrubAll (ensure (limits.checkArray items.length) >>= fun _ => _)
    rw [Value.length_scrubAll]
    cases ensure (limits.checkArray items.length) <;> rfl

/-- The numbers that `max` and `min` compare. -/
theorem comparands_scrub {b : Builtin} (args : List Operand) :
    b.comparands limits (args.map Operand.scrub) = b.comparands limits args := by
  have hmap : (args.map Operand.scrub).mapM (Operand.number b.name) =
      args.mapM (Operand.number b.name) := by
    rw [List.mapM_map]
    exact congrArg (args.mapM ·) (funext fun o => o.number_scrub)
  -- an array is looked into only if it is the one argument
  cases args with
  | nil => rfl
  | cons o rest =>
    obtain ⟨span, v⟩ := o
    cases v with
    | array items =>
      cases rest with
      | nil =>
        change (ensure (limits.checkArray (Value.scrubAll items).length) >>= fun _ =>
          pure (Value.numbers (Value.scrubAll items))) = _
        rw [Value.length_scrubAll, Value.numbers_scrubAll]
        rfl
      | cons o rest => exact hmap
    | _ => cases rest <;> exact hmap

/-- **Functions cannot see blocked keys.** They return numbers or nothing. -/
theorem apply_scrub {b : Builtin} (args : List Operand) :
    b.apply limits (args.map Operand.scrub) = b.apply limits args := by
  cases b with
  | max | min =>
    change (comparands _ limits (args.map Operand.scrub) >>= fun _ => _) =
      (comparands _ limits args >>= fun _ => _)
    rw [comparands_scrub]
  | abs =>
    cases args with
    | nil => rfl
    | cons arg args =>
      change (arg.scrub.number _ >>= fun _ => _) = (arg.number _ >>= fun _ => _)
      rw [Operand.number_scrub]
  | count =>
    cases args with
    | nil => rfl
    | cons arg args =>
      change (elements _ limits arg.scrub >>= fun _ => _) = (elements _ limits arg >>= fun _ => _)
      rw [elements_scrub]
      cases elements .count limits arg with
      | error err => rfl
      | ok items =>
        change (pure (Value.number (Float.ofNat (Value.scrubAll items).length)) : Except _ _) = _
        rw [Value.length_scrubAll]
        rfl
  | sum =>
    cases args with
    | nil => rfl
    | cons arg args =>
      change (elements _ limits arg.scrub >>= fun _ => _) = (elements _ limits arg >>= fun _ => _)
      rw [elements_scrub]
      cases elements .sum limits arg with
      | error err => rfl
      | ok items =>
        change (pure (Value.number ((Value.numbers (Value.scrubAll items)).foldl (· + ·) 0)) :
          Except _ _) = _
        rw [Value.numbers_scrubAll]
        rfl

end Builtin

/-- Operands that are alike are the same when they are scrubbed. -/
theorem Operand.map_scrub_eq {args args' : List Operand}
    (h : List.Forall₂ (Operand.Related Value.Alike) args args') :
    args.map Operand.scrub = args'.map Operand.scrub := by
  induction h with
  | nil => rfl
  | @cons o o' _ _ ho _ ih =>
    rw [List.map_cons, List.map_cons, ih]
    have hscrub : o.scrub = o'.scrub := by
      rw [Operand.scrub, Operand.scrub, ho.1, show o.value.scrub = o'.value.scrub from ho.2]
    rw [hscrub]

/-- **Values that are alike are not told apart.** -/
theorem simulation_alike (limits : Limits) :
    Simulation Value.Alike (fun _ _ => True) limits where
  scalar := fun v _ => rfl
  outer := fun v w h => by
    rw [← Value.outer_scrub v, show v.scrub = w.scrub from h, Value.outer_scrub]
  member := fun v w name h hname => by
    have hscrub : v.scrub = w.scrub := h
    change (v.member name).scrub = (w.member name).scrub
    rw [← Value.member_scrub hname, hscrub, Value.member_scrub hname]
  target := fun v w c c' h => by
    have hscrub : ∀ (v : Value) (c : Value), Evaluation.checkTarget ⟨limits, c⟩ v.scrub =
        Evaluation.checkTarget ⟨limits, c'⟩ v := by
      intro v c
      cases v with
      | array items =>
        exact congrArg (fun n => ensure (limits.checkArray n)) (Value.length_scrubAll items)
      | _ => rfl
    rw [← hscrub w c, ← show v.scrub = w.scrub from h, hscrub v c]
    cases v <;> rfl
  select := fun v w j k c hv hj _ => by
    refine .of_map_eq ?_
    rw [← Value.select_scrub, ← Value.select_scrub, show v.scrub = w.scrub from hv,
      show j.scrub = k.scrub from hj]
  builtin := fun b args args' _ h => by
    have heq : b.apply limits args = b.apply limits args' := by
      rw [← Builtin.apply_scrub args, Operand.map_scrub_eq h, Builtin.apply_scrub]
    exact .of_eq heq fun r hr => rfl

end FormCalc
