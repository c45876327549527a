import FormCalc.Expr.Eval
import FormCalc.Proofs.Result
import FormCalc.Proofs.Tree
import FormCalc.Value.Access

/-!
# Results come from the context

Evaluation computes numbers and texts. Everything else that it returns stands in the context, at
the end of a path that it was allowed to take.

* `Value.Leads`: a path leads from a value to a part of it. It uses no blocked key and goes into no
  array above the ceiling.
* `Value.Confined`: a value is of a kind that is computed, or a path leads to it.
* `eval_confined`: the values of expressions are confined to the context.
-/

namespace FormCalc

namespace Value

/-- The path leads from the root to the value. Each step finds something: a key of an object that
is not blocked, or an index in an array that is within its ceiling. -/
inductive Leads (limits : Limits) (root : Value) : List Step → Value → Prop where
  | start : Leads limits root [] root
  | key {path : List Step} {members : List (String × Value)} {name : String} {v : Value}
      (h : Leads limits root path (.object members)) (hname : name ∉ blockedNames)
      (hfind : Table.find? name members = some v) : Leads limits root (path ++ [.key name]) v
  | index {path : List Step} {items : List Value} {i : Nat} {v : Value}
      (h : Leads limits root path (.array items)) (hsize : items.length ≤ limits.arraySize)
      (hi : items[i]? = some v) : Leads limits root (path ++ [.index i]) v

/-- The kinds of values that are computed. -/
def computedKinds : List Kind := [.number, .string, .undefined]

/-- The value is of a kind that is computed, or a path with at least one step leads to it. -/
def Confined (limits : Limits) (root v : Value) : Prop :=
  v.kind ∈ computedKinds ∨ ∃ path, path ≠ [] ∧ root.Leads limits path v

theorem computed_number (x : Float) : (Value.number x).kind ∈ computedKinds := by
  simp [kind, computedKinds]

theorem computed_string (s : String) : (Value.string s).kind ∈ computedKinds := by
  simp [kind, computedKinds]

theorem computed_undefined : Value.undefined.kind ∈ computedKinds := by
  simp [kind, computedKinds]

variable {limits : Limits} {root v w j : Value} {path : List Step} {name : String}

/-- A member of what a path leads to. The path may have no steps so far. -/
theorem Leads.confined_member (h : root.Leads limits path v) (hname : name ∉ blockedNames) :
    Confined limits root (v.member name) := by
  cases v with
  | object members =>
    cases hfind : Table.find? name members with
    | none =>
      rw [member, hfind]
      exact .inl computed_undefined
    | some w =>
      rw [member, hfind]
      exact .inr ⟨path ++ [.key name], by simp, h.key hname hfind⟩
  | _ => exact .inl computed_undefined

/-- An element of an array that a path leads to. -/
theorem Leads.confined_element {items : List Value} (h : root.Leads limits path (.array items))
    (hsize : items.length ≤ limits.arraySize) (i : Nat) :
    Confined limits root (element (.array items) i) := by
  cases hi : items[i]? with
  | none =>
    rw [element, hi]
    exact .inl computed_undefined
  | some w =>
    rw [element, hi]
    exact .inr ⟨path ++ [.index i], by simp, h.index hsize hi⟩

/-- A path leads to a confined value that was not computed. It may have no steps. -/
theorem Confined.exists_path (h : Confined limits root v) (hv : v.kind ∉ computedKinds) :
    ∃ path, root.Leads limits path v := by
  rcases h with hkind | ⟨path, -, hpath⟩
  · exact absurd hkind hv
  · exact ⟨path, hpath⟩

theorem Confined.member (h : Confined limits root v) (hname : name ∉ blockedNames) :
    Confined limits root (v.member name) := by
  cases v with
  | object members =>
    obtain ⟨path, hpath⟩ := h.exists_path (by simp [kind, computedKinds])
    exact hpath.confined_member hname
  | _ => exact .inl computed_undefined

/-- **What is looked up in a confined value is confined**, if the size of the value was checked. -/
theorem Confined.select {ev : Evaluation} (h : Confined ev.limits root v)
    (hcheck : ev.checkTarget v = .ok ()) (hw : v.select j = .ok w) :
    Confined ev.limits root w := by
  unfold Value.select at hw
  split at hw
  · rename_i items x
    obtain ⟨path, hpath⟩ := h.exists_path (by simp [kind, computedKinds])
    have hsize : items.length ≤ ev.limits.arraySize :=
      ensureAtMost_eq_ok_iff.1 (ensure_ok_iff.1 hcheck)
    split at hw
    · obtain rfl := Except.ok.inj hw
      exact hpath.confined_element hsize _
    · obtain rfl := Except.ok.inj hw
      exact .inl computed_undefined
  · simp only [bind_ok_iff, pure_ok_iff] at hw
    obtain ⟨_, hname, rfl⟩ := hw
    exact h.member (checkName_eq_ok_iff.1 hname)
  · obtain rfl := Except.ok.inj hw
    exact .inl computed_undefined

end Value

section Computed

open Value (computedKinds computed_number computed_string computed_undefined)

variable {limits : Limits} {r : Value}

/-- Operators compute numbers and texts. -/
theorem ArithOp.computed_apply {op : ArithOp} {sp : Span} {lhs rhs : Operand}
    (h : op.apply sp lhs rhs = .ok r) : r.kind ∈ computedKinds := by
  unfold ArithOp.apply at h
  split at h
  · simp only [bind_ok_iff, pure_ok_iff] at h
    obtain ⟨s, -, t, -, rfl⟩ := h
    exact computed_string _
  · simp only [bind_ok_iff] at h
    obtain ⟨x, -, y, -, h⟩ := h
    split at h
    · obtain rfl := pure_ok_iff.1 h
      exact computed_number _
    · exact absurd h throw_ne_ok

theorem computed_best (choose : Float → Float → Float) (xs : List Float) :
    (best choose xs).kind ∈ computedKinds := by
  cases xs with
  | nil => exact computed_undefined
  | cons x xs => exact computed_number _

/-- Functions compute numbers, or nothing. -/
theorem Builtin.computed_apply {b : Builtin} {args : List Operand}
    (h : b.apply limits args = .ok r) : r.kind ∈ computedKinds := by
  cases b with
  | max | min =>
    simp only [apply, bind_ok_iff, pure_ok_iff] at h
    obtain ⟨xs, -, rfl⟩ := h
    exact computed_best _ xs
  | abs | count | sum =>
    cases args with
    | nil => simp [apply] at h
    | cons arg args =>
      simp only [apply, bind_ok_iff, pure_ok_iff] at h
      obtain ⟨x, -, rfl⟩ := h
      exact computed_number _

end Computed

open Evaluation

/-- **Results come from the context.** What an expression evaluates to, in whatever context and
under whatever ceilings, is a number, a string or absent, or it stands in the context at the end of
a path: the path has at least one step, no key on it is blocked, and every array that it goes into
is within the ceiling. -/
theorem eval_confined {limits : Limits} {context v : Value} {e : Expr}
    (h : eval ⟨limits, context⟩ e = .ok v) :
    v.kind ∈ [.number, .string, .undefined] ∨
      ∃ path, path ≠ [] ∧ context.Leads limits path v := by
  suffices hconfined : Value.Confined limits context v from hconfined
  -- by induction on the tree; only look-ups hand on what was not computed
  induction e using Expr.induct generalizing v with
  | number sp x =>
    simp only [eval, pure_ok_iff] at h
    exact h ▸ .inl (Value.computed_number x)
  | text sp s =>
    simp only [eval, pure_ok_iff] at h
    exact h ▸ .inl (Value.computed_string s)
  | var sp name =>
    simp only [eval, bind_ok_iff, pure_ok_iff] at h
    obtain ⟨_, hname, rfl⟩ := h
    exact Value.Leads.start.confined_member (checkName_eq_ok.1 hname)
  | field sp target nsp name ih =>
    simp only [eval, bind_ok_iff, pure_ok_iff] at h
    obtain ⟨_, hname, t, ht, rfl⟩ := h
    exact (ih ht).member (checkName_eq_ok.1 hname)
  | index sp target i iht _ =>
    simp only [eval, bind_ok_iff, ensure_ok_iff] at h
    obtain ⟨t, ht, _, hcheck, j, -, hselect⟩ := h
    exact (iht ht).select hcheck hselect
  | negate sp operand _ =>
    simp only [eval, bind_ok_iff, pure_ok_iff] at h
    obtain ⟨t, -, x, -, rfl⟩ := h
    exact .inl (Value.computed_number _)
  | arith sp op lhs rhs _ _ =>
    simp only [eval, bind_ok_iff] at h
    obtain ⟨l, -, r, -, h⟩ := h
    exact .inl (ArithOp.computed_apply h)
  | call sp nsp name args _ =>
    rw [eval] at h
    split at h
    · exact absurd h throw_ne_ok
    · obtain ⟨operands, -, h⟩ := bind_ok_iff.1 h
      exact .inl (Builtin.computed_apply h)

/-- A key that is put together at run time, in an element of an array at its ceiling. -/
theorem eval_confined_joined :
    let context : Value := .object [("a", .array [.object [("constructor", .null),
      ("x1", .bool true)]])]
    let key : Expr := .arith Expr.noSpan .add (.text Expr.noSpan "x") (.number Expr.noSpan 1)
    let e : Expr := .index Expr.noSpan (.index Expr.noSpan (.var Expr.noSpan "a")
      (.number Expr.noSpan 0)) key
    ∃ b, eval ⟨{ arraySize := 1 }, context⟩ e = .ok (.bool b) ∧
      ∃ path, path ≠ [] ∧ context.Leads { arraySize := 1 } path (.bool b) := by
  intro context key e
  have hkind : (eval ⟨{ arraySize := 1 }, context⟩ e).toOption.map Value.kind =
      some .boolean := by decide +kernel
  cases hrun : eval ⟨{ arraySize := 1 }, context⟩ e with
  | error err =>
    rw [hrun] at hkind
    cases hkind
  | ok v =>
    rw [hrun] at hkind
    cases v with
    | bool b =>
      refine ⟨b, rfl, ?_⟩
      rcases eval_confined hrun with hcomputed | hpath
      · simp [Value.kind] at hcomputed
      · exact hpath
    | _ => cases hkind

end FormCalc
