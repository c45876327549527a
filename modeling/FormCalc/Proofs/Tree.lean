import FormCalc.Expr

/-!
# Trees and their nodes

* `Expr.induct`: induction over trees; the arguments of a call come as a list.
* `Expr.subtrees`: all nodes of a tree with what is below them, from the root on.
* `Expr.subtrees_subset`: the nodes below a child are below the tree.
* `Expr.bare`: the tree without the places of its nodes in a text.
* `nodeCount_bare`: it has as many nodes.
-/

namespace FormCalc

namespace Expr

/-- Induction over trees. -/
theorem induct {P : Expr → Prop}
    (number : ∀ sp x, P (.number sp x)) (text : ∀ sp s, P (.text sp s))
    (var : ∀ sp name, P (.var sp name))
    (field : ∀ sp target nsp name, P target → P (.field sp target nsp name))
    (index : ∀ sp target i, P target → P i → P (.index sp target i))
    (negate : ∀ sp e, P e → P (.negate sp e))
    (arith : ∀ sp op lhs rhs, P lhs → P rhs → P (.arith sp op lhs rhs))
    (call : ∀ sp nsp name args, (∀ e ∈ args, P e) → P (.call sp nsp name args)) (e : Expr) : P e :=
  @Expr.rec P (fun args => ∀ e ∈ args, P e)
    number text var field index negate arith call
    (fun _ he => absurd he List.not_mem_nil)
    (fun _ _ h hs => List.forall_mem_cons.2 ⟨h, hs⟩) e

mutual

/-- A tree and all trees below it. -/
def subtrees : Expr → List Expr
  | .number sp x => [.number sp x]
  | .text sp s => [.text sp s]
  | .var sp name => [.var sp name]
  | .field sp target nsp name => .field sp target nsp name :: subtrees target
  | .index sp target i => .index sp target i :: (subtrees target ++ subtrees i)
  | .negate sp e => .negate sp e :: subtrees e
  | .arith sp op lhs rhs => .arith sp op lhs rhs :: (subtrees lhs ++ subtrees rhs)
  | .call sp nsp name args => .call sp nsp name args :: subtreesAll args

/-- Several trees and all trees below them. -/
def subtreesAll : List Expr → List Expr
  | [] => []
  | e :: es => subtrees e ++ subtreesAll es

end

theorem mem_subtreesAll {es : List Expr} {x : Expr} :
    x ∈ subtreesAll es ↔ ∃ e ∈ es, x ∈ e.subtrees := by
  induction es with
  | nil => simp [subtreesAll]
  | cons e es ih => simp [subtreesAll, ih]

/-- A tree is the first of its subtrees. -/
theorem self_mem_subtrees (e : Expr) : e ∈ e.subtrees := by
  cases e <;> simp [subtrees]

/-- The trees right below a tree. -/
def children : Expr → List Expr
  | .number _ _ | .text _ _ | .var _ _ => []
  | .field _ target _ _ => [target]
  | .index _ target i => [target, i]
  | .negate _ e => [e]
  | .arith _ _ lhs rhs => [lhs, rhs]
  | .call _ _ _ args => args

/-- Induction over trees, from the trees right below a tree to the tree. -/
theorem induct_children {P : Expr → Prop} (h : ∀ e, (∀ c ∈ e.children, P c) → P e) (e : Expr) :
    P e := by
  induction e using induct with
  | number | text | var => exact h _ fun _ hc => absurd hc List.not_mem_nil
  | field _ _ _ _ ih | negate _ _ ih => exact h _ (by simpa [children] using ih)
  | index _ _ _ ihl ihr | arith _ _ _ _ ihl ihr => exact h _ (by simpa [children] using ⟨ihl, ihr⟩)
  | call _ _ _ _ ih => exact h _ ih

/-- A tree and what is below its children. -/
theorem mem_subtrees_iff {e x : Expr} :
    x ∈ e.subtrees ↔ x = e ∨ ∃ c ∈ e.children, x ∈ c.subtrees := by
  cases e with
  | call sp nsp name args => simp [subtrees, children, mem_subtreesAll]
  | _ => simp [subtrees, children]

/-- What is below a child is below the tree. -/
theorem subtrees_subset {e x : Expr} (h : x ∈ e.children) : x.subtrees ⊆ e.subtrees := by
  intro y hy
  exact mem_subtrees_iff.2 (.inr ⟨x, h, hy⟩)

/-- What is below a node is below the tree. -/
theorem subtrees_trans {e x : Expr} (h : x ∈ e.subtrees) : x.subtrees ⊆ e.subtrees := by
  induction e using induct_children with
  | h e ih =>
    rcases mem_subtrees_iff.1 h with rfl | ⟨c, hc, h⟩
    · exact List.Subset.refl _
    · exact List.Subset.trans (ih c hc h) (subtrees_subset hc)

/-- A span that is no place. -/
def noSpan : Span := ⟨⟨"", []⟩, 0, 0, 0, 0⟩

mutual

/-- The tree without the places of its nodes. -/
def bare : Expr → Expr
  | .number _ x => .number noSpan x
  | .text _ s => .text noSpan s
  | .var _ name => .var noSpan name
  | .field _ target _ name => .field noSpan (bare target) noSpan name
  | .index _ target i => .index noSpan (bare target) (bare i)
  | .negate _ e => .negate noSpan (bare e)
  | .arith _ op lhs rhs => .arith noSpan op (bare lhs) (bare rhs)
  | .call _ _ name args => .call noSpan noSpan name (bareAll args)

/-- Several trees without the places of their nodes. -/
def bareAll : List Expr → List Expr
  | [] => []
  | e :: es => bare e :: bareAll es

end

theorem bareAll_eq_map (es : List Expr) : bareAll es = es.map bare := by
  induction es with
  | nil => rfl
  | cons e es ih => rw [bareAll, ih, List.map_cons]

@[simp] theorem bare_bare (e : Expr) : e.bare.bare = e.bare := by
  induction e using induct with
  | number | text | var => rfl
  | field sp target nsp name ih | negate sp target ih => simp [bare, ih]
  | index sp l r ihl ihr | arith sp op l r ihl ihr => simp [bare, ihl, ihr]
  | call sp nsp name args ih =>
    simp only [bare, bareAll_eq_map, List.map_map]
    congr 1
    exact List.map_congr_left ih

/-- The subtrees without the places of their nodes. -/
theorem subtrees_bare (e : Expr) : e.bare.subtrees = e.subtrees.map bare := by
  induction e using induct with
  | number | text | var => rfl
  | field sp target nsp name ih | negate sp target ih => simp [bare, subtrees, ih]
  | index sp l r ihl ihr | arith sp op l r ihl ihr => simp [bare, subtrees, ihl, ihr]
  | call sp nsp name args ih =>
    have hargs : subtreesAll (bareAll args) = (subtreesAll args).map bare := by
      induction args with
      | nil => rfl
      | cons e es ihs =>
        rw [bareAll, subtreesAll, subtreesAll, List.map_append, ih e (by simp),
          ihs fun e' he' => ih e' (by simp [he'])]
    simp [bare, subtrees, hargs]

/-- **Places are not counted.** -/
@[simp] theorem nodeCount_bare (e : Expr) : e.bare.nodeCount = e.nodeCount := by
  induction e using induct with
  | number | text | var => rfl
  | field sp target nsp name ih | negate sp target ih => simp [bare, nodeCount, ih]
  | index sp l r ihl ihr | arith sp op l r ihl ihr => simp [bare, nodeCount, ihl, ihr]
  | call sp nsp name args ih =>
    have hargs : nodeCounts (bareAll args) = nodeCounts args := by
      induction args with
      | nil => rfl
      | cons e es ihs =>
        rw [bareAll, nodeCounts, nodeCounts, ih e (by simp),
          ihs fun e' he' => ih e' (by simp [he'])]
    simp [bare, nodeCount, hargs]

end Expr

end FormCalc
