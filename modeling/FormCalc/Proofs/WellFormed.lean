import FormCalc.Proofs.Eval.Errors
import FormCalc.Proofs.Parse.Formula

/-!
# What parsing has checked

Evaluation relies on what parsing has checked: it looks names up without asking whether they are
identifiers, and functions take their first argument without asking whether there is one.

* `Expr.WellFormed`: what is checked of a node.
* `wellFormed_of_parse`: it holds of every node of a parsed formula.
-/

namespace FormCalc

variable {file text : String} {limits : Limits} {f : Formula}

/-- A name is an identifier and not blocked; a call names a function and is accepted by it. -/
structure Expr.WellFormed (x : Expr) : Prop where
  name : ∀ name ∈ x.name?, IsIdentifier name.toList ∧ name ∉ blockedNames
  call : x.CallAccepted

instance (x : Expr) : Decidable x.CallAccepted :=
  match x with
  | .call _ _ name args =>
    decidable_of_iff ((Builtin.ofName? name).any (·.arity.accepts args.length) = true)
      (Option.any_eq_true ..)
  | .number .. | .text .. | .var .. | .field .. | .index .. | .negate .. | .arith .. =>
    .isTrue trivial

instance (x : Expr) : Decidable x.WellFormed :=
  decidable_of_iff ((∀ name ∈ x.name?, IsIdentifier name.toList ∧ name ∉ blockedNames) ∧
    x.CallAccepted) ⟨fun h => ⟨h.1, h.2⟩, fun h => ⟨h.name, h.call⟩⟩

theorem Expr.WellFormed.callable {x : Expr} (h : x.WellFormed) : x.Callable :=
  ⟨fun name hname => (h.name name hname).2, h.call⟩

/-- **Every node of a parsed formula is well formed.** Names are identifiers of the text, which
was cut into tokens up to its end. -/
theorem wellFormed_of_parse (h : parse file text limits = .ok f) :
    ∀ x ∈ f.tree.subtrees, x.WellFormed := by
  intro x hx
  obtain ⟨-, -, hparse⟩ := parse_eq_ok_iff.1 h
  obtain ⟨hnone, hder, -, -⟩ := Source.parse_eq_ok_iff.1 hparse
  obtain ⟨_, -, -, hformed⟩ := f.source.tokens_eq hnone
  obtain ⟨us, hsound⟩ := hder.exists_rule x hx
  refine ⟨fun name hname => ⟨?_, hsound.name name hname⟩, hsound.call⟩
  -- the name is spelled by an identifier, and identifiers are read with their form
  obtain ⟨t, ht, cs, hcs, rfl⟩ := hder.namedIn x hx name hname
  have hident := hformed t ht
  rw [hcs] at hident
  rw [String.toList_ofList]
  exact hident

end FormCalc
