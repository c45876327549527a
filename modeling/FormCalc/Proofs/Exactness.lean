import FormCalc.Proofs.Lossless
import FormCalc.Proofs.Parse.Formula
import Mathlib.Algebra.Group.Nat.Defs

/-!
# The grammar is exact

* `Source.Denotes`: the tree is what a text stands for: all of the text is tokens, the tokens are
  the tree by the grammar, its string literals and names are good and its calls are accepted.
* `parse_exact`: the trees that parsing returns are those, up to the places of nodes, and there is
  at most one of them.
-/

namespace FormCalc

variable {source : Source} {limits : Limits} {e e' : Expr}

/-- **What a text stands for.** Nothing is asked of where the nodes of the tree lie. -/
structure Source.Denotes (source : Source) (e : Expr) : Prop where
  /-- The text is cut into tokens up to its end. -/
  tokenized : (tokenize source).failure? = none
  /-- The tokens before the end are the tree by the grammar. -/
  derived : Derives anyNode .sum source.words e
  /-- Every string literal stands for a text. -/
  decodes : ∀ t ∈ source.words, t.Decodes
  /-- No identifier is a blocked name. -/
  allowed : ∀ t ∈ source.words, t.NameAllowed
  /-- Every call names a function and has as many arguments as it accepts. -/
  accepted : ∀ x ∈ e.subtrees, x.CallAccepted

theorem Expr.callAccepted_bare {x : Expr} : x.bare.CallAccepted ↔ x.CallAccepted := by
  cases x with
  | call sp nsp name args => simp only [bare, CallAccepted, bareAll_eq_map, List.length_map]
  | _ => rfl

/-- A derivation of which no node has a blocked name, and every call is accepted. -/
theorem Source.Denotes.of_derives {rule : NodeRule} (h : (tokenize source).failure? = none)
    (hname : ∀ us x, rule us x → x.NameAllowed) (hcall : ∀ us x, rule us x → x.CallAccepted)
    (hder : Derives rule .sum source.words e) : source.Denotes e.bare := by
  refine ⟨h, hder.bare, hder.decodes, hder.nameAllowed hname, fun x hx => ?_⟩
  rw [Expr.subtrees_bare] at hx
  obtain ⟨y, hy, rfl⟩ := List.mem_map.1 hx
  obtain ⟨us, hnode⟩ := hder.exists_rule y hy
  exact Expr.callAccepted_bare.2 (hcall us y hnode)

/-- What the parser reads is what the text stands for. -/
theorem Source.Denotes.of_sound (h : (tokenize source).failure? = none)
    (hder : Derives Expr.Sound .sum source.words e) : source.Denotes e.bare :=
  of_derives h (fun _ _ hx => hx.name) (fun _ _ hx => hx.call) hder

/-- What the text stands for is read by the parser. -/
theorem Source.Denotes.exists_sound (h : source.Denotes e) :
    ∃ x, Derives Expr.Sound .sum source.words x ∧ x.bare = e.bare :=
  h.derived.sound_of_any h.allowed h.accepted

/-- **A text stands for one tree at most.** High ceilings leave the parser to decide which. -/
theorem Source.Denotes.unique (h : source.Denotes e) (h' : source.Denotes e') :
    e.bare = e'.bare := by
  obtain ⟨x, hx, hxe⟩ := h.exists_sound
  obtain ⟨y, hy, hye⟩ := h'.exists_sound
  -- ceilings that neither tree passes
  let high : Limits :=
    { depth := 1 + peak source.words, nodes := max x.nodeCount y.nodeCount }
  have hparse : source.parse high = .ok x := Source.parse_eq_ok_iff.2
    ⟨h.tokenized, hx, Nat.le_refl _, Nat.le_max_left _ _⟩
  have hparse' : source.parse high = .ok y := Source.parse_eq_ok_iff.2
    ⟨h.tokenized, hy, Nat.le_refl _, Nat.le_max_right _ _⟩
  rw [hparse] at hparse'
  obtain rfl : x = y := by simpa using hparse'
  rw [← hxe, ← hye]

/-- The parser of a source returns a tree up to places. -/
theorem Source.exists_parse_iff :
    (∃ x, source.parse limits = .ok x ∧ x.bare = e.bare) ↔ source.Denotes e.bare ∧
      1 + peak source.words ≤ limits.depth ∧ e.nodeCount ≤ limits.nodes := by
  constructor
  · rintro ⟨x, hparse, hbare⟩
    obtain ⟨hnone, hder, hdepth, hnodes⟩ := Source.parse_eq_ok_iff.1 hparse
    have hdenotes := Source.Denotes.of_sound hnone hder
    rw [hbare] at hdenotes
    rw [← Expr.nodeCount_bare, hbare, Expr.nodeCount_bare] at hnodes
    exact ⟨hdenotes, hdepth, hnodes⟩
  · rintro ⟨hdenotes, hdepth, hnodes⟩
    obtain ⟨x, hder, hbare⟩ := hdenotes.exists_sound
    rw [Expr.bare_bare] at hbare
    rw [← Expr.nodeCount_bare, ← hbare, Expr.nodeCount_bare] at hnodes
    exact ⟨x, Source.parse_eq_ok_iff.2 ⟨hdenotes.tokenized, hder, hdepth, hnodes⟩, hbare⟩

/-- **Parsing returns exactly what the text stands for.** The offsets of the tokens of a text of
less than four gibibytes have 32 bits. A tree is returned, up to the places of its nodes, if and
only if the text stands for it and no ceiling is passed; a text stands for one tree at most. -/
theorem parse_exact (file text : String) (limits : Limits)
    (hsize : Text.size text.toList < 2 ^ 32) :
    Source.OffsetsFit ⟨file, text.toList⟩ ∧
      (∀ e : Expr, (∃ f, parse file text limits = .ok f ∧ f.tree.bare = e.bare) ↔
        Source.Denotes ⟨file, text.toList⟩ e.bare ∧ text.length ≤ limits.formulaLength ∧
          1 + peak (Source.words ⟨file, text.toList⟩) ≤ limits.depth ∧
          e.nodeCount ≤ limits.nodes) ∧
      ∀ e e' : Expr, Source.Denotes ⟨file, text.toList⟩ e →
        Source.Denotes ⟨file, text.toList⟩ e' → e.bare = e'.bare := by
  refine ⟨Source.offsetsFit hsize, fun e => ?_, fun e e' h h' => h.unique h'⟩
  constructor
  · rintro ⟨⟨source, tree⟩, hparse, hbare⟩
    obtain ⟨rfl, hlength, hok⟩ := parse_eq_ok_iff.1 hparse
    obtain ⟨hdenotes, hdepth, hnodes⟩ := Source.exists_parse_iff.1 ⟨tree, hok, hbare⟩
    exact ⟨hdenotes, hlength, hdepth, hnodes⟩
  · rintro ⟨hdenotes, hlength, hdepth, hnodes⟩
    obtain ⟨x, hok, hbare⟩ := Source.exists_parse_iff.2 ⟨hdenotes, hdepth, hnodes⟩
    exact ⟨⟨_, x⟩, parse_eq_ok_iff.2 ⟨rfl, hlength, hok⟩, hbare⟩

/-- A power of powers behind a sign, which is accepted and so stands for its tree. -/
theorem parse_exact_powers :
    let text := "-a ^ (2 - b) ^ max(c[0], 'd').e"
    Text.size text.toList < 2 ^ 32 ∧ ∃ f, parse "f" text .standard = .ok f ∧
      Source.Denotes ⟨"f", text.toList⟩ f.tree.bare := by
  intro text
  have hsize : Text.size text.toList < 2 ^ 32 := by decide
  have hok : (parse "f" text .standard).isOk = true := by decide +kernel
  obtain ⟨f, hf⟩ := exists_eq_ok_of_isOk hok
  have hdenotes := ((parse_exact "f" text .standard hsize).2.1 f.tree).1 ⟨f, hf, rfl⟩
  exact ⟨hsize, f, hf, hdenotes.1⟩

end FormCalc
