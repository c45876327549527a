import FormCalc.Proofs.Exactness
import FormCalc.Proofs.Lexing
import FormCalc.Proofs.WellFormed
import Mathlib.Algebra.Group.Nat.Defs

/-!
# Printing and parsing

An expression is printed with parentheses around every sign and every operator. A numeral in front
of a field or an index is put in parentheses, too: a point behind it would be read as its own.

* `Expr.print`: the text of an expression, given the texts of its numbers.
* `Writes`: a text is cut into tokens that are the expression by the grammar, whatever fitting
  character follows it.
* `writes_print`: the printed text does so.
* `parse_print`: parsing what is printed returns the expression.
-/

namespace FormCalc

namespace Expr

/-- The text of an expression in front of a field or an index. -/
def asTarget (e : Expr) (cs : List Char) : List Char :=
  match e with
  | .number _ _ => '(' :: (cs ++ [')'])
  | _ => cs

variable (literal : Span → Float → List Char)

mutual

/-- The text of an expression. The texts of its numbers are given by `literal`. -/
def print : Expr → List Char
  | .number sp x => literal sp x
  | .text _ s => Json.quote s.toList
  | .var _ name => name.toList
  | .field _ target _ name => target.asTarget (print target) ++ '.' :: name.toList
  | .index _ target i => target.asTarget (print target) ++ '[' :: (print i ++ [']'])
  | .negate _ e => '(' :: '-' :: (print e ++ [')'])
  | .arith _ op lhs rhs =>
    '(' :: ((print lhs ++ ' ' :: op.sign.char :: ' ' :: print rhs) ++ [')'])
  | .call _ _ name args => name.toList ++ '(' :: (printAll args ++ [')'])

/-- The texts of arguments, with a comma and a blank between them. -/
def printAll : List Expr → List Char
  | [] => []
  | [e] => print e
  | e :: es => print e ++ ',' :: ' ' :: printAll es

end

/-- The text of a number is a numeral that is read to the number. -/
def SpelledBy : Expr → Prop
  | .number sp x => ∃ n, Lexeme.read (literal sp x) = .ok (.number n, []) ∧ n.nearest = x
  | _ => True

end Expr

/-- A node that parsing may return, wherever it lies. -/
def callable : NodeRule := fun _ x => x.Callable

/-- Tokens of the lexemes are, by the rule of a level, the expression. -/
def Phrase (l : Level) (ls : List Lexeme) (e : Expr) : Prop :=
  ∀ ts : List Token, ts.map Token.lexeme = ls → Derives callable l ts e

namespace Phrase

variable {l m : Level} {ls ms : List Lexeme} {e target i lhs rhs : Expr} {sp nsp : Span}

/-- An operand alone. -/
theorem operand (h : Phrase m ls e) (hl : l.operand? = some m) : Phrase l ls e :=
  fun ts hts => .operand hl (h ts hts)

theorem unary (h : Phrase .reference ls e) : Phrase .unary ls e := h.operand rfl

theorem power (h : Phrase .reference ls e) : Phrase .power ls e := h.unary.operand rfl

theorem product (h : Phrase .reference ls e) : Phrase .product ls e := h.power.operand rfl

theorem sum (h : Phrase .reference ls e) : Phrase .sum ls e := h.product.operand rfl

/-- Parentheses around an expression. -/
theorem group (h : Phrase .sum ls e) :
    Phrase .reference (.symbol .openParen :: (ls ++ [.symbol .closeParen])) e := by
  intro ts hts
  obtain ⟨o, us, c, rfl, ho, hus, hc⟩ := exists_bracketed hts
  exact .operand rfl (.group ho (h us hus) hc)

theorem negate (h : Phrase .reference ls e) (node : (Expr.negate sp e).Callable) :
    Phrase .sum (.symbol .minus :: ls) (.negate sp e) := by
  have hunary : Phrase .unary (.symbol .minus :: ls) (.negate sp e) := by
    intro ts hts
    obtain ⟨t, us, rfl, ht, hus⟩ := List.map_eq_cons_iff.1 hts
    exact .negate ht (h us hus) node
  exact ((hunary.operand (l := .power) rfl).operand (l := .product) rfl).operand rfl

/-- An operator between two references, by the rule of its level. -/
theorem arith {op : ArithOp} (hl : Phrase .reference ls lhs) (hr : Phrase .reference ms rhs)
    (node : (Expr.arith sp op lhs rhs).Callable) :
    Phrase .sum (ls ++ .symbol op.sign :: ms) (.arith sp op lhs rhs) := by
  have hcut : ∀ {l m k : Level}, (∀ ts t us, Derives callable l ts lhs →
      t.lexeme = .symbol op.sign → Derives callable m us rhs →
      Derives callable k (ts ++ t :: us) (.arith sp op lhs rhs)) →
      Phrase l ls lhs → Phrase m ms rhs →
      Phrase k (ls ++ .symbol op.sign :: ms) (.arith sp op lhs rhs) := by
    intro l m k hrule hleft hright ts hts
    obtain ⟨us, vs, rfl, hus, hvs⟩ := List.map_eq_append_iff.1 hts
    obtain ⟨t, vs, rfl, ht, hvs⟩ := List.map_eq_cons_iff.1 hvs
    exact hrule us t vs (hleft us hus) ht (hright vs hvs)
  cases op with
  | add | sub =>
    exact hcut (fun ts t us left ht right => .join rfl (by decide) left ht right node) hl.sum
      hr.product
  | mul | div =>
    have hproduct := hcut (k := .product)
      (fun ts t us left ht right => .join rfl (by decide) left ht right node) hl.product hr.power
    exact hproduct.operand rfl
  | pow =>
    have hpower := hcut (fun ts t us left ht right => .power left ht right node) hl.unary hr.power
    exact (hpower.operand (l := .product) rfl).operand rfl

theorem number {n : Number.Numeral} (node : (Expr.number sp n.nearest).Callable) :
    Phrase .reference [.number n] (.number sp n.nearest) := by
  intro ts hts
  obtain ⟨t, rfl, ht⟩ := List.map_eq_singleton_iff.1 hts
  exact .operand rfl (.number ht node)

theorem text {l : Lexeme} {s : String} (h : l.value = .ok s.toList)
    (node : (Expr.text sp s).Callable) : Phrase .reference [l] (.text sp s) := by
  intro ts hts
  obtain ⟨t, rfl, rfl⟩ := List.map_eq_singleton_iff.1 hts
  rw [← s.ofList_toList] at node ⊢
  exact .operand rfl (.text h node)

theorem var {name : String} (node : (Expr.var sp name).Callable) :
    Phrase .reference [.ident name.toList] (.var sp name) := by
  intro ts hts
  obtain ⟨t, rfl, ht⟩ := List.map_eq_singleton_iff.1 hts
  rw [← name.ofList_toList] at node ⊢
  exact .operand rfl (.var ht node)

theorem field {name : String} (h : Phrase .reference ls target)
    (node : (Expr.field sp target nsp name).Callable) :
    Phrase .reference (ls ++ [.symbol .dot, .ident name.toList]) (.field sp target nsp name) := by
  intro ts hts
  obtain ⟨us, vs, rfl, hus, hvs⟩ := List.map_eq_append_iff.1 hts
  obtain ⟨d, vs, rfl, hd, hvs⟩ := List.map_eq_cons_iff.1 hvs
  obtain ⟨n, rfl, hn⟩ := List.map_eq_singleton_iff.1 hvs
  rw [← name.ofList_toList] at node ⊢
  exact .field (h us hus) hd hn node

theorem index (h : Phrase .reference ls target) (hi : Phrase .sum ms i)
    (node : (Expr.index sp target i).Callable) :
    Phrase .reference (ls ++ .symbol .openBracket :: (ms ++ [.symbol .closeBracket]))
      (.index sp target i) := by
  intro ts hts
  obtain ⟨us, vs, rfl, hus, hvs⟩ := List.map_eq_append_iff.1 hts
  obtain ⟨o, vs, c, rfl, ho, hvs, hc⟩ := exists_bracketed hvs
  exact .index (h us hus) ho (hi vs hvs) hc node

end Phrase

/-- Tokens of the lexemes are expressions with commas between them. -/
def Phrases (ls : List Lexeme) (es : List Expr) : Prop :=
  ∀ ts : List Token, ts.map Token.lexeme = ls → ∃ args : List (List Token × Expr),
    Separated (args.map (·.1)) ts ∧ args.map (·.2) = es ∧ ∀ a ∈ args, Derives callable .sum a.1 a.2

namespace Phrases

variable {ls ms : List Lexeme} {e e' : Expr} {es : List Expr}

theorem nil : Phrases [] [] := by
  intro ts hts
  obtain rfl := List.map_eq_nil_iff.1 hts
  exact ⟨[], .none, rfl, by simp⟩

theorem one (h : Phrase .sum ls e) : Phrases ls [e] :=
  fun ts hts => ⟨[(ts, e)], .one ts, rfl, by simpa using h ts hts⟩

theorem more (h : Phrase .sum ls e) (hs : Phrases ms (e' :: es)) :
    Phrases (ls ++ .symbol .comma :: ms) (e :: e' :: es) := by
  intro ts hts
  obtain ⟨us, vs, rfl, hus, hvs⟩ := List.map_eq_append_iff.1 hts
  obtain ⟨t, vs, rfl, ht, hvs⟩ := List.map_eq_cons_iff.1 hvs
  obtain ⟨args, hsep, hes, hall⟩ := hs vs hvs
  obtain ⟨a, args, rfl, -, -⟩ := List.map_eq_cons_iff.1 hes
  exact ⟨(us, e) :: a :: args, .more ht hsep, by rw [List.map_cons, hes],
    List.forall_mem_cons.2 ⟨h us hus, hall⟩⟩

/-- A call of a function. -/
theorem call {name : String} {sp nsp : Span} (h : Phrases ls es)
    (node : (Expr.call sp nsp name es).Callable) :
    Phrase .reference
      (.ident name.toList :: .symbol .openParen :: (ls ++ [.symbol .closeParen]))
      (.call sp nsp name es) := by
  intro ts hts
  obtain ⟨n, us, rfl, hn, hus⟩ := List.map_eq_cons_iff.1 hts
  obtain ⟨o, us, c, rfl, ho, hus, hc⟩ := exists_bracketed hus
  obtain ⟨args, hsep, rfl, hall⟩ := h us hus
  rw [← name.ofList_toList] at node ⊢
  exact .operand rfl (.call hn ho hsep hall hc node)

end Phrases

/-- The text is cut into the tokens of the expression, if a character that `stop` allows follows
it, or nothing. -/
def Writes (stop : Char → Bool) (cs : List Char) (e : Expr) : Prop :=
  ∃ ls, Lexes stop cs ls ∧ Phrase .reference ls e

/-- The same for arguments with commas between them. -/
def WritesAll (cs : List Char) (es : List Expr) : Prop :=
  ∃ ls, Lexes endsNumeral cs ls ∧ Phrases ls es

/-- Symbols around a text. -/
theorem Lexes.bracketed {stop : Char → Bool} {cs : List Char} {ls : List Lexeme}
    (h : Lexes stop cs ls) (s s' : Symbol) (hstop : stop s'.char = true) :
    Lexes anyChar (s.char :: (cs ++ [s'.char])) (.symbol s :: (ls ++ [.symbol s'])) :=
  (h.append (Lexes.nil.symbol s') hstop).symbol s

namespace Writes

variable {stop stop' : Char → Bool} {cs ds : List Char} {e target i lhs rhs : Expr} {sp nsp : Span}

theorem mono (h : Writes stop cs e) (hstop : ∀ c, stop' c = true → stop c = true) :
    Writes stop' cs e := by
  obtain ⟨ls, hlex, hphrase⟩ := h
  exact ⟨ls, hlex.mono hstop, hphrase⟩

theorem number {n : Number.Numeral} (h : Lexeme.read cs = .ok (.number n, []))
    (node : (Expr.number sp n.nearest).Callable) :
    Writes endsNumeral cs (.number sp n.nearest) :=
  ⟨_, lexes_number h, .number node⟩

theorem text {s : String} (node : (Expr.text sp s).Callable) :
    Writes anyChar (Json.quote s.toList) (.text sp s) :=
  ⟨_, lexes_quote _, .text (value_doubleQuoted _) node⟩

theorem var {name : String} (hname : IsIdentifier name.toList)
    (node : (Expr.var sp name).Callable) : Writes endsIdent name.toList (.var sp name) :=
  ⟨_, lexes_ident hname, .var node⟩

theorem group (h : Writes endsNumeral cs e) : Writes anyChar ('(' :: (cs ++ [')'])) e := by
  obtain ⟨ls, hlex, hphrase⟩ := h
  exact ⟨_, hlex.bracketed .openParen .closeParen rfl, hphrase.sum.group⟩

theorem field {name : String} (h : Writes endsIdent cs target) (hname : IsIdentifier name.toList)
    (node : (Expr.field sp target nsp name).Callable) :
    Writes endsIdent (cs ++ '.' :: name.toList) (.field sp target nsp name) := by
  obtain ⟨ls, hlex, hphrase⟩ := h
  exact ⟨_, hlex.append ((lexes_ident hname).symbol .dot) rfl, hphrase.field node⟩

theorem index (h : Writes endsIdent cs target) (hi : Writes endsNumeral ds i)
    (node : (Expr.index sp target i).Callable) :
    Writes anyChar (cs ++ '[' :: (ds ++ [']'])) (.index sp target i) := by
  obtain ⟨ls, hlex, hphrase⟩ := h
  obtain ⟨ms, hlexi, hphrasei⟩ := hi
  exact ⟨_, hlex.append (hlexi.bracketed .openBracket .closeBracket rfl) rfl,
    hphrase.index hphrasei.sum node⟩

theorem negate (h : Writes endsNumeral cs e) (node : (Expr.negate sp e).Callable) :
    Writes anyChar ('(' :: '-' :: (cs ++ [')'])) (.negate sp e) := by
  obtain ⟨ls, hlex, hphrase⟩ := h
  exact ⟨_, (hlex.symbol .minus).bracketed .openParen .closeParen rfl,
    (hphrase.negate node).group⟩

theorem arith {op : ArithOp} (hl : Writes endsNumeral cs lhs) (hr : Writes endsNumeral ds rhs)
    (node : (Expr.arith sp op lhs rhs).Callable) :
    Writes anyChar ('(' :: ((cs ++ ' ' :: op.sign.char :: ' ' :: ds) ++ [')']))
      (.arith sp op lhs rhs) := by
  obtain ⟨ls, hlexl, hphrasel⟩ := hl
  obtain ⟨ms, hlexr, hphraser⟩ := hr
  have hlex := hlexl.append ((hlexr.blank.symbol op.sign).blank) rfl
  exact ⟨_, hlex.bracketed .openParen .closeParen rfl, (hphrasel.arith hphraser node).group⟩

end Writes

namespace WritesAll

variable {cs ds : List Char} {e e' : Expr} {es : List Expr}

theorem nil : WritesAll [] [] := ⟨_, .nil, .nil⟩

theorem one (h : Writes endsNumeral cs e) : WritesAll cs [e] := by
  obtain ⟨ls, hlex, hphrase⟩ := h
  exact ⟨ls, hlex, .one hphrase.sum⟩

theorem more (h : Writes endsNumeral cs e) (hs : WritesAll ds (e' :: es)) :
    WritesAll (cs ++ ',' :: ' ' :: ds) (e :: e' :: es) := by
  obtain ⟨ls, hlex, hphrase⟩ := h
  obtain ⟨ms, hlexs, hphrases⟩ := hs
  exact ⟨_, hlex.append (hlexs.blank.symbol .comma) rfl, .more hphrase.sum hphrases⟩

/-- A call of a function. -/
theorem call {name : String} {sp nsp : Span} (h : WritesAll cs es)
    (hname : IsIdentifier name.toList) (node : (Expr.call sp nsp name es).Callable) :
    Writes anyChar (name.toList ++ '(' :: (cs ++ [')'])) (.call sp nsp name es) := by
  obtain ⟨ls, hlex, hphrases⟩ := h
  exact ⟨_, (lexes_ident hname).append (hlex.bracketed .openParen .closeParen rfl) rfl,
    hphrases.call node⟩

end WritesAll

variable {literal : Span → Float → List Char} {e : Expr}

/-- What may be followed by anything may be followed by a point. -/
theorem writes_of_anyChar {cs : List Char} (h : Writes anyChar cs e)
    (htarget : e.asTarget cs = cs) :
    Writes endsNumeral cs e ∧ Writes endsIdent (e.asTarget cs) e := by
  rw [htarget]
  exact ⟨h.mono fun _ _ => rfl, h.mono fun _ _ => rfl⟩

/-- The arguments of a call, of which each is written by its text. -/
theorem writesAll_print {es : List Expr}
    (h : ∀ a ∈ es, Writes endsNumeral (a.print literal) a) :
    WritesAll (Expr.printAll literal es) es := by
  induction es with
  | nil => exact .nil
  | cons a es ih =>
    have hrest := ih fun b hb => h b (by simp [hb])
    cases es with
    | nil => exact .one (h a (by simp))
    | cons b es => exact .more (h a (by simp)) hrest

/-- **The printed text is the expression.** The induction follows the tree. A numeral is the one
text that has to be treated apart in front of a field or an index. -/
theorem writes_print (hall : ∀ x ∈ e.subtrees, x.WellFormed ∧ x.SpelledBy literal) :
    Writes endsNumeral (e.print literal) e ∧ Writes endsIdent (e.asTarget (e.print literal)) e := by
  induction e using Expr.induct with
  | number sp x =>
    obtain ⟨hwell, n, hn, rfl⟩ := hall _ (Expr.self_mem_subtrees _)
    have hnumber := Writes.number hn hwell.callable
    exact ⟨hnumber, hnumber.group.mono fun _ _ => rfl⟩
  | text sp s =>
    have hself := (hall _ (Expr.self_mem_subtrees _)).1
    exact writes_of_anyChar (.text hself.callable) rfl
  | var sp name =>
    have hself := (hall _ (Expr.self_mem_subtrees _)).1
    have hvar := Writes.var (hself.name name rfl).1 hself.callable
    exact ⟨hvar.mono fun _ => endsIdent_of_endsNumeral, hvar⟩
  | field sp target nsp name ih =>
    have hself := (hall _ (Expr.self_mem_subtrees _)).1
    have htarget := ih fun x hx => hall x (by simp [Expr.subtrees, hx])
    have hfield := htarget.2.field (hself.name name rfl).1 hself.callable
    exact ⟨hfield.mono fun _ => endsIdent_of_endsNumeral, hfield⟩
  | index sp target i iht ihi =>
    have hself := (hall _ (Expr.self_mem_subtrees _)).1
    have htarget := iht fun x hx => hall x (by simp [Expr.subtrees, hx])
    have hi := ihi fun x hx => hall x (by simp [Expr.subtrees, hx])
    exact writes_of_anyChar (htarget.2.index hi.1 hself.callable) rfl
  | negate sp operand ih =>
    have hself := (hall _ (Expr.self_mem_subtrees _)).1
    have hoperand := ih fun x hx => hall x (by simp [Expr.subtrees, hx])
    exact writes_of_anyChar (hoperand.1.negate hself.callable) rfl
  | arith sp op lhs rhs ihl ihr =>
    have hself := (hall _ (Expr.self_mem_subtrees _)).1
    have hlhs := ihl fun x hx => hall x (by simp [Expr.subtrees, hx])
    have hrhs := ihr fun x hx => hall x (by simp [Expr.subtrees, hx])
    exact writes_of_anyChar (hlhs.1.arith hrhs.1 hself.callable) rfl
  | call sp nsp name args ih =>
    have hself := (hall _ (Expr.self_mem_subtrees _)).1
    have hargs : ∀ a ∈ args, Writes endsNumeral (a.print literal) a := fun a ha =>
      (ih a ha fun x hx =>
        hall x (List.mem_cons_of_mem _ (Expr.mem_subtreesAll.2 ⟨a, ha, hx⟩))).1
    exact writes_of_anyChar ((writesAll_print hargs).call (hself.name name rfl).1 hself.callable)
      rfl

/-- The source of a printed expression stands for the expression. -/
theorem denotes_print (hwell : ∀ x ∈ e.subtrees, x.WellFormed)
    (hspelled : ∀ x ∈ e.subtrees, x.SpelledBy literal) (file : String) :
    Source.Denotes ⟨file, e.print literal⟩ e.bare := by
  obtain ⟨ls, hlex, hphrase⟩ := (writes_print fun x hx => ⟨hwell x hx, hspelled x hx⟩).1
  obtain ⟨ts, t, htokens, -, hls⟩ := hlex.cut.tokens ⟨file, e.print literal⟩ .start
  have hstream : tokenize ⟨file, e.print literal⟩ = ⟨ts ++ [t], none⟩ := htokens
  have hwords : Source.words ⟨file, e.print literal⟩ = ts := by
    rw [Source.words, hstream, List.dropLast_concat]
  have hderives : Derives callable .sum (Source.words ⟨file, e.print literal⟩) e := by
    rw [hwords]
    exact hphrase.sum ts hls
  exact .of_derives (by rw [hstream]) (fun us x (hx : x.Callable) => hx.name)
    (fun us x (hx : x.Callable) => hx.call) hderives

/-- **Parsing what is printed returns the expression.** The offsets in a text of less than four
gibibytes that is printed for an expression whose nodes are well formed have 32 bits. The text is
accepted if and only if it passes no ceiling, and the tree that is returned is the expression up to
the places of its nodes. -/
theorem parse_print (hwell : ∀ x ∈ e.subtrees, x.WellFormed)
    (hspelled : ∀ x ∈ e.subtrees, x.SpelledBy literal)
    (hsize : Text.size (e.print literal) < 2 ^ 32) (file : String) (limits : Limits) :
    let text := String.ofList (e.print literal)
    Source.OffsetsFit ⟨file, e.print literal⟩ ∧
      ((∃ f, parse file text limits = .ok f ∧ f.tree.bare = e.bare ∧
        f.tree.nodeCount = e.nodeCount) ↔
        text.length ≤ limits.formulaLength ∧
          1 + peak (Source.words ⟨file, e.print literal⟩) ≤ limits.depth ∧
          e.nodeCount ≤ limits.nodes) := by
  intro text
  have htext : text.toList = e.print literal := String.toList_ofList
  refine ⟨Source.offsetsFit hsize, ?_⟩
  constructor
  · rintro ⟨⟨source, tree⟩, hparse, hbare, -⟩
    obtain ⟨rfl, hlength, hok⟩ := parse_eq_ok_iff.1 hparse
    rw [htext] at hok
    obtain ⟨-, hdepth, hnodes⟩ := Source.exists_parse_iff.1 ⟨tree, hok, hbare⟩
    exact ⟨hlength, hdepth, hnodes⟩
  · rintro ⟨hlength, hdepth, hnodes⟩
    obtain ⟨tree, hok, hbare⟩ :=
      Source.exists_parse_iff.2 ⟨denotes_print hwell hspelled file, hdepth, hnodes⟩
    rw [← htext] at hok
    have hcount : tree.nodeCount = e.nodeCount := by
      rw [← Expr.nodeCount_bare, hbare, Expr.nodeCount_bare]
    exact ⟨⟨_, tree⟩, parse_eq_ok_iff.2 ⟨rfl, hlength, hok⟩, hbare, hcount⟩

/-- A power of a numeral in a call, a numeral as a target, and a string with all kinds of
escapes. -/
theorem parse_print_index :
    let three : Number.Numeral := ⟨['3'], [], none⟩
    let tiny : Number.Numeral := ⟨['0'], ['5'], some ⟨'e', some '-', ['2']⟩⟩
    let first : Span := ⟨⟨"g", []⟩, 1, 1, 0, 0⟩
    let e : Expr := .arith first .sub
      (.field first
        (.index first (.number first three.nearest) (.text first "a\"\\\n\x01")) first "x_1")
      (.call first first "max" [.negate first (.negate first (.var first "e5")),
        .arith first .pow (.number Expr.noSpan tiny.nearest) (.var first "_")])
    let literal : Span → Float → List Char :=
      fun sp _ => if sp = first then three.text else tiny.text
    (∀ x ∈ e.subtrees, x.WellFormed) ∧ (∀ x ∈ e.subtrees, x.SpelledBy literal) ∧
      Text.size (e.print literal) < 2 ^ 32 ∧ String.ofList (e.print literal) =
        "((3)[\"a\\\"\\\\\\n\\u0001\"].x_1 - max((-(-e5)), (0.5e-2 ^ _)))" ∧
      ∃ f, parse "f" (String.ofList (e.print literal)) .standard = .ok f ∧ f.tree.bare = e.bare ∧
        f.tree.nodeCount = e.nodeCount := by
  intro three tiny first e literal
  have hwell : ∀ x ∈ e.subtrees, x.WellFormed := by
    simp only [e, Expr.subtrees, Expr.subtreesAll, List.cons_append, List.nil_append,
      List.append_nil, List.forall_mem_cons]
    and_intros <;> decide +kernel
  have hspelled : ∀ x ∈ e.subtrees, x.SpelledBy literal := by
    have hthree : Expr.SpelledBy literal (.number first three.nearest) :=
      ⟨three, by decide +kernel, rfl⟩
    have htiny : Expr.SpelledBy literal (.number Expr.noSpan tiny.nearest) :=
      ⟨tiny, by decide +kernel, rfl⟩
    simp only [e, Expr.subtrees, Expr.subtreesAll, List.cons_append, List.nil_append,
      List.append_nil, List.forall_mem_cons]
    exact ⟨trivial, trivial, trivial, hthree, trivial, trivial, trivial, trivial, trivial, trivial,
      htiny, trivial, List.forall_mem_nil _⟩
  have hsize : Text.size (e.print literal) < 2 ^ 32 := by decide +kernel
  refine ⟨hwell, hspelled, hsize, by decide +kernel, ?_⟩
  refine (parse_print hwell hspelled hsize "f" .standard).2.2 ⟨?_, ?_, ?_⟩
  · decide +kernel
  · decide +kernel
  · decide +kernel

end FormCalc
