import FormCalc.Expr.Parser
import FormCalc.Proofs.Tree

/-!
# The grammar of formulas

The grammar is a relation between the tokens of a text and the tree that they are, and it knows
nothing of how a tree is found.

* `Derives`: the rules of the grammar, from what binds loosest to what binds tightest. A rule for
  nodes, which is a parameter, may ask more of the nodes of a tree.
* `Expr.Sound`: what is asked of the nodes of a formula: where they lie in the text, that no
  blocked name is used, and that functions exist and get as many arguments as they accept.
* `Derives.bare`, `Derives.sound_of_any`: asking this of the nodes is the same as asking
  it of the names among the tokens and of the calls in the tree.
-/

namespace FormCalc

/-- The rules of the grammar that stand for expressions, from what binds loosest. A reference is a
primary expression with its fields and indices. -/
inductive Level where
  | sum | product | power | unary | reference | primary
deriving DecidableEq

namespace Level

/-- The rule for the operands of a rule. -/
def operand? : Level → Option Level
  | .sum => some .product
  | .product => some .power
  | .power => some .unary
  | .unary => some .reference
  | .reference => some .primary
  | .primary => none

/-- The operators that a rule joins from the left. -/
def operators : Level → List ArithOp
  | .sum => [.add, .sub]
  | .product => [.mul, .div]
  | _ => []

end Level

/-- The sign of an operator. -/
def ArithOp.sign : ArithOp → Symbol
  | .add => .plus
  | .sub => .minus
  | .mul => .times
  | .div => .divide
  | .pow => .power

/-- The tokens of arguments with commas between them. -/
inductive Separated : List (List Token) → List Token → Prop where
  | none : Separated [] []
  | one (ts : List Token) : Separated [ts] ts
  | more {ts us vs : List Token} {rest : List (List Token)} {t : Token}
      (ht : t.lexeme = .symbol .comma) (h : Separated (us :: rest) vs) :
      Separated (ts :: us :: rest) (ts ++ t :: vs)

namespace Separated

variable {tss : List (List Token)} {us : List Token}

/-- Between commas there are only the tokens of arguments. -/
theorem mem {t : Token} (h : Separated tss us) (ht : t ∈ us) :
    t.lexeme = .symbol .comma ∨ ∃ ts ∈ tss, t ∈ ts := by
  induction h with
  | none => simp at ht
  | one ts => exact .inr ⟨ts, by simp, ht⟩
  | @more ts us vs rest u hu _ ih =>
    rcases List.mem_append.1 ht with ht | ht
    · exact .inr ⟨ts, by simp, ht⟩
    · rcases List.mem_cons.1 ht with rfl | ht
      · exact .inl hu
      · rcases ih ht with ht | ⟨ws, hws, ht⟩
        · exact .inl ht
        · exact .inr ⟨ws, List.mem_cons_of_mem _ hws, ht⟩

/-- They begin with the tokens of the first argument. -/
theorem head_eq {t : Token} {ts : List Token} (h : Separated ((t :: ts) :: tss) us) :
    ∃ vs, us = t :: vs := by
  cases h <;> exact ⟨_, rfl⟩

/-- The tokens of each argument are there. -/
theorem subset {ts : List Token} (h : Separated tss us) (hts : ts ∈ tss) : ts ⊆ us := by
  induction h with
  | none => simp at hts
  | one ts => simp_all
  | @more ts us vs rest u hu _ ih =>
    rcases List.mem_cons.1 hts with rfl | hts
    · exact List.subset_append_left _ _
    · exact List.Subset.trans (ih hts) fun x hx => by simp [hx]

end Separated

/-- The tokens of operands that stand behind power signs; `R` says what an operand is. -/
inductive Raised (R : List Token → Expr → Prop) : List Token → List Expr → Prop where
  | none : Raised R [] []
  | more {t : Token} {ts us : List Token} {e : Expr} {es : List Expr}
      (ht : t.lexeme = .symbol ArithOp.pow.sign) (h : R ts e) (hs : Raised R us es) :
      Raised R (t :: (ts ++ us)) (e :: es)

/-- What is asked of a node and the tokens that it is made of. -/
abbrev NodeRule := List Token → Expr → Prop

/-- **The grammar.** The tokens are, by the rules of a level, a tree of which each node keeps the
node rule. Spans are left to the node rule. -/
inductive Derives (rule : NodeRule) : Level → List Token → Expr → Prop where
  /-- An operand alone. -/
  | operand {l m : Level} {ts : List Token} {e : Expr} (hl : l.operand? = some m)
      (h : Derives rule m ts e) : Derives rule l ts e
  /-- Sums and products are joined from the left. -/
  | join {l m : Level} {ts us : List Token} {t : Token} {op : ArithOp} {lhs rhs : Expr} {sp : Span}
      (hl : l.operand? = some m) (hop : op ∈ l.operators) (left : Derives rule l ts lhs)
      (ht : t.lexeme = .symbol op.sign) (right : Derives rule m us rhs)
      (node : rule (ts ++ t :: us) (.arith sp op lhs rhs)) :
      Derives rule l (ts ++ t :: us) (.arith sp op lhs rhs)
  /-- Powers are joined from the right. -/
  | power {ts us : List Token} {t : Token} {lhs rhs : Expr} {sp : Span}
      (left : Derives rule .unary ts lhs) (ht : t.lexeme = .symbol ArithOp.pow.sign)
      (right : Derives rule .power us rhs) (node : rule (ts ++ t :: us) (.arith sp .pow lhs rhs)) :
      Derives rule .power (ts ++ t :: us) (.arith sp .pow lhs rhs)
  /-- One minus sign may stand before a reference. -/
  | negate {ts : List Token} {t : Token} {e : Expr} {sp : Span} (ht : t.lexeme = .symbol .minus)
      (h : Derives rule .reference ts e) (node : rule (t :: ts) (.negate sp e)) :
      Derives rule .unary (t :: ts) (.negate sp e)
  /-- A field of a reference. -/
  | field {ts : List Token} {d n : Token} {name : List Char} {target : Expr} {sp nsp : Span}
      (h : Derives rule .reference ts target) (hd : d.lexeme = .symbol .dot)
      (hn : n.lexeme = .ident name)
      (node : rule (ts ++ [d, n]) (.field sp target nsp (String.ofList name))) :
      Derives rule .reference (ts ++ [d, n]) (.field sp target nsp (String.ofList name))
  /-- An element of a reference. -/
  | index {ts us : List Token} {o c : Token} {target position : Expr} {sp : Span}
      (h : Derives rule .reference ts target) (ho : o.lexeme = .symbol .openBracket)
      (inner : Derives rule .sum us position) (hc : c.lexeme = .symbol .closeBracket)
      (node : rule (ts ++ (o :: us ++ [c])) (.index sp target position)) :
      Derives rule .reference (ts ++ (o :: us ++ [c])) (.index sp target position)
  | number {t : Token} {n : Number.Numeral} {sp : Span} (ht : t.lexeme = .number n)
      (node : rule [t] (.number sp n.nearest)) : Derives rule .primary [t] (.number sp n.nearest)
  | text {t : Token} {s : List Char} {sp : Span} (ht : t.lexeme.value = .ok s)
      (node : rule [t] (.text sp (String.ofList s))) :
      Derives rule .primary [t] (.text sp (String.ofList s))
  | var {t : Token} {name : List Char} {sp : Span} (ht : t.lexeme = .ident name)
      (node : rule [t] (.var sp (String.ofList name))) :
      Derives rule .primary [t] (.var sp (String.ofList name))
  /-- Parentheses leave no node. -/
  | group {ts : List Token} {o c : Token} {e : Expr} (ho : o.lexeme = .symbol .openParen)
      (inner : Derives rule .sum ts e) (hc : c.lexeme = .symbol .closeParen) :
      Derives rule .primary (o :: ts ++ [c]) e
  /-- A call; each argument comes with its tokens. -/
  | call {n o c : Token} {name : List Char} {args : List (List Token × Expr)} {us : List Token}
      {sp nsp : Span} (hn : n.lexeme = .ident name) (ho : o.lexeme = .symbol .openParen)
      (hargs : Separated (args.map (·.1)) us) (inner : ∀ a ∈ args, Derives rule .sum a.1 a.2)
      (hc : c.lexeme = .symbol .closeParen)
      (node : rule (n :: (o :: us ++ [c])) (.call sp nsp (String.ofList name) (args.map (·.2)))) :
      Derives rule .primary (n :: (o :: us ++ [c]))
        (.call sp nsp (String.ofList name) (args.map (·.2)))

/-- Nothing is asked of nodes. -/
def anyNode : NodeRule := fun _ _ => True

/-- The span of the first of some tokens. -/
def firstSpan (ts : List Token) : Span :=
  (ts.head?.map Token.span).getD Expr.noSpan

/-- The span of the last of some tokens. -/
def lastSpan (ts : List Token) : Span :=
  (ts.getLast?.map Token.span).getD Expr.noSpan

@[simp] theorem lastSpan_append_cons (ts us : List Token) (t : Token) :
    lastSpan (ts ++ t :: us) = lastSpan (t :: us) := by
  simp [lastSpan, List.getLast?_append, List.getLast?_cons]

@[simp] theorem lastSpan_singleton (t : Token) : lastSpan [t] = t.span := rfl

@[simp] theorem lastSpan_cons_cons (t u : Token) (ts : List Token) :
    lastSpan (t :: u :: ts) = lastSpan (u :: ts) := by
  simp [lastSpan, List.getLast?_cons_cons]

namespace Expr

/-- Where a node lies. A node that begins with a token of its own begins there, and every other
one begins with its first operand; it ends with its last token or operand. -/
def Placed (ts : List Token) : Expr → Prop
  | .number sp _ | .text sp _ | .var sp _ | .negate sp _ =>
    sp = { firstSpan ts with stop := (lastSpan ts).stop }
  | .call sp nsp _ _ =>
    nsp = firstSpan ts ∧ sp = { firstSpan ts with stop := (lastSpan ts).stop }
  | .field sp target nsp _ =>
    nsp = lastSpan ts ∧ sp = { target.span with stop := (lastSpan ts).stop }
  | .index sp target _ => sp = { target.span with stop := (lastSpan ts).stop }
  | .arith sp _ lhs rhs => sp = { lhs.span with stop := rhs.span.stop }

/-- A call names a function and has as many arguments as the function accepts. -/
def CallAccepted : Expr → Prop
  | .call _ _ name args => ∃ b, Builtin.ofName? name = some b ∧ b.arity.accepts args.length = true
  | _ => True

/-- The name in a node. -/
def name? : Expr → Option String
  | .var _ name | .field _ _ _ name | .call _ _ name _ => some name
  | _ => none

/-- The name in a node, if there is one, is not blocked. -/
def NameAllowed (e : Expr) : Prop :=
  ∀ name ∈ e.name?, name ∉ blockedNames

/-- The name in a node, if there is one, is an identifier among the tokens. -/
def NamedIn (ts : List Token) (e : Expr) : Prop :=
  ∀ name ∈ e.name?, ∃ t ∈ ts, ∃ cs, t.lexeme = .ident cs ∧ name = String.ofList cs

theorem NamedIn.mono {us ts : List Token} {e : Expr} (hsub : us ⊆ ts) (h : e.NamedIn us) :
    e.NamedIn ts := by
  intro name hname
  obtain ⟨t, ht, cs, hcs⟩ := h name hname
  exact ⟨t, hsub ht, cs, hcs⟩

theorem NamedIn.of_unnamed {ts : List Token} {e : Expr} (h : e.name? = none) : e.NamedIn ts := by
  simp [NamedIn, h]

theorem NamedIn.of_ident {ts : List Token} {e : Expr} {t : Token} {cs : List Char} (ht : t ∈ ts)
    (hcs : t.lexeme = .ident cs) (h : e.name? = some (String.ofList cs)) : e.NamedIn ts := by
  intro name hname
  rw [h] at hname
  cases hname
  exact ⟨t, ht, cs, hcs, rfl⟩

/-- What is asked of the nodes of a formula. -/
structure Sound (ts : List Token) (e : Expr) : Prop where
  placed : e.Placed ts
  name : e.NameAllowed
  call : e.CallAccepted

/-- A node without a name is sound where it is placed. -/
theorem Sound.of_unnamed {ts : List Token} {e : Expr} (hp : e.Placed ts) (hn : e.name? = none) :
    e.Sound ts := by
  refine ⟨hp, by simp [NameAllowed, hn], ?_⟩
  cases e with
  | call => simp [name?] at hn
  | _ => trivial

end Expr

/-- The name of an identifier is not blocked. -/
def Token.NameAllowed (t : Token) : Prop :=
  ∀ name, t.lexeme = .ident name → String.ofList name ∉ blockedNames

/-- A string literal stands for a text. -/
def Token.Decodes (t : Token) : Prop :=
  t.lexeme.isLiteral = true → ∃ s, t.lexeme.value = .ok s

namespace Derives

variable {rule : NodeRule} {l : Level} {ts : List Token} {e : Expr}

/-- No expression is without tokens. -/
theorem ne_nil (h : Derives rule l ts e) : ts ≠ [] := by
  induction h with
  | operand _ _ ih => exact ih
  | _ => simp

/-- **A derivation may drop the places.** -/
theorem bare (h : Derives rule l ts e) : Derives anyNode l ts e.bare := by
  induction h with
  | operand hl _ ih => exact .operand hl ih
  | join hl hop _ ht _ _ ihl ihr => exact .join hl hop ihl ht ihr trivial
  | power _ ht _ _ ihl ihr => exact .power ihl ht ihr trivial
  | negate ht _ _ ih => exact .negate ht ih trivial
  | field _ hd hn _ ih => exact .field ih hd hn trivial
  | index _ ho _ hc _ iht ihi => exact .index iht ho ihi hc trivial
  | number ht _ => exact .number ht trivial
  | text ht _ => exact .text ht trivial
  | var ht _ => exact .var ht trivial
  | group ho _ hc ih => exact .group ho ih hc
  | @call n o c name args us sp nsp hn ho hargs _ hc _ ih =>
    -- the arguments keep their tokens and only their trees drop places
    have hbare : Expr.bareAll (args.map (·.2)) =
        (args.map fun a => (a.1, a.2.bare)).map (·.2) := by
      simp [Expr.bareAll_eq_map, Function.comp_def]
    rw [Expr.bare, hbare]
    refine .call hn ho (by simpa [Function.comp_def] using hargs) ?_ hc trivial
    rintro _ ha
    obtain ⟨a, ha', rfl⟩ := List.mem_map.1 ha
    exact ih a ha'

/-- **What holds of every kind of token in a derivation holds of all its tokens.** An identifier
is the name in a node, of which the node rule holds. -/
theorem forall_tokens {P : Token → Prop} (symbol : ∀ t s, t.lexeme = .symbol s → P t)
    (number : ∀ t n, t.lexeme = .number n → P t) (text : ∀ t s, t.lexeme.value = .ok s → P t)
    (ident : ∀ t name us x, t.lexeme = .ident name → rule us x →
      x.name? = some (String.ofList name) → P t)
    (h : Derives rule l ts e) : ∀ t ∈ ts, P t := by
  induction h with
  | operand _ _ ih => exact ih
  | join _ _ _ ht _ _ ihl ihr | power _ ht _ _ ihl ihr =>
    exact List.forall_mem_append.2 ⟨ihl, List.forall_mem_cons.2 ⟨symbol _ _ ht, ihr⟩⟩
  | negate ht _ _ ih => exact List.forall_mem_cons.2 ⟨symbol _ _ ht, ih⟩
  | field _ hd hn node ih =>
    refine List.forall_mem_append.2 ⟨ih, ?_⟩
    simpa using ⟨symbol _ _ hd, ident _ _ _ _ hn node rfl⟩
  | index _ ho _ hc _ iht ihi =>
    refine List.forall_mem_append.2 ⟨iht, List.forall_mem_append.2 ⟨?_, ?_⟩⟩
    · exact List.forall_mem_cons.2 ⟨symbol _ _ ho, ihi⟩
    · simpa using symbol _ _ hc
  | number ht _ => simpa using number _ _ ht
  | text ht _ => simpa using text _ _ ht
  | var ht node => simpa using ident _ _ _ _ ht node rfl
  | group ho _ hc ih =>
    refine List.forall_mem_append.2 ⟨List.forall_mem_cons.2 ⟨symbol _ _ ho, ih⟩, ?_⟩
    simpa using symbol _ _ hc
  | call hn ho hargs _ hc node ih =>
    refine List.forall_mem_cons.2 ⟨ident _ _ _ _ hn node rfl, List.forall_mem_append.2 ⟨?_, ?_⟩⟩
    · refine List.forall_mem_cons.2 ⟨symbol _ _ ho, fun t ht => ?_⟩
      -- between the brackets there are commas and the tokens of arguments
      rcases hargs.mem ht with ht | ⟨us, hus, ht⟩
      · exact symbol _ _ ht
      · obtain ⟨a, ha, rfl⟩ := List.mem_map.1 hus
        exact ih a ha t ht
    · simpa using symbol _ _ hc

/-- Powers of a first operand and of the operands behind it. -/
theorem raised {us : List Token} {es : List Expr} (h : Derives Expr.Sound .unary ts e)
    (hus : Raised (Derives Expr.Sound .unary) us es) :
    Derives Expr.Sound .power (ts ++ us) (Expr.powers e es) := by
  -- the first operand changes: behind a sign it is the next one
  induction hus generalizing ts e with
  | none =>
    rw [List.append_nil]
    exact .operand rfl h
  | more ht hfirst _ ih => exact .power h ht (ih hfirst) (.of_unnamed rfl rfl)

/-- **Every node of a derived tree keeps the node rule.** -/
theorem exists_rule (h : Derives rule l ts e) : ∀ x ∈ e.subtrees, ∃ us, rule us x := by
  induction h with
  | operand _ _ ih | group _ _ _ ih => exact ih
  | number _ node | text _ node | var _ node => simpa [Expr.subtrees] using ⟨_, node⟩
  | negate _ _ node ih | field _ _ _ node ih =>
    exact List.forall_mem_cons.2 ⟨⟨_, node⟩, ih⟩
  | join _ _ _ _ _ node ihl ihr | power _ _ _ node ihl ihr | index _ _ _ _ node ihl ihr =>
    exact List.forall_mem_cons.2 ⟨⟨_, node⟩, List.forall_mem_append.2 ⟨ihl, ihr⟩⟩
  | call _ _ _ _ _ node ih =>
    refine List.forall_mem_cons.2 ⟨⟨_, node⟩, fun x hx => ?_⟩
    obtain ⟨e, he, hx⟩ := Expr.mem_subtreesAll.1 hx
    obtain ⟨a, ha, rfl⟩ := List.mem_map.1 he
    exact ih a ha x hx

/-- **Every name in a derived tree is an identifier among the tokens.** -/
theorem namedIn (h : Derives rule l ts e) : ∀ x ∈ e.subtrees, x.NamedIn ts := by
  induction h with
  | operand _ _ ih => exact ih
  | @join l m ts us t op lhs rhs sp _ _ _ _ _ _ ihl ihr
  | @power ts us t lhs rhs sp _ _ _ _ ihl ihr =>
    have hl : ts ⊆ ts ++ t :: us := fun u hu => by simp [hu]
    have hr : us ⊆ ts ++ t :: us := fun u hu => by simp [hu]
    exact List.forall_mem_cons.2 ⟨.of_unnamed rfl, List.forall_mem_append.2
      ⟨fun x hx => (ihl x hx).mono hl, fun x hx => (ihr x hx).mono hr⟩⟩
  | @negate ts t e sp _ _ _ ih =>
    have hsub : ts ⊆ t :: ts := fun u hu => by simp [hu]
    exact List.forall_mem_cons.2 ⟨.of_unnamed rfl, fun x hx => (ih x hx).mono hsub⟩
  | @field ts d n name target sp nsp _ _ hn _ ih =>
    have hsub : ts ⊆ ts ++ [d, n] := fun u hu => by simp [hu]
    exact List.forall_mem_cons.2
      ⟨.of_ident (by simp) hn rfl, fun x hx => (ih x hx).mono hsub⟩
  | @index ts us o c target position sp _ _ _ _ _ iht ihi =>
    have ht : ts ⊆ ts ++ (o :: us ++ [c]) := fun u hu => by simp [hu]
    have hi : us ⊆ ts ++ (o :: us ++ [c]) := fun u hu => by simp [hu]
    exact List.forall_mem_cons.2 ⟨.of_unnamed rfl, List.forall_mem_append.2
      ⟨fun x hx => (iht x hx).mono ht, fun x hx => (ihi x hx).mono hi⟩⟩
  | number _ _ | text _ _ => simpa [Expr.subtrees] using Expr.NamedIn.of_unnamed rfl
  | var ht _ => simpa [Expr.subtrees] using Expr.NamedIn.of_ident (by simp) ht rfl
  | @group ts o c e _ _ _ ih =>
    have hsub : ts ⊆ o :: ts ++ [c] := fun u hu => by simp [hu]
    exact fun x hx => (ih x hx).mono hsub
  | @call n o c name args us sp nsp hn _ hargs _ _ _ ih =>
    refine List.forall_mem_cons.2 ⟨.of_ident (by simp) hn rfl, fun x hx => ?_⟩
    obtain ⟨e, he, hx⟩ := Expr.mem_subtreesAll.1 hx
    obtain ⟨a, ha, rfl⟩ := List.mem_map.1 he
    have hsub : a.1 ⊆ n :: (o :: us ++ [c]) := fun u hu => by
      simp [hargs.subset (List.mem_map_of_mem ha) hu]
    exact (ih a ha x hx).mono hsub

/-- The names among the tokens are not blocked, if the node rule refuses such names. -/
theorem nameAllowed (hrule : ∀ us x, rule us x → x.NameAllowed) (h : Derives rule l ts e) :
    ∀ t ∈ ts, t.NameAllowed := by
  refine forall_tokens ?_ ?_ ?_ ?_ h
  · intro t s ht name hname
    simp [ht] at hname
  · intro t n ht name hname
    simp [ht] at hname
  · intro t s ht name hname
    simp [hname, Lexeme.value] at ht
  · intro t name us x ht hx hxn name' hname'
    obtain rfl : name = name' := by simpa [ht] using hname'
    exact hrule us x hx _ hxn

/-- The string literals among the tokens of an expression stand for texts. -/
theorem decodes (h : Derives rule l ts e) : ∀ t ∈ ts, t.Decodes := by
  refine forall_tokens ?_ ?_ ?_ ?_ h
  · intro t s ht hlit
    simp [ht, Lexeme.isLiteral] at hlit
  · intro t n ht hlit
    simp [ht, Lexeme.isLiteral] at hlit
  · exact fun t s ht _ => ⟨s, ht⟩
  · intro t name us x ht _ _ hlit
    simp [ht, Lexeme.isLiteral] at hlit

/-- An expression does not go beyond the end. -/
theorem ne_eof (h : Derives rule l ts e) : ∀ t ∈ ts, t.lexeme ≠ .eof := by
  refine forall_tokens ?_ ?_ ?_ ?_ h
  · intro t s ht
    simp [ht]
  · intro t n ht
    simp [ht]
  · intro t s ht heof
    simp [heof, Lexeme.value] at ht
  · intro t name us x ht _ _
    simp [ht]

end Derives

/-- Derivations of arguments that differ only in places can be chosen together. -/
theorem exists_args {args : List (List Token × Expr)}
    (h : ∀ a ∈ args, ∃ e, Derives Expr.Sound .sum a.1 e ∧ e.bare = a.2.bare) :
    ∃ args' : List (List Token × Expr), args'.map (·.1) = args.map (·.1) ∧
      (args'.map (·.2)).map Expr.bare = (args.map (·.2)).map Expr.bare ∧
      ∀ a ∈ args', Derives Expr.Sound .sum a.1 a.2 := by
  induction args with
  | nil => exact ⟨[], rfl, rfl, by simp⟩
  | cons a args ih =>
    obtain ⟨e, he, hbare⟩ := h a (by simp)
    obtain ⟨args', h1, h2, h3⟩ := ih fun b hb => h b (by simp [hb])
    exact ⟨(a.1, e) :: args', by simp [h1], by simpa [hbare] using h2,
      List.forall_mem_cons.2 ⟨he, h3⟩⟩

/-- **The nodes of a derived tree can be given their places.** It is then sound if the names among
its tokens are not blocked and its calls are accepted. -/
theorem Derives.sound_of_any {l : Level} {ts : List Token} {e : Expr}
    (h : Derives anyNode l ts e) (hnames : ∀ t ∈ ts, t.NameAllowed)
    (hcalls : ∀ x ∈ e.subtrees, x.CallAccepted) :
    ∃ e', Derives Expr.Sound l ts e' ∧ e'.bare = e.bare := by
  induction h with
  | operand hl _ ih =>
    obtain ⟨e', h, hbare⟩ := ih hnames hcalls
    exact ⟨e', .operand hl h, hbare⟩
  | join hl hop _ ht _ _ ihl ihr =>
    simp only [Expr.subtrees, List.forall_mem_cons, List.forall_mem_append] at hnames hcalls
    obtain ⟨l', hl', hlb⟩ := ihl hnames.1 hcalls.2.1
    obtain ⟨r', hr', hrb⟩ := ihr hnames.2.2 hcalls.2.2
    exact ⟨_, .join hl hop hl' ht hr' (.of_unnamed rfl rfl),
      by simp [Expr.bare, hlb, hrb]⟩
  | power _ ht _ _ ihl ihr =>
    simp only [Expr.subtrees, List.forall_mem_cons, List.forall_mem_append] at hnames hcalls
    obtain ⟨l', hl', hlb⟩ := ihl hnames.1 hcalls.2.1
    obtain ⟨r', hr', hrb⟩ := ihr hnames.2.2 hcalls.2.2
    exact ⟨_, .power hl' ht hr' (.of_unnamed rfl rfl),
      by simp [Expr.bare, hlb, hrb]⟩
  | negate ht _ _ ih =>
    simp only [Expr.subtrees, List.forall_mem_cons] at hnames hcalls
    obtain ⟨e', he', hb⟩ := ih hnames.2 hcalls.2
    exact ⟨_, .negate ht he' (.of_unnamed rfl rfl),
      by simp [Expr.bare, hb]⟩
  | field _ hd hn _ ih =>
    simp only [Expr.subtrees, List.forall_mem_cons, List.forall_mem_append] at hnames hcalls
    obtain ⟨e', he', hb⟩ := ih hnames.1 hcalls.2
    exact ⟨_, .field he' hd hn
      ⟨⟨rfl, rfl⟩, by simpa [Expr.NameAllowed, Expr.name?] using hnames.2.2.1 _ hn, trivial⟩,
      by simp [Expr.bare, hb]⟩
  | index _ ho _ hc _ iht ihi =>
    simp only [Expr.subtrees, List.forall_mem_cons, List.forall_mem_append] at hnames hcalls
    obtain ⟨t', ht', htb⟩ := iht hnames.1 hcalls.2.1
    obtain ⟨i', hi', hib⟩ := ihi hnames.2.1.2 hcalls.2.2
    exact ⟨_, .index ht' ho hi' hc (.of_unnamed rfl rfl),
      by simp [Expr.bare, htb, hib]⟩
  | number ht _ =>
    exact ⟨_, .number ht (.of_unnamed rfl rfl), rfl⟩
  | text ht _ =>
    exact ⟨_, .text ht (.of_unnamed rfl rfl), rfl⟩
  | var ht _ =>
    have hname := hnames _ (by simp) _ ht
    exact ⟨_, .var ht ⟨rfl, by simpa [Expr.NameAllowed, Expr.name?] using hname, trivial⟩, rfl⟩
  | group ho _ hc ih =>
    simp only [List.forall_mem_cons, List.forall_mem_append] at hnames
    obtain ⟨e', he', hb⟩ := ih hnames.1.2 hcalls
    exact ⟨e', .group ho he' hc, hb⟩
  | @call n o c name args us sp nsp hn ho hargs _ hc _ ih =>
    simp only [Expr.subtrees, List.forall_mem_cons, List.forall_mem_append] at hnames hcalls
    -- arguments are given their places one by one, over the same tokens
    obtain ⟨args', h1, h2, h3⟩ := exists_args fun a (ha : a ∈ args) =>
      ih a ha (fun t ht => hnames.2.1.2 t (hargs.subset (List.mem_map_of_mem ha) ht))
        fun x hx => hcalls.2 x (Expr.mem_subtreesAll.2 ⟨a.2, List.mem_map_of_mem ha, hx⟩)
    have hlength : (args'.map (·.2)).length = (args.map (·.2)).length := by
      simpa using congrArg List.length h2
    refine ⟨_, .call hn ho (h1 ▸ hargs) h3 hc ⟨⟨rfl, rfl⟩, ?_, ?_⟩, ?_⟩
    · simpa [Expr.NameAllowed, Expr.name?] using hnames.1 _ hn
    · simpa only [Expr.CallAccepted, hlength] using hcalls.1
    · simp only [Expr.bare, Expr.bareAll_eq_map, h2]

end FormCalc
