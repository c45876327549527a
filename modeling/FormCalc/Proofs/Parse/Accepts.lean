import FormCalc.Proofs.Parse.Reads

/-!
# What the loops of the parser accept

A rule takes all tokens of a tree, if the token behind them could not go on with the tree and no
ceiling is in the way.

* `Level.Stops`, `Level.Begins`: what stands behind an expression, and what it begins with.
* `Accepts`: the rule of a level takes the tokens of a tree and returns the tree.
* `Resumes`: the same of the loops that join from the left: they go on with the tree.
* `Resumes.join`, `accepts_powers`, `call_of_inside`: chains, powers and the arguments of calls.
-/

namespace FormCalc

open Progress

namespace Level

/-- The symbols that go on with an expression. -/
def continuing : Level → List Symbol
  | .primary => [.openParen]
  | .reference | .unary => [.openParen, .dot, .openBracket]
  | .power => [.openParen, .dot, .openBracket, .power]
  | .product => [.openParen, .dot, .openBracket, .power, .times, .divide]
  | .sum => [.openParen, .dot, .openBracket, .power, .times, .divide, .plus, .minus]

/-- The token does not go on with an expression. -/
def Stops (l : Level) (t : Token) : Prop :=
  ∀ o ∈ l.continuing, t.lexeme ≠ .symbol o

/-- The symbols with which an expression begins. -/
def beginning : Level → List Symbol
  | .primary | .reference => [.openParen]
  | _ => [.openParen, .minus]

/-- The token can be the first one of an expression. -/
def Begins (l : Level) (t : Token) : Prop :=
  t.lexeme ≠ .eof ∧ ∀ o, t.lexeme = .symbol o → o ∈ l.beginning

/-- What goes on with an operand goes on with the expression. -/
theorem Stops.operand {l m : Level} {t : Token} (hl : l.operand? = some m) (h : l.Stops t) :
    m.Stops t := by
  have hsub : ∀ o ∈ m.continuing, o ∈ l.continuing := by
    cases l <;> cases hl <;> decide
  exact fun o ho => h o (hsub o ho)

/-- What begins an operand begins an expression. -/
theorem Begins.operand {l m : Level} {t : Token} (hl : l.operand? = some m) (h : m.Begins t) :
    l.Begins t := by
  have hsub : ∀ o ∈ m.beginning, o ∈ l.beginning := by
    cases l <;> cases hl <;> decide
  exact ⟨h.1, fun o ho => hsub o (h.2 o ho)⟩

/-- The operators of a level do not go on with its operands. -/
theorem stops_of_sign {l m : Level} {op : ArithOp} {t : Token} (hl : l.operand? = some m)
    (hop : op ∈ l.operators) (ht : t.lexeme = .symbol op.sign) : m.Stops t := by
  have hsign : ∀ op ∈ l.operators, op.sign ∉ m.continuing := by
    cases l <;> cases hl <;> decide
  intro o ho heq
  rw [ht] at heq
  cases heq
  exact hsign op hop ho

end Level

/-- An expression begins with a token of its level. -/
theorem Derives.begins {rule : NodeRule} {l : Level} {ts : List Token} {e : Expr}
    (h : Derives rule l ts e) : ∃ t us, ts = t :: us ∧ l.Begins t := by
  induction h with
  | operand hl _ ih =>
    obtain ⟨t, us, rfl, ht⟩ := ih
    exact ⟨t, us, rfl, ht.operand hl⟩
  | join _ _ _ _ _ _ ih _ | field _ _ _ _ ih | index _ _ _ _ _ ih _ =>
    obtain ⟨t, us, rfl, ht⟩ := ih
    exact ⟨t, _, rfl, ht⟩
  | power _ _ _ _ ih _ =>
    obtain ⟨t, us, rfl, ht⟩ := ih
    exact ⟨t, _, rfl, ht⟩
  | negate ht _ _ _ => exact ⟨_, _, rfl, by simp [ht], by simp [ht, Level.beginning]⟩
  | number ht _ | var ht _ | call ht _ _ _ _ _ _ =>
    exact ⟨_, _, rfl, by simp [ht], by simp [ht]⟩
  | text ht _ =>
    refine ⟨_, _, rfl, fun h => ?_, fun o h => ?_⟩ <;> simp [h, Lexeme.value] at ht
  | group ht _ _ _ => exact ⟨_, _, rfl, by simp [ht], by simp [ht, Level.beginning]⟩

open Parse

/-- The rule of the parser for a level. -/
def Level.rule (a : Assignment) (p : Parse Expr) : Level → Parse Expr
  | .sum => Parse.sum a p
  | .product => Parse.product a p
  | .power => Parse.power a p
  | .unary => Parse.unary a p
  | .reference => Parse.postfixed a p
  | .primary => Parse.primary a p

/-- The loop that goes on with what has been read of a level. -/
def Level.resume (a : Assignment) (p : Parse Expr) (k : Nat) (e : Expr) : Level → Parse Expr
  | .sum => chain a sumOperator? (Parse.product a p) k e
  | .product => chain a productOperator? (Parse.power a p) k e
  | .reference => references a p k e
  | .power | .unary | .primary => pure e

variable {a : Assignment} {s s' s'' : Progress} {e : Expr} {l m : Level} {ts us : List Token}

/-- The rule of the level takes the tokens and returns the tree. -/
def Accepts (a : Assignment) (l : Level) (ts : List Token) (e : Expr) : Prop :=
  ∀ n s s', peak ts ≤ n → Took a s ts e.nodeCount s' → l.Stops s'.current →
    l.rule a (expressionWithin a n) s = .ok e s'

/-- The rule of the level takes the tokens and goes on with the tree. The token behind them may
belong to the level, but not to the operand that was read last. -/
def Resumes (a : Assignment) (l m : Level) (ts : List Token) (e : Expr) : Prop :=
  ∀ n s s', peak ts ≤ n → Took a s ts e.nodeCount s' → m.Stops s'.current →
    ∃ k, s'.upcoming.length < k ∧
      l.rule a (expressionWithin a n) s = l.resume a (expressionWithin a n) k e s'

/-- A chain joined from the left ends where nothing goes on with it. -/
theorem chain_of_none {operator? : Symbol → Option ArithOp} {q : Parse Expr} {k : Nat}
    (h : ∀ o, s.current.lexeme = .symbol o → operator? o = none) :
    chain a operator? q k e s = .ok e s := by
  cases k with
  | zero => rfl
  | succ k =>
    have hnone : s.current.lexeme.symbol?.bind operator? = none := by
      rw [Option.bind_eq_none_iff]
      exact fun o ho => h o (Lexeme.symbol?_eq_some.1 ho)
    unfold chain
    rw [symbol?_bind]
    simp only [hnone, pure_apply]

theorem references_of_stops {p : Parse Expr} {k : Nat} (h : Level.reference.Stops s.current) :
    references a p k e s = .ok e s := by
  cases k with
  | zero => rfl
  | succ k =>
    unfold references
    rw [symbol?_bind]
    cases ho : s.current.lexeme.symbol? with
    | none => rfl
    | some o =>
      have hne := fun o' ho' => h o' ho'
      rw [Lexeme.symbol?_eq_some.1 ho] at hne
      cases o <;> first | rfl | simp [Level.continuing] at hne

/-- What goes on to the end of the level has been accepted. -/
theorem Resumes.accepts (hl : l.operand? = some m) (h : Resumes a l m ts e) :
    Accepts a l ts e := by
  intro n s s' hn htook hstop
  obtain ⟨k, hk, heq⟩ := h n s s' hn htook (hstop.operand hl)
  rw [heq]
  cases l with
  | sum | product =>
    refine chain_of_none fun o ho => ?_
    have hne := fun o' ho' => hstop o' ho'
    rw [ho] at hne
    cases o <;> first | rfl | simp [Level.continuing] at hne
  | reference => exact references_of_stops hstop
  | power | unary | primary => rfl

/-- An operand is a chain of one. -/
theorem Accepts.resumes (hl : l.operand? = some m) (hne : l ≠ .power ∧ l ≠ .unary)
    (h : Accepts a m ts e) : Resumes a l m ts e := by
  intro n s s' hn htook hstop
  have hok := h n s s' hn htook hstop
  refine ⟨s'.upcoming.length + 1, Nat.lt_succ_self _, ?_⟩
  cases l with
  | sum | product | reference =>
    cases hl
    exact (bind_of_ok hok).trans (steps_bind _)
  | power | unary | primary => simp_all [Level.operand?]

/-- An operator and its operand behind what has been read of a chain. -/
theorem chain_operand {operator? : Symbol → Option ArithOp} {q : Parse Expr} {op : ArithOp}
    {t : Token} {lhs rhs : Expr} {k : Nat} (hop : operator? op.sign = some op)
    (ht : t.lexeme = .symbol op.sign) (hb : Balanced us)
    (hq : ∀ u u', Took a u us rhs.nodeCount u' → u'.current = s'.current → q u = .ok rhs u')
    (htook : Took a s (t :: us) (rhs.nodeCount + 1) s') (hk : s.upcoming.length < k) :
    ∃ k', s'.upcoming.length < k' ∧
      chain a operator? q k lhs s = chain a operator? q k' (Expr.join op lhs rhs) s' := by
  have hlen := htook.length_upcoming
  -- the sign, the operand behind it, and the node of both
  obtain ⟨rfl, u, hnext, htook'⟩ := htook.uncons (.of_sign ht)
  obtain ⟨u', hrhs, hcount, hcurrent, -⟩ := htook'.unnode hb
  obtain ⟨k, rfl⟩ : ∃ k', k = k' + 1 := ⟨k - 1, by omega⟩
  have hop' : s.current.lexeme.symbol?.bind operator? = some op := by
    rw [Lexeme.symbol?_eq_some.2 ht]
    exact hop
  refine ⟨k, by simp only [List.length_cons] at hlen; omega, ?_⟩
  rw [chain, symbol?_bind]
  simp only [hop']
  rw [bind_of_ok hnext.advance, bind_of_ok (hq u u' hrhs hcurrent), bind_of_ok hcount]

/-- **A chain takes another operand.** -/
theorem Resumes.join {op : ArithOp} {t : Token} {lhs rhs : Expr} (hl : l.operand? = some m)
    (hop : op ∈ l.operators) (hbl : Balanced ts) (hbr : Balanced us)
    (left : Resumes a l m ts lhs) (ht : t.lexeme = .symbol op.sign) (right : Accepts a m us rhs) :
    Resumes a l m (ts ++ t :: us) (Expr.join op lhs rhs) := by
  intro n s s' hn htook hstop
  rw [hbl.peak_append, peak_cons (.of_sign ht)] at hn
  rw [Expr.nodeCount_join, Nat.add_assoc] at htook
  obtain ⟨u, h1, h2⟩ := htook.split hbl
  -- the sign ends the operand on its left, and does not end the chain
  have hcurrent := h2.head_eq
  have hsign : m.Stops u.current := Level.stops_of_sign hl hop (hcurrent ▸ ht)
  obtain ⟨k, hk, heq⟩ := left n s u (by omega) h1 hsign
  have hrule : ∀ u u', Took a u us rhs.nodeCount u' → u'.current = s'.current →
      m.rule a (expressionWithin a n) u = .ok rhs u' :=
    fun u u' h hu => right n u u' (by omega) h (hu ▸ hstop)
  rw [heq]
  cases l with
  | sum =>
    cases hl
    exact chain_operand (sumOperator?_eq_some_iff.2 ⟨hop, rfl⟩) ht hbr hrule h2 hk
  | product =>
    cases hl
    exact chain_operand (productOperator?_eq_some_iff.2 ⟨hop, rfl⟩) ht hbr hrule h2 hk
  | power | unary | reference | primary => simp [Level.operators] at hop

/-- The operand of a power is accepted. -/
structure PowerOperand (a : Assignment) (ts : List Token) (e : Expr) : Prop where
  balanced : Balanced ts
  accepts : Accepts a .unary ts e

/-- Behind the operand of a power there is a power sign or what stands behind the power. -/
theorem Raised.stops {R : List Token → Expr → Prop} {es : List Expr} {n : Nat}
    (h : Raised R us es) (htook : Took a s us n s') (hstop : Level.power.Stops s'.current) :
    Level.unary.Stops s.current := by
  cases h with
  | none =>
    rw [← htook.current_eq]
    exact hstop.operand rfl
  | more ht _ _ =>
    intro o ho
    rw [htook.head_eq, ht]
    revert o
    simp [Level.continuing, ArithOp.sign]

/-- The operands behind the first one of a chain of powers. -/
theorem exponents_of_raised {es : List Expr} {n k : Nat} (h : Raised (PowerOperand a) us es)
    (hn : peak us ≤ n) (htook : Took a s us (Expr.nodeCounts es + es.length) s')
    (hstop : Level.power.Stops s'.current) (hk : s.upcoming.length < k) :
    exponents a (expressionWithin a n) k s = .ok es s' := by
  obtain ⟨k, rfl⟩ : ∃ k', k = k' + 1 := ⟨k - 1, by omega⟩
  induction h generalizing s k with
  | none =>
    obtain rfl := (Took.refl a s).eq_of_eq htook
    have hne : s.current.lexeme.symbol? ≠ some .power :=
      fun h => hstop _ (by simp [Level.continuing]) (Lexeme.symbol?_eq_some.1 h)
    rw [exponents, symbol?_bind, if_neg hne, pure_apply]
  | @more t ts us e es ht hfirst hrest ih =>
    have hlen := htook.length_upcoming
    obtain ⟨rfl, u, hnext, htook'⟩ := htook.uncons (.of_sign ht)
    rw [peak_cons (.of_sign ht), hfirst.balanced.peak_append] at hn
    have hcounts : Expr.nodeCounts (e :: es) + (e :: es).length =
        (e.nodeCount + 1) + (Expr.nodeCounts es + es.length) := by
      simp only [Expr.nodeCounts, List.length_cons]
      omega
    rw [hcounts] at htook'
    obtain ⟨u2, h1, h2⟩ := htook'.split hfirst.balanced
    obtain ⟨u1, h1, hcount, hcurrent, -⟩ := h1.unnode hfirst.balanced
    -- the operand ends at the next sign, or where the whole power does
    have hok := hfirst.accepts n u u1 (by omega) h1 (hcurrent ▸ hrest.stops h2 hstop)
    have hlen2 := h2.length_upcoming
    simp only [List.length_cons, List.length_append] at hlen
    obtain ⟨k, rfl⟩ : ∃ k', k = k' + 1 := ⟨k - 1, by omega⟩
    have hes := ih (by omega) h2 k (by omega)
    have hsym : s.current.lexeme.symbol? = some .power := Lexeme.symbol?_eq_some.2 ht
    change Parse.unary a (expressionWithin a n) u = _ at hok
    rw [exponents, symbol?_bind, if_pos hsym, bind_of_ok hnext.advance, bind_of_ok hok,
      bind_of_ok hcount, bind_of_ok hes, pure_apply]

/-- **A chain of powers is accepted.** -/
theorem accepts_powers {es : List Expr} (h : PowerOperand a ts e)
    (hus : Raised (PowerOperand a) us es) : Accepts a .power (ts ++ us) (Expr.powers e es) := by
  intro n s s' hn htook hstop
  rw [h.balanced.peak_append] at hn
  rw [Expr.nodeCount_powers, Nat.add_assoc] at htook
  obtain ⟨u, h1, h2⟩ := htook.split h.balanced
  have hfirst := h.accepts n s u (by omega) h1 (hus.stops h2 hstop)
  have hes := exponents_of_raised (n := n) hus (by omega) h2 hstop (Nat.lt_succ_self _)
  change Parse.unary a (expressionWithin a n) s = _ at hfirst
  change Parse.power a (expressionWithin a n) s = _
  rw [Parse.power, bind_of_ok hfirst, steps_bind, bind_of_ok hes, pure_apply]

/-- An expression one level down. -/
theorem nested_of_accepts {n : Nat} (h : Accepts a .sum ts e) (hn : peak ts ≤ n)
    (hin : Inside a s ts e.nodeCount s') (hstop : Level.sum.Stops s'.current) :
    nested a (expressionWithin a (n + 1)) s = .ok e s' :=
  nested_eq_ok_iff.2 ⟨hin.room, s'.down, h n s.down s'.down hn hin.took hstop, (up_down s').symm⟩

/-- A bracket that closes ends every expression. -/
theorem Construct.stops {c : Construct} {t : Token} (h : t.lexeme = .symbol c.closing) :
    Level.sum.Stops t := by
  intro o ho
  rw [h]
  cases c <;> revert ho <;> cases o <;> simp [Level.continuing, Construct.closing]

/-- An expression in brackets. -/
theorem bracketed_of_accepts {c : Construct} {o d : Token} {n : Nat} (h : Accepts a .sum ts e)
    (hb : Balanced ts) (hbr : Brackets o d) (hd : d.lexeme = .symbol c.closing)
    (hn : peak (o :: ts ++ [d]) ≤ n) (htook : Took a s (o :: ts ++ [d]) e.nodeCount s') :
    s.current = o ∧ ∃ t t', advance a s = .ok () t ∧
      nested a (expressionWithin a n) t = .ok e t' ∧ close a c t' = .ok () s' := by
  -- the bracket pays for the step of fuel that the expression inside takes
  rw [hb.peak_bracketed hbr] at hn
  obtain ⟨n, rfl⟩ : ∃ n', n = n' + 1 := ⟨n - 1, by omega⟩
  obtain ⟨t, t', hcurrent, hnext, hin, rfl, hnext'⟩ := (took_bracketed_iff hb hbr).1 htook
  exact ⟨hcurrent, t, t', hnext.advance,
    nested_of_accepts h (by omega) hin (Construct.stops hd), hnext'.close hd⟩

/-- An argument of a call is accepted. -/
structure Argument (a : Assignment) (ts : List Token) (e : Expr) : Prop where
  balanced : Balanced ts
  begins : ∃ t us, ts = t :: us ∧ Level.sum.Begins t
  accepts : Accepts a .sum ts e

/-- Arguments with commas between them. -/
theorem arguments_of_inside {args : List (List Token × Expr)} {n k : Nat} (hne : args ≠ [])
    (hsep : Separated (args.map (·.1)) us) (hargs : ∀ x ∈ args, Argument a x.1 x.2)
    (hn : peak us ≤ n) (hin : Inside a s us (Expr.nodeCounts (args.map (·.2))) s')
    (hclose : s'.current.lexeme = .symbol .closeParen) (hk : s.upcoming.length < k) :
    arguments a (expressionWithin a (n + 1)) k s = .ok (args.map (·.2)) s' := by
  obtain ⟨k, rfl⟩ : ∃ k', k = k' + 1 := ⟨k - 1, by omega⟩
  induction args generalizing s us k with
  | nil => exact absurd rfl hne
  | cons x args ih =>
    obtain ⟨hb, -, hacc⟩ := hargs x (by simp)
    cases args with
    | nil =>
      obtain rfl : us = x.1 := by cases hsep; rfl
      have hok := nested_of_accepts hacc hn (by simpa [Expr.nodeCounts] using hin)
        (Construct.stops (c := .call) hclose)
      have hcomma : s'.current.lexeme.symbol? ≠ some .comma := by
        simp [hclose, Lexeme.symbol?]
      rw [arguments, bind_of_ok hok, symbol?_bind, if_neg hcomma, pure_apply]
      rfl
    | cons y args =>
      obtain ⟨t, vs, ht, hsep', rfl⟩ : ∃ t vs, t.lexeme = .symbol .comma ∧
          Separated ((y :: args).map (·.1)) vs ∧ us = x.1 ++ t :: vs := by
        cases hsep with
        | more ht h => exact ⟨_, _, ht, h, rfl⟩
      have hplain : t.IsPlain := .of_symbol ht (by decide)
      rw [hb.peak_append, peak_cons hplain] at hn
      have hlen := hin.took.length_upcoming
      obtain ⟨u, hin1, hin2⟩ := hin.split hb
      obtain ⟨rfl, u', hnext, hin3⟩ := hin2.uncons hplain
      -- a comma ends an argument as a bracket does
      have hstop : Level.sum.Stops u.current := by
        intro o ho'
        rw [ht]
        revert ho'
        cases o <;> simp [Level.continuing]
      have hok := nested_of_accepts (n := n) hacc (by omega) hin1 hstop
      have hlen3 := hin3.took.length_upcoming
      simp only [down, List.length_append, List.length_cons] at hlen hlen3
      obtain ⟨k, rfl⟩ : ∃ k', k = k' + 1 := ⟨k - 1, by omega⟩
      have hrest := ih (by simp) hsep' (fun z hz => hargs z (by simp [hz])) (by omega) hin3 k
        (by omega)
      have hcomma : u.current.lexeme.symbol? = some .comma := Lexeme.symbol?_eq_some.2 ht
      rw [arguments, bind_of_ok hok, symbol?_bind, if_pos hcomma, bind_of_ok hnext.advance,
        bind_of_ok hrest, pure_apply]
      rfl

/-- The arguments of a call are not mistaken for none. -/
theorem callArguments_of_inside {args : List (List Token × Expr)} {n : Nat} (hne : args ≠ [])
    (hsep : Separated (args.map (·.1)) us) (hargs : ∀ x ∈ args, Argument a x.1 x.2)
    (hn : peak us ≤ n) (hin : Inside a s us (Expr.nodeCounts (args.map (·.2))) s')
    (hclose : s'.current.lexeme = .symbol .closeParen) :
    callArguments a (expressionWithin a (n + 1)) s = .ok (args.map (·.2)) s' := by
  -- no expression begins with a bracket that closes
  have hfirst : s.current.lexeme ≠ .symbol .closeParen := by
    obtain ⟨x, args, rfl⟩ := List.exists_cons_of_ne_nil hne
    obtain ⟨t, ts, hx, -, ht⟩ := (hargs x (by simp)).begins
    obtain ⟨vs, rfl⟩ : ∃ vs, us = t :: vs := by
      rw [List.map_cons, hx] at hsep
      exact hsep.head_eq
    have hcurrent : s.current = t := hin.took.head_eq
    rw [hcurrent]
    intro h
    simpa [Level.beginning] using ht _ h
  have hsym : s.current.lexeme.symbol? ≠ some .closeParen := mt Lexeme.symbol?_eq_some.1 hfirst
  rw [callArguments, symbol?_bind, if_neg hsym, steps_bind]
  exact arguments_of_inside hne hsep hargs hn hin hclose (Nat.lt_succ_self _)

/-- A call, of which the name has been taken. -/
theorem call_of_inside (sp : Span) {b : Builtin} {name : String} {n : Nat} {o d : Token}
    {args : List (List Token × Expr)} (hb : Builtin.ofName? name = some b)
    (hcount : b.arity.accepts args.length = true) (ho : o.lexeme = .symbol .openParen)
    (hsep : Separated (args.map (·.1)) us) (hargs : ∀ x ∈ args, Argument a x.1 x.2)
    (hd : d.lexeme = .symbol .closeParen) (hn : peak (o :: us ++ [d]) ≤ n)
    (htook : Took a s (o :: us ++ [d]) (Expr.nodeCounts (args.map (·.2)) + 1) s') :
    call a (expressionWithin a n) sp name s =
      .ok (.call { sp with stop := s'.lastStop } sp name (args.map (·.2))) s' := by
  have hne : args ≠ [] := by
    rintro rfl
    simp [Builtin.accepts_zero] at hcount
  have hbal : Balanced us := hsep.balanced fun ts hts => by
    obtain ⟨x, hx, rfl⟩ := List.mem_map.1 hts
    exact (hargs x hx).balanced
  have hround : Brackets o d := .of_round ho hd
  rw [hbal.peak_bracketed hround] at hn
  obtain ⟨n, rfl⟩ : ∃ n', n = n' + 1 := ⟨n - 1, by omega⟩
  -- the node is counted last, behind the bracket that closes
  obtain ⟨u, h1, hnode, -⟩ := htook.unnode (hbal.bracketed hround)
  obtain ⟨t, t', rfl, hnext, hin, rfl, hnext'⟩ := (took_bracketed_iff hbal hround).1 h1
  have harguments := callArguments_of_inside (n := n) hne hsep hargs (by omega) hin hd
  have harity : lift (checkArity sp name b (args.map (·.2)).length) u = .ok () u :=
    lift_eq_ok.2 ⟨by simp [checkArity, hcount], rfl⟩
  rw [call]
  simp only [hb]
  rw [bind_of_ok hnext.advance, bind_of_ok harguments, bind_of_ok (hnext'.close (c := .call) hd),
    bind_of_ok harity, bind_of_ok hnode, lastStop_bind, pure_apply]

end FormCalc
