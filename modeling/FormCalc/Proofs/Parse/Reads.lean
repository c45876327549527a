import FormCalc.Proofs.Parse.Run

/-!
# What a successful parse has read

Whatever a rule of the parser returns is a tree that the grammar derives from the tokens that were
taken, with every node in its place, no blocked name and every call accepted.

* `Reads`: a parser only returns what its level of the grammar derives.
* `expression_reads`: this holds of expressions. Each rule has a lemma, which assumes it of the
  parser for the expressions inside brackets.
-/

namespace FormCalc

open Progress

variable {a : Assignment} {s s' : Progress} {e : Expr}

/-- From `s` to `s'` the tokens of an expression of a level were taken and its nodes counted. -/
def Spells (a : Assignment) (l : Level) (s : Progress) (e : Expr) (s' : Progress) : Prop :=
  ∃ ts, Derives Expr.Sound l ts e ∧ Took a s ts e.nodeCount s'

/-- The parser only returns what the level derives. -/
def Reads (a : Assignment) (l : Level) (p : Parse Expr) : Prop :=
  ∀ s e s', s.Ended a → p s = .ok e s' → Spells a l s e s'

theorem Spells.ended {l : Level} (h : Spells a l s e s') (hs : s.Ended a) : s'.Ended a := by
  obtain ⟨ts, -, htook⟩ := h
  exact htook.ended hs

/-- An operand alone. -/
theorem Spells.operand {l m : Level} (hl : l.operand? = some m) (h : Spells a m s e s') :
    Spells a l s e s' := by
  obtain ⟨ts, hder, htook⟩ := h
  exact ⟨ts, .operand hl hder, htook⟩

open Parse

variable {p : Parse Expr}

/-- An expression one level down. -/
theorem nested_reads (hp : Reads a .sum p) (hs : s.Ended a) (h : nested a p s = .ok e s') :
    ∃ ts, Derives Expr.Sound .sum ts e ∧ Inside a s ts e.nodeCount s' := by
  obtain ⟨hd, t, hok, rfl⟩ := nested_eq_ok_iff.1 h
  obtain ⟨ts, hder, htook⟩ := hp s.down e t hs hok
  have hdepth : t.depth = s.depth + 1 := htook.depth
  have hdown : t.up.down = t := down_up (by omega)
  exact ⟨ts, hder, hd, hdown.symm ▸ htook⟩

/-- An expression in brackets. -/
theorem bracketed_reads {c : Construct} {t t' : Progress} {u : Unit} (hp : Reads a .sum p)
    (hs : s.Ended a) (hb : ∀ d, d.lexeme = .symbol c.closing → Brackets s.current d)
    (hn : s.Next t) (h : nested a p t = .ok e t') (hc : close a c t' = .ok u s') :
    ∃ ts d, d.lexeme = .symbol c.closing ∧ Derives Expr.Sound .sum ts e ∧
      Took a s (s.current :: ts ++ [d]) e.nodeCount s' := by
  obtain ⟨ts, hder, hin⟩ := nested_reads hp (hn.ended hs) h
  obtain ⟨hd, hn'⟩ := (close_eq_ok_iff (hin.ended (hn.ended hs))).1 hc
  exact ⟨ts, t'.current, hd, hder,
    (took_bracketed_iff hder.balanced (hb _ hd)).2 ⟨t, t', rfl, hn, hin, rfl, hn'⟩⟩

/-- Arguments with commas between them, one level down. -/
theorem arguments_reads (hp : Reads a .sum p) {n : Nat} {es : List Expr} (hs : s.Ended a)
    (h : arguments a p n s = .ok es s') :
    ∃ (args : List (List Token × Expr)) (us : List Token), es = args.map (·.2) ∧ es ≠ [] ∧
      Separated (args.map (·.1)) us ∧ (∀ x ∈ args, Derives Expr.Sound .sum x.1 x.2) ∧
      Inside a s us (Expr.nodeCounts es) s' := by
  induction n generalizing s es with
  | zero => simp [arguments] at h
  | succ n ih =>
    obtain ⟨e, t, h1, h⟩ := bind_eq_ok.1 h
    obtain ⟨ts, hder, hin⟩ := nested_reads hp hs h1
    have ht := hin.ended hs
    rw [symbol?_bind] at h
    split at h
    · rename_i hsym
      have hcomma := Lexeme.symbol?_eq_some.1 hsym
      obtain ⟨u, t', h2, h⟩ := bind_eq_ok.1 h
      obtain ⟨es', t'', h3, h⟩ := bind_eq_ok.1 h
      obtain ⟨rfl, rfl⟩ := pure_eq_ok.1 h
      have hn := (advance_eq_ok_iff ht (by simp [hcomma])).1 h2
      obtain ⟨args, us, rfl, hne, hsep, hall, hin'⟩ := ih (hn.ended ht) h3
      obtain ⟨x, args, rfl⟩ := List.exists_cons_of_ne_nil (by simpa using hne)
      refine ⟨(ts, e) :: x :: args, ts ++ t.current :: us, rfl, by simp, .more hcomma hsep,
        List.forall_mem_cons.2 ⟨hder, hall⟩, hin.room, ?_⟩
      -- the comma is taken on the level of the arguments
      have hplain : t.down.current.IsPlain := .of_symbol hcomma (by decide)
      have hn' : t.down.Next t'.down :=
        ⟨hn.upcoming, hn.stop, congrArg (· + 1) hn.depth, hn.nodes⟩
      exact hin.took.append hder.balanced (hn'.took_cons hplain hin'.took)
    · obtain ⟨rfl, rfl⟩ := pure_eq_ok.1 h
      refine ⟨[(ts, e)], ts, rfl, by simp, .one ts, by simpa using hder, ?_⟩
      simpa [Expr.nodeCounts] using hin

/-- A call, of which the name has been taken. -/
theorem call_reads (hp : Reads a .sum p) {t : Progress} {name : List Char} (hs : s.Ended a)
    (hname : s.current.lexeme = .ident name) (hallowed : String.ofList name ∉ blockedNames)
    (hn : s.Next t) (hopen : t.current.lexeme = .symbol .openParen)
    (h : call a p s.current.span (String.ofList name) t = .ok e s') :
    Spells a .primary s e s' := by
  have ht := hn.ended hs
  unfold call at h
  cases hb : Builtin.ofName? (String.ofList name) with
  | none => simp [hb] at h
  | some b =>
    simp only [hb, bind_eq_ok, lastStop_bind, pure_eq_ok] at h
    obtain ⟨_, t1, h1, es, t2, h2, _, t3, h3, _, t4, h4, _, t5, h5, rfl, rfl⟩ := h
    obtain ⟨harity, rfl⟩ := lift_eq_ok.1 h4
    have haccepts : b.arity.accepts es.length = true := by
      unfold checkArity at harity
      split at harity
      · assumption
      · simp at harity
    have hn1 := (advance_eq_ok_iff ht (by simp [hopen])).1 h1
    have ht1 := hn1.ended ht
    unfold callArguments at h2
    rw [symbol?_bind] at h2
    split at h2
    · -- no function accepts a call without arguments
      obtain ⟨rfl, rfl⟩ := pure_eq_ok.1 h2
      simp [Builtin.accepts_zero] at haccepts
    · rw [steps_bind] at h2
      obtain ⟨args, us, rfl, -, hsep, hall, hin⟩ := arguments_reads hp ht1 h2
      obtain ⟨hclose, hn3⟩ := (close_eq_ok_iff (hin.ended ht1)).1 h3
      have hbal : Balanced us := hsep.balanced fun ts hts => by
        obtain ⟨x, hx, rfl⟩ := List.mem_map.1 hts
        exact (hall x hx).balanced
      have hround : Brackets t.current t2.current := .of_round hopen hclose
      have hbracket := (took_bracketed_iff (a := a) hbal hround).2
        ⟨t1, t2, rfl, hn1, hin, rfl, hn3⟩
      have htook := hn.took_cons (.of_ident hname) (hbracket.node (hbal.bracketed hround) h5)
      refine ⟨_, .call hname hopen hsep hall hclose ⟨⟨rfl, ?_⟩, ?_, b, hb, haccepts⟩, htook⟩
      · rw [htook.lastStop_eq (by simp)]
        rfl
      · simpa [Expr.NameAllowed, Expr.name?] using hallowed

/-- A token that is a node is counted and then taken. -/
theorem took_leaf {t : Progress} {u : Unit} (hplain : s.current.IsPlain)
    (h : countNode a s = .ok u t) (hn : t.Next s') : Took a s [s.current] 1 s' := by
  have hcount := countNode_eq_ok_iff.1 h
  -- counting leaves the token in hand
  rw [← hcount.current_eq] at hplain ⊢
  exact hcount.append balanced_nil ((took_singleton_iff hplain).2 hn)

/-- A primary expression. -/
theorem primary_reads (hp : Reads a .sum p) : Reads a .primary (primary a p) := by
  intro s e s' hs h
  unfold primary at h
  rw [current_bind] at h
  cases hl : s.current.lexeme with
  | number n =>
    simp only [hl, bind_eq_ok, pure_eq_ok] at h
    obtain ⟨_, t, h1, _, t', h2, rfl, rfl⟩ := h
    have hcount := countNode_eq_ok_iff.1 h1
    have hcurrent := hcount.current_eq
    have hn := (advance_eq_ok_iff (hcount.ended hs) (by simp [hcurrent, hl])).1 h2
    exact ⟨_, .number hl (.of_unnamed rfl rfl), took_leaf (.of_number hl) h1 hn⟩
  | doubleQuoted body | singleQuoted body =>
    simp only [hl, bind_eq_ok, pure_eq_ok] at h
    obtain ⟨_, t, h1, value, t', h2, _, t'', h3, rfl, rfl⟩ := h
    obtain ⟨hvalue, rfl⟩ := lift_eq_ok.1 h2
    have hcount := countNode_eq_ok_iff.1 h1
    have hcurrent := hcount.current_eq
    have hn := (advance_eq_ok_iff (hcount.ended hs) (by simp [hcurrent, hl])).1 h3
    obtain ⟨cs, hcs, rfl⟩ : ∃ cs, s.current.lexeme.value = .ok cs ∧ String.ofList cs = value := by
      unfold Token.value at hvalue
      split at hvalue
      · exact ⟨_, by assumption, by simpa using hvalue⟩
      · simp at hvalue
    exact ⟨_, .text hcs (.of_unnamed rfl rfl), took_leaf (.of_value hcs) h1 hn⟩
  | ident name =>
    simp only [hl] at h
    obtain ⟨x, t, h1, h⟩ := bind_eq_ok.1 h
    obtain ⟨_, hl', hallowed, rfl, hn⟩ := (ident_eq_ok_iff hs).1 h1
    obtain rfl : name = _ := by simpa [hl] using hl'
    rw [symbol?_bind] at h
    split at h
    · -- the name has been checked before it turns out to be that of a function
      rename_i hopen
      exact call_reads hp hs hl hallowed hn (Lexeme.symbol?_eq_some.1 hopen) h
    · simp only [bind_eq_ok, pure_eq_ok] at h
      obtain ⟨_, t', h2, rfl, rfl⟩ := h
      have hident : s.current.IsPlain := .of_ident hl
      have htook := ((took_singleton_iff hident).2 hn).node hident.balanced h2
      refine ⟨_, .var hl ⟨rfl, ?_, trivial⟩, htook⟩
      simpa [Expr.NameAllowed, Expr.name?] using hallowed
  | symbol o =>
    cases o with
    | openParen =>
      simp only [hl, bind_eq_ok, pure_eq_ok] at h
      obtain ⟨_, t, h1, e, t', h2, _, t'', h3, rfl, rfl⟩ := h
      have hn := (advance_eq_ok_iff hs (by simp [hl])).1 h1
      obtain ⟨ts, d, hd, hder, htook⟩ :=
        bracketed_reads (c := .group) hp hs (fun d hd => .of_round hl hd) hn h2 h3
      exact ⟨_, .group hl hder hd, htook⟩
    | _ => simp [hl] at h
  | eof => simp [hl] at h

/-- A field behind a target. -/
theorem field_reads {t t1 t2 t3 : Progress} {ts : List Token} {target : Expr} {name : List Char}
    {u : Unit} (hder : Derives Expr.Sound .reference ts target)
    (htook : Took a s ts target.nodeCount t) (hdot : t.current.lexeme = .symbol .dot)
    (hname : t1.current.lexeme = .ident name) (hallowed : String.ofList name ∉ blockedNames)
    (hn1 : t.Next t1) (hn2 : t1.Next t2) (h : countNode a t2 = .ok u t3) :
    Spells a .reference s (.field { target.span with stop := t3.lastStop } target t1.current.span
      (String.ofList name)) t3 := by
  have hident : t1.current.IsPlain := .of_ident hname
  have hname' := ((took_singleton_iff hident).2 hn2).node hident.balanced h
  have hfield := htook.append hder.balanced (hn1.took_cons (.of_symbol hdot (by decide)) hname')
  refine ⟨ts ++ [t.current, t1.current],
    .field hder hdot hname ⟨⟨by simp, ?_⟩, ?_, trivial⟩, hfield⟩
  · rw [hfield.lastStop_eq (by simp)]
  · simpa [Expr.NameAllowed, Expr.name?] using hallowed

/-- An index behind a target. -/
theorem index_reads {t t3 t4 : Progress} {ts us : List Token} {d : Token} {target i : Expr}
    {u : Unit} (hder : Derives Expr.Sound .reference ts target)
    (htook : Took a s ts target.nodeCount t) (hopen : t.current.lexeme = .symbol .openBracket)
    (hder' : Derives Expr.Sound .sum us i) (hd : d.lexeme = .symbol .closeBracket)
    (htook' : Took a t (t.current :: us ++ [d]) i.nodeCount t3)
    (h : countNode a t3 = .ok u t4) :
    Spells a .reference s (.index { target.span with stop := t4.lastStop } target i) t4 := by
  have hbal : Balanced (t.current :: us ++ [d]) :=
    hder'.balanced.bracketed (.of_square hopen hd)
  have hindex := htook.append hder.balanced (htook'.node hbal h)
  refine ⟨_, .index hder hopen hder' hd (.of_unnamed ?_ rfl), hindex⟩
  simp only [Expr.Placed]
  rw [hindex.lastStop_eq (by simp)]

/-- The fields and indices behind a target that has been read. -/
theorem references_reads (hp : Reads a .sum p) {n : Nat} {target : Expr} {t : Progress}
    (hs : s.Ended a) (htarget : Spells a .reference s target t)
    (h : references a p n target t = .ok e s') : Spells a .reference s e s' := by
  induction n generalizing target t with
  | zero =>
    obtain ⟨rfl, rfl⟩ := pure_eq_ok.1 h
    exact htarget
  | succ n ih =>
    have ht := htarget.ended hs
    obtain ⟨ts, hder, htook⟩ := htarget
    unfold references at h
    rw [symbol?_bind] at h
    cases hsym : t.current.lexeme.symbol? with
    | none =>
      simp only [hsym, pure_eq_ok] at h
      obtain ⟨rfl, rfl⟩ := h
      exact ⟨ts, hder, htook⟩
    | some o =>
      have ho := Lexeme.symbol?_eq_some.1 hsym
      cases o with
      | dot =>
        simp only [hsym, bind_eq_ok, lastStop_bind] at h
        obtain ⟨_, t1, h1, x, t2, h2, _, t3, h3, h⟩ := h
        have hn1 := (advance_eq_ok_iff ht (by simp [ho])).1 h1
        obtain ⟨name, hname, hallowed, rfl, hn2⟩ := (ident_eq_ok_iff (hn1.ended ht)).1 h2
        exact ih (field_reads hder htook ho hname hallowed hn1 hn2 h3) h
      | openBracket =>
        simp only [hsym, bind_eq_ok, lastStop_bind] at h
        obtain ⟨_, t1, h1, i, t2, h2, _, t3, h3, _, t4, h4, h⟩ := h
        have hn1 := (advance_eq_ok_iff ht (by simp [ho])).1 h1
        obtain ⟨us, d, hd, hder', htook'⟩ :=
          bracketed_reads (c := .index) hp ht (fun d hd => .of_square ho hd) hn1 h2 h3
        exact ih (index_reads hder htook ho hder' hd htook' h4) h
      | _ =>
        simp only [hsym, pure_eq_ok] at h
        obtain ⟨rfl, rfl⟩ := h
        exact ⟨ts, hder, htook⟩

/-- A primary expression with its fields and indices. -/
theorem postfixed_reads (hp : Reads a .sum p) : Reads a .reference (postfixed a p) := by
  intro s e s' hs h
  obtain ⟨target, t, h1, h⟩ := bind_eq_ok.1 h
  rw [steps_bind] at h
  exact references_reads hp hs ((primary_reads hp s target t hs h1).operand rfl) h

/-- A reference with a minus sign or without. -/
theorem unary_reads (hp : Reads a .sum p) : Reads a .unary (unary a p) := by
  intro s e s' hs h
  unfold unary at h
  rw [current_bind] at h
  split at h
  · rename_i hminus
    simp only [bind_eq_ok, lastStop_bind, pure_eq_ok] at h
    obtain ⟨_, t, h1, e, t', h2, _, t'', h3, rfl, rfl⟩ := h
    have hn := (advance_eq_ok_iff hs (by simp [hminus])).1 h1
    obtain ⟨ts, hder, htook⟩ := postfixed_reads hp t e t' (hn.ended hs) h2
    have hneg := hn.took_cons (.of_symbol hminus (by decide)) (htook.node hder.balanced h3)
    refine ⟨_, .negate hminus hder (.of_unnamed ?_ rfl), hneg⟩
    simp only [Expr.Placed]
    rw [hneg.lastStop_eq (by simp)]
    rfl
  · exact (postfixed_reads hp s e s' hs h).operand rfl

/-- An operator and the operand behind it, which is counted as the node of both. -/
theorem operand_reads {l : Level} {q : Parse Expr} {t t' : Progress} {op : ArithOp} {u u' : Unit}
    (hq : Reads a l q) (hs : s.Ended a) (hsign : s.current.lexeme = .symbol op.sign)
    (h1 : advance a s = .ok u t) (h2 : q t = .ok e t') (h3 : countNode a t' = .ok u' s') :
    ∃ us, Derives Expr.Sound l us e ∧ Took a s (s.current :: us) (e.nodeCount + 1) s' := by
  have hn := (advance_eq_ok_iff hs (by simp [hsign])).1 h1
  obtain ⟨us, hder, htook⟩ := hq t e t' (hn.ended hs) h2
  exact ⟨us, hder, hn.took_cons (.of_sign hsign) (htook.node hder.balanced h3)⟩

/-- The operands behind the first one of a chain of powers. -/
theorem exponents_reads (hp : Reads a .sum p) {n : Nat} {es : List Expr} (hs : s.Ended a)
    (h : exponents a p n s = .ok es s') :
    ∃ us, Raised (Derives Expr.Sound .unary) us es ∧
      Took a s us (Expr.nodeCounts es + es.length) s' := by
  induction n generalizing s es with
  | zero =>
    obtain ⟨rfl, rfl⟩ := pure_eq_ok.1 h
    exact ⟨[], .none, .refl a s⟩
  | succ n ih =>
    unfold exponents at h
    rw [symbol?_bind] at h
    split at h
    · rename_i hsym
      have hpow : s.current.lexeme = .symbol ArithOp.pow.sign := Lexeme.symbol?_eq_some.1 hsym
      simp only [bind_eq_ok, pure_eq_ok] at h
      obtain ⟨_, t1, h1, e, t2, h2, _, t3, h3, es', t4, h4, rfl, rfl⟩ := h
      obtain ⟨ts, hder, htook⟩ := operand_reads (unary_reads hp) hs hpow h1 h2 h3
      obtain ⟨us, hraised, htook'⟩ := ih (htook.ended hs) h4
      refine ⟨s.current :: (ts ++ us), .more hpow hder hraised, ?_⟩
      have hall := htook.append (.cons (.of_sign hpow) hder.balanced) htook'
      -- each sign is one node more than the operands have
      have hcount : Expr.nodeCounts (e :: es') + (e :: es').length =
          e.nodeCount + 1 + (Expr.nodeCounts es' + es'.length) := by
        simp only [Expr.nodeCounts, List.length_cons]
        omega
      rw [hcount]
      exact hall
    · obtain ⟨rfl, rfl⟩ := pure_eq_ok.1 h
      exact ⟨[], .none, .refl a s⟩

/-- A chain of powers. -/
theorem power_reads (hp : Reads a .sum p) : Reads a .power (power a p) := by
  intro s e s' hs h
  obtain ⟨first, t, h1, h⟩ := bind_eq_ok.1 h
  rw [steps_bind] at h
  obtain ⟨es, t', h2, h⟩ := bind_eq_ok.1 h
  obtain ⟨rfl, rfl⟩ := pure_eq_ok.1 h
  obtain ⟨ts, hder, htook⟩ := unary_reads hp s first t hs h1
  obtain ⟨us, hraised, htook'⟩ := exponents_reads hp (htook.ended hs) h2
  refine ⟨ts ++ us, hder.raised hraised, ?_⟩
  rw [Expr.nodeCount_powers, Nat.add_assoc]
  exact htook.append hder.balanced htook'

/-- The operators of a chain, and the operators of its level of the grammar. -/
theorem sumOperator?_eq_some_iff {o : Symbol} {op : ArithOp} :
    sumOperator? o = some op ↔ op ∈ Level.sum.operators ∧ o = op.sign := by
  cases o <;> cases op <;> simp [sumOperator?, Level.operators, ArithOp.sign]

theorem productOperator?_eq_some_iff {o : Symbol} {op : ArithOp} :
    productOperator? o = some op ↔ op ∈ Level.product.operators ∧ o = op.sign := by
  cases o <;> cases op <;> simp [productOperator?, Level.operators, ArithOp.sign]

/-- Operands behind the first one, joined from the left. -/
theorem chain_reads {l m : Level} {operator? : Symbol → Option ArithOp} {q : Parse Expr}
    (hl : l.operand? = some m)
    (hop : ∀ o op, operator? o = some op → op ∈ l.operators ∧ o = op.sign) (hq : Reads a m q)
    {n : Nat} {lhs : Expr} {t : Progress} (hs : s.Ended a) (hlhs : Spells a l s lhs t)
    (h : chain a operator? q n lhs t = .ok e s') : Spells a l s e s' := by
  induction n generalizing lhs t with
  | zero =>
    obtain ⟨rfl, rfl⟩ := pure_eq_ok.1 h
    exact hlhs
  | succ n ih =>
    have ht := hlhs.ended hs
    unfold chain at h
    rw [symbol?_bind] at h
    cases hsym : t.current.lexeme.symbol?.bind operator? with
    | none =>
      simp only [hsym, pure_eq_ok] at h
      obtain ⟨rfl, rfl⟩ := h
      exact hlhs
    | some op =>
      simp only [hsym, bind_eq_ok] at h
      obtain ⟨_, t1, h1, rhs, t2, h2, _, t3, h3, h⟩ := h
      refine ih ?_ h
      obtain ⟨ts, hder, htook⟩ := hlhs
      obtain ⟨o, ho, hoo⟩ := Option.bind_eq_some_iff.1 hsym
      obtain ⟨hmem, rfl⟩ := hop o op hoo
      have hsign := Lexeme.symbol?_eq_some.1 ho
      obtain ⟨us, hder', htook'⟩ := operand_reads hq ht hsign h1 h2 h3
      refine ⟨_, .join hl hmem hder hsign hder' (.of_unnamed rfl rfl), ?_⟩
      simpa [Expr.nodeCount, Nat.add_assoc] using htook.append hder.balanced htook'

/-- A chain of multiplications and divisions. -/
theorem product_reads (hp : Reads a .sum p) : Reads a .product (product a p) := by
  intro s e s' hs h
  obtain ⟨first, t, h1, h⟩ := bind_eq_ok.1 h
  rw [steps_bind] at h
  have hfirst := (power_reads hp s first t hs h1).operand (l := .product) rfl
  exact chain_reads rfl (fun o op => productOperator?_eq_some_iff.1) (power_reads hp) hs hfirst h

/-- A chain of additions and subtractions. -/
theorem sum_reads (hp : Reads a .sum p) : Reads a .sum (sum a p) := by
  intro s e s' hs h
  obtain ⟨first, t, h1, h⟩ := bind_eq_ok.1 h
  rw [steps_bind] at h
  have hfirst := (product_reads hp s first t hs h1).operand (l := .sum) rfl
  exact chain_reads rfl (fun o op => sumOperator?_eq_some_iff.1) (product_reads hp) hs hfirst h

/-- An expression, however deep brackets may be nested in it. -/
theorem expressionWithin_reads (n : Nat) : Reads a .sum (expressionWithin a n) := by
  -- each bracket takes one step of fuel; without fuel nothing is returned
  induction n with
  | zero => exact fun s e s' _ h => absurd h fault_ne_ok
  | succ n ih => exact sum_reads ih

/-- **The parser only returns what the grammar derives from the tokens that it takes.** -/
theorem expression_reads : Reads a .sum (expression a) := by
  intro s e s' hs h
  unfold expression at h
  rw [steps_bind] at h
  exact expressionWithin_reads _ s e s' hs h

end FormCalc
