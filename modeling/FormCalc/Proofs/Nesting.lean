import FormCalc.Proofs.Grammar

/-!
# Open brackets

* `Token.IsPlain`, `Brackets`: tokens that are no brackets, and a bracket with the one that
  closes it.
* `peak`: the largest number of brackets that are open at once.
* `Balanced`: whatever stands around the tokens, they close each bracket that they open and no
  other one.
* `Derives.balanced`: the tokens of an expression are balanced.
-/

namespace FormCalc

namespace Token

/-- The brackets that open: groups and arguments, and indices. -/
def opens (t : Token) : Bool :=
  t.lexeme = .symbol .openParen || t.lexeme = .symbol .openBracket

/-- The brackets that close. -/
def closes (t : Token) : Bool :=
  t.lexeme = .symbol .closeParen || t.lexeme = .symbol .closeBracket

/-- The token is no bracket. -/
structure IsPlain (t : Token) : Prop where
  opens : t.opens = false
  closes : t.closes = false

variable {t : Token}

theorem IsPlain.of_symbol {s : Symbol} (h : t.lexeme = .symbol s)
    (hs : s ∉ [Symbol.openParen, .closeParen, .openBracket, .closeBracket]) : t.IsPlain := by
  simp only [List.mem_cons, List.not_mem_nil, or_false, not_or] at hs
  constructor <;> simp [Token.opens, Token.closes, h, hs]

/-- No operator is a bracket. -/
theorem IsPlain.of_sign {op : ArithOp} (h : t.lexeme = .symbol op.sign) : t.IsPlain :=
  .of_symbol h (by cases op <;> decide)

theorem IsPlain.of_ident {name : List Char} (h : t.lexeme = .ident name) : t.IsPlain := by
  constructor <;> simp [Token.opens, Token.closes, h]

theorem IsPlain.of_number {n : Number.Numeral} (h : t.lexeme = .number n) : t.IsPlain := by
  constructor <;> simp [Token.opens, Token.closes, h]

/-- No string literal is a bracket. -/
theorem IsPlain.of_value {s : List Char} (h : t.lexeme.value = .ok s) : t.IsPlain := by
  have hne : ∀ o, t.lexeme ≠ .symbol o := by
    intro o ho
    rw [ho] at h
    cases h
  constructor <;> simp [Token.opens, Token.closes, hne]

end Token

/-- A bracket that opens, and one that closes. -/
structure Brackets (o c : Token) : Prop where
  opens : o.opens = true
  closes : c.closes = true
  not_opens : c.opens = false

namespace Brackets

variable {o c : Token}

theorem of_round (ho : o.lexeme = .symbol .openParen) (hc : c.lexeme = .symbol .closeParen) :
    Brackets o c := by
  constructor <;> simp [Token.opens, Token.closes, ho, hc]

theorem of_square (ho : o.lexeme = .symbol .openBracket)
    (hc : c.lexeme = .symbol .closeBracket) : Brackets o c := by
  constructor <;> simp [Token.opens, Token.closes, ho, hc]

end Brackets

/-- The number of open brackets behind a token. -/
def openBehind (d : Nat) (t : Token) : Nat :=
  if t.opens then d + 1 else if t.closes then d - 1 else d

/-- The largest number of brackets that are open at once, if `d` are open before the tokens. -/
def peakFrom (d : Nat) : List Token → Nat
  | [] => d
  | t :: ts => max d (peakFrom (openBehind d t) ts)

/-- The largest number of brackets that are open at once. -/
def peak (ts : List Token) : Nat := peakFrom 0 ts

@[simp] theorem peak_nil : peak [] = 0 := rfl

theorem Token.IsPlain.openBehind_eq {t : Token} (h : t.IsPlain) (d : Nat) :
    openBehind d t = d := by
  simp [openBehind, h.opens, h.closes]

theorem le_peakFrom (d : Nat) (ts : List Token) : d ≤ peakFrom d ts := by
  cases ts with
  | nil => exact Nat.le_refl _
  | cons t ts => exact Nat.le_max_left _ _

/-- A token opens at most one bracket. -/
theorem peakFrom_le_add_length (d : Nat) (ts : List Token) : peakFrom d ts ≤ d + ts.length := by
  induction ts generalizing d with
  | nil => simp [peakFrom]
  | cons t ts ih =>
    have h := ih (openBehind d t)
    have hb : openBehind d t ≤ d + 1 := by
      unfold openBehind
      grind
    simp only [peakFrom, List.length_cons]
    omega

theorem peak_le_length (ts : List Token) : peak ts ≤ ts.length := by
  have h := peakFrom_le_add_length 0 ts
  rwa [Nat.zero_add] at h

/-- A token that is no bracket does not count. -/
theorem peak_cons {t : Token} (h : t.IsPlain) (ts : List Token) : peak (t :: ts) = peak ts := by
  simp [peak, peakFrom, h.openBehind_eq]

theorem peak_singleton {t : Token} (h : t.IsPlain) : peak [t] = 0 :=
  peak_cons h []

/-- The tokens close each bracket that they open and no other one. -/
def Balanced (ts : List Token) : Prop :=
  ∀ d us, peakFrom d (ts ++ us) = max (d + peak ts) (peakFrom d us)

theorem Balanced.peak_append {ts : List Token} (h : Balanced ts) (us : List Token) :
    peak (ts ++ us) = max (peak ts) (peak us) := by
  have := h 0 us
  rwa [Nat.zero_add] at this

theorem Balanced.append {ts us : List Token} (ht : Balanced ts) (hu : Balanced us) :
    Balanced (ts ++ us) := by
  intro d vs
  rw [List.append_assoc, ht, hu, ht.peak_append]
  omega

theorem balanced_nil : Balanced [] := by
  intro d us
  have := le_peakFrom d us
  rw [peak_nil, List.nil_append]
  omega

/-- A token that is no bracket is balanced. -/
theorem Token.IsPlain.balanced {t : Token} (h : t.IsPlain) : Balanced [t] := by
  intro d us
  have := le_peakFrom d us
  rw [peak_singleton h, List.singleton_append, peakFrom, h.openBehind_eq]
  omega

theorem Balanced.cons {t : Token} {ts : List Token} (ht : t.IsPlain) (h : Balanced ts) :
    Balanced (t :: ts) :=
  ht.balanced.append h

/-- What follows an open bracket, up to the bracket that closes it. -/
theorem Balanced.peakFrom_bracketed {ts : List Token} (h : Balanced ts) {o c : Token}
    (hb : Brackets o c) (d : Nat) (us : List Token) :
    peakFrom d (o :: ts ++ [c] ++ us) = max (d + (peak ts + 1)) (peakFrom d us) := by
  have hus := le_peakFrom d us
  have hopen : openBehind d o = d + 1 := by simp [openBehind, hb.opens]
  have hclose : openBehind (d + 1) c = d := by simp [openBehind, hb.closes, hb.not_opens]
  -- inside, one more bracket is open
  have hts := h (d + 1) (c :: us)
  simp only [peakFrom, hclose] at hts
  simp only [List.cons_append, List.append_assoc, List.nil_append, peakFrom, hopen, hts]
  omega

theorem Balanced.peak_bracketed {ts : List Token} (h : Balanced ts) {o c : Token}
    (hb : Brackets o c) : peak (o :: ts ++ [c]) = peak ts + 1 := by
  have := h.peakFrom_bracketed hb 0 []
  simpa [peak, peakFrom] using this

/-- **Brackets around balanced tokens are balanced.** -/
theorem Balanced.bracketed {ts : List Token} (h : Balanced ts) {o c : Token}
    (hb : Brackets o c) : Balanced (o :: ts ++ [c]) := by
  intro d us
  rw [h.peakFrom_bracketed hb, h.peak_bracketed hb]

/-- Arguments are balanced together if each is. -/
theorem Separated.balanced {tss : List (List Token)} {us : List Token} (h : Separated tss us)
    (hb : ∀ ts ∈ tss, Balanced ts) : Balanced us := by
  induction h with
  | none => exact balanced_nil
  | one ts => exact hb ts (by simp)
  | @more ts us vs rest t ht _ ih =>
    -- a comma stands on the level of the arguments
    have hcomma : t.IsPlain := .of_symbol ht (by decide)
    exact (hb _ (by simp)).append (.cons hcomma (ih fun vs hvs => hb vs (by simp [hvs])))

/-- **The tokens of an expression are balanced.** -/
theorem Derives.balanced {rule : NodeRule} {l : Level} {ts : List Token} {e : Expr}
    (h : Derives rule l ts e) : Balanced ts := by
  induction h with
  | operand _ _ ih => exact ih
  | join _ _ _ ht _ _ ihl ihr | power _ ht _ _ ihl ihr => exact ihl.append (.cons (.of_sign ht) ihr)
  | negate ht _ _ ih => exact .cons (.of_symbol ht (by decide)) ih
  | field _ hd hn _ ih =>
    exact ih.append (.cons (.of_symbol hd (by decide)) (Token.IsPlain.of_ident hn).balanced)
  | index _ ho _ hc _ iht ihi => exact iht.append (ihi.bracketed (.of_square ho hc))
  | number ht _ => exact (Token.IsPlain.of_number ht).balanced
  | text ht _ => exact (Token.IsPlain.of_value ht).balanced
  | var ht _ => exact (Token.IsPlain.of_ident ht).balanced
  | group ho _ hc ih => exact ih.bracketed (.of_round ho hc)
  | call hn ho hargs _ hc _ ih =>
    refine .cons (.of_ident hn) ((hargs.balanced fun ts hts => ?_).bracketed (.of_round ho hc))
    obtain ⟨a, ha, rfl⟩ := List.mem_map.1 hts
    exact ih a ha

end FormCalc
