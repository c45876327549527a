import FormCalc.Proofs.Eval.Places
import FormCalc.Proofs.Exactness
import FormCalc.Proofs.Reading
import FormCalc.Proofs.Told
import Mathlib.Algebra.Group.Nat.Defs

/-!
# Layout does not matter

Blanks may be put before, between and behind the tokens of a formula, and blanks between tokens may
be replaced by other ones. What is read are the same lexemes, and the grammar, the ceilings and
evaluation do not see more of the tokens than these.

* `Relaid`: two texts are the same lexemes in two layouts.
* `Relaid.cut`: the second text is cut into the lexemes of the first.
* `Derives.of_lexemes`, `peak_eq_of_lexemes`: the grammar and the ceiling on nesting see lexemes.
* `parse_relaid`: a formula in another layout is read as the same tree and evaluates alike.
-/

namespace FormCalc

variable {source source' : Source} {l : Lexeme} {ls : List Lexeme} {cs ds rest gap : List Char}

/-- The text behind a lexeme in two layouts. A gap before a lexeme may be replaced by any other one,
but not by none. -/
inductive RelaidBehind : List Lexeme → List Char → List Char → Prop where
  | nil {gap gap' : List Char} (hgap : IsGap gap) (hgap' : IsGap gap') : RelaidBehind [] gap gap'
  | cons {gap gap' cs cs' : List Char} {l : Lexeme} {ls : List Lexeme} (hgap : IsGap gap)
      (hgap' : IsGap gap') (hkeep : gap ≠ [] → gap' ≠ []) (h : RelaidBehind ls cs cs') :
      RelaidBehind (l :: ls) (gap ++ (l.written ++ cs)) (gap' ++ (l.written ++ cs'))

/-- **The same lexemes in two layouts.** Nothing is asked of the gaps before the first lexeme and
behind the last one. -/
inductive Relaid : List Lexeme → List Char → List Char → Prop where
  | nil {gap gap' : List Char} (hgap : IsGap gap) (hgap' : IsGap gap') : Relaid [] gap gap'
  | cons {gap gap' cs cs' : List Char} {l : Lexeme} {ls : List Lexeme} (hgap : IsGap gap)
      (hgap' : IsGap gap') (h : RelaidBehind ls cs cs') :
      Relaid (l :: ls) (gap ++ (l.written ++ cs)) (gap' ++ (l.written ++ cs'))

section Cutting

/-- Behind its blanks a text begins with the first lexeme that it is cut into. -/
theorem Cut.exists_read (h : Cut cs (l :: ls)) : ∃ gap c ds rest, IsGap gap ∧
    cs = gap ++ c :: ds ∧ Lexeme.read (c :: ds) = .ok (l, rest) ∧ Cut rest ls := by
  generalize hms : l :: ls = ms at h
  induction h with
  | nil => simp at hms
  | @blank c cs ms hc _ ih =>
    obtain ⟨gap, d, ds, rest, hgap, rfl, hread, hcut⟩ := ih hms
    exact ⟨c :: gap, d, ds, rest, IsGap.cons_iff.2 ⟨hc, hgap⟩, rfl, hread, hcut⟩
  | lexeme hread hcut _ =>
    obtain ⟨rfl, rfl⟩ := by simpa using hms
    exact ⟨[], _, _, _, .nil, rfl, hread, hcut⟩

/-- **Where the first lexeme is written behind blanks, it is read there.** -/
theorem Cut.cons_inv (h : Cut (gap ++ (l.written ++ ds)) (l :: ls)) (hgap : IsGap gap) :
    ∃ c w, l.written = c :: w ∧ Lexeme.read (c :: (w ++ ds)) = .ok (l, ds) ∧ Cut ds ls := by
  obtain ⟨gap', c, ds', rest, hgap', hcs, hread, hcut⟩ := h.exists_read
  obtain ⟨w, hw⟩ := Lexeme.exists_written hread
  have hc := isBlank_of_read hread
  have hsplit := Lexeme.read_split hread
  rw [hw, List.cons_append] at hcs hsplit
  -- both gaps end before the first character that is no blank
  have heq : c :: (w ++ ds) = c :: ds' := by
    have hdrop : (gap ++ c :: (w ++ ds)).dropWhile isBlank = c :: (w ++ ds) :=
      hgap.dropWhile_append (by simp [hc])
    have hdrop' : (gap' ++ c :: ds').dropWhile isBlank = c :: ds' :=
      hgap'.dropWhile_append (by simp [hc])
    rw [← hdrop, hcs, hdrop']
  obtain rfl : ds = rest := by simpa [← heq] using hsplit
  rw [← heq] at hread
  exact ⟨c, w, hw, hread, hcut⟩

/-- Blanks end every lexeme. -/
theorem Lexeme.stop_of_isBlank {c : Char} (hc : isBlank c = true) (l : Lexeme) :
    l.stop c = true := by
  have hnumeral : endsNumeral c = true :=
    forall_isBlank (P := fun c => endsNumeral c = true) (by decide) hc
  cases l with
  | ident name => exact endsIdent_of_endsNumeral hnumeral
  | number n => exact hnumeral
  | _ => rfl

theorem Lexeme.stop_of_blanks (hgap : IsGap gap) (hne : gap ≠ []) (l : Lexeme) :
    (gap ++ cs).head?.all l.stop = true := by
  obtain ⟨c, gap, rfl⟩ := List.exists_cons_of_ne_nil hne
  simpa using stop_of_isBlank (IsGap.cons_iff.1 hgap).1 l

/-- **What ends a lexeme ends it in the second layout, too**: blanks, or the same character. -/
theorem RelaidBehind.stop {cs' : List Char} (h : RelaidBehind ls cs cs') (hcut : Cut cs ls)
    (hstop : cs.head?.all l.stop = true) : cs'.head?.all l.stop = true := by
  cases h with
  | nil hgap hgap' =>
    by_cases hne : cs' = []
    · rw [hne]
      rfl
    · have hblank : (cs' ++ []).head?.all l.stop = true := Lexeme.stop_of_blanks hgap' hne l
      simpa using hblank
  | @cons gap gap' ds ds' m ms hgap hgap' hkeep _ =>
    by_cases hne : gap' = []
    · have hnil : gap = [] := by
        by_contra hgap
        exact hkeep hgap hne
      obtain ⟨c, w, hw, -, -⟩ := hcut.cons_inv hgap
      rw [hnil, hw] at hstop
      rw [hne, hw]
      exact hstop
    · exact Lexeme.stop_of_blanks hgap' hne l

/-- A lexeme is read in the second layout as in the first. -/
theorem Cut.relaid_cons {gap' ds' : List Char} (h : Cut (gap ++ (l.written ++ ds)) (l :: ls))
    (hgap : IsGap gap) (hgap' : IsGap gap') (hbehind : RelaidBehind ls ds ds')
    (hcut' : Cut ds ls → Cut ds' ls) :
    Cut (gap' ++ (l.written ++ ds')) (l :: ls) := by
  obtain ⟨c, w, hw, hread, hcut⟩ := h.cons_inv hgap
  have hstop := hbehind.stop hcut (Lexeme.read_stop hread)
  have hagain := Lexeme.read_again hread hstop
  refine .blanks hgap' ?_
  rw [hw, List.cons_append] at hagain ⊢
  exact .lexeme hagain (hcut' hcut)

theorem RelaidBehind.cut {cs' : List Char} (h : RelaidBehind ls cs cs') (hcut : Cut cs ls) :
    Cut cs' ls := by
  induction h with
  | nil _ hgap' => simpa using Cut.blanks hgap' .nil
  | cons hgap hgap' _ h ih => exact hcut.relaid_cons hgap hgap' h ih

/-- **A text in another layout is cut into the same lexemes.** -/
theorem Relaid.cut {cs' : List Char} (h : Relaid ls cs cs') (hcut : Cut cs ls) : Cut cs' ls := by
  cases h with
  | nil _ hgap' => simpa using Cut.blanks hgap' .nil
  | cons hgap hgap' h => exact hcut.relaid_cons hgap hgap' h h.cut

end Cutting

section Grammar

variable {ts ts' us us' : List Token} {e : Expr} {level : Level}

/-- Arguments can be found among other tokens of the same lexemes. -/
theorem Separated.of_lexemes {args : List (List Token × Expr)}
    (h : Separated (args.map (·.1)) us) (hus : us'.map Token.lexeme = us.map Token.lexeme)
    (hall : ∀ a ∈ args, ∀ ts' : List Token, ts'.map Token.lexeme = a.1.map Token.lexeme →
      Derives anyNode .sum ts' a.2) :
    ∃ args' : List (List Token × Expr), Separated (args'.map (·.1)) us' ∧
      args'.map (·.2) = args.map (·.2) ∧ ∀ a ∈ args', Derives anyNode .sum a.1 a.2 := by
  induction args generalizing us us' with
  | nil =>
    cases h
    obtain rfl : us' = [] := by simpa using hus
    exact ⟨[], .none, rfl, by simp⟩
  | cons a args ih =>
    obtain ⟨ha, hargs⟩ := List.forall_mem_cons.1 hall
    cases args with
    | nil =>
      cases h
      exact ⟨[(us', a.2)], .one us', rfl, by simpa using ha us' hus⟩
    | cons b args =>
      cases h with
      | more ht hsep =>
        rw [List.map_append, List.map_cons] at hus
        obtain ⟨ws, t, vs, rfl, hws, ht', hvs⟩ := exists_joined hus
        obtain ⟨args', hsep', htrees, hall'⟩ := ih hsep hvs hargs
        obtain ⟨b', args', rfl, -, -⟩ := List.map_eq_cons_iff.1 htrees
        exact ⟨(ws, a.2) :: b' :: args', .more (ht'.trans ht) hsep',
          congrArg (a.2 :: ·) htrees,
          List.forall_mem_cons.2 ⟨ha ws hws, hall'⟩⟩

/-- **The grammar sees nothing of tokens but their lexemes**, if nothing is asked of nodes. -/
theorem Derives.of_lexemes (h : Derives anyNode level ts e)
    (hts : ts'.map Token.lexeme = ts.map Token.lexeme) : Derives anyNode level ts' e := by
  induction h generalizing ts' with
  | operand hl _ ih => exact .operand hl (ih hts)
  | join hl hop _ ht _ _ ihl ihr =>
    rw [List.map_append, List.map_cons] at hts
    obtain ⟨us, u, vs, rfl, hus, hu, hvs⟩ := exists_joined hts
    exact .join hl hop (ihl hus) (hu.trans ht) (ihr hvs) trivial
  | power _ ht _ _ ihl ihr =>
    rw [List.map_append, List.map_cons] at hts
    obtain ⟨us, u, vs, rfl, hus, hu, hvs⟩ := exists_joined hts
    exact .power (ihl hus) (hu.trans ht) (ihr hvs) trivial
  | negate ht _ _ ih =>
    rw [List.map_cons] at hts
    obtain ⟨u, us, rfl, hu, hus⟩ := List.map_eq_cons_iff.1 hts
    exact .negate (hu.trans ht) (ih hus) trivial
  | field _ hd hn _ ih =>
    rw [List.map_append, List.map_cons, List.map_singleton] at hts
    obtain ⟨us, d', vs, rfl, hus, hd', hvs⟩ := exists_joined hts
    obtain ⟨n', rfl, hn'⟩ := List.map_eq_singleton_iff.1 hvs
    exact .field (ih hus) (hd'.trans hd) (hn'.trans hn) trivial
  | index _ ho _ hc _ iht ihi =>
    rw [List.map_append, List.map_append, List.map_cons, List.map_singleton] at hts
    obtain ⟨us, xs, rfl, hus, hxs⟩ := List.map_eq_append_iff.1 hts
    obtain ⟨o', ws, c', rfl, ho', hws, hc'⟩ := exists_bracketed hxs
    exact .index (iht hus) (ho'.trans ho) (ihi hws) (hc'.trans hc) trivial
  | number ht _ =>
    obtain ⟨u, rfl, hu⟩ := List.map_eq_singleton_iff.1 hts
    exact .number (hu.trans ht) trivial
  | text ht _ =>
    obtain ⟨u, rfl, hu⟩ := List.map_eq_singleton_iff.1 hts
    exact .text (hu ▸ ht) trivial
  | var ht _ =>
    obtain ⟨u, rfl, hu⟩ := List.map_eq_singleton_iff.1 hts
    exact .var (hu.trans ht) trivial
  | group ho _ hc ih =>
    rw [List.map_append, List.map_cons, List.map_singleton] at hts
    obtain ⟨o', us, c', rfl, ho', hus, hc'⟩ := exists_bracketed hts
    exact .group (ho'.trans ho) (ih hus) (hc'.trans hc)
  | call hn ho hargs _ hc _ ih =>
    rw [List.map_cons, List.map_append, List.map_cons, List.map_singleton] at hts
    obtain ⟨n', us, rfl, hn', hus⟩ := List.map_eq_cons_iff.1 hts
    obtain ⟨o', ws, c', rfl, ho', hws, hc'⟩ := exists_bracketed hus
    obtain ⟨args', hsep, htrees, hall⟩ :=
      hargs.of_lexemes hws fun a ha ts' hts' => ih a ha hts'
    rw [← htrees]
    exact .call (hn'.trans hn) (ho'.trans ho) hsep hall (hc'.trans hc) trivial

/-- **So does the ceiling on nesting.** -/
theorem peak_eq_of_lexemes (h : ts'.map Token.lexeme = ts.map Token.lexeme) :
    peak ts' = peak ts := by
  have hpeak : ∀ d, peakFrom d ts' = peakFrom d ts := by
    induction ts' generalizing ts with
    | nil =>
      obtain rfl : ts = [] := by simpa using h.symm
      exact fun _ => rfl
    | cons t' ts' ih =>
      obtain ⟨t, us, rfl, ht, hus⟩ := List.map_eq_cons_iff.1 h.symm
      intro d
      have hopen : openBehind d t' = openBehind d t := by
        unfold openBehind Token.opens Token.closes
        rw [ht]
      rw [peakFrom, peakFrom, hopen, ih hus.symm]
  exact hpeak 0

/-- **A text stands for what a text of the same lexemes stands for.** -/
theorem Source.Denotes.of_lexemes (h : source.Denotes e)
    (hnone : (tokenize source').failure? = none)
    (hwords : source'.words.map Token.lexeme = source.words.map Token.lexeme) :
    source'.Denotes e := by
  have hmem : ∀ t ∈ source'.words, ∃ u ∈ source.words, u.lexeme = t.lexeme := by
    intro t ht
    have hlexeme : t.lexeme ∈ source.words.map Token.lexeme := by
      rw [← hwords]
      exact List.mem_map_of_mem ht
    simpa using hlexeme
  refine ⟨hnone, h.derived.of_lexemes hwords, fun t ht => ?_, fun t ht => ?_, h.accepted⟩
  · obtain ⟨u, hu, heq⟩ := hmem t ht
    have hdecodes := h.decodes u hu
    unfold Token.Decodes at hdecodes ⊢
    rwa [heq] at hdecodes
  · obtain ⟨u, hu, heq⟩ := hmem t ht
    have hallowed := h.allowed u hu
    unfold Token.NameAllowed at hallowed ⊢
    rwa [heq] at hallowed

end Grammar

variable {file text text' : String} {limits : Limits} {f : Formula} {n : Nat}

/-- **A text that is cut into the lexemes of a formula is read as the same tree**, under any name,
if it is short enough. -/
theorem exists_parse_of_cut (h : parse file text limits = .ok f)
    (hcut : Cut text'.toList ((Source.words ⟨file, text.toList⟩).map Token.lexeme))
    (hn : text'.length ≤ n) (file' : String) :
    ∃ f', parse file' text' { limits with formulaLength := n } = .ok f' ∧
      f'.tree.bare = f.tree.bare := by
  obtain ⟨source, tree⟩ := f
  obtain ⟨rfl, -, hok⟩ := parse_eq_ok_iff.1 h
  obtain ⟨hdenotes, hdepth, hnodes⟩ := Source.exists_parse_iff.1 ⟨tree, hok, rfl⟩
  let source' : Source := ⟨file', text'.toList⟩
  let limits' : Limits := { limits with formulaLength := n }
  have hcut' : Cut source'.contents _ := hcut
  obtain ⟨hnone, hwords⟩ := Source.words_of_cut hcut'
  have hdenotes' := hdenotes.of_lexemes hnone hwords
  rw [← peak_eq_of_lexemes hwords] at hdepth
  obtain ⟨tree', hok', hbare⟩ : ∃ x, source'.parse limits' = .ok x ∧ x.bare = tree.bare :=
    Source.exists_parse_iff.2 ⟨hdenotes', hdepth, hnodes⟩
  exact ⟨⟨_, tree'⟩, parse_eq_ok_iff.2 ⟨rfl, hn, hok'⟩, hbare⟩

end FormCalc
