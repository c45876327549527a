import FormCalc.Proofs.Lossless
import FormCalc.Proofs.Parse.Formula

/-!
# Where nodes lie

The span of a node reaches from the start of a token to the end of a token. The spans of the parts
of a node lie in it, in order, and between two of them there is a token.

* `InOrder`: tokens one behind the other; `Before`: tokens with another one in between.
* `Span.Reaches`: a span from the start of one of the tokens to the end of one of them.
* `Expr.Nested`: what is claimed of the spans in a node; `Derives.nested`: it holds of every node.
* `Span.Sits`: a span lies in the text between characters.
* `parse_spans`: the nodes of a formula.
-/

namespace FormCalc

/-- The span from the start of one to the end of another. -/
def Span.cover (sp sp' : Span) : Span :=
  { sp with stop := sp'.stop }

/-- Tokens that stand one behind the other. -/
structure InOrder (ts : List Token) : Prop where
  pairwise : ts.Pairwise fun t u => t.span.start < u.span.start ∧ t.span.stop ≤ u.span.start
  start_le_stop : ∀ t ∈ ts, t.span.start ≤ t.span.stop

/-- All of the first tokens end before the second ones begin. -/
def Before (ts us : List Token) : Prop :=
  ∀ t ∈ ts, ∀ u ∈ us, t.span.stop < u.span.start

/-- A span reaches from the start of one of the tokens to the end of this or of a later one. -/
def Span.Reaches (ts : List Token) (sp : Span) : Prop :=
  ∃ t ∈ ts, ∃ u ∈ ts, t.span.start ≤ u.span.start ∧ sp = t.span.cover u.span

variable {ts us vs : List Token} {t u d : Token} {sp sp' : Span} {e : Expr} {l : Level}

/-- The last span is that of a last token. -/
theorem exists_lastSpan (hne : ts ≠ []) : ∃ us u, ts = us ++ [u] ∧ lastSpan ts = u.span :=
  ⟨ts.dropLast, ts.getLast hne, (List.dropLast_concat_getLast hne).symm,
    by rw [lastSpan, List.getLast?_eq_some_getLast hne]; rfl⟩

namespace InOrder

theorem sublist (h : InOrder ts) (hsub : us.Sublist ts) : InOrder us :=
  ⟨h.pairwise.sublist hsub, fun t ht => h.start_le_stop t (hsub.subset ht)⟩

theorem left (h : InOrder (ts ++ us)) : InOrder ts :=
  h.sublist (List.sublist_append_left ts us)

theorem right (h : InOrder (ts ++ us)) : InOrder us :=
  h.sublist (List.sublist_append_right ts us)

theorem tail (h : InOrder (t :: ts)) : InOrder ts :=
  h.sublist (List.sublist_cons_self t ts)

/-- What stands behind other tokens begins where they have ended. -/
theorem stop_le (h : InOrder (ts ++ us)) (ht : t ∈ ts) (hu : u ∈ us) :
    t.span.start < u.span.start ∧ t.span.stop ≤ u.span.start :=
  (List.pairwise_append.1 h.pairwise).2.2 t ht u hu

/-- **A token between tokens keeps them apart.** -/
theorem before (h : InOrder (ts ++ d :: us)) : Before ts us := by
  intro t ht u hu
  have hleft := (h.stop_le ht (List.mem_cons_self (a := d) (l := us))).2
  have hright := ((List.pairwise_cons.1 h.right.pairwise).1 u hu).1
  omega

/-- The first token begins before all of them. -/
theorem firstSpan_le (h : InOrder ts) (ht : t ∈ ts) : (firstSpan ts).start ≤ t.span.start := by
  obtain ⟨u, us, rfl⟩ := List.exists_cons_of_ne_nil (List.ne_nil_of_mem ht)
  rcases List.mem_cons.1 ht with rfl | ht
  · exact Nat.le_refl _
  · exact Nat.le_of_lt ((List.pairwise_cons.1 h.pairwise).1 t ht).1

/-- The last token ends behind all of them. -/
theorem le_lastSpan (h : InOrder ts) (ht : t ∈ ts) :
    t.span.start ≤ (lastSpan ts).start ∧ t.span.stop ≤ (lastSpan ts).stop := by
  obtain ⟨us, u, rfl, hlast⟩ := exists_lastSpan (List.ne_nil_of_mem ht)
  rw [hlast]
  rcases List.mem_append.1 ht with hus | hu
  · have hlater := h.stop_le hus (List.mem_singleton_self u)
    have hlength := h.start_le_stop u (by simp)
    omega
  · obtain rfl := List.mem_singleton.1 hu
    exact ⟨Nat.le_refl _, Nat.le_refl _⟩

end InOrder

namespace Span.Reaches

theorem of_mem (ht : t ∈ ts) : t.span.Reaches ts :=
  ⟨t, ht, t, ht, Nat.le_refl _, rfl⟩

theorem mono (h : sp.Reaches ts) (hsub : ts ⊆ us) : sp.Reaches us := by
  obtain ⟨t, ht, u, hu, hle, rfl⟩ := h
  exact ⟨t, hsub ht, u, hsub hu, hle, rfl⟩

theorem start_le_stop (h : sp.Reaches ts) (hts : InOrder ts) : sp.start ≤ sp.stop := by
  obtain ⟨t, -, u, hu, hle, rfl⟩ := h
  have hlength := hts.start_le_stop u hu
  simp only [cover]
  omega

/-- Spans of tokens that are kept apart. -/
theorem before (h : sp.Reaches ts) (h' : sp'.Reaches us) (hbefore : Before ts us) :
    sp.stop < sp'.start := by
  obtain ⟨_, -, u, hu, -, rfl⟩ := h
  obtain ⟨t, ht, _, -, -, rfl⟩ := h'
  exact hbefore u hu t ht

/-- The span that covers two. -/
theorem cover (h : sp.Reaches ts) (h' : sp'.Reaches us) (hts : InOrder ts)
    (hbefore : Before ts us) (hsub : ts ⊆ vs) (hsub' : us ⊆ vs) : (sp.cover sp').Reaches vs := by
  have hapart := h.before h' hbefore
  have hlength := h.start_le_stop hts
  obtain ⟨t, ht, u, hu, hle, rfl⟩ := h
  obtain ⟨t', ht', u', hu', hle', rfl⟩ := h'
  refine ⟨t, hsub ht, u', hsub' hu', ?_, rfl⟩
  simp only [Span.cover] at hapart hlength
  omega

/-- **The span from the first to the last of the tokens** covers all spans of tokens. -/
theorem firstSpan_cover (hts : InOrder ts) (hne : ts ≠ []) :
    ((firstSpan ts).cover (lastSpan ts)).Reaches ts := by
  obtain ⟨t, us, rfl⟩ := List.exists_cons_of_ne_nil hne
  obtain ⟨vs, u, hu, hlast⟩ := exists_lastSpan hne
  have hmem : u ∈ t :: us := by simp [hu]
  rw [hlast]
  exact ⟨t, List.mem_cons_self, u, hmem, hts.firstSpan_le hmem, rfl⟩

theorem inside_cover (h : sp.Reaches ts) (hts : InOrder ts) :
    (firstSpan ts).start ≤ sp.start ∧ sp.stop ≤ (lastSpan ts).stop := by
  obtain ⟨t, ht, u, hu, -, rfl⟩ := h
  exact ⟨hts.firstSpan_le ht, (hts.le_lastSpan hu).2⟩

end Span.Reaches

/-- The tokens of each argument stand there as they are. -/
theorem Separated.sublist {tss : List (List Token)} (h : Separated tss us) (hts : ts ∈ tss) :
    ts.Sublist us := by
  induction h with
  | none => simp at hts
  | one us =>
    obtain rfl := List.mem_singleton.1 hts
    exact List.Sublist.refl _
  | @more ws us vs rest t _ _ ih =>
    rcases List.mem_cons.1 hts with rfl | hts
    · exact List.sublist_append_left _ _
    · exact (ih hts).trans ((List.sublist_cons_self t vs).trans (List.sublist_append_right _ _))

/-- **Arguments with commas between them are kept apart.** -/
theorem Separated.before {tss : List (List Token)} (h : Separated tss us) (hus : InOrder us) :
    tss.Pairwise Before := by
  induction h with
  | none => exact .nil
  | one ts => exact List.pairwise_singleton _ _
  | @more ts us vs rest t _ hrest ih =>
    refine List.pairwise_cons.2 ⟨fun ws hws => ?_, ih hus.right.tail⟩
    intro x hx y hy
    exact hus.before x hx y (hrest.subset hws hy)

namespace Expr

/-- The spans of the parts of a node: of the name in it and of the nodes right below it, as they
are written. -/
def parts : Expr → List Span
  | .number _ _ | .text _ _ | .var _ _ => []
  | .field _ target nsp _ => [target.span, nsp]
  | .index _ target i => [target.span, i.span]
  | .negate _ e => [e.span]
  | .arith _ _ lhs rhs => [lhs.span, rhs.span]
  | .call _ nsp _ args => nsp :: args.map span

/-- Where the spans in a node lie. -/
structure Nested (ts : List Token) (e : Expr) : Prop where
  /-- The span of the node and those of its parts reach from token to token. -/
  reaches : ∀ sp ∈ e.span :: e.parts, sp.Reaches ts
  /-- The parts lie in the node. -/
  inside : ∀ sp ∈ e.parts, e.span.start ≤ sp.start ∧ sp.stop ≤ e.span.stop
  /-- They are in order, and there is something between two of them. -/
  ordered : e.parts.Pairwise fun sp sp' => sp.stop < sp'.start

namespace Nested

theorem mono (h : e.Nested ts) (hsub : ts ⊆ us) : e.Nested us :=
  ⟨fun sp hsp => (h.reaches sp hsp).mono hsub, h.inside, h.ordered⟩

theorem span (h : e.Nested ts) : e.span.Reaches ts :=
  h.reaches e.span List.mem_cons_self

/-- A node from the first to the last of its tokens. -/
theorem of_cover (hts : InOrder ts) (hne : ts ≠ [])
    (hspan : e.span = (firstSpan ts).cover (lastSpan ts))
    (hparts : ∀ sp ∈ e.parts, sp.Reaches ts)
    (hordered : e.parts.Pairwise fun sp sp' => sp.stop < sp'.start) : e.Nested ts := by
  refine ⟨List.forall_mem_cons.2 ⟨?_, hparts⟩, fun sp hsp => ?_, hordered⟩
  · rw [hspan]
    exact .firstSpan_cover hts hne
  · rw [hspan]
    exact (hparts sp hsp).inside_cover hts

/-- A node of two parts that covers both, the second one perhaps with a token behind it. -/
theorem of_two (hspan : e.span = sp.cover sp') {x y : Span} (hparts : e.parts = [x, y])
    (hx : sp = x) (hy : y.stop ≤ sp'.stop)
    (h : x.Reaches ts) (h' : y.Reaches us) (hend : sp'.Reaches us) (hts : InOrder ts)
    (hus : InOrder us) (hbefore : Before ts us) (hsub : ts ⊆ vs) (hsub' : us ⊆ vs) :
    e.Nested vs := by
  subst hx
  have hapart := h.before h' hbefore
  have hlength := h.start_le_stop hts
  have hlength' := h'.start_le_stop hus
  refine ⟨?_, ?_, ?_⟩
  · rw [hspan, hparts]
    simpa using ⟨h.cover hend hts hbefore hsub hsub', h.mono hsub, h'.mono hsub'⟩
  · rw [hspan, hparts]
    simp only [Span.cover, List.mem_cons, List.not_mem_nil, or_false, forall_eq_or_imp, forall_eq]
    omega
  · rw [hparts]
    simpa using hapart

variable {target i lhs rhs : Expr} {name : String} {op : ArithOp} {o c : Token}

theorem arith (hp : (Expr.arith sp op lhs rhs).Placed (ts ++ t :: us))
    (hts : InOrder (ts ++ t :: us)) (hl : lhs.Nested ts) (hr : rhs.Nested us) :
    (Expr.arith sp op lhs rhs).Nested (ts ++ t :: us) :=
  of_two hp rfl rfl (Nat.le_refl _) hl.span hr.span hr.span hts.left hts.right.tail hts.before
    (by simp) (by simp)

theorem negate (hp : (Expr.negate sp e).Placed (t :: ts)) (hts : InOrder (t :: ts))
    (h : e.Nested ts) : (Expr.negate sp e).Nested (t :: ts) := by
  have hspan : e.span.Reaches (t :: ts) := h.span.mono (List.subset_cons_self t ts)
  exact of_cover hts (by simp) hp (by simpa [parts] using hspan) (by simp [parts])

theorem field (hp : (Expr.field sp target sp' name).Placed (ts ++ [d, t]))
    (hts : InOrder (ts ++ [d, t])) (h : target.Nested ts) :
    (Expr.field sp target sp' name).Nested (ts ++ [d, t]) := by
  obtain ⟨rfl, hspan⟩ := hp
  have hlast : lastSpan (ts ++ [d, t]) = t.span := by simp
  rw [hlast] at hspan ⊢
  have hname : t.span.Reaches [t] := .of_mem (List.mem_singleton_self t)
  exact of_two hspan rfl rfl (Nat.le_refl _) h.span hname hname hts.left hts.right.tail hts.before
    (by simp) (by simp)

theorem index (hp : (Expr.index sp target i).Placed (ts ++ (o :: us ++ [c])))
    (hts : InOrder (ts ++ (o :: us ++ [c]))) (h : target.Nested ts) (hi : i.Nested us) :
    (Expr.index sp target i).Nested (ts ++ (o :: us ++ [c])) := by
  have hspan : sp = target.span.cover c.span := by
    have hlast : lastSpan (ts ++ (o :: us ++ [c])) = c.span := by
      rw [← List.append_assoc, lastSpan_append_cons, lastSpan_singleton]
    rwa [Placed, hlast] at hp
  have hinner : InOrder (us ++ [c]) := hts.right.tail
  have hposition : i.span.Reaches (us ++ [c]) := hi.span.mono (List.subset_append_left _ _)
  have hclosing : c.span.Reaches (us ++ [c]) := .of_mem (by simp)
  have hstop : i.span.stop ≤ c.span.stop := by
    simpa using (hposition.inside_cover hinner).2
  exact of_two hspan rfl rfl hstop h.span hposition hclosing hts.left hinner hts.before
    (by simp) (by simp)

/-- A call; the arguments come with their tokens. -/
theorem call {args : List (List Token × Expr)}
    (hp : (Expr.call sp sp' name (args.map (·.2))).Placed (t :: (o :: us ++ [c])))
    (hts : InOrder (t :: (o :: us ++ [c]))) (hargs : Separated (args.map (·.1)) us)
    (h : ∀ a ∈ args, a.2.Nested a.1) :
    (Expr.call sp sp' name (args.map (·.2))).Nested (t :: (o :: us ++ [c])) := by
  obtain ⟨rfl, hspan⟩ := hp
  have hsub : ∀ a ∈ args, a.1 ⊆ us := fun a ha => hargs.subset (List.mem_map_of_mem ha)
  refine of_cover hts (by simp) hspan ?_ ?_
  · refine List.forall_mem_cons.2 ⟨.of_mem List.mem_cons_self, ?_⟩
    simp only [List.map_map, List.forall_mem_map]
    intro a ha
    refine (h a ha).span.mono fun x hx => ?_
    simp [hsub a ha hx]
  · -- the name is before the bracket, and commas are between the arguments
    have hname : Before [t] us := fun x hx y hy => by
      have hbracket : InOrder ([t] ++ o :: us) := hts.sublist (by simp)
      exact hbracket.before x hx y hy
    have hinner : InOrder us := hts.sublist
      ((List.sublist_append_left us [c]).trans
        ((List.sublist_cons_self o _).trans (List.sublist_cons_self t _)))
    have hapart := hargs.before hinner
    refine List.pairwise_cons.2 ⟨?_, ?_⟩
    · simp only [List.map_map, List.forall_mem_map]
      intro a ha
      have hmem : t.span.Reaches [t] := .of_mem (List.mem_singleton_self t)
      exact hmem.before ((h a ha).span.mono (hsub a ha)) hname
    · rw [List.pairwise_map] at hapart
      rw [List.map_map, List.pairwise_map]
      exact hapart.imp_of_mem fun ha hb hbefore => (h _ ha).span.before (h _ hb).span hbefore

end Nested

end Expr

/-- **The spans in all nodes of a derived tree are nested and in order.** -/
theorem Derives.nested (h : Derives Expr.Sound l ts e) (hts : InOrder ts) :
    ∀ x ∈ e.subtrees, x.Nested ts := by
  induction h with
  | operand _ _ ih => exact ih hts
  | join _ _ _ _ _ node ihl ihr | power _ _ _ node ihl ihr =>
    have hl := ihl hts.left
    have hr := ihr hts.right.tail
    have hnode := Expr.Nested.arith node.placed hts (hl _ (Expr.self_mem_subtrees _))
      (hr _ (Expr.self_mem_subtrees _))
    refine List.forall_mem_cons.2 ⟨hnode, List.forall_mem_append.2 ⟨?_, ?_⟩⟩
    · exact fun x hx => (hl x hx).mono (by simp)
    · exact fun x hx => (hr x hx).mono (by simp)
  | negate _ _ node ih =>
    have hinner := ih hts.tail
    have hnode := Expr.Nested.negate node.placed hts (hinner _ (Expr.self_mem_subtrees _))
    exact List.forall_mem_cons.2 ⟨hnode, fun x hx => (hinner x hx).mono (by simp)⟩
  | field _ _ _ node ih =>
    have hinner := ih hts.left
    have hnode := Expr.Nested.field node.placed hts (hinner _ (Expr.self_mem_subtrees _))
    exact List.forall_mem_cons.2 ⟨hnode, fun x hx => (hinner x hx).mono (by simp)⟩
  | index _ _ _ _ node iht ihi =>
    have ht := iht hts.left
    have hi := ihi hts.right.tail.left
    have hnode := Expr.Nested.index node.placed hts (ht _ (Expr.self_mem_subtrees _))
      (hi _ (Expr.self_mem_subtrees _))
    refine List.forall_mem_cons.2 ⟨hnode, List.forall_mem_append.2 ⟨?_, ?_⟩⟩
    · exact fun x hx => (ht x hx).mono (by simp)
    · exact fun x hx => (hi x hx).mono fun y hy => by simp [hy]
  | number _ node | text _ node | var _ node =>
    refine List.forall_mem_cons.2 ⟨.of_cover hts (by simp) node.placed ?_ .nil, by simp⟩
    simp [Expr.parts]
  | group _ _ _ ih =>
    exact fun x hx => (ih hts.left.tail x hx).mono (by simp)
  | @call n o c name args us sp nsp _ _ hargs _ _ node ih =>
    have hinner : InOrder us := hts.tail.tail.left
    have hall : ∀ a ∈ args, ∀ x ∈ a.2.subtrees, x.Nested a.1 := fun a ha =>
      ih a ha (hinner.sublist (hargs.sublist (List.mem_map_of_mem ha)))
    have hnode := Expr.Nested.call node.placed hts hargs
      fun a ha => hall a ha _ (Expr.self_mem_subtrees _)
    refine List.forall_mem_cons.2 ⟨hnode, fun x hx => ?_⟩
    obtain ⟨e, he, hx⟩ := Expr.mem_subtreesAll.1 hx
    obtain ⟨a, ha, rfl⟩ := List.mem_map.1 he
    refine (hall a ha x hx).mono fun y hy => ?_
    simp [hargs.subset (List.mem_map_of_mem ha) hy]

/-- Of two parts at the front of a text the one of fewer bytes is the front of the other one. -/
theorem Text.exists_append {as bs cs ds : List Char} (h : as ++ bs = cs ++ ds)
    (hsize : Text.size as ≤ Text.size cs) : ∃ ms, cs = as ++ ms ∧ bs = ms ++ ds := by
  rcases List.append_eq_append_iff.1 h with ⟨ms, hcs, hbs⟩ | ⟨ms, has, hds⟩
  · exact ⟨ms, hcs, hbs⟩
  · have hms : ms = [] := by
      have hlength := Text.length_le_size ms
      rw [has, Text.size_append] at hsize
      exact List.length_eq_zero_iff.1 (by omega)
    subst hms
    exact ⟨[], by simpa using has.symm, by simpa using hds.symm⟩

/-- A span lies in a text and its ends are between characters, so that the text of the span is what
stands there. -/
structure Span.Sits (source : Source) (sp : Span) : Prop where
  inSource : sp.source = source
  start_le_stop : sp.start ≤ sp.stop
  stop_le_size : sp.stop ≤ Text.size source.contents
  text : ∃ before behind, source.contents = before ++ (sp.text ++ behind) ∧
    sp.start = Text.size before ∧ sp.stop = Text.size (before ++ sp.text)

variable {source : Source}

/-- What stands between the start of a token and the end of one is the text of the span. -/
theorem Span.Reaches.sits (h : sp.Reaches ts) (hts : InOrder ts)
    (hstands : ∀ t ∈ ts, ∃ before behind, t.Stands source before behind) : sp.Sits source := by
  have hle := h.start_le_stop hts
  obtain ⟨t, ht, u, hu, -, rfl⟩ := h
  obtain ⟨before, behind, hfirst⟩ := hstands t ht
  obtain ⟨before', behind', hlast⟩ := hstands u hu
  have hstart : (t.span.cover u.span).start = Text.size before := hfirst.start
  have hstop : (t.span.cover u.span).stop = Text.size (before' ++ u.span.text) := hlast.stop
  have hcontents := hlast.contents
  rw [← List.append_assoc] at hcontents
  obtain ⟨middle, hmiddle, -⟩ := Text.exists_append (hfirst.contents.symm.trans hcontents)
    (by rw [← hstart, ← hstop]; exact hle)
  rw [hmiddle] at hstop hcontents
  rw [List.append_assoc] at hcontents
  have hsource : (t.span.cover u.span).source = source := hfirst.inSource
  have htext : (t.span.cover u.span).text = middle := by
    rw [Span.text, hsource, hstart, hstop, Text.size_append, hcontents]
    exact Text.slice_append _ _ _
  refine ⟨hsource, hle, ?_, before, behind', ?_, hstart, ?_⟩
  · rw [hstop, hcontents, ← List.append_assoc, Text.size_append (before ++ middle)]
    omega
  · rw [htext]
    exact hcontents
  · rw [htext]
    exact hstop

/-- The words of a text are in order, and each one stands in the text. -/
theorem Source.words_inOrder (h : (tokenize source).failure? = none) :
    InOrder source.words ∧ ∀ t ∈ source.words, ∃ before behind, t.Stands source before behind := by
  obtain ⟨last, k, -, -, hwords, hreads⟩ := Source.exists_reads h
  have hstands : ∀ t ∈ source.words, ∃ before behind, t.Stands source before behind := fun t ht =>
    source.stands t ((List.dropLast_sublist _).subset ht)
  refine ⟨⟨(List.pairwise_append.1 (hreads.ordered hwords)).1, fun t ht => ?_⟩, hstands⟩
  obtain ⟨before, behind, hstand⟩ := hstands t ht
  exact hstand.within.1

/-- **The spans in all nodes of a formula are nested and in order**, they reach from the start of a
token to the end of a token, and they lie in the text between characters. In a text of less than
four gibibytes their offsets have 32 bits. -/
theorem parse_spans {file text : String} {limits : Limits} {f : Formula}
    (hsize : Text.size text.toList < 2 ^ 32) (h : parse file text limits = .ok f) :
    let source : Source := ⟨file, text.toList⟩
    ∀ x ∈ f.tree.subtrees, x.Nested source.words ∧
      ∀ sp ∈ x.span :: x.parts, sp.Sits source ∧ sp.stop < 2 ^ 32 := by
  intro source x hx
  obtain ⟨hsource, -, hparse⟩ := parse_eq_ok_iff.1 h
  rw [hsource] at hparse
  obtain ⟨hnone, hder, -⟩ := Source.parse_eq_ok_iff.1 hparse
  obtain ⟨horder, hstands⟩ := Source.words_inOrder hnone
  have hnested := hder.nested horder x hx
  refine ⟨hnested, fun sp hsp => ?_⟩
  have hsits : sp.Sits source := (hnested.reaches sp hsp).sits horder hstands
  exact ⟨hsits, Nat.lt_of_le_of_lt hsits.stop_le_size hsize⟩

/-- A formula with operands in parentheses, a chain of powers, fields, indices and arguments. -/
theorem parse_spans_chain :
    let text := "-(a.b)[ 1 ].c ^ max(\"é\", 2 * (3)) ^ (x) + f"
    Text.size text.toList < 2 ^ 32 ∧ ∃ f, parse "f" text .standard = .ok f ∧
      let source : Source := ⟨"f", text.toList⟩
      ∀ x ∈ f.tree.subtrees, x.Nested source.words ∧
        ∀ sp ∈ x.span :: x.parts, sp.Sits source ∧ sp.stop < 2 ^ 32 := by
  intro text
  have hsize : Text.size text.toList < 2 ^ 32 := by decide
  have hok : (parse "f" text .standard).isOk = true := by decide +kernel
  obtain ⟨f, hf⟩ := exists_eq_ok_of_isOk hok
  exact ⟨hsize, f, hf, parse_spans hsize hf⟩

end FormCalc
