import FormCalc.Proofs.Nesting

/-!
# Steps of a parse

What a parse that succeeds has done to its progress.

* `Parse.bind_eq_ok`: a sequence succeeds if its parts do.
* `Progress.Next`: a token was taken. `advance_eq_ok_iff` ties it to `Parse.advance`.
* `Took`: tokens were taken and nodes counted, and neither ceiling was in the way. The depth is
  what it was before. `Took.append`, `Took.split`: such stretches are put together and cut.
* `Inside`: the same one level down; `took_bracketed_iff` puts the brackets around it.
-/

namespace FormCalc

namespace Parse

variable {α β : Type} {a : Assignment} {s s' : Progress}

theorem bind_eq_ok {p : Parse α} {f : α → Parse β} {y : β} :
    (p >>= f) s = .ok y s' ↔ ∃ x t, p s = .ok x t ∧ f x t = .ok y s' := by
  change EStateM.bind p f s = _ ↔ _
  unfold EStateM.bind
  cases p s with
  | ok x t =>
    constructor
    · exact fun h => ⟨x, t, rfl, h⟩
    · rintro ⟨_, _, ⟨⟩, h⟩
      exact h
  | error e t => simp

theorem bind_of_ok {p : Parse α} {f : α → Parse β} {x : α} (h : p s = .ok x s') :
    (p >>= f) s = f x s' := by
  change EStateM.bind p f s = _
  simp [EStateM.bind, h]

@[simp] theorem pure_eq_ok {x y : α} : (pure x : Parse α) s = .ok y s' ↔ x = y ∧ s = s' := by
  simp [pure, EStateM.pure]

@[simp] theorem pure_apply (x : α) : (pure x : Parse α) s = .ok x s := rfl

@[simp] theorem current_bind (f : Token → Parse β) : (current >>= f) s = f s.current s := rfl

@[simp] theorem symbol?_bind (f : Option Symbol → Parse β) :
    (symbol? >>= f) s = f s.current.lexeme.symbol? s := rfl

@[simp] theorem steps_bind (f : Nat → Parse β) :
    (steps >>= f) s = f (s.upcoming.length + 1) s := rfl

@[simp] theorem lastStop_bind (f : Nat → Parse β) : (lastStop >>= f) s = f s.lastStop s := rfl

@[simp] theorem throw_apply (e : FormulaError) : (throw e : Parse α) s = .error e s := rfl

@[simp] theorem fault_ne_ok {f : Fault} {x : α} : fault f s ≠ .ok x s' := by
  simp [fault]

theorem lift_eq_ok {r : Except FormulaError α} {x : α} :
    lift r s = .ok x s' ↔ r = .ok x ∧ s = s' := by
  unfold lift
  cases r <;> simp

end Parse

theorem Lexeme.symbol?_eq_some {l : Lexeme} {s : Symbol} :
    l.symbol? = some s ↔ l = .symbol s := by
  cases l <;> simp [Lexeme.symbol?]

namespace Progress

/-- The tokens that have not been taken. -/
def ahead (s : Progress) : List Token := s.current :: s.upcoming

/-- One level down. -/
def down (s : Progress) : Progress := { s with depth := s.depth + 1 }

/-- One level up. -/
def up (s : Progress) : Progress := { s with depth := s.depth - 1 }

@[simp] theorem up_down (s : Progress) : s.down.up = s := by
  simp [down, up]

theorem down_up {s : Progress} (h : 0 < s.depth) : s.up.down = s := by
  cases s
  simp only [up, down, Progress.mk.injEq, true_and, and_true]
  simp only at h
  omega

/-- The token in hand has been taken. -/
structure Next (s s' : Progress) : Prop where
  upcoming : s.upcoming = s'.current :: s'.upcoming
  stop : s'.lastStop = s.current.span.stop
  depth : s'.depth = s.depth
  nodes : s'.nodes = s.nodes

/-- Unless the text could not be cut into tokens up to its end, the last token is the end. -/
def Ended (a : Assignment) (s : Progress) : Prop :=
  a.failure? = none → ∃ t, s.ahead.getLast? = some t ∧ t.lexeme = .eof

theorem ended_of_ahead {a : Assignment} {s s' : Progress} {ts : List Token} (h : s.Ended a)
    (hts : s.ahead = ts ++ s'.ahead) : s'.Ended a := by
  intro ha
  obtain ⟨t, ht, heof⟩ := h ha
  obtain ⟨u, hu⟩ : ∃ u, s'.ahead.getLast? = some u := by simp [ahead, List.getLast?_cons]
  rw [hts, List.getLast?_append, hu, Option.some_or] at ht
  exact ⟨t, hu.trans ht, heof⟩

theorem Next.ended {a : Assignment} {s s' : Progress} (h : s.Next s') (hs : s.Ended a) :
    s'.Ended a := by
  have hahead : s.ahead = [s.current] ++ s'.ahead := by simp [ahead, h.upcoming]
  exact ended_of_ahead hs hahead

end Progress

open Progress

variable {a : Assignment} {s s' s'' : Progress} {ts us : List Token} {m n : Nat}

theorem Progress.Next.advance (h : s.Next s') : Parse.advance a s = .ok () s' := by
  obtain ⟨current, upcoming, lastStop, depth, nodes⟩ := s'
  obtain ⟨hup, hstop, hdepth, hnodes⟩ := h
  simp_all [Parse.advance]

/-- **A token other than the end is taken, or there is none behind it.** -/
theorem advance_eq_ok_iff (hs : s.Ended a) (hc : s.current.lexeme ≠ .eof) {u : Unit} :
    Parse.advance a s = .ok u s' ↔ s.Next s' := by
  constructor
  · intro h
    unfold Parse.advance at h
    simp only at h
    split at h
    · rename_i t ts f hup
      simp only [EStateM.Result.ok.injEq, true_and] at h
      subst h
      exact ⟨hup, rfl, rfl, rfl⟩
    · simp at h
    · rename_i hup hf
      -- the last token is the end, and the one in hand would be the last
      obtain ⟨t, ht, heof⟩ := hs hf
      simp only [ahead, hup, List.getLast?_singleton, Option.some.injEq] at ht
      exact absurd (ht ▸ heof) hc
  · exact fun h => h.advance

/-- The bracket that closes a construct is taken. -/
theorem Progress.Next.close {c : Construct} (h : s.Next s')
    (hc : s.current.lexeme = .symbol c.closing) : Parse.close a c s = .ok () s' := by
  unfold Parse.close
  rw [Parse.symbol?_bind, if_pos (Lexeme.symbol?_eq_some.2 hc)]
  exact h.advance

theorem close_eq_ok_iff {c : Construct} (hs : s.Ended a) {u : Unit} :
    Parse.close a c s = .ok u s' ↔ s.current.lexeme = .symbol c.closing ∧ s.Next s' := by
  constructor
  · intro h
    unfold Parse.close at h
    rw [Parse.symbol?_bind] at h
    by_cases hc : s.current.lexeme.symbol? = some c.closing
    · have hlex := Lexeme.symbol?_eq_some.1 hc
      rw [if_pos hc] at h
      exact ⟨hlex, (advance_eq_ok_iff hs (by simp [hlex])).1 h⟩
    · rw [if_neg hc] at h
      exact absurd h Parse.fault_ne_ok
  · exact fun h => h.2.close h.1

/-- A name that is not blocked is taken. -/
theorem Progress.Next.ident {name : List Char} (h : s.Next s')
    (hname : s.current.lexeme = .ident name) (hallowed : String.ofList name ∉ blockedNames) :
    Parse.ident a s = .ok (s.current.span, String.ofList name) s' := by
  have hcheck : Parse.lift (ensure (checkName (String.ofList name))) s = .ok () s :=
    Parse.lift_eq_ok.2 ⟨ensure_checkName_eq_ok.2 hallowed, rfl⟩
  unfold Parse.ident
  rw [Parse.current_bind]
  simp only [hname, Parse.bind_of_ok hcheck, Parse.bind_of_ok h.advance, Parse.pure_apply]

theorem ident_eq_ok_iff (hs : s.Ended a) {x : Span × String} :
    Parse.ident a s = .ok x s' ↔ ∃ name, s.current.lexeme = .ident name ∧
      String.ofList name ∉ blockedNames ∧ x = (s.current.span, String.ofList name) ∧
      s.Next s' := by
  constructor
  · intro h
    unfold Parse.ident at h
    rw [Parse.current_bind] at h
    cases hlex : s.current.lexeme with
    | ident name =>
      simp only [hlex, Parse.bind_eq_ok, Parse.lift_eq_ok, Parse.pure_eq_ok] at h
      obtain ⟨_, t, ⟨hname, rfl⟩, _, t', hadv, rfl, rfl⟩ := h
      exact ⟨name, rfl, ensure_checkName_eq_ok.1 hname, rfl,
        (advance_eq_ok_iff hs (by simp [hlex])).1 hadv⟩
    | _ => simp [hlex] at h
  · rintro ⟨name, hname, hallowed, rfl, hnext⟩
    exact hnext.ident hname hallowed

/-- Where the last of some tokens ends; `d` if there is none. -/
def stopAfter (d : Nat) (ts : List Token) : Nat :=
  (ts.getLast?.map (·.span.stop)).getD d

theorem stopAfter_eq (d : Nat) (h : ts ≠ []) : stopAfter d ts = (lastSpan ts).stop := by
  obtain ⟨us, t, rfl⟩ := List.eq_nil_or_concat ts |>.resolve_left h
  simp [stopAfter, lastSpan]

@[simp] theorem stopAfter_concat (d : Nat) (ts : List Token) (t : Token) :
    stopAfter d (ts ++ [t]) = t.span.stop := by
  simp [stopAfter]

theorem stopAfter_append (d : Nat) (ts us : List Token) :
    stopAfter d (ts ++ us) = stopAfter (stopAfter d ts) us := by
  rcases List.eq_nil_or_concat us with rfl | ⟨vs, t, rfl⟩
  · simp [stopAfter]
  · rw [List.concat_eq_append, stopAfter_concat, ← List.append_assoc, stopAfter_concat]

/-- From `s` to `s'` the tokens `ts` were taken and `n` nodes were counted. A ceiling is only in
the way where it is passed anew. -/
structure Took (a : Assignment) (s : Progress) (ts : List Token) (n : Nat) (s' : Progress) :
    Prop where
  ahead : s.ahead = ts ++ s'.ahead
  stop : s'.lastStop = stopAfter s.lastStop ts
  depth : s'.depth = s.depth
  nodes : s'.nodes = s.nodes + n
  room : s.depth + peak ts ≤ max s.depth a.limits.depth
  count : s'.nodes ≤ max s.nodes a.limits.nodes

namespace Took

theorem ended (h : Took a s ts n s') (hs : s.Ended a) : s'.Ended a :=
  ended_of_ahead hs h.ahead

theorem refl (a : Assignment) (s : Progress) : Took a s [] 0 s := by
  refine ⟨rfl, rfl, rfl, rfl, ?_, ?_⟩
  · rw [peak_nil]; omega
  · omega

/-- **Stretches are put together.** -/
theorem append (hb : Balanced ts) (h : Took a s ts m s') (h' : Took a s' us n s'') :
    Took a s (ts ++ us) (m + n) s'' := by
  refine ⟨?_, ?_, ?_, ?_, ?_, ?_⟩
  · rw [h.ahead, h'.ahead, List.append_assoc]
  · rw [h'.stop, h.stop, stopAfter_append]
  · rw [h'.depth, h.depth]
  · rw [h'.nodes, h.nodes, Nat.add_assoc]
  · have h1 := h.room
    have h2 := h'.room
    rw [h.depth] at h2
    rw [hb.peak_append]
    omega
  · have h1 := h.count
    have h2 := h'.count
    omega

/-- **Stretches are cut.** -/
theorem split (hb : Balanced ts) (h : Took a s (ts ++ us) (m + n) s'') :
    ∃ s', Took a s ts m s' ∧ Took a s' us n s'' := by
  obtain ⟨c, rest, hrest⟩ : ∃ c rest, us ++ s''.ahead = c :: rest :=
    List.exists_cons_of_ne_nil (by simp [Progress.ahead])
  have hroom := h.room
  have hcount := h.count
  have hnodes := h.nodes
  rw [hb.peak_append] at hroom
  -- the progress at the cut: balanced tokens leave the depth as it was
  refine ⟨⟨c, rest, stopAfter s.lastStop ts, s.depth, s.nodes + m⟩, ⟨?_, rfl, rfl, rfl, ?_, ?_⟩,
    ⟨?_, ?_, h.depth, ?_, ?_, ?_⟩⟩
  · rw [h.ahead, List.append_assoc, hrest]; rfl
  · omega
  · simp only; omega
  · exact hrest.symm
  · rw [h.stop, stopAfter_append]
  · simp only; omega
  · simp only; omega
  · simp only; omega

theorem length_upcoming (h : Took a s ts n s') :
    s.upcoming.length = ts.length + s'.upcoming.length := by
  have := congrArg List.length h.ahead
  simp only [Progress.ahead, List.length_cons, List.length_append] at this
  omega

/-- The last token that was taken ends where the last of the tokens does. -/
theorem lastStop_eq (h : Took a s ts n s') (hts : ts ≠ []) :
    s'.lastStop = (lastSpan ts).stop := by
  rw [h.stop, stopAfter_eq _ hts]

/-- The first of the tokens was in hand. -/
theorem head_eq {t : Token} (h : Took a s (t :: ts) n s') : s.current = t := by
  have := h.ahead
  simp only [Progress.ahead, List.cons_append, List.cons.injEq] at this
  exact this.1

/-- Where no token was taken, the same one is in hand. -/
theorem current_eq (h : Took a s [] n s') : s'.current = s.current := by
  have := h.ahead
  simp only [Progress.ahead, List.nil_append, List.cons.injEq] at this
  exact this.1.symm

/-- Only the tokens, the counters and the ceilings decide. -/
theorem eq_of_eq {t : Progress} (h : Took a s ts n s') (h' : Took a s ts n t) : s' = t := by
  have hahead : s'.ahead = t.ahead := List.append_cancel_left (h.ahead.symm.trans h'.ahead)
  have hstop := h.stop.trans h'.stop.symm
  have hdepth := h.depth.trans h'.depth.symm
  have hnodes := h.nodes.trans h'.nodes.symm
  obtain ⟨c, up, l, d, k⟩ := s'
  obtain ⟨c', up', l', d', k'⟩ := t
  simp_all [Progress.ahead]

end Took

/-- Taking a token that is no bracket. -/
theorem took_singleton_iff (h : s.current.IsPlain) :
    Took a s [s.current] 0 s' ↔ s.Next s' := by
  constructor
  · rintro ⟨hahead, hstop, hdepth, hnodes, -, -⟩
    exact ⟨by simpa [Progress.ahead] using hahead, by simpa [stopAfter] using hstop, hdepth, hnodes⟩
  · rintro ⟨hup, hstop, hdepth, hnodes⟩
    refine ⟨by simp [Progress.ahead, hup], hstop, hdepth, hnodes, ?_, ?_⟩
    · rw [peak_singleton h]; omega
    · omega

/-- A token that is no bracket is taken before others. -/
theorem Progress.Next.took_cons (hn : s.Next s') (h : s.current.IsPlain)
    (htook : Took a s' ts n s'') : Took a s (s.current :: ts) n s'' := by
  have hfirst : Took a s [s.current] 0 s' := (took_singleton_iff h).2 hn
  simpa using hfirst.append h.balanced htook

/-- The first of the tokens that are taken, if it is no bracket. -/
theorem Took.uncons {t : Token} (ht : t.IsPlain) (h : Took a s (t :: ts) n s'') :
    s.current = t ∧ ∃ s', s.Next s' ∧ Took a s' ts n s'' := by
  have h' : Took a s ([t] ++ ts) (0 + n) s'' := by simpa using h
  obtain ⟨s', h1, h2⟩ := h'.split ht.balanced
  obtain rfl := h1.head_eq
  exact ⟨rfl, s', (took_singleton_iff ht).1 h1, h2⟩

/-- Counting a node. -/
theorem countNode_eq_ok_iff {u : Unit} :
    Parse.countNode a s = .ok u s' ↔ Took a s [] 1 s' := by
  have hok : Took a s [] 1 { s with nodes := s.nodes + 1 } ↔ s.nodes + 1 ≤ a.limits.nodes := by
    constructor
    · intro h
      have := h.count
      simp only at this
      omega
    · intro h
      refine ⟨rfl, rfl, rfl, rfl, ?_, ?_⟩
      · rw [peak_nil]; omega
      · simp only; omega
  unfold Parse.countNode Limits.checkNodes ensureAtMost
  simp only
  by_cases h : s.nodes + 1 ≤ a.limits.nodes
  · simp only [h, if_true, EStateM.Result.ok.injEq, true_and]
    exact ⟨fun hs => hs ▸ hok.2 h, fun hs => (hok.2 h).eq_of_eq hs⟩
  · simp only [h, if_false, reduceCtorEq, false_iff]
    intro hs
    have := hs.count
    have := hs.nodes
    omega

/-- A node is counted behind its tokens. -/
theorem Took.node {u : Unit} (hb : Balanced ts) (h : Took a s ts n s')
    (hcount : Parse.countNode a s' = .ok u s'') : Took a s ts (n + 1) s'' := by
  simpa using h.append hb (countNode_eq_ok_iff.1 hcount)

/-- The node that is counted behind its tokens. -/
theorem Took.unnode (hb : Balanced ts) (h : Took a s ts (n + 1) s'') :
    ∃ s', Took a s ts n s' ∧ Parse.countNode a s' = .ok () s'' ∧ s'.current = s''.current ∧
      s'.upcoming = s''.upcoming := by
  have h' : Took a s (ts ++ []) (n + 1) s'' := by simpa using h
  obtain ⟨s', h1, h2⟩ := h'.split hb
  have hahead := h2.ahead
  simp only [Progress.ahead, List.nil_append, List.cons.injEq] at hahead
  exact ⟨s', h1, countNode_eq_ok_iff.2 h2, hahead⟩

/-- Parsing one level down goes down if the ceiling allows it, and comes back up if the parse
succeeds. -/
theorem nested_apply {α : Type} (p : Parse α) :
    Parse.nested a p s =
      if s.depth + 1 ≤ a.limits.depth then
        match p s.down with
        | .ok x t => .ok x t.up
        | .error err t => .error err t
      else .error (.limit (.depth (s.depth + 1) a.limits.depth)) s.down := by
  unfold Parse.nested
  by_cases h : s.depth + 1 ≤ a.limits.depth
  · have henter : Parse.enter a s = .ok () s.down := by
      simp [Parse.enter, Limits.checkDepth, ensureAtMost, h, down]
    rw [Parse.bind_of_ok henter, if_pos h]
    change EStateM.bind p _ s.down = _
    unfold EStateM.bind
    cases p s.down <;> rfl
  · have henter : Parse.enter a s =
        .error (.limit (.depth (s.depth + 1) a.limits.depth)) s.down := by
      simp [Parse.enter, Limits.checkDepth, ensureAtMost, h, down]
    rw [if_neg h]
    change EStateM.bind _ _ s = _
    unfold EStateM.bind
    rw [henter]

/-- **Parsing one level down.** -/
theorem nested_eq_ok_iff {α : Type} {p : Parse α} {x : α} :
    Parse.nested a p s = .ok x s' ↔
      s.depth + 1 ≤ a.limits.depth ∧ ∃ t, p s.down = .ok x t ∧ s' = t.up := by
  rw [nested_apply]
  by_cases h : s.depth + 1 ≤ a.limits.depth
  · rw [if_pos h]
    cases p s.down with
    | ok y t =>
      simp only [EStateM.Result.ok.injEq, h, true_and]
      constructor
      · rintro ⟨rfl, rfl⟩
        exact ⟨t, ⟨rfl, rfl⟩, rfl⟩
      · rintro ⟨_, ⟨rfl, rfl⟩, rfl⟩
        exact ⟨rfl, rfl⟩
    | error err t => simp
  · simp [h]

/-- The same one level down. -/
structure Inside (a : Assignment) (s : Progress) (ts : List Token) (n : Nat) (s' : Progress) :
    Prop where
  room : s.depth + 1 ≤ a.limits.depth
  took : Took a s.down ts n s'.down

theorem Inside.ended (h : Inside a s ts n s') (hs : s.Ended a) : s'.Ended a :=
  ended_of_ahead (s := s) hs h.took.ahead

theorem Inside.split (hb : Balanced ts) (h : Inside a s (ts ++ us) (m + n) s'') :
    ∃ s', Inside a s ts m s' ∧ Inside a s' us n s'' := by
  obtain ⟨t, h1, h2⟩ := h.took.split hb
  have hdepth : t.depth = s.depth + 1 := h1.depth
  have hdown : t.up.down = t := down_up (by omega)
  refine ⟨t.up, ⟨h.room, hdown.symm ▸ h1⟩, ⟨?_, hdown.symm ▸ h2⟩⟩
  have hroom := h.room
  simp only [up]
  omega

theorem Inside.uncons {t : Token} (ht : t.IsPlain) (h : Inside a s (t :: ts) n s'') :
    s.current = t ∧ ∃ s', s.Next s' ∧ Inside a s' ts n s'' := by
  obtain ⟨hcurrent, u, hn, htook⟩ := h.took.uncons ht
  have hdepth : u.depth = s.depth + 1 := hn.depth
  have hdown : u.up.down = u := down_up (by omega)
  have hroom := h.room
  refine ⟨hcurrent, u.up, ⟨hn.upcoming, hn.stop, ?_, hn.nodes⟩, ⟨?_, hdown.symm ▸ htook⟩⟩
  · simp only [up]
    omega
  · simp only [up]
    omega

/-- **A bracket goes down a level and the bracket that closes it comes back up.** -/
theorem took_bracketed_iff {o c : Token} (hb : Balanced ts) (h : Brackets o c) :
    Took a s (o :: ts ++ [c]) n s'' ↔
      ∃ t t', s.current = o ∧ s.Next t ∧ Inside a t ts n t' ∧ t'.current = c ∧ t'.Next s'' := by
  have hpeak := hb.peak_bracketed h
  constructor
  · intro htook
    have hahead := htook.ahead
    have hroom := htook.room
    have hcount := htook.count
    have hnodes := htook.nodes
    rw [hpeak] at hroom
    obtain ⟨d, rest, hrest⟩ : ∃ d rest, ts ++ [c] ++ s''.ahead = d :: rest :=
      List.exists_cons_of_ne_nil (by simp)
    simp only [Progress.ahead, List.cons_append, List.cons.injEq] at hahead hrest
    -- behind the bracket that opens, and before the one that closes
    refine ⟨⟨d, rest, o.span.stop, s.depth, s.nodes⟩,
      ⟨c, s''.ahead, stopAfter o.span.stop ts, s.depth, s.nodes + n⟩, hahead.1,
      ⟨hahead.2.trans hrest, by rw [hahead.1], rfl, rfl⟩,
      ⟨?_, ⟨?_, rfl, rfl, rfl, ?_, ?_⟩⟩, rfl, ⟨rfl, ?_, htook.depth, hnodes⟩⟩
    · simp only; omega
    · simp [Progress.ahead, down, ← hrest]
    · simp only [down]; omega
    · simp only [down]; omega
    · rw [htook.stop, stopAfter_concat]
  · rintro ⟨t, t', rfl, hn, ⟨hroom, htook⟩, rfl, hn'⟩
    have hahead := htook.ahead
    have hstop := htook.stop
    have hdepth := htook.depth
    have hnodes := htook.nodes
    have hroom' := htook.room
    have hcount := htook.count
    have := hn.depth
    have := hn.nodes
    have := hn'.depth
    have := hn'.nodes
    simp only [down, Progress.ahead] at hahead hstop hdepth hnodes hroom' hcount
    refine ⟨?_, ?_, by omega, by omega, ?_, by omega⟩
    · simp [Progress.ahead, hn.upcoming, hahead, hn'.upcoming]
    · rw [hn'.stop, stopAfter_concat]
    · rw [hpeak]; omega

end FormCalc
