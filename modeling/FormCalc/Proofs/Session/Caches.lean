import FormCalc.Proofs.Ceilings
import FormCalc.Proofs.Raising
import FormCalc.Proofs.Session.Sound
import FormCalc.Proofs.WellFormed

/-!
# Caches and what they are good for

* `caches_follow_history`: what a cache has is decided by its history, evaluation and parses that
  fail leave caches as they are, and a formula that was not parsed is reported exactly where the
  cache has none.
* `evaluate_eq_evalFormula`: a cache only has what parsing the text returns, so evaluating a field
  is evaluating the text that is kept for it.
-/

namespace FormCalc

variable {Lim : Limits → Prop} {w : Workspace} {e : Engine}

/-- Evaluation of a parsed formula does not report that it was not parsed. -/
theorem Entry.Parsed.eval_ne_notParsed {entry : Entry} (h : entry.Parsed Lim) (limits : Limits)
    (context : Value) (id : String) :
    entry.formula.eval limits context ≠ .error (.notParsed id) := by
  intro heval
  obtain ⟨_, -, hparse⟩ := h
  have herr := Evaluation.eval_error
    (fun x hx => (wellFormed_of_parse hparse x hx).callable) heval
  cases herr with
  | operand h => cases h

/-- **What was not parsed is what the cache does not have.** -/
theorem Engine.cachedValue_eq_notParsed_iff {id id' : String} {context : Value}
    (h : ∀ entry, Table.find? id (w.caches e.cache) = some entry → entry.Parsed Lim) :
    e.cachedValue w id context = .error (.notParsed id') ↔
      id' = id ∧ Table.find? id (w.caches e.cache) = none := by
  cases hfind : Table.find? id (w.caches e.cache) with
  | none => simp [cachedValue, hfind, eq_comm]
  | some entry =>
    rw [cachedValue_of_mem hfind]
    simpa using (h entry hfind).eval_ne_notParsed e.limits context id'

/-- Parsing the formula of a field returns nothing but the error of the text. -/
theorem Engine.fst_run_parseFormula (e : Engine) (w : Workspace) (id text : String) :
    ((e.parseFormula id text).run w).1 = (e.compile text).map fun _ => () := by
  cases h : e.compile text with
  | ok f => rw [run_parseFormula_ok h]; rfl
  | error err => rw [run_parseFormula_error h]; rfl

/-- **A text is valid if its formula could be kept.** -/
theorem Engine.valid_validate_iff (e : Engine) (w : Workspace) (id text : String) :
    (e.validate text).valid = true ↔ ((e.parseFormula id text).run w).1 = .ok () := by
  rw [fst_run_parseFormula, validate]
  cases e.compile text <;> simp [Except.map]

/-- **A parse that fails** changes nothing, and its error is the one of the verdict. -/
theorem Engine.of_parseFormula_error {id text : String} {err : FormulaError}
    (h : ((e.parseFormula id text).run w).1 = .error err) :
    ((e.parseFormula id text).run w).2 = w ∧ (e.validate text).error? = some err.message := by
  rw [fst_run_parseFormula] at h
  cases hcompile : e.compile text with
  | ok f => simp [hcompile, Except.map] at h
  | error err' =>
    obtain rfl : err' = err := by simpa [hcompile, Except.map] using h
    rw [run_parseFormula_error hcompile]
    exact ⟨rfl, by simp only [validate, hcompile]⟩

/-- **A parse that succeeds** changes one id of one cache. -/
theorem Engine.of_parseFormula_ok {id text : String}
    (h : ((e.parseFormula id text).run w).1 = .ok ()) : ∃ f, e.compile text = .ok f ∧
      ∀ n id', Table.find? id' (((e.parseFormula id text).run w).2.caches n) =
        if n = e.cache ∧ id' = id then some ⟨f, w.parses⟩ else Table.find? id' (w.caches n) := by
  rw [fst_run_parseFormula] at h
  cases hcompile : e.compile text with
  | error err => simp [hcompile, Except.map] at h
  | ok f =>
    refine ⟨f, rfl, fun n id' => ?_⟩
    rw [run_parseFormula_ok hcompile]
    by_cases hn : n = e.cache
    · simp [hn, Table.find?_insert, Workspace.tell, eq_comm]
    · simp [hn]

/-- A request through an engine leaves the caches of others alone. -/
theorem Session.caches_step_of_ne {s : Session} {name : String} {n : Nat}
    (h : ∀ e, Table.find? name s.engines = some e → e.cache ≠ n) (r : Request) :
    (s.step name r).2.workspace.caches n = s.workspace.caches n := by
  have hedits : s.edits n name r = [] := by
    unfold edits
    split
    · rename_i e he
      rw [if_neg (h e he)]
    · rfl
  rw [caches_step, hedits, Edit.applyAll_nil]

/-- **A new engine that shares no cache** has an empty one that no other engine has. -/
theorem Session.Sound.create_none {s : Session} (h : s.Sound Lim) (name : String)
    (limits : Limits) : ∃ e, Table.find? name (s.create name none limits).engines = some e ∧
      (s.create name none limits).workspace.caches e.cache = [] ∧
      ∀ other e', Table.find? other s.engines = some e' → e'.cache ≠ e.cache := by
  refine ⟨⟨s.cacheCount, limits⟩, ?_, h.fresh _ (Nat.le_refl _), fun other e' he' => ?_⟩
  · simp [Session.create, Session.name]
  · exact Nat.ne_of_lt (h.engines other e' he').2

/-- **Caches follow their history.** In every session:
- a cache has a formula under an id if and only if the last edit that concerns the id kept it;
- a request changes no cache but the one of its engine, and a new engine has a cache of its own;
- a parse that fails changes nothing, and one that succeeds only the id that it parses;
- evaluation and validation change no cache;
- a field is reported as not parsed if and only if the cache does not have it;
- a text is valid if and only if parsing it succeeds, and its error is told otherwise. -/
theorem caches_follow_history (engine : String) (limits : Limits)
    (requests : List (String × Request)) :
    let s := (Session.start engine limits).run requests
    (∀ n id entry, Table.find? id (s.workspace.caches n) = some entry ↔
      Edit.latest? id ((Session.start engine limits).history n requests) =
        some (.keep id entry)) ∧
    (∀ name r n, (∀ e, Table.find? name s.engines = some e → e.cache ≠ n) →
      (s.step name r).2.workspace.caches n = s.workspace.caches n) ∧
    (∀ name limits, ∃ e, Table.find? name (s.create name none limits).engines = some e ∧
      (s.create name none limits).workspace.caches e.cache = [] ∧
      ∀ other e', Table.find? other s.engines = some e' → e'.cache ≠ e.cache) ∧
    (∀ (e : Engine) w id text err, ((e.parseFormula id text).run w).1 = .error err →
      ((e.parseFormula id text).run w).2 = w ∧ (e.validate text).error? = some err.message) ∧
    (∀ (e : Engine) w id text, ((e.parseFormula id text).run w).1 = .ok () →
      ∃ f, e.compile text = .ok f ∧
        ∀ n id', Table.find? id' (((e.parseFormula id text).run w).2.caches n) =
          if n = e.cache ∧ id' = id then some ⟨f, w.parses⟩ else Table.find? id' (w.caches n)) ∧
    (∀ (e : Engine) w context,
      (∀ text, ((e.evalFormula text context).run w).2.caches = w.caches) ∧
      (∀ id, ((e.evaluate id context).run w).2.caches = w.caches) ∧
      ∀ fields, ((e.evaluateForm fields context).run w).2.caches = w.caches) ∧
    (∀ name text, (s.step name (.validate text)).2 = s) ∧
    (∀ (e : Engine) id context id',
      ((e.evaluate id context).run s.workspace).1 = .error (.notParsed id') ↔
        id' = id ∧ Table.find? id (s.workspace.caches e.cache) = none) ∧
    ∀ (e : Engine) w id text,
      (e.validate text).valid = true ↔ ((e.parseFormula id text).run w).1 = .ok () := by
  intro s
  have hsound : s.Sound fun _ => True :=
    Session.sound_run trivial trivial fun _ _ _ _ => trivial
  have hempty : ∀ n, (Session.start engine limits).workspace.caches n = [] := fun n => rfl
  refine ⟨fun n id entry => ?_, fun name r n h => Session.caches_step_of_ne h r,
    fun name limits => hsound.create_none name limits,
    fun e w id text err h => Engine.of_parseFormula_error h,
    fun e w id text h => Engine.of_parseFormula_ok h, fun e w context => ⟨?_, ?_, ?_⟩,
    fun name text => ?_, fun e id context id' => ?_,
    fun e w id text => e.valid_validate_iff w id text⟩
  · rw [Session.caches_run, hempty, Edit.find?_applyAll_iff]
  · exact fun text => (Engine.evalFormula_tells w text context).logged.caches
  · exact fun id => (Engine.evaluate_tells w id context).logged.caches
  · exact fun fields => (Engine.evaluateForm_tells w fields context).logged.caches
  · simp only [Session.step]
    split <;> rfl
  · rw [(Engine.evaluate_tells s.workspace id context).result]
    exact Engine.cachedValue_eq_notParsed_iff fun entry h => hsound.kept _ _ _ h

/-- What was parsed under representable ceilings is what parsing under the largest ones returns. -/
theorem Entry.Parsed.parse_largest {entry : Entry} (h : entry.Parsed Limits.Representable) :
    parse Engine.sourceName entry.text .largest = .ok entry.formula := by
  obtain ⟨limits, hlimits, hparse⟩ := h
  exact parse_eq_ok_of_atMost
    ⟨hlimits.formulaLength, hlimits.depth, hlimits.nodes, hlimits.arraySize⟩ hparse

/-- An engine that accepts the text of a parsed formula compiles it to that formula. -/
theorem Entry.Parsed.answer_eq {entry : Entry} (h : entry.Parsed Lim)
    (hok : ∃ f, e.compile entry.text = .ok f) (context : Value) :
    e.answer entry.text context = entry.formula.eval e.limits context := by
  obtain ⟨limits, -, hparse⟩ := h
  obtain ⟨f, hf⟩ := hok
  obtain rfl := parse_unique hf hparse
  rw [Engine.answer, hf]
  rfl

/-- **Evaluating a field is evaluating the text that is kept for it.** In every session whose
ceilings are representable: what a cache has is, with all its places, what parsing the text under
the largest ceilings returns; and an engine that uses the cache and accepts the text evaluates the
field, alone or in a form, to the value or the error of the text. -/
theorem evaluate_eq_evalFormula {engine : String} {limits : Limits}
    (hlimits : limits.Representable) {requests : List (String × Request)}
    (hrequests : ∀ r ∈ requests, ∀ limits ∈ r.2.limits?, limits.Representable) :
    let s := (Session.start engine limits).run requests
    ∀ n id entry, Table.find? id (s.workspace.caches n) = some entry →
      parse Engine.sourceName entry.text .largest = .ok entry.formula ∧
      ∀ e : Engine, e.cache = n → (∃ f, e.compile entry.text = .ok f) → ∀ context,
        ((e.evaluate id context).run s.workspace).1 =
          ((e.evalFormula entry.text context).run s.workspace).1 ∧
        ∀ field fields, field ∈ fields → field.id = id →
          Table.find? id ((e.evaluateForm fields context).run s.workspace).1 =
            some ((e.evalFormula entry.text context).run s.workspace).1 := by
  intro s n id entry hentry
  have hsound : s.Sound Limits.Representable :=
    Session.sound_run (by decide) hlimits hrequests
  have hparsed := hsound.kept n id entry hentry
  refine ⟨hparsed.parse_largest, fun e he hok context => ?_⟩
  subst he
  -- all three come down to the formula that is kept
  have hcached : e.cachedValue s.workspace id context = e.answer entry.text context := by
    rw [Engine.cachedValue_of_mem hentry, hparsed.answer_eq hok context]
  rw [(Engine.evaluate_tells s.workspace id context).result,
    (Engine.evalFormula_tells s.workspace entry.text context).result]
  refine ⟨hcached, fun field fields hmem hid => ?_⟩
  have hid' : id ∈ fields.map ComputedField.id := hid ▸ List.mem_map_of_mem hmem
  rw [(Engine.evaluateForm_tells s.workspace fields context).result,
    Table.find?_foldl_insert fun k => e.cachedValue s.workspace k context]
  rw [if_pos hid', hcached]

/-- A formula that was parsed by one engine under tight ceilings and inserted by another one into
a cache of its own. -/
theorem evaluate_eq_evalFormula_inserted :
    let requests : List (String × Request) := [
      ("b", .create (some "a") (some ⟨9, 3, 4, 0⟩)), ("b", .parse "x" "max(a[0])"),
      ("a", .hold "x" "h"), ("c", .create none none), ("c", .insert "y" "h")]
    let s := (Session.start "a" .standard).run requests
    let e : Engine := ⟨1, .standard⟩
    Limits.standard.Representable ∧
      (∀ r ∈ requests, ∀ limits ∈ r.2.limits?, limits.Representable) ∧
      ∃ entry, Table.find? "y" (s.workspace.caches 1) = some entry ∧ entry.text = "max(a[0])" ∧
        parse Engine.sourceName "max(a[0])" .largest = .ok entry.formula ∧
        ∀ context, ((e.evaluate "y" context).run s.workspace).1 =
          ((e.evalFormula "max(a[0])" context).run s.workspace).1 := by
  intro requests s e
  have hlimits : Limits.standard.Representable := by decide
  have hrequests : ∀ r ∈ requests, ∀ limits ∈ r.2.limits?, limits.Representable := by decide
  have htext : (Table.find? "y" (s.workspace.caches 1)).map Entry.text = some "max(a[0])" := by
    decide +kernel
  have hok : (e.compile "max(a[0])").isOk = true := by decide +kernel
  obtain ⟨entry, hentry, htext⟩ := Option.map_eq_some_iff.1 htext
  have hmain := evaluate_eq_evalFormula hlimits hrequests 1 "y" entry hentry
  rw [htext] at hmain
  exact ⟨hlimits, hrequests, entry, hentry, htext, hmain.1, fun context =>
    (hmain.2 e rfl (exists_eq_ok_of_isOk hok) context).1⟩

end FormCalc
