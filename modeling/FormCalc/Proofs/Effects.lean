import FormCalc.Engine
import FormCalc.Proofs.Result

/-!
# What engines do in a workspace

Evaluation looks into the cache of the engine and tells the log; only parsing changes a cache.

* `Tells`: an action returns a value and does nothing but tell the log.
* `Engine.answer`, `Engine.cachedValue`: the value of a text, and of the formula that is kept for a
  field.
* `evalFormula_tells`, `evaluate_tells`, `evaluateForm_tells`: that is what evaluation returns.
* `run_parseFormula_ok`, `run_parseFormula_error`: what parsing does to the workspace.
-/

namespace FormCalc

/-- What a table holds after an insertion for each of some fields. The value may depend on the id
only. -/
theorem Table.find?_foldl_insert {α : Type} (value : String → α) (fields : List ComputedField)
    (t : Table α) (id : String) :
    Table.find? id (fields.foldl (fun t field => Table.insert field.id (value field.id) t) t) =
      if id ∈ fields.map ComputedField.id then some (value id) else Table.find? id t := by
  induction fields generalizing t with
  | nil => simp
  | cons field fields ih =>
    rw [List.foldl_cons, ih, Table.find?_insert]
    grind

/-- Nothing but the log is different. -/
structure Workspace.Logged (w w' : Workspace) : Prop where
  caches : w'.caches = w.caches
  parses : w'.parses = w.parses

namespace Workspace.Logged

theorem refl (w : Workspace) : w.Logged w := ⟨rfl, rfl⟩

theorem trans {w₁ w₂ w₃ : Workspace} (h : w₁.Logged w₂) (h' : w₂.Logged w₃) : w₁.Logged w₃ :=
  ⟨h'.caches.trans h.caches, h'.parses.trans h.parses⟩

theorem tell (w : Workspace) (e : Event) : w.Logged (w.tell e) := ⟨rfl, rfl⟩

end Workspace.Logged

/-- From a workspace the action returns `x` and does nothing but tell the log. -/
structure Tells {α : Type} (w : Workspace) (action : Action α) (x : α) : Prop where
  result : (action.run w).1 = x
  logged : w.Logged (action.run w).2

namespace Tells

variable {α β : Type} {w : Workspace} {action : Action α} {f : α → Action β} {x : α} {y : β}

theorem pure (w : Workspace) (x : α) : Tells w (Pure.pure x) x := ⟨rfl, .refl w⟩

theorem tell (w : Workspace) (e : Event) : Tells w (modify (·.tell e)) () := ⟨rfl, .tell w e⟩

/-- The second action goes on where the log has grown. -/
theorem bind (h : Tells w action x) (hf : ∀ w', w.Logged w' → Tells w' (f x) y) :
    Tells w (action >>= f) y := by
  have hnext := hf _ h.logged
  rw [← h.result] at hnext
  exact ⟨hnext.result, h.logged.trans hnext.logged⟩

end Tells

namespace Engine

variable (e : Engine) {id text : String} {context : Value} {w w' : Workspace} {err : FormulaError}
  {f : Formula}

/-- The value of a text in a context, if the text is a formula. -/
def answer (text : String) (context : Value) : Except FormulaError Value :=
  e.compile text >>= fun f => f.eval e.limits context

/-- The value of the formula that the cache has under an id. -/
def cachedValue (w : Workspace) (id : String) (context : Value) : Except FormulaError Value :=
  match Table.find? id (w.caches e.cache) with
  | some entry => entry.formula.eval e.limits context
  | none => .error (.notParsed id)

variable {e}

/-- What was told before does not matter to the formula that is kept. -/
theorem cachedValue_eq_of_logged (h : w.Logged w') :
    e.cachedValue w' id context = e.cachedValue w id context := by
  unfold cachedValue
  rw [h.caches]

theorem cachedValue_of_mem {entry : Entry} (h : Table.find? id (w.caches e.cache) = some entry) :
    e.cachedValue w id context = entry.formula.eval e.limits context := by
  simp only [cachedValue, h]

theorem evalParsed_tells (w : Workspace) (f : Formula) (context : Value) :
    Tells w (e.evalParsed f context) (f.eval e.limits context) := by
  unfold evalParsed
  cases f.eval e.limits context with
  | ok v => exact (Tells.tell w _).bind fun w' _ => .pure w' _
  | error err => exact .pure w _

/-- **One-shot evaluation** returns the value of the text. -/
theorem evalFormula_tells (w : Workspace) (text : String) (context : Value) :
    Tells w (e.evalFormula text context) (e.answer text context) := by
  unfold evalFormula answer
  cases e.compile text with
  | ok f => exact evalParsed_tells w f context
  | error err => exact .pure w _

/-- **Evaluation of a field** returns the value of the formula that is kept for it. -/
theorem evaluate_tells (w : Workspace) (id : String) (context : Value) :
    Tells w (e.evaluate id context) (e.cachedValue w id context) := by
  have hget : Tells w (get : Action Workspace) w := ⟨rfl, .refl w⟩
  refine hget.bind fun w₁ h₁ => ?_
  unfold cachedValue
  cases Table.find? id (w.caches e.cache) with
  | none => exact .pure w₁ _
  | some entry => exact (Tells.tell w₁ _).bind fun w₂ _ => evalParsed_tells w₂ entry.formula context

/-- The results of fields one after the other. Nothing that is told for one of them changes what
is kept for the next. -/
theorem evaluateFields_tells (w : Workspace) (context : Value) (fields : List ComputedField)
    (results : Table (Except FormulaError Value)) :
    Tells w (e.evaluateFields context fields results)
      (fields.foldl (fun t field => Table.insert field.id (e.cachedValue w field.id context) t)
        results) := by
  induction fields generalizing w results with
  | nil => exact .pure w _
  | cons field fields ih =>
    refine (evaluate_tells w field.id context).bind fun w' h => ?_
    have hrest := ih w' (Table.insert field.id (e.cachedValue w field.id context) results)
    simp only [cachedValue_eq_of_logged h] at hrest
    exact hrest

/-- **Evaluation of a form** returns one result for each id. -/
theorem evaluateForm_tells (w : Workspace) (fields : List ComputedField) (context : Value) :
    Tells w (e.evaluateForm fields context)
      (fields.foldl (fun t field => Table.insert field.id (e.cachedValue w field.id context) t)
        []) :=
  evaluateFields_tells w context fields []

/-- Where a text is no formula, nothing happens. -/
theorem run_parseFormula_error (h : e.compile text = .error err) :
    (e.parseFormula id text).run w = (.error err, w) := by
  simp only [parseFormula, h]
  rfl

/-- A formula is counted and kept. -/
theorem run_parseFormula_ok (h : e.compile text = .ok f) :
    (e.parseFormula id text).run w =
      (.ok (), (w.tell (.parsed id f.tree.nodeCount)).store e.cache id f) := by
  simp only [parseFormula, h]
  rfl

end Engine

end FormCalc
