import FormCalc.Proofs.Effects
import FormCalc.Session
import Mathlib.Data.List.Induction

/-!
# The history of a cache

What requests do to a cache is told as edits. A request through an engine edits the cache of the
engine only, and the edits can be told before the request is answered.

* `Edit`: a formula is kept under an id or dropped, or all are dropped.
* `Session.edits`: what a request does to a cache.
* `caches_step`, `caches_run`: these edits are all that happens to the cache.
* `Edit.latest?`: the last edit that concerns an id.
* `find?_applyAll_iff`: it decides what the cache has under the id.
-/

namespace FormCalc

/-- What is done to a cache. -/
inductive Edit where
  | keep (id : String) (entry : Entry)
  | drop (id : String)
  | clear

namespace Edit

/-- The cache behind an edit. -/
def apply (cache : Cache) : Edit → Cache
  | .keep id entry => Table.insert id entry cache
  | .drop id => Table.erase id cache
  | .clear => []

/-- The cache behind edits, the first one first. -/
def applyAll (cache : Cache) (edits : List Edit) : Cache :=
  edits.foldl apply cache

/-- Whether an edit has to do with an id. -/
def concerns (id : String) : Edit → Bool
  | .keep k _ | .drop k => k == id
  | .clear => true

/-- The formula that is kept by an edit. -/
def kept? : Edit → Option Entry
  | .keep _ entry => some entry
  | .drop _ | .clear => none

/-- The last edit that has to do with an id. -/
def latest? (id : String) (edits : List Edit) : Option Edit :=
  (edits.filter (concerns id)).getLast?

@[simp] theorem applyAll_nil (cache : Cache) : applyAll cache [] = cache := rfl

@[simp] theorem applyAll_cons (cache : Cache) (x : Edit) (edits : List Edit) :
    applyAll cache (x :: edits) = applyAll (x.apply cache) edits := rfl

theorem applyAll_append (cache : Cache) (xs ys : List Edit) :
    applyAll cache (xs ++ ys) = applyAll (applyAll cache xs) ys :=
  List.foldl_append

/-- An edit decides about the ids that it concerns and leaves the others alone. -/
theorem find?_apply (cache : Cache) (x : Edit) (id : String) :
    Table.find? id (x.apply cache) =
      if x.concerns id then x.kept? else Table.find? id cache := by
  cases x with
  | keep k entry => simp [apply, concerns, kept?, Table.find?_insert]
  | drop k => simp [apply, concerns, kept?, Table.find?_erase]
  | clear => simp [apply, concerns, kept?]

theorem latest?_concat (id : String) (edits : List Edit) (x : Edit) :
    latest? id (edits ++ [x]) = if x.concerns id then some x else latest? id edits := by
  unfold latest?
  by_cases h : x.concerns id <;> simp [h]

/-- Behind all edits a look-up finds what the last one of them that concerns the id has kept. -/
theorem find?_applyAll (edits : List Edit) (id : String) :
    Table.find? id (applyAll [] edits) = (latest? id edits).bind kept? := by
  induction edits using List.reverseRecOn with
  | nil => rfl
  | append_singleton edits x ih =>
    rw [applyAll_append, applyAll_cons, applyAll_nil, find?_apply, latest?_concat, ih]
    split <;> rfl

theorem concerns_of_latest? {id : String} {edits : List Edit} {x : Edit}
    (h : latest? id edits = some x) : x.concerns id = true := by
  have hmem := List.mem_of_getLast? h
  exact (List.mem_filter.1 hmem).2

/-- **A cache has exactly what was kept last.** -/
theorem find?_applyAll_iff {edits : List Edit} {id : String} {entry : Entry} :
    Table.find? id (applyAll [] edits) = some entry ↔
      latest? id edits = some (.keep id entry) := by
  rw [find?_applyAll]
  constructor
  · intro h
    obtain ⟨x, hx, hentry⟩ := Option.bind_eq_some_iff.1 h
    have hid := concerns_of_latest? hx
    cases x with
    | keep k kept =>
      obtain rfl : k = id := by simpa [concerns] using hid
      obtain rfl : kept = entry := by simpa [kept?] using hentry
      exact hx
    | drop k => simp [kept?] at hentry
    | clear => simp [kept?] at hentry
  · intro h
    rw [h]
    rfl

end Edit

/-- What an engine keeps of some fields, if it has parsed so often before: the formulas of those
that can be parsed, in order. -/
def Engine.kept (e : Engine) (parses : Nat) : List ComputedField → List Edit
  | [] => []
  | field :: fields =>
    match e.compile field.formula with
    | .ok f => .keep field.id ⟨f, parses⟩ :: e.kept (parses + 1) fields
    | .error _ => e.kept parses fields

/-- The caches behind edits of one of them. -/
def Workspace.edited (w : Workspace) (cache : Nat) (edits : List Edit) : Nat → Cache :=
  fun n => if n = cache then Edit.applyAll (w.caches n) edits else w.caches n

@[simp] theorem Workspace.edited_nil (w : Workspace) (cache : Nat) :
    w.edited cache [] = w.caches := by
  funext n
  simp [edited]

/-- Edits of a cache, and more edits of it behind them. -/
theorem Workspace.edited_edited {w w' : Workspace} {cache : Nat} {xs : List Edit}
    (h : w'.caches = w.edited cache xs) (ys : List Edit) :
    w'.edited cache ys = w.edited cache (xs ++ ys) := by
  funext n
  by_cases hn : n = cache <;> simp [edited, h, hn, Edit.applyAll_append]

/-- A formula that is stored is kept with the number of parses before it. -/
theorem Workspace.store_edited (w : Workspace) (event : Event) (cache : Nat) (id : String)
    (f : Formula) :
    ((w.tell event).store cache id f).caches = w.edited cache [.keep id ⟨f, w.parses⟩] := by
  funext n
  rw [caches_store]
  rfl

/-- The cache behind the formula of one field. -/
theorem Engine.caches_parseFormula (e : Engine) (w : Workspace) (id text : String) :
    ((e.parseFormula id text).run w).2.caches =
      w.edited e.cache (e.kept w.parses [{ id := id, formula := text }]) := by
  cases hcompile : e.compile text with
  | ok f =>
    simp only [run_parseFormula_ok hcompile, Workspace.store_edited, kept, hcompile]
  | error err =>
    simp only [run_parseFormula_error hcompile, Workspace.edited_nil, kept, hcompile]

/-- **The cache behind the fields of a form.** Only parsing changes it. -/
theorem Engine.caches_parseFields (e : Engine) (w : Workspace) (fields : List ComputedField)
    (errors : Table FormulaError) :
    ((e.parseFields fields errors).run w).2.caches = w.edited e.cache (e.kept w.parses fields) := by
  induction fields generalizing w errors with
  | nil => exact (w.edited_nil _).symm
  | cons field fields ih =>
    cases hcompile : e.compile field.formula with
    | ok f =>
      have hrun : (e.parseFields (field :: fields) errors).run w = (e.parseFields fields errors).run
          ((w.tell (.parsed field.id f.tree.nodeCount)).store e.cache field.id f) := by
        rw [parseFields, StateT.run_bind, run_parseFormula_ok hcompile]
        rfl
      rw [hrun, ih, Workspace.edited_edited (w.store_edited _ _ _ _)]
      simp only [kept, hcompile]
      rfl
    | error err =>
      have hrun : (e.parseFields (field :: fields) errors).run w =
          (e.parseFields fields (Table.insert field.id err errors)).run
            (w.tell (.rejected field.id err)) := by
        rw [parseFields, StateT.run_bind, run_parseFormula_error hcompile]
        rfl
      rw [hrun, ih]
      simp only [kept, hcompile]
      rfl

namespace Session

/-- What a request to an engine does to the cache of the engine. -/
def editsBy (s : Session) (e : Engine) : Request → List Edit
  | .parse id text => e.kept s.workspace.parses [{ id := id, formula := text }]
  | .parseForm fields =>
    match ComputedField.readForm fields with
    | .ok fields => e.kept s.workspace.parses fields
    | .error _ => []
  | .insert id handle =>
    match Table.find? handle s.held with
    | some entry => [.keep id entry]
    | none => []
  | .remove id =>
    match Table.find? id (s.cache e) with
    | some _ => [.drop id]
    | none => []
  | .clear => [.clear]
  | _ => []

/-- What a request to the engine of a name does to a cache. -/
def edits (s : Session) (cache : Nat) (engine : String) (r : Request) : List Edit :=
  match Table.find? engine s.engines with
  | some e => if e.cache = cache then s.editsBy e r else []
  | none => []

/-- Where a context is not readable nothing happens. -/
theorem caches_withContext {s : Session} {context? : Option String} {f : Value → Reply × Session}
    (h : ∀ context, (f context).2.workspace.caches = s.workspace.caches) :
    (s.withContext context? f).2.workspace.caches = s.workspace.caches := by
  unfold withContext
  split
  · exact h _
  · rfl

/-- An action that only tells the log. -/
theorem caches_act {s : Session} {α : Type} {action : Action α} {x : α}
    (h : Tells s.workspace action x) :
    (s.act action).2.workspace.caches = s.workspace.caches :=
  h.logged.caches

/-- A request that edits nothing and after which the caches are what they were. -/
theorem caches_answer_of_unedited {s : Session} {e : Engine} {r : Request}
    (hedits : s.editsBy e r = []) (h : (s.answer e r).2.workspace.caches = s.workspace.caches) :
    (s.answer e r).2.workspace.caches = s.workspace.edited e.cache (s.editsBy e r) := by
  rw [hedits, h, Workspace.edited_nil]

/-- **The caches behind a request to an engine.** -/
theorem caches_answer (s : Session) (e : Engine) (r : Request) :
    (s.answer e r).2.workspace.caches = s.workspace.edited e.cache (s.editsBy e r) := by
  cases r with
  | parse id text =>
    rw [editsBy, ← e.caches_parseFormula]
    simp only [answer, act]
    split <;> rfl
  | parseForm fields =>
    simp only [answer, withFields, editsBy]
    cases ComputedField.readForm fields with
    | ok fields => exact e.caches_parseFields s.workspace fields []
    | error fault => exact (s.workspace.edited_nil _).symm
  | insert id handle =>
    simp only [answer, editsBy]
    cases Table.find? handle s.held with
    | some entry => rfl
    | none => exact (s.workspace.edited_nil _).symm
  | remove id =>
    simp only [answer, editsBy]
    cases Table.find? id (s.cache e) with
    | some entry => rfl
    | none => exact (s.workspace.edited_nil _).symm
  | clear => rfl
  | evaluate id context? =>
    have hact : ∀ context, (s.act (e.evaluate id context)).2.workspace.caches =
        s.workspace.caches := fun context => caches_act (Engine.evaluate_tells _ id context)
    exact caches_answer_of_unedited rfl (caches_withContext hact)
  | eval text context? =>
    exact caches_answer_of_unedited rfl (caches_withContext fun context =>
      caches_act (Engine.evalFormula_tells (e := e) s.workspace text context))
  | evaluateForm fields context? =>
    refine caches_answer_of_unedited rfl (caches_withContext fun context => ?_)
    unfold withFields
    split
    · exact caches_act (Engine.evaluateForm_tells (e := e) s.workspace _ context)
    · rfl
  | evalHeld handle context? =>
    refine caches_answer_of_unedited rfl ?_
    simp only [answer]
    cases Table.find? handle s.held with
    | some entry =>
      exact caches_withContext fun context =>
        caches_act (Engine.evalParsed_tells (e := e) s.workspace entry.formula context)
    | none => rfl
  | isSame id handle | get id | hold id handle =>
    refine caches_answer_of_unedited rfl ?_
    simp only [answer]
    split <;> rfl
  | _ => exact (s.workspace.edited_nil _).symm

/-- Naming an engine does not touch the workspace. -/
theorem workspace_create (s : Session) (engine : String) (share? : Option String)
    (limits : Limits) : (s.create engine share? limits).workspace = s.workspace := by
  unfold create
  split <;> rfl

theorem edits_eq_nil {s : Session} {r : Request} (h : ∀ e, s.editsBy e r = []) (n : Nat)
    (engine : String) : s.edits n engine r = [] := by
  unfold edits
  split
  · split
    · exact h _
    · rfl
  · rfl

/-- **The caches behind a request.** -/
theorem caches_step (s : Session) (engine : String) (r : Request) (n : Nat) :
    (s.step engine r).2.workspace.caches n =
      Edit.applyAll (s.workspace.caches n) (s.edits n engine r) := by
  have hanswer : ∀ e, Table.find? engine s.engines = some e →
      (s.answer e r).2.workspace.caches n =
        Edit.applyAll (s.workspace.caches n) (s.edits n engine r) := by
    intro e he
    simp only [caches_answer, edits, he, Workspace.edited]
    by_cases hn : n = e.cache
    · rw [if_pos hn, if_pos hn.symm]
    · rw [if_neg hn, if_neg (Ne.symm hn), Edit.applyAll_nil]
  cases r with
  | create share? limits? =>
    rw [edits_eq_nil fun e => rfl]
    simp only [step, workspace_create, Edit.applyAll_nil]
  | copyOf other limits? =>
    rw [edits_eq_nil fun e => rfl]
    simp only [step]
    split <;> rfl
  | _ =>
    -- every other request goes to the engine of the name, if there is one
    simp only [step]
    split
    · rename_i e he
      exact hanswer e he
    · rename_i he
      simp only [edits, he, Edit.applyAll_nil]

/-- The session behind requests to engines, the first one first. -/
def run (s : Session) (requests : List (String × Request)) : Session :=
  requests.foldl (fun s r => (s.step r.1 r.2).2) s

/-- What requests do to a cache. -/
def history (cache : Nat) (s : Session) : List (String × Request) → List Edit
  | [] => []
  | r :: requests => s.edits cache r.1 r.2 ++ history cache (s.step r.1 r.2).2 requests

/-- **The caches behind requests.** -/
theorem caches_run (s : Session) (requests : List (String × Request)) (n : Nat) :
    (s.run requests).workspace.caches n =
      Edit.applyAll (s.workspace.caches n) (s.history n requests) := by
  induction requests generalizing s with
  | nil => rfl
  | cons r requests ih =>
    rw [history, Edit.applyAll_append, ← caches_step]
    exact ih _

end Session

end FormCalc
