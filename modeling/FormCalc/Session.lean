import FormCalc.Engine
import FormCalc.Limits.Json

/-!
# Sessions

A session is a run of requests to engines that go by names. Formulas can be taken out of a cache
under a name of their own and put into another cache. Contexts and forms are given as JSON text;
one that cannot be read is the reply to its request, and the session goes on.

* `Request`, `Reply`: what is asked and what is answered.
* `Session.step`: one request.
-/

namespace FormCalc

/-- The engines of a session, the number of caches they use, the formulas that were taken out of
caches, and the workspace. -/
structure Session where
  engines : Table Engine := []
  cacheCount : Nat := 0
  held : Table Entry := []
  workspace : Workspace := {}

/-- What can be asked of an engine. A context that is not given is the empty object. -/
inductive Request where
  | create (share? : Option String) (limits? : Option Limits)
  | copyOf (engine : String) (limits? : Option Limits)
  | parse (id text : String)
  | evaluate (id : String) (context? : Option String)
  | validate (text : String)
  | eval (text : String) (context? : Option String)
  | parseForm (fields : String)
  | evaluateForm (fields : String) (context? : Option String)
  | get (id : String)
  | hold (id handle : String)
  | insert (id handle : String)
  | evalHeld (handle : String) (context? : Option String)
  | isSame (id handle : String)
  | remove (id : String)
  | contains (id : String)
  | clear
  | info

/-- What is answered. -/
inductive Reply where
  | done
  | absent
  | flag (b : Bool)
  | limits (l : Limits)
  | failed (e : FormulaError)
  | value (v : Value)
  | verdict (v : Verdict)
  | errors (t : Table FormulaError)
  | results (t : Table (Except FormulaError Value))
  | formula (text : String) (tree : Expr)
  | removed (text : String)
  | info (ids : List String) (l : Limits)
  | unreadable (f : Json.Fault)

/-- The reply to a result. -/
def Reply.ofResult : Except FormulaError Value → Reply
  | .ok v => .value v
  | .error e => .failed e

/-- Reads a context. -/
def readContext : Option String → Except Json.Fault Value
  | none => .ok .emptyObject
  | some text => Value.read text

namespace Session

/-- The cache of an engine. -/
def cache (s : Session) (e : Engine) : Cache :=
  s.workspace.caches e.cache

/-- Lets an engine act in the workspace. -/
def act {α : Type} (s : Session) (action : Action α) : α × Session :=
  let (a, w) := action.run s.workspace
  (a, { s with workspace := w })

/-- Names an engine. -/
def name (s : Session) (engine : String) (e : Engine) : Session :=
  { s with engines := Table.insert engine e s.engines }

/-- A new engine, with the cache of another one or with a cache of its own. -/
def create (s : Session) (engine : String) (share? : Option String) (limits : Limits) : Session :=
  match share?.bind fun other => Table.find? other s.engines with
  | some other => s.name engine ⟨other.cache, limits⟩
  | none => { s.name engine ⟨s.cacheCount, limits⟩ with cacheCount := s.cacheCount + 1 }

/-- A session with one engine. -/
def start (engine : String) (limits : Limits) : Session :=
  ({} : Session).create engine none limits

/-- Does what needs a context, if the context can be read. -/
def withContext (s : Session) (context? : Option String) (f : Value → Reply × Session) :
    Reply × Session :=
  match readContext context? with
  | .ok context => f context
  | .error fault => (.unreadable fault, s)

/-- Does what needs the fields of a form, if they can be read. -/
def withFields (s : Session) (fields : String) (f : List ComputedField → Reply × Session) :
    Reply × Session :=
  match ComputedField.readForm fields with
  | .ok fields => f fields
  | .error fault => (.unreadable fault, s)

/-- Answers a request to an engine. -/
def answer (s : Session) (e : Engine) : Request → Reply × Session
  | .create .. | .copyOf .. => (.absent, s)
  | .parse id text =>
    let (r, s) := s.act (e.parseFormula id text)
    match r with
    | .ok _ => (.done, s)
    | .error err => (.failed err, s)
  | .evaluate id context? => s.withContext context? fun context =>
    let (r, s) := s.act (e.evaluate id context)
    (.ofResult r, s)
  | .validate text => (.verdict (e.validate text), s)
  | .eval text context? => s.withContext context? fun context =>
    let (r, s) := s.act (e.evalFormula text context)
    (.ofResult r, s)
  | .parseForm fields => s.withFields fields fun fields =>
    let (errors, s) := s.act (e.parseForm fields)
    (.errors errors, s)
  | .evaluateForm fields context? => s.withContext context? fun context =>
    s.withFields fields fun fields =>
      let (results, s) := s.act (e.evaluateForm fields context)
      (.results results, s)
  | .get id =>
    match Table.find? id (s.cache e) with
    | some entry => (.formula entry.text entry.formula.tree, s)
    | none => (.absent, s)
  | .hold id handle =>
    match Table.find? id (s.cache e) with
    | some entry => (.flag true, { s with held := Table.insert handle entry s.held })
    | none => (.flag false, s)
  | .insert id handle =>
    match Table.find? handle s.held with
    | some entry =>
      (.done, { s with workspace := s.workspace.change e.cache (Table.insert id entry) })
    | none => (.absent, s)
  | .evalHeld handle context? =>
    match Table.find? handle s.held with
    | some entry => s.withContext context? fun context =>
      let (r, s) := s.act (e.evalParsed entry.formula context)
      (.ofResult r, s)
    | none => (.absent, s)
  | .isSame id handle =>
    match Table.find? handle s.held, Table.find? id (s.cache e) with
    | some entry, some cached => (.flag (cached.stamp == entry.stamp), s)
    | _, _ => (.absent, s)
  | .remove id =>
    match Table.find? id (s.cache e) with
    | some entry =>
      (.removed entry.text, { s with workspace := s.workspace.change e.cache (Table.erase id) })
    | none => (.absent, s)
  | .contains id => (.flag (Table.find? id (s.cache e)).isSome, s)
  | .clear => (.done, { s with workspace := s.workspace.change e.cache fun _ => [] })
  | .info => (.info (s.cache e).keys e.limits, s)

/-- Answers a request to the engine of a name. Creating and copying name an engine anew. -/
def step (s : Session) (engine : String) : Request → Reply × Session
  | .create share? limits? =>
    let limits := limits?.getD Limits.standard
    (.limits limits, s.create engine share? limits)
  | .copyOf other limits? =>
    match Table.find? other s.engines with
    | some e =>
      let e := { e with limits := limits?.getD e.limits }
      (.limits e.limits, s.name engine e)
    | none => (.absent, s)
  | r =>
    match Table.find? engine s.engines with
    | some e => s.answer e r
    | none => (.absent, s)

/-- The ids in the cache of every engine, by the name of the engine. -/
def idsByEngine (s : Session) : List (String × List String) :=
  s.engines.map fun (engine, e) => (engine, (s.cache e).keys)

/-- Takes the events out of the log. -/
def drain (s : Session) : List Event × Session :=
  (s.workspace.log, { s with workspace := { s.workspace with log := [] } })

end Session

end FormCalc
