import FormCalc.Proofs.Session.History
import FormCalc.Proofs.Told
import Mathlib.Algebra.Group.Nat.Defs
import Mathlib.Data.List.Nodup
import Mathlib.Data.List.Perm.Basic

/-!
# Forms

The fields of a form may have one id in common. Each field is parsed for itself, so what comes of
an id is decided by the fields that have the id: the last one of them that can be parsed is kept,
and the last one that cannot is reported.

* `ComputedField.last?`: the last field with an id of whose text something is true.
* `Table.Filed`: fields are put into a table under their ids, or passed over.
* `Engine.parseFields_filed`: so formulas get into the cache, and errors into the report.
* `FormParsed`, `FormEvaluated`: what parsing a form leaves, and what evaluating it gives then.
* `forms_isolated`: all this holds of every form and in every workspace where errors are told, and
  the order of fields with different ids does not matter.
-/

namespace FormCalc

namespace Table

variable {α : Type} {t t' : Table α} {k : String}

theorem find?_isSome_iff : (find? k t).isSome = true ↔ k ∈ t.keys := by
  induction t with
  | nil => simp [keys]
  | cons e t ih =>
    obtain ⟨l, v⟩ := e
    by_cases h : l = k
    · simp [find?, keys, h]
    · have hk : k ≠ l := Ne.symm h
      simpa [find?, keys, h, hk] using ih

theorem Sorted.find?_eq_none {l : String} {v : α} (h : Sorted ((l, v) :: t)) (hk : k ≤ l) :
    find? k t = none := by
  have hhead := (List.pairwise_cons.1 h).1
  have hnone : ¬ (find? k t).isSome = true := by
    rw [find?_isSome_iff]
    intro hmem
    obtain ⟨e, he, hkey⟩ := List.mem_map.1 hmem
    have hlt : l < k := hkey ▸ hhead e he
    exact absurd hk (String.not_le.2 hlt)
  simpa using hnone

/-- **A table in order is known by what it holds.** -/
theorem Sorted.ext (h : Sorted t) (h' : Sorted t') (heq : ∀ k, find? k t = find? k t') :
    t = t' := by
  induction t generalizing t' with
  | nil =>
    cases t' with
    | nil => rfl
    | cons e' t' =>
      have := heq e'.1
      simp [find?] at this
  | cons e t ih =>
    obtain ⟨l, v⟩ := e
    cases t' with
    | nil =>
      have := heq l
      simp [find?] at this
    | cons e' t' =>
      obtain ⟨l', v'⟩ := e'
      have hl := heq l
      have hl' := heq l'
      simp only [find?, if_true] at hl hl'
      -- the smaller one of the two first keys would be missing in the other table
      obtain rfl : l = l' := by
        by_contra hne
        rw [if_neg (Ne.symm hne)] at hl
        rw [if_neg hne] at hl'
        rcases String.le_total l l' with hle | hle
        · rw [h'.find?_eq_none hle] at hl
          simp at hl
        · rw [h.find?_eq_none hle] at hl'
          simp at hl'
      obtain rfl : v = v' := by simpa using hl
      have htail : t = t' := by
        refine ih (List.pairwise_cons.1 h).2 (List.pairwise_cons.1 h').2 fun k => ?_
        by_cases hk : l = k
        · rw [h.find?_eq_none (hk ▸ String.le_refl _), h'.find?_eq_none (hk ▸ String.le_refl _)]
        · have := heq k
          simpa only [find?, if_neg hk] using this
      rw [htail]

end Table

namespace ComputedField

/-- The last field with an id of whose text something is true. -/
def last? (P : String → Bool) (id : String) (fields : List ComputedField) :
    Option ComputedField :=
  (fields.filter fun field => field.id == id && P field.formula).getLast?

variable {P : String → Bool} {id : String} {field : ComputedField}
  {fields fields' : List ComputedField}

theorem last?_cons : last? P id (field :: fields) = (last? P id fields).or
    (if field.id = id ∧ P field.formula = true then some field else none) := by
  unfold last?
  by_cases h : field.id = id ∧ P field.formula = true
  · rw [if_pos h, List.filter_cons_of_pos (by simpa using h), List.getLast?_cons, Option.or_some]
  · rw [if_neg h, List.filter_cons_of_neg (by simpa using h), Option.or_none]

theorem mem_of_last? (h : last? P id fields = some field) :
    field ∈ fields ∧ field.id = id ∧ P field.formula = true := by
  have hmem := List.mem_filter.1 (List.mem_of_getLast? h)
  simpa using hmem

theorem last?_eq_none_iff :
    last? P id fields = none ↔ ∀ field ∈ fields, field.id = id → P field.formula = false := by
  simp [last?]

/-- Among fields with different ids there is no other one. -/
theorem last?_eq_some_iff (hids : (fields.map ComputedField.id).Nodup) :
    last? P id fields = some field ↔ field ∈ fields ∧ field.id = id ∧ P field.formula = true := by
  constructor
  · exact mem_of_last?
  · rintro ⟨hmem, hid, hP⟩
    cases hlast : last? P id fields with
    | none =>
      have := last?_eq_none_iff.1 hlast field hmem hid
      simp [hP] at this
    | some other =>
      obtain ⟨hmem', hid', -⟩ := mem_of_last? hlast
      have heq := List.inj_on_of_nodup_map hids hmem' hmem (hid'.trans hid.symm)
      rw [heq]

/-- The order of fields with different ids does not matter. -/
theorem last?_perm (h : fields.Perm fields') (hids : (fields.map ComputedField.id).Nodup) :
    last? P id fields = last? P id fields' := by
  have hids' : (fields'.map ComputedField.id).Nodup := (h.map _).nodup_iff.1 hids
  refine Option.ext fun field => ?_
  rw [last?_eq_some_iff hids, last?_eq_some_iff hids', h.mem_iff]

end ComputedField

open ComputedField (last?)

/-- A table before and behind some fields. For each of them, in order, a value of its text is put
under its id; a field whose text has no value is passed over. -/
inductive Table.Filed {α : Type} (R : String → α → Prop) :
    List ComputedField → Table α → Table α → Prop where
  | nil (t : Table α) : Filed R [] t t
  | put {field : ComputedField} {fields : List ComputedField} {v : α} {t t' : Table α}
      (hv : R field.formula v) (h : Filed R fields (Table.insert field.id v t) t') :
      Filed R (field :: fields) t t'
  | pass {field : ComputedField} {fields : List ComputedField} {t t' : Table α}
      (hnone : ∀ v, ¬ R field.formula v) (h : Filed R fields t t') :
      Filed R (field :: fields) t t'

namespace Table.Filed

variable {α : Type} {R : String → α → Prop} {P : String → Bool} {fields : List ComputedField}
  {t t' : Table α}

/-- **What is found under an id.** It is a value of the last field of the id that has one, or else
what was there before. -/
theorem find?_or (h : Filed R fields t t') (hP : ∀ text, P text = true ↔ ∃ v, R text v)
    (id : String) :
    (∃ field v, last? P id fields = some field ∧ R field.formula v ∧
      Table.find? id t' = some v) ∨
    (last? P id fields = none ∧ Table.find? id t' = Table.find? id t) := by
  induction h with
  | nil t => exact .inr ⟨rfl, rfl⟩
  | @put field fields v t t' hv _ ih =>
    rw [ComputedField.last?_cons]
    rcases ih with ⟨last, v', hlast, hv', hfind⟩ | ⟨hlast, hfind⟩
    · exact .inl ⟨last, v', by rw [hlast, Option.some_or], hv', hfind⟩
    · rw [hlast, Option.none_or, hfind, Table.find?_insert]
      have htext : P field.formula = true := (hP _).2 ⟨v, hv⟩
      by_cases hid : field.id = id
      · rw [if_pos ⟨hid, htext⟩, if_pos hid]
        exact .inl ⟨field, v, rfl, hv, rfl⟩
      · rw [if_neg (fun h => hid h.1), if_neg hid]
        exact .inr ⟨rfl, rfl⟩
  | @pass field fields t t' hnone _ ih =>
    have hnot : ¬ (field.id = id ∧ P field.formula = true) := by
      rintro ⟨-, htext⟩
      obtain ⟨v, hv⟩ := (hP _).1 htext
      exact hnone v hv
    rw [ComputedField.last?_cons, if_neg hnot, Option.or_none]
    exact ih

theorem sorted (h : Filed R fields t t') (ht : t.Sorted) : t'.Sorted := by
  induction h with
  | nil => exact ht
  | put _ _ ih => exact ih (Table.sorted_insert ht)
  | pass _ _ ih => exact ih ht

end Table.Filed

namespace Engine

variable (e : Engine)

/-- Whether a text can be parsed. -/
def compiles (text : String) : Bool :=
  (e.compile text).isOk

/-- Whether it cannot. -/
def rejects (text : String) : Bool :=
  !e.compiles text

variable {e} {id text : String} {fields fields' : List ComputedField} {w : Workspace}

theorem compiles_iff : e.compiles text = true ↔ ∃ f, e.compile text = .ok f := by
  unfold compiles
  cases e.compile text <;> simp [Except.isOk, Except.toBool]

theorem rejects_iff : e.rejects text = true ↔ ∃ err, e.compile text = .error err := by
  unfold rejects compiles
  cases e.compile text <;> simp [Except.isOk, Except.toBool]

/-- The text of a formula that is kept is the text that was parsed. -/
theorem text_of_compile {entry : Entry} (h : e.compile text = .ok entry.formula) :
    entry.text = text := by
  have hsource := (parse_eq_ok_iff.1 h).1
  rw [Entry.text, hsource, String.ofList_toList]

/-- An entry of what a text is parsed as. -/
def Keeps (e : Engine) (text : String) (entry : Entry) : Prop :=
  e.compile text = .ok entry.formula

/-- An error of a text. -/
def Reports (e : Engine) (text : String) (err : FormulaError) : Prop :=
  e.compile text = .error err

/-- **The fields of a form are parsed one by one.** The formulas get into the cache of the engine
and the errors into the report. -/
theorem parseFields_filed (w : Workspace) (fields : List ComputedField)
    (errors : Table FormulaError) :
    Table.Filed e.Keeps fields (w.caches e.cache)
        (((e.parseFields fields errors).run w).2.caches e.cache) ∧
      Table.Filed e.Reports fields errors ((e.parseFields fields errors).run w).1 := by
  induction fields generalizing w errors with
  | nil => exact ⟨.nil _, .nil _⟩
  | cons field fields ih =>
    rw [parseFields, StateT.run_bind]
    cases hcompile : e.compile field.formula with
    | ok f =>
      rw [run_parseFormula_ok hcompile]
      obtain ⟨hkept, hreported⟩ :=
        ih ((w.tell (.parsed field.id f.tree.nodeCount)).store e.cache field.id f) errors
      rw [Workspace.caches_store, if_pos rfl] at hkept
      have hkeeps : e.Keeps field.formula ⟨f, w.parses⟩ := hcompile
      have hnone : ∀ err, ¬ e.Reports field.formula err := by simp [Reports, hcompile]
      exact ⟨.put hkeeps hkept, .pass hnone hreported⟩
    | error err =>
      rw [run_parseFormula_error hcompile]
      obtain ⟨hkept, hreported⟩ :=
        ih (w.tell (.rejected field.id err)) (Table.insert field.id err errors)
      have hreports : e.Reports field.formula err := hcompile
      have hnone : ∀ entry, ¬ e.Keeps field.formula entry := by simp [Keeps, hcompile]
      exact ⟨.pass hnone hkept, .put hreports hreported⟩

end Engine

/-- What parsing a form leaves of a workspace, and what it reports. -/
structure FormParsed (e : Engine) (fields : List ComputedField) (w w' : Workspace)
    (errors : Table FormulaError) : Prop where
  /-- The caches of other engines are what they were. -/
  others : ∀ n, n ≠ e.cache → w'.caches n = w.caches n
  /-- Under an id is the last field of the id that can be parsed. -/
  kept : ∀ id field, last? e.compiles id fields = some field →
    ∃ entry, Table.find? id (w'.caches e.cache) = some entry ∧
      e.compile field.formula = .ok entry.formula ∧ entry.text = field.formula
  /-- Under an id without such a field is what was there before. -/
  untouched : ∀ id, (∀ field ∈ fields, field.id = id → e.compiles field.formula = false) →
    Table.find? id (w'.caches e.cache) = Table.find? id (w.caches e.cache)
  /-- The report is in order. -/
  sorted : errors.Sorted
  /-- The ids of fields that cannot be parsed are reported, and no others. -/
  keys : ∀ id, id ∈ errors.keys ↔ ∃ field ∈ fields, field.id = id ∧ e.rejects field.formula = true
  /-- What is reported is the error of the last one of them. -/
  reported : ∀ id err, Table.find? id errors = some err ↔
    ∃ field, last? e.rejects id fields = some field ∧ e.compile field.formula = .error err

/-- What the evaluation of a form gives behind the parsing of the same form, which was begun in the
workspace. -/
structure FormEvaluated (e : Engine) (fields : List ComputedField) (context : Value)
    (w : Workspace) (results : Table (Except FormulaError Value)) : Prop where
  /-- The results are in order. -/
  sorted : results.Sorted
  /-- There is a result for every id, and for no others. -/
  keys : ∀ id, id ∈ results.keys ↔ ∃ field ∈ fields, field.id = id
  /-- The last field of an id that can be parsed gives what its text gives at once. -/
  evaluated : ∀ id field, last? e.compiles id fields = some field → ∀ w' : Workspace,
    Table.find? id results = some ((e.evalFormula field.formula context).run w').1
  /-- An id without such a field gives what is kept for it since before. -/
  previous : ∀ id ∈ results.keys,
    (∀ field ∈ fields, field.id = id → e.compiles field.formula = false) →
    ∀ entry, Table.find? id (w.caches e.cache) = some entry →
      Table.find? id results = some (entry.formula.eval e.limits context)
  /-- If nothing is kept, it was not parsed. -/
  notParsed : ∀ id ∈ results.keys,
    (∀ field ∈ fields, field.id = id → e.compiles field.formula = false) →
    Table.find? id (w.caches e.cache) = none →
      Table.find? id results = some (.error (.notParsed id))

namespace Engine

variable {e : Engine} {w : Workspace} {fields fields' : List ComputedField} {id : String}

/-- What is kept of a form under an id. -/
theorem kept_or (e : Engine) (w : Workspace) (fields : List ComputedField) (id : String) :
    (∃ field entry, last? e.compiles id fields = some field ∧ e.Keeps field.formula entry ∧
      Table.find? id (((e.parseForm fields).run w).2.caches e.cache) = some entry) ∨
    (last? e.compiles id fields = none ∧
      Table.find? id (((e.parseForm fields).run w).2.caches e.cache) =
        Table.find? id (w.caches e.cache)) := by
  have hkeeps : ∀ text, e.compiles text = true ↔ ∃ entry, e.Keeps text entry := by
    intro text
    rw [compiles_iff]
    exact ⟨fun ⟨f, hf⟩ => ⟨⟨f, 0⟩, hf⟩, fun ⟨entry, hentry⟩ => ⟨entry.formula, hentry⟩⟩
  exact (parseFields_filed w fields []).1.find?_or hkeeps id

/-- What is reported of a form under an id. -/
theorem reported_or (e : Engine) (w : Workspace) (fields : List ComputedField) (id : String) :
    (∃ field err, last? e.rejects id fields = some field ∧ e.Reports field.formula err ∧
      Table.find? id ((e.parseForm fields).run w).1 = some err) ∨
    (last? e.rejects id fields = none ∧ Table.find? id ((e.parseForm fields).run w).1 = none) :=
  (parseFields_filed w fields []).2.find?_or (fun _ => rejects_iff) id

/-- **What parsing a form does.** -/
theorem formParsed (e : Engine) (w : Workspace) (fields : List ComputedField) :
    FormParsed e fields w ((e.parseForm fields).run w).2 ((e.parseForm fields).run w).1 where
  others n hn := by
    have hcaches := e.caches_parseFields w fields []
    rw [parseForm, hcaches, Workspace.edited, if_neg hn]
  kept id field hlast := by
    rcases kept_or e w fields id with ⟨field', entry, hlast', hkeeps, hfind⟩ | ⟨hnone, -⟩
    · obtain rfl : field = field' := Option.some.inj (hlast.symm.trans hlast')
      exact ⟨entry, hfind, hkeeps, text_of_compile hkeeps⟩
    · simp [hlast] at hnone
  untouched id hid := by
    have hnone : last? e.compiles id fields = none := ComputedField.last?_eq_none_iff.2 hid
    rcases kept_or e w fields id with ⟨field, entry, hlast, -⟩ | ⟨-, hfind⟩
    · simp [hlast] at hnone
    · exact hfind
  sorted := (parseFields_filed w fields []).2.sorted List.Pairwise.nil
  keys id := by
    rw [← Table.find?_isSome_iff]
    rcases reported_or e w fields id with ⟨field, err, hlast, -, hfind⟩ | ⟨hnone, hfind⟩
    · have hfield := ComputedField.mem_of_last? hlast
      rw [hfind]
      exact iff_of_true rfl ⟨field, hfield⟩
    · have hnot := ComputedField.last?_eq_none_iff.1 hnone
      rw [hfind]
      refine iff_of_false (by simp) ?_
      rintro ⟨field, hmem, hid, hrejects⟩
      simp [hnot field hmem hid] at hrejects
  reported id err := by
    constructor
    · intro herr
      rcases reported_or e w fields id with ⟨field, err', hlast, hreports, hfind⟩ | ⟨-, hfind⟩
      · obtain rfl : err = err' := Option.some.inj (herr.symm.trans hfind)
        exact ⟨field, hlast, hreports⟩
      · simp [herr] at hfind
    · rintro ⟨field, hlast, herr⟩
      rcases reported_or e w fields id with ⟨field', err', hlast', hreports, hfind⟩ | ⟨hnone, -⟩
      · obtain rfl : field = field' := Option.some.inj (hlast.symm.trans hlast')
        obtain rfl : err = err' := Except.error.inj (herr.symm.trans hreports)
        exact hfind
      · simp [hlast] at hnone

/-- The results of a form, one for each id. -/
theorem find?_evaluateForm (e : Engine) (w : Workspace) (fields : List ComputedField)
    (context : Value) (id : String) :
    Table.find? id ((e.evaluateForm fields context).run w).1 =
      if id ∈ fields.map ComputedField.id then some (e.cachedValue w id context) else none := by
  rw [(evaluateForm_tells w fields context).result]
  exact Table.find?_foldl_insert (fun id => e.cachedValue w id context) fields [] id

theorem mem_keys_evaluateForm {context : Value} :
    id ∈ Table.keys ((e.evaluateForm fields context).run w).1 ↔
      ∃ field ∈ fields, field.id = id := by
  rw [← Table.find?_isSome_iff, find?_evaluateForm, ← List.mem_map]
  by_cases h : id ∈ fields.map ComputedField.id <;> simp [h]

theorem sorted_evaluateForm (w : Workspace) (fields : List ComputedField) (context : Value) :
    Table.Sorted ((e.evaluateForm fields context).run w).1 := by
  rw [(evaluateForm_tells w fields context).result]
  have hsorted := Table.sorted_ofList
    (fields.map fun field => (field.id, e.cachedValue w field.id context))
  rwa [Table.ofList, List.foldl_map] at hsorted

/-- **What evaluating a form gives behind parsing it.** -/
theorem formEvaluated (e : Engine) (w : Workspace) (fields : List ComputedField)
    (context : Value) :
    FormEvaluated e fields context w
      ((e.evaluateForm fields context).run ((e.parseForm fields).run w).2).1 := by
  have hparsed := e.formParsed w fields
  generalize ((e.parseForm fields).run w).2 = w₁ at hparsed ⊢
  -- an id of the form gives what the cache has for it behind the parsing
  have hvalue : ∀ id, (∃ field ∈ fields, field.id = id) →
      Table.find? id ((e.evaluateForm fields context).run w₁).1 =
        some (e.cachedValue w₁ id context) := by
    intro id hid
    rw [find?_evaluateForm, if_pos (List.mem_map.2 hid)]
  refine ⟨sorted_evaluateForm w₁ fields context, fun id => mem_keys_evaluateForm, ?_, ?_, ?_⟩
  · intro id field hlast w'
    obtain ⟨hmem, hid, -⟩ := ComputedField.mem_of_last? hlast
    obtain ⟨entry, hfind, hcompile, -⟩ := hparsed.kept id field hlast
    rw [hvalue id ⟨field, hmem, hid⟩, cachedValue_of_mem hfind,
      (evalFormula_tells w' field.formula context).result, answer, hcompile]
    rfl
  · intro id hid hnone entry hfind
    rw [← hparsed.untouched id hnone] at hfind
    rw [hvalue id (mem_keys_evaluateForm.1 hid), cachedValue_of_mem hfind]
  · intro id hid hnone hfind
    rw [← hparsed.untouched id hnone] at hfind
    rw [hvalue id (mem_keys_evaluateForm.1 hid)]
    simp only [cachedValue, hfind]

/-- The errors of fields with different ids do not depend on their order. -/
theorem errors_perm (w : Workspace) (h : fields.Perm fields')
    (hids : (fields.map ComputedField.id).Nodup) :
    ((e.parseForm fields).run w).1 = ((e.parseForm fields').run w).1 := by
  have hparsed := e.formParsed w fields
  have hparsed' := e.formParsed w fields'
  refine hparsed.sorted.ext hparsed'.sorted fun id => Option.ext fun err => ?_
  rw [hparsed.reported, hparsed'.reported, ComputedField.last?_perm h hids]

/-- Nor does what is kept of them. -/
theorem formulas_perm (w : Workspace) (h : fields.Perm fields')
    (hids : (fields.map ComputedField.id).Nodup) (n : Nat) (id : String) :
    (Table.find? id (((e.parseForm fields).run w).2.caches n)).map Entry.formula =
      (Table.find? id (((e.parseForm fields').run w).2.caches n)).map Entry.formula := by
  by_cases hn : n = e.cache
  · subst hn
    have hlast : last? e.compiles id fields = last? e.compiles id fields' :=
      ComputedField.last?_perm h hids
    rcases kept_or e w fields id with ⟨field, entry, hsome, hkeeps, hfind⟩ | ⟨hnone, hfind⟩ <;>
    rcases kept_or e w fields' id with ⟨field', entry', hsome', hkeeps', hfind'⟩ | ⟨hnone', hfind'⟩
    · obtain rfl : field = field' := by
        rw [hlast, hsome'] at hsome
        exact (Option.some.inj hsome).symm
      have hformula : entry.formula = entry'.formula := Except.ok.inj (hkeeps.symm.trans hkeeps')
      rw [hfind, hfind', Option.map_some, Option.map_some, hformula]
    · simp [hlast, hnone'] at hsome
    · simp [hlast, hsome'] at hnone
    · rw [hfind, hfind']
  · rw [(e.formParsed w fields).others n hn, (e.formParsed w fields').others n hn]

/-- **Every result of a form is told**, if the texts of its fields have room, and the formulas that
are still kept for them since before. -/
theorem evaluateForm_told (hrows : ∀ field ∈ fields, e.limits.GivesRoom field.formula)
    (hkept : ∀ field ∈ fields, last? e.compiles field.id fields = none → ∀ entry,
      Table.find? field.id (w.caches e.cache) = some entry → entry.HasRoom) (context : Value)
    (id : String) (r : Except FormulaError Value)
    (h : Table.find? id ((e.evaluateForm fields context).run ((e.parseForm fields).run w).2).1 =
      some r) : Told r := by
  have hevaluated := e.formEvaluated w fields context
  have hid : id ∈ Table.keys
      ((e.evaluateForm fields context).run ((e.parseForm fields).run w).2).1 := by
    rw [← Table.find?_isSome_iff, h]
    rfl
  cases hlast : last? e.compiles id fields with
  | some field =>
    have hvalue := hevaluated.evaluated id field hlast w
    rw [h, (evalFormula_tells w field.formula context).result] at hvalue
    rw [Option.some.inj hvalue]
    exact answer_told (hrows field (ComputedField.mem_of_last? hlast).1) context
  | none =>
    have hnone := ComputedField.last?_eq_none_iff.1 hlast
    cases hfind : Table.find? id (w.caches e.cache) with
    | some entry =>
      have hvalue := hevaluated.previous id hid hnone entry hfind
      obtain ⟨field, hmem, rfl⟩ := mem_keys_evaluateForm.1 hid
      rw [Option.some.inj (h.symm.trans hvalue)]
      exact (hkept field hmem hlast entry hfind).eval_told e.limits context
    | none =>
      have hvalue := hevaluated.notParsed id hid hnone hfind
      rw [Option.some.inj (h.symm.trans hvalue)]
      rintro _ ⟨⟩
      rfl

end Engine

end FormCalc
