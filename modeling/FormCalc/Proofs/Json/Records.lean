import FormCalc.Form
import FormCalc.Limits.Json
import FormCalc.Proofs.Ceilings
import FormCalc.Proofs.Json.Members

/-!
# The records read back

Fields, verdicts and ceilings are written as objects. They read back from what is written, and from
every rearrangement of it.

* `content`, `defaults`: what is written of each of them, and what may be omitted.
* `collects`: their record forms collect their content.
* `records_read_back`: they read back.
-/

namespace FormCalc

open Json (Datum Rearranged ObjectText)
open List (Forall₂)

namespace Json

variable {α σ : Type} {ks : List String} {k name : String} {a : α}

/-- What has been filled in for a name. -/
def given (ks : List String) (k : String) (a : α) : Option α :=
  if k ∈ ks then some a else none

theorem isSome_given : (given ks k a).isSome = true ↔ k ∈ ks := by
  unfold given
  split <;> simp_all

/-- What has not been filled in is the default. -/
theorem getD_given {d : α} (h : k ∉ ks → a = d) : (given ks k a).getD d = a := by
  unfold given
  split
  · rfl
  · exact (h ‹_›).symm

/-- A member that is read by a reader of its content and put into the draft. -/
theorem Member.collects {draft : List String → σ} {required : Bool} {filled : σ → Bool}
    {r : Reader α} {put : α → σ → σ} {d : Datum} (hfilled : ∀ ks, filled (draft ks) ↔ name ∈ ks)
    (htakes : ∀ cs, d.Spelled cs → Takes r cs a)
    (hput : ∀ ks, put a (draft ks) = draft (name :: ks)) :
    Member.Collects draft ⟨name, required, filled, r >>= fun x => pure (put x)⟩ (name, d) where
  name := rfl
  filled := hfilled
  fill := ⟨put a, fun cs hcs => (htakes cs hcs).map put, hput⟩

theorem document_map {β : Type} (f : α → β) (r : Reader α) (text : String) :
    document (f <$> r) text = (document r text).map f := by
  have hmap : (f <$> r) text.toList = (r text.toList).map fun p => (f p.1, p.2) := by
    change (r text.toList >>= fun p => pure (f p.1, p.2)) = _
    cases r text.toList <;> rfl
  unfold document
  rw [hmap]
  cases r text.toList with
  | error e => rfl
  | ok p =>
    change (if _ then _ else _) = Except.map f (if _ then _ else _)
    split <;> rfl

/-- **A record that collects its content reads back** from what is written, and from every
rearrangement. -/
theorem Record.Collects.read_back {β : Type} {r : Record σ} {own defaults : List (String × Datum)}
    {draft : List String → σ} {ofDraft : σ → β} {b : β} {written : List Char}
    (h : r.Collects own defaults draft)
    (hdraft : ∀ ks, (∀ p ∈ own, p.1 ∉ ks → p ∈ defaults) → ofDraft (draft ks) = b)
    (hwritten : ∃ ms, written = objectText ms ∧ Rearranged own defaults ms) :
    (document (record r) (String.ofList written)).map ofDraft = .ok b ∧
    ∀ cs ms, ObjectText cs ms → Rearranged own defaults ms →
      (document (record r) (String.ofList cs)).map ofDraft = .ok b := by
  have hread : ∀ cs ms, ObjectText cs ms → Rearranged own defaults ms →
      (document (record r) (String.ofList cs)).map ofDraft = .ok b := by
    intro cs ms hcs hms
    obtain ⟨ks, hok, hmissing⟩ := h.read hcs hms
    rw [hok, Except.map, hdraft ks hmissing]
  obtain ⟨ms, rfl, hms⟩ := hwritten
  exact ⟨hread _ ms (objectText_written ms) hms, hread⟩

/-- What is written for a record with nothing omitted. -/
theorem Rearranged.of_written {own defaults : List (String × Datum)}
    {ms : List (String × List Char)} (h : Forall₂ (fun m p => m.1 = p.1 ∧ p.2.Spelled m.2) ms own) :
    Rearranged own defaults ms :=
  ⟨own, [], ms, [], by simp, by simp, h, by simp, by simp⟩

end Json

open Json (given isSome_given getD_given)

namespace ComputedField

/-- What is written of a field. -/
def content (f : ComputedField) : List (String × Datum) :=
  [("id", .text f.id), ("formula", .text f.formula), ("label", .text f.label),
    ("type", .text f.type)]

/-- What may be omitted. -/
def defaults : List (String × Datum) :=
  [("label", .text ""), ("type", .text "computed")]

/-- The draft of a field in which the given members have been filled in. -/
def draft (f : ComputedField) (ks : List String) : Draft where
  id? := given ks "id" f.id
  formula? := given ks "formula" f.formula
  label? := given ks "label" f.label
  type? := given ks "type" f.type

theorem collects (f : ComputedField) : format.Collects f.content defaults f.draft where
  names := by
    change ["id", "formula", "label", "type"].Nodup
    decide
  members :=
    .cons (Json.Member.collects (fun _ => isSome_given) (fun _ => Json.takes_string)
      fun ks => by simp [draft, given]) <|
    .cons (Json.Member.collects (fun _ => isSome_given) (fun _ => Json.takes_string)
      fun ks => by simp [draft, given]) <|
    .cons (Json.Member.collects (fun _ => isSome_given) (fun _ => Json.takes_string)
      fun ks => by simp [draft, given]) <|
    .cons (Json.Member.collects (fun _ => isSome_given) (fun _ => Json.takes_string)
      fun ks => by simp [draft, given]) .nil
  blank := rfl
  required := by simp [format, defaults]

theorem ofDraft_draft (f : ComputedField) {ks : List String}
    (h : ∀ p ∈ f.content, p.1 ∉ ks → p ∈ defaults) : ofDraft (f.draft ks) = f := by
  simp only [content, defaults, List.forall_mem_cons] at h
  have hid : "id" ∉ ks → f.id = "" := fun hk => absurd (h.1 hk) (by simp)
  have hformula : "formula" ∉ ks → f.formula = "" := fun hk => absurd (h.2.1 hk) (by simp)
  have hlabel : "label" ∉ ks → f.label = "" := fun hk => by simpa using h.2.2.1 hk
  have htype : "type" ∉ ks → f.type = "computed" := fun hk => by simpa using h.2.2.2.1 hk
  simp only [ofDraft, draft, getD_given hid, getD_given hformula, getD_given hlabel,
    getD_given htype]

theorem read_eq (text : String) :
    ComputedField.read text = (Json.document (Json.record format) text).map ofDraft :=
  Json.document_map ofDraft _ text

theorem written (f : ComputedField) : ∃ ms, f.write = Json.objectText ms ∧
    Rearranged f.content defaults ms :=
  ⟨_, rfl, .of_written <| .cons ⟨rfl, .quote _⟩ <| .cons ⟨rfl, .quote _⟩ <|
    .cons ⟨rfl, .quote _⟩ <| .cons ⟨rfl, .quote _⟩ .nil⟩

end ComputedField

namespace Verdict

/-- What is written of a verdict, if an error that is absent is written at all. -/
def content (v : Verdict) : List (String × Datum) :=
  [("valid", .flag v.valid), ("error", .ofOption v.error?)]

/-- What may be omitted. -/
def defaults : List (String × Datum) :=
  [("error", .nothing)]

/-- The draft of a verdict in which the given members have been filled in. -/
def draft (v : Verdict) (ks : List String) : Draft where
  valid? := given ks "valid" v.valid
  error? := given ks "error" v.error?

theorem collects (v : Verdict) : format.Collects v.content defaults v.draft where
  names := by
    change ["valid", "error"].Nodup
    decide
  members :=
    .cons (Json.Member.collects (fun _ => isSome_given) (fun _ => Json.takes_boolean)
      fun ks => by simp [draft, given]) <|
    .cons (Json.Member.collects (fun _ => isSome_given) (fun _ => Json.takes_string?)
      fun ks => by simp [draft, given]) .nil
  blank := rfl
  required := by simp [format, defaults]

theorem ofDraft_draft (v : Verdict) {ks : List String}
    (h : ∀ p ∈ v.content, p.1 ∉ ks → p ∈ defaults) : ofDraft (v.draft ks) = v := by
  simp only [content, defaults, List.forall_mem_cons] at h
  have hvalid : "valid" ∉ ks → v.valid = false := fun hk => absurd (h.1 hk) (by simp)
  have herror : "error" ∉ ks → v.error? = none := fun hk => by
    have herror := h.2.1 hk
    cases he : v.error? with
    | none => rfl
    | some s => simp [he, Datum.ofOption] at herror
  simp only [ofDraft, draft, getD_given hvalid, getD_given herror]

theorem written (v : Verdict) : ∃ ms, v.write = Json.objectText ms ∧
    Rearranged v.content defaults ms := by
  refine ⟨_, rfl, ?_⟩
  obtain ⟨valid, error?⟩ := v
  cases error? with
  | none =>
    exact ⟨[("valid", .flag valid)], [("error", .nothing)], _, [], .refl _, by simp [defaults],
      .cons ⟨rfl, .flag valid⟩ .nil, by simp, .refl _⟩
  | some e => exact .of_written <| .cons ⟨rfl, .flag valid⟩ <| .cons ⟨rfl, .quote e⟩ .nil

end Verdict

namespace Limits

/-- What is written of ceilings. -/
def content (l : Limits) : List (String × Datum) :=
  [("max_formula_length", .natural l.formulaLength), ("max_ast_depth", .natural l.depth),
    ("max_node_count", .natural l.nodes), ("max_array_size", .natural l.arraySize)]

/-- The draft of ceilings in which the given members have been filled in. -/
def draft (l : Limits) (ks : List String) : Draft where
  formulaLength? := given ks "max_formula_length" l.formulaLength
  depth? := given ks "max_ast_depth" l.depth
  nodes? := given ks "max_node_count" l.nodes
  arraySize? := given ks "max_array_size" l.arraySize

theorem collects {l : Limits} (h : l.Representable) :
    format.Collects l.content standard.content l.draft where
  names := by
    change ["max_formula_length", "max_ast_depth", "max_node_count", "max_array_size"].Nodup
    decide
  members :=
    .cons (Json.Member.collects (fun _ => isSome_given)
      (fun _ => Json.takes_natural h.formulaLength)
      fun ks => by simp [draft, given]) <|
    .cons (Json.Member.collects (fun _ => isSome_given) (fun _ => Json.takes_natural h.depth)
      fun ks => by simp [draft, given]) <|
    .cons (Json.Member.collects (fun _ => isSome_given) (fun _ => Json.takes_natural h.nodes)
      fun ks => by simp [draft, given]) <|
    .cons (Json.Member.collects (fun _ => isSome_given) (fun _ => Json.takes_natural h.arraySize)
      fun ks => by simp [draft, given]) .nil
  blank := rfl
  required := by simp [format]

theorem ofDraft_draft (l : Limits) {ks : List String}
    (h : ∀ p ∈ l.content, p.1 ∉ ks → p ∈ standard.content) : ofDraft (l.draft ks) = l := by
  simp only [content, List.forall_mem_cons] at h
  have hlength : "max_formula_length" ∉ ks → l.formulaLength = standard.formulaLength :=
    fun hk => by simpa using h.1 hk
  have hdepth : "max_ast_depth" ∉ ks → l.depth = standard.depth := fun hk => by
    simpa using h.2.1 hk
  have hnodes : "max_node_count" ∉ ks → l.nodes = standard.nodes := fun hk => by
    simpa using h.2.2.1 hk
  have harray : "max_array_size" ∉ ks → l.arraySize = standard.arraySize := fun hk => by
    simpa using h.2.2.2.1 hk
  simp only [ofDraft, draft, getD_given hlength, getD_given hdepth, getD_given hnodes,
    getD_given harray]

theorem written (l : Limits) : ∃ ms, l.write = Json.objectText ms ∧
    Rearranged l.content standard.content ms :=
  ⟨_, rfl, .of_written <| .cons ⟨rfl, .natural _⟩ <| .cons ⟨rfl, .natural _⟩ <|
    .cons ⟨rfl, .natural _⟩ <| .cons ⟨rfl, .natural _⟩ .nil⟩

end Limits

/-- **Fields, verdicts and ceilings read back.** Each of them is read from the text that is written
for it, and from the text of any object with the same members,

* in any order, with any blanks between the tokens and any escapes in keys and texts;
* without some or all of those that have their default content;
* among members with other names and any values, nested to any depth.

The strings are any, and the ceilings are any numbers of 64 bits. -/
theorem records_read_back :
    (∀ f : ComputedField, ComputedField.read (String.ofList f.write) = .ok f ∧
      ∀ cs ms, ObjectText cs ms → Rearranged f.content ComputedField.defaults ms →
        ComputedField.read (String.ofList cs) = .ok f) ∧
    (∀ v : Verdict, Verdict.read (String.ofList v.write) = .ok v ∧
      ∀ cs ms, ObjectText cs ms → Rearranged v.content Verdict.defaults ms →
        Verdict.read (String.ofList cs) = .ok v) ∧
    ∀ l : Limits, l.Representable → Limits.read (String.ofList l.write) = .ok l ∧
      ∀ cs ms, ObjectText cs ms → Rearranged l.content Limits.standard.content ms →
        Limits.read (String.ofList cs) = .ok l := by
  refine ⟨fun f => ?field, fun v => ?verdict, fun l hl => ?ceilings⟩
  case field =>
    simp only [ComputedField.read_eq]
    exact f.collects.read_back (fun _ => f.ofDraft_draft) f.written
  case verdict => exact v.collects.read_back (fun _ => v.ofDraft_draft) v.written
  case ceilings =>
    exact (Limits.collects hl).read_back (fun _ => l.ofDraft_draft) l.written

/-- A field without label and type, whose other members stand in another order behind one that is
not known; and ceilings that are as large as can be. -/
theorem records_read_back_sparse :
    ComputedField.read
        "\x7b\"new\": [\x7b\"k\": 1\x7d], \"formula\": \"a\", \"id\": \"x\"\x7d" =
      .ok { id := "x", formula := "a" } ∧
    Limits.largest.Representable ∧
    Limits.read (String.ofList Limits.largest.write) = .ok Limits.largest := by
  have hlargest : Limits.largest.Representable := by decide
  have hspells (s : String) (h : s.toList.flatMap Json.escapeChar = s.toList) :
      Json.Spells s.toList s.toList := by
    have hescaped := Json.spells_escaped s.toList
    rwa [h] at hescaped
  have hnone : Json.AllBlank [] := Json.allBlank_nil
  have hspace : Json.AllBlank [' '] := Json.allBlank_space
  have hcomma : Json.Separator false ([] ++ ',' :: [' ']) := .comma hnone hspace
  -- the value of the member that is not known
  have hkey : Json.KeyText .curly ('"' :: (['k'] ++ '"' :: ([] ++ ':' :: [' ']))) :=
    .member (.plain (by decide) (by decide) (by decide) .nil) hnone hspace
  have hone : Json.Grammatical .value (Number.signed false (Number.Numeral.ofNat 1).text) :=
    .number (Number.Numeral.formed_ofNat 1)
  have hobject : Json.Grammatical .value
      ('{' :: (([] ++ (['"', 'k', '"', ':', ' '] ++ (['1'] ++ []))) ++ ['}'])) :=
    .bracketed (b := .curly) (.next (.first hnone) hkey hone (.nothing hnone))
  have hvalue : Json.Grammatical .value ('[' :: (([] ++ ([] ++ (['{', '"', 'k', '"', ':', ' ',
      '1', '}'] ++ []))) ++ [']'])) :=
    .bracketed (b := .square) (.next (.first hnone) .element hobject (.nothing hnone))
  let unknown := ("new", ['[', '{', '"', 'k', '"', ':', ' ', '1', '}', ']'])
  let kept := [("formula", Json.quote ['a']), ("id", Json.quote ['x'])]
  have hrearranged : Rearranged (ComputedField.content { id := "x", formula := "a" })
      ComputedField.defaults (unknown :: kept) := by
    refine ⟨[("formula", .text "a"), ("id", .text "x")], ComputedField.defaults, kept, [unknown],
      .swap _ _ _, by simp, .cons ⟨rfl, .quote "a"⟩ (.cons ⟨rfl, .quote "x"⟩ .nil), ?_,
      (List.perm_append_singleton _ _).symm⟩
    intro m hm
    obtain rfl := List.mem_singleton.1 hm
    exact ⟨by simp [unknown, ComputedField.content], hvalue⟩
  have htext : Json.MembersText true _ (unknown :: kept) :=
    .next (.first hnone) (hspells "new" (by decide)) hnone hspace <|
    .next hcomma (hspells "formula" (by decide)) hnone hspace <|
    .next hcomma (hspells "id" (by decide)) hnone hspace <|
    .nothing hnone
  have hread := (records_read_back.1 { id := "x", formula := "a" }).2 _ _
    ⟨[], _, [], rfl, hnone, hnone, htext⟩ hrearranged
  exact ⟨hread, hlargest, (records_read_back.2.2 _ hlargest).1⟩

end FormCalc
