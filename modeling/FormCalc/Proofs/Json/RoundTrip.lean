import FormCalc.Proofs.Json.Numbers
import FormCalc.Proofs.Json.Texts
import FormCalc.Proofs.Values

/-!
# What is written reads back

A value is written on one line or with one member or element to a line. Both are texts of JSON that
stand for what JSON can hold of the value, and such texts are read as what they stand for.

* `Table.ofList_of_sorted`: a table is rebuilt from its entries.
* `Value.holds_write`: both texts stand for what is left of the value in JSON.
* `Value.read_write`: both read back as that.
-/

namespace FormCalc

variable {α : Type}

namespace Table

variable {t : Table α} {k : String} {v : α}

/-- An entry behind all others is added at the end. -/
theorem insert_last (h : ∀ e ∈ t, e.1 < k) : insert k v t = t ++ [(k, v)] := by
  induction t with
  | nil => rfl
  | cons e t ih =>
    obtain ⟨l, w⟩ := e
    have hl : l < k := h (l, w) (by simp)
    have hne : k ≠ l := by
      rintro rfl
      exact String.lt_irrefl _ hl
    have hnot : ¬k < l := fun hk => String.lt_asymm hk hl
    rw [insert, if_neg hne, if_neg hnot, ih fun e he => h e (by simp [he])]
    rfl

/-- **A table is the table of its entries.** -/
theorem ofList_of_sorted (h : Sorted t) : ofList t = t := by
  suffices ∀ t' : Table α, Sorted (t' ++ t) →
      t.foldl (fun t e => insert e.1 e.2 t) t' = t' ++ t from this [] h
  clear h
  induction t with
  | nil => exact fun t' _ => (List.append_nil t').symm
  | cons e t ih =>
    intro t' h
    have hlast : insert e.1 e.2 t' = t' ++ [e] :=
      insert_last fun e' he' => (List.pairwise_append.1 h).2.2 e' he' e (by simp)
    rw [List.foldl_cons, hlast, ih _ (by simpa using h), List.append_assoc]
    rfl

end Table

namespace Json

/-- What is written for a string spells it. -/
theorem spells_escaped (cs : List Char) : Spells (cs.flatMap escapeChar) cs := by
  obtain ⟨ws, hws, heq⟩ := spells_of_body (body_escaped cs [])
  rwa [List.append_cancel_right heq]

theorem allBlank_nil : AllBlank [] := rfl

theorem allBlank_space : AllBlank [' '] := rfl

theorem allBlank_newLine (level : Nat) : AllBlank (Value.newLine level) := by
  unfold AllBlank Value.newLine
  simp [isBlank]

/-- The comma in front of all but the first. -/
theorem separator_comma {before : List Char} (h : AllBlank before) (first : Bool) :
    Separator first ((if first then [] else [',']) ++ before) := by
  cases first with
  | true => exact .first h
  | false => exact .comma allBlank_nil h

end Json

namespace Value

open Json (Holds AllBlank allBlank_nil)

variable {d level : Nat} {v : Value} {items : List Value} {members : List (String × Value)}

/-- The numbers inside the value are written as texts of the same numbers. -/
def NumbersKept (v : Value) : Prop :=
  ∀ x, .number x ∈ v.subvalues → Number.IsFinite x → IsNumber (Number.json x) x

theorem holds_number {x : Float} (h : Number.IsFinite x → IsNumber (Number.json x) x) :
    Holds d (Number.json x) (.value (Value.number x).asJson) := by
  by_cases hx : Number.IsFinite x
  · rw [asJson_of_isFinite hx]
    exact .number (h hx)
  · rw [asJson_of_not_isFinite hx, Number.json_of_not_isFinite hx]
    exact .null

theorem holds_quote (s : String) : Holds d (Json.quote s.toList) (.value (.string s)) :=
  .string (Json.spells_escaped s.toList)

/-- A writer of elements that puts the same blanks in front of each, a comma in front of all but the
first, and blanks in front of the bracket if there was an element. -/
theorem holds_items {before behind : List Char} {text : Value → List Char}
    (texts : List Value → Bool → List Char) (hbefore : AllBlank before) (hbehind : AllBlank behind)
    (hnil : ∀ first, texts [] first = (if first then [] else behind) ++ [']'])
    (hcons : ∀ v items first, texts (v :: items) first =
      (if first then [] else [',']) ++ before ++ text v ++ texts items false)
    (h : ∀ v ∈ items, Holds d (text v) (.value v.asJson)) (first : Bool) :
    ∃ cs, texts items first = cs ++ [']'] ∧ Holds d cs (.items first (asJsonItems items)) := by
  induction items generalizing first with
  | nil =>
    refine ⟨_, hnil first, .noItems ?_⟩
    cases first with
    | true => rfl
    | false => exact hbehind
  | cons v items ih =>
    obtain ⟨cs, hcs, hitems⟩ := ih (fun v hv => h v (by simp [hv])) false
    refine ⟨_, ?_, .item (Json.separator_comma hbefore first) (h v (by simp)) hitems⟩
    rw [hcons, hcs]
    simp only [List.append_assoc]

/-- A writer of members that sets them out in the same way. -/
theorem holds_members {before between behind : List Char} {text : Value → List Char}
    (texts : List (String × Value) → Bool → List Char) (hbefore : AllBlank before)
    (hbetween : AllBlank between) (hbehind : AllBlank behind)
    (hnil : ∀ first, texts [] first = (if first then [] else behind) ++ ['}'])
    (hcons : ∀ k v members first, texts ((k, v) :: members) first =
      (if first then [] else [',']) ++ before ++ Json.quote k.toList ++ ':' :: between ++ text v ++
        texts members false)
    (h : ∀ m ∈ members, Holds d (text m.2) (.value m.2.asJson)) (first : Bool) :
    ∃ cs, texts members first = cs ++ ['}'] ∧
      Holds d cs (.members first (asJsonMembers members)) := by
  induction members generalizing first with
  | nil =>
    refine ⟨_, hnil first, .noMembers ?_⟩
    cases first with
    | true => rfl
    | false => exact hbehind
  | cons m members ih =>
    obtain ⟨cs, hcs, hmembers⟩ := ih (fun m hm => h m (by simp [hm])) false
    refine ⟨_, ?_, .member (Json.separator_comma hbefore first)
      (Json.spells_escaped m.1.toList) allBlank_nil hbetween (h m (by simp)) hmembers⟩
    rw [hcons, hcs]
    simp only [Json.quote, List.append_assoc, List.cons_append, List.nil_append]

theorem sorted_asJsonMembers (h : Table.Sorted members) :
    Table.Sorted (asJsonMembers members) := by
  rw [asJsonMembers_eq_map]
  exact List.pairwise_map.2 h

/-- **Both texts of a value stand for what is left of it in JSON**, at any depth that it fits. -/
theorem holds_write (hnesting : v.nesting ≤ d) (htabled : v.Tabled) (hkept : v.NumbersKept) :
    Holds d v.write (.value v.asJson) ∧
      ∀ level, Holds d (v.writeAt level) (.value v.asJson) := by
  induction v using induct generalizing d with
  | null => exact ⟨.null, fun _ => .null⟩
  | bool b =>
    cases b with
    | true => exact ⟨.boolTrue, fun _ => .boolTrue⟩
    | false => exact ⟨.boolFalse, fun _ => .boolFalse⟩
  | number x =>
    have hx := holds_number (d := d) (hkept x (self_mem_subvalues _))
    exact ⟨hx, fun _ => hx⟩
  | string s => exact ⟨holds_quote s, fun _ => holds_quote s⟩
  | array items ih =>
    cases d with
    | zero => simp [nesting] at hnesting
    | succ d =>
      have hitems : ∀ v ∈ items, Holds d v.write (.value v.asJson) ∧
          ∀ level, Holds d (v.writeAt level) (.value v.asJson) := by
        intro v hv
        have hle := nesting_le_items hv
        rw [nesting] at hnesting
        exact ih v hv (by omega) (fun ms hms => htabled ms (mem_subvalues_array hv hms))
          (fun x hx => hkept x (mem_subvalues_array hv hx))
      constructor
      · obtain ⟨cs, hcs, hholds⟩ := holds_items writeItems allBlank_nil allBlank_nil
          (by intro first; cases first <;> rfl)
          (by intro v items first; simp [writeItems]) (fun v hv => (hitems v hv).1) true
        rw [write, hcs, asJson]
        exact .array hholds
      · intro level
        obtain ⟨cs, hcs, hholds⟩ := holds_items (writeItemsAt level)
          (Json.allBlank_newLine (level + 1)) (Json.allBlank_newLine level) (fun first => rfl)
          (fun v items first => rfl) (fun v hv => (hitems v hv).2 (level + 1)) true
        rw [writeAt, hcs, asJson]
        exact .array hholds
  | object members ih =>
    cases d with
    | zero => simp [nesting] at hnesting
    | succ d =>
      have hmembers : ∀ m ∈ members, Holds d m.2.write (.value m.2.asJson) ∧
          ∀ level, Holds d (m.2.writeAt level) (.value m.2.asJson) := by
        intro m hm
        have hle := nesting_le_members hm
        rw [nesting] at hnesting
        exact ih m hm (by omega) (fun ms hms => htabled ms (mem_subvalues_object hm hms))
          (fun x hx => hkept x (mem_subvalues_object hm hx))
      have htable : Table.ofList (asJsonMembers members) = asJsonMembers members :=
        Table.ofList_of_sorted (sorted_asJsonMembers (htabled members (self_mem_subvalues _)))
      constructor
      · obtain ⟨cs, hcs, hholds⟩ := holds_members writeMembers allBlank_nil
          allBlank_nil allBlank_nil (by intro first; cases first <;> rfl)
          (by intro k v members first; simp [writeMembers]) (fun m hm => (hmembers m hm).1) true
        rw [write, hcs, asJson, ← htable]
        exact .object hholds
      · intro level
        obtain ⟨cs, hcs, hholds⟩ := holds_members (writeMembersAt level)
          (Json.allBlank_newLine (level + 1)) Json.allBlank_space (Json.allBlank_newLine level)
          (fun first => rfl) (by intro k v members first; simp [writeMembersAt])
          (fun m hm => (hmembers m hm).2 (level + 1)) true
        rw [writeAt, hcs, asJson, ← htable]
        exact .object hholds
  | undefined => exact ⟨.null, fun _ => .null⟩

/-- **Values read back from both of their texts.** What comes back is what is left of the value in
JSON, and that is the value itself if nothing in it is absent or no finite number. Every finite
number inside has to read back on its own, as the integers up to `2 ^ 53 - 1` in magnitude do. -/
theorem read_write :
    (∀ (x : Float) (negative : Bool) (n : Nat), Number.integer? x = some (negative, n) →
      n ≤ Number.maxSafeInteger → ¬(negative = true ∧ n = 0) → Number.ReadsBack x) ∧
    ∀ v : Value, v.Tabled → v.nesting < 128 →
      (∀ x, .number x ∈ v.subvalues → Number.IsFinite x → Number.ReadsBack x) →
      Value.read (String.ofList v.write) = .ok v.asJson ∧
      Value.read (String.ofList v.writeIndented) = .ok v.asJson ∧
      (.undefined ∉ v.subvalues → (∀ x, .number x ∈ v.subvalues → Number.IsFinite x) →
        v.asJson = v) := by
  constructor
  · intro x negative n hx hn hzero
    have hnumber := isNumber_of_integer? hx hn hzero
    exact (Number.isFinite_of_integer? hx).readsBack_iff.2 hnumber
  · intro v htabled hnesting hnumbers
    have hkept : v.NumbersKept := fun x hx hfinite =>
      hfinite.readsBack_iff.1 (hnumbers x hx hfinite)
    obtain ⟨hwrite, hindented⟩ := holds_write (d := maxNesting) (Nat.le_of_lt_succ hnesting)
      htabled hkept
    refine ⟨?_, ?_, asJson_eq_self⟩
    · simpa using hwrite.read allBlank_nil allBlank_nil
    · simpa [writeIndented] using (hindented 0).read allBlank_nil allBlank_nil

/-- An object with an integer, a decimal, what is no number, an absent value, empty containers, and
keys and texts that have to be escaped. -/
theorem read_write_object :
    let v : Value := .object [("\"a\"\n", .string "é\\/"), ("items", .array [.number 7,
      .number 1.5, .number (0 / 0), .undefined, .array []]), ("x", .object [])]
    let left : Value := .object [("\"a\"\n", .string "é\\/"), ("items", .array [.number 7,
      .number 1.5, .null, .null, .array []]), ("x", .object [])]
    v.Tabled ∧ v.nesting < 128 ∧ Value.read (String.ofList v.write) = .ok left ∧
      Value.read (String.ofList v.writeIndented) = .ok left := by
  intro v left
  have hseven : Number.Binary.ofFloat 7 = .finite false (7 * 2 ^ 50) (-50) := by decide +kernel
  have hdecimal : Number.Binary.ofFloat 1.5 = .finite false (3 * 2 ^ 51) (-52) := by decide +kernel
  have hnan : Number.Binary.ofFloat (0 / 0) = .nan := by decide +kernel
  have htabled : v.Tabled := by
    intro members hmembers
    simp only [v, subvalues, subvaluesMembers, subvaluesItems, List.mem_cons, List.mem_append,
      List.not_mem_nil, Value.object.injEq, reduceCtorEq, or_false, false_or] at hmembers
    rcases hmembers with rfl | rfl
    · unfold Table.Sorted
      decide +kernel
    · exact List.Pairwise.nil
  have hnesting : v.nesting < 128 := by decide
  have hnumbers : ∀ x, .number x ∈ v.subvalues → Number.IsFinite x → Number.ReadsBack x := by
    intro x hx hfinite
    simp only [v, subvalues, subvaluesMembers, subvaluesItems, List.mem_cons, List.mem_append,
      List.not_mem_nil, Value.number.injEq, reduceCtorEq, or_false, false_or] at hx
    rcases hx with rfl | rfl | rfl
    · exact read_write.1 7 false 7 (by decide +kernel) (by decide) (by simp)
    · -- the text is a numeral of two digits, and 15 divided by 10 is exact
      have hscale : Number.Numeral.scaleBy (Float.ofNat 15) (-1) = some 1.5 := by
        rw [Number.Numeral.scaleBy]
        decide +kernel
      have hstep : Number.Numeral.stepwise? ⟨['1'], ['5'], none⟩ = some 1.5 := hscale
      have htoken : Json.NumberToken.ofNumeral? false ⟨['1'], ['5'], none⟩ =
          some (.floating 1.5) := by
        unfold Json.NumberToken.ofNumeral?
        rw [hstep]
        rfl
      have hformed : Number.Numeral.Formed ⟨['1'], ['5'], none⟩ :=
        ⟨.inr ⟨'1', [], rfl, by decide, rfl⟩, rfl, by simp⟩
      exact hfinite.readsBack_iff.2 ⟨false, _, _, hformed, by decide +kernel, htoken, rfl⟩
    · obtain ⟨negative, m, e, h⟩ := hfinite
      rw [hnan] at h
      cases h
  have hleft : v.asJson = left := by
    simp only [v, left, asJson, asJsonMembers, asJsonItems, hseven, hdecimal, hnan]
  obtain ⟨hwrite, hindented, -⟩ := read_write.2 v htabled hnesting hnumbers
  rw [hleft] at hwrite hindented
  exact ⟨htabled, hnesting, hwrite, hindented⟩

end Value

end FormCalc
