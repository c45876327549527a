import FormCalc.Proofs.Json.Numerals
import FormCalc.Proofs.Json.Spelling

/-!
# The texts of JSON

Which texts stand for a value: blanks may stand around every token, characters of strings may be
escaped, and a key may occur more than once. Arrays and objects have a depth that the text is
bounded by.

* `Json.Holds`: the texts of values, of the elements of arrays and of the members of objects.
* `Json.Holds.reads`: they are read up to their ends.
* `Json.Holds.read`: a text that stands for a value is read as this value.
-/

namespace FormCalc

namespace Json

variable {first : Bool} {c : Char} {cs sep gap rest : List Char}

/-- Nothing but blanks. -/
def AllBlank (cs : List Char) : Prop :=
  cs.all isBlank = true

/-- What stands in front of an element or a member: blanks, and among them a comma unless it is the
first. -/
inductive Separator : Bool → List Char → Prop where
  | first {gap : List Char} (h : AllBlank gap) : Separator true gap
  | comma {gap gap' : List Char} (h : AllBlank gap) (h' : AllBlank gap') :
      Separator false (gap ++ ',' :: gap')

/-- What a part of a text stands for. The elements of an array or the members of an object may be
those from the beginning on or those behind others. -/
inductive Content where
  | value (v : Value)
  | items (first : Bool) (vs : List Value)
  | members (first : Bool) (ms : List (String × Value))

/-- **The texts of JSON**, with at most the given number of arrays and objects inside one another.
The brackets around elements and members are not part of their text. -/
inductive Holds : Nat → List Char → Content → Prop where
  | null {d : Nat} : Holds d "null".toList (.value .null)
  | boolTrue {d : Nat} : Holds d "true".toList (.value (.bool true))
  | boolFalse {d : Nat} : Holds d "false".toList (.value (.bool false))
  | number {d : Nat} {cs : List Char} {x : Float} (h : IsNumber cs x) :
      Holds d cs (.value (.number x))
  | string {d : Nat} {ws : List Char} {s : String} (h : Spells ws s.toList) :
      Holds d ('"' :: (ws ++ ['"'])) (.value (.string s))
  | array {d : Nat} {cs : List Char} {vs : List Value} (h : Holds d cs (.items true vs)) :
      Holds (d + 1) ('[' :: (cs ++ [']'])) (.value (.array vs))
  | object {d : Nat} {cs : List Char} {ms : List (String × Value)}
      (h : Holds d cs (.members true ms)) :
      Holds (d + 1) ('{' :: (cs ++ ['}'])) (.value (.object (Table.ofList ms)))
  | noItems {d : Nat} {first : Bool} {gap : List Char} (h : AllBlank gap) :
      Holds d gap (.items first [])
  | item {d : Nat} {first : Bool} {sep cs ts : List Char} {v : Value} {vs : List Value}
      (hsep : Separator first sep) (hv : Holds d cs (.value v))
      (hvs : Holds d ts (.items false vs)) :
      Holds d (sep ++ (cs ++ ts)) (.items first (v :: vs))
  | noMembers {d : Nat} {first : Bool} {gap : List Char} (h : AllBlank gap) :
      Holds d gap (.members first [])
  | member {d : Nat} {first : Bool} {sep ws gap gap' cs ts : List Char} {k : String} {v : Value}
      {ms : List (String × Value)} (hsep : Separator first sep) (hk : Spells ws k.toList)
      (hgap : AllBlank gap) (hgap' : AllBlank gap') (hv : Holds d cs (.value v))
      (hms : Holds d ts (.members false ms)) :
      Holds d (sep ++ '"' :: (ws ++ '"' :: (gap ++ ':' :: (gap' ++ (cs ++ ts)))))
        (.members first ((k, v) :: ms))

theorem moreElements_separator (hsep : Separator first sep) (hc : isBlank c = false)
    (hbracket : c ≠ ']') : moreElements first (sep ++ c :: cs) = .ok (true, c :: cs) := by
  unfold moreElements
  cases hsep with
  | first hgap =>
    rw [peek_blanks hgap, peek_cons hc]
    simp [hbracket]
  | comma hgap hgap' =>
    rw [List.append_assoc, peek_blanks hgap, List.cons_append, peek_cons (by decide)]
    simp only [Char.reduceEq, if_false, if_true, Bool.false_eq_true]
    rw [skip_bind, peek_blanks hgap', peek_cons hc]
    simp [hbracket]

theorem moreElements_close (hgap : AllBlank gap) :
    moreElements first (gap ++ ']' :: rest) = .ok (false, ']' :: rest) := by
  unfold moreElements
  rw [peek_blanks hgap, peek_cons (by decide)]
  rfl

theorem moreMembers_separator (hsep : Separator first sep) :
    moreMembers first (sep ++ '"' :: cs) = .ok (true, cs) := by
  unfold moreMembers
  cases hsep with
  | first hgap =>
    rw [peek_blanks hgap, peek_cons (by decide)]
    rfl
  | comma hgap hgap' =>
    rw [List.append_assoc, peek_blanks hgap, List.cons_append, peek_cons (by decide)]
    simp only [Char.reduceEq, if_false, if_true, Bool.false_eq_true]
    rw [skip_bind, peek_blanks hgap', peek_cons (by decide)]
    rfl

theorem moreMembers_close (hgap : AllBlank gap) :
    moreMembers first (gap ++ '}' :: rest) = .ok (false, '}' :: rest) := by
  unfold moreMembers
  rw [peek_blanks hgap, peek_cons (by decide)]
  rfl

theorem colon_blanks (hgap : AllBlank gap) : colon (gap ++ ':' :: cs) = .ok ((), cs) := by
  unfold colon
  rw [peek_blanks hgap, peek_cons (by decide)]
  rfl

theorem Spells.stringBody {ws : List Char} {s : String} (h : Spells ws s.toList) :
    stringBody (ws ++ '"' :: rest) = .ok (s, rest) := by
  simp only [Json.stringBody, h.body, String.ofList_toList]

/-- Behind blanks a value may end where it may end without them. -/
theorem AllBlank.ends (hgap : AllBlank gap) (hrest : Ends rest) : Ends (gap ++ rest) := by
  cases gap with
  | nil => exact hrest
  | cons b gap =>
    have hb : isBlank b = true := by simpa using List.all_eq_true.1 hgap b
    simp [Ends, isDelimiter, hb]

theorem Separator.ends (hsep : Separator false sep) (rest : List Char) : Ends (sep ++ rest) := by
  cases hsep with
  | comma hgap _ =>
    rw [List.append_assoc]
    exact hgap.ends rfl

namespace Holds

variable {d : Nat} {v : Value} {vs : List Value} {ms : List (String × Value)}

/-- How the text of a value begins. -/
theorem exists_cons (h : Holds d cs (.value v)) :
    ∃ c cs', cs = c :: cs' ∧ isBlank c = false ∧ c ≠ ']' := by
  cases h with
  | null => exact ⟨'n', _, rfl, by decide, by decide⟩
  | boolTrue => exact ⟨'t', _, rfl, by decide, by decide⟩
  | boolFalse => exact ⟨'f', _, rfl, by decide, by decide⟩
  | number h => exact h.exists_cons
  | string h => exact ⟨'"', _, rfl, by decide, by decide⟩
  | array h => exact ⟨'[', _, rfl, by decide, by decide⟩
  | object h => exact ⟨'{', _, rfl, by decide, by decide⟩

theorem ends_items (h : Holds d cs (.items false vs)) (rest : List Char) :
    Ends (cs ++ ']' :: rest) := by
  cases h with
  | noItems hgap => exact hgap.ends rfl
  | item hsep _ _ =>
    rw [List.append_assoc]
    exact hsep.ends _

theorem ends_members (h : Holds d cs (.members false ms)) (rest : List Char) :
    Ends (cs ++ '}' :: rest) := by
  cases h with
  | noMembers hgap => exact hgap.ends rfl
  | member hsep _ _ _ _ _ =>
    rw [List.append_assoc]
    exact hsep.ends _

end Holds

/-- The part of the text is read as what it stands for: a value if it may end there, elements and
members up to the closing bracket. The number of elements is bounded by that of characters. -/
def Content.Read (d : Nat) (cs : List Char) : Content → Prop
  | .value v => ∀ bound rest, cs.length < bound → Ends rest →
      Value.readNested bound d (cs ++ rest) = .ok (v, rest)
  | .items first vs => ∀ bound n rest, cs.length < bound → cs.length < n →
      Json.elements (Value.readNested bound d) n first (cs ++ ']' :: rest) = .ok (vs, ']' :: rest)
  | .members first ms => ∀ bound n rest, cs.length < bound → cs.length < n →
      Value.readMembers (Value.readNested bound d) n first (cs ++ '}' :: rest) =
        .ok (ms, '}' :: rest)

namespace Content.Read

variable {d bound : Nat} {v : Value} {vs : List Value} {ms : List (String × Value)}

/-- A scalar is read at any depth. -/
theorem of_readOver (h : ∀ inner? bound rest, Ends rest →
      Value.readOver inner? bound (cs ++ rest) = .ok (v, rest)) :
    (Content.value v).Read d cs := by
  intro bound rest _ hrest
  cases d with
  | zero => exact h none bound rest hrest
  | succ d => exact h (some (Value.readNested bound d)) bound rest hrest

theorem array (h : (Content.items true vs).Read d cs) :
    (Content.value (.array vs)).Read (d + 1) ('[' :: (cs ++ [']'])) := by
  intro bound rest hlength _
  simp only [List.length_cons, List.length_append, List.length_nil] at hlength
  have hread := h bound bound rest (by omega) (by omega)
  have hrun : Value.readNested bound (d + 1) ('[' :: (cs ++ [']']) ++ rest) =
      (Json.elements (Value.readNested bound d) bound true >>= fun items =>
        closeList >>= fun _ => pure (.array items) : Reader Value) (cs ++ ']' :: rest) := by
    rw [List.cons_append, List.append_assoc]
    rfl
  rw [hrun, bind_of_ok hread]
  rfl

theorem object (h : (Content.members true ms).Read d cs) :
    (Content.value (.object (Table.ofList ms))).Read (d + 1) ('{' :: (cs ++ ['}'])) := by
  intro bound rest hlength _
  simp only [List.length_cons, List.length_append, List.length_nil] at hlength
  have hread := h bound bound rest (by omega) (by omega)
  have hrun : Value.readNested bound (d + 1) ('{' :: (cs ++ ['}']) ++ rest) =
      (Value.readMembers (Value.readNested bound d) bound true >>= fun members =>
        closeObject >>= fun _ => pure (.object (Table.ofList members)) : Reader Value)
        (cs ++ '}' :: rest) := by
    rw [List.cons_append, List.append_assoc]
    rfl
  rw [hrun, bind_of_ok hread]
  rfl

theorem noItems (hgap : AllBlank gap) : (Content.items first []).Read d gap := by
  intro bound n rest _ hn
  cases n with
  | zero => omega
  | succ n =>
    unfold Json.elements
    rw [bind_of_ok (moreElements_close hgap)]
    rfl

theorem noMembers (hgap : AllBlank gap) : (Content.members first []).Read d gap := by
  intro bound n rest _ hn
  cases n with
  | zero => omega
  | succ n =>
    unfold Value.readMembers
    rw [bind_of_ok (moreMembers_close hgap)]
    rfl

theorem item {ts : List Char} (hsep : Separator first sep) (hcs : Holds d cs (.value v))
    (hts : Holds d ts (.items false vs)) (hv : (Content.value v).Read d cs)
    (hvs : (Content.items false vs).Read d ts) :
    (Content.items first (v :: vs)).Read d (sep ++ (cs ++ ts)) := by
  intro bound n rest hbound hn
  obtain ⟨c, cs', rfl, hblank, hbracket⟩ := hcs.exists_cons
  simp only [List.length_append, List.length_cons] at hbound hn
  cases n with
  | zero => omega
  | succ n =>
    have hmore : moreElements first (sep ++ ((c :: cs') ++ (ts ++ ']' :: rest))) =
        .ok (true, (c :: cs') ++ (ts ++ ']' :: rest)) := moreElements_separator hsep hblank hbracket
    have hvalue := hv bound (ts ++ ']' :: rest) (by simp only [List.length_cons]; omega)
      (hts.ends_items rest)
    have helements := hvs bound n rest (by omega) (by omega)
    unfold Json.elements
    rw [List.append_assoc, List.append_assoc, bind_of_ok hmore, if_pos rfl, bind_of_ok hvalue,
      bind_of_ok helements]
    rfl

theorem member {ws gap' ts : List Char} {k : String} (hsep : Separator first sep)
    (hk : Spells ws k.toList) (hgap : AllBlank gap) (hgap' : AllBlank gap')
    (hts : Holds d ts (.members false ms)) (hv : (Content.value v).Read d cs)
    (hms : (Content.members false ms).Read d ts) :
    (Content.members first ((k, v) :: ms)).Read d
      (sep ++ '"' :: (ws ++ '"' :: (gap ++ ':' :: (gap' ++ (cs ++ ts))))) := by
  intro bound n rest hbound hn
  simp only [List.length_append, List.length_cons] at hbound hn
  cases n with
  | zero => omega
  | succ n =>
    have hcolon : colon (gap ++ ':' :: (gap' ++ (cs ++ (ts ++ '}' :: rest)))) =
        .ok ((), gap' ++ (cs ++ (ts ++ '}' :: rest))) := colon_blanks hgap
    have hvalue : Value.readNested bound d (gap' ++ (cs ++ (ts ++ '}' :: rest))) =
        .ok (v, ts ++ '}' :: rest) := by
      rw [Value.readNested_blanks hgap']
      exact hv bound _ (by omega) (hts.ends_members rest)
    have hmembers := hms bound n rest (by omega) (by omega)
    unfold Value.readMembers
    simp only [List.append_assoc, List.cons_append]
    rw [bind_of_ok (moreMembers_separator hsep), if_pos rfl, bind_of_ok hk.stringBody,
      bind_of_ok hcolon, bind_of_ok hvalue, bind_of_ok hmembers]
    rfl

end Content.Read

/-- **What stands for a value is read as this value.** -/
theorem Holds.reads {d : Nat} {content : Content} (h : Holds d cs content) :
    content.Read d cs := by
  induction h with
  | null => exact .of_readOver fun inner? bound rest _ => rfl
  | boolTrue => exact .of_readOver fun inner? bound rest _ => rfl
  | boolFalse => exact .of_readOver fun inner? bound rest _ => rfl
  | number h => exact .of_readOver fun inner? bound rest hrest => h.readOver hrest
  | string h =>
    refine .of_readOver fun inner? bound rest _ => ?_
    rw [List.cons_append, Value.readOver_quote, List.append_assoc]
    simp [h.body, Except.map, Except.mapError]
  | array _ ih => exact ih.array
  | object _ ih => exact ih.object
  | noItems hgap => exact .noItems hgap
  | item hsep hv hvs ihv ihvs => exact .item hsep hv hvs ihv ihvs
  | noMembers hgap => exact .noMembers hgap
  | member hsep hk hgap hgap' _ hms ihv ihms => exact .member hsep hk hgap hgap' hms ihv ihms

/-- **A text that stands for a value is read as this value**, with any blanks around it. -/
theorem Holds.read {gap' : List Char} {v : Value} (h : Holds Value.maxNesting cs (.value v))
    (hgap : AllBlank gap) (hgap' : AllBlank gap') :
    Value.read (String.ofList (gap ++ (cs ++ gap'))) = .ok v := by
  have hends : Ends gap' := by simpa using hgap'.ends (show Ends [] from rfl)
  refine Value.read_ok_iff.2 ⟨gap', ?_, hgap'⟩
  rw [String.toList_ofList, Value.readNested_blanks hgap]
  refine h.reads _ gap' ?_ hends
  simp only [String.length_ofList, List.length_append]
  omega

end Json

end FormCalc
