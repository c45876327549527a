import FormCalc.Value.Json
import Mathlib.Data.List.TakeWhile

/-!
# Readers step by step

* `bind_ok_iff`: a reader that is followed by another.
* `peek_blanks`: blanks in front do not matter to what is read next.
* `Value.read_ok_iff`: a text is read if a value is read from its front and blanks are left.
-/

namespace FormCalc.Json

variable {α β : Type} {c : Char} {cs rest : List Char} {f : Fault}

theorem bind_apply (r : Reader α) (g : α → Reader β) :
    (r >>= g) cs = (r cs).bind fun p => g p.1 p.2 := rfl

/-- A reader followed by another takes what they take one after the other. -/
theorem bind_ok_iff {r : Reader α} {g : α → Reader β} {b : β} :
    (r >>= g) cs = .ok (b, rest) ↔ ∃ a mid, r cs = .ok (a, mid) ∧ g a mid = .ok (b, rest) := by
  rw [bind_apply]
  cases h : r cs with
  | error e => simp [Except.bind]
  | ok p => exact ⟨fun hg => ⟨p.1, p.2, rfl, hg⟩, fun ⟨a, mid, hp, hg⟩ => by cases hp; exact hg⟩

/-- What a reader takes is left to the readers behind it. -/
theorem bind_of_ok {r : Reader α} {a : α} (h : r cs = .ok (a, rest)) (g : α → Reader β) :
    (r >>= g) cs = g a rest := by
  rw [bind_apply, h]
  rfl

section Reader

variable (a : α) (s : List Char)

@[simp] theorem pure_apply : (pure a : Reader α) cs = .ok (a, cs) := rfl

@[simp] theorem throw_apply : (throw f : Reader α) cs = .error f := rfl

@[simp] theorem get_bind (g : List Char → Reader α) : (get >>= g) cs = g cs cs := rfl

@[simp] theorem set_bind (g : PUnit → Reader α) : (set s >>= g) cs = g ⟨⟩ s := rfl

theorem skip_bind (g : Unit → Reader α) : (skip >>= g) (c :: cs) = g ⟨⟩ cs := rfl

/-- Blanks in front do not matter to what is read next. -/
theorem peek_blanks {gap : List Char} (hgap : gap.all isBlank = true)
    (g : Option Char → Reader α) : (peek >>= g) (gap ++ cs) = (peek >>= g) cs := by
  have hdrop : (gap ++ cs).dropWhile isBlank = cs.dropWhile isBlank :=
    List.dropWhile_append_of_pos (List.all_eq_true.1 hgap)
  have hpeek : peek (gap ++ cs) = peek cs := by
    unfold peek
    rw [hdrop]
  rw [bind_apply, bind_apply, hpeek]

theorem peek_cons (hc : isBlank c = false) (g : Option Char → Reader α) :
    (peek >>= g) (c :: cs) = g (some c) (c :: cs) := by
  have hpeek : peek (c :: cs) = .ok (some c, c :: cs) := by
    unfold peek
    rw [List.dropWhile_cons_of_neg (by simp [hc])]
    rfl
  exact bind_of_ok hpeek g

end Reader

end FormCalc.Json

namespace FormCalc

variable {cs rest : List Char} {v : Value}

/-- Blanks in front of a value do not matter. -/
theorem Value.readOver_blanks {inner? : Option (Json.Reader Value)} {bound : Nat} {gap : List Char}
    (hgap : gap.all Json.isBlank = true) :
    Value.readOver inner? bound (gap ++ cs) = Value.readOver inner? bound cs :=
  Json.peek_blanks hgap _

theorem Value.readNested_blanks {bound depth : Nat} {gap : List Char}
    (hgap : gap.all Json.isBlank = true) :
    Value.readNested bound depth (gap ++ cs) = Value.readNested bound depth cs := by
  cases depth with
  | zero => exact Value.readOver_blanks hgap
  | succ depth => exact Value.readOver_blanks hgap

/-- **A text is read if a value is read from its front and only blanks are left.** -/
theorem Value.read_ok_iff {t : String} : Value.read t = .ok v ↔ ∃ rest,
    Value.readNested (t.length + 1) Value.maxNesting t.toList = .ok (v, rest) ∧
      rest.all Json.isBlank = true := by
  have hread : Value.read t =
      (Value.readNested (t.length + 1) Value.maxNesting t.toList).bind fun r =>
        if (r.2.dropWhile Json.isBlank).isEmpty then .ok r.1 else .error .trailingCharacters := rfl
  have hdrop : ∀ rest : List Char, (rest.dropWhile Json.isBlank).isEmpty = true ↔
      rest.all Json.isBlank = true := by
    intro rest
    rw [List.isEmpty_iff, List.dropWhile_eq_nil_iff, List.all_eq_true]
  rw [hread]
  cases Value.readNested (t.length + 1) Value.maxNesting t.toList with
  | error e => simp [Except.bind]
  | ok r =>
    obtain ⟨w, rest⟩ := r
    simp only [Except.bind, hdrop]
    by_cases hblank : rest.all Json.isBlank = true
    · rw [if_pos hblank]
      constructor
      · intro h
        obtain rfl := by simpa using h
        exact ⟨rest, rfl, hblank⟩
      · rintro ⟨rest', h, -⟩
        obtain ⟨rfl, rfl⟩ := by simpa using h
        rfl
    · rw [if_neg hblank]
      constructor
      · intro h
        simp at h
      · rintro ⟨rest', h, hblank'⟩
        obtain ⟨rfl, rfl⟩ := by simpa using h
        exact absurd hblank' hblank

end FormCalc
