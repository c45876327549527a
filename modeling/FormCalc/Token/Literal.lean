import FormCalc.Error
import FormCalc.Json.Quoted

/-!
# String literals

A literal in double quotes is a JSON string; one in single quotes is a text on one line in which
only the single quote and the backslash are escaped. Reading a literal finds where it ends and
keeps its body as it stands; `Lexeme.value` then decodes the body.

* `doubleBody`, `singleBody`: the body of a literal and the text behind its closing quote.
* `doubleBody_split`, `singleBody_split`: the body, the closing quote and the text behind it make
  up the text that was read.
-/

namespace FormCalc

/-- Puts characters in front of the body that was read. -/
def prepend (cs : List Char) (r : List Char × List Char) : List Char × List Char :=
  (cs ++ r.1, r.2)

/-- Reads a literal in double quotes up to its closing quote. `col` is the distance from the
opening quote in characters, and a fault comes with the distance of its place. -/
def doubleBody (col : Nat) : List Char → Except (Fault × Nat) (List Char × List Char)
  | [] => .error (.unterminatedString, 0)
  | '"' :: cs => .ok ([], cs)
  | '\\' :: 'u' :: a :: b :: c :: d :: cs =>
    if [a, b, c, d].all Number.isHexDigit then
      (doubleBody (col + 6) cs).map (prepend ['\\', 'u', a, b, c, d])
    else .error (.invalidHexEscape, col + 2 + ([a, b, c, d].takeWhile Number.isHexDigit).length)
  | '\\' :: 'u' :: cs =>
    .error (.invalidHexEscape, col + 2 + (cs.takeWhile Number.isHexDigit).length)
  | '\\' :: c :: cs =>
    if (Json.shortEscape? c).isSome then (doubleBody (col + 2) cs).map (prepend ['\\', c])
    else .error (.invalidEscape, col)
  | '\\' :: [] => .error (.invalidEscape, col)
  | c :: cs =>
    if c.toNat < 0x20 then .error (.controlInString, col)
    else (doubleBody (col + 1) cs).map (prepend [c])

/-- Reads a literal in single quotes up to its closing quote. `dist` is the distance from the
opening quote in bytes, and a fault comes with the distance of its place. -/
def singleBody (dist : Nat) : List Char → Except (Fault × Nat) (List Char × List Char)
  | [] => .error (.unterminatedString, 0)
  | '\'' :: cs => .ok ([], cs)
  | '\\' :: '\'' :: cs => (singleBody (dist + 2) cs).map (prepend ['\\', '\''])
  | '\\' :: '\\' :: cs => (singleBody (dist + 2) cs).map (prepend ['\\', '\\'])
  | '\\' :: _ => .error (.invalidEscape, dist)
  | c :: cs =>
    if c = '\n' ∨ c = '\r' then .error (.unterminatedString, 0)
    else (singleBody (dist + c.utf8Size) cs).map (prepend [c])

/-- The text that the body of a literal in single quotes stands for: each backslash is dropped and
the character behind it is kept. -/
def unescapeSingle : List Char → List Char
  | [] => []
  | ['\\'] => []
  | '\\' :: c :: cs => c :: unescapeSingle cs
  | c :: cs => c :: unescapeSingle cs

/-- The text that the body of a literal in double quotes stands for, as a JSON string. A fault
comes with its column in the literal. A body holds no quote without a backslash before it, so
reading ends at the closing quote. -/
def unescapeDouble (body : List Char) : Except Fault (List Char) :=
  match Json.body (body ++ ['"']) with
  | .ok (s, _) => .ok s
  | .error e => .error (.invalidString e.fault (e.column ('"' :: (body ++ ['"']))))

/-- The text that a string literal stands for. -/
def Lexeme.value : Lexeme → Except Fault (List Char)
  | .doubleQuoted body => unescapeDouble body
  | .singleQuoted body => .ok (unescapeSingle body)
  | _ => .error .expectingString

theorem map_prepend_eq_ok {r : Except (Fault × Nat) (List Char × List Char)}
    {cs body rest : List Char} (h : r.map (prepend cs) = .ok (body, rest)) :
    ∃ tail, r = .ok (tail, rest) ∧ body = cs ++ tail := by
  cases r with
  | error e => simp [Except.map] at h
  | ok p =>
    simp only [Except.map, prepend, Except.ok.injEq, Prod.mk.injEq] at h
    exact ⟨p.1, by rw [← h.2], h.1.symm⟩

/-- **Nothing is lost in reading a double-quoted literal.** -/
theorem doubleBody_split {col : Nat} {cs body rest : List Char}
    (h : doubleBody col cs = .ok (body, rest)) : cs = body ++ '"' :: rest := by
  fun_induction doubleBody col cs generalizing body with
  | case1 => simp at h
  | case2 => simp_all
  | case3 col a b c d cs hx ih | case6 col c cs _ _ _ ih | case10 col c cs _ _ _ _ _ _ ih =>
    obtain ⟨tail, ht, rfl⟩ := map_prepend_eq_ok h
    simp [ih ht]
  | _ => simp at h

/-- **Nothing is lost in reading a single-quoted literal.** -/
theorem singleBody_split {dist : Nat} {cs body rest : List Char}
    (h : singleBody dist cs = .ok (body, rest)) : cs = body ++ '\'' :: rest := by
  fun_induction singleBody dist cs generalizing body with
  | case1 => simp at h
  | case2 => simp_all
  | case3 col cs ih | case4 col cs ih | case7 col c cs _ _ _ _ _ ih =>
    obtain ⟨tail, ht, rfl⟩ := map_prepend_eq_ok h
    simp [ih ht]
  | _ => simp at h

end FormCalc
