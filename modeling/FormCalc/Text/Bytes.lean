/-!
# Texts measured in bytes

Positions in a formula are offsets into its UTF-8 form. A text is a list of characters here,
so an offset is turned into a cut between two characters by counting the bytes each takes.

* `size_append`: sizes add up.
* `dropBytes_append`, `takeBytes_append`: cutting at the size of a first part splits there.
* `slice_append`: a slice that starts and ends at part borders is the part between them.
-/

namespace FormCalc.Text

/-- The number of bytes of the UTF-8 form. -/
def size : List Char → Nat
  | [] => 0
  | c :: cs => c.utf8Size + size cs

/-- The text from the first character that begins at byte `n` or after it. -/
def dropBytes : Nat → List Char → List Char
  | 0, cs => cs
  | _ + 1, [] => []
  | n + 1, c :: cs => dropBytes (n + 1 - c.utf8Size) cs

/-- The characters that begin before byte `n`. -/
def takeBytes : Nat → List Char → List Char
  | 0, _ => []
  | _ + 1, [] => []
  | n + 1, c :: cs => c :: takeBytes (n + 1 - c.utf8Size) cs

/-- The text between two byte offsets. -/
def slice (cs : List Char) (start stop : Nat) : List Char :=
  takeBytes (stop - start) (dropBytes start cs)

@[simp] theorem size_nil : size [] = 0 := rfl

@[simp] theorem size_cons (c : Char) (cs : List Char) : size (c :: cs) = c.utf8Size + size cs := rfl

@[simp] theorem size_append (a b : List Char) : size (a ++ b) = size a + size b := by
  induction a with
  | nil => simp
  | cons c cs ih => simp [ih, Nat.add_assoc]

theorem size_concat (cs : List Char) (c : Char) : size (cs ++ [c]) = size cs + c.utf8Size := by
  rw [size_append, size_cons, size_nil, Nat.add_zero]

theorem length_le_size (cs : List Char) : cs.length ≤ size cs := by
  induction cs with
  | nil => simp
  | cons c cs ih => have := c.utf8Size_pos; simp; omega

theorem size_le (cs : List Char) : size cs ≤ 4 * cs.length := by
  induction cs with
  | nil => simp
  | cons c cs ih => have := c.utf8Size_le_four; simp; omega

/-- A text takes more bytes than characters if it has a character of several bytes. -/
theorem size_eq_length_iff {cs : List Char} :
    size cs = cs.length ↔ ∀ c ∈ cs, c.utf8Size = 1 := by
  induction cs with
  | nil => simp
  | cons c cs ih =>
    have hpos := c.utf8Size_pos
    have hle := length_le_size cs
    rw [List.forall_mem_cons, ← ih, size_cons, List.length_cons]
    omega

@[simp] theorem dropBytes_zero (cs : List Char) : dropBytes 0 cs = cs := by
  cases cs <;> rfl

@[simp] theorem takeBytes_zero (cs : List Char) : takeBytes 0 cs = [] := by
  cases cs <;> rfl

theorem dropBytes_append (a b : List Char) : dropBytes (size a) (a ++ b) = b := by
  induction a with
  | nil => simp
  | cons c cs ih =>
    obtain ⟨n, hn⟩ : ∃ n, size (c :: cs) = n + 1 := ⟨size (c :: cs) - 1, by
      have := c.utf8Size_pos; simp; omega⟩
    rw [hn, List.cons_append, dropBytes, ← hn]
    simpa using ih

theorem takeBytes_append (a b : List Char) : takeBytes (size a) (a ++ b) = a := by
  induction a with
  | nil => simp
  | cons c cs ih =>
    obtain ⟨n, hn⟩ : ∃ n, size (c :: cs) = n + 1 := ⟨size (c :: cs) - 1, by
      have := c.utf8Size_pos; simp; omega⟩
    rw [hn, List.cons_append, takeBytes, ← hn]
    simpa using ih

/-- **A slice between part borders is the part.** -/
theorem slice_append (a b c : List Char) :
    slice (a ++ (b ++ c)) (size a) (size a + size b) = b := by
  rw [slice, dropBytes_append, Nat.add_sub_cancel_left, takeBytes_append]

end FormCalc.Text
