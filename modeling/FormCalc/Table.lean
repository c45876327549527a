/-!
# Tables

A table maps strings to values. Its entries are kept in increasing order of the keys (by code
points, which is the order of the UTF-8 bytes), so that everything that lists a table lists it
in that order.

* `find?_insert`, `find?_erase`: what a look-up finds after a change.
* `sorted_insert`: a table stays in order.
-/

namespace FormCalc

/-- Entries of keys and values. -/
abbrev Table (α : Type) := List (String × α)

namespace Table

variable {α : Type}

/-- The value under a key. -/
def find? (k : String) : Table α → Option α
  | [] => none
  | (l, v) :: t => if l = k then some v else find? k t

/-- Puts a value under a key; an earlier value of the key is replaced. -/
def insert (k : String) (v : α) : Table α → Table α
  | [] => [(k, v)]
  | (l, w) :: t =>
    if k = l then (k, v) :: t
    else if k < l then (k, v) :: (l, w) :: t
    else (l, w) :: insert k v t

/-- Removes the entries of a key. -/
def erase (k : String) (t : Table α) : Table α :=
  t.filter fun e => e.1 ≠ k

/-- The keys in order. -/
def keys (t : Table α) : List String :=
  t.map (·.1)

/-- The table of a list of entries; the last entry of a key counts. -/
def ofList (entries : List (String × α)) : Table α :=
  entries.foldl (fun t e => insert e.1 e.2 t) []

/-- The keys increase. -/
def Sorted (t : Table α) : Prop :=
  t.Pairwise fun a b => a.1 < b.1

@[simp] theorem find?_nil (k : String) : find? k ([] : Table α) = none := rfl

theorem find?_insert (k l : String) (v : α) (t : Table α) :
    find? k (insert l v t) = if l = k then some v else find? k t := by
  induction t with
  | nil => simp [insert, find?]
  | cons e t ih =>
    obtain ⟨m, w⟩ := e
    simp only [insert]
    grind [find?]

@[simp] theorem find?_insert_self (k : String) (v : α) (t : Table α) :
    find? k (insert k v t) = some v := by
  simp [find?_insert]

theorem find?_erase (k l : String) (t : Table α) :
    find? k (erase l t) = if l = k then none else find? k t := by
  induction t with
  | nil => simp [erase, find?]
  | cons e t ih =>
    obtain ⟨m, w⟩ := e
    simp only [erase, List.filter_cons] at ih ⊢
    grind [find?]

theorem mem_insert {k : String} {v : α} {e : String × α} {t : Table α}
    (h : e ∈ insert k v t) : e = (k, v) ∨ e ∈ t := by
  induction t with
  | nil => simpa [insert] using h
  | cons f t ih =>
    obtain ⟨m, w⟩ := f
    simp only [insert] at h
    grind

/-- **Insertion keeps the order.** -/
theorem sorted_insert {k : String} {v : α} {t : Table α} (h : Sorted t) :
    Sorted (insert k v t) := by
  induction t with
  | nil => simp [insert, Sorted]
  | cons e t ih =>
    obtain ⟨l, w⟩ := e
    obtain ⟨hl, ht⟩ := List.pairwise_cons.1 h
    simp only [insert]
    split
    · rename_i hk
      subst hk
      exact List.pairwise_cons.2 ⟨hl, ht⟩
    · split
      · rename_i hk hlt
        refine List.pairwise_cons.2 ⟨fun e he => ?_, h⟩
        rcases List.mem_cons.1 he with rfl | he
        · exact hlt
        · exact String.lt_trans hlt (hl e he)
      · rename_i hk hlt
        refine List.pairwise_cons.2 ⟨fun e he => ?_, ih ht⟩
        rcases mem_insert he with rfl | he
        · have hle : l ≤ k := String.not_lt.1 hlt
          exact Classical.byContradiction fun hn => hk (String.le_antisymm (String.not_lt.1 hn) hle)
        · exact hl e he

/-- A table built from a list is in order. -/
theorem sorted_ofList (entries : List (String × α)) : Sorted (ofList entries) := by
  suffices ∀ t : Table α, Sorted t → Sorted (entries.foldl (fun t e => insert e.1 e.2 t) t) from
    this [] List.Pairwise.nil
  induction entries with
  | nil => exact fun t h => h
  | cons e entries ih => exact fun t h => ih _ (sorted_insert h)

end Table

end FormCalc
