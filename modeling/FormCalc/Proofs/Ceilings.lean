import FormCalc.Proofs.Parse.Formula
import FormCalc.Proofs.Parse.Keeps

/-!
# Ceilings are exact

* `Exceeds`: an error of a ceiling is one node or one level above the ceiling.
* `Source.parse_exceeds`: a parse that begins with a source only passes a ceiling by one.
* `parse_ceilings`: a text is refused for its length if it is too long, and its tree is returned
  if no ceiling is passed and the parser would return it under the largest ceilings.
-/

namespace FormCalc

open Progress Parse

variable {a : Assignment} {file text : String} {source : Source} {limits : Limits} {f : Formula}

/-- The largest ceiling: ceilings are numbers of 64 bits. -/
def Limits.largestCeiling : Nat := UInt64.size - 1

/-- Every ceiling is as large as can be. -/
def Limits.largest : Limits :=
  ⟨largestCeiling, largestCeiling, largestCeiling, largestCeiling⟩

/-- No ceiling is larger than can be. -/
structure Limits.Representable (limits : Limits) : Prop where
  formulaLength : limits.formulaLength ≤ largestCeiling
  depth : limits.depth ≤ largestCeiling
  nodes : limits.nodes ≤ largestCeiling
  arraySize : limits.arraySize ≤ largestCeiling

instance (limits : Limits) : Decidable limits.Representable :=
  decidable_of_iff (limits.formulaLength ≤ Limits.largestCeiling ∧
      limits.depth ≤ Limits.largestCeiling ∧ limits.nodes ≤ Limits.largestCeiling ∧
      limits.arraySize ≤ Limits.largestCeiling)
    ⟨fun ⟨h1, h2, h3, h4⟩ => ⟨h1, h2, h3, h4⟩, fun ⟨h1, h2, h3, h4⟩ => ⟨h1, h2, h3, h4⟩⟩

/-- Neither counter is above its ceiling. -/
structure Within (limits : Limits) (s : Progress) : Prop where
  depth : s.depth ≤ limits.depth
  nodes : s.nodes ≤ limits.nodes

/-- An error of a ceiling is one level or one node above the ceiling. -/
def Exceeds (limits : Limits) (err : FormulaError) : Prop :=
  err.IsCeiling → err = .limit (.depth (limits.depth + 1) limits.depth) ∨
    err = .limit (.nodes (limits.nodes + 1) limits.nodes)

/-- **A step from below the ceilings stays below, or passes one by one.** -/
theorem steps_within (hfailure : ∀ err, a.failure? = some err → ¬err.IsCeiling) :
    Steps a (fun s s' => Within a.limits s → Within a.limits s')
      (fun s err _ => Within a.limits s → Exceeds a.limits err) where
  refl := fun s h => h
  trans := fun s t u h1 h2 h => h2 (h1 h)
  after := fun s t err u h1 h2 h => h2 (h1 h)
  raise := fun s err hc _ h => absurd h hc
  advance := by
    constructor
    · intro s x s' h hw
      unfold Parse.advance at h
      simp only at h
      split at h <;> simp only [EStateM.Result.ok.injEq, reduceCtorEq] at h
      · exact h.2 ▸ ⟨hw.depth, hw.nodes⟩
      · exact h.2 ▸ ⟨hw.depth, hw.nodes⟩
    · intro s err s' h hw hc
      unfold Parse.advance at h
      simp only at h
      split at h <;> simp only [EStateM.Result.error.injEq, reduceCtorEq] at h
      -- only a text that could not be cut to its end stops here
      rename_i e _ hf
      exact absurd (h.1 ▸ hc) (hfailure e hf)
  countNode := by
    constructor
    · intro s x s' h hw
      have htook := countNode_eq_ok_iff.1 h
      have hdepth := htook.depth
      have hcount := htook.count
      have hnodes := hw.nodes
      exact ⟨hdepth ▸ hw.depth, by omega⟩
    · intro s err s' h hw _
      have hnodes := hw.nodes
      unfold Parse.countNode Limits.checkNodes ensureAtMost at h
      simp only at h
      by_cases hle : s.nodes + 1 ≤ a.limits.nodes
      · simp [hle] at h
      · -- the count was within the ceiling before, so it is one above it now
        simp only [hle, if_false, EStateM.Result.error.injEq] at h
        have heq : s.nodes + 1 = a.limits.nodes + 1 := by omega
        rw [← h.1, heq]
        exact .inr rfl
  nested := by
    intro p hp
    constructor
    · intro s x s' h hw
      obtain ⟨hd, t, hok, rfl⟩ := nested_eq_ok_iff.1 h
      have ht := hp.ok _ _ _ hok ⟨hd, hw.nodes⟩
      have hdepth := ht.depth
      exact ⟨by simp only [up]; omega, ht.nodes⟩
    · intro s err s' h hw
      have hdepth := hw.depth
      rcases nested_eq_error_iff.1 h with ⟨hlt, rfl, -⟩ | ⟨hd, h⟩
      · have heq : s.depth + 1 = a.limits.depth + 1 := by omega
        rw [heq]
        exact fun _ => .inl rfl
      · exact hp.error _ _ _ h ⟨hd, hw.nodes⟩

/-- **A parse of a source passes a ceiling by one, if it passes one.** -/
theorem Source.parse_exceeds {err : FormulaError} (h : source.parse limits = .error err) :
    Exceeds limits err := by
  have hfailure : ∀ e, (tokenize source).failure? = some e → ¬e.IsCeiling := by
    intro e he
    obtain ⟨-, site, fault, rfl⟩ := (tokenize_formed source).failed e he
    exact id
  cases htokens : (tokenize source).tokens with
  | nil =>
    intro hc
    simp only [Source.parse, Parser.ofSource, htokens] at h
    cases hf : (tokenize source).failure? with
    | none =>
      simp only [hf, bind, Except.bind, Except.error.injEq] at h
      rw [← h] at hc
      exact absurd hc id
    | some e =>
      simp only [hf, bind, Except.bind, Except.error.injEq] at h
      rw [← h] at hc
      exact absurd hc (hfailure e hf)
  | cons t ts =>
    rw [source.parse_eq htokens] at h
    split at h
    · simp at h
    · rename_i e s' hok
      obtain rfl : e = err := by simpa using h
      -- both counters begin at zero
      have hkeeps := (steps_within
        (a := ⟨source, limits, (tokenize source).failure?⟩) hfailure).congruence.formula
      exact hkeeps.error _ _ _ hok ⟨Nat.zero_le _, Nat.zero_le _⟩

/-- Where parsing a text fails: it is too long, or its source fails. -/
theorem parse_eq_error_iff {err : FormulaError} :
    parse file text limits = .error err ↔
      limits.formulaLength < text.length ∧
        err = .limit (.formulaLength text.length limits.formulaLength) ∨
      text.length ≤ limits.formulaLength ∧
        Source.parse ⟨file, text.toList⟩ limits = .error err := by
  unfold parse
  rw [Source.ofText_eq]
  by_cases h : text.length ≤ limits.formulaLength
  · have hlt : ¬limits.formulaLength < text.length := by omega
    simp only [h, hlt, if_true, true_and, false_and, false_or]
    change (Source.parse ⟨file, text.toList⟩ limits).bind _ = _ ↔ _
    cases Source.parse ⟨file, text.toList⟩ limits <;>
      simp [Except.bind, pure, Except.pure]
  · have hlt : limits.formulaLength < text.length := by omega
    simp only [h, hlt, if_false, true_and, false_and, or_false, bind, Except.bind,
      Except.error.injEq]
    exact eq_comm

/-- **Ceilings are exact.** A text is refused for its length if and only if it has too many
characters. A tree is returned if and only if it is under the largest ceilings and the text is
short enough, its brackets are not nested too deep and the tree has not too many nodes. A level or
a node too many is reported as it is reached. -/
theorem parse_ceilings (file text : String) (limits : Limits) (h : limits.Representable) :
    (∀ observed limit,
      parse file text limits = .error (.limit (.formulaLength observed limit)) ↔
        limits.formulaLength < text.length ∧ observed = text.length ∧
          limit = limits.formulaLength) ∧
    (∀ f, parse file text limits = .ok f ↔
      parse file text .largest = .ok f ∧ text.length ≤ limits.formulaLength ∧
        1 + peak (Source.words ⟨file, text.toList⟩) ≤ limits.depth ∧
        f.tree.nodeCount ≤ limits.nodes) ∧
    (∀ observed limit, parse file text limits = .error (.limit (.depth observed limit)) →
      observed = limit + 1 ∧ limit = limits.depth) ∧
    (∀ observed limit, parse file text limits = .error (.limit (.nodes observed limit)) →
      observed = limit + 1 ∧ limit = limits.nodes) := by
  refine ⟨fun observed limit => ?_, fun f => ?_, fun observed limit herr => ?_,
    fun observed limit herr => ?_⟩
  · rw [parse_eq_error_iff]
    constructor
    · rintro (⟨hlt, herr⟩ | ⟨-, herr⟩)
      · obtain ⟨rfl, rfl⟩ : observed = _ ∧ limit = _ := by simpa using herr
        exact ⟨hlt, rfl, rfl⟩
      · rcases Source.parse_exceeds herr trivial with h | h <;> simp at h
    · rintro ⟨hlt, rfl, rfl⟩
      exact .inl ⟨hlt, rfl⟩
  · have hlength := h.formulaLength
    have hdepth := h.depth
    have hnodes := h.nodes
    simp only [parse_eq_ok_iff, Source.parse_eq_ok_iff]
    constructor
    · rintro ⟨hsource, h1, hnone, hder, h2, h3⟩
      rw [hsource] at hnone hder h2
      rw [hsource]
      exact ⟨⟨rfl, Nat.le_trans h1 hlength, hnone, hder, Nat.le_trans h2 hdepth,
        Nat.le_trans h3 hnodes⟩, h1, h2, h3⟩
    · rintro ⟨⟨hsource, -, hnone, hder, -, -⟩, h1, h2, h3⟩
      exact ⟨hsource, h1, hnone, hder, hsource ▸ h2, h3⟩
  · rcases parse_eq_error_iff.1 herr with ⟨-, herr⟩ | ⟨-, herr⟩
    · simp at herr
    · rcases Source.parse_exceeds herr trivial with h | h
      · obtain ⟨rfl, rfl⟩ : observed = _ ∧ limit = _ := by simpa using h
        exact ⟨rfl, rfl⟩
      · simp at h
  · rcases parse_eq_error_iff.1 herr with ⟨-, herr⟩ | ⟨-, herr⟩
    · simp at herr
    · rcases Source.parse_exceeds herr trivial with h | h
      · simp at h
      · obtain ⟨rfl, rfl⟩ : observed = _ ∧ limit = _ := by simpa using h
        exact ⟨rfl, rfl⟩

/-- Under the standard ceilings a call is read as under the largest ones. -/
theorem parse_ceilings_standard :
    Limits.standard.Representable ∧ ∃ f, parse "f" "max(a[0])" .standard = .ok f ∧
      parse "f" "max(a[0])" .largest = .ok f := by
  have hlimits : Limits.standard.Representable := by decide
  have hok : (parse "f" "max(a[0])" .standard).isOk = true := by decide +kernel
  obtain ⟨f, hf⟩ := exists_eq_ok_of_isOk hok
  exact ⟨hlimits, f, hf, (((parse_ceilings "f" "max(a[0])" .standard hlimits).2.1 f).1 hf).1⟩

end FormCalc
