import FormCalc.Proofs.Json.Numbers
import FormCalc.Proofs.Json.RoundTrip
import FormCalc.Proofs.Json.Skipping

/-!
# Records with rearranged members

A record is read from an object with its members in any order, among members with other names, and
without those whose content is their default.

* `Json.Datum`: the content of a member of a record, `Json.Datum.Spelled`: its texts.
* `Json.ObjectText`: the texts of objects by their members.
* `Json.Rearranged`: the members of a record, rearranged.
* `Json.Record.Collects`: what has to be shown of the record form of some content.
* `Json.fillByName_members`: members fill in the record one by one, in any order.
* `Json.Record.Collects.read`: a rearranged record is read as the content it stands for.
-/

namespace FormCalc.Json

open List (Forall₂)

/-- The content of a member of a record. -/
inductive Datum where
  | nothing
  | flag (b : Bool)
  | text (s : String)
  | natural (n : Nat)

namespace Datum

/-- A text that may be absent. -/
def ofOption : Option String → Datum
  | none => .nothing
  | some s => .text s

/-- What may be written for the content. -/
inductive Spelled : Datum → List Char → Prop where
  | nothing : Spelled .nothing "null".toList
  | flag (b : Bool) : Spelled (.flag b) (if b then "true" else "false").toList
  | text {ws : List Char} {s : String} (h : Spells ws s.toList) :
      Spelled (.text s) ('"' :: (ws ++ ['"']))
  | natural (n : Nat) : Spelled (.natural n) (Number.digits n)

theorem Spelled.quote (s : String) : Spelled (.text s) (quote s.toList) :=
  .text (spells_escaped s.toList)

end Datum

/-- The texts of members, from the beginning on or behind others, each with its key and the text of
its value. -/
inductive MembersText : Bool → List Char → List (String × List Char) → Prop where
  | nothing {first : Bool} {gap : List Char} (h : AllBlank gap) : MembersText first gap []
  | next {first : Bool} {sep ws gap gap' cs ts : List Char} {k : String}
      {ms : List (String × List Char)} (hsep : Separator first sep) (hk : Spells ws k.toList)
      (hgap : AllBlank gap) (hgap' : AllBlank gap') (hms : MembersText false ts ms) :
      MembersText first (sep ++ '"' :: (ws ++ '"' :: (gap ++ ':' :: (gap' ++ (cs ++ ts)))))
        ((k, cs) :: ms)

/-- The text is that of an object with the given members, with blanks around it. -/
def ObjectText (cs : List Char) (ms : List (String × List Char)) : Prop :=
  ∃ gap ts gap', cs = gap ++ '{' :: (ts ++ '}' :: gap') ∧ AllBlank gap ∧ AllBlank gap' ∧
    MembersText true ts ms

/-- **The members of a record, rearranged.** Some of its own members are omitted, all of them with
their default content; members with other names and any value are added; all are in any order. -/
def Rearranged (own defaults : List (String × Datum)) (ms : List (String × List Char)) : Prop :=
  ∃ present omitted kept others, own.Perm (present ++ omitted) ∧ omitted ⊆ defaults ∧
    Forall₂ (fun m p => m.1 = p.1 ∧ p.2.Spelled m.2) kept present ∧
    (∀ m ∈ others, m.1 ∉ own.map (·.1) ∧ Grammatical .value m.2) ∧ ms.Perm (kept ++ others)

section Lists

variable {α β γ : Type} {R : α → β → Prop} {xs : List α} {ys : List β}

theorem exists_mem_of_forall₂ {x : α} (h : Forall₂ R xs ys) (hx : x ∈ xs) : ∃ y ∈ ys, R x y := by
  induction h with
  | nil => simp at hx
  | @cons a b xs ys hab _ ih =>
    rcases List.mem_cons.1 hx with rfl | hx
    · exact ⟨b, by simp, hab⟩
    · obtain ⟨y, hy, hxy⟩ := ih hx
      exact ⟨y, by simp [hy], hxy⟩

theorem map_eq_of_forall₂ {f : α → γ} {g : β → γ} (h : Forall₂ R xs ys)
    (hR : ∀ x y, R x y → f x = g y) : xs.map f = ys.map g := by
  rw [← List.forall₂_eq_eq_eq, List.forall₂_map_left_iff, List.forall₂_map_right_iff]
  exact h.imp hR

end Lists

section Readers

variable {α β : Type} {r : Reader α} {a : α} {cs gap rest : List Char} {s : String} {n : Nat}

/-- The reader takes the text as the given value, with blanks in front of it and wherever a value
may end. -/
def Takes (r : Reader α) (cs : List Char) (a : α) : Prop :=
  ∀ gap rest, AllBlank gap → Ends rest → r (gap ++ (cs ++ rest)) = .ok (a, rest)

theorem Takes.map (h : Takes r cs a) (f : α → β) : Takes (r >>= fun x => pure (f x)) cs (f a) :=
  fun gap rest hgap hrest => bind_of_ok (h gap rest hgap hrest) _

/-- A text holds a value with nothing but blanks behind it. -/
theorem document_of_ok (h : r cs = .ok (a, rest)) (hrest : AllBlank rest) :
    document r (String.ofList cs) = .ok a := by
  have hdrop : (rest.dropWhile isBlank).isEmpty = true := by
    rw [List.isEmpty_iff, List.dropWhile_eq_nil_iff]
    exact List.all_eq_true.1 hrest
  rw [document, String.toList_ofList, h]
  change (if (rest.dropWhile isBlank).isEmpty then _ else _) = _
  rw [if_pos hdrop]
  rfl

theorem takes_string (h : (Datum.text s).Spelled cs) : Takes string cs s := by
  intro gap rest hgap _
  cases h with
  | text hws =>
    rw [string, peek_blanks hgap, List.cons_append, peek_cons (by decide), List.append_assoc]
    exact hws.stringBody

theorem takes_string? {s? : Option String} (h : (Datum.ofOption s?).Spelled cs) :
    Takes string? cs s? := by
  intro gap rest hgap hrest
  rw [string?, peek_blanks hgap]
  cases s? with
  | none =>
    cases h with
    | nothing => rfl
  | some s =>
    have hstring := (takes_string h).map some [] rest rfl hrest
    cases h with
    | text hws =>
      rw [List.cons_append, peek_cons (by decide)]
      exact hstring

theorem takes_boolean {b : Bool} (h : (Datum.flag b).Spelled cs) : Takes boolean cs b := by
  intro gap rest hgap _
  rw [boolean, peek_blanks hgap]
  cases h with
  | flag => cases b <;> rfl

/-- Numbers up to the largest one of 64 bits are read exactly. -/
theorem takes_natural (hn : n ≤ Number.Numeral.maxSignificand)
    (h : (Datum.natural n).Spelled cs) : Takes natural cs n := by
  intro gap rest hgap hrest
  cases h with
  | natural =>
    have hformed := Number.Numeral.formed_ofNat n
    have htoken : NumberToken.ofNumeral? false (.ofNat n) = some (.integer n) := by
      rw [NumberToken.ofNumeral?, Number.Numeral.natural?_ofNat hn]
      rfl
    have hnumber : number false (Number.digits n ++ rest) = .ok (.integer n, rest) :=
      number_ok_iff.2 ⟨.ofNat n, hformed, by rw [Number.Numeral.text_ofNat],
        Number.Numeral.stopsAt_of_ends hrest _, htoken⟩
    obtain ⟨d, ds, htext, hd⟩ := hformed.exists_digit
    rw [Number.Numeral.text_ofNat] at htext
    have hminus : d ≠ '-' := by
      rintro rfl
      simp at hd
    rw [natural, peek_blanks hgap]
    rw [htext] at hnumber ⊢
    rw [List.cons_append, peek_cons (isBlank_of_isDigit hd)]
    simp only [hd, if_true]
    exact bind_of_ok hnumber _

end Readers

namespace MembersText

variable {first : Bool} {ts rest : List Char} {ms : List (String × List Char)}

/-- What is behind a member. -/
theorem ends (h : MembersText false ts ms) (rest : List Char) : Ends (ts ++ '}' :: rest) := by
  cases h with
  | nothing hgap => exact hgap.ends rfl
  | next hsep _ _ _ _ =>
    rw [List.append_assoc]
    exact hsep.ends _

/-- Behind a comma there are members behind others. -/
theorem comma {m : String × List Char} (h : MembersText true ts (m :: ms)) :
    MembersText false (',' :: ts) (m :: ms) := by
  cases h with
  | next hsep hk hgap hgap' hms =>
    cases hsep with
    | first hsep => exact .next (.comma allBlank_nil hsep) hk hgap hgap' hms

end MembersText

/-- **What is written for members** is the text of an object with them. -/
theorem objectText_written (ms : List (String × List Char)) : ObjectText (objectText ms) ms := by
  refine ⟨[], _, [], List.append_assoc .., allBlank_nil, allBlank_nil, ?_⟩
  induction ms with
  | nil => exact .nothing allBlank_nil
  | cons m ms ih =>
    have hnext {ts : List Char} (hts : MembersText false ts ms) :
        MembersText true (quote m.1.toList ++ ':' :: m.2 ++ ts) (m :: ms) := by
      have h : MembersText true ([] ++ '"' :: (m.1.toList.flatMap escapeChar ++
          '"' :: ([] ++ ':' :: ([] ++ (m.2 ++ ts))))) ((m.1, m.2) :: ms) :=
        .next (.first allBlank_nil) (spells_escaped m.1.toList) allBlank_nil allBlank_nil hts
      simpa [quote] using h
    cases ms with
    | nil => simpa using hnext (.nothing allBlank_nil)
    | cons m' ms =>
      rw [List.map_cons, List.map_cons, List.intercalate_cons_cons, List.append_assoc]
      exact hnext ih.comma

section Records

variable {σ : Type} {r : Record σ} {own defaults : List (String × Datum)}
  {draft : List String → σ} {first : Bool} {n : Nat} {ks : List String} {k : String}
  {cs ts rest : List Char} {ms : List (String × List Char)}

/-- The member collects the content of the given name. The drafts are indexed by the names that have
been filled in. -/
structure Member.Collects (draft : List String → σ) (m : Member σ) (p : String × Datum) : Prop where
  name : m.name = p.1
  filled : ∀ ks, m.filled (draft ks) = true ↔ p.1 ∈ ks
  fill : ∃ g, (∀ cs, p.2.Spelled cs → Takes m.fill cs g) ∧ ∀ ks, g (draft ks) = draft (p.1 :: ks)

/-- The record collects the given content, and only members that have a default may be missing. -/
structure Record.Collects (r : Record σ) (own defaults : List (String × Datum))
    (draft : List String → σ) : Prop where
  names : (own.map (·.1)).Nodup
  members : Forall₂ (Member.Collects draft) r.members own
  blank : r.blank = draft []
  required : ∀ m ∈ r.members, m.required = true → m.name ∉ defaults.map (·.1)

theorem Record.Collects.map_name (h : r.Collects own defaults draft) :
    r.members.map (·.name) = own.map (·.1) :=
  map_eq_of_forall₂ h.members fun _ _ hm => hm.name

/-- A member is found by the name of its content. -/
theorem find?_of_collects {members : List (Member σ)} {d : Datum}
    (h : Forall₂ (Member.Collects draft) members own) (hnames : (own.map (·.1)).Nodup)
    (hk : (k, d) ∈ own) :
    ∃ m, members.find? (·.name = k) = some m ∧ m.Collects draft (k, d) := by
  induction h with
  | nil => simp at hk
  | @cons m p members own hm _ ih =>
    obtain ⟨hp, hnames⟩ := List.nodup_cons.1 hnames
    rcases List.mem_cons.1 hk with rfl | hk
    · exact ⟨m, List.find?_cons_of_pos (by simpa using hm.name), hm⟩
    · have hne : m.name ≠ k := by
        rw [hm.name]
        rintro rfl
        exact hp (List.mem_map.2 ⟨_, hk, rfl⟩)
      rw [List.find?_cons_of_neg (by simpa using hne)]
      exact ih hnames hk

/-- The names of the record among those of members. -/
def known (own : List (String × Datum)) (ms : List (String × List Char)) : List String :=
  (ms.map (·.1)).filter (· ∈ own.map (·.1))

theorem known_cons_of_mem (h : k ∈ own.map (·.1)) :
    known own ((k, cs) :: ms) = k :: known own ms := by
  simp only [known, List.map_cons, List.filter_cons, h, decide_true, if_true]

theorem known_cons_of_not_mem (h : k ∉ own.map (·.1)) :
    known own ((k, cs) :: ms) = known own ms := by
  simp only [known, List.map_cons, List.filter_cons, h, decide_false, if_false,
    Bool.false_eq_true]

/-- A member of a rearranged record. -/
def Admitted (own : List (String × Datum)) (m : String × List Char) : Prop :=
  (∃ d, (m.1, d) ∈ own ∧ d.Spelled m.2) ∨ m.1 ∉ own.map (·.1) ∧ Grammatical .value m.2

section Steps

variable {sep ws gap gap' : List Char} {d : Datum}

/-- A member of the record is filled in. -/
theorem fillByName_own (h : r.Collects own defaults draft) (hd : (k, d) ∈ own) (hks : k ∉ ks)
    (hsep : Separator first sep) (hk : Spells ws k.toList) (hgap : AllBlank gap)
    (hgap' : AllBlank gap') (hcs : d.Spelled cs) (hrest : Ends rest) :
    fillByName r (n + 1) first (draft ks)
        (sep ++ '"' :: (ws ++ '"' :: (gap ++ ':' :: (gap' ++ (cs ++ rest))))) =
      fillByName r n false (draft (k :: ks)) rest := by
  obtain ⟨m, hfind, hm⟩ := find?_of_collects h.members h.names hd
  obtain ⟨g, hg, hdraft⟩ := hm.fill
  have hfilled : ¬m.filled (draft ks) = true := fun hf => hks ((hm.filled ks).1 hf)
  rw [fillByName, bind_of_ok (moreMembers_separator hsep), if_pos rfl, bind_of_ok hk.stringBody,
    hfind]
  simp only [hfilled, if_false, Bool.false_eq_true]
  rw [bind_of_ok (colon_blanks hgap), bind_of_ok (hg cs hcs gap' rest hgap' hrest), hdraft]

/-- A member with another name is skipped. -/
theorem fillByName_other (h : r.Collects own defaults draft) (hother : k ∉ own.map (·.1))
    (hsep : Separator first sep) (hk : Spells ws k.toList) (hgap : AllBlank gap)
    (hgap' : AllBlank gap') (hcs : Grammatical .value cs) (hrest : Ends rest) :
    fillByName r (n + 1) first (draft ks)
        (sep ++ '"' :: (ws ++ '"' :: (gap ++ ':' :: (gap' ++ (cs ++ rest))))) =
      fillByName r n false (draft ks) rest := by
  have hfind : r.members.find? (·.name = k) = none := by
    rw [← h.map_name] at hother
    refine List.find?_eq_none.2 fun m hm hname => hother (List.mem_map.2 ⟨m, hm, ?_⟩)
    simpa using hname
  rw [fillByName, bind_of_ok (moreMembers_separator hsep), if_pos rfl, bind_of_ok hk.stringBody,
    hfind]
  dsimp only
  rw [bind_of_ok (colon_blanks hgap), bind_of_ok (hcs.skips hgap' hrest)]

end Steps

/-- **Members fill in the record one by one.** The induction is on the members; the names that have
been filled in so far index the draft. -/
theorem fillByName_members (h : r.Collects own defaults draft) (htext : MembersText first ts ms)
    (hms : ∀ m ∈ ms, Admitted own m) (hknown : (known own ms ++ ks).Nodup) (hn : ts.length < n) :
    fillByName r n first (draft ks) (ts ++ '}' :: rest) =
      .ok (draft ((known own ms).reverse ++ ks), '}' :: rest) := by
  induction htext generalizing n ks with
  | nothing hgap =>
    cases n with
    | zero => omega
    | succ n =>
      rw [fillByName, bind_of_ok (moreMembers_close hgap)]
      rfl
  | @next first sep ws gap gap' cs ts k ms hsep hk hgap hgap' htext ih =>
    obtain ⟨hm, hms⟩ := List.forall_mem_cons.1 hms
    simp only [List.length_append, List.length_cons] at hn
    cases n with
    | zero => omega
    | succ n =>
      have hends := htext.ends rest
      simp only [List.append_assoc, List.cons_append]
      rcases hm with ⟨d, hd, hcs⟩ | ⟨hother, hcs⟩
      · have hmem : k ∈ own.map (·.1) := List.mem_map.2 ⟨_, hd, rfl⟩
        rw [known_cons_of_mem hmem, List.cons_append] at hknown
        -- the name moves over to those that have been filled in
        have hmoved : (known own ms ++ k :: ks).Nodup := List.perm_middle.nodup_iff.2 hknown
        have hks : k ∉ ks := fun hk => (List.nodup_cons.1 hknown).1 (List.mem_append_right _ hk)
        rw [fillByName_own h hd hks hsep hk hgap hgap' hcs hends, ih hms hmoved (by omega),
          known_cons_of_mem hmem, List.reverse_cons, List.append_assoc]
        rfl
      · rw [known_cons_of_not_mem hother] at hknown ⊢
        rw [fillByName_other h hother hsep hk hgap hgap' hcs hends, ih hms hknown (by omega)]

/-- Every member that is required has been filled in. -/
theorem Record.Collects.checkFilled (h : r.Collects own defaults draft)
    (hks : ∀ p ∈ own, p.1 ∉ ks → p ∈ defaults) : checkFilled r (draft ks) = .ok () := by
  have hall : ∀ m ∈ r.members, ¬(m.required && !m.filled (draft ks)) = true := by
    intro m hm hmissing
    simp only [Bool.and_eq_true, Bool.not_eq_true', ← Bool.not_eq_true] at hmissing
    obtain ⟨hrequired, hfilled⟩ := hmissing
    obtain ⟨p, hp, hmp⟩ := exists_mem_of_forall₂ h.members hm
    rw [hmp.filled] at hfilled
    refine h.required m hm hrequired ?_
    rw [hmp.name]
    exact List.mem_map_of_mem (hks p hp hfilled)
  rw [Json.checkFilled, List.find?_eq_none.2 hall]

namespace Rearranged

/-- Every member is one of the record, or it has another name. -/
theorem admitted (h : Rearranged own defaults ms) : ∀ m ∈ ms, Admitted own m := by
  obtain ⟨present, omitted, kept, others, hown, -, hkept, hothers, hms⟩ := h
  intro m hm
  rcases List.mem_append.1 (hms.mem_iff.1 hm) with hm | hm
  · obtain ⟨p, hp, hname, hspelled⟩ := exists_mem_of_forall₂ hkept hm
    refine .inl ⟨p.2, ?_, hspelled⟩
    rw [hname]
    exact hown.mem_iff.2 (List.mem_append_left _ hp)
  · exact .inr (hothers m hm)

/-- The names of the record that are met are those of the members that are not omitted. -/
theorem known_perm (h : Rearranged own defaults ms) :
    ∃ present omitted, own.Perm (present ++ omitted) ∧ omitted ⊆ defaults ∧
      (known own ms).Perm (present.map (·.1)) := by
  obtain ⟨present, omitted, kept, others, hown, homitted, hkept, hothers, hms⟩ := h
  refine ⟨present, omitted, hown, homitted, ((hms.map _).filter _).trans ?_⟩
  have hnames : kept.map (·.1) = present.map (·.1) := map_eq_of_forall₂ hkept fun _ _ hm => hm.1
  have hpresent : ∀ k ∈ present.map (·.1), k ∈ own.map (·.1) := fun k hk =>
    (hown.map _).mem_iff.2 (by rw [List.map_append]; exact List.mem_append_left _ hk)
  rw [List.map_append, List.filter_append, hnames,
    List.filter_eq_self.2 fun k hk => by simpa using hpresent k hk,
    List.filter_eq_nil_iff.2, List.append_nil]
  -- a member with another name is not met
  intro k hk
  obtain ⟨m, hm, rfl⟩ := List.mem_map.1 hk
  simpa using (hothers m hm).1

/-- Each name of the record is met at most once. -/
theorem nodup_known (h : Rearranged own defaults ms) (hnames : (own.map (·.1)).Nodup) :
    (known own ms).Nodup := by
  obtain ⟨present, omitted, hown, -, hknown⟩ := h.known_perm
  have hall := (hown.map (·.1)).nodup_iff.1 hnames
  rw [List.map_append] at hall
  exact hknown.nodup_iff.2 (List.nodup_append.1 hall).1

/-- Where a name of the record is not met, its content is the default. -/
theorem mem_defaults (h : Rearranged own defaults ms) {p : String × Datum} (hp : p ∈ own)
    (hmissing : p.1 ∉ known own ms) : p ∈ defaults := by
  obtain ⟨present, omitted, hown, homitted, hknown⟩ := h.known_perm
  rcases List.mem_append.1 (hown.mem_iff.1 hp) with hp | hp
  · exact absurd (hknown.mem_iff.2 (List.mem_map_of_mem hp)) hmissing
  · exact homitted hp

end Rearranged

/-- **A rearranged record is read**, as a draft in which only members with their default content are
missing. -/
theorem Record.Collects.read (h : r.Collects own defaults draft) (hcs : ObjectText cs ms)
    (hms : Rearranged own defaults ms) :
    ∃ ks, document (record r) (String.ofList cs) = .ok (draft ks) ∧
      ∀ p ∈ own, p.1 ∉ ks → p ∈ defaults := by
  obtain ⟨gap, ts, gap', rfl, hgap, hgap', htext⟩ := hcs
  have hnames : (known own ms ++ []).Nodup := by
    rw [List.append_nil]
    exact hms.nodup_known h.names
  have hfill : fillByName r ((ts ++ '}' :: gap').length + 1) true r.blank (ts ++ '}' :: gap') =
      .ok (draft (known own ms).reverse, '}' :: gap') := by
    rw [h.blank, fillByName_members h htext hms.admitted hnames
      (by simp only [List.length_append]; omega), List.append_nil]
  have hmissing : ∀ p ∈ own, p.1 ∉ (known own ms).reverse → p ∈ defaults := fun p hp hnot =>
    hms.mem_defaults hp (by rwa [List.mem_reverse] at hnot)
  have hrecord : record r (gap ++ '{' :: (ts ++ '}' :: gap')) =
      .ok (draft (known own ms).reverse, gap') := by
    rw [record, peek_blanks hgap, peek_cons (by decide)]
    simp only [Char.reduceEq, if_false, if_true]
    rw [skip_bind, get_bind, bind_of_ok hfill, h.checkFilled hmissing]
    rfl
  exact ⟨_, document_of_ok hrecord hgap', hmissing⟩

end Records

end FormCalc.Json
