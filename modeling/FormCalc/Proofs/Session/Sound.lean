import FormCalc.Proofs.Parse.Formula
import FormCalc.Proofs.Session.History

/-!
# Where the formulas of a session come from

A formula that an engine has parsed can be taken out of its cache, held under a name and put into
the cache of another engine. It stays what parsing its text has returned.

* `Entry.Parsed`: the formula is what parsing its text returns, under some ceilings.
* `Session.Sound`: this holds of every formula in a cache or held, and engines have their caches
  where the session says.
* `sound_step`, `sound_run`: requests keep it.
-/

namespace FormCalc

/-- The formula is what parsing its text returns, under ceilings that are as `Lim` tells. -/
def Entry.Parsed (Lim : Limits → Prop) (entry : Entry) : Prop :=
  ∃ limits, Lim limits ∧ parse Engine.sourceName entry.text limits = .ok entry.formula

/-- The ceilings that come with a request. -/
def Request.limits? : Request → Option Limits
  | .create _ limits? | .copyOf _ limits? => limits?
  | _ => none

/-- What holds of a session in which all ceilings are as `Lim` tells. -/
structure Session.Sound (Lim : Limits → Prop) (s : Session) : Prop where
  /-- The ceilings of an engine are such, and its cache is one of those that are in use. -/
  engines : ∀ name e, Table.find? name s.engines = some e → Lim e.limits ∧ e.cache < s.cacheCount
  /-- What is in a cache was parsed. -/
  kept : ∀ n id entry, Table.find? id (s.workspace.caches n) = some entry → entry.Parsed Lim
  /-- What is held was parsed. -/
  held : ∀ handle entry, Table.find? handle s.held = some entry → entry.Parsed Lim
  /-- A cache that is not in use is empty. -/
  fresh : ∀ n, s.cacheCount ≤ n → s.workspace.caches n = []

variable {Lim : Limits → Prop} {s : Session} {e : Engine}

/-- What an engine compiles was parsed under its ceilings. -/
theorem Entry.Parsed.of_compile {text : String} {f : Formula} {stamp : Nat} (he : Lim e.limits)
    (h : e.compile text = .ok f) : Entry.Parsed Lim ⟨f, stamp⟩ := by
  refine ⟨e.limits, he, ?_⟩
  obtain ⟨hsource, -, -⟩ := parse_eq_ok_iff.1 h
  have htext : Entry.text ⟨f, stamp⟩ = text := by
    rw [Entry.text, hsource, String.ofList_toList]
  rw [htext]
  exact h

/-- The formulas that edits keep, and those that were kept before. -/
theorem Edit.forall_applyAll {P : Entry → Prop} {cache : Cache} {edits : List Edit}
    (hcache : ∀ id entry, Table.find? id cache = some entry → P entry)
    (hedits : ∀ x ∈ edits, ∀ entry, x.kept? = some entry → P entry) :
    ∀ id entry, Table.find? id (applyAll cache edits) = some entry → P entry := by
  induction edits generalizing cache with
  | nil => exact hcache
  | cons x edits ih =>
    refine ih (fun id entry h => ?_) fun y hy => hedits y (by simp [hy])
    rw [find?_apply] at h
    split at h
    · exact hedits x (by simp) entry h
    · exact hcache id entry h

theorem Engine.parsed_of_kept (he : Lim e.limits) (parses : Nat) (fields : List ComputedField) :
    ∀ x ∈ e.kept parses fields, ∀ entry, x.kept? = some entry → entry.Parsed Lim := by
  induction fields generalizing parses with
  | nil => simp [kept]
  | cons field fields ih =>
    unfold kept
    split
    · rename_i f hf
      refine List.forall_mem_cons.2 ⟨fun entry h => ?_, ih _⟩
      obtain rfl : ⟨f, parses⟩ = entry := by simpa [Edit.kept?] using h
      exact .of_compile he hf
    · exact ih _

namespace Session

/-- What a request keeps was parsed: just now, or before it was held. -/
theorem Sound.parsed_of_editsBy (h : s.Sound Lim) (he : Lim e.limits) (r : Request) :
    ∀ x ∈ s.editsBy e r, ∀ entry, x.kept? = some entry → entry.Parsed Lim := by
  cases r with
  | parse id text => exact e.parsed_of_kept he _ _
  | parseForm fields =>
    simp only [editsBy]
    split
    · exact e.parsed_of_kept he _ _
    · simp
  | insert id handle =>
    simp only [editsBy]
    split
    · rename_i entry hfind
      simpa [Edit.kept?] using h.held _ _ hfind
    · simp
  | remove id =>
    simp only [editsBy]
    split <;> simp [Edit.kept?]
  | clear => simp [editsBy, Edit.kept?]
  | _ => simp [editsBy]

/-- Only the request to hold a formula changes more than the workspace. -/
theorem answer_eq {r : Request} (hr : ∀ id handle, r ≠ .hold id handle) :
    (s.answer e r).2 = { s with workspace := (s.answer e r).2.workspace } := by
  cases r with
  | hold id handle => exact absurd rfl (hr id handle)
  | parse id text =>
    simp only [answer, act]
    split <;> rfl
  | evaluate id context? | eval text context? =>
    simp only [answer, withContext, act]
    split <;> rfl
  | parseForm fields =>
    simp only [answer, withFields, act]
    split <;> rfl
  | evaluateForm fields context? =>
    simp only [answer, withContext, withFields, act]
    split
    · split <;> rfl
    · rfl
  | evalHeld handle context? =>
    simp only [answer, withContext, act]
    split
    · split <;> rfl
    · rfl
  | get id | insert id handle | isSame id handle | remove id =>
    simp only [answer]
    split <;> rfl
  | _ => rfl

/-- The caches behind edits of a cache that is in use. -/
theorem Sound.edited (h : s.Sound Lim) (he : Lim e.limits) (hcache : e.cache < s.cacheCount)
    {w : Workspace} (r : Request) (hw : w.caches = s.workspace.edited e.cache (s.editsBy e r)) :
    Sound Lim { s with workspace := w } := by
  refine ⟨h.engines, fun n => ?_, h.held, fun n hn => ?_⟩
  · rw [hw]
    by_cases hne : n = e.cache
    · simp only [Workspace.edited, if_pos hne]
      exact Edit.forall_applyAll (h.kept n) (h.parsed_of_editsBy he r)
    · simp only [Workspace.edited, if_neg hne]
      exact h.kept n
  · have hne : n ≠ e.cache := Nat.ne_of_gt (Nat.lt_of_lt_of_le hcache hn)
    rw [hw]
    simp only [Workspace.edited, if_neg hne]
    exact h.fresh n hn

/-- A request to an engine of the session. -/
theorem Sound.answer (h : s.Sound Lim) (he : Lim e.limits) (hcache : e.cache < s.cacheCount)
    (r : Request) : (s.answer e r).2.Sound Lim := by
  have hworkspace := h.edited he hcache r (s.caches_answer e r)
  by_cases hr : ∃ id handle, r = .hold id handle
  · obtain ⟨id, handle, rfl⟩ := hr
    simp only [Session.answer]
    split
    · -- what is held now was in the cache of the engine
      rename_i entry hfind
      refine ⟨h.engines, h.kept, fun k held hk => ?_, h.fresh⟩
      rw [Table.find?_insert] at hk
      split at hk
      · obtain rfl : entry = held := by simpa using hk
        exact h.kept _ _ _ hfind
      · exact h.held k held hk
    · exact h
  · rw [answer_eq fun id handle heq => hr ⟨id, handle, heq⟩]
    exact hworkspace

/-- Naming an engine whose cache is in use. -/
theorem Sound.name (h : s.Sound Lim) (he : Lim e.limits) (hcache : e.cache < s.cacheCount)
    (engine : String) : (s.name engine e).Sound Lim := by
  refine ⟨fun other e' hfind => ?_, h.kept, h.held, h.fresh⟩
  simp only [Session.name, Table.find?_insert] at hfind
  split at hfind
  · obtain rfl : e = e' := by simpa using hfind
    exact ⟨he, hcache⟩
  · exact h.engines other e' hfind

/-- Taking one more cache into use. -/
theorem Sound.succ (h : s.Sound Lim) : Sound Lim { s with cacheCount := s.cacheCount + 1 } := by
  refine ⟨fun other e hfind => ?_, h.kept, h.held, fun n hn => h.fresh n (Nat.le_of_succ_le hn)⟩
  obtain ⟨he, hcache⟩ := h.engines other e hfind
  exact ⟨he, Nat.lt_succ_of_lt hcache⟩

theorem Sound.create (h : s.Sound Lim) (engine : String) (share? : Option String) {limits : Limits}
    (hlimits : Lim limits) : (s.create engine share? limits).Sound Lim := by
  unfold Session.create
  split
  · rename_i other hshare
    obtain ⟨name, -, hother⟩ := Option.bind_eq_some_iff.1 hshare
    exact h.name (e := ⟨other.cache, limits⟩) hlimits (h.engines name other hother).2 engine
  · exact h.succ.name hlimits (Nat.lt_succ_self s.cacheCount) engine

/-- **A request keeps a session sound.** -/
theorem Sound.step (h : s.Sound Lim) (hstandard : Lim .standard) (engine : String) (r : Request)
    (hr : ∀ limits ∈ r.limits?, Lim limits) : (s.step engine r).2.Sound Lim := by
  have hgetD : ∀ (limits? : Option Limits) (default : Limits), Lim default →
      (∀ limits ∈ limits?, Lim limits) → Lim (limits?.getD default) := by
    intro limits? default hdefault hlimits
    cases limits? with
    | none => exact hdefault
    | some limits => exact hlimits limits rfl
  cases r with
  | create share? limits? => exact h.create engine share? (hgetD _ _ hstandard hr)
  | copyOf other limits? =>
    simp only [Session.step]
    split
    · rename_i e he
      obtain ⟨hlimits, hcache⟩ := h.engines other e he
      exact h.name (e := ⟨e.cache, _⟩) (hgetD limits? _ hlimits hr) hcache engine
    · exact h
  | _ =>
    simp only [Session.step]
    split
    · rename_i e he
      exact h.answer (h.engines engine e he).1 (h.engines engine e he).2 _
    · exact h

/-- A session without engines is sound. -/
theorem sound_empty : Sound Lim {} :=
  ⟨fun _ _ h => by simp at h, fun _ _ _ h => by simp at h, fun _ _ h => by simp at h,
    fun _ _ => rfl⟩

/-- **All sessions are sound.** -/
theorem sound_run (hstandard : Lim .standard) {engine : String} {limits : Limits}
    (hlimits : Lim limits) {requests : List (String × Request)}
    (hrequests : ∀ r ∈ requests, ∀ limits ∈ r.2.limits?, Lim limits) :
    ((start engine limits).run requests).Sound Lim := by
  suffices hrun : ∀ s : Session, s.Sound Lim → (s.run requests).Sound Lim from
    hrun _ (sound_empty.create engine none hlimits)
  induction requests with
  | nil => exact fun s h => h
  | cons r requests ih =>
    exact fun s h => ih (fun r' hr' => hrequests r' (by simp [hr'])) _
      (h.step hstandard r.1 r.2 (hrequests r (by simp)))

end Session

end FormCalc
