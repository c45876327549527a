import FormCalc.Proofs.Json.Numerals
import FormCalc.Proofs.Number.Whole

/-!
# Numbers written in JSON

* `isNumber_of_integer?`: the integers up to `2 ^ 53 - 1` are written as texts of the same numbers.
* `OfNumeral.json`: a finite number is written with the characters of numerals.
* `Number.IsFinite.readsBack_iff`: so it reads back exactly if its text is one of the same number.
-/

namespace FormCalc

open Number (Numeral Binary digits digitValue ofDigits)

variable {x : Float} {n : Nat}

namespace Number

/-- A number that fits is collected from all of its digits. -/
theorem Numeral.collect_of_le (ds : List Char) (s taken : Nat)
    (h : ds.foldl (fun n d => 10 * n + digitValue d) s ≤ maxSignificand) :
    collect s taken ds = (ds.foldl (fun n d => 10 * n + digitValue d) s, taken + ds.length, 0) := by
  induction ds generalizing s taken with
  | nil => rfl
  | cons d ds ih =>
    have hstep : 10 * s + digitValue d ≤ maxSignificand := by
      refine Nat.le_trans ?_ h
      rw [List.foldl_cons, foldl_digits]
      have hpow : 0 < Nat.pow 10 ds.length := Nat.pow_pos (by decide)
      exact Nat.le_trans (Nat.le_mul_of_pos_left _ hpow) (Nat.le_add_right _ _)
    rw [collect, if_pos hstep, ih _ _ h, List.foldl_cons, List.length_cons]
    congr 2
    omega

/-- The numeral of a natural number. -/
def Numeral.ofNat (n : Nat) : Numeral :=
  ⟨digits n, [], none⟩

theorem Numeral.natural?_ofNat (h : n ≤ maxSignificand) : (Numeral.ofNat n).natural? = some n := by
  have hcollect := collect_of_le (digits n) 0 0
  change ofDigits (digits n) ≤ _ → _ = (ofDigits (digits n), _, _) at hcollect
  rw [ofDigits_digits] at hcollect
  simp [natural?, Numeral.ofNat, collected, hcollect h, isInteger, collect]

/-- Written digits begin with a zero only if there is no other digit. -/
theorem isWhole_digits (n : Nat) : IsWhole (digits n) := by
  have hall : ∀ k, (digits k).all Char.isDigit = true := fun k =>
    List.all_eq_true.2 fun c hc => isDigit_of_mem_digits hc
  induction n using Nat.strongRecOn with
  | ind n ih =>
    by_cases hn : n < 10
    · have hdigits : digits n = [n.digitChar] := by
        rw [digits, Nat.toDigits_eq_if (by decide), if_pos hn]
      have hone : ∀ d, d < 10 → d = 0 ∨ d.digitChar ≠ '0' := by decide
      rcases hone n hn with rfl | hne
      · exact .inl hdigits
      · exact .inr ⟨_, _, hdigits, hne, hall n⟩
    · have hdigits : digits n = digits (n / 10) ++ [(n % 10).digitChar] := by
        rw [digits, Nat.toDigits_eq_if (by decide), if_neg hn]
        rfl
      rcases ih (n / 10) (by omega) with hzero | ⟨d, ds, hds, hd, -⟩
      · -- the digits before the last are those of a number that is not zero
        have hvalue := ofDigits_digits (n / 10)
        rw [hzero] at hvalue
        have hnil : ofDigits ['0'] = 0 := rfl
        omega
      · exact .inr ⟨d, ds ++ [(n % 10).digitChar], by rw [hdigits, hds]; rfl, hd, hall n⟩

theorem Numeral.formed_ofNat (n : Nat) : (Numeral.ofNat n).Formed :=
  ⟨isWhole_digits n, rfl, nofun⟩

theorem Numeral.text_ofNat (n : Nat) : (Numeral.ofNat n).text = digits n :=
  List.append_nil _

end Number

/-- A token with its sign. -/
theorem Json.NumberToken.ofNumeral?_ofNat {negative : Bool} (h : n < 2 ^ 53)
    (hzero : ¬(negative = true ∧ n = 0)) :
    ∃ t, Json.NumberToken.ofNumeral? negative (Numeral.ofNat n) = some t ∧
      t.toFloat = if negative then -Float.ofNat n else Float.ofNat n := by
  have hfits : n ≤ Numeral.maxSignificand := Nat.le_trans (Nat.le_of_lt h) (by decide)
  unfold Json.NumberToken.ofNumeral?
  rw [Numeral.natural?_ofNat hfits]
  cases negative with
  | false =>
    refine ⟨.integer n, rfl, ?_⟩
    have hnot : ¬(n : Int) < 0 := by omega
    simp only [Json.NumberToken.toFloat, if_neg hnot, Int.natAbs_natCast, Bool.false_eq_true,
      if_false]
  | true =>
    have hne : n ≠ 0 := fun hn => hzero ⟨rfl, hn⟩
    have hlt : ¬Nat.pow 2 63 < n := Nat.not_lt.2 (Nat.le_trans (Nat.le_of_lt h) (by decide))
    refine ⟨.integer (-n), by simp [hne, hlt], ?_⟩
    have hneg : -(n : Int) < 0 := by omega
    simp only [Json.NumberToken.toFloat, if_pos hneg, Int.natAbs_neg, Int.natAbs_natCast, if_true]

/-- **An integer of at most `2 ^ 53 - 1` in magnitude is written as a text of the same number**,
unless it is the negative zero. -/
theorem isNumber_of_integer? {negative : Bool} (h : Number.integer? x = some (negative, n))
    (hn : n ≤ Number.maxSafeInteger) (hzero : ¬(negative = true ∧ n = 0)) :
    IsNumber (Number.json x) x := by
  have hlt : n < 2 ^ 53 := Nat.lt_of_le_of_lt hn (by decide)
  obtain ⟨t, ht, hx⟩ := Json.NumberToken.ofNumeral?_ofNat hlt hzero
  refine ⟨negative, Numeral.ofNat n, t, Numeral.formed_ofNat n, ?_, ht, ?_⟩
  · have hsign : (negative && n != 0) = negative := by
      cases negative <;> simp_all
    rw [Number.json, h, Numeral.text_ofNat]
    simp only [if_pos hn, hsign]
  · rw [hx]
    exact (Number.eq_ofNat_of_integer? h hlt hzero).symm

/-- The text consists of characters of numerals. -/
def OfNumeral (cs : List Char) : Prop :=
  ∀ c ∈ cs, isNumeralChar c = true

namespace OfNumeral

variable {cs ds : List Char} {c : Char}

theorem append (h : OfNumeral cs) (h' : OfNumeral ds) : OfNumeral (cs ++ ds) := by
  intro c hc
  exact (List.mem_append.1 hc).elim (h c) (h' c)

theorem cons (hc : isNumeralChar c = true) (h : OfNumeral cs) : OfNumeral (c :: cs) := by
  intro d hd
  exact (List.mem_cons.1 hd).elim (fun hd => hd ▸ hc) (h d)

theorem subset (h : OfNumeral cs) (hsub : ds ⊆ cs) : OfNumeral ds :=
  fun c hc => h c (hsub hc)

theorem digits (n : Nat) : OfNumeral (Number.digits n) := by
  intro c hc
  rw [isNumeralChar, Number.isDigit_of_mem_digits hc, Bool.true_or]

theorem zeros (k : Nat) : OfNumeral (List.replicate k '0') := by
  intro c hc
  rw [List.eq_of_mem_replicate hc]
  rfl

theorem signed (negative : Bool) (h : OfNumeral cs) : OfNumeral (Number.signed negative cs) := by
  cases negative with
  | false => exact h
  | true => exact h.cons (by decide)

theorem positional (d : Number.Decimal) : OfNumeral (Number.positional d) := by
  have hds := digits d.digits
  unfold Number.positional
  simp only
  split
  · exact hds.append (zeros _)
  · split
    · exact (hds.subset (List.take_subset _ _)).append
        (cons (by decide) (hds.subset (List.drop_subset _ _)))
    · have hpoint : OfNumeral ['0', '.'] := cons (by decide) (cons (by decide) nofun)
      exact (hpoint.append (zeros _)).append hds

theorem scientific (d : Number.Decimal) : OfNumeral (Number.scientific d) := by
  have hds := digits d.digits
  have hfraction : OfNumeral (if (Number.digits d.digits).length = 1 then []
      else '.' :: (Number.digits d.digits).drop 1) := by
    split
    · exact nofun
    · exact cons (by decide) (hds.subset (List.drop_subset _ _))
  have hsign : ∀ e : Int, OfNumeral ['e', if 0 ≤ e then '+' else '-'] := by
    intro e
    refine cons (by decide) (cons ?_ nofun)
    split <;> decide
  unfold Number.scientific
  exact (((hds.subset (List.take_subset _ _)).append hfraction).append (hsign _)).append (digits _)

theorem jsonDecimal (d : Number.Decimal) : OfNumeral (Number.jsonDecimal d) := by
  unfold Number.jsonDecimal
  simp only
  split
  · split
    · exact (positional d).append (cons (by decide) (cons (by decide) nofun))
    · exact positional d
  · exact scientific d

theorem jsonFloat (hx : Number.IsFinite x) : OfNumeral (Number.jsonFloat x) := by
  obtain ⟨s, m, e, hx⟩ := hx
  simp only [Number.jsonFloat, hx]
  refine signed s ?_
  split
  · exact cons (by decide) (cons (by decide) (cons (by decide) nofun))
  · exact jsonDecimal _

/-- A finite number is written with the characters of numerals. -/
theorem json (hx : Number.IsFinite x) : OfNumeral (Number.json x) := by
  unfold Number.json
  split
  · split
    · exact signed _ (digits _)
    · exact jsonFloat hx
  · exact jsonFloat hx

end OfNumeral

theorem Number.isFinite_of_integer? {negative : Bool} (h : Number.integer? x = some (negative, n)) :
    Number.IsFinite x := by
  unfold Number.integer? at h
  split at h
  · rename_i s m e hx
    exact ⟨s, m, e, hx⟩
  · simp at h

/-- What is no finite number is written as null. -/
theorem Number.json_of_not_isFinite (hx : ¬Number.IsFinite x) : Number.json x = "null".toList := by
  have hfloat : Number.jsonFloat x = "null".toList := by
    unfold Number.jsonFloat
    split
    · rfl
    · rfl
    · rename_i negative m e h
      exact absurd ⟨negative, m, e, h⟩ hx
  have hnone : Number.integer? x = none := by
    unfold Number.integer?
    split
    · rename_i negative m e h
      exact absurd ⟨negative, m, e, h⟩ hx
    · rfl
  rw [Number.json, hnone, hfloat]

/-- The number on its own reads back from its text. -/
def Number.ReadsBack (x : Float) : Prop :=
  Value.read (String.ofList (Value.write (.number x))) = .ok (.number x)

/-- **A finite number reads back if it is written as a text of the same number.** -/
theorem Number.IsFinite.readsBack_iff (hx : Number.IsFinite x) :
    Number.ReadsBack x ↔ IsNumber (Number.json x) x := by
  have hread := Value.read_numeral_ok_iff (v := .number x) (OfNumeral.json hx)
  rw [Number.ReadsBack, Value.write, hread]
  constructor
  · rintro ⟨y, hy, heq⟩
    obtain rfl : x = y := by simpa using heq
    exact hy
  · exact fun h => ⟨x, h, rfl⟩

end FormCalc
