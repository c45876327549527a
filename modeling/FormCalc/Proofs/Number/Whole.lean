import FormCalc.Number.Text
import Mathlib

/-!
# Whole numbers as doubles

A natural number below `2 ^ 53` is turned into a double and back without rounding. Arithmetic on
doubles unpacks its arguments, works on sign, mantissa and exponent, and packs the rounded result;
here is what these steps do to a mantissa with its leading bit in place.

* `Binary.ofFloat_eq`: the number a double stands for is the number that arithmetic works on.
* `Binary.ofFloat_injective`: it determines the double.
* `IsMantissa.roundWithAccuracy`, `IsMantissa.unpack_pack`: such a mantissa passes through rounding
  and packing.
* `eq_ofNat_of_integer?`: a double that is an integer below `2 ^ 53` in magnitude is the double made
  from it, unless it is the negative zero.
-/

namespace FormCalc.Number

open Float.Model (Format totalExponent)
open Float.Model.UnpackedFloat

/-- Whether a sign is the negative one. -/
def isMinus : Sign → Bool
  | .negative => true
  | .positive => false

/-- What an unpacked double stands for. The zeros have the least exponent. -/
def Binary.ofUnpacked : Float.Model.UnpackedFloat → Binary
  | .notANumber => .nan
  | .infinity s => .infinite (isMinus s)
  | .zero s => .finite (isMinus s) 0 (-1074)
  | .finite s m e _ => .finite (isMinus s) m e

theorem leadingBit_eq : leadingBit = 2 ^ 52 := by decide

section Bits

variable (b : BitVec Format.binary64.numBits)

theorem toNat_unpackMantissa : (unpackMantissa b).toNat = b.toNat % leadingBit := by
  simp [unpackMantissa, leadingBit_eq]

theorem toNat_unpackExponent : (unpackExponent b).toNat = b.toNat / leadingBit % 2048 := by
  simp [unpackExponent, leadingBit_eq, Nat.shiftRight_eq_div_pow]

/-- The sign bit is set on negative numbers. -/
theorem isMinus_unpackSign :
    isMinus (Sign.ofBitVec (unpackSign b)) = (b.toNat / leadingBit / 2048 == 1) := by
  have hall : ∀ v : BitVec 1, isMinus (Sign.ofBitVec v) = (v.toNat == 1) := by decide
  have hlt : b.toNat < 2 ^ 64 := b.isLt
  have hbit : (unpackSign b).toNat = b.toNat / leadingBit / 2048 := by
    simp only [unpackSign, BitVec.toNat_cast, BitVec.extractLsb_toNat, leadingBit_eq,
      Nat.shiftRight_eq_div_pow]
    omega
  rw [hall, hbit]

theorem unpackExponent_eq_ones_iff :
    unpackExponent b = -BitVec.ofNat Format.binary64.exponentBits 1 ↔
      b.toNat / leadingBit % 2048 = 2047 := by
  rw [← toNat_unpackExponent, BitVec.toNat_eq]
  rfl

theorem unpackExponent_eq_zero_iff :
    unpackExponent b = BitVec.ofNat Format.binary64.exponentBits 0 ↔
      b.toNat / leadingBit % 2048 = 0 := by
  rw [← toNat_unpackExponent, BitVec.toNat_eq]
  rfl

theorem unpackMantissa_eq_zero_iff :
    unpackMantissa b = BitVec.ofNat Format.binary64.mantissaBitsWithoutImplicit 0 ↔
      b.toNat % leadingBit = 0 := by
  rw [← toNat_unpackMantissa, BitVec.toNat_eq]
  rfl

end Bits

theorem toNat_append_one (m : BitVec 52) : (1#1 ++ m).toNat = leadingBit + m.toNat := by
  rw [BitVec.toNat_append, ← Nat.shiftLeft_add_eq_or_of_lt m.isLt]
  rfl

/-- The fields of a word, in both ways to read them. -/
theorem Binary.ofFloat_word (b : BitVec Format.binary64.numBits) (hvalid) :
    Binary.ofFloat (.ofModel ⟨⟨b⟩, hvalid⟩) = .ofUnpacked (unpack Format.binary64 b) := by
  have hbits : (Float.ofModel ⟨⟨b⟩, hvalid⟩).toBits.toNat = b.toNat := rfl
  unfold Binary.ofFloat unpack
  simp only [hbits, ← isMinus_unpackSign, ← unpackExponent_eq_ones_iff,
    ← unpackExponent_eq_zero_iff, ← unpackMantissa_eq_zero_iff]
  split
  · split <;> rfl
  · split
    · rename_i hexponent
      split
      · rename_i hmantissa
        rw [Binary.ofUnpacked, (unpackMantissa_eq_zero_iff b).1 hmantissa]
      · rw [Binary.ofUnpacked, toNat_unpackMantissa, hexponent]
        rfl
    · have hm : (1#1 ++ unpackMantissa b).toNat = leadingBit + b.toNat % leadingBit :=
        (toNat_append_one _).trans (by rw [toNat_unpackMantissa])
      rw [Binary.ofUnpacked, hm, toNat_unpackExponent]
      rfl

/-- **The fields that are read off the bits are those that arithmetic works on.** -/
theorem Binary.ofFloat_eq (x : Float) : Binary.ofFloat x = .ofUnpacked x.toModel.unpack :=
  Binary.ofFloat_word x.toBits.toBitVec x.toModel.valid

theorem isMinus_injective : Function.Injective isMinus := by
  intro s s' h
  cases s <;> cases s' <;> first | rfl | cases h

/-- Only the zeros have no mantissa. -/
theorem Binary.ofUnpacked_injective : Function.Injective Binary.ofUnpacked := by
  intro u u' h
  cases u <;> cases u' <;> simp only [ofUnpacked, reduceCtorEq, infinite.injEq, finite.injEq] at h
  case notANumber.notANumber => rfl
  case infinity.infinity => rw [isMinus_injective h]
  case zero.zero => rw [isMinus_injective h.1]
  case zero.finite hm => omega
  case finite.zero hm _ => omega
  case finite.finite =>
    obtain ⟨hs, rfl, rfl⟩ := h
    rw [isMinus_injective hs]

/-- **A double is known by what it stands for.** -/
theorem Binary.ofFloat_injective : Function.Injective Binary.ofFloat := by
  intro x y h
  rw [ofFloat_eq, ofFloat_eq] at h
  have hbits : x.toBits.toBitVec = y.toBits.toBitVec :=
    (unpack_inj_of_valid x.toModel.valid y.toModel.valid).1 (ofUnpacked_injective h)
  exact Float.toBits_inj.1 (UInt64.toBitVec_inj.1 hbits)

/-- The double is neither infinite nor not a number. -/
def IsFinite (x : Float) : Prop :=
  ∃ negative m e, Binary.ofFloat x = .finite negative m e

/-- The mantissas of doubles whose leading bit is in place. -/
def IsMantissa (m : Nat) : Prop :=
  2 ^ 52 ≤ m ∧ m < 2 ^ 53

namespace IsMantissa

variable {m : Nat}

theorem pos (h : IsMantissa m) : 0 < m :=
  Nat.lt_of_lt_of_le (Nat.two_pow_pos 52) h.1

theorem log2 (h : IsMantissa m) (k : Nat) : (m * 2 ^ k).log2 = 52 + k := by
  have hne : m * 2 ^ k ≠ 0 := Nat.ne_of_gt (Nat.mul_pos h.pos (Nat.two_pow_pos k))
  rw [Nat.log2_eq_iff hne, Nat.pow_add, Nat.add_right_comm, Nat.pow_add]
  exact ⟨Nat.mul_le_mul_right _ h.1, Nat.mul_lt_mul_of_pos_right h.2 (Nat.two_pow_pos k)⟩

end IsMantissa

variable {m : Nat} {e : Int}

/-- Zeros that are shifted out leave the number exact. -/
theorem shiftRight_exact (m k : Nat) :
    (⟨m * 2 ^ k, false, false⟩ : ExtendedMantissa) >>> k = ⟨m, false, false⟩ := by
  change Nat.repeat ExtendedMantissa.shiftRightOne k _ = _
  induction k generalizing m with
  | zero => simp [Nat.repeat]
  | succ k ih =>
    have hpow : m * 2 ^ (k + 1) = m * 2 * 2 ^ k := by
      rw [Nat.pow_succ, Nat.mul_right_comm, Nat.mul_assoc]
    rw [Nat.repeat, hpow, ih]
    simp [ExtendedMantissa.shiftRightOne]

theorem IsMantissa.targetExponent (h : IsMantissa m) (he : -1074 ≤ e) (k : Nat) :
    Format.binary64.targetExponent (totalExponent (m * 2 ^ k) (e - k)) = e := by
  have hlog := h.log2 k
  have hmin : Format.binary64.minExponent = -1074 := rfl
  have hbits : (Format.binary64.mantissaBits : Int) = 53 := rfl
  rw [Format.targetExponent, totalExponent, hlog, hmin, hbits]
  omega

theorem IsMantissa.shiftToTargetExponent (h : IsMantissa m) (he : -1074 ≤ e) (k : Nat) :
    shiftToTargetExponent Format.binary64 (m * 2 ^ k) (e - k) .exact =
      (⟨m, false, false⟩, e) := by
  have hshift : (e - (e - k)).toNat = k := by omega
  have hsum : e - k + (k : Nat) = e := by omega
  simp only [Float.Model.UnpackedFloat.shiftToTargetExponent, h.targetExponent he, shiftToExponent,
    hshift, hsum, ExtendedMantissa.ofMantissaAndAccuracy, shiftRight_exact]

/-- **What fits a mantissa is rounded to itself.** -/
theorem IsMantissa.roundWithAccuracy (h : IsMantissa m) (he : -1074 ≤ e) (s : Sign) (k : Nat) :
    roundWithAccuracy Format.binary64 s (m * 2 ^ k) (e - k) .exact = .finite s m e h.pos := by
  have hagain := h.shiftToTargetExponent he 0
  simp only [Nat.pow_zero, Nat.mul_one, Int.ofNat_zero, Int.sub_zero] at hagain
  simp [Float.Model.UnpackedFloat.roundWithAccuracy, h.shiftToTargetExponent he,
    ExtendedMantissa.roundedMantissa, ExtendedMantissa.accuracy, Accuracy.roundToNearestEven,
    hagain, Nat.ne_of_gt h.pos]

/-- **A normal number is unpacked as it was packed.** -/
theorem IsMantissa.unpack_pack (h : IsMantissa m) (he : -1074 ≤ e) (he' : e ≤ 971) (s : Sign) :
    unpack Format.binary64 (pack Format.binary64 (.finite s m e h.pos)) = .finite s m e h.pos := by
  have hbias : (Format.binary64.exponentBias : Int) = 1023 := rfl
  have hwidth : (Format.binary64.mantissaBitsWithoutImplicit : Int) = 52 := rfl
  have hlog : m.log2 + 1 = Format.binary64.mantissaBits := by
    have := h.log2 0
    simpa [Format.mantissaBits, Nat.add_comm] using this
  obtain ⟨field, hfield⟩ : ∃ field : Nat, (field : Int) = e + 1075 :=
    ⟨(e + 1075).toNat, by omega⟩
  have hbiased : (e + Format.binary64.exponentBias +
      Format.binary64.mantissaBitsWithoutImplicit).toNat = field := by omega
  have hfinite : ¬2 ^ Format.binary64.exponentBits ≤ field + 1 := by
    change ¬2048 ≤ field + 1
    omega
  have hof : (BitVec.ofNat 11 field).toNat = field := Nat.mod_eq_of_lt (by omega)
  have hones : BitVec.ofNat 11 field ≠ -1#11 := by
    rw [Ne, BitVec.toNat_eq, hof]
    change field ≠ 2047
    omega
  have hzeros : BitVec.ofNat 11 field ≠ 0#11 := by
    rw [Ne, BitVec.toNat_eq, hof]
    change field ≠ 0
    omega
  have hmantissa : (1#1 ++ BitVec.ofNat 52 m).toNat = m := by
    have hlo := h.1
    have hhi := h.2
    rw [toNat_append_one, BitVec.toNat_ofNat, leadingBit_eq]
    omega
  have hsign : Sign.ofBitVec (unpackSign (packComponents Format.binary64 s (BitVec.ofNat 11 field)
      (BitVec.ofNat 52 m))) = s := by
    rw [unpackSign_packComponents, Sign.ofBitVec_toBitVec]
  have hexponent : (field : Int) -
      (Format.binary64.exponentBias + Format.binary64.mantissaBitsWithoutImplicit) = e := by omega
  simp only [pack, hbiased, if_neg hfinite, if_pos hlog, unpack, unpackExponent_packComponents,
    unpackMantissa_packComponents, hsign]
  rw [if_neg hones, if_neg hzeros]
  simp only [hmantissa, hof, hexponent]

/-- **A natural number below `2 ^ 53` is not rounded.** -/
theorem IsMantissa.round {n k : Nat} (h : IsMantissa (n * 2 ^ k)) (hk : k ≤ 52) (s : Sign) :
    round Format.binary64 s n 0 = .finite s (n * 2 ^ k) (-k) h.pos := by
  have hlog : n.log2 = 52 - k := by
    have hne : n ≠ 0 := by
      rintro rfl
      simpa using h.pos
    refine (Nat.log2_eq_iff hne).2 ⟨?_, ?_⟩
    · refine Nat.le_of_mul_le_mul_right ?_ (Nat.two_pow_pos k)
      rw [← Nat.pow_add, Nat.sub_add_cancel hk]
      exact h.1
    · refine Nat.lt_of_mul_lt_mul_right (a := 2 ^ k) ?_
      rw [← Nat.pow_add, Nat.add_right_comm, Nat.sub_add_cancel hk]
      exact h.2
  have htarget : Format.binary64.targetExponent (totalExponent n 0) = -k := by
    have hmin : Format.binary64.minExponent = -1074 := rfl
    have hbits : (Format.binary64.mantissaBits : Int) = 53 := rfl
    rw [Format.targetExponent, totalExponent, hlog, hmin, hbits]
    omega
  have hshift : (- -(k : Int)).toNat = k := by omega
  have hexact := h.roundWithAccuracy (e := -k) (by omega) s 0
  simp only [Nat.pow_zero, Nat.mul_one, Int.ofNat_zero, Int.sub_zero] at hexact
  simp only [Float.Model.UnpackedFloat.round, htarget, decreaseExponent,
    Nat.shiftLeft_eq, Int.zero_sub, hshift, hexact]

/-- The value of a packed number. -/
theorem IsMantissa.ofFloat_pack (h : IsMantissa m) (he : -1074 ≤ e) (he' : e ≤ 971) (s : Sign) :
    Binary.ofFloat (.ofModel (.pack (.finite s m e h.pos))) = .finite (isMinus s) m e := by
  rw [Binary.ofFloat_eq]
  change Binary.ofUnpacked (unpack _ (pack _ _)) = _
  rw [h.unpack_pack he he', Binary.ofUnpacked]

/-- The unit that a double is multiplied by when it is made from a natural number. -/
theorem unpack_one :
    (Float.ofBits 0x3FF0000000000000).toModel.unpack =
      .finite .positive (2 ^ 52) (-52) (by decide) :=
  rfl

theorem ofNat_eq_mul {n : Nat} (hn : n < 2 ^ 53) :
    Float.ofNat n = n.toUInt64.toFloat * Float.ofBits 0x3FF0000000000000 := by
  unfold Float.ofNat OfScientific.ofScientific instOfScientificFloat
  simp only [Float.ofScientific]
  rw [dif_pos ⟨hn, by omega⟩]
  rfl

/-- **The double made from a natural number below `2 ^ 53` is this number.** -/
theorem IsMantissa.ofNat {n k : Nat} (h : IsMantissa (n * 2 ^ k)) (hk : k ≤ 52)
    (hn : n < 2 ^ 53) :
    Float.ofNat n = .ofModel (.pack (.finite .positive (n * 2 ^ k) (-k) h.pos)) := by
  have hpos : 0 < n := Nat.pos_of_ne_zero (by rintro rfl; simpa using h.pos)
  have hword : n.toUInt64.toNat = n := by
    rw [Nat.toUInt64, UInt64.toNat_ofNat']
    exact Nat.mod_eq_of_lt (Nat.lt_trans hn (by decide))
  have hfloat : n.toUInt64.toFloat =
      .ofModel (.pack (.finite .positive (n * 2 ^ k) (-k) h.pos)) := by
    have hcompare : compare (n : Int) 0 = .gt := Int.compare_eq_gt.2 (by omega)
    simp only [UInt64.toFloat, Float.Model.ofUInt64, ofUInt64, Float.Model.UnpackedFloat.ofNat,
      ofInt, Float.Model.UnpackedFloat.normalize, hword, hcompare, Int.toNat_natCast, h.round hk]
  have hunpack : (Float.ofModel (.pack (.finite .positive (n * 2 ^ k) (-k) h.pos))).toModel.unpack =
      .finite .positive (n * 2 ^ k) (-k) h.pos := h.unpack_pack (by omega) (by omega) .positive
  have hmul : Float.Model.UnpackedFloat.mul Format.binary64
      (.finite .positive (n * 2 ^ k) (-k) h.pos) (.finite .positive (2 ^ 52) (-52) (by decide)) =
      .finite .positive (n * 2 ^ k) (-k) h.pos := h.roundWithAccuracy (by omega) .positive 52
  rw [ofNat_eq_mul hn, hfloat]
  change Float.ofModel (.pack (Float.Model.UnpackedFloat.mul _ (Float.Model.unpack _)
    (Float.Model.unpack _))) = _
  rw [hunpack, unpack_one, hmul]

theorem Binary.ofFloat_ofNat {n k : Nat} (h : IsMantissa (n * 2 ^ k)) (hk : k ≤ 52)
    (hn : n < 2 ^ 53) (s : Bool) :
    Binary.ofFloat (if s then -Float.ofNat n else Float.ofNat n) =
      .finite s (n * 2 ^ k) (-k) := by
  rw [h.ofNat hk hn]
  cases s with
  | false => exact h.ofFloat_pack (by omega) (by omega) .positive
  | true =>
    have hunpack : (Float.Model.pack (.finite .positive (n * 2 ^ k) (-k) h.pos)).unpack =
        .finite .positive (n * 2 ^ k) (-k) h.pos := h.unpack_pack (by omega) (by omega) .positive
    change Binary.ofFloat (.ofModel (.pack (Float.Model.unpack _).neg)) = _
    rw [hunpack]
    exact h.ofFloat_pack (by omega) (by omega) .negative

/-- The ranges of the mantissa and the exponent of a finite double. -/
theorem Binary.bounds_of_finite {x : Float} {s : Bool} (h : Binary.ofFloat x = .finite s m e) :
    m < 2 ^ 53 ∧ -1074 ≤ e ∧ (2 ^ 52 ≤ m ∨ e = -1074) := by
  unfold Binary.ofFloat at h
  simp only [leadingBit_eq] at h
  split at h
  · split at h <;> simp at h
  split at h <;>
    · simp only [Binary.finite.injEq] at h
      omega

theorem wholePart?_eq_zero (h : wholePart? m e = some 0) : m = 0 := by
  cases e with
  | ofNat j =>
    have hpow : 0 < 2 ^ j := Nat.two_pow_pos j
    have hmul : m * 2 ^ j = 0 := by simpa [wholePart?] using h
    rcases Nat.mul_eq_zero.1 hmul with hm | hj
    · exact hm
    · omega
  | negSucc j =>
    obtain ⟨hmod, hdiv⟩ : m % 2 ^ (j + 1) = 0 ∧ m / 2 ^ (j + 1) = 0 := by
      simpa [wholePart?] using h
    have hsum := Nat.div_add_mod m (2 ^ (j + 1))
    rw [hmod, hdiv] at hsum
    simpa using hsum.symm

/-- A whole number below `2 ^ 53` takes one form as a double. -/
theorem wholePart?_eq_some {n : Nat} (h : wholePart? m e = some n) (hn : n < 2 ^ 53) (hne : n ≠ 0)
    (hm : m < 2 ^ 53) (hcase : 2 ^ 52 ≤ m ∨ e = -1074) :
    ∃ k : Nat, k ≤ 52 ∧ m = n * 2 ^ k ∧ e = -k ∧ IsMantissa (n * 2 ^ k) := by
  cases e with
  | ofNat j =>
    -- the leading bit is in place, so there is no room for a factor of two
    have hlo : 2 ^ 52 ≤ m := hcase.resolve_right (by simp)
    obtain rfl : m * 2 ^ j = n := by simpa [wholePart?] using h
    obtain rfl : j = 0 := by
      rcases Nat.eq_zero_or_pos j with hj | hj
      · exact hj
      · have htwo : 2 ^ 1 ≤ 2 ^ j := Nat.pow_le_pow_right (by decide) hj
        have hmul := Nat.mul_le_mul hlo htwo
        omega
    exact ⟨0, by omega, by simp, rfl, by simpa using hlo, by simpa using hm⟩
  | negSucc j =>
    have hpow : 0 < 2 ^ (j + 1) := Nat.two_pow_pos _
    obtain ⟨hmod, hdiv⟩ : m % 2 ^ (j + 1) = 0 ∧ m / 2 ^ (j + 1) = n := by
      simpa [wholePart?] using h
    have hm' : m = n * 2 ^ (j + 1) := by
      rw [← hdiv, Nat.div_mul_cancel (Nat.dvd_of_mod_eq_zero hmod)]
    have hle : 2 ^ (j + 1) ≤ m := by
      rw [hm']
      exact Nat.le_mul_of_pos_left _ (Nat.pos_of_ne_zero hne)
    have hj : j + 1 < 53 := (Nat.pow_lt_pow_iff_right (by decide)).1 (Nat.lt_of_le_of_lt hle hm)
    have hlo : 2 ^ 52 ≤ m := hcase.resolve_right (by omega)
    exact ⟨j + 1, by omega, hm', by omega, hm' ▸ hlo, hm' ▸ hm⟩

/-- **A double that is an integer below `2 ^ 53` in magnitude is made from it**, unless it is the
negative zero. -/
theorem eq_ofNat_of_integer? {x : Float} {s : Bool} {n : Nat} (h : integer? x = some (s, n))
    (hn : n < 2 ^ 53) (hzero : ¬(s = true ∧ n = 0)) :
    x = if s then -Float.ofNat n else Float.ofNat n := by
  unfold integer? at h
  split at h
  · rename_i s' m e hx
    obtain ⟨n', hwhole, heq⟩ := Option.map_eq_some_iff.1 h
    obtain ⟨rfl, rfl⟩ := Prod.mk.inj heq
    obtain ⟨hm, -, hcase⟩ := Binary.bounds_of_finite hx
    by_cases hne : n' = 0
    · subst hne
      have hm0 : m = 0 := wholePart?_eq_zero hwhole
      have he : e = -1074 := hcase.resolve_left (by omega)
      have hs : s' = false := by simpa using hzero
      subst hm0 he hs
      have hnil : Binary.ofFloat (Float.ofNat 0) = .finite false 0 (-1074) := by decide +kernel
      exact Binary.ofFloat_injective (hx.trans hnil.symm)
    · obtain ⟨k, hk, rfl, rfl, hmantissa⟩ := wholePart?_eq_some hwhole hn hne hm hcase
      exact Binary.ofFloat_injective (hx.trans (Binary.ofFloat_ofNat hmantissa hk hn s').symm)
  · simp at h

end FormCalc.Number
