import Mathlib
import CarrierTransport.Proofs.Scalar.Nearest

/-!
# What is stored of a value

A value has its place on the line, an infinity that of the limit of the format (`place`). A value of
the format is stored as it is (`Canonical.stored_finite`), and of every other value the nearest
number is stored, whichever mantissa and exponent it comes as (`place_stored_roundWithAccuracy`).
-/

namespace CarrierTransport.Rounding

open Float.Model (Format UnpackedFloat totalExponent)
open Float.Model.UnpackedFloat (Sign Accuracy roundWithAccuracy pack unpack decreaseExponent)

variable {format : Format} {x : ℚ} {t : ℤ} {mantissa : ℕ} {exponent : ℤ}

/-! ### Places -/

/-- A magnitude with a sign. -/
def signed : Sign → ℚ → ℚ
  | .negative, x => -x
  | .positive, x => x

/-- The place of a value on the line, if it is a number. An infinity takes the place of the limit,
beyond all finite values of the format. -/
def place (format : Format) : UnpackedFloat → Option ℚ
  | .notANumber => none
  | .infinity s => some (signed s (limit format))
  | .zero _ => some 0
  | .finite s m e _ => some (signed s (m * 2 ^ e))

/-- What is left of a value when it has been stored. -/
def stored (format : Format) (u : UnpackedFloat) : UnpackedFloat :=
  unpack format (pack format u)

/-- A value with a mantissa and an exponent of the format, or a special one. -/
def IsCanonical (format : Format) : UnpackedFloat → Prop
  | .finite _ m e _ => Canonical format m e
  | _ => True

theorem signed_neg (s : Sign) (x : ℚ) : signed (-s) x = -signed s x := by
  cases s
  · exact (neg_neg x).symm
  · rfl

theorem abs_signed (s : Sign) (hx : 0 ≤ x) : |signed s x| = x := by
  cases s
  · exact (abs_neg x).trans (abs_of_nonneg hx)
  · exact abs_of_nonneg hx

theorem signed_mul (s s' : Sign) (x y : ℚ) :
    signed (s * s') (x * y) = signed s x * signed s' y := by
  cases s <;> cases s'
  · exact (neg_mul_neg x y).symm
  · exact (neg_mul x y).symm
  · exact (mul_neg x y).symm
  · rfl

theorem signed_div (s s' : Sign) (x y : ℚ) :
    signed (s / s') (x / y) = signed s x / signed s' y := by
  cases s <;> cases s'
  · exact (neg_div_neg_eq x y).symm
  · exact (neg_div y x).symm
  · exact (div_neg x).symm
  · rfl

theorem nearest_signed (s : Sign) (hx : 0 ≤ x) :
    nearest format (signed s x) = signed s (magnitude format x) := by
  cases s
  · rw [signed, signed, nearest_neg, nearest_of_nonneg hx]
  · exact nearest_of_nonneg hx

theorem isFinite_of_place (hx : place format u = some x) (h : |x| < limit format) :
    u.isFinite = true := by
  cases u with
  | notANumber => cases hx
  | zero s => rfl
  | finite s m e hpos => rfl
  | infinity s =>
    cases hx
    exact absurd (abs_signed s (limit_pos format).le) h.ne

theorem isFinite_of_mem_range (height : 8 ≤ format.exponentBits) (hx : place format u = some x)
    (hnonneg : 0 ≤ x) (hle : x ≤ 2 ^ 64) : u.isFinite = true := by
  refine isFinite_of_place hx ?_
  rw [abs_of_nonneg hnonneg]
  exact hle.trans_lt (two_pow_lt_limit height)

section Storage

variable (hwide : 1 < format.exponentBits) (s : Sign)

include hwide

/-- The value of some fields is stored as it is. -/
theorem stored_value {E : BitVec format.exponentBits}
    {M : BitVec format.mantissaBitsWithoutImplicit} {u : UnpackedFloat}
    (h : Packed.value format s E M = u) : stored format u = u := by
  rw [← h]
  exact Packed.unpack_pack_value hwide s E M

theorem stored_infinity : stored format (.infinity s) = .infinity s := by
  refine stored_value hwide s (E := -1#_) (M := 0#_) ?_
  rw [Packed.value_eq, if_pos rfl, if_pos rfl]

theorem zero_ne_neg_one : (0#_ : BitVec format.exponentBits) ≠ -1#_ := by
  intro h
  have hfour := Packed.four_le_two_pow_exponentBits hwide
  have hnat := congrArg BitVec.toNat h
  rw [BitVec.neg_one_eq_allOnes, BitVec.toNat_allOnes, BitVec.toNat_ofNat, Nat.zero_mod] at hnat
  omega

theorem stored_zero : stored format (.zero s) = .zero s := by
  refine stored_value hwide s (E := 0#_) (M := 0#_) ?_
  rw [Packed.value_eq, if_neg (zero_ne_neg_one hwide), if_pos rfl, dif_pos rfl]

theorem stored_notANumber : stored format .notANumber = .notANumber := by
  have hone : (1#_ : BitVec format.mantissaBitsWithoutImplicit) ≠ 0#_ := by
    intro h
    have hnat := congrArg BitVec.toNat h
    rw [BitVec.toNat_ofNat, BitVec.toNat_ofNat, Nat.zero_mod, Nat.one_mod_two_pow format.hm] at hnat
    omega
  refine stored_value hwide .positive (E := -1#_) (M := 1#_) ?_
  rw [Packed.value_eq, if_pos rfl, if_neg hone]

theorem stored_subnormal (hpos : 0 < mantissa)
    (hlt : mantissa < 2 ^ format.mantissaBitsWithoutImplicit) :
    stored format (.finite s mantissa format.minExponent hpos) =
      .finite s mantissa format.minExponent hpos := by
  obtain ⟨hbits, hbias, hdouble, hmin⟩ := constants_eq format
  have hfour := Packed.four_le_two_pow_exponentBits hwide
  have hM : (BitVec.ofNat format.mantissaBitsWithoutImplicit mantissa).toNat = mantissa := by
    rw [BitVec.toNat_ofNat, Nat.mod_eq_of_lt hlt]
  have hne : BitVec.ofNat format.mantissaBitsWithoutImplicit mantissa ≠ 0#_ := by
    intro hzero
    rw [hzero, BitVec.toNat_ofNat, Nat.zero_mod] at hM
    omega
  refine stored_value hwide s (E := 0#_) (M := BitVec.ofNat _ mantissa) ?_
  rw [Packed.value_eq, if_neg (zero_ne_neg_one hwide), if_pos rfl, dif_neg hne]
  simp only [UnpackedFloat.finite.injEq, true_and, BitVec.toNat_zero, hM]
  omega

theorem stored_normal (hpos : 0 < mantissa)
    (hlt : mantissa < 2 ^ format.mantissaBits)
    (hfull : 2 ^ format.mantissaBitsWithoutImplicit ≤ mantissa)
    (hleast : format.minExponent ≤ exponent)
    (hgreatest : exponent + format.mantissaBits ≤ ((2 ^ (format.exponentBits - 1) : ℕ) : ℤ)) :
    stored format (.finite s mantissa exponent hpos) = .finite s mantissa exponent hpos := by
  obtain ⟨hbits, hbias, hdouble, hmin⟩ := constants_eq format
  have hfour := Packed.four_le_two_pow_exponentBits hwide
  obtain ⟨biased, hbiased⟩ : ∃ biased : ℕ, (biased : ℤ) =
      exponent + (format.exponentBias + format.mantissaBitsWithoutImplicit) :=
    ⟨(exponent + (format.exponentBias + format.mantissaBitsWithoutImplicit)).toNat,
      Int.toNat_of_nonneg (by omega)⟩
  obtain ⟨rest, rfl⟩ := Nat.exists_eq_add_of_le hfull
  have hE : (BitVec.ofNat format.exponentBits biased).toNat = biased := by
    rw [BitVec.toNat_ofNat, Nat.mod_eq_of_lt (by omega)]
  have hM : (BitVec.ofNat format.mantissaBitsWithoutImplicit rest).toNat = rest := by
    rw [hbits, pow_succ] at hlt
    rw [BitVec.toNat_ofNat, Nat.mod_eq_of_lt (by omega)]
  have hne : BitVec.ofNat format.exponentBits biased ≠ -1#_ := by
    intro h
    rw [h, BitVec.neg_one_eq_allOnes, BitVec.toNat_allOnes] at hE
    omega
  have hne' : BitVec.ofNat format.exponentBits biased ≠ 0#_ := by
    intro h
    rw [h, BitVec.toNat_ofNat, Nat.zero_mod] at hE
    omega
  refine stored_value hwide s (E := BitVec.ofNat _ biased) (M := BitVec.ofNat _ rest) ?_
  rw [Packed.value_eq, if_neg hne, if_neg hne']
  simp only [UnpackedFloat.finite.injEq, true_and, Packed.toNat_append, hE, hM]
  omega

/-- A number of the format is stored as it is. -/
theorem Canonical.stored_finite (h : Canonical format mantissa exponent) (hpos : 0 < mantissa) :
    stored format (.finite s mantissa exponent hpos) = .finite s mantissa exponent hpos := by
  by_cases hfull : 2 ^ format.mantissaBitsWithoutImplicit ≤ mantissa
  · exact stored_normal hwide s hpos h.lt hfull h.least (by exact_mod_cast h.greatest)
  · obtain rfl := h.full.resolve_left hfull
    exact stored_subnormal hwide s hpos (not_le.1 hfull)

/-- What lies beyond the numbers of the format becomes an infinity. -/
theorem HasExponent.place_stored (h : HasExponent format (mantissa * 2 ^ exponent) exponent)
    (hpos : 0 < mantissa) :
    place format (stored format (.finite s mantissa exponent hpos)) =
      some (signed s (magnitude format (mantissa * 2 ^ exponent))) := by
  have hunit : (0 : ℚ) < 2 ^ exponent := by positivity
  have hlt : mantissa < 2 ^ format.mantissaBits := by
    exact_mod_cast lt_of_mul_lt_mul_right h.lt hunit.le
  have hfull : 2 ^ format.mantissaBitsWithoutImplicit ≤ mantissa ∨ exponent = format.minExponent :=
    h.full.imp_left fun hle => by exact_mod_cast le_of_mul_le_mul_right hle hunit
  by_cases hgreatest : exponent + format.mantissaBits ≤ 2 ^ (format.exponentBits - 1)
  · have hcanonical : Canonical format mantissa exponent := ⟨hlt, h.least, hgreatest, hfull⟩
    rw [hcanonical.stored_finite hwide s hpos, place, hcanonical.magnitude_self]
  · obtain ⟨hbits, hbias, hdouble, hmin⟩ := constants_eq format
    have hfour := Packed.four_le_two_pow_exponentBits hwide
    have hgreater : ((2 ^ (format.exponentBits - 1) : ℕ) : ℤ) < exponent + format.mantissaBits := by
      exact_mod_cast not_le.1 hgreatest
    have hstored : stored format (.finite s mantissa exponent hpos) = .infinity s := by
      rw [← stored_infinity hwide s, stored, stored, pack, pack, if_pos (by omega)]
    have hlimit : limit format ≤ mantissa * 2 ^ exponent := by
      have hmantissa : (2 : ℚ) ^ format.mantissaBitsWithoutImplicit ≤ mantissa := by
        exact_mod_cast hfull.resolve_right (by omega)
      calc limit format = 2 ^ ((2 ^ (format.exponentBits - 1) : ℕ) : ℤ) := (zpow_natCast _ _).symm
        _ ≤ 2 ^ (format.mantissaBitsWithoutImplicit + exponent) :=
          zpow_le_zpow_right₀ one_le_two (by omega)
        _ = 2 ^ format.mantissaBitsWithoutImplicit * 2 ^ exponent := by
          rw [zpow_add₀ two_ne_zero, zpow_natCast]
        _ ≤ mantissa * 2 ^ exponent := by gcongr
    rw [hstored, place, h.magnitude_self, min_eq_right hlimit]

end Storage

/-! ### What is stored of a value -/

/-- A rounded mantissa is brought back to the length of the format without loss. -/
theorem HasExponent.exists_carry (h : HasExponent format x t) (hx : 0 ≤ x) :
    ∃ (n : ℕ) (t' : ℤ), t ≤ t' ∧ HasExponent format (n * 2 ^ t') t' ∧
      (n : ℚ) * 2 ^ t' = halfEven (x / 2 ^ t) * 2 ^ t := by
  have hunit : (0 : ℚ) < 2 ^ t := by positivity
  have hnonneg : 0 ≤ halfEven (x / 2 ^ t) := by
    rw [← halfEven_intCast 0]
    exact halfEven_mono (by rw [Int.cast_zero]; positivity)
  have hle := h.halfEven_le
  have hfull := h.le_halfEven
  obtain ⟨n, hn⟩ := Int.eq_ofNat_of_zero_le hnonneg
  rw [hn] at hle hfull ⊢
  rcases hle.lt_or_eq with hlt | heq
  · refine ⟨n, t, le_rfl, ⟨h.least, ?_, ?_⟩, rfl⟩
    · exact mul_lt_mul_of_pos_right (by exact_mod_cast hlt) hunit
    · by_cases ht : t = format.minExponent
      · exact .inr ht
      · exact .inl (mul_le_mul_of_nonneg_right (by exact_mod_cast hfull ht) hunit.le)
  · have hone : (2 : ℚ) ^ (t + 1) = 2 * 2 ^ t := by rw [zpow_add_one₀ two_ne_zero, mul_comm]
    have hone' : (1 : ℚ) ≤ 2 ^ format.mantissaBitsWithoutImplicit := one_le_pow₀ one_le_two
    refine ⟨2 ^ format.mantissaBitsWithoutImplicit, t + 1, by omega, ⟨?_, ?_, .inl ?_⟩, ?_⟩
    · exact h.least.trans (by omega)
    · push_cast
      rw [two_pow_mantissaBits]
      gcongr
      linarith
    · push_cast
      rfl
    · rw [heq, hone]
      push_cast
      rw [two_pow_mantissaBits]
      ring

variable {m : ℕ} {e : ℤ}

/-- **What is stored of a value is the nearest number of the format**, whichever mantissa and
exponent the value comes as, if nothing of it is lost before. -/
theorem place_stored_roundWithAccuracy (hwide : 1 < format.exponentBits) {accuracy : Accuracy}
    (s : Sign) (hx : 0 ≤ x)
    (hrep : Represents (.ofMantissaAndAccuracy m accuracy) (x / 2 ^ e))
    (hprecise : ∀ t, HasExponent format x t → e ≤ t) :
    place format (stored format (roundWithAccuracy format s m e accuracy)) =
      some (nearest format (signed s x)) := by
  have ht := hasExponent_exponentOf format hx
  generalize exponentOf format x = t at ht
  obtain ⟨em, hem, hrepresents⟩ := hrep.shiftToTargetExponent ht (hprecise t ht)
  obtain ⟨n, t', hle, ht', hn⟩ := ht.exists_carry hx
  rw [← hrepresents.roundedMantissa_eq_halfEven, Int.cast_natCast] at hn
  -- the second shift of the rounding finds the carried mantissa
  have hexact : Represents (.ofMantissaAndAccuracy em.roundedMantissa .exact)
      (n * 2 ^ t' / 2 ^ t) := by
    rw [hn, mul_div_cancel_right₀ _ (by positivity)]
    exact represents_exact _
  obtain ⟨em', hem', hrepresents'⟩ := hexact.shiftToTargetExponent ht' hle
  rw [mul_div_cancel_right₀ _ (by positivity)] at hrepresents'
  have hmagnitude : magnitude format x = magnitude format (n * 2 ^ t') := by
    rw [ht'.magnitude_self, ht.magnitude_eq hx, hn, ← hrepresents.roundedMantissa_eq_halfEven,
      Int.cast_natCast]
  rw [nearest_signed s hx, hmagnitude, roundWithAccuracy, hem]
  dsimp only
  rw [hem']
  dsimp only
  rw [hrepresents'.mantissa_eq]
  by_cases hzero : n = 0
  · rw [dif_pos hzero, stored_zero hwide, place, hzero, Nat.cast_zero, zero_mul, magnitude_zero]
    cases s <;> simp [signed]
  · rw [dif_neg hzero, ht'.place_stored hwide s]

/-- The exponent of an exact value, read off its mantissa. -/
theorem hasExponent_targetExponent (format : Format) (hm : 0 < m) (e : ℤ) :
    HasExponent format (m * 2 ^ e) (format.targetExponent (totalExponent m e)) := by
  have hlow : (2 : ℚ) ^ (m.log2 : ℤ) ≤ m := by exact_mod_cast Nat.log2_self_le hm.ne'
  have hhigh : (m : ℚ) < 2 ^ ((m.log2 + 1 : ℕ) : ℤ) := by exact_mod_cast Nat.lt_log2_self
  have hbits := (constants_eq format).1
  rw [Format.targetExponent, totalExponent]
  constructor
  case least => exact le_max_right _ _
  case lt =>
    calc (m : ℚ) * 2 ^ e < 2 ^ ((m.log2 + 1 : ℕ) : ℤ) * 2 ^ e := by gcongr
      _ = 2 ^ (((m.log2 + 1 : ℕ) : ℤ) + e) := (zpow_add₀ two_ne_zero _ _).symm
      _ ≤ 2 ^ ((format.mantissaBits : ℤ) +
          max (m.log2 + 1 + e - format.mantissaBits) format.minExponent) :=
        zpow_le_zpow_right₀ one_le_two (by omega)
      _ = _ := by rw [zpow_add₀ two_ne_zero, zpow_natCast]
  case full =>
    refine (le_total format.minExponent _).imp (fun hle => ?_) max_eq_right
    rw [max_eq_left hle]
    calc (2 : ℚ) ^ format.mantissaBitsWithoutImplicit *
          2 ^ ((m.log2 : ℤ) + 1 + e - format.mantissaBits)
        = 2 ^ ((m.log2 : ℤ) + e) := by
          rw [← zpow_natCast, ← zpow_add₀ two_ne_zero]
          congr 1
          omega
      _ = 2 ^ (m.log2 : ℤ) * 2 ^ e := zpow_add₀ two_ne_zero _ _
      _ ≤ m * 2 ^ e := by gcongr

theorem place_stored_round (hwide : 1 < format.exponentBits) (s : Sign) (hm : 0 < m) (e : ℤ) :
    place format (stored format (UnpackedFloat.round format s m e)) =
      some (nearest format (signed s (m * 2 ^ e))) := by
  have htarget := hasExponent_targetExponent format hm e
  rw [UnpackedFloat.round, decreaseExponent]
  generalize format.targetExponent (totalExponent m e) = target at htarget
  dsimp only
  refine place_stored_roundWithAccuracy hwide s (by positivity) ?_ fun t ht => ?_
  · have hvalue : (m : ℚ) * 2 ^ e / 2 ^ (e - ((e - target).toNat : ℤ)) =
        (m <<< (e - target).toNat : ℕ) := by
      rw [mul_div_assoc, ← zpow_sub₀ two_ne_zero, sub_sub_cancel, zpow_natCast, Nat.shiftLeft_eq]
      push_cast
      rfl
    rw [hvalue]
    exact represents_exact _
  · rw [ht.unique htarget]
    omega

theorem place_stored_normalize (hwide : 1 < format.exponentBits) (z e : ℤ) (zero : Sign) :
    place format (stored format (UnpackedFloat.normalize format z e zero)) =
      some (nearest format (z * 2 ^ e)) := by
  rw [UnpackedFloat.normalize]
  rcases lt_trichotomy z 0 with hneg | rfl | hpos
  · obtain ⟨n, rfl⟩ : ∃ n : ℕ, z = -n := ⟨(-z).toNat, by omega⟩
    rw [compare_lt_iff_lt.2 hneg]
    dsimp only
    rw [place_stored_round hwide _ (by omega), neg_neg, Int.toNat_natCast, signed, Int.cast_neg,
      Int.cast_natCast, neg_mul]
  · rw [compare_eq_iff_eq.2 rfl]
    dsimp only
    rw [stored_zero hwide, place, Int.cast_zero, zero_mul, nearest_of_nonneg le_rfl,
      magnitude_zero]
  · obtain ⟨n, rfl⟩ := Int.eq_ofNat_of_zero_le hpos.le
    rw [compare_gt_iff_gt.2 hpos]
    dsimp only
    rw [place_stored_round hwide _ (by omega), Int.toNat_natCast, signed, Int.cast_natCast]

/-- A number converted to another format is rounded to nearest. -/
theorem place_stored_roundTo (hwide : 1 < format.exponentBits) {wider : Format}
    (hu : u.isFinite = true) (hx : place wider u = some x) :
    place format (stored format (Scalar.roundTo format u)) = some (nearest format x) := by
  cases u with
  | infinity s => cases hu
  | notANumber => cases hu
  | zero s =>
    cases hx
    rw [Scalar.roundTo, stored_zero hwide, place, nearest_zero]
    rintro s m e hpos ⟨⟩
  | finite s m e hpos =>
    cases hx
    exact place_stored_round hwide s hpos e

theorem place_stored_ofNat (hwide : 1 < format.exponentBits) (n : ℕ) :
    place format (stored format (UnpackedFloat.ofNat format n)) = some (nearest format n) := by
  refine (place_stored_normalize hwide n 0 .positive).trans ?_
  rw [zpow_zero, mul_one, Int.cast_natCast]

end CarrierTransport.Rounding
