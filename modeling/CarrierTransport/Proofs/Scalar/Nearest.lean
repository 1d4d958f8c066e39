import Mathlib
import CarrierTransport.Proofs.Scalar.Rounding

/-!
# Rounding to nearest

A value is rounded to the nearest multiple of its unit in the last place, the even one of two, and
to the limit of the format if that lies beyond all its numbers (`nearest`). Rounding is monotone
(`nearest_mono`) and leaves the numbers of the format alone (`Canonical.magnitude_self`), so a value
between two numbers is rounded to one between them.
-/

namespace CarrierTransport.Rounding

open Float.Model (Format)
open Float.Model.UnpackedFloat (ExtendedMantissa)

/-! ### Whole numbers -/

/-- The nearest whole number, the even one of two. -/
def halfEven (x : ℚ) : ℤ :=
  if Int.fract x < 1 / 2 then ⌊x⌋ else if 1 / 2 < Int.fract x then ⌊x⌋ + 1 else ⌊x⌋ + ⌊x⌋ % 2

theorem halfEven_bounds (x : ℚ) : ⌊x⌋ ≤ halfEven x ∧ halfEven x ≤ ⌊x⌋ + 1 := by
  rw [halfEven]
  split_ifs <;> omega

theorem halfEven_intCast (n : ℤ) : halfEven n = n := by
  simp [halfEven]

theorem halfEven_mono : Monotone halfEven := by
  intro x y h
  rcases (Int.floor_mono h).lt_or_eq with hlt | heq
  · exact (halfEven_bounds x).2.trans (hlt.trans_le (halfEven_bounds y).1)
  · have hfract : Int.fract x ≤ Int.fract y := by
      rw [Int.fract, Int.fract, heq]
      exact sub_le_sub_right h _
    rw [halfEven, halfEven, heq]
    split_ifs
    all_goals first | omega | linarith

variable {em : ExtendedMantissa} {x y : ℚ}

theorem Represents.roundedMantissa_eq_halfEven (h : Represents em x) :
    (em.roundedMantissa : ℤ) = halfEven x := by
  have hfloor : ⌊x⌋ = em.mantissa := by
    obtain ⟨hlow, hhigh⟩ := h.bounds
    exact Int.floor_eq_iff.2 ⟨by exact_mod_cast hlow, by exact_mod_cast hhigh⟩
  have hfract : Int.fract x = x - em.mantissa := by
    rw [Int.fract, hfloor]
    rfl
  rw [halfEven, hfract, hfloor]
  obtain ⟨m, r, s⟩ := em
  cases r <;> cases s <;> simp only [Represents] at h
  · rw [if_pos (by linarith)]
    rfl
  · rw [if_pos (by linarith)]
    rfl
  · rw [if_neg (by linarith), if_neg (by linarith)]
    rfl
  · rw [if_neg (by linarith), if_pos (by linarith)]
    rfl

/-! ### Exponents -/

variable {format : Format}

/-- The constants of a format in terms of the number of its exponents on either side. -/
theorem constants_eq (format : Format) :
    format.mantissaBits = format.mantissaBitsWithoutImplicit + 1 ∧
      format.exponentBias = 2 ^ (format.exponentBits - 1) - 1 ∧
      2 ^ format.exponentBits = 2 * 2 ^ (format.exponentBits - 1) ∧
      format.minExponent = 3 - ((2 ^ (format.exponentBits - 1) : ℕ) : ℤ) - format.mantissaBits := by
  refine ⟨Nat.add_comm _ _, rfl, ?_, ?_⟩
  · rw [← pow_succ', Nat.sub_add_cancel format.he]
  · push_cast
    rfl

/-- The exponent of a value that is not negative. -/
def exponentOf (format : Format) (x : ℚ) : ℤ :=
  if x = 0 then format.minExponent
  else max (Int.log 2 x + 1 - format.mantissaBits) format.minExponent

theorem hasExponent_exponentOf (format : Format) (hx : 0 ≤ x) :
    HasExponent format x (exponentOf format x) := by
  rw [exponentOf]
  split_ifs with hzero
  · refine ⟨le_rfl, ?_, .inr rfl⟩
    rw [hzero]
    positivity
  · have hpos := hx.lt_of_ne' hzero
    constructor
    case least => exact le_max_right _ _
    case lt =>
      have hlog := Int.lt_zpow_succ_log_self one_lt_two x
      refine hlog.trans_le ?_
      rw [← zpow_natCast, ← zpow_add₀ (by norm_num)]
      push_cast
      exact zpow_le_zpow_right₀ one_le_two (by omega)
    case full =>
      refine (le_total format.minExponent _).imp (fun hle => ?_) max_eq_right
      have hlog := Int.zpow_log_le_self one_lt_two hpos
      have hbits := (constants_eq format).1
      refine le_trans ?_ hlog
      rw [max_eq_left hle, ← zpow_natCast, ← zpow_add₀ two_ne_zero]
      push_cast
      exact zpow_le_zpow_right₀ one_le_two (by omega)

variable {t t' : ℤ}

theorem HasExponent.mono (hx : HasExponent format x t) (hy : HasExponent format y t')
    (h : x ≤ y) : t ≤ t' := by
  by_contra hlt
  rw [not_le] at hlt
  have hfull := hx.full.resolve_right (ne_of_gt (hy.least.trans_lt hlt))
  have hless := (hfull.trans h).trans_lt hy.lt
  rw [two_pow_mantissaBits, mul_comm 2, mul_assoc, ← zpow_one_add₀ two_ne_zero] at hless
  have hexponent := (zpow_lt_zpow_iff_right₀ one_lt_two).1
    (lt_of_mul_lt_mul_left hless (by positivity))
  omega

theorem HasExponent.unique (h : HasExponent format x t) (h' : HasExponent format x t') : t = t' :=
  le_antisymm (h.mono h' le_rfl) (h'.mono h le_rfl)

/-- A mantissa rounded up may carry into one more bit. -/
theorem HasExponent.halfEven_le (h : HasExponent format x t) :
    halfEven (x / 2 ^ t) ≤ 2 ^ format.mantissaBits := by
  have hle : x / 2 ^ t ≤ ((2 ^ format.mantissaBits : ℤ) : ℚ) := by
    rw [div_le_iff₀ (by positivity)]
    exact_mod_cast h.lt.le
  exact (halfEven_mono hle).trans_eq (halfEven_intCast _)

theorem HasExponent.le_halfEven (h : HasExponent format x t) (ht : t ≠ format.minExponent) :
    2 ^ format.mantissaBitsWithoutImplicit ≤ halfEven (x / 2 ^ t) := by
  have hle : ((2 ^ format.mantissaBitsWithoutImplicit : ℤ) : ℚ) ≤ x / 2 ^ t := by
    rw [le_div_iff₀ (by positivity)]
    exact_mod_cast h.full.resolve_right ht
  exact (halfEven_intCast _).symm.trans_le (halfEven_mono hle)

/-! ### Rounding -/

/-- The first power of two beyond the numbers of a format. -/
def limit (format : Format) : ℚ :=
  2 ^ 2 ^ (format.exponentBits - 1)

theorem limit_pos (format : Format) : 0 < limit format := by
  rw [limit]
  positivity

/-- A value that is not negative, rounded to the nearest multiple of its unit in the last place. -/
def magnitude (format : Format) (x : ℚ) : ℚ :=
  min ((halfEven (x / 2 ^ exponentOf format x) : ℚ) * 2 ^ exponentOf format x) (limit format)

/-- **The nearest number of a format**, the even one of two. -/
def nearest (format : Format) (x : ℚ) : ℚ :=
  if x < 0 then -magnitude format (-x) else magnitude format x

theorem HasExponent.magnitude_eq (h : HasExponent format x t) (hx : 0 ≤ x) :
    magnitude format x = min ((halfEven (x / 2 ^ t) : ℚ) * 2 ^ t) (limit format) := by
  rw [magnitude, (hasExponent_exponentOf format hx).unique h]

theorem magnitude_mono (hx : 0 ≤ x) (h : x ≤ y) : magnitude format x ≤ magnitude format y := by
  have hxt := hasExponent_exponentOf format hx
  have hyt := hasExponent_exponentOf format (hx.trans h)
  refine min_le_min_right _ ?_
  generalize exponentOf format x = t at hxt ⊢
  generalize exponentOf format y = t' at hyt ⊢
  rcases (hxt.mono hyt h).lt_or_eq with hlt | rfl
  -- the larger exponent belongs to values from the shortest full mantissa on
  · have hlow : (halfEven (x / 2 ^ t) : ℚ) ≤ 2 ^ format.mantissaBits := by
      exact_mod_cast hxt.halfEven_le
    have hhigh : (2 : ℚ) ^ format.mantissaBitsWithoutImplicit ≤ halfEven (y / 2 ^ t') := by
      exact_mod_cast hyt.le_halfEven (ne_of_gt (hxt.least.trans_lt hlt))
    calc (halfEven (x / 2 ^ t) : ℚ) * 2 ^ t
        ≤ 2 ^ format.mantissaBits * 2 ^ t := by gcongr
      _ = 2 ^ format.mantissaBitsWithoutImplicit * 2 ^ (1 + t) := by
        rw [two_pow_mantissaBits, zpow_one_add₀ two_ne_zero]
        ring
      _ ≤ 2 ^ format.mantissaBitsWithoutImplicit * 2 ^ t' := by
        gcongr
        · exact one_le_two
        · omega
      _ ≤ halfEven (y / 2 ^ t') * 2 ^ t' := by gcongr
  · have hmono : halfEven (x / 2 ^ t) ≤ halfEven (y / 2 ^ t) := halfEven_mono (by gcongr)
    gcongr

theorem magnitude_zero (format : Format) : magnitude format 0 = 0 := by
  rw [magnitude, zero_div, show halfEven 0 = 0 from mod_cast halfEven_intCast 0, Int.cast_zero,
    zero_mul, min_eq_left (limit_pos format).le]

theorem magnitude_nonneg (hx : 0 ≤ x) : 0 ≤ magnitude format x :=
  (magnitude_zero format).symm.trans_le (magnitude_mono le_rfl hx)

theorem magnitude_le_limit (format : Format) (x : ℚ) : magnitude format x ≤ limit format :=
  min_le_right _ _

theorem nearest_of_nonneg (hx : 0 ≤ x) : nearest format x = magnitude format x := by
  rw [nearest, if_neg hx.not_gt]

theorem nearest_zero (format : Format) : nearest format 0 = 0 := by
  rw [nearest_of_nonneg le_rfl, magnitude_zero]

theorem nearest_neg (format : Format) (x : ℚ) : nearest format (-x) = -nearest format x := by
  rw [nearest, nearest, neg_neg]
  rcases lt_trichotomy x 0 with hneg | rfl | hpos
  · rw [if_neg (by linarith), if_pos hneg, neg_neg]
  · simp [magnitude_zero]
  · rw [if_pos (by linarith), if_neg hpos.not_gt]

/-- **Rounding is monotone.** -/
theorem nearest_mono (format : Format) : Monotone (nearest format) := by
  intro x y h
  rw [nearest, nearest]
  split_ifs with hx hy hy
  · exact neg_le_neg (magnitude_mono (by linarith) (neg_le_neg h))
  · have hx' : 0 ≤ magnitude format (-x) := magnitude_nonneg (neg_nonneg.2 hx.le)
    have hy' : 0 ≤ magnitude format y := magnitude_nonneg (not_lt.1 hy)
    linarith
  · exact absurd (h.trans_lt hy) hx
  · exact magnitude_mono (not_lt.1 hx) h

theorem abs_nearest_le (format : Format) (x : ℚ) : |nearest format x| ≤ limit format := by
  rw [nearest]
  split_ifs with hx
  · rw [abs_neg, abs_of_nonneg (magnitude_nonneg (by linarith))]
    exact magnitude_le_limit format _
  · rw [abs_of_nonneg (magnitude_nonneg (not_lt.1 hx))]
    exact magnitude_le_limit format _

variable {mantissa : ℕ} {exponent : ℤ}

theorem HasExponent.magnitude_self (h : HasExponent format (mantissa * 2 ^ exponent) exponent) :
    magnitude format (mantissa * 2 ^ exponent) =
      min ((mantissa : ℚ) * 2 ^ exponent) (limit format) := by
  have hcast : ((mantissa : ℤ) : ℚ) = mantissa := rfl
  rw [h.magnitude_eq (by positivity), mul_div_cancel_right₀ _ (by positivity), ← hcast,
    halfEven_intCast]

theorem Canonical.lt_limit (h : Canonical format mantissa exponent) :
    (mantissa : ℚ) * 2 ^ exponent < limit format := by
  calc (mantissa : ℚ) * 2 ^ exponent < 2 ^ format.mantissaBits * 2 ^ exponent := h.hasExponent.lt
    _ = 2 ^ (exponent + format.mantissaBits) := by
      rw [zpow_add₀ two_ne_zero, zpow_natCast, mul_comm]
    _ ≤ 2 ^ ((2 ^ (format.exponentBits - 1) : ℕ) : ℤ) :=
      zpow_le_zpow_right₀ one_le_two (by exact_mod_cast h.greatest)
    _ = limit format := zpow_natCast _ _

/-- **Numbers of the format are not changed.** -/
theorem Canonical.magnitude_self (h : Canonical format mantissa exponent) :
    magnitude format (mantissa * 2 ^ exponent) = mantissa * 2 ^ exponent := by
  rw [h.hasExponent.magnitude_self, min_eq_left h.lt_limit.le]

/-- What is not below the least positive number of the format is not rounded to zero. -/
theorem nearest_pos (hwide : 1 < format.exponentBits) (hx : 2 ^ format.minExponent ≤ x) :
    0 < nearest format x := by
  have hone : 1 < 2 ^ format.mantissaBits := Nat.one_lt_two_pow (by rw [Format.mantissaBits]; omega)
  have hrange : (2 : ℤ) ^ 1 ≤ 2 ^ (format.exponentBits - 1) :=
    pow_le_pow_right₀ (by norm_num) (by omega)
  have hleast : Canonical format 1 format.minExponent :=
    ⟨hone, le_rfl, by rw [Format.minExponent]; omega, .inr rfl⟩
  have hunit : (0 : ℚ) < 2 ^ format.minExponent := by positivity
  have hself := hleast.magnitude_self
  rw [Nat.cast_one, one_mul] at hself
  calc 0 < magnitude format (2 ^ format.minExponent) := hunit.trans_eq hself.symm
    _ ≤ magnitude format x := magnitude_mono hunit.le hx
    _ = nearest format x := (nearest_of_nonneg (hunit.le.trans hx)).symm

/-- Powers of two up to the limit are numbers of the format. -/
theorem nearest_two_pow (hwide : 1 < format.exponentBits) {k : ℕ}
    (hk : k < 2 ^ (format.exponentBits - 1)) : nearest format (2 ^ k) = 2 ^ k := by
  obtain ⟨hbits, -, hdouble, hmin⟩ := constants_eq format
  have hfour := Packed.four_le_two_pow_exponentBits hwide
  have hcanonical : Canonical format (2 ^ format.mantissaBitsWithoutImplicit)
      (k - format.mantissaBitsWithoutImplicit) := by
    refine ⟨Nat.pow_lt_pow_right (by norm_num) (by omega), by omega, ?_, .inl le_rfl⟩
    have hle : (k : ℤ) + 1 ≤ ((2 ^ (format.exponentBits - 1) : ℕ) : ℤ) := by exact_mod_cast hk
    push_cast at hle
    omega
  have hvalue : (2 : ℚ) ^ k = (2 ^ format.mantissaBitsWithoutImplicit : ℕ) *
      2 ^ ((k : ℤ) - format.mantissaBitsWithoutImplicit) := by
    push_cast
    rw [← zpow_natCast, ← zpow_natCast, ← zpow_add₀ two_ne_zero, add_sub_cancel]
  rw [hvalue, nearest_of_nonneg (by positivity), hcanonical.magnitude_self]

theorem nearest_one (hwide : 1 < format.exponentBits) : nearest format 1 = 1 := by
  simpa using nearest_two_pow (k := 0) hwide (by positivity)

theorem two_pow_lt_limit (height : 8 ≤ format.exponentBits) : 2 ^ 64 < limit format := by
  have hrange : 2 ^ 7 ≤ 2 ^ (format.exponentBits - 1) :=
    Nat.pow_le_pow_right (by norm_num) (by omega)
  exact pow_lt_pow_right₀ one_lt_two (by omega)

/-- What is rounded stays in the range of a counter of 64 bits. -/
theorem nearest_mem_range (height : 8 ≤ format.exponentBits) (hx : 0 ≤ x) (hle : x ≤ 2 ^ 64) :
    0 ≤ nearest format x ∧ nearest format x ≤ 2 ^ 64 := by
  have hrange : 2 ^ 7 ≤ 2 ^ (format.exponentBits - 1) :=
    Nat.pow_le_pow_right (by norm_num) (by omega)
  constructor
  · rw [nearest_of_nonneg hx]
    exact magnitude_nonneg hx
  · calc nearest format x ≤ nearest format (2 ^ 64) := nearest_mono format hle
      _ = 2 ^ 64 := nearest_two_pow (by omega) (by omega)

end CarrierTransport.Rounding
