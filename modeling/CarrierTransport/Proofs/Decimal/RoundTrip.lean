import CarrierTransport.Proofs.Text.Words
import CarrierTransport.Decimal.Reading

/-!
# Numbers survive their texts

The text of a significand and an exponent denotes the decimal that they are
(`unsigned_scientific`). Seventeen significant digits are nearer to a number than half of its last
place, so the number that is read is the one that was written (`read_fixed`).
-/

namespace CarrierTransport.Decimal

open Float.Model (Format UnpackedFloat)
open Float.Model.UnpackedFloat (Sign)

/-! ### The texts of integers -/

theorem ofDigits_digits (n : ℕ) : ofDigits (digits n) = n := by
  rw [ofDigits, ← Nat.ofDigitChars_eq_foldl]
  exact Nat.ofDigitChars_toDigits (by decide) (by decide)

/-- A digit is no sign. -/
theorem takeSign_of_isDigit {c : Char} (h : c.isDigit = true) (rest : List Char) :
    takeSign (c :: rest) = (false, c :: rest) := by
  have hminus : c ≠ '-' := by
    rintro rfl
    exact absurd h (by decide)
  have hplus : c ≠ '+' := by
    rintro rfl
    exact absurd h (by decide)
  unfold takeSign
  split
  · next heq => exact absurd (List.cons.inj heq).1 hminus
  · next heq => exact absurd (List.cons.inj heq).1 hplus
  · rfl

theorem takeSign_digits (n : ℕ) : takeSign (digits n) = (false, digits n) := by
  obtain ⟨c, rest, heq⟩ := List.exists_cons_of_ne_nil (digits_ne_nil n)
  rw [heq]
  exact takeSign_of_isDigit (isDigit_of_mem_digits (heq ▸ List.mem_cons_self)) rest

/-- The power of ten behind a mark. -/
theorem exponent_integer (k : ℤ) : exponent? ('e' :: integer k) = some k := by
  have hread : ∀ n, ¬ ((digits n).isEmpty = true ∨ ¬ (digits n).all Char.isDigit = true) := by
    intro n
    rw [not_or, not_not, List.isEmpty_iff]
    exact ⟨digits_ne_nil n, List.all_eq_true.2 fun c hc => isDigit_of_mem_digits hc⟩
  cases k with
  | ofNat n =>
    rw [integer, exponent?, if_pos (.inl rfl), takeSign_digits]
    dsimp only
    rw [if_neg (hread n), ofDigits_digits]
    rfl
  | negSucc n =>
    rw [integer, exponent?, if_pos (.inl rfl), takeSign]
    dsimp only
    rw [if_neg (hread (n + 1)), ofDigits_digits, if_pos rfl]
    rfl

/-! ### The texts of decimals -/

/-- A text of several digits: the first one, a point and the others before the mark. -/
theorem scientific_eq {significand n : ℕ} (hlow : 10 ^ (n + 1) ≤ significand)
    (hhigh : significand < 10 ^ (n + 2)) (k : ℤ) :
    ∃ d fraction, digits significand = d :: fraction ∧ fraction.length = n + 1 ∧
      scientific significand k = d :: '.' :: (fraction ++ 'e' :: integer k) := by
  have hlength := length_digits hlow hhigh
  match hdigits : digits significand with
  | [] | [_] => rw [hdigits] at hlength; simp at hlength
  | d :: c :: fraction =>
    rw [hdigits] at hlength
    refine ⟨d, c :: fraction, rfl, by simpa using hlength, ?_⟩
    rw [scientific, hdigits]
    rfl

/-- The grammar reads the digits around the point and the power of ten behind them. -/
theorem decimal_point {d : Char} {fraction : List Char} (hd : d.isDigit = true)
    (hfraction : ∀ c ∈ fraction, c.isDigit = true) (k : ℤ) :
    decimal? (d :: '.' :: (fraction ++ 'e' :: integer k)) =
      some (.decimal (ofDigits (d :: fraction)) (k - fraction.length)) := by
  have htake : (fraction ++ 'e' :: integer k).takeWhile Char.isDigit = fraction := by
    rw [List.takeWhile_append_of_pos hfraction, List.takeWhile_cons_of_neg (by decide),
      List.append_nil]
  have hdrop : (fraction ++ 'e' :: integer k).dropWhile Char.isDigit = 'e' :: integer k := by
    rw [List.dropWhile_append_of_pos hfraction, List.dropWhile_cons_of_neg (by decide)]
  rw [decimal?, List.takeWhile_cons_of_pos hd, List.dropWhile_cons_of_pos hd,
    List.takeWhile_cons_of_neg (by decide), List.dropWhile_cons_of_neg (by decide)]
  simp only [htake, hdrop, exponent_integer]
  rfl

/-- **A text in scientific notation denotes the decimal that it is the text of.** -/
theorem unsigned_scientific {significand n : ℕ} (hlow : 10 ^ (n + 1) ≤ significand)
    (hhigh : significand < 10 ^ (n + 2)) (k : ℤ) :
    unsigned? (scientific significand k) = some (.decimal significand (k - (n + 1 : ℕ))) := by
  obtain ⟨d, fraction, hdigits, hlength, htext⟩ := scientific_eq hlow hhigh k
  have hdigit : ∀ c ∈ d :: fraction, c.isDigit = true := by
    rw [← hdigits]
    exact fun c => isDigit_of_mem_digits
  have hpoint : '.' ∈ (scientific significand k).map Char.toLower := by
    rw [htext]
    simp [show '.'.toLower = '.' by decide]
  -- no word has a point
  have hword : ∀ word : List Char, '.' ∉ word →
      (scientific significand k).map Char.toLower ≠ word :=
    fun word hword heq => hword (heq ▸ hpoint)
  rw [unsigned?, if_neg (hword _ (by decide)),
    if_neg (not_or.2 ⟨hword _ (by decide), hword _ (by decide)⟩), htext,
    decimal_point (hdigit d List.mem_cons_self) fun c hc => hdigit c (List.mem_cons_of_mem d hc),
    ← hdigits, ofDigits_digits, hlength]

theorem takeSign_scientific {significand n : ℕ} (hlow : 10 ^ (n + 1) ≤ significand)
    (hhigh : significand < 10 ^ (n + 2)) (k : ℤ) :
    takeSign (scientific significand k) = (false, scientific significand k) := by
  obtain ⟨d, fraction, hdigits, -, htext⟩ := scientific_eq hlow hhigh k
  rw [htext]
  exact takeSign_of_isDigit (isDigit_of_mem_digits (hdigits ▸ List.mem_cons_self)) _

/-! ### The characters of a text -/

theorem mem_integer {k : ℤ} {c : Char} (h : c ∈ integer k) : c.isDigit = true ∨ c = '-' := by
  cases k with
  | ofNat n => exact .inl (isDigit_of_mem_digits h)
  | negSucc n => exact (List.mem_cons.1 h).symm.imp_left isDigit_of_mem_digits

theorem mem_scientific {significand : ℕ} {k : ℤ} {c : Char} (h : c ∈ scientific significand k) :
    c.isDigit = true ∨ c ∈ ['-', '.', 'e'] := by
  have hmark : c ∈ 'e' :: integer k → c.isDigit = true ∨ c ∈ ['-', '.', 'e'] := by
    intro hc
    obtain rfl | hc := List.mem_cons.1 hc
    · exact .inr (by simp)
    · exact (mem_integer hc).imp_right fun hminus => by simp [hminus]
  have hdigit : ∀ d ∈ digits significand, d.isDigit = true := fun d => isDigit_of_mem_digits
  rw [scientific] at h
  split at h
  · exact hmark h
  · next d hdigits =>
    rw [hdigits] at hdigit
    obtain rfl | h := List.mem_cons.1 h
    · exact .inl (hdigit c List.mem_cons_self)
    · exact hmark h
  · next d rest _ hdigits =>
    rw [hdigits] at hdigit
    obtain h | h := List.mem_append.1 h
    · obtain rfl | h := List.mem_cons.1 h
      · exact .inl (hdigit c List.mem_cons_self)
      · obtain rfl | h := List.mem_cons.1 h
        · exact .inr (by simp)
        · exact .inl (hdigit c (List.mem_cons_of_mem d h))
    · exact hmark h

theorem scientific_ne_nil (significand : ℕ) (k : ℤ) : scientific significand k ≠ [] := by
  rw [scientific]
  split <;> simp

theorem isWord_scientific (significand : ℕ) (k : ℤ) : Text.IsWord (scientific significand k) := by
  refine ⟨scientific_ne_nil significand k, fun c hc => ?_⟩
  obtain hdigit | hmark := mem_scientific hc
  · exact Text.isBlank_of_isDigit hdigit
  · exact (Text.isWord_of_isGraphic (List.cons_ne_nil _ _) (by decide)).2 c hmark

/-- A sign does not make a word two. -/
theorem isWord_signed {text : List Char} (h : Text.IsWord text) (sign : Sign) :
    Text.IsWord (signed sign text) := by
  cases sign with
  | positive => exact h
  | negative =>
    have hsign : Text.isBlank '-' = false := Text.isBlank_of_isGraphic (by decide)
    exact ⟨List.cons_ne_nil _ _, List.forall_mem_cons.2 ⟨hsign, h.2⟩⟩

/-- A number is one word. -/
theorem isWord_fixed (u : UnpackedFloat) : Text.IsWord (fixed 17 u) := by
  have hword : ∀ word : List Char, (word ≠ [] ∧ word.all Text.isGraphic = true) →
      Text.IsWord word := fun word h => Text.isWord_of_isGraphic h.1 h.2
  rw [fixed.eq_def, write.eq_def]
  cases u with
  | notANumber => exact hword _ (by decide)
  | infinity sign => exact isWord_signed (hword _ (by decide)) sign
  | zero sign => exact isWord_signed (hword _ (by decide)) sign
  | finite sign mantissa exponent hpos => exact isWord_signed (isWord_scientific _ _) sign

/-! ### The texts of numbers -/

section Numbers

variable {α : Type} [BinaryScalar α]

/-- Whether a sign is written. -/
def isNegative : Sign → Bool
  | .positive => false
  | .negative => true

/-- A text that has no sign of its own is read under the sign in front of it. -/
theorem read_signed {text : List Char} {u : Unsigned}
    (hsign : takeSign text = (false, text)) (hread : unsigned? text = some u) (sign : Sign) :
    read? (signed sign text) = some (u.signed (isNegative sign) : α) := by
  cases sign with
  | positive =>
    rw [signed, read?, hsign]
    dsimp only
    rw [hread]
    rfl
  | negative =>
    rw [signed, read?, takeSign]
    dsimp only
    rw [hread]
    rfl

end Numbers

variable {α : Type} [PackedScalar α]

/-- Half a unit of the last of seventeen digits is less than half a unit in the last place. -/
theorem near_roundedDigits {mantissa : ℕ} (hpos : 0 < mantissa) (exponent : ℤ) :
    Rounding.Near (BinaryScalar.format α)
      ((roundedDigits 17 (.ofPower mantissa 2 exponent)).1 *
        10 ^ ((roundedDigits 17 (.ofPower mantissa 2 exponent)).2 - (16 : ℕ)))
      (mantissa * 2 ^ exponent) := by
  have hnum := Quotient.num_ofPower_pos hpos two_ne_zero exponent
  have hden := Quotient.den_ofPower_pos mantissa two_ne_zero exponent
  have hvalue := Quotient.value_pos hnum hden
  have hbits : (2 ^ (BinaryScalar.format α).mantissaBits : ℚ) < 10 ^ 16 := by
    exact_mod_cast PackedScalar.two_pow_mantissaBits_lt (α := α)
  obtain ⟨-, -, herror⟩ := roundedDigits_spec (n := 16) hnum hden
  rw [Quotient.value_ofPower] at hvalue herror
  rw [Rounding.Near, pow_succ, mul_comm _ (2 : ℚ)]
  rw [Nat.cast_two] at hvalue herror
  generalize (mantissa : ℚ) * 2 ^ exponent = y at hvalue herror ⊢
  generalize (roundedDigits 17 (Quotient.ofPower mantissa 2 exponent)).1 *
    (10 : ℚ) ^ ((roundedDigits 17 (Quotient.ofPower mantissa 2 exponent)).2 - (16 : ℕ)) = q
    at herror ⊢
  obtain hzero | herr := (abs_nonneg (q - y)).eq_or_lt
  · rwa [← hzero, zero_mul]
  · exact (mul_lt_mul_of_pos_left (by linarith) herr).trans_le herror

/-- **A number is read from its seventeen digits.** Of all finite numbers, those with a denormal
mantissa and the negative zero included. -/
theorem read_fixed {x : α} (hx : BinaryScalar.IsFinite x) :
    read? (fixed 17 (BinaryScalar.unpack x)) = some x := by
  conv_rhs => rw [← PackedScalar.pack_unpack x]
  rw [BinaryScalar.IsFinite] at hx
  cases hunpack : BinaryScalar.unpack x with
  | notANumber => rw [hunpack] at hx; cases hx
  | infinity sign => rw [hunpack] at hx; cases hx
  | zero sign =>
    rw [fixed.eq_def, write, read_signed (u := .decimal 0 (-16)) (by decide) (by decide)]
    cases sign <;> rfl
  | finite sign mantissa exponent hpos =>
    have hnum := Quotient.num_ofPower_pos hpos two_ne_zero exponent
    have hden := Quotient.den_ofPower_pos mantissa two_ne_zero exponent
    obtain ⟨hlow, hhigh, -⟩ := roundedDigits_spec (n := 16) hnum hden
    rw [fixed.eq_def, write]
    dsimp only
    rw [read_signed (takeSign_scientific hlow hhigh _) (unsigned_scientific hlow hhigh _),
      Unsigned.signed, Unsigned.value, Rounding.ofScientific_eq PackedScalar.mantissaBits_le hpos
        (PackedScalar.canonical hunpack) (near_roundedDigits hpos exponent)]
    cases sign <;> rfl

end CarrierTransport.Decimal
