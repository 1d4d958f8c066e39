import CarrierTransport.Proofs.Decimal.Digits
import CarrierTransport.Text.Blank
import CarrierTransport.Text.Natural

/-!
# Words between blanks

Words that are written with a blank between any two are the words that are read (`words_unwords`),
and a text that starts and ends with words has nothing to trim (`trim_unwords`). An index in decimal
digits is such a word and reads as itself (`index_digits`).
-/

namespace CarrierTransport.Text

/-! ### Writing words -/

/-- Some characters, none of them blank. -/
def IsWord (word : List Char) : Prop :=
  word ≠ [] ∧ ∀ c ∈ word, isBlank c = false

/-- The characters of ASCII that show. -/
def isGraphic (c : Char) : Bool :=
  33 ≤ c.toNat && c.toNat ≤ 126

theorem isBlank_of_isGraphic {c : Char} (h : isGraphic c = true) : isBlank c = false := by
  rw [isGraphic, Bool.and_eq_true, decide_eq_true_iff, decide_eq_true_iff] at h
  simp only [isBlank, blankRanges, List.any_cons, List.any_nil, Bool.or_false, Bool.or_eq_false_iff,
    Bool.and_eq_false_iff, decide_eq_false_iff_not]
  omega

theorem isWord_of_isGraphic {word : List Char} (h : word ≠ []) (hall : word.all isGraphic = true) :
    IsWord word :=
  ⟨h, fun c hc => isBlank_of_isGraphic (List.all_eq_true.1 hall c hc)⟩

/-- Some words with a blank between any two. -/
def unwords (ws : List (List Char)) : List Char :=
  [' '].intercalate ws

@[simp] theorem unwords_singleton (w : List Char) : unwords [w] = w :=
  List.intercalate_singleton

theorem unwords_cons_cons (w w' : List Char) (ws : List (List Char)) :
    unwords (w :: w' :: ws) = w ++ ' ' :: unwords (w' :: ws) := by
  rw [unwords, List.intercalate_cons_cons, List.append_assoc]
  rfl

/-- Every character belongs to a word or separates two. -/
theorem eq_or_mem_of_mem_unwords {ws : List (List Char)} {c : Char} (h : c ∈ unwords ws) :
    c = ' ' ∨ ∃ w ∈ ws, c ∈ w := by
  induction ws with
  | nil => cases h
  | cons w ws ih =>
    cases ws with
    | nil => exact .inr ⟨w, List.mem_cons_self, by rwa [unwords_singleton] at h⟩
    | cons w' ws =>
      rw [unwords_cons_cons, List.mem_append, List.mem_cons] at h
      obtain h | h | h := h
      · exact .inr ⟨w, List.mem_cons_self, h⟩
      · exact .inl h
      · exact (ih h).imp_right fun ⟨v, hv, hc⟩ => ⟨v, List.mem_cons_of_mem w hv, hc⟩

/-! ### Reading words -/

/-- The characters of a word belong to the word being read. -/
theorem wordsFrom_append {word : List Char} (h : ∀ c ∈ word, isBlank c = false)
    (current rest : List Char) :
    wordsFrom current (word ++ rest) = wordsFrom (word.reverse ++ current) rest := by
  induction word generalizing current with
  | nil => rfl
  | cons c word ih =>
    rw [List.cons_append, wordsFrom, if_neg (by simp [h c List.mem_cons_self]),
      ih fun d hd => h d (List.mem_cons_of_mem c hd), List.reverse_cons, List.append_assoc]
    rfl

theorem words_word {word : List Char} (h : IsWord word) : words word = [word] := by
  have hword := wordsFrom_append h.2 [] []
  rw [List.append_nil, List.append_nil] at hword
  rw [words, hword, wordsFrom, if_neg (by simpa using h.1), List.reverse_reverse]

theorem words_append {word : List Char} (h : IsWord word) (rest : List Char) :
    words (word ++ ' ' :: rest) = word :: words rest := by
  rw [words, wordsFrom_append h.2, List.append_nil, wordsFrom, if_pos (by decide),
    if_neg (by simpa using h.1), List.reverse_reverse, words]

/-- **The words that are written are read.** -/
theorem words_unwords {ws : List (List Char)} (h : ∀ w ∈ ws, IsWord w) :
    words (unwords ws) = ws := by
  induction ws with
  | nil => rfl
  | cons w ws ih =>
    have hw := h w List.mem_cons_self
    cases ws with
    | nil => rw [unwords_singleton, words_word hw]
    | cons w' ws =>
      rw [unwords_cons_cons, words_append hw, ih fun v hv => h v (List.mem_cons_of_mem w hv)]

/-! ### Trimming -/

theorem head_unwords {w : List Char} (hw : w ≠ []) (ws : List (List Char)) :
    (unwords (w :: ws)).head? = w.head? := by
  obtain ⟨c, rest, rfl⟩ := List.exists_cons_of_ne_nil hw
  cases ws with
  | nil => rw [unwords_singleton]
  | cons w' ws => rw [unwords_cons_cons]; rfl

theorem unwords_ne_nil {w : List Char} (hw : w ≠ []) (ws : List (List Char)) :
    unwords (w :: ws) ≠ [] := by
  intro h
  have hhead := head_unwords hw ws
  rw [h] at hhead
  exact hw (List.head?_eq_none_iff.1 hhead.symm)

/-- No blank stands at the end. -/
theorem isBlank_getLast_unwords {ws : List (List Char)} (h : ∀ w ∈ ws, IsWord w) :
    ∀ c ∈ (unwords ws).getLast?, isBlank c = false := by
  induction ws with
  | nil => exact fun c hc => absurd hc (by simp [unwords])
  | cons w ws ih =>
    have hw := h w List.mem_cons_self
    cases ws with
    | nil =>
      rw [unwords_singleton]
      exact fun c hc => hw.2 c (List.mem_of_getLast? hc)
    | cons w' ws =>
      have hw' := h w' (by simp)
      have htail : (unwords (w :: w' :: ws)).getLast? = (unwords (w' :: ws)).getLast? := by
        rw [unwords_cons_cons, List.getLast?_append_of_ne_nil _ (by simp), List.getLast?_cons,
          List.getLast?_eq_some_getLast (unwords_ne_nil hw'.1 ws)]
        rfl
      rw [htail]
      exact ih fun v hv => h v (List.mem_cons_of_mem w hv)

theorem dropWhile_eq_self {text : List Char} (h : ∀ c ∈ text.head?, isBlank c = false) :
    text.dropWhile isBlank = text := by
  cases text with
  | nil => rfl
  | cons c text => rw [List.dropWhile_cons_of_neg (by simp [h c rfl])]

/-- **Words that are written have no blanks around them.** -/
theorem trim_unwords {ws : List (List Char)} (h : ∀ w ∈ ws, IsWord w) :
    trim (unwords ws) = unwords ws := by
  have hhead : ∀ c ∈ (unwords ws).head?, isBlank c = false := by
    cases ws with
    | nil => exact fun c hc => absurd hc (by simp [unwords])
    | cons w ws =>
      have hw := h w List.mem_cons_self
      rw [head_unwords hw.1]
      exact fun c hc => hw.2 c (List.mem_of_mem_head? hc)
  rw [trim, dropWhile_eq_self hhead, dropWhile_eq_self, List.reverse_reverse]
  rw [List.head?_reverse]
  exact isBlank_getLast_unwords h

/-! ### Indices -/

/-- A digit is not blank. -/
theorem isBlank_of_isDigit {c : Char} (h : c.isDigit = true) : isBlank c = false := by
  have hbounds : 48 ≤ c.toNat ∧ c.toNat ≤ 57 := by
    rw [Char.isDigit, Bool.and_eq_true, decide_eq_true_iff, decide_eq_true_iff] at h
    exact h
  apply isBlank_of_isGraphic
  rw [isGraphic, Bool.and_eq_true, decide_eq_true_iff, decide_eq_true_iff]
  omega

theorem digitsValue_eq {ds : List Char} (h : ∀ d ∈ ds, d.isDigit = true) (n : ℕ) :
    digitsValue? n ds = some (Nat.ofDigitChars 10 ds n) := by
  induction ds generalizing n with
  | nil => rfl
  | cons d ds ih =>
    rw [digitsValue?, if_pos (h d List.mem_cons_self),
      ih fun d' hd' => h d' (List.mem_cons_of_mem d hd')]
    rfl

theorem isWord_digits (n : ℕ) : IsWord (Decimal.digits n) :=
  ⟨Decimal.digits_ne_nil n, fun _ hc => isBlank_of_isDigit (Decimal.isDigit_of_mem_digits hc)⟩

/-- **An index is read from its digits.** -/
theorem index_digits {n : ℕ} (h : n < indexLimit) : index? (Decimal.digits n) = some n := by
  obtain ⟨d, ds, hdigits⟩ := List.exists_cons_of_ne_nil (Decimal.digits_ne_nil n)
  have hdigit : ∀ c ∈ d :: ds, c.isDigit = true := by
    rw [← hdigits]
    exact fun c => Decimal.isDigit_of_mem_digits
  have hplus : d ≠ '+' := by
    rintro rfl
    exact absurd (hdigit '+' List.mem_cons_self) (by decide)
  have hnatural : natural? (d :: ds) = some n := by
    rw [natural?, digitsValue_eq hdigit, ← hdigits, Decimal.digits,
      Nat.ofDigitChars_toDigits (by decide) (by decide)]
    exact List.cons_ne_nil d ds
  rw [hdigits, index?, hnatural, Option.filter_some, if_pos (decide_eq_true h)]
  exact fun rest heq => hplus (List.cons.inj heq).1

end CarrierTransport.Text
