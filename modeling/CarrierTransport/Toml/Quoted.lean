import CarrierTransport.Toml.Layout

/-!
# Quoted text

A text between apostrophes stands for itself; between quotation marks a backslash starts an escape.
Three marks in a row open a text of several lines, whose first line end is dropped. Every reader
returns the text and what follows it, which is shorter than what was read.
-/

namespace CarrierTransport.Toml

/-- A reader's answer: what is read and the characters after it. -/
abbrev Reading (β : Type) := Option (β × List Char)

/-- A reading of a text with a character put in front of the text. -/
def Reading.cons (c : Char) : Reading (List Char) → Reading (List Char)
  | none => none
  | some (text, rest) => some (c :: text, rest)

theorem Reading.exists_of_cons {c : Char} {reading : Reading (List Char)}
    {r : List Char × List Char} (h : Reading.cons c reading = some r) :
    ∃ text, reading = some (text, r.2) := by
  cases reading with
  | none => simp [Reading.cons] at h
  | some s => exact ⟨s.1, by simp [Reading.cons] at h; simp [← h]⟩

/-! ### Escapes -/

def hexValue? (c : Char) : Option Nat :=
  if c.isDigit then some (c.toNat - '0'.toNat)
  else if 'a' ≤ c ∧ c ≤ 'f' then some (c.toNat - 'a'.toNat + 10)
  else if 'A' ≤ c ∧ c ≤ 'F' then some (c.toNat - 'A'.toNat + 10)
  else none

/-- The number of some hexadecimal digits. -/
def hexNumber? (digits : List Char) : Option Nat :=
  digits.foldlM (fun n d => (hexValue? d).map (16 * n + ·)) 0

/-- The character of some hexadecimal digits. -/
def codePoint? (digits : List Char) : Option Char := do
  let n ← hexNumber? digits
  if n.isValidChar then return Char.ofNat n else none

/-- The character whose code point is given by so many hexadecimal digits. -/
def hexEscape? (count : Nat) (text : List Char) : Reading Char :=
  if text.length < count then none
  else (codePoint? (text.take count)).map (·, text.drop count)

/-- The character of an escape, given what follows its backslash. -/
def escape? : List Char → Reading Char
  | '"' :: rest => some ('"', rest)
  | '\\' :: rest => some ('\\', rest)
  | 'b' :: rest => some ('\x08', rest)
  | 'f' :: rest => some ('\x0C', rest)
  | 'n' :: rest => some ('\n', rest)
  | 'r' :: rest => some ('\r', rest)
  | 't' :: rest => some ('\t', rest)
  | 'u' :: rest => hexEscape? 4 rest
  | 'U' :: rest => hexEscape? 8 rest
  | _ => none

theorem length_hexEscape?_le {count : Nat} {text rest : List Char} {c : Char}
    (h : hexEscape? count text = some (c, rest)) : rest.length ≤ text.length := by
  unfold hexEscape? at h
  grind [Option.map_eq_some_iff]

theorem length_escape? {text rest : List Char} {c : Char} (h : escape? text = some (c, rest)) :
    rest.length < text.length := by
  unfold escape? at h
  split at h <;> grind [=> length_hexEscape?_le]

/-- The rest after a line end and all blanks and line ends that follow, given what follows a
backslash at the end of a line. -/
def lineEnd? (text : List Char) : Option (List Char) :=
  match dropBlank text with
  | '\n' :: rest => some (rest.dropWhile fun c => isBlank c || c = '\n')
  | _ => none

theorem length_lineEnd? {text rest : List Char} (h : lineEnd? text = some rest) :
    rest.length < text.length := by
  have h₁ := length_dropBlank_le text
  unfold lineEnd? at h
  split at h
  · rename_i after heq
    have h₂ := length_dropWhile_le (fun c => isBlank c || c = '\n') after
    rw [heq] at h₁
    simp at h h₁ h₂
    subst h
    omega
  · simp at h

/-! ### Texts of one line -/

/-- The rest of a text between apostrophes. -/
def literal? : List Char → Reading (List Char)
  | [] => none
  | '\'' :: rest => some ([], rest)
  | c :: rest =>
    if isTextChar c then Reading.cons c (literal? rest) else none

/-- The rest of a text between quotation marks. -/
def basic? (text : List Char) : Reading (List Char) :=
  match text with
  | [] => none
  | '"' :: rest => some ([], rest)
  | '\\' :: rest =>
    match _ : escape? rest with
    | none => none
    | some (c, rest) => Reading.cons c (basic? rest)
  | c :: rest =>
    if isTextChar c then Reading.cons c (basic? rest) else none
termination_by text.length
decreasing_by
  · have := length_escape? ‹_›
    simp; omega
  · simp

/-! ### Texts of several lines -/

/-- The content and the rest where a text of several lines ends: three of its marks close it, and
one or two more in front of them belong to the text. -/
def close? (mark : Char) : List Char → Reading (List Char)
  | a :: b :: c :: rest =>
    if a = mark ∧ b = mark ∧ c = mark then
      match rest with
      | d :: e :: rest' =>
        if d = mark ∧ e = mark then some ([mark, mark], rest')
        else if d = mark then some ([mark], e :: rest')
        else some ([], rest)
      | [d] => if d = mark then some ([mark], []) else some ([], rest)
      | [] => some ([], [])
    else none
  | _ => none

/-- The rest of a text between three apostrophes. -/
def literalLines? (text : List Char) : Reading (List Char) :=
  match close? '\'' text with
  | some reading => some reading
  | none =>
    match text with
    | [] => none
    | c :: rest =>
      if c = '\n' ∨ isTextChar c then
        Reading.cons c (literalLines? rest)
      else none

/-- The rest of a text between three quotation marks. -/
def basicLines? (text : List Char) : Reading (List Char) :=
  match close? '"' text with
  | some reading => some reading
  | none =>
    match text with
    | [] => none
    | '\\' :: rest =>
      match _ : lineEnd? rest with
      | some rest => basicLines? rest
      | none =>
        match _ : escape? rest with
        | none => none
        | some (c, rest) => Reading.cons c (basicLines? rest)
    | c :: rest =>
      if c = '\n' ∨ isTextChar c then
        Reading.cons c (basicLines? rest)
      else none
termination_by text.length
decreasing_by
  · have := length_lineEnd? ‹_›
    simp; omega
  · have := length_escape? ‹_›
    simp; omega
  · simp

/-! ### All forms -/

/-- What follows the line end at the front of a text of several lines. -/
def dropFirstLineEnd : List Char → List Char
  | '\n' :: rest => rest
  | text => text

/-- A quoted text of one line, which alone may be a key. -/
def quotedKey? : List Char → Reading (List Char)
  | '\'' :: '\'' :: '\'' :: _ => none
  | '"' :: '"' :: '"' :: _ => none
  | '\'' :: rest => literal? rest
  | '"' :: rest => basic? rest
  | _ => none

/-- A quoted text of any form. -/
def quoted? : List Char → Reading (List Char)
  | '\'' :: '\'' :: '\'' :: rest => literalLines? (dropFirstLineEnd rest)
  | '"' :: '"' :: '"' :: rest => basicLines? (dropFirstLineEnd rest)
  | text => quotedKey? text

/-! ### Lengths -/

theorem length_literal? {text : List Char} {r : List Char × List Char}
    (h : literal? text = some r) : r.2.length < text.length := by
  fun_induction literal? text generalizing r <;> grind [→ Reading.exists_of_cons]

theorem length_basic? {text : List Char} {r : List Char × List Char}
    (h : basic? text = some r) : r.2.length < text.length := by
  fun_induction basic? text generalizing r <;> grind [→ Reading.exists_of_cons, → length_escape?]

theorem length_close? {mark : Char} {text : List Char} {r : List Char × List Char}
    (h : close? mark text = some r) : r.2.length < text.length := by
  unfold close? at h
  grind

theorem length_literalLines? {text : List Char} {r : List Char × List Char}
    (h : literalLines? text = some r) : r.2.length < text.length := by
  fun_induction literalLines? text generalizing r <;>
    grind [→ Reading.exists_of_cons, → length_close?]

theorem length_basicLines? {text : List Char} {r : List Char × List Char}
    (h : basicLines? text = some r) : r.2.length < text.length := by
  fun_induction basicLines? text generalizing r <;>
    grind [→ Reading.exists_of_cons, → length_close?, → length_lineEnd?, → length_escape?]

theorem length_dropFirstLineEnd_le (text : List Char) :
    (dropFirstLineEnd text).length ≤ text.length := by
  unfold dropFirstLineEnd; split <;> simp

theorem length_quotedKey? {text : List Char} {r : List Char × List Char}
    (h : quotedKey? text = some r) : r.2.length < text.length := by
  unfold quotedKey? at h
  split at h <;> grind [→ length_literal?, → length_basic?]

theorem length_quoted? {text : List Char} {r : List Char × List Char}
    (h : quoted? text = some r) : r.2.length < text.length := by
  unfold quoted? at h
  split at h <;>
    grind [→ length_literalLines?, → length_basicLines?, length_dropFirstLineEnd_le,
      → length_quotedKey?]

end CarrierTransport.Toml
