/-!
# Layout of a document

What stands between the words of a document: blanks, comments up to the end of their line, and the
ends of lines. A carriage return in front of a line feed belongs to the end of the line.
-/

namespace CarrierTransport.Toml

/-! ### Characters -/

/-- Whether a character is a blank within a line. -/
def isBlank (c : Char) : Bool :=
  c = ' ' ∨ c = '\t'

/-- Whether a character may stand in a comment: every one but the control characters below the
blank; the tab may. -/
def isCommentChar (c : Char) : Bool :=
  c = '\t' ∨ 0x20 ≤ c.toNat

/-- Whether a character may stand for itself in a quoted text. -/
def isTextChar (c : Char) : Bool :=
  isCommentChar c ∧ c.toNat ≠ 0x7F

/-! ### Line ends -/

/-- The characters of a document with every line ended by a line feed alone. -/
def foldLineEnds : List Char → List Char
  | '\r' :: '\n' :: rest => '\n' :: foldLineEnds rest
  | c :: rest => c :: foldLineEnds rest
  | [] => []

/-- The rest after the blanks at the front. -/
def dropBlank (text : List Char) : List Char :=
  text.dropWhile isBlank

/-- The rest after the comment at the front, if there is one. -/
def dropComment : List Char → List Char
  | '#' :: rest => rest.dropWhile isCommentChar
  | text => text

/-- The rest after the end of a line, blanks and a comment before it included. -/
def endOfLine? (text : List Char) : Option (List Char) :=
  match dropComment (dropBlank text) with
  | [] => some []
  | '\n' :: rest => some rest
  | _ => none

/-- The rest after blanks, comments and line ends in any order. -/
def dropLayout (inComment : Bool) : List Char → List Char
  | [] => []
  | c :: rest =>
    if c = '\n' then dropLayout false rest
    else if inComment then
      if isCommentChar c then dropLayout true rest else c :: rest
    else if isBlank c then dropLayout false rest
    else if c = '#' then dropLayout true rest
    else c :: rest

/-! ### Lengths -/

theorem length_dropWhile_le (p : Char → Bool) (text : List Char) :
    (text.dropWhile p).length ≤ text.length :=
  (List.dropWhile_suffix p).length_le

theorem length_dropBlank_le (text : List Char) : (dropBlank text).length ≤ text.length :=
  length_dropWhile_le isBlank text

theorem length_dropComment_le (text : List Char) : (dropComment text).length ≤ text.length := by
  unfold dropComment
  split
  · have := length_dropWhile_le isCommentChar ‹List Char›
    simp; omega
  · exact Nat.le_refl _

theorem length_endOfLine?_le {text rest : List Char} (h : endOfLine? text = some rest) :
    rest.length ≤ text.length := by
  have h₁ := length_dropBlank_le text
  have h₂ := length_dropComment_le (dropBlank text)
  unfold endOfLine? at h
  split at h
  · simp at h; subst h; simp
  · rename_i heq; simp at h; subst h; rw [heq] at h₂; simp at h₂; omega
  · simp at h

theorem length_dropLayout_le (inComment : Bool) (text : List Char) :
    (dropLayout inComment text).length ≤ text.length := by
  fun_induction dropLayout inComment text <;> simp_all <;> omega

end CarrierTransport.Toml
