import CarrierTransport.Toml.Quoted

/-!
# What is left to read

A reader of a document returns what it has read together with the characters after it. These are
fewer than it was given, which is part of their type: so readers can call each other for as long as
there is something left.
-/

namespace CarrierTransport.Toml

/-- What follows a part of a text that is not empty. -/
abbrev Rest (text : List Char) := { rest : List Char // rest.length < text.length }

/-- The answer of a reader whose rest is always shorter than its text. -/
def shorter {β : Type} (reader : List Char → Reading β)
    (h : ∀ {text r}, reader text = some r → r.2.length < text.length) (text : List Char) :
    Option (β × Rest text) :=
  match e : reader text with
  | none => none
  | some r => some (r.1, ⟨r.2, h e⟩)

/-- What follows a character at the front. -/
def first? (c : Char) (text : List Char) : Option (Rest text) :=
  match text with
  | [] => none
  | d :: rest => if d = c then some ⟨rest, Nat.lt_succ_self _⟩ else none

namespace Rest

variable {text : List Char}

/-- What follows the first character. -/
def ofTail (c : Char) (rest : List Char) : Rest (c :: rest) :=
  ⟨rest, Nat.lt_succ_self _⟩

/-- What is left of a text is left of it behind one more character. -/
def behind (c : Char) (rest : Rest text) : Rest (c :: text) :=
  ⟨rest.1, Nat.lt_succ_of_lt rest.2⟩

/-- What is left of what is left. -/
def next (rest : Rest text) (last : Rest rest.1) : Rest text :=
  ⟨last.1, Nat.lt_trans last.2 rest.2⟩

/-- What is left after dropping some more. -/
def drop (f : List Char → List Char) (h : ∀ t, (f t).length ≤ t.length) (rest : Rest text) :
    Rest text :=
  ⟨f rest.1, Nat.lt_of_le_of_lt (h rest.1) rest.2⟩

/-- What is left if some was dropped before. -/
def within (f : List Char → List Char) (h : ∀ t, (f t).length ≤ t.length) (rest : Rest (f text)) :
    Rest text :=
  ⟨rest.1, Nat.lt_of_lt_of_le rest.2 (h text)⟩

/-- What is left behind an expected character. -/
def expect? (c : Char) (rest : Rest text) : Option (Rest text) :=
  (first? c rest.1).map rest.next

/-- What is left after the blanks at the front. -/
def dropBlank (rest : Rest text) : Rest text :=
  rest.drop Toml.dropBlank length_dropBlank_le

/-- What is left after blanks, comments and line ends at the front. -/
def dropLayout (rest : Rest text) : Rest text :=
  rest.drop (Toml.dropLayout false) (length_dropLayout_le false)

/-- What is left after the end of the line. -/
def endOfLine? (rest : Rest text) : Option (Rest text) :=
  match e : Toml.endOfLine? rest.1 with
  | none => none
  | some next => some ⟨next, Nat.lt_of_le_of_lt (length_endOfLine?_le e) rest.2⟩

end Rest

end CarrierTransport.Toml
