/-!
# Blanks and words

The blank characters of Unicode (property `White_Space`), a text without the blanks at its ends,
and the words between blanks.
-/

namespace CarrierTransport.Text

/-! ### Blank characters -/

/-- The code points of the property `White_Space`, as first and last of each range. -/
def blankRanges : List (Nat × Nat) :=
  [(0x09, 0x0D), (0x20, 0x20), (0x85, 0x85), (0xA0, 0xA0), (0x1680, 0x1680), (0x2000, 0x200A),
   (0x2028, 0x2029), (0x202F, 0x202F), (0x205F, 0x205F), (0x3000, 0x3000)]

def isBlank (c : Char) : Bool :=
  blankRanges.any fun (first, last) => first ≤ c.toNat && c.toNat ≤ last

/-! ### Words -/

/-- A text without the blanks at its two ends. -/
def trim (text : List Char) : List Char :=
  ((text.dropWhile isBlank).reverse.dropWhile isBlank).reverse

/-- The words of a text, given the characters of the word being read in reverse. -/
def wordsFrom (current : List Char) : List Char → List (List Char)
  | [] => if current.isEmpty then [] else [current.reverse]
  | c :: rest =>
    if isBlank c then
      if current.isEmpty then wordsFrom [] rest else current.reverse :: wordsFrom [] rest
    else wordsFrom (c :: current) rest

/-- The longest runs of characters that are not blank, in order. -/
def words (text : List Char) : List (List Char) :=
  wordsFrom [] text

end CarrierTransport.Text
