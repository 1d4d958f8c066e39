import CarrierTransport.Toml.Number
import CarrierTransport.Toml.Rest
import CarrierTransport.Toml.Written

/-!
# Keys and values

A key is one name or several with points between; a value is a quoted text, a bare word, a list in
brackets or a table in braces. A list may run over several lines and end with a comma, a table in
braces may do neither.
-/

namespace CarrierTransport.Toml

/-! ### Keys -/

/-- Whether a character may stand in a name without quotes. -/
def isBare (c : Char) : Bool :=
  c.isAlphanum || c = '-' || c = '_'

/-- The name without quotes at the front. -/
def bareName? (text : List Char) : Option (String × Rest text) :=
  match text with
  | [] => none
  | c :: rest =>
    if isBare c then
      some (String.ofList (c :: rest.takeWhile isBare),
        (Rest.ofTail c rest).drop (List.dropWhile isBare) (length_dropWhile_le isBare))
    else none

/-- The name at the front, quoted or not. -/
def name? (text : List Char) : Option (String × Rest text) :=
  match shorter quotedKey? length_quotedKey? text with
  | some (name, rest) => some (String.ofList name, rest)
  | none => bareName? text

/-- The names of a key with points between them, blanks after them dropped. -/
def key? (text : List Char) : Option (List String × Rest text) :=
  match name? text with
  | none => none
  | some (name, rest) =>
    match rest.dropBlank.expect? '.' with
    | none => some ([name], rest.dropBlank)
    | some more =>
      (key? more.dropBlank.1).map fun (names, last) => (name :: names, more.dropBlank.next last)
termination_by text.length
decreasing_by exact more.dropBlank.2

/-- The key at the front and what follows its equals sign and the blanks around it. -/
def keyEquals? (text : List Char) : Option (List String × Rest text) := do
  let (names, rest) ← key? text
  let rest ← rest.expect? '='
  return (names, rest.dropBlank)

/-! ### Words -/

/-- Whether a character may stand in a number, a truth value or a point in time. -/
def isWordChar (c : Char) : Bool :=
  isBare c || c = '+' || c = '.' || c = ':'

/-- Whether bare characters hold the mark of a negative power of ten. -/
def hasNegativePower (run : List Char) : Bool :=
  (run.zip run.tail).any fun (c, d) => (c = 'e' || c = 'E') && d = '-'

/-- Whether bare characters may start a point in time with its date. -/
def looksLikeDate (run : List Char) : Bool :=
  match run with
  | [] => false
  | c :: rest =>
    (c.isDigit || c = '-') && (run.contains 'T' || run.contains 't' ||
      (rest.contains '-' && !hasNegativePower run))

/-- Whether bare characters may start a point in time without its date. -/
def looksLikeHour (run : List Char) : Bool :=
  run.head?.any (fun c => c.isDigit || c = '-') || run = "inf".toList || run = "nan".toList

/-- What follows some bare characters, if there are any. -/
def afterBare? (text : List Char) : Option (List Char) :=
  if text.head?.any isBare then some (text.dropWhile isBare) else none

/-- What follows a mark and some bare characters behind it; all of it without the mark. -/
def afterPart? (mark : Char) (text : List Char) : Option (List Char) :=
  match after? mark text with
  | some rest => afterBare? rest
  | none => some text

/-- Whether a text is parted like minutes and all that may follow them: seconds, their fraction, and
the hours and minutes of an offset. -/
def looksLikeMinutes (text : List Char) : Bool :=
  (do
    let rest ← afterBare? (← after? ':' text)
    let rest ← afterBare? (← after? ':' rest)
    let rest ← afterPart? '.' rest
    let rest ← afterPart? '+' rest
    afterPart? ':' rest) == some []

/-- Whether a word is parted like a point in time, whatever its parts are. -/
def looksLikeMoment (word : List Char) : Bool :=
  let run := word.takeWhile isBare
  let rest := word.dropWhile isBare
  if looksLikeDate run then
    match afterPart? ' ' rest with
    | some rest => rest.isEmpty || looksLikeMinutes rest
    | none => false
  else looksLikeHour run && looksLikeMinutes rest

def valueOfWord? (word : List Char) : Option Written :=
  if word = "true".toList then some (.plain (.boolean true))
  else if word = "false".toList then some (.plain (.boolean false))
  else if looksLikeMoment word then some (.moment word)
  else (number? word).map .plain

/-- The word at the front and what follows it. A date and a time may stand apart by one blank. -/
def word (text : List Char) : List Char × List Char :=
  let first := text.takeWhile isWordChar
  let rest := text.dropWhile isWordChar
  match rest with
  | ' ' :: c :: more =>
    if first.all isBare && looksLikeDate first && isBare c then
      (first ++ ' ' :: (c :: more).takeWhile isWordChar, (c :: more).dropWhile isWordChar)
    else (first, rest)
  | _ => (first, rest)

/-- A value written as a word. -/
def wordValue? (text : List Char) : Option (Written × Rest text) :=
  if h : (word text).2.length < text.length then
    (valueOfWord? (word text).1).map (·, ⟨(word text).2, h⟩)
  else none

/-! ### Values -/

/-- The table of some dotted keys and their values. -/
def tableOfKeys? (keys : List (List String × Written)) : Option Written := do
  let entries ← keys.foldlM (fun entries (path, value) => WrittenEntries.add value path entries) []
  return .table entries

mutual

def value? (text : List Char) : Option (Written × Rest text) :=
  match text with
  | '[' :: rest => (items? rest).map fun (items, last) => (.array items, last.behind '[')
  | '{' :: rest =>
    match keys? true rest with
    | none => none
    | some (keys, last) => (tableOfKeys? keys).map (·, last.behind '{')
  | text =>
    match shorter quoted? length_quoted? text with
    | some (content, rest) => some (.plain (.text (String.ofList content)), rest)
    | none => wordValue? text
termination_by 2 * text.length

/-- The items of a list up to its closing bracket, after the opening one or a comma. -/
def items? (text : List Char) : Option (List Written × Rest text) :=
  match first? ']' (dropLayout false text) with
  | some rest => some ([], rest.within (dropLayout false) (length_dropLayout_le false))
  | none =>
    match value? (dropLayout false text) with
    | none => none
    | some (item, rest) =>
      let rest := (rest.within (dropLayout false) (length_dropLayout_le false)).dropLayout
      match rest.expect? ',' with
      | some more => (items? more.1).map fun (items, last) => (item :: items, more.next last)
      | none => (rest.expect? ']').map fun last => ([item], last)
termination_by 2 * text.length + 1
decreasing_by
  · have := length_dropLayout_le false text
    omega
  · have := more.2
    omega

/-- The keys and values of a table in braces up to the closing one, after the opening one or a
comma. Only behind the opening brace the table may end at once. -/
def keys? (first : Bool) (text : List Char) :
    Option (List (List String × Written) × Rest text) :=
  match first? '}' (dropBlank text) with
  | some rest =>
    if first then some ([], rest.within dropBlank length_dropBlank_le) else none
  | none =>
    match keyEquals? (dropBlank text) with
    | none => none
    | some (key, start) =>
      let rest := start.within dropBlank length_dropBlank_le
      match value? rest.1 with
      | none => none
      | some (value, last) =>
        let rest := (rest.next last).dropBlank
        match rest.expect? ',' with
        | some more =>
          (keys? false more.1).map fun (keys, last) => ((key, value) :: keys, more.next last)
        | none => (rest.expect? '}').map fun last => ([(key, value)], last)
termination_by 2 * text.length + 1
decreasing_by
  · have := (start.within dropBlank length_dropBlank_le).2
    omega
  · have := more.2
    omega

end

end CarrierTransport.Toml
