/-!
# Values of a document

What a description in TOML says: a table of named values. A point in time is kept as the text it is
written as.
-/

namespace CarrierTransport.Toml

inductive Value where
  | text (content : String)
  | integer (value : Int)
  | float (value : Float)
  | boolean (value : Bool)
  | array (items : List Value)
  | table (entries : List (String × Value))
deriving Inhabited, Repr

/-- Values under names that are unique. -/
abbrev Entries := List (String × Value)

namespace Entries

/-- The entries with the value of a name set; a new name comes last. -/
def put {β : Type} (entries : List (String × β)) (name : String) (value : β) :
    List (String × β) :=
  match entries with
  | [] => [(name, value)]
  | entry :: rest =>
    if entry.1 = name then (name, value) :: rest else entry :: put rest name value

theorem lookup_put {β : Type} (entries : List (String × β)) (name : String) (value : β) :
    (put entries name value).lookup name = some value := by
  induction entries with
  | nil => simp [put]
  | cons entry rest ih =>
    obtain ⟨key, old⟩ := entry
    by_cases h : key = name
    · simp [put, h]
    · have h' : (name == key) = false := by simpa using fun e : name = key => h e.symm
      simp [put, h, List.lookup_cons, h', ih]

end Entries

end CarrierTransport.Toml
