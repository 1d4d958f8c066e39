import CarrierTransport.Storage.Error

/-!
# Lines of a file

The bytes of a file as lines, each ended by a line feed or by the end of the file, a carriage
return before the line feed belonging to the end. Every line is decoded on its own, so an invalid
byte spoils its line only.
-/

namespace CarrierTransport.Text

/-! ### Cutting into lines -/

/-- The lines of a list of bytes, given the bytes of the line being read in reverse. -/
def cutLines (current : List UInt8) : List UInt8 → List (List UInt8)
  | [] => if current.isEmpty then [] else [current.reverse]
  | b :: rest =>
    if b = 10 then
      let line := match current with
        | 13 :: before => before
        | _ => current
      line.reverse :: cutLines [] rest
    else cutLines (b :: current) rest

/-- The text of some bytes in UTF-8. -/
def decode (bytes : List UInt8) : Except StorageError String :=
  match String.fromUTF8? ⟨bytes.toArray⟩ with
  | some text => .ok text
  | none => .error .invalidText

def lines (file : ByteArray) : List (Except StorageError String) :=
  (cutLines [] file.toList).map decode

end CarrierTransport.Text
