import CarrierTransport.Storage.FileTree
import CarrierTransport.Toml.Document

/-!
# Sources of settings

Settings and devices are described in TOML files. A source is named by a path, taken from the top of
the tree: a file of exactly this path is taken, and must have the extension of a TOML file;
otherwise the extension of the path is replaced by it. A source that is not required may be missing,
or have another extension, but what is found has to be a document.
-/

namespace CarrierTransport.Configuration

open Toml (Entries)

/-! ### Errors -/

inductive SourceError where
  /-- There is no such file, it is no text, or it has another extension. -/
  | unavailable
  /-- The file is not a TOML document. -/
  | malformed
  /-- A name of the document counts to an item that no list can have. -/
  | misplaced
  /-- The document does not describe what is asked for. -/
  | unfit
deriving DecidableEq, Repr

def SourceError.message : SourceError → String
  | .unavailable => "The file is not available as a TOML document"
  | .malformed => "The file is not a TOML document"
  | .misplaced => "A name of the document counts to an item that its list cannot have"
  | .unfit => "The document lacks an entry or holds one of the wrong kind"

/-! ### Finding and reading -/

def extension : String := "toml"

/-- The file that a path stands for. -/
def locate? (tree : FileTree) (path : Path) : Option Path :=
  let path := tree.absolute path
  if tree.isFile path then
    if path.extension? = some extension then some path else none
  else
    let extended := path.withExtension extension
    if tree.isFile extended then some extended else none

def load (tree : FileTree) (path : Path) : Except SourceError Entries :=
  match locate? tree path with
  | none => .error .unavailable
  | some file =>
    match tree.readText file with
    | .error _ => .error .unavailable
    | .ok text =>
      match Toml.read? text with
      | none => .error .malformed
      | some entries => .ok entries

/-- The entries of a source that may be missing. -/
def loadOptional (tree : FileTree) (path : Path) : Except SourceError Entries :=
  match load tree path with
  | .error .unavailable => .ok []
  | result => result

end CarrierTransport.Configuration
