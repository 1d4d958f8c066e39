/-!
# Paths

The text that names a file. Its pieces are what stands between its slashes; behind the first one an
empty piece or a single dot is idle: it leads nowhere else. A path is kept as it is written, because
the idle pieces count for its length and for what may be made at its end.
-/

namespace CarrierTransport

structure Path where
  text : String
deriving DecidableEq, Repr

namespace Path

/-! ### Joining -/

/-- Whether the path starts at the top of the tree. -/
def isAbsolute (path : Path) : Bool :=
  path.text.startsWith "/"

/-- Whether the path ends with a slash, and so names a directory. -/
def endsInSlash (path : Path) : Bool :=
  path.text.endsWith "/"

/-- The path of a file in a directory; an absolute one stands for itself. -/
def join (directory file : Path) : Path :=
  if file.isAbsolute then file
  else if directory.text.isEmpty || directory.endsInSlash then ⟨directory.text ++ file.text⟩
  else ⟨directory.text ++ "/" ++ file.text⟩

/-- The path of a named file in a directory. -/
def child (directory : Path) (name : String) : Path :=
  directory.join ⟨name⟩

/-! ### Pieces -/

/-- The pieces of a path, those behind the first from the last one on. -/
structure Pieces where
  front : String
  reversed : List String
deriving DecidableEq, Repr

/-- Whether a piece behind the first leads nowhere else. -/
def isIdle (piece : String) : Bool :=
  piece = "" || piece = "."

/-- What stands between the slashes. -/
def pieces (path : Path) : Pieces :=
  match path.text.splitOn "/" with
  | [] => ⟨"", []⟩
  | front :: rest => ⟨front, rest.reverse⟩

/-- The pieces without the idle ones at the end. -/
def Pieces.trim (p : Pieces) : Pieces :=
  { p with reversed := p.reversed.dropWhile isIdle }

/-- The path of some pieces; an empty first piece is the top of the tree. -/
def Pieces.toPath (p : Pieces) : Path :=
  match p.reversed with
  | [] => ⟨if p.front = "" then "/" else p.front⟩
  | reversed => ⟨"/".intercalate (p.front :: reversed.reverse)⟩

/-- The names to be followed one after the other, single and double dots among them. -/
def names (path : Path) : List String :=
  (path.text.splitOn "/").filter (· ≠ "")

/-- The directories above some pieces, the nearest first. -/
def above (front : String) : (reversed : List String) → List Path
  | [] => []
  | piece :: reversed =>
    if isIdle piece then above front reversed
    else (Pieces.mk front reversed).trim.toPath :: above front reversed

/-- The path and the directories above it as far as they are named, the nearest first. -/
def ancestors (path : Path) : List Path :=
  if path.text.isEmpty then [] else path :: above path.pieces.front path.pieces.reversed

/-! ### File names -/

/-- The last piece, if it is the name of a file. -/
def fileName? (path : Path) : Option String :=
  let p := path.pieces.trim
  let last := p.reversed.headD p.front
  if ["", ".", ".."].contains last then none else some last

/-- A file name cut at its last dot, unless it has none or only the one in front. -/
def splitExtension (name : String) : String × Option String :=
  match (name.toList.reverse.span (· ≠ '.')) with
  | (_, []) | (_, ['.']) => (name, none)
  | (after, _ :: before) =>
    (String.ofList before.reverse, some (String.ofList after.reverse))

/-- The extension of the file name, if there is one. -/
def extension? (path : Path) : Option String :=
  path.fileName?.bind fun name => (splitExtension name).2

/-- The path with the extension of its file name replaced or added; idle pieces behind the name are
dropped. -/
def withExtension (path : Path) (extension : String) : Path :=
  match path.fileName? with
  | none => path
  | some name =>
    let name := (splitExtension name).1 ++ "." ++ extension
    let p := path.pieces.trim
    match p.reversed with
    | [] => (Pieces.mk name []).toPath
    | _ :: before => (Pieces.mk p.front (name :: before)).toPath

end Path

end CarrierTransport
