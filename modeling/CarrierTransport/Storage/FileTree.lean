import CarrierTransport.Storage.Error
import CarrierTransport.Storage.Path

/-!
# The file tree

The files that a run reads and writes, as a value: every file and directory under its place, the
list of names that lead there from the top. A path is walked name by name through existing
directories, a single dot staying and two dots leading back up, so each operation fails for the
cause that the system would report. A path that does not start at the top starts at the place where
the run is.
-/

namespace CarrierTransport

/-! ### The tree -/

/-- What a name in a directory stands for. -/
inductive TreeNode where
  | file (content : ByteArray)
  | directory
deriving Inhabited

/-- Every file and directory, under its place. -/
structure FileTree where
  nodes : List (List String × TreeNode)
  /-- The place that relative paths start from. -/
  here : List String

namespace FileTree

/-- The tree without files, seen from its top. -/
def empty : FileTree := ⟨[], []⟩

/-- What stands at a place; the top is a directory. -/
def node? (tree : FileTree) (place : List String) : Option TreeNode :=
  if place.isEmpty then some .directory else tree.nodes.lookup place

def put (tree : FileTree) (place : List String) (node : TreeNode) : FileTree :=
  { tree with nodes := (place, node) :: tree.nodes.filter fun entry => entry.1 != place }

/-! ### Walking -/

/-- The bytes that a name may have. -/
def longestName : Nat := 255

/-- The bytes that a path may have. -/
def longestPath : Nat := 4095

/-- The place that a name leads to from a directory. Nothing needs to be there. -/
def step (tree : FileTree) (place : List String) (name : String) :
    Except StorageError (List String) :=
  match tree.node? place with
  | none => .error .notFound
  | some (.file _) => .error .notDirectory
  | some .directory =>
    if name = "." then .ok place
    else if name = ".." then .ok place.dropLast
    else if longestName < name.utf8ByteSize then .error .nameTooLong
    else .ok (place ++ [name])

/-- The place that a path starts from. -/
def start (tree : FileTree) (path : Path) : Except StorageError (List String) :=
  if path.text.isEmpty then .error .notFound
  else if longestPath < path.text.utf8ByteSize then .error .nameTooLong
  else .ok (if path.isAbsolute then [] else tree.here)

/-- The place that a path leads to, a slash at its end left aside. -/
def walk (tree : FileTree) (path : Path) : Except StorageError (List String) := do
  path.names.foldlM tree.step (← tree.start path)

/-- What a path stands for; one with a slash at its end stands for a directory. -/
def find (tree : FileTree) (path : Path) : Except StorageError TreeNode := do
  let place ← tree.walk path
  let place ← if path.endsInSlash then tree.step place "." else pure place
  match tree.node? place with
  | none => throw .notFound
  | some node => return node

/-- The path from the top for a path of this tree. -/
def absolute (tree : FileTree) (path : Path) : Path :=
  (Path.mk ("/" ++ "/".intercalate tree.here)).join path

/-! ### Reading -/

def read (tree : FileTree) (path : Path) : Except StorageError ByteArray := do
  match ← tree.find path with
  | .directory => throw .isDirectory
  | .file content => return content

def readText (tree : FileTree) (path : Path) : Except StorageError String := do
  match String.fromUTF8? (← tree.read path) with
  | some text => return text
  | none => throw .invalidText

def isFile (tree : FileTree) (path : Path) : Bool :=
  (tree.read path).toBool

def isDirectory (tree : FileTree) (path : Path) : Bool :=
  match tree.find path with
  | .ok .directory => true
  | _ => false

/-! ### Writing -/

/-- The tree with a file created or overwritten, in a directory that exists. -/
def write (tree : FileTree) (path : Path) (content : ByteArray) : Except StorageError FileTree := do
  let place ← tree.walk path
  match tree.node? place with
  | some .directory => throw .isDirectory
  | _ => if path.endsInSlash then throw .isDirectory else return tree.put place (.file content)

/-- Some lines as the text of a file, each ended by a line feed. -/
def textOfLines (lines : List String) : String :=
  String.join (lines.map (· ++ "\n"))

/-- The tree with a file of the given lines. -/
def writeLines (tree : FileTree) (path : Path) (lines : List String) :
    Except StorageError FileTree :=
  tree.write path (textOfLines lines).toUTF8

/-- The tree with a directory made, in one that exists. -/
def makeDirectory (tree : FileTree) (path : Path) : Except StorageError FileTree := do
  let place ← tree.walk path
  if (tree.node? place).isSome then throw .alreadyExists else return tree.put place .directory

/-- The tree with a directory made unless it is there already. -/
def ensureDirectory (tree : FileTree) (path : Path) : Except StorageError FileTree :=
  match tree.makeDirectory path with
  | .ok tree => .ok tree
  | .error e => if tree.isDirectory path then .ok tree else .error e

/-- The tree with the first of some directories made, each of which lies in the next one; those are
made only if there is no place for the first. -/
def ensureWithin (tree : FileTree) : List Path → Except StorageError FileTree
  | [] => .ok tree
  | path :: above =>
    match tree.ensureDirectory path with
    | .error .notFound => do (← tree.ensureWithin above).ensureDirectory path
    | result => result

/-- The tree with a directory and all above it made, unless they exist. -/
def makeDirectories (tree : FileTree) (path : Path) : Except StorageError FileTree :=
  tree.ensureWithin path.ancestors

end FileTree

end CarrierTransport
