import CarrierTransport.Run.Simulation

/-!
# The program

Fetches the files that a run may look at, runs it in double precision, and stores what it leaves
behind.
-/

namespace CarrierTransport

def textOfPlace (place : List String) : String :=
  "/" ++ "/".intercalate place

/-- The tree with what the system holds along a path. -/
def fetch (tree : FileTree) (path : Path) : IO FileTree := do
  let mut tree := tree
  let mut place : List String := if path.isAbsolute then [] else tree.here
  for name in path.names do
    place := if name = "." then place else if name = ".." then place.dropLast else place ++ [name]
    let file := (← IO.currentDir) / textOfPlace place
    if ← file.isDir then tree := tree.put place .directory
    else if ← file.pathExists then tree := tree.put place (.file (← IO.FS.readBinFile file))
  return tree

/-- The paths that a run may look at. -/
def pathsOf (tree : FileTree) (arguments : Run.Arguments) (mode : Option String) : List Path :=
  let settings : Path := ⟨arguments.configuration⟩
  let sources := [⟨arguments.device⟩, settings.child Configuration.defaultName,
    settings.child (mode.getD Configuration.defaultMode)].map tree.absolute
  let output : Path := ⟨arguments.output⟩
  sources ++ sources.map (·.withExtension Configuration.extension) ++
    [output, output.child Run.logName]

/-- Stores the files of a tree that differ from those of an earlier one. -/
def store (before after : FileTree) : IO Unit := do
  for (place, node) in after.nodes.reverse do
    let path := textOfPlace place
    match node with
    | .directory => IO.FS.createDirAll path
    | .file content =>
      let same := match before.node? place with
        | some (.file old) => old == content
        | _ => false
      unless same do IO.FS.writeBinFile path content

/-- Runs a command line on the system, in its current directory, and gives the exit status. -/
def program (arguments : List String) : IO UInt32 := do
  let here : Path := ⟨(← IO.currentDir).toString⟩
  let mode ← IO.getEnv "RUN_MODE"
  let start ← fetch { FileTree.empty with here := here.names } here
  let before ← match Run.Invocation.ofArguments arguments with
    | .simulate arguments => (pathsOf start arguments mode).foldlM fetch start
    | _ => pure start
  let outcome := Run.run Float arguments mode before
  store before outcome.tree
  unless outcome.message.isEmpty do IO.eprintln outcome.message
  return outcome.status

end CarrierTransport

def main (arguments : List String) : IO UInt32 :=
  CarrierTransport.program arguments
