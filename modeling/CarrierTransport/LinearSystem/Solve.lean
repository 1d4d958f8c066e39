import CarrierTransport.LinearSystem.Workspace
import CarrierTransport.Storage.Reporter

/-!
# Solving a system

The columns are divided by the diagonal, the scaled matrix is factored and substituted, and the
scaling is undone, also after a factorisation that failed. A solve leaves its outcome and the
system behind, so it is a state transition that may end in an error. A system that is solved more
than once has a workspace, which the solve leaves behind as well.

A solve can also report: the system before it and the solution with its residual after it, each as
the lines of a file.
-/

namespace CarrierTransport.LinearSystem

namespace BlockMatrix

variable {α : Type} [Scalar α]

/-! ### Column scaling -/

/-- The factor of each column: the diagonal, or one where that is zero. -/
def diagonalScale (m : BlockMatrix α) : Array α :=
  (Array.range m.rowCount).map fun row =>
    let diagonal := m.coefficient row row
    if diagonal == 0 then 1 else diagonal

/-- Every coefficient combined with the factor of its column. -/
def scaleColumns (m : BlockMatrix α) (combine : α → α → α) (scale : Array α) : BlockMatrix α :=
  m.mapEntries fun _ column value => combine value (scale.getD column 1)

/-! ### The solve -/

/-- Solves the system, leaving the solution behind. An error changes no more of the system than
what dividing and multiplying back rounds. -/
def solve : EStateM (MatrixError α) (BlockMatrix α) Unit := fun m =>
  let scale := m.diagonalScale
  let scaled := m.scaleColumns (· / ·) scale
  let restored := scaled.scaleColumns (· * ·) scale
  let env := Envelope.ofPattern scaled.pattern
  match factorise env scaled.coefficient scaled.pivotTolerance with
  | .error pivot => .error (.singularPivot pivot.row pivot.magnitude) restored
  | .ok factors =>
    let x := substitute env factors restored.rhs
    .ok () { restored with solution := x.zipWith (· / ·) scale }

/-- Solves the system as `solve` does, in a workspace and in the place of the last solution. -/
def solveIn : EStateM (MatrixError α) (BlockMatrix α × Workspace α) Unit := fun (m, ws) =>
  let scale := m.diagonalScale
  let scaled := m.scaleColumns (· / ·) scale
  let restored := scaled.scaleColumns (· * ·) scale
  let env := Envelope.ofPattern scaled.pattern
  match Workspace.factorise env scaled.rows scaled.pivotTolerance ws with
  | .error pivot ws => .error (.singularPivot pivot.row pivot.magnitude) (restored, ws)
  | .ok () ws =>
    let x := Workspace.substitute env ws.factors restored.rhs restored.solution
    .ok () ({ restored with solution := x.zipWith (· / ·) scale }, ws)

end BlockMatrix

/-! ### Observed solves -/

/-- Looks at the system before and after a solve and acts on a world outside it. -/
structure SolveObserver (α ω : Type) where
  before : BlockMatrix α → EStateM StorageError ω Unit
  after : BlockMatrix α → EStateM StorageError ω Unit

namespace SolveObserver

variable {α ω : Type}

def silent : SolveObserver α ω where
  before _ := pure ()
  after _ := pure ()

/-- Lets an observer look at the system. -/
def look (observe : BlockMatrix α → EStateM StorageError ω Unit) :
    EStateM (MatrixError α) (BlockMatrix α × ω) Unit := fun (m, world) =>
  match observe m world with
  | .ok () world => .ok () (m, world)
  | .error e world => .error (.storage e) (m, world)

end SolveObserver

/-- Solves the system under the eyes of an observer; what the observer fails in is not done. -/
def BlockMatrix.solveObserved {α ω : Type} [Scalar α] (observer : SolveObserver α ω) :
    EStateM (MatrixError α) (BlockMatrix α × ω) Unit := do
  SolveObserver.look observer.before
  onFirst BlockMatrix.solve
  SolveObserver.look observer.after

/-- Lets an observer look at a system that has a workspace. -/
def SolveObserver.lookIn {α ω : Type} (observe : BlockMatrix α → EStateM StorageError ω Unit) :
    EStateM (MatrixError α) ((BlockMatrix α × Workspace α) × ω) Unit :=
  zoom (fun ((m, _), world) => (m, world)) (fun (m, world) ((_, ws), _) => ((m, ws), world))
    (look observe)

/-- Solves a system that has a workspace under the eyes of an observer. -/
def BlockMatrix.solveObservedIn {α ω : Type} [Scalar α] (observer : SolveObserver α ω) :
    EStateM (MatrixError α) ((BlockMatrix α × Workspace α) × ω) Unit := do
  SolveObserver.lookIn observer.before
  onFirst BlockMatrix.solveIn
  SolveObserver.lookIn observer.after

/-! ### Reports -/

namespace BlockMatrix

variable {α : Type} [BinaryScalar α]

/-- A number as the files of the library hold it, to seventeen significant digits. -/
def fullText (x : α) : String :=
  Decimal.toDigits 17 x

/-- The assembled system: the coefficients row by row, then the right hand side. -/
def systemLines (m : BlockMatrix α) : List String :=
  let coefficients := (m.rows.mapIdx fun row entries =>
    entries.toList.map fun e => s!"{row} {e.column} {fullText e.value}").toList.flatten
  let rhs := (m.rhs.mapIdx fun row value => s!"{row} {fullText value}").toList
  ["### --- A ---"] ++ coefficients ++ ["", "### --- b ---"] ++ rhs

/-- The residual of a row and the largest magnitude of its terms, one if they all vanish. -/
def rowResidual (m : BlockMatrix α) (row : Nat) : α × α :=
  let b := m.rhs.getD row 0
  let (residual, magnitude) := (m.rows.getD row #[]).foldl
    (fun (residual, magnitude) e =>
      let term := e.value * m.solution.getD e.column 0
      (residual - term, Scalar.larger magnitude (Scalar.abs term)))
    (b, Scalar.abs b)
  (residual, if magnitude == 0 then 1 else magnitude)

/-- The solution with the residual of each row, absolute and relative. -/
def solutionLines (m : BlockMatrix α) : List String :=
  let line (row : Nat) : String :=
    let (residual, magnitude) := m.rowResidual row
    let relative := Scalar.abs (residual / magnitude)
    s!"{row} {fullText (m.solution.getD row 0)} {fullText residual} {fullText relative}"
  "### --- x, b-Ax, (b-Ax)/max(b,Ax) ---" :: (List.range m.rowCount).map line

def systemFile : String := "Ab.mtx"

def solutionFile : String := "x.mtx"

end BlockMatrix

/-- Reports the system before a solve and the solution after it. -/
def SolveObserver.ofReporter {α ω : Type} [BinaryScalar α] (reporter : Reporter ω) :
    SolveObserver α ω where
  before m := reporter BlockMatrix.systemFile m.systemLines
  after m := reporter BlockMatrix.solutionFile m.solutionLines

end CarrierTransport.LinearSystem
