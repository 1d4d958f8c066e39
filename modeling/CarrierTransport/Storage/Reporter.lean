import CarrierTransport.Storage.FileTree

/-!
# Reporters

A computation that writes files does so through a reporter: it is given the name and the lines of a
file and changes a world outside the computation, or fails. The file tree is such a world.

A step of a computation is a state transition that may end in an error and leaves a state behind
either way; here are also the ways to run one on a part of a larger state.
-/

namespace CarrierTransport

/-! ### Transitions on a part of the state -/

section Transitions

variable {ε ε' σ τ ω β : Type}

/-- A transition of a part of the state. -/
def zoom (get : σ → τ) (set : τ → σ → σ) (step : EStateM ε τ β) : EStateM ε σ β := fun s =>
  match step (get s) with
  | .ok value t => .ok value (set t s)
  | .error e t => .error e (set t s)

/-- A transition of the first of two states. -/
def onFirst (step : EStateM ε σ β) : EStateM ε (σ × ω) β := fun (s, w) =>
  match step s with
  | .ok value s => .ok value (s, w)
  | .error e s => .error e (s, w)

/-- A transition of the second of two states. -/
def onSecond (step : EStateM ε ω β) : EStateM ε (σ × ω) β := fun (s, w) =>
  match step w with
  | .ok value w => .ok value (s, w)
  | .error e w => .error e (s, w)

/-- A computation that either fails, leaving the state as it was, or gives the next state. -/
def replace (next : σ → Except ε σ) : EStateM ε σ Unit := fun s =>
  match next s with
  | .ok s => .ok () s
  | .error e => .error e s

/-- A transition whose errors are errors of a wider kind. -/
def widenError (wide : ε → ε') (step : EStateM ε σ β) : EStateM ε' σ β := fun s =>
  match step s with
  | .ok value s => .ok value s
  | .error e s => .error (wide e) s

end Transitions

/-! ### Reporters -/

/-- Takes the name and the lines of a file. -/
abbrev Reporter (ω : Type) := (file : String) → (lines : List String) → EStateM StorageError ω Unit

namespace FileTree

/-- Writes files to a directory of the tree. -/
def reporter (directory : Path) : Reporter FileTree := fun file lines =>
  replace fun tree => tree.writeLines (directory.child file) lines

end FileTree

end CarrierTransport
