import CarrierTransport.Decimal.Scientific
import CarrierTransport.State.Quantity
import CarrierTransport.Storage.Reporter

/-!
# The field

The state of a simulation: one value of every quantity at every node. A field never changes its
number of nodes.
-/

namespace CarrierTransport.State

/-! ### Nodes -/

/-- The values of all quantities at a node. -/
structure NodeState (α : Type) where
  intrinsicDensity : α
  potential : α
  donorDensity : α
  acceptorDensity : α
  electronDensity : α
  holeDensity : α
  electronQuasiFermiLevel : α
  holeQuasiFermiLevel : α
deriving Repr, BEq

namespace NodeState

variable {α : Type}

def get (s : NodeState α) : Quantity → α
  | .intrinsicDensity => s.intrinsicDensity
  | .potential => s.potential
  | .donorDensity => s.donorDensity
  | .acceptorDensity => s.acceptorDensity
  | .electronDensity => s.electronDensity
  | .holeDensity => s.holeDensity
  | .electronQuasiFermiLevel => s.electronQuasiFermiLevel
  | .holeQuasiFermiLevel => s.holeQuasiFermiLevel

/-- The state with the value of a quantity set. -/
def set (s : NodeState α) (q : Quantity) (value : α) : NodeState α :=
  match q with
  | .intrinsicDensity => { s with intrinsicDensity := value }
  | .potential => { s with potential := value }
  | .donorDensity => { s with donorDensity := value }
  | .acceptorDensity => { s with acceptorDensity := value }
  | .electronDensity => { s with electronDensity := value }
  | .holeDensity => { s with holeDensity := value }
  | .electronQuasiFermiLevel => { s with electronQuasiFermiLevel := value }
  | .holeQuasiFermiLevel => { s with holeQuasiFermiLevel := value }

end NodeState

/-! ### Errors -/

inductive FieldError where
  | unknownQuantity (name : String)
  | storage (error : StorageError)
deriving DecidableEq, Repr

def FieldError.message : FieldError → String
  | .unknownQuantity name => s!"No field named {name}"
  | .storage error => error.message

def Quantity.ofName (text : String) : Except FieldError Quantity :=
  match Quantity.ofName? text with
  | some q => .ok q
  | none => .error (.unknownQuantity text)

/-! ### The field -/

/-- The state of every node. -/
structure NodeField (α : Type) where
  nodes : Array (NodeState α)
deriving Repr, BEq

namespace NodeField

variable {α : Type}

def nodeCount (field : NodeField α) : Nat :=
  field.nodes.size

def values (field : NodeField α) (q : Quantity) : Array α :=
  field.nodes.map fun s => s.get q

/-- The values of the quantity of a short name. -/
def byName (field : NodeField α) (name : String) : Except FieldError (Array α) := do
  return field.values (← Quantity.ofName name)

/-- The value of a quantity at a node replaced by a function of itself, if the node exists. -/
def modify? (field : NodeField α) (q : Quantity) (node : Nat) (f : α → α) : Option (NodeField α) :=
  if node < field.nodes.size then
    some ⟨field.nodes.modify node fun s => s.set q (f (s.get q))⟩
  else none

/-- The value of a quantity at every node replaced by a function of itself. -/
def modifyAll (field : NodeField α) (q : Quantity) (f : α → α) : NodeField α :=
  ⟨field.nodes.map fun s => s.set q (f (s.get q))⟩

/-! ### Output -/

/-- The lines of the file of a quantity: a heading, then number and value of each node. -/
def lines [BinaryScalar α] (field : NodeField α) (q : Quantity) : List String :=
  s!"### {q.name}" ::
    ((field.values q).mapIdx fun node value => s!"{node} {Decimal.toDigits 17 value}").toList

/-- Reports a quantity under a file name. -/
def output [BinaryScalar α] {ω : Type} (reporter : Reporter ω) (field : NodeField α) (q : Quantity)
    (file : String) : EStateM FieldError ω Unit :=
  widenError .storage (reporter file (field.lines q))

end NodeField

end CarrierTransport.State
