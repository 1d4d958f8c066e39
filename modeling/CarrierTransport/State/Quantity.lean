/-!
# Quantities

The quantities a simulation keeps at every node of its mesh, and the ones among them that are
unknowns of the discretised equations.
-/

namespace CarrierTransport.State

/-! ### Quantities -/

/-- A quantity stored at every node. -/
inductive Quantity where
  | intrinsicDensity
  | potential
  | donorDensity
  | acceptorDensity
  | electronDensity
  | holeDensity
  | electronQuasiFermiLevel
  | holeQuasiFermiLevel
deriving DecidableEq, Repr

namespace Quantity

/-- Every quantity, in the order of listings. -/
def all : List Quantity :=
  [.intrinsicDensity, .potential, .donorDensity, .acceptorDensity, .electronDensity, .holeDensity,
    .electronQuasiFermiLevel, .holeQuasiFermiLevel]

/-- The short name used in files. -/
def name : Quantity → String
  | .intrinsicDensity => "ni"
  | .potential => "psi"
  | .donorDensity => "Nd"
  | .acceptorDensity => "Na"
  | .electronDensity => "elec"
  | .holeDensity => "hole"
  | .electronQuasiFermiLevel => "phiN"
  | .holeQuasiFermiLevel => "phiP"

def ofName? (text : String) : Option Quantity :=
  all.find? fun q => q.name == text

theorem mem_all (q : Quantity) : q ∈ all := by
  cases q <;> decide

theorem ofName?_name (q : Quantity) : ofName? q.name = some q := by
  cases q <;> decide

end Quantity

/-! ### Unknowns -/

/-- An unknown of a node, in the order of its block. -/
inductive Unknown where
  | potential
  | electronDensity
  | holeDensity
deriving DecidableEq, Repr

namespace Unknown

def all : List Unknown := [.potential, .electronDensity, .holeDensity]

/-- The place of the unknown in the block of a node. -/
def sub : Unknown → Nat
  | .potential => 0
  | .electronDensity => 1
  | .holeDensity => 2

/-- The quantity that the unknown is a value of. -/
def quantity : Unknown → Quantity
  | .potential => .potential
  | .electronDensity => .electronDensity
  | .holeDensity => .holeDensity

/-- The name of the unknown, that of its quantity. -/
def name (u : Unknown) : String :=
  u.quantity.name

/-- The unknowns of a block of the given size. -/
def ofBlock (size : Nat) : List Unknown :=
  all.take size

end Unknown

/-! ### One value for each unknown -/

/-- A value for each of the three unknowns. -/
structure PerUnknown (β : Type) where
  potential : β
  electronDensity : β
  holeDensity : β
deriving Repr

namespace PerUnknown

variable {β : Type}

def constant (b : β) : PerUnknown β :=
  ⟨b, b, b⟩

def get (p : PerUnknown β) : Unknown → β
  | .potential => p.potential
  | .electronDensity => p.electronDensity
  | .holeDensity => p.holeDensity

/-- The value of an unknown replaced by a function of itself. -/
def modify (p : PerUnknown β) (u : Unknown) (f : β → β) : PerUnknown β :=
  match u with
  | .potential => { p with potential := f p.potential }
  | .electronDensity => { p with electronDensity := f p.electronDensity }
  | .holeDensity => { p with holeDensity := f p.holeDensity }

def toList (p : PerUnknown β) : List β :=
  [p.potential, p.electronDensity, p.holeDensity]

@[simp] theorem get_constant (b : β) (u : Unknown) : (constant b).get u = b := by
  cases u <;> rfl

theorem get_modify (p : PerUnknown β) (u w : Unknown) (f : β → β) :
    (p.modify u f).get w = if u = w then f (p.get w) else p.get w := by
  cases u <;> cases w <;> rfl

theorem all_toList (p : PerUnknown β) (q : β → Bool) :
    p.toList.all q = true ↔ ∀ u, q (p.get u) = true := by
  constructor
  · intro h u
    simp only [toList, List.all_cons, List.all_nil, Bool.and_true, Bool.and_eq_true] at h
    cases u with
    | potential => exact h.1
    | electronDensity => exact h.2.1
    | holeDensity => exact h.2.2
  · intro h
    simp only [toList, List.all_cons, List.all_nil, Bool.and_true, Bool.and_eq_true]
    exact ⟨h .potential, h .electronDensity, h .holeDensity⟩

end PerUnknown

end CarrierTransport.State
