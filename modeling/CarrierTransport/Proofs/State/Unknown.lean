import Mathlib
import CarrierTransport.State.NodeField

/-!
# One unknown of a field

The value of one unknown of a node read from a field and written to it. A state and a field are
what they were when an unknown is set to the value it has.
-/

namespace CarrierTransport.State

variable {α : Type}

namespace NodeField

/-- The value of an unknown of a node, zero if there is no such node. -/
def unknown [Zero α] (field : NodeField α) (node : Nat) (u : Unknown) : α :=
  ((field.nodes[node]?).map fun s => s.get u.quantity).getD 0

/-- The field with the value of an unknown of a node set. -/
def setUnknown (field : NodeField α) (node : Nat) (u : Unknown) (value : α) : NodeField α :=
  ⟨field.nodes.modify node fun s => s.set u.quantity value⟩

@[simp] theorem nodeCount_setUnknown (field : NodeField α) (node : Nat) (u : Unknown) (value : α) :
    (field.setUnknown node u value).nodeCount = field.nodeCount :=
  Array.size_modify

end NodeField

namespace NodeState

theorem get_set_unknown (s : NodeState α) (u w : Unknown) (value : α) :
    (s.set u.quantity value).get w.quantity = if u = w then value else s.get w.quantity := by
  cases u <;> cases w <;> rfl

theorem set_get_unknown (s : NodeState α) (u : Unknown) :
    s.set u.quantity (s.get u.quantity) = s := by
  cases u <;> rfl

end NodeState

theorem NodeField.setUnknown_unknown [Zero α] (field : NodeField α) (node : Nat) (u : Unknown) :
    field.setUnknown node u (field.unknown node u) = field := by
  obtain ⟨nodes⟩ := field
  refine congrArg NodeField.mk (Array.ext_getElem? fun i => ?_)
  rw [Array.getElem?_modify]
  split_ifs with h
  · subst h
    rw [NodeField.unknown]
    cases nodes[node]? with
    | none => rfl
    | some s => simp [NodeState.set_get_unknown]
  · rfl

theorem Unknown.sub_inj {u w : Unknown} : u.sub = w.sub ↔ u = w := by
  cases u <;> cases w <;> decide

theorem Unknown.sub_ne_zero {u : Unknown} (hu : u ≠ .potential) : u.sub ≠ 0 := by
  cases u with
  | potential => exact absurd rfl hu
  | electronDensity => decide
  | holeDensity => decide

end CarrierTransport.State
