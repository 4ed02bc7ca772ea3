import BlockModel.Condition.Basic
import BlockModel.Variant.Selection

/-! Multiparts. Every case whose condition holds adds what it applies to the block, in order: a fence gets
its post, and one side for each neighbour. -/

namespace BlockModel

/-- What a case may apply when a block is to be drawn: it gives variants at a position. -/
class Applicable (α : Type) where
  emitted : α → BlockPosition → List Variant

instance : Applicable VariantPool := ⟨fun pool p => (pool.select? p).toList⟩

/-- A condition, and what is applied where it holds. -/
structure Case (α : Type) where
  condition : Condition
  apply : α
  deriving DecidableEq, Repr

structure Multipart (α : Type) where
  cases : List (Case α)
  deriving DecidableEq, Repr

namespace Multipart

variable {α β : Type}

def empty : Multipart α := ⟨[]⟩

def isEmpty (m : Multipart α) : Bool := m.cases.isEmpty

/-- The same with one more case at its end. -/
def push (m : Multipart α) (c : Case α) : Multipart α := ⟨m.cases ++ [c]⟩

/-- The cases whose conditions hold of a bag of properties. -/
def matching [PropertyBag β] (m : Multipart α) (bag : β) : List (Case α) :=
  m.cases.filter fun c => c.condition.holds bag

/-- The places of these cases. -/
def matchingIndices [PropertyBag β] (m : Multipart α) (bag : β) : List Nat :=
  (m.cases.zipIdx.filter fun c => c.1.condition.holds bag).map (·.2)

/-- What all of them apply at a position. -/
def emitted [PropertyBag β] [Applicable α] (m : Multipart α) (bag : β) (p : BlockPosition) : List Variant :=
  (m.matching bag).flatMap fun c => Applicable.emitted c.apply p

end Multipart

end BlockModel
