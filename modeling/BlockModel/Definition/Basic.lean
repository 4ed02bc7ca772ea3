import BlockModel.Multipart.Basic
import BlockModel.VariantTable

/-! Definitions: how a block is drawn in each of its states. The table of variants gives its first match,
and every case of the multipart that holds adds to it. -/

namespace BlockModel

structure Definition where
  variants : Option VariantTable
  multipart : Option (Multipart VariantPool)
  deriving DecidableEq, Repr

namespace Definition

variable {β : Type}

def empty : Definition := ⟨none, none⟩

/-- Whether neither section can give anything. -/
def isEmpty (d : Definition) : Bool :=
  d.variants.all VariantTable.isEmpty && d.multipart.all Multipart.isEmpty

/-- The variants that a block with these properties is drawn with at a position. -/
def resolve [PropertyBag β] (d : Definition) (bag : β) (p : BlockPosition) : List Variant :=
  (d.variants.elim [] fun t => t.emitted bag p) ++ (d.multipart.elim [] fun m => m.emitted bag p)

/-- The row of the table that is used. -/
def find? [PropertyBag β] (d : Definition) (bag : β) : Option VariantRow :=
  d.variants.bind fun t => t.find? bag

/-- The places of the cases that are used, if there is a multipart. -/
def matchingIndices? [PropertyBag β] (d : Definition) (bag : β) : Option (List Nat) :=
  d.multipart.map fun m => m.matchingIndices bag

/-- The same with one more case at the end of its multipart. -/
def push (d : Definition) (c : Case VariantPool) : Definition :=
  { d with multipart := some ((d.multipart.getD .empty).push c) }

end Definition

end BlockModel
