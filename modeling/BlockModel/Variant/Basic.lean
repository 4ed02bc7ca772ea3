/-! Model variants: which model a block is drawn with, how it is turned, and how often it is chosen among
others. -/

namespace BlockModel

/-- A model with its rotation in degrees about two axes, whether its texture keeps its orientation, and
its weight among the variants it stands with. -/
structure Variant where
  model : String
  x : Int32
  y : Int32
  uvlock : Bool
  weight : UInt32
  deriving DecidableEq, Repr

namespace Variant

/-- The model as it is, with weight one. -/
def ofModel (model : String) : Variant := ⟨model, 0, 0, false, 1⟩

def rotated (v : Variant) (x y : Int32) : Variant := { v with x, y }

def weighted (v : Variant) (weight : UInt32) : Variant := { v with weight }

/-- The namespace of a model name that does not say its own. -/
def defaultNamespace : String := "minecraft:"

/-- The model with its namespace. -/
def location (v : Variant) : String :=
  if v.model.toList.contains ':' then v.model else defaultNamespace ++ v.model

end Variant

/-- The variants among which a block's position chooses one. -/
structure VariantPool where
  variants : List Variant
  deriving DecidableEq, Repr

namespace VariantPool

def empty : VariantPool := ⟨[]⟩

def isEmpty (pool : VariantPool) : Bool := pool.variants.isEmpty

end VariantPool

end BlockModel
