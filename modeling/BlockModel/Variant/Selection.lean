import BlockModel.Binary64.Basic
import BlockModel.Variant.Basic

/-! The choice of a variant by position. A position is hashed to a 24-bit number, which is read as a
fraction of the total weight; the weights are taken off in order until nothing is left. The fraction and
the remainders are double-precision numbers that are multiples of `2 ^ (-24)`, so they are kept here as
whole numbers of that unit, rounded wherever a double-precision number would be. -/

namespace BlockModel

/-- A block's place in the world. -/
structure BlockPosition where
  x : Int32
  y : Int32
  z : Int32
  deriving DecidableEq, Repr

namespace BlockPosition

def origin : BlockPosition := ⟨0, 0, 0⟩

/-- The coordinates in one 32-bit number; all products wrap. -/
def packed (p : BlockPosition) : Int32 :=
  p.x * 73428767 ^^^ p.y * 9122569 ^^^ p.z * 4382893

/-- A 24-bit number that looks random from one position to the next. -/
def hash (seed : Int64) (p : BlockPosition) : Nat :=
  let h := p.packed.toInt64 ^^^ seed * 457
  ((h * (h + 456149)) &&& 0xFFFFFF).toInt.toNat

end BlockPosition

namespace VariantPool

/-- The seed with which positions are hashed to choose a variant. -/
def selectionSeed : Int64 := 827364

/-- Units of `2 ^ (-24)` in one. -/
def unit : Int := 0x1000000

/-- The place of the first weight that, taken off after those before it, leaves less than nothing. -/
def takeOff? : Int → List Nat → Option Nat
  | _, [] => none
  | left, w :: rest =>
    let left := roundInt (left - w * unit)
    if left < 0 then some 0 else (takeOff? left rest).map (· + 1)

def total (weights : List Nat) : Nat := weights.foldr (· + ·) 0

/-- The place that a 24-bit hash picks among weights. It is the first one when every weight is zero, and
the last one when rounding leaves something after all weights are taken off. -/
def pickIndex? (weights : List Nat) (hash : Nat) : Option Nat :=
  match weights with
  | [] => none
  | [_] => some 0
  | _ :: _ :: _ =>
    if total weights = 0 then some 0
    else
      let share := roundInt (hash * roundToBits (total weights))
      some ((takeOff? share weights).getD (weights.length - 1))

def weights (pool : VariantPool) : List Nat := pool.variants.map fun v => v.weight.toNat

/-- The place of the variant that a position selects. -/
def selectIndex? (pool : VariantPool) (p : BlockPosition) : Option Nat :=
  pickIndex? pool.weights (p.hash selectionSeed)

/-- The variant that a position selects. -/
def select? (pool : VariantPool) (p : BlockPosition) : Option Variant :=
  (pool.selectIndex? p).bind (pool.variants[·]?)

end VariantPool

end BlockModel
