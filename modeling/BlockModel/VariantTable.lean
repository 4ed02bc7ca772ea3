import BlockModel.Condition.Display
import BlockModel.Variant.Json

/-! The variants of a block by their keys. Of the rows of a table only the first whose key holds is used;
the rows stand in the order of the document, and a key may be there more than once. -/

namespace BlockModel

structure VariantRow where
  key : String
  condition : Condition
  apply : VariantPool
  deriving DecidableEq, Repr

/-- A row with the condition that its key is short for. -/
def VariantRow.ofKey (key : String) (apply : VariantPool) : VariantRow := ⟨key, .ofKey key, apply⟩

structure VariantTable where
  rows : List VariantRow
  deriving DecidableEq, Repr

namespace VariantTable

variable {β : Type}

def empty : VariantTable := ⟨[]⟩

def isEmpty (t : VariantTable) : Bool := t.rows.isEmpty

/-- The first row that holds of a bag of properties. -/
def find? [PropertyBag β] (t : VariantTable) (bag : β) : Option VariantRow :=
  t.rows.find? fun row => row.condition.holds bag

/-- What that row gives at a position. -/
def emitted [PropertyBag β] (t : VariantTable) (bag : β) (p : BlockPosition) : List Variant :=
  match t.find? bag with
  | some row => (row.apply.select? p).toList
  | none => []

def expected : String := "a map of property keys to variants"

def scanMember (room : Nat) (sofar : List VariantRow) (key : String) : Scan (List VariantRow) := do
  Scan.colon
  let pool ← VariantPool.scan room
  pure (.ofKey key pool :: sofar)

def scan : Nat → Scan VariantTable
  | 0 => Scan.expectObject expected Scan.tooDeep
  | room + 1 =>
    Scan.expectObject expected <| Scan.inObject do
      let reversed ← Scan.members [] (scanMember room)
      pure ⟨reversed.reverse⟩

def rowsOfJson : List (String × Json) → Except DataFault (List VariantRow)
  | [] => .ok []
  | (key, j) :: rest => do
    let pool ← VariantPool.ofJson j
    let more ← rowsOfJson rest
    pure (.ofKey key pool :: more)

def ofJson : Json → Except DataFault VariantTable
  | .object members => mk <$> rowsOfJson members
  | j => j.refused expected

end VariantTable

end BlockModel
