import Std.Data.HashMap
import Std.Data.TreeMap

/-! The properties of a block: names with values, both texts. Whatever can be asked for the value of a
name is a bag of properties; conditions look at a bag only through that question. -/

namespace BlockModel

/-- What answers a property name with the value it has, if it has one. -/
class PropertyBag (β : Type) where
  value? : β → String → Option String

/-- Names with values, in the order in which the names were first given one. -/
structure Properties where
  entries : List (String × String)
  deriving DecidableEq, Repr

namespace Properties

def empty : Properties := ⟨[]⟩

def get? (p : Properties) (name : String) : Option String := p.entries.lookup name

/-- Gives a name its value: in the place of the old one, or after all others. -/
def set (p : Properties) (name value : String) : Properties :=
  ⟨if p.entries.any (·.1 == name) then
      p.entries.map fun e => if e.1 == name then (name, value) else e
    else p.entries ++ [(name, value)]⟩

def ofList (entries : List (String × String)) : Properties :=
  entries.foldl (fun p e => p.set e.1 e.2) empty

instance : PropertyBag Properties := ⟨get?⟩

end Properties

instance : PropertyBag (Std.HashMap String String) := ⟨fun map name => map[name]?⟩

instance : PropertyBag (Std.TreeMap String String) := ⟨fun map name => map[name]?⟩

/-- A block as it is met in a world: its name plays no part in choosing its models. -/
structure Block where
  name : String
  properties : Properties
  deriving DecidableEq, Repr

namespace Block

/-- A block without properties. -/
def plain (name : String) : Block := ⟨name, .empty⟩

def set (b : Block) (key value : String) : Block := { b with properties := b.properties.set key value }

instance : PropertyBag Block := ⟨fun b => b.properties.get?⟩

end Block

end BlockModel
