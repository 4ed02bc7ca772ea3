import BlockModel.Scan.Token

/-! Lists and objects. Reading the inside of either is a loop over its items, each after the first preceded
by a comma; the close is read apart, so that it can also be looked for after a failure. -/

namespace BlockModel.Scan

/-- Past all lists and objects that may be open at once. -/
def tooDeep {α : Type} : Scan α := refuse .ahead .nestedTooDeep

/-- Whether a list has another item; its comma is taken. -/
def hasItem (first : Bool) : Scan Bool := do
  match ← peekPastBlanks with
  | none => refuse .ahead (.ended .list)
  | some b =>
    if b = Octet.closeList then pure false
    else if first then pure true
    else if b = Octet.comma then do
      skip
      match ← peekPastBlanks with
      | none => refuse .ahead (.ended .value)
      | some b => if b = Octet.closeList then refuse .ahead .trailingComma else pure true
    else refuse .ahead .expectedListCommaOrEnd

/-- The end of a list. What follows a comma there is looked at in the given way. -/
def closeListLooking (look : Scan (Option UInt8)) : Scan Unit := do
  match ← peekPastBlanks with
  | none => refuse .ahead (.ended .list)
  | some b =>
    if b = Octet.closeList then skip
    else if b = Octet.comma then do
      skip
      match ← look with
      | some b =>
        if b = Octet.closeList then refuse .ahead .trailingComma else refuse .ahead .trailingCharacters
      | none => refuse .ahead .trailingCharacters
    else refuse .ahead .trailingCharacters

/-- The end of a list of which all items were read: no comma is left before it, unless an item failed. -/
def closeList : Scan Unit := closeListLooking peekPastBlanks

/-- The end of a list with a fixed number of places. Another item is refused even where the source breaks
off after its comma. -/
def closePlaces : Scan Unit :=
  closeListLooking do
    match ← attempt peekPastBlanks with
    | some b => pure b
    | none => pure none

/-- All items of a list, read alike. -/
def items {α : Type} (item : Scan α) : Scan (List α) := do
  let reversed ← loop ([] : List α) fun sofar => do
    if ← hasItem sofar.isEmpty then do
      let a ← item
      pure (.inl (a :: sofar))
    else pure (.inr sofar)
  pure reversed.reverse

/-- A list of items, from its opening bracket on, which was looked at. -/
def inList {α : Type} (inside : Scan α) : Scan α := do
  skip
  enclosed inside closeList

/-- A list with a fixed number of places, from its opening bracket on. -/
def inPlaces {α : Type} (inside : Scan α) : Scan α := do
  skip
  enclosed inside closePlaces

/-- The next place of a list, if the list goes that far. -/
def place? {α : Type} (first : Bool) (item : Scan α) : Scan (Option α) := do
  if ← hasItem first then do
    let a ← item
    pure (some a)
  else pure none

/-- Whether an object has another member; its comma is taken, and its key begins. -/
def hasMember (first : Bool) : Scan Bool := do
  match ← peekPastBlanks with
  | none => refuse .ahead (.ended .object)
  | some b =>
    if b = Octet.closeObject then pure false
    else if first then
      if b = Octet.quote then pure true else refuse .ahead .keyNotString
    else if b = Octet.comma then do
      skip
      match ← peekPastBlanks with
      | none => refuse .ahead (.ended .value)
      | some b =>
        if b = Octet.quote then pure true
        else if b = Octet.closeObject then refuse .ahead .trailingComma
        else refuse .ahead .keyNotString
    else refuse .ahead .expectedObjectCommaOrEnd

/-- The end of an object, whose members were read. -/
def closeObject : Scan Unit := do
  match ← peekPastBlanks with
  | none => refuse .ahead (.ended .object)
  | some b =>
    if b = Octet.closeObject then skip
    else if b = Octet.comma then refuse .ahead .trailingComma
    else refuse .ahead .trailingCharacters

/-- The colon between key and value. -/
def colon : Scan Unit := do
  match ← peekPastBlanks with
  | none => refuse .ahead (.ended .object)
  | some b => if b = Octet.colon then skip else refuse .ahead .expectedColon

/-- All members of an object: a state is carried through, and each key decides how its member goes on. -/
def members {σ : Type} (init : σ) (member : σ → String → Scan σ) : Scan σ :=
  loop (true, init) fun (first, s) => do
    if ← hasMember first then do
      let k ← quoted
      let s ← member s k
      pure (.inl (false, s))
    else pure (.inr s)

/-- An object, from its opening brace on, which was looked at. -/
def inObject {α : Type} (inside : Scan α) : Scan α := do
  skip
  enclosed inside closeObject

end BlockModel.Scan
