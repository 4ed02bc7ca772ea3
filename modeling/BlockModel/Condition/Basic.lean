import BlockModel.Properties

/-! Conditions on the properties of a block. A condition is a tree of conjunctions and disjunctions over
tests of one property against a list of values; an empty conjunction always holds, an empty disjunction
never. -/

namespace BlockModel

inductive Condition where
  /-- Every child holds. -/
  | all (children : List Condition)
  /-- Some child holds. -/
  | any (children : List Condition)
  /-- The property is present and has one of the values. -/
  | property (name : String) (values : List String)
  deriving Repr

namespace Condition

def always : Condition := .all []

def never : Condition := .any []

instance : Inhabited Condition := ⟨always⟩

/-- A conjunction; a single child stands for itself. -/
def and : List Condition → Condition
  | [only] => only
  | children => .all children

/-- A disjunction; a single child stands for itself. -/
def or : List Condition → Condition
  | [only] => only
  | children => .any children

mutual
/-- Whether a condition holds of a bag of properties. A property that the bag does not have fails every
test. -/
def holds {β : Type} [PropertyBag β] (bag : β) : Condition → Bool
  | .all children => allHold bag children
  | .any children => anyHolds bag children
  | .property name values =>
    match PropertyBag.value? bag name with
    | some value => values.contains value
    | none => false

def allHold {β : Type} [PropertyBag β] (bag : β) : List Condition → Bool
  | [] => true
  | c :: rest => holds bag c && allHold bag rest

def anyHolds {β : Type} [PropertyBag β] (bag : β) : List Condition → Bool
  | [] => false
  | c :: rest => holds bag c || anyHolds bag rest
end

theorem allHold_eq_all {β : Type} [PropertyBag β] (bag : β) (cs : List Condition) :
    allHold bag cs = cs.all (holds bag) := by
  induction cs with
  | nil => rfl
  | cons c rest ih => rw [allHold, List.all_cons, ih]

theorem anyHolds_eq_any {β : Type} [PropertyBag β] (bag : β) (cs : List Condition) :
    anyHolds bag cs = cs.any (holds bag) := by
  induction cs with
  | nil => rfl
  | cons c rest ih => rw [anyHolds, List.any_cons, ih]

mutual
def decEq : (c d : Condition) → Decidable (c = d)
  | .all xs, .all ys =>
    match decEqList xs ys with
    | isTrue h => isTrue (congrArg all h)
    | isFalse h => isFalse fun e => h (by injection e)
  | .any xs, .any ys =>
    match decEqList xs ys with
    | isTrue h => isTrue (congrArg any h)
    | isFalse h => isFalse fun e => h (by injection e)
  | .property n vs, .property m ws =>
    if hn : n = m then
      if hv : vs = ws then isTrue (by rw [hn, hv])
      else isFalse fun e => hv (by injection e)
    else isFalse fun e => hn (by injection e)
  | .all _, .any _ => isFalse nofun
  | .all _, .property _ _ => isFalse nofun
  | .any _, .all _ => isFalse nofun
  | .any _, .property _ _ => isFalse nofun
  | .property _ _, .all _ => isFalse nofun
  | .property _ _, .any _ => isFalse nofun

def decEqList : (cs ds : List Condition) → Decidable (cs = ds)
  | [], [] => isTrue rfl
  | [], _ :: _ => isFalse nofun
  | _ :: _, [] => isFalse nofun
  | x :: xs, y :: ys =>
    match decEq x y with
    | isTrue h =>
      match decEqList xs ys with
      | isTrue hs => isTrue (by rw [h, hs])
      | isFalse hs => isFalse fun e => hs (by injection e)
    | isFalse h => isFalse fun e => h (by injection e)
end

instance : DecidableEq Condition := decEq

end Condition

end BlockModel
