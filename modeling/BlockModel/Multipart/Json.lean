import BlockModel.Condition.Json
import BlockModel.Json.Decode
import BlockModel.Multipart.Basic

/-! Multiparts in JSON: a list of case objects with a condition under `when`, which always holds if it is
not there, and a payload under `apply`. The last member of either key counts. Members of other keys are
left aside, and so are cases that apply nothing; both are reported. How deeply conditions may nest is limited;
a limit below the least one is raised to it. -/

namespace BlockModel

/-- The least limit, which also holds when none is asked for. -/
def leastConditionDepth : Nat := 32

/-- The limit on the levels of condition objects; the outermost object is the first level. -/
structure Limits where
  conditionDepth : Nat

namespace Limits

def standard : Limits := ⟨leastConditionDepth⟩

instance : Inhabited Limits := ⟨standard⟩

/-- The limit that is asked for, or the least one. -/
def ofConditionDepth (requested : Nat) : Limits := ⟨max requested leastConditionDepth⟩

end Limits

/-- What the key of a case object stands for. -/
inductive CaseKey where
  | when
  | apply
  | other (name : String)
  deriving DecidableEq, Repr

def CaseKey.ofName (name : String) : CaseKey :=
  if name = "when" then .when else if name = "apply" then .apply else .other name

/-- The members of a case that were met so far. -/
structure CaseDraft (α : Type) where
  condition : Option Condition
  apply : Option α

namespace CaseDraft

variable {α : Type}

def empty : CaseDraft α := ⟨none, none⟩

/-- The condition of the case: without one it always holds. -/
def when (d : CaseDraft α) : Condition := d.condition.getD .always

/-- The case, unless it applies nothing. -/
def case? (d : CaseDraft α) : Option (Case α) := d.apply.map fun a => ⟨d.when, a⟩

end CaseDraft

namespace Multipart

variable {α : Type} [Payload α]

def skippedKey (name : String) : LogLine :=
  ⟨.trace, "Skipping unknown multipart key " ++ Text.quoted name⟩

def droppedCase (condition : Condition) : LogLine :=
  ⟨.debug, "Dropping multipart case without apply (when " ++ condition.display ++ ")"⟩

def expectedList : String := "an array of multipart cases"

def expectedCase : String := "a multipart case object"

def scanMember (limit room : Nat) (d : CaseDraft α) (key : String) : Scan (CaseDraft α) :=
  match CaseKey.ofName key with
  | .when => do
    Scan.colon
    let c ← Condition.scan limit room 1
    pure { d with condition := some c }
  | .apply => do
    Scan.colon
    let a ← Scan.payload (Payload.scan room)
    pure { d with apply := some a }
  | .other name => do
    Scan.report (skippedKey name)
    Scan.colon
    Scan.skipValue
    pure d

/-- The case of a complete draft; a case that applies nothing is reported and left out. -/
def scanComplete (d : CaseDraft α) : Scan (Option (Case α)) :=
  match d.case? with
  | some c => pure (some c)
  | none => do
    Scan.report (droppedCase d.when)
    pure none

def scanCase (limit : Nat) : Nat → Scan (Option (Case α))
  | 0 => Scan.expectObject expectedCase Scan.tooDeep
  | room + 1 =>
    Scan.expectObject expectedCase <| Scan.inObject do
      let d ← Scan.members CaseDraft.empty (scanMember limit room)
      scanComplete d

def scan (limits : Limits) : Nat → Scan (Multipart α)
  | 0 => Scan.expectList expectedList Scan.tooDeep
  | room + 1 =>
    Scan.expectList expectedList <| Scan.inList do
      let cs ← Scan.items (scanCase limits.conditionDepth room)
      pure ⟨cs.filterMap id⟩

/-- What is taken from JSON, and what is reported on the way. -/
abbrev Logged (β : Type) := Except DataFault β × List LogLine

def membersOfJson (limit : Nat) (d : CaseDraft α) : List (String × Json) → Logged (CaseDraft α)
  | [] => (.ok d, [])
  | (key, j) :: rest =>
    match CaseKey.ofName key with
    | .when =>
      match Condition.ofJson limit 1 j with
      | .ok c => membersOfJson limit { d with condition := some c } rest
      | .error fault => (.error fault, [])
    | .apply =>
      match Payload.ofJson j with
      | .ok a => membersOfJson limit { d with apply := some a } rest
      | .error fault => (.error fault, [])
    | .other name =>
      let (result, log) := membersOfJson limit d rest
      (result, skippedKey name :: log)

def caseOfJson (limit : Nat) : Json → Logged (Option (Case α))
  | .object members =>
    match membersOfJson limit .empty members with
    | (.ok d, log) =>
      match d.case? with
      | some c => (.ok (some c), log)
      | none => (.ok none, log ++ [droppedCase d.when])
    | (.error fault, log) => (.error fault, log)
  | j => (j.refused expectedCase, [])

def casesOfJson (limit : Nat) : List Json → Logged (List (Case α))
  | [] => (.ok [], [])
  | j :: rest =>
    match caseOfJson limit j with
    | (.ok c, log) =>
      let (more, logMore) := casesOfJson limit rest
      (more.map (c.toList ++ ·), log ++ logMore)
    | (.error fault, log) => (.error fault, log)

def ofJson (limits : Limits) : Json → Logged (Multipart α)
  | .list js =>
    let (cases, log) := casesOfJson limits.conditionDepth js
    (cases.map Multipart.mk, log)
  | j => (j.refused expectedList, [])

end Multipart

end BlockModel
