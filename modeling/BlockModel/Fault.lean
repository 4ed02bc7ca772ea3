import BlockModel.Failure

/-! What a caller is told when a document could not be read: that it is malformed, that what a multipart
case applies is not of the kind asked for, or that the source broke off. -/

namespace BlockModel

inductive Fault where
  | malformed (message : String) (position : Option Position)
  | payload (failure : Failure)
  | source (reason : String)
  deriving DecidableEq, Repr

namespace Fault

/-- A failure outside of any payload. The message is what stands before the place in the words of the
failure, which may hold the words of a place themselves. -/
def ofStructure (f : Failure) : Fault :=
  match f.cause with
  | .source reason => source reason
  | _ =>
    match f.position with
    | none => malformed f.render none
    | some p =>
      match Text.cutLast Failure.placeMark f.render.toList with
      | some (message, _) => malformed (String.ofList message) (some p)
      | none => malformed f.render (some p)

/-- A failure of reading a multipart. JSON of the wrong shape is the fault of a payload when it was met in
one; a text that is no JSON never is. -/
def ofFailure (f : Failure) : Fault := if f.inPayload && f.isData then payload f else ofStructure f

def display : Fault → String
  | malformed message position => "Malformed multipart structure: " ++ Failure.placed message position
  | payload failure => "Failed to deserialize apply payload: " ++ failure.render
  | source reason => "I/O error: " ++ reason

def position? : Fault → Option Position
  | malformed _ position => position
  | payload failure => failure.position
  | source _ => none

/-- The words of what is behind the fault. -/
def behind? : Fault → Option String
  | malformed _ _ => none
  | payload failure => some failure.render
  | source reason => some reason

end Fault

end BlockModel
