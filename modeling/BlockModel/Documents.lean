import BlockModel.Definition.Json
import BlockModel.Fault

/-! Documents and what they hold. Everything that can be read is read from the octets of a document, either
on the way through its text, or from its JSON after that was read whole. -/

namespace BlockModel

/-- The JSON of a document. Of members with the same key the last one counts. -/
def Json.read (octets : List UInt8) : Except Failure Json :=
  ((Scan.document (Json.canonical <$> Scan.tree Scan.greatestNesting)).runOn .document octets).1

/-- A shape fault of JSON that was read whole has no place. -/
def Failure.ofData (fault : DataFault) : Failure := ⟨.data fault, none, false⟩

namespace Multipart

variable {α : Type} [Payload α]

/-- Reads a multipart from a source of octets: what comes of it, and how far reading came. -/
def read (limits : Limits) (supply : Supply) (octets : List UInt8) : Outcome (Multipart α) :=
  (Scan.document (scan limits Scan.greatestNesting)).runOn supply octets

/-- The multipart in a document or a stream. -/
def parse (limits : Limits) (supply : Supply) (octets : List UInt8) : Except Fault (Multipart α) :=
  (read limits supply octets).1.mapError .ofFailure

/-- The multipart in the JSON of a document, and what is reported on the way. -/
def readJson (octets : List UInt8) : Except Failure (Multipart α) × List LogLine :=
  match Json.read octets with
  | .ok j =>
    let (result, log) := ofJson .standard j
    (result.mapError .ofData, log)
  | .error f => (.error f, [])

end Multipart

namespace Definition

def read (octets : List UInt8) : Except Failure Definition :=
  ((Scan.document (scan Scan.greatestNesting)).runOn .document octets).1

/-- The definition in a document. -/
def load (octets : List UInt8) : Except Fault Definition := (read octets).mapError .ofStructure

/-- The definition in the JSON of a document. -/
def readJson (octets : List UInt8) : Except Failure Definition :=
  (Json.read octets).bind fun j => (ofJson j).mapError .ofData

end Definition

/-- The table of variants in a document. -/
def VariantTable.read (octets : List UInt8) : Except Failure VariantTable :=
  ((Scan.document (scan Scan.greatestNesting)).runOn .document octets).1

/-- The pool of variants in a document. -/
def VariantPool.read (octets : List UInt8) : Except Failure VariantPool :=
  ((Scan.document (scan Scan.greatestNesting)).runOn .document octets).1

end BlockModel
