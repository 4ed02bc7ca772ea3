import BlockModel.Documents

/-! A session: a definition that is edited step by step, together with a copy put aside, a limit for
conditions, a block and its position. Each command changes the session and has a reply; a command whose
document cannot be read changes nothing. -/

namespace BlockModel

structure Session where
  definition : Definition
  saved : Definition
  limits : Limits
  block : Block
  position : BlockPosition

inductive Command where
  /-- Takes over a definition. -/
  | load (octets : List UInt8)
  /-- Takes over a table of variants, or has none. -/
  | variants (octets : Option (List UInt8))
  /-- Takes over a multipart, or has none. -/
  | multipart (octets : Option (List UInt8))
  /-- Adds a case to the multipart. -/
  | push (condition : Condition) (octets : List UInt8)
  | clear
  | emptyMultipart
  /-- Goes back to the copy put aside. -/
  | restore
  /-- Puts a copy aside. -/
  | save
  /-- Asks whether the definition is the one put aside. -/
  | same
  /-- Asks for a limit on the levels of conditions. -/
  | depth (requested : Nat)
  | block (name : String)
  | set (key value : String)
  | get (key : String)
  | moveTo (position : BlockPosition)
  | resolve
  | models
  | find
  | matching
  | dump

inductive Reply where
  /-- How many rows and cases there are now, where there is a table or a multipart. -/
  | summary (rows cases : Option Nat) (isEmpty : Bool)
  | nothing
  | truth (b : Bool)
  | limit (depth : Nat)
  | text (s : String)
  | text? (s : Option String)
  | properties (p : Properties)
  | position (p : BlockPosition)
  | variants (vs : List Variant)
  | texts (ss : List String)
  | indices? (places : Option (List Nat))
  | row? (row : Option VariantRow)
  | definition (d : Definition)
  | fault (f : Fault)
  | failure (f : Failure)

namespace Session

def initial : Session :=
  ⟨.empty, .empty, .standard, .plain "minecraft:air", .origin⟩

def summary (d : Definition) : Reply :=
  .summary (d.variants.map (·.rows.length)) (d.multipart.map (·.cases.length)) d.isEmpty

/-- The session with another definition, and what is said about it. -/
def withDefinition (s : Session) (d : Definition) : Session × Reply :=
  ({ s with definition := d }, summary d)

/-- The variants that the session's block is drawn with. -/
def resolved (s : Session) : List Variant := s.definition.resolve s.block s.position

def step (s : Session) : Command → Session × Reply
  | .load octets =>
    match Definition.load octets with
    | .ok d => s.withDefinition d
    | .error f => (s, .fault f)
  | .variants none => s.withDefinition { s.definition with variants := none }
  | .variants (some octets) =>
    match VariantTable.read octets with
    | .ok t => s.withDefinition { s.definition with variants := some t }
    | .error f => (s, .failure f)
  | .multipart none => s.withDefinition { s.definition with multipart := none }
  | .multipart (some octets) =>
    match Multipart.parse s.limits .document octets with
    | .ok m => s.withDefinition { s.definition with multipart := some m }
    | .error f => (s, .fault f)
  | .push condition octets =>
    match VariantPool.read octets with
    | .ok pool => s.withDefinition (s.definition.push ⟨condition, pool⟩)
    | .error f => (s, .failure f)
  | .clear => s.withDefinition .empty
  | .emptyMultipart => s.withDefinition { s.definition with multipart := some .empty }
  | .restore => s.withDefinition s.saved
  | .save => ({ s with saved := s.definition }, .nothing)
  | .same => (s, .truth (s.definition = s.saved))
  | .depth requested =>
    let limits := Limits.ofConditionDepth requested
    ({ s with limits }, .limit limits.conditionDepth)
  | .block name => ({ s with block := .plain name }, .text name)
  | .set key value =>
    let block := s.block.set key value
    ({ s with block }, .properties block.properties)
  | .get key => (s, .text? (s.block.properties.get? key))
  | .moveTo position => ({ s with position }, .position position)
  | .resolve => (s, .variants s.resolved)
  | .models => (s, .texts (s.resolved.map Variant.location))
  | .find => (s, .row? (s.definition.find? s.block))
  | .matching => (s, .indices? (s.definition.matchingIndices? s.block))
  | .dump => (s, .definition s.definition)

/-- The replies to a list of commands, each given to the session that the ones before it left. -/
def replies (s : Session) : List Command → List Reply
  | [] => []
  | c :: rest =>
    let (s, reply) := s.step c
    reply :: replies s rest

end Session

end BlockModel
