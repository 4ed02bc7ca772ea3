import BlockModel.Proofs.Definition.Positions
import BlockModel.Proofs.Multipart.Columns

/-! Lines and columns of faults. A line is counted from one on, and a column is too wherever it names an octet. It is
zero in front of the first octet of a line: in an empty text, at a line feed that is refused itself, behind blanks that
end with one where a shape is refused, and for a document that begins with a brace where a list has to begin. -/

namespace BlockModel

open Scan

namespace Definition

variable (room : Nat)

theorem fitting_pool : Fitting Cursor.Anywhere (VariantPool.scan room) := PayloadKind.fitting_scan .pool room

theorem fitting_scan : Fitting Cursor.Anywhere (scan room) :=
  (reads (Fitting Cursor.Anywhere) fitting_pool room).fitting fun _ => id

theorem enters_scan {b : UInt8} (hopens : b = Octet.openList ∨ b = Octet.openObject) : Enters b (scan (room + 1)) := by
  have hplaces := reads_scanPlaces (m := .ofDefinition (Fitting Cursor.Anywhere)) trivial fitting_pool trivial room
  have hmembers := reads_scanMembers (m := .ofDefinition (Fitting Cursor.Anywhere)) trivial fitting_pool room
  exact .expectRecord _ hopens (.inPlaces (hplaces.fitting fun _ => id)) (.inObject (hmembers.fitting fun _ => id))

theorem read_nil : read [] = .error ⟨.grammar (.ended .value), some ⟨1, 0⟩, false⟩ := rfl

theorem column_eq_zero_iff {octets : List UInt8} {e : Failure} {p : Position} {i : Nat} (h : read octets = .error e)
    (hposition : e.position = some p) (hdenotes : p.Denotes octets i) :
    p.column = 0 ↔ BeforeLine octets e.cause i := by
  refine ⟨fun hcolumn => ?_, fun hline => hline.column_eq_zero hdenotes.isAt⟩
  refine Fitting.beforeLine (.document (fitting_scan greatestNesting))
    (fun b _ hopens => (enters_scan _ hopens).document) (fun hoctets => ?_) (Prod.ext h rfl) hposition hdenotes hcolumn
  rw [hoctets, read_nil] at h
  exact congrArg Failure.cause (Except.error.inj h).symm

end Definition

/-- How a place in a document counts: its line from one on, and its column from one on where it names the octet in front
of its offset. Otherwise the column is zero, and that is just in the case that is given. -/
structure CountsIn (octets : List UInt8) (p : Position) (i : Nat) (uncounted : Prop) : Prop where
  isAt : p.IsAt octets i
  line : 1 ≤ p.line
  names : 1 ≤ p.column → p.Names octets (i - 1)
  column_eq_zero_iff : p.column = 0 ↔ uncounted

theorem countsIn_of_denotes {octets : List UInt8} {p : Position} {i : Nat} {uncounted : Prop}
    (hdenotes : p.Denotes octets i) (hiff : p.column = 0 ↔ uncounted) : CountsIn octets p i uncounted := by
  refine ⟨hdenotes.isAt, ?_, hdenotes.isAt.names, hiff⟩
  rw [hdenotes.isAt.line]
  exact Nat.le_add_right 1 _

namespace Fault

theorem parse_eq_malformed {α : Type} [Payload α] {limits : Limits} {octets : List UInt8} {e : Failure}
    (h : (Multipart.read limits .document octets : Outcome (Multipart α)).1 = .error e)
    (hsource : ∀ reason, e.cause ≠ .source reason) (hmark : (e.inPayload && e.isData) = false) :
    (Multipart.parse limits .document octets : Except Fault (Multipart α)) =
      .error (.malformed e.cause.message e.position) := by
  rw [Multipart.parse, h]
  refine congrArg Except.error ((ofFailure_eq hsource).trans ?_)
  rw [hmark, if_neg Bool.false_ne_true]

/-- Where the fault of a document is placed, its line is counted from one on, and so is its column where the place
names an octet. It names none, and the column is zero, in front of the first octet of a line only: in an empty text, at
a line feed that is refused itself, behind blanks that end with one where a shape is refused, and where a brace opens
the text of a multipart. -/
theorem counted_inDocument (octets : List UInt8) :
    (∀ (kind : PayloadKind) (limits : Limits) (fault : Fault),
      Multipart.parse (α := kind.Value) limits .document octets = .error fault →
        ∃ e p i, (Multipart.read (α := kind.Value) limits .document octets).1 = .error e ∧ fault = .ofFailure e ∧
          fault.position? = some p ∧
          CountsIn octets p i (octets.head? = some Octet.openObject ∨ BeforeLine octets e.cause i)) ∧
    ∀ fault, Definition.load octets = .error fault →
      ∃ e p i, Definition.read octets = .error e ∧ fault = .ofStructure e ∧ fault.position? = some p ∧
        CountsIn octets p i (BeforeLine octets e.cause i) := by
  refine ⟨fun kind limits fault h => ?_, fun fault h => ?_⟩
  · rcases hread : Multipart.read (α := kind.Value) limits .document octets with ⟨e | m, c⟩ <;>
      rw [Multipart.parse_of_read hread] at h
    · obtain ⟨hcause, p, i, hposition, hdenotes⟩ := Multipart.inDocument_of_read kind hread
      refine ⟨e, p, i, rfl, (Except.error.inj h).symm, ?_, ?_⟩
      · rw [← Except.error.inj h]
        exact (position?_ofFailure hcause.ne_source).trans hposition
      · exact countsIn_of_denotes hdenotes
          (Multipart.column_eq_zero_iff kind (congrArg Prod.fst hread) hposition hdenotes)
    · cases h
  · obtain ⟨e, hread, rfl⟩ := Definition.exists_read_of_load h
    obtain ⟨hcause, p, i, hposition, hdenotes⟩ := Definition.inDocument_of_read hread
    refine ⟨e, p, i, hread, rfl, ?_, ?_⟩
    · rw [ofStructure_eq hcause.ne_source]
      exact hposition
    · exact countsIn_of_denotes hdenotes (Definition.column_eq_zero_iff hread hposition hdenotes)

/-- A number that is applied, and a comma on the next line. -/
def commaAhead : List UInt8 := Multipart.firstMember "apply" ++ Text.Utf8.encode "5\n,\"when\":\x7b\x7d\x7d]".toList

def commaAheadFailure : Failure := ⟨.data .noAlternative, some ⟨2, 0⟩, true⟩

/-- A key of a definition, with a line feed in it. -/
def brokenKey : List UInt8 := Text.Utf8.encode "\x7b\"a\n".toList

def brokenKeyFailure : Failure := ⟨.grammar .controlCharacter, some ⟨2, 0⟩, false⟩

theorem parse_commaAhead :
    Multipart.parse (α := VariantPool) .standard .document commaAhead = .error (.payload commaAheadFailure) := by
  have hread : (Multipart.read (α := VariantPool) .standard .document commaAhead).1 = .error commaAheadFailure :=
    Failure.eq_error_of_ending? (by decide +kernel)
  rw [Multipart.parse, hread]
  rfl

theorem load_brokenKey : Definition.load brokenKey = .error (.ofStructure brokenKeyFailure) := by
  have hread : Definition.read brokenKey = .error brokenKeyFailure := Failure.eq_error_of_ending? (by decide +kernel)
  rw [Definition.load, hread]
  rfl

theorem counted_inDocument_commaAhead :
    (∃ fault e p i, Multipart.parse (α := VariantPool) .standard .document commaAhead = .error fault ∧
        (Multipart.read (α := VariantPool) .standard .document commaAhead).1 = .error e ∧ fault = .ofFailure e ∧
        fault.position? = some p ∧
        CountsIn commaAhead p i (commaAhead.head? = some Octet.openObject ∨ BeforeLine commaAhead e.cause i)) ∧
      ∃ fault e p i, Definition.load brokenKey = .error fault ∧ Definition.read brokenKey = .error e ∧
        fault = .ofStructure e ∧ fault.position? = some p ∧
        CountsIn brokenKey p i (BeforeLine brokenKey e.cause i) := by
  obtain ⟨e, p, i, hplaced⟩ := (counted_inDocument commaAhead).1 .pool .standard _ parse_commaAhead
  obtain ⟨e', p', i', hplaced'⟩ := (counted_inDocument brokenKey).2 _ load_brokenKey
  exact ⟨⟨_, e, p, i, parse_commaAhead, hplaced⟩, _, e', p', i', load_brokenKey, hplaced'⟩

/-- Not every column is counted from one on: it is zero in an empty text, where a brace opens the text of a multipart,
where a payload is left in front of a line, and at a line feed in a key. -/
theorem column_eq_zero_emptyText :
    Multipart.parse (α := VariantPool) .standard .document [] =
        .error (.malformed "EOF while parsing a value" (some ⟨1, 0⟩)) ∧
      Multipart.parse (α := VariantPool) .standard .document (Text.Utf8.encode "\x7b\x7d".toList) =
        .error (.malformed "invalid type: map, expected an array of multipart cases" (some ⟨1, 0⟩)) ∧
      Multipart.parse (α := VariantPool) .standard .document commaAhead = .error (.payload commaAheadFailure) ∧
      Definition.load brokenKey =
        .error (.malformed "control character (\\u0000-\\u001F) found while parsing a string" (some ⟨2, 0⟩)) ∧
      ¬∀ (limits : Limits) (octets : List UInt8) (fault : Fault) (p : Position),
        Multipart.parse (α := VariantPool) limits .document octets = .error fault ∨
            Definition.load octets = .error fault →
          fault.position? = some p → 1 ≤ p.line ∧ 1 ≤ p.column := by
  have hempty := parse_eq_malformed (Multipart.read_nil (α := VariantPool) .standard) (fun _ h => by cases h) rfl
  refine ⟨hempty, ?_, parse_commaAhead, ?_, fun hcounted => ?_⟩
  · exact parse_eq_malformed (Multipart.read_openObject .standard _) (fun _ h => by cases h) rfl
  · rw [load_brokenKey]
    exact congrArg Except.error (ofStructure_eq fun _ h => by cases h)
  · exact absurd (hcounted .standard [] _ ⟨1, 0⟩ (.inl hempty) rfl).2 (by decide)

end Fault

end BlockModel
