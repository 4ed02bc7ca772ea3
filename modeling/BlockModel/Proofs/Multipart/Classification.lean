import BlockModel.Proofs.Multipart.Within

/-! What a caller is told of a failure. A fault says of which kind it is and then shows the failure as that renders
itself, and its place is the place of the failure; only the break of a source is shown without the place that it was
met at. -/

namespace BlockModel

namespace Failure

/-- A failure with its line and column as they are counted: line zero stands for no place. -/
def counted (cause : Cause) (line column : Nat) (inPayload : Bool) : Failure :=
  ⟨cause, if line = 0 then none else some ⟨line, column⟩, inPayload⟩

/-- Words of its own, whatever they end with, make a counted failure. -/
theorem ofText_eq_counted (text : String) :
    ∃ words line column, ofText text = counted (.custom words) line column false := by
  unfold ofText
  cases splitPlace? text with
  | none => exact ⟨text, 0, 0, rfl⟩
  | some found =>
      obtain ⟨words, line, column⟩ := found
      exact ⟨words, line, column, rfl⟩

theorem length_lt_placed (message : String) (p : Position) : message.length < (placed message (some p)).length := by
  have hmark : " at ".length = 4 := rfl
  rw [placed, String.length_append, String.length_append, hmark]
  omega

end Failure

namespace Fault

variable {cause : Cause}

theorem position?_ofStructure_counted (hsource : ∀ reason, cause ≠ .source reason) (line column : Nat)
    (inPayload : Bool) : (ofStructure (.counted cause line column inPayload)).position? =
      if 0 < line then some ⟨line, column⟩ else none := by
  rw [ofStructure_eq (f := .counted cause line column inPayload) hsource]
  by_cases hline : line = 0
  · rw [hline]
    rfl
  · rw [if_pos (Nat.pos_of_ne_zero hline)]
    exact if_neg hline

/-- A break that was met at a place is shown without it. -/
theorem display_ofStructure_break_iff (reason : String) (line column : Nat) (inPayload : Bool) :
    (ofStructure (.counted (.source reason) line column inPayload)).display =
      Kind.source.heading ++ (Failure.counted (.source reason) line column inPayload).render ↔ line = 0 := by
  constructor
  · intro hshown
    refine Decidable.byContradiction fun hline => ?_
    have hrender : (Failure.counted (.source reason) line column inPayload).render =
        Failure.placed reason (some ⟨line, column⟩) := by
      rw [Failure.render, Failure.counted, if_neg hline]
      rfl
    have hlonger := Failure.length_lt_placed reason ⟨line, column⟩
    have hlength : (Kind.source.heading ++ reason).length =
        (Kind.source.heading ++ Failure.placed reason (some ⟨line, column⟩)).length :=
      congrArg String.length (hrender ▸ hshown)
    rw [String.length_append, String.length_append] at hlength
    omega
  · rintro rfl
    rfl

end Fault

namespace Multipart

/-- Whatever a failure says and wherever it lies, a fault of the document shows it as it renders itself and keeps its
place, and the break of a source is shown in its own words alone. So a multipart in a document is told as it is read,
and a failure of reading it in the same words, behind what tells a malformed document from a payload that is to blame,
and at the same place, which there always is. -/
theorem parse_classified :
    (∀ (cause : Cause) (line column : Nat) (inPayload : Bool), (∀ reason, cause ≠ .source reason) →
      (Fault.ofStructure (.counted cause line column inPayload)).display =
          Fault.Kind.malformed.heading ++ (Failure.counted cause line column inPayload).render ∧
        (Fault.ofStructure (.counted cause line column inPayload)).position? =
          if 0 < line then some ⟨line, column⟩ else none) ∧
    (∀ text : String, (Fault.ofStructure (.ofText text)).display =
      Fault.Kind.malformed.heading ++ (Failure.ofText text).render) ∧
    (∀ (reason : String) (line column : Nat) (inPayload : Bool),
      (Fault.ofStructure (.counted (.source reason) line column inPayload)).display =
          Fault.Kind.source.heading ++ reason ∧
        ((Fault.ofStructure (.counted (.source reason) line column inPayload)).display =
          Fault.Kind.source.heading ++ (Failure.counted (.source reason) line column inPayload).render ↔ line = 0)) ∧
    ∀ (kind : PayloadKind) (octets : List UInt8),
      (∀ m : Multipart kind.Value,
        parse .standard .document octets = .ok m ↔ (read .standard .document octets).1 = .ok m) ∧
      ∀ e : Failure, (read (α := kind.Value) .standard .document octets).1 = .error e →
        ∃ fault p, parse (α := kind.Value) .standard .document octets = .error fault ∧
          (fault.kind = .malformed ∨ fault.kind = .payload) ∧ fault.display = fault.kind.heading ++ e.render ∧
          e.position = some p ∧ 0 < p.line ∧ fault.position? = some p := by
  refine ⟨fun cause line column inPayload hsource => ?_, fun text => ?_, fun reason line column inPayload => ?_,
    fun kind octets => ⟨fun m => Scan.mapError_eq_ok_iff _, fun e he => ?_⟩⟩
  · have hsource' : ∀ reason, (Failure.counted cause line column inPayload).cause ≠ .source reason := hsource
    exact ⟨Fault.display_ofStructure hsource', Fault.position?_ofStructure_counted hsource line column inPayload⟩
  · refine Fault.display_ofStructure fun reason => ?_
    obtain ⟨words, line, column, htext⟩ := Failure.ofText_eq_counted text
    rw [htext]
    rintro ⟨⟩
  · exact ⟨rfl, Fault.display_ofStructure_break_iff reason line column inPayload⟩
  · rcases hread : read (α := kind.Value) .standard .document octets with ⟨r, c⟩
    rw [hread] at he
    obtain rfl : r = .error e := he
    obtain ⟨hcause, p, i, hposition, hdenotes⟩ := inDocument_of_read kind hread
    have hsource := hcause.ne_source
    have hline : 0 < p.line := by
      rw [hdenotes.isAt.line]
      omega
    refine ⟨.ofFailure e, p, parse_of_read hread, ?_, Fault.display_ofFailure hsource, hposition, hline, ?_⟩
    · rw [Fault.kind_ofFailure hsource]
      split
      · exact .inr rfl
      · exact .inl rfl
    · rw [Fault.position?_ofFailure hsource, hposition]

/-- A number in place of a case, on the second line. -/
def misplacedCase : List UInt8 := Text.Utf8.encode "[\n1]".toList

def misplacedCaseFailure : Failure := ⟨.data (.wrongType (.int 1) expectedCase), some ⟨2, 1⟩, false⟩

/-- Words that look like a place are shown, and the place is shown behind them. -/
theorem parse_classified_misplacedCase :
    (∀ reason, Cause.custom "none at line 7 column 8" ≠ .source reason) ∧
      (Fault.ofStructure (.counted (.custom "none at line 7 column 8") 3 4 false)).display =
        "Malformed multipart structure: none at line 7 column 8 at line 3 column 4" ∧
      (read (α := PayloadKind.text.Value) .standard .document misplacedCase).1 = .error misplacedCaseFailure ∧
      ∃ fault : Fault, parse (α := PayloadKind.text.Value) .standard .document misplacedCase = .error fault ∧
        fault.display = fault.kind.heading ++ misplacedCaseFailure.render ∧ fault.position? = some ⟨2, 1⟩ := by
  obtain ⟨hstructure, -, -, hdocuments⟩ := parse_classified
  have hcustom : ∀ reason, Cause.custom "none at line 7 column 8" ≠ .source reason := by
    rintro reason ⟨⟩
  have hrender : Fault.Kind.malformed.heading ++
      (Failure.counted (.custom "none at line 7 column 8") 3 4 false).render =
        "Malformed multipart structure: none at line 7 column 8 at line 3 column 4" := by decide
  have hread : (read (α := PayloadKind.text.Value) .standard .document misplacedCase).1 =
      .error misplacedCaseFailure := rfl
  obtain ⟨fault, p, hparse, -, hdisplay, hp, -, hposition⟩ := (hdocuments .text misplacedCase).2 _ hread
  obtain rfl : (⟨2, 1⟩ : Position) = p := Option.some.inj hp
  exact ⟨hcustom, (hstructure _ 3 4 false hcustom).1.trans hrender, hread, fault, hparse, hdisplay, hposition⟩

/-- A list of cases that breaks off behind a brace. -/
def brokenCase : List UInt8 := Text.Utf8.encode "[\x7b".toList

/-- The break of a stream is met at a place, and is not shown with it. -/
theorem read_brokenCase : ∃ f c,
    read .standard (.broken "disk gone") brokenCase = ((.error f : Except Failure (Multipart VariantPool)), c) ∧
      f.render = "disk gone at line 1 column 2" ∧ (Fault.ofStructure f).display = "I/O error: disk gone" ∧
      (Fault.ofStructure f).display ≠ Fault.Kind.source.heading ++ f.render :=
  ⟨_, _, rfl, by decide, by decide, by decide⟩

end Multipart

end BlockModel
