import BlockModel.Fault

/-! What a fault says. Its words are those of the cause of the failure, since the place that the failure was
rendered with is cut off again; its kind follows from the cause and from the mark of a payload, and its place is
that of the failure. -/

namespace BlockModel

namespace Text

theorem cutLast_append {mark s before after : List Char} (h : cutLast mark s = some (before, after))
    (front : List Char) : cutLast mark (front ++ s) = some (front ++ before, after) := by
  induction front with
  | nil => exact h
  | cons c front ih => rw [List.cons_append, cutLast, ih, List.cons_append]

theorem cutLast_cons_eq_none {mark rest : List Char} {c : Char} (hrest : cutLast mark rest = none)
    (h : afterStart mark (c :: rest) = none) : cutLast mark (c :: rest) = none := by
  rw [cutLast, hrest, h]
  rfl

theorem afterStart_eq_none {m : Char} {s : List Char} (h : m ∉ s.head?) (mark : List Char) :
    afterStart (m :: mark) s = none := by
  cases s with
  | nil => rfl
  | cons c rest =>
      rw [afterStart, if_neg]
      rintro rfl
      exact h rfl

/-- Characters with which the mark does not begin hold no beginning of it. -/
theorem cutLast_append_of_not_mem {m : Char} {mark front rest : List Char} (hfront : m ∉ front)
    (hrest : cutLast (m :: mark) rest = none) : cutLast (m :: mark) (front ++ rest) = none := by
  induction front with
  | nil => exact hrest
  | cons c front ih =>
      obtain ⟨hc, hfront⟩ := List.ne_and_not_mem_of_not_mem_cons hfront
      exact cutLast_cons_eq_none (ih hfront) (afterStart_eq_none (fun h => hc (Option.some.inj h).symm) _)

theorem eq_of_afterStart {mark s rest : List Char} (h : afterStart mark s = some rest) : s = mark ++ rest := by
  induction mark generalizing s with
  | nil => exact Option.some.inj h
  | cons m mark ih =>
      cases s with
      | nil => cases h
      | cons c s =>
          rw [afterStart] at h
          split at h
          · rename_i hc
            rw [hc, ih h, List.cons_append]
          · cases h

theorem eq_of_atStart {mark s before after : List Char}
    (h : (afterStart mark s).map ([], ·) = some (before, after)) : s = before ++ (mark ++ after) := by
  obtain ⟨rest, hrest, hpair⟩ := Option.map_eq_some_iff.1 h
  obtain ⟨hbefore, hafter⟩ := Prod.mk.inj hpair
  rw [← hbefore, ← hafter, eq_of_afterStart hrest, List.nil_append]

theorem eq_of_cutLast {mark s before after : List Char} (h : cutLast mark s = some (before, after)) :
    s = before ++ (mark ++ after) := by
  induction s generalizing before with
  | nil => exact eq_of_atStart h
  | cons c s ih =>
      rw [cutLast] at h
      cases hlater : cutLast mark s with
      | none =>
          rw [hlater] at h
          exact eq_of_atStart h
      | some found =>
          obtain ⟨before', after'⟩ := found
          rw [hlater] at h
          obtain ⟨rfl, rfl⟩ := Prod.mk.inj (Option.some.inj h)
          rw [ih hlater, List.cons_append]

end Text

theorem not_mem_digits {c : Char} (hc : c.isDigit = false) (n : Nat) : c ∉ (toString n).toList := by
  intro hmem
  rw [Nat.toString_eq_repr, Nat.toList_repr] at hmem
  rw [Nat.isDigit_of_mem_toDigits (by decide) (by decide) hmem] at hc
  cases hc

namespace Failure

/-- A space in front of something that does not begin with `a` is not where a place begins. -/
theorem cutLast_space_eq_none {s : List Char} (hs : Text.cutLast placeMark s = none) (hhead : 'a' ∉ s.head?) :
    Text.cutLast placeMark (' ' :: s) = none := by
  refine Text.cutLast_cons_eq_none hs ?_
  show Text.afterStart ('a' :: "t line ".toList) s = none
  exact Text.afterStart_eq_none hhead _

/-- What follows the words of a place. -/
def placeTail (p : Position) : List Char :=
  (toString p.line).toList ++ ' ' :: ("column".toList ++ ' ' :: (toString p.column).toList)

theorem head?_placeTail (p : Position) : 'a' ∉ (placeTail p).head? := by
  rw [placeTail, List.head?_append]
  cases hline : (toString p.line).toList with
  | nil => exact fun h => absurd (Option.some.inj h) (by decide)
  | cons c rest =>
      intro h
      have hc : c = 'a' := Option.some.inj h
      have hnot := not_mem_digits (by decide : 'a'.isDigit = false) p.line
      rw [hline, hc] at hnot
      exact hnot List.mem_cons_self

theorem cutLast_placeTail (p : Position) : Text.cutLast placeMark (placeTail p) = none := by
  have hdigits : ∀ n : Nat, ' ' ∉ (toString n).toList := not_mem_digits (by decide)
  have hcolumn : Text.cutLast placeMark (toString p.column).toList = none := by
    have h : Text.cutLast placeMark ((toString p.column).toList ++ []) = none :=
      Text.cutLast_append_of_not_mem (hdigits p.column) rfl
    rwa [List.append_nil] at h
  refine Text.cutLast_append_of_not_mem (hdigits p.line)
    (cutLast_space_eq_none ?_ fun h => absurd (Option.some.inj h) (by decide))
  refine Text.cutLast_append_of_not_mem (by decide) (cutLast_space_eq_none hcolumn ?_)
  intro h
  exact not_mem_digits (by decide : 'a'.isDigit = false) p.column (List.mem_of_mem_head? h)

/-- The place that a message was given is found as the last one in it. -/
theorem cutLast_placed (message : String) (p : Position) :
    Text.cutLast placeMark (placed message (some p)).toList = some (message.toList, placeTail p) := by
  have htext : (placed message (some p)).toList =
      message.toList ++ ' ' :: ("at".toList ++ ' ' :: ("line".toList ++ ' ' :: placeTail p)) := by
    rw [placed, Position.text, placeTail]
    simp only [String.toList_append, List.append_assoc]
    rfl
  have hwords : Text.cutLast placeMark ("at".toList ++ ' ' :: ("line".toList ++ ' ' :: placeTail p)) = none := by
    refine Text.cutLast_append_of_not_mem (by decide)
      (cutLast_space_eq_none ?_ fun h => absurd (Option.some.inj h) (by decide))
    exact Text.cutLast_append_of_not_mem (by decide)
      (cutLast_space_eq_none (cutLast_placeTail p) (head?_placeTail p))
  have hmark : Text.cutLast placeMark (' ' :: ("at".toList ++ ' ' :: ("line".toList ++ ' ' :: placeTail p))) =
      some ([], placeTail p) := by
    rw [Text.cutLast, hwords]
    rfl
  rw [htext, Text.cutLast_append hmark, List.append_nil]

/-- The failure in which reading ended, if it ended in one. -/
def ending? {α : Type} : Except Failure α → Option Failure
  | .ok _ => none
  | .error e => some e

theorem eq_error_of_ending? {α : Type} {r : Except Failure α} {e : Failure} (h : ending? r = some e) :
    r = .error e := by
  cases r with
  | ok a => cases h
  | error e' => rw [Option.some.inj h]

/-- The digits at the end of a text, of which there may be none, stand behind something else than a space. -/
def endsPlain (text : List Char) : Bool := (text.reverse.dropWhile Char.isDigit).head?.any (· != ' ')

theorem endsPlain_append {text : List Char} (h : endsPlain text = true) (front : List Char) :
    endsPlain (front ++ text) = true := by
  rw [endsPlain, List.reverse_append, List.dropWhile_append]
  rw [endsPlain] at h
  cases hdrop : text.reverse.dropWhile Char.isDigit with
  | nil =>
      rw [hdrop] at h
      cases h
  | cons c rest =>
      rw [hdrop] at h
      exact h

theorem endsPlain_place (front : List Char) {digits : List Char} (hdigits : digits.all Char.isDigit = true) :
    endsPlain (front ++ ' ' :: digits) = false := by
  have hreverse : ∀ c ∈ digits.reverse, Char.isDigit c = true :=
    fun c hc => List.all_eq_true.1 hdigits c (List.mem_reverse.1 hc)
  rw [endsPlain, List.reverse_append, List.reverse_cons, List.append_assoc, List.dropWhile_append_of_pos hreverse]
  rfl

theorem eq_of_splitPlace? {text words : String} {line column : Nat}
    (h : splitPlace? text = some (words, line, column)) :
    ∃ front digits, text.toList = front ++ ' ' :: digits ∧ digits.all Char.isDigit = true := by
  obtain ⟨found, hcut, h⟩ := Option.bind_eq_some_iff.1 h
  obtain ⟨before, after⟩ := found
  obtain ⟨line', -, h⟩ := Option.bind_eq_some_iff.1 h
  obtain ⟨digits, hcolumn, h⟩ := Option.bind_eq_some_iff.1 h
  split at h
  · rename_i hdigits
    obtain ⟨line, hafter⟩ : ∃ line, after = line ++ (" column ".toList ++ digits) :=
      ⟨after.takeWhile Char.isDigit, by rw [← Text.eq_of_afterStart hcolumn, List.takeWhile_append_dropWhile]⟩
    have hmark : " column ".toList = " column".toList ++ [' '] := by decide
    refine ⟨before ++ (placeMark ++ (line ++ " column".toList)), digits, ?_, hdigits⟩
    rw [Text.eq_of_cutLast hcut, hafter, hmark]
    simp only [List.append_assoc, List.singleton_append]
  · cases h

/-- Where nothing that looks like a column ends a text, no place is found in it. -/
theorem splitPlace?_eq_none {text : String} (h : endsPlain text.toList = true) : splitPlace? text = none := by
  cases hsplit : splitPlace? text with
  | none => rfl
  | some found =>
      obtain ⟨words, line, column⟩ := found
      obtain ⟨front, digits, htext, hdigits⟩ := eq_of_splitPlace? hsplit
      rw [htext, endsPlain_place front hdigits] at h
      cases h

theorem ofText_of_endsPlain {text : String} (h : endsPlain text.toList = true) :
    ofText text = ⟨.custom text, none, false⟩ := by
  rw [ofText, splitPlace?_eq_none h]

end Failure

namespace DataFault

/-- What was expected instead, with which the words of a fault may end. -/
def expected? : DataFault → Option String
  | wrongType _ expected | wrongValue _ expected | wrongLength _ expected => some expected
  | missingField _ | duplicateField _ | noAlternative | conditionTooDeep _ => none

/-- What was expected does not end like a place. -/
def isPlain (fault : DataFault) : Bool := fault.expected?.all fun expected => Failure.endsPlain expected.toList

/-- Whatever of the document is in the words of a fault, something else stands behind it. -/
theorem endsPlain_message {fault : DataFault} (h : fault.isPlain = true) :
    Failure.endsPlain fault.message.toList = true := by
  cases fault with
  | wrongType found expected | wrongValue found expected | wrongLength length expected =>
      unfold message
      rw [String.toList_append]
      exact Failure.endsPlain_append h _
  | missingField name | duplicateField name | conditionTooDeep limit =>
      unfold message
      rw [String.toList_append]
      exact Failure.endsPlain_append (by decide) _
  | noAlternative => decide +kernel

end DataFault

namespace Fault

inductive Kind where
  | malformed
  | payload
  | source
  deriving DecidableEq, Repr

def kind : Fault → Kind
  | malformed _ _ => .malformed
  | payload _ => .payload
  | source _ => .source

/-- What a fault of a kind is introduced with. -/
def Kind.heading : Kind → String
  | malformed => "Malformed multipart structure: "
  | payload => "Failed to deserialize apply payload: "
  | source => "I/O error: "

/-- The words of a fault, without its place. -/
def message : Fault → String
  | malformed message _ => message
  | payload failure => failure.cause.message
  | source reason => reason

/-- The words of the fault in which reading ended, if it ended in one. -/
def words? {α : Type} : Except Fault α → Option String
  | .ok _ => none
  | .error fault => some fault.message

/-- The kind of the fault in which reading ended, if it ended in one. -/
def kind? {α : Type} : Except Fault α → Option Kind
  | .ok _ => none
  | .error fault => some fault.kind

/-- A failure outside of payloads keeps its words and its place. -/
theorem ofStructure_eq {f : Failure} (hsource : ∀ reason, f.cause ≠ .source reason) :
    ofStructure f = malformed f.cause.message f.position := by
  obtain ⟨cause, position, inPayload⟩ := f
  cases position with
  | none =>
      cases cause with
      | source reason => exact absurd rfl (hsource reason)
      | _ => rfl
  | some p =>
      have hcut := Failure.cutLast_placed cause.message p
      cases cause with
      | source reason => exact absurd rfl (hsource reason)
      | _ => simp only [ofStructure, Failure.render, hcut, String.ofList_toList]

theorem ofStructure_source {f : Failure} {reason : String} (hsource : f.cause = .source reason) :
    ofStructure f = source reason := by
  rw [ofStructure, hsource]

/-- The break of a source is never blamed on a payload. -/
theorem ofFailure_source {f : Failure} {reason : String} (hsource : f.cause = .source reason) :
    ofFailure f = source reason := by
  rw [ofFailure, Failure.isData, hsource, Bool.and_false, if_neg Bool.false_ne_true]
  exact ofStructure_source hsource

theorem ofFailure_eq {f : Failure} (hsource : ∀ reason, f.cause ≠ .source reason) :
    ofFailure f = if f.inPayload && f.isData then payload f else malformed f.cause.message f.position := by
  rw [ofFailure, ofStructure_eq hsource]

theorem kind_ofFailure {f : Failure} (hsource : ∀ reason, f.cause ≠ .source reason) :
    (ofFailure f).kind = if f.inPayload && f.isData then .payload else .malformed := by
  rw [ofFailure_eq hsource]
  split <;> rfl

/-- A fault says what its failure was caused by. -/
theorem message_ofFailure (f : Failure) : (ofFailure f).message = f.cause.message := by
  by_cases hsource : ∃ reason, f.cause = .source reason
  · obtain ⟨reason, hsource⟩ := hsource
    rw [ofFailure_source hsource, hsource]
    rfl
  · rw [ofFailure_eq (not_exists.1 hsource)]
    split <;> rfl

theorem position?_ofFailure {f : Failure} (hsource : ∀ reason, f.cause ≠ .source reason) :
    (ofFailure f).position? = f.position := by
  rw [ofFailure_eq hsource]
  split <;> rfl

/-- A fault shows the failure as it was rendered: the place that is cut off is put back. -/
theorem display_ofStructure {f : Failure} (hsource : ∀ reason, f.cause ≠ .source reason) :
    (ofStructure f).display = Kind.malformed.heading ++ f.render := by
  rw [ofStructure_eq hsource]
  rfl

theorem display_ofFailure {f : Failure} (hsource : ∀ reason, f.cause ≠ .source reason) :
    (ofFailure f).display = (ofFailure f).kind.heading ++ f.render := by
  rw [ofFailure_eq hsource]
  split <;> rfl

/-- The place of a failure has no part in what kind of fault it is. -/
theorem kind_ofFailure_congr {f g : Failure} (hcause : f.cause = g.cause) (hpayload : f.inPayload = g.inPayload) :
    (ofFailure f).kind = (ofFailure g).kind := by
  by_cases hsource : ∃ reason, f.cause = .source reason
  · obtain ⟨reason, hsource⟩ := hsource
    rw [ofFailure_source hsource, ofFailure_source (hcause.symm.trans hsource)]
  · have hdata : f.isData = g.isData := by rw [Failure.isData, Failure.isData, hcause]
    rw [ofFailure_eq (not_exists.1 hsource), ofFailure_eq (hcause ▸ not_exists.1 hsource), hpayload, hdata]
    split <;> rfl

/-- The same value, or faults of the same kind in the same words. -/
inductive SameButPlace {α : Type} : Except Fault α → Except Fault α → Prop where
  | ok (a : α) : SameButPlace (.ok a) (.ok a)
  | error {fault fault' : Fault} (hkind : fault.kind = fault'.kind) (hmessage : fault.message = fault'.message) :
      SameButPlace (.error fault) (.error fault')

namespace SameButPlace

variable {α : Type} {r r' r'' : Except Fault α}

theorem symm (h : SameButPlace r r') : SameButPlace r' r := by
  cases h with
  | ok a => exact .ok a
  | error hkind hmessage => exact .error hkind.symm hmessage.symm

theorem trans (h : SameButPlace r r') (h' : SameButPlace r' r'') : SameButPlace r r'' := by
  cases h with
  | ok a => exact h'
  | error hkind hmessage =>
      cases h' with
      | error hkind' hmessage' => exact .error (hkind.trans hkind') (hmessage.trans hmessage')

theorem eq_ok {a : α} (h : SameButPlace r (.ok a)) : r = .ok a := by
  cases h with
  | ok => rfl

theorem malformed {message : String} {position : Option Position}
    (h : SameButPlace r (.error (.malformed message position))) :
    ∃ position, r = .error (.malformed message position) := by
  cases h with
  | @error fault _ hkind hmessage =>
      cases fault with
      | malformed message' position' =>
          obtain rfl : message' = message := hmessage
          exact ⟨position', rfl⟩
      | _ => cases hkind

end SameButPlace

end Fault

end BlockModel
