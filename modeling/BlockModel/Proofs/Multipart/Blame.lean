import BlockModel.Proofs.Multipart.Payload
import BlockModel.Proofs.Multipart.Within
import BlockModel.Proofs.Scan.Refused
import Mathlib.Data.List.Basic

/-! Which part of a payload is looked at before it is blamed. A payload is blamed where a shape is refused in it, and
a reader that goes along the text refuses at once: what it has read is a front of a value, and what is left need not
go on to be one. A pool is read whole before its shape is asked about, and JSON is never refused. Where the text itself
is met to be no JSON the document is malformed, inside of a payload too. -/

namespace BlockModel

open Scan

/-- The JSON of a pool was read before it is refused. -/
theorem VariantPool.refusesBy_scan (room : Nat) : RefusesBy ByValue (VariantPool.scan room) := by
  refine .after (.of_regular (.tree room)) (.tree room) (G := Eq) (fun j => ?_) fun u t v hvalue heq => heq ▸ hvalue
  cases VariantPool.ofJson? j with
  | some pool => exact .pure pool
  | none => exact .refuseData (fun _ => rfl) _ _

namespace PayloadKind

/-- What lies between the start of a payload and the place where its shape was refused. -/
def Looked : PayloadKind → List UInt8 → List UInt8 → Prop
  | pool => ByValue
  | json => fun _ _ => False
  | variant | text | int32 | truth | texts | optionalInt32 => ByFront IsValue

theorem refusesBy_scan (kind : PayloadKind) (room : Nat) :
    RefusesBy kind.Looked (Payload.scan room : Scan kind.Value) := by
  have hfront : RefusesBy (ByFront IsValue) (Payload.scan room : Scan kind.Value) :=
    (kind.reads room).refusesBy fun _ => id
  cases kind with
  | pool => exact VariantPool.refusesBy_scan room
  | json => exact .of_regular (.map (.tree room) _)
  | variant | text | int32 | truth | texts | optionalInt32 => exact hfront

end PayloadKind

/-- The value of an `apply` begins at the second text, right behind its colon. -/
def BehindApply (u v : List UInt8) : Prop :=
  ∃ before k w, Leaves.exact.string "apply" k ∧ Blanks w ∧ u = before ++ (k ++ (w ++ Octet.colon :: v))

theorem BehindApply.append {u v : List UInt8} (h : BehindApply u v) (s : List UInt8) : BehindApply (s ++ u) v := by
  obtain ⟨before, k, w, hk, hw, rfl⟩ := h
  exact ⟨s ++ before, k, w, hk, hw, (List.append_assoc s before _).symm⟩

/-- The same behind a key that was read. -/
def BehindKey (key : String) (u v : List UInt8) : Prop :=
  ∀ k, Leaves.exact.string key k → BehindApply (k ++ u) v

section

variable {α β σ : Type} {A F : List UInt8 → List UInt8 → Prop}

/-- Wherever the plan refuses a shape in a payload, what was left before the plan and at the start of the payload are
in one relation, and what was left at the start of the payload and where the shape was refused in another. -/
def BlamesBy (A F : List UInt8 → List UInt8 → Prop) (p : Scan α) : Prop :=
  ∀ supply fault raised begun c, Raises supply (.data fault) raised (some begun) p c →
    A c.rest begun.rest ∧ F begun.rest raised.rest

namespace BlamesBy

theorem of_regular {p : Scan α} (hp : Regular .outside p) : BlamesBy A F p :=
  fun _ _ _ _ _ hraises => absurd hraises hp.not_raises_inPayload

/-- Nothing is blamed after the first part. -/
theorem before {p : Scan β} {k : β → Scan α} (hp : BlamesBy A F p) (hk : ∀ b, BlamesBy (fun _ _ => False) F (k b)) :
    BlamesBy A F (p >>= k) := by
  intro supply fault raised begun c hraises
  rcases hraises.of_bind with hfirst | ⟨b, d, -, hmore⟩
  · exact hp _ _ _ _ _ hfirst
  · exact (hk b _ _ _ _ _ hmore).1.elim

theorem after {p : Scan β} {k : β → Scan α} (hp : Regular .outside p) (hk : ∀ b, BlamesBy BehindApply F (k b)) :
    BlamesBy BehindApply F (p >>= k) := by
  intro supply fault raised begun c hraises
  rcases hraises.of_bind with hfirst | ⟨b, d, hrun, hmore⟩
  · exact absurd hfirst hp.not_raises_inPayload
  · obtain ⟨hbehind, hlooked⟩ := hk b _ _ _ _ _ hmore
    obtain ⟨s, hrest, -⟩ := Cursor.Reaches.of_run hrun
    exact ⟨hrest ▸ hbehind.append s, hlooked⟩

theorem report {p : Scan α} (line : LogLine) (h : BlamesBy A F p) : BlamesBy A F (Scan.report line >>= fun _ => p) := by
  intro supply fault raised begun c hraises
  rcases hraises.of_bind with hfirst | ⟨u, d, hrun, hmore⟩
  · cases hfirst
  · cases hrun
    have hlater := h _ _ _ _ _ hmore
    exact hlater

/-- A payload behind the colon of an `apply`. -/
theorem apply {p : Scan β} {k : β → Scan α} (hp : RefusesBy F p) (hk : ∀ b, BlamesBy (fun _ _ => False) F (k b)) :
    BlamesBy (BehindKey "apply") F (Scan.colon >>= fun _ => Scan.payload p >>= k) := by
  have hpayload : BlamesBy Eq F (Scan.payload p) := by
    intro supply fault raised begun c hraises
    obtain ⟨hbegun, deeper, hinside⟩ := hraises.of_payload
    obtain rfl := Option.some.inj hbegun
    exact ⟨rfl, hp _ _ _ _ _ hinside⟩
  intro supply fault raised begun c hraises
  rcases hraises.of_bind with hfirst | ⟨v, d, hcolon, hmore⟩
  · exact absurd hfirst Regular.colon.not_raises_inPayload
  · obtain ⟨w, hw, hrest⟩ := ok_colon hcolon
    obtain ⟨heq, hlooked⟩ := hpayload.before hk _ _ _ _ _ hmore
    exact ⟨fun k hkey => ⟨[], k, w, hkey, hw, by rw [hrest, heq, List.nil_append]⟩, hlooked⟩

theorem colon {p : Scan α} {key : String} (h : BlamesBy BehindApply F p) :
    BlamesBy (BehindKey key) F (Scan.colon >>= fun _ => p) := by
  intro supply fault raised begun c hraises
  obtain ⟨hbehind, hlooked⟩ := after .colon (fun _ => h) _ _ _ _ _ hraises
  exact ⟨fun k _ => hbehind.append k, hlooked⟩

theorem enclosed {inside : Scan α} {close : Scan Unit} (h : BlamesBy BehindApply F inside)
    (hclose : Regular .outside close) : BlamesBy BehindApply F (do skip; Scan.enclosed inside close) := by
  refine .after .skip fun _ supply fault raised begun c hraises => ?_
  rcases hraises.of_enclosed with hinside | ⟨d, hclosing⟩
  · exact h _ _ _ _ _ hinside
  · exact absurd hclosing hclose.not_raises_inPayload

theorem loop {round : σ → Scan (σ ⊕ α)} (h : ∀ s, BlamesBy BehindApply F (round s)) (init : σ) :
    BlamesBy BehindApply F (Scan.loop init round) := by
  intro supply fault raised begun c hraises
  refine hraises.of_loop (P := fun _ c => BehindApply c.rest begun.rest ∧ F begun.rest raised.rest)
    (fun s _ hround => h s _ _ _ _ _ hround) ?_
  intro s c s' d hround hlater
  obtain ⟨t, hrest, -⟩ := Cursor.Reaches.of_run hround
  exact ⟨hrest ▸ hlater.1.append t, hlater.2⟩

theorem items {item : Scan α} (h : BlamesBy BehindApply F item) : BlamesBy BehindApply F (Scan.items item) := by
  refine .before (.loop (fun sofar => .after (.hasItem _) fun has => ?_) _) fun _ => .of_regular (.pure _)
  cases has with
  | true => exact .before h fun _ => .of_regular (.pure _)
  | false => exact .of_regular (.pure _)

theorem members {member : σ → String → Scan σ} (h : ∀ s key, BlamesBy (BehindKey key) F (member s key)) (init : σ) :
    BlamesBy BehindApply F (Scan.members init member) := by
  refine .loop (fun state supply fault raised begun c hraises => ?_) _
  rcases hraises.of_bind with hfirst | ⟨has, d, hhas, hmore⟩
  · exact absurd hfirst (Regular.hasMember _).not_raises_inPayload
  · cases has with
    | true =>
        rcases hmore.of_bind with hquoted | ⟨key, d', hkey, hmore⟩
        · exact absurd hquoted Regular.quoted.not_raises_inPayload
        · obtain ⟨hbehind, hlooked⟩ := (h _ key).before (fun _ => .of_regular (.pure _)) _ _ _ _ _ hmore
          obtain ⟨gap, k, hgap, hk, hrest⟩ := ok_hasMember_quoted hhas hkey
          exact ⟨hrest ▸ (hbehind k hk).append gap, hlooked⟩
    | false => exact absurd hmore (Regular.pure _).not_raises_inPayload

end BlamesBy

/-- Where an `apply` begins whose value is blamed in a part. -/
def Scan.Part.Blamed : Part → List UInt8 → List UInt8 → Prop
  | .value _ | .opened _ | .items _ | .members => BehindApply
  | .member key => BehindKey key
  | .done _ => fun _ _ => False

/-- Readers without lists of places blame what stands behind an `apply`, as far as that was looked at. -/
theorem Scan.Reads.blamesBy {m : Means} {limit : Nat} {P : α → Prop} {part : Part} {p q : Scan α} (hplaces : ¬m.places)
    (happlied : ∀ {β : Type} (p : Scan β), m.applied p → RefusesBy F p) (h : Reads m limit part P p q) :
    BlamesBy part.Blamed F p := by
  induction h with
  | pure => exact .of_regular (.pure _)
  | refused => exact .of_regular (.refuseData rfl rfl _)
  | report _ line _ ih => exact .report line ih
  | before _ _ ih ihk => exact .before ih ihk
  | mono _ _ ih => exact ih
  | tree _ room => exact .of_regular (.tree room)
  | skipValue => exact .of_regular .skipValue
  | string => exact .of_regular (.stringValue rfl)
  | bool => exact .of_regular (.bool rfl)
  | int => exact .of_regular (.int rfl _)
  | judged room hk => exact .of_regular (.bind (.tree room) fun j => hk j ▸ .judge rfl rfl _ _)
  | optional _ ih =>
      refine .after .peekPastBlanks fun b? => ?_
      split
      · exact .of_regular (.bind .nullWord fun _ => .pure _)
      · exact .before ih fun _ => .of_regular (.pure _)
  | start _ _ ih => exact .after .valueStart ih
  | mismatch b => exact .of_regular (.mismatch rfl _ b)
  | tooDeep => exact .of_regular .tooDeep
  | boolWord => exact .of_regular (.boolWord _)
  | quoted => exact .of_regular .quoted
  | inList _ _ ih => exact .enclosed ih .closeList
  | inObject _ _ ih => exact .enclosed ih .closeObject
  | items _ ih => exact .items ih
  | members _ _ _ ih ihk => exact .before (.members ih _) ihk
  | colon _ ih => exact .colon ih
  | apply hp _ ih => exact .apply (happlied _ hp) ih
  | inPlaces hfixed | place hfixed | firstPlace hfixed | lastPlace hfixed => exact absurd hfixed hplaces

end

namespace Multipart

theorem blamesBy_document {α : Type} [Payload α] {F : List UInt8 → List UInt8 → Prop}
    (hpayload : ∀ room, RefusesBy F (Payload.scan room : Scan α)) (limits : Limits) (room : Nat) :
    BlamesBy BehindApply F (document (scan limits room) : Scan (Multipart α)) := by
  have hscan : BlamesBy BehindApply F (scan limits room : Scan (Multipart α)) :=
    (reads (RefusesBy F) hpayload limits room).blamesBy id fun _ => id
  exact .before hscan fun _ => .of_regular (.bind .endOfDocument fun _ => .pure _)

/-- Reading the document comes to the cause at one cursor, in a payload that begins at another. -/
def RaisedInPayload (kind : PayloadKind) (limits : Limits) (octets : List UInt8) (cause : Cause)
    (begun raised : Cursor) : Prop :=
  Raises .document cause raised (some begun) (document (scan limits greatestNesting : Scan (Multipart kind.Value)))
    (.ofOctets octets)

section Documents

variable {kind : PayloadKind} {limits : Limits} {octets : List UInt8} {begun raised : Cursor}

/-- What is raised in a payload is what the document fails for. -/
theorem RaisedInPayload.exists_error {cause : Cause} (h : RaisedInPayload kind limits octets cause begun raised) :
    ∃ e, e.InDocument octets ∧ e.cause = cause ∧ e.inPayload = true ∧
      (parse limits .document octets : Except Fault (Multipart kind.Value)) = .error (.ofFailure e) := by
  obtain ⟨e, c, hrun, hcause, hmark⟩ := Raises.exists_error h
  exact ⟨e, inDocument_of_read kind hrun, hcause, hmark, parse_of_read hrun⟩

theorem parse_of_ending {e : Failure}
    (h : Failure.ending? (read limits .document octets : Outcome (Multipart kind.Value)).1 = some e) :
    (parse limits .document octets : Except Fault (Multipart kind.Value)) = .error (.ofFailure e) := by
  rw [parse, Failure.eq_error_of_ending? h]
  rfl

/-- A shape that is refused in a payload is blamed on it. -/
theorem RaisedInPayload.payload {fault : DataFault}
    (h : RaisedInPayload kind limits octets (.data fault) begun raised) :
    ∃ f : Failure, f.cause = .data fault ∧
      (parse limits .document octets : Except Fault (Multipart kind.Value)) = .error (.payload f) := by
  obtain ⟨e, he, hcause, hmark, hparse⟩ := h.exists_error
  refine ⟨e, hcause, hparse.trans ?_⟩
  rw [Fault.ofFailure, Failure.isData, hcause, hmark]
  rfl

/-- A text that is no JSON is not blamed on the payload in which that is met. -/
theorem RaisedInPayload.malformed {fault : GrammarFault}
    (h : RaisedInPayload kind limits octets (.grammar fault) begun raised) :
    ∃ p, (parse limits .document octets : Except Fault (Multipart kind.Value)) =
      .error (.malformed fault.message (some p)) := by
  obtain ⟨e, he, hcause, -, hparse⟩ := h.exists_error
  obtain ⟨p, -, hplace, -⟩ := he.placed
  refine ⟨p, hparse.trans ?_⟩
  rw [Fault.ofFailure_eq he.cause.ne_source, Failure.isData, hcause, Bool.and_false, hplace]
  rfl

theorem RaisedInPayload.looked {fault : DataFault}
    (h : RaisedInPayload kind limits octets (.data fault) begun raised) :
    BehindApply octets begun.rest ∧ kind.Looked begun.rest raised.rest :=
  blamesBy_document kind.refusesBy_scan limits greatestNesting _ _ _ _ _ h

/-- Where a payload is blamed a shape was refused in it. -/
theorem exists_raisedInPayload {f : Failure}
    (h : (parse limits .document octets : Except Fault (Multipart kind.Value)) = .error (.payload f)) :
    ∃ fault begun raised, f.cause = .data fault ∧ RaisedInPayload kind limits octets (.data fault) begun raised := by
  rcases hread : (read limits .document octets : Outcome (Multipart kind.Value)) with ⟨e | m, c⟩ <;>
    rw [parse_of_read hread] at h
  · have hdocument := inDocument_of_read kind hread
    have hfault : Fault.ofFailure e = .payload f := Except.error.inj h
    rw [Fault.ofFailure_eq hdocument.cause.ne_source] at hfault
    split at hfault
    · rename_i hboth
      obtain ⟨hmark, hdata⟩ := Bool.and_eq_true_iff.1 hboth
      obtain rfl := Fault.payload.inj hfault
      obtain ⟨fault, hcause⟩ := hdocument.exists_data hdata
      obtain ⟨raised, entered, hraises, hentered⟩ := exists_raises hread (hcause ▸ isRefusal_data fault)
      obtain ⟨begun, rfl⟩ := Option.isSome_iff_exists.1 (hentered.symm.trans hmark)
      exact ⟨fault, begun, raised, hcause, hcause ▸ hraises⟩
    · cases hfault
  · cases h

end Documents

/-- A payload is blamed exactly where reading a document comes to a shape that is refused behind the colon of an
`apply`. What stands there up to the refusal is then a front of a value, and all of a value for a pool; JSON is never
blamed. Where it comes to something that is no JSON, in a payload too, the document is malformed. -/
theorem parse_blames (kind : PayloadKind) (limits : Limits) (octets : List UInt8) :
    (∀ f : Failure, (parse limits .document octets : Except Fault (Multipart kind.Value)) = .error (.payload f) →
        ∃ fault begun raised, f.cause = .data fault ∧
          RaisedInPayload kind limits octets (.data fault) begun raised ∧
          BehindApply octets begun.rest ∧ kind.Looked begun.rest raised.rest) ∧
      (∀ fault begun raised, RaisedInPayload kind limits octets (.data fault) begun raised →
        ∃ f : Failure, f.cause = .data fault ∧
          (parse limits .document octets : Except Fault (Multipart kind.Value)) = .error (.payload f)) ∧
      ∀ fault begun raised, RaisedInPayload kind limits octets (.grammar fault) begun raised →
        ∃ p, (parse limits .document octets : Except Fault (Multipart kind.Value)) =
          .error (.malformed fault.message (some p)) := by
  refine ⟨fun f hf => ?_, fun fault begun raised h => h.payload, fun fault begun raised h => h.malformed⟩
  obtain ⟨fault, begun, raised, hcause, hraised⟩ := exists_raisedInPayload hf
  exact ⟨fault, begun, raised, hcause, hraised, hraised.looked⟩

/-- A variant with a number for its model, and behind it a member without its colon. -/
def brokenMember : List UInt8 := Text.Utf8.encode "[\x7b\"apply\":\x7b\"model\":5,\"x\" 90\x7d\x7d]".toList

def brokenMemberFailure : Failure := ⟨.data (.wrongType (.int 5) "a string"), some ⟨1, 20⟩, true⟩

/-- The number is refused before the missing colon is met. -/
theorem parse_blames_brokenMember :
    parse (α := PayloadKind.variant.Value) .standard .document brokenMember = .error (.payload brokenMemberFailure) ∧
      ∃ begun raised, RaisedInPayload .variant .standard brokenMember brokenMemberFailure.cause begun raised ∧
        BehindApply brokenMember begun.rest ∧ ByFront IsValue begun.rest raised.rest := by
  have hparse : parse (α := PayloadKind.variant.Value) .standard .document brokenMember =
      .error (.payload brokenMemberFailure) := parse_of_ending (e := brokenMemberFailure) (by decide +kernel)
  obtain ⟨fault, begun, raised, hcause, hraised, hbehind, hlooked⟩ :=
    (parse_blames .variant .standard brokenMember).1 _ hparse
  exact ⟨hparse, begun, raised, hcause ▸ hraised, hbehind, hlooked⟩

/-- A list in place of a number, and it does not end. -/
def openListText : List UInt8 := Text.Utf8.encode "[\x7b\"apply\":[1,".toList

def openListFailure : Failure := ⟨.data (.wrongType .list "i32"), some ⟨1, 10⟩, true⟩

/-- The number is blamed though no value stands behind the colon. -/
theorem parse_openListText :
    parse (α := PayloadKind.int32.Value) .standard .document openListText = .error (.payload openListFailure) ∧
      ∃ begun raised, RaisedInPayload .int32 .standard openListText openListFailure.cause begun raised ∧
        BehindApply openListText begun.rest ∧ ∀ t, ¬ByValue begun.rest t := by
  have hparse : parse (α := PayloadKind.int32.Value) .standard .document openListText =
      .error (.payload openListFailure) := parse_of_ending (e := openListFailure) (by decide +kernel)
  obtain ⟨fault, begun, raised, hcause, hraised⟩ := exists_raisedInPayload hparse
  obtain ⟨hbehind, -⟩ := hraised.looked
  refine ⟨hparse, begun, raised, hcause ▸ hraised, hbehind, fun t hvalue => ?_⟩
  -- There is only one colon, so the value can only begin behind that.
  obtain ⟨before, k, w, -, -, heq⟩ := hbehind
  have hsplit : openListText = Text.Utf8.encode "[\x7b\"apply\"".toList ++ Octet.colon ::
      Octet.openList :: Text.Utf8.encode "1,".toList := by decide
  have hcolon : openListText = (before ++ (k ++ w)) ++ Octet.colon :: begun.rest := by
    simp only [heq, List.append_assoc]
  rw [hsplit, List.append_cons_inj_of_notMem (by decide) (by decide)] at hcolon
  rw [← hcolon.2.2] at hvalue
  exact absurd hvalue.closeList_mem (by decide)

end Multipart

end BlockModel
