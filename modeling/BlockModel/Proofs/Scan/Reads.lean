import BlockModel.Proofs.Fault
import BlockModel.Scan.Skip
import BlockModel.Scan.Typed

/-! How the readers of the library are put together. A document is read part by part, and `Reads` has one rule for each
way in which the reader of a part is made of the readers of its parts. It relates two readers that differ only in the
limit on condition objects: they are built alike, and the first may give up where the second goes on. What is to be
known of every reader is proved of `Reads` by one induction, and each reader is gone through once, for all of it. -/

namespace BlockModel

/-- The octet with which a value begins that is named, but not entered. -/
def Found.opener? : Found → Option UInt8
  | .list => some Octet.openList
  | .object => some Octet.openObject
  | _ => none

/-- The fault lies with a value that was read to its end and has no parts. -/
def DataFault.isOfLeaf : DataFault → Bool
  | .wrongType found _ => found.opener?.isNone
  | .wrongValue _ _ => true
  | _ => false

namespace Scan

/-- The parts of a document that have readers of their own. -/
inductive Part where
  /-- A value; it may be allowed to leave a failure unplaced. -/
  | value (unplaced : Bool)
  /-- A value whose first octet was looked at. -/
  | opened (b : UInt8)
  /-- The inside of a list, from its start on or after an item. -/
  | items (first : Bool)
  /-- The inside of an object. -/
  | members
  /-- What stands behind a key. -/
  | member (key : String)
  /-- Nothing more: a result is made of what was read, or that may be refused. -/
  | done (refused : Bool)

namespace Part

/-- Whether it may be left to the list or object around the part to place a failure. -/
def unplaced : Part → Bool
  | value unplaced => unplaced
  | opened _ => false
  | items _ | members | member _ => true
  | done refused => refused

/-- Whether only the text can be to blame where it ends in front of the part. -/
def spared : Part → Bool
  | value _ | items _ | members => true
  | opened _ | member _ => false
  | done refused => !refused

/-- Whether a line may be reported in front of the part. -/
def reported : Part → Bool
  | member _ | done _ => true
  | value _ | opened _ | items _ | members => false

end Part

/-- What some readers make use of and others do not. -/
structure Means where
  /-- A shape is refused before anything of it was read. -/
  early : Prop
  /-- A list has a fixed number of places. -/
  places : Prop
  /-- What is read in an `apply`. -/
  applied : {α : Type} → Scan α → Prop

namespace Means

/-- Those of payloads: some are lists with places, and nothing is applied in them. -/
def ofPayload : Means := ⟨False, True, fun _ => False⟩

/-- Those of cases: a condition past the limit is refused early, and no list has places. -/
def ofCases (applied : {α : Type} → Scan α → Prop) : Means := ⟨True, False, applied⟩

/-- Those of definitions: they hold cases, and may be lists with places themselves. -/
def ofDefinition (applied : {α : Type} → Scan α → Prop) : Means := ⟨True, True, applied⟩

end Means

/-- Two readers of a part are put together alike, and what the first one reads has the property. The first may refuse a
condition past the limit where the second does not. -/
inductive Reads (m : Means) (limit : Nat) : Part → {α : Type} → (α → Prop) → Scan α → Scan α → Prop where
  | pure {α : Type} {P : α → Prop} {a : α} (refused : Bool) (h : P a) :
      Reads m limit (.done refused) P (pure a) (pure a)
  | refused {α : Type} {P : α → Prop} {part : Part} {fault : DataFault} {q : Scan α} (hpart : part.unplaced = true)
      (hearly : part.spared = true → m.early) (hplain : fault.isPlain = true) (hleaf : fault.isOfLeaf = false)
      (hlimit : q = refuseData .enclosing fault ∨ fault = .conditionTooDeep limit) :
      Reads m limit part P (refuseData .enclosing fault) q
  | report {α : Type} {P : α → Prop} {part : Part} {p q : Scan α} (hpart : part.reported = true) (line : LogLine)
      (h : Reads m limit part P p q) :
      Reads m limit part P (Scan.report line >>= fun _ => p) (Scan.report line >>= fun _ => q)
  | before {α β : Type} {P : α → Prop} {Q : β → Prop} {part : Part} {p q : Scan β} {k l : β → Scan α}
      (h : Reads m limit part Q p q) (hk : ∀ b, Reads m limit (.done false) (fun a => Q b → P a) (k b) (l b)) :
      Reads m limit part P (p >>= k) (q >>= l)
  | mono {α : Type} {P P' : α → Prop} {part : Part} {p q : Scan α} (h : Reads m limit part P p q)
      (hP : ∀ a, P a → P' a) : Reads m limit part P' p q
  -- values
  | tree (unplaced : Bool) (room : Nat) :
      Reads m limit (.value unplaced) (fun _ => True) (Scan.tree room) (Scan.tree room)
  | skipValue (unplaced : Bool) : Reads m limit (.value unplaced) (fun _ => True) Scan.skipValue Scan.skipValue
  | string (unplaced : Bool) : Reads m limit (.value unplaced) (fun _ => True) Scan.string Scan.string
  | bool (unplaced : Bool) : Reads m limit (.value unplaced) (fun _ => True) Scan.bool Scan.bool
  | int (unplaced : Bool) {range : IntRange} (hplain : Failure.endsPlain range.name.toList = true)
      (hzero : range.holds 0 = true) :
      Reads m limit (.value unplaced) (fun _ => True) (Scan.int range) (Scan.int range)
  | optional {α : Type} {P : α → Prop} {unplaced : Bool} {p q : Scan α} (h : Reads m limit (.value unplaced) P p q) :
      Reads m limit (.value unplaced) (fun a? => ∀ a ∈ a?, P a) (Scan.optional p) (Scan.optional q)
  | judged {α : Type} {k : Json → Scan α} {judge : Json → Option α} {fault : DataFault} (room : Nat)
      (hk : ∀ j, k j = (judge j).elim (refuseData .enclosing fault) Pure.pure)
      (hnumber : ∀ n, judge (.number n) = none) (hplain : fault.isPlain = true) (hleaf : fault.isOfLeaf = false) :
      Reads m limit (.value true) (fun _ => True) (Scan.tree room >>= k) (Scan.tree room >>= k)
  | start {α : Type} {P : α → Prop} {k l : UInt8 → Scan α} (unplaced : Bool)
      (hk : ∀ b, Reads m limit (.opened b) P (k b) (l b)) :
      Reads m limit (.value unplaced) P (valueStart >>= k) (valueStart >>= l)
  -- values whose first octet was looked at
  | mismatch {α : Type} {P : α → Prop} {expected : String} (b : UInt8)
      (hplain : Failure.endsPlain expected.toList = true) :
      Reads m limit (.opened b) P (Scan.mismatch expected b : Scan α) (Scan.mismatch expected b)
  | tooDeep {α : Type} {P : α → Prop} (b : UInt8) : Reads m limit (.opened b) P (Scan.tooDeep : Scan α) Scan.tooDeep
  | boolWord {b : UInt8} {x : Bool} (hkind : kind? b = some (.bool x)) :
      Reads m limit (.opened b) (fun _ => True) (Scan.boolWord x) (Scan.boolWord x)
  | quoted {b : UInt8} (hkind : kind? b = some .string) :
      Reads m limit (.opened b) (fun _ => True) Scan.quoted Scan.quoted
  | inList {α : Type} {P : α → Prop} {b : UInt8} {p q : Scan α} (hkind : kind? b = some .list)
      (h : Reads m limit (.items true) P p q) : Reads m limit (.opened b) P (Scan.inList p) (Scan.inList q)
  | inPlaces {α : Type} {P : α → Prop} {b : UInt8} {p q : Scan α} (hplaces : m.places) (hkind : kind? b = some .list)
      (h : Reads m limit (.items true) P p q) : Reads m limit (.opened b) P (Scan.inPlaces p) (Scan.inPlaces q)
  | inObject {α : Type} {P : α → Prop} {b : UInt8} {p q : Scan α} (hkind : kind? b = some .object)
      (h : Reads m limit .members P p q) : Reads m limit (.opened b) P (Scan.inObject p) (Scan.inObject q)
  -- the insides of lists and objects
  | items {α : Type} {P : α → Prop} {p q : Scan α} (h : Reads m limit (.value true) P p q) :
      Reads m limit (.items true) (fun as => ∀ a ∈ as, P a) (Scan.items p) (Scan.items q)
  | place {α β : Type} {P : α → Prop} {Q : β → Prop} {first : Bool} {p q : Scan β} {k l : Option β → Scan α}
      (hplaces : m.places) (h : Reads m limit (.value true) Q p q)
      (hk : ∀ b?, Reads m limit (.items false) (fun a => (∀ b ∈ b?, Q b) → P a) (k b?) (l b?)) :
      Reads m limit (.items first) P (place? first p >>= k) (place? first q >>= l)
  | firstPlace {α : Type} {P : α → Prop} {k : Option String → Scan α} {fault : DataFault} (hplaces : m.places)
      (hnone : k none = refuseData .enclosing fault) (hplain : fault.isPlain = true) (hleaf : fault.isOfLeaf = false)
      (hsome : ∀ s, Reads m limit (.items false) P (k (some s)) (k (some s))) :
      Reads m limit (.items true) P (place? true Scan.string >>= k) (place? true Scan.string >>= k)
  | lastPlace {α : Type} {P : α → Prop} {a : α} (hplaces : m.places) (h : P a) :
      Reads m limit (.items false) P (Pure.pure a) (Pure.pure a)
  | members {σ α : Type} {I : σ → Prop} {P : α → Prop} {init : σ} {member member' : σ → String → Scan σ}
      {k l : σ → Scan α} (hinit : I init)
      (hmember : ∀ s key, Reads m limit (.member key) (fun s' => I s → I s') (member s key) (member' s key))
      (hk : ∀ s, Reads m limit (.done true) (fun a => I s → P a) (k s) (l s)) :
      Reads m limit .members P (Scan.members init member >>= k) (Scan.members init member' >>= l)
  -- behind a key
  | colon {α : Type} {P : α → Prop} {key : String} {p q : Scan α} (h : Reads m limit (.value true) P p q) :
      Reads m limit (.member key) P (Scan.colon >>= fun _ => p) (Scan.colon >>= fun _ => q)
  | apply {α β : Type} {P : α → Prop} {p : Scan β} {k l : β → Scan α} (hp : m.applied p)
      (hk : ∀ b, Reads m limit (.done false) P (k b) (l b)) :
      Reads m limit (.member "apply") P (Scan.colon >>= fun _ => Scan.payload p >>= k)
        (Scan.colon >>= fun _ => Scan.payload p >>= l)

namespace Reads

variable {m : Means} {limit : Nat} {α β : Type} {P : α → Prop} {Q : β → Prop} {part : Part} {b : UInt8}
  {unplaced : Bool}

theorem map {p q : Scan β} (h : Reads m limit part Q p q) {g : β → α} (hg : ∀ b, Q b → P (g b)) :
    Reads m limit part P (g <$> p) (g <$> q) :=
  .before h fun b => .pure false (hg b)

theorem ite {condition : Prop} [Decidable condition] {p q p' q' : Scan α} (hp : Reads m limit part P p p')
    (hq : Reads m limit part P q q') :
    Reads m limit part P (if condition then p else q) (if condition then p' else q') := by
  split
  · exact hp
  · exact hq

theorem int32 : Reads m limit (.value unplaced) (fun _ => True) Scan.int32 Scan.int32 :=
  .map (.int unplaced (by decide) (by decide)) fun _ _ => trivial

theorem uint32 : Reads m limit (.value unplaced) (fun _ => True) Scan.uint32 Scan.uint32 :=
  .map (.int unplaced (by decide) (by decide)) fun _ _ => trivial

theorem refuse {fault : DataFault} (hpart : part.unplaced = true) (hearly : part.spared = true → m.early)
    (hplain : fault.isPlain = true) (hleaf : fault.isOfLeaf = false) :
    Reads m limit part P (refuseData .enclosing fault) (refuseData .enclosing fault) :=
  .refused hpart hearly hplain hleaf (.inl rfl)

theorem pastLimit (hearly : m.early) (q : Scan α) :
    Reads m limit .members P (refuseData .enclosing (.conditionTooDeep limit)) q :=
  .refused rfl (fun _ => hearly) rfl rfl (.inr rfl)

section Expected

variable {expected : String} (hexpected : Failure.endsPlain expected.toList = true)
include hexpected

theorem ofKind {kind : Kind} {p q : Scan α} (h : ∀ b, kind? b = some kind → Reads m limit (.opened b) P p q) :
    Reads m limit (.value unplaced) P
      (valueStart >>= fun b => if kind? b = some kind then p else Scan.mismatch expected b)
      (valueStart >>= fun b => if kind? b = some kind then q else Scan.mismatch expected b) := by
  refine .start _ fun b => ?_
  by_cases hkind : kind? b = some kind
  · rw [if_pos hkind, if_pos hkind]
    exact h b hkind
  · rw [if_neg hkind, if_neg hkind]
    exact .mismatch b hexpected

theorem expectList {p q : Scan α} (h : ∀ b, kind? b = some .list → Reads m limit (.opened b) P p q) :
    Reads m limit (.value unplaced) P (Scan.expectList expected p) (Scan.expectList expected q) := ofKind hexpected h

theorem expectObject {p q : Scan α} (h : ∀ b, kind? b = some .object → Reads m limit (.opened b) P p q) :
    Reads m limit (.value unplaced) P (Scan.expectObject expected p) (Scan.expectObject expected q) :=
  ofKind hexpected h

theorem expectRecord {p q p' q' : Scan α} (hlist : ∀ b, kind? b = some .list → Reads m limit (.opened b) P p q)
    (hobject : ∀ b, kind? b = some .object → Reads m limit (.opened b) P p' q') :
    Reads m limit (.value unplaced) P (Scan.expectRecord expected p p') (Scan.expectRecord expected q q') := by
  refine .start _ fun b => ?_
  cases hkind : kind? b with
  | none => exact .mismatch b hexpected
  | some kind =>
      cases kind with
      | list => exact hlist b hkind
      | object => exact hobject b hkind
      | null | bool | number | string => exact .mismatch b hexpected

end Expected

end Reads

end Scan

end BlockModel
