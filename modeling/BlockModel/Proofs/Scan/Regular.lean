import BlockModel.Proofs.Scan.Advances

/-! What the readers of the library are made of. Not every plan is: none of them fails for a cause that only a
source or a caller can have, a loop of theirs never goes round without taking something, and only some of them
leave a failure without a place, blame the shape of the JSON or mark a failure as one of a payload. `Regular`
says which of this a plan may do, with one rule for each way to build a plan, and what holds of regular plans
is proved by induction on it. -/

namespace BlockModel.Scan

/-- What a plan is free to do. -/
structure Freedom where
  /-- To place a failure some columns back. -/
  backward : Bool
  /-- To leave it to the list or object around to place a failure. -/
  unplaced : Bool
  /-- To fail because the JSON has not the right shape. -/
  shapes : Bool
  /-- To mark failures as those of a payload. -/
  payloads : Bool

namespace Freedom

def allows (f : Freedom) : Place → Bool
  | .here => true
  | .ahead => true
  | .before _ => f.backward
  | .enclosing => f.unplaced

/-- Inside of a list or object a failure may be left to it. -/
def inside (f : Freedom) : Freedom := { f with unplaced := true }

end Freedom

/-- The plans that the library is made of. A string may be taken as a whole, so that a plan that never places a
failure some columns back in another way can be told. -/
inductive Regular : Freedom → {α : Type} → Scan α → Prop where
  | done {f : Freedom} {α : Type} (a : α) : Regular f (done a)
  | andThen {f : Freedom} {α β : Type} {first : Scan β} {more : β → Scan α} (hfirst : Regular f first)
      (hmore : ∀ b, Regular f (more b)) : Regular f (andThen first more)
  | peek {f : Freedom} : Regular f peek
  | next {f : Freedom} : Regular f next
  | takeWhile {f : Freedom} (test : UInt8 → Bool) : Regular f (takeWhile test)
  | grammar {f : Freedom} {α : Type} {place : Place} (hplace : f.allows place = true) (fault : GrammarFault) :
      Regular f (fail place (.grammar fault) : Scan α)
  | data {f : Freedom} {α : Type} {place : Place} (hplace : f.allows place = true) (hshapes : f.shapes = true)
      (fault : DataFault) : Regular f (fail place (.data fault) : Scan α)
  | report {f : Freedom} (line : LogLine) : Regular f (report line)
  | enclosed {f : Freedom} {α : Type} {inside : Scan α} {close : Scan Unit} (hinside : Regular f.inside inside)
      (hclose : Regular f close) : Regular f (enclosed inside close)
  | payload {f : Freedom} {α : Type} {inside : Scan α} (hpayloads : f.payloads = true)
      (hinside : Regular f inside) : Regular f (payload inside)
  | loop {f : Freedom} {σ α : Type} {init : σ} {round : σ → Scan (σ ⊕ α)} (hround : ∀ s, Regular f (round s))
      (hadvances : ∀ s, Advances goesOn none (round s)) : Regular f (loop init round)
  | string {f : Freedom} (hbackward : f.backward = false) (hloop : Regular f (Scan.loop [] stringRound)) :
      Regular f quoted

variable {f : Freedom} {α β σ : Type}

namespace Regular

theorem pure (a : α) : Regular f (Pure.pure a) := .done a

theorem bind {p : Scan β} {k : β → Scan α} (hp : Regular f p) (hk : ∀ b, Regular f (k b)) :
    Regular f (p >>= k) := .andThen hp hk

theorem map {p : Scan β} (hp : Regular f p) (g : β → α) : Regular f (g <$> p) := .bind hp fun b => .pure (g b)

theorem ite {condition : Prop} [Decidable condition] {p q : Scan α} (hp : Regular f p) (hq : Regular f q) :
    Regular f (if condition then p else q) := by
  split
  · exact hp
  · exact hq

theorem refuse {place : Place} (hplace : f.allows place = true) (fault : GrammarFault) :
    Regular f (Scan.refuse place fault : Scan α) := .grammar hplace fault

theorem refuseData {place : Place} (hplace : f.allows place = true) (hshapes : f.shapes = true)
    (fault : DataFault) : Regular f (Scan.refuseData place fault : Scan α) := .data hplace hshapes fault

/-- A plan that looks for an octet, of which there may be none. -/
theorem option {p : Scan (Option β)} {k : Option β → Scan α} (hp : Regular f p) (hnone : Regular f (k none))
    (hsome : ∀ b, Regular f (k (some b))) : Regular f (p >>= k) := by
  refine .bind hp fun b? => ?_
  cases b? with
  | none => exact hnone
  | some b => exact hsome b

theorem blanks : Regular f Scan.blanks := .bind (.takeWhile _) fun _ => .pure ()

theorem peekPastBlanks : Regular f Scan.peekPastBlanks := .bind .blanks fun _ => .peek

theorem skip : Regular f Scan.skip := .bind .next fun _ => .pure ()

theorem word (letters : List UInt8) : Regular f (Scan.word letters) := by
  induction letters with
  | nil => exact .pure ()
  | cons letter rest ih => exact .option .next (.refuse rfl _) fun _ => .ite ih (.refuse rfl _)

theorem nullWord : Regular f Scan.nullWord := .bind .skip fun _ => .word _

theorem boolWord (b : Bool) : Regular f (Scan.boolWord b) := .bind .skip fun _ => .word _

theorem valueStart : Regular f Scan.valueStart := .option .peekPastBlanks (.refuse rfl _) .pure

theorem inString : Regular f Scan.inString := .option .next (.refuse rfl _) .pure

theorem fourHex : Regular f Scan.fourHex := by
  refine .bind .inString fun a => .bind .inString fun b => .bind .inString fun c => .bind .inString fun d => ?_
  split
  · exact .pure _
  · exact .refuse rfl _

theorem surrogateMark (expected : UInt8) : Regular f (Scan.surrogateMark expected) :=
  .bind .inString fun _ => .ite (.pure ()) (.refuse rfl _)

theorem codePoint : Regular f Scan.codePoint := by
  refine .bind .fourHex fun n => .ite (.refuse rfl _) (.ite ?_ (.pure n))
  refine .bind (.surrogateMark _) fun _ => .bind (.surrogateMark _) fun _ => .bind .fourHex fun m => ?_
  exact .ite (.pure _) (.refuse rfl _)

theorem escape : Regular f Scan.escape := by
  refine .bind .inString fun b => .ite (.bind .codePoint fun n => .pure _) ?_
  split
  · exact .pure _
  · exact .refuse rfl _

theorem stringRound (sofar : List UInt8) : Regular f (Scan.stringRound sofar) :=
  .bind (.takeWhile _) fun _ => .bind .inString fun _ =>
    .ite (.pure _) (.ite (.bind .escape fun _ => .pure _) (.refuse rfl _))

theorem stringLoop (sofar : List UInt8) : Regular f (Scan.loop sofar Scan.stringRound) :=
  .loop .stringRound .stringRound

theorem textOf (hbackward : f.backward = true) (octets : List UInt8) : Regular f (Scan.textOf octets) := by
  unfold Scan.textOf
  obtain ⟨chars, left⟩ := Text.Utf8.decode octets
  cases left with
  | nil => exact .pure _
  | cons b left =>
      have hplace : f.allows (.before (b :: left).length) = true := hbackward
      exact .refuse hplace _

/-- A string is taken as a whole, or octet by octet. -/
theorem quoted : Regular f Scan.quoted := by
  cases hbackward : f.backward with
  | false => exact .string hbackward (.stringLoop [])
  | true => exact .bind .skip fun _ => .bind (.stringLoop []) (.textOf hbackward)

theorem digits : Regular f Scan.digits := .takeWhile _

theorem scaled (negative : Bool) (significand : Nat) (exponent : Int) :
    Regular f (Scan.scaled negative significand exponent) := by
  unfold Scan.scaled
  split
  · exact .pure _
  · exact .refuse rfl _

theorem whole (negative : Bool) (n : Nat) : Regular f (Scan.whole negative n) :=
  .ite (.ite (.scaled _ _ _) (.pure _)) (.pure _)

theorem exponentRound (sofar : Nat) : Regular f (Scan.exponentRound sofar) :=
  .option .peek (.pure _) fun _ => .ite (.bind .skip fun _ => .ite (.pure _) (.pure _)) (.pure _)

theorem exponentSign : Regular f Scan.exponentSign :=
  .option .peek (.pure _) fun _ =>
    .ite (.bind .skip fun _ => .pure _) (.ite (.bind .skip fun _ => .pure _) (.pure _))

theorem exponentRest (negative : Bool) (significand : Nat) (exponent : Int) :
    Regular f (Scan.exponentRest negative significand exponent) := by
  refine .bind .exponentSign fun down => .option .next (.refuse rfl _) fun b => .ite ?_ (.refuse rfl _)
  refine .option (.loop .exponentRound .exponentRound) ?_ fun n => .scaled _ _ _
  exact .ite (.refuse rfl _) (.bind .digits fun _ => .pure _)

theorem exponentOrEnd (negative : Bool) (significand : Nat) (exponent : Int) :
    Regular f (Scan.exponentOrEnd negative significand exponent) :=
  .option .peek (.scaled _ _ _) fun _ => .ite (.bind .skip fun _ => .exponentRest _ _ _) (.scaled _ _ _)

theorem fractionRest (negative : Bool) (significand : Nat) (exponent : Int) :
    Regular f (Scan.fractionRest negative significand exponent) := by
  refine .bind .digits fun fraction => ?_
  cases fraction with
  | nil => exact .option .peek (.refuse rfl _) fun _ => .refuse rfl _
  | cons d more => exact .exponentOrEnd _ _ _

theorem afterWhole (negative : Bool) (ds : List UInt8) : Regular f (Scan.afterWhole negative ds) := by
  have hend : Regular f (if (gather 0 ds).2.isEmpty then Scan.whole negative (gather 0 ds).1
      else Scan.scaled negative (gather 0 ds).1 (gather 0 ds).2.length) := .ite (.whole _ _) (.scaled _ _ _)
  exact .option .peek hend fun _ => .ite (.bind .skip fun _ => .fractionRest _ _ _)
    (.ite (.bind .skip fun _ => .exponentRest _ _ _) hend)

theorem unsigned (negative : Bool) : Regular f (Scan.unsigned negative) := by
  refine .option .next (.refuse rfl _) fun first => .ite ?_ (.ite ?_ (.refuse rfl _))
  · exact .option .peek (.afterWhole _ _) fun _ => .ite (.refuse rfl _) (.afterWhole _ _)
  · exact .bind .digits fun _ => .afterWhole _ _

theorem number (first : UInt8) : Regular f (Scan.number first) :=
  .ite (.bind .skip fun _ => .unsigned _) (.unsigned _)

theorem tooDeep : Regular f (Scan.tooDeep : Scan α) := .refuse rfl _

theorem hasItem (first : Bool) : Regular f (Scan.hasItem first) := by
  refine .option .peekPastBlanks (.refuse rfl _) fun b =>
    .ite (.pure _) (.ite (.pure _) (.ite (.bind .skip fun _ => ?_) (.refuse rfl _)))
  exact .option .peekPastBlanks (.refuse rfl _) fun b => .ite (.refuse rfl _) (.pure _)

theorem closeList : Regular f Scan.closeList := by
  refine .option .peekPastBlanks (.refuse rfl _) fun b =>
    .ite .skip (.ite (.bind .skip fun _ => ?_) (.refuse rfl _))
  exact .option .peekPastBlanks (.refuse rfl _) fun b => .ite (.refuse rfl _) (.refuse rfl _)

theorem items {item : Scan α} (hitem : Regular f item) (hadvances : Advances always none item) :
    Regular f (Scan.items item) := by
  refine .bind (.loop (fun sofar => .bind (.hasItem _) fun more => ?_) (.itemRound hadvances)) fun _ => .pure _
  exact .ite (.bind hitem fun _ => .pure _) (.pure _)

theorem inList {inside : Scan α} (hinside : Regular f.inside inside) : Regular f (Scan.inList inside) :=
  .bind .skip fun _ => .enclosed hinside .closeList

theorem hasMember (first : Bool) : Regular f (Scan.hasMember first) := by
  refine .option .peekPastBlanks (.refuse rfl _) fun b =>
    .ite (.pure _) (.ite (.ite (.pure _) (.refuse rfl _)) (.ite (.bind .skip fun _ => ?_) (.refuse rfl _)))
  exact .option .peekPastBlanks (.refuse rfl _) fun b => .ite (.pure _) (.ite (.refuse rfl _) (.refuse rfl _))

theorem closeObject : Regular f Scan.closeObject :=
  .option .peekPastBlanks (.refuse rfl _) fun _ => .ite .skip (.ite (.refuse rfl _) (.refuse rfl _))

theorem colon : Regular f Scan.colon :=
  .option .peekPastBlanks (.refuse rfl _) fun _ => .ite .skip (.refuse rfl _)

theorem members {member : σ → String → Scan σ} (hmember : ∀ s key, Regular f (member s key)) (init : σ) :
    Regular f (Scan.members init member) := by
  refine .loop (fun state => .bind (.hasMember _) fun more => ?_) (.memberRound member)
  exact .ite (.bind .quoted fun key => .bind (hmember _ key) fun _ => .pure _) (.pure _)

theorem inObject {inside : Scan α} (hinside : Regular f.inside inside) : Regular f (Scan.inObject inside) :=
  .bind .skip fun _ => .enclosed hinside .closeObject

theorem treeWith {onList onObject : Scan Json} (hlist : Regular f onList) (hobject : Regular f onObject) :
    Regular f (Scan.treeWith onList onObject) := by
  refine .bind .valueStart fun b => ?_
  cases kind? b with
  | none => exact .refuse rfl _
  | some kind =>
      cases kind with
      | null => exact .bind .nullWord fun _ => .pure _
      | bool v => exact .bind (.boolWord v) fun _ => .pure _
      | number => exact .map (.number b) _
      | string => exact .map .quoted _
      | list => exact hlist
      | object => exact hobject

theorem tree (room : Nat) : Regular f (Scan.tree room) := by
  induction room generalizing f with
  | zero => exact .treeWith .tooDeep .tooDeep
  | succ room ih =>
      refine .treeWith (.map (.inList (.items ih (.tree room))) _) (.map (.inObject (.bind ?_ fun _ => .pure _)) _)
      exact .members (fun sofar key => .bind .colon fun _ => .bind ih fun _ => .pure _) []

theorem endOfDocument : Regular f Scan.endOfDocument :=
  .option .peekPastBlanks (.pure ()) fun _ => .refuse rfl _

theorem document {value : Scan α} (hvalue : Regular f value) : Regular f (Scan.document value) :=
  .bind hvalue fun _ => .bind .endOfDocument fun _ => .pure _

theorem otherKind (b : UInt8) : Regular f (Scan.otherKind b) := by
  unfold Scan.otherKind
  cases kind? b with
  | none => exact .refuse rfl _
  | some kind =>
      cases kind with
      | null => exact .bind .nullWord fun _ => .pure _
      | bool v => exact .bind (.boolWord v) fun _ => .pure _
      | number => exact .map (.number b) _
      | string => exact .map .quoted _
      | list | object => exact .pure _

theorem mismatch (hshapes : f.shapes = true) (expected : String) (b : UInt8) :
    Regular f (Scan.mismatch expected b : Scan α) :=
  .bind (.otherKind b) fun _ => .refuseData rfl hshapes _

theorem skipStringRound (u : Unit) : Regular f (Scan.skipStringRound u) := by
  refine .bind (.takeWhile _) fun _ => .option .peek (.refuse rfl _) fun b =>
    .ite (.bind .skip fun _ => .pure _) (.ite (.bind .skip fun _ => .bind .inString fun b => ?_) (.refuse rfl _))
  exact .ite (.bind .fourHex fun _ => .pure _) (.ite (.pure _) (.refuse rfl _))

theorem skipQuoted : Regular f Scan.skipQuoted :=
  .bind .skip fun _ => .loop .skipStringRound .skipStringRound

theorem skipExponentRest : Regular f Scan.skipExponentRest :=
  .bind .exponentSign fun _ => .option .next (.refuse rfl _) fun _ => .ite (.map .digits _) (.refuse rfl _)

theorem skipExponentOrEnd : Regular f Scan.skipExponentOrEnd :=
  .option .peek (.pure ()) fun _ => .ite (.bind .skip fun _ => .skipExponentRest) (.pure ())

theorem skipAfterWhole : Regular f Scan.skipAfterWhole := by
  refine .option .peek (.pure ()) fun b => .ite (.bind .skip fun _ => .bind .digits fun ds => ?_) ?_
  · exact .ite (.refuse rfl _) .skipExponentOrEnd
  · exact .ite (.bind .skip fun _ => .skipExponentRest) (.pure ())

theorem skipUnsigned : Regular f Scan.skipUnsigned := by
  refine .option .next (.refuse rfl _) fun first => .ite ?_ (.ite ?_ (.refuse rfl _))
  · exact .option .peek .skipAfterWhole fun _ => .ite (.refuse rfl _) .skipAfterWhole
  · exact .bind .digits fun _ => .skipAfterWhole

theorem skipNumber (first : UInt8) : Regular f (Scan.skipNumber first) :=
  .ite (.bind .skip fun _ => .skipUnsigned) .skipUnsigned

theorem skipHead (opened : List Enclosure) : Regular f (Scan.skipHead opened) := by
  refine .bind .valueStart fun b => ?_
  cases kind? b with
  | none => exact .refuse rfl _
  | some kind =>
      cases kind with
      | null => exact .bind .nullWord fun _ => .pure _
      | bool v => exact .bind (.boolWord v) fun _ => .pure _
      | number => exact .bind (.skipNumber b) fun _ => .pure _
      | string => exact .bind .skipQuoted fun _ => .pure _
      | list | object => exact .bind .skip fun _ => .pure _

theorem skipKey : Regular f Scan.skipKey :=
  .option .peekPastBlanks (.refuse rfl _) fun _ => .ite (.bind .skipQuoted fun _ => .colon) (.refuse rfl _)

theorem skipRound (state : SkipState) : Regular f (Scan.skipRound state) := by
  cases state with
  | before opened => exact .bind (.skipHead opened) fun _ => .pure _
  | within innermost others =>
      refine .option .peekPastBlanks (.refuse rfl _) fun b => .ite (.bind .skip fun _ => .pure _) ?_
      cases innermost with
      | list => exact .bind (.skipHead _) fun _ => .pure _
      | object => exact .bind .skipKey fun _ => .pure _
  | after opened =>
      cases opened with
      | nil => exact .pure _
      | cons innermost others =>
          refine .option .peekPastBlanks (.refuse rfl _) fun b =>
            .ite (.bind .skip fun _ => .pure _) (.ite (.bind .skip fun _ => ?_) (.refuse rfl _))
          cases innermost with
          | list => exact .pure _
          | object => exact .bind .skipKey fun _ => .pure _

theorem skipValue : Regular f Scan.skipValue := .loop .skipRound .skipRound

end Regular

section Values

variable (hshapes : f.shapes = true)
include hshapes

theorem Regular.stringValue : Regular f Scan.string := .bind .valueStart fun b => .ite .quoted (.mismatch hshapes _ b)

theorem Regular.bool : Regular f Scan.bool := by
  refine .bind .valueStart fun b => ?_
  split
  · exact .bind (.boolWord _) fun _ => .pure _
  · exact .mismatch hshapes _ b

theorem Regular.int (range : IntRange) : Regular f (Scan.int range) := by
  refine .bind .valueStart fun b => .ite (.bind (.number b) fun n => ?_) (.mismatch hshapes _ b)
  cases n with
  | int n => exact .ite (.pure n) (.refuseData rfl hshapes _)
  | float x => exact .refuseData rfl hshapes _

theorem Regular.judge (hunplaced : f.unplaced = true) (fault : DataFault) (a? : Option α) :
    Regular f (a?.elim (Scan.refuseData .enclosing fault) Pure.pure) := by
  have hplace : f.allows .enclosing = true := hunplaced
  cases a? with
  | none => exact .refuseData hplace hshapes fault
  | some a => exact .pure a

end Values

/-- Readers without lists of places are regular, if those of an `apply` are, also inside of lists and objects. -/
theorem Reads.regular {m : Means} {limit : Nat} {P : α → Prop} {part : Part} {p q : Scan α} (hplaces : ¬m.places)
    (hshapes : f.shapes = true)
    (happlied : ∀ {β : Type} (p : Scan β), m.applied p → Regular f.inside (Scan.payload p))
    (h : Reads m limit part P p q) (hpart : part.unplaced = true → f.unplaced = true) : Regular f p := by
  induction h generalizing f with
  | pure => exact .pure _
  | @refused _ _ part fault _ h => exact .judge hshapes (hpart h) fault none
  | report _ line _ ih => exact .bind (.report line) fun _ => ih hshapes happlied hpart
  | before _ _ ih ihk => exact .bind (ih hshapes happlied hpart) fun b => ihk b hshapes happlied nofun
  | mono _ _ ih => exact ih hshapes happlied hpart
  | tree _ room => exact .tree room
  | skipValue => exact .skipValue
  | string => exact .stringValue hshapes
  | bool => exact .bool hshapes
  | int => exact .int hshapes _
  | optional _ ih =>
      refine .bind .peekPastBlanks fun _ => .ite (.bind .nullWord fun _ => .pure _) (.map ?_ _)
      exact ih hshapes happlied hpart
  | judged room hk => exact .bind (.tree room) fun j => hk j ▸ .judge hshapes (hpart rfl) _ _
  | start _ _ ih => exact .bind .valueStart fun b => ih b hshapes happlied nofun
  | mismatch b => exact .mismatch hshapes _ b
  | tooDeep => exact .tooDeep
  | boolWord => exact .boolWord _
  | quoted => exact .quoted
  | inList _ _ ih => exact .inList (ih hshapes happlied fun _ => rfl)
  | inObject _ _ ih => exact .inObject (ih hshapes happlied fun _ => rfl)
  | items hitem ih => exact .items (ih hshapes happlied hpart) (hitem.advances trivial)
  | members _ _ _ ih ihk =>
      exact .bind (.members (fun s key => ih s key hshapes happlied hpart) _) fun s => ihk s hshapes happlied hpart
  | colon _ ih => exact .bind .colon fun _ => ih hshapes happlied hpart
  | apply hp _ ih =>
      have hinside : f.inside = f := by rw [Freedom.inside, ← hpart rfl]
      exact .bind .colon fun _ => .bind (hinside ▸ happlied _ hp) fun b => ih b hshapes happlied nofun
  | inPlaces hfixed | place hfixed | firstPlace hfixed | lastPlace hfixed => exact absurd hfixed hplaces

end BlockModel.Scan
