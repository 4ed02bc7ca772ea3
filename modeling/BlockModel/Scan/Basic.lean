import BlockModel.Failure

/-! Reading as a plan. A `Scan` says which octets to look at, to take and to refuse; it does not say where
they come from. `Scan.run` carries a plan out on a document that is at hand as a whole, or on a stream
that gives its octets one at a time and may break off. What holds of every plan is proved once, by
induction on plans. Lines are reported on the way, for whoever wants to know which parts of a document were
left aside; they never change the result. -/

namespace BlockModel

inductive LogLevel where
  | trace
  | debug
  deriving DecidableEq, Repr

structure LogLine where
  level : LogLevel
  text : String
  deriving DecidableEq, Repr

namespace LogLevel

def name : LogLevel → String
  | trace => "TRACE"
  | debug => "DEBUG"

end LogLevel

def LogLine.render (line : LogLine) : String := line.level.name ++ " " ++ line.text

/-- Where the octets come from. -/
inductive Supply where
  /-- A document at hand: looking at an octet leaves no trace. -/
  | document
  /-- A stream: an octet that was looked at has left the source and counts as read. -/
  | stream
  /-- A stream that gives the octets it has and then fails. -/
  | broken (reason : String)
  deriving DecidableEq, Repr

/-- How far reading has come. -/
structure Cursor where
  /-- The number of octets taken. -/
  offset : Nat
  /-- The place after the last octet taken. -/
  position : Position
  /-- The octets still to come. -/
  rest : List UInt8
  /-- Whether the first of these was looked at. -/
  looked : Bool
  /-- The lines reported so far, in order. -/
  log : List LogLine
  deriving DecidableEq, Repr

namespace Cursor

def ofOctets (octets : List UInt8) : Cursor := ⟨0, .start, octets, false, []⟩

/-- The cursor after taking some octets, when others are left. -/
def take (c : Cursor) (octets rest : List UInt8) (looked : Bool) : Cursor :=
  ⟨c.offset + octets.length, c.position.advance octets, rest, looked, c.log⟩

/-- The place after the next octet, which a failure about an octet looked at is given. Where there is no
next octet it is the place of the end. -/
def ahead (c : Cursor) : Position := c.position.advance (c.rest.take 1)

/-- The place after the last octet read, which a failure about an octet taken is given. -/
def here (supply : Supply) (c : Cursor) : Position :=
  match supply with
  | .document => c.position
  | .stream | .broken _ => if c.looked then c.ahead else c.position

end Cursor

/-- Where a failure is placed. -/
inductive Place where
  /-- After the last octet read. -/
  | here
  /-- After the octet looked at. -/
  | ahead
  /-- So many columns before the last octet read. -/
  | before (columns : Nat)
  /-- Where the list or object being read is left. -/
  | enclosing
  deriving DecidableEq, Repr

def Place.position? (supply : Supply) (c : Cursor) : Place → Option Position
  | here => some (c.here supply)
  | ahead => some c.ahead
  | before columns => some ((c.here supply).back columns)
  | enclosing => none

/-- A plan for reading that ends in a value of a type or in a failure. -/
inductive Scan : Type → Type 1 where
  | done {α : Type} (a : α) : Scan α
  | andThen {α β : Type} (first : Scan β) (more : β → Scan α) : Scan α
  /-- Look at the next octet; there may be none. -/
  | peek : Scan (Option UInt8)
  /-- Take the next octet; there may be none. -/
  | next : Scan (Option UInt8)
  /-- Take octets as long as they satisfy a test. -/
  | takeWhile (test : UInt8 → Bool) : Scan (List UInt8)
  | fail {α : Type} (place : Place) (cause : Cause) : Scan α
  | report (line : LogLine) : Scan Unit
  /-- The inside of a list or object and then its close. When the inside fails without a place, the close
  is still read as far as it goes, and the failure is placed after it. -/
  | enclosed {α : Type} (inside : Scan α) (close : Scan Unit) : Scan α
  /-- What a multipart case applies: failures are marked. -/
  | payload {α : Type} (inside : Scan α) : Scan α
  /-- What comes of a plan, or nothing where it fails, whatever the reason. -/
  | attempt {α : Type} (inside : Scan α) : Scan (Option α)
  /-- Rounds that go on from a state until one of them ends; each has to take something. -/
  | loop {σ α : Type} (init : σ) (round : σ → Scan (σ ⊕ α)) : Scan α

/-- What reading comes to: a value or a failure, and how far it came. -/
abbrev Outcome (α : Type) := Except Failure α × Cursor

namespace Scan

instance : Monad Scan where
  pure := done
  bind := andThen

/-- The end of the octets: none, or the failure of a broken stream. -/
def atEnd {α : Type} (supply : Supply) (a : α) (c : Cursor) : Outcome α :=
  match supply with
  | .broken reason => (.error ⟨.source reason, none, false⟩, c)
  | .document | .stream => (.ok a, c)

/-- Goes round from a state, at most once for each octet of a list and once more. -/
def rounds {σ α : Type} (step : σ → Cursor → Outcome (σ ⊕ α)) : List UInt8 → σ → Cursor → Outcome α
  | [], s, c =>
    match step s c with
    | (.ok (.inr a), c') => (.ok a, c')
    | (.ok (.inl _), c') => (.error ⟨.stalled, none, false⟩, c')
    | (.error e, c') => (.error e, c')
  | _ :: bound, s, c =>
    match step s c with
    | (.ok (.inr a), c') => (.ok a, c')
    | (.ok (.inl s'), c') =>
      if c.offset < c'.offset then rounds step bound s' c'
      else (.error ⟨.stalled, none, false⟩, c')
    | (.error e, c') => (.error e, c')

/-- Carries a plan out. -/
def run (supply : Supply) : {α : Type} → Scan α → Cursor → Outcome α
  | _, done a, c => (.ok a, c)
  | _, andThen first more, c =>
    match first.run supply c with
    | (.ok b, c') => (more b).run supply c'
    | (.error e, c') => (.error e, c')
  | _, peek, c =>
    match c.rest with
    | [] => atEnd supply none c
    | b :: _ => (.ok (some b), { c with looked := true })
  | _, next, c =>
    match c.rest with
    | [] => atEnd supply none c
    | b :: rest => (.ok (some b), c.take [b] rest false)
  | _, takeWhile test, c =>
    let taken := c.rest.takeWhile test
    match c.rest.dropWhile test with
    | [] => atEnd supply taken (c.take taken [] false)
    | b :: rest => (.ok taken, c.take taken (b :: rest) true)
  | _, fail place cause, c => (.error ⟨cause, place.position? supply c, false⟩, c)
  | _, report line, c => (.ok (), { c with log := c.log ++ [line] })
  | _, enclosed inside close, c =>
    match inside.run supply c with
    | (.ok a, c1) =>
      match close.run supply c1 with
      | (.ok _, c2) => (.ok a, c2)
      | (.error e, c2) => (.error e, c2)
    | (.error e, c1) =>
      match e.position with
      | some _ => (.error e, c1)
      | none =>
        let c2 := (close.run supply c1).2
        (.error { e with position := some (c2.here supply) }, c2)
  | _, payload inside, c =>
    match inside.run supply c with
    | (.ok a, c') => (.ok a, c')
    | (.error e, c') => (.error { e with inPayload := true }, c')
  | _, attempt inside, c =>
    match inside.run supply c with
    | (.ok a, c') => (.ok (some a), c')
    | (.error _, c') => (.ok none, c')
  | _, loop init round, c => rounds (fun s c => (round s).run supply c) c.rest init c

/-- A plan carried out on octets from their first one. -/
def runOn {α : Type} (p : Scan α) (supply : Supply) (octets : List UInt8) : Outcome α :=
  p.run supply (.ofOctets octets)

@[simp] theorem run_pure {α : Type} (supply : Supply) (a : α) (c : Cursor) :
    (pure a : Scan α).run supply c = (.ok a, c) := rfl

theorem run_bind_ok {α β : Type} {supply : Supply} {p : Scan β} {k : β → Scan α} {c c' : Cursor} {b : β}
    (h : p.run supply c = (.ok b, c')) : (p >>= k).run supply c = (k b).run supply c' := by
  change (andThen p k).run supply c = _
  rw [run, h]

theorem run_bind_error {α β : Type} {supply : Supply} {p : Scan β} {k : β → Scan α} {c c' : Cursor}
    {e : Failure} (h : p.run supply c = (.error e, c')) : (p >>= k).run supply c = (.error e, c') := by
  change (andThen p k).run supply c = _
  rw [run, h]

def refuse {α : Type} (place : Place) (fault : GrammarFault) : Scan α := fail place (.grammar fault)

def refuseData {α : Type} (place : Place) (fault : DataFault) : Scan α := fail place (.data fault)

end Scan

end BlockModel
