import BlockModel.Proofs.Scan.Formed
import BlockModel.Proofs.Scan.Reads
import BlockModel.Proofs.Scan.Within

/-! Where in its line a failure is placed. The column of a place counts the octets since the last line feed, so it is
zero only where no octet of the line was taken. A plan that has looked at an octet before it refuses it knows whether
that can be a line feed; so this is said as a triple: from a cursor of which something is known, a plan fails for a
cause that fits the cursor it is placed at. What is known travels through a plan with its parts, one rule for each way
to build one. -/

namespace BlockModel

namespace Cursor

variable {c d : Cursor}

/-- The last octet taken counts as a column. -/
def OnLine (c : Cursor) : Prop := 0 < c.position.column

/-- Something was taken. -/
def Begun (c : Cursor) : Prop := 0 < c.offset

/-- Nothing is left to be taken. -/
def Spent (c : Cursor) : Prop := c.rest = []

/-- The text that the cursor is in is not empty. -/
def HasText (c : Cursor) : Prop := 0 < c.offset + c.rest.length

/-- The octet is next, and it is no line feed. -/
def Before (b : UInt8) (c : Cursor) : Prop := c.rest.head? = some b ∧ b ≠ 0x0A

/-- The octet was taken last. -/
def Behind (b : UInt8) (c : Cursor) : Prop := c.Begun ∧ (b ≠ 0x0A → c.OnLine)

def Anywhere (_ : Cursor) : Prop := True

theorem Begun.later (h : c.Begun) (hreach : c.Reaches d) : d.Begun := by
  obtain ⟨taken, -, hoffset, -⟩ := hreach
  rw [Begun, hoffset]
  exact Nat.add_pos_left h _

theorem HasText.later (h : c.HasText) (hreach : c.Reaches d) : d.HasText :=
  Nat.lt_of_lt_of_eq h hreach.offset_add_length.symm

/-- At the end of a text everything was taken. -/
theorem HasText.begun (h : c.HasText) (hspent : c.Spent) : c.Begun := by
  rwa [HasText, hspent, List.length_nil, Nat.add_zero] at h

theorem begun_of_taken {s : List UInt8} (hreach : c.Reaches d) (hrest : c.rest = s ++ d.rest) (hs : s ≠ []) :
    d.Begun := by
  have hlength := hreach.offset_add_length
  have hpos : 0 < s.length := List.length_pos_iff.2 hs
  rw [hrest, List.length_append] at hlength
  unfold Begun
  omega

/-- Octets without a line feed are columns of one line. -/
theorem onLine_of_taken {s : List UInt8} (hreach : c.Reaches d) (hrest : c.rest = s ++ d.rest)
    (hline : ∀ b ∈ s, b ≠ 0x0A) (hs : s ≠ [] ∨ c.OnLine) : d.OnLine := by
  obtain ⟨taken, hrest', -, hposition⟩ := hreach
  obtain rfl : taken = s := List.append_cancel_right (hrest'.symm.trans hrest)
  rw [OnLine, hposition, Position.advance_of_ne_lineFeed hline]
  rcases hs with hs | hs
  · exact Nat.add_pos_right _ (List.length_pos_iff.2 hs)
  · exact Nat.add_pos_left hs _

theorem Before.exists_cons {b : UInt8} (h : c.Before b) : ∃ r, c.rest = b :: r :=
  List.head?_eq_some_iff.1 h.1

theorem ahead_of_spent (h : c.Spent) : c.ahead = c.position := by
  rw [ahead, h]
  rfl

theorem ahead_of_rest {b : UInt8} {r : List UInt8} (h : c.rest = b :: r) :
    c.Reaches (c.take [b] r false) ∧ c.ahead = (c.take [b] r false).position := by
  refine ⟨reaches_take false h, ?_⟩
  rw [ahead, h]
  rfl

/-- Behind an octet that is no line feed a column is counted. -/
theorem Before.ahead {b : UInt8} (h : c.Before b) : ∃ d, c.Reaches d ∧ c.ahead = d.position ∧ d.OnLine := by
  obtain ⟨r, hr⟩ := h.exists_cons
  obtain ⟨hreach, hahead⟩ := ahead_of_rest hr
  exact ⟨_, hreach, hahead,
    onLine_of_taken hreach hr (List.forall_mem_singleton.2 h.2) (.inl (List.cons_ne_nil _ _))⟩

end Cursor

/-- The fault may lie with any octet that is not the one that had to follow. -/
def GrammarFault.isOfOctet : GrammarFault → Bool
  | .expectedIdent | .invalidEscape | .invalidNumber | .controlCharacter | .unfinishedSurrogate => true
  | _ => false

/-- The fault may lie with the end of the text. -/
def GrammarFault.isOfEnd : GrammarFault → Bool
  | .ended _ | .trailingCharacters => true
  | _ => false

/-- A failure of the cause may be placed at the cursor. Unless a column is counted there, the cause is the end of the
text, an octet that may be a line feed, or a shape that is refused where a list or object begins or is left. -/
inductive Cause.Fits (d : Cursor) : Cause → Prop where
  | onLine {cause : Cause} (h : d.OnLine) : Fits d cause
  | atEnd {fault : GrammarFault} (hfault : fault.isOfEnd = true) (h : d.Spent) : Fits d (.grammar fault)
  | octet {fault : GrammarFault} (hfault : fault.isOfOctet = true) (h : d.Begun) : Fits d (.grammar fault)
  | shape {fault : DataFault} (hfault : fault.isOfLeaf = false) (h : d.Begun) : Fits d (.data fault)
  | opening {found : Found} {b : UInt8} {expected : String} (hfound : found.opener? = some b)
      (h : d.rest.head? = some b) : Fits d (.data (.wrongType found expected))

namespace Scan

variable {α β σ : Type} {pre : Cursor → Prop} {c d c' : Cursor} {e : Failure} {b : UInt8}

/-- A failure that a plan met from a cursor on is placed at a cursor that it has come to, and its cause fits that one;
a failure that is left unplaced would fit anywhere behind the start. -/
structure FitsFrom (c : Cursor) (e : Failure) : Prop where
  placed : ∀ p, e.position = some p → ∃ d, c.Reaches d ∧ p = d.position ∧ e.cause.Fits d
  unplaced : e.position = none → ∀ d, d.Begun → e.cause.Fits d

/-- On a document, from wherever the precondition holds in a text, the plan fails for causes that fit their places. -/
def Fitting (pre : Cursor → Prop) (p : Scan α) : Prop :=
  ∀ c e c', c.HasText → pre c → p.run .document c = (.error e, c') → FitsFrom c e

theorem FitsFrom.before (h : FitsFrom d e) (hreach : c.Reaches d) : FitsFrom c e := by
  refine ⟨fun p hp => ?_, h.unplaced⟩
  obtain ⟨d', hd', hposition, hfits⟩ := h.placed p hp
  exact ⟨d', hreach.trans hd', hposition, hfits⟩

theorem FitsFrom.here {cause : Cause} {inPayload : Bool} (h : cause.Fits c) :
    FitsFrom c ⟨cause, some c.position, inPayload⟩ where
  placed _ hp := ⟨c, .refl c, (Option.some.inj hp).symm, h⟩
  unplaced hnone := by cases hnone

theorem begun_of_skip {u : Unit} (htext : c.HasText) (h : skip.run .document c = (.ok u, d)) : d.Begun := by
  have hreach := Cursor.Reaches.of_run h
  cases hrest : c.rest with
  | nil => exact (htext.begun hrest).later hreach
  | cons b r =>
      have hd := ok_skip_of_head h (b := b) (by rw [hrest]; rfl)
      exact Cursor.begun_of_taken (s := [b]) hreach hd (List.cons_ne_nil _ _)

theorem onLine_of_skip {u : Unit} (hbefore : c.Before b) (h : skip.run .document c = (.ok u, d)) : d.OnLine :=
  Cursor.onLine_of_taken (s := [b]) (.of_run h) (ok_skip_of_head h hbefore.1)
    (List.forall_mem_singleton.2 hbefore.2) (.inl (List.cons_ne_nil _ _))

theorem ne_lineFeed_of_not_isBlank (h : Octet.isBlank b = false) : b ≠ 0x0A := by
  rintro rfl
  cases h

theorem ne_lineFeed_of_isDigit (h : Octet.isDigit b = true) : b ≠ 0x0A := by
  rintro rfl
  cases h

namespace Fitting

theorem mono {pre' : Cursor → Prop} {p : Scan α} (h : Fitting pre p)
    (himp : ∀ c : Cursor, c.HasText → pre' c → pre c) : Fitting pre' p :=
  fun c e c' htext hpre hrun => h c e c' htext (himp c htext hpre) hrun

theorem anywhere {p : Scan α} (h : Fitting Cursor.Anywhere p) : Fitting pre p := h.mono fun _ _ _ => trivial

theorem pure (a : α) : Fitting pre (Pure.pure a : Scan α) := by
  intro c e c' _ _ h
  cases h

theorem bind {mid : β → Cursor → Prop} {p : Scan β} {k : β → Scan α} (hp : Fitting pre p)
    (hmid : ∀ c b d, c.HasText → pre c → p.run .document c = (.ok b, d) → mid b d)
    (hk : ∀ b, Fitting (mid b) (k b)) : Fitting pre (p >>= k) := by
  intro c e c' htext hpre h
  rcases error_bind h with hfirst | ⟨b, d, hfirst, hmore⟩
  · exact hp c e c' htext hpre hfirst
  · have hreach := Cursor.Reaches.of_run hfirst
    exact (hk b d e c' (htext.later hreach) (hmid c b d htext hpre hfirst) hmore).before hreach

/-- What follows needs to know nothing. -/
theorem andThen {p : Scan β} {k : β → Scan α} (hp : Fitting pre p) (hk : ∀ b, Fitting Cursor.Anywhere (k b)) :
    Fitting pre (p >>= k) := hp.bind (fun _ _ _ _ _ _ => trivial) hk

theorem map {p : Scan β} (hp : Fitting pre p) (g : β → α) : Fitting pre (g <$> p) := hp.andThen fun _ => .pure _

theorem ite {condition : Prop} [Decidable condition] {p q : Scan α} (hp : condition → Fitting pre p)
    (hq : ¬condition → Fitting pre q) : Fitting pre (if condition then p else q) := by
  split
  · exact hp ‹_›
  · exact hq ‹_›

theorem refuse_onLine (fault : GrammarFault) : Fitting Cursor.OnLine (refuse .here fault : Scan α) := by
  intro c e c' _ hline h
  cases h
  exact .here (.onLine hline)

/-- An octet that was looked at and is no line feed. -/
theorem refuse_ahead (fault : GrammarFault) : Fitting (Cursor.Before b) (refuse .ahead fault : Scan α) := by
  intro c e c' _ hbefore h
  cases h
  obtain ⟨d, hreach, hahead, hline⟩ := hbefore.ahead
  exact ⟨fun p hp => ⟨d, hreach, (Option.some.inj hp).symm.trans hahead, .onLine hline⟩, fun hnone => (by cases hnone)⟩

theorem refuse_atEnd {fault : GrammarFault} (hfault : fault.isOfEnd = true) {place : Place}
    (hplace : place = .here ∨ place = .ahead) : Fitting Cursor.Spent (refuse place fault : Scan α) := by
  intro c e c' _ hspent h
  rcases hplace with rfl | rfl <;> cases h
  · exact .here (.atEnd hfault hspent)
  · rw [Place.position?, Cursor.ahead_of_spent hspent]
    exact .here (.atEnd hfault hspent)

theorem refuse_octet {fault : GrammarFault} (hfault : fault.isOfOctet = true) :
    Fitting Cursor.Begun (refuse .here fault : Scan α) := by
  intro c e c' _ hbegun h
  cases h
  exact .here (.octet hfault hbegun)

/-- An octet that was looked at and may be any, or the end of the text in its place. -/
theorem refuse_octetAhead {fault : GrammarFault} (hfault : fault.isOfOctet = true) :
    Fitting pre (refuse .ahead fault : Scan α) := by
  intro c e c' htext _ h
  cases h
  refine ⟨fun p hp => ?_, fun hnone => (by cases hnone)⟩
  cases hrest : c.rest with
  | nil =>
      -- the end is placed at the last octet, which may be a line feed as well
      have hposition := (Option.some.inj hp).symm.trans (Cursor.ahead_of_spent hrest)
      exact ⟨c, .refl c, hposition, .octet hfault (htext.begun hrest)⟩
  | cons b r =>
      obtain ⟨hreach, hahead⟩ := Cursor.ahead_of_rest hrest
      exact ⟨_, hreach, (Option.some.inj hp).symm.trans hahead,
        .octet hfault (Cursor.begun_of_taken (s := [b]) hreach hrest (List.cons_ne_nil _ _))⟩

theorem refuseData_onLine (fault : DataFault) : Fitting Cursor.OnLine (refuseData .here fault : Scan α) := by
  intro c e c' _ hline h
  cases h
  exact .here (.onLine hline)

/-- It is left to the list or object around to place a failure. -/
theorem refuseData_enclosing {fault : DataFault} (hfault : fault.isOfLeaf = false) :
    Fitting pre (refuseData .enclosing fault : Scan α) := by
  intro c e c' _ _ h
  cases h
  exact ⟨fun _ hp => (by cases hp), fun _ _ hbegun => .shape hfault hbegun⟩

theorem peek : Fitting pre Scan.peek := by
  intro c e c' _ _ h
  rw [run] at h
  split at h <;> cases h

theorem next : Fitting pre Scan.next := by
  intro c e c' _ _ h
  rw [run] at h
  split at h <;> cases h

theorem takeWhile (test : UInt8 → Bool) : Fitting pre (Scan.takeWhile test) := by
  intro c e c' _ _ h
  rw [run] at h
  split at h <;> cases h

theorem skip : Fitting pre Scan.skip := next.andThen fun _ => .pure ()

theorem blanks : Fitting pre Scan.blanks := (takeWhile _).andThen fun _ => .pure ()

theorem peekPastBlanks : Fitting pre Scan.peekPastBlanks := blanks.andThen fun _ => .peek

/-- After an octet was looked for, two things may be known. -/
theorem option {stop : Cursor → Prop} {mid : β → Cursor → Prop} {p : Scan (Option β)} {k : Option β → Scan α}
    (hp : Fitting pre p) (hstop : ∀ c d, pre c → p.run .document c = (.ok none, d) → stop d)
    (hmid : ∀ c b d, pre c → p.run .document c = (.ok (some b), d) → mid b d)
    (hnone : Fitting stop (k none)) (hsome : ∀ b, Fitting (mid b) (k (some b))) : Fitting pre (p >>= k) := by
  have hknown : ∀ c b? d, c.HasText → pre c → p.run .document c = (.ok b?, d) → b?.elim stop mid d := by
    intro c b? d _ hpre hrun
    cases b? with
    | none => exact hstop c d hpre hrun
    | some b => exact hmid c b d hpre hrun
  refine hp.bind hknown fun b? => ?_
  cases b? with
  | none => exact hnone
  | some b => exact hsome b

theorem taking {k : Option UInt8 → Scan α} (hnone : Fitting Cursor.Spent (k none))
    (hsome : ∀ b, Fitting (Cursor.Behind b) (k (some b))) : Fitting pre (Scan.next >>= k) := by
  refine next.option (fun c d _ hrun => ?_) (fun c b d _ hrun => ?_) hnone hsome
  · obtain ⟨hhead, hrest⟩ := ok_next hrun
    rw [Cursor.Spent, hrest, List.head?_eq_none_iff.1 hhead.symm]
    rfl
  · have hreach := Cursor.Reaches.of_run hrun
    have hrest : c.rest = [b] ++ d.rest := (ok_next_some hrun).1
    refine ⟨Cursor.begun_of_taken hreach hrest (List.cons_ne_nil _ _), fun hb => ?_⟩
    exact Cursor.onLine_of_taken hreach hrest (List.forall_mem_singleton.2 hb) (.inl (List.cons_ne_nil _ _))

theorem peeking {k : Option UInt8 → Scan α} (hlooked : ∀ c : Cursor, pre c → pre { c with looked := true })
    (hnone : Fitting (fun c => pre c ∧ c.Spent) (k none))
    (hsome : ∀ b, Fitting (fun c => pre c ∧ c.rest.head? = some b) (k (some b))) :
    Fitting pre (Scan.peek >>= k) := by
  have hpeeked : ∀ c b? d, pre c → Scan.peek.run .document c = (.ok b?, d) → pre d := by
    intro c b? d hpre hrun
    rw [run] at hrun
    split at hrun <;> cases hrun
    · exact hpre
    · exact hlooked c hpre
  refine peek.option (fun c d hpre hrun => ?_) (fun c b d hpre hrun => ?_) hnone hsome
  · exact ⟨hpeeked c none d hpre hrun, List.head?_eq_none_iff.1 (ok_peek hrun).1.symm⟩
  · exact ⟨hpeeked c (some b) d hpre hrun, (ok_peek hrun).1.symm⟩

theorem looking {k : Option UInt8 → Scan α} (hnone : Fitting Cursor.Spent (k none))
    (hsome : ∀ b, Fitting (Cursor.Before b) (k (some b))) : Fitting pre (Scan.peekPastBlanks >>= k) := by
  refine peekPastBlanks.option (fun c d _ hrun => ?_) (fun c b d _ hrun => ?_) hnone hsome
  · obtain ⟨-, -, -, hhead, -⟩ := ok_peekPastBlanks hrun
    exact List.head?_eq_none_iff.1 hhead.symm
  · obtain ⟨-, r, -, -, hrest, hb⟩ := ok_peekPastBlanks_some hrun
    exact ⟨by rw [hrest]; rfl, ne_lineFeed_of_not_isBlank hb⟩

theorem takingWhile {test : UInt8 → Bool} {k : List UInt8 → Scan α} {mid : List UInt8 → Cursor → Prop}
    (hmid : ∀ c taken d, pre c → c.Reaches d → c.rest = taken ++ d.rest → (∀ b ∈ taken, test b = true) → mid taken d)
    (hk : ∀ taken, Fitting (mid taken) (k taken)) : Fitting pre (Scan.takeWhile test >>= k) := by
  refine (takeWhile test).bind (fun c taken d _ hpre hrun => ?_) hk
  obtain ⟨hrest, htaken, -⟩ := ok_takeWhile hrun
  exact hmid c taken d hpre (.of_run hrun) hrest htaken

/-- What was skipped makes a start, whether it was looked at or not. -/
theorem skipping {k : Unit → Scan α} (hk : ∀ u, Fitting Cursor.Begun (k u)) : Fitting pre (Scan.skip >>= k) :=
  skip.bind (fun _ _ _ htext _ hrun => begun_of_skip htext hrun) hk

theorem passing {k : Unit → Scan α} (hk : ∀ u, Fitting Cursor.OnLine (k u)) :
    Fitting (Cursor.Before b) (Scan.skip >>= k) :=
  skip.bind (fun _ _ _ _ hbefore hrun => onLine_of_skip hbefore hrun) hk

/-- What is known has to last, and each round takes something. -/
theorem loop {round : σ → Scan (σ ⊕ α)} (hround : ∀ s, Fitting pre (round s))
    (hlasts : ∀ c d : Cursor, c.Reaches d → pre c → pre d) (hadvances : ∀ s, Advances goesOn none (round s))
    (init : σ) :
    Fitting pre (Scan.loop init round) := by
  intro c e c' htext hpre h
  -- along the rounds before the one that fails
  refine error_loop (P := fun _ c e _ => c.HasText → pre c → FitsFrom c e) hadvances ?_ ?_ h htext hpre
  · exact fun s c e c' hrun htext hpre => hround s c e c' htext hpre hrun
  · intro s c s' d e c' hrun hrest htext hpre
    have hreach := Cursor.Reaches.of_run hrun
    exact (hrest (htext.later hreach) (hlasts c d hreach hpre)).before hreach

theorem report (line : LogLine) : Fitting pre (Scan.report line) := by
  intro c e c' _ _ h
  cases h

theorem payload {inside : Scan α} (hinside : Fitting pre inside) : Fitting pre (Scan.payload inside) := by
  intro c e c' htext hpre h
  obtain ⟨e', hrun, rfl⟩ := error_payload h
  obtain ⟨hplaced, hunplaced⟩ := hinside c e' c' htext hpre hrun
  exact ⟨hplaced, hunplaced⟩

/-- What fails inside without a place is placed behind the opening, wherever the close leaves off. -/
theorem enclosed {inside : Scan α} {close : Scan Unit} (hinside : Fitting Cursor.Anywhere inside)
    (hclose : Fitting Cursor.Anywhere close) : Fitting Cursor.Begun (Scan.enclosed inside close) := by
  intro c e c' htext hbegun h
  rcases hrun : inside.run .document c with ⟨e' | a, d⟩
  · have hfits := hinside c e' d htext trivial hrun
    rw [run, hrun] at h
    cases hposition : e'.position with
    | some p =>
        simp only [hposition] at h
        cases h
        exact hfits
    | none =>
        -- the close may have come to a line of its own, but it is behind the opening
        simp only [hposition] at h
        cases h
        have hreach := (Cursor.Reaches.of_run hrun).trans (reaches_run close .document d)
        refine ⟨fun p hp => ?_, fun hnone => (by cases hnone)⟩
        exact ⟨_, hreach, (Option.some.inj hp).symm, hfits.unplaced hposition _ (hbegun.later hreach)⟩
  · have hreach := Cursor.Reaches.of_run hrun
    rw [run_enclosed_ok hrun] at h
    have hmore : Fitting Cursor.Anywhere (close >>= fun _ => Pure.pure a) := hclose.andThen fun _ => .pure a
    exact (hmore d e c' (htext.later hreach) trivial h).before hreach

end Fitting

end Scan

end BlockModel
