import BlockModel.Proofs.Scan.Cut
import BlockModel.Proofs.Scan.Reads
import BlockModel.Proofs.Scan.Supplies

/-! Where plans fail on a document. Reading never goes back, so a failure is placed at an octet that the plan has
come to, or it is left to the list or object around the plan, which places it where it is left itself; and no words of
a failure end with anything that could be taken for a place. `Within` says so of a plan, with one rule for each way to
build one; a list of places, whose end is looked for in a way of its own, is among them. -/

namespace BlockModel.Scan

variable {α β σ : Type} {unplaced : Bool} {c d c' : Cursor} {e : Failure}

/-- A cause that lies in the text alone, in words that do not end with what could be taken for a place. -/
inductive InText : Cause → Prop where
  | grammar (fault : GrammarFault) : InText (.grammar fault)
  | data {fault : DataFault} (hplain : fault.isPlain = true) : InText (.data fault)
  | stalled : InText .stalled

theorem InText.ne_source {cause : Cause} (h : InText cause) (reason : String) : cause ≠ .source reason := by
  rintro rfl
  cases h

/-- A failure that a plan met from a cursor on: its cause lies in the text, and it is placed at a cursor that the plan
has come to, or left unplaced where that is allowed. -/
structure MetFrom (unplaced : Bool) (c : Cursor) (e : Failure) : Prop where
  cause : InText e.cause
  allowed : e.position = none → unplaced = true
  reached : ∀ p, e.position = some p → ∃ d, c.Reaches d ∧ p = d.position

/-- On a document the plan fails where it has come to. -/
def Within (unplaced : Bool) (p : Scan α) : Prop :=
  ∀ c e c', p.run .document c = (.error e, c') → MetFrom unplaced c e

theorem MetFrom.before (h : MetFrom unplaced d e) (hreach : c.Reaches d) : MetFrom unplaced c e := by
  refine ⟨h.cause, h.allowed, fun p hp => ?_⟩
  obtain ⟨d', hd', rfl⟩ := h.reached p hp
  exact ⟨d', hreach.trans hd', rfl⟩

theorem exists_reaches_ahead (c : Cursor) : ∃ d, c.Reaches d ∧ c.ahead = d.position := by
  rw [Cursor.ahead]
  cases hrest : c.rest with
  | nil => exact ⟨c, .refl c, rfl⟩
  | cons b r => exact ⟨c.take [b] r false, Cursor.reaches_take false hrest, rfl⟩

namespace Within

/-- What blames the text alone. A string is taken octet by octet for the cause of a failure, and as a whole for its
place. -/
theorem of_regular {p : Scan α} (hp : ∀ backward, Regular ⟨backward, unplaced, false, false⟩ p) :
    Within unplaced p := by
  intro c e c' h
  have hpermits := (hp true).permits rfl h
  have hsource := hpermits.cause_ne_source trivial
  have halike : Alike .document .stream c c (p.run .document c) (p.run .stream c) :=
    (hp false).alike rfl trivial trivial rfl
  rw [h] at halike
  generalize p.run .stream c = r at halike
  refine ⟨?_, fun hnone => ?_, fun q hq => ?_⟩
  · rcases hpermits.cause with ⟨fault, hgrammar⟩ | ⟨hfalse, -⟩ | ⟨reason, -, hreason⟩
    · exact hgrammar ▸ .grammar fault
    · cases hfalse
    · exact absurd hreason (hsource reason)
  · rcases hpermits.unplaced hnone with hleft | ⟨reason, hreason⟩
    · exact hleft
    · exact absurd hreason (hsource reason)
  · cases halike with
    | @error cause place inPayload _ _ c0 d0 hplace hc _ _ _ =>
        cases place with
        | here => exact ⟨c0, hc, (Option.some.inj hq).symm⟩
        | ahead =>
            obtain ⟨d, hd, hahead⟩ := exists_reaches_ahead c0
            exact ⟨d, hc.trans hd, (Option.some.inj hq).symm.trans hahead⟩
        | before columns => exact absurd rfl (hplace columns)
        | enclosing => cases hq

theorem pure (a : α) : Within unplaced (Pure.pure a : Scan α) := by
  intro c e c' h
  cases h

theorem bind {p : Scan β} {k : β → Scan α} (hp : Within unplaced p) (hk : ∀ b, Within unplaced (k b)) :
    Within unplaced (p >>= k) := by
  intro c e c' h
  rcases error_bind h with hfirst | ⟨b, d, hfirst, hmore⟩
  · exact hp c e c' hfirst
  · exact (hk b d e c' hmore).before (.of_run hfirst)

theorem map {p : Scan β} (hp : Within unplaced p) (g : β → α) : Within unplaced (g <$> p) := hp.bind fun _ => .pure _

theorem ite {condition : Prop} [Decidable condition] {p q : Scan α} (hp : Within unplaced p)
    (hq : Within unplaced q) : Within unplaced (if condition then p else q) := by
  split
  · exact hp
  · exact hq

theorem refuseData {place : Place} (hplace : place = .here ∨ place = .enclosing ∧ unplaced = true)
    {fault : DataFault} (hplain : fault.isPlain = true) :
    Within unplaced (Scan.refuseData place fault : Scan α) := by
  intro c e c' h
  cases h
  refine ⟨.data hplain, fun hnone => ?_, fun p hp => ?_⟩
  · rcases hplace with rfl | ⟨rfl, hleft⟩
    · cases hnone
    · exact hleft
  · rcases hplace with rfl | ⟨rfl, hleft⟩
    · exact ⟨c, .refl c, (Option.some.inj hp).symm⟩
    · cases hp

/-- What fails inside without a place is placed where the close leaves off. -/
theorem enclosed {inside : Scan α} {close : Scan Unit} (hinside : Within true inside)
    (hclose : Within unplaced close) : Within unplaced (Scan.enclosed inside close) := by
  intro c e c' h
  rw [run] at h
  rcases hrun : inside.run .document c with ⟨e' | a, d⟩
  · have hmet := hinside c e' d hrun
    rw [hrun] at h
    cases hposition : e'.position with
    | some p =>
        simp only [hposition] at h
        cases h
        refine ⟨hmet.cause, fun hnone => ?_, hmet.reached⟩
        rw [hposition] at hnone
        cases hnone
    | none =>
        simp only [hposition] at h
        cases h
        refine ⟨hmet.cause, fun hnone => ?_, fun p hp => ?_⟩
        · cases hnone
        · have hreach := (Cursor.Reaches.of_run hrun).trans (reaches_run close .document d)
          exact ⟨_, hreach, (Option.some.inj hp).symm⟩
  · rw [← run, run_enclosed_ok hrun] at h
    exact (bind hclose (fun _ => .pure a) d e c' h).before (.of_run hrun)

theorem payload {inside : Scan α} (hinside : Within unplaced inside) : Within unplaced (Scan.payload inside) := by
  intro c e c' h
  obtain ⟨e', hrun, rfl⟩ := error_payload h
  obtain ⟨hcause, hallowed, hreached⟩ := hinside c e' c' hrun
  exact ⟨hcause, hallowed, hreached⟩

/-- Inside of a list or object, also where a round takes nothing. -/
theorem loop {round : σ → Scan (σ ⊕ α)} (hround : ∀ s, Within true (round s)) (init : σ) :
    Within true (Scan.loop init round) := by
  intro c e c' h
  induction hn : c.rest.length using Nat.strongRecOn generalizing init c with
  | ind n ih =>
  rw [run_loop] at h
  rcases hrun : (round init).run .document c with ⟨e' | s | a, d⟩ <;> rw [hrun] at h <;> simp only at h
  · cases h
    exact hround init c e c' hrun
  · have hreach := Cursor.Reaches.of_run hrun
    split at h
    · have hlength := hreach.offset_add_length
      exact (ih d.rest.length (by omega) s d h rfl).before hreach
    · cases h
      refine ⟨.stalled, fun _ => rfl, fun p hp => ?_⟩
      cases hp
  · cases h

theorem closePlaces : Within unplaced Scan.closePlaces := by
  intro c e c' h
  rw [run_closePlaces] at h
  exact of_regular (fun _ => .closeList) c e c' h

theorem inList {inside : Scan α} (hinside : Within true inside) : Within unplaced (Scan.inList inside) :=
  bind (of_regular fun _ => .skip) fun _ => enclosed hinside (of_regular fun _ => .closeList)

theorem inPlaces {inside : Scan α} (hinside : Within true inside) : Within unplaced (Scan.inPlaces inside) :=
  bind (of_regular fun _ => .skip) fun _ => enclosed hinside .closePlaces

theorem inObject {inside : Scan α} (hinside : Within true inside) : Within unplaced (Scan.inObject inside) :=
  bind (of_regular fun _ => .skip) fun _ => enclosed hinside (of_regular fun _ => .closeObject)

theorem items {item : Scan α} (hitem : Within true item) : Within true (Scan.items item) := by
  refine map (loop (fun sofar => bind (of_regular fun _ => .hasItem _) fun more => ?_) _) _
  exact ite (bind hitem fun _ => .pure _) (.pure _)

theorem place? {item : Scan α} (hitem : Within unplaced item) (first : Bool) :
    Within unplaced (Scan.place? first item) :=
  bind (of_regular fun _ => .hasItem first) fun _ => ite (bind hitem fun _ => .pure _) (.pure _)

theorem members {member : σ → String → Scan σ} (hmember : ∀ s key, Within true (member s key)) (init : σ) :
    Within true (Scan.members init member) := by
  refine loop (fun state => bind (of_regular fun _ => .hasMember _) fun more => ?_) _
  exact ite (bind (of_regular fun _ => .quoted) fun key => bind (hmember _ key) fun _ => .pure _) (.pure _)

theorem tooDeep : Within unplaced (Scan.tooDeep : Scan α) := of_regular fun _ => .tooDeep

theorem colon : Within unplaced Scan.colon := of_regular fun _ => .colon

theorem valueStart : Within unplaced Scan.valueStart := of_regular fun _ => .valueStart

theorem skipValue : Within unplaced Scan.skipValue := of_regular fun _ => .skipValue

section Expected

variable {expected : String} (hexpected : Failure.endsPlain expected.toList = true)
include hexpected

theorem mismatch (b : UInt8) : Within unplaced (Scan.mismatch expected b : Scan α) :=
  bind (of_regular fun _ => .otherKind b) fun _ => .refuseData (.inl rfl) hexpected

end Expected

theorem quoted : Within unplaced Scan.quoted := of_regular fun _ => .quoted

theorem boolWord (b : Bool) : Within unplaced (Scan.boolWord b) := of_regular fun _ => .boolWord b

theorem string : Within unplaced Scan.string := bind .valueStart fun b => ite .quoted (.mismatch (by decide) b)

theorem bool : Within unplaced Scan.bool := by
  refine bind .valueStart fun b => ?_
  split
  · exact bind (.boolWord _) fun _ => .pure _
  · exact .mismatch (by decide) b

theorem int {range : IntRange} (hrange : Failure.endsPlain range.name.toList = true) :
    Within unplaced (Scan.int range) := by
  refine bind .valueStart fun b => ite (bind (of_regular fun _ => .number b) fun n => ?_) (.mismatch hrange b)
  cases n with
  | int n => exact ite (.pure n) (.refuseData (.inl rfl) hrange)
  | float x => exact .refuseData (.inl rfl) hrange

theorem optional {value : Scan α} (hvalue : Within unplaced value) : Within unplaced (Scan.optional value) :=
  bind (of_regular fun _ => .peekPastBlanks) fun _ =>
    ite (of_regular fun _ => .bind .nullWord fun _ => .pure _) (map hvalue _)

theorem document {value : Scan α} (hvalue : Within unplaced value) : Within unplaced (Scan.document value) :=
  bind hvalue fun _ => of_regular fun _ => .bind .endOfDocument fun _ => .pure _

theorem judge {place : Place} (hplace : place = .here ∨ place = .enclosing ∧ unplaced = true) {fault : DataFault}
    (hplain : fault.isPlain = true) (a? : Option α) :
    Within unplaced (a?.elim (Scan.refuseData place fault) Pure.pure) := by
  cases a? with
  | none => exact .refuseData hplace hplain
  | some a => exact .pure a

end Within

/-- Readers fail where they have come to, if those of an `apply` do. -/
theorem Reads.within {m : Means} {limit : Nat} {P : α → Prop} {part : Part} {p q : Scan α}
    (happlied : ∀ {β : Type} (p : Scan β), m.applied p → Within true p) (h : Reads m limit part P p q)
    (hpart : part.unplaced = true → unplaced = true) : Within unplaced p := by
  induction h generalizing unplaced with
  | pure | lastPlace => exact .pure _
  | refused h _ hplain => exact .refuseData (.inr ⟨rfl, hpart h⟩) hplain
  | report _ _ _ ih => exact .bind (.of_regular fun _ => .report _) fun _ => ih hpart
  | before _ _ ih ihk => exact .bind (ih hpart) fun b => ihk b nofun
  | mono _ _ ih => exact ih hpart
  | tree _ room => exact .of_regular fun _ => .tree room
  | skipValue => exact .skipValue
  | string => exact .string
  | bool => exact .bool
  | int _ hplain => exact .int hplain
  | optional _ ih => exact .optional (ih hpart)
  | judged room hk _ hplain =>
      exact .bind (.of_regular fun _ => .tree room) fun j => hk j ▸ .judge (.inr ⟨rfl, hpart rfl⟩) hplain _
  | start _ _ ih => exact .bind .valueStart fun b => ih b nofun
  | mismatch b hplain => exact .mismatch hplain b
  | tooDeep => exact .tooDeep
  | boolWord => exact .boolWord _
  | quoted => exact .quoted
  | inList _ _ ih => exact .inList (ih fun _ => rfl)
  | inPlaces _ _ _ ih => exact .inPlaces (ih fun _ => rfl)
  | inObject _ _ ih => exact .inObject (ih fun _ => rfl)
  | items _ ih => exact hpart rfl ▸ .items (ih fun _ => rfl)
  | place _ _ _ ih ihk => exact hpart rfl ▸ .bind (.place? (ih fun _ => rfl) _) fun b? => ihk b? fun _ => rfl
  | firstPlace _ hnone hplain _ _ ih =>
      obtain rfl := hpart rfl
      refine .bind (.place? .string true) fun s? => ?_
      cases s? with
      | none => exact hnone ▸ .refuseData (.inr ⟨rfl, rfl⟩) hplain
      | some s => exact ih s fun _ => rfl
  | members _ _ _ ih ihk =>
      obtain rfl := hpart rfl
      exact .bind (.members (fun s key => ih s key fun _ => rfl) _) fun s => ihk s fun _ => rfl
  | colon _ ih => exact hpart rfl ▸ .bind .colon fun _ => ih fun _ => rfl
  | apply hp _ ih =>
      obtain rfl := hpart rfl
      exact .bind .colon fun _ => .bind (.payload (happlied _ hp)) fun b => ih b nofun

end BlockModel.Scan
