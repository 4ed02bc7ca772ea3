import BlockModel.Proofs.Scan.Regular

/-! How plans fail. A failure of a whole is taken apart into the parts that succeeded and the one that did not.
For regular plans this says which failures there are at all: the fault is one of the grammar or, where that is
allowed, of the shape, unless a source broke off; and the marks that a failure carries are those that the plan
was free to leave. -/

namespace BlockModel.Scan

variable {f : Freedom} {α β σ : Type} {supply : Supply} {c c' : Cursor} {e : Failure}

theorem error_bind {p : Scan β} {k : β → Scan α} (h : (p >>= k).run supply c = (.error e, c')) :
    p.run supply c = (.error e, c') ∨
      ∃ b d, p.run supply c = (.ok b, d) ∧ (k b).run supply d = (.error e, c') := by
  rcases hp : p.run supply c with ⟨e' | b, d⟩
  · rw [run_bind_error hp] at h
    cases h
    exact .inl rfl
  · rw [run_bind_ok hp] at h
    exact .inr ⟨b, d, rfl, h⟩

/-- What fails inside makes the whole fail, whatever the close comes to: it is given a place where it has none,
and is not changed otherwise. -/
theorem run_enclosed_error {inside : Scan α} {d : Cursor} (h : inside.run supply c = (.error e, d))
    (close : Scan Unit) : ∃ e' d', (enclosed inside close).run supply c = (.error e', d') ∧ e'.cause = e.cause ∧
      e'.inPayload = e.inPayload ∧ e'.position ≠ none ∧ d.Reaches d' := by
  rw [run, h]
  cases hposition : e.position with
  | some p =>
      have hplaced : e.position ≠ none := by
        rw [hposition]
        exact Option.some_ne_none p
      exact ⟨e, d, by simp only [hposition], rfl, rfl, hplaced, .refl d⟩
  | none =>
      simp only [hposition]
      exact ⟨_, _, rfl, rfl, rfl, Option.some_ne_none _, reaches_run close supply d⟩

/-- After the inside there is only the close to be read. -/
theorem run_enclosed_ok {inside : Scan α} {a : α} {d : Cursor} (h : inside.run supply c = (.ok a, d))
    (close : Scan Unit) : (enclosed inside close).run supply c = (close >>= fun _ => pure a).run supply d := by
  rw [run, h]
  rcases hclose : close.run supply d with ⟨e | u, d'⟩
  · rw [run_bind_error hclose]
    simp only [hclose]
  · rw [run_bind_ok hclose]
    simp only [hclose]
    rfl

theorem error_enclosed {inside : Scan α} {close : Scan Unit}
    (h : (enclosed inside close).run supply c = (.error e, c')) :
    (∃ e' d, inside.run supply c = (.error e', d) ∧ e.cause = e'.cause ∧ e.inPayload = e'.inPayload ∧
        e.position ≠ none) ∨
      ∃ a d, inside.run supply c = (.ok a, d) ∧ close.run supply d = (.error e, c') := by
  rcases hinside : inside.run supply c with ⟨e' | a, d⟩
  · obtain ⟨e'', d', hrun, hcause, hpayload, hplaced, -⟩ := run_enclosed_error hinside close
    rw [hrun] at h
    cases h
    exact .inl ⟨e', d, rfl, hcause, hpayload, hplaced⟩
  · rw [run_enclosed_ok hinside] at h
    rcases error_bind h with hclose | ⟨u, d', -, hpure⟩
    · exact .inr ⟨a, d, rfl, hclose⟩
    · cases hpure

theorem error_payload {inside : Scan α} (h : (payload inside).run supply c = (.error e, c')) :
    ∃ e', inside.run supply c = (.error e', c') ∧ e = { e' with inPayload := true } := by
  rw [run] at h
  rcases hinside : inside.run supply c with ⟨e' | a, d⟩ <;> rw [hinside] at h <;> cases h
  exact ⟨e', rfl, rfl⟩

theorem offset_lt_of_length_lt {p : Scan α} {r : Except Failure α} (h : p.run supply c = (r, c'))
    (hlength : c'.rest.length < c.rest.length) : c.offset < c'.offset := by
  have hsame := (Cursor.Reaches.of_run h).offset_add_length
  omega

/-- A loop that fails has gone round until a round failed. -/
theorem error_loop {round : σ → Scan (σ ⊕ α)} {P : σ → Cursor → Failure → Cursor → Prop}
    (hadvances : ∀ s, Advances goesOn none (round s))
    (hlast : ∀ s c e c', (round s).run supply c = (.error e, c') → P s c e c')
    (hnext : ∀ s c s' d e c', (round s).run supply c = (.ok (.inl s'), d) → P s' d e c' → P s c e c')
    {init : σ} (h : (loop init round).run supply c = (.error e, c')) : P init c e c' := by
  induction hn : c.rest.length using Nat.strongRecOn generalizing init c with
  | ind n ih =>
  rw [run_loop] at h
  rcases hround : (round init).run supply c with ⟨e' | s | a, d⟩ <;> rw [hround] at h <;> simp only at h
  · cases h
    exact hlast init c e c' hround
  · have hless := hadvances init _ _ _ _ hround rfl fun b hb => absurd hb (Option.not_mem_none b)
    rw [if_pos (offset_lt_of_length_lt hround hless)] at h
    exact hnext init c s d e c' hround (ih d.rest.length (hn ▸ hless) h rfl)
  · cases h

/-- The failures that a plan of such freedom ends in. -/
structure Freedom.Permits (f : Freedom) (supply : Supply) (e : Failure) : Prop where
  cause : (∃ fault, e.cause = .grammar fault) ∨ (f.shapes = true ∧ ∃ fault, e.cause = .data fault) ∨
    ∃ reason, supply = .broken reason ∧ e.cause = .source reason
  inPayload : e.inPayload = true → f.payloads = true
  unplaced : e.position = none → f.unplaced = true ∨ ∃ reason, e.cause = .source reason

theorem permits_of_atEnd {a : α} (h : atEnd supply a c = (.error e, c')) : f.Permits supply e := by
  cases supply with
  | document => cases h
  | stream => cases h
  | broken reason =>
      cases h
      exact ⟨.inr (.inr ⟨reason, rfl, rfl⟩), fun hfalse => absurd hfalse Bool.false_ne_true,
        fun _ => .inr ⟨reason, rfl⟩⟩

theorem unplaced_of_position?_eq_none {place : Place} (hplace : f.allows place = true)
    (h : place.position? supply c = none) : f.unplaced = true := by
  cases place with
  | here => cases h
  | ahead => cases h
  | before columns => cases h
  | enclosing => exact hplace

/-- A regular plan that goes octet by octet through strings fails as it is free to. -/
theorem Regular.permits {p : Scan α} (hp : Regular f p) (hbackward : f.backward = true)
    (h : p.run supply c = (.error e, c')) : f.Permits supply e := by
  induction hp generalizing c c' e with
  | done a => cases h
  | andThen _ _ ihfirst ihmore =>
      rcases error_bind h with hfirst | ⟨b, d, -, hmore⟩
      · exact ihfirst hbackward hfirst
      · exact ihmore b hbackward hmore
  | peek =>
      rw [run] at h
      split at h
      · exact permits_of_atEnd h
      · cases h
  | next =>
      rw [run] at h
      split at h
      · exact permits_of_atEnd h
      · cases h
  | takeWhile test =>
      rw [run] at h
      split at h
      · exact permits_of_atEnd h
      · cases h
  | grammar hplace fault =>
      cases h
      exact ⟨.inl ⟨fault, rfl⟩, fun hfalse => absurd hfalse Bool.false_ne_true,
        fun hnone => .inl (unplaced_of_position?_eq_none hplace hnone)⟩
  | data hplace hshapes fault =>
      cases h
      exact ⟨.inr (.inl ⟨hshapes, fault, rfl⟩), fun hfalse => absurd hfalse Bool.false_ne_true,
        fun hnone => .inl (unplaced_of_position?_eq_none hplace hnone)⟩
  | report line => cases h
  | enclosed _ _ ihinside ihclose =>
      rcases error_enclosed h with ⟨e', d, hinside, hcause, hpayload, hplaced⟩ | ⟨a, d, -, hclose⟩
      · obtain ⟨hcause', hpayload', -⟩ := ihinside hbackward hinside
        rw [← hcause] at hcause'
        rw [← hpayload] at hpayload'
        exact ⟨hcause', hpayload', fun hnone => absurd hnone hplaced⟩
      · exact ihclose hbackward hclose
  | payload hpayloads _ ih =>
      obtain ⟨e', hinside, rfl⟩ := error_payload h
      obtain ⟨hcause, -, hunplaced⟩ := ih hbackward hinside
      exact ⟨hcause, fun _ => hpayloads, hunplaced⟩
  | @loop f σ α init round _ hadvances ih =>
      exact error_loop (P := fun _ _ e _ => f.Permits supply e) hadvances
        (fun s _ _ _ h => ih s hbackward h) (fun _ _ _ _ _ _ _ h => h) h
  | string hfalse _ _ =>
      rw [hbackward] at hfalse
      cases hfalse

/-- The freedom of plans that hold no payload. -/
def Freedom.outside : Freedom := ⟨true, true, true, false⟩

theorem Regular.inPayload_ne {p : Scan α} (hp : Regular .outside p) (h : p.run supply c = (.error e, c')) :
    e.inPayload ≠ true :=
  fun hmark => Bool.false_ne_true ((hp.permits rfl h).inPayload hmark)

section InPayload

variable (hmark : e.inPayload = true)
include hmark

theorem error_bind_outside {p : Scan β} {k : β → Scan α} (hp : Regular .outside p)
    (h : (p >>= k).run supply c = (.error e, c')) :
    ∃ b d, p.run supply c = (.ok b, d) ∧ (k b).run supply d = (.error e, c') := by
  rcases error_bind h with hfirst | hmore
  · exact absurd hmark (hp.inPayload_ne hfirst)
  · exact hmore

/-- A payload that failed has failed inside of the list or object. -/
theorem error_enclosed_outside {inside : Scan α} {close : Scan Unit} (hclose : Regular .outside close)
    (h : (enclosed inside close).run supply c = (.error e, c')) :
    ∃ e' d, inside.run supply c = (.error e', d) ∧ e'.cause = e.cause ∧ e'.inPayload = true := by
  rcases error_enclosed h with ⟨e', d, hinside, hcause, hpayload, -⟩ | ⟨a, d, -, hfailed⟩
  · exact ⟨e', d, hinside, hcause.symm, hpayload.symm.trans hmark⟩
  · exact absurd hmark (hclose.inPayload_ne hfailed)

theorem error_itemRound {item : Scan α} {sofar : List α}
    (h : (itemRound item sofar).run supply c = (.error e, c')) :
    ∃ d, (hasItem sofar.isEmpty).run supply c = (.ok true, d) ∧ item.run supply d = (.error e, c') := by
  obtain ⟨has, d, hhas, h⟩ := error_bind_outside hmark (.hasItem _) h
  cases has with
  | false => cases h
  | true =>
      rcases error_bind h with hitem | ⟨a, d', -, hpure⟩
      · exact ⟨d, hhas, hitem⟩
      · cases hpure

theorem error_memberRound {member : σ → String → Scan σ} {state : Bool × σ}
    (h : (memberRound member state).run supply c = (.error e, c')) :
    ∃ gap k key d, Gap state.1 gap ∧ Leaves.exact.string key k ∧ c.rest = gap ++ (k ++ d.rest) ∧
      (member state.2 key).run supply d = (.error e, c') := by
  obtain ⟨has, d, hhas, h⟩ := error_bind_outside hmark (.hasMember _) h
  cases has with
  | false => cases h
  | true =>
      obtain ⟨key, d', hkey, h⟩ := error_bind_outside hmark .quoted h
      obtain ⟨gap, k, hgap, hk, hrest⟩ := ok_hasMember_quoted hhas hkey
      rcases error_bind h with hmember | ⟨s, d'', -, hpure⟩
      · exact ⟨gap, k, key, d', hgap, hk, hrest, hmember⟩
      · cases hpure

/-- A value of the kind that is asked for stands there. -/
theorem error_ofKind {kind : Kind} {b : UInt8} (hkind : kind.first? = some b) {value : Scan α} {expected : String}
    (h : (valueStart >>= fun b => if kind? b = some kind then value else mismatch expected b).run supply c =
      (.error e, c')) :
    ∃ w r d, Blanks w ∧ c.rest = w ++ b :: r ∧ d.rest = b :: r ∧ value.run supply d = (.error e, c') := by
  obtain ⟨b', d, hstart, h⟩ := error_bind_outside hmark .valueStart h
  obtain ⟨w, r, hw, hrest, hd, -⟩ := ok_valueStart hstart
  split at h
  · rename_i hkind'
    rw [eq_of_kind? hkind' hkind] at hrest hd
    exact ⟨w, r, d, hw, hrest, hd, h⟩
  · exact absurd hmark (Regular.inPayload_ne (.mismatch rfl expected b') h)

theorem error_expectList {value : Scan α} {expected : String}
    (h : (expectList expected value).run supply c = (.error e, c')) :
    ∃ w r d, Blanks w ∧ c.rest = w ++ Octet.openList :: r ∧ d.rest = Octet.openList :: r ∧
      value.run supply d = (.error e, c') :=
  error_ofKind hmark (rfl : Kind.list.first? = _) h

theorem error_expectObject {value : Scan α} {expected : String}
    (h : (expectObject expected value).run supply c = (.error e, c')) :
    ∃ w r d, Blanks w ∧ c.rest = w ++ Octet.openObject :: r ∧ d.rest = Octet.openObject :: r ∧
      value.run supply d = (.error e, c') :=
  error_ofKind hmark (rfl : Kind.object.first? = _) h

/-- Behind the bracket or brace a payload failed. -/
theorem error_inside {inside : Scan α} {close : Scan Unit} (hclose : Regular .outside close)
    (h : (skip >>= fun _ => enclosed inside close).run supply c = (.error e, c')) :
    ∃ e' d d', inside.run supply d = (.error e', d') ∧ d.rest = c.rest.tail ∧ e'.cause = e.cause ∧
      e'.inPayload = true := by
  obtain ⟨u, d, hskip, h⟩ := error_bind_outside hmark .skip h
  obtain ⟨e', d', hinside, hcause, hmark'⟩ := error_enclosed_outside hmark hclose h
  exact ⟨e', d, d', hinside, ok_skip hskip, hcause, hmark'⟩

end InPayload

end BlockModel.Scan
