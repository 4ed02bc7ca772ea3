import BlockModel.Proofs.Scan.Failing

/-! One plan and two sources of octets. On a document and on a stream of the same octets a regular plan does the
same; a stream only counts an octet as read when it was looked at, so the places of a failure lie at most one
octet apart. This is a simulation, and holds from any two cursors with the same octets ahead. -/

namespace BlockModel

/-- The source does not break off. -/
def Supply.IsWhole : Supply → Prop
  | .document => True
  | .stream => True
  | .broken _ => False

namespace Scan

variable {α β σ : Type} {f : Freedom} {supply supply' : Supply} {c c' d d' : Cursor}

/-- A failure has another cause than the source where that does not break off. -/
theorem Freedom.Permits.cause_ne_source {e : Failure} (h : f.Permits supply e) (hs : supply.IsWhole)
    (reason : String) : e.cause ≠ .source reason := by
  intro hsource
  rcases h.cause with ⟨fault, hfault⟩ | ⟨-, fault, hfault⟩ | ⟨reason', rfl, -⟩
  · rw [hfault] at hsource
    cases hsource
  · rw [hfault] at hsource
    cases hsource
  · exact hs

theorem here_of_not_looked (h : c.looked = false) : c.here supply = c.position := by
  cases supply <;> simp [Cursor.here, h]

/-- Some columns back in a line stands the cursor that has not taken the last octets yet. -/
theorem exists_before (supply : Supply) {taken : List UInt8} {n : Nat} (hrest : c.rest = taken ++ c'.rest)
    (hreach : c.Reaches c') (hlooked : c'.looked = false) (hline : ∀ b ∈ taken, b ≠ 0x0A) (hn : n ≤ taken.length) :
    ∃ c0, c.Reaches c0 ∧ c0.rest = taken.drop (taken.length - n) ++ c'.rest ∧
      (Place.before n).position? supply c' = Place.here.position? supply c0 := by
  obtain ⟨taken', hrest', -, hposition⟩ := hreach
  obtain rfl : taken' = taken := List.append_cancel_right (hrest'.symm.trans hrest)
  have hsplit := List.take_append_drop (taken'.length - n) taken'
  generalize taken'.take (taken'.length - n) = front at hsplit
  generalize hback : taken'.drop (taken'.length - n) = back at hsplit
  have hlength : back.length = n := by
    rw [← hback, List.length_drop]
    omega
  subst hsplit
  refine ⟨c.take front (back ++ c'.rest) false, Cursor.reaches_take false ?_, rfl, ?_⟩
  · rw [hrest, List.append_assoc]
  · have hback : ∀ b ∈ back, b ≠ 0x0A := fun b hb => hline b (List.mem_append_right front hb)
    have hfront : (c'.here supply).back n = c.position.advance front := by
      rw [here_of_not_looked hlooked, hposition, Position.advance_append, ← hlength, Position.back_advance hback]
    have hhere : (c.take front (back ++ c'.rest) false).here supply = c.position.advance front :=
      here_of_not_looked rfl
    exact congrArg some (hfront.trans hhere.symm)

/-- Outcomes for two sources that differ in places only: both are placed at the same octet ahead. -/
inductive Alike (supply supply' : Supply) (c d : Cursor) : Outcome α → Outcome α → Prop where
  | ok {a : α} {c' d' : Cursor} (hrest : c'.rest = d'.rest) : Alike supply supply' c d (.ok a, c') (.ok a, d')
  | error {cause : Cause} {place : Place} {inPayload : Bool} {c' d' c0 d0 : Cursor}
      (hplace : ∀ columns, place ≠ .before columns) (hc : c.Reaches c0) (hd : d.Reaches d0)
      (hrest0 : c0.rest = d0.rest) (hrest : c'.rest = d'.rest) :
      Alike supply supply' c d (.error ⟨cause, place.position? supply c0, inPayload⟩, c')
        (.error ⟨cause, place.position? supply' d0, inPayload⟩, d')

namespace Alike

variable {r r' : Outcome α}

theorem rest (h : Alike supply supply' c d r r') : r.2.rest = r'.2.rest := by
  cases h with
  | ok hrest => exact hrest
  | error _ _ _ _ hrest => exact hrest

theorem before {c1 d1 : Cursor} (hc : c.Reaches c1) (hd : d.Reaches d1) (h : Alike supply supply' c1 d1 r r') :
    Alike supply supply' c d r r' := by
  cases h with
  | ok hrest => exact .ok hrest
  | error hplace hc0 hd0 hrest0 hrest => exact .error hplace (hc.trans hc0) (hd.trans hd0) hrest0 hrest

theorem bind {p : Scan β} {k : β → Scan α} (hp : Alike supply supply' c d (p.run supply c) (p.run supply' d))
    (hk : ∀ b c1 d1, p.run supply c = (.ok b, c1) → p.run supply' d = (.ok b, d1) → c1.rest = d1.rest →
      Alike supply supply' c d ((k b).run supply c1) ((k b).run supply' d1)) :
    Alike supply supply' c d ((p >>= k).run supply c) ((p >>= k).run supply' d) := by
  rcases hc : p.run supply c with ⟨e | b, c1⟩ <;> rcases hd : p.run supply' d with ⟨e' | b', d1⟩ <;>
    rw [hc, hd] at hp
  · rw [run_bind_error hc, run_bind_error hd]
    cases hp with
    | error hplace hc0 hd0 hrest0 hrest => exact .error hplace hc0 hd0 hrest0 hrest
  · cases hp
  · cases hp
  · cases hp with
    | ok hrest =>
        rw [run_bind_ok hc, run_bind_ok hd]
        exact hk b c1 d1 hc hd hrest

theorem atEnd (hs : supply.IsWhole) (hs' : supply'.IsWhole) (a : α) (hrest : c'.rest = d'.rest) :
    Alike supply supply' c d (Scan.atEnd supply a c') (Scan.atEnd supply' a d') := by
  cases supply <;> cases supply' <;> first | exact .ok hrest | exact hs.elim | exact hs'.elim

theorem next (hs : supply.IsWhole) (hs' : supply'.IsWhole) (hrest : c.rest = d.rest) :
    Alike supply supply' c d (Scan.next.run supply c) (Scan.next.run supply' d) := by
  rw [run, run, ← hrest]
  cases hcase : c.rest with
  | nil => exact atEnd hs hs' none hrest
  | cons b r => exact .ok rfl

theorem peek (hs : supply.IsWhole) (hs' : supply'.IsWhole) (hrest : c.rest = d.rest) :
    Alike supply supply' c d (Scan.peek.run supply c) (Scan.peek.run supply' d) := by
  rw [run, run, ← hrest]
  cases hcase : c.rest with
  | nil => exact atEnd hs hs' none hrest
  | cons b r => exact .ok rfl

theorem takeWhile (hs : supply.IsWhole) (hs' : supply'.IsWhole) (test : UInt8 → Bool) (hrest : c.rest = d.rest) :
    Alike supply supply' c d ((Scan.takeWhile test).run supply c) ((Scan.takeWhile test).run supply' d) := by
  rw [run, run, ← hrest]
  cases hcase : c.rest.dropWhile test with
  | nil => exact atEnd hs hs' _ rfl
  | cons b r => exact .ok rfl

/-- A failure that is placed where it was met, unless it goes back in a line. -/
theorem failure {cause : Cause} {place : Place} {inPayload : Bool} (hbackward : f.backward = false)
    (hplace : f.allows place = true) (hrest : c.rest = d.rest) :
    Alike supply supply' c d ((.error ⟨cause, place.position? supply c, inPayload⟩, c) : Outcome α)
      (.error ⟨cause, place.position? supply' d, inPayload⟩, d) := by
  refine .error (fun columns => ?_) (.refl c) (.refl d) hrest hrest
  rintro rfl
  exact absurd (hplace.symm.trans hbackward) (by decide)

theorem enclosed {inside : Scan α} {close : Scan Unit}
    (hinside : Alike supply supply' c d (inside.run supply c) (inside.run supply' d))
    (hclose : ∀ c1 d1, c1.rest = d1.rest →
      Alike supply supply' c1 d1 (close.run supply c1) (close.run supply' d1)) :
    Alike supply supply' c d ((Scan.enclosed inside close).run supply c)
      ((Scan.enclosed inside close).run supply' d) := by
  rcases hc : inside.run supply c with ⟨e | a, c1⟩ <;> rcases hd : inside.run supply' d with ⟨e' | a', d1⟩ <;>
    rw [hc, hd] at hinside
  · rw [run, run, hc, hd]
    cases hinside with
    | @error cause place inPayload _ _ c0 d0 hplace hc0 hd0 hrest0 hrest1 =>
        have hends := (hclose c1 d1 hrest1).rest
        cases place with
        | here => exact .error hplace hc0 hd0 hrest0 hrest1
        | ahead => exact .error hplace hc0 hd0 hrest0 hrest1
        | before columns => exact absurd rfl (hplace columns)
        | enclosing =>
            -- The failure is placed where the close leaves off, whatever that comes to.
            have hhere : ∀ columns, Place.here ≠ .before columns := by
              rintro columns ⟨⟩
            refine .error hhere ?_ ?_ hends hends
            · exact (Cursor.Reaches.of_run hc).trans (reaches_run close supply c1)
            · exact (Cursor.Reaches.of_run hd).trans (reaches_run close supply' d1)
  · cases hinside
  · cases hinside
  · cases hinside with
    | ok hrest1 =>
        rw [run_enclosed_ok hc, run_enclosed_ok hd]
        exact .before (.of_run hc) (.of_run hd)
          (.bind (hclose c1 d1 hrest1) fun u c2 d2 _ _ hrest2 => .ok hrest2)

theorem payload {inside : Scan α}
    (hinside : Alike supply supply' c d (inside.run supply c) (inside.run supply' d)) :
    Alike supply supply' c d ((Scan.payload inside).run supply c) ((Scan.payload inside).run supply' d) := by
  rw [run, run]
  rcases hc : inside.run supply c with ⟨e | a, c1⟩ <;> rcases hd : inside.run supply' d with ⟨e' | a', d1⟩ <;>
    rw [hc, hd] at hinside <;> cases hinside
  · exact .error ‹_› ‹_› ‹_› ‹_› ‹_›
  · exact .ok ‹_›

theorem loop {round : σ → Scan (σ ⊕ α)} (hadvances : ∀ s, Advances goesOn none (round s))
    (hround : ∀ s c d, c.rest = d.rest →
      Alike supply supply' c d ((round s).run supply c) ((round s).run supply' d))
    (init : σ) (hrest : c.rest = d.rest) :
    Alike supply supply' c d ((Scan.loop init round).run supply c) ((Scan.loop init round).run supply' d) := by
  induction hn : c.rest.length using Nat.strongRecOn generalizing init c d with
  | ind n ih =>
  have hfirst := hround init c d hrest
  rw [run_loop, run_loop]
  rcases hc : (round init).run supply c with ⟨e | s | a, c1⟩ <;>
    rcases hd : (round init).run supply' d with ⟨e' | s' | a', d1⟩ <;> rw [hc, hd] at hfirst <;> cases hfirst
  · exact .error ‹_› ‹_› ‹_› ‹_› ‹_›
  · rename_i hrest1
    have hless := hadvances init _ _ _ _ hc rfl fun b hb => absurd hb (Option.not_mem_none b)
    have hless' := hadvances init _ _ _ _ hd rfl fun b hb => absurd hb (Option.not_mem_none b)
    simp only
    rw [if_pos (offset_lt_of_length_lt hc hless), if_pos (offset_lt_of_length_lt hd hless')]
    exact .before (.of_run hc) (.of_run hd) (ih c1.rest.length (hn ▸ hless) s hrest1 rfl)
  · exact .ok ‹_›

/-- Octets that are no text are refused some columns back, inside of the string. -/
theorem textOf {octets : List UInt8} {c1 d1 : Cursor}
    (hc : (Scan.loop [] stringRound).run supply c = (.ok octets, c1))
    (hd : (Scan.loop [] stringRound).run supply' d = (.ok octets, d1)) (hrest : c.rest = d.rest)
    (hrest1 : c1.rest = d1.rest) :
    Alike supply supply' c d ((Scan.textOf octets).run supply c1) ((Scan.textOf octets).run supply' d1) := by
  obtain ⟨body, more, hmore, hbody, hc1, hlooked⟩ := ok_stringLoop hc
  obtain ⟨-, -, -, -, -, hlooked'⟩ := ok_stringLoop hd
  rw [List.reverse_nil, List.nil_append] at hmore
  subst hmore
  rw [Scan.textOf]
  rcases hdecode : Text.Utf8.decode octets with ⟨chars, left⟩
  cases left with
  | nil => exact .ok hrest1
  | cons b left =>
      have hn : (b :: left).length ≤ (body ++ [Octet.quote]).length := by
        rw [List.length_append]
        exact Nat.le_trans (Nat.le_trans (Text.Utf8.length_left_le hdecode) hbody.length_le) (Nat.le_add_right _ _)
      have hline : ∀ b ∈ body ++ [Octet.quote], b ≠ 0x0A :=
        List.forall_mem_append.2 ⟨hbody.ne_lineFeed, List.forall_mem_singleton.2 (by decide)⟩
      have htaken : c.rest = (body ++ [Octet.quote]) ++ c1.rest := by
        rw [hc1, List.append_assoc, List.singleton_append]
      obtain ⟨c0, hreach, hrest0, hplace⟩ :=
        exists_before supply htaken (.of_run hc) hlooked hline hn
      obtain ⟨d0, hreach', hrest0', hplace'⟩ :=
        exists_before supply' (hrest ▸ hrest1 ▸ htaken) (.of_run hd) hlooked' hline hn
      change Alike supply supply' c d (.error ⟨_, (Place.before _).position? supply c1, false⟩, c1)
        (.error ⟨_, (Place.before _).position? supply' d1, false⟩, d1)
      rw [hplace, hplace']
      refine .error (fun columns => ?_) hreach hreach' ?_ hrest1
      · rintro ⟨⟩
      · rw [hrest0, hrest0', hrest1]

end Alike

/-- A regular plan does the same on any two sources that do not break off. -/
theorem Regular.alike {p : Scan α} (hp : Regular f p) (hbackward : f.backward = false) (hs : supply.IsWhole)
    (hs' : supply'.IsWhole) (hrest : c.rest = d.rest) :
    Alike supply supply' c d (p.run supply c) (p.run supply' d) := by
  induction hp generalizing c d with
  | done a => exact .ok hrest
  | andThen _ _ ihfirst ihmore =>
      exact .bind (ihfirst hbackward hrest) fun b c1 d1 hc hd hrest1 =>
        .before (.of_run hc) (.of_run hd) (ihmore b hbackward hrest1)
  | peek => exact .peek hs hs' hrest
  | next => exact .next hs hs' hrest
  | takeWhile test => exact .takeWhile hs hs' test hrest
  | grammar hplace fault => exact .failure hbackward hplace hrest
  | data hplace _ fault => exact .failure hbackward hplace hrest
  | report line => exact .ok hrest
  | enclosed _ _ ihinside ihclose =>
      exact .enclosed (ihinside hbackward hrest) fun c1 d1 hrest1 => ihclose hbackward hrest1
  | payload _ _ ih => exact .payload (ih hbackward hrest)
  | loop _ hadvances ih => exact .loop hadvances (fun s c d hrest => ih s hbackward hrest) _ hrest
  | string _ _ ih =>
      have hskip : Alike supply supply' c d (Scan.skip.run supply c) (Scan.skip.run supply' d) :=
        .bind (.next hs hs' hrest) fun b c1 d1 _ _ hrest1 => .ok hrest1
      refine .bind hskip fun u c1 d1 hc hd hrest1 => .before (.of_run hc) (.of_run hd) ?_
      exact .bind (ih hbackward hrest1) fun octets c2 d2 hc hd hrest2 => .textOf hc hd hrest1 hrest2

end Scan

end BlockModel
