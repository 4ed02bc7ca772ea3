import BlockModel.Proofs.Scan.Failing

/-! A stream that breaks off. Before it does, a regular plan finds there what it finds on any source that begins
with the same octets. So if it comes to an end before the break, it comes to that end on all of these sources,
however they go on; and where it does not, it fails because the stream broke off. -/

namespace BlockModel.Scan

variable {α β σ : Type} {f : Freedom} {reason : String} {supply : Supply} {c c' d d' : Cursor} {q : List UInt8}

/-- Octets up to one that fails the test are taken from every source. -/
theorem run_takeWhile {test : UInt8 → Bool} {taken r : List UInt8} {b : UInt8} (hrest : c.rest = taken ++ b :: r)
    (htaken : ∀ x ∈ taken, test x = true) (hb : test b = false) :
    (takeWhile test).run supply c = (.ok taken, c.take taken (b :: r) true) := by
  have htake : c.rest.takeWhile test = taken := by
    rw [hrest, List.takeWhile_append_of_pos htaken, List.takeWhile_cons, hb]
    exact List.append_nil taken
  have hdrop : c.rest.dropWhile test = b :: r := by
    rw [hrest, List.dropWhile_append_of_pos htaken, List.dropWhile_cons, hb]
    rfl
  rw [run, hdrop, htake]

theorem rest_atEnd (supply : Supply) (a : α) (c : Cursor) : (atEnd supply a c).2.rest = c.rest := by
  cases supply <;> rfl

theorem rest_run_takeWhile (supply : Supply) (test : UInt8 → Bool) (c : Cursor) :
    ((takeWhile test).run supply c).2.rest = c.rest.dropWhile test := by
  rw [run]
  cases hdrop : c.rest.dropWhile test with
  | nil => exact rest_atEnd supply _ _
  | cons b r => rfl

/-- What comes of a plan on a stream that breaks off says what comes of it where more octets follow, unless it
is the break. When it breaks off, all of its octets are read wherever more follow. -/
inductive Foretells (q : List UInt8) : Outcome α → Outcome α → Prop where
  | ok {a : α} {c' d' : Cursor} (hrest : d'.rest = c'.rest ++ q) : Foretells q (.ok a, c') (.ok a, d')
  | error {e e' : Failure} {c' d' : Cursor} (hcause : e'.cause = e.cause) (hpayload : e'.inPayload = e.inPayload) :
      Foretells q (.error e, c') (.error e', d')
  | source {e : Failure} {c' : Cursor} {r : Outcome α} {reason : String} (hcause : e.cause = .source reason)
      (hspent : r.2.rest.length ≤ q.length) : Foretells q (.error e, c') r

namespace Foretells

theorem bind {p : Scan β} {k : β → Scan α} (hp : Foretells q (p.run (.broken reason) c) (p.run supply d))
    (hk : ∀ b c1 d1, p.run (.broken reason) c = (.ok b, c1) → p.run supply d = (.ok b, d1) →
      d1.rest = c1.rest ++ q → Foretells q ((k b).run (.broken reason) c1) ((k b).run supply d1)) :
    Foretells q ((p >>= k).run (.broken reason) c) ((p >>= k).run supply d) := by
  rcases hc : p.run (.broken reason) c with ⟨e | b, c1⟩ <;> rw [hc] at hp
  · rw [run_bind_error hc]
    rcases hd : p.run supply d with ⟨e' | b', d1⟩ <;> rw [hd] at hp
    · rw [run_bind_error hd]
      cases hp with
      | error hcause hpayload => exact .error hcause hpayload
      | source hcause hspent => exact .source hcause hspent
    · rw [run_bind_ok hd]
      cases hp with
      | source hcause hspent => exact .source hcause (Nat.le_trans (length_le_of_run rfl) hspent)
  · rcases hd : p.run supply d with ⟨e' | b', d1⟩ <;> rw [hd] at hp <;> cases hp
    rw [run_bind_ok hc, run_bind_ok hd]
    exact hk b c1 d1 hc hd ‹_›

theorem atEnd (a : α) (c : Cursor) {r : Outcome α} (hspent : r.2.rest.length ≤ q.length) :
    Foretells q (Scan.atEnd (.broken reason) a c) r :=
  .source rfl hspent

theorem peek (hrest : d.rest = c.rest ++ q) :
    Foretells q (Scan.peek.run (.broken reason) c) (Scan.peek.run supply d) := by
  rw [run]
  cases hcase : c.rest with
  | nil =>
      rw [hcase, List.nil_append] at hrest
      exact .atEnd none c (hrest ▸ length_le_of_run rfl)
  | cons b r =>
      rw [hcase, List.cons_append] at hrest
      rw [run, hrest]
      exact .ok rfl

theorem next (hrest : d.rest = c.rest ++ q) :
    Foretells q (Scan.next.run (.broken reason) c) (Scan.next.run supply d) := by
  rw [run]
  cases hcase : c.rest with
  | nil =>
      rw [hcase, List.nil_append] at hrest
      exact .atEnd none c (hrest ▸ length_le_of_run rfl)
  | cons b r =>
      rw [hcase, List.cons_append] at hrest
      rw [run, hrest]
      exact .ok rfl

/-- Octets up to one that fails the test are taken from every source; if there is no such octet before the
break, the test is passed by all that was there. -/
theorem takeWhile (test : UInt8 → Bool) (hrest : d.rest = c.rest ++ q) :
    Foretells q ((Scan.takeWhile test).run (.broken reason) c) ((Scan.takeWhile test).run supply d) := by
  have hsplit := List.takeWhile_append_dropWhile (p := test) (l := c.rest)
  have htaken : ∀ b ∈ c.rest.takeWhile test, test b = true := List.all_eq_true.1 List.all_takeWhile
  rw [run]
  cases hdrop : c.rest.dropWhile test with
  | nil =>
      rw [hdrop, List.append_nil] at hsplit
      refine .atEnd _ _ ?_
      rw [rest_run_takeWhile, hrest, ← hsplit, List.dropWhile_append_of_pos htaken]
      exact (List.dropWhile_sublist test).length_le
  | cons b r =>
      have hb := List.head?_dropWhile_not test c.rest
      rw [hdrop] at hsplit hb
      rw [← hsplit, List.append_assoc, List.cons_append] at hrest
      rw [run_takeWhile hrest htaken (by simpa using hb)]
      exact .ok rfl

theorem enclosed {inside : Scan α} {close : Scan Unit}
    (hinside : Foretells q (inside.run (.broken reason) c) (inside.run supply d))
    (hclose : ∀ c1 d1, d1.rest = c1.rest ++ q →
      Foretells q (close.run (.broken reason) c1) (close.run supply d1)) :
    Foretells q ((Scan.enclosed inside close).run (.broken reason) c)
      ((Scan.enclosed inside close).run supply d) := by
  rcases hc : inside.run (.broken reason) c with ⟨e | a, c1⟩ <;> rw [hc] at hinside
  · obtain ⟨e1, c2, hrun, hcause1, hpayload1, -⟩ := run_enclosed_error hc close
    rw [hrun]
    rcases hd : inside.run supply d with ⟨e' | a', d1⟩ <;> rw [hd] at hinside
    · obtain ⟨e2, d2, hrun', hcause2, hpayload2, -, hreach⟩ := run_enclosed_error hd close
      rw [hrun']
      cases hinside with
      | error hcause hpayload =>
          exact .error (hcause2.trans (hcause.trans hcause1.symm))
            (hpayload2.trans (hpayload.trans hpayload1.symm))
      | source hcause hspent =>
          exact .source (hcause1.trans hcause) (Nat.le_trans (length_le_of_reaches hreach) hspent)
    · rw [run_enclosed_ok hd]
      cases hinside with
      | source hcause hspent =>
          exact .source (hcause1.trans hcause) (Nat.le_trans (length_le_of_run rfl) hspent)
  · rcases hd : inside.run supply d with ⟨e' | a', d1⟩ <;> rw [hd] at hinside <;> cases hinside
    rename_i hrest1
    rw [run_enclosed_ok hc, run_enclosed_ok hd]
    exact .bind (hclose c1 d1 hrest1) fun u c2 d2 _ _ hrest2 => .ok hrest2

theorem payload {inside : Scan α} (hinside : Foretells q (inside.run (.broken reason) c) (inside.run supply d)) :
    Foretells q ((Scan.payload inside).run (.broken reason) c) ((Scan.payload inside).run supply d) := by
  rw [run, run]
  rcases hc : inside.run (.broken reason) c with ⟨e | a, c1⟩ <;> rw [hc] at hinside
  · rcases hd : inside.run supply d with ⟨e' | a', d1⟩ <;> rw [hd] at hinside
    · cases hinside with
      | error hcause hpayload => exact .error hcause rfl
      | source hcause hspent => exact .source hcause hspent
    · cases hinside with
      | source hcause hspent => exact .source hcause hspent
  · rcases hd : inside.run supply d with ⟨e' | a', d1⟩ <;> rw [hd] at hinside <;> cases hinside
    exact .ok ‹_›

theorem loop {round : σ → Scan (σ ⊕ α)} (hadvances : ∀ s, Advances goesOn none (round s))
    (hround : ∀ s c d, d.rest = c.rest ++ q →
      Foretells q ((round s).run (.broken reason) c) ((round s).run supply d))
    (init : σ) (hrest : d.rest = c.rest ++ q) :
    Foretells q ((Scan.loop init round).run (.broken reason) c) ((Scan.loop init round).run supply d) := by
  induction hn : c.rest.length using Nat.strongRecOn generalizing init c d with
  | ind n ih =>
  have hfirst := hround init c d hrest
  rw [run_loop, run_loop]
  rcases hc : (round init).run (.broken reason) c with ⟨e | s | a, c1⟩ <;> rw [hc] at hfirst
  · rcases hd : (round init).run supply d with ⟨e' | s' | a', d1⟩ <;> rw [hd] at hfirst
    · cases hfirst with
      | error hcause hpayload => exact .error hcause hpayload
      | source hcause hspent => exact .source hcause hspent
    · cases hfirst with
      | source hcause hspent =>
          -- The other source goes on, and has no more octets left for that.
          refine .source hcause ?_
          simp only
          split
          · exact Nat.le_trans (length_le_of_run rfl) hspent
          · exact hspent
    · cases hfirst with
      | source hcause hspent => exact .source hcause hspent
  · rcases hd : (round init).run supply d with ⟨e' | s' | a', d1⟩ <;> rw [hd] at hfirst <;> cases hfirst
    rename_i hrest1
    have hless := hadvances init _ _ _ _ hc rfl fun b hb => absurd hb (Option.not_mem_none b)
    have hless' := hadvances init _ _ _ _ hd rfl fun b hb => absurd hb (Option.not_mem_none b)
    simp only
    rw [if_pos (offset_lt_of_length_lt hc hless), if_pos (offset_lt_of_length_lt hd hless')]
    exact ih c1.rest.length (hn ▸ hless) s hrest1 rfl
  · rcases hd : (round init).run supply d with ⟨e' | s' | a', d1⟩ <;> rw [hd] at hfirst <;> cases hfirst
    exact .ok ‹_›

end Foretells

/-- What a regular plan comes to before a stream breaks off, it comes to on every source that goes on. -/
theorem Regular.foretells {p : Scan α} (hp : Regular f p) (hbackward : f.backward = true)
    (hrest : d.rest = c.rest ++ q) : Foretells q (p.run (.broken reason) c) (p.run supply d) := by
  induction hp generalizing c d with
  | done a => exact .ok hrest
  | andThen _ _ ihfirst ihmore =>
      exact .bind (ihfirst hbackward hrest) fun b c1 d1 _ _ hrest1 => ihmore b hbackward hrest1
  | peek => exact .peek hrest
  | next => exact .next hrest
  | takeWhile test => exact .takeWhile test hrest
  | grammar _ fault => exact .error rfl rfl
  | data _ _ fault => exact .error rfl rfl
  | report line => exact .ok hrest
  | enclosed _ _ ihinside ihclose =>
      exact .enclosed (ihinside hbackward hrest) fun c1 d1 hrest1 => ihclose hbackward hrest1
  | payload _ _ ih => exact .payload (ih hbackward hrest)
  | loop _ hadvances ih => exact .loop hadvances (fun s c d hrest => ih s hbackward hrest) _ hrest
  | string hfalse _ _ =>
      rw [hbackward] at hfalse
      cases hfalse

/-- What a regular plan takes on a document rests on no octet behind the next one. -/
theorem Regular.ok_before {p : Scan α} (hp : Regular f p) (hbackward : f.backward = true) {a : α} {b : UInt8}
    {s t t' : List UInt8} (h : p.run .document c = (.ok a, c')) (hc : c.rest = s ++ b :: t)
    (hc' : c'.rest = b :: t) (hd : d.rest = s ++ b :: t') :
    ∃ d', p.run .document d = (.ok a, d') ∧ d'.rest = b :: t' := by
  -- A stream that breaks off behind that octet says what comes of either document.
  have hsplit : ∀ q : List UInt8, s ++ b :: q = (s ++ [b]) ++ q := fun q => by
    rw [List.append_assoc, List.singleton_append]
  have hleft : Foretells t (p.run (.broken "") { c with rest := s ++ [b] }) (p.run .document c) :=
    hp.foretells hbackward (hc.trans (hsplit t))
  have hright : Foretells t' (p.run (.broken "") { c with rest := s ++ [b] }) (p.run .document d) :=
    hp.foretells hbackward (hd.trans (hsplit t'))
  rw [h] at hleft
  rcases hbroken : p.run (.broken "") { c with rest := s ++ [b] } with ⟨e | a', c1⟩ <;>
    rw [hbroken] at hleft hright
  · cases hleft with
    | source _ hspent =>
        rw [hc', List.length_cons] at hspent
        exact absurd hspent (Nat.not_succ_le_self _)
  · cases hleft with
    | ok hrest =>
        rcases hrun : p.run .document d with ⟨e | a', d'⟩ <;> rw [hrun] at hright <;> cases hright
        rename_i hrest'
        have hone : c1.rest = [b] := List.append_cancel_right (hrest.symm.trans hc')
        rw [hone] at hrest'
        exact ⟨d', rfl, hrest'⟩

end BlockModel.Scan
