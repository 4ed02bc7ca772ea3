import BlockModel.Proofs.Scan.Gives

/-! What a plan comes to on a document, whatever the fault. `Gives` follows a reader where the text can only have the
wrong shape; a text of the right form may also hold escapes that make up no character, numbers beyond double
precision, and lists and objects in too great a number. `Comes` has the failure in its result, with its cause and its
mark; the place of the failure is left open. -/

namespace BlockModel

/-- A failure of which the place is left open. -/
def Failure.of (cause : Cause) : Failure := ⟨cause, none, false⟩

/-- A failure in what a multipart case applies. -/
def Failure.ofPayload (e : Failure) : Failure := { e with inPayload := true }

namespace Scan

/-- From every cursor with the first view, the plan ends with the value at a cursor with the second one, or it fails
for the cause and with the mark of the failure. -/
def Comes {α : Type} (p : Scan α) (v : View) (r : Except Failure α) (v' : View) : Prop :=
  ∀ c : Cursor, c.view = v →
    match r with
    | .ok a => ∃ c', p.run .document c = (.ok a, c') ∧ c'.view = v'
    | .error e => ∃ e' c', p.run .document c = (.error e', c') ∧ e'.cause = e.cause ∧ e'.inPayload = e.inPayload

variable {α β σ : Type} {v v' v'' : View}

theorem Comes.gives {p : Scan α} {a : α} (h : Comes p v (.ok a) v') : Gives p v (.ok a) v' := h

namespace Gives

theorem comes {p : Scan α} {a : α} (h : Gives p v (.ok a) v') : Comes p v (.ok a) v' := h

/-- What a plan comes to after one that gives a value. -/
theorem before {p : Scan β} {k : β → Scan α} {b : β} {r : Except Failure α} (hp : Gives p v (.ok b) v')
    (hk : Comes (k b) v' r v'') : Comes (p >>= k) v r v'' := by
  intro c hc
  obtain ⟨c', hrun, hc'⟩ := hp c hc
  rw [run_bind_ok hrun]
  exact hk c' hc'

end Gives

namespace Comes

theorem pure (a : α) (v : View) : Comes (Pure.pure a) v (.ok a) v := fun c hc => ⟨c, rfl, hc⟩

theorem fail (place : Place) (cause : Cause) : Comes (Scan.fail place cause : Scan α) v (.error (.of cause)) v' :=
  fun c _ => ⟨_, c, rfl, rfl, rfl⟩

theorem bind_error {p : Scan β} {k : β → Scan α} {e : Failure} (hp : Comes p v (.error e) v') :
    Comes (p >>= k) v (.error e) v'' := by
  intro c hc
  obtain ⟨e', c', hrun, he⟩ := hp c hc
  exact ⟨e', c', run_bind_error hrun, he⟩

theorem bind {p : Scan β} {k : β → Scan α} {r : Except Failure β} {g : β → Except Failure α}
    (hp : Comes p v r v') (hk : ∀ b, r = .ok b → Comes (k b) v' (g b) v'') : Comes (p >>= k) v (r >>= g) v'' := by
  cases r with
  | ok b => exact hp.gives.before (hk b rfl)
  | error e => exact hp.bind_error

theorem map {p : Scan β} {r : Except Failure β} (g : β → α) (hp : Comes p v r v') :
    Comes (g <$> p) v (g <$> r) v' := by
  cases r with
  | ok b => exact hp.gives.before (.pure (g b) v')
  | error e => exact hp.bind_error

/-- A failure inside is the failure of the whole, whatever the close comes to. -/
theorem enclosed {inside : Scan α} {close : Scan Unit} {r : Except Failure α} (hinside : Comes inside v r v')
    (hclose : Gives close v' (.ok ()) v'') : Comes (Scan.enclosed inside close) v r v'' := by
  cases r with
  | ok a => exact hinside.gives.enclosed hclose
  | error e =>
      intro c hc
      obtain ⟨e', c', hrun, he⟩ := hinside c hc
      rw [run, hrun]
      simp only
      split
      · exact ⟨_, _, rfl, he⟩
      · exact ⟨_, _, rfl, he⟩

theorem payload {inside : Scan α} {r : Except Failure α} (hinside : Comes inside v r v') :
    Comes (Scan.payload inside) v (r.mapError .ofPayload) v' := by
  cases r with
  | ok a => exact hinside.gives.payload
  | error e =>
      intro c hc
      obtain ⟨e', c', hrun, hcause, -⟩ := hinside c hc
      exact ⟨{ e' with inPayload := true }, c', by rw [run, hrun], hcause, rfl⟩

section Loop

variable {round : σ → Scan (σ ⊕ α)} {s s' : σ} {r : Except Failure α}

theorem loop_error {e : Failure} (hround : Comes (round s) v (.error e) v') :
    Comes (Scan.loop s round) v (.error e) v' := by
  intro c hc
  obtain ⟨e', c', hrun, he⟩ := hround c hc
  exact ⟨e', c', by rw [run_loop, hrun], he⟩

/-- A round that takes something, and the loop from there. -/
theorem loop_next (hround : Gives (round s) v (.ok (.inl s')) v') (hless : v'.rest.length < v.rest.length)
    (hloop : Comes (Scan.loop s' round) v' r v'') : Comes (Scan.loop s round) v r v'' := by
  intro c hc
  obtain ⟨c', hrun, hc'⟩ := hround c hc
  rw [← hc, ← hc'] at hless
  rw [run_loop_next hrun hless]
  exact hloop c' hc'

end Loop

end Comes

end Scan

end BlockModel
