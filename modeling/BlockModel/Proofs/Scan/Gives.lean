import BlockModel.Proofs.Scan.Progress
import BlockModel.Scan.Token

/-! What a plan comes to on a document. Two cursors with the same octets ahead and the same report differ
in their places only, and places decide no result. `Gives` is that relation from the view before a plan
to its result and the view after it; there is one rule for each way to build a plan, so that the readers
of the library are followed step by step without carrying cursors along. -/

namespace BlockModel

/-- The octets ahead and the lines reported so far. -/
structure View where
  rest : List UInt8
  log : List LogLine

def Cursor.view (c : Cursor) : View := ⟨c.rest, c.log⟩

namespace Scan

/-- From every cursor with the first view, the plan ends with the value at a cursor with the second one,
or it fails for the shape fault. -/
def Gives {α : Type} (p : Scan α) (v : View) (r : Except DataFault α) (v' : View) : Prop :=
  ∀ c : Cursor, c.view = v →
    match r with
    | .ok a => ∃ c', p.run .document c = (.ok a, c') ∧ c'.view = v'
    | .error fault => ∃ e c', p.run .document c = (.error e, c') ∧ e.cause = .data fault

namespace Gives

variable {α β σ : Type} {v v' v'' : View} {l : List LogLine}

theorem pure (a : α) (v : View) : Gives (Pure.pure a) v (.ok a) v := fun c hc => ⟨c, rfl, hc⟩

theorem bind_ok {p : Scan β} {k : β → Scan α} {b : β} {r : Except DataFault α}
    (hp : Gives p v (.ok b) v') (hk : Gives (k b) v' r v'') : Gives (p >>= k) v r v'' := by
  intro c hc
  obtain ⟨c', hrun, hc'⟩ := hp c hc
  rw [run_bind_ok hrun]
  exact hk c' hc'

theorem bind_error {p : Scan β} {k : β → Scan α} {fault : DataFault}
    (hp : Gives p v (.error fault) v') : Gives (p >>= k) v (.error fault) v'' := by
  intro c hc
  obtain ⟨e, c', hrun, he⟩ := hp c hc
  exact ⟨e, c', run_bind_error hrun, he⟩

/-- The rest is followed only where the first part gives a value. -/
theorem bind {p : Scan β} {k : β → Scan α} {r : Except DataFault β} {r' : β → Except DataFault α}
    (hp : Gives p v r v') (hk : ∀ b, r = .ok b → Gives (k b) v' (r' b) v'') : Gives (p >>= k) v (r >>= r') v'' := by
  cases r with
  | ok b => exact hp.bind_ok (hk b rfl)
  | error fault => exact hp.bind_error

theorem map {p : Scan β} {r : Except DataFault β} (g : β → α) (hp : Gives p v r v') :
    Gives (g <$> p) v (g <$> r) v' := by
  cases r with
  | ok b => exact hp.bind_ok (.pure (g b) v')
  | error fault => exact hp.bind_error

theorem peek (b : UInt8) (t : List UInt8) : Gives Scan.peek ⟨b :: t, l⟩ (.ok (some b)) ⟨b :: t, l⟩ := by
  intro c hc
  obtain ⟨hrest, hlog⟩ := View.mk.inj hc
  refine ⟨{ c with looked := true }, ?_, hc⟩
  rw [run, hrest]

theorem peek_nil : Gives Scan.peek ⟨[], l⟩ (.ok none) ⟨[], l⟩ := by
  intro c hc
  obtain ⟨hrest, hlog⟩ := View.mk.inj hc
  refine ⟨c, ?_, hc⟩
  rw [run, hrest]
  rfl

theorem next (b : UInt8) (t : List UInt8) : Gives Scan.next ⟨b :: t, l⟩ (.ok (some b)) ⟨t, l⟩ := by
  intro c hc
  obtain ⟨hrest, hlog⟩ := View.mk.inj hc
  refine ⟨c.take [b] t false, ?_, congrArg (View.mk t) hlog⟩
  rw [run, hrest]

theorem skip (b : UInt8) (t : List UInt8) : Gives Scan.skip ⟨b :: t, l⟩ (.ok ()) ⟨t, l⟩ :=
  (next b t).bind_ok (.pure () _)

/-- A run of octets that pass a test, up to one that does not or to the end. -/
theorem takeWhile {test : UInt8 → Bool} {taken t : List UInt8} (htaken : ∀ b ∈ taken, test b = true)
    (hstop : ∀ b ∈ t.head?, test b = false) :
    Gives (Scan.takeWhile test) ⟨taken ++ t, l⟩ (.ok taken) ⟨t, l⟩ := by
  intro c hc
  obtain ⟨hrest, hlog⟩ := View.mk.inj hc
  have hnone : t.takeWhile test = [] ∧ t.dropWhile test = t := by
    cases t with
    | nil => exact ⟨rfl, rfl⟩
    | cons b t =>
        have hb := hstop b rfl
        exact ⟨by rw [List.takeWhile_cons, hb]; rfl, by rw [List.dropWhile_cons, hb]; rfl⟩
  have htake : c.rest.takeWhile test = taken := by
    rw [hrest, List.takeWhile_append_of_pos htaken, hnone.1, List.append_nil]
  have hdrop : c.rest.dropWhile test = t := by
    rw [hrest, List.dropWhile_append_of_pos htaken, hnone.2]
  rw [run, htake, hdrop]
  cases t with
  | nil => exact ⟨_, rfl, congrArg (View.mk []) hlog⟩
  | cons b t => exact ⟨_, rfl, congrArg (View.mk (b :: t)) hlog⟩

theorem refuseData (place : Place) (fault : DataFault) :
    Gives (Scan.refuseData place fault : Scan α) v (.error fault) v' :=
  fun c _ => ⟨_, c, rfl, rfl⟩

theorem report (line : LogLine) (u : List UInt8) :
    Gives (Scan.report line) ⟨u, l⟩ (.ok ()) ⟨u, l ++ [line]⟩ := by
  intro c hc
  obtain ⟨hrest, hlog⟩ := View.mk.inj hc
  exact ⟨_, rfl, by rw [Cursor.view, hrest, hlog]⟩

theorem enclosed {inside : Scan α} {close : Scan Unit} {r : Except DataFault α}
    (hinside : Gives inside v r v') (hclose : Gives close v' (.ok ()) v'') :
    Gives (Scan.enclosed inside close) v r v'' := by
  intro c hc
  cases r with
  | ok a =>
      obtain ⟨c', hrun, hc'⟩ := hinside c hc
      obtain ⟨c'', hrun', hc''⟩ := hclose c' hc'
      exact ⟨c'', by rw [run, hrun]; simp only [hrun'], hc''⟩
  | error fault =>
      obtain ⟨e, c', hrun, he⟩ := hinside c hc
      rw [run, hrun]
      simp only
      split
      · exact ⟨_, _, rfl, he⟩
      · exact ⟨_, _, rfl, he⟩

theorem payload {inside : Scan α} {r : Except DataFault α} (hinside : Gives inside v r v') :
    Gives (Scan.payload inside) v r v' := by
  intro c hc
  cases r with
  | ok a =>
      obtain ⟨c', hrun, hc'⟩ := hinside c hc
      exact ⟨c', by rw [run, hrun], hc'⟩
  | error fault =>
      obtain ⟨e, c', hrun, he⟩ := hinside c hc
      exact ⟨{ e with inPayload := true }, c', by rw [run, hrun], he⟩

theorem attempt_ok {inside : Scan α} {a : α} (hinside : Gives inside v (.ok a) v') :
    Gives (Scan.attempt inside) v (.ok (some a)) v' := by
  intro c hc
  obtain ⟨c', hrun, hc'⟩ := hinside c hc
  exact ⟨c', by rw [run, hrun], hc'⟩

section Loop

variable {round : σ → Scan (σ ⊕ α)} {s s' : σ}

theorem loop_last {a : α} (hround : Gives (round s) v (.ok (.inr a)) v') :
    Gives (Scan.loop s round) v (.ok a) v' := by
  intro c hc
  obtain ⟨c', hrun, hc'⟩ := hround c hc
  exact ⟨c', by rw [run_loop, hrun], hc'⟩

theorem loop_error {fault : DataFault} (hround : Gives (round s) v (.error fault) v') :
    Gives (Scan.loop s round) v (.error fault) v'' := by
  intro c hc
  obtain ⟨e, c', hrun, he⟩ := hround c hc
  exact ⟨e, c', by rw [run_loop, hrun], he⟩

/-- A round that takes something, and the loop from there. -/
theorem loop_next {r : Except DataFault α} (hround : Gives (round s) v (.ok (.inl s')) v')
    (hless : v'.rest.length < v.rest.length) (hloop : Gives (Scan.loop s' round) v' r v'') :
    Gives (Scan.loop s round) v r v'' := by
  intro c hc
  obtain ⟨c', hrun, hc'⟩ := hround c hc
  rw [← hc, ← hc'] at hless
  rw [run_loop_next hrun hless]
  exact hloop c' hc'

end Loop

end Gives

end Scan

end BlockModel
