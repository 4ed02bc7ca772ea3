import BlockModel.Proofs.Scan.Failing

/-! Where a failure comes from. When a plan fails, one refusal in it was met, at a cursor at which everything before
was read; what is read after that, to find a place for the failure, is no part of it. `Raises` follows a plan to the
refusal and also says where the payload was entered that holds it. A plan fails for a cause exactly if it raises
it. -/

namespace BlockModel.Scan

variable {α β σ : Type} {supply : Supply} {cause : Cause} {raised : Cursor} {entered : Option Cursor}
  {c c' : Cursor} {e : Failure}

/-- Carrying out the plan from the last cursor comes to a refusal for the cause, at `raised`. If that lies in a
payload, the outermost such payload was entered at `entered`. -/
inductive Raises (supply : Supply) (cause : Cause) (raised : Cursor) :
    {α : Type} → Option Cursor → Scan α → Cursor → Prop where
  | here {α : Type} {place : Place} : Raises supply cause raised none (fail place cause : Scan α) raised
  | first {α β : Type} {entered : Option Cursor} {p : Scan β} {k : β → Scan α} {c : Cursor}
      (h : Raises supply cause raised entered p c) : Raises supply cause raised entered (andThen p k) c
  | more {α β : Type} {entered : Option Cursor} {p : Scan β} {k : β → Scan α} {c c' : Cursor} {b : β}
      (hp : p.run supply c = (.ok b, c')) (h : Raises supply cause raised entered (k b) c') :
      Raises supply cause raised entered (andThen p k) c
  | inside {α : Type} {entered : Option Cursor} {p : Scan α} {close : Scan Unit} {c : Cursor}
      (h : Raises supply cause raised entered p c) : Raises supply cause raised entered (enclosed p close) c
  | close {α : Type} {entered : Option Cursor} {p : Scan α} {close : Scan Unit} {c c' : Cursor} {a : α}
      (hp : p.run supply c = (.ok a, c')) (h : Raises supply cause raised entered close c') :
      Raises supply cause raised entered (enclosed p close) c
  | payload {α : Type} {entered : Option Cursor} {p : Scan α} {c : Cursor}
      (h : Raises supply cause raised entered p c) : Raises supply cause raised (some c) (payload p) c
  | round {σ α : Type} {entered : Option Cursor} {s : σ} {round : σ → Scan (σ ⊕ α)} {c : Cursor}
      (h : Raises supply cause raised entered (round s) c) : Raises supply cause raised entered (loop s round) c
  | rounds {σ α : Type} {entered : Option Cursor} {s s' : σ} {round : σ → Scan (σ ⊕ α)} {c c' : Cursor}
      (hround : (round s).run supply c = (.ok (.inl s'), c')) (hmoved : c.offset < c'.offset)
      (h : Raises supply cause raised entered (loop s' round) c') :
      Raises supply cause raised entered (loop s round) c

/-- What is raised is what the plan fails for, and it is marked if it was raised in a payload. -/
theorem Raises.exists_error {p : Scan α} (h : Raises supply cause raised entered p c) :
    ∃ e c', p.run supply c = (.error e, c') ∧ e.cause = cause ∧ e.inPayload = entered.isSome := by
  induction h with
  | here => exact ⟨_, _, rfl, rfl, rfl⟩
  | first _ ih =>
      obtain ⟨e, c', hrun, he⟩ := ih
      exact ⟨e, c', run_bind_error hrun, he⟩
  | more hp _ ih =>
      obtain ⟨e, c', hrun, he⟩ := ih
      exact ⟨e, c', (run_bind_ok hp).trans hrun, he⟩
  | @inside α entered p close c _ ih =>
      obtain ⟨e, c', hrun, hcause, hmark⟩ := ih
      obtain ⟨e', d, hrun', hcause', hmark', -⟩ := run_enclosed_error hrun close
      exact ⟨e', d, hrun', hcause'.trans hcause, hmark'.trans hmark⟩
  | @close α entered p close c c' a hp _ ih =>
      obtain ⟨e, d, hrun, he⟩ := ih
      exact ⟨e, d, (run_enclosed_ok hp close).trans (run_bind_error hrun), he⟩
  | payload _ ih =>
      obtain ⟨e, c', hrun, hcause, -⟩ := ih
      exact ⟨{ e with inPayload := true }, c', by rw [run, hrun], hcause, rfl⟩
  | round _ ih =>
      obtain ⟨e, c', hrun, he⟩ := ih
      exact ⟨e, c', by rw [run_loop, hrun], he⟩
  | rounds hround hmoved _ ih =>
      obtain ⟨e, d, hrun, he⟩ := ih
      exact ⟨e, d, by rw [run_loop, hround]; simp only [if_pos hmoved, hrun], he⟩

/-- A plan without payloads refuses nothing in one. -/
theorem Regular.not_raises_inPayload {p : Scan α} (hp : Regular .outside p) {begun : Cursor} :
    ¬Raises supply cause raised (some begun) p c := by
  intro hraises
  obtain ⟨e, c', hrun, -, hmark⟩ := hraises.exists_error
  exact hp.inPayload_ne hrun hmark

/-- A cause that a refusal in a plan can have. -/
def Cause.IsRefusal (cause : Cause) : Prop := cause ≠ .stalled ∧ ∀ reason, cause ≠ .source reason

theorem isRefusal_data (fault : DataFault) : Cause.IsRefusal (.data fault) :=
  ⟨Cause.noConfusion, fun _ => Cause.noConfusion⟩

theorem not_isRefusal_of_atEnd {a : α} (h : atEnd supply a c = (.error e, c')) : ¬Cause.IsRefusal e.cause := by
  cases supply with
  | broken reason =>
      cases h
      exact fun hrefusal => hrefusal.2 reason rfl
  | document => cases h
  | stream => cases h

/-- Every failure that is a refusal was raised somewhere. -/
theorem exists_raises {p : Scan α} (h : p.run supply c = (.error e, c')) (hrefusal : Cause.IsRefusal e.cause) :
    ∃ raised entered, Raises supply e.cause raised entered p c ∧ e.inPayload = entered.isSome := by
  induction p generalizing c c' e with
  | done a => cases h
  | andThen first more ihfirst ihmore =>
      rcases error_bind h with hfirst | ⟨b, d, hfirst, hmore⟩
      · obtain ⟨raised, entered, hraises, hmark⟩ := ihfirst hfirst hrefusal
        exact ⟨raised, entered, .first hraises, hmark⟩
      · obtain ⟨raised, entered, hraises, hmark⟩ := ihmore b hmore hrefusal
        exact ⟨raised, entered, .more hfirst hraises, hmark⟩
  | peek =>
      rw [run] at h
      split at h
      · exact absurd hrefusal (not_isRefusal_of_atEnd h)
      · cases h
  | next =>
      rw [run] at h
      split at h
      · exact absurd hrefusal (not_isRefusal_of_atEnd h)
      · cases h
  | takeWhile test =>
      rw [run] at h
      split at h
      · exact absurd hrefusal (not_isRefusal_of_atEnd h)
      · cases h
  | fail place cause =>
      cases h
      exact ⟨_, none, .here, rfl⟩
  | report line => cases h
  | enclosed inside close ihinside ihclose =>
      rcases error_enclosed h with ⟨e', d, hinside, hcause, hmark, -⟩ | ⟨a, d, hinside, hclose⟩
      · obtain ⟨raised, entered, hraises, hmark'⟩ := ihinside hinside (hcause ▸ hrefusal)
        exact ⟨raised, entered, .inside (hcause ▸ hraises), hmark.trans hmark'⟩
      · obtain ⟨raised, entered, hraises, hmark⟩ := ihclose hclose hrefusal
        exact ⟨raised, entered, .close hinside hraises, hmark⟩
  | payload inside ih =>
      obtain ⟨e', hinside, rfl⟩ := error_payload h
      obtain ⟨raised, entered, hraises, -⟩ := ih hinside hrefusal
      exact ⟨raised, some c, .payload hraises, rfl⟩
  | attempt inside ih =>
      rw [run] at h
      split at h <;> cases h
  | loop init round ih =>
      induction hn : c.rest.length using Nat.strongRecOn generalizing init c with
      | ind n ihn =>
      rw [run_loop] at h
      rcases hround : (round init).run supply c with ⟨e' | s | a, d⟩ <;> rw [hround] at h <;> simp only at h
      · cases h
        obtain ⟨raised, entered, hraises, hmark⟩ := ih init hround hrefusal
        exact ⟨raised, entered, .round hraises, hmark⟩
      · have hlength := (Cursor.Reaches.of_run hround).offset_add_length
        split at h
        · rename_i hmoved
          obtain ⟨raised, entered, hraises, hmark⟩ := ihn d.rest.length (by omega) s h rfl
          exact ⟨raised, entered, .rounds hround hmoved hraises, hmark⟩
        · cases h
          exact absurd rfl hrefusal.1
      · cases h

namespace Raises

theorem of_bind {p : Scan β} {k : β → Scan α} (h : Raises supply cause raised entered (p >>= k) c) :
    Raises supply cause raised entered p c ∨
      ∃ b d, p.run supply c = (.ok b, d) ∧ Raises supply cause raised entered (k b) d := by
  change Raises supply cause raised entered (andThen p k) c at h
  cases h with
  | first h => exact .inl h
  | more hp h => exact .inr ⟨_, _, hp, h⟩

theorem of_enclosed {inside : Scan α} {close : Scan Unit}
    (h : Raises supply cause raised entered (enclosed inside close) c) :
    Raises supply cause raised entered inside c ∨ ∃ d, Raises supply cause raised entered close d := by
  cases h with
  | inside h => exact .inl h
  | close _ h => exact .inr ⟨_, h⟩

theorem of_payload {inside : Scan α} (h : Raises supply cause raised entered (Scan.payload inside) c) :
    entered = some c ∧ ∃ deeper, Raises supply cause raised deeper inside c := by
  cases h with
  | payload h => exact ⟨rfl, _, h⟩

/-- A loop refuses in one of its rounds, and those before took something each. -/
theorem of_loop {round : σ → Scan (σ ⊕ α)} {P : σ → Cursor → Prop}
    (hlast : ∀ s c, Raises supply cause raised entered (round s) c → P s c)
    (hnext : ∀ s c s' d, (round s).run supply c = (.ok (.inl s'), d) → P s' d → P s c) {s : σ}
    (h : Raises supply cause raised entered (loop s round) c) : P s c := by
  generalize hplan : loop s round = p at h
  induction h generalizing s with
  | here => cases hplan
  | first | more | inside | close | payload => cases hplan
  | round h =>
      cases hplan
      exact hlast _ _ h
  | rounds hround _ _ ih =>
      cases hplan
      exact hnext _ _ _ _ hround (ih hlast hnext rfl)

end Raises

end BlockModel.Scan
