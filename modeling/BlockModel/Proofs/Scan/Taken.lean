import BlockModel.Proofs.Json.Spelling
import BlockModel.Proofs.Scan.Progress

/-! What a plan has taken when it succeeds. One lemma for each way to build a plan leads from a success of the
whole to those of its parts, so the readers of the library are taken apart step by step, and every result is
found to be backed by a text in front of the place where the reader leaves off. All of this holds for every
source of octets: a stream that breaks off never makes a plan succeed by breaking off. -/

namespace BlockModel.Scan

variable {α β σ : Type} {supply : Supply} {c c' : Cursor}

theorem ok_pure {a b : α} (h : (pure a : Scan α).run supply c = (.ok b, c')) : b = a ∧ c' = c := by
  cases h
  exact ⟨rfl, rfl⟩

theorem ok_bind {p : Scan β} {k : β → Scan α} {a : α} (h : (p >>= k).run supply c = (.ok a, c')) :
    ∃ b d, p.run supply c = (.ok b, d) ∧ (k b).run supply d = (.ok a, c') := by
  rcases hp : p.run supply c with ⟨e | b, d⟩
  · rw [run_bind_error hp] at h
    cases h
  · rw [run_bind_ok hp] at h
    exact ⟨b, d, rfl, h⟩

theorem ok_map {p : Scan β} {f : β → α} {a : α} (h : (f <$> p).run supply c = (.ok a, c')) :
    ∃ b, p.run supply c = (.ok b, c') ∧ a = f b := by
  obtain ⟨b, d, hp, h⟩ := ok_bind h
  obtain ⟨rfl, rfl⟩ := ok_pure h
  exact ⟨b, hp, rfl⟩

theorem not_ok_refuse {place : Place} {fault : GrammarFault} {a : α} :
    (refuse place fault).run supply c ≠ (.ok a, c') := by
  intro h
  cases h

theorem not_ok_refuseData {place : Place} {fault : DataFault} {a : α} :
    (refuseData place fault).run supply c ≠ (.ok a, c') := by
  intro h
  cases h

theorem ok_peek {b? : Option UInt8} (h : peek.run supply c = (.ok b?, c')) :
    b? = c'.rest.head? ∧ c'.rest = c.rest := by
  rw [run] at h
  cases hrest : c.rest with
  | nil =>
      rw [hrest] at h
      cases supply <;> cases h <;> simp [hrest]
  | cons b r =>
      rw [hrest] at h
      cases h
      exact ⟨rfl, rfl⟩

theorem ok_next {b? : Option UInt8} (h : next.run supply c = (.ok b?, c')) :
    b? = c.rest.head? ∧ c'.rest = c.rest.tail := by
  rw [run] at h
  cases hrest : c.rest with
  | nil =>
      rw [hrest] at h
      cases supply <;> cases h <;> simp [hrest]
  | cons b r =>
      rw [hrest] at h
      cases h
      exact ⟨rfl, rfl⟩

theorem ok_takeWhile {test : UInt8 → Bool} {taken : List UInt8}
    (h : (takeWhile test).run supply c = (.ok taken, c')) :
    c.rest = taken ++ c'.rest ∧ (∀ b ∈ taken, test b = true) ∧ ∀ b ∈ c'.rest.head?, test b = false := by
  have hsplit := List.takeWhile_append_dropWhile (p := test) (l := c.rest)
  have htest : ∀ b ∈ c.rest.takeWhile test, test b = true := List.all_eq_true.1 List.all_takeWhile
  rw [run] at h
  cases hdrop : c.rest.dropWhile test with
  | nil =>
      rw [hdrop] at h hsplit
      cases supply <;> cases h <;> exact ⟨hsplit.symm, htest, fun b hb => absurd hb (Option.not_mem_none b)⟩
  | cons b r =>
      rw [hdrop] at h hsplit
      cases h
      refine ⟨hsplit.symm, htest, fun b' hb' => ?_⟩
      obtain rfl := Option.some.inj hb'
      have hhead := List.head?_dropWhile_not test c.rest
      rw [hdrop] at hhead
      simpa using hhead

theorem ok_enclosed {inside : Scan α} {close : Scan Unit} {a : α}
    (h : (enclosed inside close).run supply c = (.ok a, c')) :
    ∃ d, inside.run supply c = (.ok a, d) ∧ close.run supply d = (.ok (), c') := by
  rw [run] at h
  rcases hinside : inside.run supply c with ⟨e | b, d⟩ <;> rw [hinside] at h
  · simp only at h
    split at h <;> cases h
  · simp only at h
    rcases hclose : close.run supply d with ⟨e | u, d'⟩ <;> rw [hclose] at h <;> cases h
    exact ⟨d, rfl, hclose⟩

/-- A loop that succeeds has gone round until a last round, and each round before that took something. -/
theorem ok_loop {round : σ → Scan (σ ⊕ α)} {P : σ → Cursor → α → Cursor → Prop}
    (hlast : ∀ s c a c', (round s).run supply c = (.ok (.inr a), c') → P s c a c')
    (hnext : ∀ s c s' d a c', (round s).run supply c = (.ok (.inl s'), d) → P s' d a c' → P s c a c')
    {init : σ} {a : α} (h : (loop init round).run supply c = (.ok a, c')) : P init c a c' := by
  induction hn : c.rest.length using Nat.strongRecOn generalizing init c with
  | ind n ih =>
  rw [run_loop] at h
  rcases hround : (round init).run supply c with ⟨e | s | b, d⟩ <;> rw [hround] at h <;> simp only at h
  · cases h
  · have hlength := (reaches_run (round init) supply c).offset_add_length
    rw [hround] at hlength
    simp only at hlength
    split at h
    · exact hnext init c s d a c' hround (ih d.rest.length (by omega) h rfl)
    · cases h
  · cases h
    exact hlast init c a c' hround

theorem ok_next_some {b : UInt8} (h : next.run supply c = (.ok (some b), c')) :
    c.rest = b :: c'.rest ∧ c'.looked = false := by
  rw [run] at h
  cases hrest : c.rest with
  | nil =>
      rw [hrest] at h
      cases supply <;> cases h
  | cons b r =>
      rw [hrest] at h
      cases h
      exact ⟨rfl, rfl⟩

theorem ok_skip {u : Unit} (h : skip.run supply c = (.ok u, c')) : c'.rest = c.rest.tail := by
  obtain ⟨b?, d, hnext, h⟩ := ok_bind h
  obtain ⟨-, rfl⟩ := ok_pure h
  exact (ok_next hnext).2

theorem ok_skip_of_head {b : UInt8} {u : Unit} (h : skip.run supply c = (.ok u, c'))
    (hhead : c.rest.head? = some b) : c.rest = b :: c'.rest := by
  obtain ⟨r, hr⟩ := List.head?_eq_some_iff.1 hhead
  rw [ok_skip h, hr, List.tail_cons]

theorem ok_blanks {u : Unit} (h : blanks.run supply c = (.ok u, c')) :
    ∃ w, Blanks w ∧ c.rest = w ++ c'.rest ∧ ∀ b ∈ c'.rest.head?, Octet.isBlank b = false := by
  obtain ⟨w, d, htake, h⟩ := ok_bind h
  obtain ⟨-, rfl⟩ := ok_pure h
  obtain ⟨hrest, hw, hstop⟩ := ok_takeWhile htake
  exact ⟨w, hw, hrest, hstop⟩

theorem ok_peekPastBlanks {b? : Option UInt8} (h : peekPastBlanks.run supply c = (.ok b?, c')) :
    ∃ w, Blanks w ∧ c.rest = w ++ c'.rest ∧ b? = c'.rest.head? ∧ ∀ b ∈ b?, Octet.isBlank b = false := by
  obtain ⟨u, d, hblanks, h⟩ := ok_bind h
  obtain ⟨w, hw, hrest, hstop⟩ := ok_blanks hblanks
  obtain ⟨rfl, hrest'⟩ := ok_peek h
  rw [← hrest'] at hrest hstop
  exact ⟨w, hw, hrest, rfl, hstop⟩

/-- An octet that was found behind blanks. -/
theorem ok_peekPastBlanks_some {b : UInt8} (h : peekPastBlanks.run supply c = (.ok (some b), c')) :
    ∃ w r, Blanks w ∧ c.rest = w ++ b :: r ∧ c'.rest = b :: r ∧ Octet.isBlank b = false := by
  obtain ⟨w, hw, hrest, hhead, hblank⟩ := ok_peekPastBlanks h
  obtain ⟨r, hr⟩ := List.head?_eq_some_iff.1 hhead.symm
  exact ⟨w, r, hw, hr ▸ hrest, hr, hblank b rfl⟩

theorem blanks_eq_nil {w t : List UInt8} {b : UInt8} (hw : Blanks w) (hhead : (w ++ t).head? = some b)
    (hb : Octet.isBlank b = false) : w = [] := by
  cases w with
  | nil => rfl
  | cons b' w =>
      obtain rfl := Option.some.inj hhead
      rw [hw b' List.mem_cons_self] at hb
      cases hb

/-- Where no blank stands there is nothing to pass. -/
theorem ok_peekPastBlanks_of_head {b? : Option UInt8} {b : UInt8} {t : List UInt8}
    (h : peekPastBlanks.run supply c = (.ok b?, c')) (hrest : c.rest = b :: t) (hb : Octet.isBlank b = false) :
    b? = some b ∧ c'.rest = b :: t := by
  obtain ⟨w, hw, hrest', hhead, -⟩ := ok_peekPastBlanks h
  rw [hrest] at hrest'
  obtain rfl := blanks_eq_nil hw (congrArg List.head? hrest'.symm) hb
  rw [List.nil_append] at hrest'
  rw [hhead, ← hrest']
  exact ⟨rfl, rfl⟩

theorem ok_valueStart {b : UInt8} (h : valueStart.run supply c = (.ok b, c')) :
    ∃ w r, Blanks w ∧ c.rest = w ++ b :: r ∧ c'.rest = b :: r ∧ Octet.isBlank b = false := by
  obtain ⟨b?, d, hpeek, h⟩ := ok_bind h
  cases b? with
  | none => exact absurd h not_ok_refuse
  | some b' =>
      obtain ⟨rfl, rfl⟩ := ok_pure h
      exact ok_peekPastBlanks_some hpeek

theorem ok_word {letters : List UInt8} {u : Unit} (h : (word letters).run supply c = (.ok u, c')) :
    c.rest = letters ++ c'.rest := by
  induction letters generalizing c with
  | nil =>
      obtain ⟨-, rfl⟩ := ok_pure h
      rfl
  | cons letter rest ih =>
      obtain ⟨b?, d, hnext, h⟩ := ok_bind h
      cases b? with
      | none => exact absurd h not_ok_refuse
      | some b =>
          simp only at h
          split at h
          · rename_i hb
            rw [(ok_next_some hnext).1, hb, ih h, List.cons_append]
          · exact absurd h not_ok_refuse

/-- A word behind its first letter, which was looked at. -/
theorem ok_skip_word {first : UInt8} {letters r : List UInt8} {u : Unit}
    (h : (do skip; word letters : Scan Unit).run supply c = (.ok u, c')) (hrest : c.rest = first :: r) :
    c.rest = first :: letters ++ c'.rest := by
  obtain ⟨u', d, hskip, h⟩ := ok_bind h
  have hd := ok_skip hskip
  rw [hrest, List.tail_cons] at hd
  rw [hrest, ← hd, ok_word h, List.cons_append]

end BlockModel.Scan
