import BlockModel.Proofs.Position
import BlockModel.Scan.Basic

/-! How far a plan comes. Reading never goes back: where a plan leaves off, some of the octets that were
ahead are taken and the others are still to come, and the place is the one after the octets taken. A
loop therefore needs no more rounds than there are octets, and unrolls into its first round and the
rest. -/

namespace BlockModel

namespace Cursor

/-- The second cursor is where the first comes by taking octets. -/
def Reaches (c c' : Cursor) : Prop :=
  ∃ taken, c.rest = taken ++ c'.rest ∧ c'.offset = c.offset + taken.length ∧
    c'.position = c.position.advance taken

theorem Reaches.refl (c : Cursor) : c.Reaches c := ⟨[], rfl, rfl, rfl⟩

theorem Reaches.trans {a b c : Cursor} (hab : a.Reaches b) (hbc : b.Reaches c) : a.Reaches c := by
  obtain ⟨xs, hrest, hoffset, hposition⟩ := hab
  obtain ⟨ys, hrest', hoffset', hposition'⟩ := hbc
  refine ⟨xs ++ ys, ?_, ?_, ?_⟩
  · rw [hrest, hrest', List.append_assoc]
  · rw [hoffset', hoffset, List.length_append, Nat.add_assoc]
  · rw [hposition', hposition, Position.advance_append]

theorem Reaches.offset_add_length {c c' : Cursor} (h : c.Reaches c') :
    c'.offset + c'.rest.length = c.offset + c.rest.length := by
  obtain ⟨taken, hrest, hoffset, -⟩ := h
  rw [hrest, hoffset, List.length_append, Nat.add_assoc]

theorem reaches_take {c : Cursor} {taken rest : List UInt8} (looked : Bool)
    (h : c.rest = taken ++ rest) : c.Reaches (c.take taken rest looked) :=
  ⟨taken, h, rfl, rfl⟩

end Cursor

namespace Scan

theorem reaches_atEnd {α : Type} (supply : Supply) (a : α) (c : Cursor) :
    c.Reaches (atEnd supply a c).2 := by
  cases supply <;> exact .refl c

section Rounds

variable {σ α : Type} {step : σ → Cursor → Outcome (σ ⊕ α)}

theorem reaches_rounds (hstep : ∀ s (c : Cursor), c.Reaches (step s c).2) (bound : List UInt8) (s : σ)
    (c : Cursor) : c.Reaches (rounds step bound s c).2 := by
  induction bound generalizing s c with
  | nil =>
      have h := hstep s c
      unfold rounds
      split <;> simp_all
  | cons _ bound ih =>
      have h := hstep s c
      unfold rounds
      split
      · simp_all
      · rename_i s' c' heq
        rw [heq] at h
        split
        · exact h.trans (ih s' c')
        · exact h
      · simp_all

/-- At the end of the octets a second round cannot have taken any. -/
theorem rounds_of_rest_nil (hstep : ∀ s (c : Cursor), c.Reaches (step s c).2) (bound : List UInt8) (s : σ)
    {c : Cursor} (hrest : c.rest = []) : rounds step bound s c = rounds step [] s c := by
  cases bound with
  | nil => rfl
  | cons _ bound =>
      have hlength := (hstep s c).offset_add_length
      rw [rounds, rounds]
      split
      · rfl
      · rename_i s' c' heq
        rw [heq, hrest] at hlength
        simp only [List.length_nil] at hlength
        rw [if_neg (by omega)]
      · rfl

/-- More rounds than octets are never needed. -/
theorem rounds_eq_of_le (hstep : ∀ s (c : Cursor), c.Reaches (step s c).2) (bound bound' : List UInt8)
    (s : σ) (c : Cursor) (hle : c.rest.length ≤ bound.length) (hle' : c.rest.length ≤ bound'.length) :
    rounds step bound s c = rounds step bound' s c := by
  induction bound generalizing bound' s c with
  | nil => exact (rounds_of_rest_nil hstep bound' s (List.eq_nil_of_length_eq_zero (Nat.le_zero.1 hle))).symm
  | cons _ bound ih =>
      cases bound' with
      | nil => exact rounds_of_rest_nil hstep _ s (List.eq_nil_of_length_eq_zero (Nat.le_zero.1 hle'))
      | cons _ bound' =>
          have hlength := (hstep s c).offset_add_length
          simp only [List.length_cons] at hle hle'
          rw [rounds, rounds]
          split
          · rfl
          · rename_i s' c' heq
            rw [heq] at hlength
            simp only at hlength
            split
            · exact ih bound' s' c' (by omega) (by omega)
            · rfl
          · rfl

end Rounds

theorem reaches_run {α : Type} (p : Scan α) (supply : Supply) (c : Cursor) :
    c.Reaches (p.run supply c).2 := by
  induction p generalizing c with
  | done a => exact .refl c
  | andThen first more ihfirst ihmore =>
      have hfirst := ihfirst c
      unfold run
      split
      · rename_i b c' heq
        rw [heq] at hfirst
        exact hfirst.trans (ihmore b c')
      · rename_i e c' heq
        rwa [heq] at hfirst
  | peek =>
      unfold run
      split
      · exact reaches_atEnd supply none c
      · exact ⟨[], rfl, rfl, rfl⟩
  | next =>
      unfold run
      split
      · exact reaches_atEnd supply none c
      · rename_i b rest hrest
        exact Cursor.reaches_take false hrest
  | takeWhile test =>
      have hsplit := List.takeWhile_append_dropWhile (p := test) (l := c.rest)
      unfold run
      split
      · rename_i hdrop
        rw [hdrop] at hsplit
        exact (Cursor.reaches_take false hsplit.symm).trans (reaches_atEnd supply _ _)
      · rename_i b rest hdrop
        rw [hdrop] at hsplit
        exact Cursor.reaches_take true hsplit.symm
  | fail place cause => exact .refl c
  | report line => exact ⟨[], rfl, rfl, rfl⟩
  | enclosed inside close ihinside ihclose =>
      have hinside := ihinside c
      unfold run
      split
      · rename_i a c1 heq
        rw [heq] at hinside
        have hclose := ihclose c1
        split <;> simp_all [hinside.trans]
      · rename_i e c1 heq
        rw [heq] at hinside
        split
        · exact hinside
        · exact hinside.trans (ihclose c1)
  | payload inside ih =>
      have h := ih c
      unfold run
      split <;> simp_all
  | attempt inside ih =>
      have h := ih c
      unfold run
      split <;> simp_all
  | loop init round ih => exact reaches_rounds ih c.rest init c

/-- A loop is its first round and the loop from where that round leaves off. -/
theorem run_loop {σ α : Type} (supply : Supply) (init : σ) (round : σ → Scan (σ ⊕ α)) (c : Cursor) :
    (loop init round).run supply c =
      match (round init).run supply c with
      | (.ok (.inr a), c') => (.ok a, c')
      | (.ok (.inl s), c') =>
        if c.offset < c'.offset then (loop s round).run supply c'
        else (.error ⟨.stalled, none, false⟩, c')
      | (.error e, c') => (.error e, c') := by
  have hstep : ∀ s (c : Cursor), c.Reaches ((round s).run supply c).2 :=
    fun s c => reaches_run (round s) supply c
  have hlength := (hstep init c).offset_add_length
  rw [run, rounds_eq_of_le hstep c.rest (0 :: c.rest) init c (Nat.le_refl _) (by simp), rounds]
  rcases hround : (round init).run supply c with ⟨e | s | a, c'⟩
  · rfl
  · rw [hround] at hlength
    simp only at hlength ⊢
    by_cases hmoved : c.offset < c'.offset
    · rw [if_pos hmoved, if_pos hmoved, run]
      exact rounds_eq_of_le hstep c.rest c'.rest s c' (by omega) (Nat.le_refl _)
    · rw [if_neg hmoved, if_neg hmoved]
  · rfl

/-- A round that takes something, and the loop from there. -/
theorem run_loop_next {σ α : Type} {supply : Supply} {round : σ → Scan (σ ⊕ α)} {s s' : σ} {c c' : Cursor}
    (h : (round s).run supply c = (.ok (.inl s'), c')) (hless : c'.rest.length < c.rest.length) :
    (loop s round).run supply c = (loop s' round).run supply c' := by
  have hlength := (reaches_run (round s) supply c).offset_add_length
  rw [h] at hlength
  simp only at hlength
  rw [run_loop, h]
  simp only
  rw [if_pos (by omega)]

end Scan

theorem Cursor.Reaches.of_run {α : Type} {p : Scan α} {supply : Supply} {c c' : Cursor} {r : Except Failure α}
    (h : p.run supply c = (r, c')) : c.Reaches c' := by
  have hreaches := Scan.reaches_run p supply c
  rwa [h] at hreaches

end BlockModel
