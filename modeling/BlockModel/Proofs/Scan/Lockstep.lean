import BlockModel.Proofs.Scan.Failing
import BlockModel.Proofs.Scan.Reads

/-! Two plans that go in lockstep. Wherever they start, on whatever source, they come to the same, places and report
included; or the first one gives up for a cause that is known beforehand. There is one rule for each way to build a
plan, so that two readers that differ in a single refusal are compared by their shape. -/

namespace BlockModel.Scan

variable {α β σ : Type} {cause : Cause}

/-- The plans come to the same, unless the first one fails for the cause, and not in a payload. -/
def Lockstep (cause : Cause) (p q : Scan α) : Prop :=
  ∀ (supply : Supply) (c : Cursor), p.run supply c = q.run supply c ∨
    ∃ e c', p.run supply c = (.error e, c') ∧ e.cause = cause ∧ e.inPayload = false

namespace Lockstep

theorem refl (p : Scan α) : Lockstep cause p p := fun _ _ => .inl rfl

theorem refuses (place : Place) (q : Scan α) : Lockstep cause (fail place cause) q :=
  fun _ c => .inr ⟨_, c, rfl, rfl, rfl⟩

theorem bind {p q : Scan β} {k l : β → Scan α} (hp : Lockstep cause p q)
    (hk : ∀ b, Lockstep cause (k b) (l b)) : Lockstep cause (p >>= k) (q >>= l) := by
  intro supply c
  rcases hp supply c with hsame | ⟨e, c', hrun, he⟩
  · rcases hq : q.run supply c with ⟨e | b, c'⟩ <;> rw [hq] at hsame
    · rw [run_bind_error hsame, run_bind_error hq]
      exact .inl rfl
    · rw [run_bind_ok hsame, run_bind_ok hq]
      exact hk b supply c'
  · exact .inr ⟨e, c', run_bind_error hrun, he⟩

/-- What both plans do first makes no difference between them. -/
theorem after (p : Scan β) {k l : β → Scan α} (hk : ∀ b, Lockstep cause (k b) (l b)) :
    Lockstep cause (p >>= k) (p >>= l) :=
  (refl p).bind hk

/-- What both plans do with the result makes no difference between them. -/
theorem before {p q : Scan β} (hp : Lockstep cause p q) (k : β → Scan α) : Lockstep cause (p >>= k) (q >>= k) :=
  hp.bind fun b => refl (k b)

/-- The close may come to something after a failure inside, but does not change why the inside failed. -/
theorem enclosed {inside inside' : Scan α} (h : Lockstep cause inside inside') (close : Scan Unit) :
    Lockstep cause (Scan.enclosed inside close) (Scan.enclosed inside' close) := by
  intro supply c
  rcases h supply c with hsame | ⟨e, c', hrun, hcause, hpayload⟩
  · rw [run, run, hsame]
    exact .inl rfl
  · obtain ⟨e', d, hrun', hcause', hpayload', -⟩ := run_enclosed_error hrun close
    exact .inr ⟨e', d, hrun', hcause'.trans hcause, hpayload'.trans hpayload⟩

/-- Rounds in lockstep take the same, so the loops go on from the same state at the same cursor. -/
theorem loop {round round' : σ → Scan (σ ⊕ α)} (h : ∀ s, Lockstep cause (round s) (round' s)) (init : σ) :
    Lockstep cause (Scan.loop init round) (Scan.loop init round') := by
  intro supply c
  induction hn : c.rest.length using Nat.strongRecOn generalizing init c with
  | ind n ih =>
  rw [run_loop, run_loop]
  rcases h init supply c with hsame | ⟨e, c', hrun, he⟩
  · rcases hround : (round' init).run supply c with ⟨e | s | a, c'⟩ <;> rw [hround] at hsame <;> rw [hsame]
    · exact .inl rfl
    · have hlength := (Cursor.Reaches.of_run hround).offset_add_length
      simp only
      by_cases hmoved : c.offset < c'.offset
      · rw [if_pos hmoved, if_pos hmoved]
        exact ih c'.rest.length (by omega) s c' rfl
      · rw [if_neg hmoved, if_neg hmoved]
        exact .inl rfl
    · exact .inl rfl
  · rw [hrun]
    exact .inr ⟨e, c', rfl, he⟩

theorem inList {inside inside' : Scan α} (h : Lockstep cause inside inside') :
    Lockstep cause (Scan.inList inside) (Scan.inList inside') :=
  .after skip fun _ => h.enclosed closeList

theorem inObject {inside inside' : Scan α} (h : Lockstep cause inside inside') :
    Lockstep cause (Scan.inObject inside) (Scan.inObject inside') :=
  .after skip fun _ => h.enclosed closeObject

theorem itemRound {item item' : Scan α} (h : Lockstep cause item item') (sofar : List α) :
    Lockstep cause (Scan.itemRound item sofar) (Scan.itemRound item' sofar) := by
  refine .after (hasItem sofar.isEmpty) fun has => ?_
  cases has with
  | false => exact .refl _
  | true => exact h.before _

theorem items {item item' : Scan α} (h : Lockstep cause item item') :
    Lockstep cause (Scan.items item) (Scan.items item') :=
  .before (.loop (itemRound h) []) _

theorem memberRound {member member' : σ → String → Scan σ}
    (h : ∀ s key, Lockstep cause (member s key) (member' s key)) (state : Bool × σ) :
    Lockstep cause (Scan.memberRound member state) (Scan.memberRound member' state) := by
  refine .after (hasMember state.1) fun has => ?_
  cases has with
  | false => exact .refl _
  | true => exact .after quoted fun key => (h state.2 key).before _

theorem members {member member' : σ → String → Scan σ}
    (h : ∀ s key, Lockstep cause (member s key) (member' s key)) (init : σ) :
    Lockstep cause (Scan.members init member) (Scan.members init member') :=
  .loop (memberRound h) (true, init)

theorem place? {item item' : Scan α} (h : Lockstep cause item item') (first : Bool) :
    Lockstep cause (Scan.place? first item) (Scan.place? first item') := by
  refine .after (hasItem first) fun has => ?_
  cases has with
  | false => exact .refl _
  | true => exact h.before _

theorem optional {value value' : Scan α} (h : Lockstep cause value value') :
    Lockstep cause (Scan.optional value) (Scan.optional value') := by
  refine .after peekPastBlanks fun b? => ?_
  by_cases hnull : b?.bind kind? = some .null
  · rw [if_pos hnull, if_pos hnull]
    exact .refl _
  · rw [if_neg hnull, if_neg hnull]
    exact h.before _

end Lockstep

theorem Reads.lockstep {m : Means} {limit : Nat} {P : α → Prop} {part : Part} {p q : Scan α}
    (h : Reads m limit part P p q) : Lockstep (.data (.conditionTooDeep limit)) p q := by
  induction h with
  | refused _ _ _ _ hlimit =>
      rcases hlimit with rfl | rfl
      · exact .refl _
      · exact .refuses _ _
  | report _ _ _ ih => exact .after _ fun _ => ih
  | before _ _ ih ihk => exact .bind ih ihk
  | mono _ _ ih => exact ih
  | optional _ ih => exact .optional ih
  | start _ _ ih => exact .after _ ih
  | inList _ _ ih => exact .inList ih
  | inPlaces _ _ _ ih => exact .after _ fun _ => ih.enclosed _
  | inObject _ _ ih => exact .inObject ih
  | items _ ih => exact .items ih
  | place _ _ _ ih ihk => exact .bind (.place? ih _) ihk
  | members _ _ _ ih ihk => exact .bind (.members ih _) ihk
  | colon _ ih => exact .after _ fun _ => ih
  | apply _ _ ih => exact .after _ fun _ => .after _ ih
  | pure | tree | skipValue | string | bool | int | judged | mismatch | tooDeep | boolWord | quoted | firstPlace |
    lastPlace => exact .refl _

end BlockModel.Scan
