import BlockModel.Proofs.Scan.Reads
import BlockModel.Proofs.Scan.Skipped

/-! Taking something. A loop ends because each of its rounds takes an octet or is the last one; that is a
property of the round, found by following its plan up to the first octet that is certain to be taken. The reader of
any value takes something. -/

namespace BlockModel.Scan

/-- Wherever the plan succeeds with a result that counts, before the given octet if one is given, it has taken
something. -/
def Advances {α : Type} (counts : α → Prop) (ahead : Option UInt8) (p : Scan α) : Prop :=
  ∀ supply c a c', p.run supply c = (.ok a, c') → counts a → (∀ b ∈ ahead, c.rest.head? = some b) →
    c'.rest.length < c.rest.length

/-- Every result counts. -/
def always {α : Type} (_ : α) : Prop := True

/-- A round counts that another one follows. -/
def goesOn {σ α : Type} (result : σ ⊕ α) : Prop := result.isLeft = true

theorem not_goesOn_inr {σ α : Type} (a : α) : ¬goesOn (.inr a : σ ⊕ α) := Bool.false_ne_true

variable {α β σ : Type} {supply : Supply} {c c' : Cursor} {counts : α → Prop}
  {ahead : Option UInt8}

theorem length_le_of_reaches (h : c.Reaches c') : c'.rest.length ≤ c.rest.length := by
  obtain ⟨taken, hrest, -⟩ := h
  rw [hrest, List.length_append]
  exact Nat.le_add_left _ _

theorem length_le_of_run {p : Scan α} {r : Except Failure α} (h : p.run supply c = (r, c')) :
    c'.rest.length ≤ c.rest.length :=
  length_le_of_reaches (.of_run h)

namespace Advances

theorem pure {a : α} (h : ¬counts a) : Advances counts ahead (pure a) := by
  intro supply c a' c' hrun ha _
  obtain ⟨rfl, -⟩ := ok_pure hrun
  exact absurd ha h

theorem refuse (place : Place) (fault : GrammarFault) : Advances counts ahead (Scan.refuse place fault) :=
  fun _ _ _ _ h => absurd h not_ok_refuse

theorem refuseData (place : Place) (fault : DataFault) : Advances counts ahead (Scan.refuseData place fault) :=
  fun _ _ _ _ h => absurd h not_ok_refuseData

theorem ite {condition : Prop} [Decidable condition] {p q : Scan α} (hp : Advances counts ahead p)
    (hq : Advances counts ahead q) : Advances counts ahead (if condition then p else q) := by
  split
  · exact hp
  · exact hq

theorem bind {p : Scan β} (hp : Advances always ahead p) (k : β → Scan α) :
    Advances counts ahead (p >>= k) := by
  intro supply c a c' h _ hahead
  obtain ⟨b, d, hfirst, hmore⟩ := ok_bind h
  exact Nat.lt_of_le_of_lt (length_le_of_run hmore) (hp _ _ _ _ hfirst trivial hahead)

theorem after {k : β → Scan α} (hk : ∀ b, Advances counts none (k b)) (p : Scan β) :
    Advances counts ahead (p >>= k) := by
  intro supply c a c' h ha _
  obtain ⟨b, d, hfirst, hmore⟩ := ok_bind h
  exact Nat.lt_of_lt_of_le (hk b _ _ _ _ hmore ha fun b hb => absurd hb (Option.not_mem_none b))
    (length_le_of_run hfirst)

/-- A plan that looks at the octet ahead, and goes on from there. -/
theorem looked {p : Scan (Option UInt8)}
    (hp : ∀ supply c b? c', p.run supply c = (.ok b?, c') → b? = c'.rest.head?) {k : Option UInt8 → Scan α}
    (hnone : Advances counts none (k none)) (hsome : ∀ b, Advances counts (some b) (k (some b))) :
    Advances counts ahead (p >>= k) := by
  intro supply c a c' h ha _
  obtain ⟨b?, d, hpeek, hmore⟩ := ok_bind h
  have hhead := hp _ _ _ _ hpeek
  refine Nat.lt_of_lt_of_le ?_ (length_le_of_run hpeek)
  cases b? with
  | none => exact hnone _ _ _ _ hmore ha fun b hb => absurd hb (Option.not_mem_none b)
  | some b =>
      refine hsome b _ _ _ _ hmore ha fun b' hb' => ?_
      obtain rfl := Option.some.inj hb'
      exact hhead.symm

theorem peek {k : Option UInt8 → Scan α} (hnone : Advances counts none (k none))
    (hsome : ∀ b, Advances counts (some b) (k (some b))) : Advances counts ahead (Scan.peek >>= k) :=
  looked (fun _ _ _ _ h => (ok_peek h).1) hnone hsome

theorem peekPastBlanks {k : Option UInt8 → Scan α} (hnone : Advances counts none (k none))
    (hsome : ∀ b, Advances counts (some b) (k (some b))) : Advances counts ahead (Scan.peekPastBlanks >>= k) := by
  refine looked (fun _ _ _ _ h => ?_) hnone hsome
  obtain ⟨w, -, -, hhead, -⟩ := ok_peekPastBlanks h
  exact hhead

theorem valueStart {k : UInt8 → Scan α} (h : ∀ b, Advances counts (some b) (k b)) :
    Advances counts ahead (Scan.valueStart >>= k) := by
  intro supply c a c' hrun ha _
  obtain ⟨b, d, hstart, hmore⟩ := ok_bind hrun
  obtain ⟨w, r, -, -, hd, -⟩ := ok_valueStart hstart
  refine Nat.lt_of_lt_of_le (h b _ _ _ _ hmore ha fun b' hb' => ?_) (length_le_of_run hstart)
  obtain rfl := Option.some.inj hb'
  rw [hd]
  rfl

theorem skip (b : UInt8) : Advances always (some b) Scan.skip := by
  intro supply c u c' h _ hahead
  rw [ok_skip_of_head h (hahead b rfl), List.length_cons]
  exact Nat.lt_succ_self _

theorem next {k : Option UInt8 → Scan α} (hnone : Advances counts none (k none)) :
    Advances counts ahead (Scan.next >>= k) := by
  intro supply c a c' h ha _
  obtain ⟨b?, d, hnext, hmore⟩ := ok_bind h
  cases b? with
  | none =>
      exact Nat.lt_of_lt_of_le (hnone _ _ _ _ hmore ha fun b hb => absurd hb (Option.not_mem_none b))
        (length_le_of_run hnext)
  | some b =>
      refine Nat.lt_of_le_of_lt (length_le_of_run hmore) ?_
      rw [(ok_next_some hnext).1, List.length_cons]
      exact Nat.lt_succ_self _

theorem enclosed {close : Scan Unit} (hclose : Advances always none close) (inside : Scan α) :
    Advances counts ahead (Scan.enclosed inside close) := by
  intro supply c a c' h _ _
  obtain ⟨d, hinside, hclose'⟩ := ok_enclosed h
  exact Nat.lt_of_lt_of_le (hclose _ _ _ _ hclose' trivial fun b hb => absurd hb (Option.not_mem_none b))
    (length_le_of_run hinside)

theorem inString : Advances always ahead Scan.inString := .next (.refuse _ _)

theorem word {letter : UInt8} (letters : List UInt8) : Advances always ahead (Scan.word (letter :: letters)) :=
  .next (.refuse _ _)

theorem nullWord : Advances always ahead Scan.nullWord := .after (fun _ => .word _) _

theorem boolWord (b : Bool) : Advances always ahead (Scan.boolWord b) := by
  cases b <;> exact .after (fun _ => .word _) _

theorem quoted : Advances always ahead Scan.quoted := by
  intro supply c str c' h _ _
  obtain ⟨body, -, hrest⟩ := ok_quoted h
  have hlength := congrArg List.length hrest
  rw [List.length_tail, List.length_append, List.length_cons] at hlength
  omega

theorem closeListLooking (look : Scan (Option UInt8)) : Advances always ahead (Scan.closeListLooking look) :=
  .peekPastBlanks (.refuse _ _) fun b => .ite (.skip b) (.ite (.bind (.skip b) _) (.refuse _ _))

theorem closeObject : Advances always ahead Scan.closeObject :=
  .peekPastBlanks (.refuse _ _) fun _ => .ite (.skip _) (.ite (.refuse _ _) (.refuse _ _))

theorem inObject (inside : Scan α) : Advances counts ahead (Scan.inObject inside) :=
  .after (fun _ => .enclosed .closeObject inside) _

theorem number (first : UInt8) : Advances always ahead (Scan.number first) := by
  have hunsigned : ∀ {ahead : Option UInt8} (negative : Bool), Advances always ahead (Scan.unsigned negative) :=
    fun _ => .next (.refuse _ _)
  exact .ite (.after (fun _ => hunsigned _) _) (hunsigned _)

theorem skipValue : Advances always ahead Scan.skipValue := by
  intro supply c u c' h _ _
  obtain ⟨w, s, j, -, hs, hrest⟩ := ok_skipValue h
  obtain ⟨b, r, rfl, -⟩ := hs.kind?_head
  rw [hrest, List.length_append, List.length_append, List.length_cons]
  omega

theorem tree (room : Nat) : Advances always ahead (Scan.tree room) := by
  intro supply c j c' h _ _
  obtain ⟨-, w, s, -, hs, -, hrest⟩ := ok_tree h
  obtain ⟨b, r, rfl, -⟩ := hs.form.kind?_head
  rw [hrest, List.length_append, List.length_append, List.length_cons]
  omega

theorem tooDeep : Advances counts ahead (Scan.tooDeep : Scan α) := .refuse _ _

theorem mismatch (expected : String) (b : UInt8) : Advances counts ahead (Scan.mismatch expected b : Scan α) :=
  .after (fun _ => .refuseData _ _) _

theorem stringRound (sofar : List UInt8) : Advances goesOn ahead (Scan.stringRound sofar) :=
  .after (fun _ => .bind .inString _) _

theorem exponentRound (sofar : Nat) : Advances goesOn ahead (Scan.exponentRound sofar) :=
  .peek (.pure (not_goesOn_inr _)) fun _ => .ite (.bind (.skip _) _) (.pure (not_goesOn_inr _))

theorem itemRound {item : Scan α} (hitem : Advances always none item) (sofar : List α) :
    Advances goesOn ahead (Scan.itemRound item sofar) :=
  .after (fun _ => .ite (.bind hitem _) (.pure (not_goesOn_inr _))) _

theorem memberRound (member : σ → String → Scan σ) (state : Bool × σ) :
    Advances goesOn ahead (Scan.memberRound member state) :=
  .after (fun _ => .ite (.bind .quoted _) (.pure (not_goesOn_inr _))) _

theorem skipStringRound (u : Unit) : Advances goesOn ahead (Scan.skipStringRound u) :=
  .after (fun _ => .peek (.refuse _ _) fun _ => .ite (.bind (.skip _) _)
    (.ite (.bind (.skip _) _) (.refuse _ _))) _

theorem skipUnsigned : Advances always ahead Scan.skipUnsigned := .next (.refuse _ _)

theorem skipNumber (first : UInt8) : Advances always ahead (Scan.skipNumber first) :=
  .ite (.after (fun _ => .skipUnsigned) _) .skipUnsigned

theorem skipQuoted (b : UInt8) : Advances always (some b) Scan.skipQuoted := .bind (.skip b) _

theorem skipKey : Advances always ahead Scan.skipKey :=
  .peekPastBlanks (.refuse _ _) fun b => .ite (.bind (.skipQuoted b) _) (.refuse _ _)

theorem skipHead (opened : List Enclosure) : Advances always ahead (Scan.skipHead opened) := by
  refine .valueStart fun b => ?_
  cases kind? b with
  | none => exact .refuse _ _
  | some kind =>
      cases kind with
      | null => exact .bind .nullWord _
      | bool v => exact .bind (.boolWord v) _
      | number => exact .bind (.skipNumber b) _
      | string => exact .bind (.skipQuoted b) _
      | list | object => exact .bind (.skip b) _

theorem skipRound (state : SkipState) : Advances goesOn ahead (Scan.skipRound state) := by
  cases state with
  | before opened => exact .bind (.skipHead opened) _
  | within innermost others =>
      refine .peekPastBlanks (.refuse _ _) fun b => .ite (.bind (.skip b) _) ?_
      cases innermost with
      | list => exact .bind (.skipHead _) _
      | object => exact .bind .skipKey _
  | after opened =>
      cases opened with
      | nil => exact .pure (not_goesOn_inr _)
      | cons innermost others =>
          refine .peekPastBlanks (.refuse _ _) fun b => .ite (.bind (.skip b) _) (.ite ?_ (.refuse _ _))
          cases innermost with
          | list | object => exact .bind (.skip b) _

end Advances

/-- The part takes something, at least where it is known to begin with the octet ahead. -/
def Part.Takes : Part → Option UInt8 → Prop
  | .value _, _ => True
  | .opened b, ahead => ahead = some b
  | .items _, _ | .members, _ | .member _, _ | .done _, _ => False

theorem Reads.advances {m : Means} {limit : Nat} {P : α → Prop} {part : Part} {p q : Scan α}
    (h : Reads m limit part P p q) (hpart : part.Takes ahead) : Advances always ahead p := by
  induction h generalizing ahead with
  | pure | items | place | firstPlace | lastPlace | members | colon | apply => cases hpart
  | refused => exact .refuseData _ _
  | @report _ _ part _ _ hreported => cases part <;> cases hreported <;> cases hpart
  | before _ _ ih => exact .bind (ih hpart) _
  | mono _ _ ih => exact ih hpart
  | tree _ room => exact .tree room
  | skipValue => exact .skipValue
  | string => exact .valueStart fun b => .ite .quoted (.mismatch _ b)
  | bool =>
      refine .valueStart fun b => ?_
      split
      · exact .bind (.boolWord _) _
      · exact .mismatch _ b
  | int => exact .valueStart fun b => .ite (.bind (.number b) _) (.mismatch _ b)
  | optional _ ih => exact .after (fun _ => .ite (.bind .nullWord _) (.bind (ih trivial) _)) _
  | judged room => exact .bind (.tree room) _
  | start _ _ ih => exact .valueStart fun b => ih b rfl
  | mismatch b => exact .mismatch _ b
  | tooDeep => exact .tooDeep
  | boolWord => exact .boolWord _
  | quoted => exact .quoted
  | inList | inPlaces => exact .after (fun _ => .enclosed (.closeListLooking _) _) _
  | inObject => exact .inObject _

end BlockModel.Scan
