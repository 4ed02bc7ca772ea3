import BlockModel.Proofs.Fault
import BlockModel.Proofs.Scan.Takes

/-! Documents that are cut off. On a front of a document a plan comes to the same as on the whole as long as it stays in
front of the cut. Where it comes to the cut it may fail or take something shorter for the value, which leaves nothing;
from there it can only fail because the text has ended. So there is one rule for each way to build a plan, about what
it does up to a cut, and one about what it does at the end. -/

namespace BlockModel.Scan

variable {α β σ : Type} {inside : Bool} {supply : Supply} {c c' d d' : Cursor} {q : List UInt8} {e : Failure}

/-- The failure blames the text: a wrong shape does so too, but not inside of what a case applies. -/
structure BlamesText (inside : Bool) (e : Failure) : Prop where
  not_source : ∀ reason, e.cause ≠ .source reason
  of_isData : e.isData = true → inside = false ∧ e.inPayload = false

theorem BlamesText.congr {e' : Failure} (h : BlamesText inside e) (hcause : e'.cause = e.cause)
    (hpayload : e'.inPayload = e.inPayload) : BlamesText inside e' where
  not_source := fun reason hreason => h.not_source reason (hcause.symm.trans hreason)
  of_isData := fun hdata => by
    rw [Failure.isData, hcause] at hdata
    rw [hpayload]
    exact h.of_isData hdata

theorem BlamesText.marked (h : BlamesText true e) : BlamesText inside { e with inPayload := true } where
  not_source := h.not_source
  of_isData := fun hdata => absurd (h.of_isData hdata).1.symm Bool.false_ne_true

theorem BlamesText.kind (h : BlamesText false e) : (Fault.ofFailure e).kind = .malformed := by
  rw [Fault.kind_ofFailure h.not_source]
  cases hdata : e.isData with
  | false => rw [Bool.and_false, if_neg Bool.false_ne_true]
  | true => rw [(h.of_isData hdata).2, Bool.false_and, if_neg Bool.false_ne_true]

/-- The freedom of plans whose failures all blame the text. -/
def Freedom.blaming (inside : Bool) : Freedom := ⟨true, true, !inside, false⟩

theorem Freedom.Permits.blamesText (h : (Freedom.blaming inside).Permits .document e) : BlamesText inside e where
  not_source := h.cause_ne_source trivial
  of_isData := by
    intro hdata
    constructor
    · rcases h.cause with ⟨fault, hfault⟩ | ⟨hshapes, -⟩ | ⟨reason, hsupply, -⟩
      · rw [Failure.isData, hfault] at hdata
        cases hdata
      · simpa only [blaming, Bool.not_eq_true'] using hshapes
      · cases hsupply
    · exact Bool.eq_false_iff.2 fun hmark => Bool.false_ne_true (h.inPayload hmark)

theorem rest_eq_nil_of_reaches (h : c.Reaches c') (hc : c.rest = []) : c'.rest = [] := by
  have hlength := length_le_of_reaches h
  rw [hc] at hlength
  exact List.length_eq_zero_iff.1 (Nat.le_zero.1 hlength)

theorem rest_eq_nil_of_run {p : Scan α} {r : Except Failure α} (h : p.run supply c = (r, c')) (hc : c.rest = []) :
    c'.rest = [] := rest_eq_nil_of_reaches (.of_run h) hc

/-- Where no octets are left the plan does not fail, or it blames the text. -/
def SparesAtEnd (inside : Bool) (p : Scan α) : Prop :=
  ∀ c e c', c.rest = [] → p.run .document c = (.error e, c') → BlamesText inside e

/-- Where no octets are left the plan fails and blames the text. -/
def NeedsMore (inside : Bool) (p : Scan α) : Prop :=
  ∀ c, c.rest = [] → ∃ e c', p.run .document c = (.error e, c') ∧ BlamesText inside e

theorem NeedsMore.sparesAtEnd {p : Scan α} (h : NeedsMore inside p) : SparesAtEnd inside p := by
  intro c e c' hc hrun
  obtain ⟨e', c'', hrun', he⟩ := h c hc
  rw [hrun'] at hrun
  cases hrun
  exact he

theorem NeedsMore.bind {p : Scan β} (h : NeedsMore inside p) (k : β → Scan α) : NeedsMore inside (p >>= k) := by
  intro c hc
  obtain ⟨e, c', hrun, he⟩ := h c hc
  exact ⟨e, c', run_bind_error hrun, he⟩

theorem NeedsMore.loop {round : σ → Scan (σ ⊕ α)} {s : σ} (h : NeedsMore inside (round s)) :
    NeedsMore inside (Scan.loop s round) := by
  intro c hc
  obtain ⟨e, c', hrun, he⟩ := h c hc
  exact ⟨e, c', by rw [run_loop, hrun], he⟩

namespace SparesAtEnd

theorem regular {p : Scan α} (h : Regular (.blaming inside) p) : SparesAtEnd inside p :=
  fun _ _ _ _ hrun => (h.permits rfl hrun).blamesText

theorem pure (a : α) : SparesAtEnd inside (Pure.pure a) := .regular (.pure a)

theorem ite {condition : Prop} [Decidable condition] {p p' : Scan α} (hp : SparesAtEnd inside p)
    (hp' : SparesAtEnd inside p') : SparesAtEnd inside (if condition then p else p') := by
  split
  · exact hp
  · exact hp'

theorem bind {p : Scan β} {k : β → Scan α} (hp : SparesAtEnd inside p) (hk : ∀ b, SparesAtEnd inside (k b)) :
    SparesAtEnd inside (p >>= k) := by
  intro c e c' hc hrun
  rcases error_bind hrun with hfirst | ⟨b, d, hfirst, hmore⟩
  · exact hp c e c' hc hfirst
  · exact hk b d e c' (rest_eq_nil_of_run hfirst hc) hmore

theorem map {p : Scan β} (hp : SparesAtEnd inside p) (g : β → α) : SparesAtEnd inside (g <$> p) :=
  .bind hp fun _ => .pure _

theorem enclosed {p : Scan α} {close : Scan Unit} (hp : SparesAtEnd inside p) (hclose : SparesAtEnd inside close) :
    SparesAtEnd inside (Scan.enclosed p close) := by
  intro c e c' hc hrun
  rcases error_enclosed hrun with ⟨e', d, hinside, hcause, hpayload, -⟩ | ⟨a, d, hinside, hclosed⟩
  · exact (hp c e' d hc hinside).congr hcause hpayload
  · exact hclose d e c' (rest_eq_nil_of_run hinside hc) hclosed

theorem payload {p : Scan α} (h : SparesAtEnd true p) : SparesAtEnd inside (Scan.payload p) := by
  intro c e c' hc hrun
  obtain ⟨e', hinside, rfl⟩ := error_payload hrun
  exact (h c e' c' hc hinside).marked

end SparesAtEnd

/-- The plan never takes the last octets. -/
def LeavesSome (p : Scan α) : Prop := ∀ c a c', p.run .document c = (.ok a, c') → c'.rest ≠ []

/-- What the plan ends with does not rest on what follows. -/
def Settled (p : Scan α) : Prop :=
  ∀ c d q a c', d.rest = c.rest ++ q → p.run .document c = (.ok a, c') →
    ∃ d', p.run .document d = (.ok a, d') ∧ d'.rest = c'.rest ++ q

theorem LeavesSome.needsMore {p : Scan α} (h : LeavesSome p) (hend : SparesAtEnd inside p) : NeedsMore inside p := by
  intro c hc
  rcases hrun : p.run .document c with ⟨e | a, c'⟩
  · exact ⟨e, c', rfl, hend c e c' hc hrun⟩
  · exact absurd (rest_eq_nil_of_run hrun hc) (h c a c' hrun)

theorem leavesSome_valueStart : LeavesSome valueStart := by
  intro c b c' h
  obtain ⟨w, r, -, -, hr, -⟩ := ok_valueStart h
  rw [hr]
  exact List.cons_ne_nil b r

theorem leavesSome_hasItem (first : Bool) : LeavesSome (hasItem first) := by
  intro c has c' h
  cases has with
  | false =>
      obtain ⟨w, t, -, -, hr⟩ := ok_hasItem_false h
      rw [hr]
      exact List.cons_ne_nil _ t
  | true =>
      obtain ⟨gap, b, -, -, hhead, -⟩ := ok_hasItem_true h
      intro hnil
      rw [hnil] at hhead
      cases hhead

theorem leavesSome_hasMember (first : Bool) : LeavesSome (hasMember first) := by
  intro c has c' h
  cases has with
  | false =>
      obtain ⟨w, t, -, -, hr⟩ := ok_hasMember_false h
      rw [hr]
      exact List.cons_ne_nil _ t
  | true =>
      obtain ⟨gap, -, -, hhead⟩ := ok_hasMember_true h
      intro hnil
      rw [hnil] at hhead
      cases hhead

theorem leavesSome_members (member : σ → String → Scan σ) (init : σ) : LeavesSome (members init member) := by
  intro c s c' h
  refine ok_loop (P := fun _ _ _ c' => c'.rest ≠ []) ?_ (fun _ _ _ _ _ _ _ h => h)
    (show (loop (true, init) (memberRound member)).run .document c = (.ok s, c') from h)
  exact fun state c s c' hlast => leavesSome_hasMember state.1 c false c' (ok_memberRound_inr hlast).1

namespace Settled

theorem pure (a : α) : Settled (Pure.pure a) := by
  intro c d q a' c' hrest h
  obtain ⟨rfl, rfl⟩ := ok_pure h
  exact ⟨d, rfl, hrest⟩

theorem bind {p : Scan β} {k : β → Scan α} (hp : Settled p) (hk : ∀ b, Settled (k b)) : Settled (p >>= k) := by
  intro c d q a c' hrest h
  obtain ⟨b, c1, hfirst, hmore⟩ := ok_bind h
  obtain ⟨d1, hfirst', hrest1⟩ := hp c d q b c1 hrest hfirst
  obtain ⟨d', hmore', hrest'⟩ := hk b c1 d1 q a c' hrest1 hmore
  exact ⟨d', (run_bind_ok hfirst').trans hmore', hrest'⟩

theorem mismatch (expected : String) (b : UInt8) : Settled (Scan.mismatch expected b : Scan α) := by
  intro c d q a c' hrest h
  obtain ⟨found, c1, -, h⟩ := ok_bind h
  exact absurd h not_ok_refuseData

theorem ite {condition : Prop} [Decidable condition] {p p' : Scan α} (hp : Settled p) (hp' : Settled p') :
    Settled (if condition then p else p') := by
  split
  · exact hp
  · exact hp'

/-- A string ends with its quote. -/
theorem quoted : Settled Scan.quoted := by
  intro c d q str c' hrest h
  obtain ⟨u, c1, hskip, h⟩ := ok_bind h
  obtain ⟨octets, c2, hloop, h⟩ := ok_bind h
  obtain ⟨body, more, hoctets, hbody, hc1, -⟩ := ok_stringLoop hloop
  obtain ⟨hdecode, rfl⟩ := ok_textOf h
  rw [List.reverse_nil, List.nil_append] at hoctets
  subst hoctets
  -- The string was not empty of octets, so the first one is there too where more octets follow.
  obtain ⟨b, r, hc⟩ : ∃ b r, c.rest = b :: r := by
    refine List.exists_cons_of_ne_nil fun hnil => ?_
    rw [rest_eq_nil_of_run hskip hnil] at hc1
    exact List.append_ne_nil_of_right_ne_nil body (List.cons_ne_nil _ _) hc1.symm
  have hr : r = body ++ Octet.quote :: c'.rest := by
    rw [← hc1, ok_skip hskip, hc, List.tail_cons]
  have htext : Takes (textOf octets) (c'.rest ++ q) str (c'.rest ++ q) := by
    rw [textOf, hdecode]
    simp only [String.ofList_toList]
    exact .pure str _
  have hstring : Takes (Scan.loop [] stringRound) (body ++ Octet.quote :: (c'.rest ++ q)) octets (c'.rest ++ q) :=
    .of_gives fun _ => gives_stringLoop hbody [] [] (List.forall_mem_nil _)
  refine (Takes.skip b _).bind (hstring.bind htext) d ?_
  rw [hrest, hc, hr, List.cons_append, List.append_assoc, List.cons_append]

end Settled

theorem needsMore_valueStart (k : UInt8 → Scan α) : NeedsMore inside (valueStart >>= k) :=
  (leavesSome_valueStart.needsMore (.regular .valueStart)).bind k

theorem needsMore_hasItem (first : Bool) : NeedsMore inside (hasItem first) :=
  (leavesSome_hasItem first).needsMore (.regular (.hasItem first))

theorem needsMore_itemRound {item : Scan α} (sofar : List α) : NeedsMore inside (itemRound item sofar) :=
  (needsMore_hasItem _).bind _

theorem needsMore_memberRound {member : σ → String → Scan σ} (state : Bool × σ) :
    NeedsMore inside (memberRound member state) :=
  ((leavesSome_hasMember _).needsMore (.regular (.hasMember _))).bind _

theorem needsMore_place? {item : Scan α} (first : Bool) : NeedsMore inside (place? first item) :=
  (needsMore_hasItem first).bind _

/-- A loop is a round, and where that goes on the loop from there. -/
theorem run_loop_bind {round : σ → Scan (σ ⊕ α)} {init : σ} (hadvances : Advances goesOn none (round init))
    (c : Cursor) : (loop init round).run supply c =
      (round init >>= Sum.elim (fun s => loop s round) pure).run supply c := by
  rw [run_loop]
  rcases hround : (round init).run supply c with ⟨e | s | a, c'⟩
  · rw [run_bind_error hround]
  · have hless := hadvances _ _ _ _ hround rfl fun b hb => absurd hb (Option.not_mem_none b)
    rw [run_bind_ok hround]
    exact if_pos (offset_lt_of_length_lt hround hless)
  · rw [run_bind_ok hround]
    rfl

theorem run_bind_congr {p : Scan β} {k k' : β → Scan α} (h : ∀ b c, (k b).run supply c = (k' b).run supply c)
    (c : Cursor) : (p >>= k).run supply c = (p >>= k').run supply c := by
  rcases hp : p.run supply c with ⟨e | b, c'⟩
  · rw [run_bind_error hp, run_bind_error hp]
  · rw [run_bind_ok hp, run_bind_ok hp]
    exact h b c'

/-- On a document the end of a list of places is that of any list. -/
theorem run_closePlaces (c : Cursor) : closePlaces.run .document c = closeList.run .document c := by
  refine run_bind_congr (fun b? c => ?_) c
  cases b? with
  | none => rfl
  | some b =>
      simp only
      split
      · rfl
      · split
        · refine run_bind_congr (fun u c => ?_) c
          obtain ⟨c', hpeek, -⟩ := exists_run_peekPastBlanks c
          have hattempt : (attempt peekPastBlanks).run .document c =
              (.ok (some (c.rest.dropWhile Octet.isBlank).head?), c') := by rw [run, hpeek]
          rw [run_bind_ok hpeek, run_bind_ok (run_bind_ok hattempt)]
        · rfl

/-- What comes of a plan on a front of the octets that it has as a whole: the same, with what was cut off still to
come; or it has come to the cut, also on the whole, and where only the cut makes it fail it blames the text; or it
fails on both. -/
inductive Curtailed (inside : Bool) (q : List UInt8) : Outcome α → Outcome α → Prop where
  | same {a : α} {c' d' : Cursor} (hrest : d'.rest = c'.rest ++ q) : Curtailed inside q (.ok a, c') (.ok a, d')
  | spent {r r' : Outcome α} (hrest : r.2.rest = []) (hspent : r'.2.rest.length ≤ q.length)
      (hblame : ∀ e c' a d', r = (.error e, c') → r' = (.ok a, d') → BlamesText inside e) : Curtailed inside q r r'
  | failed {e e' : Failure} {c' d' : Cursor} : Curtailed inside q (.error e, c') (.error e', d')

/-- On every front of the octets the outcome is curtailed. -/
def Withstands (inside : Bool) (p : Scan α) : Prop :=
  ∀ c d q, d.rest = c.rest ++ q → Curtailed inside q (p.run .document c) (p.run .document d)

namespace Curtailed

theorem of_end {p : Scan α} {r' : Outcome α} (hend : SparesAtEnd inside p) (hc : c.rest = [])
    (hspent : r'.2.rest.length ≤ q.length) : Curtailed inside q (p.run .document c) r' := by
  refine .spent (rest_eq_nil_of_run rfl hc) hspent fun e c' a d' he _ => ?_
  exact hend c e c' hc he

/-- A failure in front of the cut stays one, and one at the cut is that of the part that came to it. -/
theorem bind_error {p : Scan β} (h : Curtailed inside q (.error e, c') (p.run .document d)) (k : β → Scan α) :
    Curtailed inside q (.error e, c') ((p >>= k).run .document d) := by
  rcases hd : p.run .document d with ⟨e' | b, d'⟩ <;> rw [hd] at h
  · rw [run_bind_error hd]
    exact .failed
  · rw [run_bind_ok hd]
    cases h with
    | spent hrest hspent hblame =>
        refine .spent hrest (Nat.le_trans (length_le_of_run rfl) hspent) fun e' c'' a d'' he _ => ?_
        cases he
        exact hblame e c' b d' rfl rfl

/-- What the first part ended with at the cut may be wrong, so what comes of that must not be held against a payload
where the whole is right. -/
theorem bind {p : Scan β} {k : β → Scan α} (hp : Curtailed inside q (p.run .document c) (p.run .document d))
    (hk : ∀ b c1 d1, p.run .document c = (.ok b, c1) → d1.rest = c1.rest ++ q →
      Curtailed inside q ((k b).run .document c1) ((k b).run .document d1))
    (hblame : ∀ b c1 b' d1, p.run .document c = (.ok b, c1) → p.run .document d = (.ok b', d1) → c1.rest = [] →
      d1.rest.length ≤ q.length → ∀ e c2 a d2, (k b).run .document c1 = (.error e, c2) →
      (k b').run .document d1 = (.ok a, d2) → BlamesText inside e) :
    Curtailed inside q ((p >>= k).run .document c) ((p >>= k).run .document d) := by
  rcases hc : p.run .document c with ⟨e | b, c1⟩ <;> rw [hc] at hp
  · rw [run_bind_error hc]
    exact hp.bind_error k
  · rw [run_bind_ok hc]
    rcases hd : p.run .document d with ⟨e' | b', d1⟩ <;> rw [hd] at hp
    · rw [run_bind_error hd]
      cases hp with
      | spent hnone hspent _ =>
          exact .spent (rest_eq_nil_of_run rfl hnone) hspent fun _ _ _ _ _ hok => by cases hok
    · rw [run_bind_ok hd]
      cases hp with
      | same hrest => exact hk b c1 d1 hc hrest
      | spent hnone hspent _ =>
          exact .spent (rest_eq_nil_of_run rfl hnone) (Nat.le_trans (length_le_of_run rfl) hspent)
            (hblame b c1 b' d1 hc hd hnone hspent)

end Curtailed

/-- A stream that breaks off fails as any source fails that goes on, or because of the break. -/
theorem Foretells.of_error {r : Outcome α} (h : Foretells q (.error e, c) r) :
    (∃ e' c', r = (.error e', c') ∧ e'.cause = e.cause) ∨
      ((∃ reason, e.cause = .source reason) ∧ r.2.rest.length ≤ q.length) := by
  cases h with
  | error hcause _ => exact .inl ⟨_, _, rfl, hcause⟩
  | source hcause hspent => exact .inr ⟨⟨_, hcause⟩, hspent⟩

namespace Withstands

theorem regular {p : Scan α} (h : Regular (.blaming inside) p) : Withstands inside p := by
  intro c d q hrest
  -- A stream that breaks off at the cut says what comes of the front, and of the whole.
  have hfront : Foretells [] (p.run (.broken "") c) (p.run .document c) :=
    h.foretells rfl (List.append_nil c.rest).symm
  have hwhole : Foretells q (p.run (.broken "") c) (p.run .document d) := h.foretells rfl hrest
  have hblame : ∀ e c', p.run .document c = (.error e, c') → BlamesText inside e :=
    fun e c' hrun => (h.permits rfl hrun).blamesText
  have hcause : ∀ e d', p.run .document d = (.error e, d') → ∀ reason, e.cause ≠ .source reason :=
    fun e d' hrun => (h.permits rfl hrun).cause_ne_source trivial
  rcases hbroken : p.run (.broken "") c with ⟨e | a, c0⟩ <;> rw [hbroken] at hfront hwhole
  · rcases hfront.of_error with ⟨e1, c1, hc, hsame⟩ | ⟨⟨reason, hsource⟩, hnone⟩ <;>
      rcases hwhole.of_error with ⟨e2, d2, hd, hsame'⟩ | ⟨⟨reason', hsource'⟩, hspent⟩
    · rw [hc, hd]
      exact .failed
    · exact absurd (hsame.trans hsource') ((hblame e1 c1 hc).not_source reason')
    · exact absurd (hsame'.trans hsource) (hcause e2 d2 hd reason)
    · refine .spent (List.length_eq_zero_iff.1 (Nat.le_zero.1 hnone)) hspent fun e c' _ _ he _ => ?_
      exact hblame e c' he
  · rcases hc : p.run .document c with ⟨e1 | a1, c1⟩ <;> rw [hc] at hfront <;> cases hfront
    rename_i hrest1
    rw [List.append_nil] at hrest1
    rcases hd : p.run .document d with ⟨e2 | a2, d2⟩ <;> rw [hd] at hwhole <;> cases hwhole
    rename_i hrest2
    exact .same (hrest1.symm ▸ hrest2)

theorem of_fails {p : Scan α} (h : ∀ c a c', p.run .document c ≠ (.ok a, c')) : Withstands inside p := by
  intro c d q _
  rcases hc : p.run .document c with ⟨e | a, c'⟩
  · rcases hd : p.run .document d with ⟨e' | a, d'⟩
    · exact .failed
    · exact absurd hd (h d a d')
  · exact absurd hc (h c a c')

theorem pure (a : α) : Withstands inside (Pure.pure a) := .regular (.pure a)

theorem refuseData (place : Place) (fault : DataFault) : Withstands inside (Scan.refuseData place fault : Scan α) :=
  .of_fails fun _ _ _ => not_ok_refuseData

theorem mismatch (expected : String) (b : UInt8) : Withstands inside (Scan.mismatch expected b : Scan α) := by
  refine .of_fails fun c a c' h => ?_
  obtain ⟨found, c1, -, h⟩ := ok_bind h
  exact not_ok_refuseData h

theorem ite {condition : Prop} [Decidable condition] {p p' : Scan α} (hp : Withstands inside p)
    (hp' : Withstands inside p') : Withstands inside (if condition then p else p') := by
  split
  · exact hp
  · exact hp'

theorem bind {p : Scan β} {k : β → Scan α} (hp : Withstands inside p) (hk : ∀ b, Withstands inside (k b))
    (hend : ∀ b, SparesAtEnd inside (k b)) : Withstands inside (p >>= k) := by
  intro c d q hrest
  refine .bind (hp c d q hrest) (fun b c1 d1 _ hrest1 => hk b c1 d1 q hrest1) ?_
  exact fun b c1 _ _ _ _ hnone _ e c2 _ _ he _ => hend b c1 e c2 hnone he

/-- Where the first part knows where to end, what it ended with is right. -/
theorem bind_settled {p : Scan β} {k : β → Scan α} (hp : Withstands inside p) (hsettled : Settled p)
    (hk : ∀ b, Withstands inside (k b)) : Withstands inside (p >>= k) := by
  intro c d q hrest
  have h := hp c d q hrest
  rcases hc : p.run .document c with ⟨e | b, c1⟩ <;> rw [hc] at h
  · rw [run_bind_error hc]
    exact h.bind_error k
  · obtain ⟨d1, hd, hrest1⟩ := hsettled c d q b c1 hrest hc
    rw [run_bind_ok hc, run_bind_ok hd]
    exact hk b c1 d1 q hrest1

theorem settled {p : Scan α} (h : Withstands inside p) (hleaves : LeavesSome p) : Settled p := by
  intro c d q a c' hrest hc
  have hcut := h c d q hrest
  rw [hc] at hcut
  rcases hd : p.run .document d with ⟨e | a', d'⟩ <;> rw [hd] at hcut
  · cases hcut with
    | spent hnone _ _ => exact absurd hnone (hleaves c a c' hc)
  · cases hcut with
    | same hrest' => exact ⟨d', rfl, hrest'⟩
    | spent hnone _ _ => exact absurd hnone (hleaves c a c' hc)

theorem bind_leaving {p : Scan β} {k : β → Scan α} (hp : Withstands inside p) (hleaves : LeavesSome p)
    (hk : ∀ b, Withstands inside (k b)) : Withstands inside (p >>= k) :=
  .bind_settled hp (hp.settled hleaves) hk

theorem map {p : Scan β} (hp : Withstands inside p) (g : β → α) : Withstands inside (g <$> p) :=
  .bind hp (fun _ => .pure _) fun _ => .pure _

theorem enclosed {p : Scan α} {close : Scan Unit} (hp : Withstands inside p) (hclose : Withstands inside close)
    (hend : SparesAtEnd inside close) : Withstands inside (Scan.enclosed p close) := by
  intro c d q hrest
  have h := hp c d q hrest
  rcases hc : p.run .document c with ⟨e | a, c1⟩ <;> rw [hc] at h
  · obtain ⟨e1, c2, hrun, hcause, hpayload, -, hreach⟩ := run_enclosed_error hc close
    rw [hrun]
    rcases hd : p.run .document d with ⟨e' | a', d1⟩ <;> rw [hd] at h
    · obtain ⟨e2, d2, hrun', -⟩ := run_enclosed_error hd close
      rw [hrun']
      exact .failed
    · rw [run_enclosed_ok hd]
      cases h with
      | spent hnone hspent hblame =>
          refine .spent (rest_eq_nil_of_reaches hreach hnone) (Nat.le_trans (length_le_of_run rfl) hspent) ?_
          intro e3 c3 a3 d3 he _
          cases he
          exact (hblame e c1 a' d1 rfl rfl).congr hcause hpayload
  · rw [run_enclosed_ok hc]
    have hend' : SparesAtEnd inside (close >>= fun _ => Pure.pure a) := .bind hend fun _ => .pure a
    rcases hd : p.run .document d with ⟨e' | a', d1⟩ <;> rw [hd] at h
    · obtain ⟨e2, d2, hrun', -, -, -, hreach⟩ := run_enclosed_error hd close
      rw [hrun']
      cases h with
      | spent hnone hspent _ => exact .of_end hend' hnone (Nat.le_trans (length_le_of_reaches hreach) hspent)
    · rw [run_enclosed_ok hd]
      cases h with
      | same hrest1 =>
          exact (Withstands.bind hclose (fun _ => .pure a) fun _ => .pure a) c1 d1 q hrest1
      | spent hnone hspent _ => exact .of_end hend' hnone (Nat.le_trans (length_le_of_run rfl) hspent)

theorem payload {p : Scan α} (h : Withstands true p) : Withstands inside (Scan.payload p) := by
  intro c d q hrest
  have h := h c d q hrest
  rw [run, run]
  rcases hc : p.run .document c with ⟨e | a, c1⟩ <;> rcases hd : p.run .document d with ⟨e' | a', d1⟩ <;>
    rw [hc, hd] at h
  · exact .failed
  · cases h with
    | spent hnone hspent hblame =>
        refine .spent hnone hspent fun e2 c2 a2 d2 he _ => ?_
        cases he
        exact (hblame e c1 a' d1 rfl rfl).marked
  · cases h with
    | spent hnone hspent _ => exact .spent hnone hspent fun e2 c2 a2 d2 he _ => by cases he
  · cases h with
    | same hrest1 => exact .same hrest1
    | spent hnone hspent _ => exact .spent hnone hspent fun e2 c2 a2 d2 he _ => by cases he

/-- A loop whose rounds need more octets at the end does not go round there. -/
theorem loop {round : σ → Scan (σ ⊕ α)} (hround : ∀ s, Withstands inside (round s))
    (hneeds : ∀ s, NeedsMore inside (round s)) (hadvances : ∀ s, Advances goesOn none (round s)) (init : σ) :
    Withstands inside (Scan.loop init round) := by
  intro c d q hrest
  induction hn : c.rest.length using Nat.strongRecOn generalizing init c d with
  | ind n ih =>
  rw [run_loop_bind (hadvances init), run_loop_bind (hadvances init)]
  refine .bind (hround init c d q hrest) ?_ ?_
  · intro next c1 d1 hc hrest1
    cases next with
    | inl s =>
        have hless := hadvances init _ _ _ _ hc rfl fun b hb => absurd hb (Option.not_mem_none b)
        exact ih c1.rest.length (hn ▸ hless) s c1 d1 hrest1 rfl
    | inr a => exact .same hrest1
  · intro next c1 _ _ _ _ hnone _ e c2 _ _ he _
    cases next with
    | inl s => exact (hneeds s).loop.sparesAtEnd c1 e c2 hnone he
    | inr a => cases he

theorem itemRound {item : Scan α} (hitem : Withstands inside item) (sofar : List α) :
    Withstands inside (Scan.itemRound item sofar) := by
  refine .bind_leaving (.regular (.hasItem _)) (leavesSome_hasItem _) fun has => ?_
  exact .ite (.bind hitem (fun _ => .pure _) fun _ => .pure _) (.pure _)

theorem memberRound {member : σ → String → Scan σ} (hmember : ∀ s key, Withstands inside (member s key))
    (state : Bool × σ) : Withstands inside (Scan.memberRound member state) := by
  refine .bind_leaving (.regular (.hasMember _)) (leavesSome_hasMember _) fun has => .ite ?_ (.pure _)
  exact .bind_settled (.regular .quoted) .quoted fun key =>
    .bind (hmember state.2 key) (fun _ => .pure _) fun _ => .pure _

theorem items {item : Scan α} (hitem : Withstands inside item) (hadvances : Advances always none item) :
    Withstands inside (Scan.items item) :=
  .map (.loop (itemRound hitem) needsMore_itemRound (.itemRound hadvances) []) _

theorem members {member : σ → String → Scan σ} (hmember : ∀ s key, Withstands inside (member s key)) (init : σ) :
    Withstands inside (Scan.members init member) :=
  .loop (memberRound hmember) needsMore_memberRound (.memberRound member) (true, init)

theorem inList {p : Scan α} (hp : Withstands inside p) (hend : SparesAtEnd inside p) :
    Withstands inside (Scan.inList p) :=
  .bind (.regular .skip) (fun _ => .enclosed hp (.regular .closeList) (.regular .closeList)) fun _ =>
    .enclosed hend (.regular .closeList)

theorem inObject {p : Scan α} (hp : Withstands inside p) (hend : SparesAtEnd inside p) :
    Withstands inside (Scan.inObject p) :=
  .bind (.regular .skip) (fun _ => .enclosed hp (.regular .closeObject) (.regular .closeObject)) fun _ =>
    .enclosed hend (.regular .closeObject)

/-- On a document there is nothing to attempt: what follows a comma can be looked at. -/
theorem inPlaces {p : Scan α} (hp : Withstands inside p) (hend : SparesAtEnd inside p) :
    Withstands inside (Scan.inPlaces p) := by
  have hclose : Withstands inside closePlaces := by
    intro c d q hrest
    rw [run_closePlaces, run_closePlaces]
    exact Withstands.regular .closeList c d q hrest
  have hclosed : SparesAtEnd inside closePlaces := by
    intro c e c' hc hrun
    rw [run_closePlaces] at hrun
    exact SparesAtEnd.regular .closeList c e c' hc hrun
  exact .bind (.regular .skip) (fun _ => .enclosed hp hclose hclosed) fun _ => .enclosed hend hclosed

theorem place? {item : Scan α} (hitem : Withstands inside item) (first : Bool) :
    Withstands inside (Scan.place? first item) := by
  refine .bind_leaving (.regular (.hasItem first)) (leavesSome_hasItem first) fun has => ?_
  exact .ite (.bind hitem (fun _ => .pure _) fun _ => .pure _) (.pure _)

/-- What follows the look at a first octet begins with it. -/
theorem valueStart_at {k : UInt8 → Scan α}
    (hk : ∀ b c d q, d.rest = c.rest ++ q → c.rest.head? = some b →
      Curtailed inside q ((k b).run .document c) ((k b).run .document d)) :
    Withstands inside (Scan.valueStart >>= k) := by
  intro c d q hrest
  have hstart : Withstands inside Scan.valueStart := .regular .valueStart
  have h := hstart c d q hrest
  rcases hc : Scan.valueStart.run .document c with ⟨e | b, c1⟩ <;> rw [hc] at h
  · rw [run_bind_error hc]
    exact h.bind_error k
  · obtain ⟨d1, hd, hrest1⟩ := hstart.settled leavesSome_valueStart c d q b c1 hrest hc
    obtain ⟨w, r, -, -, hb, -⟩ := ok_valueStart hc
    rw [run_bind_ok hc, run_bind_ok hd]
    exact hk b c1 d1 q hrest1 (by rw [hb]; rfl)

theorem valueStart {k : UInt8 → Scan α} (hk : ∀ b, Withstands inside (k b)) :
    Withstands inside (Scan.valueStart >>= k) :=
  .valueStart_at fun b c d q hrest _ => hk b c d q hrest

theorem string : Withstands inside Scan.string :=
  .valueStart fun b => .ite (.regular .quoted) (.mismatch _ b)

theorem bool : Withstands inside Scan.bool := by
  refine .valueStart fun b => ?_
  split
  · exact .regular (.bind (.boolWord _) fun _ => .pure _)
  · exact .mismatch _ b

theorem optional {value : Scan α} (hvalue : Withstands inside value) (hend : SparesAtEnd inside value) :
    Withstands inside (Scan.optional value) := by
  refine .bind (.regular .peekPastBlanks) (fun b? => .ite ?_ (.map hvalue _)) fun b? => .ite ?_ (.map hend _)
  · exact .regular (.bind .nullWord fun _ => .pure _)
  · exact .regular (.bind .nullWord fun _ => .pure _)

end Withstands

namespace Settled

theorem report (line : LogLine) : Settled (Scan.report line) := by
  intro c d q u c' hrest h
  cases h
  exact ⟨_, rfl, hrest⟩

theorem string : Settled Scan.string := by
  have hstart : Withstands false Scan.valueStart := .regular .valueStart
  exact .bind (hstart.settled leavesSome_valueStart) fun b => .ite .quoted (.mismatch _ b)

theorem place? {item : Scan α} (hitem : Settled item) (first : Bool) : Settled (Scan.place? first item) := by
  have hhas : Withstands false (Scan.hasItem first) := .regular (.hasItem first)
  exact .bind (hhas.settled (leavesSome_hasItem first)) fun has => .ite (.bind hitem fun _ => .pure _) (.pure _)

end Settled

end BlockModel.Scan
