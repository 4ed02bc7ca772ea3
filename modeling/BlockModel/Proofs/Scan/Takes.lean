import BlockModel.Proofs.Scan.Prefix
import BlockModel.Proofs.Scan.Supplies

/-! What a plan comes to on a document as a matter of the octets ahead: what it takes from them, or why it
fails. The octets that it leaves are part of the statement, since a number is only over where something else
stands behind it; but of those no more than the next one matters. -/

namespace BlockModel.Scan

variable {α β σ : Type} {f : Freedom} {c c' : Cursor} {u u' t : List UInt8} {cause : Cause} {inPayload : Bool}

/-- With these octets ahead the plan ends with the value, and leaves the others. -/
def Takes (p : Scan α) (u : List UInt8) (a : α) (t : List UInt8) : Prop :=
  ∀ c : Cursor, c.rest = u → ∃ c', p.run .document c = (.ok a, c') ∧ c'.rest = t

/-- What is said of a failure, of the cursor that the plan starts from and of the one where it leaves off. -/
abbrev Account := Cursor → Failure → Cursor → Prop

/-- With these octets ahead the plan fails, and the account of it is true. -/
def FailsWith (Q : Account) (p : Scan α) (u : List UInt8) : Prop :=
  ∀ c : Cursor, c.rest = u → ∃ e c', p.run .document c = (.error e, c') ∧ Q c e c'

/-- With these octets ahead the plan fails for the cause, as a payload or not. -/
def FailsAs (p : Scan α) (u : List UInt8) (cause : Cause) (inPayload : Bool) : Prop :=
  ∀ c : Cursor, c.rest = u →
    ∃ e c', p.run .document c = (.error e, c') ∧ e.cause = cause ∧ e.inPayload = inPayload

theorem Takes.of_gives {p : Scan α} {a : α} (h : ∀ l, Gives p ⟨u, l⟩ (.ok a) ⟨t, l⟩) : Takes p u a t := by
  intro c hc
  obtain ⟨c', hrun, hview⟩ := h c.log c (congrArg (View.mk · c.log) hc)
  exact ⟨c', hrun, (View.mk.inj hview).1⟩

/-- What a regular plan takes, it takes wherever the same octets are ahead. -/
theorem Regular.takes {p : Scan α} (hp : Regular f p) (hbackward : f.backward = false) {a : α}
    (h : p.run .document c = (.ok a, c')) : Takes p c.rest a c'.rest := by
  intro d hd
  have halike : Alike .document .document c d (p.run .document c) (p.run .document d) :=
    hp.alike hbackward trivial trivial hd.symm
  rw [h] at halike
  rcases hrun : p.run .document d with ⟨e | a', d'⟩ <;> rw [hrun] at halike
  · cases halike
  · cases halike with
    | ok hrest => exact ⟨d', rfl, hrest.symm⟩

theorem Regular.failsAs {p : Scan α} (hp : Regular f p) (hbackward : f.backward = false) {e : Failure}
    (h : p.run .document c = (.error e, c')) : FailsAs p c.rest e.cause e.inPayload := by
  intro d hd
  have halike : Alike .document .document c d (p.run .document c) (p.run .document d) :=
    hp.alike hbackward trivial trivial hd.symm
  rw [h] at halike
  rcases hrun : p.run .document d with ⟨e' | a, d'⟩ <;> rw [hrun] at halike
  · cases halike with
    | error _ _ _ _ _ => exact ⟨_, d', rfl, rfl, rfl⟩
  · cases halike

/-- What is left may go on in any other way behind a front of it. -/
theorem Regular.takes_front {p : Scan α} (hp : Regular f p) (hbackward : f.backward = true) {a : α}
    {front : List UInt8} (hfront : front ≠ []) (h : Takes p u a (front ++ t)) :
    ∃ s, u = s ++ (front ++ t) ∧ ∀ t', Takes p (s ++ (front ++ t')) a (front ++ t') := by
  obtain ⟨b, r, rfl⟩ := List.exists_cons_of_ne_nil hfront
  obtain ⟨c', hrun, hc'⟩ := h (.ofOctets u) rfl
  obtain ⟨s, hrest, -⟩ := Cursor.Reaches.of_run hrun
  rw [hc'] at hrest
  exact ⟨s, hrest, fun t' d hd => hp.ok_before hbackward hrun hrest hc' hd⟩

namespace Takes

variable {p : Scan α} {a : α}

theorem bind {p : Scan β} {k : β → Scan α} {b : β} (hp : Takes p u b u') (hk : Takes (k b) u' a t) :
    Takes (p >>= k) u a t := by
  intro c hc
  obtain ⟨c', hrun, hc'⟩ := hp c hc
  rw [run_bind_ok hrun]
  exact hk c' hc'

theorem pure (a : α) (u : List UInt8) : Takes (Pure.pure a) u a u := fun c hc => ⟨c, rfl, hc⟩

theorem skip (b : UInt8) (t : List UInt8) : Takes Scan.skip (b :: t) () t := .of_gives fun _ => .skip b t

theorem enclosed {close : Scan Unit} (hp : Takes p u a u') (hclose : Takes close u' () t) :
    Takes (Scan.enclosed p close) u a t := by
  intro c hc
  obtain ⟨c', hrun, hc'⟩ := hp c hc
  rw [run_enclosed_ok hrun]
  exact hclose.bind (.pure a t) c' hc'

end Takes

namespace Account

/-- The failure has the cause, as one of a payload or not. -/
def forCause (cause : Cause) (inPayload : Bool) : Account := fun _ e _ => e.cause = cause ∧ e.inPayload = inPayload

/-- The failure is left unplaced, and these octets are left. -/
def unplaced (t : List UInt8) : Account := fun _ e c' => e.position = none ∧ c'.rest = t

/-- The failure is placed where these octets are ahead. -/
def placed (t : List UInt8) : Account := fun c e _ => ∃ d, c.Reaches d ∧ d.rest = t ∧ e.position = some d.position

/-- The account is true also of a plan that has read something before. -/
def Lasts (Q : Account) : Prop := ∀ c d e c', c.Reaches d → Q d e c' → Q c e c'

/-- The account is true also of a list or object around, whatever its close comes to. -/
structure Steady (Q : Account) : Prop where
  lasts : Q.Lasts
  passes : ∀ {α : Type} {inside : Scan α} {u : List UInt8}, FailsWith Q inside u →
    ∀ close, FailsWith Q (Scan.enclosed inside close) u

theorem steady_forCause (cause : Cause) (inPayload : Bool) : (forCause cause inPayload).Steady := by
  refine ⟨fun c d e c' _ h => h, fun h close c hc => ?_⟩
  obtain ⟨e, c', hrun, hcause, hpayload⟩ := h c hc
  obtain ⟨e', c'', hrun', hcause', hpayload', -⟩ := run_enclosed_error hrun close
  exact ⟨e', c'', hrun', hcause'.trans hcause, hpayload'.trans hpayload⟩

theorem lasts_unplaced (t : List UInt8) : (unplaced t).Lasts := fun _ _ _ _ _ h => h

/-- A failure that has a place keeps it. -/
theorem steady_placed (t : List UInt8) : (placed t).Steady := by
  refine ⟨fun c d e c' hreach h => ?_, fun h close c hc => ?_⟩
  · obtain ⟨d', hd', hrest, hposition⟩ := h
    exact ⟨d', hreach.trans hd', hrest, hposition⟩
  · obtain ⟨e, c', hrun, hplaced⟩ := h c hc
    obtain ⟨d, -, -, hposition⟩ := id hplaced
    refine ⟨e, c', ?_, hplaced⟩
    rw [run, hrun]
    simp only [hposition]

end Account

variable {Q Q' : Account}

namespace Takes

theorem bind_failsWith (hlasts : Q.Lasts) {p : Scan β} {k : β → Scan α} {b : β} (hp : Takes p u b u')
    (hk : FailsWith Q (k b) u') : FailsWith Q (p >>= k) u := by
  intro c hc
  obtain ⟨d, hrun, hd⟩ := hp c hc
  obtain ⟨e, c', hfails, he⟩ := hk d hd
  exact ⟨e, c', (run_bind_ok hrun).trans hfails, hlasts c d e c' (.of_run hrun) he⟩

theorem loop_failsWith (hlasts : Q.Lasts) {round : σ → Scan (σ ⊕ α)} {s s' : σ}
    (hround : Takes (round s) u (.inl s') u') (hadvances : Advances goesOn none (round s))
    (hloop : FailsWith Q (Scan.loop s' round) u') : FailsWith Q (Scan.loop s round) u := by
  intro c hc
  obtain ⟨d, hrun, hd⟩ := hround c hc
  have hless := hadvances .document c _ d hrun rfl fun b hb => absurd hb (Option.not_mem_none b)
  obtain ⟨e, c', hfails, he⟩ := hloop d hd
  exact ⟨e, c', (run_loop_next hrun hless).trans hfails, hlasts c d e c' (.of_run hrun) he⟩

end Takes

namespace FailsWith

theorem bind {p : Scan β} (h : FailsWith Q p u) (k : β → Scan α) : FailsWith Q (p >>= k) u := by
  intro c hc
  obtain ⟨e, c', hrun, he⟩ := h c hc
  exact ⟨e, c', run_bind_error hrun, he⟩

theorem map {p : Scan β} (h : FailsWith Q p u) (g : β → α) : FailsWith Q (g <$> p) u := h.bind _

theorem payload {inside : Scan α} (h : FailsWith Q inside u)
    (hmark : ∀ c e c', Q c e c' → Q' c { e with inPayload := true } c') : FailsWith Q' (Scan.payload inside) u := by
  intro c hc
  obtain ⟨e, c', hrun, he⟩ := h c hc
  exact ⟨{ e with inPayload := true }, c', by rw [run, hrun], hmark c e c' he⟩

theorem loop {round : σ → Scan (σ ⊕ α)} {s : σ} (h : FailsWith Q (round s) u) :
    FailsWith Q (Scan.loop s round) u := by
  intro c hc
  obtain ⟨e, c', hrun, he⟩ := h c hc
  exact ⟨e, c', by rw [run_loop, hrun], he⟩

/-- What fails inside without a place is placed where the close leaves off. -/
theorem enclosed_unplaced {inside : Scan α} {close : Scan Unit} (h : FailsWith (.unplaced u') inside u)
    (hclose : ∀ c, c.rest = u' → (close.run .document c).2.rest = t) :
    FailsWith (.placed t) (Scan.enclosed inside close) u := by
  intro c hc
  obtain ⟨e, d, hrun, hposition, hd⟩ := h c hc
  refine ⟨{ e with position := some (close.run .document d).2.position }, (close.run .document d).2, ?_, ?_⟩
  · rw [run, hrun]
    simp only [hposition]
    rfl
  · exact ⟨_, (Cursor.Reaches.of_run hrun).trans (reaches_run close .document d), hclose d hd, rfl⟩

end FailsWith

/-- A tree is taken exactly where it stands. -/
theorem takes_tree_iff {room : Nat} {j : Json} : Takes (tree room) u j t ↔ Stands room j u t := by
  constructor
  · intro h
    obtain ⟨c', hrun, rfl⟩ := h (.ofOctets u) rfl
    exact ok_tree hrun
  · rintro ⟨hroom, w, s, hw, hs, hends, rfl⟩
    exact .of_gives fun _ => gives_tree hroom hw hs hends

theorem FailsWith.inList (hsteady : Q.Steady) {inside : Scan α} (h : FailsWith Q inside u) :
    FailsWith Q (inList inside) (Octet.openList :: u) :=
  (Takes.skip _ _).bind_failsWith hsteady.lasts (hsteady.passes h closeList)

theorem FailsWith.inObject (hsteady : Q.Steady) {inside : Scan α} (h : FailsWith Q inside u) :
    FailsWith Q (inObject inside) (Octet.openObject :: u) :=
  (Takes.skip _ _).bind_failsWith hsteady.lasts (hsteady.passes h closeObject)

/-- On a document nothing keeps one from looking past blanks. -/
theorem exists_run_peekPastBlanks (c : Cursor) : ∃ d,
    peekPastBlanks.run .document c = (.ok (c.rest.dropWhile Octet.isBlank).head?, d) ∧
      d.rest = c.rest.dropWhile Octet.isBlank := by
  obtain ⟨taken, c1, htake⟩ : ∃ taken c1, (takeWhile Octet.isBlank).run .document c = (.ok taken, c1) := by
    rw [run]
    split <;> exact ⟨_, _, rfl⟩
  have hrest : c1.rest = c.rest.dropWhile Octet.isBlank := by
    have h := rest_run_takeWhile .document Octet.isBlank c
    rwa [htake] at h
  have hblanks : blanks.run .document c = (.ok (), c1) := run_bind_ok htake
  have hpeek : ∃ d, peek.run .document c1 = (.ok c1.rest.head?, d) ∧ d.rest = c1.rest := by
    rw [run]
    cases hcase : c1.rest with
    | nil => exact ⟨_, rfl, hcase⟩
    | cons b r => exact ⟨_, rfl, rfl⟩
  obtain ⟨d, hpeek, hd⟩ := hpeek
  rw [← hrest]
  exact ⟨d, (run_bind_ok hblanks).trans hpeek, hd⟩

/-- What is left by an object that ends here: the blanks are taken, and a brace behind them. -/
def behindBrace (t : List UInt8) : List UInt8 :=
  if (t.dropWhile Octet.isBlank).head? = some Octet.closeObject then (t.dropWhile Octet.isBlank).tail
  else t.dropWhile Octet.isBlank

theorem rest_closeObject (c : Cursor) : (closeObject.run .document c).2.rest = behindBrace c.rest := by
  obtain ⟨d, hpeek, hd⟩ := exists_run_peekPastBlanks c
  rw [closeObject, run_bind_ok hpeek, behindBrace, ← hd]
  cases hrest : d.rest with
  | nil => exact hrest
  | cons b r =>
      simp only [List.head?_cons, Option.some.injEq, List.tail_cons]
      by_cases hb : b = Octet.closeObject
      · rw [if_pos hb, if_pos hb]
        obtain ⟨d', hrun, hd'⟩ := Takes.skip b r d hrest
        rw [hrun]
        exact hd'
      · rw [if_neg hb, if_neg hb]
        split <;> exact hrest

theorem takes_valueStart {w : List UInt8} {b : UInt8} (hw : Blanks w) (hb : Octet.isBlank b = false) :
    Takes valueStart (w ++ b :: t) b (b :: t) :=
  .of_gives fun _ => gives_valueStart hw hb

theorem FailsWith.expectList (hlasts : Q.Lasts) {value : Scan α} {w : List UInt8} (hw : Blanks w)
    (h : FailsWith Q value (Octet.openList :: u)) (expected : String) :
    FailsWith Q (expectList expected value) (w ++ Octet.openList :: u) :=
  (takes_valueStart hw (by decide)).bind_failsWith hlasts h

theorem FailsWith.expectObject (hlasts : Q.Lasts) {value : Scan α} {w : List UInt8} (hw : Blanks w)
    (h : FailsWith Q value (Octet.openObject :: u)) (expected : String) :
    FailsWith Q (expectObject expected value) (w ++ Octet.openObject :: u) :=
  (takes_valueStart hw (by decide)).bind_failsWith hlasts h

section Items

variable {item : Scan α} {sofar : List α} {gap : List UInt8} {b : UInt8} (hgap : Gap sofar.isEmpty gap)
  (hb : Octet.isBlank b = false) (hclose : b ≠ Octet.closeList)
include hgap hb hclose

/-- The item ahead fails. -/
theorem FailsWith.itemLoop (hlasts : Q.Lasts) (h : FailsWith Q item (b :: t)) :
    FailsWith Q (Scan.loop sofar (itemRound item)) (gap ++ b :: t) := by
  have hhas : Takes (hasItem sofar.isEmpty) (gap ++ b :: t) true (b :: t) :=
    .of_gives fun _ => gives_hasItem hgap hb hclose
  exact (hhas.bind_failsWith hlasts (h.bind _)).loop

/-- The item ahead is taken, and the list fails after it. -/
theorem Takes.itemLoop_failsWith (hlasts : Q.Lasts) {a : α} (h : Takes item (b :: t) a u)
    (hadvances : Advances always none item) (hmore : FailsWith Q (Scan.loop (a :: sofar) (itemRound item)) u) :
    FailsWith Q (Scan.loop sofar (itemRound item)) (gap ++ b :: t) := by
  have hhas : Takes (hasItem sofar.isEmpty) (gap ++ b :: t) true (b :: t) :=
    .of_gives fun _ => gives_hasItem hgap hb hclose
  have hround : Takes (itemRound item sofar) (gap ++ b :: t) (.inl (a :: sofar)) u := hhas.bind (h.bind (.pure _ _))
  exact hround.loop_failsWith hlasts (.itemRound hadvances sofar) hmore

end Items

section Members

variable {member : σ → String → Scan σ} {first : Bool} {gap k : List UInt8} {key : String}
  (hgap : Gap first gap) (hk : Leaves.exact.string key k)
include hgap hk

/-- The member ahead fails. -/
theorem FailsWith.memberLoop (hlasts : Q.Lasts) {s : σ} (h : FailsWith Q (member s key) u) :
    FailsWith Q (Scan.loop (first, s) (memberRound member)) (gap ++ (k ++ u)) := by
  have hhas : Takes (hasMember first) (gap ++ (k ++ u)) true (k ++ u) :=
    .of_gives fun _ => gives_hasMember hgap hk
  have hkey : Takes quoted (k ++ u) key u := .of_gives fun _ => gives_quoted hk
  exact (hhas.bind_failsWith hlasts (hkey.bind_failsWith hlasts (h.bind _))).loop

/-- The member ahead is taken, and the object fails after it. -/
theorem Takes.memberLoop_failsWith (hlasts : Q.Lasts) {s s' : σ} (h : Takes (member s key) u s' u')
    (hmore : FailsWith Q (Scan.loop (false, s') (memberRound member)) u') :
    FailsWith Q (Scan.loop (first, s) (memberRound member)) (gap ++ (k ++ u)) := by
  have hhas : Takes (hasMember first) (gap ++ (k ++ u)) true (k ++ u) :=
    .of_gives fun _ => gives_hasMember hgap hk
  have hkey : Takes quoted (k ++ u) key u := .of_gives fun _ => gives_quoted hk
  have hround : Takes (memberRound member (first, s)) (gap ++ (k ++ u)) (.inl (false, s')) u' :=
    hhas.bind (hkey.bind (h.bind (.pure _ _)))
  exact hround.loop_failsWith hlasts (.memberRound member (first, s)) hmore

end Members

end BlockModel.Scan
