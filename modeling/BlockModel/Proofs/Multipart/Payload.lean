import BlockModel.Proofs.Json.Writing
import BlockModel.Proofs.Multipart.Regular
import BlockModel.Proofs.Scan.Takes
import BlockModel.Proofs.Variant.Reading

/-! When a payload is to blame. Reading comes to the value of an `apply` after cases and members that were read;
if complete JSON stands there that is no pool, the payload is to blame, whatever follows. Every other failure is
one of the document: a text that is not JSON is malformed also inside of an `apply`, and nothing in a `when` is
a matter of payloads. -/

namespace BlockModel.Multipart

open Scan

variable {limits : Limits} {limit room : Nat} {key : String} {octets ahead : List UInt8}

/-- Inside of a case, at its start or after a member, with what was read so far: the value of the key is ahead
after members that are read. -/
inductive MemberAhead (limit room : Nat) (key : String) (ahead : List UInt8) :
    Bool → CaseDraft VariantPool → List UInt8 → Prop where
  | here {first : Bool} {d : CaseDraft VariantPool} {gap k w : List UInt8} (hgap : Gap first gap)
      (hk : Leaves.exact.string key k) (hw : Blanks w) :
      MemberAhead limit room key ahead first d (gap ++ (k ++ (w ++ Octet.colon :: ahead)))
  | later {first : Bool} {d d' : CaseDraft VariantPool} {gap k u t : List UInt8} {other : String}
      (hgap : Gap first gap) (hk : Leaves.exact.string other k)
      (htaken : Takes (scanMember limit room d other) u d' t)
      (hlater : MemberAhead limit room key ahead false d' t) :
      MemberAhead limit room key ahead first d (gap ++ (k ++ u))

/-- Inside of the list of cases: the value of the key is ahead after cases that are read. -/
inductive CaseAhead (limit room : Nat) (key : String) (ahead : List UInt8) : Bool → List UInt8 → Prop where
  | here {first : Bool} {gap u : List UInt8} (hgap : Gap first gap)
      (hmember : MemberAhead limit room key ahead true .empty u) :
      CaseAhead limit room key ahead first (gap ++ Octet.openObject :: u)
  | later {first : Bool} {gap u t : List UInt8} {c : Option (Case VariantPool)} (hgap : Gap first gap)
      (htaken : Takes (scanCase limit (room + 1)) (Octet.openObject :: u) c t)
      (hlater : CaseAhead limit room key ahead false t) :
      CaseAhead limit room key ahead first (gap ++ Octet.openObject :: u)

/-- How many lists and objects may be open inside of a value in a case. -/
def valueRoom : Nat := greatestNesting - 2

/-- Reading from the start comes to a value of the key without a failure before. -/
def ReachesValue (limits : Limits) (key : String) (octets ahead : List UInt8) : Prop :=
  ∃ w u, Blanks w ∧ octets = w ++ Octet.openList :: u ∧
    CaseAhead limits.conditionDepth valueRoom key ahead true u

/-- Behind the front reading comes to a value of the key, whatever stands there. -/
def LeadsTo (limits : Limits) (key : String) (front : List UInt8) : Prop :=
  ∀ ahead, ReachesValue limits key (front ++ ahead) ahead

theorem MemberAhead.exists_front {first : Bool} {d : CaseDraft VariantPool} {u : List UInt8}
    (h : MemberAhead limit room key ahead first d u) :
    ∃ front, front ≠ [] ∧ u = front ++ ahead ∧
      ∀ ahead', MemberAhead limit room key ahead' first d (front ++ ahead') := by
  induction h with
  | @here first d gap k w hgap hk hw =>
      have hsplit : ∀ ahead' : List UInt8, (gap ++ (k ++ (w ++ [Octet.colon]))) ++ ahead' =
          gap ++ (k ++ (w ++ Octet.colon :: ahead')) := fun ahead' => by
        simp only [List.append_assoc, List.singleton_append]
      refine ⟨gap ++ (k ++ (w ++ [Octet.colon])), by simp, (hsplit ahead).symm, fun ahead' => ?_⟩
      rw [hsplit]
      exact .here hgap hk hw
  | @later first d d' gap k u t other hgap hk htaken _ ih =>
      obtain ⟨front, hfront, rfl, hlater⟩ := ih
      obtain ⟨s, rfl, htaken'⟩ :=
        (regular_scanMember (f := (freedom true).inside) rfl rfl rfl limit room d other).takes_front rfl hfront htaken
      have hsplit : ∀ ahead' : List UInt8, (gap ++ (k ++ (s ++ front))) ++ ahead' =
          gap ++ (k ++ (s ++ (front ++ ahead'))) := fun ahead' => by
        simp only [List.append_assoc]
      refine ⟨gap ++ (k ++ (s ++ front)), by simp [hfront], (hsplit ahead).symm, fun ahead' => ?_⟩
      rw [hsplit]
      exact .later hgap hk (htaken' ahead') (hlater ahead')

theorem CaseAhead.exists_front {first : Bool} {u : List UInt8} (h : CaseAhead limit room key ahead first u) :
    ∃ front, front ≠ [] ∧ u = front ++ ahead ∧
      ∀ ahead', CaseAhead limit room key ahead' first (front ++ ahead') := by
  induction h with
  | @here first gap u hgap hmember =>
      obtain ⟨front, -, rfl, hmember'⟩ := hmember.exists_front
      have hsplit : ∀ ahead' : List UInt8, (gap ++ Octet.openObject :: front) ++ ahead' =
          gap ++ Octet.openObject :: (front ++ ahead') := fun ahead' => by
        rw [List.append_assoc, List.cons_append]
      refine ⟨gap ++ Octet.openObject :: front, by simp, (hsplit ahead).symm, fun ahead' => ?_⟩
      rw [hsplit]
      exact .here hgap (hmember' ahead')
  | @later first gap u t c hgap htaken _ ih =>
      obtain ⟨front, hfront, rfl, hlater⟩ := ih
      obtain ⟨s, hs, htaken'⟩ :=
        (regular_scanCase (f := freedom true) rfl rfl limit (room + 1)).takes_front rfl hfront htaken
      -- The case is not over before its brace, so the front of the later cases does not begin there.
      obtain ⟨r, hr⟩ : ∃ r, s ++ front = Octet.openObject :: r := by
        rcases List.cons_eq_append_iff.1 hs with ⟨rfl, hs⟩ | ⟨s', rfl, -⟩
        · obtain ⟨b, r, rfl⟩ := List.exists_cons_of_ne_nil hfront
          rw [List.cons_append] at hs
          exact ⟨r, congrArg (· :: r) (List.cons.inj hs).1.symm⟩
        · exact ⟨s' ++ front, rfl⟩
      have htaken'' : ∀ ahead', Takes (scanCase limit (room + 1)) (Octet.openObject :: (r ++ ahead')) c
          (front ++ ahead') := fun ahead' => by
        rw [← List.cons_append, ← hr, List.append_assoc]
        exact htaken' ahead'
      have hu : u = r ++ ahead := by
        rw [← List.append_assoc, hr, List.cons_append] at hs
        exact (List.cons.inj hs).2
      refine ⟨gap ++ Octet.openObject :: r, by simp, by rw [hu, List.append_assoc, List.cons_append], fun ahead' => ?_⟩
      rw [List.append_assoc, List.cons_append]
      exact .later hgap (htaken'' ahead') (hlater ahead')

/-- What stands ahead has no part in the way to it. -/
theorem ReachesValue.exists_leadsTo (h : ReachesValue limits key octets ahead) :
    ∃ front, octets = front ++ ahead ∧ LeadsTo limits key front := by
  obtain ⟨w, u, hw, rfl, hcase⟩ := h
  obtain ⟨front, -, rfl, hcase'⟩ := hcase.exists_front
  refine ⟨w ++ Octet.openList :: front, by rw [List.append_assoc, List.cons_append], fun ahead' => ?_⟩
  rw [List.append_assoc, List.cons_append]
  exact ⟨w, _, hw, rfl, hcase' ahead'⟩

/-- The member of a key fails at its value, whatever was read before it. -/
def ValueFails (limit room : Nat) (key : String) (ahead : List UInt8) (cause : Cause) (inPayload : Bool) : Prop :=
  ∀ (d : CaseDraft VariantPool) (w : List UInt8), Blanks w →
    FailsAs (scanMember limit room d key) (w ++ Octet.colon :: ahead) cause inPayload

/-- A case with the value ahead fails, and the account of it is true. -/
def CaseFails (Q : Account) (limit room : Nat) (key : String) (ahead : List UInt8) : Prop :=
  ∀ u : List UInt8, MemberAhead limit room key ahead true .empty u →
    FailsWith Q (scanCase limit (room + 1) : Scan (Option (Case VariantPool))) (Octet.openObject :: u)

section Failing

variable {Q : Account} {cause : Cause} {inPayload : Bool}

/-- The members up to the value are read, and the account of its failure is true of the case. -/
theorem MemberAhead.failsWith (hlasts : Q.Lasts) {first : Bool} {d : CaseDraft VariantPool} {u : List UInt8}
    (h : MemberAhead limit room key ahead first d u)
    (hvalue : ∀ (d : CaseDraft VariantPool) (w : List UInt8), Blanks w →
      FailsWith Q (scanMember limit room d key) (w ++ Octet.colon :: ahead)) :
    FailsWith Q (loop (first, d) (memberRound (scanMember limit room))) u := by
  induction h with
  | here hgap hk hw => exact FailsWith.memberLoop hgap hk hlasts (hvalue _ _ hw)
  | later hgap hk htaken _ ih => exact htaken.memberLoop_failsWith hgap hk hlasts ih

/-- The cases up to the one with the value are read. -/
theorem CaseAhead.failsWith (hlasts : Q.Lasts) {first : Bool} {u : List UInt8}
    (h : CaseAhead limit room key ahead first u)
    (hcase : CaseFails Q limit room key ahead)
    {sofar : List (Option (Case VariantPool))} (hsofar : sofar.isEmpty = first) :
    FailsWith Q (loop sofar (itemRound (scanCase limit (room + 1)))) u := by
  induction h generalizing sofar with
  | here hgap hmember =>
      subst hsofar
      exact FailsWith.itemLoop hgap (by decide) (by decide) hlasts (hcase _ hmember)
  | later hgap htaken _ ih =>
      subst hsofar
      exact htaken.itemLoop_failsWith hgap (by decide) (by decide) hlasts (advances_scanCase limit (room + 1))
        (ih rfl)

/-- Where reading comes to a case that fails, the document fails with it. -/
theorem LeadsTo.failsWith (hsteady : Q.Steady) {front : List UInt8} (h : LeadsTo limits key front)
    (hcase : CaseFails Q limits.conditionDepth valueRoom key ahead) :
    ∃ e c, read limits .document (front ++ ahead) = ((.error e : Except Failure (Multipart VariantPool)), c) ∧
      Q (.ofOctets (front ++ ahead)) e c := by
  obtain ⟨w, u, hw, hfront, hahead⟩ := h ahead
  have hitems : FailsWith Q (items (scanCase limits.conditionDepth (valueRoom + 1))) u :=
    (hahead.failsWith hsteady.lasts hcase rfl).map List.reverse
  have hscan : FailsWith Q (scan limits (valueRoom + 2)) (w ++ Octet.openList :: u) :=
    (hitems.bind _).inList hsteady |>.expectList hsteady.lasts hw expectedList
  rw [hfront]
  exact hscan.bind _ (.ofOctets _) rfl

/-- Where reading comes to a value that fails, the document fails for its cause. -/
theorem LeadsTo.exists_error {front : List UInt8} (h : LeadsTo limits key front)
    (hvalue : ValueFails limits.conditionDepth valueRoom key ahead cause inPayload) :
    ∃ e c, read limits .document (front ++ ahead) = ((.error e : Except Failure (Multipart VariantPool)), c) ∧
      e.cause = cause ∧ e.inPayload = inPayload := by
  have hsteady := Account.steady_forCause cause inPayload
  refine h.failsWith hsteady fun u hmember => ?_
  have hmembers := (hmember.failsWith hsteady.lasts hvalue).bind scanComplete
  exact (hmembers.inObject hsteady).expectObject hsteady.lasts blanks_nil expectedCase

theorem takes_colon {w : List UInt8} (hw : Blanks w) (t : List UInt8) :
    Takes colon (w ++ Octet.colon :: t) () t :=
  .of_gives fun _ => gives_colon hw

theorem valueFails_apply (h : FailsAs (VariantPool.scan room) ahead cause inPayload) :
    ValueFails limit room "apply" ahead cause true := by
  intro d w hw
  have hfails : FailsWith (.forCause cause inPayload) (VariantPool.scan room) ahead := h
  have hpayload : FailsWith (.forCause cause true) (Scan.payload (VariantPool.scan room)) ahead :=
    hfails.payload fun _ _ _ he => ⟨he.1, rfl⟩
  exact (takes_colon hw _).bind_failsWith (Account.steady_forCause cause true).lasts (hpayload.bind _)

theorem valueFails_when (h : FailsAs (Condition.scan limit room 1) ahead cause inPayload) :
    ValueFails limit room "when" ahead cause inPayload := by
  intro d w hw
  have hfails : FailsWith (.forCause cause inPayload) (Condition.scan limit room 1) ahead := h
  exact (takes_colon hw _).bind_failsWith (Account.steady_forCause cause inPayload).lasts (hfails.bind _)

end Failing

theorem failsAs_of_not_isPool {j : Json} {t : List UInt8} (h : Stands room j ahead t)
    (hj : ¬VariantPool.IsPool j) : FailsAs (VariantPool.scan room) ahead (.data .noAlternative) false := by
  refine (takes_tree_iff.2 h).bind_failsWith (Account.steady_forCause (.data .noAlternative) false).lasts
    fun c _ => ?_
  rw [VariantPool.ofJson?_eq_none_iff.2 hj]
  exact ⟨_, c, rfl, rfl, rfl⟩

/-- A tree fails for the grammar alone. -/
theorem cause_tree {c c' : Cursor} {e : Failure} (h : (tree room).run .document c = (.error e, c')) :
    ∃ fault, e.cause = .grammar fault := by
  have hpermits := (Regular.tree (f := ⟨true, false, false, false⟩) room).permits rfl h
  rcases hpermits.cause with hgrammar | ⟨hfalse, -⟩ | ⟨reason, -, hsource⟩
  · exact hgrammar
  · cases hfalse
  · exact absurd hsource (hpermits.cause_ne_source trivial reason)

/-- Where no JSON stands, a pool fails for the grammar. -/
theorem exists_failsAs_of_not_stands (h : ∀ j t, ¬Stands room j ahead t) :
    ∃ fault, FailsAs (VariantPool.scan room) ahead (.grammar fault) false := by
  rcases hrun : (tree room).run .document (.ofOctets ahead) with ⟨e | j, c⟩
  · obtain ⟨fault, hfault⟩ := cause_tree hrun
    have hfails := (Regular.tree (f := ⟨false, false, false, false⟩) room).failsAs rfl hrun
    have hmark := Regular.inPayload_ne (.tree room) hrun
    rw [hfault, Bool.eq_false_iff.2 hmark] at hfails
    have hfails : FailsWith (.forCause (.grammar fault) false) (tree room) ahead := hfails
    exact ⟨fault, hfails.bind _⟩
  · exact absurd (ok_tree hrun) (h j c.rest)

/-- A pool fails for its shape only where JSON stands that is no pool. -/
theorem stands_of_error {c c' : Cursor} {e : Failure} {fault : DataFault}
    (h : (VariantPool.scan room).run .document c = (.error e, c')) (hcause : e.cause = .data fault) :
    (∃ j t, Stands room j c.rest t ∧ ¬VariantPool.IsPool j) ∧ fault = .noAlternative := by
  rcases error_bind h with htree | ⟨j, d, htree, h⟩
  · obtain ⟨fault', hgrammar⟩ := cause_tree htree
    rw [hcause] at hgrammar
    cases hgrammar
  · cases hj : VariantPool.ofJson? j with
    | some pool =>
        rw [hj] at h
        cases h
    | none =>
        rw [hj] at h
        cases h
        exact ⟨⟨j, _, ok_tree htree, VariantPool.ofJson?_eq_none_iff.1 hj⟩, Cause.data.inj hcause.symm⟩

/-- A failure for the shape of a payload. -/
def Blames (e : Failure) (fault : DataFault) : Prop := e.inPayload = true ∧ e.cause = .data fault

/-- No pool is ahead, and the failure is one for that. -/
def NoPool (room : Nat) (ahead : List UInt8) (fault : DataFault) : Prop :=
  (∃ j t, Stands room j ahead t ∧ ¬VariantPool.IsPool j) ∧ fault = .noAlternative

section Blame

variable {c c' : Cursor} {e : Failure} {fault : DataFault}

theorem noPool_of_scanMember {d : CaseDraft VariantPool}
    (h : (scanMember limit room d key).run .document c = (.error e, c')) (he : Blames e fault) :
    ∃ w ahead, Blanks w ∧ c.rest = w ++ Octet.colon :: ahead ∧ key = "apply" ∧ NoPool room ahead fault := by
  unfold scanMember at h
  cases hkey : CaseKey.ofName key with
  | when =>
      rw [hkey] at h
      have hwhen : Regular .outside (Condition.scan limit room 1) := Condition.regular_scan rfl limit room 1
      exact absurd he.1 (Regular.inPayload_ne (.bind .colon fun _ => .bind hwhen fun _ => .pure _) h)
  | other name =>
      rw [hkey] at h
      refine absurd he.1 (Regular.inPayload_ne ?_ h)
      exact .bind (.report _) fun _ => .bind .colon fun _ => .bind .skipValue fun _ => .pure _
  | apply =>
      rw [hkey] at h
      obtain ⟨u, d, hcolon, h⟩ := error_bind_outside he.1 .colon h
      obtain ⟨w, hw, hrest⟩ := ok_colon hcolon
      rcases error_bind h with h | ⟨a, d', -, hpure⟩
      · obtain ⟨e', hscan, rfl⟩ := error_payload h
        exact ⟨w, d.rest, hw, hrest, CaseKey.eq_of_ofName hkey, stands_of_error hscan he.2⟩
      · cases hpure

theorem noPool_of_memberLoop {state : Bool × CaseDraft VariantPool}
    (h : (loop state (memberRound (scanMember limit room))).run .document c = (.error e, c'))
    (he : Blames e fault) :
    ∃ ahead, MemberAhead limit room "apply" ahead state.1 state.2 c.rest ∧ NoPool room ahead fault := by
  refine error_loop (P := fun state c e _ => Blames e fault → ∃ ahead,
    MemberAhead limit room "apply" ahead state.1 state.2 c.rest ∧ NoPool room ahead fault)
    (.memberRound _) ?_ ?_ h he
  · intro state c e c' h he
    obtain ⟨gap, k, key, d, hgap, hk, hrest, hmember⟩ := error_memberRound he.1 h
    obtain ⟨w, ahead, hw, hrest', rfl, hpool⟩ := noPool_of_scanMember hmember he
    rw [hrest, hrest']
    exact ⟨ahead, .here hgap hk hw, hpool⟩
  · intro state c state' d e c' h hlater he
    obtain ⟨gap, k, key, d', s, hgap, hk, hrest, hmember, rfl⟩ := ok_memberRound_inl h
    obtain ⟨ahead, hahead, hpool⟩ := hlater he
    have hregular := regular_scanMember (f := (freedom false).inside) rfl rfl rfl limit room state.2 key
    rw [hrest]
    exact ⟨ahead, .later hgap hk (hregular.takes rfl hmember) hahead, hpool⟩

theorem noPool_of_scanCase
    (h : (scanCase limit (room + 1) : Scan (Option (Case VariantPool))).run .document c = (.error e, c'))
    (he : Blames e fault) :
    ∃ w u ahead, Blanks w ∧ c.rest = w ++ Octet.openObject :: u ∧
      MemberAhead limit room "apply" ahead true .empty u ∧ NoPool room ahead fault := by
  obtain ⟨w, u, d, hw, hrest, hd, h⟩ := error_expectObject he.1 h
  obtain ⟨e', d', d'', h, hd', hcause, hmark⟩ := error_inside he.1 .closeObject h
  have he' : Blames e' fault := ⟨hmark, hcause.trans he.2⟩
  rcases error_bind h with h | ⟨draft, d1, -, h⟩
  · obtain ⟨ahead, hahead, hpool⟩ := noPool_of_memberLoop h he'
    rw [hd', hd] at hahead
    exact ⟨w, u, ahead, hw, hrest, hahead, hpool⟩
  · exact absurd hmark (Regular.inPayload_ne (regular_scanComplete rfl draft) h)

theorem noPool_of_itemLoop {sofar : List (Option (Case VariantPool))}
    (h : (loop sofar (itemRound (scanCase limit (room + 1)))).run .document c = (.error e, c'))
    (he : Blames e fault) :
    ∃ ahead, CaseAhead limit room "apply" ahead sofar.isEmpty c.rest ∧ NoPool room ahead fault := by
  refine error_loop (P := fun sofar c e _ => Blames e fault → ∃ ahead,
    CaseAhead limit room "apply" ahead sofar.isEmpty c.rest ∧ NoPool room ahead fault)
    (.itemRound (advances_scanCase limit (room + 1))) ?_ ?_ h he
  · intro sofar c e c' h he
    obtain ⟨d, hhas, h⟩ := error_itemRound he.1 h
    obtain ⟨gap, b, hgap, hrest, hhead, hb, -⟩ := ok_hasItem_true hhas
    obtain ⟨w, u, ahead, hw, hd, hahead, hpool⟩ := noPool_of_scanCase h he
    rw [hd] at hhead hrest
    obtain rfl := blanks_eq_nil hw hhead hb
    rw [hrest]
    exact ⟨ahead, .here hgap hahead, hpool⟩
  · intro sofar c sofar' d e c' h hlater he
    obtain ⟨d', a, hhas, hcase, rfl⟩ := ok_itemRound_inl h
    obtain ⟨gap, b, hgap, hrest, hhead, hb, -⟩ := ok_hasItem_true hhas
    obtain ⟨ahead, hahead, hpool⟩ := hlater he
    have htaken := (regular_scanCase (f := freedom false) rfl rfl limit (room + 1)).takes rfl hcase
    obtain ⟨w, u, hw, hd⟩ := ok_expectObject hcase
    rw [hd] at hhead hrest htaken
    obtain rfl := blanks_eq_nil hw hhead hb
    rw [hrest]
    exact ⟨ahead, .later hgap htaken hahead, hpool⟩

/-- A document that fails for the shape of a payload leads to a value that is no pool. -/
theorem reachesValue_of_blames
    (h : read limits .document octets = ((.error e : Except Failure (Multipart VariantPool)), c'))
    (he : Blames e fault) :
    ∃ ahead, ReachesValue limits "apply" octets ahead ∧ NoPool valueRoom ahead fault := by
  rcases error_bind h with h | ⟨m, d, -, h⟩
  · have hgreatest : greatestNesting = valueRoom + 2 := rfl
    rw [hgreatest] at h
    obtain ⟨w, u, d, hw, hrest, hd, h⟩ := error_expectList he.1 h
    obtain ⟨e', d', d'', h, hd', hcause, hmark⟩ := error_inside he.1 .closeList h
    have he' : Blames e' fault := ⟨hmark, hcause.trans he.2⟩
    rcases error_bind h with h | ⟨cs, d1, -, hpure⟩
    · rcases error_bind h with h | ⟨reversed, d1, -, hpure⟩
      · obtain ⟨ahead, hahead, hpool⟩ := noPool_of_itemLoop h he'
        rw [hd', hd] at hahead
        exact ⟨ahead, ⟨w, u, hw, hrest, hahead⟩, hpool⟩
      · cases hpure
    · cases hpure
  · exact absurd he.1 (Regular.inPayload_ne (.bind .endOfDocument fun _ => .pure m) h)

end Blame

theorem exists_read_of_parse {fault : Fault}
    (h : (parse limits .document octets : Except Fault (Multipart VariantPool)) = .error fault) :
    ∃ e c, read limits .document octets = ((.error e : Except Failure (Multipart VariantPool)), c) ∧
      fault = .ofFailure e := by
  rcases hread : read (α := VariantPool) limits .document octets with ⟨e | m, c⟩ <;> rw [parse_of_read hread] at h
  · exact ⟨e, c, rfl, (Except.error.inj h).symm⟩
  · cases h

/-- A payload is to blame exactly for the failures of its shape, and otherwise the document is. -/
theorem kind_of_read {e : Failure} {c : Cursor}
    (h : read limits .document octets = ((.error e : Except Failure (Multipart VariantPool)), c)) :
    (∃ fault, Blames e fault ∧ (Fault.ofFailure e).kind = .payload) ∨ (Fault.ofFailure e).kind = .malformed := by
  have hpermits := permits_of_read h
  have hsource := hpermits.cause_ne_source trivial
  rw [Fault.kind_ofFailure hsource]
  rcases hpermits.cause with ⟨fault, hfault⟩ | ⟨-, fault, hfault⟩ | ⟨reason, -, hreason⟩
  · rw [Failure.isData, hfault, Bool.and_false]
    exact .inr rfl
  · cases hmark : e.inPayload with
    | true =>
        rw [Failure.isData, hfault]
        exact .inl ⟨fault, ⟨hmark, hfault⟩, rfl⟩
    | false => exact .inr rfl
  · exact absurd hreason (hsource reason)

/-- A document that leads to a value which fails, but not for the shape of a payload, is malformed. -/
theorem LeadsTo.malformed {front : List UInt8} {cause : Cause} {inPayload : Bool} (h : LeadsTo limits key front)
    (hvalue : ValueFails limits.conditionDepth valueRoom key ahead cause inPayload)
    (hblame : inPayload = true → ∃ fault, cause = .grammar fault) :
    ∃ fault : Fault, parse (α := VariantPool) limits .document (front ++ ahead) = .error fault ∧
      fault.kind = .malformed ∧ fault.message = cause.message := by
  obtain ⟨e, c, hread, rfl, rfl⟩ := h.exists_error hvalue
  refine ⟨_, parse_of_read hread, ?_, Fault.message_ofFailure e⟩
  rcases kind_of_read hread with ⟨fault, ⟨hmark, hcause⟩, -⟩ | hkind
  · obtain ⟨fault', hgrammar⟩ := hblame hmark
    rw [hcause] at hgrammar
    cases hgrammar
  · exact hkind

/-- A payload is to blame for a document exactly where reading leads to the value of an `apply`, and the front of
what follows is complete JSON that is neither a variant nor a list of variants. It is then blamed in the same
words always, and in every other failure the document is malformed: where no JSON stands in an `apply`, and
wherever a condition fails. -/
theorem parse_faults (limits : Limits) (octets : List UInt8) :
    ((∃ fault : Fault, parse (α := VariantPool) limits .document octets = .error fault ∧ fault.kind = .payload) ↔
        ∃ front ahead j t, octets = front ++ ahead ∧ LeadsTo limits "apply" front ∧
          Stands valueRoom j ahead t ∧ ¬VariantPool.IsPool j) ∧
      (∀ fault : Fault, parse (α := VariantPool) limits .document octets = .error fault →
        (fault.kind = .payload ∧
          fault.message = "data did not match any variant of untagged enum VariantValue") ∨
        fault.kind = .malformed) ∧
      ∀ front ahead, octets = front ++ ahead →
        (LeadsTo limits "apply" front → (∀ j t, ¬Stands valueRoom j ahead t) →
          ∃ fault : Fault, parse (α := VariantPool) limits .document octets = .error fault ∧
            fault.kind = .malformed) ∧
        ∀ e c, LeadsTo limits "when" front →
          (Condition.scan limits.conditionDepth valueRoom 1).runOn .document ahead = (.error e, c) →
          ∃ fault : Fault, parse (α := VariantPool) limits .document octets = .error fault ∧
            fault.kind = .malformed ∧ fault.message = e.cause.message := by
  refine ⟨⟨?_, ?_⟩, ?_, ?_⟩
  · rintro ⟨fault, hfault, hkind⟩
    obtain ⟨e, c, hread, rfl⟩ := exists_read_of_parse hfault
    rcases kind_of_read hread with ⟨fault, hblames, -⟩ | hmalformed
    · obtain ⟨ahead, hreaches, ⟨j, t, hstands, hj⟩, -⟩ := reachesValue_of_blames hread hblames
      obtain ⟨front, rfl, hleads⟩ := hreaches.exists_leadsTo
      exact ⟨front, ahead, j, t, rfl, hleads, hstands, hj⟩
    · rw [hmalformed] at hkind
      cases hkind
  · rintro ⟨front, ahead, j, t, rfl, hleads, hstands, hj⟩
    obtain ⟨e, c, hread, hcause, hmark⟩ :=
      hleads.exists_error (valueFails_apply (failsAs_of_not_isPool hstands hj))
    refine ⟨_, parse_of_read hread, ?_⟩
    rw [Fault.kind_ofFailure ((permits_of_read hread).cause_ne_source trivial), Failure.isData, hcause, hmark]
    rfl
  · intro fault hfault
    obtain ⟨e, c, hread, rfl⟩ := exists_read_of_parse hfault
    rcases kind_of_read hread with ⟨fault, hblames, hkind⟩ | hmalformed
    · obtain ⟨ahead, -, -, rfl⟩ := reachesValue_of_blames hread hblames
      refine .inl ⟨hkind, ?_⟩
      rw [Fault.message_ofFailure, hblames.2]
      rfl
    · exact .inr hmalformed
  · rintro front ahead rfl
    refine ⟨fun hleads hnone => ?_, fun e c hleads hwhen => ?_⟩
    · obtain ⟨fault, hfails⟩ := exists_failsAs_of_not_stands hnone
      obtain ⟨fault', hparse, hkind, -⟩ := hleads.malformed (valueFails_apply hfails) fun _ => ⟨fault, rfl⟩
      exact ⟨fault', hparse, hkind⟩
    · have hregular : Regular ⟨false, true, true, false⟩ (Condition.scan limits.conditionDepth valueRoom 1) :=
        Condition.regular_scan rfl _ _ _
      have houtside : Regular .outside (Condition.scan limits.conditionDepth valueRoom 1) :=
        Condition.regular_scan rfl _ _ _
      have hmark := houtside.inPayload_ne hwhen
      exact hleads.malformed (valueFails_when (hregular.failsAs rfl hwhen)) fun h => absurd h hmark

/-- The value of the first member of the first case is reached. -/
theorem leadsTo_first {k : List UInt8} (hk : Leaves.exact.string key k) :
    LeadsTo limits key (Octet.openList :: Octet.openObject :: (k ++ [Octet.colon])) := by
  intro ahead
  refine ⟨[], _, blanks_nil, rfl, ?_⟩
  have hmember : MemberAhead limits.conditionDepth valueRoom key ahead true .empty
      ([] ++ (k ++ ([] ++ Octet.colon :: ahead))) := .here (.first blanks_nil) hk blanks_nil
  have hcase := CaseAhead.here (.first blanks_nil) hmember
  simpa using hcase

/-- A list of cases that begins with a member of the key. -/
def firstMember (key : String) : List UInt8 :=
  Octet.openList :: Octet.openObject :: (Text.Utf8.encode (Json.Written.string key) ++ [Octet.colon])

theorem leadsTo_firstMember (limits : Limits) (key : String) : LeadsTo limits key (firstMember key) :=
  leadsTo_first (Json.Written.spells_string key)

theorem stands_number :
    Stands valueRoom (.number (.int 5)) (Text.Utf8.encode "5 x".toList) (Text.Utf8.encode " x".toList) := by
  have hrun : (tree valueRoom).runOn .document (Text.Utf8.encode "5 x".toList) =
      (.ok (.number (.int 5)), ⟨1, ⟨1, 1⟩, Text.Utf8.encode " x".toList, true, []⟩) := rfl
  exact ok_tree hrun

theorem not_isPool_number (n : JsonNumber) : ¬VariantPool.IsPool (.number n) := by
  rintro (⟨v, hv⟩ | ⟨js, hjs, -⟩)
  · cases hv
  · cases hjs

theorem not_stands_openList (j : Json) (t : List UInt8) : ¬Stands valueRoom j [Octet.openList] t := by
  intro h
  obtain ⟨c, hrun, -⟩ := takes_tree_iff.2 h (.ofOctets [Octet.openList]) rfl
  have hfails : ((tree valueRoom).runOn .document [Octet.openList]).1.toOption.isSome = false := rfl
  rw [runOn, hrun] at hfails
  cases hfails

/-- A number followed by something else is blamed on the payload, and a list that does not end is not. -/
theorem parse_faults_firstMember :
    LeadsTo .standard "apply" (firstMember "apply") ∧ LeadsTo .standard "when" (firstMember "when") ∧
      (∃ fault : Fault, parse (α := VariantPool) .standard .document
          (firstMember "apply" ++ Text.Utf8.encode "5 x".toList) = .error fault ∧ fault.kind = .payload ∧
          fault.message = "data did not match any variant of untagged enum VariantValue") ∧
      (∃ fault : Fault, parse (α := VariantPool) .standard .document
          (firstMember "apply" ++ [Octet.openList]) = .error fault ∧ fault.kind = .malformed) ∧
      ∃ fault : Fault, parse (α := VariantPool) .standard .document
          (firstMember "when" ++ Text.Utf8.encode "7".toList) = .error fault ∧ fault.kind = .malformed ∧
          fault.message = "invalid type: integer `7`, expected a condition object" := by
  have happly := leadsTo_firstMember .standard "apply"
  have hwhen := leadsTo_firstMember .standard "when"
  refine ⟨happly, hwhen, ?_, ?_, ?_⟩
  · obtain ⟨hblame, hkinds, -⟩ := parse_faults .standard (firstMember "apply" ++ Text.Utf8.encode "5 x".toList)
    obtain ⟨fault, hfault, hkind⟩ := hblame.2 ⟨_, _, _, _, rfl, happly, stands_number, not_isPool_number _⟩
    rcases hkinds fault hfault with ⟨-, hmessage⟩ | hmalformed
    · exact ⟨fault, hfault, hkind, hmessage⟩
    · rw [hmalformed] at hkind
      cases hkind
  · exact ((parse_faults .standard _).2.2 _ _ rfl).1 happly not_stands_openList
  · have hcondition : ∃ c, (Condition.scan 32 valueRoom 1).runOn .document (Text.Utf8.encode "7".toList) =
        (.error ⟨.data (.wrongType (.int 7) "a condition object"), some ⟨1, 1⟩, false⟩, c) := ⟨_, rfl⟩
    obtain ⟨c, hrun⟩ := hcondition
    exact ((parse_faults .standard _).2.2 _ _ rfl).2 _ _ hwhen hrun

end BlockModel.Multipart
