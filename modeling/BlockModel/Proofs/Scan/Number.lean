import BlockModel.Proofs.Scan.Comes
import BlockModel.Proofs.Scan.Token
import BlockModel.Scan.Skip

/-! Numerals are read as their values, refused when they are beyond double precision, and passed over when nobody
asks for them. A numeral ends where nothing follows that could go on with it; the reader finds that end by looking
one octet ahead. -/

namespace BlockModel

/-- What may follow a numeral: nothing that would go on with it. -/
def Follows (t : List UInt8) : Prop :=
  ∀ b ∈ t.head?, Octet.isDigit b = false ∧ b ≠ Octet.point ∧ Scan.isExponentMark b = false

/-- A text that does not go on with a run of digits. -/
def StopsDigits (t : List UInt8) : Prop := ∀ b ∈ t.head?, Octet.isDigit b = false

/-- A text that does not go on with a numeral of which these parts are written. -/
def Ends (f : Option Digits) (e : Option ExponentPart) (t : List UInt8) : Prop :=
  ∀ b ∈ t.head?, Octet.isDigit b = false ∧
    (e = none → Scan.isExponentMark b = false ∧ (f = none → b ≠ Octet.point))

theorem Follows.stopsDigits {t : List UInt8} (ht : Follows t) : StopsDigits t := fun b hb => (ht b hb).1

theorem Follows.ends {t : List UInt8} (ht : Follows t) (f : Option Digits) (e : Option ExponentPart) :
    Ends f e t := by
  intro b hb
  obtain ⟨hdigit, hpoint, hmark⟩ := ht b hb
  exact ⟨hdigit, fun _ => ⟨hmark, fun _ => hpoint⟩⟩

/-- A text does not go on with the value that another one spells: only a numeral could go on. -/
def EndsBefore (s t : List UInt8) : Prop := ∀ x : Numeral, x.octets = s → Ends x.fraction x.exponent t

theorem Follows.endsBefore {t : List UInt8} (ht : Follows t) (s : List UInt8) : EndsBefore s t :=
  fun x _ => ht.ends x.fraction x.exponent

theorem Ends.stopsDigits {f : Option Digits} {e : Option ExponentPart} {t : List UInt8} (ht : Ends f e t) :
    StopsDigits t := fun b hb => (ht b hb).1

theorem isDigit_of_isExponentMark {b : UInt8} (h : Scan.isExponentMark b = true) : Octet.isDigit b = false := by
  simp only [Scan.isExponentMark, Bool.or_eq_true, decide_eq_true_eq] at h
  rcases h with rfl | rfl <;> decide

theorem ne_point_of_isExponentMark {b : UInt8} (h : Scan.isExponentMark b = true) : b ≠ Octet.point := by
  rintro rfl
  exact absurd h (by decide)

theorem Digits.exists_cons (ds : Digits) : ∃ d more, ds.octets = d :: more ∧ Octet.isDigit d = true ∧
    ∀ b ∈ more, Octet.isDigit b = true := by
  obtain ⟨d, more, h⟩ := List.exists_cons_of_ne_nil ds.ne_nil
  have hall := ds.isDigit
  rw [h] at hall
  exact ⟨d, more, h, hall d (by simp), fun b hb => hall b (by simp [hb])⟩

namespace Numeral

theorem stopsDigits_exponent (e : Option ExponentPart) {t : List UInt8} (ht : StopsDigits t) :
    StopsDigits (exponentOctets e ++ t) := by
  cases e with
  | none => exact ht
  | some e =>
      intro b hb
      obtain rfl := Option.some.inj hb
      exact isDigit_of_isExponentMark e.isMark

theorem stopsDigits_fraction (f : Option Digits) (e : Option ExponentPart) {t : List UInt8}
    (ht : StopsDigits t) :
    StopsDigits (fractionOctets f ++ (exponentOctets e ++ t)) := by
  cases f with
  | none => exact stopsDigits_exponent e ht
  | some ds =>
      intro b hb
      obtain rfl := Option.some.inj hb
      decide

end Numeral

namespace Scan

variable {t : List UInt8} {l : List LogLine} {negative : Bool} {n : JsonNumber}

theorem gives_digits {ds : List UInt8} (hds : ∀ b ∈ ds, Octet.isDigit b = true) (ht : StopsDigits t) :
    Gives digits ⟨ds ++ t, l⟩ (.ok ds) ⟨t, l⟩ :=
  Gives.takeWhile hds ht

/-- What comes of a numeral: its value, if it is in range. -/
def inRange : Option JsonNumber → Except Failure JsonNumber
  | some n => .ok n
  | none => .error (.of (.grammar .numberOutOfRange))

theorem comes_scaled (negative : Bool) (m : Nat) (e : Int) (v : View) :
    Comes (scaled negative m e) v (inRange (Numeral.scaled? negative m e)) v := by
  unfold scaled Numeral.scaled?
  cases (Binary64.nearest? m 1).bind (·.scaleTen? e) with
  | some x => exact .pure _ v
  | none => exact .fail _ _

theorem comes_whole (negative : Bool) (m : Nat) (v : View) :
    Comes (whole negative m) v (inRange (Numeral.whole? negative m)) v := by
  unfold whole Numeral.whole?
  split
  · split
    · exact comes_scaled true m 0 v
    · exact .pure _ v
  · exact .pure _ v

theorem gives_exponentSign (e : ExponentPart) :
    Gives exponentSign ⟨ExponentPart.signOctets e.sign ++ (e.digits.octets ++ t), l⟩ (.ok e.isDown)
      ⟨e.digits.octets ++ t, l⟩ := by
  obtain ⟨d, more, hds, hd, -⟩ := e.digits.exists_cons
  unfold ExponentPart.isDown
  cases e.sign with
  | none =>
      have hplus : d ≠ Octet.plus := by rintro rfl; exact absurd hd (by decide)
      have hminus : d ≠ Octet.minus := by rintro rfl; exact absurd hd (by decide)
      rw [hds]
      refine (Gives.peek d (more ++ t)).bind_ok ?_
      simp only [if_neg hplus, if_neg hminus]
      exact .pure _ _
  | some down =>
      cases down with
      | false =>
          refine (Gives.peek Octet.plus _).bind_ok ?_
          simp only [if_true]
          exact (Gives.skip _ _).bind_ok (.pure _ _)
      | true =>
          refine (Gives.peek Octet.minus _).bind_ok ?_
          simp only [if_neg (show Octet.minus ≠ Octet.plus by decide), if_true]
          exact (Gives.skip _ _).bind_ok (.pure _ _)

/-- The number that more digits make of one. -/
def withDigits (m : Nat) (ds : List UInt8) : Nat := ds.foldl (fun n d => n * 10 + Octet.digit d) m

theorem le_withDigits (m : Nat) (ds : List UInt8) : m ≤ withDigits m ds := by
  induction ds generalizing m with
  | nil => exact Nat.le_refl m
  | cons d ds ih =>
      have h := ih (m * 10 + Octet.digit d)
      simp only [withDigits, List.foldl_cons] at h ⊢
      omega

/-- The digits of an exponent are read to their end below the bound, and no further than to the bound. -/
theorem gives_exponentLoop {ds : List UInt8} (hds : ∀ b ∈ ds, Octet.isDigit b = true) (ht : StopsDigits t)
    (m : Nat) :
    ∃ left, (∀ b ∈ left, Octet.isDigit b = true) ∧
      (withDigits m ds < exponentBound → left = []) ∧
      (m < exponentBound → Gives (loop m exponentRound) ⟨ds ++ t, l⟩
        (.ok (if withDigits m ds < exponentBound then some (withDigits m ds) else none)) ⟨left ++ t, l⟩) := by
  induction ds generalizing m with
  | nil =>
      refine ⟨[], List.forall_mem_nil _, fun _ => rfl, fun hm => ?_⟩
      rw [withDigits, List.foldl_nil, if_pos hm]
      cases t with
      | nil => exact Gives.loop_last (Gives.peek_nil.bind_ok (.pure (Sum.inr (some m)) _))
      | cons b t =>
          refine Gives.loop_last ((Gives.peek b t).bind_ok ?_)
          simp only [ht b rfl, Bool.false_eq_true, if_false]
          exact .pure _ _
  | cons d ds ih =>
      have hd := hds d (by simp)
      have hmore : ∀ b ∈ ds, Octet.isDigit b = true := fun b hb => hds b (by simp [hb])
      have hwith : withDigits m (d :: ds) = withDigits (m * 10 + Octet.digit d) ds := rfl
      by_cases hnext : m * 10 + Octet.digit d < exponentBound
      · obtain ⟨left, hleft, hnil, hgives⟩ := ih hmore (m * 10 + Octet.digit d)
        refine ⟨left, hleft, fun h => hnil (hwith ▸ h), fun _ => ?_⟩
        rw [hwith]
        refine Gives.loop_next ((Gives.peek d (ds ++ t)).bind_ok ?_) ?_ (hgives hnext)
        · simp only [hd, if_true]
          refine (Gives.skip d (ds ++ t)).bind_ok ?_
          simp only [if_pos hnext]
          exact .pure _ _
        · simp
      · have hle := le_withDigits (m * 10 + Octet.digit d) ds
        have hbeyond : ¬withDigits m (d :: ds) < exponentBound := by rw [hwith]; omega
        refine ⟨ds, hmore, fun h => absurd h hbeyond, fun _ => ?_⟩
        rw [if_neg hbeyond]
        refine Gives.loop_last ((Gives.peek d (ds ++ t)).bind_ok ?_)
        simp only [hd, if_true]
        refine (Gives.skip d (ds ++ t)).bind_ok ?_
        simp only [if_neg hnext]
        exact .pure _ _

theorem comes_exponentRest {e : ExponentPart} (ht : StopsDigits t) (negative : Bool) (m : Nat) (shift : Int) :
    Comes (exponentRest negative m shift) ⟨ExponentPart.signOctets e.sign ++ (e.digits.octets ++ t), l⟩
      (inRange (Numeral.scaledBy? negative m shift (some e))) ⟨t, l⟩ := by
  obtain ⟨d, more, hds, hd, hmore⟩ := e.digits.exists_cons
  have hvalue : e.digits.value = withDigits (Octet.digit d) more := by
    rw [Digits.value, hds, List.foldl_cons, Nat.zero_mul, Nat.zero_add]
    rfl
  have hdigit : Octet.digit d < exponentBound := by
    have := d.toNat_lt
    simp only [Octet.digit, exponentBound]
    omega
  obtain ⟨left, hleft, hnil, hgives⟩ := gives_exponentLoop (l := l) hmore ht (Octet.digit d)
  refine (gives_exponentSign e).before ?_
  rw [hds]
  refine (Gives.next d (more ++ t)).before ?_
  simp only [hd, if_true]
  refine (hgives hdigit).before ?_
  simp only [Numeral.scaledBy?, hvalue]
  by_cases hbound : withDigits (Octet.digit d) more < exponentBound
  · rw [if_pos hbound, hnil hbound]
    simp only [if_pos hbound]
    exact comes_scaled negative m _ _
  · simp only [if_neg hbound]
    -- The digits that are left make no difference to what the number is, nor to whether it is in range.
    split
    · exact .fail _ _
    · exact (gives_digits hleft ht).before (.pure _ _)

theorem comes_exponentOrEnd {f : Option Digits} {e : Option ExponentPart} (ht : Ends f e t) (negative : Bool)
    (m : Nat) (shift : Int) :
    Comes (exponentOrEnd negative m shift) ⟨Numeral.exponentOctets e ++ t, l⟩
      (inRange (Numeral.scaledBy? negative m shift e)) ⟨t, l⟩ := by
  cases e with
  | none =>
      cases t with
      | nil => exact Gives.peek_nil.before (comes_scaled negative m shift _)
      | cons b t =>
          refine (Gives.peek b t).before ?_
          simp only [((ht b rfl).2 rfl).1, Bool.false_eq_true, if_false]
          exact comes_scaled negative m shift _
  | some e =>
      rw [Numeral.exponentOctets, ExponentPart.octets, List.cons_append, List.append_assoc]
      refine (Gives.peek e.mark _).before ?_
      simp only [e.isMark, if_true]
      exact (Gives.skip _ _).before (comes_exponentRest ht.stopsDigits negative m shift)

theorem comes_fractionRest {significand m : Nat} {ds : Digits} {left : List UInt8}
    (hgather : gather significand ds.octets = (m, left)) {e : Option ExponentPart} (ht : Ends (some ds) e t)
    (negative : Bool) (shift : Int) :
    Comes (fractionRest negative significand shift) ⟨ds.octets ++ (Numeral.exponentOctets e ++ t), l⟩
      (inRange (Numeral.scaledBy? negative m (shift - (ds.octets.length - left.length : Nat)) e)) ⟨t, l⟩ := by
  refine (gives_digits ds.isDigit (Numeral.stopsDigits_exponent e ht.stopsDigits)).before ?_
  obtain ⟨d, more, hds, -, -⟩ := ds.exists_cons
  simp only [hds] at hgather ⊢
  rw [hgather]
  exact comes_exponentOrEnd ht negative m _

theorem comes_afterWhole {x : Numeral} (ht : Ends x.fraction x.exponent t) :
    Comes (afterWhole x.negative x.whole.octets)
      ⟨Numeral.fractionOctets x.fraction ++ (Numeral.exponentOctets x.exponent ++ t), l⟩ (inRange x.value?)
      ⟨t, l⟩ := by
  obtain ⟨m, left, hgather⟩ : ∃ m left, gather 0 x.whole.octets = (m, left) := ⟨_, _, rfl⟩
  simp only [Numeral.value?, Numeral.isWhole, Numeral.significand, hgather]
  rw [afterWhole, hgather]
  cases hfraction : x.fraction with
  | some ds =>
      rw [hfraction] at ht
      simp only [Option.isNone_some, Bool.false_and, Bool.false_eq_true, if_false]
      refine (Gives.peek Octet.point _).before ?_
      simp only [if_true]
      exact (Gives.skip _ _).before (comes_fractionRest rfl ht x.negative left.length)
  | none =>
      cases hexponent : x.exponent with
      | some e =>
          simp only [Option.isNone_some, Bool.and_false, Bool.false_and, Bool.false_eq_true, if_false]
          rw [Numeral.exponentOctets, ExponentPart.octets, List.cons_append, List.append_assoc]
          refine (Gives.peek e.mark _).before ?_
          simp only [if_neg (ne_point_of_isExponentMark e.isMark), e.isMark, if_true]
          exact (Gives.skip _ _).before (comes_exponentRest ht.stopsDigits x.negative m left.length)
      | none =>
          simp only [Option.isNone_none, Bool.true_and]
          have hend : Comes (if left.isEmpty then whole x.negative m else scaled x.negative m left.length) ⟨t, l⟩
              (inRange (if left.isEmpty then Numeral.whole? x.negative m
                else Numeral.scaledBy? x.negative m left.length none)) ⟨t, l⟩ := by
            split
            · exact comes_whole x.negative m _
            · exact comes_scaled x.negative m left.length _
          cases t with
          | nil => exact Gives.peek_nil.before hend
          | cons b t =>
              obtain ⟨hmark, hpoint⟩ := (ht b rfl).2 hexponent
              refine (Gives.peek b t).before ?_
              simp only [if_neg (hpoint hfraction), hmark, Bool.false_eq_true, if_false]
              exact hend

theorem comes_unsigned {x : Numeral} (ht : Ends x.fraction x.exponent t) :
    Comes (unsigned x.negative)
      ⟨x.whole.octets ++ (Numeral.fractionOctets x.fraction ++ (Numeral.exponentOctets x.exponent ++ t)), l⟩
      (inRange x.value?) ⟨t, l⟩ := by
  have hstop := Numeral.stopsDigits_fraction x.fraction x.exponent ht.stopsDigits
  have hafter := comes_afterWhole (l := l) ht
  obtain ⟨d, more, hds, hd, hmore⟩ := x.whole.exists_cons
  have hzero := x.noLeadingZero
  rw [hds] at hafter hzero ⊢
  refine (Gives.next d _).before ?_
  by_cases hfirst : d = Octet.zero
  · obtain rfl : more = [] := (List.cons.inj (hzero (congrArg some hfirst))).2
    simp only [if_pos hfirst]
    cases hrest : Numeral.fractionOctets x.fraction ++ (Numeral.exponentOctets x.exponent ++ t) with
    | nil =>
        rw [hrest] at hafter
        exact Gives.peek_nil.before hafter
    | cons b r =>
        rw [hrest] at hafter hstop
        refine (Gives.peek b r).before ?_
        simp only [hstop b rfl, Bool.false_eq_true, if_false]
        exact hafter
  · simp only [if_neg hfirst, hd, if_true]
    exact (gives_digits hmore hstop).before hafter

/-- The first octet of a numeral, which the reader is given, is its sign or its first digit. -/
theorem numeral_head {x : Numeral} {b : UInt8} {r : List UInt8} (hb : x.octets = b :: r) :
    b = Octet.minus ∧ x.negative = true ∧
        r = x.whole.octets ++ (Numeral.fractionOctets x.fraction ++ Numeral.exponentOctets x.exponent) ∨
      b ≠ Octet.minus ∧ x.negative = false ∧
        b :: r = x.whole.octets ++ (Numeral.fractionOctets x.fraction ++ Numeral.exponentOctets x.exponent) := by
  rw [Numeral.octets] at hb
  cases hnegative : x.negative with
  | true =>
      rw [hnegative] at hb
      obtain ⟨hminus, hr⟩ := List.cons.inj hb
      exact .inl ⟨hminus.symm, rfl, hr.symm⟩
  | false =>
      rw [hnegative] at hb
      obtain ⟨d, more, hds, hd, -⟩ := x.whole.exists_cons
      rw [hds] at hb ⊢
      obtain ⟨rfl, hr⟩ := List.cons.inj hb
      exact .inr ⟨by rintro rfl; exact absurd hd (by decide), rfl, hb.symm⟩

/-- A numeral is read as its value, or refused as out of range. -/
theorem comes_number {x : Numeral} {b : UInt8} {r : List UInt8} (hb : x.octets = b :: r)
    (ht : Ends x.fraction x.exponent t) : Comes (number b) ⟨b :: r ++ t, l⟩ (inRange x.value?) ⟨t, l⟩ := by
  have hunsigned := comes_unsigned (l := l) ht
  rcases numeral_head hb with ⟨rfl, hnegative, rfl⟩ | ⟨hminus, hnegative, hr⟩
  · rw [hnegative] at hunsigned
    rw [number, if_pos rfl]
    simp only [List.cons_append, List.append_assoc]
    exact (Gives.skip _ _).before hunsigned
  · rw [hnegative] at hunsigned
    rw [number, if_neg hminus, hr]
    simpa only [List.append_assoc] using hunsigned

theorem gives_number {x : Numeral} {b : UInt8} {r : List UInt8} (hb : x.octets = b :: r)
    (hvalue : x.value? = some n) (ht : Ends x.fraction x.exponent t) :
    Gives (number b) ⟨b :: r ++ t, l⟩ (.ok n) ⟨t, l⟩ := by
  have hnumber := comes_number (l := l) hb ht
  rw [hvalue] at hnumber
  exact hnumber.gives

theorem gives_skipExponentRest {e : ExponentPart} (ht : StopsDigits t) :
    Gives skipExponentRest ⟨ExponentPart.signOctets e.sign ++ (e.digits.octets ++ t), l⟩ (.ok ()) ⟨t, l⟩ := by
  obtain ⟨d, more, hds, hd, hmore⟩ := e.digits.exists_cons
  refine (gives_exponentSign e).bind_ok ?_
  rw [hds]
  refine (Gives.next d (more ++ t)).bind_ok ?_
  simp only [hd, if_true]
  exact (gives_digits hmore ht).bind_ok (.pure _ _)

theorem gives_skipExponentOrEnd (e : Option ExponentPart) (ht : Follows t) :
    Gives skipExponentOrEnd ⟨Numeral.exponentOctets e ++ t, l⟩ (.ok ()) ⟨t, l⟩ := by
  cases e with
  | none =>
      cases t with
      | nil => exact Gives.peek_nil.bind_ok (.pure () _)
      | cons b t =>
          refine (Gives.peek b t).bind_ok ?_
          simp only [(ht b rfl).2.2, Bool.false_eq_true, if_false]
          exact .pure () _
  | some e =>
      rw [Numeral.exponentOctets, ExponentPart.octets, List.cons_append, List.append_assoc]
      refine (Gives.peek e.mark _).bind_ok ?_
      simp only [e.isMark, if_true]
      exact (Gives.skip _ _).bind_ok (gives_skipExponentRest ht.stopsDigits)

theorem gives_skipAfterWhole (f : Option Digits) (e : Option ExponentPart) (ht : Follows t) :
    Gives skipAfterWhole ⟨Numeral.fractionOctets f ++ (Numeral.exponentOctets e ++ t), l⟩ (.ok ()) ⟨t, l⟩ := by
  cases f with
  | some ds =>
      refine (Gives.peek Octet.point _).bind_ok ?_
      simp only [if_true]
      refine (Gives.skip _ _).bind_ok
        ((gives_digits ds.isDigit (Numeral.stopsDigits_exponent e ht.stopsDigits)).bind_ok ?_)
      rw [if_neg (by simpa using ds.ne_nil)]
      exact gives_skipExponentOrEnd e ht
  | none =>
      cases e with
      | some e =>
          rw [Numeral.exponentOctets, ExponentPart.octets, List.cons_append, List.append_assoc]
          refine (Gives.peek e.mark _).bind_ok ?_
          simp only [if_neg (ne_point_of_isExponentMark e.isMark), e.isMark, if_true]
          exact (Gives.skip _ _).bind_ok (gives_skipExponentRest ht.stopsDigits)
      | none =>
          cases t with
          | nil => exact Gives.peek_nil.bind_ok (.pure () _)
          | cons b t =>
              obtain ⟨-, hpoint, hmark⟩ := ht b rfl
              refine (Gives.peek b t).bind_ok ?_
              simp only [if_neg hpoint, hmark, Bool.false_eq_true, if_false]
              exact .pure () _

theorem gives_skipUnsigned (x : Numeral) (ht : Follows t) :
    Gives skipUnsigned
      ⟨x.whole.octets ++ (Numeral.fractionOctets x.fraction ++ (Numeral.exponentOctets x.exponent ++ t)), l⟩
      (.ok ()) ⟨t, l⟩ := by
  have hstop := Numeral.stopsDigits_fraction x.fraction x.exponent ht.stopsDigits
  have hafter := gives_skipAfterWhole (l := l) x.fraction x.exponent ht
  obtain ⟨d, more, hds, hd, hmore⟩ := x.whole.exists_cons
  have hzero := x.noLeadingZero
  rw [hds] at hzero ⊢
  refine (Gives.next d _).bind_ok ?_
  by_cases hfirst : d = Octet.zero
  · obtain rfl : more = [] := (List.cons.inj (hzero (congrArg some hfirst))).2
    simp only [if_pos hfirst]
    cases hrest : Numeral.fractionOctets x.fraction ++ (Numeral.exponentOctets x.exponent ++ t) with
    | nil =>
        rw [hrest] at hafter
        exact Gives.peek_nil.bind_ok hafter
    | cons b r =>
        rw [hrest] at hafter hstop
        refine (Gives.peek b r).bind_ok ?_
        simp only [hstop b rfl, Bool.false_eq_true, if_false]
        exact hafter
  · simp only [if_neg hfirst, hd, if_true]
    exact (gives_digits hmore hstop).bind_ok hafter

theorem gives_skipNumber {x : Numeral} {b : UInt8} {r : List UInt8} (hb : x.octets = b :: r) (ht : Follows t) :
    Gives (skipNumber b) ⟨b :: r ++ t, l⟩ (.ok ()) ⟨t, l⟩ := by
  have hunsigned := gives_skipUnsigned (l := l) x ht
  rcases numeral_head hb with ⟨rfl, -, rfl⟩ | ⟨hminus, -, hr⟩
  · rw [skipNumber, if_pos rfl]
    simp only [List.cons_append, List.append_assoc]
    exact (Gives.skip _ _).bind_ok hunsigned
  · rw [skipNumber, if_neg hminus, hr]
    simpa only [List.append_assoc] using hunsigned

end Scan

end BlockModel
