import BlockModel.Proofs.Scan.Spelled
import BlockModel.Scan.Typed

/-! Fronts of whole numbers. A numeral that is a front of the numeral of a whole number is itself one of a whole
number, and this lies between the other one and zero. So it is in every range that holds zero and the other one. -/

namespace BlockModel

namespace Scan

theorem le_gather (m : Nat) (ds : List UInt8) : m ≤ (gather m ds).1 := by
  induction ds generalizing m with
  | nil => exact Nat.le_refl m
  | cons d rest ih =>
      rw [gather]
      split
      · have hle := ih (m * 10 + Octet.digit d)
        omega
      · exact Nat.le_refl m

/-- Where all digits fit, those of a front do, and make up no more. -/
theorem gather_front {m : Nat} {ds t : List UInt8} (h : (gather m (ds ++ t)).2 = []) :
    (gather m ds).2 = [] ∧ (gather m ds).1 ≤ (gather m (ds ++ t)).1 := by
  induction ds generalizing m with
  | nil => exact ⟨rfl, le_gather m t⟩
  | cons d rest ih =>
      rw [List.cons_append, gather] at h ⊢
      rw [gather]
      split at h
      · rename_i hfits
        rw [if_pos hfits, if_pos hfits]
        exact ih h
      · cases h

end Scan

namespace Numeral

variable {x y : Numeral} {n : Int} {t : List UInt8}

theorem scaled?_ne_int {negative : Bool} {m : Nat} {shift : Int} : scaled? negative m shift ≠ some (.int n) := by
  intro h
  obtain ⟨v, -, hv⟩ := Option.map_eq_some_iff.1 h
  cases hv

/-- A numeral that is read as a whole number has digits and perhaps a sign, and is no negative zero. -/
theorem whole_of_int (h : x.value? = some (.int n)) :
    x.fraction = none ∧ x.exponent = none ∧ (Scan.gather 0 x.whole.octets).2 = [] ∧
      n = (if x.negative then -((Scan.gather 0 x.whole.octets).1 : Int) else (Scan.gather 0 x.whole.octets).1) ∧
      (x.negative = true → (Scan.gather 0 x.whole.octets).1 ≠ 0 ∧
        (Scan.gather 0 x.whole.octets).1 ≤ 0x8000000000000000) := by
  rw [value?] at h
  split at h
  · rename_i hwhole
    simp only [isWhole, Bool.and_eq_true, Option.isNone_iff_eq_none, List.isEmpty_iff] at hwhole
    obtain ⟨⟨hfraction, hexponent⟩, hleft⟩ := hwhole
    have hsignificand : x.significand.1 = (Scan.gather 0 x.whole.octets).1 := by
      rw [significand, hfraction]
    refine ⟨hfraction, hexponent, hleft, ?_⟩
    rw [hsignificand, whole?] at h
    split at h
    · rename_i hnegative
      rw [if_pos hnegative]
      split at h
      · exact absurd h scaled?_ne_int
      · rename_i hrange
        rw [not_or, Nat.not_lt] at hrange
        exact ⟨(JsonNumber.int.inj (Option.some.inj h)).symm, fun _ => hrange⟩
    · rename_i hnegative
      rw [if_neg hnegative]
      exact ⟨(JsonNumber.int.inj (Option.some.inj h)).symm, fun htrue => absurd htrue hnegative⟩
  · unfold scaledBy? at h
    split at h
    · exact absurd h scaled?_ne_int
    · split at h
      · exact absurd h scaled?_ne_int
      · split at h
        · cases h
        · cases Option.some.inj h

/-- A numeral at the front of one without fraction and exponent is the same sign and a front of the digits. -/
theorem exists_digits_of_front (hfraction : y.fraction = none) (hexponent : y.exponent = none)
    (hoctets : y.octets = x.octets ++ t) :
    x.fraction = none ∧ x.exponent = none ∧ x.negative = y.negative ∧ y.whole.octets = x.whole.octets ++ t := by
  have hfraction' : x.fraction = none := by
    rw [fraction_eq_none_iff] at hfraction ⊢
    rw [hoctets] at hfraction
    exact fun hpoint => hfraction (List.mem_append_left t hpoint)
  have hexponent' : x.exponent = none := by
    rw [exponent_eq_none_iff] at hexponent ⊢
    rw [hoctets] at hexponent
    exact fun b hb => hexponent b (List.mem_append_left t hb)
  have hplain : ∀ z : Numeral, z.fraction = none → z.exponent = none →
      z.octets = signOctets z.negative ++ z.whole.octets := by
    intro z hf he
    rw [octets, hf, he, fractionOctets, exponentOctets, List.append_nil, List.append_nil]
  rw [hplain y hfraction hexponent, hplain x hfraction' hexponent'] at hoctets
  -- A sign is no digit, so both have one or neither has.
  obtain ⟨b, more, hx, hb, -⟩ := x.whole.exists_cons
  obtain ⟨b', more', hy, hb', -⟩ := y.whole.exists_cons
  refine ⟨hfraction', hexponent', ?_⟩
  cases hxnegative : x.negative <;> cases hynegative : y.negative <;> rw [hxnegative, hynegative] at hoctets
  · exact ⟨rfl, hoctets⟩
  · rw [hx] at hoctets
    obtain ⟨rfl, -⟩ := List.cons.inj hoctets
    exact absurd hb (by decide)
  · rw [hy] at hoctets
    obtain ⟨rfl, -⟩ := List.cons.inj hoctets
    exact absurd hb' (by decide)
  · exact ⟨rfl, (List.cons.inj hoctets).2⟩

/-- Digits that make up nothing begin with a zero. -/
theorem head_of_gather_eq_zero {d : UInt8} {more : List UInt8} (hd : Octet.isDigit d = true)
    (h : (Scan.gather 0 (d :: more)).1 = 0) : d = Octet.zero := by
  have hall : ∀ n < 256, Octet.isDigit (.ofNat n) = true → Octet.digit (.ofNat n) < 10 ∧
      (Octet.digit (.ofNat n) = 0 → UInt8.ofNat n = Octet.zero) := by decide +kernel
  have hdigit := hall d.toNat d.toNat_lt
  rw [UInt8.ofNat_toNat] at hdigit
  obtain ⟨hlt, hzero⟩ := hdigit hd
  refine hzero ?_
  have hfits : 0 * 10 + Octet.digit d < Scan.significandBound := by
    rw [Scan.significandBound]
    omega
  rw [Scan.gather, if_pos hfits] at h
  have hle := Scan.le_gather (0 * 10 + Octet.digit d) more
  omega

/-- A numeral at the front of a whole number is one of a whole number between that and zero. -/
theorem int_of_front (hy : y.value? = some (.int n)) (hoctets : y.octets = x.octets ++ t) :
    ∃ m : Int, x.value? = some (.int m) ∧ (0 ≤ m ∧ m ≤ n ∨ n ≤ m ∧ m ≤ 0) := by
  obtain ⟨hyfraction, hyexponent, hfits, hn, hrange⟩ := whole_of_int hy
  obtain ⟨hfraction, hexponent, hnegative, hdigits⟩ := exists_digits_of_front hyfraction hyexponent hoctets
  rw [hdigits] at hfits
  obtain ⟨hleft, hle⟩ := Scan.gather_front hfits
  rw [← hdigits] at hle
  have hvalue : x.value? = whole? x.negative (Scan.gather 0 x.whole.octets).1 := by
    have hwhole : x.isWhole = true := by
      rw [isWhole, hfraction, hexponent, hleft]
      rfl
    rw [value?, if_pos hwhole, significand, hfraction]
  rw [hvalue, whole?, hnegative]
  rw [← hnegative] at hn hrange ⊢
  cases hsign : x.negative with
  | false =>
      rw [hsign] at hn
      simp only [Bool.false_eq_true, if_false] at hn ⊢
      exact ⟨_, rfl, .inl (by omega)⟩
  | true =>
      rw [hsign] at hn hrange
      obtain ⟨hne, hbound⟩ := hrange rfl
      -- Were the front a zero, the whole would be that zero alone.
      have hne' : (Scan.gather 0 x.whole.octets).1 ≠ 0 := by
        intro hzero
        obtain ⟨b, more, hx, hb, -⟩ := x.whole.exists_cons
        rw [hx] at hzero
        have hhead : y.whole.octets.head? = some Octet.zero := by
          rw [hdigits, hx, head_of_gather_eq_zero hb hzero]
          rfl
        rw [y.noLeadingZero hhead] at hne
        exact hne (by decide)
      simp only [if_true] at hn ⊢
      rw [if_neg (not_or.2 ⟨hne', by omega⟩)]
      exact ⟨_, rfl, .inr (by omega)⟩

end Numeral

/-- A range that holds zero holds what lies between zero and a number that it holds. -/
theorem IntRange.holds_between {range : IntRange} {m n : Int} (hzero : range.holds 0 = true)
    (hn : range.holds n = true) (hm : 0 ≤ m ∧ m ≤ n ∨ n ≤ m ∧ m ≤ 0) : range.holds m = true := by
  simp only [IntRange.holds, Bool.and_eq_true, decide_eq_true_eq] at hzero hn ⊢
  omega

end BlockModel
