import BlockModel.Binary64.Basic
import Mathlib.Algebra.Order.Ring.Int
import Mathlib.Tactic.Positivity
import Mathlib.Tactic.Ring

/-! What rounding a whole number to 53 significant bits comes to. The result is a number that double precision holds,
none of those is nearer, and of two that are equally near it is the one with the even mantissa. That says all about
rounding that is used elsewhere: numbers that are held stay as they are, and rounding does not go past one of them. -/

namespace BlockModel

/-- Whole numbers with at most 53 significant bits, which double precision holds as they are. -/
def IsHeld (x : Int) : Prop := ∃ (m : Int) (k : Nat), x = m * 2 ^ k ∧ m.natAbs < 2 ^ 53

/-- The second number is the first one rounded to nearest, ties to even. Two numbers that are equally near are
neighbours, so the distance between them is the weight of their last bit. -/
structure IsRounded (x r : Int) : Prop where
  held : IsHeld r
  nearest : ∀ s, IsHeld s → (x - r).natAbs ≤ (x - s).natAbs
  even : ∀ s, IsHeld s → s ≠ r → (x - s).natAbs = (x - r).natAbs → 2 * (r - s) ∣ r

theorem isHeld_of_lt {x : Int} (h : x.natAbs < 2 ^ 53) : IsHeld x := ⟨x, 0, by rw [pow_zero, mul_one], h⟩

theorem IsHeld.neg {x : Int} (h : IsHeld x) : IsHeld (-x) := by
  obtain ⟨m, k, rfl, hm⟩ := h
  exact ⟨-m, k, by ring, by rwa [Int.natAbs_neg]⟩

/-- A mantissa of one bit more is one of its half with the next exponent. -/
theorem isHeld_of_le {m : Int} {k : Nat} (h : m.natAbs ≤ 2 ^ 53) : IsHeld (m * 2 ^ k) := by
  rcases Nat.lt_or_eq_of_le h with hlt | heq
  · exact ⟨m, k, rfl, hlt⟩
  · obtain ⟨half, rfl⟩ : (2 : Int) ∣ m := by omega
    exact ⟨half, k + 1, by ring, by omega⟩

/-- Taking off a multiple of a power of two needs no more bits, as long as the multiple fits. -/
theorem IsHeld.sub_multiple {x w : Int} {k : Nat} (hx : IsHeld x) (hw : 0 ≤ w) (hpos : 0 ≤ x - w * 2 ^ k)
    (hsmall : x < 2 ^ 53 * 2 ^ k) : IsHeld (x - w * 2 ^ k) := by
  obtain ⟨m, j, rfl, hm⟩ := hx
  rcases Nat.le_total j k with hjk | hkj
  · obtain ⟨d, rfl⟩ := Nat.exists_eq_add_of_le hjk
    have hleft : m * 2 ^ j - w * 2 ^ (j + d) = (m - w * 2 ^ d) * 2 ^ j := by ring
    rw [hleft] at hpos ⊢
    have hmantissa : 0 ≤ m - w * 2 ^ d := nonneg_of_mul_nonneg_left hpos (by positivity)
    have htaken : 0 ≤ w * 2 ^ d := by positivity
    exact ⟨_, j, rfl, by omega⟩
  · obtain ⟨d, rfl⟩ := Nat.exists_eq_add_of_le hkj
    have hleft : m * 2 ^ (k + d) - w * 2 ^ k = (m * 2 ^ d - w) * 2 ^ k := by ring
    have hwhole : m * 2 ^ (k + d) = m * 2 ^ d * 2 ^ k := by ring
    rw [hleft] at hpos ⊢
    rw [hwhole] at hsmall
    have hmantissa : 0 ≤ m * 2 ^ d - w := nonneg_of_mul_nonneg_left hpos (by positivity)
    have hfront : m * 2 ^ d < 2 ^ 53 := lt_of_mul_lt_mul_right hsmall (by positivity)
    exact ⟨_, k, rfl, by omega⟩

/-- There is nothing between neighbours that share an exponent. -/
theorem IsHeld.le_or_le {s q : Int} {k : Nat} (hs : IsHeld s) (hq : 2 ^ 52 ≤ q) :
    s ≤ q * 2 ^ k ∨ (q + 1) * 2 ^ k ≤ s := by
  obtain ⟨m, j, rfl, hm⟩ := hs
  rcases Nat.lt_or_ge j k with hjk | hkj
  · -- With a smaller exponent the mantissa is too small to get there.
    obtain ⟨d, rfl⟩ := Nat.exists_eq_add_of_lt hjk
    refine .inl ?_
    have hd : (1 : Int) ≤ 2 ^ d := one_le_pow₀ (by decide)
    calc m * 2 ^ j
        ≤ (q * 2) * 2 ^ j := Int.mul_le_mul_of_nonneg_right (by omega) (by positivity)
      _ ≤ (q * 2) * 2 ^ j * 2 ^ d := le_mul_of_one_le_right (by positivity) hd
      _ = q * 2 ^ (j + d + 1) := by ring
  · -- Otherwise the number is a multiple of the weight of the last bit.
    obtain ⟨d, rfl⟩ := Nat.exists_eq_add_of_le hkj
    have hmultiple : m * 2 ^ (k + d) = m * 2 ^ d * 2 ^ k := by ring
    rw [hmultiple]
    rcases lt_or_ge q (m * 2 ^ d) with hlt | hge
    · exact .inr (Int.mul_le_mul_of_nonneg_right hlt (by positivity))
    · exact .inl (Int.mul_le_mul_of_nonneg_right hge (by positivity))

section Neighbours

variable {x q u : Int}

/-- Below the middle between neighbours, or at it if the mantissa is even, the lower one is nearest. -/
theorem isRounded_lower (hgap : ∀ s, IsHeld s → s ≤ q * u ∨ (q + 1) * u ≤ s) (hheld : IsHeld (q * u))
    (hlow : q * u ≤ x) (hhalf : 2 * (x - q * u) ≤ u) (heven : 2 * (x - q * u) = u → 2 ∣ q) : IsRounded x (q * u) where
  held := hheld
  nearest s hs := by
    have hs := hgap s hs
    rw [Int.add_mul, Int.one_mul] at hs
    omega
  even s hs hne htie := by
    have hs := hgap s hs
    rw [Int.add_mul, Int.one_mul] at hs
    obtain ⟨half, rfl⟩ := heven (by omega)
    have hstep : 2 * (2 * half * u - s) = -(2 * u) := by omega
    exact hstep ▸ ⟨-half, by ring⟩

/-- Above the middle, or at it if the mantissa is odd, it is the upper one. -/
theorem isRounded_upper (hgap : ∀ s, IsHeld s → s ≤ q * u ∨ (q + 1) * u ≤ s) (hheld : IsHeld ((q + 1) * u))
    (hhigh : x ≤ (q + 1) * u) (hhalf : u ≤ 2 * (x - q * u)) (hodd : u = 2 * (x - q * u) → ¬2 ∣ q) :
    IsRounded x ((q + 1) * u) where
  held := hheld
  nearest s hs := by
    have hs := hgap s hs
    rw [Int.add_mul, Int.one_mul] at hs hhigh ⊢
    omega
  even s hs hne htie := by
    have hs := hgap s hs
    obtain ⟨half, hhalf⟩ : 2 ∣ q + 1 := by
      have hodd : ¬2 ∣ q := hodd (by rw [Int.add_mul, Int.one_mul] at *; omega)
      omega
    have hstep : 2 * ((q + 1) * u - s) = 2 * u := by
      rw [Int.add_mul, Int.one_mul] at *
      omega
    rw [hstep, hhalf]
    exact ⟨half, by ring⟩

end Neighbours

theorem isRounded_of_isHeld {x : Int} (h : IsHeld x) : IsRounded x x where
  held := h
  nearest s _ := by omega
  even s _ hne htie := by omega

theorem IsRounded.neg {x r : Int} (h : IsRounded x r) : IsRounded (-x) (-r) where
  held := h.held.neg
  nearest s hs := by
    have hnearest := h.nearest (-s) hs.neg
    omega
  even s hs hne htie := by
    have heven := h.even (-s) hs.neg (by omega) (by omega)
    have hstep : 2 * (-r - s) = -(2 * (r - -s)) := by ring
    rw [hstep, Int.neg_dvd, Int.dvd_neg]
    exact heven

/-- The quotient is rounded down below the middle, and at it if that is even; otherwise it is rounded up. -/
theorem roundHalfEven_cases (num den : Nat) :
    (2 * (num % den) ≤ den ∧ (2 * (num % den) = den → 2 ∣ num / den) ∧ roundHalfEven num den = num / den) ∨
      (den ≤ 2 * (num % den) ∧ (2 * (num % den) = den → ¬2 ∣ num / den) ∧
        roundHalfEven num den = num / den + 1) := by
  simp only [roundHalfEven]
  split
  · exact .inl ⟨by omega, by omega, rfl⟩
  · split
    · exact .inr ⟨by omega, by omega, rfl⟩
    · rcases Nat.mod_two_eq_zero_or_one (num / den) with heven | hodd
      · exact .inl ⟨by omega, by omega, by omega⟩
      · exact .inr ⟨by omega, by omega, by omega⟩

/-- The mantissa of a large number is what is left of it in front of the bits that do not fit. -/
theorem exists_mantissa {n : Nat} (h : 2 ^ 53 ≤ n) :
    ∃ k, 1 <<< (n.log2 - 52) = 2 ^ k ∧ 2 ^ 52 ≤ n / 2 ^ k ∧ n / 2 ^ k < 2 ^ 53 := by
  have hlog : 53 ≤ n.log2 := (Nat.le_log2 (by omega)).2 h
  obtain ⟨k, hk⟩ := Nat.exists_eq_add_of_le (Nat.le_of_succ_le hlog)
  have hlow : 2 ^ 52 * 2 ^ k ≤ n := by
    rw [← Nat.pow_add, ← hk]
    exact Nat.log2_self_le (by omega)
  have hhigh : n < 2 ^ 53 * 2 ^ k := by
    rw [← Nat.pow_add, (by omega : 53 + k = n.log2 + 1)]
    exact Nat.lt_log2_self
  refine ⟨k, ?_, (Nat.le_div_iff_mul_le (by positivity)).2 hlow, (Nat.div_lt_iff_lt_mul (by positivity)).2 hhigh⟩
  rw [hk, Nat.add_sub_cancel_left, Nat.one_shiftLeft]

theorem isRounded_roundToBits (n : Nat) : IsRounded n (roundToBits n : Nat) := by
  rw [roundToBits]
  split
  · rename_i hsmall
    exact isRounded_of_isHeld (isHeld_of_lt (by simpa [Binary64.leastNormal] using hsmall))
  · rename_i hlarge
    obtain ⟨k, hunit, hlow, hhigh⟩ := exists_mantissa (Nat.le_of_not_lt hlarge)
    have hn : (n : Int) = (n / 2 ^ k : Nat) * 2 ^ k + (n % 2 ^ k : Nat) := by
      exact_mod_cast (Nat.div_add_mod' n (2 ^ k)).symm
    have hrest : ((n % 2 ^ k : Nat) : Int) < 2 ^ k := by exact_mod_cast Nat.mod_lt n (by positivity)
    have hgap : ∀ s, IsHeld s → s ≤ ((n / 2 ^ k : Nat) : Int) * 2 ^ k ∨ ((n / 2 ^ k : Nat) + 1 : Int) * 2 ^ k ≤ s :=
      fun s hs => hs.le_or_le (by exact_mod_cast hlow)
    have hpower : ((2 ^ k : Nat) : Int) = 2 ^ k := by norm_cast
    simp only [hunit]
    rcases roundHalfEven_cases n (2 ^ k) with ⟨hhalf, heven, hround⟩ | ⟨hhalf, hodd, hround⟩
    · rw [hround, Nat.cast_mul, hpower]
      refine isRounded_lower hgap (isHeld_of_le (by omega)) (by omega) (by omega) fun htie => ?_
      exact Int.natCast_dvd_natCast.2 (heven (by omega))
    · rw [hround, Nat.cast_mul, hpower, Nat.cast_add, Nat.cast_one]
      refine isRounded_upper hgap (isHeld_of_le (by omega)) ?_ (by omega) fun htie heven => ?_
      · rw [Int.add_mul]
        omega
      · exact hodd (by omega) (Int.natCast_dvd_natCast.1 heven)

theorem isRounded_roundInt (x : Int) : IsRounded x (roundInt x) := by
  cases x with
  | ofNat n => exact isRounded_roundToBits n
  | negSucc n => exact (isRounded_roundToBits (n + 1)).neg

namespace IsRounded

variable {x y r : Int}

theorem eq_of_isHeld (h : IsRounded x r) (hx : IsHeld x) : r = x := by
  have hnearest := h.nearest x hx
  omega

theorem le_of_le (h : IsRounded x r) (hy : IsHeld y) (hle : x ≤ y) : r ≤ y := by
  have hnearest := h.nearest y hy
  omega

end IsRounded

end BlockModel
