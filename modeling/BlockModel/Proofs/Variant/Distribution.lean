import BlockModel.Proofs.Binary64.Rounding
import BlockModel.Proofs.Variant.Hash
import Mathlib.Algebra.Order.Floor.Div
import Mathlib.Data.Rat.Cast.Order
import Mathlib.Order.Interval.Finset.Nat
import Mathlib.Tactic.Linarith

/-! What a pool gives over all hashes. As long as the total weight is below `2 ^ 29`, all remainders are whole numbers
of the unit below `2 ^ 53`, so double precision holds them as they are. The place that a hash picks is then the one
into whose stretch of the running total it falls, and every variant has the hashes that its weight is due, up to less
than one. -/

namespace BlockModel

theorem roundToBits_of_lt {n : Nat} (h : n < 0x20000000000000) : roundToBits n = n := if_pos h

theorem roundInt_of_lt {n : Int} (hlow : -0x20000000000000 < n) (hhigh : n < 0x20000000000000) : roundInt n = n := by
  cases n with
  | ofNat n =>
      rw [roundInt, roundToBits_of_lt (Int.ofNat_lt.1 hhigh)]
      rfl
  | negSucc n =>
      rw [roundInt, roundToBits_of_lt (by omega)]
      rfl

namespace VariantPool

variable {weights : List Nat} {m i : Nat}

theorem total_cons (w : Nat) (rest : List Nat) : total (w :: rest) = w + total rest := rfl

theorem total_take_zero (weights : List Nat) : total (weights.take 0) = 0 := rfl

theorem total_take_le (weights : List Nat) (k : Nat) : total (weights.take k) ≤ total weights := by
  induction weights generalizing k with
  | nil => rw [List.take_nil]
  | cons w rest ih =>
      cases k with
      | zero => exact Nat.zero_le _
      | succ k =>
          rw [List.take_succ_cons, total_cons, total_cons]
          exact Nat.add_le_add_left (ih k) w

theorem total_take_succ {w : Nat} (h : weights[i]? = some w) :
    total (weights.take (i + 1)) = total (weights.take i) + w := by
  induction weights generalizing i with
  | nil => cases h
  | cons w' rest ih =>
      cases i with
      | zero =>
          obtain rfl : w' = w := Option.some.inj h
          exact Nat.add_comm w' 0
      | succ i =>
          rw [List.take_succ_cons, List.take_succ_cons, total_cons, total_cons, ih h, Nat.add_assoc]

theorem total_take_mono (weights : List Nat) {j k : Nat} (h : j ≤ k) :
    total (weights.take j) ≤ total (weights.take k) := by
  have htake : weights.take j = (weights.take k).take j := by rw [List.take_take, Nat.min_eq_left h]
  rw [htake]
  exact total_take_le _ j

/-- The share of the hash lies in the stretch of the place: the weights before the place do not go beyond it, and
with the weight of the place they do. -/
def InStretch (weights : List Nat) (share i : Nat) : Prop :=
  0x1000000 * total (weights.take i) ≤ share ∧ share < 0x1000000 * total (weights.take (i + 1))

/-- A remainder that is not negative is held as it is, and a negative one stays negative when it is rounded. So taking
off comes to the stretch of the share, if only that is a number that is held. -/
theorem takeOff?_eq_some_iff {share : Nat} (hheld : IsHeld share) (hsmall : share < 2 ^ 53 * 0x1000000) :
    takeOff? share weights = some i ↔ InStretch weights share i := by
  induction weights generalizing share i with
  | nil =>
      refine ⟨fun h => absurd h (Option.some_ne_none i).symm, fun h => ?_⟩
      rw [InStretch, List.take_nil] at h
      exact absurd h.2 (Nat.not_lt_zero share)
  | cons w rest ih =>
      rw [takeOff?, unit, InStretch]
      by_cases hless : share < 0x1000000 * w
      · have hnegative : roundInt (share - w * 0x1000000) ≤ -1 :=
          (isRounded_roundInt _).le_of_le (isHeld_of_lt (by decide)) (by omega)
        rw [if_pos (by omega)]
        cases i with
        | zero =>
            refine iff_of_true rfl ⟨Nat.zero_le _, ?_⟩
            rw [List.take_succ_cons, total_cons]
            omega
        | succ i =>
            refine iff_of_false (fun h => absurd (Option.some.inj h) (Nat.succ_ne_zero i).symm) ?_
            rw [List.take_succ_cons, total_cons]
            omega
      · -- What is left is a share of the other weights.
        obtain ⟨left, rfl⟩ := Nat.exists_eq_add_of_le (Nat.le_of_not_lt hless)
        have hleft : ((0x1000000 * w + left : Nat) : Int) - w * 0x1000000 = left := by omega
        have hleftHeld : IsHeld left := by
          have htaken := hheld.sub_multiple (w := w) (k := 24) (by omega) (by omega) (by omega)
          rwa [(by omega : ((0x1000000 * w + left : Nat) : Int) - w * 2 ^ 24 = left)] at htaken
        rw [hleft, (isRounded_roundInt left).eq_of_isHeld hleftHeld, if_neg (by omega)]
        cases i with
        | zero =>
            refine iff_of_false (by simp) ?_
            rw [List.take_succ_cons, total_cons, total_take_zero, total_take_zero]
            omega
        | succ i =>
            have hrest : takeOff? left rest = some i ↔ InStretch rest left i := ih hleftHeld (by omega)
            rw [InStretch] at hrest
            rw [List.take_succ_cons, List.take_succ_cons, total_cons, total_cons]
            simp only [Option.map_eq_some_iff, Nat.add_right_cancel_iff, exists_eq_right, hrest]
            omega

/-- The stretches are in order, so a share lies in that of the first place whose end is beyond it. -/
theorem isLeast_iff_inStretch {share : Nat} :
    IsLeast {k | share < 0x1000000 * total (weights.take (k + 1))} i ↔ InStretch weights share i := by
  refine ⟨fun h => ⟨Nat.le_of_not_lt fun hlt => ?_, h.1⟩, fun h => ⟨h.2, fun k hk => Nat.le_of_not_lt fun hlt => ?_⟩⟩
  · cases i with
    | zero => exact absurd hlt (Nat.not_lt_zero share)
    | succ i => exact absurd (h.2 hlt) (Nat.not_succ_le_self i)
  · have hmono : total (weights.take (k + 1)) ≤ total (weights.take i) := total_take_mono weights hlt
    exact absurd (Nat.lt_of_lt_of_le hk (Nat.mul_le_mul_left _ hmono)) (Nat.not_lt.2 h.1)

theorem exists_inStretch {share : Nat} (h : share < 0x1000000 * total weights) : ∃ i, InStretch weights share i := by
  have hend : ∃ k, share < 0x1000000 * total (weights.take (k + 1)) :=
    ⟨weights.length, by rwa [List.take_of_length_le (Nat.le_succ _)]⟩
  exact ⟨Nat.find hend, isLeast_iff_inStretch.1 (Nat.isLeast_find hend)⟩

/-- A place without weight has no stretch, and neither has a place behind the last one. -/
theorem InStretch.exists_weight {share : Nat} (h : InStretch weights share i) : ∃ w, weights[i]? = some w ∧ w ≠ 0 := by
  rw [InStretch] at h
  cases hw : weights[i]? with
  | none =>
      have hlength : weights.length ≤ i := List.getElem?_eq_none_iff.1 hw
      rw [List.take_of_length_le hlength, List.take_of_length_le (Nat.le_succ_of_le hlength)] at h
      omega
  | some w =>
      rw [total_take_succ hw] at h
      exact ⟨w, rfl, fun hzero => by omega⟩

/-- None of the numbers on the way from a hash to a place is changed by rounding: not the total, not its share, and
not what is left of the share behind any of the weights. -/
structure Unrounded (weights : List Nat) (m : Nat) : Prop where
  whole : roundToBits (total weights) = total weights
  share : roundInt (m * total weights) = m * total weights
  left : ∀ k, roundInt (m * total weights - 0x1000000 * total (weights.take k)) =
    m * total weights - 0x1000000 * total (weights.take k)

/-- A share of the total is a share of all the stretches, and it is small if the total is. -/
theorem share_lt (hpos : 0 < total weights) (hm : m < 0x1000000) : m * total weights < 0x1000000 * total weights :=
  Nat.mul_lt_mul_of_pos_right hm hpos

theorem unrounded (hpos : 0 < total weights) (hsmall : total weights < 0x20000000) (hm : m < 0x1000000) :
    Unrounded weights m := by
  have hshare : m * total weights < 0x1000000 * total weights := share_lt hpos hm
  refine ⟨roundToBits_of_lt (by omega), ?_, fun k => ?_⟩
  · rw [← Nat.cast_mul]
    exact roundInt_of_lt (by omega) (by omega)
  · have htake : total (weights.take k) ≤ total weights := total_take_le weights k
    rw [← Nat.cast_mul]
    exact roundInt_of_lt (by omega) (by omega)

/-- The share of a hash after rounding is still less than the total. -/
theorem rounded_share_lt (hpos : 0 < total weights) (hsmall : total weights < 2 ^ 52) (hm : m < 0x1000000) :
    roundToBits (m * total weights) < 0x1000000 * total weights := by
  have hrounded := isRounded_roundToBits (m * total weights)
  have hshare : m * total weights ≤ 0xFFFFFF * total weights := Nat.mul_le_mul_right _ (by omega)
  rcases Nat.lt_or_ge (total weights) 0x20000000 with hless | hmore
  · have hexact : roundToBits (m * total weights) = m * total weights := roundToBits_of_lt (by omega)
    omega
  · -- The number in front of the total among those that are held is nearer to it than any share.
    have hfront : IsHeld ((2 * total weights - 1 : Int) * 2 ^ 23) := isHeld_of_le (by omega)
    have hle := hrounded.le_of_le hfront (by omega)
    omega

/-- The last place is not resorted to: some stretch has the rounded share in it. -/
theorem pickIndex?_eq_some_iff_rounded (hpos : 0 < total weights) (hsmall : total weights < 2 ^ 52)
    (hm : m < 0x1000000) :
    pickIndex? weights m = some i ↔ InStretch weights (roundToBits (m * total weights)) i := by
  have hshare : roundToBits (m * total weights) < 0x1000000 * total weights := rounded_share_lt hpos hsmall hm
  have htaken : ∀ k, takeOff? (roundToBits (m * total weights) : Nat) weights = some k ↔
      InStretch weights (roundToBits (m * total weights)) k :=
    fun k => takeOff?_eq_some_iff (isRounded_roundToBits _).held (by omega)
  obtain ⟨k, hk⟩ := exists_inStretch hshare
  have hpick : pickIndex? weights m = some k := by
    rcases weights with _ | ⟨w, _ | ⟨w', rest⟩⟩
    · exact absurd hpos (Nat.lt_irrefl 0)
    · obtain ⟨v, hv, -⟩ := hk.exists_weight
      obtain rfl : k = 0 := Nat.lt_one_iff.1 (List.getElem?_eq_some_iff.1 hv).1
      rfl
    · have hwhole : roundToBits (total (w :: w' :: rest)) = total (w :: w' :: rest) := roundToBits_of_lt (by omega)
      simp only [pickIndex?]
      rw [if_neg (Nat.ne_of_gt hpos), hwhole, ← Nat.cast_mul, ← Int.ofNat_eq_natCast, roundInt, (htaken k).2 hk,
        Option.getD_some]
  rw [hpick, ← htaken, (htaken k).2 hk]

/-- As long as shares are small, they are not rounded. -/
theorem pickIndex?_eq_some_iff (hpos : 0 < total weights) (hsmall : total weights < 0x20000000)
    (hm : m < 0x1000000) : pickIndex? weights m = some i ↔ InStretch weights (m * total weights) i := by
  have hshare : m * total weights < 0x1000000 * total weights := share_lt hpos hm
  rw [pickIndex?_eq_some_iff_rounded hpos (by omega) hm, roundToBits_of_lt (by omega)]

/-- The hashes that pick a place. -/
def hashesOf (weights : List Nat) (i : Nat) : Finset Nat :=
  (Finset.range 0x1000000).filter fun m => pickIndex? weights m = some i

/-- They follow one upon the other: the ends of the stretch, measured in shares, are their ends. -/
theorem hashesOf_eq_Ico (hpos : 0 < total weights) (hsmall : total weights < 0x20000000) (i : Nat) :
    hashesOf weights i = Finset.Ico ((0x1000000 * total (weights.take i)) ⌈/⌉ total weights)
      ((0x1000000 * total (weights.take (i + 1))) ⌈/⌉ total weights) := by
  have hlower : ∀ n m, n ⌈/⌉ total weights ≤ m ↔ n ≤ m * total weights := fun n m => by
    rw [ceilDiv_le_iff_le_mul hpos, Nat.mul_comm]
  ext m
  rw [hashesOf, Finset.mem_filter, Finset.mem_range, Finset.mem_Ico, hlower, ← Nat.not_le, ← Nat.not_le, hlower,
    Nat.not_le, Nat.not_le]
  refine ⟨fun ⟨hm, hpick⟩ => (pickIndex?_eq_some_iff hpos hsmall hm).1 hpick, fun h => ?_⟩
  have hm : m < 0x1000000 := by
    have htake : total (weights.take (i + 1)) ≤ total weights := total_take_le weights (i + 1)
    exact Nat.lt_of_mul_lt_mul_right (Nat.lt_of_lt_of_le h.2 (Nat.mul_le_mul_left _ htake))
  exact ⟨hm, (pickIndex?_eq_some_iff hpos hsmall hm).2 h⟩

/-- The number of hashes of a place is what its weight is due, but for less than one. -/
theorem card_hashesOf {w : Nat} (hpos : 0 < total weights) (hsmall : total weights < 0x20000000)
    (hw : weights[i]? = some w) :
    |((hashesOf weights i).card : ℚ) - 0x1000000 * w / total weights| < 1 := by
  have hceil : ∀ n, n ≤ total weights * (n ⌈/⌉ total weights) ∧
      total weights * (n ⌈/⌉ total weights) < n + total weights := fun n => by
    refine ⟨(ceilDiv_le_iff_le_mul hpos).1 le_rfl, ?_⟩
    rw [Nat.ceilDiv_eq_add_pred_div]
    have hdiv : total weights * ((n + total weights - 1) / total weights) ≤ n + total weights - 1 := Nat.mul_div_le _ _
    omega
  obtain ⟨hlow, hlow'⟩ := hceil (0x1000000 * total (weights.take i))
  obtain ⟨hhigh, hhigh'⟩ := hceil (0x1000000 * total (weights.take (i + 1)))
  rw [total_take_succ hw, Nat.mul_add] at hhigh hhigh'
  have hordered : (0x1000000 * total (weights.take i)) ⌈/⌉ total weights ≤
      (0x1000000 * total (weights.take i) + 0x1000000 * w) ⌈/⌉ total weights :=
    (ceilDiv_le_iff_le_mul hpos).2 (Nat.le_trans (Nat.le_add_right _ _) hhigh)
  obtain ⟨c, hc⟩ := Nat.exists_eq_add_of_le hordered
  have hcard : (hashesOf weights i).card = c := by
    rw [hashesOf_eq_Ico hpos hsmall, Nat.card_Ico, total_take_succ hw, Nat.mul_add, hc, Nat.add_sub_cancel_left]
  rw [hc, Nat.mul_add] at hhigh hhigh'
  have hless : (c * total weights : ℚ) < 0x1000000 * w + total weights := by
    have hless : c * total weights < 0x1000000 * w + total weights := by
      rw [Nat.mul_comm c]
      omega
    exact_mod_cast hless
  have hmore : (0x1000000 * w : ℚ) < (c + 1) * total weights := by
    have hmore : 0x1000000 * w < (c + 1) * total weights := by
      rw [Nat.mul_comm (c + 1), Nat.mul_add]
      omega
    exact_mod_cast hmore
  have hpositive : (0 : ℚ) < total weights := Nat.cast_pos.2 hpos
  rw [hcard, abs_sub_lt_iff, sub_lt_iff_lt_add, sub_lt_iff_lt_add, div_lt_iff₀ hpositive, add_comm 1,
    ← sub_lt_iff_lt_add, lt_div_iff₀ hpositive]
  exact ⟨by linarith, by linarith⟩

theorem exists_variant_of_weights {pool : VariantPool} {w : Nat} (h : pool.weights[i]? = some w) :
    ∃ v, pool.variants[i]? = some v ∧ v.weight.toNat = w :=
  Option.map_eq_some_iff.1 (List.getElem?_map ▸ h)

/-- A position picks the first place at which the running total is beyond the share of its hash, and no number that
this is found with is rounded. So there always is a variant, never one without weight, and over all hashes each place
is picked as often as its weight is due, but for less than one. -/
theorem picks_distribution (pool : VariantPool) (hpos : 0 < total pool.weights)
    (hsmall : total pool.weights < 0x20000000) :
    (∀ p : BlockPosition, p.hash selectionSeed < 0x1000000 ∧ Unrounded pool.weights (p.hash selectionSeed) ∧
      ∃ i v, IsLeast {k | p.hash selectionSeed * total pool.weights < 0x1000000 * total (pool.weights.take (k + 1))} i ∧
        pool.selectIndex? p = some i ∧ pool.variants[i]? = some v ∧ pool.select? p = some v ∧ v.weight ≠ 0) ∧
    ∀ i v, pool.variants[i]? = some v →
      |((hashesOf pool.weights i).card : ℚ) - 0x1000000 * v.weight.toNat / total pool.weights| < 1 := by
  refine ⟨fun p => ?_, fun i v hv => card_hashesOf hpos hsmall ?_⟩
  · have hm : p.hash selectionSeed < 0x1000000 := p.hash_lt selectionSeed
    obtain ⟨i, hi⟩ := exists_inStretch (share_lt hpos hm)
    have hindex : pool.selectIndex? p = some i := (pickIndex?_eq_some_iff hpos hsmall hm).2 hi
    obtain ⟨w, hw, hzero⟩ := hi.exists_weight
    obtain ⟨v, hv, rfl⟩ := exists_variant_of_weights hw
    have hpick : pool.select? p = some v := by rw [select?, hindex, Option.bind_some, hv]
    refine ⟨hm, unrounded hpos hsmall hm, i, v, isLeast_iff_inStretch.2 hi, hindex, hv, hpick, fun hweight => ?_⟩
    exact hzero (by rw [hweight]; rfl)
  · rw [weights, List.getElem?_map, hv]
    rfl

/-- Of six parts the second of three places has three. -/
theorem picks_distribution_stones :
    0 < total stones.weights ∧ total stones.weights < 0x20000000 ∧
      (∃ v, stones.select? nearby = some v ∧ v.weight ≠ 0) ∧
      |((hashesOf stones.weights 1).card : ℚ) - 0x1000000 * (3 : UInt32).toNat / total stones.weights| < 1 := by
  have hpos : 0 < total stones.weights := by decide
  have hsmall : total stones.weights < 0x20000000 := by decide
  obtain ⟨hpicks, hcounts⟩ := picks_distribution stones hpos hsmall
  obtain ⟨-, -, i, v, -, -, -, hpick, hweight⟩ := hpicks nearby
  exact ⟨hpos, hsmall, ⟨v, hpick, hweight⟩, hcounts 1 (.weighted (.ofModel "cobblestone") 3) rfl⟩

end VariantPool

end BlockModel
