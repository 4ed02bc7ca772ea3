import BlockModel.Proofs.Variant.Distribution

/-! Picks at any weights. From a total of `2 ^ 29` on the share of a hash may have to be rounded, and so may what is
left of it where that is negative. Neither makes a variant without weight be picked: rounding goes to the nearest
number that double precision holds, so a share does not reach the total, and whether anything is left is decided as in
exact numbers. -/

namespace BlockModel.VariantPool

variable {weights : List Nat}

theorem le_total {w : Nat} (h : w ∈ weights) : w ≤ total weights := by
  induction weights with
  | nil => exact absurd h List.not_mem_nil
  | cons v rest ih =>
      rw [total_cons]
      rcases List.mem_cons.1 h with rfl | h
      · exact Nat.le_add_right _ _
      · exact Nat.le_trans (ih h) (Nat.le_add_left _ _)

theorem total_le_length_mul {bound : Nat} (h : ∀ w ∈ weights, w ≤ bound) : total weights ≤ weights.length * bound := by
  induction weights with
  | nil => exact Nat.zero_le _
  | cons w rest ih =>
      obtain ⟨hw, hrest⟩ := List.forall_mem_cons.1 h
      rw [total_cons, List.length_cons, Nat.succ_mul, Nat.add_comm]
      exact Nat.add_le_add (ih hrest) hw

/-- Fewer than `2 ^ 20` weights of 32 bits come to a total that double precision holds. -/
theorem total_weights_lt {pool : VariantPool} (h : pool.variants.length < 2 ^ 20) : total pool.weights < 2 ^ 52 := by
  have hbound : ∀ w ∈ pool.weights, w ≤ 2 ^ 32 - 1 := by
    intro w hw
    obtain ⟨v, -, rfl⟩ := List.mem_map.1 hw
    exact Nat.le_sub_one_of_lt v.weight.toNat_lt
  have htotal : total pool.weights ≤ pool.weights.length * (2 ^ 32 - 1) := total_le_length_mul hbound
  have hlength : pool.weights.length = pool.variants.length := List.length_map _
  omega

theorem total_weights_pos {pool : VariantPool} (h : ∃ v ∈ pool.variants, v.weight ≠ 0) : 0 < total pool.weights := by
  obtain ⟨v, hv, hweight⟩ := h
  have hpos : v.weight.toNat ≠ 0 := fun hzero => hweight (UInt32.toNat_inj.1 hzero)
  have hle : v.weight.toNat ≤ total pool.weights := le_total (List.mem_map_of_mem hv)
  omega

/-- Every operation gives the number nearest to its exact result. With fewer than `2 ^ 20` variants, of which one has
any weight, the total does not wrap, and a position picks the first place at which the running total is beyond the
rounded share of its hash. There always is one, and its variant has weight. -/
theorem picks_rounded (pool : VariantPool) (hlength : pool.variants.length < 2 ^ 20)
    (hweight : ∃ v ∈ pool.variants, v.weight ≠ 0) :
    (∀ x : Int, IsRounded x (roundInt x)) ∧ total pool.weights < 2 ^ 64 ∧
    ∀ p : BlockPosition, ∃ i v,
      IsLeast {k | roundToBits (p.hash selectionSeed * total pool.weights) <
        0x1000000 * total (pool.weights.take (k + 1))} i ∧
      pool.selectIndex? p = some i ∧ pool.variants[i]? = some v ∧ pool.select? p = some v ∧ v.weight ≠ 0 := by
  have htotal : total pool.weights < 2 ^ 52 := total_weights_lt hlength
  have hpos : 0 < total pool.weights := total_weights_pos hweight
  refine ⟨isRounded_roundInt, by omega, fun p => ?_⟩
  have hm : p.hash selectionSeed < 0x1000000 := p.hash_lt selectionSeed
  obtain ⟨i, hi⟩ := exists_inStretch (rounded_share_lt hpos htotal hm)
  have hindex : pool.selectIndex? p = some i := (pickIndex?_eq_some_iff_rounded hpos htotal hm).2 hi
  obtain ⟨w, hw, hzero⟩ := hi.exists_weight
  obtain ⟨v, hv, rfl⟩ := exists_variant_of_weights hw
  have hpick : pool.select? p = some v := by rw [select?, hindex, Option.bind_some, hv]
  exact ⟨i, v, isLeast_iff_inStretch.2 hi, hindex, hv, hpick, fun hv => hzero (by rw [hv]; rfl)⟩

/-- Two variants of nearly the greatest weights, and a last one that is never picked. -/
def boulders : VariantPool :=
  ⟨[.weighted (.ofModel "boulder") 0xFFFFFFFF, .weighted (.ofModel "rock") 0xFFFFFFFE,
    .weighted (.ofModel "pebble") 0]⟩

/-- Where the share of the hash is rounded. -/
def clearing : BlockPosition := ⟨3, 64, -5⟩

/-- Where the share is exact, and what is left behind the first weight is rounded. -/
def shore : BlockPosition := ⟨1, 64, -5⟩

theorem picks_rounded_boulders :
    boulders.variants.length < 2 ^ 20 ∧ (∃ v ∈ boulders.variants, v.weight ≠ 0) ∧
    (roundInt (clearing.hash selectionSeed * total boulders.weights) ≠
      clearing.hash selectionSeed * total boulders.weights) ∧
    (roundInt (shore.hash selectionSeed * total boulders.weights - 0xFFFFFFFF * unit) ≠
      shore.hash selectionSeed * total boulders.weights - 0xFFFFFFFF * unit) ∧
    total boulders.weights < 2 ^ 64 ∧
    (∃ v, boulders.select? clearing = some v ∧ v.weight ≠ 0) ∧ ∃ v, boulders.select? shore = some v ∧ v.weight ≠ 0 := by
  have hlength : boulders.variants.length < 2 ^ 20 := by decide
  have hweight : ∃ v ∈ boulders.variants, v.weight ≠ 0 := ⟨_, List.mem_cons_self, by decide⟩
  obtain ⟨-, htotal, hpicks⟩ := picks_rounded boulders hlength hweight
  obtain ⟨-, v, -, -, -, hv, hclearing⟩ := hpicks clearing
  obtain ⟨-, v', -, -, -, hv', hshore⟩ := hpicks shore
  exact ⟨hlength, hweight, by decide +kernel, by decide +kernel, htotal, ⟨v, hv, hclearing⟩, ⟨v', hv', hshore⟩⟩

end BlockModel.VariantPool
