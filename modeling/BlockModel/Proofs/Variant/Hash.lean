import BlockModel.Variant.Selection
import Mathlib.Data.Int.Bitwise
import Mathlib.Data.Int.ModEq

/-! The hash of a position against whole numbers of any size. Sums, products and bitwise differences are known in
their last 24 bits from the last 24 bits of their parts, so it makes no difference where words of 32 or 64 bits wrap:
the hash is the residue of one expression in whole numbers, and a coordinate counts by its own residue only. -/

namespace BlockModel

/-- The last bits of a word are those of the number that it stands for. -/
theorem setWidth_eq_ofInt_toInt {n w : Nat} (h : n ≤ w) (b : BitVec w) : b.setWidth n = BitVec.ofInt n b.toInt := by
  refine BitVec.eq_of_toInt_eq ?_
  rw [BitVec.toInt_setWidth, BitVec.toInt_ofInt, BitVec.toInt_eq_toNat_bmod,
    Int.bmod_bmod_of_dvd (Nat.pow_dvd_pow 2 h)]

theorem setWidth_signExtend {n v w : Nat} (hv : n ≤ v) (hvw : v ≤ w) (b : BitVec v) :
    (b.signExtend w).setWidth n = b.setWidth n := by
  rw [setWidth_eq_ofInt_toInt (Nat.le_trans hv hvw), setWidth_eq_ofInt_toInt hv, BitVec.toInt_signExtend_of_le hvw]

theorem ofInt_negSucc (w n : Nat) : BitVec.ofInt w (.negSucc n) = ~~~BitVec.ofNat w n := by
  have hneg : BitVec.ofInt w (.negSucc n) = -(BitVec.ofNat w n + 1#w) := by
    rw [← BitVec.ofNat_add, ← BitVec.ofInt_natCast, ← BitVec.ofInt_neg]
    rfl
  rw [hneg, BitVec.neg_add, BitVec.not_eq_neg_add]

/-- The bitwise difference of whole numbers, negative ones in two's complement, has the last bits of the parts. -/
theorem ofInt_xor (w : Nat) (a b : Int) :
    BitVec.ofInt w (Int.xor a b) = BitVec.ofInt w a ^^^ BitVec.ofInt w b := by
  cases a with
  | ofNat m =>
      cases b with
      | ofNat n =>
          show BitVec.ofInt w ((m ^^^ n : Nat) : Int) = BitVec.ofInt w (m : Int) ^^^ BitVec.ofInt w (n : Int)
          simp only [BitVec.ofInt_natCast, BitVec.ofNat_xor]
      | negSucc n =>
          show BitVec.ofInt w (.negSucc (m ^^^ n)) = BitVec.ofInt w (m : Int) ^^^ BitVec.ofInt w (.negSucc n)
          rw [ofInt_negSucc, ofInt_negSucc, BitVec.ofInt_natCast, BitVec.ofNat_xor, BitVec.not_xor_right]
  | negSucc m =>
      cases b with
      | ofNat n =>
          show BitVec.ofInt w (.negSucc (m ^^^ n)) = BitVec.ofInt w (.negSucc m) ^^^ BitVec.ofInt w (n : Int)
          rw [ofInt_negSucc, ofInt_negSucc, BitVec.ofInt_natCast, BitVec.ofNat_xor, BitVec.not_xor_left]
      | negSucc n =>
          show BitVec.ofInt w ((m ^^^ n : Nat) : Int) = BitVec.ofInt w (.negSucc m) ^^^ BitVec.ofInt w (.negSucc n)
          rw [ofInt_negSucc, ofInt_negSucc, BitVec.ofInt_natCast, BitVec.ofNat_xor, ← BitVec.not_xor_left,
            ← BitVec.not_xor_right, BitVec.not_not]

/-- A mask of low bits leaves the number that they make up. -/
theorem toInt_toNat_and_mask (n : Int64) : (n &&& 0xFFFFFF).toInt.toNat = (n.toBitVec.setWidth 24).toNat := by
  have hmask : (n &&& 0xFFFFFF).toBitVec.toNat = n.toBitVec.toNat % 0x1000000 :=
    Nat.and_two_pow_sub_one_eq_mod n.toBitVec.toNat 24
  have hlast : (n.toBitVec.setWidth 24).toNat = n.toBitVec.toNat % 0x1000000 := BitVec.toNat_setWidth 24 n.toBitVec
  have hsmall : 2 * (n &&& 0xFFFFFF).toBitVec.toNat < 2 ^ 64 := by omega
  rw [← Int64.toInt_toBitVec, BitVec.toInt_eq_toNat_of_lt hsmall, Int.toNat_natCast, hmask, hlast]

namespace BlockPosition

/-- What a position is hashed from, in whole numbers that do not wrap. -/
def mixed (seed : Int) (p : BlockPosition) : Int :=
  Int.xor (Int.xor (Int.xor (p.x.toInt * 73428767) (p.y.toInt * 9122569)) (p.z.toInt * 4382893)) (seed * 457)

/-- Where every coordinate has the same residue, though the numbers may lie far apart. -/
structure SameResidues (p q : BlockPosition) : Prop where
  x : p.x.toInt ≡ q.x.toInt [ZMOD 0x1000000]
  y : p.y.toInt ≡ q.y.toInt [ZMOD 0x1000000]
  z : p.z.toInt ≡ q.z.toInt [ZMOD 0x1000000]

theorem setWidth_packed (p : BlockPosition) :
    (p.packed.toInt64.toBitVec).setWidth 24 = BitVec.ofInt 24 (Int.xor (Int.xor (p.x.toInt * 73428767)
      (p.y.toInt * 9122569)) (p.z.toInt * 4382893)) := by
  have hcoordinate : ∀ n factor : Int32, ((n * factor).toBitVec).setWidth 24 =
      BitVec.ofInt 24 n.toInt * BitVec.ofInt 24 factor.toInt := fun n factor => by
    rw [Int32.toBitVec_mul, BitVec.setWidth_mul _ _ (by decide), setWidth_eq_ofInt_toInt (by decide),
      setWidth_eq_ofInt_toInt (by decide), Int32.toInt_toBitVec, Int32.toInt_toBitVec]
  rw [packed, Int32.toBitVec_toInt64, setWidth_signExtend (by decide) (by decide), Int32.toBitVec_xor,
    Int32.toBitVec_xor, BitVec.setWidth_xor, BitVec.setWidth_xor, hcoordinate, hcoordinate, hcoordinate]
  simp only [ofInt_xor, BitVec.ofInt_mul]
  rfl

/-- The words that are multiplied end in the bits of the whole number. -/
theorem setWidth_hashed (seed : Int64) (p : BlockPosition) :
    ((p.packed.toInt64 ^^^ seed * 457).toBitVec).setWidth 24 = BitVec.ofInt 24 (p.mixed seed.toInt) := by
  have hseed : ((seed * 457).toBitVec).setWidth 24 = BitVec.ofInt 24 (seed.toInt * 457) := by
    rw [Int64.toBitVec_mul, BitVec.setWidth_mul _ _ (by decide), BitVec.ofInt_mul,
      setWidth_eq_ofInt_toInt (by decide), Int64.toInt_toBitVec]
    rfl
  rw [Int64.toBitVec_xor, BitVec.setWidth_xor, setWidth_packed, hseed, mixed, ← ofInt_xor]

theorem hash_eq_toNat (seed : Int64) (p : BlockPosition) :
    p.hash seed = (BitVec.ofInt 24 (p.mixed seed.toInt * (p.mixed seed.toInt + 456149))).toNat := by
  have hconstant : (Int64.toBitVec 456149).setWidth 24 = BitVec.ofInt 24 456149 := by decide
  rw [hash, toInt_toNat_and_mask, Int64.toBitVec_mul, Int64.toBitVec_add, BitVec.setWidth_mul _ _ (by decide),
    BitVec.setWidth_add _ _ (by decide), setWidth_hashed, hconstant, BitVec.ofInt_mul, BitVec.ofInt_add]

theorem hash_eq_emod (seed : Int64) (p : BlockPosition) :
    (p.hash seed : Int) = p.mixed seed.toInt * (p.mixed seed.toInt + 456149) % 0x1000000 := by
  have hresidue : (BitVec.ofInt 24 (p.mixed seed.toInt * (p.mixed seed.toInt + 456149))).toNat =
      (p.mixed seed.toInt * (p.mixed seed.toInt + 456149) % 0x1000000).toNat := BitVec.toNat_ofInt _
  rw [hash_eq_toNat, hresidue, Int.toNat_of_nonneg (Int.emod_nonneg _ (by decide))]

theorem hash_lt (seed : Int64) (p : BlockPosition) : p.hash seed < 0x1000000 := by
  rw [hash_eq_toNat]
  exact BitVec.isLt _

/-- Of two numbers an odd distance apart one is even. -/
theorem two_dvd_mul_add_odd (n : Int) : 2 ∣ n * (n + 456149) := by
  rcases Int.emod_two_eq n with heven | hodd
  · exact Dvd.dvd.mul_right (Int.dvd_of_emod_eq_zero heven) _
  · exact Dvd.dvd.mul_left (Int.dvd_of_emod_eq_zero (by omega)) _

theorem two_dvd_hash (seed : Int64) (p : BlockPosition) : 2 ∣ p.hash seed := by
  have heven : (2 : Int) ∣ p.hash seed := by
    obtain ⟨k, hk⟩ := two_dvd_mul_add_odd (p.mixed seed.toInt)
    rw [hash_eq_emod, hk]
    omega
  exact Int.natCast_dvd_natCast.1 heven

theorem SameResidues.hash_eq {p q : BlockPosition} (h : p.SameResidues q) (seed : Int64) :
    p.hash seed = q.hash seed := by
  have hlast : ∀ {m n : Int}, m ≡ n [ZMOD 0x1000000] → BitVec.ofInt 24 m = BitVec.ofInt 24 n := fun hmn => by
    refine BitVec.eq_of_toNat_eq ?_
    rw [BitVec.toNat_ofInt, BitVec.toNat_ofInt]
    exact congrArg Int.toNat hmn
  have hmixed : BitVec.ofInt 24 (p.mixed seed.toInt) = BitVec.ofInt 24 (q.mixed seed.toInt) := by
    simp only [mixed, ofInt_xor, BitVec.ofInt_mul, hlast h.x, hlast h.y, hlast h.z]
  rw [hash_eq_toNat, hash_eq_toNat, BitVec.ofInt_mul, BitVec.ofInt_mul, BitVec.ofInt_add, BitVec.ofInt_add, hmixed]

end BlockPosition

namespace VariantPool

/-- The hash of a position is the residue of one expression in whole numbers, wherever its words wrap, and it is
always even. So a coordinate that moves by a multiple of the modulus makes no difference to what a pool gives. -/
theorem picks_byResidues :
    (∀ (seed : Int64) (p : BlockPosition),
      (p.hash seed : Int) = p.mixed seed.toInt * (p.mixed seed.toInt + 456149) % 0x1000000 ∧
        2 ∣ p.hash seed ∧ p.hash seed < 0x1000000) ∧
    ∀ (pool : VariantPool) (p q : BlockPosition), p.SameResidues q →
      pool.selectIndex? p = pool.selectIndex? q ∧ pool.select? p = pool.select? q := by
  refine ⟨fun seed p => ⟨p.hash_eq_emod seed, p.two_dvd_hash seed, p.hash_lt seed⟩, fun pool p q h => ?_⟩
  have hindex : pool.selectIndex? p = pool.selectIndex? q := by
    rw [selectIndex?, selectIndex?, h.hash_eq]
  exact ⟨hindex, by rw [select?, select?, hindex]⟩

/-- A place near the origin, and one that is far from it in all three directions. -/
def nearby : BlockPosition := ⟨30, 64, -5⟩

def faraway : BlockPosition := ⟨30 + 100 * 0x1000000, 64 - 0x1000000, -5 - 128 * 0x1000000 + 0x1000000⟩

/-- Three variants of different weights. -/
def stones : VariantPool :=
  ⟨[.weighted (.ofModel "stone") 2, .weighted (.ofModel "cobblestone") 3, .ofModel "gravel"]⟩

/-- The products of both places wrap at different numbers, and still the same variant is picked. -/
theorem picks_byResidues_faraway :
    nearby.SameResidues faraway ∧ nearby.packed ≠ faraway.packed ∧
      (nearby.hash selectionSeed : Int) = nearby.mixed 827364 * (nearby.mixed 827364 + 456149) % 0x1000000 ∧
      stones.selectIndex? nearby = stones.selectIndex? faraway ∧ stones.select? nearby = stones.select? faraway := by
  have hsame : nearby.SameResidues faraway := ⟨by decide, by decide, by decide⟩
  obtain ⟨hindex, hpick⟩ := picks_byResidues.2 stones nearby faraway hsame
  exact ⟨hsame, by decide, (picks_byResidues.1 selectionSeed nearby).1, hindex, hpick⟩

end VariantPool

end BlockModel
