/-! Double-precision numbers in exact arithmetic: a sign, a whole mantissa below `2 ^ 53` and an exponent
of two. Every operation is the exact result rounded to the nearest number of the format, a half going
to the neighbour with an even mantissa, so all of it is arithmetic on natural numbers. -/

namespace BlockModel

/-- The whole number nearest to a quotient, a half going to the even neighbour. -/
def roundHalfEven (num den : Nat) : Nat :=
  let q := num / den
  let r := num % den
  if 2 * r < den then q
  else if den < 2 * r then q + 1
  else q + q % 2

/-- The number `± mantissa * 2 ^ exponent`. A mantissa below `2 ^ 52` goes with the least exponent only,
so that equal numbers of one sign are equal structures. -/
structure Binary64 where
  negative : Bool
  mantissa : Nat
  exponent : Int
  deriving DecidableEq, Repr

namespace Binary64

/-- The exponent of the smallest positive number, `2 ^ (-1074)`. -/
def leastExponent : Int := -1074

/-- The least mantissa that may go with any exponent, `2 ^ 52`. -/
def leastNormal : Nat := 0x10000000000000

/-- The exponent that goes with the mantissa of the largest number. -/
def greatestExponent : Int := 971

def zero : Binary64 := ⟨false, 0, leastExponent⟩

def isZero (x : Binary64) : Bool := x.mantissa == 0

def neg (x : Binary64) : Binary64 := { x with negative := !x.negative }

/-- `2 ^ e` as a quotient of two natural numbers. -/
def powerOfTwo (e : Int) : Nat × Nat := (1 <<< e.toNat, 1 <<< (-e).toNat)

/-- The greatest `k` with `2 ^ k` at most the quotient of two positive numbers. -/
def floorLogTwo (num den : Nat) : Int :=
  let k : Int := (num.log2 : Int) - den.log2
  let p := powerOfTwo k
  if den * p.1 ≤ num * p.2 then k else k - 1

/-- The number of the format nearest to a quotient, or nothing if that is beyond the largest. -/
def nearest? (num den : Nat) : Option Binary64 :=
  if num = 0 then some zero
  else
    let e := max leastExponent (floorLogTwo num den - 52)
    let p := powerOfTwo e
    let m := roundHalfEven (num * p.2) (den * p.1)
    let x : Binary64 := if m = 2 * leastNormal then ⟨false, leastNormal, e + 1⟩ else ⟨false, m, e⟩
    if greatestExponent < x.exponent then none else some x

/-- The size of a number as a quotient. -/
def ratio (x : Binary64) : Nat × Nat :=
  let p := powerOfTwo x.exponent
  (x.mantissa * p.1, p.2)

def times? (x y : Binary64) : Option Binary64 :=
  (nearest? (x.ratio.1 * y.ratio.1) (x.ratio.2 * y.ratio.2)).map
    fun r => { r with negative := x.negative != y.negative }

/-- The quotient of two numbers, the second not zero. -/
def over? (x y : Binary64) : Option Binary64 :=
  (nearest? (x.ratio.1 * y.ratio.2) (x.ratio.2 * y.ratio.1)).map
    fun r => { r with negative := x.negative != y.negative }

/-- The greatest power of ten that the format holds. -/
def greatestPower : Nat := 308

def powerOfTen? (k : Nat) : Option Binary64 := nearest? (Nat.pow 10 k) 1

/-- Division by `10 ^ k`, in steps of at most `greatestPower`, each of them rounded. -/
def shrink : Nat → Nat → Binary64 → Option Binary64
  | 0, _, x => some x
  | steps + 1, k, x =>
    if k ≤ greatestPower then (powerOfTen? k).bind x.over?
    else if x.isZero then some x
    else ((powerOfTen? greatestPower).bind x.over?).bind (shrink steps (k - greatestPower))

/-- A number times `10 ^ e`: one rounded multiplication or division by a rounded power of ten, or several
divisions when the power is below the range of the format. -/
def scaleTen? (x : Binary64) (e : Int) : Option Binary64 :=
  if e < 0 then shrink ((-e).toNat / greatestPower + 1) (-e).toNat x
  else if e.toNat ≤ greatestPower then (powerOfTen? e.toNat).bind x.times?
  else if x.isZero then some x
  else none

end Binary64

/-- The nearest multiple of a power of two with at most 53 significant bits, a half going to the even
one: what a sum or product of whole numbers becomes in double precision. -/
def roundToBits (n : Nat) : Nat :=
  if n < 2 * Binary64.leastNormal then n
  else
    let unit := 1 <<< (n.log2 - 52)
    roundHalfEven n unit * unit

/-- The same on both sides of zero. -/
def roundInt : Int → Int
  | .ofNat n => roundToBits n
  | .negSucc n => -(roundToBits (n + 1) : Int)

end BlockModel
