import BlockModel.Binary64.Basic

/-! The shortest decimal that reads back as a given double-precision number, and its written form. The
numbers that read back as `m * 2 ^ e` form an interval around it, whose ends belong to it when `m` is
even. For one digit, two digits and so on the two neighbours of the number on that decimal grid are
tried; the first grid with a hit gives the digits, and the nearer of two hits wins. -/

namespace BlockModel.Binary64

/-- The greatest `k` with `10 ^ k` at most a positive quotient. -/
def floorLogTen (num den : Nat) : Int :=
  let reached (k : Int) : Bool := den * Nat.pow 10 k.toNat ≤ num * Nat.pow 10 (-k).toNat
  let k := floorLogTwo num den * 30103 / 100000
  if reached (k + 1) then k + 1 else if reached k then k else k - 1

/-- Whether `n * 10 ^ k` reads back as the number. -/
def readsBack (x : Binary64) (n : Nat) (k : Int) : Bool :=
  let p := powerOfTwo (x.exponent - 2)
  let below := if x.mantissa = leastNormal ∧ leastExponent < x.exponent then 1 else 2
  let decimal := n * Nat.pow 10 k.toNat * p.2
  let scale := p.1 * Nat.pow 10 (-k).toNat
  let low := (4 * x.mantissa - below) * scale
  let high := (4 * x.mantissa + 2) * scale
  if x.mantissa % 2 = 0 then low ≤ decimal && decimal ≤ high else low < decimal && decimal < high

/-- The neighbour of the number with digits from `10 ^ k` up that reads back, the nearer one first. -/
def onGrid? (x : Binary64) (k : Int) : Option Nat :=
  let num := x.ratio.1 * Nat.pow 10 (-k).toNat
  let den := x.ratio.2 * Nat.pow 10 k.toNat
  let near := roundHalfEven num den
  let far := if near = num / den then near + 1 else num / den
  [near, far].find? (x.readsBack · k)

/-- The first hit on the grids from `10 ^ k` downwards. -/
def search (x : Binary64) : Nat → Int → Nat × Int
  | 0, k => (roundHalfEven (x.ratio.1 * Nat.pow 10 (-k).toNat) (x.ratio.2 * Nat.pow 10 k.toNat), k)
  | grids + 1, k =>
    match x.onGrid? k with
    | some n => (n, k)
    | none => search x grids (k - 1)

/-- The same decimal with its final zeros moved into the exponent. -/
def withoutZeros : Nat → Nat × Int → Nat × Int
  | 0, d => d
  | steps + 1, (n, k) => if n ≠ 0 ∧ n % 10 = 0 then withoutZeros steps (n / 10, k + 1) else (n, k)

/-- Digits and exponent of the shortest decimal that reads back as a number other than zero. -/
def shortest (x : Binary64) : Nat × Int :=
  withoutZeros 18 (x.search 17 (floorLogTen x.ratio.1 x.ratio.2))

/-- Numbers from `10 ^ (-5)` to below `10 ^ 16` are written with all their places. -/
def isPositional (leading : Int) : Bool := -5 ≤ leading && leading ≤ 15

/-- An exponent always has its sign, and no leading zeros. -/
def exponentText (e : Int) : List Char :=
  (if e < 0 then '-' else '+') :: (toString e.natAbs).toList

/-- The digits `n * 10 ^ k` with a decimal point, and with at least one digit on either side of it, or
with an exponent. -/
def decimalText (n : Nat) (k : Int) : List Char :=
  let digits := (toString n).toList
  let leading : Int := digits.length + k - 1
  if isPositional leading then
    if 0 ≤ k then digits ++ List.replicate k.toNat '0' ++ ['.', '0']
    else if 0 ≤ leading then
      digits.take (leading.toNat + 1) ++ '.' :: digits.drop (leading.toNat + 1)
    else '0' :: '.' :: (List.replicate (-leading - 1).toNat '0' ++ digits)
  else
    let fraction := digits.drop 1
    digits.take 1 ++ (if fraction.isEmpty then [] else '.' :: fraction) ++ 'e' :: exponentText leading

/-- The shortest text that reads back as the number. -/
def text (x : Binary64) : String :=
  let size := if x.isZero then decimalText 0 0 else decimalText x.shortest.1 x.shortest.2
  String.ofList (if x.negative then '-' :: size else size)

end BlockModel.Binary64
