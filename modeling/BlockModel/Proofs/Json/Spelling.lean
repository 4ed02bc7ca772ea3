import BlockModel.Json.Basic
import BlockModel.Scan.Number

/-! The texts of a JSON value. `Spells` is the grammar of JSON as a relation between a value and a text:
blanks may stand around every mark and value, a character of a string may stand for itself or be
escaped in every way there is, and a number may be any numeral that has its value. Members of an object
keep their order, and a key may be there more than once. With `Leaves.form` in place of `Leaves.exact`
the same grammar asks only that strings and numbers have their form: escapes need not make up characters,
and numbers may have any size. -/

namespace BlockModel

/-- Digits, at least one. -/
structure Digits where
  octets : List UInt8
  ne_nil : octets ≠ []
  isDigit : ∀ b ∈ octets, Octet.isDigit b = true

/-- The number that digits give in base ten. -/
def Digits.value (ds : Digits) : Nat := ds.octets.foldl (fun n d => n * 10 + Octet.digit d) 0

/-- The power of ten at the end of a numeral. -/
structure ExponentPart where
  mark : UInt8
  isMark : Scan.isExponentMark mark = true
  /-- The sign, where one is written: whether it is a minus. -/
  sign : Option Bool
  digits : Digits

namespace ExponentPart

def isDown (e : ExponentPart) : Bool := e.sign.getD false

def signOctets : Option Bool → List UInt8
  | none => []
  | some false => [Octet.plus]
  | some true => [Octet.minus]

theorem eq_of_mem_signOctets {sign : Option Bool} {b : UInt8} (h : b ∈ signOctets sign) :
    b = Octet.plus ∨ b = Octet.minus := by
  cases sign with
  | none => exact absurd h List.not_mem_nil
  | some down =>
      cases down with
      | false => exact .inl (List.mem_singleton.1 h)
      | true => exact .inr (List.mem_singleton.1 h)

def octets (e : ExponentPart) : List UInt8 := e.mark :: (signOctets e.sign ++ e.digits.octets)

end ExponentPart

/-- A number as it is written. Its whole part has no zero in front of another digit. -/
structure Numeral where
  negative : Bool
  whole : Digits
  fraction : Option Digits
  exponent : Option ExponentPart
  noLeadingZero : whole.octets.head? = some Octet.zero → whole.octets = [Octet.zero]

namespace Numeral

def signOctets (negative : Bool) : List UInt8 := if negative then [Octet.minus] else []

def fractionOctets : Option Digits → List UInt8
  | none => []
  | some ds => Octet.point :: ds.octets

def exponentOctets : Option ExponentPart → List UInt8
  | none => []
  | some e => e.octets

def octets (x : Numeral) : List UInt8 :=
  signOctets x.negative ++ (x.whole.octets ++ (fractionOctets x.fraction ++ exponentOctets x.exponent))

/-! What a numeral is read as. Only the digits that fit 64 bits make up its significand, and the others of
the whole part are powers of ten. -/

/-- `± significand * 10 ^ exponent` in double precision, if it is in range. -/
def scaled? (negative : Bool) (significand : Nat) (exponent : Int) : Option JsonNumber :=
  ((Binary64.nearest? significand 1).bind (·.scaleTen? exponent)).map (Scan.signedFloat negative)

/-- A significand without a fraction or a power of ten: whole if it fits 64 bits with its sign. -/
def whole? (negative : Bool) (n : Nat) : Option JsonNumber :=
  if negative then
    if n = 0 ∨ 0x8000000000000000 < n then scaled? true n 0 else some (.int (-(n : Int)))
  else some (.int n)

/-- The significand with the power of ten that its digits alone give it. -/
def significand (x : Numeral) : Nat × Int :=
  let (m, left) := Scan.gather 0 x.whole.octets
  match x.fraction with
  | none => (m, left.length)
  | some ds =>
    let (m, leftOut) := Scan.gather m ds.octets
    (m, left.length - (ds.octets.length - leftOut.length : Nat))

/-- The significand and its power of ten, scaled by the exponent part if there is one. An exponent that
does not fit 31 bits makes a number zero or too large. -/
def scaledBy? (negative : Bool) (m : Nat) (shift : Int) : Option ExponentPart → Option JsonNumber
  | none => scaled? negative m shift
  | some e =>
    if e.digits.value < Scan.exponentBound then
      scaled? negative m (if e.isDown then shift - e.digits.value else shift + e.digits.value)
    else if m ≠ 0 && !e.isDown then none
    else some (Scan.signedFloat negative .zero)

/-- Neither a fraction nor a power of ten is written, and all digits fit. -/
def isWhole (x : Numeral) : Bool :=
  x.fraction.isNone && x.exponent.isNone && (Scan.gather 0 x.whole.octets).2.isEmpty

/-- The value of a numeral, or nothing if it is beyond double precision. -/
def value? (x : Numeral) : Option JsonNumber :=
  if x.isWhole then whole? x.negative x.significand.1
  else scaledBy? x.negative x.significand.1 x.significand.2 x.exponent

end Numeral

/-- The letters that may follow a backslash, with what they stand for. -/
def shortEscapes : List (Char × Char) :=
  [('"', '"'), ('\\', '\\'), ('/', '/'), ('b', '\x08'), ('f', '\x0c'), ('n', '\n'), ('r', '\r'), ('t', '\t')]

/-- The number that four hexadecimal digits give, in either case. -/
def hexNumber? : List UInt8 → Option Nat
  | [a, b, c, d] => do
    let a ← Octet.hex? a
    let b ← Octet.hex? b
    let c ← Octet.hex? c
    let d ← Octet.hex? d
    pure (((a * 16 + b) * 16 + c) * 16 + d)
  | _ => none

/-- A backslash, `u` and four octets. -/
def unicodeEscape (hex : List UInt8) : List UInt8 := Octet.backslash :: Octet.ofChar 'u' :: hex

/-- The ways to write one character inside a string. -/
inductive SpellsChar : Char → List UInt8 → Prop where
  | plain {c : Char} (hquote : c ≠ '"') (hbackslash : c ≠ '\\') (hcontrol : 0x20 ≤ c.toNat) :
      SpellsChar c (Text.Utf8.encodeScalar c.toNat)
  | short {letter c : Char} (hmem : (letter, c) ∈ shortEscapes) :
      SpellsChar c [Octet.backslash, Octet.ofChar letter]
  | hex {c : Char} {digits : List UInt8} (hvalue : hexNumber? digits = some c.toNat) :
      SpellsChar c (unicodeEscape digits)
  /-- Two escapes that are a pair of surrogates. -/
  | pair {c : Char} {leading trailing : List UInt8} {m n : Nat} (hm : hexNumber? leading = some m)
      (hn : hexNumber? trailing = some n) (hleading : Scan.isLeading m = true)
      (htrailing : Scan.isTrailing n = true)
      (hvalue : c.toNat = 0x10000 + (m - 0xD800) * 0x400 + (n - 0xDC00)) :
      SpellsChar c (unicodeEscape leading ++ unicodeEscape trailing)

inductive SpellsChars : List Char → List UInt8 → Prop where
  | nil : SpellsChars [] []
  | cons {c : Char} {cs : List Char} {s r : List UInt8} (hc : SpellsChar c s) (hcs : SpellsChars cs r) :
      SpellsChars (c :: cs) (s ++ r)

/-- Some text in quotes. -/
def inQuotes (body : List UInt8) : List UInt8 := Octet.quote :: (body ++ [Octet.quote])

/-- What may stand between quotes by form alone. -/
inductive StringForm : List UInt8 → Prop where
  | nil : StringForm []
  | plain {b : UInt8} {r : List UInt8} (hb : Octet.isPlain b = true) (hr : StringForm r) : StringForm (b :: r)
  | short {letter c : Char} {r : List UInt8} (hmem : (letter, c) ∈ shortEscapes) (hr : StringForm r) :
      StringForm (Octet.backslash :: Octet.ofChar letter :: r)
  | hex {digits r : List UInt8} {n : Nat} (hvalue : hexNumber? digits = some n) (hr : StringForm r) :
      StringForm (unicodeEscape digits ++ r)

/-- Space, line feed, carriage return and tab, as many as one likes. -/
def Blanks (w : List UInt8) : Prop := ∀ b ∈ w, Octet.isBlank b = true

theorem blanks_nil : Blanks [] := List.forall_mem_nil _

/-- The letters of a word. -/
def wordOctets (word : String) : List UInt8 := word.toList.map Octet.ofChar

/-- Which texts there are for numbers and strings. -/
structure Leaves where
  number : JsonNumber → List UInt8 → Prop
  string : String → List UInt8 → Prop

namespace Leaves

/-- Numerals in range and characters, with their values. -/
def exact : Leaves where
  number n s := ∃ x : Numeral, x.octets = s ∧ x.value? = some n
  string str s := ∃ body, SpellsChars str.toList body ∧ s = inQuotes body

/-- Everything of the right form, whatever its value. -/
def form : Leaves where
  number _ s := ∃ x : Numeral, x.octets = s
  string _ s := ∃ body, StringForm body ∧ s = inQuotes body

end Leaves

/-- What a piece of text can be: a value, or the inside of a list or object, from its start on or after an
item or member. -/
inductive Phrase where
  | value (j : Json)
  | items (js : List Json)
  | moreItems (js : List Json)
  | members (ms : List (String × Json))
  | moreMembers (ms : List (String × Json))

/-- The grammar of JSON. -/
inductive Spells (leaves : Leaves) : Phrase → List UInt8 → Prop where
  | null : Spells leaves (.value .null) (wordOctets "null")
  | bool (b : Bool) : Spells leaves (.value (.bool b)) (wordOctets (if b then "true" else "false"))
  | number {n : JsonNumber} {s : List UInt8} (hn : leaves.number n s) : Spells leaves (.value (.number n)) s
  | str {str : String} {s : List UInt8} (hs : leaves.string str s) : Spells leaves (.value (.str str)) s
  | list {js : List Json} {s : List UInt8} (hjs : Spells leaves (.items js) s) :
      Spells leaves (.value (.list js)) (Octet.openList :: (s ++ [Octet.closeList]))
  | object {ms : List (String × Json)} {s : List UInt8} (hms : Spells leaves (.members ms) s) :
      Spells leaves (.value (.object ms)) (Octet.openObject :: (s ++ [Octet.closeObject]))
  | noItems {w : List UInt8} (hw : Blanks w) : Spells leaves (.items []) w
  | items {j : Json} {js : List Json} {w s r : List UInt8} (hw : Blanks w)
      (hj : Spells leaves (.value j) s) (hjs : Spells leaves (.moreItems js) r) :
      Spells leaves (.items (j :: js)) (w ++ (s ++ r))
  | endItems {w : List UInt8} (hw : Blanks w) : Spells leaves (.moreItems []) w
  | moreItems {j : Json} {js : List Json} {w w' s r : List UInt8} (hw : Blanks w) (hw' : Blanks w')
      (hj : Spells leaves (.value j) s) (hjs : Spells leaves (.moreItems js) r) :
      Spells leaves (.moreItems (j :: js)) (w ++ Octet.comma :: (w' ++ (s ++ r)))
  | noMembers {w : List UInt8} (hw : Blanks w) : Spells leaves (.members []) w
  | members {key : String} {j : Json} {ms : List (String × Json)} {w k w1 w2 s r : List UInt8}
      (hw : Blanks w) (hk : leaves.string key k) (hw1 : Blanks w1) (hw2 : Blanks w2)
      (hj : Spells leaves (.value j) s) (hms : Spells leaves (.moreMembers ms) r) :
      Spells leaves (.members ((key, j) :: ms)) (w ++ (k ++ (w1 ++ Octet.colon :: (w2 ++ (s ++ r)))))
  | endMembers {w : List UInt8} (hw : Blanks w) : Spells leaves (.moreMembers []) w
  | moreMembers {key : String} {j : Json} {ms : List (String × Json)} {w w' k w1 w2 s r : List UInt8}
      (hw : Blanks w) (hw' : Blanks w') (hk : leaves.string key k) (hw1 : Blanks w1) (hw2 : Blanks w2)
      (hj : Spells leaves (.value j) s) (hms : Spells leaves (.moreMembers ms) r) :
      Spells leaves (.moreMembers ((key, j) :: ms))
        (w ++ Octet.comma :: (w' ++ (k ++ (w1 ++ Octet.colon :: (w2 ++ (s ++ r))))))

namespace Json

/-- Whether a document is a spelling of a value: one text of the value, and blanks around it. -/
def SpelledBy (j : Json) (document : List UInt8) : Prop :=
  ∃ w s w', Blanks w ∧ Spells .exact (.value j) s ∧ Blanks w' ∧ document = w ++ (s ++ w')

mutual
/-- The greatest number of lists and objects that lie in each other. -/
def nesting : Json → Nat
  | null => 0
  | bool _ => 0
  | number _ => 0
  | str _ => 0
  | list js => nestingItems js + 1
  | object ms => nestingMembers ms + 1

def nestingItems : List Json → Nat
  | [] => 0
  | j :: rest => max j.nesting (nestingItems rest)

def nestingMembers : List (String × Json) → Nat
  | [] => 0
  | (_, j) :: rest => max j.nesting (nestingMembers rest)
end

theorem nestingItems_le_iff {js : List Json} {n : Nat} :
    nestingItems js ≤ n ↔ ∀ j ∈ js, j.nesting ≤ n := by
  induction js with
  | nil => simp [nestingItems]
  | cons j rest ih => rw [nestingItems, Nat.max_le, ih, List.forall_mem_cons]

theorem nestingMembers_le_iff {ms : List (String × Json)} {n : Nat} :
    nestingMembers ms ≤ n ↔ ∀ m ∈ ms, m.2.nesting ≤ n := by
  induction ms with
  | nil => simp [nestingMembers]
  | cons m rest ih => rw [nestingMembers, Nat.max_le, ih, List.forall_mem_cons]

theorem not_nesting_list_le_zero (js : List Json) : ¬(list js).nesting ≤ 0 := by
  unfold nesting
  omega

theorem not_nesting_object_le_zero (ms : List (String × Json)) : ¬(object ms).nesting ≤ 0 := by
  unfold nesting
  omega

theorem nesting_list_le_iff {js : List Json} {n : Nat} :
    (list js).nesting ≤ n + 1 ↔ ∀ j ∈ js, j.nesting ≤ n := by
  rw [nesting, Nat.add_le_add_iff_right, nestingItems_le_iff]

theorem nesting_object_le_iff {ms : List (String × Json)} {n : Nat} :
    (object ms).nesting ≤ n + 1 ↔ ∀ m ∈ ms, m.2.nesting ≤ n := by
  rw [nesting, Nat.add_le_add_iff_right, nestingMembers_le_iff]

theorem nesting_lt_list {js : List Json} {j : Json} (hj : j ∈ js) : j.nesting < (list js).nesting :=
  Nat.lt_succ_of_le (nestingItems_le_iff.1 (Nat.le_refl _) j hj)

theorem nesting_lt_object {ms : List (String × Json)} {m : String × Json} (hm : m ∈ ms) :
    m.2.nesting < (object ms).nesting :=
  Nat.lt_succ_of_le (nestingMembers_le_iff.1 (Nat.le_refl _) m hm)

end Json

end BlockModel
