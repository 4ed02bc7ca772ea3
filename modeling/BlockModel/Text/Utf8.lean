/-! UTF-8. `decode` reads characters as long as the octets form any and hands back the octets from the
first one that does not fit, so a text is valid UTF-8 exactly when nothing is handed back. `encode`
gives the octets of a character. -/

namespace BlockModel.Text.Utf8

/-- The value of an octet's low bits, below a power of two. -/
def low (bound : Nat) (b : UInt8) : Nat := b.toNat % bound

def isTail (b : UInt8) : Bool := 0x80 ≤ b && b ≤ 0xBF

/-- The second octet of three: no overlong form and no surrogate. -/
def isSecondOfThree (a b : UInt8) : Bool :=
  isTail b && (a != 0xE0 || 0xA0 ≤ b) && (a != 0xED || b ≤ 0x9F)

/-- The second octet of four: no overlong form and nothing above U+10FFFF. -/
def isSecondOfFour (a b : UInt8) : Bool :=
  isTail b && (a != 0xF0 || 0x90 ≤ b) && (a != 0xF4 || b ≤ 0x8F)

/-- The characters at the front of the octets, and the octets from the first that begins no character. -/
def decode : List UInt8 → List Char × List UInt8
  | [] => ([], [])
  | a :: as =>
    if a ≤ 0x7F then
      let (cs, left) := decode as
      (Char.ofNat a.toNat :: cs, left)
    else match as with
    | [] => ([], [a])
    | b :: bs =>
      if 0xC2 ≤ a && a ≤ 0xDF && isTail b then
        let (cs, left) := decode bs
        (Char.ofNat (low 0x20 a * 0x40 + low 0x40 b) :: cs, left)
      else match bs with
      | [] => ([], [a, b])
      | c :: cs =>
        if 0xE0 ≤ a && a ≤ 0xEF && isSecondOfThree a b && isTail c then
          let (chars, left) := decode cs
          (Char.ofNat ((low 0x10 a * 0x40 + low 0x40 b) * 0x40 + low 0x40 c) :: chars, left)
        else match cs with
        | [] => ([], [a, b, c])
        | d :: ds =>
          if 0xF0 ≤ a && a ≤ 0xF4 && isSecondOfFour a b && isTail c && isTail d then
            let (chars, left) := decode ds
            (Char.ofNat (((low 0x08 a * 0x40 + low 0x40 b) * 0x40 + low 0x40 c) * 0x40 + low 0x40 d) :: chars, left)
          else ([], a :: b :: c :: d :: ds)

/-- The octets of a code point. -/
def encodeScalar (n : Nat) : List UInt8 :=
  let tail (unit : Nat) : UInt8 := .ofNat (0x80 + n / unit % 0x40)
  if n < 0x80 then [.ofNat n]
  else if n < 0x800 then [.ofNat (0xC0 + n / 0x40), tail 1]
  else if n < 0x10000 then [.ofNat (0xE0 + n / 0x1000), tail 0x40, tail 1]
  else [.ofNat (0xF0 + n / 0x40000), tail 0x1000, tail 0x40, tail 1]

def encode (s : List Char) : List UInt8 := s.flatMap fun c => encodeScalar c.toNat

end BlockModel.Text.Utf8
