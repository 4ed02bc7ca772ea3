import BlockModel.Scan.Token

/-! Characters and their octets. Decoding what was encoded gives the characters again with nothing left,
and an octet of a character above the ASCII range is none of the octets that mean something inside a
JSON string. -/

namespace BlockModel.Text.Utf8

theorem toNat_ofNat_of_lt {n : Nat} (h : n < 256) : (UInt8.ofNat n).toNat = n := by
  rw [UInt8.toNat_ofNat']
  exact Nat.mod_eq_of_lt h

/-- A code point of a character is no surrogate and not above U+10FFFF. -/
theorem toNat_valid (c : Char) : c.toNat < 0xD800 ∨ 0xDFFF < c.toNat ∧ c.toNat < 0x110000 := c.valid

/-- The octet that carries six bits. -/
def tail (n : Nat) : UInt8 := .ofNat (0x80 + n % 0x40)

theorem toNat_tail (n : Nat) : (tail n).toNat = 0x80 + n % 0x40 := toNat_ofNat_of_lt (by omega)

theorem isTail_tail (n : Nat) : isTail (tail n) = true := by
  simp only [isTail, Bool.and_eq_true, decide_eq_true_eq, UInt8.le_iff_toNat_le, toNat_tail]
  simp only [UInt8.reduceToNat]
  omega

theorem low_tail (n : Nat) : low 0x40 (tail n) = n % 0x40 := by
  rw [low, toNat_tail]
  omega

theorem encodeScalar_one {n : Nat} (h : n < 0x80) : encodeScalar n = [.ofNat n] := by
  rw [encodeScalar, if_pos h]

theorem encodeScalar_two {n : Nat} (hlow : 0x80 ≤ n) (h : n < 0x800) :
    encodeScalar n = [.ofNat (0xC0 + n / 0x40), tail n] := by
  rw [encodeScalar, if_neg (by omega), if_pos h]
  simp only [tail, Nat.div_one]

theorem encodeScalar_three {n : Nat} (hlow : 0x800 ≤ n) (h : n < 0x10000) :
    encodeScalar n = [.ofNat (0xE0 + n / 0x1000), tail (n / 0x40), tail n] := by
  rw [encodeScalar, if_neg (by omega), if_neg (by omega), if_pos h]
  simp only [tail, Nat.div_one]

theorem encodeScalar_four {n : Nat} (hlow : 0x10000 ≤ n) :
    encodeScalar n = [.ofNat (0xF0 + n / 0x40000), tail (n / 0x1000), tail (n / 0x40), tail n] := by
  rw [encodeScalar, if_neg (by omega), if_neg (by omega), if_neg (by omega)]
  simp only [tail, Nat.div_one]

theorem decode_one {a : UInt8} {as : List UInt8} (ha : a ≤ 0x7F) :
    decode (a :: as) = (Char.ofNat a.toNat :: (decode as).1, (decode as).2) := by
  rw [decode.eq_def]
  simp only [if_pos ha]

theorem decode_two {a b : UInt8} {bs : List UInt8} (ha : ¬a ≤ 0x7F)
    (h : (0xC2 ≤ a && a ≤ 0xDF && isTail b) = true) :
    decode (a :: b :: bs) =
      (Char.ofNat (low 0x20 a * 0x40 + low 0x40 b) :: (decode bs).1, (decode bs).2) := by
  rw [decode.eq_def]
  simp only [if_neg ha, if_pos h]

theorem decode_three {a b c : UInt8} {cs : List UInt8} (ha : 0xDF < a)
    (h : (0xE0 ≤ a && a ≤ 0xEF && isSecondOfThree a b && isTail c) = true) :
    decode (a :: b :: c :: cs) =
      (Char.ofNat ((low 0x10 a * 0x40 + low 0x40 b) * 0x40 + low 0x40 c) :: (decode cs).1, (decode cs).2) := by
  have ha1 : ¬a ≤ 0x7F := by
    simp only [UInt8.le_iff_toNat_le, UInt8.lt_iff_toNat_lt, UInt8.reduceToNat] at ha ⊢
    omega
  have ha2 : ¬(0xC2 ≤ a && a ≤ 0xDF && isTail b) = true := by
    simp only [Bool.and_eq_true, decide_eq_true_eq]
    exact fun h2 => absurd ha (UInt8.not_lt.2 h2.1.2)
  rw [decode.eq_def]
  simp only [if_neg ha1, if_neg ha2, if_pos h]

theorem decode_four {a b c d : UInt8} {ds : List UInt8} (ha : 0xEF < a)
    (h : (0xF0 ≤ a && a ≤ 0xF4 && isSecondOfFour a b && isTail c && isTail d) = true) :
    decode (a :: b :: c :: d :: ds) =
      (Char.ofNat (((low 0x08 a * 0x40 + low 0x40 b) * 0x40 + low 0x40 c) * 0x40 + low 0x40 d) :: (decode ds).1,
        (decode ds).2) := by
  have ha1 : ¬a ≤ 0x7F := by
    simp only [UInt8.le_iff_toNat_le, UInt8.lt_iff_toNat_lt, UInt8.reduceToNat] at ha ⊢
    omega
  have ha2 : ¬(0xC2 ≤ a && a ≤ 0xDF && isTail b) = true := by
    simp only [Bool.and_eq_true, decide_eq_true_eq, UInt8.le_iff_toNat_le, UInt8.lt_iff_toNat_lt,
      UInt8.reduceToNat] at ha ⊢
    omega
  have ha3 : ¬(0xE0 ≤ a && a ≤ 0xEF && isSecondOfThree a b && isTail c) = true := by
    simp only [Bool.and_eq_true, decide_eq_true_eq, UInt8.le_iff_toNat_le, UInt8.lt_iff_toNat_lt,
      UInt8.reduceToNat] at ha ⊢
    omega
  rw [decode.eq_def]
  simp only [if_neg ha1, if_neg ha2, if_neg ha3, if_pos h]

/-- The bounds on the second octet hold just because no character is a surrogate, too large, or written
with more octets than it needs. -/
theorem decode_encodeScalar (c : Char) (rest : List UInt8) :
    decode (encodeScalar c.toNat ++ rest) = (c :: (decode rest).1, (decode rest).2) := by
  have hvalid := toNat_valid c
  have hc : Char.ofNat c.toNat = c := Char.ofNat_toNat c
  generalize c.toNat = n at hvalid hc
  by_cases h1 : n < 0x80
  · have ha : (UInt8.ofNat n).toNat = n := toNat_ofNat_of_lt (by omega)
    rw [encodeScalar_one h1, List.cons_append, decode_one, ha, hc, List.nil_append]
    simp only [UInt8.le_iff_toNat_le, ha, UInt8.reduceToNat]
    omega
  by_cases h2 : n < 0x800
  · have ha : (UInt8.ofNat (0xC0 + n / 0x40)).toNat = 0xC0 + n / 0x40 := toNat_ofNat_of_lt (by omega)
    have hvalue : low 0x20 (.ofNat (0xC0 + n / 0x40)) * 0x40 + n % 0x40 = n := by
      rw [low, ha]
      omega
    rw [encodeScalar_two (by omega) h2, List.cons_append, List.cons_append, List.nil_append, decode_two,
      low_tail, hvalue, hc]
    · simp only [UInt8.le_iff_toNat_le, ha, UInt8.reduceToNat]
      omega
    · simp only [Bool.and_eq_true, decide_eq_true_eq, UInt8.le_iff_toNat_le, ha, isTail_tail, and_true]
      simp only [UInt8.reduceToNat]
      omega
  by_cases h3 : n < 0x10000
  · have ha : (UInt8.ofNat (0xE0 + n / 0x1000)).toNat = 0xE0 + n / 0x1000 := toNat_ofNat_of_lt (by omega)
    have hvalue : (low 0x10 (.ofNat (0xE0 + n / 0x1000)) * 0x40 + n / 0x40 % 0x40) * 0x40 + n % 0x40 = n := by
      rw [low, ha]
      omega
    rw [encodeScalar_three (by omega) h3, List.cons_append, List.cons_append, List.cons_append,
      List.nil_append, decode_three, low_tail, low_tail, hvalue, hc]
    · simp only [UInt8.lt_iff_toNat_lt, ha, UInt8.reduceToNat]
      omega
    · simp only [isSecondOfThree, Bool.and_eq_true, Bool.or_eq_true, bne_iff_ne, ne_eq, decide_eq_true_eq,
        UInt8.le_iff_toNat_le, ← UInt8.toNat_inj, ha, isTail_tail, toNat_tail, true_and, and_true]
      simp only [UInt8.reduceToNat]
      omega
  · have ha : (UInt8.ofNat (0xF0 + n / 0x40000)).toNat = 0xF0 + n / 0x40000 := toNat_ofNat_of_lt (by omega)
    have hvalue : ((low 0x08 (.ofNat (0xF0 + n / 0x40000)) * 0x40 + n / 0x1000 % 0x40) * 0x40 +
        n / 0x40 % 0x40) * 0x40 + n % 0x40 = n := by
      rw [low, ha]
      omega
    rw [encodeScalar_four (by omega), List.cons_append, List.cons_append, List.cons_append, List.cons_append,
      List.nil_append, decode_four, low_tail, low_tail, low_tail, hvalue, hc]
    · simp only [UInt8.lt_iff_toNat_lt, ha, UInt8.reduceToNat]
      omega
    · simp only [isSecondOfFour, Bool.and_eq_true, Bool.or_eq_true, bne_iff_ne, ne_eq, decide_eq_true_eq,
        UInt8.le_iff_toNat_le, ← UInt8.toNat_inj, ha, isTail_tail, toNat_tail, true_and, and_true]
      simp only [UInt8.reduceToNat]
      omega

theorem decode_encode (cs : List Char) : decode (encode cs) = (cs, []) := by
  induction cs with
  | nil => rfl
  | cons c cs ih =>
      rw [encode, List.flatMap_cons, decode_encodeScalar]
      show (c :: (decode (encode cs)).1, (decode (encode cs)).2) = _
      rw [ih]

theorem toNat_ofNat {n : Nat} (h : n < 0xD800 ∨ 0xDFFF < n ∧ n < 0x110000) : (Char.ofNat n).toNat = n := by
  rw [Char.ofNat, dif_pos h]
  rfl

theorem ofNat_eq {n : Nat} {b : UInt8} (h : n = b.toNat) : UInt8.ofNat n = b := by
  rw [h, UInt8.ofNat_toNat]

theorem isTail_iff {b : UInt8} : isTail b = true ↔ 0x80 ≤ b.toNat ∧ b.toNat ≤ 0xBF := by
  simp only [isTail, Bool.and_eq_true, decide_eq_true_eq, UInt8.le_iff_toNat_le, UInt8.reduceToNat]

theorem low_of_isTail {b : UInt8} (h : isTail b = true) : low 0x40 b = b.toNat - 0x80 := by
  rw [isTail_iff] at h
  rw [low]
  omega

theorem tail_eq {n : Nat} {b : UInt8} (hb : isTail b = true) (h : n % 0x40 = low 0x40 b) : tail n = b := by
  rw [low_of_isTail hb] at h
  rw [isTail_iff] at hb
  exact ofNat_eq (by omega)

theorem encodeScalar_decoded_one {a : UInt8} (ha : a ≤ 0x7F) : encodeScalar (Char.ofNat a.toNat).toNat = [a] := by
  simp only [UInt8.le_iff_toNat_le, UInt8.reduceToNat] at ha
  rw [toNat_ofNat (by omega), encodeScalar_one (by omega), UInt8.ofNat_toNat]

theorem encodeScalar_decoded_two {a b : UInt8} (h : (0xC2 ≤ a && a ≤ 0xDF && isTail b) = true) :
    encodeScalar (Char.ofNat (low 0x20 a * 0x40 + low 0x40 b)).toNat = [a, b] := by
  simp only [Bool.and_eq_true, decide_eq_true_eq, UInt8.le_iff_toNat_le, UInt8.reduceToNat] at h
  obtain ⟨ha, hb⟩ := h
  have hlowb := low_of_isTail hb
  have hb' := isTail_iff.1 hb
  have hlowa : low 0x20 a = a.toNat - 0xC0 := by
    rw [low]
    omega
  rw [toNat_ofNat (by omega), encodeScalar_two (by omega) (by omega), ofNat_eq (b := a) (by omega),
    tail_eq hb (by omega)]

/-- No form is too long and none is a surrogate, by the bounds on the second octet. -/
theorem encodeScalar_decoded_three {a b c : UInt8}
    (h : (0xE0 ≤ a && a ≤ 0xEF && isSecondOfThree a b && isTail c) = true) :
    encodeScalar (Char.ofNat ((low 0x10 a * 0x40 + low 0x40 b) * 0x40 + low 0x40 c)).toNat = [a, b, c] := by
  simp only [isSecondOfThree, Bool.and_eq_true, Bool.or_eq_true, bne_iff_ne, ne_eq, decide_eq_true_eq,
    UInt8.le_iff_toNat_le, ← UInt8.toNat_inj, UInt8.reduceToNat] at h
  obtain ⟨⟨ha, ⟨hb, hleast⟩, hgreatest⟩, hc⟩ := h
  have hlowb := low_of_isTail hb
  have hlowc := low_of_isTail hc
  have hb' := isTail_iff.1 hb
  have hc' := isTail_iff.1 hc
  have hlowa : low 0x10 a = a.toNat - 0xE0 := by
    rw [low]
    omega
  rw [toNat_ofNat (by omega), encodeScalar_three (by omega) (by omega), ofNat_eq (b := a) (by omega),
    tail_eq hb (by omega), tail_eq hc (by omega)]

theorem encodeScalar_decoded_four {a b c d : UInt8}
    (h : (0xF0 ≤ a && a ≤ 0xF4 && isSecondOfFour a b && isTail c && isTail d) = true) :
    encodeScalar
      (Char.ofNat (((low 0x08 a * 0x40 + low 0x40 b) * 0x40 + low 0x40 c) * 0x40 + low 0x40 d)).toNat =
        [a, b, c, d] := by
  simp only [isSecondOfFour, Bool.and_eq_true, Bool.or_eq_true, bne_iff_ne, ne_eq, decide_eq_true_eq,
    UInt8.le_iff_toNat_le, ← UInt8.toNat_inj, UInt8.reduceToNat] at h
  obtain ⟨⟨⟨ha, ⟨hb, hleast⟩, hgreatest⟩, hc⟩, hd⟩ := h
  have hlowb := low_of_isTail hb
  have hlowc := low_of_isTail hc
  have hlowd := low_of_isTail hd
  have hb' := isTail_iff.1 hb
  have hc' := isTail_iff.1 hc
  have hd' := isTail_iff.1 hd
  have hlowa : low 0x08 a = a.toNat - 0xF0 := by
    rw [low]
    omega
  rw [toNat_ofNat (by omega), encodeScalar_four (by omega), ofNat_eq (b := a) (by omega),
    tail_eq hb (by omega), tail_eq hc (by omega), tail_eq hd (by omega)]

/-- A character that was decoded stands encoded in front of the octets from which the others were. -/
theorem decode_eq_cons {octets left : List UInt8} {ch : Char} {chars : List Char}
    (h : decode octets = (ch :: chars, left)) :
    ∃ rest, octets = encodeScalar ch.toNat ++ rest ∧ decode rest = (chars, left) := by
  rw [decode.eq_def] at h
  split at h
  · cases h
  split at h
  · rename_i ha
    obtain ⟨⟨rfl, rfl⟩, rfl⟩ := h
    exact ⟨_, by rw [encodeScalar_decoded_one ha]; rfl, rfl⟩
  split at h
  · cases h
  split at h
  · rename_i hab
    obtain ⟨⟨rfl, rfl⟩, rfl⟩ := h
    exact ⟨_, by rw [encodeScalar_decoded_two hab]; rfl, rfl⟩
  split at h
  · cases h
  split at h
  · rename_i habc
    obtain ⟨⟨rfl, rfl⟩, rfl⟩ := h
    exact ⟨_, by rw [encodeScalar_decoded_three habc]; rfl, rfl⟩
  split at h
  · cases h
  split at h
  · rename_i habcd
    obtain ⟨⟨rfl, rfl⟩, rfl⟩ := h
    exact ⟨_, by rw [encodeScalar_decoded_four habcd]; rfl, rfl⟩
  · cases h

theorem isTail_eq_false {b : UInt8} (h : b.toNat < 0x80 ∨ 0xBF < b.toNat) : isTail b = false := by
  rw [Bool.eq_false_iff, ne_eq, isTail_iff]
  omega

/-- Only the first octet of a character is none that goes on with one. -/
theorem encodeScalar_eq_cons (c : Char) :
    ∃ b more, encodeScalar c.toNat = b :: more ∧ isTail b = false ∧ ∀ d ∈ more, isTail d = true := by
  have hvalid := toNat_valid c
  generalize c.toNat = n at hvalid
  by_cases h1 : n < 0x80
  · refine ⟨_, _, encodeScalar_one h1, isTail_eq_false ?_, List.forall_mem_nil _⟩
    rw [toNat_ofNat_of_lt] <;> omega
  by_cases h2 : n < 0x800
  · refine ⟨_, _, encodeScalar_two (by omega) h2, isTail_eq_false ?_, ?_⟩
    · rw [toNat_ofNat_of_lt] <;> omega
    · exact List.forall_mem_singleton.2 (isTail_tail _)
  by_cases h3 : n < 0x10000
  · refine ⟨_, _, encodeScalar_three (by omega) h3, isTail_eq_false ?_, ?_⟩
    · rw [toNat_ofNat_of_lt] <;> omega
    · exact List.forall_mem_cons.2 ⟨isTail_tail _, List.forall_mem_singleton.2 (isTail_tail _)⟩
  · refine ⟨_, _, encodeScalar_four (by omega), isTail_eq_false ?_, ?_⟩
    · rw [toNat_ofNat_of_lt] <;> omega
    · exact List.forall_mem_cons.2 ⟨isTail_tail _,
        List.forall_mem_cons.2 ⟨isTail_tail _, List.forall_mem_singleton.2 (isTail_tail _)⟩⟩

/-- Where no character was decoded, all octets are left. -/
theorem decode_eq_nil {octets left : List UInt8} (h : decode octets = ([], left)) : octets = left := by
  rw [decode.eq_def] at h
  repeat' split at h
  all_goals cases h
  all_goals rfl

theorem length_left_le {octets left : List UInt8} {chars : List Char} (h : decode octets = (chars, left)) :
    left.length ≤ octets.length := by
  induction chars generalizing octets with
  | nil => exact Nat.le_of_eq (congrArg List.length (decode_eq_nil h).symm)
  | cons ch chars ih =>
      obtain ⟨rest, rfl, hrest⟩ := decode_eq_cons h
      rw [List.length_append]
      exact Nat.le_trans (ih hrest) (Nat.le_add_left _ _)

theorem length_encodeScalar_le (n : Nat) : (encodeScalar n).length ≤ 4 := by
  unfold encodeScalar
  repeat' split
  all_goals simp

theorem isPlain_iff {b : UInt8} :
    Octet.isPlain b = true ↔ b.toNat ≠ 0x22 ∧ b.toNat ≠ 0x5C ∧ 0x20 ≤ b.toNat := by
  simp only [Octet.isPlain, Octet.isControl, Octet.quote, Octet.backslash, Bool.and_eq_true, bne_iff_ne, ne_eq,
    Bool.not_eq_true', decide_eq_false_iff_not, UInt8.not_lt, UInt8.le_iff_toNat_le, ← UInt8.toNat_inj,
    UInt8.reduceToNat, and_assoc]

theorem isPlain_of_le {b : UInt8} (h : 0x80 ≤ b.toNat) : Octet.isPlain b = true :=
  isPlain_iff.2 (by omega)

theorem isPlain_tail (n : Nat) : Octet.isPlain (tail n) = true :=
  isPlain_of_le (by rw [toNat_tail]; omega)

/-- A character that need not be escaped has no octet that would end the text or begin an escape. -/
theorem isPlain_encodeScalar {c : Char} (hquote : c ≠ '"') (hbackslash : c ≠ '\\') (hcontrol : 0x20 ≤ c.toNat) :
    ∀ b ∈ encodeScalar c.toNat, Octet.isPlain b = true := by
  have hvalid := toNat_valid c
  have hquote : c.toNat ≠ 0x22 := fun h => hquote (Char.toNat_inj.1 h)
  have hbackslash : c.toNat ≠ 0x5C := fun h => hbackslash (Char.toNat_inj.1 h)
  generalize c.toNat = n at hvalid hquote hbackslash hcontrol
  by_cases h1 : n < 0x80
  · rw [encodeScalar_one h1, List.forall_mem_singleton, isPlain_iff, toNat_ofNat_of_lt (by omega)]
    omega
  by_cases h2 : n < 0x800
  · rw [encodeScalar_two (by omega) h2, List.forall_mem_cons, List.forall_mem_singleton]
    exact ⟨isPlain_of_le (by rw [toNat_ofNat_of_lt] <;> omega), isPlain_tail _⟩
  by_cases h3 : n < 0x10000
  · rw [encodeScalar_three (by omega) h3, List.forall_mem_cons, List.forall_mem_cons, List.forall_mem_singleton]
    exact ⟨isPlain_of_le (by rw [toNat_ofNat_of_lt] <;> omega), isPlain_tail _, isPlain_tail _⟩
  · rw [encodeScalar_four (by omega), List.forall_mem_cons, List.forall_mem_cons, List.forall_mem_cons,
      List.forall_mem_singleton]
    exact ⟨isPlain_of_le (by rw [toNat_ofNat_of_lt] <;> omega), isPlain_tail _, isPlain_tail _, isPlain_tail _⟩

end BlockModel.Text.Utf8
