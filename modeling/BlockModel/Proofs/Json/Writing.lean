import BlockModel.Json.Basic
import BlockModel.Proofs.Json.Form
import BlockModel.Proofs.Scan.Number

/-! Written JSON spells what it was written for. A whole number is written by its digits in base ten, a
character of a string by itself or by one escape, and items and members stand one after the other without
blanks. -/

namespace BlockModel

open Text

theorem encode_append (s t : List Char) : Utf8.encode (s ++ t) = Utf8.encode s ++ Utf8.encode t :=
  List.flatMap_append

theorem encode_ascii {s : List Char} (hs : ∀ c ∈ s, c.toNat < 0x80) : Utf8.encode s = s.map Octet.ofChar := by
  induction s with
  | nil => rfl
  | cons c s ih =>
      have hc : Utf8.encodeScalar c.toNat = [Octet.ofChar c] := Utf8.encodeScalar_one (hs c (by simp))
      rw [Utf8.encode, List.flatMap_cons, hc, ← Utf8.encode, ih fun c hc => hs c (by simp [hc])]
      rfl

theorem joined_cons (sep p : List Char) (ps : List (List Char)) :
    joined sep (p :: ps) = p ++ ps.flatMap (sep ++ ·) := by
  induction ps generalizing p with
  | nil => rw [joined, List.flatMap_nil, List.append_nil]
  | cons q ps ih => rw [joined, ih, List.flatMap_cons, List.append_assoc, List.append_assoc]

namespace Json.Written

/-- The digits of a number in base ten. -/
def decimal (n : Nat) : List UInt8 := (Nat.toDigits 10 n).map Octet.ofChar

theorem decimal_of_lt {n : Nat} (h : n < 10) : decimal n = [Octet.ofChar n.digitChar] := by
  rw [decimal, Nat.toDigits_of_lt_base h]
  rfl

theorem decimal_of_le {n : Nat} (h : 10 ≤ n) :
    decimal n = decimal (n / 10) ++ [Octet.ofChar (n % 10).digitChar] := by
  rw [decimal, Nat.toDigits_of_base_le (by decide) h, List.map_append]
  rfl

theorem toNat_of_mem_toDigits {n : Nat} {c : Char} (hc : c ∈ Nat.toDigits 10 n) :
    0x30 ≤ c.toNat ∧ c.toNat ≤ 0x39 := by
  have hdigit := Nat.isDigit_of_mem_toDigits (by decide) (by decide) hc
  simp only [Char.isDigit, Bool.and_eq_true, decide_eq_true_eq, ge_iff_le, UInt32.le_iff_toNat_le] at hdigit
  exact hdigit

theorem encode_toDigits (n : Nat) : Utf8.encode (Nat.toDigits 10 n) = decimal n :=
  encode_ascii fun _ hc => Nat.lt_of_le_of_lt (toNat_of_mem_toDigits hc).2 (by decide)

theorem isDigit_decimal {n : Nat} : ∀ b ∈ decimal n, Octet.isDigit b = true := by
  intro b hb
  obtain ⟨c, hc, rfl⟩ := List.mem_map.1 hb
  obtain ⟨hlow, hhigh⟩ := toNat_of_mem_toDigits hc
  have hvalue : (Octet.ofChar c).toNat = c.toNat := Utf8.toNat_ofNat_of_lt (by omega)
  simp only [Octet.isDigit, Bool.and_eq_true, decide_eq_true_eq, UInt8.le_iff_toNat_le, hvalue,
    UInt8.reduceToNat]
  omega

theorem digit_digitChar {d : Nat} (h : d < 10) : Octet.digit (Octet.ofChar d.digitChar) = d := by
  rw [Octet.digit, Octet.ofChar, Nat.toNat_digitChar_of_lt_ten h, Utf8.toNat_ofNat_of_lt (by omega)]
  omega

theorem withDigits_concat (m : Nat) (ds : List UInt8) (d : UInt8) :
    Scan.withDigits m (ds ++ [d]) = Scan.withDigits m ds * 10 + Octet.digit d := by
  rw [Scan.withDigits, List.foldl_append]
  rfl

theorem withDigits_decimal (n : Nat) : Scan.withDigits 0 (decimal n) = n := by
  induction n using Nat.strongRecOn with
  | ind n ih =>
  by_cases h : n < 10
  · rw [decimal_of_lt h, Scan.withDigits, List.foldl_cons, List.foldl_nil, digit_digitChar h]
    omega
  · have hlast : n % 10 < 10 := Nat.mod_lt n (by decide)
    rw [decimal_of_le (by omega), withDigits_concat, ih (n / 10) (by omega), digit_digitChar hlast]
    omega

/-- Only zero begins with a zero. -/
theorem head?_decimal {n : Nat} (hn : n ≠ 0) : (decimal n).head? ≠ some Octet.zero := by
  induction n using Nat.strongRecOn with
  | ind n ih =>
  by_cases h : n < 10
  · rw [decimal_of_lt h]
    intro hzero
    have hdigit := digit_digitChar h
    rw [Option.some.inj hzero] at hdigit
    exact hn hdigit.symm
  · rw [decimal_of_le (by omega), List.head?_append]
    have hfront := ih (n / 10) (by omega) (by omega)
    cases hhead : (decimal (n / 10)).head? with
    | some b => rwa [hhead] at hfront
    | none =>
        have hnil := List.head?_eq_none_iff.1 hhead
        rw [decimal, List.map_eq_nil_iff] at hnil
        exact absurd hnil Nat.toDigits_ne_nil

theorem gather_eq_withDigits {m : Nat} {ds : List UInt8} (h : Scan.withDigits m ds < Scan.significandBound) :
    Scan.gather m ds = (Scan.withDigits m ds, []) := by
  induction ds generalizing m with
  | nil => rfl
  | cons d rest ih =>
      have hnext : m * 10 + Octet.digit d < Scan.significandBound :=
        Nat.lt_of_le_of_lt (Scan.le_withDigits _ rest) h
      unfold Scan.gather
      simp only [if_pos hnext]
      exact ih h

/-- The numeral of a number in base ten. -/
def numeral (negative : Bool) (n : Nat) : Numeral where
  negative := negative
  whole := ⟨decimal n, by rw [decimal, ne_eq, List.map_eq_nil_iff]; exact Nat.toDigits_ne_nil, isDigit_decimal⟩
  fraction := none
  exponent := none
  noLeadingZero := by
    intro hzero
    by_cases hn : n = 0
    · rw [hn]
      rfl
    · exact absurd hzero (head?_decimal hn)

theorem octets_numeral (negative : Bool) (n : Nat) :
    (numeral negative n).octets = Numeral.signOctets negative ++ decimal n := by
  unfold Numeral.octets
  exact congrArg _ (List.append_nil _)

theorem value?_numeral (negative : Bool) {n : Nat} (hn : n < 0x10000000000000000) :
    (numeral negative n).value? = Numeral.whole? negative n := by
  have hgather : Scan.gather 0 (decimal n) = (n, []) := by
    rw [gather_eq_withDigits (by rwa [withDigits_decimal]), withDigits_decimal]
  have hwhole : (numeral negative n).isWhole = true := by
    show (Scan.gather 0 (decimal n)).2.isEmpty = true
    rw [hgather]
    rfl
  have hsignificand : (numeral negative n).significand = (n, 0) := by
    have hwhole : (numeral negative n).whole.octets = decimal n := rfl
    rw [Numeral.significand, hwhole, hgather]
    rfl
  rw [Numeral.value?, if_pos hwhole, hsignificand]
  rfl

theorem encode_int_of_nonneg (n : Nat) : Utf8.encode (int n) = decimal n := by
  rw [int, Int.toString_eq_repr, Int.repr_eq_if, if_pos (Int.natCast_nonneg n), Nat.toList_repr, Int.toNat_natCast,
    encode_toDigits]

theorem encode_int_of_neg {n : Nat} (hn : n ≠ 0) : Utf8.encode (int (-n)) = Octet.minus :: decimal n := by
  rw [int, Int.toString_eq_repr, Int.repr_eq_if, if_neg (by omega), Int.neg_neg, Int.toNat_natCast,
    String.toList_append, Nat.toList_repr, encode_append, encode_toDigits]
  rfl

/-- Whole numbers that fit 64 bits, signed or unsigned, are read back. -/
theorem spells_int {n : Int} (hlow : -0x8000000000000000 ≤ n) (hhigh : n < 0x10000000000000000) :
    Spells .exact (.value (.number (.int n))) (Utf8.encode (int n)) := by
  by_cases hn : 0 ≤ n
  · obtain ⟨m, rfl⟩ := Int.eq_ofNat_of_zero_le hn
    refine .number ⟨numeral false m, ?_, ?_⟩
    · rw [octets_numeral, encode_int_of_nonneg]
      rfl
    · rw [value?_numeral false (by omega)]
      rfl
  · obtain ⟨m, hm⟩ := Int.eq_ofNat_of_zero_le (a := -n) (by omega)
    obtain rfl : n = -m := by omega
    have hne : m ≠ 0 := by omega
    refine .number ⟨numeral true m, ?_, ?_⟩
    · rw [octets_numeral, encode_int_of_neg hne]
      rfl
    · rw [value?_numeral true (by omega), Numeral.whole?, if_pos rfl, if_neg (by omega)]

theorem hexNumber?_hexEscape : ∀ n < 0x20,
    hexNumber? [Octet.zero, Octet.zero, Octet.ofChar (n / 16).digitChar, Octet.ofChar (n % 16).digitChar] =
      some n := by
  decide

theorem encode_hexEscape {c : Char} (hc : c.toNat < 0x20) :
    Utf8.encode (hexEscape c) = unicodeEscape
      [Octet.zero, Octet.zero, Octet.ofChar (c.toNat / 16).digitChar, Octet.ofChar (c.toNat % 16).digitChar] := by
  refine encode_ascii fun d hd => ?_
  have hdigit : ∀ n < 16, n.digitChar.toNat < 0x80 := by decide
  simp only [hexEscape, List.mem_cons, List.not_mem_nil, or_false] at hd
  rcases hd with rfl | rfl | rfl | rfl | rfl | rfl
  · decide
  · decide
  · decide
  · decide
  · exact hdigit _ (by omega)
  · exact hdigit _ (by omega)

theorem spellsChar_escapedChar (c : Char) : SpellsChar c (Utf8.encode (escapedChar c)) := by
  unfold escapedChar
  split
  · exact .short (by decide : ('"', '"') ∈ shortEscapes)
  · exact .short (by decide : ('\\', '\\') ∈ shortEscapes)
  · exact .short (by decide : ('b', '\x08') ∈ shortEscapes)
  · exact .short (by decide : ('t', '\t') ∈ shortEscapes)
  · exact .short (by decide : ('n', '\n') ∈ shortEscapes)
  · exact .short (by decide : ('f', '\x0c') ∈ shortEscapes)
  · exact .short (by decide : ('r', '\r') ∈ shortEscapes)
  · rename_i hquote hbackslash _ _ _ _ _
    by_cases hcontrol : c.toNat < 0x20
    · rw [if_pos hcontrol, encode_hexEscape hcontrol]
      exact .hex (hexNumber?_hexEscape c.toNat hcontrol)
    · rw [if_neg hcontrol, Utf8.encode, List.flatMap_cons, List.flatMap_nil, List.append_nil]
      exact .plain hquote hbackslash (by omega)

theorem spellsChars_escaped (cs : List Char) : SpellsChars cs (Utf8.encode (cs.flatMap escapedChar)) := by
  induction cs with
  | nil => exact .nil
  | cons c cs ih =>
      rw [List.flatMap_cons, encode_append]
      exact .cons (spellsChar_escapedChar c) ih

theorem spells_string (s : String) : Leaves.exact.string s (Utf8.encode (string s)) := by
  refine ⟨_, spellsChars_escaped s.toList, ?_⟩
  rw [string, inQuotes, ← List.singleton_append, encode_append, encode_append]
  rfl

theorem spells_bool (b : Bool) : Spells .exact (.value (.bool b)) (Utf8.encode (bool b)) := by
  cases b with
  | false => exact .bool false
  | true => exact .bool true

section Items

variable {β : Type} {value : β → Json} {text : β → List Char}

theorem spells_moreItems {bs : List β} (h : ∀ b ∈ bs, Spells .exact (.value (value b)) (Utf8.encode (text b))) :
    Spells .exact (.moreItems (bs.map value)) (Utf8.encode ((bs.map text).flatMap ([','] ++ ·))) := by
  induction bs with
  | nil => exact .endItems blanks_nil
  | cons b bs ih =>
      have hrest := ih fun b hb => h b (List.mem_cons_of_mem _ hb)
      rw [List.map_cons, List.map_cons, List.flatMap_cons, encode_append, encode_append, List.append_assoc]
      exact .moreItems blanks_nil blanks_nil (h b List.mem_cons_self) hrest

theorem spells_list {bs : List β} (h : ∀ b ∈ bs, Spells .exact (.value (value b)) (Utf8.encode (text b))) :
    Spells .exact (.value (.list (bs.map value))) (Utf8.encode (list (bs.map text))) := by
  have hitems : Spells .exact (.items (bs.map value)) (Utf8.encode (joined [','] (bs.map text))) := by
    cases bs with
    | nil => exact .noItems blanks_nil
    | cons b bs =>
        have hrest := spells_moreItems fun b hb => h b (List.mem_cons_of_mem _ hb)
        rw [List.map_cons, List.map_cons, joined_cons, encode_append]
        exact .items blanks_nil (h b List.mem_cons_self) hrest
  have hlist := hitems.list
  rw [list, ← List.singleton_append, encode_append, encode_append]
  exact hlist

end Items

section Members

/-! Members of an object, each with a value and the text of it. -/

variable {ms : List (String × Json × List Char)}

/-- A key, a colon and a value. -/
def member (m : String × List Char) : List Char := string m.1 ++ ':' :: m.2

theorem encode_member (m : String × List Char) :
    Utf8.encode (member m) = Utf8.encode (string m.1) ++ Octet.colon :: Utf8.encode m.2 := by
  rw [member, encode_append]
  rfl

theorem spells_moreMembers (h : ∀ m ∈ ms, Spells .exact (.value m.2.1) (Utf8.encode m.2.2)) :
    Spells .exact (.moreMembers (ms.map fun m => (m.1, m.2.1)))
      (Utf8.encode ((ms.map fun m => member (m.1, m.2.2)).flatMap ([','] ++ ·))) := by
  induction ms with
  | nil => exact .endMembers blanks_nil
  | cons m ms ih =>
      have hrest := ih fun m hm => h m (List.mem_cons_of_mem _ hm)
      rw [List.map_cons, List.map_cons, List.flatMap_cons, encode_append, encode_append, encode_member,
        List.append_assoc, List.append_assoc]
      exact .moreMembers blanks_nil blanks_nil (spells_string m.1) blanks_nil blanks_nil
        (h m List.mem_cons_self) hrest

theorem spells_object (h : ∀ m ∈ ms, Spells .exact (.value m.2.1) (Utf8.encode m.2.2)) :
    Spells .exact (.value (.object (ms.map fun m => (m.1, m.2.1))))
      (Utf8.encode (object (ms.map fun m => (m.1, m.2.2)))) := by
  have hmembers : Spells .exact (.members (ms.map fun m => (m.1, m.2.1)))
      (Utf8.encode (joined [','] (ms.map fun m => member (m.1, m.2.2)))) := by
    cases ms with
    | nil => exact .noMembers blanks_nil
    | cons m ms =>
        have hrest := spells_moreMembers fun m hm => h m (List.mem_cons_of_mem _ hm)
        rw [List.map_cons, List.map_cons, joined_cons, encode_append, encode_member, List.append_assoc]
        exact .members blanks_nil (spells_string m.1) blanks_nil blanks_nil (h m List.mem_cons_self) hrest
  have hobject := hmembers.object
  rw [object, List.map_map, ← List.singleton_append, encode_append, encode_append]
  exact hobject

end Members

/-- A written text with nothing around it is a document. -/
theorem spelledBy {j : Json} {octets : List UInt8} (h : Spells .exact (.value j) octets) :
    j.SpelledBy octets :=
  ⟨[], octets, [], blanks_nil, h, blanks_nil, (List.append_nil octets).symm⟩

end Json.Written

end BlockModel
