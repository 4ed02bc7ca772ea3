import BlockModel.Proofs.Scan.Taken
import BlockModel.Proofs.Scan.Token

/-! A string that was read is a string that stands there. The reader gathers octets and asks only at the closing
quote whether they are characters, so the text is first taken apart into plain octets and escapes; that no
octet of an escape goes on with a character then shows which of the plain ones belong together. -/

namespace BlockModel.Scan

variable {supply : Supply} {c c' : Cursor}

theorem ok_inString {b : UInt8} (h : inString.run supply c = (.ok b, c')) :
    c.rest = b :: c'.rest ∧ c'.looked = false := by
  obtain ⟨b?, d, hnext, h⟩ := ok_bind h
  cases b? with
  | none => exact absurd h not_ok_refuse
  | some b' =>
      obtain ⟨rfl, rfl⟩ := ok_pure h
      exact ok_next_some hnext

theorem ok_fourHex {n : Nat} (h : fourHex.run supply c = (.ok n, c')) :
    ∃ digits, hexNumber? digits = some n ∧ c.rest = digits ++ c'.rest := by
  obtain ⟨b0, c0, h0, h⟩ := ok_bind h
  obtain ⟨b1, c1, h1, h⟩ := ok_bind h
  obtain ⟨b2, c2, h2, h⟩ := ok_bind h
  obtain ⟨b3, c3, h3, h⟩ := ok_bind h
  split at h
  · rename_i ha hb hc hd
    obtain ⟨rfl, rfl⟩ := ok_pure h
    refine ⟨[b0, b1, b2, b3], ?_, ?_⟩
    · simp only [hexNumber?, ha, hb, hc, hd]
      rfl
    · rw [(ok_inString h0).1, (ok_inString h1).1, (ok_inString h2).1, (ok_inString h3).1]
      rfl
  · exact absurd h not_ok_refuse

theorem ok_surrogateMark {b : UInt8} {u : Unit} (h : (surrogateMark b).run supply c = (.ok u, c')) :
    c.rest = b :: c'.rest := by
  obtain ⟨b', d, hb', h⟩ := ok_bind h
  split at h
  · rename_i hb
    obtain ⟨-, rfl⟩ := ok_pure h
    rw [(ok_inString hb').1, hb]
  · exact absurd h not_ok_refuse

theorem exists_of_hexNumber? {digits : List UInt8} {n : Nat} (h : hexNumber? digits = some n) :
    ∃ b0 b1 b2 b3 n0 n1 n2 n3, digits = [b0, b1, b2, b3] ∧ Octet.hex? b0 = some n0 ∧ Octet.hex? b1 = some n1 ∧
      Octet.hex? b2 = some n2 ∧ Octet.hex? b3 = some n3 ∧ n = ((n0 * 16 + n1) * 16 + n2) * 16 + n3 := by
  match digits, h with
  | [b0, b1, b2, b3], h =>
    simp only [hexNumber?, Option.bind_eq_bind, Option.bind_eq_some_iff] at h
    obtain ⟨n0, h0, n1, h1, n2, h2, n3, h3, hvalue⟩ := h
    exact ⟨b0, b1, b2, b3, n0, n1, n2, n3, rfl, h0, h1, h2, h3, (Option.some.inj hvalue).symm⟩

theorem hex?_lt {b : UInt8} {n : Nat} (h : Octet.hex? b = some n) : n < 16 := by
  have hall : ∀ m < 256, ∀ n ∈ Octet.hex? (.ofNat m), n < 16 := by decide +kernel
  have hb := hall b.toNat b.toNat_lt n
  rw [UInt8.ofNat_toNat] at hb
  exact hb h

theorem hexNumber?_lt {digits : List UInt8} {n : Nat} (h : hexNumber? digits = some n) : n < 0x10000 := by
  obtain ⟨b0, b1, b2, b3, n0, n1, n2, n3, -, h0, h1, h2, h3, rfl⟩ := exists_of_hexNumber? h
  have := hex?_lt h0
  have := hex?_lt h1
  have := hex?_lt h2
  have := hex?_lt h3
  omega

/-- The code point of an escape is that of a character, which the escape spells. -/
theorem ok_codePoint {n : Nat} (h : codePoint.run supply c = (.ok n, c')) :
    ∃ ch body, ch.toNat = n ∧ c.rest = body ++ c'.rest ∧
      SpellsChar ch (Octet.backslash :: Octet.ofChar 'u' :: body) := by
  obtain ⟨m, d, hhex, h⟩ := ok_bind h
  obtain ⟨digits, hdigits, hrest⟩ := ok_fourHex hhex
  have hlt := hexNumber?_lt hdigits
  split at h
  · exact absurd h not_ok_refuse
  · rename_i htrailing
    split at h
    · rename_i hleading
      obtain ⟨u1, d1, hmark1, h⟩ := ok_bind h
      obtain ⟨u2, d2, hmark2, h⟩ := ok_bind h
      obtain ⟨m', d3, hhex', h⟩ := ok_bind h
      obtain ⟨digits', hdigits', hrest'⟩ := ok_fourHex hhex'
      split at h
      · rename_i htrailing'
        obtain ⟨hn, rfl⟩ := ok_pure h
        have hchar : (Char.ofNat n).toNat = n := Text.Utf8.toNat_ofNat (by
          simp only [isLeading, isTrailing, Bool.and_eq_true, decide_eq_true_eq] at hleading htrailing'
          omega)
        refine ⟨_, digits ++ unicodeEscape digits', hchar, ?_,
          .pair hdigits hdigits' hleading htrailing' (hchar.trans hn)⟩
        rw [hrest, ok_surrogateMark hmark1, ok_surrogateMark hmark2, hrest', unicodeEscape, List.append_assoc]
        rfl
      · exact absurd h not_ok_refuse
    · rename_i hleading
      obtain ⟨rfl, rfl⟩ := ok_pure h
      have hchar := Text.Utf8.toNat_ofNat (n := n) (by
        simp only [isLeading, isTrailing, Bool.and_eq_true, decide_eq_true_eq] at hleading htrailing
        omega)
      exact ⟨_, digits, hchar, hrest, .hex (by rw [hchar]; exact hdigits)⟩

/-- The letters that stand for an octet are those that may follow a backslash. -/
theorem mem_shortEscapes {b octet : UInt8} (h : escaped? b = some octet) :
    ∃ m ∈ shortEscapes, Octet.ofChar m.1 = b ∧ Text.Utf8.encodeScalar m.2.toNat = [octet] := by
  -- One case for each `if`; the first is of the three characters that stand for themselves.
  rw [escaped?] at h
  split at h
  · rename_i hself
    obtain rfl := Option.some.inj h
    simp only [Bool.or_eq_true, decide_eq_true_eq] at hself
    obtain (rfl | rfl) | rfl := hself
    · exact ⟨('"', '"'), by decide, rfl, rfl⟩
    · exact ⟨('\\', '\\'), by decide, rfl, rfl⟩
    · exact ⟨('/', '/'), by decide, rfl, rfl⟩
  split at h
  · exact ⟨('b', '\x08'), by decide, Eq.symm ‹_›, congrArg ([·]) (Option.some.inj h)⟩
  split at h
  · exact ⟨('f', '\x0c'), by decide, Eq.symm ‹_›, congrArg ([·]) (Option.some.inj h)⟩
  split at h
  · exact ⟨('n', '\n'), by decide, Eq.symm ‹_›, congrArg ([·]) (Option.some.inj h)⟩
  split at h
  · exact ⟨('r', '\r'), by decide, Eq.symm ‹_›, congrArg ([·]) (Option.some.inj h)⟩
  split at h
  · exact ⟨('t', '\t'), by decide, Eq.symm ‹_›, congrArg ([·]) (Option.some.inj h)⟩
  · cases h

/-- An escape gives the octets of a character that it spells. -/
theorem ok_escape {octets : List UInt8} (h : escape.run supply c = (.ok octets, c')) :
    ∃ ch r, octets = Text.Utf8.encodeScalar ch.toNat ∧ c.rest = r ++ c'.rest ∧
      SpellsChar ch (Octet.backslash :: r) := by
  obtain ⟨b, d, hb, h⟩ := ok_bind h
  split at h
  · rename_i hu
    obtain ⟨n, d', hpoint, h⟩ := ok_bind h
    obtain ⟨rfl, rfl⟩ := ok_pure h
    obtain ⟨ch, body, rfl, hrest, hspells⟩ := ok_codePoint hpoint
    refine ⟨ch, Octet.ofChar 'u' :: body, rfl, ?_, hspells⟩
    rw [(ok_inString hb).1, hrest, hu, List.cons_append]
  · split at h
    · rename_i octet hescaped
      obtain ⟨rfl, rfl⟩ := ok_pure h
      obtain ⟨m, hmem, rfl, hoctet⟩ := mem_shortEscapes hescaped
      exact ⟨m.2, [_], hoctet.symm, (ok_inString hb).1, .short hmem⟩
    · exact absurd h not_ok_refuse

/-- No octet goes on with a character that an escape spells, so these octets are plain. -/
theorem StandsFor.tails {more body octets : List UInt8} (hmore : ∀ b ∈ more, Text.Utf8.isTail b = true)
    (h : StandsFor body (more ++ octets)) : ∃ body', body = more ++ body' ∧ StandsFor body' octets := by
  induction more generalizing body with
  | nil => exact ⟨body, rfl, h⟩
  | cons b more ih =>
      have hb := hmore b (by simp)
      generalize hall : b :: more ++ octets = all at h
      cases h with
      | nil => cases hall
      | plain _ h =>
          obtain ⟨rfl, rfl⟩ := List.cons.inj hall
          obtain ⟨body', rfl, hbody'⟩ := ih (fun b hb => hmore b (by simp [hb])) h
          exact ⟨body', rfl, hbody'⟩
      | @escape ch s body octets' _ _ =>
          obtain ⟨b', more', hoctets, hborder, -⟩ := Text.Utf8.encodeScalar_eq_cons ch
          rw [hoctets] at hall
          obtain ⟨rfl, -⟩ := List.cons.inj hall
          rw [hb] at hborder
          cases hborder

theorem ne_lineFeed_of_isPlain {b : UInt8} (h : Octet.isPlain b = true) : b ≠ 0x0A := by
  rintro rfl
  exact absurd h (by decide)

theorem ne_lineFeed_of_hexNumber? {digits : List UInt8} {n : Nat} (h : hexNumber? digits = some n) :
    ∀ b ∈ digits, b ≠ 0x0A := by
  have hhex : ∀ {b : UInt8} {m : Nat}, Octet.hex? b = some m → b ≠ 0x0A := by
    rintro b m hb rfl
    cases hb
  obtain ⟨b0, b1, b2, b3, n0, n1, n2, n3, rfl, h0, h1, h2, h3, -⟩ := exists_of_hexNumber? h
  simp only [List.forall_mem_cons]
  exact ⟨hhex h0, hhex h1, hhex h2, hhex h3, List.forall_mem_nil _⟩

theorem ne_lineFeed_of_unicodeEscape {digits : List UInt8} {n : Nat} (h : hexNumber? digits = some n) :
    ∀ b ∈ unicodeEscape digits, b ≠ 0x0A :=
  List.forall_mem_cons.2 ⟨by decide, List.forall_mem_cons.2 ⟨by decide, ne_lineFeed_of_hexNumber? h⟩⟩

/-- No character is written with a line feed inside a string. -/
theorem ne_lineFeed_of_spellsChar {ch : Char} {s : List UInt8} (h : SpellsChar ch s) : ∀ b ∈ s, b ≠ 0x0A := by
  have hshort : ∀ m ∈ shortEscapes, Octet.ofChar m.1 ≠ 0x0A := by decide
  cases h with
  | plain hquote hbackslash hcontrol =>
      exact fun b hb => ne_lineFeed_of_isPlain (Text.Utf8.isPlain_encodeScalar hquote hbackslash hcontrol b hb)
  | short hmem => exact List.forall_mem_cons.2 ⟨by decide, List.forall_mem_singleton.2 (hshort _ hmem)⟩
  | hex hvalue => exact ne_lineFeed_of_unicodeEscape hvalue
  | pair hm hn _ _ _ =>
      exact List.forall_mem_append.2 ⟨ne_lineFeed_of_unicodeEscape hm, ne_lineFeed_of_unicodeEscape hn⟩

/-- To write a character takes at least as many octets as it has. -/
theorem length_encodeScalar_le_of_spellsChar {ch : Char} {s : List UInt8} (h : SpellsChar ch s) :
    (Text.Utf8.encodeScalar ch.toNat).length ≤ s.length := by
  have hshort : ∀ m ∈ shortEscapes, (Text.Utf8.encodeScalar m.2.toNat).length ≤ 2 := by decide
  have hescape : ∀ {digits : List UInt8} {n : Nat}, hexNumber? digits = some n →
      4 ≤ (unicodeEscape digits).length := by
    intro digits n hn
    obtain ⟨b0, b1, b2, b3, -, -, -, -, rfl, -⟩ := exists_of_hexNumber? hn
    simp [unicodeEscape]
  have hle := Text.Utf8.length_encodeScalar_le ch.toNat
  cases h with
  | plain _ _ _ => exact Nat.le_refl _
  | short hmem => exact hshort _ hmem
  | hex hvalue => exact Nat.le_trans hle (hescape hvalue)
  | pair hm _ _ _ _ =>
      rw [List.length_append]
      exact Nat.le_trans (Nat.le_trans hle (hescape hm)) (Nat.le_add_right _ _)

theorem StandsFor.ne_lineFeed {body octets : List UInt8} (h : StandsFor body octets) : ∀ b ∈ body, b ≠ 0x0A := by
  induction h with
  | nil => exact List.forall_mem_nil _
  | plain hb _ ih => exact List.forall_mem_cons.2 ⟨ne_lineFeed_of_isPlain hb, ih⟩
  | escape hs _ ih =>
      rw [← List.cons_append]
      exact List.forall_mem_append.2 ⟨ne_lineFeed_of_spellsChar hs, ih⟩

theorem StandsFor.length_le {body octets : List UInt8} (h : StandsFor body octets) :
    octets.length ≤ body.length := by
  induction h with
  | nil => exact Nat.le_refl _
  | plain _ _ ih => exact Nat.succ_le_succ ih
  | escape hs _ ih =>
      rw [← List.cons_append, List.length_append, List.length_append]
      exact Nat.add_le_add (length_encodeScalar_le_of_spellsChar hs) ih

theorem spellsChar_of_isPlain {ch : Char} {b : UInt8} {more : List UInt8}
    (hoctets : Text.Utf8.encodeScalar ch.toNat = b :: more) (hb : Octet.isPlain b = true) :
    SpellsChar ch (b :: more) := by
  have hone : ch.toNat < 0x80 → b.toNat = ch.toNat := by
    intro h
    rw [Text.Utf8.encodeScalar_one h] at hoctets
    rw [← (List.cons.inj hoctets).1, Text.Utf8.toNat_ofNat_of_lt (by omega)]
  rw [Text.Utf8.isPlain_iff] at hb
  rw [← hoctets]
  refine .plain ?_ ?_ ?_
  · rintro rfl
    exact hb.1 (hone (by decide))
  · rintro rfl
    exact hb.2.1 (hone (by decide))
  · by_cases hlt : ch.toNat < 0x80
    · rw [← hone hlt]
      exact hb.2.2
    · omega

/-- Octets that decode to characters are spelled, character by character. -/
theorem StandsFor.spellsChars {body octets : List UInt8} {chars : List Char} (h : StandsFor body octets)
    (hdecode : Text.Utf8.decode octets = (chars, [])) : SpellsChars chars body := by
  induction chars generalizing body octets with
  | nil =>
      obtain rfl := Text.Utf8.decode_eq_nil hdecode
      generalize hnil : ([] : List UInt8) = octets at h
      cases h with
      | nil => exact .nil
      | plain _ _ => cases hnil
      | @escape ch _ _ _ _ _ =>
          obtain ⟨b, more, hoctets, -⟩ := Text.Utf8.encodeScalar_eq_cons ch
          rw [hoctets] at hnil
          cases hnil
  | cons ch chars ih =>
      obtain ⟨rest, rfl, hrest⟩ := Text.Utf8.decode_eq_cons hdecode
      obtain ⟨b, more, hoctets, -, htails⟩ := Text.Utf8.encodeScalar_eq_cons ch
      generalize hall : Text.Utf8.encodeScalar ch.toNat ++ rest = all at h
      cases h with
      | nil =>
          rw [hoctets] at hall
          cases hall
      | plain hb h =>
          rw [hoctets] at hall
          obtain ⟨rfl, rfl⟩ := List.cons.inj hall
          obtain ⟨body', rfl, hbody'⟩ := h.tails htails
          exact .cons (spellsChar_of_isPlain hoctets hb) (ih hbody' hrest)
      | @escape ch' s body octets hs h =>
          have hboth := Text.Utf8.decode_encodeScalar ch rest
          rw [hall, Text.Utf8.decode_encodeScalar ch' octets] at hboth
          obtain rfl : ch' = ch := (List.cons.inj (Prod.mk.inj hboth).1).1
          obtain rfl := List.append_cancel_left hall
          exact .cons (s := Octet.backslash :: s) hs (ih h hrest)

/-- The octets read so far, the latest first, and those of the rest of the string up to its quote. -/
theorem ok_stringLoop {sofar octets : List UInt8} (h : (loop sofar stringRound).run supply c = (.ok octets, c')) :
    ∃ body more, octets = sofar.reverse ++ more ∧ StandsFor body more ∧
      c.rest = body ++ Octet.quote :: c'.rest ∧ c'.looked = false := by
  refine ok_loop (P := fun sofar c octets c' => ∃ body more, octets = sofar.reverse ++ more ∧
    StandsFor body more ∧ c.rest = body ++ Octet.quote :: c'.rest ∧ c'.looked = false) ?_ ?_ h
  · intro sofar c octets c' h
    obtain ⟨run, d, htake, h⟩ := ok_bind h
    obtain ⟨b, d', hb, h⟩ := ok_bind h
    obtain ⟨hrest, hrun, -⟩ := ok_takeWhile htake
    obtain ⟨hrest', hlooked⟩ := ok_inString hb
    split at h
    · rename_i hquote
      obtain ⟨hoctets, rfl⟩ := ok_pure h
      obtain rfl := Sum.inr.inj hoctets
      have hbody : StandsFor (run ++ []) (run ++ []) := StandsFor.append_plain hrun .nil
      rw [List.append_nil] at hbody
      refine ⟨run, run, ?_, hbody, ?_, hlooked⟩
      · rw [List.reverse_append, List.reverse_reverse]
      · rw [hrest, hrest', hquote]
    · split at h
      · obtain ⟨octets', d'', -, h⟩ := ok_bind h
        obtain ⟨hinl, -⟩ := ok_pure h
        cases hinl
      · exact absurd h not_ok_refuse
  · rintro sofar c sofar' d octets c' h ⟨body, more, rfl, hbody, hrest, hlooked⟩
    obtain ⟨run, d0, htake, h⟩ := ok_bind h
    obtain ⟨b, d1, hb, h⟩ := ok_bind h
    obtain ⟨hrest0, hrun, -⟩ := ok_takeWhile htake
    split at h
    · obtain ⟨hinr, -⟩ := ok_pure h
      cases hinr
    · split at h
      · rename_i hbackslash
        obtain ⟨octets', d2, hescape, h⟩ := ok_bind h
        obtain ⟨hsofar, rfl⟩ := ok_pure h
        obtain rfl := Sum.inl.inj hsofar
        obtain ⟨ch, r, rfl, hrest2, hspells⟩ := ok_escape hescape
        refine ⟨run ++ Octet.backslash :: (r ++ body), run ++ (Text.Utf8.encodeScalar ch.toNat ++ more), ?_,
          .append_plain hrun (.escape hspells hbody), ?_, hlooked⟩
        · simp only [List.reverse_append, List.reverse_reverse, List.append_assoc]
        · rw [hrest0, (ok_inString hb).1, hrest2, hrest, hbackslash]
          simp only [List.append_assoc, List.cons_append]
      · exact absurd h not_ok_refuse

theorem ok_textOf {octets : List UInt8} {str : String} (h : (textOf octets).run supply c = (.ok str, c')) :
    Text.Utf8.decode octets = (str.toList, []) ∧ c' = c := by
  rw [textOf] at h
  rcases hdecode : Text.Utf8.decode octets with ⟨chars, left⟩
  rw [hdecode] at h
  cases left with
  | nil =>
      obtain ⟨rfl, rfl⟩ := ok_pure h
      exact ⟨by rw [String.toList_ofList], rfl⟩
  | cons b left => exact absurd h not_ok_refuse

/-- A string that was read stands there, whatever its first octet was taken for. -/
theorem ok_quoted {str : String} (h : quoted.run supply c = (.ok str, c')) :
    ∃ body, SpellsChars str.toList body ∧ c.rest.tail = body ++ Octet.quote :: c'.rest := by
  obtain ⟨u, d, hskip, h⟩ := ok_bind h
  obtain ⟨octets, d', hloop, h⟩ := ok_bind h
  obtain ⟨body, more, hoctets, hbody, hrest, -⟩ := ok_stringLoop hloop
  obtain ⟨hdecode, rfl⟩ := ok_textOf h
  rw [List.reverse_nil, List.nil_append] at hoctets
  subst hoctets
  exact ⟨body, hbody.spellsChars hdecode, by rw [← ok_skip hskip, hrest]⟩

/-- A string whose opening quote was looked at. -/
theorem ok_quoted_of_quote {str : String} (h : quoted.run supply c = (.ok str, c'))
    (hquote : c.rest.head? = some Octet.quote) :
    ∃ s, Leaves.exact.string str s ∧ c.rest = s ++ c'.rest := by
  obtain ⟨body, hbody, hrest⟩ := ok_quoted h
  obtain ⟨r, hr⟩ := List.head?_eq_some_iff.1 hquote
  refine ⟨inQuotes body, ⟨body, hbody, rfl⟩, ?_⟩
  rw [hr, List.tail_cons] at hrest
  rw [hr, hrest, inQuotes, List.cons_append, List.append_assoc, List.singleton_append]

end BlockModel.Scan
