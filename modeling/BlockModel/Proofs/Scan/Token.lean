import BlockModel.Proofs.Json.Spelling
import BlockModel.Proofs.Scan.Gives
import BlockModel.Proofs.Text.Utf8

/-! The smallest pieces of JSON are read as they are spelled: blanks, words, and strings with all their
escapes. A string is read in stretches of plain octets, which have no regard for where a character
ends; that its octets make up the characters again is a fact about UTF-8 and comes last. -/

namespace BlockModel.Scan

variable {t : List UInt8} {l : List LogLine}

theorem gives_peekPastBlanks {w : List UInt8} (hw : Blanks w) {b : UInt8} (hb : Octet.isBlank b = false) :
    Gives peekPastBlanks ⟨w ++ b :: t, l⟩ (.ok (some b)) ⟨b :: t, l⟩ := by
  have hblanks : Gives blanks ⟨w ++ b :: t, l⟩ (.ok ()) ⟨b :: t, l⟩ := by
    refine (Gives.takeWhile hw ?_).bind_ok (.pure () _)
    intro b' hb'
    obtain rfl := Option.some.inj hb'
    exact hb
  exact hblanks.bind_ok (.peek b t)

theorem gives_peekPastBlanks_nil {w : List UInt8} (hw : Blanks w) :
    Gives peekPastBlanks ⟨w, l⟩ (.ok none) ⟨[], l⟩ := by
  have htake := Gives.takeWhile (l := l) hw (t := []) fun b hb => absurd hb (Option.not_mem_none b)
  rw [List.append_nil] at htake
  have hblanks : Gives blanks ⟨w, l⟩ (.ok ()) ⟨[], l⟩ := htake.bind_ok (.pure () _)
  exact hblanks.bind_ok .peek_nil

theorem gives_valueStart {w : List UInt8} (hw : Blanks w) {b : UInt8} (hb : Octet.isBlank b = false) :
    Gives valueStart ⟨w ++ b :: t, l⟩ (.ok b) ⟨b :: t, l⟩ :=
  (gives_peekPastBlanks hw hb).bind_ok (.pure b _)

theorem gives_word (letters : List UInt8) : Gives (word letters) ⟨letters ++ t, l⟩ (.ok ()) ⟨t, l⟩ := by
  induction letters with
  | nil => exact .pure () _
  | cons letter rest ih =>
      refine (Gives.next letter (rest ++ t)).bind_ok ?_
      simp only [if_true]
      exact ih

theorem gives_nullWord : Gives nullWord ⟨wordOctets "null" ++ t, l⟩ (.ok ()) ⟨t, l⟩ :=
  (Gives.skip _ _).bind_ok (gives_word _)

theorem gives_boolWord (b : Bool) :
    Gives (boolWord b) ⟨wordOctets (if b then "true" else "false") ++ t, l⟩ (.ok ()) ⟨t, l⟩ := by
  cases b with
  | false => exact (Gives.skip _ _).bind_ok (gives_word ("alse".toList.map Octet.ofChar))
  | true => exact (Gives.skip _ _).bind_ok (gives_word ("rue".toList.map Octet.ofChar))

theorem gives_inString (b : UInt8) : Gives inString ⟨b :: t, l⟩ (.ok b) ⟨t, l⟩ :=
  (Gives.next b t).bind_ok (.pure b _)

theorem gives_fourHex {digits : List UInt8} {n : Nat} (hn : hexNumber? digits = some n) :
    Gives fourHex ⟨digits ++ t, l⟩ (.ok n) ⟨t, l⟩ := by
  match digits, hn with
  | [a, b, c, d], hn =>
    simp only [hexNumber?, Option.bind_eq_bind, Option.bind_eq_some_iff] at hn
    obtain ⟨a', ha, b', hb, c', hc, d', hd, hvalue⟩ := hn
    obtain rfl := Option.some.inj hvalue
    refine (gives_inString a).bind_ok ((gives_inString b).bind_ok ((gives_inString c).bind_ok
      ((gives_inString d).bind_ok ?_)))
    simp only [ha, hb, hc, hd]
    exact .pure _ _

theorem gives_surrogateMark (b : UInt8) : Gives (surrogateMark b) ⟨b :: t, l⟩ (.ok ()) ⟨t, l⟩ := by
  refine (gives_inString b).bind_ok ?_
  simp only [if_true]
  exact .pure () _

theorem not_isTrailing_of_isLeading {n : Nat} (h : isLeading n = true) : isTrailing n = false := by
  simp only [isLeading, isTrailing, Bool.and_eq_true, decide_eq_true_eq, Bool.and_eq_false_iff,
    decide_eq_false_iff_not] at h ⊢
  omega

/-- A character is no half of a surrogate pair. -/
theorem not_surrogate (c : Char) : isLeading c.toNat = false ∧ isTrailing c.toNat = false := by
  have hvalid := Text.Utf8.toNat_valid c
  simp only [isLeading, isTrailing, Bool.and_eq_false_iff, decide_eq_false_iff_not]
  omega

/-- After the backslash, every way to escape a character gives its octets. -/
theorem gives_escape_short {letter c : Char} (hmem : (letter, c) ∈ shortEscapes) :
    Gives escape ⟨Octet.ofChar letter :: t, l⟩ (.ok (Text.Utf8.encodeScalar c.toNat)) ⟨t, l⟩ := by
  have hletter : Octet.ofChar letter ≠ Octet.ofChar 'u' ∧
      escaped? (Octet.ofChar letter) = some (.ofNat c.toNat) ∧
        Text.Utf8.encodeScalar c.toNat = [.ofNat c.toNat] := by
    simp only [shortEscapes, List.mem_cons, Prod.mk.injEq, List.not_mem_nil, or_false] at hmem
    rcases hmem with ⟨rfl, rfl⟩ | ⟨rfl, rfl⟩ | ⟨rfl, rfl⟩ | ⟨rfl, rfl⟩ | ⟨rfl, rfl⟩ | ⟨rfl, rfl⟩ | ⟨rfl, rfl⟩ |
      ⟨rfl, rfl⟩ <;> decide
  obtain ⟨hu, hescaped, hoctets⟩ := hletter
  refine (gives_inString _).bind_ok ?_
  rw [if_neg hu, hoctets]
  simp only [hescaped]
  exact .pure _ _

theorem gives_escape_hex {c : Char} {digits : List UInt8} (hvalue : hexNumber? digits = some c.toNat) :
    Gives escape ⟨Octet.ofChar 'u' :: (digits ++ t), l⟩ (.ok (Text.Utf8.encodeScalar c.toNat)) ⟨t, l⟩ := by
  obtain ⟨hleading, htrailing⟩ := not_surrogate c
  have hpoint : Gives codePoint ⟨digits ++ t, l⟩ (.ok c.toNat) ⟨t, l⟩ := by
    refine (gives_fourHex hvalue).bind_ok ?_
    simp only [hleading, htrailing, Bool.false_eq_true, if_false]
    exact .pure _ _
  refine (gives_inString _).bind_ok ?_
  rw [if_pos rfl]
  exact hpoint.bind_ok (.pure _ _)

theorem gives_escape_pair {c : Char} {leading trailing : List UInt8} {m n : Nat}
    (hm : hexNumber? leading = some m) (hn : hexNumber? trailing = some n) (hleading : isLeading m = true)
    (htrailing : isTrailing n = true)
    (hvalue : c.toNat = 0x10000 + (m - 0xD800) * 0x400 + (n - 0xDC00)) :
    Gives escape ⟨Octet.ofChar 'u' :: (leading ++ (unicodeEscape trailing ++ t)), l⟩
      (.ok (Text.Utf8.encodeScalar c.toNat)) ⟨t, l⟩ := by
  have hpoint : Gives codePoint ⟨leading ++ (unicodeEscape trailing ++ t), l⟩ (.ok c.toNat) ⟨t, l⟩ := by
    refine (gives_fourHex hm).bind_ok ?_
    simp only [not_isTrailing_of_isLeading hleading, hleading, Bool.false_eq_true, if_false, if_true]
    refine (gives_surrogateMark _).bind_ok ((gives_surrogateMark _).bind_ok ((gives_fourHex hn).bind_ok ?_))
    simp only [htrailing, if_true]
    rw [hvalue]
    exact .pure _ _
  refine (gives_inString _).bind_ok ?_
  rw [if_pos rfl]
  exact hpoint.bind_ok (.pure _ _)

/-- What is left of an escape after its backslash gives the octets of the character that it spells. -/
theorem gives_escape {ch : Char} {s : List UInt8} (hs : SpellsChar ch (Octet.backslash :: s)) :
    Gives escape ⟨s ++ t, l⟩ (.ok (Text.Utf8.encodeScalar ch.toNat)) ⟨t, l⟩ := by
  generalize hall : Octet.backslash :: s = all at hs
  cases hs with
  | plain hquote hbackslash hcontrol =>
      have hplain := Text.Utf8.isPlain_encodeScalar hquote hbackslash hcontrol Octet.backslash
        (by rw [← hall]; exact List.mem_cons_self)
      exact absurd hplain (by decide)
  | short hmem =>
      obtain ⟨-, rfl⟩ := List.cons.inj hall
      exact gives_escape_short hmem
  | hex hvalue =>
      obtain ⟨-, rfl⟩ := List.cons.inj hall
      exact gives_escape_hex hvalue
  | pair hm hn hleading htrailing hvalue =>
      obtain ⟨-, rfl⟩ := List.cons.inj hall
      have hescape := gives_escape_pair (t := t) (l := l) hm hn hleading htrailing hvalue
      rwa [← List.append_assoc] at hescape

/-- The octets that the inside of a string stands for: a plain octet for itself, and an escape for those of
the character that it spells. -/
inductive StandsFor : List UInt8 → List UInt8 → Prop where
  | nil : StandsFor [] []
  | plain {b : UInt8} {body octets : List UInt8} (hb : Octet.isPlain b = true) (h : StandsFor body octets) :
      StandsFor (b :: body) (b :: octets)
  | escape {ch : Char} {s body octets : List UInt8} (hs : SpellsChar ch (Octet.backslash :: s))
      (h : StandsFor body octets) :
      StandsFor (Octet.backslash :: (s ++ body)) (Text.Utf8.encodeScalar ch.toNat ++ octets)

theorem StandsFor.append_plain {run body octets : List UInt8} (hrun : ∀ b ∈ run, Octet.isPlain b = true)
    (h : StandsFor body octets) : StandsFor (run ++ body) (run ++ octets) := by
  induction run with
  | nil => exact h
  | cons b run ih => exact .plain (hrun b (by simp)) (ih fun b hb => hrun b (by simp [hb]))

theorem standsFor_of_spellsChars {cs : List Char} {body : List UInt8} (h : SpellsChars cs body) :
    StandsFor body (Text.Utf8.encode cs) := by
  induction h with
  | nil => exact .nil
  | @cons c cs s r hc _ ih =>
      have hencode : Text.Utf8.encode (c :: cs) = Text.Utf8.encodeScalar c.toNat ++ Text.Utf8.encode cs :=
        List.flatMap_cons
      rw [hencode]
      cases hc with
      | plain hquote hbackslash hcontrol =>
          exact ih.append_plain (Text.Utf8.isPlain_encodeScalar hquote hbackslash hcontrol)
      | short hmem => exact .escape (.short hmem) ih
      | hex hvalue => exact .escape (.hex hvalue) ih
      | pair hm hn hleading htrailing hvalue => exact .escape (.pair hm hn hleading htrailing hvalue) ih

/-- Plain octets and then the closing quote. -/
theorem gives_stringRound_quote {run : List UInt8} (hrun : ∀ b ∈ run, Octet.isPlain b = true)
    (sofar : List UInt8) :
    Gives (stringRound sofar) ⟨run ++ Octet.quote :: t, l⟩ (.ok (.inr (run.reverse ++ sofar).reverse)) ⟨t, l⟩ := by
  refine (Gives.takeWhile hrun ?_).bind_ok ((gives_inString _).bind_ok ?_)
  · intro b hb
    obtain rfl := Option.some.inj hb
    decide
  · rw [if_pos rfl]
    exact .pure _ _

/-- Plain octets and then an escape. -/
theorem gives_stringRound_escape {run : List UInt8} (hrun : ∀ b ∈ run, Octet.isPlain b = true)
    {r octets : List UInt8} (hescape : Gives escape ⟨r, l⟩ (.ok octets) ⟨t, l⟩) (sofar : List UInt8) :
    Gives (stringRound sofar) ⟨run ++ Octet.backslash :: r, l⟩
      (.ok (.inl (octets.reverse ++ (run.reverse ++ sofar)))) ⟨t, l⟩ := by
  refine (Gives.takeWhile hrun ?_).bind_ok ((gives_inString _).bind_ok ?_)
  · intro b hb
    obtain rfl := Option.some.inj hb
    decide
  · rw [if_neg (by decide), if_pos rfl]
    exact hescape.bind_ok (.pure _ _)

/-- A round that ends with an escape, and the other characters from there. -/
theorem gives_stringLoop_escape {run : List UInt8} (hrun : ∀ b ∈ run, Octet.isPlain b = true)
    {r octets sofar : List UInt8} {result : Except DataFault (List UInt8)} {v : View}
    (hescape : Gives escape ⟨r ++ t, l⟩ (.ok octets) ⟨t, l⟩)
    (hloop : Gives (loop (octets.reverse ++ (run.reverse ++ sofar)) stringRound) ⟨t, l⟩ result v) :
    Gives (loop sofar stringRound) ⟨run ++ Octet.backslash :: (r ++ t), l⟩ result v := by
  refine (gives_stringRound_escape hrun hescape sofar).loop_next ?_ hloop
  simp only [List.length_append, List.length_cons]
  omega

/-- The plain octets that were met since the last escape are still to be read with those that follow. -/
theorem gives_stringLoop {body octets : List UInt8} (hbody : StandsFor body octets) (run sofar : List UInt8)
    (hrun : ∀ b ∈ run, Octet.isPlain b = true) :
    Gives (loop sofar stringRound) ⟨run ++ (body ++ Octet.quote :: t), l⟩
      (.ok (sofar.reverse ++ (run ++ octets))) ⟨t, l⟩ := by
  induction hbody generalizing run sofar with
  | nil =>
      have hround := gives_stringRound_quote (t := t) (l := l) hrun sofar
      rw [List.reverse_append, List.reverse_reverse] at hround
      simpa using hround.loop_last
  | @plain b body octets hb _ ih =>
      have h := ih (run ++ [b]) sofar (List.forall_mem_append.2 ⟨hrun, List.forall_mem_singleton.2 hb⟩)
      simpa only [List.append_assoc, List.cons_append, List.nil_append] using h
  | @escape ch s body octets hs _ ih =>
      have hescaped := ih [] ((Text.Utf8.encodeScalar ch.toNat).reverse ++ (run.reverse ++ sofar))
        (List.forall_mem_nil _)
      simp only [List.reverse_append, List.reverse_reverse, List.nil_append, List.append_assoc] at hescaped
      have h := gives_stringLoop_escape hrun (gives_escape hs) hescaped
      simpa only [List.append_assoc, List.cons_append] using h

theorem gives_textOf (str : String) (v : View) :
    Gives (textOf (Text.Utf8.encode str.toList)) v (.ok str) v := by
  rw [textOf, Text.Utf8.decode_encode]
  simp only [String.ofList_toList]
  exact .pure _ _

/-- A string is read as what it spells, however its characters are written. -/
theorem gives_quoted {str : String} {s : List UInt8} (hs : Leaves.exact.string str s) :
    Gives quoted ⟨s ++ t, l⟩ (.ok str) ⟨t, l⟩ := by
  obtain ⟨body, hbody, rfl⟩ := hs
  have hloop := gives_stringLoop (t := t) (l := l) (standsFor_of_spellsChars hbody) [] [] (List.forall_mem_nil _)
  simp only [List.reverse_nil, List.nil_append] at hloop
  rw [inQuotes, List.cons_append, List.append_assoc, List.singleton_append]
  exact (Gives.skip _ _).bind_ok (hloop.bind_ok (gives_textOf str _))

end BlockModel.Scan
