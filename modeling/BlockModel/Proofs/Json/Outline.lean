import BlockModel.Proofs.Json.Writing
import BlockModel.Proofs.Scan.Spelled

/-! What a text of the right form holds. An outline is like a JSON value, but a string whose escapes make up no
characters has the fault for which it is no text, and a number beyond double precision has no value. Every text of the
right form has an outline, and a text that spells a value has that value as its outline. -/

namespace BlockModel

open Scan

/-- The text from an escape on, up to the closing quote or further, where the escape is half of a surrogate pair and
the other half is not written as the next escape. -/
inductive Halved : GrammarFault → List UInt8 → Prop where
  | trailing {digits r : List UInt8} {n : Nat} (hn : hexNumber? digits = some n) (htrailing : isTrailing n = true) :
      Halved .loneSurrogate (unicodeEscape digits ++ r)
  | alone {digits r : List UInt8} {n : Nat} {b : UInt8} (hn : hexNumber? digits = some n)
      (hleading : isLeading n = true) (hb : b ≠ Octet.backslash) :
      Halved .unfinishedSurrogate (unicodeEscape digits ++ b :: r)
  | letter {digits r : List UInt8} {n : Nat} {b : UInt8} (hn : hexNumber? digits = some n)
      (hleading : isLeading n = true) (hb : b ≠ Octet.ofChar 'u') :
      Halved .unfinishedSurrogate (unicodeEscape digits ++ Octet.backslash :: b :: r)
  | unpaired {digits digits' r : List UInt8} {n n' : Nat} (hn : hexNumber? digits = some n)
      (hleading : isLeading n = true) (hn' : hexNumber? digits' = some n') (htrailing : isTrailing n' = false) :
      Halved .loneSurrogate (unicodeEscape digits ++ (unicodeEscape digits' ++ r))

theorem Halved.exists_cons {fault : GrammarFault} {s : List UInt8} (h : Halved fault s) :
    ∃ r, s = Octet.backslash :: r := by
  cases h <;> exact ⟨_, rfl⟩

/-- What stands between quotes, where such an escape comes after plain octets and escapes that are characters. -/
inductive Broken : GrammarFault → List UInt8 → Prop where
  | here {fault : GrammarFault} {body : List UInt8} (h : Halved fault (body ++ [Octet.quote])) : Broken fault body
  | plain {fault : GrammarFault} {b : UInt8} {body : List UInt8} (hb : Octet.isPlain b = true)
      (h : Broken fault body) : Broken fault (b :: body)
  | escape {fault : GrammarFault} {ch : Char} {s body : List UInt8} (hs : SpellsChar ch (Octet.backslash :: s))
      (h : Broken fault body) : Broken fault (Octet.backslash :: (s ++ body))

/-- What a string holds: a text, or the fault for which it holds none. -/
inductive Holds : Except GrammarFault String → List UInt8 → Prop where
  | text {str : String} {body : List UInt8} (h : SpellsChars str.toList body) : Holds (.ok str) body
  | broken {fault : GrammarFault} {body : List UInt8} (hform : StringForm body) (h : Broken fault body) :
      Holds (.error fault) body
  /-- The octets of the string are no UTF-8. -/
  | octets {body octets : List UInt8} (h : StandsFor body octets) (hleft : (Text.Utf8.decode octets).2 ≠ []) :
      Holds (.error .invalidCodePoint) body

theorem SpellsChar.of_hexNumber? {digits : List UInt8} {n : Nat} (hn : hexNumber? digits = some n)
    (hleading : isLeading n = false) (htrailing : isTrailing n = false) :
    SpellsChar (Char.ofNat n) (unicodeEscape digits) := by
  have hlt := hexNumber?_lt hn
  refine .hex (hn.trans (congrArg some (Text.Utf8.toNat_ofNat ?_).symm))
  simp only [isLeading, isTrailing, Bool.and_eq_false_iff, decide_eq_false_iff_not] at hleading htrailing
  omega

theorem SpellsChar.of_pair {digits digits' : List UInt8} {n n' : Nat} (hn : hexNumber? digits = some n)
    (hleading : isLeading n = true) (hn' : hexNumber? digits' = some n') (htrailing : isTrailing n' = true) :
    SpellsChar (Char.ofNat (0x10000 + (n - 0xD800) * 0x400 + (n' - 0xDC00)))
      (unicodeEscape digits ++ unicodeEscape digits') := by
  refine .pair hn hn' hleading htrailing (Text.Utf8.toNat_ofNat ?_)
  simp only [isLeading, isTrailing, Bool.and_eq_true, decide_eq_true_eq] at hleading htrailing
  omega

/-- The text between quotes stands for octets, unless an escape is half of a pair. -/
theorem StringForm.standsFor_or_broken {body : List UInt8} (h : StringForm body) :
    (∃ octets, StandsFor body octets) ∨ ∃ fault, Broken fault body := by
  induction hn : body.length using Nat.strongRecOn generalizing body with
  | ind size ih =>
  have hescape : ∀ {ch s r}, SpellsChar ch (Octet.backslash :: s) → StringForm r →
      body = Octet.backslash :: (s ++ r) → (∃ octets, StandsFor body octets) ∨ ∃ fault, Broken fault body := by
    rintro ch s r hs hr rfl
    have hless : r.length < size := by
      rw [← hn, List.length_cons, List.length_append]
      omega
    rcases ih r.length hless hr rfl with ⟨octets, hoctets⟩ | ⟨fault, hfault⟩
    · exact .inl ⟨_, .escape hs hoctets⟩
    · exact .inr ⟨fault, .escape hs hfault⟩
  cases h with
  | nil => exact .inl ⟨[], .nil⟩
  | @plain b r hb hr =>
      rcases ih r.length (by rw [← hn, List.length_cons]; omega) hr rfl with ⟨octets, hoctets⟩ | ⟨fault, hfault⟩
      · exact .inl ⟨_, .plain hb hoctets⟩
      · exact .inr ⟨fault, .plain hb hfault⟩
  | @short letter c r hmem hr => exact hescape (.short hmem) hr rfl
  | @hex digits r n hvalue hr =>
      cases htrailing : isTrailing n with
      | true =>
          refine .inr ⟨.loneSurrogate, .here ?_⟩
          rw [List.append_assoc]
          exact .trailing hvalue htrailing
      | false =>
      cases hleading : isLeading n with
      | false => exact hescape (.of_hexNumber? hvalue hleading htrailing) hr rfl
      | true =>
      -- The other half can only be the next escape.
      cases hr with
      | nil =>
          refine .inr ⟨.unfinishedSurrogate, .here ?_⟩
          rw [List.append_nil]
          exact .alone hvalue hleading (by decide)
      | @plain b r hb hr =>
          refine .inr ⟨.unfinishedSurrogate, .here ?_⟩
          rw [List.append_assoc]
          refine .alone hvalue hleading ?_
          rintro rfl
          exact absurd hb (by decide)
      | @short letter c r hmem hr =>
          have hletter : ∀ m ∈ shortEscapes, Octet.ofChar m.1 ≠ Octet.ofChar 'u' := by decide
          refine .inr ⟨.unfinishedSurrogate, .here ?_⟩
          rw [List.append_assoc]
          exact .letter hvalue hleading (hletter _ hmem)
      | @hex digits' r n' hvalue' hr =>
          cases htrailing' : isTrailing n' with
          | true =>
              have hpair := SpellsChar.of_pair hvalue hleading hvalue' htrailing'
              rw [unicodeEscape, List.cons_append] at hpair
              refine hescape hpair hr ?_
              simp only [unicodeEscape, List.append_assoc, List.cons_append]
          | false =>
              refine .inr ⟨.loneSurrogate, .here ?_⟩
              rw [List.append_assoc, List.append_assoc]
              exact .unpaired hvalue hleading hvalue' htrailing'

theorem StringForm.exists_holds {body : List UInt8} (h : StringForm body) : ∃ r, Holds r body := by
  rcases h.standsFor_or_broken with ⟨octets, hoctets⟩ | ⟨fault, hfault⟩
  · rcases hdecode : Text.Utf8.decode octets with ⟨chars, left⟩
    cases left with
    | nil =>
        refine ⟨.ok (String.ofList chars), .text ?_⟩
        rw [String.toList_ofList]
        exact hoctets.spellsChars hdecode
    | cons b left =>
        refine ⟨_, .octets hoctets ?_⟩
        rw [hdecode]
        exact List.cons_ne_nil b left
  · exact ⟨_, .broken h hfault⟩

theorem Scan.StandsFor.stringForm {body octets : List UInt8} (h : StandsFor body octets) : StringForm body := by
  induction h with
  | nil => exact .nil
  | plain hb _ ih => exact .plain hb ih
  | escape hs _ ih => exact hs.append_stringForm ih

theorem Holds.stringForm {r : Except GrammarFault String} {body : List UInt8} (h : Holds r body) :
    StringForm body := by
  cases h with
  | text h => exact h.stringForm
  | broken hform _ => exact hform
  | octets h _ => exact h.stringForm

inductive Outline where
  | null
  | bool (b : Bool)
  | number (n : Option JsonNumber)
  | str (s : Except GrammarFault String)
  | list (items : List Outline)
  | object (members : List (Except GrammarFault String × Outline))

namespace Outline

/-- What the key of a member holds, and its value. -/
abbrev Member := Except GrammarFault String × Outline

def kind : Outline → Kind
  | null => .null
  | bool b => .bool b
  | number _ => .number
  | str _ => .string
  | list _ => .list
  | object _ => .object

/-- What a piece of text can be the outline of: a value, or the inside of a list or object, from its start on or
after an item or member. -/
inductive Part where
  | value (o : Outline)
  | items (first : Bool) (os : List Outline)
  | members (first : Bool) (ms : List Member)

/-- The texts that have an outline. -/
inductive Fits : Part → List UInt8 → Prop where
  | null : Fits (.value .null) (wordOctets "null")
  | bool (b : Bool) : Fits (.value (.bool b)) (wordOctets (if b then "true" else "false"))
  | number (x : Numeral) : Fits (.value (.number x.value?)) x.octets
  | str {r : Except GrammarFault String} {body : List UInt8} (hs : Holds r body) :
      Fits (.value (.str r)) (inQuotes body)
  | list {os : List Outline} {s : List UInt8} (hos : Fits (.items true os) s) :
      Fits (.value (.list os)) (Octet.openList :: (s ++ [Octet.closeList]))
  | object {ms : List Member} {s : List UInt8} (hms : Fits (.members true ms) s) :
      Fits (.value (.object ms)) (Octet.openObject :: (s ++ [Octet.closeObject]))
  | endItems {w : List UInt8} (first : Bool) (hw : Blanks w) : Fits (.items first []) w
  | items {first : Bool} {o : Outline} {os : List Outline} {gap s r : List UInt8} (hgap : Gap first gap)
      (ho : Fits (.value o) s) (hos : Fits (.items false os) r) : Fits (.items first (o :: os)) (gap ++ (s ++ r))
  | endMembers {w : List UInt8} (first : Bool) (hw : Blanks w) : Fits (.members first []) w
  | members {first : Bool} {key : Except GrammarFault String} {o : Outline} {ms : List Member}
      {gap body w1 w2 s r : List UInt8} (hgap : Gap first gap) (hkey : Holds key body) (hw1 : Blanks w1)
      (hw2 : Blanks w2) (ho : Fits (.value o) s) (hms : Fits (.members false ms) r) :
      Fits (.members first ((key, o) :: ms)) (gap ++ (inQuotes body ++ (w1 ++ Octet.colon :: (w2 ++ (s ++ r)))))

/-- Whether a document has an outline: one text of it, and blanks around it. -/
def SpelledBy (o : Outline) (document : List UInt8) : Prop :=
  ∃ w s w', Blanks w ∧ Fits (.value o) s ∧ Blanks w' ∧ document = w ++ (s ++ w')

theorem Fits.spelledBy {o : Outline} {document : List UInt8} (h : Fits (.value o) document) :
    o.SpelledBy document :=
  ⟨[], document, [], blanks_nil, h, blanks_nil, (List.append_nil document).symm⟩

theorem holds_written (str : String) :
    Holds (.ok str) (Text.Utf8.encode (str.toList.flatMap Json.Written.escapedChar)) :=
  .text (Json.Written.spellsChars_escaped str.toList)

theorem fits_member {first : Bool} {gap s r : List UInt8} {o : Outline} {ms : List Member} (hgap : Gap first gap)
    (key : String) (ho : Fits (.value o) s) (hms : Fits (.members false ms) r) :
    Fits (.members first ((.ok key, o) :: ms))
      (gap ++ (inQuotes (Text.Utf8.encode (key.toList.flatMap Json.Written.escapedChar)) ++
        ([] ++ Octet.colon :: ([] ++ (s ++ r))))) :=
  .members hgap (holds_written key) blanks_nil blanks_nil ho hms

theorem fits_oneItem {s : List UInt8} {o : Outline} (ho : Fits (.value o) s) :
    Fits (.value (.list [o])) (Octet.openList :: ([] ++ (s ++ []) ++ [Octet.closeList])) :=
  .list (.items (.first blanks_nil) ho (.endItems false blanks_nil))

/-- What texts with an outline are by their form. -/
def Part.Formed : Part → List UInt8 → Prop
  | .value o, s => ∃ j : Json, j.kind = o.kind ∧ Spells .form (.value j) s
  | .items first _, s => ∃ js, Spells .form (itemsFrom first js) s
  | .members first _, s => ∃ ms, Spells .form (membersFrom first ms) s

theorem Fits.formed {part : Part} {s : List UInt8} (h : Fits part s) : part.Formed s := by
  induction h with
  | null => exact ⟨.null, rfl, .null⟩
  | bool b => exact ⟨.bool b, rfl, .bool b⟩
  | number x => exact ⟨.number (.int 0), rfl, .number ⟨x, rfl⟩⟩
  | str hs => exact ⟨.str "", rfl, .str ⟨_, hs.stringForm, rfl⟩⟩
  | list _ ih =>
      obtain ⟨js, hjs⟩ := ih
      exact ⟨.list js, rfl, .list hjs⟩
  | object _ ih =>
      obtain ⟨ms, hms⟩ := ih
      exact ⟨.object ms, rfl, .object hms⟩
  | endItems first hw =>
      cases first with
      | true => exact ⟨[], .noItems hw⟩
      | false => exact ⟨[], .endItems hw⟩
  | items hgap _ _ iho ihos =>
      obtain ⟨j, -, hj⟩ := iho
      obtain ⟨js, hjs⟩ := ihos
      cases hgap with
      | first hw => exact ⟨j :: js, .items hw hj hjs⟩
      | next hw hw' =>
          rw [List.append_assoc, List.cons_append]
          exact ⟨j :: js, .moreItems hw hw' hj hjs⟩
  | endMembers first hw =>
      cases first with
      | true => exact ⟨[], .noMembers hw⟩
      | false => exact ⟨[], .endMembers hw⟩
  | members hgap hkey hw1 hw2 _ _ iho ihms =>
      obtain ⟨j, -, hj⟩ := iho
      obtain ⟨ms, hms⟩ := ihms
      have hk : Leaves.form.string "" _ := ⟨_, hkey.stringForm, rfl⟩
      cases hgap with
      | first hw => exact ⟨("", j) :: ms, .members hw hk hw1 hw2 hj hms⟩
      | next hw hw' =>
          rw [List.append_assoc, List.cons_append]
          exact ⟨("", j) :: ms, .moreMembers hw hw' hk hw1 hw2 hj hms⟩

/-- Whether a text of some form has an outline. -/
def Outlined : Phrase → List UInt8 → Prop
  | .value _, s => ∃ o, Fits (.value o) s
  | .items _, s => ∃ os, Fits (.items true os) s
  | .moreItems _, s => ∃ os, Fits (.items false os) s
  | .members _, s => ∃ ms, Fits (.members true ms) s
  | .moreMembers _, s => ∃ ms, Fits (.members false ms) s

theorem outlined_of_spells {phrase : Phrase} {s : List UInt8} (h : Spells .form phrase s) : Outlined phrase s := by
  induction h with
  | null => exact ⟨.null, .null⟩
  | bool b => exact ⟨.bool b, .bool b⟩
  | number hn =>
      obtain ⟨x, rfl⟩ := hn
      exact ⟨_, .number x⟩
  | str hs =>
      obtain ⟨body, hbody, rfl⟩ := hs
      obtain ⟨r, hr⟩ := hbody.exists_holds
      exact ⟨_, .str hr⟩
  | list _ ih =>
      obtain ⟨os, hos⟩ := ih
      exact ⟨_, .list hos⟩
  | object _ ih =>
      obtain ⟨ms, hms⟩ := ih
      exact ⟨_, .object hms⟩
  | noItems hw => exact ⟨_, .endItems true hw⟩
  | endItems hw => exact ⟨_, .endItems false hw⟩
  | items hw _ _ ihj ihjs =>
      obtain ⟨o, ho⟩ := ihj
      obtain ⟨os, hos⟩ := ihjs
      exact ⟨_, .items (.first hw) ho hos⟩
  | moreItems hw hw' _ _ ihj ihjs =>
      obtain ⟨o, ho⟩ := ihj
      obtain ⟨os, hos⟩ := ihjs
      have hfits := Fits.items (.next hw hw') ho hos
      rw [List.append_assoc, List.cons_append] at hfits
      exact ⟨_, hfits⟩
  | noMembers hw => exact ⟨_, .endMembers true hw⟩
  | endMembers hw => exact ⟨_, .endMembers false hw⟩
  | members hw hk hw1 hw2 _ _ ihj ihms =>
      obtain ⟨body, hbody, rfl⟩ := hk
      obtain ⟨r, hr⟩ := hbody.exists_holds
      obtain ⟨o, ho⟩ := ihj
      obtain ⟨ms, hms⟩ := ihms
      exact ⟨_, .members (.first hw) hr hw1 hw2 ho hms⟩
  | moreMembers hw hw' hk hw1 hw2 _ _ ihj ihms =>
      obtain ⟨body, hbody, rfl⟩ := hk
      obtain ⟨r, hr⟩ := hbody.exists_holds
      obtain ⟨o, ho⟩ := ihj
      obtain ⟨ms, hms⟩ := ihms
      have hfits := Fits.members (.next hw hw') hr hw1 hw2 ho hms
      rw [List.append_assoc, List.cons_append] at hfits
      exact ⟨_, hfits⟩

/-- Every well-formed text has an outline. -/
theorem exists_fits {j : Json} {s : List UInt8} (h : Spells .form (.value j) s) : ∃ o, Fits (.value o) s :=
  outlined_of_spells h

end Outline

namespace Json

mutual
/-- A value, of which everything can be read. -/
def outline : Json → Outline
  | null => .null
  | bool b => .bool b
  | number n => .number (some n)
  | str s => .str (.ok s)
  | list js => .list (outlineItems js)
  | object ms => .object (outlineMembers ms)

def outlineItems : List Json → List Outline
  | [] => []
  | j :: rest => j.outline :: outlineItems rest

def outlineMembers : List (String × Json) → List Outline.Member
  | [] => []
  | (key, j) :: rest => (.ok key, j.outline) :: outlineMembers rest
end

theorem outlineItems_eq_map (js : List Json) : outlineItems js = js.map outline := by
  induction js with
  | nil => rfl
  | cons j rest ih => rw [outlineItems, List.map_cons, ih]

theorem outlineMembers_eq_map (ms : List (String × Json)) :
    outlineMembers ms = ms.map fun m => (.ok m.1, m.2.outline) := by
  induction ms with
  | nil => rfl
  | cons m rest ih => rw [outlineMembers, List.map_cons, ih]

end Json

/-- The outline of what a piece of text spells. -/
def Phrase.outline : Phrase → Outline.Part
  | value j => .value j.outline
  | items js => .items true (Json.outlineItems js)
  | moreItems js => .items false (Json.outlineItems js)
  | members ms => .members true (Json.outlineMembers ms)
  | moreMembers ms => .members false (Json.outlineMembers ms)

/-- A text that spells a value has it as its outline. -/
theorem Spells.fits {phrase : Phrase} {s : List UInt8} (h : Spells .exact phrase s) :
    Outline.Fits phrase.outline s := by
  induction h with
  | null => exact .null
  | bool b => exact .bool b
  | @number n s hn =>
      obtain ⟨x, rfl, hvalue⟩ := hn
      have hfits := Outline.Fits.number x
      rwa [hvalue] at hfits
  | str hs =>
      obtain ⟨body, hbody, rfl⟩ := hs
      exact .str (.text hbody)
  | list _ ih => exact .list ih
  | object _ ih => exact .object ih
  | noItems hw => exact .endItems true hw
  | items hw _ _ ihj ihjs => exact .items (.first hw) ihj ihjs
  | endItems hw => exact .endItems false hw
  | moreItems hw hw' _ _ ihj ihjs =>
      have hfits := Outline.Fits.items (.next hw hw') ihj ihjs
      rwa [List.append_assoc, List.cons_append] at hfits
  | noMembers hw => exact .endMembers true hw
  | members hw hk hw1 hw2 _ _ ihj ihms =>
      obtain ⟨body, hbody, rfl⟩ := hk
      exact .members (.first hw) (.text hbody) hw1 hw2 ihj ihms
  | endMembers hw => exact .endMembers false hw
  | moreMembers hw hw' hk hw1 hw2 _ _ ihj ihms =>
      obtain ⟨body, hbody, rfl⟩ := hk
      have hfits := Outline.Fits.members (.next hw hw') (.text hbody) hw1 hw2 ihj ihms
      rwa [List.append_assoc, List.cons_append] at hfits

theorem Json.SpelledBy.outline {j : Json} {document : List UInt8} (h : j.SpelledBy document) :
    j.outline.SpelledBy document := by
  obtain ⟨w, s, w', hw, hj, hw', hdocument⟩ := h
  exact ⟨w, s, w', hw, hj.fits, hw', hdocument⟩

end BlockModel
