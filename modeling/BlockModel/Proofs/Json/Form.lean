import BlockModel.Proofs.Json.Spelling
import BlockModel.Proofs.Text.Utf8

/-! What every spelling has in common. A text that spells a value has the form of one, and its first octet
tells the kind of the value. -/

namespace BlockModel

theorem StringForm.append_of_plain {octets r : List UInt8} (hoctets : ∀ b ∈ octets, Octet.isPlain b = true)
    (hr : StringForm r) : StringForm (octets ++ r) := by
  induction octets with
  | nil => exact hr
  | cons b octets ih =>
      exact .plain (hoctets b (by simp)) (ih fun b' hb' => hoctets b' (by simp [hb']))

theorem SpellsChar.append_stringForm {c : Char} {s r : List UInt8} (h : SpellsChar c s) (hr : StringForm r) :
    StringForm (s ++ r) := by
  cases h with
  | plain hquote hbackslash hcontrol =>
      exact hr.append_of_plain (Text.Utf8.isPlain_encodeScalar hquote hbackslash hcontrol)
  | short hmem => exact .short hmem hr
  | hex hvalue => exact .hex hvalue hr
  | pair hm hn _ _ _ =>
      rw [List.append_assoc]
      exact .hex hm (.hex hn hr)

theorem SpellsChars.stringForm {cs : List Char} {body : List UInt8} (h : SpellsChars cs body) :
    StringForm body := by
  induction h with
  | nil => exact .nil
  | cons hc _ ih => exact hc.append_stringForm ih

theorem Leaves.form_number {n : JsonNumber} {s : List UInt8} (h : exact.number n s) : form.number n s := by
  obtain ⟨x, hx, -⟩ := h
  exact ⟨x, hx⟩

theorem Leaves.form_string {str : String} {s : List UInt8} (h : exact.string str s) : form.string str s := by
  obtain ⟨body, hbody, hs⟩ := h
  exact ⟨body, hbody.stringForm, hs⟩

theorem Spells.form {phrase : Phrase} {s : List UInt8} (h : Spells .exact phrase s) : Spells .form phrase s := by
  induction h with
  | null => exact .null
  | bool b => exact .bool b
  | number hn => exact .number (Leaves.form_number hn)
  | str hs => exact .str (Leaves.form_string hs)
  | list _ ih => exact .list ih
  | object _ ih => exact .object ih
  | noItems hw => exact .noItems hw
  | items hw _ _ ihj ihjs => exact .items hw ihj ihjs
  | endItems hw => exact .endItems hw
  | moreItems hw hw' _ _ ihj ihjs => exact .moreItems hw hw' ihj ihjs
  | noMembers hw => exact .noMembers hw
  | members hw hk hw1 hw2 _ _ ihj ihms => exact .members hw (Leaves.form_string hk) hw1 hw2 ihj ihms
  | endMembers hw => exact .endMembers hw
  | moreMembers hw hw' hk hw1 hw2 _ _ ihj ihms =>
      exact .moreMembers hw hw' (Leaves.form_string hk) hw1 hw2 ihj ihms

def Json.kind : Json → Scan.Kind
  | null => .null
  | bool b => .bool b
  | number _ => .number
  | str _ => .string
  | list _ => .list
  | object _ => .object

theorem kind?_of_isDigit {b : UInt8} (h : Octet.isDigit b = true) : Scan.kind? b = some .number := by
  have hn : b ≠ Octet.ofChar 'n' := by rintro rfl; exact absurd h (by decide)
  have ht : b ≠ Octet.ofChar 't' := by rintro rfl; exact absurd h (by decide)
  have hf : b ≠ Octet.ofChar 'f' := by rintro rfl; exact absurd h (by decide)
  simp only [Scan.kind?, if_neg hn, if_neg ht, if_neg hf, h, Bool.or_true, if_true]

theorem Numeral.kind?_head (x : Numeral) : ∃ b r, x.octets = b :: r ∧ Scan.kind? b = some .number := by
  obtain ⟨d, more, hds⟩ := List.exists_cons_of_ne_nil x.whole.ne_nil
  rw [octets, signOctets, hds]
  cases x.negative with
  | true => exact ⟨_, _, rfl, by decide⟩
  | false => exact ⟨_, _, rfl, kind?_of_isDigit (x.whole.isDigit d (by rw [hds]; simp))⟩

/-- The first octet of a value tells its kind. -/
theorem Spells.kind?_head {j : Json} {s : List UInt8} (h : Spells .form (.value j) s) :
    ∃ b r, s = b :: r ∧ Scan.kind? b = some j.kind := by
  cases h with
  | null => exact ⟨_, _, rfl, by decide⟩
  | bool b => cases b <;> exact ⟨_, _, rfl, by decide⟩
  | number hn =>
      obtain ⟨x, rfl⟩ := hn
      exact x.kind?_head
  | str hs =>
      obtain ⟨body, -, rfl⟩ := hs
      exact ⟨_, _, rfl, rfl⟩
  | list _ => exact ⟨_, _, rfl, rfl⟩
  | object _ => exact ⟨_, _, rfl, rfl⟩

section Heads

variable {b : UInt8} {k : Scan.Kind}

theorem not_isBlank_of_kind? (h : Scan.kind? b = some k) : Octet.isBlank b = false := by
  rw [Bool.eq_false_iff]
  intro hb
  simp only [Octet.isBlank, Bool.or_eq_true, beq_iff_eq] at hb
  rcases hb with ((rfl | rfl) | rfl) | rfl <;> exact absurd h (by rintro ⟨⟩)

theorem ne_of_kind? {mark : UInt8} (hmark : Scan.kind? mark = none) (h : Scan.kind? b = some k) : b ≠ mark := by
  rintro rfl
  rw [hmark] at h
  cases h

end Heads

end BlockModel
