import BlockModel.Proofs.Multipart.Judgement

/-! What is passed over has no effect. A member of a case under another key than `when` and `apply`, or a comment in a
condition, may hold any text of the right form: with it a document is judged as it is without it, so that the same
multipart comes of it, or a fault of the same kind in the same words. -/

namespace BlockModel

open Outline

namespace Condition

theorem judgeMember_of_list {value : Outline → Except Failure String}
    {list : Outline → Except Failure (List Condition)} {key : String} (hkey : key = "OR" ∨ key = "AND")
    {o o' : Outline} (h : list o = list o') : judgeMember value list key o = judgeMember value list key o' := by
  rcases hkey with rfl | rfl
  · rw [judgeMember_disjunction, judgeMember_disjunction, h]
  · rw [judgeMember_conjunction, judgeMember_conjunction, h]

/-- A change that makes no difference to the judgement of an object makes none within a condition. -/
theorem judge_changedWithin {change : Outline → Outline → Prop} {limit : Nat}
    (hchange : ∀ {o o'}, change o o' → ∀ room level, judge limit room level o = judge limit room level o')
    {o o' : Outline} (h : ChangedWithin change o o') (room level : Nat) :
    judge limit room level o = judge limit room level o' := by
  induction h generalizing room level with
  | here h => exact hchange h room level
  | @nested key o o' hkey _ before after left right ih =>
      cases room with
      | zero => rfl
      | succ room =>
          have hlist : judgeList limit room (level + 1) (.list (left ++ o :: right)) =
              judgeList limit room (level + 1) (.list (left ++ o' :: right)) := by
            cases room with
            | zero => rfl
            | succ room =>
                rw [judgeList_list, judgeList_list]
                exact mapM_exchange (ih room (level + 1)) left right
          rw [judge_object, judge_object, judgeMembers_exchange fun sofar => ?_]
          rw [addMember, addMember, judgeMember_of_list hkey hlist]

/-- One more member of a condition object, under `__comment`. -/
inductive AddsComment : Outline → Outline → Prop where
  | intro (before after : List Member) (value : Outline) :
      AddsComment (.object (before ++ after)) (.object (before ++ (.ok "__comment", value) :: after))

theorem judge_addsComment {o o' : Outline} (h : AddsComment o o') (limit room level : Nat) :
    judge limit room level o = judge limit room level o' := by
  obtain ⟨before, after, value⟩ := h
  cases room with
  | zero => rfl
  | succ room =>
      rw [judge_object, judge_object, judgeMembers_insert fun sofar => ?_]
      rw [addMember, judgeMember_comment]
      rfl

end Condition

namespace Multipart

/-- One more member of a case object that stands for nothing, or one more comment in a condition. -/
inductive AddsEntry : Outline → Outline → Prop where
  | inCase {key : String} (hwhen : key ≠ "when") (happly : key ≠ "apply") (left right : List Outline)
      (before after : List Member) (value : Outline) :
      AddsEntry (.list (left ++ .object (before ++ after) :: right))
        (.list (left ++ .object (before ++ (.ok key, value) :: after) :: right))
  | inCondition {t t' : Outline} (h : ChangesCondition Condition.AddsComment t t') : AddsEntry t t'

theorem judge_of_case {limits : Limits} {room : Nat} {o o' : Outline}
    (h : ∀ room, judgeCase limits.conditionDepth room o = judgeCase limits.conditionDepth room o')
    (left right : List Outline) :
    judge limits room (.list (left ++ o :: right)) = judge limits room (.list (left ++ o' :: right)) := by
  cases room with
  | zero => rfl
  | succ room => rw [judge_list, judge_list, mapM_exchange (h room)]

theorem judge_changesCondition {change : Outline → Outline → Prop} {limits : Limits}
    (hchange : ∀ {o o'}, change o o' → ∀ room level,
      Condition.judge limits.conditionDepth room level o = Condition.judge limits.conditionDepth room level o')
    {t t' : Outline} (h : ChangesCondition change t t') (room : Nat) : judge limits room t = judge limits room t' := by
  obtain ⟨h, left, right, before, after⟩ := h
  refine judge_of_case (fun room => ?_) left right
  cases room with
  | zero => rfl
  | succ room =>
      rw [judgeCase_object, judgeCase_object, judgeMembers_exchange fun d => ?_]
      rw [judgeMember_when, judgeMember_when, Condition.judge_changedWithin hchange h room 1]

theorem judge_addsEntry {t t' : Outline} (h : AddsEntry t t') (limits : Limits) (room : Nat) :
    judge limits room t = judge limits room t' := by
  cases h with
  | inCase hwhen happly left right before after value =>
      refine judge_of_case (fun room => ?_) left right
      cases room with
      | zero => rfl
      | succ room =>
          rw [judgeCase_object, judgeCase_object, judgeMembers_insert fun d => ?_]
          exact judgeMember_other _ room d value hwhen happly
  | inCondition h => exact judge_changesCondition (fun h => Condition.judge_addsComment h limits.conditionDepth) h room

theorem judge_entries {t t' : Outline} (h : Relation.TransGen AddsEntry t t') (limits : Limits) (room : Nat) :
    judge limits room t = judge limits room t' := by
  induction h with
  | single h => exact judge_addsEntry h limits room
  | tail _ h ih => exact ih.trans (judge_addsEntry h limits room)

/-- Entries that are passed over, in any number, change nothing. Whatever text of the right form they hold, which has
an outline by `exists_fits`, and however the documents are written, the same multipart comes of both, or a fault of
the same kind in the same words. -/
theorem parse_entries {t t' : Outline} (h : Relation.TransGen AddsEntry t t') (limits : Limits)
    {octets octets' : List UInt8} (ht : t.SpelledBy octets) (ht' : t'.SpelledBy octets') :
    Fault.SameButPlace (parse limits .document octets : Except Fault (Multipart VariantPool))
      (parse limits .document octets') := by
  refine (parse_judged limits ht).trans ?_
  rw [judge_entries h]
  exact (parse_judged limits ht').symm

/-- A leading surrogate with nothing behind it. -/
def loneEscape : List UInt8 := unicodeEscape (Text.Utf8.encode "d800".toList)

theorem holds_loneEscape : Holds (.error .unfinishedSurrogate) loneEscape := by
  have hvalue : hexNumber? (Text.Utf8.encode "d800".toList) = some 0xD800 := by decide
  have hform : StringForm (loneEscape ++ []) := .hex hvalue .nil
  exact .broken hform (.here (.alone hvalue (by decide) (by decide)))

/-- A digit, so many times over. -/
def sameDigits (count : Nat) {b : UInt8} (hb : Octet.isDigit b = true) : Digits where
  octets := List.replicate (count + 1) b
  ne_nil := List.cons_ne_nil b _
  isDigit := fun _ hmem => (List.eq_of_mem_replicate hmem).symm ▸ hb

/-- The numeral `1e999`. -/
def hugeNumeral : Numeral where
  negative := false
  whole := sameDigits 0 (b := 0x31) (by decide)
  fraction := none
  exponent := some ⟨Octet.ofChar 'e', by decide, none, sameDigits 2 (b := 0x39) (by decide)⟩
  noLeadingZero := by decide

/-- A case whose condition has these members in front in the object under `OR`, and that has these members in front. -/
def nestedCase (inCondition inCase : List Member) : Outline :=
  .list [.object (inCase ++
    [(.ok "when", .object [(.ok "OR", .list [.object (inCondition ++ [(.ok "a", .str (.ok "b"))])])]),
      (.ok "apply", .list [])])]

/-- The text of the case without any members in front. -/
def plainText : List UInt8 :=
  Text.Utf8.encode "[\x7b\"when\":\x7b\"OR\":[\x7b\"a\":\"b\"\x7d]\x7d,\"apply\":[]\x7d]".toList

/-- The same with a comment and with a member under another key. -/
def extendedText : List UInt8 :=
  Text.Utf8.encode ("[\x7b\"x\":[\"\\ud800\",1e999],\"when\":\x7b\"OR\":[\x7b\"__comment\":\"\\ud800\"," ++
    "\"a\":\"b\"\x7d]\x7d,\"apply\":[]\x7d]").toList

theorem spelledBy_plainText : (nestedCase [] []).SpelledBy plainText := by
  have hnil : Blanks [] := blanks_nil
  have hend : Fits (.members false []) [] := .endMembers false hnil
  have hinner := Fits.object (fits_member (.first hnil) "a" (.str (holds_written "b")) hend)
  have hwhen := Fits.object (fits_member (.first hnil) "OR" (fits_oneItem hinner) hend)
  have happly := fits_member (.next hnil hnil) "apply" (.list (.endItems true hnil)) hend
  exact (fits_oneItem (.object (fits_member (.first hnil) "when" hwhen happly))).spelledBy

/-- The outline of the values that are passed over. -/
def loneSurrogate : Outline := .str (.error .unfinishedSurrogate)

def extendedCase : Outline :=
  nestedCase [(.ok "__comment", loneSurrogate)] [(.ok "x", .list [loneSurrogate, .number hugeNumeral.value?])]

theorem spelledBy_extendedText : extendedCase.SpelledBy extendedText := by
  have hnil : Blanks [] := blanks_nil
  have hend : Fits (.members false []) [] := .endMembers false hnil
  have hlone : Fits (.value loneSurrogate) _ := .str holds_loneEscape
  have hproperty := fits_member (.next hnil hnil) "a" (.str (holds_written "b")) hend
  have hinner := Fits.object (fits_member (.first hnil) "__comment" hlone hproperty)
  have hwhen := Fits.object (fits_member (.first hnil) "OR" (fits_oneItem hinner) hend)
  have hlist := Fits.list (.items (.first hnil) hlone
    (.items (.next hnil hnil) (.number hugeNumeral) (.endItems false hnil)))
  have happly := fits_member (.next hnil hnil) "apply" (.list (.endItems true hnil)) hend
  have hcase := fits_member (.first hnil) "x" hlist (fits_member (.next hnil hnil) "when" hwhen happly)
  exact (fits_oneItem (.object hcase)).spelledBy

/-- A comment and a member under another key, holding halves of surrogate pairs and a number beyond every range. -/
theorem parse_entries_extendedText :
    hugeNumeral.value? = none ∧ Relation.TransGen AddsEntry (nestedCase [] []) extendedCase ∧
      (nestedCase [] []).SpelledBy plainText ∧ extendedCase.SpelledBy extendedText ∧
      Fault.SameButPlace (parse (α := VariantPool) .standard .document plainText)
        (parse .standard .document extendedText) := by
  have hhuge : hugeNumeral.value? = none := by decide +kernel
  have hcomment : AddsEntry (nestedCase [] []) (nestedCase [(.ok "__comment", loneSurrogate)] []) :=
    .inCondition (.intro (.nested (.inl rfl) (.here (.intro [] _ _)) [] [] [] []) [] [] [] _)
  have hwhen : "x" ≠ "when" := by decide
  have happly : "x" ≠ "apply" := by decide
  have hother : AddsEntry (nestedCase [(.ok "__comment", loneSurrogate)] []) extendedCase :=
    .inCase hwhen happly [] [] [] _ (.list [loneSurrogate, .number hugeNumeral.value?])
  have hentries := (Relation.TransGen.single hcomment).tail hother
  exact ⟨hhuge, hentries, spelledBy_plainText, spelledBy_extendedText,
    parse_entries hentries .standard spelledBy_plainText spelledBy_extendedText⟩

end Multipart

end BlockModel
