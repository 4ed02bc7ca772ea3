import BlockModel.Proofs.Condition.Order
import BlockModel.Proofs.Multipart.Canonical
import BlockModel.Proofs.Multipart.Judgement

/-! The order of what is in conditions plays no part in a multipart. Wherever in the conditions of a document members
of objects and items of lists change places, both documents are refused, or both are read: then their cases are as
many, apply the same and hold of the same bags of properties. -/

namespace BlockModel

open Outline

/-- Reading members leaves states so related if every member does. -/
theorem Together.judgeMembers {σ : Type} {R : σ → σ → Prop} {member : σ → String → Outline → Except Failure σ}
    (hmember : ∀ {s s'} key o, R s s' → Together R (member s key o) (member s' key o)) (ms : List Member) {s s' : σ}
    (h : R s s') : Together R (Outline.judgeMembers member s ms) (Outline.judgeMembers member s' ms) := by
  induction ms generalizing s s' with
  | nil => exact .ok h
  | cons m rest ih =>
      rw [judgeMembers_cons, judgeMembers_cons]
      exact (Together.bind_same fun key => hmember key m.2 h).bind ih

namespace Multipart

/-- Drafts that apply the same and hold alike. -/
structure DraftsAlike (d d' : CaseDraft VariantPool) : Prop where
  apply : d.apply = d'.apply
  when : Condition.Alike d.when d'.when

/-- Cases that apply the same and hold alike. -/
structure CasesAlike (c c' : Case VariantPool) : Prop where
  apply : c.apply = c'.apply
  condition : Condition.Alike c.condition c'.condition

theorem DraftsAlike.case? {d d' : CaseDraft VariantPool} (h : DraftsAlike d d') :
    Option.Rel CasesAlike d.case? d'.case? := by
  rw [CaseDraft.case?, CaseDraft.case?, h.apply]
  cases d'.apply with
  | none => exact .none
  | some a => exact .some ⟨rfl, h.when⟩

section Judged

variable {limit : Nat} {o o' : Outline}

theorem together_judgeMember (room : Nat) {d d' : CaseDraft VariantPool} (key : String) (o : Outline)
    (h : DraftsAlike d d') :
    Together DraftsAlike (judgeMember limit room d key o) (judgeMember limit room d' key o) := by
  rw [judgeMember, judgeMember]
  cases CaseKey.ofName key with
  | when => exact Together.bind_same fun c => .ok ⟨h.apply, fun _ _ _ => rfl⟩
  | apply => exact Together.bind_same fun a => .ok ⟨rfl, h.when⟩
  | other name => exact .ok h

/-- In a case the condition can be exchanged for one that goes with it. -/
theorem together_judgeCase
    (h : ∀ room, Together Condition.Alike (Condition.judge limit room 1 o) (Condition.judge limit room 1 o'))
    (before after : List Member) (room : Nat) :
    Together (Option.Rel CasesAlike) (judgeCase limit room (.object (before ++ (.ok "when", o) :: after)))
      (judgeCase limit room (.object (before ++ (.ok "when", o') :: after))) := by
  cases room with
  | zero => exact .error _ _
  | succ room =>
      rw [judgeCase_object, judgeCase_object, judgeMembers_append, judgeMembers_append]
      refine Together.map ?_ DraftsAlike.case?
      refine Together.bind_same fun d => ?_
      rw [judgeMembers_cons, judgeMembers_cons]
      have hwhen : Together DraftsAlike (judgeMember limit room d "when" o) (judgeMember limit room d "when" o') := by
        rw [judgeMember_when, judgeMember_when]
        exact (h room).map fun hc => ⟨rfl, hc⟩
      exact Together.bind hwhen (Together.judgeMembers (together_judgeMember room) after)

end Judged

/-- Another order of what is in the conditions of a document, in any number of places. -/
inductive Reordered : Outline → Outline → Prop where
  | refl (t : Outline) : Reordered t t
  | step {t t' t'' : Outline} (h : Reordered t t') (hchange : ChangesCondition Condition.Permutes t' t'') :
      Reordered t t''

namespace Agrees

theorem refl (m : Multipart VariantPool) : m.Agrees m := ⟨rfl, fun _ _ _ => rfl⟩

theorem trans {m m' m'' : Multipart VariantPool} (h : m.Agrees m') (h' : m'.Agrees m'') : m.Agrees m'' :=
  ⟨h.payloads.trans h'.payloads, fun β _ bag => (h.conditions β bag).trans (h'.conditions β bag)⟩

theorem of_oneExchanged {cs cs' : List (Option (Case VariantPool))}
    (h : OneExchanged (Option.Rel CasesAlike) cs cs') :
    Agrees ⟨cs.filterMap id⟩ ⟨cs'.filterMap id⟩ where
  payloads := h.map_filterMap_eq CasesAlike.apply
  conditions := fun β _ bag => h.map_filterMap_eq fun hc => hc.condition β bag

end Agrees

variable {limits : Limits} {t t' : Outline}

theorem together_changesCondition (h : ChangesCondition Condition.Permutes t t') (room : Nat) :
    Together Agrees (judge limits room t) (judge limits room t') := by
  obtain ⟨h, left, right, before, after⟩ := h
  cases room with
  | zero => exact .error _ _
  | succ room =>
      rw [judge_list, judge_list]
      have hcase := together_judgeCase
        (fun room => Condition.together_changedWithin h limits.conditionDepth room 1) before after room
      exact (Together.mapM_exchange hcase left right).map Agrees.of_oneExchanged

theorem together_reordered (h : Reordered t t') (room : Nat) :
    Together Agrees (judge limits room t) (judge limits room t') := by
  induction h with
  | refl => exact .refl Agrees.refl _
  | step _ hchange ih => exact ih.trans (fun h h' => h.trans h') (together_changesCondition hchange room)

/-- What goes together goes together also in the results for a caller. -/
theorem together_sameButPlace {R : Multipart VariantPool → Multipart VariantPool → Prop}
    {r r' : Except Fault (Multipart VariantPool)} {j j' : Except Failure (Multipart VariantPool)}
    (hr : Fault.SameButPlace r (j.mapError .ofFailure)) (hr' : Fault.SameButPlace r' (j'.mapError .ofFailure))
    (h : Together R j j') : Together R r r' := by
  cases h with
  | error e e' =>
      cases hr
      cases hr'
      exact .error _ _
  | ok h =>
      cases hr
      cases hr'
      exact .ok h

/-- Documents whose conditions differ in the order of their members and items, however they are written, are both
refused, or are both read as multiparts that agree case by case. -/
theorem parse_reordered (h : Reordered t t') (limits : Limits) {octets octets' : List UInt8}
    (ht : t.SpelledBy octets) (ht' : t'.SpelledBy octets') :
    Together Agrees (parse limits .document octets) (parse limits .document octets') :=
  together_sameButPlace (parse_judged limits ht) (parse_judged limits ht') (together_reordered h _)

/-- The test of a property. -/
def property (name value : String) : Member := (.ok name, .str (.ok value))

/-- The document of one case, whose condition has these members. -/
def conditionedCase (ms : List Member) : Outline :=
  .list [.object [(.ok "when", .object ms), (.ok "apply", .list [])]]

/-- A disjunction between two tests of the same property. -/
def testedTwice : Outline :=
  conditionedCase [property "a" "1|2",
    (.ok "OR", .list [.object [property "b" "3"], .object [property "c" "4"]]), property "a" "2"]

def testedTwiceText : List UInt8 :=
  Text.Utf8.encode
    ("[\x7b\"when\":\x7b\"a\":\"1|2\",\"OR\":[\x7b\"b\":\"3\"\x7d,\x7b\"c\":\"4\"\x7d],\"a\":\"2\"\x7d," ++
      "\"apply\":[]\x7d]").toList

/-- The same in another order. -/
def testedTwiceReordered : Outline :=
  conditionedCase [(.ok "OR", .list [.object [property "c" "4"], .object [property "b" "3"]]),
    property "a" "2", property "a" "1|2"]

def testedTwiceReorderedText : List UInt8 :=
  Text.Utf8.encode
    ("[\x7b\"when\":\x7b\"OR\":[\x7b\"c\":\"4\"\x7d,\x7b\"b\":\"3\"\x7d],\"a\":\"2\",\"a\":\"1|2\"\x7d," ++
      "\"apply\":[]\x7d]").toList

theorem fits_oneProperty (name value : String) :
    Fits (.value (.object [property name value]))
      (Octet.openObject :: ([] ++ (inQuotes (Text.Utf8.encode (name.toList.flatMap Json.Written.escapedChar)) ++
        ([] ++ Octet.colon :: ([] ++ (inQuotes (Text.Utf8.encode (value.toList.flatMap Json.Written.escapedChar)) ++
          [])))) ++ [Octet.closeObject])) :=
  .object (fits_member (.first blanks_nil) name (.str (holds_written value)) (.endMembers false blanks_nil))

theorem spelledBy_testedTwice : testedTwice.SpelledBy testedTwiceText := by
  have hnil : Blanks [] := blanks_nil
  have hend : Fits (.members false []) [] := .endMembers false hnil
  have hlist := Fits.list (.items (.first hnil) (fits_oneProperty "b" "3")
    (.items (.next hnil hnil) (fits_oneProperty "c" "4") (.endItems false hnil)))
  have hlast := fits_member (.next hnil hnil) "a" (.str (holds_written "2")) hend
  have hmembers := fits_member (.first hnil) "a" (.str (holds_written "1|2"))
    (fits_member (.next hnil hnil) "OR" hlist hlast)
  have happly := fits_member (.next hnil hnil) "apply" (.list (.endItems true hnil)) hend
  exact (fits_oneItem (.object (fits_member (.first hnil) "when" (.object hmembers) happly))).spelledBy

theorem spelledBy_testedTwiceReordered : testedTwiceReordered.SpelledBy testedTwiceReorderedText := by
  have hnil : Blanks [] := blanks_nil
  have hend : Fits (.members false []) [] := .endMembers false hnil
  have hlist := Fits.list (.items (.first hnil) (fits_oneProperty "c" "4")
    (.items (.next hnil hnil) (fits_oneProperty "b" "3") (.endItems false hnil)))
  have hlast := fits_member (.next hnil hnil) "a" (.str (holds_written "1|2")) hend
  have hmembers := fits_member (.first hnil) "OR" hlist
    (fits_member (.next hnil hnil) "a" (.str (holds_written "2")) hlast)
  have happly := fits_member (.next hnil hnil) "apply" (.list (.endItems true hnil)) hend
  exact (fits_oneItem (.object (fits_member (.first hnil) "when" (.object hmembers) happly))).spelledBy

theorem reordered_testedTwice : Reordered testedTwice testedTwiceReordered := by
  have hkey : "OR" = "OR" ∨ "OR" = "AND" := .inl rfl
  have hitems : Condition.Permutes (.object _) (.object _) :=
    .items hkey (.swap (.object [property "c" "4"]) (.object [property "b" "3"]) [])
      [property "a" "1|2"] [property "a" "2"]
  have hfirst : ∀ m m' m'' : Member, [m, m', m''].Perm [m', m'', m] := fun m m' m'' =>
    (List.Perm.swap m' m [m'']).trans ((List.Perm.swap m'' m []).cons m')
  refine .step (.step (.refl testedTwice) (.intro (.here hitems) [] [] [] _)) ?_
  exact .intro (.here (.members (hfirst _ _ _))) [] [] [] _

/-- A property that is tested twice on both sides of a list, and the same from back to front: both are read. -/
theorem parse_reordered_testedTwice :
    Reordered testedTwice testedTwiceReordered ∧ testedTwice.SpelledBy testedTwiceText ∧
      testedTwiceReordered.SpelledBy testedTwiceReorderedText ∧
      Fault.words? (parse (α := VariantPool) .standard .document testedTwiceText) = none ∧
      Together Agrees (parse .standard .document testedTwiceText)
        (parse .standard .document testedTwiceReorderedText) :=
  ⟨reordered_testedTwice, spelledBy_testedTwice, spelledBy_testedTwiceReordered, by decide +kernel,
    parse_reordered reordered_testedTwice .standard spelledBy_testedTwice spelledBy_testedTwiceReordered⟩

end Multipart

end BlockModel
