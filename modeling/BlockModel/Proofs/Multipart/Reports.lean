import BlockModel.Proofs.Multipart.Denotation
import BlockModel.Proofs.Multipart.Extension
import BlockModel.Proofs.Multipart.Formed
import BlockModel.Proofs.Multipart.Judgement
import Mathlib.Data.List.Forall2

/-! What is reported of a document that is read, said of the JSON alone. For each item of the list there is a line for
every key that is passed over, in order, and one more if nothing is applied, which shows the condition of the case. So
every item is a case of the multipart or a line. -/

namespace BlockModel

namespace Outline

section Value

variable {ε α β : Type} {a : α} {b : β}

/-- What every item comes to. -/
theorem forall₂_of_mapM_eq_ok {f : α → Except ε β} {as : List α} {bs : List β} (h : as.mapM f = .ok bs) :
    List.Forall₂ (fun a b => f a = .ok b) as bs := by
  induction as generalizing bs with
  | nil =>
      obtain rfl : [] = bs := Except.ok.inj h
      exact .nil
  | cons a rest ih =>
      rw [List.mapM_cons] at h
      obtain ⟨b, more, hb, hmore, rfl⟩ := (both_eq_ok_iff List.cons bs).1 h
      exact .cons hb (ih hmore)

theorem filterMap_eq_flatMap {f : α → List β} {as : List α} {bs : List (Option β)}
    (h : List.Forall₂ (fun a b => b.toList = f a) as bs) : bs.filterMap id = as.flatMap f := by
  induction h with
  | nil => rfl
  | @cons a b as bs hb _ ih =>
      rw [List.flatMap_cons, ← ih, ← hb]
      cases b <;> rfl

theorem text_eq_ok {s : Except GrammarFault String} {str : String} (h : text s = .ok str) : s = .ok str := by
  rcases s with fault | s
  · cases h
  · exact congrArg Except.ok (Except.ok.inj h)

theorem refused_ne_ok (expected : String) (o : Outline) : o.refused expected ≠ .ok a := by
  intro h
  obtain ⟨found, -, h⟩ := bind_eq_ok_iff.1 h
  cases h

end Value

variable {α : Type} {a : α} {expected : String} {o : Outline}

theorem exists_of_asList_eq_ok {inside : List Outline → Except Failure α} (h : asList expected inside o = .ok a) :
    ∃ os, o = .list os ∧ inside os = .ok a := by
  cases o with
  | list os => exact ⟨os, rfl, h⟩
  | _ => exact absurd h (refused_ne_ok expected _)

theorem exists_of_asObject_eq_ok {inside : List Member → Except Failure α} (h : asObject expected inside o = .ok a) :
    ∃ ms, o = .object ms ∧ inside ms = .ok a := by
  cases o with
  | object ms => exact ⟨ms, rfl, h⟩
  | _ => exact absurd h (refused_ne_ok expected _)

mutual
/-- The value with an outline, where zero stands for a number beyond double precision and no text for a string that
holds none. -/
def filled : Outline → Json
  | null => .null
  | bool b => .bool b
  | number n => .number (n.getD (.int 0))
  | str s => .str (s.toOption.getD "")
  | list os => .list (filledItems os)
  | object ms => .object (filledMembers ms)

def filledItems : List Outline → List Json
  | [] => []
  | o :: rest => o.filled :: filledItems rest

def filledMembers : List Member → List (String × Json)
  | [] => []
  | (key, o) :: rest => (key.toOption.getD "", o.filled) :: filledMembers rest
end

theorem filledItems_eq_map (os : List Outline) : filledItems os = os.map filled := by
  induction os with
  | nil => rfl
  | cons o rest ih => rw [filledItems, List.map_cons, ih]

theorem filledMembers_eq_map (ms : List Member) :
    filledMembers ms = ms.map fun m => (m.1.toOption.getD "", m.2.filled) := by
  induction ms with
  | nil => rfl
  | cons m rest ih => rw [filledMembers, List.map_cons, ih]

end Outline

/-- A value of which everything can be read is the value of its outline. -/
theorem Json.filled_outline (j : Json) : j.outline.filled = j := by
  induction hn : j.nesting using Nat.strongRecOn generalizing j with
  | ind n ih =>
  cases j with
  | list js =>
      have hitems : ∀ j ∈ js, j.outline.filled = j := fun j hj => ih j.nesting (hn ▸ Json.nesting_lt_list hj) j rfl
      rw [outline, outlineItems_eq_map, Outline.filled, Outline.filledItems_eq_map, List.map_map]
      exact congrArg Json.list ((List.map_congr_left hitems).trans (List.map_id' _))
  | object ms =>
      have hmembers : ∀ m ∈ ms, (m.1, m.2.outline.filled) = m := fun m hm =>
        congrArg (m.1, ·) (ih m.2.nesting (hn ▸ Json.nesting_lt_object hm) m.2 rfl)
      rw [outline, outlineMembers_eq_map, Outline.filled, Outline.filledMembers_eq_map, List.map_map]
      exact congrArg Json.object ((List.map_congr_left hmembers).trans (List.map_id' _))
  | _ => rfl

open Outline

namespace Condition

theorem valueOfJson_filled {room : Nat} {o : Outline} {values : String} (h : judgeValue room o = .ok values) :
    valueOfJson o.filled = .ok values := by
  cases o with
  | bool b => exact congrArg Except.ok (Except.ok.inj h)
  | str s =>
      obtain rfl := text_eq_ok h
      rfl
  | list os | object ms =>
      rw [judgeValue] at h
      split at h <;> cases h
  | null | number n => exact absurd h (refused_ne_ok expectedValue _)

/-- A member means what it is judged to be. -/
theorem conjunct_filled {limit room level : Nat} {m : Member} {c : Option Condition}
    (hlist : ∀ {cs}, judgeList limit room level m.2 = .ok cs → cs = meanings m.2.filled)
    (h : memberCondition (judgeValue room) (judgeList limit room level) m = .ok c) :
    c.toList = conjunct (m.1.toOption.getD "") m.2.filled := by
  obtain ⟨s, o⟩ := m
  obtain ⟨key, hkey, h⟩ := bind_eq_ok_iff.1 h
  obtain rfl := text_eq_ok hkey
  show c.toList = conjunct key o.filled
  by_cases hreserved : key ∈ reservedKeys
  · simp only [reservedKeys, List.mem_cons, List.not_mem_nil, or_false] at hreserved
    rcases hreserved with rfl | rfl | rfl
    · rw [judgeMember_disjunction] at h
      obtain ⟨cs, hcs, rfl⟩ := map_eq_ok_iff.1 h
      rw [conjunct_or, ← hlist hcs]
      rfl
    · rw [judgeMember_conjunction] at h
      obtain ⟨cs, hcs, rfl⟩ := map_eq_ok_iff.1 h
      rw [conjunct_and, ← hlist hcs]
      rfl
    · rw [judgeMember_comment] at h
      obtain rfl := Except.ok.inj h
      exact (conjunct_comment _).symm
  · rw [judgeMember, ofName_property hreserved] at h
    obtain ⟨values, hvalues, rfl⟩ := map_eq_ok_iff.1 h
    rw [conjunct_property hreserved, ← test_eq_property key (valueOfJson_filled hvalues)]
    rfl

/-- What a condition is judged to be is what its value means, for objects and for lists of them. -/
theorem judge_meaning (limit room level : Nat) (o : Outline) :
    (∀ {c}, judge limit room level o = .ok c → c = meaning o.filled) ∧
      ∀ {cs}, judgeList limit room level o = .ok cs → cs = meanings o.filled := by
  induction room generalizing level o with
  | zero =>
      constructor
      · intro c h
        obtain ⟨ms, rfl, h⟩ := exists_of_asObject_eq_ok h
        cases h
      · intro cs h
        obtain ⟨os, rfl, h⟩ := exists_of_asList_eq_ok h
        cases h
  | succ room ih =>
      constructor
      · intro c h
        obtain ⟨ms, rfl, hobject⟩ := exists_of_asObject_eq_ok h
        by_cases hlevel : level ≤ limit
        · rw [judge_object_of_le hlevel] at h
          obtain ⟨cs, hcs, rfl⟩ := map_eq_ok_iff.1 h
          have hmembers := (forall₂_of_mapM_eq_ok hcs).imp fun m c hm => conjunct_filled (ih (level + 1) m.2).2 hm
          rw [filled, meaning, conjuncts_eq_flatMap, filledMembers_eq_map, List.flatMap_map, and_eq_conjunction]
          exact congrArg conjunction (filterMap_eq_flatMap hmembers)
        · rw [if_pos (Nat.lt_of_not_le hlevel)] at hobject
          cases hobject
      · intro cs h
        obtain ⟨os, rfl, h⟩ := exists_of_asList_eq_ok h
        have hitems := (forall₂_of_mapM_eq_ok h).imp fun o c hc => ((ih level o).1 hc).symm
        have hcs : List.Forall₂ Eq (os.map (meaning ∘ filled)) cs := List.forall₂_map_left_iff.2 hitems
        rw [filled, meanings, meaningsOfItems_eq_map, filledItems_eq_map, List.map_map]
        rw [List.forall₂_eq_eq_eq] at hcs
        exact hcs.symm

end Condition

namespace Multipart

/-- One line for every key that is passed over, also where it is met again. -/
def skippedLines (ms : List (String × Json)) : List LogLine :=
  ((ms.map (·.1)).filter fun key => key ≠ "when" ∧ key ≠ "apply").map skippedKey

/-- The last condition of a case as it is displayed. -/
def whenText (ms : List (String × Json)) : String :=
  match lastValue? "when" ms with
  | some j => (Condition.meaning j).display
  | none => "true"

/-- The line of a case that applies nothing. -/
def droppedLines (ms : List (String × Json)) : List LogLine :=
  if "apply" ∈ ms.map (·.1) then []
  else [⟨.debug, "Dropping multipart case without apply (when " ++ whenText ms ++ ")"⟩]

def caseReports : Json → List LogLine
  | .object ms => skippedLines ms ++ droppedLines ms
  | _ => []

/-- The number of the lines that tell of a case left out. -/
def droppedCount (log : List LogLine) : Nat := log.countP fun line => line.level = .debug

theorem skippedLines_cons (key : String) (j : Json) (rest : List (String × Json)) :
    skippedLines ((key, j) :: rest) = memberLines key ++ skippedLines rest := by
  rw [skippedLines, List.map_cons, memberLines, CaseKey.ofName]
  by_cases hwhen : key = "when"
  · rw [if_pos hwhen, List.filter_cons_of_neg (by simp [hwhen])]
    rfl
  · rw [if_neg hwhen]
    by_cases happly : key = "apply"
    · rw [if_pos happly, List.filter_cons_of_neg (by simp [happly])]
      rfl
    · rw [if_neg happly, List.filter_cons_of_pos (by simp [hwhen, happly])]
      rfl

theorem droppedCount_append (log log' : List LogLine) :
    droppedCount (log ++ log') = droppedCount log + droppedCount log' := List.countP_append

theorem droppedCount_skippedLines (ms : List (String × Json)) : droppedCount (skippedLines ms) = 0 := by
  rw [droppedCount, skippedLines, List.countP_map, List.countP_eq_zero]
  exact fun key _ => Bool.false_ne_true

/-- What one member does to a draft. -/
theorem judgeMember_draft {limit room : Nat} {d d' : CaseDraft VariantPool} {key : String} {o : Outline}
    (h : judgeMember limit room d key o = .ok d') :
    d'.condition = (if key = "when" then some (Condition.meaning o.filled) else d.condition) ∧
      (d'.apply = none ↔ d.apply = none ∧ key ≠ "apply") := by
  by_cases hwhen : key = "when"
  · subst hwhen
    rw [judgeMember_when] at h
    obtain ⟨c, hc, rfl⟩ := map_eq_ok_iff.1 h
    obtain rfl := (Condition.judge_meaning limit room 1 o).1 hc
    exact ⟨rfl, (and_iff_left (by decide)).symm⟩
  · rw [if_neg hwhen]
    by_cases happly : key = "apply"
    · subst happly
      rw [judgeMember_apply] at h
      obtain ⟨a, -, rfl⟩ := map_eq_ok_iff.1 h
      exact ⟨rfl, by simp⟩
    · rw [judgeMember_other limit room d o hwhen happly] at h
      obtain rfl := Except.ok.inj h
      exact ⟨rfl, (and_iff_left happly).symm⟩

/-- What is known of a draft after members that are read into it, and what was reported of them. -/
structure DraftAfter (d : CaseDraft VariantPool) (ms : List Member) (d' : CaseDraft VariantPool) : Prop where
  condition : d'.condition = (lastValue? "when" (filledMembers ms)).elim d.condition fun j => some (Condition.meaning j)
  apply : d'.apply = none ↔ d.apply = none ∧ "apply" ∉ (filledMembers ms).map (·.1)
  log : logMembers memberLines ms = skippedLines (filledMembers ms)

theorem judgeMembers_draft {limit room : Nat} {d d' : CaseDraft VariantPool} {ms : List Member}
    (h : judgeMembers (judgeMember limit room) d ms = .ok d') : DraftAfter d ms d' := by
  induction ms generalizing d with
  | nil =>
      obtain rfl : d = d' := Except.ok.inj h
      exact ⟨rfl, (and_iff_left List.not_mem_nil).symm, rfl⟩
  | cons m rest ih =>
      obtain ⟨s, o⟩ := m
      rw [judgeMembers_cons] at h
      obtain ⟨d1, hmember, hrest⟩ := bind_eq_ok_iff.1 h
      obtain ⟨key, hkey, hmember⟩ := bind_eq_ok_iff.1 hmember
      obtain rfl := text_eq_ok hkey
      obtain ⟨hcondition, happly⟩ := judgeMember_draft hmember
      have hafter := ih hrest
      have hfilled : filledMembers ((.ok key, o) :: rest) = (key, o.filled) :: filledMembers rest := rfl
      constructor
      · rw [hafter.condition, hcondition, hfilled, lastValue?_cons]
        cases lastValue? "when" (filledMembers rest) with
        | some j => rfl
        | none =>
            rw [Option.none_or]
            split <;> rfl
      · rw [hafter.apply, happly, hfilled, List.map_cons, List.mem_cons, not_or, and_assoc, ne_comm]
      · rw [hfilled, skippedLines_cons, ← hafter.log]
        rfl

/-- The condition of a draft is shown as that of its members. -/
theorem DraftAfter.droppedCase_eq {d : CaseDraft VariantPool} {ms : List Member} (h : DraftAfter .empty ms d) :
    droppedCase d.when =
      ⟨.debug, "Dropping multipart case without apply (when " ++ whenText (filledMembers ms) ++ ")"⟩ := by
  have hwhen : d.when.display = whenText (filledMembers ms) := by
    rw [CaseDraft.when, h.condition, whenText]
    cases lastValue? "when" (filledMembers ms) <;> rfl
  rw [droppedCase, hwhen]

/-- An item is reported as its value says, and is a case or is counted among those left out. -/
theorem caseLines_eq_caseReports {limit room : Nat} {o : Outline} {c : Option (Case VariantPool)}
    (h : judgeCase limit room o = .ok c) :
    caseLines limit room o = caseReports o.filled ∧
      c.toList.length + droppedCount (caseReports o.filled) = 1 := by
  cases room with
  | zero =>
      obtain ⟨ms, rfl, h⟩ := exists_of_asObject_eq_ok h
      cases h
  | succ room =>
      obtain ⟨ms, rfl, h⟩ := exists_of_asObject_eq_ok h
      obtain ⟨d, hd, rfl⟩ := map_eq_ok_iff.1 h
      have hafter := judgeMembers_draft hd
      rw [caseLines, hafter.log, hd, filled, caseReports, droppedCount_append, droppedCount_skippedLines, droppedLines]
      show _ ++ draftLines d = _ ∧ _
      rw [draftLines]
      have happly : d.apply = none ↔ "apply" ∉ (filledMembers ms).map (·.1) := hafter.apply.trans (and_iff_right rfl)
      rw [CaseDraft.case?]
      cases ha : d.apply with
      | none =>
          rw [if_neg (happly.1 ha)]
          exact ⟨congrArg (_ ++ [·]) hafter.droppedCase_eq, rfl⟩
      | some a =>
          have hmem := not_not.1 (mt happly.2 (ha ▸ Option.some_ne_none a))
          rw [if_pos hmem]
          exact ⟨rfl, rfl⟩

/-- The same of a list of items. -/
theorem lines_eq_caseReports {limit room : Nat} {os : List Outline} {cs : List (Option (Case VariantPool))}
    (h : List.Forall₂ (fun o c => judgeCase limit room o = .ok c) os cs) :
    os.flatMap (caseLines limit room) = (filledItems os).flatMap caseReports ∧
      (filledItems os).length =
        (cs.filterMap id).length + droppedCount ((filledItems os).flatMap caseReports) := by
  induction h with
  | nil => exact ⟨rfl, rfl⟩
  | @cons o c os cs hc _ ih =>
      obtain ⟨hlines, hcount⟩ := caseLines_eq_caseReports hc
      rw [filledItems, List.flatMap_cons, List.flatMap_cons, hlines, ih.1, droppedCount_append, List.length_cons, ih.2]
      refine ⟨rfl, ?_⟩
      have hlength : ((c :: cs).filterMap id).length = c.toList.length + (cs.filterMap id).length := by
        cases c
        · simp
        · simp [Nat.add_comm]
      omega

/-- The outline of a document that is read is judged to be what is read, and its lines are reported. -/
theorem judged_of_parse {limits : Limits} {octets : List UInt8} {o : Outline} {m : Multipart VariantPool}
    (ho : o.SpelledBy octets) (h : parse limits .document octets = .ok m) :
    judge limits Scan.greatestNesting o = .ok m ∧
      (read (α := VariantPool) limits .document octets).2.log = lines limits Scan.greatestNesting o := by
  have hcomes := Scan.comes_document (judges_scan limits Scan.greatestNesting o) ho
  have hread : (read (α := VariantPool) limits .document octets).1 = .ok m := (Scan.mapError_eq_ok_iff _).1 h
  rw [read, Scan.runOn] at hread ⊢
  cases hjudge : judge limits Scan.greatestNesting o with
  | error e =>
      rw [hjudge] at hcomes
      obtain ⟨e', c, hrun, -⟩ := hcomes (.ofOctets octets) rfl
      rw [hrun] at hread
      cases hread
  | ok m' =>
      rw [hjudge] at hcomes
      obtain ⟨c, hrun, hview⟩ := hcomes (.ofOctets octets) rfl
      rw [hrun] at hread ⊢
      exact ⟨hread, congrArg View.log hview⟩

/-- The outline of a document that is read is one of a list. The lines are those of its items one after another, and
every item is a case or is counted among those left out. -/
theorem reports_of_outline {limits : Limits} {octets : List UInt8} {o : Outline} {m : Multipart VariantPool}
    (ho : o.SpelledBy octets) (h : parse limits .document octets = .ok m) :
    ∃ js, o.filled = .list js ∧
      (read (α := VariantPool) limits .document octets).2.log = js.flatMap caseReports ∧
      js.length = m.cases.length + droppedCount (read (α := VariantPool) limits .document octets).2.log := by
  obtain ⟨hjudge, hlog⟩ := judged_of_parse ho h
  obtain ⟨os, rfl, -⟩ := exists_of_asList_eq_ok hjudge
  rw [Scan.greatestNesting, judge_list] at hjudge
  obtain ⟨cs, hcs, rfl⟩ := map_eq_ok_iff.1 hjudge
  obtain ⟨hlines, hcount⟩ := lines_eq_caseReports (forall₂_of_mapM_eq_ok hcs)
  rw [hlog.trans hlines]
  exact ⟨filledItems os, rfl, rfl, hcount⟩

/-- Where a text spells a value, the lines are those of the items of that value. -/
theorem reports_of_spelledBy {limits : Limits} {octets : List UInt8} {j : Json} {m : Multipart VariantPool}
    (hj : j.SpelledBy octets) (h : parse limits .document octets = .ok m) :
    ∃ js, j = .list js ∧
      (read (α := VariantPool) limits .document octets).2.log = js.flatMap caseReports ∧
      js.length = m.cases.length + droppedCount (read (α := VariantPool) limits .document octets).2.log := by
  obtain ⟨js, hjs, hreports⟩ := reports_of_outline hj.outline h
  rw [j.filled_outline] at hjs
  exact ⟨js, hjs, hreports⟩

/-- A document that is read is a list, and the lines that are reported on the way are those of its items one after
another, so that every item is a case or is counted among those left out. Of a text that spells a value these are the
items of that value, by `reports_of_spelledBy`. -/
theorem parse_reports (limits : Limits) {octets : List UInt8} {m : Multipart VariantPool}
    (h : parse limits .document octets = .ok m) :
    (∃ o : Outline, o.SpelledBy octets) ∧
      ∀ o : Outline, o.SpelledBy octets →
        ∃ js, o.filled = .list js ∧
          (read (α := VariantPool) limits .document octets).2.log = js.flatMap caseReports ∧
          js.length = m.cases.length + droppedCount (read (α := VariantPool) limits .document octets).2.log := by
  refine ⟨?_, fun o ho => reports_of_outline ho h⟩
  obtain ⟨c, hscan, hblanks⟩ := exists_scan_of_parse h
  obtain ⟨w, s, js, hw, hjs, hrest⟩ :=
    consumes_scan PayloadKind.pool.consumes_scan limits Scan.greatestNesting _ _ _ _ hscan
  obtain ⟨o, ho⟩ := exists_fits hjs
  exact ⟨o, w, s, c.rest, hw, ho, hblanks, hrest⟩

/-- A case with two conditions and a key met twice, one that applies an empty pool, and one without any members. -/
def reportedCases : Outline :=
  .list [
    .object [(.ok "x", .number hugeNumeral.value?), (.ok "when", .object [(.ok "a", .str (.ok "1"))]), (.ok "x", .null),
      (.ok "when", .object [(.ok "a", .str (.ok "2"))])],
    .object [(.ok "apply", .list []), (.ok "y", .list [])],
    .object []]

def reportedText : List UInt8 :=
  Text.Utf8.encode ("[\x7b\"x\":1e999,\"when\":\x7b\"a\":\"1\"\x7d,\"x\":null,\"when\":\x7b\"a\":\"2\"\x7d\x7d," ++
    "\x7b\"apply\":[],\"y\":[]\x7d,\x7b\x7d]").toList

theorem spelledBy_reportedText : reportedCases.SpelledBy reportedText := by
  have hnil : Blanks [] := blanks_nil
  have hend : Fits (.members false []) [] := .endMembers false hnil
  have hnone : Fits (.value (.list [])) _ := .list (.endItems true hnil)
  have htest (values : String) := Fits.object (fits_member (.first hnil) "a" (.str (holds_written values)) hend)
  have hdropped := Fits.object (fits_member (.first hnil) "x" (.number hugeNumeral)
    (fits_member (.next hnil hnil) "when" (htest "1")
      (fits_member (.next hnil hnil) "x" .null (fits_member (.next hnil hnil) "when" (htest "2") hend))))
  have hkept := Fits.object (fits_member (.first hnil) "apply" hnone (fits_member (.next hnil hnil) "y" hnone hend))
  have hempty := Fits.object (.endMembers true hnil)
  exact (Fits.list (.items (.first hnil) hdropped
    (.items (.next hnil hnil) hkept (.items (.next hnil hnil) hempty (.endItems false hnil))))).spelledBy

/-- Three items are one case and two lines that tell of a case left out. -/
theorem parse_reports_reportedText :
    ∃ m : Multipart VariantPool, parse .standard .document reportedText = .ok m ∧
      reportedCases.SpelledBy reportedText ∧
      (read (α := VariantPool) .standard .document reportedText).2.log =
        [skippedKey "x", skippedKey "x", droppedCase (.property "a" ["2"]), skippedKey "y", droppedCase .always] ∧
      3 = m.cases.length + 2 := by
  obtain ⟨m, hm⟩ : ∃ m : Multipart VariantPool, parse .standard .document reportedText = .ok m :=
    Scan.exists_ok_of_isSome (by decide +kernel)
  obtain ⟨js, hjs, hlog, hlength⟩ := (parse_reports .standard hm).2 reportedCases spelledBy_reportedText
  obtain rfl := Json.list.inj hjs
  rw [hlog] at hlength ⊢
  exact ⟨m, hm, spelledBy_reportedText, rfl, hlength⟩

end Multipart

end BlockModel
