import BlockModel.Documents
import BlockModel.Proofs.Condition.Judgement
import BlockModel.Proofs.Fault
import BlockModel.Variant.Json

/-! What comes of any document whose text has the right form, also where its escapes make up no characters, its numbers
are beyond double precision or its lists and objects nest beyond what can be read. The judgement of its outline is the
multipart that is read, or tells the kind and the words of the fault. -/

namespace BlockModel

open Outline

namespace VariantPool

/-- The pool in a value, if there is one. -/
def judgeTree (j : Json) : Except Failure VariantPool :=
  match ofJson? j with
  | some pool => .ok pool
  | none => .error (.of (.data .noAlternative))

/-- The judgement of a pool: the value is read whole before it is decided what it is. -/
def judge (room : Nat) (o : Outline) : Except Failure VariantPool := o.tree room >>= judgeTree

theorem judges_scan (room : Nat) (o : Outline) : Scan.Judges (scan room) o (judge room o) [] := by
  intro w s t l hw ho ht
  refine (Scan.judges_tree room o w s t l hw ho ht).bind fun j _ => ?_
  rw [judgeTree]
  cases ofJson? j with
  | none => exact .fail _ _
  | some pool => exact .pure _ _

theorem judge_outline {room : Nat} {j : Json} {pool : VariantPool} (hroom : j.nesting ≤ room)
    (hpool : ofJson? j = some pool) : judge room j.outline = .ok pool := by
  rw [judge, tree_outline hroom]
  show judgeTree j = .ok pool
  rw [judgeTree, hpool]

end VariantPool

namespace Multipart

def judgeMember (limit room : Nat) (d : CaseDraft VariantPool) (key : String) (o : Outline) :
    Except Failure (CaseDraft VariantPool) :=
  match CaseKey.ofName key with
  | .when => (fun c => { d with condition := some c }) <$> Condition.judge limit room 1 o
  | .apply => (fun a => { d with apply := some a }) <$> (VariantPool.judge room o).mapError .ofPayload
  | .other _ => .ok d

/-- What a case comes to; one that applies nothing is left out. -/
def judgeCase (limit : Nat) : Nat → Outline → Except Failure (Option (Case VariantPool))
  | 0 => asObject expectedCase fun _ => tooDeep
  | room + 1 => asObject expectedCase fun ms => CaseDraft.case? <$> judgeMembers (judgeMember limit room) .empty ms

def judge (limits : Limits) : Nat → Outline → Except Failure (Multipart VariantPool)
  | 0 => asList expectedList fun _ => tooDeep
  | room + 1 => asList expectedList fun os =>
    (fun cs => ⟨cs.filterMap id⟩) <$> os.mapM (judgeCase limits.conditionDepth room)

section Keys

variable (limit room : Nat) (d : CaseDraft VariantPool) (o : Outline)

theorem judgeMember_when :
    judgeMember limit room d "when" o =
      (fun c => { d with condition := some c }) <$> Condition.judge limit room 1 o := rfl

theorem judgeMember_apply :
    judgeMember limit room d "apply" o =
      (fun a => { d with apply := some a }) <$> (VariantPool.judge room o).mapError .ofPayload := rfl

theorem judgeMember_other {key : String} (hwhen : key ≠ "when") (happly : key ≠ "apply") :
    judgeMember limit room d key o = .ok d := by
  have hkey : CaseKey.ofName key = .other key := by rw [CaseKey.ofName, if_neg hwhen, if_neg happly]
  rw [judgeMember, hkey]

end Keys

theorem judgeCase_object (limit room : Nat) (ms : List Member) :
    judgeCase limit (room + 1) (.object ms) =
      CaseDraft.case? <$> judgeMembers (judgeMember limit room) .empty ms := rfl

theorem judge_list (limits : Limits) (room : Nat) (os : List Outline) :
    judge limits (room + 1) (.list os) =
      (fun cs => ⟨cs.filterMap id⟩) <$> os.mapM (judgeCase limits.conditionDepth room) := rfl

/-- A change in the condition of a case. -/
inductive ChangesCondition (change : Outline → Outline → Prop) : Outline → Outline → Prop where
  | intro {o o' : Outline} (h : Condition.ChangedWithin change o o') (left right : List Outline)
      (before after : List Member) :
      ChangesCondition change (.list (left ++ .object (before ++ (.ok "when", o) :: after) :: right))
        (.list (left ++ .object (before ++ (.ok "when", o') :: after) :: right))

/-- What is reported of a member for its key. -/
def memberLines (key : String) : List LogLine :=
  match CaseKey.ofName key with
  | .other name => [skippedKey name]
  | .when => []
  | .apply => []

/-- What is reported of a draft that is complete. -/
def draftLines (d : CaseDraft VariantPool) : List LogLine :=
  match d.case? with
  | some _ => []
  | none => [droppedCase d.when]

def caseLines (limit : Nat) : Nat → Outline → List LogLine
  | room + 1, .object ms =>
    logMembers memberLines ms ++
      ((judgeMembers (judgeMember limit room) .empty ms).toOption.map draftLines).getD []
  | _, _ => []

def lines (limits : Limits) : Nat → Outline → List LogLine
  | room + 1, .list os => os.flatMap (caseLines limits.conditionDepth room)
  | _, _ => []

theorem judgesMember_scanMember (limit room : Nat) (d : CaseDraft VariantPool) (key : String) (o : Outline) :
    Scan.JudgesMember (scanMember limit room d key) o (judgeMember limit room d key o) (memberLines key) := by
  rw [scanMember, judgeMember, memberLines]
  cases CaseKey.ofName key with
  | when => exact (Condition.judges_scan limit room 1 o).judgesMember fun c => { d with condition := some c }
  | apply =>
      have hpayload : Scan.Judges (Scan.payload (VariantPool.scan room)) o
          ((VariantPool.judge room o).mapError .ofPayload) [] :=
        fun w s t l hw ho ht => (VariantPool.judges_scan room o w s t l hw ho ht).payload
      exact hpayload.judgesMember fun a => { d with apply := some a }
  | other name =>
      intro w1 w2 s t l hw1 hw2 ho ht
      have hskip := Scan.judgesMember_skip o d w1 w2 s t (l ++ [skippedKey name]) hw1 hw2 ho ht
      rw [List.append_nil] at hskip
      exact (Scan.Gives.report (skippedKey name) _).before hskip

theorem gives_scanComplete (d : CaseDraft VariantPool) (u : List UInt8) (l : List LogLine) :
    Scan.Gives (scanComplete d) ⟨u, l⟩ (.ok d.case?) ⟨u, l ++ draftLines d⟩ := by
  rw [scanComplete, draftLines]
  cases d.case? with
  | none => exact (Scan.Gives.report _ u).bind_ok (.pure none _)
  | some c =>
      rw [List.append_nil]
      exact .pure (some c) _

theorem judges_scanCase (limit room : Nat) (o : Outline) :
    Scan.Judges (scanCase limit room) o (judgeCase limit room o) (caseLines limit room o) := by
  cases room with
  | zero => exact Scan.judges_expectObject fun ms _ s t l _ => .fail _ _
  | succ room =>
      refine Scan.judges_expectObject ?_
      rintro ms rfl s t l hs
      refine Scan.comes_inObject ?_
      have hmembers := Scan.comes_members (t := t) (l := l) memberLines
        (fun key o _ d => judgesMember_scanMember limit room d key o) hs CaseDraft.empty
      rw [caseLines]
      cases hd : judgeMembers (judgeMember limit room) .empty ms with
      | error e =>
          rw [hd] at hmembers
          exact hmembers.bind_error
      | ok d =>
          rw [hd] at hmembers
          have hcomplete := gives_scanComplete d (Octet.closeObject :: t) (l ++ logMembers memberLines ms)
          rw [List.append_assoc] at hcomplete
          exact hmembers.gives.before hcomplete.comes

theorem judges_scan (limits : Limits) (room : Nat) (o : Outline) :
    Scan.Judges (scan limits room) o (judge limits room o) (lines limits room o) := by
  cases room with
  | zero => exact Scan.judges_expectList fun os _ s t l _ => .fail _ _
  | succ room =>
      refine Scan.judges_expectList ?_
      rintro os rfl s t l hs
      have hitems := Scan.comes_items (t := t) (l := l)
        (fun o (_ : o ∈ os) => judges_scanCase limits.conditionDepth room o) hs
      exact Scan.comes_inList (hitems.map fun cs : List (Option (Case VariantPool)) =>
        (⟨cs.filterMap id⟩ : Multipart VariantPool))

/-- A document comes to what its outline is judged to be. -/
theorem parse_judged (limits : Limits) {o : Outline} {octets : List UInt8}
    (hspelled : o.SpelledBy octets) :
    Fault.SameButPlace (parse limits .document octets)
      ((judge limits Scan.greatestNesting o).mapError .ofFailure) := by
  have hcomes := Scan.comes_document (judges_scan limits Scan.greatestNesting o) hspelled
  rw [parse, read, Scan.runOn]
  cases hjudge : judge limits Scan.greatestNesting o with
  | ok m =>
      rw [hjudge] at hcomes
      obtain ⟨c, hrun, -⟩ := hcomes (.ofOctets octets) rfl
      rw [hrun]
      exact .ok m
  | error e =>
      rw [hjudge] at hcomes
      obtain ⟨e', c, hrun, hcause, hpayload⟩ := hcomes (.ofOctets octets) rfl
      rw [hrun]
      refine .error (Fault.kind_ofFailure_congr hcause hpayload) ?_
      rw [Fault.message_ofFailure, Fault.message_ofFailure, hcause]

end Multipart

end BlockModel
