import BlockModel.Condition.Json
import BlockModel.Proofs.Scan.Judges

/-! What is made of a condition whose text has the right form. The judgement of an outline takes the same way as the
reader, with the limit on its levels and the room for lists and objects; every text with the outline is read to it. -/

namespace BlockModel.Condition

open Outline

/-- The value of a property. A list or object is refused for its kind, if there is room to enter it. -/
def judgeValue (room : Nat) : Outline → Except Failure String
  | .bool b => .ok (boolValue b)
  | .str s => text s
  | .list _ => if room = 0 then tooDeep else .error (.of (.data (.wrongType .list expectedValue)))
  | .object _ => if room = 0 then tooDeep else .error (.of (.data (.wrongType .object expectedValue)))
  | o => o.refused expectedValue

/-- The condition that a member of a condition object stands for; a comment stands for none. -/
def judgeMember (value : Outline → Except Failure String) (list : Outline → Except Failure (List Condition))
    (key : String) (o : Outline) : Except Failure (Option Condition) :=
  match Key.ofName key with
  | .comment => .ok none
  | .disjunction => (fun cs => some (.any cs)) <$> list o
  | .conjunction => (fun cs => some (.all cs)) <$> list o
  | .property name => (fun values => some (test name values)) <$> value o

/-- A member added to the conditions so far, the latest first. -/
def addMember (value : Outline → Except Failure String) (list : Outline → Except Failure (List Condition))
    (sofar : List Condition) (key : String) (o : Outline) : Except Failure (List Condition) :=
  (fun c => c.toList ++ sofar) <$> judgeMember value list key o

mutual
/-- A condition object at a level, while so many more lists and objects may be opened. -/
def judge (limit : Nat) : (room level : Nat) → Outline → Except Failure Condition
  | 0, _ => asObject expectedObject fun _ => tooDeep
  | room + 1, level => asObject expectedObject fun ms =>
    if limit < level then .error (.of (.data (.conditionTooDeep limit)))
    else (fun reversed => and reversed.reverse) <$>
      judgeMembers (addMember (judgeValue room) (judgeList limit room (level + 1))) [] ms

def judgeList (limit : Nat) : (room level : Nat) → Outline → Except Failure (List Condition)
  | 0, _ => asList expectedList fun _ => tooDeep
  | room + 1, level => asList expectedList fun os => os.mapM (judge limit room level)
end

/-- What a member of a condition object comes to as a whole. -/
def memberCondition (value : Outline → Except Failure String) (list : Outline → Except Failure (List Condition))
    (m : Member) : Except Failure (Option Condition) :=
  text m.1 >>= fun key => judgeMember value list key m.2

/-- Every member is judged by itself, whatever conditions were met so far. -/
theorem judgeMembers_addMember (value : Outline → Except Failure String)
    (list : Outline → Except Failure (List Condition)) (sofar : List Condition) (ms : List Member) :
    judgeMembers (addMember value list) sofar ms =
      (fun cs => (cs.filterMap id).reverse ++ sofar) <$> ms.mapM (memberCondition value list) := by
  induction ms generalizing sofar with
  | nil => rfl
  | cons m rest ih =>
      have hstep : (text m.1 >>= fun key => addMember value list sofar key m.2) =
          (fun c => c.toList ++ sofar) <$> memberCondition value list m := by
        rw [memberCondition]
        rcases text m.1 with e | key <;> rfl
      rw [judgeMembers_cons, hstep, List.mapM_cons]
      rcases memberCondition value list m with e | c
      · rfl
      · have hsofar : ∀ cs : List (Option Condition), (cs.filterMap id).reverse ++ (c.toList ++ sofar) =
            ((c :: cs).filterMap id).reverse ++ sofar := by
          intro cs
          cases c <;> simp
        refine (ih (c.toList ++ sofar)).trans ?_
        rcases rest.mapM (memberCondition value list) with e | cs
        · rfl
        · exact congrArg Except.ok (hsofar cs)

theorem judge_object (limit room level : Nat) (ms : List Member) :
    judge limit (room + 1) level (.object ms) =
      if limit < level then .error (.of (.data (.conditionTooDeep limit)))
      else (fun reversed => and reversed.reverse) <$>
        judgeMembers (addMember (judgeValue room) (judgeList limit room (level + 1))) [] ms := rfl

theorem judgeList_list (limit room level : Nat) (os : List Outline) :
    judgeList limit (room + 1) level (.list os) = os.mapM (judge limit room level) := rfl

/-- A condition object that is not too deep is the conjunction of what its members come to. -/
theorem judge_object_of_le {limit level : Nat} (hlevel : level ≤ limit) (room : Nat) (ms : List Member) :
    judge limit (room + 1) level (.object ms) =
      (fun cs => and (cs.filterMap id)) <$>
        ms.mapM (memberCondition (judgeValue room) (judgeList limit room (level + 1))) := by
  rw [judge_object, if_neg (Nat.not_lt.2 hlevel), judgeMembers_addMember, Functor.map_map]
  simp only [List.append_nil, List.reverse_reverse]

section Keys

variable (value : Outline → Except Failure String) (list : Outline → Except Failure (List Condition)) (o : Outline)

theorem judgeMember_disjunction :
    judgeMember value list "OR" o = (fun cs => some (Condition.any cs)) <$> list o := rfl

theorem judgeMember_conjunction :
    judgeMember value list "AND" o = (fun cs => some (Condition.all cs)) <$> list o := rfl

theorem judgeMember_comment : judgeMember value list "__comment" o = .ok none := rfl

end Keys

/-- A change within a condition: of the condition object itself or, at any depth, of an object in one of the lists
under `OR` and `AND`. -/
inductive ChangedWithin (change : Outline → Outline → Prop) : Outline → Outline → Prop where
  | here {o o' : Outline} (h : change o o') : ChangedWithin change o o'
  | nested {key : String} {o o' : Outline} (hkey : key = "OR" ∨ key = "AND") (h : ChangedWithin change o o')
      (before after : List Member) (left right : List Outline) :
      ChangedWithin change (.object (before ++ (.ok key, .list (left ++ o :: right)) :: after))
        (.object (before ++ (.ok key, .list (left ++ o' :: right)) :: after))

theorem judges_scanValueWith {onList onObject : Scan String} {room : Nat} {o : Outline}
    (hlist : ∀ os, o = .list os → Scan.JudgesList onList os (judgeValue room o) [])
    (hobject : ∀ ms, o = .object ms → Scan.JudgesObject onObject ms (judgeValue room o) []) :
    Scan.Judges (scanValueWith onList onObject) o (judgeValue room o) [] := by
  intro w s t l hw ho ht
  obtain ⟨b, r, hs, hb, hstart⟩ := Scan.gives_valueStart_outline (t := t) (l := l) hw ho
  have hmismatch : ∀ v, Scan.Comes (Scan.mismatch expectedValue b : Scan String) ⟨s ++ t, l⟩
      (o.refused expectedValue) v := by
    intro v
    subst hs
    exact Scan.comes_mismatch ho hb ht expectedValue
  refine hstart.before ?_
  rw [hb]
  cases ho with
  | null => exact hmismatch _
  | number x => exact hmismatch _
  | bool x =>
      rw [List.append_nil]
      exact (Scan.gives_boolWord x).before (.pure _ _)
  | str h =>
      rw [List.append_nil]
      exact Scan.comes_quoted h
  | list hos => exact hlist _ rfl _ t l hos
  | object hms => exact hobject _ rfl _ t l hms

theorem judges_scanValue (room : Nat) (o : Outline) : Scan.Judges (scanValue room) o (judgeValue room o) [] := by
  cases room with
  | zero =>
      refine judges_scanValueWith ?_ ?_
      · rintro os rfl
        exact Scan.judgesList_tooDeep os
      · rintro ms rfl
        exact Scan.judgesObject_tooDeep ms
  | succ room =>
      refine judges_scanValueWith ?_ ?_
      · rintro os rfl s t l -
        exact Scan.comes_inList (.fail _ _)
      · rintro ms rfl s t l -
        exact Scan.comes_inObject (.fail _ _)

theorem judgesMember_scanMember {scanValue : Scan String} {scanList : Scan (List Condition)}
    {value : Outline → Except Failure String} {list : Outline → Except Failure (List Condition)} {o : Outline}
    (hvalue : Scan.Judges scanValue o (value o) []) (hlist : Scan.Judges scanList o (list o) [])
    (sofar : List Condition) (key : String) :
    Scan.JudgesMember (scanMember scanValue scanList sofar key) o (addMember value list sofar key o) [] := by
  rw [scanMember, addMember, judgeMember]
  cases Key.ofName key with
  | comment => exact Scan.judgesMember_skip o sofar
  | disjunction =>
      rw [Functor.map_map]
      exact hlist.judgesMember fun cs => .any cs :: sofar
  | conjunction =>
      rw [Functor.map_map]
      exact hlist.judgesMember fun cs => .all cs :: sofar
  | property name =>
      rw [Functor.map_map]
      exact hvalue.judgesMember fun values => test name values :: sofar

/-- Objects and lists of conditions, one inside the other. -/
theorem judges_scan_and_scanList (limit room level : Nat) (o : Outline) :
    Scan.Judges (scan limit room level) o (judge limit room level o) [] ∧
      Scan.Judges (scanList limit room level) o (judgeList limit room level o) [] := by
  induction room generalizing level o with
  | zero =>
      exact ⟨Scan.judges_expectObject fun ms _ => Scan.judgesObject_tooDeep ms,
        Scan.judges_expectList fun os _ => Scan.judgesList_tooDeep os⟩
  | succ room ih =>
      refine ⟨Scan.judges_expectObject fun ms _ => ?_, Scan.judges_expectList fun os _ => ?_⟩
      · by_cases hdeep : limit < level
        · rw [if_pos hdeep, if_pos hdeep]
          exact fun s t l _ => Scan.comes_inObject (.fail _ _)
        · rw [if_neg hdeep, if_neg hdeep]
          exact Scan.judgesObject_members (fun key o _ sofar =>
            judgesMember_scanMember (judges_scanValue room o) (ih (level + 1) o).2 sofar key) [] _
      · exact Scan.judgesList_items fun o _ => (ih level o).1

theorem judges_scan (limit room level : Nat) (o : Outline) :
    Scan.Judges (scan limit room level) o (judge limit room level o) [] :=
  (judges_scan_and_scanList limit room level o).1

end BlockModel.Condition
