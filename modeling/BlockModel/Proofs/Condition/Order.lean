import BlockModel.Proofs.Condition.Evaluation
import BlockModel.Proofs.Condition.Judgement

/-! The order in which conditions are written. The members of a condition object and the items of the lists in it can
change places: the object is still refused or still read, though perhaps refused for another reason, and the condition
that is read, though perhaps put together differently, holds of the same bags of properties. -/

namespace BlockModel

open Outline

/-- Both fail, in whatever ways, or both succeed with results that are so related. -/
inductive Together {ε α β : Type} (R : α → β → Prop) : Except ε α → Except ε β → Prop where
  | error (e e' : ε) : Together R (.error e) (.error e')
  | ok {a : α} {b : β} (h : R a b) : Together R (.ok a) (.ok b)

/-- Lists that differ in one place, where the items are so related. -/
inductive OneExchanged {α : Type} (R : α → α → Prop) : List α → List α → Prop where
  | intro {a a' : α} (h : R a a') (left right : List α) : OneExchanged R (left ++ a :: right) (left ++ a' :: right)

namespace Together

variable {ε α β γ δ : Type} {R : α → β → Prop} {S : γ → δ → Prop}

theorem refl {R : α → α → Prop} (h : ∀ a, R a a) (r : Except ε α) : Together R r r := by
  cases r with
  | error e => exact .error e e
  | ok a => exact .ok (h a)

theorem bind {r : Except ε α} {r' : Except ε β} {k : α → Except ε γ} {k' : β → Except ε δ} (h : Together R r r')
    (hk : ∀ {a b}, R a b → Together S (k a) (k' b)) : Together S (r >>= k) (r' >>= k') := by
  cases h with
  | error e e' => exact .error e e'
  | ok h => exact hk h

/-- After one beginning it is the two ends that count. -/
theorem bind_same {r : Except ε α} {k : α → Except ε γ} {k' : α → Except ε δ} (hk : ∀ a, Together S (k a) (k' a)) :
    Together S (r >>= k) (r >>= k') := by
  cases r with
  | error e => exact .error e e
  | ok a => exact hk a

theorem map {f : α → γ} {g : β → δ} {r : Except ε α} {r' : Except ε β} (h : Together R r r')
    (hfg : ∀ {a b}, R a b → S (f a) (g b)) : Together S (f <$> r) (g <$> r') := by
  cases h with
  | error e e' => exact .error e e'
  | ok h => exact .ok (hfg h)

theorem mono {R' : α → β → Prop} {r : Except ε α} {r' : Except ε β} (h : Together R r r')
    (hR : ∀ {a b}, R a b → R' a b) : Together R' r r' := by
  cases h with
  | error e e' => exact .error e e'
  | ok h => exact .ok (hR h)

theorem trans {R S T : α → α → Prop} (hRS : ∀ {a b c}, R a b → S b c → T a c) {r r' r'' : Except ε α}
    (h : Together R r r') (h' : Together S r' r'') : Together T r r'' := by
  cases h with
  | error e e' =>
      cases h' with
      | error _ e'' => exact .error e e''
  | ok h =>
      cases h' with
      | ok h' => exact .ok (hRS h h')

/-- What is made of items one by one, made of them in another order. -/
theorem mapM_perm {f : α → Except ε β} {as as' : List α} (h : as.Perm as') :
    Together List.Perm (as.mapM f) (as'.mapM f) := by
  induction h with
  | nil => exact .ok .nil
  | cons a _ ih =>
      rw [List.mapM_cons, List.mapM_cons]
      exact bind_same fun b => ih.bind fun h => .ok (h.cons b)
  | swap a a' rest =>
      simp only [List.mapM_cons]
      rcases f a with e | b
      · rcases f a' with e' | b'
        · exact .error _ _
        · exact .error _ _
      · rcases f a' with e' | b'
        · exact .error _ _
        · rcases rest.mapM f with e | bs
          · exact .error _ _
          · exact .ok (.swap b b' bs)
  | trans _ _ ih ih' => exact ih.trans (fun h h' => h.trans h') ih'

theorem mapM_exchange {f : α → Except ε β} {R : β → β → Prop} {a a' : α} (h : Together R (f a) (f a'))
    (left right : List α) :
    Together (OneExchanged R) ((left ++ a :: right).mapM f) ((left ++ a' :: right).mapM f) := by
  simp only [List.mapM_append, List.mapM_cons, bind_assoc, pure_bind]
  exact bind_same fun before => h.bind fun hb => bind_same fun after => .ok (.intro hb before after)

end Together

namespace OneExchanged

variable {α β : Type} {R : α → α → Prop} {as as' : List α} {g : α → β}

theorem map_eq (h : OneExchanged R as as') (hg : ∀ {a a'}, R a a' → g a = g a') : as.map g = as'.map g := by
  obtain ⟨h, left, right⟩ := h
  rw [List.map_append, List.map_append, List.map_cons, List.map_cons, hg h]

/-- Some of the items may be missing, in both lists the same. -/
theorem map_filterMap_eq {as as' : List (Option α)} (h : OneExchanged (Option.Rel R) as as')
    (hg : ∀ {a a'}, R a a' → g a = g a') : (as.filterMap id).map g = (as'.filterMap id).map g := by
  have hoption : ∀ {a a' : Option α}, Option.Rel R a a' → (id a).map g = (id a').map g := by
    intro a a' h
    cases h with
    | some h => exact congrArg some (hg h)
    | none => rfl
  obtain ⟨h, left, right⟩ := h
  rw [List.map_filterMap, List.map_filterMap, List.filterMap_append, List.filterMap_append, List.filterMap_cons,
    List.filterMap_cons, hoption h]

end OneExchanged

namespace Condition

/-- Conditions that hold of the same bags of properties. -/
def Alike (c d : Condition) : Prop := ∀ (β : Type) [PropertyBag β] (bag : β), c.holds bag = d.holds bag

/-- Conditions of which as many hold of every bag, in whatever order they stand. -/
def AlikeInSomeOrder (cs ds : List Condition) : Prop :=
  ∀ (β : Type) [PropertyBag β] (bag : β), (cs.map (holds bag)).Perm (ds.map (holds bag))

theorem alikeInSomeOrder_of_perm {cs ds : List Condition} (h : cs.Perm ds) : AlikeInSomeOrder cs ds :=
  fun _ _ bag => h.map (holds bag)

theorem alikeInSomeOrder_of_oneExchanged {cs ds : List Condition} (h : OneExchanged Alike cs ds) :
    AlikeInSomeOrder cs ds :=
  fun β _ bag => .of_eq (h.map_eq fun halike => halike β bag)

theorem alikeInSomeOrder_filterMap {cs ds : List (Option Condition)} (h : OneExchanged (Option.Rel Alike) cs ds) :
    AlikeInSomeOrder (cs.filterMap id) (ds.filterMap id) :=
  fun β _ bag => .of_eq (h.map_filterMap_eq fun halike => halike β bag)

namespace AlikeInSomeOrder

variable {cs ds : List Condition}

theorem all_holds (h : AlikeInSomeOrder cs ds) {β : Type} [PropertyBag β] (bag : β) :
    cs.all (holds bag) = ds.all (holds bag) := by
  have hid : ∀ cs : List Condition, cs.all (holds bag) = (cs.map (holds bag)).all id :=
    fun cs => (List.all_map (p := id)).symm
  rw [hid, hid, (h β bag).all_eq]

theorem any_holds (h : AlikeInSomeOrder cs ds) {β : Type} [PropertyBag β] (bag : β) :
    cs.any (holds bag) = ds.any (holds bag) := by
  have hid : ∀ cs : List Condition, cs.any (holds bag) = (cs.map (holds bag)).any id :=
    fun cs => (List.any_map (p := id)).symm
  rw [hid, hid, (h β bag).any_eq]

theorem all (h : AlikeInSomeOrder cs ds) : Alike (.all cs) (.all ds) := by
  intro β _ bag
  rw [holds, holds, allHold_eq_all, allHold_eq_all, h.all_holds]

theorem any (h : AlikeInSomeOrder cs ds) : Alike (.any cs) (.any ds) := by
  intro β _ bag
  rw [holds, holds, anyHolds_eq_any, anyHolds_eq_any, h.any_holds]

/-- A child that stands for itself has one to itself on the other side. -/
theorem and (h : AlikeInSomeOrder cs ds) : Alike (and cs) (and ds) := by
  intro β _ bag
  rw [and_eq_conjunction, and_eq_conjunction, holds_conjunction, holds_conjunction, h.all_holds]

end AlikeInSomeOrder

/-- The members of a condition object in another order, keys that are there twice among them, or the items of one of
the lists in it. -/
inductive Permutes : Outline → Outline → Prop where
  | members {ms ms' : List Member} (h : ms.Perm ms') : Permutes (.object ms) (.object ms')
  | items {key : String} {os os' : List Outline} (hkey : key = "OR" ∨ key = "AND") (h : os.Perm os')
      (before after : List Member) :
      Permutes (.object (before ++ (.ok key, .list os) :: after)) (.object (before ++ (.ok key, .list os') :: after))

section Judged

variable {limit : Nat} {o o' : Outline}

theorem together_judgeMember {value : Outline → Except Failure String}
    {list : Outline → Except Failure (List Condition)} {key : String} (hkey : key = "OR" ∨ key = "AND")
    (h : Together AlikeInSomeOrder (list o) (list o')) :
    Together (Option.Rel Alike) (judgeMember value list key o) (judgeMember value list key o') := by
  rcases hkey with rfl | rfl
  · rw [judgeMember_disjunction, judgeMember_disjunction]
    exact h.map fun hcs => .some hcs.any
  · rw [judgeMember_conjunction, judgeMember_conjunction]
    exact h.map fun hcs => .some hcs.all

/-- Within an object a list can be exchanged for one with conditions that hold alike. -/
theorem together_object_of_list {key : String} (hkey : key = "OR" ∨ key = "AND")
    (h : ∀ room level, Together AlikeInSomeOrder (judgeList limit room level o) (judgeList limit room level o'))
    (before after : List Member) (room level : Nat) :
    Together Alike (judge limit room level (.object (before ++ (.ok key, o) :: after)))
      (judge limit room level (.object (before ++ (.ok key, o') :: after))) := by
  cases room with
  | zero => exact .error _ _
  | succ room =>
      by_cases hlevel : level ≤ limit
      · rw [judge_object_of_le hlevel, judge_object_of_le hlevel]
        have hmember : Together (Option.Rel Alike)
            (memberCondition (judgeValue room) (judgeList limit room (level + 1)) (.ok key, o))
            (memberCondition (judgeValue room) (judgeList limit room (level + 1)) (.ok key, o')) :=
          together_judgeMember hkey (h room (level + 1))
        exact (Together.mapM_exchange hmember before after).map fun hcs => (alikeInSomeOrder_filterMap hcs).and
      · rw [judge_object, judge_object, if_pos (Nat.not_le.1 hlevel), if_pos (Nat.not_le.1 hlevel)]
        exact .error _ _

theorem together_permutes (h : Permutes o o') (limit room level : Nat) :
    Together Alike (judge limit room level o) (judge limit room level o') := by
  cases h with
  | members h =>
      cases room with
      | zero => exact .error _ _
      | succ room =>
          by_cases hlevel : level ≤ limit
          · rw [judge_object_of_le hlevel, judge_object_of_le hlevel]
            exact (Together.mapM_perm h).map fun hcs => (alikeInSomeOrder_of_perm (hcs.filterMap id)).and
          · rw [judge_object, judge_object, if_pos (Nat.not_le.1 hlevel), if_pos (Nat.not_le.1 hlevel)]
            exact .error _ _
  | items hkey h before after =>
      refine together_object_of_list hkey (fun room level => ?_) before after room level
      cases room with
      | zero => exact .error _ _
      | succ room =>
          rw [judgeList_list, judgeList_list]
          exact (Together.mapM_perm h).mono alikeInSomeOrder_of_perm

/-- A change of order at any depth leaves a condition that holds alike, if one was read. -/
theorem together_changedWithin (h : ChangedWithin Permutes o o') (limit room level : Nat) :
    Together Alike (judge limit room level o) (judge limit room level o') := by
  induction h generalizing room level with
  | here h => exact together_permutes h limit room level
  | nested hkey _ before after left right ih =>
      refine together_object_of_list hkey (fun room level => ?_) before after room level
      cases room with
      | zero => exact .error _ _
      | succ room =>
          rw [judgeList_list, judgeList_list]
          exact (Together.mapM_exchange (ih room level) left right).mono alikeInSomeOrder_of_oneExchanged

end Judged

end Condition

end BlockModel
