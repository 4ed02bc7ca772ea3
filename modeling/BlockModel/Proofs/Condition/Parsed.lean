import BlockModel.Proofs.Condition.RoundTrip
import BlockModel.Proofs.Scan.Reads

/-! What conditions that were read look like. Whatever way the members of condition objects are joined, every test
has values and a name of its own, and each level of objects adds at most two to the height of the tree: one for
the list under `OR` or `AND` and one for the conjunction of the members. -/

namespace BlockModel.Condition

open Scan

/-- The values of a test are the pieces between the `|` of a text. -/
theorem isWritable_test {name : String} (hname : name ∉ reservedKeys) (values : String) :
    (test name values).IsWritable := by
  refine .property hname ?_ fun v hv => ?_
  · exact fun hnil => Text.pieces_ne_nil '|' values.toList (List.map_eq_nil_iff.1 hnil)
  · obtain ⟨piece, hpiece, rfl⟩ := List.mem_map.1 hv
    rw [String.toList_ofList]
    exact fun hbar => (Text.mem_of_mem_pieces hpiece hbar).2 rfl

/-- What is no key of its own is the name of a property. -/
theorem not_mem_reservedKeys_of_ofName {key name : String} (h : Key.ofName key = .property name) :
    name ∉ reservedKeys := by
  unfold Key.ofName at h
  split at h
  · cases h
  · rename_i hor
    split at h
    · cases h
    · rename_i hand
      split at h
      · cases h
      · rename_i hcomment
        obtain rfl := Key.property.inj h
        simp [reservedKeys, hor, hand, hcomment]

/-- Sound tests in a tree of at most such a height. -/
structure IsParsed (height : Nat) (c : Condition) : Prop where
  writable : c.IsWritable
  depth_le : c.depth ≤ height

/-- The height that the objects of a level may give a tree. -/
def heightAt (limit level : Nat) : Nat := 2 * (limit + 1 - level)

theorem heightAt_next {limit level : Nat} (h : level ≤ limit) :
    heightAt limit level = heightAt limit (level + 1) + 2 := by
  rw [heightAt, heightAt]
  omega

namespace IsParsed

variable {height : Nat} {cs : List Condition}

theorem mono {height' : Nat} {c : Condition} (h : IsParsed height c) (hle : height ≤ height') :
    IsParsed height' c :=
  ⟨h.writable, Nat.le_trans h.depth_le hle⟩

theorem all (h : ∀ c ∈ cs, IsParsed height c) : IsParsed (height + 1) (.all cs) where
  writable := .all fun c hc => (h c hc).writable
  depth_le := Nat.succ_le_succ (depthOfList_le_iff.2 fun c hc => (h c hc).depth_le)

theorem any (h : ∀ c ∈ cs, IsParsed height c) : IsParsed (height + 1) (.any cs) where
  writable := .any fun c hc => (h c hc).writable
  depth_le := Nat.succ_le_succ (depthOfList_le_iff.2 fun c hc => (h c hc).depth_le)

theorem test {name : String} (hname : name ∉ reservedKeys) (values : String) :
    IsParsed (height + 1) (Condition.test name values) :=
  ⟨isWritable_test hname values, Nat.succ_le_succ (Nat.zero_le height)⟩

/-- The conjunction of the members is a node more, unless there is only one of them. -/
theorem and (h : ∀ c ∈ cs, IsParsed height c) : IsParsed (height + 1) (Condition.and cs) := by
  rcases cs with _ | ⟨c, _ | ⟨d, rest⟩⟩
  · exact .all h
  · exact (h c List.mem_cons_self).mono (Nat.le_succ height)
  · exact .all h

theorem always (hheight : 1 ≤ height) : IsParsed height Condition.always := by
  have h : IsParsed (0 + 1) (Condition.all []) := .all (List.forall_mem_nil _)
  exact h.mono hheight

end IsParsed

section Text

variable {m : Means} {limit limit' : Nat} {unplaced : Bool}

theorem reads_scanValueWith {onList onObject : Scan String}
    (hlist : ∀ b, kind? b = some .list → Reads m limit (.opened b) (fun _ => True) onList onList)
    (hobject : ∀ b, kind? b = some .object → Reads m limit (.opened b) (fun _ => True) onObject onObject) :
    Reads m limit (.value unplaced) (fun _ => True) (scanValueWith onList onObject)
      (scanValueWith onList onObject) := by
  have hplain : Failure.endsPlain expectedValue.toList = true := by decide +kernel
  refine .start unplaced fun b => ?_
  cases hkind : kind? b with
  | none => exact .mismatch b hplain
  | some kind =>
      cases kind with
      | bool x => exact .before (.boolWord hkind) fun _ => .pure false fun _ => trivial
      | string => exact .quoted hkind
      | list => exact hlist b hkind
      | object => exact hobject b hkind
      | null | number => exact .mismatch b hplain

theorem reads_scanValue (hearly : m.early) (room : Nat) :
    Reads m limit (.value unplaced) (fun _ => True) (scanValue room) (scanValue room) := by
  cases room with
  | zero => exact reads_scanValueWith (fun b _ => .tooDeep b) fun b _ => .tooDeep b
  | succ room =>
      refine reads_scanValueWith (fun b hkind => .inList hkind ?_) fun b hkind => .inObject hkind ?_
      · exact .refuse rfl (fun _ => hearly) (by decide +kernel) rfl
      · exact .refuse rfl (fun _ => hearly) (by decide +kernel) rfl

theorem reads_scanMember {height : Nat} {value : Scan String} {list list' : Scan (List Condition)}
    (hvalue : Reads m limit (.value true) (fun _ => True) value value)
    (hlist : Reads m limit (.value true) (fun cs => ∀ c ∈ cs, IsParsed height c) list list')
    (sofar : List Condition) (key : String) :
    Reads m limit (.member key)
      (fun cs => (∀ c ∈ sofar, IsParsed (height + 1) c) → ∀ c ∈ cs, IsParsed (height + 1) c)
      (scanMember value list sofar key) (scanMember value list' sofar key) := by
  have hcons : ∀ {c : Condition}, IsParsed (height + 1) c → (∀ c ∈ sofar, IsParsed (height + 1) c) →
      ∀ d ∈ c :: sofar, IsParsed (height + 1) d := fun hc hsofar => List.forall_mem_cons.2 ⟨hc, hsofar⟩
  unfold scanMember
  cases hkey : Key.ofName key with
  | disjunction => exact .colon (.before hlist fun cs => .pure false fun hcs => hcons (.any hcs))
  | conjunction => exact .colon (.before hlist fun cs => .pure false fun hcs => hcons (.all hcs))
  | comment => exact .colon (.before (.skipValue true) fun _ => .pure false fun _ => id)
  | property name =>
      have hname := not_mem_reservedKeys_of_ofName hkey
      exact .colon (.before hvalue fun values => .pure false fun _ => hcons (.test hname values))

/-- Objects and lists of conditions, one inside the other. Each level is two lower than the one around it. -/
theorem reads_scan_and_scanList (hearly : m.early) (hle : limit ≤ limit') (room level : Nat) :
    Reads m limit (.value unplaced) (IsParsed (heightAt limit level)) (scan limit room level)
        (scan limit' room level) ∧
      Reads m limit (.value unplaced) (fun cs => ∀ c ∈ cs, IsParsed (heightAt limit level) c)
        (scanList limit room level) (scanList limit' room level) := by
  have hobject : Failure.endsPlain expectedObject.toList = true := by decide +kernel
  have hlist : Failure.endsPlain expectedList.toList = true := by decide +kernel
  induction room generalizing level unplaced with
  | zero => exact ⟨.expectObject hobject fun b _ => .tooDeep b, .expectList hlist fun b _ => .tooDeep b⟩
  | succ room ih =>
      refine ⟨.expectObject hobject fun b hkind => .inObject hkind ?_,
        .expectList hlist fun b hkind => .inList hkind (.items (ih level).1)⟩
      by_cases hlevel : limit < level
      · rw [if_pos hlevel]
        exact .pastLimit hearly _
      · -- What the lower limit lets pass is past no higher one.
        rw [if_neg hlevel, if_neg (by omega), heightAt_next (Nat.not_lt.1 hlevel)]
        have hmember := reads_scanMember (reads_scanValue hearly room) (ih (level + 1)).2
        refine .members (List.forall_mem_nil _) hmember fun reversed => .pure true fun hreversed => ?_
        exact .and fun c hc => hreversed c (List.mem_reverse.1 hc)

end Text

/-- What a member of a condition object means is sound where the conditions in its list are. -/
theorem isParsed_conjunct {limit level height : Nat} {key : String} {j : Json} (h : IsMember limit level key j)
    (hitems : ∀ js, j = .list js → ∀ d ∈ js, IsObject limit (level + 1) d → IsParsed height (meaning d)) :
    ∀ c ∈ conjunct key j, IsParsed (height + 1) c := by
  have hmeanings : ∀ js, j = .list js → (∀ d ∈ js, IsObject limit (level + 1) d) →
      ∀ c ∈ meanings j, IsParsed height c := by
    rintro js rfl hjs c hc
    rw [meanings, meaningsOfItems_eq_map] at hc
    obtain ⟨d, hd, rfl⟩ := List.mem_map.1 hc
    exact hitems js rfl d hd (hjs d hd)
  cases h with
  | comment j =>
      rw [conjunct_comment]
      exact List.forall_mem_nil _
  | disjunction hjs =>
      rw [conjunct_or]
      exact List.forall_mem_singleton.2 (.any (hmeanings _ rfl hjs))
  | conjunction hjs =>
      rw [conjunct_and]
      exact List.forall_mem_singleton.2 (.all (hmeanings _ rfl hjs))
  | text hkey s =>
      have hvalues : valueOfJson (.str s) = .ok s := rfl
      rw [conjunct_property hkey, ← test_eq_property key hvalues]
      exact List.forall_mem_singleton.2 (.test hkey s)
  | truth hkey b =>
      have hvalues : valueOfJson (.bool b) = .ok (boolValue b) := rfl
      rw [conjunct_property hkey, ← test_eq_property key hvalues]
      exact List.forall_mem_singleton.2 (.test hkey _)

theorem isParsed_meaning {limit level : Nat} {j : Json} (h : IsObject limit level j) :
    IsParsed (heightAt limit level) (meaning j) := by
  induction j using item_induction generalizing level with
  | h j ih =>
  cases h with
  | @intro _ ms hlevel hmembers =>
      rw [meaning, ← and_eq_conjunction, conjuncts_eq_flatMap, heightAt_next hlevel]
      refine .and fun c hc => ?_
      obtain ⟨m, hm, hc⟩ := List.mem_flatMap.1 hc
      exact isParsed_conjunct (hmembers m hm) (fun js hjs d hd hobject => ih ms rfl m hm js hjs d hd hobject) c hc

end BlockModel.Condition
