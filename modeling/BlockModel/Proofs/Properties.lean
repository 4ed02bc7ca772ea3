import BlockModel.Properties
import Mathlib.Data.List.Induction
import Mathlib.Data.List.Nodup

/-! Bags of properties compared. Two bags may agree on some names, and one may extend another. Whatever kind of
container a bag is, it answers with the value that a name was given last, so containers agree on the names that were
given the same values, in whatever order and beside whatever others. -/

namespace BlockModel

section Bags

variable {β γ : Type} [PropertyBag β] [PropertyBag γ]

/-- Both bags give the same answer for each of the names. -/
def AgreeOn (names : List String) (bag : β) (bag' : γ) : Prop :=
  ∀ name ∈ names, PropertyBag.value? bag name = PropertyBag.value? bag' name

/-- The second bag gives every property of the first the same value. -/
def Extends (bag : β) (bag' : γ) : Prop :=
  ∀ name value, PropertyBag.value? bag name = some value → PropertyBag.value? bag' name = some value

end Bags

namespace Properties

theorem lookup_cons_eq (e : String × String) (rest : List (String × String)) (name : String) :
    (e :: rest).lookup name = if e.1 = name then some e.2 else rest.lookup name := by
  rw [List.lookup_cons]
  by_cases hname : e.1 = name
  · rw [if_pos hname, beq_iff_eq.2 hname.symm]
  · rw [if_neg hname, beq_eq_false_iff_ne.2 (Ne.symm hname)]

theorem lookup_replaced (name value other : String) (entries : List (String × String)) :
    (entries.map fun e => if e.1 == name then (name, value) else e).lookup other =
      if name = other ∧ entries.any (·.1 == name) = true then some value else entries.lookup other := by
  induction entries with
  | nil => simp
  | cons e rest ih =>
      rw [List.map_cons, List.any_cons, lookup_cons_eq, lookup_cons_eq, ih]
      by_cases hkey : e.1 = name
      · rw [if_pos (beq_iff_eq.2 hkey), hkey]
        by_cases hother : name = other
        · simp [hother]
        · simp [hother]
      · have hkept : (if e.1 == name then (name, value) else e) = e := if_neg (by simpa using hkey)
        rw [hkept, beq_eq_false_iff_ne.2 hkey, Bool.false_or]
        by_cases hother : e.1 = other
        · rw [if_pos hother, if_pos hother, if_neg fun h => hkey (hother.trans h.1.symm)]
        · rw [if_neg hother, if_neg hother]

theorem get?_set (p : Properties) (name value other : String) :
    (p.set name value).get? other = if name = other then some value else p.get? other := by
  rw [set, get?, get?]
  cases hany : p.entries.any (·.1 == name) with
  | true => simp only [if_true, lookup_replaced, hany, and_true]
  | false =>
      have hnone : p.entries.lookup name = none := by
        refine List.lookup_eq_none_iff.2 fun e he => ?_
        have hkey : e.1 ≠ name := by simpa using List.any_eq_false.1 hany e he
        simpa using Ne.symm hkey
      rw [if_neg Bool.false_ne_true, List.lookup_append, lookup_cons_eq, List.lookup_nil]
      by_cases hother : name = other
      · rw [← hother, hnone, Option.none_or]
      · rw [if_neg hother, if_neg hother, Option.or_none]

/-- The entries for some names. -/
def entriesFor (names : List String) (entries : List (String × String)) : List (String × String) :=
  entries.filter fun e => names.contains e.1

theorem lookup_entriesFor {names : List String} {name : String} (hname : name ∈ names)
    (entries : List (String × String)) : (entriesFor names entries).lookup name = entries.lookup name := by
  induction entries with
  | nil => rfl
  | cons e rest ih =>
      rw [entriesFor, List.filter_cons, ← entriesFor, lookup_cons_eq, ← ih]
      by_cases he : e.1 = name
      · rw [if_pos he, if_pos (by simpa [he] using hname), lookup_cons_eq, if_pos he]
      · rw [if_neg he]
        split
        · rw [lookup_cons_eq, if_neg he]
        · rfl

/-- Entries with different names may stand in any order. -/
theorem lookup_perm {entries entries' : List (String × String)} (hnames : (entries.map Prod.fst).Nodup)
    (hperm : entries.Perm entries') (name : String) : entries.lookup name = entries'.lookup name := by
  induction hperm with
  | nil => rfl
  | cons e _ ih => rw [lookup_cons_eq, lookup_cons_eq, ih (List.nodup_cons.1 hnames).2]
  | swap e e' rest =>
      have hne : e'.1 ≠ e.1 := fun heq => (List.nodup_cons.1 hnames).1 (heq ▸ List.mem_cons_self)
      simp only [lookup_cons_eq]
      by_cases he : e.1 = name
      · rw [if_pos he, if_pos he, if_neg fun he' => hne (he'.trans he.symm)]
      · rw [if_neg he, if_neg he]
  | trans hfirst _ ihfirst ihsecond =>
      exact (ihfirst hnames).trans (ihsecond ((hfirst.map Prod.fst).nodup_iff.1 hnames))

end Properties

/-- A reference to a bag, which answers as the bag does. -/
structure Borrowed (β : Type) where
  bag : β

instance {β : Type} [PropertyBag β] : PropertyBag (Borrowed β) := ⟨fun b => PropertyBag.value? b.bag⟩

/-- The kinds of containers that a block's properties may be kept in. -/
inductive ContainerKind where
  | properties
  | block (name : String)
  | hashMap
  | treeMap
  | borrowed (kind : ContainerKind)
  deriving DecidableEq, Repr

namespace ContainerKind

/-- The containers of a kind. -/
def Container : ContainerKind → Type
  | properties => Properties
  | block _ => Block
  | hashMap => Std.HashMap String String
  | treeMap => Std.TreeMap String String
  | borrowed kind => Borrowed kind.Container

instance bag : (kind : ContainerKind) → PropertyBag kind.Container
  | properties => inferInstanceAs (PropertyBag Properties)
  | block _ => inferInstanceAs (PropertyBag Block)
  | hashMap => inferInstanceAs (PropertyBag (Std.HashMap String String))
  | treeMap => inferInstanceAs (PropertyBag (Std.TreeMap String String))
  | borrowed kind =>
    have := kind.bag
    inferInstanceAs (PropertyBag (Borrowed kind.Container))

def empty : (kind : ContainerKind) → kind.Container
  | properties => Properties.empty
  | block name => Block.plain name
  | hashMap => (∅ : Std.HashMap String String)
  | treeMap => (∅ : Std.TreeMap String String compare)
  | borrowed kind => ⟨kind.empty⟩

/-- Gives a name its value in a container. -/
def set : (kind : ContainerKind) → kind.Container → String → String → kind.Container
  | properties => Properties.set
  | block _ => Block.set
  | hashMap => Std.HashMap.insert
  | treeMap => Std.TreeMap.insert
  | borrowed kind => fun b name value => ⟨kind.set b.bag name value⟩

/-- The container in which names were given values one after the other. -/
def filled (kind : ContainerKind) (entries : List (String × String)) : kind.Container :=
  entries.foldl (fun b e => kind.set b e.1 e.2) kind.empty

theorem value?_hashMap_insert (map : Std.HashMap String String) (name value other : String) :
    PropertyBag.value? (map.insert name value) other =
      if name = other then some value else PropertyBag.value? map other := by
  show (map.insert name value)[other]? = if name = other then some value else map[other]?
  rw [Std.HashMap.getElem?_insert]
  simp only [beq_iff_eq]

theorem value?_treeMap_insert (map : Std.TreeMap String String) (name value other : String) :
    PropertyBag.value? (map.insert name value) other =
      if name = other then some value else PropertyBag.value? map other := by
  show (map.insert name value)[other]? = if name = other then some value else map[other]?
  rw [Std.TreeMap.getElem?_insert]
  simp only [Std.LawfulEqOrd.compare_eq_iff_eq]

theorem value?_empty (kind : ContainerKind) (name : String) : PropertyBag.value? kind.empty name = none := by
  induction kind with
  | properties => rfl
  | block _ => rfl
  | hashMap => exact Std.HashMap.getElem?_empty
  | treeMap =>
      show (∅ : Std.TreeMap String String)[name]? = none
      exact Std.TreeMap.getElem?_emptyc
  | borrowed kind ih => exact ih

theorem value?_set (kind : ContainerKind) (b : kind.Container) (name value other : String) :
    PropertyBag.value? (kind.set b name value) other =
      if name = other then some value else PropertyBag.value? b other := by
  induction kind with
  | properties => exact Properties.get?_set b name value other
  | block _ => exact Properties.get?_set b.properties name value other
  | hashMap => exact value?_hashMap_insert b name value other
  | treeMap => exact value?_treeMap_insert b name value other
  | borrowed kind ih => exact ih b.bag

/-- Every container answers with the value that was given last. -/
theorem value?_filled (kind : ContainerKind) (entries : List (String × String)) (name : String) :
    PropertyBag.value? (kind.filled entries) name = entries.reverse.lookup name := by
  induction entries using List.reverseRecOn with
  | nil => exact kind.value?_empty name
  | append_singleton entries e ih =>
      rw [filled, List.foldl_append, ← filled, List.foldl_cons, List.foldl_nil, value?_set, ih, List.reverse_append,
        List.reverse_singleton, List.singleton_append, Properties.lookup_cons_eq]

/-- Containers of any two kinds agree on names that were given the same values. -/
theorem agreeOn_filled (kind kind' : ContainerKind) {names : List String} {entries entries' : List (String × String)}
    (hnames : ((Properties.entriesFor names entries).map Prod.fst).Nodup)
    (hperm : (Properties.entriesFor names entries).Perm (Properties.entriesFor names entries')) :
    AgreeOn names (kind.filled entries) (kind'.filled entries') := by
  intro name hname
  have hreverse : ∀ es : List (String × String), (es.reverse).lookup name =
      (Properties.entriesFor names es).reverse.lookup name := by
    intro es
    rw [← Properties.lookup_entriesFor hname, Properties.entriesFor, Properties.entriesFor, List.filter_reverse]
  have hnames' : ((Properties.entriesFor names entries).reverse.map Prod.fst).Nodup := by
    rw [List.map_reverse]
    exact List.nodup_reverse.2 hnames
  have hperm' : (Properties.entriesFor names entries).reverse.Perm (Properties.entriesFor names entries').reverse :=
    ((List.reverse_perm _).trans hperm).trans (List.reverse_perm _).symm
  rw [value?_filled, value?_filled, hreverse entries, hreverse entries', Properties.lookup_perm hnames' hperm']

end ContainerKind

end BlockModel
