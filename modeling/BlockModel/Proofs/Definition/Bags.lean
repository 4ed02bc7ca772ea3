import BlockModel.Definition.Basic
import BlockModel.Proofs.Condition.Names
import Mathlib.Data.List.Flatten

/-! What the properties of a block have to do with how it is drawn. A definition asks a bag only for the names in its
conditions: bags that agree on them are drawn with the same rows, cases and variants. And properties are only ever
asked to be there, so with more of them the row that is found does not come later, and no case is lost. -/

namespace BlockModel

section Lists

variable {α : Type} {p q : α → Bool} {as : List α}

theorem findIdx?_congr_mem (h : ∀ a ∈ as, p a = q a) : as.findIdx? p = as.findIdx? q := by
  induction as with
  | nil => rfl
  | cons a rest ih =>
      obtain ⟨ha, hrest⟩ := List.forall_mem_cons.1 h
      rw [List.findIdx?_cons, List.findIdx?_cons, ha, ih hrest]

/-- A test that holds more often is met no later. -/
theorem exists_findIdx?_le (h : ∀ a, p a = true → q a = true) {i : Nat} (hi : as.findIdx? p = some i) :
    ∃ j, j ≤ i ∧ as.findIdx? q = some j := by
  induction as generalizing i with
  | nil => cases hi
  | cons a rest ih =>
      rw [List.findIdx?_cons] at hi ⊢
      by_cases hq : q a = true
      · exact ⟨0, Nat.zero_le i, if_pos hq⟩
      · rw [if_neg fun hp => hq (h a hp)] at hi
        obtain ⟨k, hk, rfl⟩ := Option.map_eq_some_iff.1 hi
        obtain ⟨j, hjk, hj⟩ := ih hk
        exact ⟨j + 1, Nat.succ_le_succ hjk, by rw [if_neg hq, hj, Option.map_some]⟩

end Lists

variable {α β γ : Type} [PropertyBag β] [PropertyBag γ] {bag : β} {bag' : γ}

namespace VariantTable

/-- The names of the properties in the conditions of a table. -/
def names (t : VariantTable) : List String := t.rows.flatMap fun row => row.condition.names

/-- The place of the row that is found. -/
def findIndex? (t : VariantTable) (bag : β) : Option Nat := t.rows.findIdx? fun row => row.condition.holds bag

theorem find?_eq (t : VariantTable) (bag : β) : t.find? bag = (t.findIndex? bag).bind (t.rows[·]?) :=
  List.find?_eq_bind_findIdx?_getElem?

theorem findIndex?_congr {t : VariantTable} (h : AgreeOn t.names bag bag') : t.findIndex? bag = t.findIndex? bag' :=
  findIdx?_congr_mem fun _ hrow =>
    Condition.holds_congr fun name hname => h name (List.mem_flatMap.2 ⟨_, hrow, hname⟩)

theorem exists_findIndex?_le (t : VariantTable) (h : Extends bag bag') {i : Nat} (hi : t.findIndex? bag = some i) :
    ∃ j, j ≤ i ∧ t.findIndex? bag' = some j := by
  have hrows : ∀ row : VariantRow, row.condition.holds bag = true → row.condition.holds bag' = true :=
    fun _ => Condition.holds_mono h
  exact exists_findIdx?_le hrows hi

theorem emitted_congr {t : VariantTable} (h : AgreeOn t.names bag bag') (p : BlockPosition) :
    t.emitted bag p = t.emitted bag' p := by
  rw [emitted, emitted, find?_eq, find?_eq, findIndex?_congr h]

end VariantTable

namespace Multipart

/-- The names of the properties in the conditions of a multipart. -/
def names (m : Multipart α) : List String := m.cases.flatMap fun c => c.condition.names

theorem holds_congr_of_mem {m : Multipart α} (h : AgreeOn m.names bag bag') {c : Case α} (hc : c ∈ m.cases) :
    c.condition.holds bag = c.condition.holds bag' :=
  Condition.holds_congr fun name hname => h name (List.mem_flatMap.2 ⟨c, hc, hname⟩)

theorem matching_congr {m : Multipart α} (h : AgreeOn m.names bag bag') : m.matching bag = m.matching bag' :=
  List.filter_congr fun _ hc => holds_congr_of_mem h hc

theorem matchingIndices_congr {m : Multipart α} (h : AgreeOn m.names bag bag') :
    m.matchingIndices bag = m.matchingIndices bag' :=
  congrArg (List.map Prod.snd) (List.filter_congr fun _ hc => holds_congr_of_mem h (List.fst_mem_of_mem_zipIdx hc))

variable (m : Multipart α)

theorem matching_sublist (h : Extends bag bag') : (m.matching bag).Sublist (m.matching bag') :=
  m.cases.monotone_filter_right fun _ hc => Condition.holds_mono h hc

theorem matchingIndices_sublist (h : Extends bag bag') :
    (m.matchingIndices bag).Sublist (m.matchingIndices bag') :=
  (m.cases.zipIdx.monotone_filter_right fun _ hc => Condition.holds_mono h hc).map Prod.snd

theorem emitted_sublist [Applicable α] (h : Extends bag bag') (p : BlockPosition) :
    (m.emitted bag p).Sublist (m.emitted bag' p) :=
  (m.matching_sublist h).flatMap _

end Multipart

namespace Definition

/-- The names of the properties in the conditions of a definition. -/
def names (d : Definition) : List String :=
  d.variants.elim [] VariantTable.names ++ d.multipart.elim [] Multipart.names

/-- The same row of the table is found for both bags, the same cases are used, and the same variants come of them at
every position. -/
structure DrawnAlike (d : Definition) (bag : β) (bag' : γ) : Prop where
  found : ∀ t ∈ d.variants, t.findIndex? bag = t.findIndex? bag' ∧ t.find? bag = t.find? bag'
  matching : ∀ m ∈ d.multipart, m.matchingIndices bag = m.matchingIndices bag' ∧ m.matching bag = m.matching bag'
  resolved : ∀ p, d.resolve bag p = d.resolve bag' p

theorem drawnAlike_of_agreeOn {d : Definition} (h : AgreeOn d.names bag bag') : d.DrawnAlike bag bag' := by
  have hvariants : ∀ t ∈ d.variants, AgreeOn t.names bag bag' := by
    intro t ht name hname
    refine h name (List.mem_append_left _ ?_)
    rwa [Option.mem_def.1 ht]
  have hmultipart : ∀ m ∈ d.multipart, AgreeOn m.names bag bag' := by
    intro m hm name hname
    refine h name (List.mem_append_right _ ?_)
    rwa [Option.mem_def.1 hm]
  refine ⟨fun t ht => ?_, fun m hm => ?_, fun p => ?_⟩
  · have hindex := VariantTable.findIndex?_congr (hvariants t ht)
    exact ⟨hindex, by rw [VariantTable.find?_eq, VariantTable.find?_eq, hindex]⟩
  · exact ⟨Multipart.matchingIndices_congr (hmultipart m hm), Multipart.matching_congr (hmultipart m hm)⟩
  · rw [resolve, resolve]
    congr 1
    · cases ht : d.variants with
      | none => rfl
      | some t => exact VariantTable.emitted_congr (hvariants t ht) p
    · cases hm : d.multipart with
      | none => rfl
      | some m =>
          rw [Option.elim_some, Option.elim_some, Multipart.emitted, Multipart.emitted,
            Multipart.matching_congr (hmultipart m hm)]

/-- Nothing but the values of the names in its conditions has to do with what a definition draws: bags that agree on
these names are drawn alike, and so are containers of any two kinds, for blocks of any names, in which these names
were given the same values in any order and among any others. -/
theorem drawnAlike (d : Definition) :
    (∀ {β γ : Type} [PropertyBag β] [PropertyBag γ] (bag : β) (bag' : γ),
        AgreeOn d.names bag bag' → d.DrawnAlike bag bag') ∧
      ∀ (kind kind' : ContainerKind) (entries entries' : List (String × String)),
        ((Properties.entriesFor d.names entries).map Prod.fst).Nodup →
          (Properties.entriesFor d.names entries).Perm (Properties.entriesFor d.names entries') →
            d.DrawnAlike (kind.filled entries) (kind'.filled entries') :=
  ⟨fun _ _ h => drawnAlike_of_agreeOn h, fun kind kind' _ _ hnames hperm =>
    drawnAlike_of_agreeOn (ContainerKind.agreeOn_filled kind kind' hnames hperm)⟩

/-- A gate in a wall: its table has a row for open gates, and its multipart a case for a wall on either side. -/
def gate : Definition where
  variants := some ⟨[.ofKey "open=true" ⟨[.ofModel "open"]⟩, .ofKey "" ⟨[.ofModel "shut"]⟩]⟩
  multipart := some ⟨[⟨.any [.property "west" ["low", "tall"], .all [.property "east" ["low"], .never]],
    ⟨[.ofModel "post"]⟩⟩]⟩

/-- A gate with a wall on its west side. -/
def gateProperties : Properties := ⟨[("west", "low")]⟩

/-- An open gate with the same wall, which faces north. -/
def openGate : Block := ⟨"oak_gate", ⟨[("facing", "north"), ("open", "true"), ("west", "low")]⟩⟩

/-- The properties of the same gate, of which only those stand here that are asked for. -/
def openGateProperties : Properties := ⟨[("west", "low"), ("open", "true")]⟩

theorem drawnAlike_gate :
    AgreeOn gate.names openGate openGateProperties ∧ gate.DrawnAlike openGate openGateProperties ∧
      ((Properties.entriesFor gate.names [("east", "tall"), ("powered", "true"), ("west", "low")]).map Prod.fst).Nodup ∧
      (Properties.entriesFor gate.names [("east", "tall"), ("powered", "true"), ("west", "low")]).Perm
        (Properties.entriesFor gate.names [("west", "low"), ("east", "tall")]) ∧
      gate.DrawnAlike
        ((ContainerKind.block "oak_gate").filled [("east", "tall"), ("powered", "true"), ("west", "low")])
        (ContainerKind.treeMap.borrowed.filled [("west", "low"), ("east", "tall")]) := by
  have hagree : AgreeOn gate.names openGate openGateProperties := by
    unfold AgreeOn
    decide
  have hnames : ((Properties.entriesFor gate.names
      [("east", "tall"), ("powered", "true"), ("west", "low")]).map Prod.fst).Nodup := by decide
  have hperm : (Properties.entriesFor gate.names [("east", "tall"), ("powered", "true"), ("west", "low")]).Perm
      (Properties.entriesFor gate.names [("west", "low"), ("east", "tall")]) := by decide
  exact ⟨hagree, (drawnAlike gate).1 _ _ hagree, hnames, hperm, (drawnAlike gate).2 _ _ _ _ hnames hperm⟩

theorem extends_openGate : Extends gateProperties openGate := by
  intro name value h
  change List.lookup name [("west", "low")] = some value at h
  rw [Properties.lookup_cons_eq] at h
  split at h
  · rename_i hname
    obtain rfl := Option.some.inj h
    subst hname
    rfl
  · cases h

end Definition

/-- With more properties nothing that held ceases to hold: conditions go on to hold, the cases that are used and the
variants that come of them stay in their order, and the row that is found is the same one or one before it. -/
theorem Extends.monotone (h : Extends bag bag') :
    (∀ c : Condition, c.holds bag = true → c.holds bag' = true) ∧
      (∀ {α : Type} (m : Multipart α), (m.matching bag).Sublist (m.matching bag') ∧
        (m.matchingIndices bag).Sublist (m.matchingIndices bag')) ∧
      (∀ {α : Type} [Applicable α] (m : Multipart α) (p : BlockPosition),
        (m.emitted bag p).Sublist (m.emitted bag' p)) ∧
      ∀ (t : VariantTable) (i : Nat), t.findIndex? bag = some i → t.find? bag = t.rows[i]? ∧
        ∃ j, j ≤ i ∧ t.findIndex? bag' = some j ∧ t.find? bag' = t.rows[j]? := by
  refine ⟨fun _ => Condition.holds_mono h, fun m => ⟨m.matching_sublist h, m.matchingIndices_sublist h⟩,
    fun m => m.emitted_sublist h, fun t i hi => ?_⟩
  obtain ⟨j, hji, hj⟩ := t.exists_findIndex?_le h hi
  refine ⟨?_, j, hji, hj, ?_⟩
  · rw [t.find?_eq, hi, Option.bind_some]
  · rw [t.find?_eq, hj, Option.bind_some]

/-- An open gate finds the row before the one that a gate finds of which less is known, and keeps its post. -/
theorem Extends.monotone_openGate :
    Extends Definition.gateProperties Definition.openGate ∧
      (∀ t ∈ Definition.gate.variants, t.findIndex? Definition.gateProperties = some 1 ∧
        ∃ j, j ≤ 1 ∧ t.findIndex? Definition.openGate = some j ∧ t.find? Definition.openGate = t.rows[j]?) ∧
      ∀ m ∈ Definition.gate.multipart, m.matching Definition.gateProperties ≠ [] ∧
        (m.matching Definition.gateProperties).Sublist (m.matching Definition.openGate) := by
  have hmonotone := Extends.monotone Definition.extends_openGate
  refine ⟨Definition.extends_openGate, fun t ht => ?_, fun m hm => ?_⟩
  · have hindex : t.findIndex? Definition.gateProperties = some 1 := by
      obtain rfl := Option.some.inj ht
      rfl
    exact ⟨hindex, (hmonotone.2.2.2 t 1 hindex).2⟩
  · refine ⟨?_, (hmonotone.2.1 m).1⟩
    obtain rfl := Option.some.inj hm
    exact List.cons_ne_nil _ _

end BlockModel
