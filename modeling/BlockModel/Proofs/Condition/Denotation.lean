import BlockModel.Proofs.Condition.Reading

/-! What condition objects are and what they mean, said of the JSON alone. Their form is a pair of inductive
predicates with a level that grows under `OR` and `AND`; their meaning is a function on all JSON, of which
only the values on condition objects are of interest. Taking a condition from JSON succeeds exactly on the
condition objects of its level, and gives their meaning. -/

namespace BlockModel.Condition

open Scan

/-- The keys that are no names of properties. -/
def reservedKeys : List String := ["OR", "AND", "__comment"]

mutual
/-- The condition objects of a level, which is at most a limit. -/
inductive IsObject (limit : Nat) : Nat → Json → Prop where
  | intro {level : Nat} {ms : List (String × Json)} (hlevel : level ≤ limit)
      (hmembers : ∀ m ∈ ms, IsMember limit level m.1 m.2) : IsObject limit level (.object ms)

/-- The members that such an object may have. -/
inductive IsMember (limit : Nat) : Nat → String → Json → Prop where
  | comment {level : Nat} (j : Json) : IsMember limit level "__comment" j
  | disjunction {level : Nat} {js : List Json} (hjs : ∀ j ∈ js, IsObject limit (level + 1) j) :
      IsMember limit level "OR" (.list js)
  | conjunction {level : Nat} {js : List Json} (hjs : ∀ j ∈ js, IsObject limit (level + 1) j) :
      IsMember limit level "AND" (.list js)
  | text {level : Nat} {key : String} (hkey : key ∉ reservedKeys) (s : String) :
      IsMember limit level key (.str s)
  | truth {level : Nat} {key : String} (hkey : key ∉ reservedKeys) (b : Bool) :
      IsMember limit level key (.bool b)
end

/-- A conjunct that stands alone is meant itself. -/
def conjunction : List Condition → Condition
  | [c] => c
  | cs => .all cs

/-- The values that a property may have: the pieces of a text between its `|`, or a truth value. -/
def propertyValues : Json → List String
  | .str s => (s.toList.splitOn '|').map String.ofList
  | .bool true => ["true"]
  | .bool false => ["false"]
  | _ => []

mutual
/-- The condition that a condition object means. -/
def meaning : Json → Condition
  | .object ms => conjunction (conjuncts ms)
  | _ => .all []

/-- What the members of an object mean, in their order; a comment means nothing. -/
def conjuncts : List (String × Json) → List Condition
  | [] => []
  | (key, j) :: rest =>
    if key = "__comment" then conjuncts rest
    else if key = "OR" then .any (meanings j) :: conjuncts rest
    else if key = "AND" then .all (meanings j) :: conjuncts rest
    else .property key (propertyValues j) :: conjuncts rest

def meanings : Json → List Condition
  | .list js => meaningsOfItems js
  | _ => []

def meaningsOfItems : List Json → List Condition
  | [] => []
  | j :: rest => meaning j :: meaningsOfItems rest
end

/-- What one member means. -/
def conjunct (key : String) (j : Json) : List Condition := conjuncts [(key, j)]

theorem conjuncts_eq_flatMap (ms : List (String × Json)) :
    conjuncts ms = ms.flatMap fun m => conjunct m.1 m.2 := by
  induction ms with
  | nil => rfl
  | cons m rest ih =>
      rw [List.flatMap_cons, ← ih]
      simp only [conjunct, conjuncts]
      by_cases hcomment : m.1 = "__comment"
      · rw [if_pos hcomment, if_pos hcomment, List.nil_append]
      · rw [if_neg hcomment, if_neg hcomment]
        split
        · rfl
        · split <;> rfl

theorem meaningsOfItems_eq_map (js : List Json) : meaningsOfItems js = js.map meaning := by
  induction js with
  | nil => rfl
  | cons j rest ih => rw [meaningsOfItems, List.map_cons, ih]

theorem and_eq_conjunction (cs : List Condition) : and cs = conjunction cs := by
  rcases cs with _ | ⟨c, _ | ⟨d, rest⟩⟩ <;> rfl

theorem pieces_eq_splitOn (sep : Char) (s : List Char) : Text.pieces sep s = s.splitOn sep := by
  induction s with
  | nil => rfl
  | cons c rest ih =>
      rw [Text.pieces, List.splitOn_cons_eq_if_modifyHead, ih]
      by_cases hc : c = sep
      · rw [if_pos hc, if_pos (beq_iff_eq.2 hc)]
      · rw [if_neg hc, if_neg (by rwa [beq_iff_eq])]
        cases hrest : rest.splitOn sep with
        | nil => exact absurd hrest (List.splitOn_ne_nil sep rest)
        | cons first more => rfl

theorem test_eq_property (name : String) {j : Json} {values : String} (h : valueOfJson j = .ok values) :
    test name values = .property name (propertyValues j) := by
  rw [test, alternatives, pieces_eq_splitOn]
  cases j with
  | str s =>
      obtain rfl := Except.ok.inj h
      rfl
  | bool b =>
      obtain rfl := Except.ok.inj h
      cases b <;> rfl
  | _ => cases h

section Members

variable {limit level : Nat} {key : String} {j : Json}

/-- Under both keys that join conditions stands a list of condition objects of the next level. -/
theorem isMember_junction_iff (hkey : key = "OR" ∨ key = "AND") :
    IsMember limit level key j ↔ ∃ js, j = .list js ∧ ∀ c ∈ js, IsObject limit (level + 1) c := by
  have hreserved : key ∈ reservedKeys := by rcases hkey with rfl | rfl <;> decide
  constructor
  · intro h
    cases h with
    | comment j => exact absurd hkey (by decide)
    | disjunction hjs => exact ⟨_, rfl, hjs⟩
    | conjunction hjs => exact ⟨_, rfl, hjs⟩
    | text hnot s => exact absurd hreserved hnot
    | truth hnot b => exact absurd hreserved hnot
  · rintro ⟨js, rfl, hjs⟩
    rcases hkey with rfl | rfl
    · exact .disjunction hjs
    · exact .conjunction hjs

/-- Under the name of a property stands a text or a truth value. -/
theorem isMember_property_iff (hkey : key ∉ reservedKeys) :
    IsMember limit level key j ↔ ∃ values, valueOfJson j = .ok values := by
  constructor
  · intro h
    cases h with
    | comment j => exact absurd hkey (by decide)
    | disjunction hjs => exact absurd hkey (by decide)
    | conjunction hjs => exact absurd hkey (by decide)
    | text _ s => exact ⟨s, rfl⟩
    | truth _ b => exact ⟨boolValue b, rfl⟩
  · rintro ⟨values, hvalues⟩
    cases j with
    | str s => exact .text hkey s
    | bool b => exact .truth hkey b
    | _ => cases hvalues

/-- A list of conditions is taken from JSON if its items are condition objects whose meaning is known. -/
theorem listOfJson_eq_ok_iff
    (hitems : ∀ js, j = .list js → ∀ c ∈ js, ∀ cond,
      ofJson limit level c = .ok cond ↔ IsObject limit level c ∧ cond = meaning c) (cs : List Condition) :
    listOfJson limit level j = .ok cs ↔
      (∃ js, j = .list js ∧ ∀ c ∈ js, IsObject limit level c) ∧ cs = meanings j := by
  by_cases hkind : j.kind = .list
  · cases j with
    | list js =>
        rw [listOfJson, itemsOfJson_eq, each_eq_ok_iff (hitems js rfl), meanings, meaningsOfItems_eq_map]
        constructor
        · exact fun h => ⟨⟨js, rfl, h.1⟩, h.2⟩
        · rintro ⟨⟨js', hjs, h⟩, hcs⟩
          obtain rfl := Json.list.inj hjs
          exact ⟨h, hcs⟩
    | _ => cases hkind
  · rw [listOfJson_other hkind]
    refine ⟨fun h => absurd h (error_ne_ok _ _), ?_⟩
    rintro ⟨⟨js, rfl, -⟩, -⟩
    exact absurd rfl hkind

theorem conjunct_or (j : Json) : conjunct "OR" j = [.any (meanings j)] := by simp [conjunct, conjuncts]

theorem conjunct_and (j : Json) : conjunct "AND" j = [.all (meanings j)] := by simp [conjunct, conjuncts]

theorem conjunct_comment (j : Json) : conjunct "__comment" j = [] := by simp [conjunct, conjuncts]

theorem ne_of_not_mem_reservedKeys (hkey : key ∉ reservedKeys) :
    key ≠ "OR" ∧ key ≠ "AND" ∧ key ≠ "__comment" := by
  simpa [reservedKeys] using hkey

theorem conjunct_property (hkey : key ∉ reservedKeys) (j : Json) :
    conjunct key j = [.property key (propertyValues j)] := by
  obtain ⟨hor, hand, hcomment⟩ := ne_of_not_mem_reservedKeys hkey
  rw [conjunct, conjuncts, if_neg hcomment, if_neg hor, if_neg hand, conjuncts]

theorem ofName_property (hkey : key ∉ reservedKeys) : Key.ofName key = .property key := by
  obtain ⟨hor, hand, hcomment⟩ := ne_of_not_mem_reservedKeys hkey
  rw [Key.ofName, if_neg hor, if_neg hand, if_neg hcomment]

/-- A member with a list of conditions, whichever way they are joined. -/
theorem junction_eq_ok_iff {join : List Condition → Condition} (hkey : key = "OR" ∨ key = "AND")
    (hlist : ∀ cs, listOfJson limit (level + 1) j = .ok cs ↔
      (∃ js, j = .list js ∧ ∀ c ∈ js, IsObject limit (level + 1) c) ∧ cs = meanings j)
    (hconjunct : conjunct key j = [join (meanings j)]) (cs : List Condition) :
    (fun cs => [join cs]) <$> listOfJson limit (level + 1) j = .ok cs ↔
      IsMember limit level key j ∧ cs = conjunct key j := by
  rw [map_eq_ok_iff, isMember_junction_iff hkey, hconjunct]
  constructor
  · rintro ⟨ds, hds, rfl⟩
    obtain ⟨hjs, rfl⟩ := (hlist ds).1 hds
    exact ⟨hjs, rfl⟩
  · rintro ⟨hjs, rfl⟩
    exact ⟨_, (hlist _).2 ⟨hjs, rfl⟩, rfl⟩

theorem property_eq_ok_iff (hkey : key ∉ reservedKeys) (cs : List Condition) :
    (fun values => [test key values]) <$> valueOfJson j = .ok cs ↔
      IsMember limit level key j ∧ cs = conjunct key j := by
  rw [map_eq_ok_iff, isMember_property_iff hkey, conjunct_property hkey]
  constructor
  · rintro ⟨values, hvalues, rfl⟩
    exact ⟨⟨values, hvalues⟩, by rw [test_eq_property key hvalues]⟩
  · rintro ⟨⟨values, hvalues⟩, rfl⟩
    exact ⟨values, hvalues, by rw [test_eq_property key hvalues]⟩

theorem memberOfJson_eq_ok_iff
    (hitems : ∀ js, j = .list js → ∀ c ∈ js, ∀ cond,
      ofJson limit (level + 1) c = .ok cond ↔ IsObject limit (level + 1) c ∧ cond = meaning c)
    (cs : List Condition) :
    memberOfJson limit level key j = .ok cs ↔ IsMember limit level key j ∧ cs = conjunct key j := by
  by_cases hkey : key ∈ reservedKeys
  · simp only [reservedKeys, List.mem_cons, List.not_mem_nil, or_false] at hkey
    rcases hkey with rfl | rfl | rfl
    · exact junction_eq_ok_iff (.inl rfl) (listOfJson_eq_ok_iff hitems) (conjunct_or j) cs
    · exact junction_eq_ok_iff (.inr rfl) (listOfJson_eq_ok_iff hitems) (conjunct_and j) cs
    · show Except.ok [] = _ ↔ _
      rw [conjunct_comment, Except.ok.injEq]
      exact ⟨fun h => ⟨.comment j, h.symm⟩, fun h => h.2.symm⟩
  · rw [memberOfJson, ofName_property hkey]
    exact property_eq_ok_iff hkey cs

end Members

/-- Conditions lie two brackets below the object that holds them: in the list of one of its members. -/
theorem item_induction {P : Json → Prop}
    (h : ∀ j, (∀ ms, j = .object ms → ∀ m ∈ ms, ∀ js, m.2 = .list js → ∀ c ∈ js, P c) → P j)
    (j : Json) : P j := by
  induction hn : j.nesting using Nat.strongRecOn generalizing j with
  | ind n ih =>
  refine h j fun ms hj m hm js hjs c hc => ?_
  have houter := Json.nesting_lt_object hm
  have hinner := Json.nesting_lt_list hc
  rw [hjs, ← hj] at houter
  exact ih c.nesting (by omega) c rfl

/-- A condition is taken from JSON exactly if that is a condition object, and is what the object means. -/
theorem ofJson_eq_ok_iff (limit level : Nat) (j : Json) (c : Condition) :
    ofJson limit level j = .ok c ↔ IsObject limit level j ∧ c = meaning j := by
  -- The conditions inside have a greater level, so the level is not fixed.
  induction j using item_induction generalizing level c with
  | h j ih =>
  by_cases hkind : j.kind = .object
  · cases j with
    | object ms =>
        have hmember : ∀ m ∈ ms, ∀ cs, memberOfJson limit level m.1 m.2 = .ok cs ↔
            IsMember limit level m.1 m.2 ∧ cs = conjunct m.1 m.2 := fun m hm cs =>
          memberOfJson_eq_ok_iff (fun js hjs d hd cond => ih ms rfl m hm js hjs d hd (level + 1) cond) cs
        rw [ofJson, membersOfJson_eq, meaning, conjuncts_eq_flatMap]
        by_cases hlevel : limit < level
        · rw [if_pos hlevel]
          refine ⟨fun h => absurd h (error_ne_ok _ _), ?_⟩
          rintro ⟨⟨hle, -⟩, -⟩
          omega
        · rw [if_neg hlevel, map_eq_ok_iff]
          constructor
          · rintro ⟨cs, hcs, rfl⟩
            obtain ⟨hms, rfl⟩ := (gatherMembers_eq_ok_iff hmember cs).1 hcs
            exact ⟨.intro (by omega) hms, and_eq_conjunction _⟩
          · rintro ⟨⟨-, hms⟩, rfl⟩
            exact ⟨_, (gatherMembers_eq_ok_iff hmember _).2 ⟨hms, rfl⟩, (and_eq_conjunction _).symm⟩
    | _ => cases hkind
  · rw [ofJson_other hkind]
    refine ⟨fun h => absurd h (error_ne_ok _ _), ?_⟩
    rintro ⟨⟨-, -⟩, -⟩
    exact absurd rfl hkind

end BlockModel.Condition
