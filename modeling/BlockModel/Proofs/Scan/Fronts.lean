import BlockModel.Proofs.Scan.Formed

/-! Fronts of values. A text that breaks off in the middle of a value may still have been without fault up to there:
then it can be gone on with to a value by its form. Fronts are made up like the values themselves, from the pieces that
are whole and the one that breaks off. -/

namespace BlockModel.Scan

variable {first : Bool} {u v t w : List UInt8} {whole whole' : List UInt8 → Prop}

/-- A value by its form, perhaps behind blanks. -/
def IsValue (y : List UInt8) : Prop := ∃ w s j, Blanks w ∧ Spells .form (.value j) s ∧ y = w ++ s

/-- A colon and a value by its form. -/
def IsMemberValue (y : List UInt8) : Prop := ∃ w v, Blanks w ∧ IsValue v ∧ y = w ++ Octet.colon :: v

/-- The inside of a list, from its start on or after an item. -/
def IsItems (first : Bool) (y : List UInt8) : Prop := ∃ js, Spells .form (itemsFrom first js) y

/-- The inside of an object, from its start on or after a member. -/
def IsMembers (first : Bool) (y : List UInt8) : Prop := ∃ ms, Spells .form (membersFrom first ms) y

/-- What stands before the second text can be gone on with to something whole. -/
def ByFront (whole : List UInt8 → Prop) (u v : List UInt8) : Prop := ∃ s r, u = s ++ v ∧ whole (s ++ r)

theorem ByValue.byFront (h : ByValue u t) : ByFront IsValue u t := by
  obtain ⟨w, s, j, hw, hj, rfl⟩ := h
  exact ⟨w ++ s, [], (List.append_assoc w s t).symm, w, s, j, hw, hj, List.append_nil _⟩

theorem isValue_null : IsValue (wordOctets "null") := ⟨[], _, .null, blanks_nil, .null, rfl⟩

namespace ByFront

theorem nothing {r : List UInt8} (h : whole r) (u : List UInt8) : ByFront whole u u := ⟨[], r, rfl, h⟩

/-- Something may stand around on both sides. -/
theorem within (h : ByFront whole u v) (front back : List UInt8)
    (hwhole : ∀ y, whole y → whole' (front ++ (y ++ back))) : ByFront whole' (front ++ u) v := by
  obtain ⟨s, r, rfl, hsr⟩ := h
  refine ⟨front ++ s, r ++ back, (List.append_assoc front s v).symm, ?_⟩
  have hsplit : (front ++ s) ++ (r ++ back) = front ++ ((s ++ r) ++ back) := by simp only [List.append_assoc]
  rw [hsplit]
  exact hwhole _ hsr

theorem blanks (hw : Blanks w) (h : ByFront IsValue u v) : ByFront IsValue (w ++ u) v := by
  refine h.within w [] fun y hy => ?_
  obtain ⟨w', s, j, hw', hj, rfl⟩ := hy
  exact ⟨w ++ w', s, j, List.forall_mem_append.2 ⟨hw, hw'⟩, hj, by rw [List.append_nil, List.append_assoc]⟩

theorem item {gap : List UInt8} (hgap : Gap first gap) (h : ByFront IsValue u v) :
    ByFront (IsItems first) (gap ++ u) v := by
  refine h.within gap [] fun y hy => ?_
  obtain ⟨w, s, j, hw, hj, rfl⟩ := hy
  have hitems := hgap.spells_itemsFrom hw hj (.endItems blanks_nil)
  rw [← List.append_assoc w] at hitems
  exact ⟨[j], hitems⟩

theorem nextItem {gap : List UInt8} (hgap : Gap first gap) (hvalue : ByValue u t)
    (h : ByFront (IsItems false) t v) : ByFront (IsItems first) (gap ++ u) v := by
  obtain ⟨w, s, j, hw, hj, rfl⟩ := hvalue
  have hlater : ByFront (IsItems first) ((gap ++ (w ++ s)) ++ t) v := by
    refine h.within (gap ++ (w ++ s)) [] fun y hy => ?_
    obtain ⟨js, hjs⟩ := hy
    have hitems := hgap.spells_itemsFrom hw hj hjs
    refine ⟨j :: js, ?_⟩
    rw [List.append_nil, List.append_assoc, List.append_assoc]
    exact hitems
  simpa only [List.append_assoc] using hlater

theorem noItem (first : Bool) (hw : Blanks w) (t : List UInt8) : ByFront (IsItems first) (w ++ t) t :=
  ⟨w, [], rfl, [], by rw [List.append_nil]; exact spells_itemsFrom_nil hw⟩

/-- Where the bracket stands no item breaks off. -/
theorem eq_of_closeList (h : ByFront (IsItems false) (Octet.closeList :: t) v) : v = Octet.closeList :: t := by
  obtain ⟨s, r, heq, js, hjs⟩ := h
  cases s with
  | nil => exact heq.symm
  | cons b s =>
      obtain ⟨rfl, -⟩ := List.cons.inj heq
      rw [List.cons_append] at hjs
      generalize hy : Octet.closeList :: (s ++ r) = y at hjs
      cases hjs with
      | endItems hw => exact absurd (hw Octet.closeList (hy ▸ List.mem_cons_self)) (by decide)
      | moreItems hw =>
          obtain rfl := blanks_eq_nil hw (congrArg List.head? hy.symm) (by decide)
          exact absurd (List.cons.inj hy).1 (by decide)

theorem list (h : ByFront (IsItems true) u v) : ByFront IsValue (Octet.openList :: u) v := by
  refine h.within [Octet.openList] [Octet.closeList] fun y hy => ?_
  obtain ⟨js, hjs⟩ := hy
  exact ⟨[], _, .list js, blanks_nil, .list hjs, rfl⟩

theorem colon (hw : Blanks w) (h : ByFront IsValue u v) : ByFront IsMemberValue (w ++ Octet.colon :: u) v := by
  have hcolon : ByFront IsMemberValue ((w ++ [Octet.colon]) ++ u) v := by
    refine h.within (w ++ [Octet.colon]) [] fun y hy => ⟨w, y, hw, hy, ?_⟩
    rw [List.append_nil, List.append_assoc, List.singleton_append]
  simpa only [List.append_assoc, List.singleton_append] using hcolon

/-- A key may be refused before its colon. -/
theorem noColon (u : List UInt8) : ByFront IsMemberValue u u :=
  .nothing (r := Octet.colon :: wordOctets "null") ⟨[], _, blanks_nil, isValue_null, rfl⟩ u

theorem member {gap k : List UInt8} {key : String} (hgap : Gap first gap) (hk : Leaves.form.string key k)
    (h : ByFront IsMemberValue u v) : ByFront (IsMembers first) (gap ++ (k ++ u)) v := by
  have hmember : ByFront (IsMembers first) ((gap ++ k) ++ u) v := by
    refine h.within (gap ++ k) [] fun y hy => ?_
    obtain ⟨w1, _, hw1, ⟨w2, s, j, hw2, hj, rfl⟩, rfl⟩ := hy
    have hmembers := hgap.spells_membersFrom hk hw1 hw2 hj (.endMembers blanks_nil)
    refine ⟨[(key, j)], ?_⟩
    rw [List.append_nil, List.append_assoc]
    rwa [List.append_nil] at hmembers
  rwa [List.append_assoc] at hmember

theorem nextMember {gap k : List UInt8} {key : String} (hgap : Gap first gap) (hk : Leaves.form.string key k)
    (hvalue : ByMemberValue u t) (h : ByFront (IsMembers false) t v) :
    ByFront (IsMembers first) (gap ++ (k ++ u)) v := by
  obtain ⟨w1, _, hw1, rfl, w2, s, j, hw2, hj, rfl⟩ := hvalue
  have hlater : ByFront (IsMembers first) ((gap ++ (k ++ (w1 ++ Octet.colon :: (w2 ++ s)))) ++ t) v := by
    refine h.within _ [] fun y hy => ?_
    obtain ⟨ms, hms⟩ := hy
    have hmembers := hgap.spells_membersFrom hk hw1 hw2 hj hms
    refine ⟨(key, j) :: ms, ?_⟩
    simpa only [List.append_nil, List.append_assoc, List.cons_append] using hmembers
  simpa only [List.append_assoc, List.cons_append] using hlater

theorem object (h : ByFront (IsMembers true) u v) : ByFront IsValue (Octet.openObject :: u) v := by
  refine h.within [Octet.openObject] [Octet.closeObject] fun y hy => ?_
  obtain ⟨ms, hms⟩ := hy
  exact ⟨[], _, .object ms, blanks_nil, .object hms, rfl⟩

end ByFront

end BlockModel.Scan
