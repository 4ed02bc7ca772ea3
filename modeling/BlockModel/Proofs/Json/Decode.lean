import BlockModel.Json.Decode

/-! Taking things from lists and objects. Every item and every member has to be accepted, and then what they
give is put together in order. -/

namespace BlockModel

variable {α β γ ε : Type}

/-- What the members of an object give one after another. -/
def gatherMembers (f : String → Json → Except DataFault (List α)) :
    List (String × Json) → Except DataFault (List α)
  | [] => .ok []
  | (key, j) :: rest => do
    let as ← f key j
    let more ← gatherMembers f rest
    pure (as ++ more)

theorem gatherMembers_pair (ms : List (String × Json)) :
    gatherMembers (fun key j => .ok [(key, j)]) ms = .ok ms := by
  induction ms with
  | nil => rfl
  | cons m rest ih =>
      rw [gatherMembers, ih]
      rfl

theorem each_ok (js : List Json) : Json.each .ok js = .ok js := by
  induction js with
  | nil => rfl
  | cons j rest ih =>
      rw [Json.each, ih]
      rfl

theorem error_ne_ok (fault : ε) (a : α) : (.error fault : Except ε α) ≠ .ok a := by
  intro h
  cases h

/-- A step and the rest succeed if the step does and then the rest. -/
theorem bind_eq_ok_iff {x : Except ε α} {f : α → Except ε β} {b : β} :
    x >>= f = .ok b ↔ ∃ a, x = .ok a ∧ f a = .ok b := by
  cases x with
  | error fault =>
      refine ⟨fun h => absurd h (error_ne_ok _ _), ?_⟩
      rintro ⟨a, ha, -⟩
      exact absurd ha (error_ne_ok _ _)
  | ok a =>
      refine ⟨fun hok => ⟨a, rfl, hok⟩, ?_⟩
      rintro ⟨a', ha, hok⟩
      rw [Except.ok.inj ha]
      exact hok

theorem toOption_bind (x : Except DataFault α) (f : α → Except DataFault β) :
    (x >>= f).toOption = x.toOption.bind fun a => (f a).toOption := by
  cases x <;> rfl

theorem pure_eq_ok_iff {a b : α} : (pure a : Except ε α) = .ok b ↔ b = a := by
  show Except.ok a = Except.ok b ↔ b = a
  rw [Except.ok.injEq, eq_comm]

theorem map_eq_ok_iff {f : α → β} {x : Except ε α} {b : β} :
    f <$> x = .ok b ↔ ∃ a, x = .ok a ∧ b = f a := by
  rw [map_eq_pure_bind, bind_eq_ok_iff]
  simp only [pure_eq_ok_iff]

theorem both_eq_ok_iff {x : Except ε α} {y : Except ε β} (h : α → β → γ) (c : γ) :
    (do let a ← x; let b ← y; pure (h a b)) = .ok c ↔ ∃ a b, x = .ok a ∧ y = .ok b ∧ c = h a b := by
  simp only [bind_eq_ok_iff, pure_eq_ok_iff, exists_and_left]

/-- An object is taken exactly if every member is, and gives what they give. -/
theorem gatherMembers_eq_ok_iff {f : String → Json → Except DataFault (List α)} {P : String → Json → Prop}
    {g : String → Json → List α} {ms : List (String × Json)}
    (h : ∀ m ∈ ms, ∀ as, f m.1 m.2 = .ok as ↔ P m.1 m.2 ∧ as = g m.1 m.2) (as : List α) :
    gatherMembers f ms = .ok as ↔ (∀ m ∈ ms, P m.1 m.2) ∧ as = ms.flatMap fun m => g m.1 m.2 := by
  induction ms generalizing as with
  | nil => simp [gatherMembers, eq_comm]
  | cons m rest ih =>
      have hm := h m (by simp)
      have hrest := ih fun m hm => h m (by simp [hm])
      rw [gatherMembers, both_eq_ok_iff, List.forall_mem_cons, List.flatMap_cons]
      constructor
      · rintro ⟨bs, cs, hbs, hcs, rfl⟩
        obtain ⟨hP, rfl⟩ := (hm bs).1 hbs
        obtain ⟨hPs, rfl⟩ := (hrest cs).1 hcs
        exact ⟨⟨hP, hPs⟩, rfl⟩
      · rintro ⟨⟨hP, hPs⟩, rfl⟩
        exact ⟨_, _, (hm _).2 ⟨hP, rfl⟩, (hrest _).2 ⟨hPs, rfl⟩, rfl⟩

/-- A list is taken exactly if every item is. -/
theorem each_eq_ok_iff {f : Json → Except DataFault α} {P : Json → Prop} {g : Json → α} {js : List Json}
    (h : ∀ j ∈ js, ∀ a, f j = .ok a ↔ P j ∧ a = g j) (as : List α) :
    Json.each f js = .ok as ↔ (∀ j ∈ js, P j) ∧ as = js.map g := by
  induction js generalizing as with
  | nil => simp [Json.each, eq_comm]
  | cons j rest ih =>
      have hj := h j (by simp)
      have hrest := ih fun j hj => h j (by simp [hj])
      rw [Json.each, both_eq_ok_iff, List.forall_mem_cons, List.map_cons]
      constructor
      · rintro ⟨b, cs, hb, hcs, rfl⟩
        obtain ⟨hP, rfl⟩ := (hj b).1 hb
        obtain ⟨hPs, rfl⟩ := (hrest cs).1 hcs
        exact ⟨⟨hP, hPs⟩, rfl⟩
      · rintro ⟨⟨hP, hPs⟩, rfl⟩
        exact ⟨_, _, (hj _).2 ⟨hP, rfl⟩, (hrest _).2 ⟨hPs, rfl⟩, rfl⟩

theorem toOption_each_congr {f : Json → Except DataFault α} {g : Json → Json} {js : List Json}
    (h : ∀ j ∈ js, (f (g j)).toOption = (f j).toOption) :
    (Json.each f (js.map g)).toOption = (Json.each f js).toOption := by
  induction js with
  | nil => rfl
  | cons j rest ih =>
      have hrest := ih fun k hk => h k (List.mem_cons_of_mem _ hk)
      simp only [List.map_cons, Json.each, toOption_bind, h j List.mem_cons_self, hrest]

/-- A list is taken if every item is. -/
theorem exists_each_eq_ok_iff {f : Json → Except DataFault α} {js : List Json} :
    (∃ as, Json.each f js = .ok as) ↔ ∀ j ∈ js, ∃ a, f j = .ok a := by
  induction js with
  | nil => exact ⟨fun _ => List.forall_mem_nil _, fun _ => ⟨[], rfl⟩⟩
  | cons j rest ih =>
      rw [List.forall_mem_cons, ← ih]
      simp only [Json.each, both_eq_ok_iff]
      constructor
      · rintro ⟨_, a, as, ha, has, rfl⟩
        exact ⟨⟨a, ha⟩, as, has⟩
      · rintro ⟨⟨a, ha⟩, as, has⟩
        exact ⟨_, a, as, ha, has, rfl⟩

theorem noMorePlaces_eq_ok_iff {places : Nat} {js : List Json} (u : Unit) :
    Json.noMorePlaces places js = .ok u ↔ js.length ≤ places := by
  unfold Json.noMorePlaces
  by_cases hlength : js.length ≤ places
  · rw [if_pos hlength]
    exact ⟨fun _ => hlength, fun _ => rfl⟩
  · rw [if_neg hlength]
    exact ⟨fun h => absurd h (error_ne_ok _ _), fun h => absurd h hlength⟩

end BlockModel
