import BlockModel.Proofs.Scan.Typed

/-! Scalars that are asked for. A string, a truth value or a whole number in its range is read as it is spelled, and
everything else is refused by the same fault as JSON that was read whole. -/

namespace BlockModel.Scan

theorem asString_other {j : Json} (hkind : j.kind ≠ .string) : j.asString = j.refused "a string" := by
  cases j with
  | str s => exact absurd rfl hkind
  | _ => rfl

theorem asInt_other {j : Json} (range : IntRange) (hkind : j.kind ≠ .number) :
    j.asInt range = j.refused range.name := by
  cases j with
  | number n => exact absurd rfl hkind
  | _ => rfl

theorem readsAs_string (j : Json) : ReadsAs string j (j.asString, []) := by
  intro w s t l hw hj ht
  obtain ⟨b, u, rfl, hb, hstart⟩ := gives_valueStart_value (t := t) (l := l) hw hj.form
  refine hstart.bind_ok ?_
  rw [hb, List.append_nil]
  by_cases hkind : j.kind = .string
  · rw [if_pos (congrArg some hkind)]
    cases j with
    | str str =>
        cases hj with
        | str hs => exact gives_quoted hs
    | _ => cases hkind
  · rw [if_neg fun h => hkind (Option.some.inj h), asString_other hkind]
    exact gives_mismatch hj hb ht _ _

theorem readsAs_bool (j : Json) : ReadsAs bool j (j.asBool, []) := by
  intro w s t l hw hj ht
  obtain ⟨b, u, rfl, hb, hstart⟩ := gives_valueStart_value (t := t) (l := l) hw hj.form
  have hmismatch := gives_mismatch (α := Bool) (l := l) hj hb ht "a boolean" ⟨t, l⟩
  refine hstart.bind_ok ?_
  rw [hb, List.append_nil]
  cases j with
  | bool x =>
      have hword := gives_boolWord (t := t) (l := l) x
      generalize hs : b :: u = s at hj
      cases hj with
      | bool x => exact hword.bind_ok (.pure x _)
  | _ => exact hmismatch

/-- A number that is not whole is refused for its kind, and a whole one out of the range for its value. -/
theorem readsAs_int (range : IntRange) (j : Json) : ReadsAs (int range) j (j.asInt range, []) := by
  intro w s t l hw hj ht
  obtain ⟨b, u, rfl, hb, hstart⟩ := gives_valueStart_value (t := t) (l := l) hw hj.form
  refine hstart.bind_ok ?_
  rw [hb, List.append_nil]
  by_cases hkind : j.kind = .number
  · rw [if_pos (congrArg some hkind)]
    cases j with
    | number n =>
        generalize hs : b :: u = s at hj
        cases hj with
        | number hn =>
            obtain ⟨x, hx, hvalue⟩ := hn
            subst hs
            refine (gives_number hx hvalue (ht.ends _ _)).bind_ok ?_
            cases n with
            | int n =>
                simp only [Json.asInt]
                split
                · exact .pure n _
                · exact .refuseData _ _
            | float x => exact .refuseData _ _
    | _ => cases hkind
  · rw [if_neg fun h => hkind (Option.some.inj h), asInt_other range hkind]
    exact gives_mismatch hj hb ht _ _

theorem ReadsAs.map {α β : Type} {p : Scan α} {j : Json} {r : Except DataFault α × List LogLine}
    (h : ReadsAs p j r) (f : α → β) : ReadsAs (f <$> p) j (f <$> r.1, r.2) :=
  fun w s t l hw hj ht => (h w s t l hw hj ht).map f

theorem readsAs_int32 (j : Json) : ReadsAs int32 j (j.asInt32, []) := (readsAs_int .signed32 j).map Int32.ofInt

theorem readsAs_uint32 (j : Json) : ReadsAs uint32 j (j.asUInt32, []) :=
  (readsAs_int .unsigned32 j).map fun n => UInt32.ofNat n.toNat

end BlockModel.Scan
