import BlockModel.Failure

/-! Places and offsets. Taking octets leads to a later place, so a place in a text is that of one offset only; and
as long as no line feed is among them, octets can be counted back from the place that they lead to. -/

namespace BlockModel.Position

theorem advance_append (p : Position) (xs ys : List UInt8) :
    p.advance (xs ++ ys) = (p.advance xs).advance ys := List.foldl_append

theorem advance_cons (p : Position) (b : UInt8) (octets : List UInt8) :
    p.advance (b :: octets) = (p.step b).advance octets := rfl

theorem advance_of_ne_lineFeed {octets : List UInt8} (h : ∀ b ∈ octets, b ≠ 0x0A) (p : Position) :
    p.advance octets = ⟨p.line, p.column + octets.length⟩ := by
  induction octets generalizing p with
  | nil => rfl
  | cons b octets ih =>
      obtain ⟨hb, hrest⟩ := List.forall_mem_cons.1 h
      rw [advance_cons, ih hrest, step, if_neg hb, List.length_cons]
      simp only [Position.mk.injEq, true_and]
      omega

theorem back_advance {octets : List UInt8} (h : ∀ b ∈ octets, b ≠ 0x0A) (p : Position) :
    (p.advance octets).back octets.length = p := by
  rw [advance_of_ne_lineFeed h, back, Nat.add_sub_cancel]

/-- A place denotes an offset in a text if it is the place after so many of its octets. -/
def Denotes (p : Position) (octets : List UInt8) (offset : Nat) : Prop :=
  offset ≤ octets.length ∧ p = start.advance (octets.take offset)

/-- Octets lead to a later line, or further on in the same one. -/
theorem lt_advance (octets : List UInt8) (p : Position) : p.line < (p.advance octets).line ∨
    p.line = (p.advance octets).line ∧ p.column + octets.length = (p.advance octets).column := by
  induction octets generalizing p with
  | nil => exact .inr ⟨rfl, rfl⟩
  | cons b octets ih =>
      have hrest := ih (p.step b)
      rw [advance_cons, List.length_cons]
      by_cases hb : b = 0x0A
      · rw [step, if_pos hb] at hrest ⊢
        simp only at hrest
        omega
      · rw [step, if_neg hb] at hrest ⊢
        simp only at hrest
        omega

theorem advance_ne {octets : List UInt8} (h : octets ≠ []) (p : Position) : p.advance octets ≠ p := by
  intro heq
  have hlength : 0 < octets.length := List.length_pos_iff.2 h
  have hlater := lt_advance octets p
  rw [heq] at hlater
  omega

/-- A place denotes one offset at most. -/
theorem Denotes.unique {p : Position} {octets : List UInt8} {i k : Nat} (hi : p.Denotes octets i)
    (hk : p.Denotes octets k) : i = k := by
  have hlt : ∀ {i k : Nat}, i < k → p.Denotes octets i → ¬p.Denotes octets k := by
    rintro i k hik ⟨-, hi⟩ ⟨hk, hp⟩
    have hsplit : octets.take k = octets.take i ++ (octets.drop i).take (k - i) := by
      rw [← List.take_add, Nat.add_sub_cancel' (Nat.le_of_lt hik)]
    rw [hsplit, advance_append, ← hi] at hp
    refine advance_ne (fun hnil => ?_) p hp.symm
    have hlength := congrArg List.length hnil
    rw [List.length_take, List.length_drop, List.length_nil] at hlength
    omega
  rcases Nat.lt_trichotomy i k with h | h | h
  · exact absurd hk (hlt h hi)
  · exact h
  · exact absurd hi (hlt h hk)

/-- A place as it is counted: an offset lies in the line after the line feeds in front of it, and in the column after
the octets since the last of them. -/
structure IsAt (p : Position) (octets : List UInt8) (offset : Nat) : Prop where
  offset_le : offset ≤ octets.length
  line : p.line = 1 + (octets.take offset).count 0x0A
  column : p.column = ((octets.take offset).reverse.takeWhile (· != 0x0A)).length

/-- The octets are counted from the last one back. -/
theorem advance_reverse (octets : List UInt8) : start.advance octets.reverse =
    ⟨1 + octets.count 0x0A, (octets.takeWhile (· != 0x0A)).length⟩ := by
  induction octets with
  | nil => rfl
  | cons b octets ih =>
      rw [List.reverse_cons, advance_append, ih, advance_cons, step, List.count_cons, List.takeWhile_cons]
      by_cases hb : b = 0x0A
      · rw [if_pos hb, hb]
        rfl
      · rw [if_neg hb, if_neg (by simpa using hb), if_pos (by simpa using hb)]
        rfl

theorem Denotes.isAt {p : Position} {octets : List UInt8} {offset : Nat} (h : p.Denotes octets offset) :
    p.IsAt octets offset := by
  obtain ⟨hle, hp⟩ := h
  have hcounted := advance_reverse (octets.take offset).reverse
  rw [List.reverse_reverse, ← hp, List.count_reverse] at hcounted
  exact ⟨hle, congrArg Position.line hcounted, congrArg Position.column hcounted⟩

variable {p : Position} {octets : List UInt8} {offset : Nat}

/-- The column is zero in front of the first octet of a line. -/
theorem IsAt.column_eq_zero_iff (h : p.IsAt octets offset) :
    p.column = 0 ↔ offset = 0 ∨ octets[offset - 1]? = some 0x0A := by
  cases offset with
  | zero => exact ⟨fun _ => .inl rfl, fun _ => h.column⟩
  | succ k =>
      have hk : k < octets.length := h.offset_le
      have hcolumn := h.column
      rw [List.take_add_one, List.getElem?_eq_getElem hk, Option.toList_some, List.reverse_append,
        List.reverse_singleton, List.singleton_append, List.takeWhile_cons] at hcolumn
      rw [Nat.add_sub_cancel, List.getElem?_eq_getElem hk]
      by_cases hlast : octets[k] = 0x0A
      · simp [hcolumn, hlast]
      · simp [hcolumn, hlast]

/-- A place that names an octet of a text: its line and its column in that line, both counted from one. -/
structure Names (p : Position) (octets : List UInt8) (k : Nat) : Prop where
  lt_length : k < octets.length
  line : p.line = 1 + (octets.take k).count 0x0A
  column : p.column = 1 + ((octets.take k).reverse.takeWhile (· != 0x0A)).length

/-- Where a column is counted, the place names the octet before it. -/
theorem IsAt.names (h : p.IsAt octets offset) (hcolumn : 1 ≤ p.column) : p.Names octets (offset - 1) := by
  cases offset with
  | zero => exact absurd h.column (Nat.ne_of_gt hcolumn)
  | succ k =>
      have hk : k < octets.length := h.offset_le
      have hlast : octets[k] ≠ 0x0A := by
        intro hlast
        refine Nat.ne_of_gt hcolumn (h.column_eq_zero_iff.2 (.inr ?_))
        rw [Nat.add_sub_cancel, List.getElem?_eq_getElem hk, hlast]
      have htake : octets.take (k + 1) = octets.take k ++ [octets[k]] := by
        rw [List.take_add_one, List.getElem?_eq_getElem hk, Option.toList_some]
      obtain ⟨-, hline, hcount⟩ := h
      rw [htake] at hline hcount
      refine ⟨hk, ?_, ?_⟩
      · rw [hline, List.count_append, List.count_singleton, if_neg (by simpa using hlast), Nat.add_zero,
          Nat.add_sub_cancel]
      · rw [hcount, List.reverse_append, List.reverse_singleton, List.singleton_append, List.takeWhile_cons,
          if_pos (by simpa using hlast), List.length_cons, Nat.add_comm, Nat.add_sub_cancel]

end BlockModel.Position
