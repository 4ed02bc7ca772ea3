/-! Cutting a text into pieces. Joining the pieces of a text gives the text again, and cutting up pieces
that were joined gives the pieces again if none of them holds the separator. `cut` separates at the first
occurrence, `cutLast` at the last, and `trim` takes the white space off both ends: the characters with the
Unicode property `White_Space`, which is a longer list than the four blanks of a JSON document. -/

namespace BlockModel.Text

/-- The pieces between the occurrences of a separator, empty ones kept; never an empty list. -/
def pieces (sep : Char) : List Char → List (List Char)
  | [] => [[]]
  | c :: rest =>
    if c = sep then [] :: pieces sep rest
    else match pieces sep rest with
      | [] => [[c]]
      | first :: more => (c :: first) :: more

/-- The pieces one after the other, with a separating text between neighbours. -/
def joined (sep : List Char) : List (List Char) → List Char
  | [] => []
  | [piece] => piece
  | piece :: next :: more => piece ++ sep ++ joined sep (next :: more)

/-- What stands before and after the first occurrence of a separator. -/
def cut (sep : Char) : List Char → Option (List Char × List Char)
  | [] => none
  | c :: rest => if c = sep then some ([], rest) else (cut sep rest).map fun p => (c :: p.1, p.2)

/-- What follows a given beginning. -/
def afterStart : List Char → List Char → Option (List Char)
  | [], s => some s
  | _ :: _, [] => none
  | p :: ps, c :: cs => if c = p then afterStart ps cs else none

/-- What stands before and after the last occurrence of a text in another. -/
def cutLast (mark : List Char) : List Char → Option (List Char × List Char)
  | [] => (afterStart mark []).map ([], ·)
  | c :: rest =>
    match cutLast mark rest with
    | some (before, after) => some (c :: before, after)
    | none => (afterStart mark (c :: rest)).map ([], ·)

/-- The first and last code point of each run of characters with the property `White_Space`. -/
def whiteSpaceRanges : List (Nat × Nat) :=
  [(0x09, 0x0D), (0x20, 0x20), (0x85, 0x85), (0xA0, 0xA0), (0x1680, 0x1680), (0x2000, 0x200A),
    (0x2028, 0x2029), (0x202F, 0x202F), (0x205F, 0x205F), (0x3000, 0x3000)]

/-- Whether a code point lies in one of the given ranges, both ends included. -/
def inRanges (ranges : List (Nat × Nat)) (c : Char) : Bool :=
  ranges.any fun r => r.1 ≤ c.toNat && c.toNat ≤ r.2

def isBlank (c : Char) : Bool := inRanges whiteSpaceRanges c

/-- What is left when the blanks before the first and after the last other character are gone. -/
def trim (s : List Char) : List Char :=
  ((s.dropWhile isBlank).reverse.dropWhile isBlank).reverse

theorem pieces_ne_nil (sep : Char) (s : List Char) : pieces sep s ≠ [] := by
  cases s with
  | nil => simp [pieces]
  | cons c rest =>
    rw [pieces]
    split
    · simp
    · split <;> simp

/-- Nothing but separators is lost. -/
theorem joined_pieces (sep : Char) (s : List Char) : joined [sep] (pieces sep s) = s := by
  induction s with
  | nil => rfl
  | cons c rest ih =>
    rw [pieces]
    split
    · rename_i h
      cases hp : pieces sep rest with
      | nil => exact absurd hp (pieces_ne_nil sep rest)
      | cons first more => rw [joined, ← hp, ih, h]; rfl
    · cases hp : pieces sep rest with
      | nil => exact absurd hp (pieces_ne_nil sep rest)
      | cons first more =>
        rw [hp] at ih
        cases more with
        | nil => rw [← ih]; rfl
        | cons second more => rw [← ih]; rfl

theorem pieces_of_not_mem {sep : Char} {s : List Char} (h : sep ∉ s) : pieces sep s = [s] := by
  induction s with
  | nil => rfl
  | cons c rest ih =>
    simp only [List.mem_cons, not_or] at h
    rw [pieces, if_neg (Ne.symm h.1), ih h.2]

/-- A piece is made of characters of the text, and none of them is the separator. -/
theorem mem_of_mem_pieces {sep c : Char} {s p : List Char} (hp : p ∈ pieces sep s) (hc : c ∈ p) :
    c ∈ s ∧ c ≠ sep := by
  induction s generalizing p with
  | nil =>
    rw [pieces, List.mem_singleton] at hp
    rw [hp] at hc
    exact absurd hc List.not_mem_nil
  | cons d rest ih =>
    have hlater : ∀ {q}, q ∈ pieces sep rest → c ∈ q → c ∈ d :: rest ∧ c ≠ sep :=
      fun hq hc => ⟨List.mem_cons_of_mem d (ih hq hc).1, (ih hq hc).2⟩
    rw [pieces] at hp
    split at hp
    · rcases List.mem_cons.1 hp with rfl | hp
      · exact absurd hc List.not_mem_nil
      · exact hlater hp hc
    · rename_i hsep
      cases hrest : pieces sep rest with
      | nil => exact absurd hrest (pieces_ne_nil sep rest)
      | cons first more =>
        rw [hrest] at hp hlater
        rcases List.mem_cons.1 hp with rfl | hp
        · rcases List.mem_cons.1 hc with rfl | hc
          · exact ⟨List.mem_cons_self, hsep⟩
          · exact hlater List.mem_cons_self hc
        · exact hlater (List.mem_cons_of_mem first hp) hc

theorem pieces_append {sep : Char} {s : List Char} (h : sep ∉ s) (t : List Char) :
    pieces sep (s ++ sep :: t) = s :: pieces sep t := by
  induction s with
  | nil => rw [List.nil_append, pieces, if_pos rfl]
  | cons c rest ih =>
    simp only [List.mem_cons, not_or] at h
    rw [List.cons_append, pieces, if_neg (Ne.symm h.1), ih h.2]

/-- Pieces without the separator are found again. -/
theorem pieces_joined {sep : Char} {ps : List (List Char)} (hne : ps ≠ []) (h : ∀ p ∈ ps, sep ∉ p) :
    pieces sep (joined [sep] ps) = ps := by
  induction ps with
  | nil => exact absurd rfl hne
  | cons p more ih =>
    cases more with
    | nil => exact pieces_of_not_mem (h p (by simp))
    | cons q more =>
      rw [joined, List.append_assoc, List.singleton_append, pieces_append (h p (by simp)),
        ih (by simp) fun r hr => h r (List.mem_cons_of_mem p hr)]

end BlockModel.Text
