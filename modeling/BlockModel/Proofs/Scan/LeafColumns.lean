import BlockModel.Proofs.Scan.Fits

/-! The readers of JSON count columns. What they look at before they refuse it is no blank, and what they have read
behind a value without parts is no line feed either; so of the failures with an octet only those may be placed where a
line begins that take the octet first and ask afterwards. -/

namespace BlockModel

namespace Numeral

variable {x : Numeral}

theorem lineFeed_not_mem_digits (ds : Digits) : 0x0A ∉ ds.octets :=
  fun hb => absurd (ds.isDigit _ hb) (by decide)

/-- A numeral is written in one line. -/
theorem lineFeed_not_mem_octets : 0x0A ∉ x.octets := by
  intro hb
  rcases mem_octets.1 hb with ⟨-, hminus⟩ | hwhole | hfraction | hexponent
  · cases hminus
  · exact lineFeed_not_mem_digits _ hwhole
  · cases hf : x.fraction with
    | none =>
        rw [hf] at hfraction
        cases hfraction
    | some ds =>
        rw [hf, fractionOctets, List.mem_cons] at hfraction
        exact hfraction.elim (by decide) (lineFeed_not_mem_digits ds)
  · cases he : x.exponent with
    | none =>
        rw [he] at hexponent
        cases hexponent
    | some part =>
        rw [he, exponentOctets, ExponentPart.octets, List.mem_cons, List.mem_append] at hexponent
        rcases hexponent with hmark | hsign | hdigits
        · exact absurd part.isMark (by rw [← hmark]; decide)
        · exact (ExponentPart.eq_of_mem_signOctets hsign).elim (by decide) (by decide)
        · exact lineFeed_not_mem_digits _ hdigits

end Numeral

namespace Scan

variable {α : Type} {pre : Cursor → Prop} {c d c' : Cursor} {e : Failure} {b : UInt8}

theorem onLine_of_number {n : JsonNumber} (h : (number b).run .document c = (.ok n, d)) (hb : c.rest.head? = some b) :
    d.OnLine := by
  obtain ⟨x, -, -, hrest⟩ := ok_number h hb
  obtain ⟨_, _, hoctets, -⟩ := x.kind?_head
  refine Cursor.onLine_of_taken (.of_run h) hrest (fun b hb => ?_) (.inl (hoctets ▸ List.cons_ne_nil _ _))
  rintro rfl
  exact Numeral.lineFeed_not_mem_octets hb

/-- Behind a string stands its closing quote. -/
theorem onLine_of_quoted {str : String} (h : quoted.run .document c = (.ok str, d))
    (hquote : c.rest.head? = some Octet.quote) : d.OnLine := by
  obtain ⟨s, ⟨body, hbody, rfl⟩, hrest⟩ := ok_quoted_of_quote h hquote
  refine Cursor.onLine_of_taken (.of_run h) hrest ?_ (.inl (List.cons_ne_nil _ _))
  exact List.forall_mem_cons.2 ⟨by decide,
    List.forall_mem_append.2 ⟨(standsFor_of_spellsChars hbody).ne_lineFeed, List.forall_mem_singleton.2 (by decide)⟩⟩

theorem onLine_of_word {letters : List UInt8} {u : Unit}
    (h : (do skip; word letters : Scan Unit).run .document c = (.ok u, d)) (hbefore : c.Before b)
    (hletters : ∀ b ∈ letters, b ≠ 0x0A) : d.OnLine := by
  obtain ⟨r, hr⟩ := hbefore.exists_cons
  exact Cursor.onLine_of_taken (.of_run h) (ok_skip_word h hr) (List.forall_mem_cons.2 ⟨hbefore.2, hletters⟩)
    (.inl (List.cons_ne_nil _ _))

theorem onLine_of_fourHex {n : Nat} (h : fourHex.run .document c = (.ok n, d)) : d.OnLine := by
  obtain ⟨digits, hdigits, hrest⟩ := ok_fourHex h
  refine Cursor.onLine_of_taken (.of_run h) hrest (ne_lineFeed_of_hexNumber? hdigits) (.inl ?_)
  rintro rfl
  cases hdigits

theorem onLine_of_exponentLoop {m : Nat} {result : Option Nat} (hline : c.OnLine)
    (h : (loop m exponentRound).run .document c = (.ok result, d)) (hm : m < exponentBound) : d.OnLine := by
  obtain ⟨ds, hrest, hdigits⟩ := ok_exponentLoop h hm
  exact Cursor.onLine_of_taken (.of_run h) hrest (fun b hb => ne_lineFeed_of_isDigit (hdigits.isDigit b hb))
    (.inr hline)

/-- Octets that are no text are refused inside of the string, which lies in one line with its opening quote. -/
theorem FitsFrom.textOf {octets : List UInt8} (hline : c.OnLine)
    (hloop : (loop [] stringRound).run .document c = (.ok octets, d))
    (h : (Scan.textOf octets).run .document d = (.error e, c')) : FitsFrom c e := by
  obtain ⟨body, more, hmore, hbody, hrest, hlooked⟩ := ok_stringLoop hloop
  rw [List.reverse_nil, List.nil_append] at hmore
  subst hmore
  rw [Scan.textOf] at h
  rcases hdecode : Text.Utf8.decode octets with ⟨chars, left⟩
  rw [hdecode] at h
  cases left with
  | nil => cases h
  | cons b left =>
      have hn : (b :: left).length ≤ (body ++ [Octet.quote]).length := by
        rw [List.length_append]
        exact Nat.le_trans (Nat.le_trans (Text.Utf8.length_left_le hdecode) hbody.length_le) (Nat.le_add_right _ _)
      have hplain : ∀ b ∈ body ++ [Octet.quote], b ≠ 0x0A :=
        List.forall_mem_append.2 ⟨hbody.ne_lineFeed, List.forall_mem_singleton.2 (by decide)⟩
      have htaken : c.rest = (body ++ [Octet.quote]) ++ d.rest := by
        rw [hrest, List.append_assoc, List.singleton_append]
      obtain ⟨c0, hreach, hrest0, hplace⟩ := exists_before .document htaken (.of_run hloop) hlooked hplain hn
      cases h
      refine ⟨fun p hp => ?_, fun hnone => (by cases hnone)⟩
      refine ⟨c0, hreach, Option.some.inj (hp.symm.trans hplace), .onLine ?_⟩
      obtain ⟨back, hback⟩ : ∃ back, c0.rest = back ++ d.rest := ⟨_, hrest0⟩
      obtain ⟨front, hfront, -⟩ := id hreach
      have hsplit : body ++ [Octet.quote] = front ++ back := by
        refine List.append_cancel_right (htaken.symm.trans ?_)
        rw [hfront, hback, List.append_assoc]
      have hfrontPlain : ∀ b ∈ front, b ≠ 0x0A := fun b hb => hplain b (hsplit ▸ List.mem_append_left back hb)
      exact Cursor.onLine_of_taken hreach hfront hfrontPlain (.inr hline)

namespace Fitting

theorem word (letters : List UInt8) : Fitting pre (Scan.word letters) := by
  induction letters generalizing pre with
  | nil => exact .pure ()
  | cons letter rest ih =>
      exact .taking (.refuse_atEnd rfl (.inl rfl)) fun _ =>
        .ite (fun _ => ih) fun _ => (refuse_octet rfl).mono fun _ _ h => h.1

theorem nullWord : Fitting pre Scan.nullWord := skip.andThen fun _ => .word _

theorem boolWord (b : Bool) : Fitting pre (Scan.boolWord b) := skip.andThen fun _ => .word _

theorem valueStart : Fitting pre Scan.valueStart := .looking (.refuse_atEnd rfl (.inr rfl)) fun _ => .pure _

/-- The octet that a value begins with was looked at. -/
theorem starting {k : UInt8 → Scan α} (hk : ∀ b, Fitting (Cursor.Before b) (k b)) :
    Fitting pre (Scan.valueStart >>= k) := by
  refine valueStart.bind (fun c b d _ _ hrun => ?_) hk
  obtain ⟨-, r, -, -, hrest, hb⟩ := ok_valueStart hrun
  exact ⟨by rw [hrest]; rfl, ne_lineFeed_of_not_isBlank hb⟩

theorem inString {k : UInt8 → Scan α} (hk : ∀ b, Fitting (Cursor.Behind b) (k b)) :
    Fitting pre (Scan.inString >>= k) := by
  have hread : Fitting pre Scan.inString := .taking (.refuse_atEnd rfl (.inl rfl)) fun _ => .pure _
  refine hread.bind (fun c b d _ _ hrun => ?_) hk
  have hreach := Cursor.Reaches.of_run hrun
  have hrest : c.rest = [b] ++ d.rest := (ok_inString hrun).1
  refine ⟨Cursor.begun_of_taken hreach hrest (List.cons_ne_nil _ _), fun hb => ?_⟩
  exact Cursor.onLine_of_taken hreach hrest (List.forall_mem_singleton.2 hb) (.inl (List.cons_ne_nil _ _))

theorem fourHex : Fitting pre Scan.fourHex := by
  refine .inString fun _ => .inString fun _ => .inString fun _ => .inString fun _ => ?_
  split
  · exact .pure _
  · exact (refuse_octet rfl).mono fun _ _ h => h.1

theorem surrogateMark (expected : UInt8) : Fitting pre (Scan.surrogateMark expected) :=
  .inString fun _ => .ite (fun _ => .pure ()) fun _ => (refuse_octet rfl).mono fun _ _ h => h.1

/-- Four digits that are half of a pair were taken. -/
theorem codePoint : Fitting pre Scan.codePoint := by
  -- what is refused for its digits is refused behind them
  have hhalf : ∀ c n d, c.HasText → pre c → Scan.fourHex.run .document c = (.ok n, d) → d.OnLine :=
    fun _ _ _ _ _ hrun => onLine_of_fourHex hrun
  refine fourHex.bind hhalf fun n => .ite (fun _ => .refuse_onLine _) fun _ => .ite (fun _ => ?_) fun _ => .pure n
  refine (surrogateMark _).andThen fun _ => (surrogateMark _).andThen fun _ => ?_
  exact fourHex.bind (fun _ _ _ _ _ hrun => onLine_of_fourHex hrun) fun m =>
    .ite (fun _ => .pure _) fun _ => .refuse_onLine _

theorem escape : Fitting pre Scan.escape := by
  refine .inString fun b => .ite (fun _ => codePoint.andThen fun _ => .pure _) fun _ => ?_
  split
  · exact .pure _
  · exact (refuse_octet rfl).mono fun _ _ h => h.1

theorem stringRound (sofar : List UInt8) : Fitting pre (Scan.stringRound sofar) := by
  refine (takeWhile _).andThen fun _ => .inString fun _ => .ite (fun _ => .pure _) fun _ => ?_
  exact .ite (fun _ => escape.andThen fun _ => .pure _) fun _ => (refuse_octet rfl).mono fun _ _ h => h.1

theorem quoted : Fitting (Cursor.Before Octet.quote) Scan.quoted := by
  -- the octets are made text after the string was closed, so the line is that of the opening quote
  refine .passing fun _ => ?_
  intro c e c' htext hline h
  rcases error_bind h with hloop | ⟨octets, d, hloop, htextOf⟩
  · have hrounds : Fitting Cursor.Anywhere (Scan.loop [] Scan.stringRound) :=
      .loop .stringRound (fun _ _ _ _ => trivial) .stringRound []
    exact hrounds c e c' htext trivial hloop
  · exact .textOf hline hloop htextOf

theorem scaled (negative : Bool) (significand : Nat) (exponent : Int) :
    Fitting Cursor.OnLine (Scan.scaled negative significand exponent) := by
  unfold Scan.scaled
  split
  · exact .pure _
  · exact .refuse_onLine _

theorem whole (negative : Bool) (n : Nat) : Fitting Cursor.OnLine (Scan.whole negative n) :=
  .ite (fun _ => .ite (fun _ => .scaled _ _ _) fun _ => .pure _) fun _ => .pure _

theorem exponentSign : Fitting pre Scan.exponentSign := by
  refine peek.andThen fun b? => ?_
  cases b? with
  | none => exact .pure _
  | some b =>
      exact .ite (fun _ => skip.andThen fun _ => .pure _) fun _ =>
        .ite (fun _ => skip.andThen fun _ => .pure _) fun _ => .pure _

theorem exponentRound (sofar : Nat) : Fitting pre (Scan.exponentRound sofar) := by
  refine peek.andThen fun b? => ?_
  cases b? with
  | none => exact .pure _
  | some b =>
      exact .ite (fun _ => skip.andThen fun _ => .ite (fun _ => .pure _) fun _ => .pure _) fun _ => .pure _

theorem exponentRest (negative : Bool) (significand : Nat) (exponent : Int) :
    Fitting pre (Scan.exponentRest negative significand exponent) := by
  have hloop : ∀ m, Fitting Cursor.OnLine (Scan.loop m Scan.exponentRound) := fun m =>
    anywhere (.loop .exponentRound (fun _ _ _ _ => trivial) .exponentRound m)
  refine exponentSign.andThen fun down => .taking (.refuse_atEnd rfl (.inl rfl)) fun b => .ite (fun hdigit => ?_) ?_
  · have hline : ∀ c : Cursor, c.HasText → c.Behind b → c.OnLine := fun _ _ h => h.2 (ne_lineFeed_of_isDigit hdigit)
    have hdigits : ∀ c result d, c.HasText → c.OnLine →
        (Scan.loop (Octet.digit b) Scan.exponentRound).run .document c = (.ok result, d) → d.OnLine :=
      fun _ _ _ _ hline hrun => onLine_of_exponentLoop hline hrun (digit_lt_exponentBound b)
    refine mono ((hloop _).bind hdigits fun result => ?_) hline
    cases result with
    | some n => exact .scaled _ _ _
    | none => exact .ite (fun _ => .refuse_onLine _) fun _ => (takeWhile _).andThen fun _ => .pure _
  · exact fun _ => (refuse_octet rfl).mono fun _ _ h => h.1

theorem exponentOrEnd (negative : Bool) (significand : Nat) (exponent : Int) :
    Fitting Cursor.OnLine (Scan.exponentOrEnd negative significand exponent) :=
  .peeking (fun _ h => h) ((scaled _ _ _).mono fun _ _ h => h.1) fun _ =>
    .ite (fun _ => skip.andThen fun _ => .exponentRest _ _ _) fun _ => (scaled _ _ _).mono fun _ _ h => h.1

theorem fractionRest (negative : Bool) (significand : Nat) (exponent : Int) :
    Fitting pre (Scan.fractionRest negative significand exponent) := by
  have hdigits : ∀ c taken d, pre c → c.Reaches d → c.rest = taken ++ d.rest →
      (∀ b ∈ taken, Octet.isDigit b = true) → taken ≠ [] → d.OnLine := by
    intro c taken d _ hreach hrest hdigits hne
    exact Cursor.onLine_of_taken hreach hrest (fun b hb => ne_lineFeed_of_isDigit (hdigits b hb)) (.inl hne)
  refine .takingWhile hdigits fun taken => ?_
  cases taken with
  | nil =>
      refine .peeking (fun _ h => h) (mono (.refuse_atEnd rfl (.inr rfl)) fun _ _ h => h.2) fun _ => ?_
      exact .refuse_octetAhead rfl
  | cons b taken => exact (exponentOrEnd _ _ _).mono fun _ _ h => h (List.cons_ne_nil _ _)

theorem afterWhole (negative : Bool) (ds : List UInt8) : Fitting Cursor.OnLine (Scan.afterWhole negative ds) := by
  have hend : ∀ {pre : Cursor → Prop} (left : List UInt8) (m : Nat), (∀ c : Cursor, c.HasText → pre c → c.OnLine) →
      Fitting pre (if left.isEmpty then Scan.whole negative m else Scan.scaled negative m left.length) :=
    fun _ _ hline => mono (.ite (fun _ => .whole _ _) fun _ => .scaled _ _ _) hline
  refine .peeking (fun _ h => h) (hend _ _ fun _ _ h => h.1) fun b => ?_
  refine .ite (fun _ => skip.andThen fun _ => .fractionRest _ _ _) fun _ => ?_
  exact .ite (fun _ => skip.andThen fun _ => .exponentRest _ _ _) fun _ => hend _ _ fun _ _ h => h.1

theorem unsigned (negative : Bool) : Fitting pre (Scan.unsigned negative) := by
  refine .taking (.refuse_atEnd rfl (.inl rfl)) fun first => .ite (fun hzero => ?_) fun _ => .ite (fun hdigit => ?_) ?_
  · have hline : ∀ c : Cursor, c.HasText → c.Behind first → c.OnLine := fun _ _ h => h.2 (hzero ▸ by decide)
    refine mono (.peeking (fun _ h => h) ?_ fun b => .ite (fun _ => .refuse_octetAhead rfl) fun _ => ?_) hline
    · exact (afterWhole _ _).mono fun _ _ h => h.1
    · exact (afterWhole _ _).mono fun _ _ h => h.1
  · have hline : ∀ c : Cursor, c.HasText → c.Behind first → c.OnLine :=
      fun _ _ h => h.2 (ne_lineFeed_of_isDigit hdigit)
    refine mono (.takingWhile (fun c taken d hline hreach hrest hdigits => ?_) fun _ => .afterWhole _ _) hline
    exact Cursor.onLine_of_taken hreach hrest (fun b hb => ne_lineFeed_of_isDigit (hdigits b hb)) (.inr hline)
  · exact fun _ => (refuse_octet rfl).mono fun _ _ h => h.1

theorem number (first : UInt8) : Fitting pre (Scan.number first) :=
  .ite (fun _ => skip.andThen fun _ => .unsigned _) fun _ => .unsigned _

end Fitting

end Scan

end BlockModel
