import BlockModel.Proofs.Scan.Number
import BlockModel.Proofs.Scan.Taken

/-! A number that was read is the value of a numeral that stands there, and nothing behind the numeral could go
on with it. The parts of a numeral are found in the order in which they are read, and each is handed on to the
part before it. -/

namespace BlockModel.Scan

variable {supply : Supply} {c c' : Cursor} {negative : Bool} {m : Nat} {shift : Int} {n : JsonNumber}

theorem ok_digits {ds : List UInt8} (h : digits.run supply c = (.ok ds, c')) :
    c.rest = ds ++ c'.rest ∧ (∀ b ∈ ds, Octet.isDigit b = true) ∧ StopsDigits c'.rest :=
  ok_takeWhile h

theorem ok_scaled (h : (scaled negative m shift).run supply c = (.ok n, c')) :
    Numeral.scaled? negative m shift = some n ∧ c' = c := by
  rw [scaled] at h
  rw [Numeral.scaled?]
  cases hx : (Binary64.nearest? m 1).bind (·.scaleTen? shift) with
  | none =>
      rw [hx] at h
      exact absurd h not_ok_refuse
  | some x =>
      rw [hx] at h
      obtain ⟨rfl, rfl⟩ := ok_pure h
      exact ⟨rfl, rfl⟩

theorem ok_whole (h : (whole negative m).run supply c = (.ok n, c')) :
    Numeral.whole? negative m = some n ∧ c' = c := by
  rw [whole] at h
  rw [Numeral.whole?]
  split at h
  · rename_i hneg
    rw [if_pos hneg]
    split at h
    · rename_i hrange
      rw [if_pos hrange]
      exact ok_scaled h
    · rename_i hrange
      obtain ⟨rfl, rfl⟩ := ok_pure h
      exact ⟨if_neg hrange, rfl⟩
  · rename_i hneg
    obtain ⟨rfl, rfl⟩ := ok_pure h
    exact ⟨if_neg hneg, rfl⟩

theorem ok_exponentSign {down : Bool} (h : exponentSign.run supply c = (.ok down, c')) :
    ∃ sign : Option Bool, sign.getD false = down ∧ c.rest = ExponentPart.signOctets sign ++ c'.rest := by
  obtain ⟨b?, d, hpeek, h⟩ := ok_bind h
  obtain ⟨hb, hrest⟩ := ok_peek hpeek
  rw [← hrest]
  cases b? with
  | none =>
      obtain ⟨rfl, rfl⟩ := ok_pure h
      exact ⟨none, rfl, rfl⟩
  | some b =>
      simp only at h
      split at h
      · rename_i hplus
        obtain ⟨u, d', hskip, h⟩ := ok_bind h
        obtain ⟨rfl, rfl⟩ := ok_pure h
        exact ⟨some false, rfl, by rw [ok_skip_of_head hskip hb.symm, hplus]; rfl⟩
      · split at h
        · rename_i hminus
          obtain ⟨u, d', hskip, h⟩ := ok_bind h
          obtain ⟨rfl, rfl⟩ := ok_pure h
          exact ⟨some true, rfl, by rw [ok_skip_of_head hskip hb.symm, hminus]; rfl⟩
        · obtain ⟨rfl, rfl⟩ := ok_pure h
          exact ⟨none, rfl, rfl⟩

theorem withDigits_append (m : Nat) (ds more : List UInt8) :
    withDigits m (ds ++ more) = withDigits (withDigits m ds) more := List.foldl_append

/-- Digits that were read in an exponent: all there are, or so many that they come to the bound. -/
structure ExponentDigits (m : Nat) (result : Option Nat) (ds t : List UInt8) : Prop where
  isDigit : ∀ b ∈ ds, Octet.isDigit b = true
  all : ∀ n, result = some n → n = withDigits m ds ∧ n < exponentBound ∧ StopsDigits t
  many : result = none → exponentBound ≤ withDigits m ds

theorem ExponentDigits.none_ahead {t : List UInt8} (hm : m < exponentBound) (hstops : StopsDigits t) :
    ExponentDigits m (some m) [] t where
  isDigit := List.forall_mem_nil _
  all := by
    rintro _ ⟨⟩
    exact ⟨rfl, hm, hstops⟩
  many := fun hnone => absurd hnone (Option.some_ne_none m)

theorem ExponentDigits.last {b : UInt8} {t : List UInt8} (hb : Octet.isDigit b = true)
    (hbound : exponentBound ≤ m * 10 + Octet.digit b) : ExponentDigits m none [b] t where
  isDigit := List.forall_mem_singleton.2 hb
  all := by
    rintro _ ⟨⟩
  many := fun _ => hbound

/-- A round that goes on has taken a digit. -/
theorem ok_exponentRound_inl {m' : Nat} (h : (exponentRound m).run supply c = (.ok (.inl m'), c')) :
    ∃ b, c.rest = b :: c'.rest ∧ Octet.isDigit b = true ∧ m' = m * 10 + Octet.digit b ∧ m' < exponentBound := by
  obtain ⟨b?, d, hpeek, h⟩ := ok_bind h
  obtain ⟨hb, hrest⟩ := ok_peek hpeek
  rw [← hrest]
  cases b? with
  | none => cases (ok_pure h).1
  | some b =>
      simp only at h
      split at h
      · rename_i hdigit
        obtain ⟨u, d', hskip, h⟩ := ok_bind h
        split at h
        · rename_i hbound
          obtain ⟨hm', rfl⟩ := ok_pure h
          obtain rfl := Sum.inl.inj hm'
          exact ⟨b, ok_skip_of_head hskip hb.symm, hdigit, rfl, hbound⟩
        · cases (ok_pure h).1
      · cases (ok_pure h).1

/-- The last round has found no more digits, or one that comes to the bound. -/
theorem ok_exponentRound_inr {result : Option Nat} (hm : m < exponentBound)
    (h : (exponentRound m).run supply c = (.ok (.inr result), c')) :
    ∃ ds, c.rest = ds ++ c'.rest ∧ ExponentDigits m result ds c'.rest := by
  obtain ⟨b?, d, hpeek, h⟩ := ok_bind h
  obtain ⟨hb, hrest⟩ := ok_peek hpeek
  rw [← hrest]
  cases b? with
  | none =>
      obtain ⟨hresult, rfl⟩ := ok_pure h
      obtain rfl := Sum.inr.inj hresult
      exact ⟨[], rfl, .none_ahead hm fun b' hb' => absurd (hb.trans hb') (Option.some_ne_none b').symm⟩
  | some b =>
      simp only at h
      split at h
      · rename_i hdigit
        obtain ⟨u, d', hskip, h⟩ := ok_bind h
        split at h
        · cases (ok_pure h).1
        · rename_i hbound
          obtain ⟨hresult, rfl⟩ := ok_pure h
          obtain rfl := Sum.inr.inj hresult
          exact ⟨[b], ok_skip_of_head hskip hb.symm, .last hdigit (Nat.not_lt.1 hbound)⟩
      · rename_i hdigit
        obtain ⟨hresult, rfl⟩ := ok_pure h
        obtain rfl := Sum.inr.inj hresult
        refine ⟨[], rfl, .none_ahead hm fun b' hb' => ?_⟩
        obtain rfl := Option.some.inj (hb.trans hb')
        exact Bool.eq_false_iff.2 hdigit

theorem ok_exponentLoop {result : Option Nat} (h : (loop m exponentRound).run supply c = (.ok result, c'))
    (hm : m < exponentBound) : ∃ ds, c.rest = ds ++ c'.rest ∧ ExponentDigits m result ds c'.rest := by
  revert hm
  refine ok_loop (P := fun m c result c' => m < exponentBound →
    ∃ ds, c.rest = ds ++ c'.rest ∧ ExponentDigits m result ds c'.rest) ?_ ?_ h
  · exact fun m c result c' h hm => ok_exponentRound_inr hm h
  · intro m c m' d result c' h hnext _
    obtain ⟨b, hrest, hdigit, rfl, hbound⟩ := ok_exponentRound_inl h
    obtain ⟨ds, hds, hread⟩ := hnext hbound
    refine ⟨b :: ds, ?_, List.forall_mem_cons.2 ⟨hdigit, hread.isDigit⟩, hread.all, hread.many⟩
    rw [hrest, hds, List.cons_append]

/-- There is an exponent of every mark, sign and digits. -/
theorem exists_exponentPart {mark b : UInt8} (hmark : isExponentMark mark = true) (sign : Option Bool)
    {ds : List UInt8} (hds : ∀ b' ∈ b :: ds, Octet.isDigit b' = true) :
    ∃ e : ExponentPart, e.octets = mark :: (ExponentPart.signOctets e.sign ++ e.digits.octets) ∧ e.sign = sign ∧
      e.digits.octets = b :: ds ∧ e.digits.value = withDigits (Octet.digit b) ds := by
  refine ⟨⟨mark, hmark, sign, ⟨_, List.cons_ne_nil _ _, hds⟩⟩, rfl, rfl, rfl, ?_⟩
  rw [Digits.value, List.foldl_cons, Nat.zero_mul, Nat.zero_add, withDigits]

theorem digit_lt_exponentBound (b : UInt8) : Octet.digit b < exponentBound := by
  have hb := b.toNat_lt
  simp only [Octet.digit, exponentBound]
  omega

/-- Behind the mark of an exponent stands the rest of one, whose power of ten the number is scaled by. -/
theorem ok_exponentRest (h : (exponentRest negative m shift).run supply c = (.ok n, c')) {mark : UInt8}
    (hmark : isExponentMark mark = true) :
    ∃ e : ExponentPart, e.octets = mark :: (ExponentPart.signOctets e.sign ++ e.digits.octets) ∧
      c.rest = ExponentPart.signOctets e.sign ++ (e.digits.octets ++ c'.rest) ∧ StopsDigits c'.rest ∧
      Numeral.scaledBy? negative m shift (some e) = some n := by
  obtain ⟨down, d, hsign, h⟩ := ok_bind h
  obtain ⟨sign, hdown, hrest⟩ := ok_exponentSign hsign
  obtain ⟨b?, d0, hnext, h⟩ := ok_bind h
  cases b? with
  | none => exact absurd h not_ok_refuse
  | some b =>
  simp only at h
  split at h
  · rename_i hdigit
    obtain ⟨result, d1, hloop, h⟩ := ok_bind h
    obtain ⟨ds, hds, hread⟩ := ok_exponentLoop hloop (digit_lt_exponentBound b)
    cases result with
    | some exponent =>
        obtain ⟨rfl, hbound, hstops⟩ := hread.all exponent rfl
        obtain ⟨e, hoctets, hesign, hedigits, hvalue⟩ :=
          exists_exponentPart hmark sign (List.forall_mem_cons.2 ⟨hdigit, hread.isDigit⟩)
        obtain ⟨hscaled, rfl⟩ := ok_scaled h
        refine ⟨e, hoctets, ?_, hstops, ?_⟩
        · rw [hrest, hesign, hedigits, (ok_next_some hnext).1, hds, List.cons_append]
        · rw [Numeral.scaledBy?, hvalue, ExponentPart.isDown, hesign, hdown]
          exact (if_pos hbound).trans hscaled
    | none =>
        simp only at h
        split at h
        · exact absurd h not_ok_refuse
        · rename_i hzero
          -- The digits that are left have no part in the value, which is past the bound already.
          obtain ⟨left, d2, hdigits, h⟩ := ok_bind h
          obtain ⟨hleft, hisDigit, hstops⟩ := ok_digits hdigits
          obtain ⟨rfl, rfl⟩ := ok_pure h
          obtain ⟨e, hoctets, hesign, hedigits, hvalue⟩ := exists_exponentPart hmark sign
            (List.forall_mem_cons.2 ⟨hdigit, List.forall_mem_append.2 ⟨hread.isDigit, hisDigit⟩⟩)
          have hmany : exponentBound ≤ e.digits.value := by
            rw [hvalue, withDigits_append]
            exact Nat.le_trans (hread.many rfl) (le_withDigits _ left)
          refine ⟨e, hoctets, ?_, hstops, ?_⟩
          · rw [hrest, hesign, hedigits, (ok_next_some hnext).1, hds, hleft, List.cons_append, List.append_assoc]
          · rw [Numeral.scaledBy?, ExponentPart.isDown, hesign, hdown, if_neg (Nat.not_lt.2 hmany),
              if_neg hzero]
  · exact absurd h not_ok_refuse

theorem ok_exponentOrEnd (h : (exponentOrEnd negative m shift).run supply c = (.ok n, c'))
    (hstops : StopsDigits c.rest) (ds : Digits) :
    ∃ e, c.rest = Numeral.exponentOctets e ++ c'.rest ∧ Ends (some ds) e c'.rest ∧
      Numeral.scaledBy? negative m shift e = some n := by
  obtain ⟨b?, d, hpeek, h⟩ := ok_bind h
  obtain ⟨hb, hrest⟩ := ok_peek hpeek
  rw [← hrest] at hstops ⊢
  cases b? with
  | none =>
      obtain ⟨hscaled, rfl⟩ := ok_scaled h
      exact ⟨none, rfl, fun b hb' => absurd (hb.trans hb') (Option.some_ne_none b).symm, hscaled⟩
  | some b =>
      simp only at h
      split at h
      · rename_i hmark
        obtain ⟨u, d', hskip, h⟩ := ok_bind h
        obtain ⟨e, hoctets, hrest', hstops', hscaled⟩ := ok_exponentRest h hmark
        refine ⟨some e, ?_, fun b hb => ⟨hstops' b hb, fun hnone => absurd hnone (Option.some_ne_none e)⟩,
          hscaled⟩
        rw [ok_skip_of_head hskip hb.symm, hrest', Numeral.exponentOctets, hoctets, List.cons_append,
          List.append_assoc]
      · rename_i hmark
        obtain ⟨hscaled, rfl⟩ := ok_scaled h
        refine ⟨none, rfl, fun b' hb' => ⟨hstops b' hb', fun _ => ?_⟩, hscaled⟩
        obtain rfl := Option.some.inj (hb.trans hb')
        exact ⟨Bool.eq_false_iff.2 hmark, fun hnone => absurd hnone (Option.some_ne_none ds)⟩

theorem ok_fractionRest (h : (fractionRest negative m shift).run supply c = (.ok n, c')) :
    ∃ (ds : Digits) (e : Option ExponentPart), c.rest = ds.octets ++ (Numeral.exponentOctets e ++ c'.rest) ∧
      Ends (some ds) e c'.rest ∧
      Numeral.scaledBy? negative (gather m ds.octets).1
        (shift - (ds.octets.length - (gather m ds.octets).2.length : Nat)) e = some n := by
  obtain ⟨fraction, d, hdigits, h⟩ := ok_bind h
  obtain ⟨hrest, hisDigit, hstops⟩ := ok_digits hdigits
  cases fraction with
  | nil =>
      obtain ⟨b?, d', -, h⟩ := ok_bind h
      cases b? with
      | none => exact absurd h not_ok_refuse
      | some b => exact absurd h not_ok_refuse
  | cons b more =>
      let ds : Digits := ⟨b :: more, List.cons_ne_nil _ _, hisDigit⟩
      obtain ⟨e, hrest', hends, hscaled⟩ := ok_exponentOrEnd h hstops ds
      exact ⟨ds, e, by rw [hrest, hrest'], hends, hscaled⟩

/-- Where neither a point nor the mark of an exponent stands, a numeral has ended with its whole part. -/
theorem ok_wholeEnd {ds : Digits} (hzero : ds.octets.head? = some Octet.zero → ds.octets = [Octet.zero])
    {left : List UInt8} (hgather : gather 0 ds.octets = (m, left))
    (h : (if left.isEmpty then whole negative m else scaled negative m left.length).run supply c = (.ok n, c'))
    (hstops : StopsDigits c.rest) (hnone : ∀ b ∈ c.rest.head?, isExponentMark b = false ∧ b ≠ Octet.point) :
    ∃ x : Numeral, x.negative = negative ∧ x.whole = ds ∧ x.value? = some n ∧
      Ends x.fraction x.exponent c'.rest ∧
      c.rest = Numeral.fractionOctets x.fraction ++ (Numeral.exponentOctets x.exponent ++ c'.rest) := by
  have hvalue : (⟨negative, ds, none, none, hzero⟩ : Numeral).value? = some n ∧ c' = c := by
    simp only [Numeral.value?, Numeral.isWhole, Numeral.significand, hgather, Option.isNone_none, Bool.true_and]
    split at h
    · rename_i hempty
      rw [if_pos hempty]
      exact ok_whole h
    · rename_i hempty
      rw [if_neg hempty]
      exact ok_scaled h
  obtain ⟨hvalue, rfl⟩ := hvalue
  refine ⟨⟨negative, ds, none, none, hzero⟩, rfl, rfl, hvalue, fun b hb => ?_, rfl⟩
  exact ⟨hstops b hb, fun _ => ⟨(hnone b hb).1, fun _ => (hnone b hb).2⟩⟩

/-- Behind a whole part stands the rest of a numeral. -/
theorem ok_afterWhole {ds : Digits} (hzero : ds.octets.head? = some Octet.zero → ds.octets = [Octet.zero])
    (h : (afterWhole negative ds.octets).run supply c = (.ok n, c')) (hstops : StopsDigits c.rest) :
    ∃ x : Numeral, x.negative = negative ∧ x.whole = ds ∧ x.value? = some n ∧
      Ends x.fraction x.exponent c'.rest ∧
      c.rest = Numeral.fractionOctets x.fraction ++ (Numeral.exponentOctets x.exponent ++ c'.rest) := by
  obtain ⟨m, left, hgather⟩ : ∃ m left, gather 0 ds.octets = (m, left) := ⟨_, _, rfl⟩
  rw [afterWhole, hgather] at h
  obtain ⟨b?, d, hpeek, h⟩ := ok_bind h
  obtain ⟨hb, hrest⟩ := ok_peek hpeek
  rw [← hrest] at hstops ⊢
  cases b? with
  | none => exact ok_wholeEnd hzero hgather h hstops fun b hb' => absurd (hb.trans hb') (Option.some_ne_none b).symm
  | some b =>
      simp only at h
      split at h
      · rename_i hpoint
        obtain ⟨u, d', hskip, h⟩ := ok_bind h
        obtain ⟨fraction, e, hrest', hends, hscaled⟩ := ok_fractionRest h
        refine ⟨⟨negative, ds, some fraction, e, hzero⟩, rfl, rfl, ?_, hends, ?_⟩
        · simp only [Numeral.value?, Numeral.isWhole, Numeral.significand, hgather, Option.isNone_some,
            Bool.false_and, Bool.false_eq_true, if_false]
          exact hscaled
        · rw [ok_skip_of_head hskip hb.symm, hrest', hpoint, Numeral.fractionOctets, List.cons_append]
      · rename_i hpoint
        split at h
        · rename_i hmark
          obtain ⟨u, d', hskip, h⟩ := ok_bind h
          obtain ⟨e, hoctets, hrest', hstops', hscaled⟩ := ok_exponentRest h hmark
          refine ⟨⟨negative, ds, none, some e, hzero⟩, rfl, rfl, ?_,
            fun b hb => ⟨hstops' b hb, fun hnone => absurd hnone (Option.some_ne_none e)⟩, ?_⟩
          · simp only [Numeral.value?, Numeral.isWhole, Numeral.significand, hgather, Option.isNone_some,
              Bool.and_false, Bool.false_and, Bool.false_eq_true, if_false]
            exact hscaled
          · rw [ok_skip_of_head hskip hb.symm, hrest', Numeral.fractionOctets, Numeral.exponentOctets, hoctets,
              List.nil_append, List.cons_append, List.append_assoc]
        · rename_i hmark
          refine ok_wholeEnd hzero hgather h hstops fun b' hb' => ?_
          obtain rfl := Option.some.inj (hb.trans hb')
          exact ⟨Bool.eq_false_iff.2 hmark, hpoint⟩

theorem ok_unsigned (h : (unsigned negative).run supply c = (.ok n, c')) :
    ∃ x : Numeral, x.negative = negative ∧ x.value? = some n ∧ Ends x.fraction x.exponent c'.rest ∧
      c.rest = x.whole.octets ++
        (Numeral.fractionOctets x.fraction ++ (Numeral.exponentOctets x.exponent ++ c'.rest)) := by
  obtain ⟨b?, d, hnext, h⟩ := ok_bind h
  cases b? with
  | none => exact absurd h not_ok_refuse
  | some first =>
      obtain ⟨hrest, -⟩ := ok_next_some hnext
      -- The numeral from its whole part on, once the digits of that are known.
      have hwhole : ∀ {d : Cursor} (ds : Digits),
          (ds.octets.head? = some Octet.zero → ds.octets = [Octet.zero]) → c.rest = ds.octets ++ d.rest →
          (afterWhole negative ds.octets).run supply d = (.ok n, c') → StopsDigits d.rest →
          ∃ x : Numeral, x.negative = negative ∧ x.value? = some n ∧ Ends x.fraction x.exponent c'.rest ∧
            c.rest = x.whole.octets ++
              (Numeral.fractionOctets x.fraction ++ (Numeral.exponentOctets x.exponent ++ c'.rest)) := by
        intro d ds hzero hrest h hstops
        obtain ⟨x, hnegative, rfl, hvalue, hends, hrest'⟩ := ok_afterWhole hzero h hstops
        exact ⟨x, hnegative, hvalue, hends, by rw [hrest, hrest']⟩
      simp only at h
      split at h
      · rename_i hfirst
        subst hfirst
        obtain ⟨b?, d', hpeek, h⟩ := ok_bind h
        obtain ⟨hb, hrest'⟩ := ok_peek hpeek
        rw [← hrest'] at hrest
        have hzero := hwhole (d := d') ⟨[Octet.zero], List.cons_ne_nil _ _, List.forall_mem_singleton.2 (by decide)⟩
          (fun _ => rfl) hrest
        cases b? with
        | none => exact hzero h fun b hb' => absurd (hb.trans hb') (Option.some_ne_none b).symm
        | some b =>
            simp only at h
            split at h
            · exact absurd h not_ok_refuse
            · rename_i hdigit
              refine hzero h fun b' hb' => ?_
              obtain rfl := Option.some.inj (hb.trans hb')
              exact Bool.eq_false_iff.2 hdigit
      · rename_i hfirst
        split at h
        · rename_i hdigit
          obtain ⟨more, d', hdigits, h⟩ := ok_bind h
          obtain ⟨hrest', hisDigit, hstops⟩ := ok_digits hdigits
          refine hwhole ⟨first :: more, List.cons_ne_nil _ _, List.forall_mem_cons.2 ⟨hdigit, hisDigit⟩⟩ ?_ ?_ h
            hstops
          · exact fun hzero => absurd (Option.some.inj hzero) hfirst
          · rw [hrest, hrest', List.cons_append]
        · exact absurd h not_ok_refuse

/-- A number that was read is the value of the numeral in front of where reading left off. -/
theorem ok_number {b : UInt8} (h : (number b).run supply c = (.ok n, c')) (hb : c.rest.head? = some b) :
    ∃ x : Numeral, x.value? = some n ∧ Ends x.fraction x.exponent c'.rest ∧ c.rest = x.octets ++ c'.rest := by
  rw [number] at h
  split at h
  · rename_i hminus
    obtain ⟨u, d, hskip, h⟩ := ok_bind h
    obtain ⟨x, hnegative, hvalue, hends, hrest⟩ := ok_unsigned h
    refine ⟨x, hvalue, hends, ?_⟩
    rw [ok_skip_of_head hskip hb, hminus, hrest, Numeral.octets, hnegative]
    simp only [Numeral.signOctets, if_true, List.cons_append, List.nil_append, List.append_assoc]
  · obtain ⟨x, hnegative, hvalue, hends, hrest⟩ := ok_unsigned h
    refine ⟨x, hvalue, hends, ?_⟩
    rw [hrest, Numeral.octets, hnegative]
    simp only [Numeral.signOctets, Bool.false_eq_true, if_false, List.nil_append, List.append_assoc]

end BlockModel.Scan
