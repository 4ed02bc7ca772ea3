import BlockModel.Proofs.Scan.Container

/-! A value that nobody asked for is passed over to its end. Skipping keeps the lists and objects still
open on a stack, so the statement for a piece of text is about the rest of the loop: if the loop comes to
a result from the stack below and the text behind, it comes to the same from the piece in front of it.
Only the form of the text counts, whatever its escapes and numbers mean, and no depth is too great. -/

namespace BlockModel.Scan

variable {t : List UInt8} {l : List LogLine}

/-- Plain octets and then an escape that takes what stands behind the backslash. -/
theorem gives_skipStringRound_escape {run : List UInt8} (hrun : ∀ b ∈ run, Octet.isPlain b = true) {b : UInt8}
    {r : List UInt8}
    (hescape : Gives (if b = Octet.ofChar 'u' then (do let _ ← fourHex; pure (.inl ()))
      else if (escaped? b).isSome then pure (.inl ()) else refuse .here .invalidEscape : Scan (Unit ⊕ Unit))
        ⟨r ++ t, l⟩ (.ok (.inl ())) ⟨t, l⟩) :
    Gives (skipStringRound ()) ⟨run ++ Octet.backslash :: b :: (r ++ t), l⟩ (.ok (.inl ())) ⟨t, l⟩ := by
  refine (Gives.takeWhile hrun ?_).bind_ok ((Gives.peek _ _).bind_ok ?_)
  · intro b hb
    obtain rfl := Option.some.inj hb
    decide
  · simp only [if_neg (by decide : Octet.backslash ≠ Octet.quote), if_true]
    exact (Gives.skip _ _).bind_ok ((gives_inString b).bind_ok hescape)

theorem gives_skipStringLoop {body : List UInt8} (hbody : StringForm body) (run : List UInt8)
    (hrun : ∀ b ∈ run, Octet.isPlain b = true) :
    Gives (loop () skipStringRound) ⟨run ++ (body ++ Octet.quote :: t), l⟩ (.ok ()) ⟨t, l⟩ := by
  induction hbody generalizing run with
  | nil =>
      refine Gives.loop_last ((Gives.takeWhile hrun ?_).bind_ok ((Gives.peek _ _).bind_ok ?_))
      · intro b hb
        obtain rfl := Option.some.inj hb
        decide
      · simp only [if_true]
        exact (Gives.skip _ _).bind_ok (.pure _ _)
  | @plain b r hb hr ih =>
      have h := ih (run ++ [b]) fun b' hb' =>
        (List.mem_append.1 hb').elim (hrun b') fun h => by rwa [List.mem_singleton.1 h]
      simpa only [List.append_assoc, List.cons_append, List.nil_append] using h
  | @short letter c r hmem hr ih =>
      have hletter : Octet.ofChar letter ≠ Octet.ofChar 'u' ∧ (escaped? (Octet.ofChar letter)).isSome = true := by
        simp only [shortEscapes, List.mem_cons, Prod.mk.injEq, List.not_mem_nil, or_false] at hmem
        rcases hmem with ⟨rfl, rfl⟩ | ⟨rfl, rfl⟩ | ⟨rfl, rfl⟩ | ⟨rfl, rfl⟩ | ⟨rfl, rfl⟩ | ⟨rfl, rfl⟩ |
          ⟨rfl, rfl⟩ | ⟨rfl, rfl⟩ <;> decide
      refine Gives.loop_next (gives_skipStringRound_escape hrun (r := []) ?_) ?_ (ih [] (List.forall_mem_nil _))
      · rw [if_neg hletter.1, if_pos hletter.2]
        exact .pure _ _
      · simp only [List.append_eq, List.cons_append, List.length_append, List.length_cons]
        omega
  | @hex digits r n hvalue hr ih =>
      have hround := gives_skipStringRound_escape (t := r ++ Octet.quote :: t) (l := l) hrun
        (b := Octet.ofChar 'u') (r := digits) (by
          rw [if_pos rfl]
          exact (gives_fourHex hvalue).bind_ok (.pure _ _))
      rw [unicodeEscape, List.cons_append, List.cons_append, List.cons_append, List.cons_append,
        List.append_assoc]
      refine hround.loop_next ?_ (ih [] (List.forall_mem_nil _))
      simp only [List.length_append, List.length_cons]
      omega

theorem gives_skipQuoted {str : String} {s : List UInt8} (hs : Leaves.form.string str s) :
    Gives skipQuoted ⟨s ++ t, l⟩ (.ok ()) ⟨t, l⟩ := by
  obtain ⟨body, hbody, rfl⟩ := hs
  rw [inQuotes, List.cons_append, List.append_assoc, List.singleton_append]
  exact (Gives.skip _ _).bind_ok (gives_skipStringLoop hbody [] (List.forall_mem_nil _))

/-- The loop comes from one state in front of a piece of text to whatever it comes to from another state
behind the piece. -/
def Passes (state : SkipState) (s t : List UInt8) (state' : SkipState) : Prop :=
  ∀ (l : List LogLine) (r : Except DataFault Unit) (v : View),
    Gives (loop state' skipRound) ⟨t, l⟩ r v → Gives (loop state skipRound) ⟨s ++ t, l⟩ r v

theorem Passes.trans {a b c : SkipState} {s s' t : List UInt8} (h : Passes a s (s' ++ t) b)
    (h' : Passes b s' t c) : Passes a (s ++ s') t c := by
  intro l r v hloop
  rw [List.append_assoc]
  exact h l r v (h' l r v hloop)

theorem passes_round {state state' : SkipState} {s t : List UInt8} (hs : 0 < s.length)
    (hround : ∀ l, Gives (skipRound state) ⟨s ++ t, l⟩ (.ok (.inl state')) ⟨t, l⟩) :
    Passes state s t state' := by
  intro l r v hloop
  refine (hround l).loop_next ?_ hloop
  simp only [List.length_append]
  omega

/-- The beginning of a value, after which the loop passes over what is left of it. -/
def HeadPasses (opened : List Enclosure) (s t : List UInt8) : Prop :=
  ∃ head more state, s = head ++ more ∧ 0 < head.length ∧
    (∀ w l, Blanks w → Gives (skipHead opened) ⟨w ++ (s ++ t), l⟩ (.ok state) ⟨more ++ t, l⟩) ∧
    Passes state more t (.after opened)

/-- What skipping does to each piece of text. -/
def SkipsOver : Phrase → List UInt8 → Prop
  | .value _, s => ∀ opened t, Follows t → HeadPasses opened s t
  | .items _, s => ∀ others t, Passes (.within .list others) (s ++ [Octet.closeList]) t (.after others)
  | .moreItems _, s => ∀ others t, Passes (.after (.list :: others)) (s ++ [Octet.closeList]) t (.after others)
  | .members _, s => ∀ others t, Passes (.within .object others) (s ++ [Octet.closeObject]) t (.after others)
  | .moreMembers _, s =>
      ∀ others t, Passes (.after (.object :: others)) (s ++ [Octet.closeObject]) t (.after others)

/-- A value with nothing inside is passed over at once. -/
theorem headPasses_leaf {opened : List Enclosure} {s : List UInt8} (hs : 0 < s.length)
    (h : ∀ w l, Blanks w → Gives (skipHead opened) ⟨w ++ (s ++ t), l⟩ (.ok (.after opened)) ⟨t, l⟩) :
    HeadPasses opened s t :=
  ⟨s, [], .after opened, (List.append_nil s).symm, hs, h, fun _ _ _ hloop => hloop⟩

theorem headPasses_null (opened : List Enclosure) (t : List UInt8) : HeadPasses opened (wordOctets "null") t := by
  refine headPasses_leaf (by decide) fun w l hw => ?_
  refine (gives_valueStart hw (by decide)).bind_ok ?_
  exact gives_nullWord.bind_ok (.pure _ _)

theorem headPasses_bool (opened : List Enclosure) (b : Bool) (t : List UInt8) :
    HeadPasses opened (wordOctets (if b then "true" else "false")) t := by
  refine headPasses_leaf (by cases b <;> decide) fun w l hw => ?_
  cases b with
  | false =>
      refine (gives_valueStart hw (by decide)).bind_ok ?_
      exact (gives_boolWord false).bind_ok (.pure _ _)
  | true =>
      refine (gives_valueStart hw (by decide)).bind_ok ?_
      exact (gives_boolWord true).bind_ok (.pure _ _)

theorem headPasses_number (opened : List Enclosure) (x : Numeral) (ht : Follows t) :
    HeadPasses opened x.octets t := by
  obtain ⟨b, r, hx, hb⟩ := x.kind?_head
  rw [hx]
  refine headPasses_leaf (by simp) fun w l hw => ?_
  refine (gives_valueStart hw (not_isBlank_of_kind? hb)).bind_ok ?_
  rw [hb]
  exact (gives_skipNumber hx ht).bind_ok (.pure _ _)

theorem headPasses_string (opened : List Enclosure) {str : String} {s : List UInt8}
    (hs : Leaves.form.string str s) (t : List UInt8) : HeadPasses opened s t := by
  have hskip := fun l => gives_skipQuoted (t := t) (l := l) hs
  obtain ⟨body, -, rfl⟩ := hs
  refine headPasses_leaf (by simp [inQuotes]) fun w l hw => ?_
  refine (gives_valueStart hw (by decide)).bind_ok ?_
  exact (hskip l).bind_ok (.pure _ _)

/-- A close ends what is open, with nothing inside or behind the last thing inside. -/
theorem passes_close (e : Enclosure) {others : List Enclosure} {w : List UInt8} (hw : Blanks w) (t : List UInt8) :
    Passes (.within e others) (w ++ [e.close]) t (.after others) ∧
      Passes (.after (e :: others)) (w ++ [e.close]) t (.after others) := by
  have hblank : Octet.isBlank e.close = false := by cases e <;> decide
  constructor
  · refine passes_round (by simp) fun l => ?_
    rw [List.append_assoc]
    refine (gives_peekPastBlanks hw hblank).bind_ok ?_
    simp only [if_true]
    exact (Gives.skip _ _).bind_ok (.pure _ _)
  · refine passes_round (by simp) fun l => ?_
    rw [List.append_assoc]
    refine (gives_peekPastBlanks hw hblank).bind_ok ?_
    simp only [if_true]
    exact (Gives.skip _ _).bind_ok (.pure _ _)

/-- A value that is expected is passed over. -/
theorem HeadPasses.passes_before {opened : List Enclosure} {w s : List UInt8} (hw : Blanks w)
    (h : HeadPasses opened s t) : Passes (.before opened) (w ++ s) t (.after opened) := by
  obtain ⟨head, more, state, rfl, hpos, hhead, hmore⟩ := h
  intro l r v hloop
  rw [List.append_assoc]
  refine Gives.loop_next ((hhead w l hw).bind_ok (.pure _ _)) ?_ (hmore l r v hloop)
  simp only [List.length_append]
  omega

/-- The first item of a list may begin where the list could have ended. -/
theorem HeadPasses.passes_within {others : List Enclosure} {w s : List UInt8} {j : Json} (hw : Blanks w)
    (hj : Spells .form (.value j) s) (h : HeadPasses (.list :: others) s t) :
    Passes (.within .list others) (w ++ s) t (.after (.list :: others)) := by
  obtain ⟨head, more, state, hs, hpos, hhead, hmore⟩ := h
  intro l r v hloop
  obtain ⟨b, hb, hpeek⟩ := gives_peekPastBlanks_value (t := t) (l := l) hw hj
  have hclose : b ≠ Enclosure.list.close := ne_of_kind? (by decide) hb
  have hround : Gives (skipRound (.within .list others)) ⟨w ++ (s ++ t), l⟩ (.ok (.inl state)) ⟨more ++ t, l⟩ := by
    refine hpeek.bind_ok ?_
    simp only [if_neg hclose]
    exact (hhead [] l blanks_nil).bind_ok (.pure _ _)
  rw [List.append_assoc]
  refine hround.loop_next ?_ (hmore l r v hloop)
  simp only [hs, List.length_append]
  omega

theorem passes_listComma {others : List Enclosure} {w : List UInt8} (hw : Blanks w) (t : List UInt8) :
    Passes (.after (.list :: others)) (w ++ [Octet.comma]) t (.before (.list :: others)) := by
  refine passes_round (by simp) fun l => ?_
  rw [List.append_assoc]
  refine (gives_peekPastBlanks hw (by decide)).bind_ok ?_
  simp only [if_neg (by decide : Octet.comma ≠ Enclosure.list.close), if_true]
  exact (Gives.skip _ _).bind_ok (.pure _ _)

theorem gives_skipKey {key : String} {w k w1 : List UInt8} (hw : Blanks w) (hk : Leaves.form.string key k)
    (hw1 : Blanks w1) : Gives skipKey ⟨w ++ (k ++ (w1 ++ Octet.colon :: t)), l⟩ (.ok ()) ⟨t, l⟩ := by
  have hskip := gives_skipQuoted (t := w1 ++ Octet.colon :: t) (l := l) hk
  obtain ⟨body, -, rfl⟩ := hk
  refine (gives_peekPastBlanks hw (by decide)).bind_ok ?_
  simp only [if_true]
  exact hskip.bind_ok (gives_colon hw1)

theorem passes_firstKey {others : List Enclosure} {key : String} {w k w1 : List UInt8} (hw : Blanks w)
    (hk : Leaves.form.string key k) (hw1 : Blanks w1) (t : List UInt8) :
    Passes (.within .object others) (w ++ (k ++ (w1 ++ [Octet.colon]))) t (.before (.object :: others)) := by
  refine passes_round (by simp only [List.length_append, List.length_singleton]; omega) fun l => ?_
  have hkey := gives_skipKey (t := t) (l := l) blanks_nil hk hw1
  obtain ⟨body, -, rfl⟩ := hk
  simp only [List.append_assoc, List.singleton_append]
  refine (gives_peekPastBlanks hw (by decide)).bind_ok ?_
  simp only [if_neg (by decide : Octet.quote ≠ Enclosure.object.close)]
  exact hkey.bind_ok (.pure _ _)

theorem passes_nextKey {others : List Enclosure} {key : String} {w w' k w1 : List UInt8} (hw : Blanks w)
    (hw' : Blanks w') (hk : Leaves.form.string key k) (hw1 : Blanks w1) (t : List UInt8) :
    Passes (.after (.object :: others)) (w ++ Octet.comma :: (w' ++ (k ++ (w1 ++ [Octet.colon])))) t
      (.before (.object :: others)) := by
  refine passes_round (by simp only [List.length_append, List.length_cons]; omega) fun l => ?_
  have hkey := gives_skipKey (t := t) (l := l) hw' hk hw1
  simp only [List.append_assoc, List.cons_append, List.nil_append]
  refine (gives_peekPastBlanks hw (by decide)).bind_ok ?_
  simp only [if_neg (by decide : Octet.comma ≠ Enclosure.object.close), if_true]
  exact (Gives.skip _ _).bind_ok (hkey.bind_ok (.pure _ _))

theorem skipsOver_of_spells {phrase : Phrase} {s : List UInt8} (h : Spells .form phrase s) :
    SkipsOver phrase s := by
  -- Every case but the leaves puts together the pieces of its phrase, each from the stack it is met with.
  induction h with
  | null => exact fun opened t _ => headPasses_null opened t
  | bool b => exact fun opened t _ => headPasses_bool opened b t
  | number hn =>
      obtain ⟨x, rfl⟩ := hn
      exact fun opened t ht => headPasses_number opened x ht
  | str hs => exact fun opened t _ => headPasses_string opened hs t
  | list hjs ih =>
      intro opened t _
      refine ⟨[Octet.openList], _, .within .list opened, rfl, by simp, fun w l hw => ?_, ih opened t⟩
      refine (gives_valueStart hw (by decide)).bind_ok ?_
      exact (Gives.skip _ _).bind_ok (.pure _ _)
  | object hms ih =>
      intro opened t _
      refine ⟨[Octet.openObject], _, .within .object opened, rfl, by simp, fun w l hw => ?_, ih opened t⟩
      refine (gives_valueStart hw (by decide)).bind_ok ?_
      exact (Gives.skip _ _).bind_ok (.pure _ _)
  | noItems hw => exact fun others t => (passes_close .list hw t).1
  | endItems hw => exact fun others t => (passes_close .list hw t).2
  | @items j js w s r hw hj hjs ihj ihjs =>
      intro others t
      have hfollows : Follows (r ++ [Octet.closeList] ++ t) := by
        rw [List.append_assoc]
        exact hjs.follows_moreItems t
      have hfirst := (ihj (.list :: others) _ hfollows).passes_within hw hj
      have h := hfirst.trans (ihjs others t)
      simpa only [List.append_assoc] using h
  | @moreItems j js w w' s r hw hw' hj hjs ihj ihjs =>
      intro others t
      have hfollows : Follows (r ++ [Octet.closeList] ++ t) := by
        rw [List.append_assoc]
        exact hjs.follows_moreItems t
      have hitem := (ihj (.list :: others) _ hfollows).passes_before hw'
      have h := (passes_listComma hw _).trans (hitem.trans (ihjs others t))
      simpa only [List.append_assoc, List.cons_append, List.nil_append] using h
  | noMembers hw => exact fun others t => (passes_close .object hw t).1
  | endMembers hw => exact fun others t => (passes_close .object hw t).2
  | @members key j ms w k w1 w2 s r hw hk hw1 hw2 hj hms ihj ihms =>
      intro others t
      have hfollows : Follows (r ++ [Octet.closeObject] ++ t) := by
        rw [List.append_assoc]
        exact hms.follows_moreMembers t
      have hvalue := (ihj (.object :: others) _ hfollows).passes_before hw2
      have h := (passes_firstKey hw hk hw1 _).trans (hvalue.trans (ihms others t))
      simpa only [List.append_assoc, List.cons_append, List.nil_append] using h
  | @moreMembers key j ms w w' k w1 w2 s r hw hw' hk hw1 hw2 hj hms ihj ihms =>
      intro others t
      have hfollows : Follows (r ++ [Octet.closeObject] ++ t) := by
        rw [List.append_assoc]
        exact hms.follows_moreMembers t
      have hvalue := (ihj (.object :: others) _ hfollows).passes_before hw2
      have h := (passes_nextKey hw hw' hk hw1 _).trans (hvalue.trans (ihms others t))
      simpa only [List.append_assoc, List.cons_append, List.nil_append] using h

/-- A value of the right form is passed over, whatever its depth. -/
theorem gives_skipValue {w : List UInt8} (hw : Blanks w) {j : Json} {s : List UInt8}
    (hj : Spells .form (.value j) s) (ht : Follows t) :
    Gives skipValue ⟨w ++ (s ++ t), l⟩ (.ok ()) ⟨t, l⟩ := by
  have hpasses := (skipsOver_of_spells hj [] t ht).passes_before hw
  have hend : Gives (loop (.after []) skipRound) ⟨t, l⟩ (.ok ()) ⟨t, l⟩ := .loop_last (.pure _ _)
  have h := hpasses l _ _ hend
  rwa [List.append_assoc] at h

theorem readsAs_skipValue (j : Json) : ReadsAs skipValue j (.ok (), []) := by
  intro w s t l hw hj ht
  rw [List.append_nil]
  exact gives_skipValue hw hj.form ht

end BlockModel.Scan
