import BlockModel.Proofs.Condition.Denotation
import BlockModel.Proofs.Multipart.Judgement

/-! How deep conditions may nest. Two limits are met on the way into a chain of condition objects, each in a list of
the one before: the limit on the levels of conditions, which counts the objects, and the reader's own, which counts
the lists as well, and the list of cases and the case around them. The smaller one decides, and the fault names it. -/

namespace BlockModel

open Outline

section Outcomes

variable {α β : Type}

/-- Whether there is a result, and otherwise the failure. -/
def outcome (r : Except Failure α) : Except Failure Unit := (fun _ => ()) <$> r

theorem outcome_map (f : α → β) (r : Except Failure α) : outcome (f <$> r) = outcome r := by
  cases r <;> rfl

theorem outcome_eq_ok_iff {r : Except Failure α} : outcome r = .ok () ↔ ∃ a, r = .ok a := by
  cases r with
  | error e =>
      constructor
      · intro h
        cases h
      · rintro ⟨a, h⟩
        cases h
  | ok a => exact ⟨fun _ => ⟨a, rfl⟩, fun _ => rfl⟩

theorem eq_error_of_map {f : α → β} {r : Except Failure α} {e : Failure} (h : f <$> r = .error e) :
    r = .error e := by
  cases r with
  | error e' => exact congrArg Except.error (Except.error.inj h)
  | ok a => cases h

theorem exists_of_isSome {r : Except Failure (Option α)} (h : Option.isSome <$> r = .ok true) :
    ∃ a, r = .ok (some a) := by
  cases r with
  | error e => cases h
  | ok a? =>
      obtain ⟨a, rfl⟩ := Option.isSome_iff_exists.1 (Except.ok.inj h)
      exact ⟨a, rfl⟩

theorem outcome_mapM_eq_ok {f : α → Except Failure β} {as : List α} (h : ∀ a ∈ as, outcome (f a) = .ok ()) :
    outcome (as.mapM f) = .ok () := by
  induction as with
  | nil => rfl
  | cons a rest ih =>
      obtain ⟨b, hb⟩ := outcome_eq_ok_iff.1 (h a List.mem_cons_self)
      obtain ⟨bs, hbs⟩ := outcome_eq_ok_iff.1 (ih fun a ha => h a (List.mem_cons_of_mem _ ha))
      rw [List.mapM_cons, hb, hbs]
      rfl

/-- Where all other items have results, one item decides. -/
theorem outcome_mapM_of_others {f : α → Except Failure β} {left right : List α} (a : α)
    (hleft : ∀ b ∈ left, outcome (f b) = .ok ()) (hright : ∀ b ∈ right, outcome (f b) = .ok ()) :
    outcome ((left ++ a :: right).mapM f) = outcome (f a) := by
  obtain ⟨bs, hbs⟩ := outcome_eq_ok_iff.1 (outcome_mapM_eq_ok hleft)
  obtain ⟨cs, hcs⟩ := outcome_eq_ok_iff.1 (outcome_mapM_eq_ok hright)
  rw [List.mapM_append, List.mapM_cons, hbs, hcs]
  cases f a <;> rfl

end Outcomes

namespace Condition

/-- A member that tests a property. -/
inductive TestsProperty : Member → Prop where
  | text {key : String} (hkey : key ∉ reservedKeys) (s : String) : TestsProperty (.ok key, .str (.ok s))
  | truth {key : String} (hkey : key ∉ reservedKeys) (b : Bool) : TestsProperty (.ok key, .bool b)

/-- So many condition objects, each but the last with the next one in a list, and with tests of properties besides. -/
inductive IsChain : Nat → Outline → Prop where
  | last {ms : List Member} (hms : ∀ m ∈ ms, TestsProperty m) : IsChain 1 (.object ms)
  | next {count : Nat} {o : Outline} {key : String} {before after : List Member} (hkey : key = "OR" ∨ key = "AND")
      (h : IsChain count o) (hbefore : ∀ m ∈ before, TestsProperty m) (hafter : ∀ m ∈ after, TestsProperty m) :
      IsChain (count + 1) (.object (before ++ (.ok key, .list [o]) :: after))

theorem IsChain.count_pos {count : Nat} {o : Outline} (h : IsChain count o) : 0 < count := by
  cases h with
  | last _ => exact Nat.one_pos
  | next _ _ _ _ => exact Nat.succ_pos _

/-- What becomes of a chain of so many objects, the first of them at a level and with room for so many lists and
objects. Each object takes two of these with its list, and the last takes one. -/
def chainOutcome (limit room level count : Nat) : Except Failure Unit :=
  -- Whether there is still room to enter the first object past the limit on levels.
  if 2 * (limit + 1 - level) < room then
    if limit + 1 < level + count then .error (.of (.data (.conditionTooDeep limit))) else .ok ()
  else if room + 1 < 2 * count then tooDeep else .ok ()

section ChainOutcome

variable {limit room level count : Nat}

theorem chainOutcome_zero (hcount : 0 < count) : chainOutcome limit 0 level count = tooDeep := by
  rw [chainOutcome, if_neg (Nat.not_lt_zero _), if_pos (by omega)]

theorem chainOutcome_past (hlevel : limit < level) (hcount : 0 < count) :
    chainOutcome limit (room + 1) level count = .error (.of (.data (.conditionTooDeep limit))) := by
  rw [chainOutcome, if_pos (by omega), if_pos (by omega)]

theorem chainOutcome_last (hlevel : level ≤ limit) : chainOutcome limit (room + 1) level 1 = .ok () := by
  rw [chainOutcome, if_neg (by omega : ¬limit + 1 < level + 1), if_neg (by omega : ¬room + 1 + 1 < 2 * 1), ite_self]

theorem chainOutcome_one (hlevel : level ≤ limit) (hcount : 0 < count) :
    chainOutcome limit 1 level (count + 1) = tooDeep := by
  rw [chainOutcome, if_neg (by omega), if_pos (by omega)]

theorem chainOutcome_next (hlevel : level ≤ limit) :
    chainOutcome limit (room + 2) level (count + 1) = chainOutcome limit room (level + 1) count := by
  have hfirst : 2 * (limit + 1 - level) < room + 2 ↔ 2 * (limit + 1 - (level + 1)) < room := by omega
  have hlevels : limit + 1 < level + (count + 1) ↔ limit + 1 < level + 1 + count := by omega
  have hroom : room + 2 + 1 < 2 * (count + 1) ↔ room + 1 < 2 * count := by omega
  simp only [chainOutcome, hfirst, hlevels, hroom]

end ChainOutcome

theorem outcome_testsProperty {m : Member} (h : TestsProperty m) (room : Nat)
    (list : Outline → Except Failure (List Condition)) :
    outcome (memberCondition (judgeValue room) list m) = .ok () := by
  cases h with
  | @text key hkey s =>
      show outcome (judgeMember (judgeValue room) list key (.str (.ok s))) = .ok ()
      rw [judgeMember, ofName_property hkey]
      rfl
  | @truth key hkey b =>
      show outcome (judgeMember (judgeValue room) list key (.bool b)) = .ok ()
      rw [judgeMember, ofName_property hkey]
      rfl

theorem outcome_junction {value : Outline → Except Failure String} {list : Outline → Except Failure (List Condition)}
    {key : String} (hkey : key = "OR" ∨ key = "AND") (o : Outline) :
    outcome (memberCondition value list (.ok key, o)) = outcome (list o) := by
  show outcome (judgeMember value list key o) = _
  rcases hkey with rfl | rfl
  · rw [judgeMember_disjunction, outcome_map]
  · rw [judgeMember_conjunction, outcome_map]

/-- An object is judged as the list in it, if it has only tests of properties besides. -/
theorem outcome_link {limit level room : Nat} (hlevel : level ≤ limit) {key : String} {o : Outline}
    {before after : List Member} (hkey : key = "OR" ∨ key = "AND") (hbefore : ∀ m ∈ before, TestsProperty m)
    (hafter : ∀ m ∈ after, TestsProperty m) :
    outcome (judge limit (room + 1) level (.object (before ++ (.ok key, o) :: after))) =
      outcome (judgeList limit room (level + 1) o) := by
  rw [judge_object_of_le hlevel, outcome_map, outcome_mapM_of_others, outcome_junction hkey]
  · exact fun m hm => outcome_testsProperty (hbefore m hm) room _
  · exact fun m hm => outcome_testsProperty (hafter m hm) room _

theorem outcome_singleton (limit room level : Nat) (o : Outline) :
    outcome (judgeList limit (room + 1) level (.list [o])) = outcome (judge limit room level o) := by
  rw [judgeList_list]
  have hnone : ∀ o' ∈ ([] : List Outline), outcome (judge limit room level o') = .ok () := fun o' h =>
    absurd h List.not_mem_nil
  exact outcome_mapM_of_others o hnone hnone

/-- A condition object past the limit is refused, if there is room to enter it. -/
theorem outcome_past {limit level : Nat} (hlevel : limit < level) (room : Nat) (ms : List Member) :
    outcome (judge limit (room + 1) level (.object ms)) = .error (.of (.data (.conditionTooDeep limit))) := by
  rw [judge_object, if_pos hlevel]
  rfl

/-- One of the two limits stops a chain that is too long, wherever it starts. -/
theorem outcome_chain {count : Nat} {o : Outline} (h : IsChain count o) (limit room level : Nat) :
    outcome (judge limit room level o) = chainOutcome limit room level count := by
  -- The next object is one level down and has two lists or objects less of room.
  induction h generalizing room level with
  | last hms =>
      cases room with
      | zero => exact (chainOutcome_zero Nat.one_pos).symm
      | succ room =>
          rcases Nat.lt_or_ge limit level with hpast | hlevel
          · rw [outcome_past hpast, chainOutcome_past hpast Nat.one_pos]
          · rw [judge_object_of_le hlevel, outcome_map, chainOutcome_last hlevel]
            exact outcome_mapM_eq_ok fun m hm => outcome_testsProperty (hms m hm) room _
  | next hkey h hbefore hafter ih =>
      cases room with
      | zero => exact (chainOutcome_zero (Nat.succ_pos _)).symm
      | succ room =>
          rcases Nat.lt_or_ge limit level with hpast | hlevel
          · rw [outcome_past hpast, chainOutcome_past hpast (Nat.succ_pos _)]
          · rw [outcome_link hlevel hkey hbefore hafter]
            cases room with
            | zero => exact (chainOutcome_one hlevel h.count_pos).symm
            | succ room => rw [outcome_singleton, ih, chainOutcome_next hlevel]

/-- The cause for which a chain in a case is refused that is too long. -/
def chainRefusal (limit : Nat) : Cause :=
  if limit ≤ 62 then .data (.conditionTooDeep limit) else .grammar .nestedTooDeep

/-- In a case there is room for 125 lists and objects, which are used up by 63 levels. -/
theorem chainOutcome_case (limit count : Nat) :
    chainOutcome limit 125 1 count = if count ≤ min limit 63 then .ok () else .error (.of (chainRefusal limit)) := by
  rw [chainOutcome, chainRefusal]
  by_cases hlimit : limit ≤ 62
  · rw [if_pos (by omega), if_pos hlimit]
    by_cases hcount : count ≤ limit
    · rw [if_neg (by omega), if_pos (by omega)]
    · rw [if_pos (by omega), if_neg (by omega)]
  · rw [if_neg (by omega), if_neg hlimit]
    by_cases hcount : count ≤ 63
    · rw [if_neg (by omega), if_pos (by omega)]
    · rw [if_pos (by omega), if_neg (by omega)]
      rfl

end Condition

theorem Fault.ofFailure_of {cause : Cause} (hsource : ∀ reason, cause ≠ .source reason) :
    ofFailure (.of cause) = .malformed cause.message none :=
  ofFailure_eq hsource

namespace Multipart

/-- A member of a case that is no condition: a pool to apply, which lies in the list of cases and in the case and so has
two lists and objects less to open, or whatever is passed over. -/
inductive IsBeside : Member → Prop where
  | apply {j : Json} {pool : VariantPool} (hroom : j.nesting + 2 ≤ Scan.greatestNesting)
      (hpool : VariantPool.ofJson? j = some pool) : IsBeside (.ok "apply", j.outline)
  | other {key : String} (hwhen : key ≠ "when") (happly : key ≠ "apply") (o : Outline) : IsBeside (.ok key, o)

/-- Documents of one case that applies a pool under a chain of so many conditions. -/
inductive IsChained (count : Nat) : Outline → Prop where
  | intro {o : Outline} {before after : List Member} (hchain : Condition.IsChain count o)
      (hbefore : ∀ m ∈ before, IsBeside m) (hafter : ∀ m ∈ after, IsBeside m)
      (happly : ∃ m ∈ before ++ after, m.1 = .ok "apply") :
      IsChained count (.list [.object (before ++ (.ok "when", o) :: after)])

section Judged

theorem judgeMember_beside {m : Member} (h : IsBeside m) (limit : Nat) (d : CaseDraft VariantPool) :
    ∃ d', (text m.1 >>= fun key => judgeMember limit 125 d key m.2) = .ok d' ∧
      (d.apply.isSome ∨ m.1 = .ok "apply" → d'.apply.isSome) := by
  cases h with
  | @apply j pool hroom hpool =>
      have hjudge : VariantPool.judge 125 j.outline = .ok pool :=
        VariantPool.judge_outline (Nat.le_of_add_le_add_right hroom) hpool
      refine ⟨{ d with apply := some pool }, ?_, fun _ => rfl⟩
      show judgeMember limit 125 d "apply" j.outline = _
      rw [judgeMember_apply, hjudge]
      rfl
  | @other key hwhen happly o =>
      refine ⟨d, judgeMember_other limit 125 d o hwhen happly, fun h => h.resolve_right fun hkey => ?_⟩
      exact happly (Except.ok.inj hkey)

/-- Members beside the condition are all accepted, and a pool among them is kept. -/
theorem judgeMembers_beside {ms : List Member} (h : ∀ m ∈ ms, IsBeside m) (limit : Nat)
    (d : CaseDraft VariantPool) :
    ∃ d', judgeMembers (judgeMember limit 125) d ms = .ok d' ∧
      ((d.apply.isSome ∨ ∃ m ∈ ms, m.1 = .ok "apply") → d'.apply.isSome) := by
  induction ms generalizing d with
  | nil =>
      refine ⟨d, rfl, fun h => h.resolve_right ?_⟩
      rintro ⟨m, hm, -⟩
      exact absurd hm List.not_mem_nil
  | cons m rest ih =>
      obtain ⟨d', hstep, hd'⟩ := judgeMember_beside (h m List.mem_cons_self) limit d
      obtain ⟨d'', hrest, hd''⟩ := ih (fun m hm => h m (List.mem_cons_of_mem _ hm)) d'
      refine ⟨d'', ?_, fun hsome => hd'' ?_⟩
      · rw [judgeMembers_cons, hstep]
        exact hrest
      · rcases hsome with hd | ⟨m', hm', hkey⟩
        · exact .inl (hd' (.inl hd))
        · rcases List.mem_cons.1 hm' with rfl | hrest'
          · exact .inl (hd' (.inr hkey))
          · exact .inr ⟨m', hrest', hkey⟩

/-- A case is there exactly if its condition is. -/
theorem isSome_judgeCase {o : Outline} {before after : List Member} (hbefore : ∀ m ∈ before, IsBeside m)
    (hafter : ∀ m ∈ after, IsBeside m) (happly : ∃ m ∈ before ++ after, m.1 = .ok "apply") (limit : Nat) :
    Option.isSome <$> judgeCase limit 126 (.object (before ++ (.ok "when", o) :: after)) =
      (fun _ => true) <$> Condition.judge limit 125 1 o := by
  obtain ⟨d, hd, hsome⟩ := judgeMembers_beside hbefore limit .empty
  have hwhen : (text (.ok "when") >>= fun key => judgeMember limit 125 d key o) =
      (fun c => { d with condition := some c }) <$> Condition.judge limit 125 1 o := rfl
  rw [judgeCase_object, judgeMembers_append, hd]
  show Option.isSome <$> CaseDraft.case? <$> judgeMembers (judgeMember limit 125) d ((.ok "when", o) :: after) = _
  rw [judgeMembers_cons, hwhen]
  rcases Condition.judge limit 125 1 o with e | c
  · rfl
  · obtain ⟨d', hd', hsome'⟩ := judgeMembers_beside hafter limit { d with condition := some c }
    have hkept : d'.apply.isSome := by
      obtain ⟨m, hm, hkey⟩ := happly
      rcases List.mem_append.1 hm with hm | hm
      · exact hsome' (.inl (hsome (.inr ⟨m, hm, hkey⟩)))
      · exact hsome' (.inr ⟨m, hm, hkey⟩)
    show Option.isSome <$> CaseDraft.case? <$> judgeMembers (judgeMember limit 125) _ after = .ok true
    rw [hd']
    show Except.ok (d'.case?.isSome) = .ok true
    rw [CaseDraft.case?, Option.isSome_map, hkept]

theorem judge_oneCase (limits : Limits) (room : Nat) (o : Outline) :
    judge limits (room + 1) (.list [o]) = (fun c => ⟨c.toList⟩) <$> judgeCase limits.conditionDepth room o := by
  rw [judge_list, List.mapM_cons, List.mapM_nil]
  cases judgeCase limits.conditionDepth room o with
  | error e => rfl
  | ok c? => cases c? <;> rfl

variable {t : Outline} {count : Nat} {limits : Limits}

/-- A chain within both limits is accepted, with its case. -/
theorem judge_chained (h : IsChained count t) (hcount : count ≤ min limits.conditionDepth 63) :
    ∃ c, judge limits Scan.greatestNesting t = .ok ⟨[c]⟩ := by
  obtain @⟨o, before, after, hchain, hbefore, hafter, happly⟩ := h
  have houtcome := Condition.outcome_chain hchain limits.conditionDepth 125 1
  rw [Condition.chainOutcome_case, if_pos hcount] at houtcome
  obtain ⟨c, hc⟩ := outcome_eq_ok_iff.1 houtcome
  have hsome := isSome_judgeCase (o := o) hbefore hafter happly limits.conditionDepth
  rw [hc] at hsome
  obtain ⟨found, hfound⟩ := exists_of_isSome hsome
  refine ⟨found, ?_⟩
  rw [Scan.greatestNesting, judge_oneCase, hfound]
  rfl

/-- A chain past one of the limits is refused for it. -/
theorem judge_chained_of_lt (h : IsChained count t) (hcount : min limits.conditionDepth 63 < count) :
    judge limits Scan.greatestNesting t = .error (.of (Condition.chainRefusal limits.conditionDepth)) := by
  obtain @⟨o, before, after, hchain, hbefore, hafter, happly⟩ := h
  have houtcome := Condition.outcome_chain hchain limits.conditionDepth 125 1
  rw [Condition.chainOutcome_case, if_neg (Nat.not_le.2 hcount)] at houtcome
  have hsome := isSome_judgeCase (o := o) hbefore hafter happly limits.conditionDepth
  rw [eq_error_of_map houtcome] at hsome
  rw [Scan.greatestNesting, judge_oneCase, eq_error_of_map hsome]
  rfl

end Judged

/-- How the refusal of a chain is worded. -/
def chainMessage (limit : Nat) : String :=
  if limit ≤ 62 then "conditions nested deeper than " ++ toString limit ++ " levels" else "recursion limit exceeded"

theorem ofFailure_chainRefusal (limit : Nat) :
    Fault.ofFailure (.of (Condition.chainRefusal limit)) = .malformed (chainMessage limit) none := by
  have hsource : ∀ reason, Condition.chainRefusal limit ≠ .source reason := by
    intro reason h
    rw [Condition.chainRefusal] at h
    split at h <;> cases h
  rw [Fault.ofFailure_of hsource, Condition.chainRefusal, chainMessage]
  split <;> rfl

/-- A case that applies a pool under a chain of conditions is accepted exactly if the chain is no longer than the limit
that holds for a requested depth, and no longer than 63 levels, which are as many as the reader's own limit leaves.
Otherwise the fault names the smaller of the two. -/
theorem parse_chained (requested : Nat) {t : Outline} {count : Nat} (h : IsChained count t) {octets : List UInt8}
    (hspelled : t.SpelledBy octets) :
    ((∃ c, parse (α := VariantPool) (.ofConditionDepth requested) .document octets = .ok ⟨[c]⟩) ↔
        count ≤ min (max requested 32) 63) ∧
      (min (max requested 32) 63 < count →
        ∃ position, parse (α := VariantPool) (.ofConditionDepth requested) .document octets =
          .error (.malformed (chainMessage (max requested 32)) position)) := by
  have hjudged := parse_judged (.ofConditionDepth requested) hspelled
  have haccepted : count ≤ min (max requested 32) 63 →
      ∃ c, parse (α := VariantPool) (.ofConditionDepth requested) .document octets = .ok ⟨[c]⟩ := by
    intro hcount
    obtain ⟨c, hc⟩ : ∃ c, judge (.ofConditionDepth requested) Scan.greatestNesting t = .ok ⟨[c]⟩ :=
      judge_chained h hcount
    rw [hc] at hjudged
    exact ⟨c, hjudged.eq_ok⟩
  have hrefused : min (max requested 32) 63 < count →
      ∃ position, parse (α := VariantPool) (.ofConditionDepth requested) .document octets =
        .error (.malformed (chainMessage (max requested 32)) position) := by
    intro hcount
    have hrefusal : judge (.ofConditionDepth requested) Scan.greatestNesting t =
        .error (.of (Condition.chainRefusal (max requested 32))) := judge_chained_of_lt h hcount
    have hfault : (Except.error (.of (Condition.chainRefusal (max requested 32))) :
        Except Failure (Multipart VariantPool)).mapError Fault.ofFailure =
          .error (Fault.malformed (chainMessage (max requested 32)) none) :=
      congrArg Except.error (ofFailure_chainRefusal (max requested 32))
    rw [hrefusal, hfault] at hjudged
    exact hjudged.malformed
  refine ⟨⟨?_, haccepted⟩, hrefused⟩
  rintro ⟨c, hc⟩
  refine Nat.not_lt.1 fun hcount => ?_
  obtain ⟨position, hfault⟩ := hrefused hcount
  rw [hc] at hfault
  cases hfault

/-- A test of a property, in so many disjunctions of one. -/
def nestedTest : Nat → Outline
  | 0 => .object [(.ok "a", .str (.ok "b"))]
  | depth + 1 => .object [(.ok "OR", .list [nestedTest depth])]

/-- The document of one case with that condition. -/
def nestedCondition (depth : Nat) : Outline := .list [.object [(.ok "when", nestedTest depth), (.ok "apply", .list [])]]

def nestedTestText : Nat → List UInt8
  | 0 => Text.Utf8.encode "\x7b\"a\":\"b\"\x7d".toList
  | depth + 1 =>
    Text.Utf8.encode "\x7b\"OR\":[".toList ++ (nestedTestText depth ++ Text.Utf8.encode "]\x7d".toList)

def nestedConditionText (depth : Nat) : List UInt8 :=
  Text.Utf8.encode "[\x7b\"when\":".toList ++
    (nestedTestText depth ++ Text.Utf8.encode ",\"apply\":[]\x7d]".toList)

theorem isChain_nestedTest (depth : Nat) : Condition.IsChain (depth + 1) (nestedTest depth) := by
  have hnone : ∀ m ∈ ([] : List Member), Condition.TestsProperty m := fun m hm => absurd hm List.not_mem_nil
  induction depth with
  | zero => exact .last (List.forall_mem_singleton.2 (.text (by decide) "b"))
  | succ depth ih => exact .next (.inl rfl) ih hnone hnone

theorem isChained_nestedCondition (depth : Nat) : IsChained (depth + 1) (nestedCondition depth) := by
  have hpool : VariantPool.ofJson? (.list []) = some ⟨[]⟩ := rfl
  have happly : IsBeside (.ok "apply", (Json.list []).outline) := .apply (by decide) hpool
  have hnone : ∀ m ∈ ([] : List Member), IsBeside m := fun m hm => absurd hm List.not_mem_nil
  exact .intro (isChain_nestedTest depth) hnone (List.forall_mem_singleton.2 happly)
    ⟨_, List.mem_singleton_self _, rfl⟩

theorem fits_nestedTest (depth : Nat) : Fits (.value (nestedTest depth)) (nestedTestText depth) := by
  have hend : Fits (.members false []) [] := .endMembers false blanks_nil
  induction depth with
  | zero => exact .object (fits_member (.first blanks_nil) "a" (.str (holds_written "b")) hend)
  | succ depth ih =>
      have hobject := Fits.object (fits_member (.first blanks_nil) "OR" (fits_oneItem ih) hend)
      simp only [List.nil_append, List.append_nil, List.cons_append, List.append_assoc] at hobject
      exact hobject

theorem spelledBy_nestedCondition (depth : Nat) : (nestedCondition depth).SpelledBy (nestedConditionText depth) := by
  have hnil : Blanks [] := blanks_nil
  have happly := fits_member (.next hnil hnil) "apply" (.list (.endItems true hnil)) (.endMembers false hnil)
  have hcase := fits_oneItem (.object (fits_member (.first hnil) "when" (fits_nestedTest depth) happly))
  simp only [List.nil_append, List.append_nil, List.cons_append, List.append_assoc] at hcase
  exact hcase.spelledBy

/-- One level past a limit on conditions, the last level for which there is room, and the first for which there is
none. -/
theorem parse_chained_nestedCondition :
    (IsChained 41 (nestedCondition 40) ∧ (nestedCondition 40).SpelledBy (nestedConditionText 40) ∧
        ∃ position, parse (α := VariantPool) (.ofConditionDepth 40) .document (nestedConditionText 40) =
          .error (.malformed "conditions nested deeper than 40 levels" position)) ∧
      (∃ c, parse (α := VariantPool) (.ofConditionDepth 100) .document (nestedConditionText 62) = .ok ⟨[c]⟩) ∧
      ∃ position, parse (α := VariantPool) (.ofConditionDepth 100) .document (nestedConditionText 63) =
        .error (.malformed "recursion limit exceeded" position) := by
  have hpast := parse_chained 40 (isChained_nestedCondition 40) (spelledBy_nestedCondition 40)
  have hlast := parse_chained 100 (isChained_nestedCondition 62) (spelledBy_nestedCondition 62)
  have hfirst := parse_chained 100 (isChained_nestedCondition 63) (spelledBy_nestedCondition 63)
  exact ⟨⟨isChained_nestedCondition 40, spelledBy_nestedCondition 40, hpast.2 (by decide)⟩,
    hlast.1.2 (by decide), hfirst.2 (by decide)⟩

end Multipart

end BlockModel
