import BlockModel.Proofs.Json.Outline
import BlockModel.Proofs.Scan.Skip

/-! Every text of the right form is read as its outline says. A reader is followed by its judgement of an outline:
the value that it makes of it or the failure in which it ends, and the lines that it reports on the way to a value.
When its judgement of items and members is known, so is that of lists and objects; with the room for more of these a
judgement gets as far as the reader does. -/

namespace BlockModel

open Scan

namespace Outline

variable {α σ : Type}

/-- What is made of a string. -/
def text : Except GrammarFault String → Except Failure String
  | .ok s => .ok s
  | .error fault => .error (.of (.grammar fault))

/-- How a message names what was found, unless it cannot be read. Lists and objects are not entered for that. -/
def found : Outline → Except Failure Found
  | null => .ok .null
  | bool b => .ok (.bool b)
  | number n => JsonNumber.found <$> inRange n
  | str s => Found.str <$> text s
  | list _ => .ok .list
  | object _ => .ok .object

/-- The refusal of a value of another kind than is asked for. -/
def refused (expected : String) (o : Outline) : Except Failure α := do
  let found ← o.found
  .error (.of (.data (.wrongType found expected)))

/-- The refusal of a list or object for which there is no room. -/
def tooDeep : Except Failure α := .error (.of (.grammar .nestedTooDeep))

def asList (expected : String) (inside : List Outline → Except Failure α) : Outline → Except Failure α
  | list os => inside os
  | o => o.refused expected

def asObject (expected : String) (inside : List Member → Except Failure α) : Outline → Except Failure α
  | object ms => inside ms
  | o => o.refused expected

/-- What comes of the members of an object, read one after another into a state. -/
def judgeMembers (member : σ → String → Outline → Except Failure σ) (init : σ) (ms : List Member) :
    Except Failure σ :=
  ms.foldlM (fun s m => text m.1 >>= fun key => member s key m.2) init

theorem judgeMembers_cons (member : σ → String → Outline → Except Failure σ) (init : σ) (m : Member)
    (ms : List Member) :
    judgeMembers member init (m :: ms) =
      (text m.1 >>= fun key => member init key m.2) >>= fun s => judgeMembers member s ms :=
  List.foldlM_cons

theorem judgeMembers_append (member : σ → String → Outline → Except Failure σ) (init : σ) (ms ms' : List Member) :
    judgeMembers member init (ms ++ ms') = judgeMembers member init ms >>= fun s => judgeMembers member s ms' :=
  List.foldlM_append

/-- A member that leaves every state as it is can be left out. -/
theorem judgeMembers_insert {member : σ → String → Outline → Except Failure σ} {key : String} {o : Outline}
    (h : ∀ s, member s key o = .ok s) (init : σ) (before after : List Member) :
    judgeMembers member init (before ++ (.ok key, o) :: after) = judgeMembers member init (before ++ after) := by
  rw [judgeMembers_append, judgeMembers_append]
  refine bind_congr fun s => ?_
  have hstep : (text (.ok key) >>= fun key => member s key o) = pure s := h s
  rw [judgeMembers_cons, hstep, pure_bind]

/-- The value of a member can be exchanged for one that is judged alike. -/
theorem judgeMembers_exchange {member : σ → String → Outline → Except Failure σ} {key : String} {o o' : Outline}
    (h : ∀ s, member s key o = member s key o') (init : σ) (before after : List Member) :
    judgeMembers member init (before ++ (.ok key, o) :: after) =
      judgeMembers member init (before ++ (.ok key, o') :: after) := by
  rw [judgeMembers_append, judgeMembers_append]
  refine bind_congr fun s => ?_
  have hstep : (text (.ok key) >>= fun key => member s key o) = text (.ok key) >>= fun key => member s key o' := h s
  rw [judgeMembers_cons, judgeMembers_cons, hstep]

/-- An item can be exchanged for one that is judged alike. -/
theorem mapM_exchange {f : Outline → Except Failure α} {o o' : Outline} (h : f o = f o')
    (left right : List Outline) : (left ++ o :: right).mapM f = (left ++ o' :: right).mapM f := by
  rw [List.mapM_append, List.mapM_append, List.mapM_cons, List.mapM_cons, h]

/-- The lines that are reported of the keys of members. -/
def logMembers (line : String → List LogLine) (ms : List Member) : List LogLine :=
  ms.flatMap fun m => ((text m.1).toOption.map line).getD []

/-- A value whose lists and objects are judged as given. -/
def treeWith (onList : List Outline → Except Failure Json) (onObject : List Member → Except Failure Json) :
    Outline → Except Failure Json
  | null => .ok .null
  | bool b => .ok (.bool b)
  | number n => Json.number <$> inRange n
  | str s => Json.str <$> text s
  | list os => onList os
  | object ms => onObject ms

/-- One member of an object, kept with its key. -/
def treeMember (value : Outline → Except Failure Json) (sofar : List (String × Json)) (key : String) (o : Outline) :
    Except Failure (List (String × Json)) := do
  let j ← value o
  pure ((key, j) :: sofar)

/-- The whole value, in which at most so many lists and objects may be open at once. -/
def tree : Nat → Outline → Except Failure Json
  | 0 => treeWith (fun _ => tooDeep) (fun _ => tooDeep)
  | room + 1 =>
    treeWith (fun os => Json.list <$> os.mapM (tree room))
      (fun ms => Json.object <$> List.reverse <$> judgeMembers (treeMember (tree room)) [] ms)

theorem mapM_outline {value : Outline → Except Failure Json} {js : List Json}
    (h : ∀ j ∈ js, value j.outline = .ok j) : (js.map Json.outline).mapM value = .ok js := by
  induction js with
  | nil => rfl
  | cons j rest ih =>
      rw [List.map_cons, List.mapM_cons, h j List.mem_cons_self, ih fun j hj => h j (List.mem_cons_of_mem _ hj)]
      rfl

theorem judgeMembers_treeMember {value : Outline → Except Failure Json} {ms : List (String × Json)}
    (h : ∀ m ∈ ms, value m.2.outline = .ok m.2) (sofar : List (String × Json)) :
    judgeMembers (treeMember value) sofar (ms.map fun m => (.ok m.1, m.2.outline)) = .ok (ms.reverse ++ sofar) := by
  induction ms generalizing sofar with
  | nil => rfl
  | cons m rest ih =>
      have hstep : (text (.ok m.1) >>= fun key => treeMember value sofar key m.2.outline) = .ok (m :: sofar) := by
        show treeMember value sofar m.1 m.2.outline = .ok (m :: sofar)
        rw [treeMember, h m List.mem_cons_self]
        rfl
      rw [List.map_cons, judgeMembers_cons, hstep, List.reverse_cons, List.append_assoc]
      exact ih (fun m hm => h m (List.mem_cons_of_mem _ hm)) (m :: sofar)

/-- A value is read as itself, if there is room for its lists and objects. -/
theorem tree_outline {room : Nat} {j : Json} (hroom : j.nesting ≤ room) : j.outline.tree room = .ok j := by
  induction room generalizing j with
  | zero =>
      cases j with
      | list js => exact absurd hroom (Json.not_nesting_list_le_zero js)
      | object ms => exact absurd hroom (Json.not_nesting_object_le_zero ms)
      | _ => rfl
  | succ room ih =>
      cases j with
      | list js =>
          have hitems := mapM_outline fun j hj => ih (Json.nesting_list_le_iff.1 hroom j hj)
          rw [Json.outline, Json.outlineItems_eq_map, tree, treeWith, hitems]
          rfl
      | object ms =>
          have hmembers := judgeMembers_treeMember
            (fun m hm => ih (Json.nesting_object_le_iff.1 hroom m hm)) ([] : List (String × Json))
          rw [Json.outline, Json.outlineMembers_eq_map, tree, treeWith, hmembers, List.append_nil]
          show Except.ok (Json.object ms.reverse.reverse) = Except.ok (Json.object ms)
          rw [List.reverse_reverse]
      | _ => rfl

theorem Fits.kind?_head {o : Outline} {s : List UInt8} (h : Fits (.value o) s) :
    ∃ b r, s = b :: r ∧ kind? b = some o.kind := by
  obtain ⟨j, hkind, hj⟩ := h.formed
  rw [← hkind]
  exact hj.kind?_head

theorem Fits.follows_items {os : List Outline} {r : List UInt8} (h : Fits (.items false os) r) (t : List UInt8) :
    Follows (r ++ Octet.closeList :: t) := by
  obtain ⟨js, hjs⟩ := h.formed
  exact hjs.follows_moreItems t

theorem Fits.follows_members {ms : List Member} {r : List UInt8} (h : Fits (.members false ms) r)
    (t : List UInt8) : Follows (r ++ Octet.closeObject :: t) := by
  obtain ⟨ms', hms⟩ := h.formed
  exact hms.follows_moreMembers t

end Outline

open Outline

namespace Scan

variable {α σ : Type} {t : List UInt8} {l : List LogLine} {v : View}

theorem unicodeEscape_append (digits r : List UInt8) :
    unicodeEscape digits ++ r = Octet.backslash :: Octet.ofChar 'u' :: (digits ++ r) := rfl

theorem comes_surrogateMark_other {expected b : UInt8} {s : List UInt8} (hb : b ≠ expected) :
    Comes (surrogateMark expected) ⟨b :: s, l⟩ (.error (.of (.grammar .unfinishedSurrogate))) ⟨s, l⟩ := by
  refine (gives_inString b).before ?_
  rw [if_neg hb]
  exact .fail _ _

/-- An escape that is half of a pair is refused, and nothing behind it can mend that. -/
theorem comes_escape_halved {fault : GrammarFault} {r : List UInt8} (h : Halved fault (Octet.backslash :: r)) :
    Comes escape ⟨r ++ t, l⟩ (.error (.of (.grammar fault))) v := by
  -- Every such escape goes on with `u` and the digits of a surrogate.
  have hpoint : ∀ {u : List UInt8}, Comes codePoint ⟨u, l⟩ (.error (.of (.grammar fault))) v →
      Comes escape ⟨Octet.ofChar 'u' :: u, l⟩ (.error (.of (.grammar fault))) v := by
    intro u hu
    refine (gives_inString _).before ?_
    rw [if_pos rfl]
    exact hu.bind_error
  generalize hall : Octet.backslash :: r = all at h
  cases h with
  | trailing hn htrailing =>
      rw [unicodeEscape_append] at hall
      obtain ⟨-, rfl⟩ := List.cons.inj hall
      rw [List.cons_append, List.append_assoc]
      refine hpoint ((gives_fourHex hn).before ?_)
      simp only [htrailing, if_true]
      exact .fail _ _
  | alone hn hleading hb =>
      rw [unicodeEscape_append] at hall
      obtain ⟨-, rfl⟩ := List.cons.inj hall
      rw [List.cons_append, List.append_assoc]
      refine hpoint ((gives_fourHex hn).before ?_)
      simp only [not_isTrailing_of_isLeading hleading, hleading, Bool.false_eq_true, if_false, if_true]
      exact (comes_surrogateMark_other hb).bind_error
  | letter hn hleading hb =>
      rw [unicodeEscape_append] at hall
      obtain ⟨-, rfl⟩ := List.cons.inj hall
      rw [List.cons_append, List.append_assoc]
      refine hpoint ((gives_fourHex hn).before ?_)
      simp only [not_isTrailing_of_isLeading hleading, hleading, Bool.false_eq_true, if_false, if_true]
      exact (gives_surrogateMark _).before (comes_surrogateMark_other hb).bind_error
  | unpaired hn hleading hn' htrailing =>
      rw [unicodeEscape_append] at hall
      obtain ⟨-, rfl⟩ := List.cons.inj hall
      rw [List.cons_append, List.append_assoc, List.append_assoc, unicodeEscape_append]
      refine hpoint ((gives_fourHex hn).before ?_)
      simp only [not_isTrailing_of_isLeading hleading, hleading, Bool.false_eq_true, if_false, if_true]
      refine (gives_surrogateMark _).before ((gives_surrogateMark _).before ((gives_fourHex hn').before ?_))
      simp only [htrailing, Bool.false_eq_true, if_false]
      exact .fail _ _

/-- The plain octets that were met since the last escape are still to be read with those that follow. -/
theorem comes_stringLoop_broken {fault : GrammarFault} {body : List UInt8} (h : Broken fault body)
    (run sofar : List UInt8) (hrun : ∀ b ∈ run, Octet.isPlain b = true) :
    Comes (loop sofar stringRound) ⟨run ++ (body ++ Octet.quote :: t), l⟩ (.error (.of (.grammar fault))) v := by
  induction h generalizing run sofar with
  | @here body h =>
      obtain ⟨r, hr⟩ := h.exists_cons
      have hsplit : body ++ Octet.quote :: t = Octet.backslash :: (r ++ t) := by
        rw [← List.singleton_append, ← List.append_assoc, hr, List.cons_append]
      rw [hsplit]
      rw [hr] at h
      refine Comes.loop_error ((Gives.takeWhile hrun ?_).before ((gives_inString _).before ?_))
      · intro b hb
        obtain rfl := Option.some.inj hb
        decide
      · rw [if_neg (by decide), if_pos rfl]
        exact (comes_escape_halved (v := v) h).bind_error
  | @plain b body hb _ ih =>
      have h := ih (run ++ [b]) sofar (List.forall_mem_append.2 ⟨hrun, List.forall_mem_singleton.2 hb⟩)
      simpa only [List.append_assoc, List.cons_append, List.nil_append] using h
  | @escape ch s body hs _ ih =>
      have hround := gives_stringRound_escape (l := l) hrun
        (gives_escape (t := body ++ Octet.quote :: t) (l := l) hs) sofar
      rw [List.cons_append, List.append_assoc]
      refine Comes.loop_next hround ?_ (ih [] _ (List.forall_mem_nil _))
      simp only [List.length_append, List.length_cons]
      omega

theorem comes_quoted {s : Except GrammarFault String} {body : List UInt8} (h : Holds s body) :
    Comes quoted ⟨inQuotes body ++ t, l⟩ (text s) ⟨t, l⟩ := by
  rw [inQuotes, List.cons_append, List.append_assoc, List.singleton_append]
  refine (Gives.skip _ _).before ?_
  cases h with
  | text h =>
      have hloop := gives_stringLoop (t := t) (l := l) (standsFor_of_spellsChars h) [] [] (List.forall_mem_nil _)
      exact hloop.before (gives_textOf _ _).comes
  | broken _ h => exact (comes_stringLoop_broken (v := ⟨t, l⟩) h [] [] (List.forall_mem_nil _)).bind_error
  | @octets body octets h hleft =>
      have hloop := gives_stringLoop (t := t) (l := l) h [] [] (List.forall_mem_nil _)
      rcases hdecode : Text.Utf8.decode octets with ⟨chars, left⟩
      cases left with
      | nil =>
          rw [hdecode] at hleft
          exact absurd rfl hleft
      | cons b left =>
          refine hloop.before ?_
          rw [textOf, List.reverse_nil, List.nil_append, List.nil_append, hdecode]
          exact .fail _ _

/-- Every text with the outline, after blanks and before what may follow it, comes to the judgement; up to a value the
lines are reported. -/
def Judges (p : Scan α) (o : Outline) (r : Except Failure α) (log : List LogLine) : Prop :=
  ∀ w s t l, Blanks w → Fits (.value o) s → Follows t → Comes p ⟨w ++ (s ++ t), l⟩ r ⟨t, l ++ log⟩

/-- A reader that begins at the bracket of a list. -/
def JudgesList (p : Scan α) (os : List Outline) (r : Except Failure α) (log : List LogLine) : Prop :=
  ∀ s t l, Fits (.items true os) s →
    Comes p ⟨Octet.openList :: (s ++ [Octet.closeList]) ++ t, l⟩ r ⟨t, l ++ log⟩

/-- A reader that begins at the brace of an object. -/
def JudgesObject (p : Scan α) (ms : List Member) (r : Except Failure α) (log : List LogLine) : Prop :=
  ∀ s t l, Fits (.members true ms) s →
    Comes p ⟨Octet.openObject :: (s ++ [Octet.closeObject]) ++ t, l⟩ r ⟨t, l ++ log⟩

/-- A reader that begins after the key of a member. -/
def JudgesMember (p : Scan α) (o : Outline) (r : Except Failure α) (log : List LogLine) : Prop :=
  ∀ w1 w2 s t l, Blanks w1 → Blanks w2 → Fits (.value o) s → Follows t →
    Comes p ⟨w1 ++ Octet.colon :: (w2 ++ (s ++ t)), l⟩ r ⟨t, l ++ log⟩

variable {o : Outline} {os : List Outline} {ms : List Member} {log : List LogLine}

theorem JudgesList.map {β : Type} {p : Scan α} {r : Except Failure α} (h : JudgesList p os r log) (f : α → β) :
    JudgesList (f <$> p) os (f <$> r) log :=
  fun s t l hs => (h s t l hs).map f

theorem JudgesObject.map {β : Type} {p : Scan α} {r : Except Failure α} (h : JudgesObject p ms r log)
    (f : α → β) : JudgesObject (f <$> p) ms (f <$> r) log :=
  fun s t l hs => (h s t l hs).map f

theorem gives_skipValue_outline {w s : List UInt8} (hw : Blanks w) (hs : Fits (.value o) s) (ht : Follows t) :
    Gives skipValue ⟨w ++ (s ++ t), l⟩ (.ok ()) ⟨t, l⟩ := by
  obtain ⟨j, -, hj⟩ := hs.formed
  exact gives_skipValue hw hj ht

/-- The colon, and then the value. -/
theorem Judges.judgesMember {value : Scan α} {r : Except Failure α} (h : Judges value o r log) (g : α → σ) :
    JudgesMember (do colon; let a ← value; pure (g a)) o (g <$> r) log :=
  fun _ w2 s t l hw1 hw2 hs ht => (gives_colon hw1).before ((h w2 s t l hw2 hs ht).map g)

/-- A value that is passed over, whatever it holds. -/
theorem judgesMember_skip (o : Outline) (s : σ) : JudgesMember (do colon; skipValue; pure s) o (.ok s) [] := by
  intro w1 w2 s' t l hw1 hw2 hs ht
  rw [List.append_nil]
  exact (gives_colon hw1).before ((gives_skipValue_outline hw2 hs ht).before (.pure s _))

theorem comes_itemLoop {item : Scan α} {f : Outline → Except Failure α} {line : Outline → List LogLine}
    (hitem : ∀ o ∈ os, Judges item o (f o) (line o)) (sofar : List α) {s : List UInt8}
    (hos : Fits (.items sofar.isEmpty os) s) :
    Comes (loop sofar (itemRound item)) ⟨s ++ Octet.closeList :: t, l⟩
      ((fun as => as.reverse ++ sofar) <$> os.mapM f) ⟨Octet.closeList :: t, l ++ os.flatMap line⟩ := by
  induction os generalizing sofar s l with
  | nil =>
      cases hos with
      | endItems _ hw =>
          rw [List.flatMap_nil, List.append_nil]
          exact (Gives.loop_last ((gives_hasItem_end _ hw).bind_ok (.pure (Sum.inr sofar) _))).comes
  | cons o os ih =>
      cases hos with
      | @items _ _ _ gap s r hgap ho hos =>
          obtain ⟨b, s', rfl, hb⟩ := ho.kind?_head
          have hhas : Gives (hasItem sofar.isEmpty) ⟨gap ++ b :: s' ++ (r ++ Octet.closeList :: t), l⟩ (.ok true)
              ⟨b :: s' ++ (r ++ Octet.closeList :: t), l⟩ := by
            rw [List.append_assoc]
            exact gives_hasItem hgap (not_isBlank_of_kind? hb)
              (ne_of_kind? (by decide : kind? Octet.closeList = none) hb)
          have hread := hitem o List.mem_cons_self [] _ _ l blanks_nil ho (hos.follows_items t)
          rw [List.nil_append] at hread
          rw [← List.append_assoc gap, List.append_assoc _ r, List.mapM_cons, List.flatMap_cons]
          cases hf : f o with
          | error e =>
              rw [hf] at hread
              exact Comes.loop_error (hhas.before hread.bind_error)
          | ok a =>
              rw [hf] at hread
              have hround : Gives (itemRound item sofar) ⟨gap ++ b :: s' ++ (r ++ Octet.closeList :: t), l⟩
                  (.ok (.inl (a :: sofar))) ⟨r ++ Octet.closeList :: t, l ++ line o⟩ :=
                hhas.bind_ok (hread.gives.bind_ok (.pure _ _))
              have hmore := ih (l := l ++ line o) (fun o ho => hitem o (List.mem_cons_of_mem _ ho)) (a :: sofar) hos
              have hresult : (fun as => as.reverse ++ sofar) <$> (do
                  let a ← (.ok a : Except Failure α)
                  let as ← os.mapM f
                  pure (a :: as)) = (fun as => as.reverse ++ a :: sofar) <$> os.mapM f := by
                rcases os.mapM f with e | as
                · rfl
                · show Except.ok ((a :: as).reverse ++ sofar) = Except.ok (as.reverse ++ a :: sofar)
                  rw [List.reverse_cons, List.append_assoc, List.singleton_append]
              rw [hresult, ← List.append_assoc l]
              refine Comes.loop_next hround ?_ hmore
              simp only [List.length_append, List.length_cons]
              omega

theorem comes_items {item : Scan α} {f : Outline → Except Failure α} {line : Outline → List LogLine}
    (hitem : ∀ o ∈ os, Judges item o (f o) (line o)) {s : List UInt8} (hos : Fits (.items true os) s) :
    Comes (items item) ⟨s ++ Octet.closeList :: t, l⟩ (os.mapM f) ⟨Octet.closeList :: t, l ++ os.flatMap line⟩ := by
  have hloop := comes_itemLoop (t := t) (l := l) hitem [] hos
  have hreverse : List.reverse <$> ((fun as => as.reverse ++ []) <$> os.mapM f) = os.mapM f := by
    rcases os.mapM f with e | as
    · rfl
    · show Except.ok (as.reverse ++ []).reverse = Except.ok as
      rw [List.append_nil, List.reverse_reverse]
  rw [items_eq, ← hreverse]
  exact hloop.map List.reverse

theorem comes_inList {inside : Scan α} {s : List UInt8} {r : Except Failure α} {l' : List LogLine}
    (hinside : Comes inside ⟨s ++ Octet.closeList :: t, l⟩ r ⟨Octet.closeList :: t, l'⟩) :
    Comes (inList inside) ⟨Octet.openList :: (s ++ [Octet.closeList]) ++ t, l⟩ r ⟨t, l'⟩ := by
  rw [List.cons_append, List.append_assoc, List.singleton_append]
  exact (Gives.skip _ _).before (hinside.enclosed gives_closeList)

/-- Items that are gathered in silence. -/
theorem judgesList_items {item : Scan α} {f : Outline → Except Failure α}
    (hitem : ∀ o ∈ os, Judges item o (f o) []) : JudgesList (inList (items item)) os (os.mapM f) [] := by
  intro s t l hs
  have hitems := comes_items (t := t) (l := l) hitem hs
  rw [List.flatMap_eq_nil_iff.2 fun _ _ => rfl] at hitems
  exact comes_inList hitems

theorem comes_memberLoop {member : σ → String → Scan σ} {g : σ → String → Outline → Except Failure σ}
    {line : String → List LogLine}
    (hmember : ∀ key o, (.ok key, o) ∈ ms → ∀ s, JudgesMember (member s key) o (g s key o) (line key))
    {first : Bool} {s : List UInt8} (hms : Fits (.members first ms) s) (state : σ) :
    Comes (loop (first, state) (memberRound member)) ⟨s ++ Octet.closeObject :: t, l⟩ (judgeMembers g state ms)
      ⟨Octet.closeObject :: t, l ++ logMembers line ms⟩ := by
  induction ms generalizing first state s l with
  | nil =>
      cases hms with
      | endMembers _ hw =>
          rw [logMembers, List.flatMap_nil, List.append_nil]
          exact (Gives.loop_last ((gives_hasMember_end _ hw).bind_ok (.pure (Sum.inr state) _))).comes
  | cons m ms ih =>
      cases hms with
      | @members _ key o _ gap body w1 w2 s r hgap hkey hw1 hw2 ho hms =>
          have hhas : Gives (hasMember first)
              ⟨gap ++ (inQuotes body ++ (w1 ++ Octet.colon :: (w2 ++ (s ++ (r ++ Octet.closeObject :: t))))), l⟩
              (.ok true)
              ⟨inQuotes body ++ (w1 ++ Octet.colon :: (w2 ++ (s ++ (r ++ Octet.closeObject :: t)))), l⟩ :=
            gives_hasMember_quote hgap
          have hquoted := comes_quoted (t := w1 ++ Octet.colon :: (w2 ++ (s ++ (r ++ Octet.closeObject :: t))))
            (l := l) hkey
          simp only [List.append_assoc, List.cons_append]
          rw [judgeMembers_cons]
          cases key with
          | error fault => exact Comes.loop_error (hhas.before hquoted.bind_error)
          | ok key =>
              have hread := hmember key o List.mem_cons_self state w1 w2 s _ l hw1 hw2 ho (hms.follows_members t)
              have hlog : logMembers line ((.ok key, o) :: ms) = line key ++ logMembers line ms := by
                rw [logMembers, List.flatMap_cons]
                rfl
              have hstep : (text (.ok key) >>= fun key => g state key o) = g state key o := rfl
              rw [hstep, hlog, ← List.append_assoc l]
              cases hg : g state key o with
              | error e =>
                  rw [hg] at hread
                  exact Comes.loop_error (hhas.before (hquoted.gives.before hread.bind_error))
              | ok state' =>
                  rw [hg] at hread
                  have hround : Gives (memberRound member (first, state)) _ (.ok (.inl (false, state')))
                      ⟨r ++ Octet.closeObject :: t, l ++ line key⟩ :=
                    hhas.bind_ok (hquoted.gives.bind_ok (hread.gives.bind_ok (.pure _ _)))
                  have hmore := ih (l := l ++ line key)
                    (fun key o ho => hmember key o (List.mem_cons_of_mem _ ho)) hms state'
                  refine Comes.loop_next hround ?_ hmore
                  simp only [List.length_append, List.length_cons]
                  omega

theorem comes_members {member : σ → String → Scan σ} {g : σ → String → Outline → Except Failure σ}
    (line : String → List LogLine)
    (hmember : ∀ key o, (.ok key, o) ∈ ms → ∀ s, JudgesMember (member s key) o (g s key o) (line key))
    {s : List UInt8} (hms : Fits (.members true ms) s) (init : σ) :
    Comes (members init member) ⟨s ++ Octet.closeObject :: t, l⟩ (judgeMembers g init ms)
      ⟨Octet.closeObject :: t, l ++ logMembers line ms⟩ :=
  comes_memberLoop hmember hms init

theorem logMembers_nil (ms : List Member) : logMembers (fun _ => []) ms = [] := by
  refine List.flatMap_eq_nil_iff.2 fun m _ => ?_
  cases (text m.1).toOption <;> rfl

theorem comes_inObject {inside : Scan α} {s : List UInt8} {r : Except Failure α} {l' : List LogLine}
    (hinside : Comes inside ⟨s ++ Octet.closeObject :: t, l⟩ r ⟨Octet.closeObject :: t, l'⟩) :
    Comes (inObject inside) ⟨Octet.openObject :: (s ++ [Octet.closeObject]) ++ t, l⟩ r ⟨t, l'⟩ := by
  rw [List.cons_append, List.append_assoc, List.singleton_append]
  exact (Gives.skip _ _).before (hinside.enclosed gives_closeObject)

/-- Members that are gathered in silence. -/
theorem judgesObject_members {member : σ → String → Scan σ} {g : σ → String → Outline → Except Failure σ}
    (hmember : ∀ key o, (.ok key, o) ∈ ms → ∀ s, JudgesMember (member s key) o (g s key o) []) (init : σ)
    (f : σ → α) :
    JudgesObject (inObject (do let s ← members init member; pure (f s))) ms (f <$> judgeMembers g init ms) [] := by
  intro s t l hs
  have hmembers := comes_members (t := t) (l := l) (fun _ => []) hmember hs init
  rw [logMembers_nil] at hmembers
  exact comes_inObject (hmembers.map f)

/-- A value of another kind is found as what it is, or cannot be read. What is then left does not matter. -/
theorem comes_mismatch {b : UInt8} {r : List UInt8} (ho : Fits (.value o) (b :: r)) (hb : kind? b = some o.kind)
    (ht : Follows t) (expected : String) :
    Comes (mismatch expected b : Scan α) ⟨b :: r ++ t, l⟩ (o.refused expected) v := by
  have hfound : ∃ v', Comes (otherKind b) ⟨b :: r ++ t, l⟩ o.found v' := by
    rw [otherKind, hb]
    generalize hs : b :: r = s at ho
    cases ho with
    | null => exact ⟨_, gives_nullWord.before (.pure _ _)⟩
    | bool x => exact ⟨_, (gives_boolWord x).before (.pure _ _)⟩
    | number x =>
        rw [← hs]
        exact ⟨_, (comes_number hs.symm (ht.ends _ _)).map _⟩
    | str h => exact ⟨_, (comes_quoted h).map _⟩
    | list _ => exact ⟨_, .pure _ _⟩
    | object _ => exact ⟨_, .pure _ _⟩
  obtain ⟨v', hfound⟩ := hfound
  exact hfound.bind fun _ _ => .fail _ _

/-- The first octet of a value, which is then still ahead. -/
theorem gives_valueStart_outline {w s : List UInt8} (hw : Blanks w) (ho : Fits (.value o) s) :
    ∃ b r, s = b :: r ∧ kind? b = some o.kind ∧ Gives valueStart ⟨w ++ (s ++ t), l⟩ (.ok b) ⟨s ++ t, l⟩ := by
  obtain ⟨b, r, rfl, hb⟩ := ho.kind?_head
  exact ⟨b, r, rfl, hb, gives_valueStart hw (not_isBlank_of_kind? hb)⟩

section Expected

variable {value : Scan α} {expected : String}

theorem judges_expectList {inside : List Outline → Except Failure α}
    (hlist : ∀ os, o = .list os → JudgesList value os (inside os) log) :
    Judges (expectList expected value) o (o.asList expected inside) log := by
  intro w s t l hw ho ht
  obtain ⟨b, r, rfl, hb, hstart⟩ := gives_valueStart_outline (t := t) (l := l) hw ho
  refine hstart.before ?_
  rw [hb]
  by_cases hkind : o.kind = .list
  · rw [if_pos (congrArg some hkind)]
    cases o with
    | list os =>
        generalize hs : b :: r = s at ho
        cases ho with
        | list hos => exact hlist os rfl _ t l hos
    | _ => cases hkind
  · rw [if_neg fun h => hkind (Option.some.inj h)]
    have hmismatch := comes_mismatch (α := α) (l := l) (v := ⟨t, l ++ log⟩) ho hb ht expected
    cases o with
    | list os => exact absurd rfl hkind
    | _ => exact hmismatch

theorem judges_expectObject {inside : List Member → Except Failure α}
    (hobject : ∀ ms, o = .object ms → JudgesObject value ms (inside ms) log) :
    Judges (expectObject expected value) o (o.asObject expected inside) log := by
  intro w s t l hw ho ht
  obtain ⟨b, r, rfl, hb, hstart⟩ := gives_valueStart_outline (t := t) (l := l) hw ho
  refine hstart.before ?_
  rw [hb]
  by_cases hkind : o.kind = .object
  · rw [if_pos (congrArg some hkind)]
    cases o with
    | object ms =>
        generalize hs : b :: r = s at ho
        cases ho with
        | object hms => exact hobject ms rfl _ t l hms
    | _ => cases hkind
  · rw [if_neg fun h => hkind (Option.some.inj h)]
    have hmismatch := comes_mismatch (α := α) (l := l) (v := ⟨t, l ++ log⟩) ho hb ht expected
    cases o with
    | object ms => exact absurd rfl hkind
    | _ => exact hmismatch

end Expected

theorem judges_treeWith {onList onObject : Scan Json} {f : List Outline → Except Failure Json}
    {g : List Member → Except Failure Json} (hlist : ∀ os, o = .list os → JudgesList onList os (f os) [])
    (hobject : ∀ ms, o = .object ms → JudgesObject onObject ms (g ms) []) :
    Judges (treeWith onList onObject) o (Outline.treeWith f g o) [] := by
  intro w s t l hw ho ht
  obtain ⟨b, r, hs, hb, hstart⟩ := gives_valueStart_outline (t := t) (l := l) hw ho
  refine hstart.before ?_
  rw [hb]
  cases ho with
  | null =>
      rw [List.append_nil]
      exact gives_nullWord.before (.pure _ _)
  | bool x =>
      rw [List.append_nil]
      exact (gives_boolWord x).before (.pure _ _)
  | number x =>
      rw [List.append_nil, hs]
      exact (comes_number hs (ht.ends _ _)).map Json.number
  | str h =>
      rw [List.append_nil]
      exact (comes_quoted h).map Json.str
  | list hos => exact hlist _ rfl _ t l hos
  | object hms => exact hobject _ rfl _ t l hms

theorem judgesList_tooDeep (os : List Outline) : JudgesList (tooDeep : Scan α) os Outline.tooDeep [] :=
  fun _ _ _ _ => .fail _ _

theorem judgesObject_tooDeep (ms : List Member) : JudgesObject (tooDeep : Scan α) ms Outline.tooDeep [] :=
  fun _ _ _ _ => .fail _ _

theorem judges_tree (room : Nat) (o : Outline) : Judges (tree room) o (o.tree room) [] := by
  induction room generalizing o with
  | zero => exact judges_treeWith (fun os _ => judgesList_tooDeep os) fun ms _ => judgesObject_tooDeep ms
  | succ room ih =>
      refine judges_treeWith (fun os _ => ?_) fun ms _ => ?_
      · exact (judgesList_items fun o _ => ih o).map Json.list
      · have hmember : ∀ key o, (.ok key, o) ∈ ms → ∀ sofar, JudgesMember (treeMember (tree room) sofar key) o
            (Outline.treeMember (Outline.tree room) sofar key o) [] :=
          fun key o _ sofar => (ih o).judgesMember fun j => (key, j) :: sofar
        exact (judgesObject_members hmember [] List.reverse).map Json.object

theorem comes_document {p : Scan α} {r : Except Failure α} (h : Judges p o r log) {octets : List UInt8}
    (hspelled : o.SpelledBy octets) : Comes (document p) ⟨octets, []⟩ r ⟨[], log⟩ := by
  obtain ⟨w, s, w', hw, ho, hw', rfl⟩ := hspelled
  have hfollows : Follows w' := by
    have h := follows_blanks hw' follows_nil
    rwa [List.append_nil] at h
  have hend : Gives endOfDocument ⟨w', [] ++ log⟩ (.ok ()) ⟨[], log⟩ :=
    (gives_peekPastBlanks_nil hw').bind_ok (.pure _ _)
  have hread := h w s w' [] hw ho hfollows
  cases r with
  | ok a => exact hread.gives.before (hend.before (.pure a _))
  | error e => exact hread.bind_error

end Scan

end BlockModel
