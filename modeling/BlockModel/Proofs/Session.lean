import BlockModel.Session

/-! What a session keeps. A command that fails leaves the session as it was, so a run comes to the same as the run
without the commands that failed, and every other reply is the same too. A copy that is put aside stays until the next
one is, whatever is edited meanwhile, and no run brings the limit on conditions below the least one. -/

namespace BlockModel

/-- The reply tells that a document could not be read. -/
def Reply.isFailed : Reply → Bool
  | .fault _ | .failure _ => true
  | _ => false

namespace Session

variable {s : Session} {c : Command} {cs : List Command}

/-- What a command does to a session: it has another definition, or only a reply comes of it; or else the command is
one of those that change another part, and it does not fail. -/
inductive Effect (s : Session) : Command → Session × Reply → Prop where
  | edited {c : Command} (d : Definition) : Effect s c (s.withDefinition d)
  | answered {c : Command} (reply : Reply) : Effect s c (s, reply)
  | saved : Effect s .save ({ s with saved := s.definition }, .nothing)
  | limited (requested : Nat) :
      Effect s (.depth requested)
        ({ s with limits := .ofConditionDepth requested }, .limit (max requested leastConditionDepth))
  | moved {c : Command} (block : Block) (position : BlockPosition) {reply : Reply} (hreply : reply.isFailed = false) :
      Effect s c ({ s with block, position }, reply)

theorem effect_step (s : Session) (c : Command) : Effect s c (s.step c) := by
  cases c with
  | load octets =>
      rw [step]
      cases Definition.load octets with
      | ok d => exact .edited d
      | error f => exact .answered (.fault f)
  | variants octets? =>
      cases octets? with
      | none => exact .edited _
      | some octets =>
          rw [step]
          cases VariantTable.read octets with
          | ok t => exact .edited _
          | error f => exact .answered (.failure f)
  | multipart octets? =>
      cases octets? with
      | none => exact .edited _
      | some octets =>
          rw [step]
          cases (Multipart.parse s.limits .document octets : Except Fault (Multipart VariantPool)) with
          | ok m => exact .edited _
          | error f => exact .answered (.fault f)
  | push condition octets =>
      rw [step]
      cases VariantPool.read octets with
      | ok pool => exact .edited _
      | error f => exact .answered (.failure f)
  | clear | emptyMultipart | restore => exact .edited _
  | save => exact .saved
  | depth requested => exact .limited requested
  | block name => exact .moved (.plain name) s.position rfl
  | set key value => exact .moved (s.block.set key value) s.position rfl
  | moveTo position => exact .moved s.block position rfl
  | same | get key | resolve | models | find | matching | dump => exact .answered _

/-- A command whose document cannot be read changes nothing. -/
theorem step_of_isFailed (h : (s.step c).2.isFailed = true) : (s.step c).1 = s := by
  have heffect := effect_step s c
  generalize s.step c = result at h heffect
  cases heffect with
  | answered reply => rfl
  | moved block position hreply => exact absurd (hreply.symm.trans h) Bool.false_ne_true
  | edited d | saved | limited requested => cases h

/-- A copy stays as it was put aside until another one is. -/
theorem step_saved (h : c ≠ .save) : (s.step c).1.saved = s.saved := by
  have heffect := effect_step s c
  generalize s.step c = result at heffect
  cases heffect with
  | saved => exact absurd rfl h
  | edited d | answered reply | limited requested | moved block position hreply => rfl

theorem le_step_conditionDepth (h : leastConditionDepth ≤ s.limits.conditionDepth) :
    leastConditionDepth ≤ (s.step c).1.limits.conditionDepth := by
  have heffect := effect_step s c
  generalize s.step c = result at heffect
  cases heffect with
  | limited requested => exact Nat.le_max_right requested leastConditionDepth
  | edited d | answered reply | saved | moved block position hreply => exact h

/-- The session that a list of commands leaves. -/
def after (s : Session) : List Command → Session
  | [] => s
  | c :: rest => (s.step c).1.after rest

/-- The commands of a list that do not fail, each given to the session that the ones before it left. -/
def kept (s : Session) : List Command → List Command
  | [] => []
  | c :: rest => if (s.step c).2.isFailed then s.kept rest else c :: (s.step c).1.kept rest

theorem after_cons (s : Session) (c : Command) (rest : List Command) :
    s.after (c :: rest) = (s.step c).1.after rest := rfl

theorem replies_cons (s : Session) (c : Command) (rest : List Command) :
    s.replies (c :: rest) = (s.step c).2 :: (s.step c).1.replies rest := rfl

theorem after_append (s : Session) (cs ds : List Command) : s.after (cs ++ ds) = (s.after cs).after ds := by
  induction cs generalizing s with
  | nil => rfl
  | cons c rest ih => exact ih (s.step c).1

/-- The commands that fail can be left out: the same session comes of the others. -/
theorem after_kept (s : Session) (cs : List Command) : s.after (s.kept cs) = s.after cs := by
  induction cs generalizing s with
  | nil => rfl
  | cons c rest ih =>
      rw [kept, after_cons]
      split
      case isTrue hfailed => rw [ih, step_of_isFailed hfailed]
      case isFalse => rw [after_cons, ih]

/-- Without the commands that fail, the replies are those that do not tell of a failure. -/
theorem replies_kept (s : Session) (cs : List Command) :
    s.replies (s.kept cs) = (s.replies cs).filter fun reply => !reply.isFailed := by
  induction cs generalizing s with
  | nil => rfl
  | cons c rest ih =>
      rw [kept, replies_cons s c rest]
      split
      case isTrue hfailed => rw [ih, List.filter_cons_of_neg (by simp [hfailed]), step_of_isFailed hfailed]
      case isFalse hfailed => rw [replies_cons, ih, List.filter_cons_of_pos (by simp [hfailed])]

/-- What holds at the start of a run, and every step of it preserves, holds at its end. -/
theorem after_induction {P : Session → Prop} (hstart : P s) (hstep : ∀ s, ∀ c ∈ cs, P s → P (s.step c).1) :
    P (s.after cs) := by
  induction cs generalizing s with
  | nil => exact hstart
  | cons c rest ih =>
      have hfirst : P (s.step c).1 := hstep s c List.mem_cons_self hstart
      exact ih hfirst fun s d hd => hstep s d (List.mem_cons_of_mem c hd)

/-- To go back to a copy undoes all that was edited after it was put aside. -/
theorem after_restore (s : Session) (h : .save ∉ cs) :
    (s.after (.save :: (cs ++ [.restore]))).definition = s.definition := by
  have hsaved : ((s.step .save).1.after cs).saved = s.definition := by
    refine after_induction (P := fun t => t.saved = s.definition) rfl fun t c hc ht => ?_
    have hother : c ≠ .save := fun heq => h (heq ▸ hc)
    rw [step_saved hother, ht]
  rw [after_cons, after_append]
  exact hsaved

/-- No run from the start brings the limit on conditions below the least one. -/
theorem le_after_conditionDepth (cs : List Command) :
    leastConditionDepth ≤ (initial.after cs).limits.conditionDepth :=
  after_induction (P := fun s => leastConditionDepth ≤ s.limits.conditionDepth) (Nat.le_refl leastConditionDepth)
    fun _ _ _ h => le_step_conditionDepth h

end Session

end BlockModel
