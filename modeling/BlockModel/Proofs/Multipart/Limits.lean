import BlockModel.Proofs.Multipart.Regular
import BlockModel.Proofs.Scan.Lockstep

/-! Raising the limit on the levels of conditions. Two readers with different limits are in lockstep up to the
refusal of a condition object past the lower limit; that refusal is all that the limit decides. -/

namespace BlockModel

open Scan

variable {limit : Nat}

/-- The cause for which a condition object past the limit is refused. -/
def Limits.exceeded (limit : Nat) : Cause := .data (.conditionTooDeep limit)

namespace Multipart

variable {α : Type} [Payload α]

theorem lockstep_scan {limits limits' : Limits} (hle : limits.conditionDepth ≤ limits'.conditionDepth)
    (room : Nat) :
    Lockstep (Limits.exceeded limits.conditionDepth) (scan limits room : Scan (Multipart α)) (scan limits' room) := by
  have hreads : Reads (.ofCases fun _ => True) _ (.value false) _ (scan limits room : Scan (Multipart α))
      (scan limits' room) := reads_scan trivial (fun _ => trivial) hle room
  exact hreads.lockstep

/-- A refusal past the limit is the structure's fault, in words that give the limit. -/
theorem ofFailure_exceeded {e : Failure} (hcause : e.cause = Limits.exceeded limit) (hpayload : e.inPayload = false) :
    Fault.ofFailure e =
      .malformed ("conditions nested deeper than " ++ toString limit ++ " levels") e.position := by
  have hsource : ∀ reason, e.cause ≠ .source reason := by
    intro reason h
    cases hcause.symm.trans h
  rw [Fault.ofFailure_eq hsource, hpayload, Bool.false_and, if_neg Bool.false_ne_true, hcause]
  rfl

/-- With a greater depth asked for, the same comes of a source of octets: the same multipart, or the same fault at
the same place. Otherwise the fault for the smaller depth is that conditions nest deeper than its limit. -/
theorem parse_deeper {requested requested' : Nat} (hle : requested ≤ requested') (supply : Supply)
    (octets : List UInt8) :
    (parse (.ofConditionDepth requested) supply octets : Except Fault (Multipart α)) =
        parse (.ofConditionDepth requested') supply octets ∨
      ∃ position, (parse (.ofConditionDepth requested) supply octets : Except Fault (Multipart α)) =
        .error (.malformed ("conditions nested deeper than " ++ toString (max requested 32) ++ " levels")
          position) := by
  have hlimits : (Limits.ofConditionDepth requested).conditionDepth ≤
      (Limits.ofConditionDepth requested').conditionDepth :=
    Nat.max_le.2 ⟨Nat.le_trans hle (Nat.le_max_left _ _), Nat.le_max_right _ _⟩
  have hlockstep : Lockstep _ (document (scan (α := α) (.ofConditionDepth requested) greatestNesting))
      (document (scan (.ofConditionDepth requested') greatestNesting)) :=
    (lockstep_scan hlimits greatestNesting).before _
  rcases hlockstep supply (.ofOctets octets) with hsame | ⟨e, c, hrun, hcause, hpayload⟩
  · refine .inl ?_
    rw [parse, parse, read, read, runOn, runOn, hsame]
  · refine .inr ⟨e.position, ?_⟩
    rw [parse, read, runOn, hrun]
    exact congrArg Except.error (ofFailure_exceeded hcause hpayload)

/-- The text of a case whose condition opens that many objects, one in a list under `OR` of the other. -/
def openedConditions (count : Nat) : List UInt8 :=
  Text.Utf8.encode "[\x7b\"when\":".toList ++
    (List.replicate count (Text.Utf8.encode "\x7b\"OR\":[".toList)).flatten

/-- One level more than the least limit: with the greater depth it is the end of the text that is at fault. -/
theorem parse_deeper_openedConditions :
    0 ≤ 33 ∧
      Fault.words? (parse (α := VariantPool) (.ofConditionDepth 33) .document (openedConditions 33)) =
        some "EOF while parsing a list" ∧
      ∃ position, (parse (.ofConditionDepth 0) .document (openedConditions 33) :
        Except Fault (Multipart VariantPool)) =
          .error (.malformed ("conditions nested deeper than " ++ toString (max 0 32) ++ " levels") position) := by
  have hgreater : Fault.words? (parse (α := VariantPool) (.ofConditionDepth 33) .document (openedConditions 33)) =
      some "EOF while parsing a list" := by decide +kernel
  have hsmaller : Fault.words? (parse (α := VariantPool) (.ofConditionDepth 0) .document (openedConditions 33)) ≠
      some "EOF while parsing a list" := by decide +kernel
  refine ⟨by decide, hgreater, ?_⟩
  rcases parse_deeper (α := VariantPool) (by decide : 0 ≤ 33) .document (openedConditions 33) with hsame | hfault
  · rw [hsame] at hsmaller
    exact absurd hgreater hsmaller
  · exact hfault

end Multipart

end BlockModel
