import BlockModel.Proofs.Multipart.Within
import BlockModel.Proofs.Scan.Columns

/-! Conditions, payloads and multiparts count columns. What they refuse for its shape is refused behind a value without
parts, or it is placed behind an opening bracket or brace; so a multipart is at fault in front of the first octet of a
line only where a line begins there, or where a brace opens the text. -/

namespace BlockModel

open Scan

theorem PayloadKind.fitting_scan (kind : PayloadKind) (room : Nat) :
    Fitting Cursor.Anywhere (Payload.scan room : Scan kind.Value) :=
  (kind.reads room).fitting fun _ => False.elim

namespace Multipart

variable {α : Type} [Payload α] (hpayload : ∀ room, Fitting Cursor.Anywhere (Payload.scan room : Scan α))
include hpayload

theorem fitting_scan (limits : Limits) (room : Nat) :
    Fitting Cursor.Anywhere (scan limits room : Scan (Multipart α)) :=
  (reads (Fitting Cursor.Anywhere) hpayload limits room).fitting fun _ => id

theorem enters_scan (limits : Limits) (room : Nat) :
    Enters Octet.openList (scan limits (room + 1) : Scan (Multipart α)) := by
  have hcases := reads_cases (m := .ofCases (Fitting Cursor.Anywhere)) trivial hpayload
    (Nat.le_refl limits.conditionDepth) room
  exact .expectList _ (.inList (hcases.fitting fun _ => id))

end Multipart

/-- A failure of the cause is placed at the offset with a line feed in front of it, or at the start of an empty text:
the text ended there, the line feed itself is the octet that is refused, or a shape is refused behind it. -/
inductive BeforeLine (octets : List UInt8) : Cause → Nat → Prop where
  | ended {fault : GrammarFault} (hfault : fault.isOfEnd = true) (hlast : ∀ b ∈ octets.getLast?, b = 0x0A) :
      BeforeLine octets (.grammar fault) octets.length
  | refused {fault : GrammarFault} {k : Nat} (hfault : fault.isOfOctet = true) (h : octets[k]? = some 0x0A) :
      BeforeLine octets (.grammar fault) (k + 1)
  | shape {fault : DataFault} {k : Nat} (hfault : fault.isOfLeaf = false) (h : octets[k]? = some 0x0A) :
      BeforeLine octets (.data fault) (k + 1)

section

variable {octets : List UInt8} {cause : Cause} {c d : Cursor} {e : Failure} {p : Position} {i : Nat}

theorem BeforeLine.column_eq_zero (h : BeforeLine octets cause i) (hisAt : p.IsAt octets i) : p.column = 0 := by
  refine hisAt.column_eq_zero_iff.2 ?_
  cases h with
  | ended hfault hlast =>
      cases hoctets : octets with
      | nil => exact .inl rfl
      | cons b r =>
          have hne : octets ≠ [] := hoctets ▸ List.cons_ne_nil b r
          have hlineFeed := hlast _ (List.getLast?_eq_some_getLast hne)
          rw [← hoctets, ← List.getLast?_eq_getElem?, List.getLast?_eq_some_getLast hne, hlineFeed]
          exact .inr rfl
  | refused hfault hk => exact .inr hk
  | shape hfault hk => exact .inr hk

theorem opener?_eq_some {found : Found} {b : UInt8} (h : found.opener? = some b) :
    b = Octet.openList ∨ b = Octet.openObject := by
  cases found with
  | list => exact .inl (Option.some.inj h).symm
  | object => exact .inr (Option.some.inj h).symm
  | _ => cases h

/-- Where no column is counted behind something that was taken, a line feed was taken last. -/
theorem getElem?_of_column_eq_zero (hreach : (Cursor.ofOctets octets).Reaches d) (hcolumn : d.position.column = 0)
    (hbegun : d.Begun) : ∃ k, d.offset = k + 1 ∧ octets[k]? = some 0x0A := by
  obtain ⟨k, hk⟩ := Nat.exists_eq_add_of_lt hbegun
  rw [Nat.zero_add] at hk
  rcases (denotes_position hreach).isAt.column_eq_zero_iff.1 hcolumn with hzero | hlineFeed
  · exact absurd hzero (Nat.ne_of_gt hbegun)
  · rw [hk, Nat.add_sub_cancel] at hlineFeed
    exact ⟨k, hk, hlineFeed⟩

/-- In front of an octet that the text does not begin with, something was taken. -/
theorem begun_of_head {b : UInt8} (hreach : (Cursor.ofOctets octets).Reaches d) (hhead : d.rest.head? = some b)
    (hfirst : octets.head? ≠ some b) : d.Begun := by
  refine Nat.pos_of_ne_zero fun hzero => hfirst ?_
  obtain ⟨taken, hrest, hoffset, -⟩ := hreach
  have htaken : taken.length = 0 := (Nat.zero_add _).symm.trans (hoffset.symm.trans hzero)
  rw [List.length_eq_zero_iff.1 htaken] at hrest
  exact (congrArg List.head? hrest).trans hhead

theorem offset_eq_length (hreach : (Cursor.ofOctets octets).Reaches d) (hspent : d.Spent) :
    d.offset = octets.length := by
  have hlength := hreach.offset_add_length
  rw [hspent] at hlength
  simpa [Cursor.ofOctets] using hlength

/-- Unless it names the opening of the text, a cause that fits a place without a column tells that a line begins. -/
theorem Cause.Fits.beforeLine (h : cause.Fits d) (hreach : (Cursor.ofOctets octets).Reaches d)
    (hcolumn : d.position.column = 0)
    (hopening : d.Begun ∨ ∀ b, octets.head? = some b → b ≠ Octet.openList ∧ b ≠ Octet.openObject) :
    BeforeLine octets cause d.offset := by
  cases h with
  | onLine hline => exact absurd hcolumn (Nat.ne_of_gt hline)
  | atEnd hfault hspent =>
      have hoffset := offset_eq_length hreach hspent
      rw [hoffset]
      refine .ended hfault fun b hb => ?_
      rw [Option.mem_def, List.getLast?_eq_getElem?] at hb
      rcases (denotes_position hreach).isAt.column_eq_zero_iff.1 hcolumn with hzero | hlineFeed
      · rw [List.length_eq_zero_iff.1 (hoffset.symm.trans hzero)] at hb
        cases hb
      · rw [hoffset, hb] at hlineFeed
        exact Option.some.inj hlineFeed
  | octet hfault hbegun =>
      obtain ⟨k, hk, hlineFeed⟩ := getElem?_of_column_eq_zero hreach hcolumn hbegun
      exact hk ▸ .refused hfault hlineFeed
  | shape hfault hbegun =>
      obtain ⟨k, hk, hlineFeed⟩ := getElem?_of_column_eq_zero hreach hcolumn hbegun
      exact hk ▸ .shape hfault hlineFeed
  | @opening found b expected hfound hhead =>
      have hbegun : d.Begun := by
        refine hopening.elim id fun hother => begun_of_head hreach hhead fun hfirst => ?_
        exact (opener?_eq_some hfound).elim (hother b hfirst).1 (hother b hfirst).2
      obtain ⟨k, hk, hlineFeed⟩ := getElem?_of_column_eq_zero hreach hcolumn hbegun
      have hleaf : (DataFault.wrongType found expected).isOfLeaf = false := by
        rw [DataFault.isOfLeaf, hfound]
        rfl
      exact hk ▸ .shape hleaf hlineFeed

theorem Scan.FitsFrom.beforeLine (h : FitsFrom c e) (hreach : (Cursor.ofOctets octets).Reaches c)
    (hopening : c.Begun ∨ ∀ b, octets.head? = some b → b ≠ Octet.openList ∧ b ≠ Octet.openObject)
    (hposition : e.position = some p) (hdenotes : p.Denotes octets i) (hcolumn : p.column = 0) :
    BeforeLine octets e.cause i := by
  obtain ⟨d, hd, rfl, hfits⟩ := h.placed p hposition
  have hreach := hreach.trans hd
  obtain rfl := hdenotes.unique (denotes_position hreach)
  exact hfits.beforeLine hreach hcolumn (hopening.imp_left fun hbegun => hbegun.later hd)

/-- A plan that fits, and enters what the text opens with, is at fault without a column only where a line begins. -/
theorem Scan.Fitting.beforeLine {α : Type} {value : Scan α} (hfitting : Fitting Cursor.Anywhere value)
    (henters : ∀ b, octets.head? = some b → b = Octet.openList ∨ b = Octet.openObject → Enters b value)
    (hempty : octets = [] → e.cause = .grammar (.ended .value)) (hrun : value.runOn .document octets = (.error e, c))
    (hposition : e.position = some p) (hdenotes : p.Denotes octets i) (hcolumn : p.column = 0) :
    BeforeLine octets e.cause i := by
  cases octets with
  | nil =>
      have hended : BeforeLine [] (.grammar (.ended .value)) 0 :=
        .ended rfl fun b hb => absurd hb (Option.not_mem_none b)
      obtain rfl := Nat.le_zero.1 hdenotes.1
      exact hempty rfl ▸ hended
  | cons b r =>
      have htext : (Cursor.ofOctets (b :: r)).HasText := by simp [Cursor.HasText, Cursor.ofOctets]
      by_cases hopens : b = Octet.openList ∨ b = Octet.openObject
      · -- the opening is passed first, so nothing is placed at offset zero
        have hbefore : (Cursor.ofOctets (b :: r)).Before b := by
          refine ⟨rfl, ?_⟩
          rcases hopens with rfl | rfl <;> decide
        obtain ⟨d, q, hreach, hbegun, hq, hsame⟩ := henters b rfl hopens _ hbefore
        have hfits := hq d e c (htext.later hreach) hbegun (hsame.symm.trans hrun)
        exact hfits.beforeLine hreach (.inl hbegun) hposition hdenotes hcolumn
      · have hfits := hfitting _ e c htext trivial hrun
        refine hfits.beforeLine (.refl _) (.inr fun b' hb' => ?_) hposition hdenotes hcolumn
        obtain rfl := Option.some.inj hb'
        exact not_or.1 hopens

end

namespace Multipart

/-- A brace is refused before it is entered. -/
theorem read_openObject {α : Type} [Payload α] (limits : Limits) (r : List UInt8) :
    (read limits .document (Octet.openObject :: r) : Outcome (Multipart α)).1 =
      .error ⟨.data (.wrongType .object expectedList), some ⟨1, 0⟩, false⟩ := rfl

theorem read_nil {α : Type} [Payload α] (limits : Limits) :
    (read limits .document [] : Outcome (Multipart α)).1 = .error ⟨.grammar (.ended .value), some ⟨1, 0⟩, false⟩ := rfl

variable {limits : Limits} {octets : List UInt8} {e : Failure} {p : Position} {i : Nat}

theorem column_eq_zero_iff (kind : PayloadKind)
    (h : (read limits .document octets : Outcome (Multipart kind.Value)).1 = .error e) (hposition : e.position = some p)
    (hdenotes : p.Denotes octets i) :
    p.column = 0 ↔ octets.head? = some Octet.openObject ∨ BeforeLine octets e.cause i := by
  refine ⟨fun hcolumn => ?_, ?_⟩
  · by_cases hobject : octets.head? = some Octet.openObject
    · exact .inl hobject
    · refine .inr (Fitting.beforeLine (.document (fitting_scan kind.fitting_scan limits greatestNesting))
        (fun b hb hopens => ?_) (fun hoctets => ?_) (Prod.ext h rfl) hposition hdenotes hcolumn)
      · rcases hopens with rfl | rfl
        · exact (enters_scan kind.fitting_scan limits _).document
        · exact absurd hb hobject
      · rw [hoctets, read_nil] at h
        exact congrArg Failure.cause (Except.error.inj h).symm
  · rintro (hobject | hline)
    · obtain ⟨r, rfl⟩ := List.head?_eq_some_iff.1 hobject
      rw [read_openObject] at h
      cases h
      exact congrArg Position.column (Option.some.inj hposition).symm
    · exact hline.column_eq_zero hdenotes.isAt

end Multipart

end BlockModel
