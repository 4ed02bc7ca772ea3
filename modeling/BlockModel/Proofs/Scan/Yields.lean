import BlockModel.Proofs.Scan.Container
import BlockModel.Proofs.Scan.Reads
import BlockModel.Proofs.Scan.Taken

/-! What the values that a plan ends with have in common. A property of them is carried through the plan part by
part: from the items to their list, from the state of a loop to the next one. It holds for every source of
octets, since only values are spoken of and not the octets that they were read from. -/

namespace BlockModel.Scan

variable {α β σ : Type} {P : α → Prop} {Q : β → Prop}

/-- Every value that the plan ends with has the property. -/
def Yields (P : α → Prop) (p : Scan α) : Prop :=
  ∀ supply c a c', p.run supply c = (.ok a, c') → P a

namespace Yields

theorem mono {p : Scan α} {P' : α → Prop} (h : Yields P p) (hP : ∀ a, P a → P' a) : Yields P' p :=
  fun _ _ _ _ hrun => hP _ (h _ _ _ _ hrun)

theorem anything (p : Scan α) : Yields (fun _ => True) p := fun _ _ _ _ _ => trivial

theorem pure {a : α} (h : P a) : Yields P (Pure.pure a) := by
  intro supply c a' c' hrun
  obtain ⟨rfl, -⟩ := ok_pure hrun
  exact h

theorem refuse (place : Place) (fault : GrammarFault) : Yields P (Scan.refuse place fault) :=
  fun _ _ _ _ h => absurd h not_ok_refuse

theorem refuseData (place : Place) (fault : DataFault) : Yields P (Scan.refuseData place fault) :=
  fun _ _ _ _ h => absurd h not_ok_refuseData

theorem bind {p : Scan β} {k : β → Scan α} (hp : Yields Q p) (hk : ∀ b, Q b → Yields P (k b)) :
    Yields P (p >>= k) := by
  intro supply c a c' hrun
  obtain ⟨b, d, hfirst, hmore⟩ := ok_bind hrun
  exact hk b (hp _ _ _ _ hfirst) _ _ _ _ hmore

/-- What comes of the first part does not matter. -/
theorem after {p : Scan β} {k : β → Scan α} (hk : ∀ b, Yields P (k b)) : Yields P (p >>= k) :=
  .bind (.anything p) fun b _ => hk b

theorem map {p : Scan β} {f : β → α} (hp : Yields Q p) (hf : ∀ b, Q b → P (f b)) : Yields P (f <$> p) :=
  .bind hp fun b hb => .pure (hf b hb)

theorem ite {condition : Prop} [Decidable condition] {p q : Scan α} (hp : Yields P p) (hq : Yields P q) :
    Yields P (if condition then p else q) := by
  split
  · exact hp
  · exact hq

theorem enclosed {inside : Scan α} (h : Yields P inside) (close : Scan Unit) :
    Yields P (Scan.enclosed inside close) := by
  intro supply c a c' hrun
  obtain ⟨d, hinside, -⟩ := ok_enclosed hrun
  exact h _ _ _ _ hinside

/-- A loop whose rounds keep an invariant, and end with the property where it holds. -/
theorem loop {I : σ → Prop} {round : σ → Scan (σ ⊕ α)} {init : σ}
    (hround : ∀ s, I s → Yields (Sum.elim I P) (round s)) (hinit : I init) : Yields P (Scan.loop init round) := by
  intro supply c a c' hrun
  revert hinit
  refine ok_loop (P := fun s _ a _ => I s → P a) ?_ ?_ hrun
  · exact fun s c a c' hlast hs => hround s hs _ _ _ _ hlast
  · exact fun s c s' d a c' hnext hmore hs => hmore (hround s hs _ _ _ _ hnext)

theorem inList {inside : Scan α} (h : Yields P inside) : Yields P (Scan.inList inside) :=
  .after fun _ => .enclosed h _

theorem inPlaces {inside : Scan α} (h : Yields P inside) : Yields P (Scan.inPlaces inside) :=
  .after fun _ => .enclosed h _

theorem inObject {inside : Scan α} (h : Yields P inside) : Yields P (Scan.inObject inside) :=
  .after fun _ => .enclosed h _

theorem tooDeep : Yields P (Scan.tooDeep : Scan α) := .refuse _ _

/-- What all items have, those of the list have. -/
theorem items {item : Scan α} (h : Yields P item) : Yields (fun as => ∀ a ∈ as, P a) (Scan.items item) := by
  refine .map (Q := fun as => ∀ a ∈ as, P a) (.loop (I := fun as => ∀ a ∈ as, P a) ?_ (List.forall_mem_nil _)) ?_
  · refine fun sofar hsofar => .after fun has => .ite (.bind h fun a ha => .pure ?_) (.pure hsofar)
    exact List.forall_mem_cons.2 ⟨ha, hsofar⟩
  · exact fun as has a ha => has a (List.mem_reverse.1 ha)

theorem place? {item : Scan α} (h : Yields P item) (first : Bool) :
    Yields (fun a? => ∀ a ∈ a?, P a) (Scan.place? first item) := by
  refine .after fun has => .ite (.bind h fun a ha => .pure ?_) (.pure ?_)
  · exact fun b hb => Option.some.inj hb ▸ ha
  · exact fun b hb => absurd hb (Option.not_mem_none b)

/-- A state that every member keeps sound is sound behind the last one. -/
theorem members {I : σ → Prop} {member : σ → String → Scan σ} (hmember : ∀ s key, I s → Yields I (member s key))
    {init : σ} (hinit : I init) : Yields I (Scan.members init member) := by
  have hround : ∀ state : Bool × σ, I state.2 →
      Yields (Sum.elim (fun state => I state.2) I) (memberRound member state) := fun state hstate =>
    .after fun has => .ite (.after fun key => .bind (hmember state.2 key hstate) fun s hs => .pure hs) (.pure hstate)
  exact .loop hround hinit

theorem mismatch (expected : String) (b : UInt8) : Yields P (Scan.mismatch expected b : Scan α) :=
  .after fun _ => .refuseData _ _

theorem optional {value : Scan α} (h : Yields P value) : Yields (fun a? => ∀ a ∈ a?, P a) (Scan.optional value) := by
  refine .after fun b? => .ite (.after fun _ => .pure ?_) (.map h fun a ha => ?_)
  · exact fun b hb => absurd hb (Option.not_mem_none b)
  · exact fun b hb => Option.some.inj hb ▸ ha

theorem document {value : Scan α} (h : Yields P value) : Yields P (Scan.document value) :=
  .bind h fun _ ha => .after fun _ => .pure ha

/-- What the plan gives where it is carried out. -/
theorem runOn {p : Scan α} (h : Yields P p) {supply : Supply} {octets : List UInt8} {a : α}
    (hrun : (p.runOn supply octets).1 = .ok a) : P a := by
  rcases hresult : p.runOn supply octets with ⟨r, c⟩
  rw [hresult] at hrun
  obtain rfl : r = .ok a := hrun
  exact h _ _ _ _ hresult

end Yields

theorem Reads.yields {m : Means} {limit : Nat} {part : Part} {p q : Scan α} (h : Reads m limit part P p q) :
    Yields P p := by
  induction h with
  | pure _ h | lastPlace _ h => exact .pure h
  | refused => exact .refuseData _ _
  | report _ _ _ ih => exact .after fun _ => ih
  | before _ _ ih ihk => exact .bind ih fun b hb => (ihk b).mono fun a ha => ha hb
  | mono _ hP ih => exact ih.mono hP
  | tree | skipValue | string | bool | int | judged | boolWord | quoted => exact .anything _
  | optional _ ih => exact .optional ih
  | start _ _ ih => exact .after ih
  | mismatch b => exact .mismatch _ b
  | tooDeep => exact .tooDeep
  | inList _ _ ih => exact .inList ih
  | inPlaces _ _ _ ih => exact .inPlaces ih
  | inObject _ _ ih => exact .inObject ih
  | items _ ih => exact .items ih
  | place _ _ _ ih ihk => exact .bind (.place? ih _) fun b? hb? => (ihk b?).mono fun a ha => ha hb?
  | firstPlace _ hnone _ _ _ ih =>
      refine .after fun s? => ?_
      cases s? with
      | none => exact hnone ▸ .refuseData _ _
      | some s => exact ih s
  | members hinit _ _ ih ihk =>
      refine .bind (.members (fun s key hs => ?_) hinit) fun s hs => (ihk s).mono fun a ha => ha hs
      exact (ih s key).mono fun s' hs' => hs' hs
  | colon _ ih => exact .after fun _ => ih
  | apply _ _ ih => exact .after fun _ => .after ih

end BlockModel.Scan
