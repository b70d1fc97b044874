import MovingLight.Formation
import MovingLight.Proofs.Keyed
import MovingLight.Proofs.Scalar.Zero

/-!
# Formations — what a formation leaves alone

Twelve of the formations move a head by degrees and leave the phase of its movement
and its role in tilt as they were. The wave gives each head a phase of its own, and
the alternating formation a role (`Formation.place_phaseDeg`, `Formation.place_tiltRole`).

The first head of a selection gets nothing of either: no step of the wave has been
taken there, and the first of an alternating pair goes up. A selection of one head has
a first head only, which is why no formation is worth a curve of its own for it
(`Formation.plain_of_mem_assign`).
-/

namespace MovingLight

variable {α : Type} [Scalar α]

/-- **A movement is plain**: it starts at no phase of its own and does not follow the lower half of
a pair. -/
structure Movement.Plain (m : Movement α) : Prop where
  phaseDeg : m.phaseDeg = 0
  tiltRole : m.tiltRole ≠ some .down

theorem Movement.plain_ofPattern (pattern : String) (intensity : Intensity) :
    (ofPattern pattern intensity : Movement α).Plain := ⟨rfl, Option.some_ne_none _ |>.symm⟩

theorem Movement.plain_hold : (hold : Movement α).Plain := plain_ofPattern _ _

namespace Formation

variable {f : Formation} (p : Params) (seed : UInt64) (base : Movement α) (s : Slot α)

/-! ## Placing one head -/

/-- Only the wave changes the phase. -/
theorem place_phaseDeg (h : f ≠ .wave) : (f.place p seed base s).phaseDeg = base.phaseDeg := by
  cases f with
  | wave => exact absurd rfl h
  | _ => rfl

/-- Only the alternating formation gives a role. -/
theorem place_tiltRole (h : f ≠ .alternating) :
    (f.place p seed base s).tiltRole = base.tiltRole := by
  cases f with
  | alternating => exact absurd rfl h
  | _ => rfl

/-- A formation whose heads share a curve is neither the wave nor the alternating one. -/
theorem ne_of_sharesCurve (h : f.sharesCurve = true) : f ≠ .wave ∧ f ≠ .alternating := by
  constructor
  · rintro rfl
    cases h
  · rintro rfl
    cases h

/-- A formation whose heads share a curve leaves them what they share. -/
theorem plain_place_of_sharesCurve (h : f.sharesCurve = true) (plain : base.Plain) :
    (f.place p seed base s).Plain := by
  obtain ⟨not_wave, not_alternating⟩ := ne_of_sharesCurve h
  constructor
  · rw [place_phaseDeg p seed base s not_wave]
    exact plain.phaseDeg
  · rw [place_tiltRole p seed base s not_alternating]
    exact plain.tiltRole

/-- The first of an alternating pair goes up. -/
theorem placeAlternating_alone :
    (placeAlternating p base (.ofIndex 1 0)).tiltRole = some .up := by
  unfold placeAlternating
  simp only [Slot.ofIndex, Nat.zero_div, ite_self, Nat.zero_mod, if_true]

/-! ## Spreading -/

section Assign

variable {kind : Option String} {ids : List String} {e : String × Movement α}

theorem length_distribute (f : Formation) : (f.distribute p base ids).length = ids.length := by
  unfold distribute Slot.all
  rw [List.length_map, List.length_map, List.length_range]

theorem getElem_distribute (f : Formation) {i : Nat}
    (h : i < (f.distribute p base ids).length) : (f.distribute p base ids)[i] =
      f.place p (Formation.seed p ids) base (.ofIndex ids.length i) := by
  simp only [distribute, Slot.all, List.getElem_map, List.getElem_range]

/-- Without a formation every head does the same. -/
theorem eq_base_of_mem_assign (unknown : kind.bind ofName? = none)
    (h : e ∈ assign kind p base ids) : e.2 = base := by
  unfold assign at h
  rw [unknown] at h
  obtain ⟨id, -, rfl⟩ := List.mem_map.mp (Keyed.mem_lastOfEach h)
  rfl

/-- With one, every head is placed in a slot that it has in the selection. -/
theorem exists_index_of_mem_assign (known : kind.bind ofName? = some f)
    (h : e ∈ assign kind p base ids) : ∃ i, ids[i]? = some e.1 ∧
      e.2 = f.place p (Formation.seed p ids) base (.ofIndex ids.length i) := by
  unfold assign at h
  rw [known] at h
  obtain ⟨i, listed⟩ := List.mem_iff_getElem?.mp (Keyed.mem_lastOfEach h)
  obtain ⟨id, placed⟩ := List.getElem?_zip_eq_some.mp listed
  obtain ⟨inside, placed⟩ := List.getElem?_eq_some_iff.mp placed
  exact ⟨i, id, placed.symm.trans (getElem_distribute p base f inside)⟩

/-- A selection is paired with movements head by head. -/
theorem exists_entries (kind : Option String) (ids : List String) :
    ∃ entries, assign kind p base ids = Keyed.lastOfEach entries ∧ entries.map Prod.fst = ids := by
  unfold assign
  cases kind.bind ofName? with
  | none => exact ⟨_, rfl, List.map_map.trans (List.map_id ids)⟩
  | some f => exact ⟨_, rfl, List.map_fst_zip (length_distribute p base f).ge⟩

/-- Everyone who is selected has a movement. -/
theorem exists_lookup_assign (kind : Option String) {id : String} (h : id ∈ ids) :
    ∃ m, (assign kind p base ids).lookup id = some m := by
  obtain ⟨entries, collected, keys⟩ := exists_entries p base kind ids
  rw [collected]
  exact Keyed.exists_lookup_lastOfEach (keys ▸ h)

end Assign

/-! ## A lone head -/

variable [Scalar.ZeroLaws α]

/-- The spacing of a wave is finite for a lone head, whatever the parameters. -/
theorem isFinite_phaseSpacing :
    Scalar.isFinite ((p.number? "phase_spacing").getD (360 / ((1 : Nat) : α))) = true := by
  cases spacing : (p.number? "phase_spacing" : Option α) with
  | none => exact Scalar.ZeroLaws.isFinite_turn
  | some x => exact (Option.mem_filter_iff.mp spacing).2

/-- No step of a wave has been taken at its first head. -/
theorem placeWave_alone (plain : base.Plain) :
    (placeWave p base (.ofIndex 1 0)).phaseDeg = 0 := by
  unfold placeWave Movement.withPhase
  simp only [Slot.ofIndex, Nat.max_self, Nat.sub_self, ite_self, plain.phaseDeg]
  rw [Scalar.ZeroLaws.zero_add_zero_mul _ (isFinite_phaseSpacing p)]
  exact Scalar.ZeroLaws.emod_turn

/-- A lone head moves plainly in every formation. -/
theorem plain_place_alone (plain : base.Plain) : (f.place p seed base (.ofIndex 1 0)).Plain := by
  constructor
  · by_cases wave : f = .wave
    · rw [wave]
      exact placeWave_alone p base plain
    · rw [place_phaseDeg p seed base _ wave]
      exact plain.phaseDeg
  · by_cases alternating : f = .alternating
    · rw [alternating, place, placeAlternating_alone]
      decide
    · rw [place_tiltRole p seed base _ alternating]
      exact plain.tiltRole

/-- **Where no head needs a curve of its own, every head moves plainly**: there is no formation, or
one whose heads share their curve, or a single head. -/
theorem plain_of_mem_assign {kind : Option String} {ids : List String} {e : String × Movement α}
    (shared : needsOwnCurves kind ids.length = false) (plain : base.Plain)
    (h : e ∈ assign kind p base ids) : e.2.Plain := by
  cases known : kind.bind ofName? with
  | none =>
    rw [eq_base_of_mem_assign p base known h]
    exact plain
  | some f =>
    obtain ⟨i, id, place_eq⟩ := exists_index_of_mem_assign p base known h
    obtain ⟨hi, -⟩ := List.getElem?_eq_some_iff.mp id
    rw [place_eq]
    unfold needsOwnCurves at shared
    rw [known, Bool.and_eq_false_iff] at shared
    rcases shared with alone | shares
    · have single : ids.length = 1 := by
        have few := of_decide_eq_false alone
        omega
      have first : i = 0 := by omega
      rw [single, first]
      exact plain_place_alone p _ base plain
    · refine plain_place_of_sharesCurve p _ base _ ?_ plain
      rwa [Bool.not_eq_false'] at shares

end Formation

end MovingLight
