import MovingLight.Proofs.Formation
import MovingLight.Scalar.Single

/-!
# Placing — a formation moves heads and loses none

A formation copies the movement it is given once for each head and changes where the copies
point. What is danced, how strongly, how wide and how fast is for the instruction to say, and every
copy has it as it was (`Formation.Places`). Two formations change more: a wave delays its heads,
and an alternating one gives them roles. The heads of both need curves of their own.

Copies are paired with heads in the order of selection. There are as many of one as of the other,
so if no head is named twice, each has exactly one (`Formation.keys_assign`).
-/

namespace MovingLight

variable {α : Type}

namespace Formation

/-! ## Names -/

theorem ofName?_name (f : Formation) : ofName? f.name = some f := by
  cases f <;> decide

theorem name_injective : Function.Injective name := fun f g same =>
  Option.some_inj.mp ((ofName?_name f).symm.trans ((congrArg ofName? same).trans (ofName?_name g)))

/-- A formation is found by its own name only. -/
theorem ofName?_eq_some_iff {s : String} {f : Formation} : ofName? s = some f ↔ s = f.name := by
  constructor
  · intro found
    rw [ofName?] at found
    have same := List.find?_some found
    exact (eq_of_beq same).symm
  · rintro rfl
    exact ofName?_name f

theorem bind_ofName?_eq_some_iff {kind : Option String} {f : Formation} :
    kind.bind ofName? = some f ↔ kind = some f.name := by
  cases kind with
  | none => simp
  | some s => rw [Option.bind_some, ofName?_eq_some_iff, Option.some_inj]

/-! ## Placing one head -/

/-- **A movement is only placed** by what is named: it is danced as the instruction says, and what
else there is to a movement is changed by the formation whose matter it is. -/
structure Places (kind : Option String) (base m : Movement α) : Prop where
  pattern : m.pattern = base.pattern
  intensity : m.intensity = base.intensity
  amplitude : m.amplitude = base.amplitude
  frequency : m.frequency = base.frequency
  phaseDeg : kind ≠ some wave.name → m.phaseDeg = base.phaseDeg
  tiltRole : kind ≠ some alternating.name → m.tiltRole = base.tiltRole
  /-- Heads that share a curve are in phase and have no roles of their own. -/
  shared : ∀ f : Formation, kind = some f.name → f.sharesCurve = true →
    m.phaseDeg = base.phaseDeg ∧ m.tiltRole = base.tiltRole
  /-- Without a formation, or with one nobody knows, nothing is changed. -/
  unknown : (∀ f : Formation, kind ≠ some f.name) → m = base

variable (kind : Option String) (p : Params) (base : Movement α)

theorem places_self : Places kind base base where
  pattern := rfl
  intensity := rfl
  amplitude := rfl
  frequency := rfl
  phaseDeg _ := rfl
  tiltRole _ := rfl
  shared _ _ _ := ⟨rfl, rfl⟩
  unknown _ := rfl

variable [Scalar α]

/-- Each formation only places a head, whatever its slot. -/
theorem places_place (f : Formation) (seed : UInt64) (s : Slot α) :
    Places (some f.name) base (f.place p seed base s) where
  pattern := by cases f <;> rfl
  intensity := by cases f <;> rfl
  amplitude := by cases f <;> rfl
  frequency := by cases f <;> rfl
  phaseDeg other := place_phaseDeg p seed base s fun same => other (same ▸ rfl)
  tiltRole other := place_tiltRole p seed base s fun same => other (same ▸ rfl)
  shared g named shares := by
    obtain rfl := name_injective (Option.some_inj.mp named)
    obtain ⟨not_wave, not_alternating⟩ := ne_of_sharesCurve shares
    exact ⟨place_phaseDeg p seed base s not_wave, place_tiltRole p seed base s not_alternating⟩
  unknown none := (none f rfl).elim

/-! ## Placing all of a selection -/

variable {ids : List String}

/-- Everyone who is selected has one movement, in the order of selection. -/
theorem keys_assign (distinct : ids.Nodup) : (assign kind p base ids).map Prod.fst = ids := by
  obtain ⟨entries, collected, keys⟩ := exists_entries p base kind ids
  rw [collected, Keyed.lastOfEach_eq_self (keys.symm ▸ distinct), keys]

theorem places_of_mem_assign {e : String × Movement α} (h : e ∈ assign kind p base ids) :
    Places kind base e.2 := by
  cases known : kind.bind ofName? with
  | none =>
    rw [eq_base_of_mem_assign p base known h]
    exact places_self kind base
  | some f =>
    obtain ⟨i, -, place_eq⟩ := exists_index_of_mem_assign p base known h
    rw [place_eq, bind_ofName?_eq_some_iff.mp known]
    exact places_place p base f _ _

/-- **Formations only place, and place everyone.** Whatever is named as a formation and whatever
its parameters are, the heads of a selection, no two of them the same, have one movement each and
nobody else has any, and every movement is that of the instruction but for its place. -/
theorem assign_places_each (distinct : ids.Nodup) :
    (assign kind p base ids).map Prod.fst = ids ∧
      ∀ e ∈ assign kind p base ids, Places kind base e.2 :=
  ⟨keys_assign kind p base distinct, fun _ => places_of_mem_assign kind p base⟩

/-- Five heads in a wave that runs backwards. -/
theorem assign_places_each_of_wave :
    let ids := ["MH1", "MH2", "MH3", "MH4", "MH5"]
    let p : Params := [("direction", .string (some "reverse"))]
    let base : Movement Float32 := .ofPattern "figure8" .fast
    ids.Nodup ∧ (assign (some "wave_lr") p base ids).map Prod.fst = ids ∧
      ∀ e ∈ assign (some "wave_lr") p base ids, Places (some "wave_lr") base e.2 := by
  intro ids p base
  have distinct : ids.Nodup := by decide
  exact ⟨distinct, assign_places_each (some "wave_lr") p base distinct⟩

end Formation

end MovingLight
