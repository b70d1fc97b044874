import MovingLight.Proofs.Rig.Range

/-!
# Nobody — targets that name no head

On a rig with heads a part names a head, unless it is the name of a group without members
(`Target.NamesNobody`). `ALL` names every head, an id its own, and a range at least its two
ends, so there is no other way (`Target.resolvePart_eq_nil_iff`).

A spec comes to no head at all if each of its parts is for nobody. That includes a spec without
any part. Blanks alone are told from a target before it is divided, and are an error; commas
between them are only left out afterwards, so `","` is a target, and a target for nobody
(`Target.parts_eq_nil_iff`).
-/

namespace MovingLight

namespace Target

variable {α : Type} {rig : Rig α}

/-! ## Specs without parts -/

/-- The pieces of a text have its characters, but for the separators. -/
theorem forall_mem_pieces_iff {sep : Char} {cs : List Char} {P : Char → Prop} :
    (∀ p ∈ pieces sep cs, ∀ c ∈ p, P c) ↔ ∀ c ∈ cs, c = sep ∨ P c := by
  induction cs with
  | nil => simp [pieces]
  | cons c cs ih =>
    rw [pieces, List.forall_mem_cons, ← ih]
    split
    case isTrue same => simp [same]
    case isFalse other =>
      cases divided : pieces sep cs with
      | nil => exact absurd divided (pieces_ne_nil sep cs)
      | cons p ps => simp [other, and_assoc]

theorem trimChars_eq_nil_iff {cs : List Char} :
    Text.trimChars cs = [] ↔ ∀ c ∈ cs, Text.isBlank c = true := by
  refine ⟨isBlank_of_trimChars, fun blank => ?_⟩
  rw [Text.trimChars, List.dropWhile_eq_nil_iff.mpr blank]
  rfl

/-- A spec is blank if all its characters are. -/
theorem trim_eq_empty_iff {spec : String} :
    Text.trim spec = "" ↔ ∀ c ∈ spec.toList, Text.isBlank c = true := by
  rw [Text.trim, String.ofList_eq_empty_iff, trimChars_eq_nil_iff]

/-- **A spec without parts is one of commas and blanks.** -/
theorem parts_eq_nil_iff {spec : String} :
    parts spec = [] ↔ ∀ c ∈ spec.toList, c = ',' ∨ Text.isBlank c = true := by
  have dropped : parts spec = [] ↔
      ∀ p ∈ pieces ',' spec.toList, String.ofList (Text.trimChars p) = "" := by
    simp [parts, List.filter_eq_nil_iff]
  rw [dropped, ← forall_mem_pieces_iff]
  simp only [String.ofList_eq_empty_iff, trimChars_eq_nil_iff]

/-! ## Parts for nobody -/

/-- **A part for nobody**: the name of a group without members. It is neither `ALL` nor a head,
since these come before groups. -/
structure NamesNobody (rig : Rig α) (part : String) : Prop where
  not_all : Text.alike part "all" = false
  not_head : part ∉ rig.ids
  no_members : ∃ name, (rig.groups.find? fun g => Text.alike g.1 part) = some (name, [])

/-- Every way to name heads but one names at least one. -/
theorem resolvePart_eq_nil_iff (heads : rig.fixtures ≠ []) {part : String} :
    resolvePart rig part = .ok [] ↔ NamesNobody rig part := by
  have size_pos : 0 < rig.size := List.length_pos_iff.mpr heads
  constructor
  · intro found
    unfold resolvePart at found
    split at found
    case isTrue =>
      have none_of_all := Except.ok.inj found
      rw [List.range_eq_nil] at none_of_all
      exact absurd none_of_all size_pos.ne'
    case isFalse not_all =>
      split at found
      case h_1 => cases found
      case h_2 absent =>
        refine ⟨by simpa using not_all, index?_eq_none_iff.mp absent, ?_⟩
        split at found
        case h_1 name members listed =>
          cases members with
          | nil => exact ⟨name, listed⟩
          | cons id rest =>
            obtain ⟨i, hi, -⟩ := Checked.exists_mem_of_mapM found id List.mem_cons_self
            exact absurd hi List.not_mem_nil
        case h_2 =>
          split at found
          case h_1 =>
            obtain ⟨i, -, found⟩ := Checked.exists_of_bind_eq_ok found
            obtain ⟨j, -, found⟩ := Checked.exists_of_bind_eq_ok found
            simp [placesBetween, pure, Except.pure] at found
          case h_2 => cases found
  · rintro ⟨not_all, not_head, name, listed⟩
    rw [resolvePart, if_neg (by simp [not_all]), index?_eq_none_iff.mpr not_head]
    simp only [listed]
    rfl

/-- A spec comes to no head if it is not blank and each of its parts comes to none. -/
theorem resolve_eq_nil_iff {spec : String} :
    resolve rig spec = .ok [] ↔
      Text.trim spec ≠ "" ∧ ∀ part ∈ parts spec, resolvePart rig part = .ok [] := by
  constructor
  · intro resolved
    have not_blank : Text.trim spec ≠ "" := by
      intro blank
      rw [resolve, resolvePlaces, if_pos blank] at resolved
      cases resolved
    refine ⟨not_blank, fun part hpart => ?_⟩
    have has : parts spec ≠ [] := List.ne_nil_of_mem hpart
    obtain ⟨places, found⟩ := (exists_resolve_eq_ok_iff has).mp ⟨[], resolved⟩ part hpart
    obtain ⟨named, ordered, mem_iff⟩ := exists_inStageOrder resolved
    have none_named : named = [] := by simpa using ordered.ids_eq
    have nowhere : places = [] := List.eq_nil_iff_forall_not_mem.mpr fun i hi => by
      have listed := (mem_iff i).mpr ⟨part, hpart, places, found, hi⟩
      rw [none_named] at listed
      exact absurd listed List.not_mem_nil
    rw [found, nowhere]
  · rintro ⟨not_blank, empty⟩
    obtain ⟨named, found⟩ := Checked.exists_mapM_eq_ok fun part hpart => ⟨[], empty part hpart⟩
    have nowhere : ∀ i, ¬∃ places ∈ named, i ∈ places := by
      rintro i ⟨places, hplaces, hi⟩
      obtain ⟨part, hpart, stands⟩ := Checked.exists_of_mem_mapM found places hplaces
      cases stands.symm.trans (empty part hpart)
      exact absurd hi List.not_mem_nil
    have places : resolvePlaces rig spec = .ok [] := by
      rw [resolvePlaces, if_neg not_blank, found]
      refine congrArg Except.ok (List.filter_eq_nil_iff.mpr fun i _ hi => nowhere i ?_)
      simpa using hi
    rw [resolve, places]
    rfl

/-- **Which targets come to no head.** Blanks alone are an error. Any other target comes to no head
exactly if each of its parts is for nobody, and it has no part exactly if it is of commas and
blanks. -/
theorem resolve_to_nobody (heads : rig.fixtures ≠ []) (spec : String) :
    ((∀ c ∈ spec.toList, Text.isBlank c = true) →
      resolve rig spec = .error (.invalidTarget "" "empty target")) ∧
    (resolve rig spec = .ok [] ↔
      (∃ c ∈ spec.toList, Text.isBlank c = false) ∧ ∀ part ∈ parts spec, NamesNobody rig part) ∧
    (parts spec = [] ↔ ∀ c ∈ spec.toList, c = ',' ∨ Text.isBlank c = true) := by
  refine ⟨fun blank => ?_, ?_, parts_eq_nil_iff⟩
  · have trimmed : Text.trim spec = "" := trim_eq_empty_iff.mpr blank
    rw [resolve, resolvePlaces, if_pos trimmed, trimmed]
    rfl
  · have visible : Text.trim spec ≠ "" ↔ ∃ c ∈ spec.toList, Text.isBlank c = false := by
      rw [ne_eq, trim_eq_empty_iff]
      simp
    rw [resolve_eq_nil_iff, visible]
    exact and_congr_right fun _ => forall₂_congr fun part _ => resolvePart_eq_nil_iff heads

/-- A lone head, of whom neither half of the stage has any: two groups of nobody are nobody, but
not with the head beside them, and not without a name among the blanks. -/
theorem resolve_to_nobody_of_lone_head :
    let rig : Rig ℚ := Rig.ofFixtures [{ id := "MH1" }]
    rig.fixtures ≠ [] ∧ resolve rig " Left,, right" = .ok [] ∧ resolve rig "left,1-MH1" ≠ .ok [] ∧
    resolve rig "  " = .error (.invalidTarget "" "empty target") := by
  intro rig
  have heads : rig.fixtures ≠ [] := List.cons_ne_nil _ _
  have left : NamesNobody rig "Left" :=
    ⟨by decide +kernel, by decide +kernel, "left",
      List.find?_cons_of_pos (Text.alike_iff.mpr (by decide))⟩
  have right : NamesNobody rig "right" :=
    ⟨by decide +kernel, by decide +kernel, "right", by decide +kernel⟩
  have blanks : ∀ c ∈ "  ".toList, Text.isBlank c = true := List.forall_mem_cons.mpr
    ⟨by decide, List.forall_mem_singleton.mpr (by decide)⟩
  refine ⟨heads, ?_, fun silent => ?_, (resolve_to_nobody heads "  ").1 blanks⟩
  · have halves : parts " Left,, right" = ["Left", "right"] := by decide +kernel
    refine (resolve_to_nobody heads _).2.1.mpr ⟨⟨'L', by decide +kernel, by decide +kernel⟩, ?_⟩
    rw [halves]
    exact List.forall_mem_cons.mpr ⟨left, List.forall_mem_singleton.mpr right⟩
  · have both : parts "left,1-MH1" = ["left", "1-MH1"] := by decide +kernel
    obtain ⟨-, nobody⟩ := (resolve_to_nobody heads _).2.1.mp silent
    obtain ⟨-, -, name, listed⟩ := nobody "1-MH1" (by simp [both])
    have unlisted : (rig.groups.find? fun g => Text.alike g.1 "1-MH1") = none := by decide +kernel
    cases listed.symm.trans unlisted

/-- A comma on a rig with a head. -/
theorem not_resolve_to_nobody :
    ¬∀ (rig : Rig ℚ) (spec : String), rig.fixtures ≠ [] →
      (resolve rig spec = .ok [] → ∃ part ∈ parts spec, NamesNobody rig part) ∧
      ((∀ c ∈ spec.toList, c = ',' ∨ Text.isBlank c = true) →
        ∃ text reason, resolve rig spec = .error (.invalidTarget text reason)) := by
  intro rejects
  obtain ⟨-, refused⟩ := rejects (Rig.ofFixtures [{ id := "MH1" }]) "," (List.cons_ne_nil _ _)
  have resolved : resolve (Rig.ofFixtures [{ id := "MH1" }] : Rig ℚ) "," = .ok [] := by
    decide +kernel
  obtain ⟨text, reason, error⟩ := refused (List.forall_mem_singleton.mpr (Or.inl rfl))
  cases error.symm.trans resolved

end Target

end MovingLight
