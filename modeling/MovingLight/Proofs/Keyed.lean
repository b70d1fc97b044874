import Mathlib.Data.List.Nodup
import MovingLight.Keyed

/-!
# Keyed lists — nothing made up, nothing lost

A keyed list is made by putting in one entry after another. It holds only entries that it was
given (`Keyed.mem_lastOfEach`) and has a value for every key among them
(`Keyed.exists_lookup_lastOfEach`). Where no key comes twice there is nothing to replace, and it
is the list it was made of (`Keyed.lastOfEach_eq_self`).
-/

namespace MovingLight.Keyed

variable {β : Type} {entries acc : List (String × β)} {key k : String} {value : β}
variable {e : String × β}

/-! ## Looking up -/

theorem mem_of_lookup {β γ : Type} [BEq β] [LawfulBEq β] {entries : List (β × γ)} {key : β}
    {value : γ} (h : entries.lookup key = some value) : (key, value) ∈ entries := by
  obtain ⟨before, after, rfl, -⟩ := List.lookup_eq_some_iff.mp h
  exact List.mem_append_right _ List.mem_cons_self

/-! ## One entry -/

theorem mem_insert (h : e ∈ insert entries key value) : e ∈ entries ∨ e = (key, value) := by
  unfold insert at h
  split at h
  · obtain ⟨o, ho, heq⟩ := List.mem_map.mp h
    split at heq
    · exact Or.inr heq.symm
    · exact Or.inl (heq ▸ ho)
  · rcases List.mem_append.mp h with h | h
    · exact Or.inl h
    · exact Or.inr (List.mem_singleton.mp h)

theorem mem_keys_insert :
    k ∈ (insert entries key value).map Prod.fst ↔ k ∈ entries.map Prod.fst ∨ k = key := by
  unfold insert
  split
  · rename_i known
    obtain ⟨e, he, same⟩ := List.any_eq_true.mp known
    have same : e.1 = key := eq_of_beq same
    have keys : (entries.map fun e => if e.1 == key then (key, value) else e).map Prod.fst =
        entries.map Prod.fst := by
      rw [List.map_map]
      refine List.map_congr_left fun o _ => ?_
      show (if o.1 == key then (key, value) else o).1 = o.1
      split
      · rename_i here
        exact (eq_of_beq here).symm
      · rfl
    rw [keys, or_iff_left_of_imp]
    rintro rfl
    exact same ▸ List.mem_map_of_mem he
  · rw [List.map_append, List.mem_append, List.map_singleton, List.mem_singleton]

/-- A new key goes behind the others. -/
theorem insert_of_notMem (fresh : key ∉ entries.map Prod.fst) :
    insert entries key value = entries ++ [(key, value)] := by
  unfold insert
  refine if_neg fun known => fresh ?_
  obtain ⟨e, he, same⟩ := List.any_eq_true.mp known
  exact eq_of_beq same ▸ List.mem_map_of_mem he

/-! ## One after another -/

theorem mem_foldl_insert (h : e ∈ entries.foldl (fun acc e => insert acc e.1 e.2) acc) :
    e ∈ acc ∨ e ∈ entries := by
  induction entries generalizing acc with
  | nil => exact Or.inl h
  | cons o rest ih =>
    rcases ih h with h | h
    · rcases mem_insert h with h | rfl
      · exact Or.inl h
      · exact Or.inr List.mem_cons_self
    · exact Or.inr (List.mem_cons_of_mem _ h)

theorem mem_keys_foldl_insert :
    k ∈ (entries.foldl (fun acc e => insert acc e.1 e.2) acc).map Prod.fst ↔
      k ∈ acc.map Prod.fst ∨ k ∈ entries.map Prod.fst := by
  induction entries generalizing acc with
  | nil => simp only [List.foldl_nil, List.map_nil, List.not_mem_nil, or_false]
  | cons e rest ih =>
    rw [List.foldl_cons, ih, mem_keys_insert, List.map_cons, List.mem_cons, or_assoc]

/-- Entries of new keys, no two of them the same, all go behind the others. -/
theorem foldl_insert_eq_append (distinct : ((acc ++ entries).map Prod.fst).Nodup) :
    entries.foldl (fun acc e => insert acc e.1 e.2) acc = acc ++ entries := by
  induction entries generalizing acc with
  | nil => exact (List.append_nil acc).symm
  | cons e rest ih =>
    have fresh : e.1 ∉ acc.map Prod.fst := by
      rw [List.map_append] at distinct
      exact fun known => (List.nodup_append.mp distinct).2.2 _ known _ List.mem_cons_self rfl
    rw [List.append_cons] at distinct
    rw [List.foldl_cons, insert_of_notMem fresh, ih distinct, ← List.append_cons]

/-! ## A whole map -/

/-- A keyed list holds nothing but entries it was given. -/
theorem mem_lastOfEach (h : e ∈ lastOfEach entries) : e ∈ entries :=
  (mem_foldl_insert h).resolve_left List.not_mem_nil

/-- Every key that was given has a value. -/
theorem exists_lookup_lastOfEach (h : k ∈ entries.map Prod.fst) :
    ∃ v, (lastOfEach entries).lookup k = some v := by
  have kept : k ∈ (lastOfEach entries).map Prod.fst := mem_keys_foldl_insert.mpr (Or.inr h)
  obtain ⟨e, he, rfl⟩ := List.mem_map.mp kept
  exact Option.isSome_iff_exists.mp (List.lookup_isSome_iff.mpr ⟨e, he, beq_self_eq_true _⟩)

/-- **Nothing is lost where no key comes twice.** -/
theorem lastOfEach_eq_self (distinct : (entries.map Prod.fst).Nodup) :
    lastOfEach entries = entries :=
  foldl_insert_eq_append distinct

end MovingLight.Keyed
