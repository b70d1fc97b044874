import Mathlib.Data.List.DropRight
import MovingLight.Proofs.Rig.Union

/-!
# Ranges — from one head to another

A part that is `ALL`, a head or a group is never a range, whatever hyphens it has. A part that is
none of these (`Target.Unclaimed`) is split at its first hyphen, and it names the stretch of the
stage between the ends named by its two sides, whichever comes first (`Target.resolve_hyphen`).
Between two heads that is what one would expect, if the first hyphen is the one between their
ids.

It is not where the first id has a hyphen of its own: `mh-1-mh-2` is split into `mh` and
`1-mh-2`, and neither is a head. The second id may have as many as it likes.
-/

namespace MovingLight

/-! ## Trimming -/

namespace Text

theorem dropWhile_of_trimChars {cs : List Char} (h : trimChars cs = cs) :
    cs.dropWhile isBlank = cs := by
  have kept : trimChars cs <+: cs.dropWhile isBlank := List.rdropWhile_prefix isBlank _
  have short := kept.length_le
  rw [h] at short
  exact (cs.dropWhile_suffix isBlank).eq_of_length_le short

theorem rdropWhile_of_trimChars {cs : List Char} (h : trimChars cs = cs) :
    cs.rdropWhile isBlank = cs := by
  have trimmed : (cs.dropWhile isBlank).rdropWhile isBlank = cs := h
  rwa [dropWhile_of_trimChars h] at trimmed

/-- What stands between two texts without blanks around them is not trimmed. -/
theorem trimChars_between {xs ys : List Char} (mid : List Char) (hx : trimChars xs = xs)
    (hy : trimChars ys = ys) (nx : xs ≠ []) (ny : ys ≠ []) :
    trimChars (xs ++ mid ++ ys) = xs ++ mid ++ ys := by
  have front : (xs ++ mid ++ ys).dropWhile isBlank = xs ++ mid ++ ys := by
    rw [List.append_assoc, List.dropWhile_append, dropWhile_of_trimChars hx,
      if_neg (by simpa using nx)]
  have back : (xs ++ mid ++ ys).rdropWhile isBlank = xs ++ mid ++ ys := by
    have kept : ys.reverse.dropWhile isBlank = ys.reverse :=
      List.reverse_eq_iff.mp (rdropWhile_of_trimChars hy)
    rw [List.rdropWhile, List.reverse_append, List.dropWhile_append, kept,
      if_neg (by simpa using ny)]
    simp
  show ((xs ++ mid ++ ys).dropWhile isBlank).rdropWhile isBlank = _
  rw [front, back]

end Text

/-- The ids of the heads from one place to another, both included, whichever comes first. -/
def Rig.stretch {α : Type} (rig : Rig α) (i j : Nat) : List String :=
  (rig.ids.drop (min i j)).take (max i j - min i j + 1)

namespace Target

variable {α : Type} {rig : Rig α}

/-! ## Texts of one part -/

/-- **A text that can stand in a spec as it is**: not empty, without commas, and without blanks
around it. -/
structure Plain (text : String) : Prop where
  ne_empty : text ≠ ""
  no_comma : ',' ∉ text.toList
  trimmed : Text.trim text = text

theorem trimChars_of_trim {text : String} (h : Text.trim text = text) :
    Text.trimChars text.toList = text.toList := by
  have chars := congrArg String.toList h
  rwa [Text.trim, String.toList_ofList] at chars

theorem toList_hyphen (x y : String) : (x ++ "-" ++ y).toList = x.toList ++ '-' :: y.toList := by
  simp only [String.toList_append, List.append_assoc]
  rfl

/-- Two plain texts with a hyphen between them are a plain text. -/
theorem Plain.hyphen {x y : String} (hx : Plain x) (hy : Plain y) : Plain (x ++ "-" ++ y) where
  ne_empty h := by simp at h
  no_comma := by
    rw [toList_hyphen]
    simp [hx.no_comma, hy.no_comma]
  trimmed := by
    have kept := Text.trimChars_between ['-'] (trimChars_of_trim hx.trimmed)
      (trimChars_of_trim hy.trimmed) (by simpa using hx.ne_empty) (by simpa using hy.ne_empty)
    rw [List.append_assoc] at kept
    rw [Text.trim, toList_hyphen]
    refine (congrArg String.ofList kept).trans ?_
    rw [← String.toList_inj, String.toList_ofList, toList_hyphen]
    rfl

/-- A plain text is its own only part. -/
theorem Plain.parts_eq {text : String} (h : Plain text) : parts text = [text] := by
  have whole : pieces ',' text.toList = [text.toList] := pieces_of_notMem h.no_comma
  have kept : String.ofList (Text.trimChars text.toList) = text := h.trimmed
  simp [parts, whole, kept, h.ne_empty]

/-- A part comes to the heads at its places, where these are listed in stage order. -/
theorem resolve_of_part {spec part : String} {places : List Nat} {ids : List String}
    (one : parts spec = [part]) (found : resolvePart rig part = .ok places)
    (ordered : InStageOrder rig places ids) : resolve rig spec = .ok ids := by
  have has : parts spec ≠ [] := by simp [one]
  have stands : ∀ p ∈ parts spec, Stands rig p := by
    rw [one]
    exact List.forall_mem_singleton.mpr ⟨places, found⟩
  obtain ⟨ids', resolved⟩ := (exists_resolve_eq_ok_iff has).mpr stands
  obtain ⟨places', ordered', mem_iff⟩ := exists_inStageOrder resolved
  have same : places' = places := by
    refine ordered'.rising.eq_of_mem_iff ordered.rising fun i => ?_
    rw [mem_iff]
    simp [Names, one, found]
  cases same
  rw [resolved, ordered'.ids_unique ordered]

/-! ## Ranges -/

/-- **A text nothing else lays claim to**: neither `ALL` nor a head nor a group. -/
structure Unclaimed (rig : Rig α) (text : String) : Prop where
  not_all : Text.alike text "all" = false
  not_head : text ∉ rig.ids
  not_group : ∀ g ∈ rig.groups, Text.alike g.1 text = false

theorem index?_eq_none_iff {id : String} : rig.index? id = none ↔ id ∉ rig.ids := by
  rw [Rig.index?, List.findIdx?_eq_none_iff, Rig.ids]
  simp

/-- An id of the rig has a place. -/
theorem exists_index? {id : String} (h : id ∈ rig.ids) : ∃ i, rig.index? id = some i :=
  Option.ne_none_iff_exists'.mp fun absent => index?_eq_none_iff.mp absent h

theorem hyphen?_join {x y : String} (h : '-' ∉ x.toList) : hyphen? (x ++ "-" ++ y) = some (x, y) := by
  have before : ∀ c ∈ x.toList, decide (c ≠ '-') = true := fun c hc =>
    decide_eq_true fun same => h (same ▸ hc)
  rw [hyphen?, toList_hyphen, List.takeWhile_append_of_pos before, List.dropWhile_append_of_pos before]
  simp

/-- The places of a range, and the heads there. -/
theorem inStageOrder_between {i j : Nat} (hi : i < rig.size) (hj : j < rig.size) :
    InStageOrder rig (placesBetween i j) (rig.stretch i j) where
  rising := by
    rw [placesBetween, ← List.range'_eq_map_range]
    exact List.pairwise_lt_range'
  onStage := by
    intro k hk
    obtain ⟨steps, hsteps, rfl⟩ := List.mem_map.mp hk
    rw [List.mem_range] at hsteps
    omega
  ids_eq := by
    have size : rig.ids.length = rig.size := List.length_map ..
    refine List.ext_getElem? fun k => ?_
    simp only [Rig.stretch, placesBetween, List.getElem?_map, List.getElem?_take,
      List.getElem?_drop]
    by_cases inside : k < max i j - min i j + 1
    · have listed : min i j + k < rig.ids.length := by omega
      simp [inside, List.getElem?_eq_getElem listed]
    · simp [inside]

/-- **A range names the stretch between the ends named by the two sides of its first hyphen**, or
fails as the first of them that names none. -/
theorem resolve_hyphen {x y : String} (plain : Plain (x ++ "-" ++ y))
    (free : Unclaimed rig (x ++ "-" ++ y)) (first : '-' ∉ x.toList) :
    resolve rig (x ++ "-" ++ y) =
      (do return rig.stretch (← endpoint rig x) (← endpoint rig y)) := by
  have no_group : (rig.groups.find? fun g => Text.alike g.1 (x ++ "-" ++ y)) = none :=
    List.find?_eq_none.mpr fun g hg => by simp [free.not_group g hg]
  have part : resolvePart rig (x ++ "-" ++ y) =
      (do return placesBetween (← endpoint rig x) (← endpoint rig y)) := by
    rw [resolvePart, if_neg (by simp [free.not_all]), index?_eq_none_iff.mpr free.not_head,
      no_group, hyphen?_join first]
  cases hx : endpoint rig x with
  | error e =>
    rw [hx] at part
    refine (resolve_eq_error_iff (by simp [plain.parts_eq])).mpr ?_
    exact ⟨[], _, [], plain.parts_eq, List.forall_mem_nil _, part⟩
  | ok i =>
    rw [hx] at part
    cases hy : endpoint rig y with
    | error e =>
      rw [hy] at part
      refine (resolve_eq_error_iff (by simp [plain.parts_eq])).mpr ?_
      exact ⟨[], _, [], plain.parts_eq, List.forall_mem_nil _, part⟩
    | ok j =>
      rw [hy] at part
      exact resolve_of_part plain.parts_eq part
        (inStageOrder_between (lt_of_endpoint hx) (lt_of_endpoint hy))

/-- The id of a head is an end of a range. -/
theorem endpoint_of_index? {id : String} {i : Nat} (trimmed : Text.trim id = id)
    (h : rig.index? id = some i) : endpoint rig id = .ok i := by
  rw [endpoint, trimmed, endpoint?, h]

/-- **A range between two heads names all heads from the one to the other**, whichever is given
first, where the first id has no hyphen of its own. Where it has one the range is split there. -/
theorem resolve_range (rig : Rig α) {a b : String} (ha : a ∈ rig.ids) (hb : b ∈ rig.ids)
    (plain_a : Plain a) (plain_b : Plain b) (free : Unclaimed rig (a ++ "-" ++ b)) :
    ('-' ∉ a.toList → ∃ i j, rig.index? a = some i ∧ rig.index? b = some j ∧
      resolve rig (a ++ "-" ++ b) = .ok (rig.stretch i j)) ∧
    ∀ x rest, a = x ++ "-" ++ rest → '-' ∉ x.toList →
      resolve rig (a ++ "-" ++ b) =
        (do return rig.stretch (← endpoint rig x) (← endpoint rig (rest ++ "-" ++ b))) := by
  have plain := plain_a.hyphen plain_b
  refine ⟨fun whole => ?_, fun x rest split first => ?_⟩
  · obtain ⟨i, hi⟩ := exists_index? ha
    obtain ⟨j, hj⟩ := exists_index? hb
    refine ⟨i, j, hi, hj, ?_⟩
    rw [resolve_hyphen plain free whole, endpoint_of_index? plain_a.trimmed hi,
      endpoint_of_index? plain_b.trimmed hj]
    rfl
  · have text : a ++ "-" ++ b = x ++ "-" ++ (rest ++ "-" ++ b) := by
      rw [split]
      simp only [String.append_assoc]
    rw [text] at plain free ⊢
    exact resolve_hyphen plain free first

/-- Four heads, of which one has a hyphen in its id and another is called by the number of the
place before its own. -/
theorem resolve_range_of_hyphen_at_the_end :
    let rig : Rig ℚ := Rig.ofFixtures (["spot-1", "MH 2", "2", "MH4"].map fun id => { id })
    "2" ∈ rig.ids ∧ "spot-1" ∈ rig.ids ∧ Plain "2" ∧ Plain "spot-1" ∧
    Unclaimed rig ("2" ++ "-" ++ "spot-1") ∧ Unclaimed rig ("spot-1" ++ "-" ++ "2") ∧
    resolve rig ("2" ++ "-" ++ "spot-1") = .ok ["spot-1", "MH 2", "2"] ∧
    resolve rig ("spot-1" ++ "-" ++ "2") = .error (.unknownTarget "spot") := by
  intro rig
  have two : "2" ∈ rig.ids := by decide
  have spot : "spot-1" ∈ rig.ids := by decide
  have plain_two : Plain "2" := ⟨by decide, by decide, by decide +kernel⟩
  have plain_spot : Plain "spot-1" := ⟨by decide, by decide, by decide +kernel⟩
  have free : Unclaimed rig ("2" ++ "-" ++ "spot-1") :=
    ⟨by decide +kernel, by decide +kernel, by decide +kernel⟩
  have free' : Unclaimed rig ("spot-1" ++ "-" ++ "2") :=
    ⟨by decide +kernel, by decide +kernel, by decide +kernel⟩
  refine ⟨two, spot, plain_two, plain_spot, free, free', ?_, ?_⟩
  · obtain ⟨i, j, hi, hj, resolved⟩ :=
      (resolve_range rig two spot plain_two plain_spot free).1 (by decide)
    have place : rig.index? "2" = some 2 := by decide +kernel
    have place' : rig.index? "spot-1" = some 0 := by decide +kernel
    cases hi.symm.trans place
    cases hj.symm.trans place'
    exact resolved
  · exact (resolve_range rig spot two plain_spot plain_two free').2 "spot" "1" (by decide)
      (by decide)

/-- Two heads with hyphens in their ids, and the range from the one to the other. -/
theorem not_resolve_range :
    ¬∀ (rig : Rig ℚ) (a b : String), a ∈ rig.ids → b ∈ rig.ids → Plain a → Plain b →
      Unclaimed rig (a ++ "-" ++ b) → ∃ i j, rig.index? a = some i ∧ rig.index? b = some j ∧
        resolve rig (a ++ "-" ++ b) = .ok (rig.stretch i j) := by
  intro ranges
  let rig : Rig ℚ := Rig.ofFixtures [{ id := "mh-1" }, { id := "mh-2" }]
  have refused : resolve rig ("mh-1" ++ "-" ++ "mh-2") = .error (.unknownTarget "mh") := by
    decide +kernel
  obtain ⟨i, j, -, -, resolved⟩ := ranges rig "mh-1" "mh-2" (by decide) (by decide)
    ⟨by decide, by decide, by decide +kernel⟩ ⟨by decide, by decide, by decide +kernel⟩
    ⟨by decide +kernel, by decide +kernel, by decide +kernel⟩
  cases refused.symm.trans resolved

end Target

end MovingLight
