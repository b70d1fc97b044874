import MovingLight.Proofs.Table.Listing
import MovingLight.Scalar.Single
import MovingLight.Text.Numeral

/-!
# Settings texts — what a player reads can be read back

The settings of an effect are written as pieces with commas between them, a piece being a
key, the number of its channel, an equals sign and a value. Nothing is quoted, so a text
can be read back only because no value has a comma in it: a descriptor is made of fixed
words, whole numbers and decimals, and a decimal is made of digits, a point and perhaps a
sign, or is the word for an infinite or indefinite number (`Single.unbroken_fixed`).

`EffectSettings.decode?` is a reader of such texts. It reads what is written for every
settings without a comma (`EffectSettings.decode?_encode`), those of every effect on every
head among them (`Effect.unbroken_settings`). So settings that are written alike are
alike, and a table that stores each text once never lets two different settings share a
number (`Effect.settings_read_back`).
-/

namespace MovingLight

/-! ## Texts without a mark -/

namespace Text

/-- **A mark** is a character that no number is written with. -/
def Mark (c : Char) : Prop := c.isDigit = false ∧ c ≠ '.' ∧ c ≠ '-'

instance (c : Char) : Decidable (Mark c) := inferInstanceAs (Decidable (_ ∧ _))

variable {c : Char}

theorem isDigit_of_mem_toString {n : Nat} (h : c ∈ (toString n).toList) : c.isDigit = true := by
  rw [Nat.toString_eq_repr, Nat.toList_repr] at h
  exact Nat.isDigit_of_mem_toDigits (by decide) (by decide) h

theorem Mark.not_mem_of_digits (mark : Mark c) {s : String}
    (digits : ∀ d ∈ s.toList, d.isDigit = true) : c ∉ s.toList := by
  intro listed
  have digit := digits c listed
  rw [mark.1] at digit
  cases digit

theorem not_mem_intercalate {sep : String} {texts : List String} (hsep : c ∉ sep.toList)
    (h : ∀ s ∈ texts, c ∉ s.toList) : c ∉ (sep.intercalate texts).toList := by
  induction texts with
  | nil =>
    rw [String.intercalate_nil]
    exact List.not_mem_nil
  | cons s rest ih =>
    obtain ⟨hs, hrest⟩ := List.forall_mem_cons.mp h
    cases rest with
    | nil => rwa [String.intercalate_singleton]
    | cons t rest =>
      rw [String.intercalate_cons_cons, String.toList_append, String.toList_append,
        List.mem_append, List.mem_append, not_or, not_or]
      exact ⟨⟨hs, hsep⟩, ih hrest⟩

end Text

namespace Decimal

theorem toList_lastDigits (places n : Nat) : (lastDigits places n).toList =
    List.replicate (places - (toString (n % Nat.pow 10 places)).length) '0' ++
      (toString (n % Nat.pow 10 places)).toList := by
  unfold lastDigits
  rw [String.toList_append, String.toList_ofList]

theorem isDigit_of_mem_lastDigits {places n : Nat} {c : Char}
    (h : c ∈ (lastDigits places n).toList) : c.isDigit = true := by
  rw [toList_lastDigits, List.mem_append] at h
  rcases h with zero | digit
  · rw [List.eq_of_mem_replicate zero]
    rfl
  · exact Text.isDigit_of_mem_toString digit

/-- **A decimal has no mark**: it is made of digits, a point and perhaps a sign. -/
theorem mark_not_mem_fixedText {c : Char} (mark : Text.Mark c) (places : Nat) (negative : Bool)
    (num den : Nat) : c ∉ (fixedText places negative num den).toList := by
  have sign : c ∉ (if negative then "-" else "").toList := by
    cases negative with
    | false => simp
    | true => simpa using mark.2.2
  have point : c ∉ ".".toList := by simpa using mark.2.1
  unfold fixedText
  simp only [String.toList_append, List.mem_append, not_or]
  exact ⟨⟨⟨sign, mark.not_mem_of_digits fun _ => Text.isDigit_of_mem_toString⟩, point⟩,
    mark.not_mem_of_digits fun _ => isDigit_of_mem_lastDigits⟩

end Decimal

/-! ## Texts without a comma -/

namespace Text

/-- **A text without a comma**, which a reader that goes by commas takes as one piece. -/
def Unbroken (s : String) : Prop := ',' ∉ s.toList

instance (s : String) : Decidable (Unbroken s) := inferInstanceAs (Decidable (_ ∉ _))

theorem mark_comma : Mark ',' := by decide

theorem unbroken_append {s t : String} : Unbroken (s ++ t) ↔ Unbroken s ∧ Unbroken t := by
  unfold Unbroken
  rw [String.toList_append, List.mem_append, not_or]

theorem unbroken_toString (n : Nat) : Unbroken (toString n) :=
  mark_comma.not_mem_of_digits fun _ => isDigit_of_mem_toString

end Text

open Text (Unbroken)

/-- The text of a single has no comma, be it infinite or indefinite. -/
theorem Single.unbroken_fixed (places : Nat) (x : Float32) : Unbroken (Single.fixed places x) := by
  unfold Single.fixed
  split
  · split
    · decide
    · split <;> decide
  · exact Decimal.mark_not_mem_fixedText Text.mark_comma _ _ _ _

/-! ## Descriptors without a comma -/

theorem WaveShape.unbroken_playerName (shape : WaveShape) : Unbroken shape.playerName := by
  cases shape <;> decide

theorem Wave.unbroken_descriptor (number : Nat) (w : Wave Float32) :
    Unbroken (w.descriptor number) := by
  have num (x : Float32) : Unbroken (Scalar.fixed 2 x) := Single.unbroken_fixed 2 x
  unfold Wave.descriptor
  simp only [Text.unbroken_append, num, Text.unbroken_toString, w.shape.unbroken_playerName,
    and_true]
  decide

theorem CurvePoint.unbroken_descriptor (p : CurvePoint Float32) : Unbroken p.descriptor := by
  have num (x : Float32) : Unbroken (Scalar.fixed 3 x) := Single.unbroken_fixed 3 x
  unfold CurvePoint.descriptor
  simp only [Text.unbroken_append, num, and_true, true_and]
  decide

/-- The descriptor of a curve has no comma, however many points the curve has. -/
theorem Curve.unbroken_descriptor (number : Nat) (c : Curve Float32) :
    Unbroken (Curve.descriptor number c) := by
  have points : Unbroken (";".intercalate (c.map CurvePoint.descriptor)) := by
    refine Text.not_mem_intercalate (by decide) fun s hs => ?_
    obtain ⟨p, -, rfl⟩ := List.mem_map.mp hs
    exact p.unbroken_descriptor
  unfold Curve.descriptor
  simp only [Text.unbroken_append, points, Text.unbroken_toString, and_true]
  decide

theorem ChannelSetting.encode_slider (number : Nat) (level : UInt8) :
    (slider level).encode number =
      "E_SLIDER_DMX" ++ toString number ++ "=" ++ toString level.toNat :=
  rfl

theorem ChannelSetting.encode_curve (number : Nat) (descriptor : String) :
    (curve descriptor).encode number =
      "E_VALUECURVE_DMX" ++ toString number ++ "=" ++ descriptor :=
  rfl

theorem ChannelSetting.unbroken_slider (number : Nat) (level : UInt8) :
    Unbroken ((slider level).encode number) := by
  rw [encode_slider]
  simp only [Text.unbroken_append, Text.unbroken_toString, and_true]
  decide

theorem ChannelSetting.unbroken_curve (number : Nat) {descriptor : String}
    (h : Unbroken descriptor) : Unbroken ((curve descriptor).encode number) := by
  rw [encode_curve]
  simp only [Text.unbroken_append, Text.unbroken_toString, h, and_true]
  decide

/-- What is written for an assignment has no comma. -/
theorem Assignment.unbroken_setting (number : Nat) (a : Assignment Float32) :
    Unbroken ((a.setting number).encode number) := by
  match a with
  | .byte b => exact ChannelSetting.unbroken_slider number b
  | .value (.hold level) => exact ChannelSetting.unbroken_slider number level
  | .value (.wave w) => exact ChannelSetting.unbroken_curve number (w.unbroken_descriptor number)
  | .value (.curve c) =>
    exact ChannelSetting.unbroken_curve number (Curve.unbroken_descriptor number c)

/-- **Settings without a comma** in what is written for any channel. -/
def EffectSettings.Unbroken (s : EffectSettings) : Prop :=
  ∀ c ∈ s.channels, Text.Unbroken (c.2.encode c.1)

/-- **The settings of an effect have no comma**, whatever its numbers and the channels of its
head. -/
theorem Effect.unbroken_settings (e : Effect Float32) (f : Fixture Float32) :
    (e.settings f).Unbroken := by
  intro c hc
  obtain ⟨a, -, rfl⟩ := List.mem_map.mp hc
  exact a.2.unbroken_setting a.1

/-! ## Reading a text -/

namespace Text

/-- The number under a key, and what stands behind the equals sign. -/
def keyed? (key : String) (piece : List Char) : Option (Nat × List Char) :=
  match key.toList.isPrefixOf? piece with
  | none => none
  | some rest =>
    match digits? (rest.takeWhile Char.isDigit), rest.dropWhile Char.isDigit with
    | some n, '=' :: value => some (n, value)
    | _, _ => none

theorem digitsValue_toDigits (n : Nat) : digitsValue 0 (Nat.toDigits 10 n) = n := by
  unfold digitsValue
  simp only [Nat.mul_comm _ 10]
  exact Nat.ofDigitChars_ten_toDigits

/-- A whole number reads as itself. -/
theorem digits?_toString (n : Nat) : digits? (toString n).toList = some n := by
  have all_digits : (Nat.toDigits 10 n).all Char.isDigit = true :=
    List.all_eq_true.mpr fun _ => Nat.isDigit_of_mem_toDigits (by decide) (by decide)
  rw [Nat.toString_eq_repr, Nat.toList_repr]
  unfold digits?
  rw [if_neg (by simp), if_pos all_digits, digitsValue_toDigits]

/-- What is written under a key is read under it. -/
theorem keyed?_write (key : String) (n : Nat) (value : String) :
    keyed? key (key ++ toString n ++ "=" ++ value).toList = some (n, value.toList) := by
  have digits : ∀ c ∈ (toString n).toList, c.isDigit = true := fun _ => isDigit_of_mem_toString
  have rest : (key ++ toString n ++ "=" ++ value).toList =
      key.toList ++ ((toString n).toList ++ '=' :: value.toList) := by
    simp [String.toList_append]
  have kept : key.toList.isPrefixOf? (key.toList ++ ((toString n).toList ++ '=' :: value.toList)) =
      some ((toString n).toList ++ '=' :: value.toList) :=
    List.isPrefixOf?_eq_some_iff_append_eq.mpr rfl
  rw [rest, keyed?, kept]
  dsimp only
  rw [List.takeWhile_append_of_pos digits, List.dropWhile_append_of_pos digits,
    List.takeWhile_cons_of_neg (by decide), List.dropWhile_cons_of_neg (by decide),
    List.append_nil, digits?_toString]
  rfl

end Text

/-- The setting a piece stands for, with the number of its channel. -/
def ChannelSetting.decode? (piece : List Char) : Option (Nat × ChannelSetting) :=
  match Text.keyed? "E_SLIDER_DMX" piece with
  | some (n, value) => (Text.digits? value).map fun level => (n, .slider (UInt8.ofNat level))
  | none =>
    (Text.keyed? "E_VALUECURVE_DMX" piece).map fun (n, value) => (n, .curve (String.ofList value))

/-- The settings a text stands for. -/
def EffectSettings.decode? (text : String) : Option EffectSettings :=
  if text = "" then some ⟨[]⟩
  else ((text.toList.splitOn ',').mapM ChannelSetting.decode?).map EffectSettings.mk

/-- **One setting is read as it was written.** The keys of a slider and of a curve differ in their
third letter, so neither is taken for the other. -/
theorem ChannelSetting.decode?_encode (number : Nat) (s : ChannelSetting) :
    ChannelSetting.decode? (s.encode number).toList = some (number, s) := by
  cases s with
  | slider level =>
    rw [encode_slider, ChannelSetting.decode?, Text.keyed?_write]
    dsimp only
    rw [Text.digits?_toString, Option.map_some, UInt8.ofNat_toNat]
  | curve descriptor =>
    have no_slider : Text.keyed? "E_SLIDER_DMX"
        ("E_VALUECURVE_DMX" ++ toString number ++ "=" ++ descriptor).toList = none := by
      simp [Text.keyed?, String.toList_append, List.isPrefixOf?]
    rw [encode_curve, ChannelSetting.decode?, no_slider]
    dsimp only
    rw [Text.keyed?_write, Option.map_some, String.ofList_toList]

/-- What is written piece by piece is read piece by piece. -/
theorem mapM_map_eq_some {α β γ : Type} {write : α → β} {read : β → Option γ} {meaning : α → γ}
    {as : List α} (h : ∀ a ∈ as, read (write a) = some (meaning a)) :
    (as.map write).mapM read = some (as.map meaning) := by
  induction as with
  | nil => rfl
  | cons a rest ih =>
    obtain ⟨first, others⟩ := List.forall_mem_cons.mp h
    rw [List.map_cons, List.mapM_cons, first, ih others]
    rfl

theorem ChannelSetting.mapM_decode? (channels : List (Nat × ChannelSetting)) :
    (channels.map fun c => (c.2.encode c.1).toList).mapM ChannelSetting.decode? = some channels := by
  rw [mapM_map_eq_some fun c _ => ChannelSetting.decode?_encode c.1 c.2]
  exact congrArg some (List.map_id channels)

/-- Settings of some channel are not written as nothing at all. -/
theorem EffectSettings.encode_cons_ne_empty (c : Nat × ChannelSetting)
    (rest : List (Nat × ChannelSetting)) : EffectSettings.encode ⟨c :: rest⟩ ≠ "" := by
  have first : c.2.encode c.1 ≠ "" := by
    cases c.2 with
    | slider level => simp [ChannelSetting.encode_slider, String.append_eq_empty_iff]
    | curve descriptor => simp [ChannelSetting.encode_curve, String.append_eq_empty_iff]
  unfold EffectSettings.encode
  cases rest with
  | nil => simpa using first
  | cons d rest => simp [String.append_eq_empty_iff]

/-- **Settings without a comma are read as they were written.** -/
theorem EffectSettings.decode?_encode {s : EffectSettings} (h : s.Unbroken) :
    EffectSettings.decode? s.encode = some s := by
  obtain ⟨channels⟩ := s
  cases channels with
  | nil => rfl
  | cons c rest =>
    have pieces : (EffectSettings.encode ⟨c :: rest⟩).toList.splitOn ',' =
        (c :: rest).map fun c => (c.2.encode c.1).toList := by
      unfold EffectSettings.encode
      rw [String.toList_intercalate, List.map_map]
      refine List.splitOn_intercalate ',' (fun piece hp => ?_) (List.cons_ne_nil _ _)
      obtain ⟨d, hd, rfl⟩ := List.mem_map.mp hp
      exact h d hd
    rw [EffectSettings.decode?, if_neg (encode_cons_ne_empty c rest), pieces,
      ChannelSetting.mapM_decode?]
    rfl

example : EffectSettings.decode? "E_SLIDER_DMX1=40,E_SLIDER_DMX3=128" =
    some ⟨[(1, .slider 40), (3, .slider 128)]⟩ := by decide

/-- Settings of effects that are written alike are alike. -/
theorem Effect.encode_settings_inj {e e' : Effect Float32} {f f' : Fixture Float32} :
    (e.settings f).encode = (e'.settings f').encode ↔ e.settings f = e'.settings f' := by
  refine ⟨fun same => ?_, congrArg EffectSettings.encode⟩
  have read := EffectSettings.decode?_encode (e.unbroken_settings f)
  rw [same, EffectSettings.decode?_encode (e'.unbroken_settings f')] at read
  exact (Option.some.inj read).symm

/-- **The settings of an effect can be read back from their text**, so settings written alike are
alike, and in the table of any show two placements refer to one text exactly if the settings of
their effects are the same. -/
theorem Effect.settings_read_back :
    (∀ (e : Effect Float32) (f : Fixture Float32),
      EffectSettings.decode? (e.settings f).encode = some (e.settings f)) ∧
    (∀ (e e' : Effect Float32) (f f' : Fixture Float32),
      (e.settings f).encode = (e'.settings f').encode ↔ e.settings f = e'.settings f') ∧
    ∀ (s : Show Float32) (rig : Rig Float32),
      ((s.listed rig).zip (s.table rig).placements).Pairwise fun a b =>
        a.2.settingsRef = b.2.settingsRef ↔ a.1.2.settings a.1.1 = b.1.2.settings b.1.1 := by
  refine ⟨fun e f => ?_, fun e e' f f' => Effect.encode_settings_inj, fun s rig => ?_⟩
  · exact EffectSettings.decode?_encode (e.unbroken_settings f)
  · obtain ⟨-, nodup, lists, -⟩ := s.complete_table rig
    refine List.pairwise_of_forall_mem_list fun a ha b hb => ?_
    rw [(List.forall₂_zip lists ha).settingsRef_eq_iff (nodup List.nodup_nil)
      (List.forall₂_zip lists hb)]
    exact Effect.encode_settings_inj

end MovingLight
