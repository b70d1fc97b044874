import MovingLight.Proofs.Scalar.Order
import MovingLight.Random

/-!
# Checked evaluation — what a machine stops at

The definitions of a show are total: an item that is not there is left out or replaced by
a default, a number is limited to whatever bounds it is given, and a quotient by zero is
zero. A machine is less forgiving. It stops where a number is to be limited to bounds that
run backwards, where a number is to be drawn from a range that runs backwards, where a
list is asked for an item, or for a stretch of items, that it does not have, and where a
whole number is divided by zero.

`Fault` lists these places and `Checked` is the result of an evaluation that may stop at
one of them. Each operation below asks before it answers, and its lemma says when it does
answer and with what. The modules that build on this one evaluate every step of a show in
`Checked`, in the order and with the indices a machine uses, and prove that the evaluation
never stops and yields what the total definition says.
-/

namespace MovingLight

/-- Where a machine stops. -/
inductive Fault where
  /-- A number is to be limited to bounds that run backwards or are indefinite. -/
  | bounds
  /-- A number is to be drawn from a range that runs backwards or is indefinite. -/
  | range
  /-- A list does not have the item asked for. -/
  | index
  /-- A list does not have the stretch of items asked for. -/
  | slice
  /-- A whole number is to be divided by zero. -/
  | division
  deriving DecidableEq, Repr

/-- The result of an evaluation that may stop. -/
abbrev Checked (β : Type) := Except Fault β

namespace Checked

variable {α : Type} [Scalar α] {β γ : Type}

/-! ## Operations -/

/-- A number brought into `[lo, hi]`. -/
def clamp (lo hi x : α) : Checked α :=
  if lo ≤ hi then .ok (Scalar.clamp lo hi x) else .error .bounds

/-- A number brought into the unit interval. -/
def clampUnit (x : α) : Checked α := clamp 0 1 x

/-- The number in `[low, high]` that a random word stands for. -/
def draw (low high : α) (word : UInt32) : Checked α :=
  if low ≤ high then .ok (MovingLight.draw low high word) else .error .range

/-- The item at a place. -/
def item (xs : List β) (i : Nat) : Checked β :=
  match xs[i]? with
  | some x => .ok x
  | none => .error .index

/-- The list with another item at a place. -/
def replace (xs : List β) (i : Nat) (x : β) : Checked (List β) :=
  if i < xs.length then .ok (xs.set i x) else .error .index

/-- The items from one place to before another. -/
def slice (xs : List β) (start finish : Nat) : Checked (List β) :=
  if start ≤ finish ∧ finish ≤ xs.length then .ok ((xs.drop start).take (finish - start))
  else .error .slice

/-- The items before a place and the others. -/
def splitAt (xs : List β) (i : Nat) : Checked (List β × List β) :=
  if i ≤ xs.length then .ok (xs.take i, xs.drop i) else .error .slice

/-- A place counted back from another; there is none before the first. -/
def back (place steps : Nat) : Checked Nat :=
  if steps ≤ place then .ok (place - steps) else .error .index

def quotient (n divisor : Nat) : Checked Nat :=
  if divisor = 0 then .error .division else .ok (n / divisor)

def remainder (n divisor : Nat) : Checked Nat :=
  if divisor = 0 then .error .division else .ok (n % divisor)

/-! ## When they answer -/

theorem clamp_ok {lo hi : α} (h : lo ≤ hi) (x : α) : clamp lo hi x = .ok (Scalar.clamp lo hi x) :=
  if_pos h

@[simp]
theorem clampUnit_ok [Scalar.OrderLaws α] (x : α) : clampUnit x = .ok (Scalar.clampUnit x) :=
  clamp_ok Scalar.OrderLaws.zero_le_one x

/-- Every level is a window. -/
@[simp]
theorem clamp_full_ok [Scalar.OrderLaws α] (x : α) :
    clamp 0 255 x = .ok (Scalar.clamp 0 255 x) :=
  clamp_ok Scalar.OrderLaws.zero_le_full x

theorem draw_ok {low high : α} (h : low ≤ high) (word : UInt32) :
    draw low high word = .ok (MovingLight.draw low high word) :=
  if_pos h

theorem item_ok {xs : List β} {i : Nat} {x : β} (h : xs[i]? = some x) : item xs i = .ok x := by
  rw [item, h]

@[simp]
theorem item_cons_zero (x : β) (xs : List β) : item (x :: xs) 0 = .ok x := rfl

@[simp]
theorem item_cons_succ (x : β) (xs : List β) (i : Nat) : item (x :: xs) (i + 1) = item xs i := by
  simp only [item, List.getElem?_cons_succ]

theorem item_last (xs : List β) (x : β) : item (xs ++ [x]) xs.length = .ok x :=
  item_ok (List.getElem?_concat_length ..)

theorem item_getD {xs : List β} {i : Nat} (h : i < xs.length) (default : β) :
    item xs i = .ok (xs.getD i default) :=
  item_ok (by rw [List.getD_eq_getElem?_getD, List.getElem?_eq_getElem h, Option.getD_some])

theorem item_map {f : β → γ} {xs : List β} {i : Nat} {x : β} (h : xs[i]? = some x) :
    item (xs.map f) i = .ok (f x) :=
  item_ok (by rw [List.getElem?_map, h, Option.map_some])

theorem replace_ok {xs : List β} {i : Nat} (h : i < xs.length) (x : β) :
    replace xs i x = .ok (xs.set i x) :=
  if_pos h

@[simp]
theorem replace_cons_zero (x y : β) (xs : List β) : replace (x :: xs) 0 y = .ok (y :: xs) :=
  replace_ok (Nat.zero_lt_succ _) y

theorem replace_last (xs : List β) (x y : β) :
    replace (xs ++ [x]) xs.length y = .ok (xs ++ [y]) := by
  rw [replace_ok (by rw [List.length_append]; exact Nat.lt_succ_self _),
    List.set_append_right _ _ le_rfl, Nat.sub_self, List.set_cons_zero]

theorem slice_ok {xs : List β} {start finish : Nat} (h : start ≤ finish)
    (hfinish : finish ≤ xs.length) :
    slice xs start finish = .ok ((xs.drop start).take (finish - start)) :=
  if_pos ⟨h, hfinish⟩

theorem splitAt_ok (xs ys : List β) : splitAt (xs ++ ys) xs.length = .ok (xs, ys) := by
  rw [splitAt, if_pos (by simp), List.take_left, List.drop_left]

theorem back_ok {place target steps : Nat} (h : place = target + steps) :
    back place steps = .ok target := by
  rw [back, if_pos (h ▸ Nat.le_add_left steps target), h, Nat.add_sub_cancel]

@[simp]
theorem quotient_two (n : Nat) : quotient n 2 = .ok (n / 2) := rfl

@[simp]
theorem remainder_two (n : Nat) : remainder n 2 = .ok (n % 2) := rfl

/-! ## One evaluation after another -/

@[simp]
theorem pure_eq_ok (x : β) : (pure x : Checked β) = .ok x := rfl

@[simp]
theorem ok_bind (x : β) (f : β → Checked γ) : ((.ok x : Checked β) >>= f) = f x := rfl

@[simp]
theorem ite_ok (c : Prop) [Decidable c] (x y : β) :
    (if c then (.ok x : Checked β) else .ok y) = .ok (if c then x else y) :=
  (apply_ite _ c x y).symm

/-- What a second evaluation answers, it answers to what the first has answered. -/
theorem exists_of_bind_eq_ok {ε : Type} {x : Except ε β} {f : β → Except ε γ} {z : γ}
    (h : (x >>= f) = .ok z) : ∃ y, x = .ok y ∧ f y = .ok z := by
  cases x with
  | error e => cases h
  | ok y => exact ⟨y, rfl, h⟩

/-- What comes of a list item by item comes of its items. -/
theorem exists_of_mem_mapM {ε : Type} {f : β → Except ε γ} {xs : List β} {ys : List γ}
    (h : xs.mapM f = .ok ys) : ∀ y ∈ ys, ∃ x ∈ xs, f x = .ok y := by
  induction xs generalizing ys with
  | nil =>
    cases h
    exact List.forall_mem_nil _
  | cons x rest ih =>
    rw [List.mapM_cons] at h
    obtain ⟨z, first, h⟩ := exists_of_bind_eq_ok h
    obtain ⟨zs, others, h⟩ := exists_of_bind_eq_ok h
    cases h
    refine List.forall_mem_cons.mpr ⟨⟨x, List.mem_cons_self, first⟩, fun y hy => ?_⟩
    obtain ⟨w, hw, made⟩ := ih others y hy
    exact ⟨w, List.mem_cons_of_mem x hw, made⟩

/-- An evaluation of every item answers if each of them does. -/
theorem mapM_eq_ok {f : β → Checked γ} {g : β → γ} {xs : List β}
    (h : ∀ x ∈ xs, f x = .ok (g x)) : xs.mapM f = .ok (xs.map g) := by
  induction xs with
  | nil => rfl
  | cons x rest ih =>
    rw [List.mapM_cons, h x List.mem_cons_self, ih fun y hy => h y (List.mem_cons_of_mem x hy)]
    rfl

/-- An evaluation at every place answers with a list if each answers with its item. -/
theorem mapM_range'_eq_ok {f : Nat → Checked β} {ys : List β} (start : Nat)
    (h : ∀ i y, ys[i]? = some y → f (start + i) = .ok y) :
    (List.range' start ys.length).mapM f = .ok ys := by
  induction ys generalizing start with
  | nil => rfl
  | cons y rest ih =>
    have later := ih (start + 1) fun i z hz => by
      rw [Nat.add_assoc, Nat.add_comm 1 i]
      exact h (i + 1) z hz
    rw [List.length_cons, List.range'_succ, List.mapM_cons, show f start = .ok y from h 0 y rfl,
      later]
    rfl

/-- A stretch of a list is replaced item by item. -/
theorem foldlM_replace_ok {f : Nat → Checked β} (before after : List β) {middle ys : List β}
    (same : middle.length = ys.length)
    (h : ∀ i y, ys[i]? = some y → f (before.length + i) = .ok y) :
    (List.range' before.length ys.length).foldlM (fun xs i => do replace xs i (← f i))
      (before ++ (middle ++ after)) = .ok (before ++ (ys ++ after)) := by
  induction ys generalizing before middle with
  | nil =>
    rw [List.length_eq_zero_iff.mp same]
    rfl
  | cons y ys ih =>
    obtain ⟨x, middle, rfl⟩ := List.exists_of_length_succ middle same
    have inside : before.length < (before ++ ((x :: middle) ++ after)).length := by
      simp
    have later := ih (before ++ [y]) (Nat.succ.inj same) fun i z hz => by
      rw [List.length_append, List.length_singleton, Nat.add_assoc, Nat.add_comm 1 i]
      exact h (i + 1) z hz
    rw [List.length_append, List.length_singleton] at later
    rw [List.length_cons, List.range'_succ, List.foldlM_cons,
      show f before.length = .ok y from h 0 y rfl, ok_bind, replace_ok inside, ok_bind]
    simpa using later

@[simp]
theorem mapM_ok (g : β → γ) (xs : List β) :
    xs.mapM (fun x => (.ok (g x) : Checked γ)) = .ok (xs.map g) :=
  List.mapM_pure

@[simp]
theorem flatMapM_ok (g : β → List γ) (xs : List β) :
    xs.flatMapM (fun x => (.ok (g x) : Checked (List γ))) = .ok (xs.flatMap g) := by
  induction xs with
  | nil => rfl
  | cons x rest ih => simp [ih]

@[simp]
theorem anyM_ok (g : β → Bool) (xs : List β) :
    xs.anyM (fun x => (.ok (g x) : Checked Bool)) = .ok (xs.any g) :=
  List.anyM_pure

@[simp]
theorem foldlM_ok (g : γ → β → γ) (xs : List β) (acc : γ) :
    xs.foldlM (fun acc x => (.ok (g acc x) : Checked γ)) acc = .ok (xs.foldl g acc) :=
  List.foldlM_pure

@[simp]
theorem option_mapM_ok (g : β → γ) (o : Option β) :
    o.mapM (fun x => (.ok (g x) : Checked γ)) = .ok (o.map g) := by
  cases o <;> rfl

end Checked

end MovingLight
