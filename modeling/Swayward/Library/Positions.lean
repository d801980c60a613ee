/-
  File:      Swayward/Library/Positions.lean
  Subject:   EDITING A LIST AT A POSITION.

  A list that holds `c` at position `i` is `A ++ c :: B` with `A` of length `i`; the edits at that
  position are `A ++ B`, `A ++ w :: B` and `A ++ ws ++ B`. For a list of lists, `flatMap_around` and
  `flatMap_set` say what its members hold together.
-/
import Mathlib.Data.List.Nodup
import Mathlib.Data.List.InsertIdx

namespace Positions

open List

variable {α : Type*}
variable {l : List α} {i : ℕ}

/-- Keys of selected entries are a part of all keys, in order. -/
theorem map_filterMap_sublist {β γ : Type*} {f : α → Option β} {g : β → γ} {k : α → γ}
    (hf : ∀ a b, f a = some b → g b = k a) (l : List α) :
    ((l.filterMap f).map g).Sublist (l.map k) := by
  induction l with
  | nil => exact nil_sublist _
  | cons a l ih =>
    rw [filterMap_cons, map_cons]
    cases e : f a with
    | none => exact ih.cons _
    | some b =>
      rw [map_cons, hf a b e]
      exact ih.cons_cons _

/-- A partial function that is defined on all members. -/
theorem map_filterMap_of_forall {β γ : Type*} {f : α → Option β} {g : β → γ} {k : α → γ}
    (h : ∀ a ∈ l, ∃ b, f a = some b ∧ g b = k a) : (l.filterMap f).map g = l.map k := by
  rw [map_filterMap, ← filterMap_eq_map]
  refine filterMap_congr fun a ha => ?_
  obtain ⟨b, hb, he⟩ := h a ha
  rw [hb, Option.map_some, he]
  rfl

theorem flatMap_filterMap_of_forall {β γ : Type*} {f : α → Option β} {g : β → List γ}
    {k : α → List γ} (h : ∀ a ∈ l, ∃ b, f a = some b ∧ g b = k a) :
    (l.filterMap f).flatMap g = l.flatMap k := by
  rw [flatMap_def, flatMap_def, map_filterMap_of_forall h]

theorem any_filterMap_of_forall {β : Type*} {f : α → Option β} {g : β → Bool} {k : α → Bool}
    (h : ∀ a ∈ l, ∃ b, f a = some b ∧ g b = k a) : (l.filterMap f).any g = l.any k := by
  have hmap := congrArg (any · id) (map_filterMap_of_forall h)
  rwa [any_map, any_map] at hmap

/-- The list around position `i`. -/
theorem exists_around {x : α} (h : l[i]? = some x) : ∃ A B, l = A ++ x :: B ∧ A.length = i := by
  obtain ⟨hlt, rfl⟩ := List.getElem?_eq_some_iff.mp h
  refine ⟨l.take i, l.drop (i + 1), ?_, by rw [length_take]; omega⟩
  rw [getElem_cons_drop, take_append_drop]

@[simp] theorem eraseIdx_around (A B : List α) (c : α) :
    (A ++ c :: B).eraseIdx A.length = A ++ B := by
  rw [eraseIdx_append_of_length_le (Nat.le_refl _)]
  simp

@[simp] theorem set_around (A B : List α) (c w : α) :
    (A ++ c :: B).set A.length w = A ++ w :: B := by
  simp

@[simp] theorem take_around (A B : List α) (c : α) : (A ++ c :: B).take A.length = A := by
  simp

@[simp] theorem drop_around (A B : List α) (c : α) : (A ++ c :: B).drop (A.length + 1) = B := by
  simp

theorem insertIdx_around (A B : List α) (c : α) : (A ++ B).insertIdx A.length c = A ++ c :: B := by
  induction A with
  | nil => rfl
  | cons a A ih => rw [cons_append, length_cons, insertIdx_succ_cons, ih]; rfl

/-- A list without duplicates and with one member only. -/
theorem eq_singleton {x : α} (h : l.Nodup) (hx : x ∈ l) (hall : ∀ y ∈ l, y = x) : l = [x] := by
  cases l with
  | nil => cases hx
  | cons y l =>
    have hy : y = x := hall y (by simp)
    subst hy
    cases l with
    | nil => rfl
    | cons z l =>
      have hz : z = y := hall z (by simp)
      simp [hz] at h

/-- What a list of lists holds, the part at `i` first. -/
theorem flatMap_around {β : Type*} (f : α → List β) {a : α} (h : l[i]? = some a) :
    (l.flatMap f).Perm (f a ++ (l.eraseIdx i).flatMap f) := by
  obtain ⟨A, B, rfl, rfl⟩ := exists_around h
  rw [eraseIdx_around, flatMap_append, flatMap_cons, flatMap_append]
  exact perm_append_comm_assoc _ _ _

/-- The same with another part at `i`. -/
theorem flatMap_set {β : Type*} (f : α → List β) {a : α} (h : l[i]? = some a) (b : α) :
    ((l.set i b).flatMap f).Perm (f b ++ (l.eraseIdx i).flatMap f) := by
  obtain ⟨A, B, rfl, rfl⟩ := exists_around h
  rw [eraseIdx_around, set_around, flatMap_append, flatMap_cons, flatMap_append]
  exact perm_append_comm_assoc _ _ _

variable [DecidableEq α]

theorem getElem?_of_idxOf? {c : α} (h : l.idxOf? c = some i) : l[i]? = some c := by
  obtain ⟨hlt, e, -⟩ := idxOf?_eq_some_iff.mp h
  rw [List.getElem?_eq_getElem hlt, e]

theorem exists_idxOf? {c : α} (h : c ∈ l) : ∃ i, l.idxOf? c = some i :=
  Option.isSome_iff_exists.mp (isSome_idxOf?.mpr h)

theorem mem_of_idxOf? {c : α} (h : l.idxOf? c = some i) : c ∈ l :=
  mem_of_getElem? (getElem?_of_idxOf? h)

/-- The list around its entry `c`. -/
theorem exists_around_idxOf? {c : α} (h : l.idxOf? c = some i) :
    ∃ A B, l = A ++ c :: B ∧ A.length = i :=
  exists_around (getElem?_of_idxOf? h)

/-- Where one entry is taken out of a list without duplicates, another one goes in. -/
theorem insertIdx_eraseIdx_eq_map (hl : l.Nodup) {x y : α} (hi : l.idxOf? x = some i) :
    (l.eraseIdx i).insertIdx (min i (l.eraseIdx i).length) y =
      l.map fun c => if c = x then y else c := by
  obtain ⟨A, B, rfl, rfl⟩ := exists_around_idxOf? hi
  obtain ⟨hA, hB⟩ : x ∉ A ∧ x ∉ B := by
    rw [nodup_append'] at hl
    exact ⟨fun hx => hl.2.2 hx mem_cons_self, (nodup_cons.mp hl.2.1).1⟩
  have hkeep : ∀ C : List α, x ∉ C → C.map (fun c => if c = x then y else c) = C := fun C hC => by
    refine (map_congr_left fun c hc => if_neg ?_).trans (map_id' C)
    rintro rfl
    exact hC hc
  rw [eraseIdx_around, length_append, Nat.min_eq_left (Nat.le_add_right _ _), insertIdx_around,
    map_append, map_cons, if_pos rfl, hkeep A hA, hkeep B hB]

end Positions
