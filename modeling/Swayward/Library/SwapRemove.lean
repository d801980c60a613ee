/-
  File:      Swayward/Library/SwapRemove.lean
  Subject:   REMOVING ENTRIES OF AN UNORDERED LIST BY SWAPPING IN THE LAST ONE.

  `swapRemove l i` puts the last entry in the place of the one at `i`. Indices that were collected in
  one pass are removed from the highest down, so that an entry swapped in never comes from below an
  index still to be removed: what remains are the entries that were not to go, in some order
  (`removeAll_perm`).
-/
import Mathlib.Data.List.Induction
import Mathlib.Data.List.Perm.Basic

namespace SwapRemove

open List

variable {α : Type*}

/-- `Vec::swap_remove`, for an index of the list. -/
def swapRemove (l : List α) (i : ℕ) : List α :=
  match l.getLast? with
  | some last => (l.set i last).dropLast
  | none => l

/-- The entry at the end of `a` goes, and the last one of `b` moves in front of `b`. -/
theorem exists_swapRemove_append (a b : List α) (x : α) :
    ∃ b', swapRemove (a ++ x :: b) a.length = a ++ b' ∧ b'.Perm b := by
  rcases eq_nil_or_concat b with rfl | ⟨c, y, rfl⟩
  · refine ⟨[], ?_, Perm.refl _⟩
    simp [swapRemove]
  rw [concat_eq_append]
  refine ⟨y :: c, ?_, (perm_append_singleton y c).symm⟩
  have hlast : (a ++ x :: (c ++ [y])).getLast? = some y := by
    rw [← cons_append, ← append_assoc, getLast?_concat]
  have hset : (a ++ x :: (c ++ [y])).set a.length y = (a ++ y :: c) ++ [y] := by
    simp
  simp only [swapRemove, hlast, hset, dropLast_concat]

/-- The indices of the entries that satisfy `p`, in ascending order. -/
def indicesWhere (p : α → Bool) (l : List α) : List ℕ :=
  (l.zipIdx.filter fun x => p x.1).map (·.2)

theorem indicesWhere_append (p : α → Bool) (a : List α) (x : α) :
    indicesWhere p (a ++ [x]) = indicesWhere p a ++ if p x then [a.length] else [] := by
  unfold indicesWhere
  rw [zipIdx_append, filter_append, map_append]
  congr 1
  cases h : p x <;> simp [h]

/-- Indices are removed from the highest down. -/
def removeAll (l : List α) (indices : List ℕ) : List α := indices.reverse.foldl swapRemove l

/-- What follows the part that is gone through may be in any order. -/
theorem foldl_swapRemove_perm (p : α → Bool) (a : List α) : ∀ b : List α,
    ((indicesWhere p a).reverse.foldl swapRemove (a ++ b)).Perm
      (a.filter (fun x => !p x) ++ b) := by
  induction a using reverseRecOn with
  | nil =>
    intro b
    exact Perm.refl _
  | append_singleton a x ih =>
    intro b
    rw [indicesWhere_append, append_assoc, singleton_append, filter_append]
    cases h : p x with
    | true =>
      obtain ⟨b', hb', hperm⟩ := exists_swapRemove_append a b x
      simp only [if_true, reverse_append, reverse_singleton, singleton_append, foldl_cons, hb']
      refine (ih b').trans ?_
      simp only [h, Bool.not_true, filter_cons, Bool.false_eq_true, if_false,
        filter_nil, append_nil]
      exact hperm.append_left _
    | false =>
      simp only [Bool.false_eq_true, if_false, append_nil]
      refine (ih (x :: b)).trans ?_
      simp only [h, Bool.not_false, filter_cons, if_true, filter_nil,
        append_assoc, singleton_append]
      exact Perm.refl _

theorem swapRemove_map {β : Type*} (f : α → β) (l : List α) (i : ℕ) :
    swapRemove (l.map f) i = (swapRemove l i).map f := by
  unfold swapRemove
  rw [getLast?_map]
  cases l.getLast? with
  | none => rfl
  | some last =>
    dsimp only [Option.map_some]
    rw [← map_set, map_dropLast]

theorem removeAll_map {β : Type*} (f : α → β) (l : List α) (indices : List ℕ) :
    removeAll (l.map f) indices = (removeAll l indices).map f := by
  unfold removeAll
  generalize indices.reverse = is
  induction is generalizing l with
  | nil => rfl
  | cons i is ih => rw [foldl_cons, foldl_cons, swapRemove_map, ih]

/-- **Exactly the entries that satisfy `p` are gone.** -/
theorem removeAll_perm (p : α → Bool) (l : List α) :
    (removeAll l (indicesWhere p l)).Perm (l.filter fun x => !p x) := by
  have h := foldl_swapRemove_perm p l []
  rw [append_nil, append_nil] at h
  exact h

/-- The same when every entry was changed before. -/
theorem removeAll_map_perm {β : Type*} (p : α → Bool) (f : α → β) (l : List α) :
    (removeAll (l.map f) (indicesWhere p l)).Perm ((l.filter fun x => !p x).map f) := by
  rw [removeAll_map]
  exact (removeAll_perm p l).map f

end SwapRemove
