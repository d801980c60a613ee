/-
  File:      Swayward/Library/MultiMap.lean
  Subject:   MAPS TO LISTS, and the values that all lists together hold.

  A table that gives every key a list (`HashMap<K, Vec<V>>`). Two readings of it are kept in
  step: `get`, the list under one key, and `values`, all lists one after the other. That `values`
  has no duplicates says at once that no list repeats a value and that no two lists share one, and
  every operation changes `values` by a permutation, an appended value or a sublist:

  * `extend`  -- append to the list under a key (`entry(k).or_default().extend(..)`);
  * `keepAt`  -- filter the list under a key (`get_mut(k)` and `retain`);
  * `keep`    -- filter every list (`values_mut` and `retain`);
  * `erase`   -- drop a list (`AList.erase`).
-/
import Mathlib.Data.List.Flatten
import Mathlib.Data.List.Perm.Subperm
import Swayward.Library.FinMap

/-- A map from keys to lists of values. -/
abbrev MultiMap (α : Type*) (β : Type*) := FinMap α (List β)

namespace MultiMap

open List

variable {α β : Type*}

/-- All values, list after list. -/
def values (m : MultiMap α β) : List β := m.entries.flatMap fun e => e.2

variable [DecidableEq α]
variable (m : MultiMap α β)

/-- The list under a key; a key without a list has the empty one. -/
def get (k : α) : List β := (m.lookup k).getD []

/-- Append `l` to the list under `k`. -/
def extend (k : α) (l : List β) : MultiMap α β := m.insert k (m.get k ++ l)

/-- Filter the list under `k`, if there is one. -/
def keepAt (k : α) (p : β → Bool) : MultiMap α β := m.modify k (·.filter p)

omit [DecidableEq α] in
/-- Filter every list. -/
def keep (p : β → Bool) : MultiMap α β := m.mapVals fun _ l => l.filter p

/-! ## 1. The list under a key -/

theorem get_erase (k j : α) : get (m.erase k) j = if j = k then [] else m.get j := by
  unfold get
  rw [FinMap.lookup_erase_eq]
  by_cases h : j = k
  · simp [h]
  · simp [h]

theorem get_extend (k j : α) (l : List β) :
    (m.extend k l).get j = if j = k then m.get k ++ l else m.get j := by
  unfold extend get
  rw [FinMap.lookup_insert_eq]
  by_cases h : j = k
  · simp [h]
  · simp [h]

theorem get_keepAt (k j : α) (p : β → Bool) :
    (m.keepAt k p).get j = if j = k then (m.get k).filter p else m.get j := by
  unfold keepAt get
  rw [FinMap.lookup_modify]
  by_cases h : j = k
  · rw [if_pos h, if_pos h]
    cases m.lookup k <;> rfl
  · rw [if_neg h, if_neg h]

/-! ## 2. All values -/

theorem values_insert (k : α) (l : List β) : values (m.insert k l) = l ++ values (m.erase k) := rfl

/-- The list under a key can be moved to the front. -/
theorem values_perm_get (k : α) : m.values.Perm (m.get k ++ values (m.erase k)) := by
  have hsplit : ∀ l : List (Sigma fun _ : α => List β), (l.flatMap fun e => e.2).Perm
        ((l.dlookup k).getD [] ++ (l.kerase k).flatMap fun e => e.2) := by
    intro l
    induction l with
    | nil => rfl
    | cons e l ih =>
      obtain ⟨j, v⟩ := e
      by_cases h : k = j
      · subst h
        have herase : (⟨k, v⟩ :: l : List (Sigma fun _ : α => List β)).kerase k = l :=
          kerase_cons_eq rfl
        rw [dlookup_cons_eq, herase]
        rfl
      · rw [dlookup_cons_ne _ _ h, kerase_cons_ne h, flatMap_cons, flatMap_cons]
        exact (ih.append_left v).trans (perm_append_comm_assoc _ _ _)
  exact hsplit m.entries

theorem mem_values {m : MultiMap α β} {x : β} : x ∈ m.values ↔ ∃ k, x ∈ m.get k := by
  constructor
  · intro h
    obtain ⟨⟨k, l⟩, he, hx⟩ := mem_flatMap.mp h
    refine ⟨k, ?_⟩
    unfold get
    rw [AList.mem_lookup_iff.mpr he]
    exact hx
  · rintro ⟨k, hx⟩
    exact (m.values_perm_get k).mem_iff.mpr (mem_append_left _ hx)

theorem values_extend (k : α) (l : List β) : (m.extend k l).values.Perm (m.values ++ l) := by
  unfold extend
  rw [values_insert, append_assoc]
  calc m.get k ++ (l ++ values (m.erase k))
      _ |>.Perm (m.get k ++ (values (m.erase k) ++ l)) := perm_append_comm.append_left _
      _ |>.Perm (m.values ++ l) := by
        rw [← append_assoc]
        exact (m.values_perm_get k).symm.append_right l

theorem values_erase_subperm (k : α) : (values (m.erase k)).Subperm m.values :=
  (sublist_append_right _ _).subperm.trans (m.values_perm_get k).symm.subperm

theorem values_keepAt_subperm (k : α) (p : β → Bool) : (m.keepAt k p).values.Subperm m.values := by
  unfold keepAt FinMap.modify
  cases h : m.lookup k with
  | none => exact Subperm.refl _
  | some l =>
    have hget : m.get k = l := by
      unfold get
      rw [h]
      rfl
    have hfilter : (l.filter p ++ values (m.erase k)).Sublist
        (l ++ values (m.erase k)) := filter_sublist.append_right _
    refine hfilter.subperm.trans ?_
    rw [← hget]
    exact (m.values_perm_get k).symm.subperm

omit [DecidableEq α] in
theorem values_keep (p : β → Bool) : (m.keep p).values = m.values.filter p := by
  unfold values keep FinMap.mapVals
  rw [flatMap_map, filter_flatMap]

/-! ## 3. No value twice -/

omit [DecidableEq α] in
theorem nodup_of_subperm {l l' : List β} (h : l.Subperm l') (hl : l'.Nodup) : l.Nodup := by
  obtain ⟨part, hperm, hsub⟩ := h
  exact hperm.nodup_iff.mp (hl.sublist hsub)

theorem nodup_get {m : MultiMap α β} (h : m.values.Nodup) (k : α) : (m.get k).Nodup :=
  ((m.values_perm_get k).nodup_iff.mp h).of_append_left

/-- Without duplicates, a value is in one list only. -/
theorem key_unique {m : MultiMap α β} (h : m.values.Nodup) {x : β} {j k : α} (hj : x ∈ m.get j)
    (hk : x ∈ m.get k) : j = k := by
  by_contra hne
  have hrest : x ∈ values (m.erase k) := by
    refine mem_values.mpr ⟨j, ?_⟩
    rw [get_erase, if_neg hne]
    exact hj
  have hdisjoint := disjoint_of_nodup_append ((m.values_perm_get k).nodup_iff.mp h)
  exact hdisjoint hk hrest

end MultiMap
