/-
  File:      Swayward/Library/FinMap.lean
  Subject:   FINITE MAPS with the operations a hash map offers.

  A finite map is an association list without duplicate keys (`AList`). Mathlib has `insert`,
  `erase` and `lookup`; this file adds the bulk operations a hash map has besides them, each
  with the one equation that says what a later `lookup` answers:

  * `modify`  -- change the value under one key, if there is one (`get_mut`);
  * `retain`  -- keep the entries a predicate accepts (`retain`);
  * `mapVals` -- change every value, keys untouched (`values_mut`);
  * `all`     -- ask a question about every value (`values().all`).
-/
import Mathlib.Data.List.AList

/-- A finite map from `α` to `β`. -/
abbrev FinMap (α : Type*) (β : Type*) := AList (fun _ : α => β)

namespace FinMap

open List
open Option (mem_def)
open AList (ext lookup_isSome mem_lookup_iff)

variable {α β γ : Type*} [DecidableEq α]
variable {m : FinMap α β}

theorem lookup_insert_eq (m : FinMap α β) (k j : α) (v : β) :
    (m.insert k v).lookup j = if j = k then some v else m.lookup j := by
  by_cases h : j = k
  · subst h; simp
  · simp [h]

theorem lookup_erase_eq (m : FinMap α β) (k j : α) :
    (m.erase k).lookup j = if j = k then none else m.lookup j := by
  by_cases h : j = k
  · subst h; simp
  · simp [h]

theorem mem_iff_lookup {k : α} : k ∈ m ↔ ∃ v, m.lookup k = some v := by
  rw [← lookup_isSome, Option.isSome_iff_exists]

omit [DecidableEq α] in
theorem eq_empty_of_forall_notMem (h : ∀ k, k ∉ m) : m = ∅ := by
  refine ext (eq_nil_iff_forall_not_mem.mpr fun e he => h e.1 ?_)
  exact mem_map_of_mem he

/-- Inserting one value under several keys. -/
theorem lookup_foldl_insert (m : FinMap α β) (ks : List α) (v : β) (j : α) :
    (ks.foldl (fun (m : FinMap α β) k => m.insert k v) m).lookup j =
      if j ∈ ks then some v else m.lookup j := by
  induction ks generalizing m with
  | nil => simp
  | cons k ks ih =>
    rw [foldl_cons, ih, lookup_insert_eq]
    by_cases hj : j ∈ ks <;> by_cases e : j = k <;> simp [hj, e]

/-- The keys after inserting a list of entries. -/
theorem mem_foldl_insert {δ : Type*} (l : List δ) (key : δ → α) (value : δ → β)
    (m : FinMap α β) (j : α) :
    j ∈ l.foldl (fun (m : FinMap α β) e => m.insert (key e) (value e)) m ↔
      (∃ e ∈ l, key e = j) ∨ j ∈ m := by
  induction l generalizing m with
  | nil => simp
  | cons e l ih =>
    rw [foldl_cons, ih, AList.mem_insert]
    simp only [mem_cons, exists_eq_or_imp, eq_comm (b := j)]
    rw [or_left_comm, or_assoc]

/-- A value after inserting a list of entries is that of one of them, or was there before. -/
theorem lookup_foldl_insert_some {δ : Type*} (l : List δ) (key : δ → α) (value : δ → β) {j : α}
    {v : β}
    (h : (l.foldl (fun (m : FinMap α β) e => m.insert (key e) (value e)) m).lookup j = some v) :
    (∃ e ∈ l, key e = j ∧ value e = v) ∨ m.lookup j = some v := by
  induction l generalizing m with
  | nil => exact .inr h
  | cons e l ih =>
    rcases ih h with ⟨e', he', hkey, hvalue⟩ | h
    · exact .inl ⟨e', mem_cons_of_mem _ he', hkey, hvalue⟩
    rw [lookup_insert_eq] at h
    split_ifs at h with heq
    · exact .inl ⟨e, mem_cons_self, heq.symm, Option.some.inj h⟩
    · exact .inr h

/-! ## 1. Changing one value -/

variable (m)

/-- Apply `f` to the value under `k`; a map without `k` stays as it is. -/
def modify (k : α) (f : β → β) : FinMap α β :=
  match m.lookup k with
  | some v => m.insert k (f v)
  | none => m

theorem lookup_modify (k j : α) (f : β → β) :
    (m.modify k f).lookup j = if j = k then (m.lookup k).map f else m.lookup j := by
  unfold modify
  cases h : m.lookup k with
  | some v => simp [lookup_insert_eq]
  | none =>
    by_cases e : j = k
    · subst e; simp [h]
    · simp [e]

@[simp] theorem mem_modify (k j : α) (f : β → β) : j ∈ m.modify k f ↔ j ∈ m := by
  rw [← lookup_isSome, ← lookup_isSome, lookup_modify]
  by_cases e : j = k
  · subst e; simp
  · simp [e]

/-! ## 2. Keeping some entries -/

/-- Keep the entries `keep` accepts. -/
def retain (keep : α → β → Bool) : FinMap α β where
  entries := m.entries.filter fun e => keep e.1 e.2
  nodupKeys := m.nodupKeys.sublist filter_sublist

theorem lookup_retain (keep : α → β → Bool) (j : α) :
    (m.retain keep).lookup j = (m.lookup j).filter (keep j) := by
  apply Option.ext
  intro v
  rw [← mem_def, ← mem_def, mem_lookup_iff, Option.mem_filter_iff, mem_lookup_iff]
  simp [retain]

variable {m} in
theorem mem_of_mem_retain {keep : α → β → Bool} {j : α} (h : j ∈ m.retain keep) : j ∈ m := by
  rw [← lookup_isSome, lookup_retain] at h
  rw [← lookup_isSome]
  cases e : m.lookup j with
  | none => simp [e] at h
  | some v => simp

/-! ## 3. Changing every value -/

/-- Apply `f` to every value. -/
def mapVals (f : α → β → γ) : FinMap α γ where
  entries := m.entries.map fun e => ⟨e.1, f e.1 e.2⟩
  nodupKeys := by
    have h := m.nodupKeys
    simp only [NodupKeys, keys, map_map] at h ⊢
    exact h

theorem map_kerase (l : List (Sigma fun _ : α => β)) (k : α) (f : α → β → γ) :
    (l.kerase k).map (fun e => (⟨e.1, f e.1 e.2⟩ : Sigma fun _ : α => γ)) =
      (l.map fun e => (⟨e.1, f e.1 e.2⟩ : Sigma fun _ : α => γ)).kerase k := by
  induction l with
  | nil => rfl
  | cons e l ih =>
    rw [map_cons]
    by_cases h : k = e.1
    · rw [kerase_cons_eq h]
      exact (kerase_cons_eq (s := (⟨e.1, f e.1 e.2⟩ : Sigma fun _ : α => γ)) h).symm
    · rw [kerase_cons_ne h, map_cons, ih]
      exact (kerase_cons_ne (s := (⟨e.1, f e.1 e.2⟩ : Sigma fun _ : α => γ)) h).symm

theorem lookup_mapVals (f : α → β → γ) (j : α) :
    (m.mapVals f).lookup j = (m.lookup j).map (f j) := by
  apply Option.ext
  intro v
  rw [← mem_def, ← mem_def, mem_lookup_iff, mem_def, Option.map_eq_some_iff]
  simp only [mapVals, mem_map, ← mem_def, mem_lookup_iff]
  constructor
  · rintro ⟨⟨k, b⟩, hm, e⟩
    cases e
    exact ⟨b, hm, rfl⟩
  · rintro ⟨b, hm, rfl⟩
    exact ⟨⟨j, b⟩, hm, rfl⟩

@[simp] theorem mem_mapVals (f : α → β → γ) (j : α) : j ∈ m.mapVals f ↔ j ∈ m := by
  rw [← lookup_isSome, ← lookup_isSome, lookup_mapVals]
  simp

omit [DecidableEq α] in
@[simp] theorem keys_mapVals (f : α → β → γ) : (m.mapVals f).keys = m.keys := by
  simp [mapVals, AList.keys, keys]

theorem mapVals_insert (k : α) (v : β) (f : α → β → γ) :
    mapVals (m.insert k v) f = (m.mapVals f).insert k (f k v) :=
  ext (congrArg (cons _) (map_kerase m.entries k f))

theorem mapVals_erase (k : α) (f : α → β → γ) :
    mapVals (m.erase k) f = (m.mapVals f).erase k :=
  ext (map_kerase m.entries k f)

theorem mapVals_modify (k : α) {f : α → β → γ} {change : β → β}
    {change' : γ → γ} (h : ∀ v, f k (change v) = change' (f k v)) :
    (m.modify k change).mapVals f = (m.mapVals f).modify k change' := by
  unfold modify
  rw [lookup_mapVals]
  cases m.lookup k with
  | none => rfl
  | some v => rw [mapVals_insert, h]; rfl

variable {m} in
theorem mapVals_congr {f g : α → β → γ} (h : ∀ k v, m.lookup k = some v → f k v = g k v) :
    m.mapVals f = m.mapVals g := by
  refine ext (map_congr_left fun e he => ?_)
  rw [h e.1 e.2 (mem_lookup_iff.mpr he)]

omit [DecidableEq α] in
theorem mapVals_mapVals {δ : Type*} (f : α → β → γ) (g : α → γ → δ) :
    (m.mapVals f).mapVals g = m.mapVals fun k v => g k (f k v) := by
  refine ext ?_
  simp [mapVals]

/-! ## 4. Asking every value -/

/-- Whether `p` accepts every value. -/
def all (p : β → Bool) : Bool := m.entries.all fun e => p e.2

omit [DecidableEq α] in
theorem all_mapVals (f : α → β → γ) {p : β → Bool} {q : γ → Bool}
    (h : ∀ k v, q (f k v) = p v) : (m.mapVals f).all q = m.all p := by
  unfold all mapVals
  rw [all_map]
  exact congrArg m.entries.all (funext fun e => h e.1 e.2)

variable {m} in
theorem all_eq_true {p : β → Bool} : m.all p = true ↔ ∀ k v, m.lookup k = some v → p v = true := by
  unfold all
  rw [List.all_eq_true]
  constructor
  · intro h k v hv
    exact h ⟨k, v⟩ (mem_lookup_iff.mp hv)
  · rintro h ⟨k, v⟩ hmem
    exact h k v (mem_lookup_iff.mpr hmem)

end FinMap
