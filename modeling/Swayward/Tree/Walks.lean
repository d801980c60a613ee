/-
  File:      Swayward/Tree/Walks.lean
  Subject:   WHAT THE WALKS OF THE ARENA FIND: ancestors, depth, height, subtrees, leaves.

  The walks carry the number of nodes as fuel. On an arena that satisfies `Arena.Ok` that is
  enough, and each of them satisfies the equation of the source's loop or recursion; what it finds
  is stated with `Forest.Below`.
-/
import Mathlib.Data.List.MinMax
import Swayward.Tree.Edits

namespace Swayward

variable {I : Type} {g : Prop}

open Forest List

namespace Arena

variable {D E : Set NodeId} {r : NodeId → ℕ} {a : Arena I}
variable {n x m : NodeId}

theorem mem_keys_of_contains (h : a.contains n = true) : n ∈ a.nodes.keys := by
  unfold contains get at h
  rw [AList.lookup_isSome] at h
  exact h

theorem length_keys : a.nodes.keys.length = a.size := by
  simp [AList.keys, keys, size]

/-! ## 1. Up -/

/-- Parent links lead to nodes of smaller rank. -/
structure Climbs (r : NodeId → ℕ) (a : Arena I) : Prop where
  node : ∀ {n p}, a.parentOf n = some p → a.contains p = true
  rank : ∀ n p, a.parentOf n = some p → r p < r n

theorem Ok.climbs (h : Ok g D E r a) (hD : ∀ n ∈ D, a.parentOf n = none) : Climbs r a where
  node {n p} hp := by
    have hn : n ∉ D := fun hn => by simp [hD n hn] at hp
    obtain ⟨s, hs, -⟩ := splitAt_of_mem_children (h.mem_children_of hp hn)
    exact contains_of_splitAt hs
  rank n p hp := by
    have hn : n ∉ D := fun hn => by simp [hD n hn] at hp
    exact h.ranked p n (h.mem_children_of hp hn)

section

variable (h : Climbs r a)
include h

theorem Climbs.ancestors_eq (n : NodeId) :
    a.ancestors n = match a.parentOf n with | none => [] | some p => p :: a.ancestors p := by
  unfold ancestors
  rw [climb_unfold h.rank (fun _ _ hp => mem_keys_of_contains (contains_of_parentOf hp))
    length_keys.le]
  cases a.parentOf n <;> rfl

theorem Climbs.mem_ancestors : x ∈ a.ancestors n ↔ Above a.parentOf x n :=
  mem_climb_iff h.rank (fun _ _ hp => mem_keys_of_contains (contains_of_parentOf hp)) length_keys.le

theorem Climbs.contains_ancestors (hx : x ∈ a.ancestors n) : a.contains x = true := by
  obtain ⟨p, hxp, hp⟩ := Relation.TransGen.tail'_iff.mp (h.mem_ancestors.mp hx)
  rcases Relation.ReflTransGen.cases_head hxp with rfl | ⟨c, hc, -⟩
  · exact h.node hp
  · exact h.node hc

/-- Ranks fall along the way up, so no node is met twice. -/
theorem Climbs.rank_ancestors (hx : x ∈ a.ancestors n) : r x < r n := by
  rw [h.mem_ancestors] at hx
  induction hx with
  | single hp => exact h.rank _ _ hp
  | tail _ hp ih => exact ih.trans (h.rank _ _ hp)

theorem Climbs.nodup_ancestors (n : NodeId) : (a.ancestors n).Nodup := by
  induction hk : r n using Nat.strong_induction_on generalizing n with
  | h k ih =>
    rw [h.ancestors_eq]
    cases e : a.parentOf n with
    | none => exact nodup_nil
    | some p =>
      refine nodup_cons.mpr ⟨fun hp => ?_, ih (r p) (hk ▸ h.rank n p e) p rfl⟩
      exact lt_irrefl _ (h.rank_ancestors hp)

/-- A node has at most as many ancestors as its rank. -/
theorem Climbs.length_ancestors_le (n : NodeId) : (a.ancestors n).length ≤ r n := by
  induction hk : r n using Nat.strong_induction_on generalizing n with
  | h k ih =>
    rw [h.ancestors_eq]
    cases e : a.parentOf n with
    | none => exact Nat.zero_le _
    | some p =>
      have hlt := h.rank n p e
      exact (Nat.succ_le_succ (ih (r p) (hk ▸ hlt) p rfl)).trans (hk ▸ hlt)

end

/-- Going up the parent links is going up the child lists. -/
theorem Ok.above_iff (h : Ok g D E r a) (hD : ∀ n ∈ D, a.parentOf n = none) :
    Above a.parentOf x n ↔ Below a.children x n ∧ n ≠ x := by
  have hlink : ∀ p c, a.parentOf c = some p ↔ c ∈ a.children p := by
    intro p c
    refine ⟨fun hp => h.mem_children_of hp fun hc => ?_, h.kid_parent⟩
    rw [hD c hc] at hp
    cases hp
  have hrel : (fun p c => a.parentOf c = some p) = fun p c => c ∈ a.children p := by
    funext p c
    exact propext (hlink p c)
  unfold Above Below
  rw [hrel]
  constructor
  · intro hx
    refine ⟨hx.to_reflTransGen, ?_⟩
    rintro rfl
    obtain ⟨p, hp, hn⟩ := Relation.TransGen.tail'_iff.mp hx
    exact h.ranked.not_below_kid hn hp
  · rintro ⟨hx, hne⟩
    exact (Relation.reflTransGen_iff_eq_or_transGen.mp hx).resolve_left hne

/-- **`containsNode` decides whether a node lies in a subtree.** -/
theorem Ok.containsNode_iff (h : Ok g D E r a) (hD : ∀ n ∈ D, a.parentOf n = none) :
    a.containsNode x n = true ↔ Below a.children x n := by
  unfold containsNode
  rw [Bool.or_eq_true, beq_iff_eq, contains_iff_mem, (h.climbs hD).mem_ancestors, h.above_iff hD]
  refine ⟨?_, fun hx => ?_⟩
  · rintro (rfl | ⟨hx, -⟩)
    · exact Below.refl _
    · exact hx
  · by_cases e : n = x
    · exact .inl e
    · exact .inr ⟨hx, e⟩

/-! ## 2. Depth -/

theorem Climbs.nodeDepth_eq (h : Climbs r a) (n : NodeId) :
    a.nodeDepth n = match a.parentOf n with | none => 0 | some p => a.nodeDepth p + 1 := by
  unfold nodeDepth
  rw [h.ancestors_eq]
  cases a.parentOf n <;> rfl

theorem Climbs.nodeDepth_le (h : Climbs r a) (n : NodeId) : a.nodeDepth n ≤ r n := by
  induction hk : r n using Nat.strong_induction_on generalizing n with
  | h k ih =>
    rw [h.nodeDepth_eq]
    cases e : a.parentOf n with
    | none => exact Nat.zero_le _
    | some p =>
      have hp := h.rank n p e
      have := ih (r p) (hk ▸ hp) p rfl
      simp only
      omega

theorem Ok.nodeDepth_kid (h : Ok g D E r a) (hD : ∀ n ∈ D, a.parentOf n = none) {p c : NodeId}
    (hc : c ∈ a.children p) : a.nodeDepth c = a.nodeDepth p + 1 := by
  rw [(h.climbs hD).nodeDepth_eq, h.kid_parent hc]

/-- Depth is a rank, the smallest one. -/
theorem Ok.exact (h : Ok g D E r a) (hD : ∀ n ∈ D, a.parentOf n = none) : Ok g D E a.nodeDepth a :=
  { h with ranked := fun p c hc => by rw [h.nodeDepth_kid hD hc]; exact Nat.lt_succ_self _ }

/-! ## 3. Down -/

/-- Every linked node is in the subtree of the root. -/
theorem Ok.below_root (h : Ok g ∅ E r a) (hn : a.contains n = true) :
    Below a.children a.root n := by
  induction hk : r n using Nat.strong_induction_on generalizing n with
  | h k ih =>
    by_cases e : n = a.root
    · exact e ▸ Below.refl _
    · obtain ⟨p, hp⟩ := h.home hn e (Set.notMem_empty n)
      obtain ⟨s, hs, -⟩ := splitAt_of_mem_children hp
      exact (ih (r p) (hk ▸ h.ranked p n hp) (contains_of_splitAt hs) rfl).step hp

theorem Ok.contains_below (h : Ok g D E r a) (hn : a.contains n = true)
    (hm : Below a.children n m) : a.contains m = true := by
  by_cases e : m = n
  · rwa [e]
  · obtain ⟨p, -, hp⟩ := hm.parent e
    exact h.contains_kid hp

theorem Ok.covered (h : Ok g D E r a) (hn : a.contains n = true) :
    CoveredBy a.children n a.nodes.keys :=
  fun _ hm => mem_keys_of_contains (h.contains_below hn hm)

theorem heightFrom_eq_fold (fuel : ℕ) (n : NodeId) :
    a.heightFrom fuel n = fold a.children (fun _ l => 1 + l.foldr max 0) 1 fuel n := by
  induction fuel generalizing n with
  | zero => rfl
  | succ fuel ih => simp only [heightFrom, fold, funext ih]

theorem Ok.subtreeHeight_eq (h : Ok g D E r a) (hn : a.contains n = true) :
    a.subtreeHeight n = 1 + ((a.children n).map a.subtreeHeight).foldr max 0 := by
  have hf : a.subtreeHeight = fold a.children (fun _ l => 1 + l.foldr max 0) 1 a.size :=
    funext (heightFrom_eq_fold a.size)
  rw [hf]
  exact fold_unfold h.ranked _ _ (h.covered hn) length_keys.le

theorem Ok.subtreeHeight_kid (h : Ok g D E r a) {c : NodeId} (hc : c ∈ a.children n) :
    a.subtreeHeight c + 1 ≤ a.subtreeHeight n := by
  obtain ⟨s, hs, -⟩ := splitAt_of_mem_children hc
  rw [h.subtreeHeight_eq (contains_of_splitAt hs)]
  have := le_max_of_le' 0 (mem_map_of_mem (f := a.subtreeHeight) hc) le_rfl
  omega

/-- **How deep a subtree reaches.** -/
theorem Ok.nodeDepth_below (h : Ok g D E r a) (hD : ∀ n ∈ D, a.parentOf n = none)
    (hn : a.contains n = true) (hm : Below a.children n m) :
    a.nodeDepth m + 1 ≤ a.nodeDepth n + a.subtreeHeight n := by
  have hpos : ∀ {x}, a.contains x = true → 1 ≤ a.subtreeHeight x := fun hx => by
    rw [h.subtreeHeight_eq hx]
    omega
  -- along the path down, each level costs at most one level of height
  have hpath : a.nodeDepth m + a.subtreeHeight m ≤ a.nodeDepth n + a.subtreeHeight n := by
    induction hm with
    | refl => exact le_rfl
    | tail _ hc ih =>
      have := h.nodeDepth_kid hD hc
      have := h.subtreeHeight_kid hc
      omega
  have := hpos (h.contains_below hn hm)
  omega

/-! ## 4. Subtrees in order -/

theorem collectDepthFirst_eq_fold (fuel : ℕ) (n : NodeId) :
    a.collectDepthFirst fuel n =
      fold a.children (fun n l => if a.contains n then n :: l.flatten else []) [] fuel n := by
  induction fuel generalizing n with
  | zero => rfl
  | succ fuel ih => simp only [collectDepthFirst, fold, funext ih, flatMap_def]

theorem Ok.depthFirst_eq (h : Ok g D E r a) (hn : a.contains n = true) :
    a.depthFirst n = n :: (a.children n).flatMap a.depthFirst := by
  have hf : a.depthFirst = fold a.children
      (fun n l => if a.contains n then n :: l.flatten else []) [] a.size :=
    funext (collectDepthFirst_eq_fold a.size)
  rw [hf, fold_unfold h.ranked _ _ (h.covered hn) length_keys.le, if_pos hn, flatMap_def]

theorem Ok.mem_depthFirst (h : Ok g D E r a) (hn : a.contains n = true) :
    m ∈ a.depthFirst n ↔ Below a.children n m := by
  refine subtree_induction (P := fun n => a.contains n = true →
    (m ∈ a.depthFirst n ↔ Below a.children n m)) h.ranked (h.covered hn) (fun n ih hn => ?_) hn
  rw [h.depthFirst_eq hn, below_iff_kid, mem_cons, mem_flatMap]
  refine or_congr_right (exists_congr fun c => and_congr_right fun hc => ?_)
  exact ih c hc (h.contains_kid hc)

/-- Siblings have nothing in common below them. -/
theorem Ok.siblings_apart (h : Ok g D E r a) {c d : NodeId} (hc : c ∈ a.children n)
    (hd : d ∈ a.children n) (hne : c ≠ d) (hx : Below a.children c x) : ¬ Below a.children d x := by
  have hlevel : ∀ {c d}, c ∈ a.children n → d ∈ a.children n → Below a.children c d → d = c := by
    intro c d hc hd hcd
    by_contra hne
    obtain ⟨p, hp, hdp⟩ := hcd.parent hne
    rw [h.uniqueParent _ _ _ hdp hd] at hp
    exact h.ranked.not_below_kid hc hp
  intro hx'
  rcases h.uniqueParent.comparable hx hx' with hcd | hdc
  · exact hne (hlevel hc hd hcd).symm
  · exact hne (hlevel hd hc hdc)

/-- **The depth-first walk meets every node once.** -/
theorem Ok.nodup_depthFirst (h : Ok g D E r a) (hn : a.contains n = true) :
    (a.depthFirst n).Nodup := by
  refine subtree_induction (P := fun n => a.contains n = true → (a.depthFirst n).Nodup)
    h.ranked (h.covered hn) (fun n ih hn => ?_) hn
  rw [h.depthFirst_eq hn, nodup_cons, nodup_flatMap]
  refine ⟨fun hmem => ?_, fun c hc => ih c hc (h.contains_kid hc), ?_⟩
  · obtain ⟨c, hc, hm⟩ := mem_flatMap.mp hmem
    exact h.ranked.not_below_kid hc ((h.mem_depthFirst (h.contains_kid hc)).mp hm)
  · refine (h.nodup n).imp_of_mem fun {c d} hc hd hne x hxc hxd => ?_
    exact h.siblings_apart hc hd hne ((h.mem_depthFirst (h.contains_kid hc)).mp hxc)
      ((h.mem_depthFirst (h.contains_kid hd)).mp hxd)

theorem collectLeafIds_eq_fold (fuel : ℕ) (n : NodeId) :
    a.collectLeafIds fuel n =
      fold a.children (fun n l => if (a.tile n).isSome then [n] else l.flatten) [] fuel n := by
  induction fuel generalizing n with
  | zero => rfl
  | succ fuel ih => simp only [collectLeafIds, fold, funext ih, flatMap_def]

theorem children_of_tile {tile : Tile I} (h : a.tile n = some tile) : a.children n = [] := by
  cases e : a.splitAt n with
  | none => simp [children, e]
  | some s =>
    rw [tile_of_splitAt e] at h
    cases h

/-- **The leaves of a subtree.** -/
theorem Ok.mem_leafIdsIn (h : Ok g D E r a) (hn : a.contains n = true) :
    m ∈ a.leafIdsIn n ↔ Below a.children n m ∧ (a.tile m).isSome := by
  unfold leafIdsIn
  rw [collectLeafIds_eq_fold]
  refine mem_fold_leaves h.ranked (fun n hn => ?_) (h.covered hn) length_keys.le
  obtain ⟨tile, ht⟩ := Option.isSome_iff_exists.mp hn
  exact children_of_tile ht

theorem firstLeafFrom_eq_fold (fuel : ℕ) (n : NodeId) :
    a.firstLeafFrom fuel n =
      fold a.children (fun n l => if (a.tile n).isSome then some n else l.findSome? id) none
        fuel n := by
  induction fuel generalizing n with
  | zero => rfl
  | succ fuel ih =>
    simp only [firstLeafFrom, fold, funext ih, findSome?_map]
    rfl

theorem Ok.firstLeafIn_eq (h : Ok g D E r a) (hn : a.contains n = true) :
    a.firstLeafIn n =
      if (a.tile n).isSome then some n else (a.children n).findSome? a.firstLeafIn := by
  have hf : a.firstLeafIn = fold a.children
      (fun n l => if (a.tile n).isSome then some n else l.findSome? id) none a.size :=
    funext (firstLeafFrom_eq_fold a.size)
  rw [hf, fold_unfold h.ranked _ _ (h.covered hn) length_keys.le, findSome?_map]
  rfl

theorem Ok.firstLeafIn_some (h : Ok g D E r a) (hn : a.contains n = true)
    (hm : a.firstLeafIn n = some m) : Below a.children n m ∧ (a.tile m).isSome := by
  refine subtree_induction (P := fun n => a.contains n = true → a.firstLeafIn n = some m →
    Below a.children n m ∧ (a.tile m).isSome) h.ranked (h.covered hn) (fun n ih hn hm => ?_) hn hm
  rw [h.firstLeafIn_eq hn] at hm
  split at hm
  · cases hm
    exact ⟨Below.refl _, by assumption⟩
  · obtain ⟨c, hc, hm⟩ := exists_of_findSome?_eq_some hm
    obtain ⟨hcm, ht⟩ := ih c hc (h.contains_kid hc) hm
    exact ⟨(Below.of_kid hc).trans hcm, ht⟩

/-- A subtree with a leaf has a first one. -/
theorem Ok.firstLeafIn_isSome (h : Ok g D E r a) (hn : a.contains n = true)
    (hm : Below a.children n m) (ht : (a.tile m).isSome) : (a.firstLeafIn n).isSome := by
  refine subtree_induction (P := fun n => a.contains n = true → Below a.children n m →
    (a.firstLeafIn n).isSome) h.ranked (h.covered hn) (fun n ih hn hm => ?_) hn hm
  rw [h.firstLeafIn_eq hn]
  split
  · rfl
  rename_i hnt
  rcases below_iff_kid.mp hm with rfl | ⟨c, hc, hcm⟩
  · exact absurd ht hnt
  · rw [findSome?_isSome_iff]
    exact ⟨c, hc, ih c hc (h.contains_kid hc) hcm⟩

/-- With no empty split, every subtree has a leaf. -/
theorem Ok.exists_leaf (h : Ok g D ∅ r a) (hg : g) (hn : a.contains n = true) (hroot : n ≠ a.root) :
    ∃ m, Below a.children n m ∧ (a.tile m).isSome := by
  refine subtree_induction (P := fun n => a.contains n = true → n ≠ a.root →
    ∃ m, Below a.children n m ∧ (a.tile m).isSome) h.ranked (h.covered hn)
    (fun n ih hn hroot => ?_) hn hroot
  rcases (a.contains_iff n).mp hn with ⟨s, hs⟩ | ⟨tile, ht⟩
  · obtain ⟨c, hc⟩ := exists_mem_of_ne_nil _ (h.full hg hs hroot (Set.notMem_empty n))
    have hc : c ∈ a.children n := children_of_splitAt hs ▸ hc
    obtain ⟨m, hm, ht⟩ := ih c hc (h.contains_kid hc) fun e => h.root_not_kid n (e ▸ hc)
    exact ⟨m, (Below.of_kid hc).trans hm, ht⟩
  · exact ⟨n, Below.refl n, by simp [ht]⟩

end Arena

end Swayward
