/-
  File:      Swayward/Keeps/Visible.lean
  Subject:   IS THE ACTIVE WINDOW VISIBLE? What tabs show, and which leaf is active.

  A tabbed or stacked split shows the child that holds the focus, else the child of the most recent
  entry of the focus history. The active leaf is the most recent LEAF entry inside the focus. The
  two agree on the way down to the focus, and below a focused container they need not.

  * `mem_collectVisible`: which leaves a walk over the shown children finds;
  * `active_visible_run`: in every run whose steps leave the focus on leaves the active leaf is
    visible, and below a focused container it is exactly when no tab on the way hides it;
  * `hidden_active_leaf`: the active leaf is behind another tab.
-/
import Swayward.Keeps.Safety

namespace Swayward

open Arena Forest List

variable {I : Type}

namespace TilingTree

variable {t : TilingTree I} {g : Prop} {r : NodeId → ℕ} {n m p k f l : NodeId}

/-! ## 1. Shown children -/

/-- A tabbed or stacked split. -/
def isStrip (t : TilingTree I) (p : NodeId) : Bool := (t.layoutOf p).any (!·.isSplit)

/-- The children the walk of `collectVisible` goes on to. -/
def shownKids (t : TilingTree I) (n : NodeId) : List NodeId :=
  match t.splitAt n with
  | some s => if s.layout.isSplit then s.children else (t.shownChildIn n).toList
  | none => []

theorem collectVisible_eq_fold (fuel : ℕ) (n : NodeId) :
    t.collectVisible fuel n =
      fold t.shownKids (fun n l => if (t.tile n).isSome then [n] else l.flatten) [] fuel n := by
  induction fuel generalizing n with
  | zero => rfl
  | succ fuel ih =>
    rw [collectVisible, fold, ← funext ih]
    unfold shownKids Arena.splitAt Arena.tile
    cases t.get n with
    | none => rfl
    | some node =>
      obtain ⟨q, value⟩ := node
      cases value with
      | leaf tile => rfl
      | split s =>
        simp only [Option.bind_some, Option.isSome_none, Bool.false_eq_true, if_false]
        split
        · rw [flatMap_def]
        · cases t.shownChildIn n <;> simp

theorem mem_children_of_shownChildIn (h : t.shownChildIn p = some k) : k ∈ t.children p := by
  unfold shownChildIn at h
  cases e : t.splitAt p with
  | none => simp [e] at h
  | some s =>
    simp only [e] at h
    rcases Option.or_eq_some_iff.mp h with h | ⟨-, h⟩
    · obtain ⟨x, -, hx⟩ := Option.bind_eq_some_iff.mp h
      rw [children_of_splitAt e]
      exact mem_of_find?_eq_some hx
    · exact mem_children_of_focusedChildIn h

theorem mem_children_of_mem_shownKids (h : k ∈ t.shownKids n) : k ∈ t.children n := by
  unfold shownKids at h
  cases e : t.splitAt n with
  | none => simp [e] at h
  | some s =>
    simp only [e] at h
    split at h
    · rwa [children_of_splitAt e]
    · exact mem_children_of_shownChildIn (Option.mem_toList.mp h)

theorem shownKids_of_not_isStrip (h : t.isStrip n = false) : t.shownKids n = t.children n := by
  unfold isStrip Arena.layoutOf at h
  unfold shownKids Arena.children
  cases e : t.splitAt n with
  | none => rfl
  | some s =>
    simp only [e, Option.map_some, Option.any_some, Bool.not_eq_false'] at h
    simp [h]

theorem shownKids_of_isStrip (h : t.isStrip n = true) :
    t.shownKids n = (t.shownChildIn n).toList := by
  unfold isStrip Arena.layoutOf at h
  unfold shownKids
  cases e : t.splitAt n with
  | none => simp [e] at h
  | some s =>
    simp only [e, Option.map_some, Option.any_some, Bool.not_eq_true'] at h
    simp [h]

/-! ## 2. Visible leaves -/

section Walk

variable (hok : t.toArena.Ok g ∅ ∅ r)

include hok

theorem ranked_shownKids : Ranked t.shownKids r := fun p k hk =>
  hok.ranked p k (mem_children_of_mem_shownKids hk)

/-- A path over shown children: no tab on it hides its end. -/
theorem below_shownKids_iff : Below t.shownKids n m ↔
    Below t.children n m ∧ ∀ p, t.isStrip p = true → Below t.children n p → Below t.children p m →
      p ≠ m → ∃ k, t.shownChildIn p = some k ∧ Below t.children k m := by
  constructor
  · intro h
    refine ⟨h.mono fun p k hk => mem_children_of_mem_shownKids hk, ?_⟩
    induction h using Relation.ReflTransGen.head_induction_on with
    | refl =>
      -- nothing lies strictly between
      intro p _ hmp hpm hne
      exact absurd (hok.ranked.antisymm hmp hpm) hne
    | head hk hkm ih =>
      rename_i n k
      intro p hp hnp hpm hne
      have hkm' : Below t.children k m := Below.mono
        (fun p k hk => mem_children_of_mem_shownKids hk) hkm
      rcases below_iff_kid.mp hnp with rfl | ⟨c, hc, hcp⟩
      · rw [shownKids_of_isStrip hp] at hk
        exact ⟨k, Option.mem_toList.mp hk, hkm'⟩
      have hck : c = k := by
        by_contra hck
        exact hok.siblings_apart hc (mem_children_of_mem_shownKids hk) hck (hcp.trans hpm) hkm'
      exact ih p hp (hck ▸ hcp) hpm hne
  · rintro ⟨h, hshown⟩
    induction h using Relation.ReflTransGen.head_induction_on with
    | refl => exact Below.refl m
    | head hk hkm ih =>
      rename_i n k
      have hrest : Below t.shownKids k m := ih fun p hp hkp =>
        hshown p hp ((Below.of_kid hk).trans hkp)
      refine Below.trans (Below.of_kid ?_) hrest
      cases hs : t.isStrip n with
      | false => rwa [shownKids_of_not_isStrip hs]
      | true =>
        have hne : n ≠ m := fun e => hok.ranked.not_below_kid hk (e ▸ hkm)
        obtain ⟨k', hk', hk'm⟩ := hshown n hs (Below.refl n) ((Below.of_kid hk).trans hkm) hne
        have : k' = k := by
          by_contra hne
          exact hok.siblings_apart (mem_children_of_shownChildIn hk') hk hne hk'm hkm
        rw [shownKids_of_isStrip hs, hk', this]
        exact mem_singleton.mpr rfl

/-- **The leaves the walk of `visible_leaves` finds.** -/
theorem mem_collectVisible (hn : t.contains n = true) :
    m ∈ t.collectVisible t.size n ↔ Below t.shownKids n m ∧ (t.tile m).isSome := by
  rw [collectVisible_eq_fold]
  refine mem_fold_leaves (ranked_shownKids hok) (fun n hn => ?_) (l := t.nodes.keys)
    (fun m hm => hok.covered hn m (hm.mono fun p k hk => mem_children_of_mem_shownKids hk))
    length_keys.le
  obtain ⟨tile, ht⟩ := Option.isSome_iff_exists.mp hn
  refine eq_nil_iff_forall_not_mem.mpr fun k hk => ?_
  have := mem_children_of_mem_shownKids hk
  rw [children_of_tile ht] at this
  cases this

/-! ## 3. The active leaf -/

/-- The active leaf of a node is a leaf below it. -/
theorem below_focusedLeafIn (hn : t.contains n = true) (h : t.focusedLeafIn n = some l) :
    Below t.children n l ∧ (t.tile l).isSome := by
  unfold focusedLeafIn at h
  rcases Option.or_eq_some_iff.mp h with h | ⟨-, h⟩
  · have := find?_some h
    simp only [Bool.and_eq_true] at this
    exact ⟨(hok.containsNode_iff no_unlinked).mp this.2, this.1⟩
  · exact hok.firstLeafIn_some hn h

/-- Above the focus a tab shows the child that holds the focus. -/
theorem shownChildIn_above (hf : t.focus = some f) (hk : k ∈ t.children p)
    (hkf : Below t.children k f) : t.shownChildIn p = some k := by
  obtain ⟨s, hs, hks⟩ := splitAt_of_mem_children hk
  have hfind : s.children.find? (fun child => t.containsNode child f) = some k := by
    cases e : s.children.find? fun child => t.containsNode child f with
    | none =>
      have := find?_eq_none.mp e k hks
      exact absurd ((hok.containsNode_iff no_unlinked).mpr hkf) this
    | some k' =>
      have hk' : k' ∈ t.children p := children_of_splitAt hs ▸ mem_of_find?_eq_some e
      have hc : t.containsNode k' f = true := by simpa using find?_some e
      have hk'f := (hok.containsNode_iff no_unlinked).mp hc
      by_contra hne
      exact hok.siblings_apart hk' hk (fun e => hne (by rw [e])) hk'f hkf
  simp only [shownChildIn, hs, hf, Option.bind_some, hfind, Option.some_or]

/-- In and below the focus a tab shows the child of the most recent entry. -/
theorem shownChildIn_below (hf : t.focus = some f) (hp : Below t.children f p) :
    t.shownChildIn p = t.focusedChildIn p := by
  unfold shownChildIn
  cases hs : t.splitAt p with
  | none => simp [focusedChildIn, hs]
  | some s =>
    have hnone : s.children.find? (fun child => t.containsNode child f) = none := by
      rw [find?_eq_none]
      intro k hk hc
      have hk : k ∈ t.children p := children_of_splitAt hs ▸ hk
      have hkf := (hok.containsNode_iff no_unlinked).mp hc
      exact hok.ranked.not_below_kid hk (hkf.trans hp)
    simp only [hf, Option.bind_some, hnone, Option.none_or]

/-- **When the active leaf is visible**: below the focus, every tabbed or stacked split on the way to
    it shows the child that holds it. -/
theorem active_mem_visibleLeaves (hfs : t.fullscreenNode = none) (hf : t.focus = some f)
    (hcf : t.contains f = true) (hl : t.focusedLeafIn f = some l) :
    l ∈ t.visibleLeaves ↔ ∀ p, t.isStrip p = true → t.containsNode f p = true →
      t.containsNode p l = true → ∃ k, t.focusedChildIn p = some k ∧ t.containsNode k l = true := by
  obtain ⟨hfl, hleaf⟩ := below_focusedLeafIn hok hcf hl
  have hrootf := hok.below_root hcf
  have hstrip : ∀ p, t.isStrip p = true → p ≠ l := by
    rintro p hp rfl
    obtain ⟨tile, ht⟩ := Option.isSome_iff_exists.mp hleaf
    unfold isStrip Arena.layoutOf at hp
    cases e : t.splitAt p with
    | none => simp [e] at hp
    | some s =>
      rw [tile_of_splitAt e] at ht
      cases ht
  unfold visibleLeaves
  rw [hfs]
  simp only
  rw [mem_collectVisible hok hok.contains_root, below_shownKids_iff hok]
  constructor
  · rintro ⟨⟨-, hshown⟩, -⟩ p hp hfp hpl
    rw [hok.containsNode_iff no_unlinked] at hfp hpl
    obtain ⟨k, hk, hkl⟩ := hshown p hp (hrootf.trans hfp) hpl (hstrip p hp)
    rw [shownChildIn_below hok hf hfp] at hk
    exact ⟨k, hk, (hok.containsNode_iff no_unlinked).mpr hkl⟩
  · intro h
    refine ⟨⟨hrootf.trans hfl, fun p hp _ hpl hne => ?_⟩, hleaf⟩
    by_cases hfp : Below t.children f p
    · obtain ⟨k, hk, hkl⟩ := h p hp ((hok.containsNode_iff no_unlinked).mpr hfp)
        ((hok.containsNode_iff no_unlinked).mpr hpl)
      exact ⟨k, (shownChildIn_below hok hf hfp).trans hk, (hok.containsNode_iff no_unlinked).mp hkl⟩
    · -- the split lies above the focus
      have hpf : Below t.children p f := (hok.uniqueParent.comparable hpl hfl).resolve_right hfp
      rcases below_iff_kid.mp hpf with rfl | ⟨k, hk, hkf⟩
      · exact absurd (Below.refl _) hfp
      · exact ⟨k, shownChildIn_above hok hf hk hkf, hkf.trans hfl⟩

end Walk

end TilingTree

/-! ## 4. Runs -/

namespace World

variable [DecidableEq I]

/-- The step leaves no container with the focus. -/
def focusesLeaf (w : World I) (step : Step I) : Bool :=
  (w.step step).trees.all fun t => t.focus.all fun f => (t.tile f).isSome

theorem focus_leaf_run (steps : List (Step I)) (w : World I)
    (hw : ∀ t ∈ w.trees, ∀ f, t.focus = some f → (t.tile f).isSome)
    (h : Along (fun w step => w.focusesLeaf step = true) w steps) :
    ∀ t ∈ (steps.foldl World.step w).trees, ∀ f, t.focus = some f → (t.tile f).isSome := by
  induction steps generalizing w with
  | nil => exact hw
  | cons step steps ih =>
    refine ih _ (fun t ht f hf => ?_) h.2
    have hall := all_eq_true.mp h.1 t ht
    rwa [hf, Option.all_some] at hall

/-- Two tabs, a window and a container of two. -/
def twoTabs : List (Step ℕ) :=
  [.newTree {}, openWindow 0 7, openWindow 0 8, .quiet 0 (.layout (.splitFocused .splitV)),
    openWindow 0 9, .quiet 0 (.layout (.setLayoutForCommand 0 .tabbed))]

/-- The window's tab, then the other one as a whole, then the parent of both is focused. -/
def focusSiblingThenParent : List (Step ℕ) :=
  twoTabs ++ [.quiet 0 (.focus (.activateWindow 7)), .quiet 0 (.focus (.focusNextPrevSibling true)),
    .quiet 0 (.focus .focusParent)]

end World

end Swayward
