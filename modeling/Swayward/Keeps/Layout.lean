/-
  File:      Swayward/Keeps/Layout.lean
  Subject:   SPLITTING, WRAPPING AND LAYOUT COMMANDS KEEP THE INVARIANT.

  An operation that closes the resize session ends in the context `c.calmed`, whatever `c` said
  about sessions before.
-/
import Swayward.Keeps.Fullscreen

namespace Swayward

variable {I : Type}

open Forest Arena Positions

namespace TilingTree

variable {c : Ctx I} {E : Set NodeId} {t : TilingTree I} {id p n : NodeId}

/-! ## 1. Wrapping -/

/-- **A new split around some children of a split.** -/
theorem Inv.wraps {s s' sw : Split} {a' : Arena I} (h : Inv c E t)
    (hw : Wraps t.toArena p s s' sw a') (hne : c.full → sw.children ≠ [])
    (hK : ∀ x ∈ sw.children, x ∈ s.children)
    (hsound : s.Sound c.full → t.counter ∉ s.children → s'.Sound c.full)
    (hsound' : s.Sound c.full → sw.Sound c.full)
    (hdeep : c.deep → t.nodeDepth p + 1 ≤ maxTreeDepth ∧
      ∀ x ∈ sw.children, ∀ m, Below t.children x m → t.nodeDepth m + 1 ≤ maxTreeDepth) :
    Inv c (E \ {p}) { t with toArena := a' } := by
  obtain ⟨hok, hbound⟩ := h.exact
  have hkid : ∀ x ∈ sw.children, x ∈ t.children p := fun x hx =>
    children_of_splitAt hw.split ▸ hK x hx
  have hfresh : t.counter ∉ s.children := fun hx =>
    hok.ne_counter (hok.contains_kid (children_of_splitAt hw.split ▸ hx)) rfl
  have hok' := hok.wraps hw hne
    (fun x hx => ⟨hok.contains_kid (hkid x hx), .inl (hK x hx), hok.ranked p x (hkid x hx)⟩)
    (hsound (hok.sound hw.split) hfresh) (hsound' (hok.sound hw.split))
  simp only [Set.empty_sdiff] at hok'
  refine h.edit ⟨_, hok', fun hd n hn => ?_⟩ hw.tile fun n hn => (hw.contains n).mpr (.inr hn)
  obtain ⟨hp, hbelow⟩ := hdeep hd
  unfold wrapRank
  split
  · exact hp
  rename_i hnw
  have hn := ((hw.contains n).mp hn).resolve_left hnw
  split_ifs with hx
  · obtain ⟨x, hx, hxn⟩ := hx
    exact hbelow x hx n hxn
  · exact hbound hd n hn

theorem raiseSplitWrapper_eq (t : TilingTree I) (child wrapper : NodeId) :
    ∃ l, t.raiseSplitWrapper child wrapper = { t with focusHistory := l } := by
  unfold TilingTree.raiseSplitWrapper
  split
  · exact ⟨_, rfl⟩
  · exact ⟨_, rfl⟩

theorem Inv.raiseSplitWrapper {wrapper : NodeId} (h : Inv c E t) (child : NodeId)
    (hw : t.contains wrapper = true) : Inv c E (t.raiseSplitWrapper child wrapper) := by
  unfold TilingTree.raiseSplitWrapper
  refine Inv.ite (fun _ => h.withHistory fun hs => ⟨fun n hn => ?_, ?_⟩) fun _ => h
  · have hn := List.eq_or_mem_of_mem_insertIdx hn
    rcases hn with rfl | hn
    · exact hw
    · exact (h.side hs).names n (.inl (List.mem_filter.mp hn).1)
  · refine Split.Sound.nodup_insertIdx ((h.side hs).history.filter _) (by simp) ?_
    split
    · rename_i i hi
      obtain ⟨hlt, -⟩ := List.idxOf?_eq_some_iff.mp hi
      exact hlt
    · exact Nat.zero_le _

/-- A fullscreen mode moves from one node to another. -/
theorem Inv.moveFullscreen (h : Inv c E t) {wrapper : NodeId} {m : FullscreenMode}
    (hm : t.fullscreenMode id = some m) (hw : t.contains wrapper = true) :
    Inv c E (({ t with
      pendingModes := FinMap.modify t.pendingModes id fun mode => { mode with fullscreen := none } } :
        TilingTree I).setPendingFullscreen wrapper (some m)) := by
  set u : TilingTree I := { t with
    pendingModes := FinMap.modify t.pendingModes id fun mode => { mode with fullscreen := none } }
  have hu : ∀ n, u.fullscreenMode n = if n = id then none else t.fullscreenMode n := fun n =>
    fullscreenMode_endFullscreen n
  have hleaf : c.side → ∀ n mode, u.pendingModes.lookup n = some mode → mode.maximized = true →
      (t.tile n).isSome := by
    intro hs n mode hn hmax
    simp only [u, FinMap.lookup_modify] at hn
    split_ifs at hn with e
    · obtain ⟨old, hold, rfl⟩ := Option.map_eq_some_iff.mp hn
      exact (h.modes hs).leaf n old (e ▸ hold) hmax
    · exact (h.modes hs).leaf n mode hn hmax
  have hnone : c.side → ∀ n, u.fullscreenMode n = none := by
    intro hs n
    rw [hu]
    split
    · rfl
    rename_i hne
    by_contra hn
    exact hne ((h.modes hs).eq (Option.ne_none_iff_isSome.mp hn) (by simp [hm]))
  rw [setPendingFullscreen_eq]
  refine Inv.withModes (t := t) h (fun hs n hn => ?_) (fun hs => ?_) fun _ hall => ?_
  · rcases mem_pendingModes_setPendingFullscreen hn with rfl | hn
    · exact hw
    · exact (h.side hs).mode ((FinMap.mem_modify _ _ _ _).mp hn)
  · have hmodes : u.Modes ∅ := ⟨fun x y _ _ hx => by simp [hnone hs x] at hx, hleaf hs⟩
    refine ⟨fun x y _ _ hx hy => ?_, leaf_setPendingFullscreen hmodes _⟩
    have heq : ∀ {z}, ((u.setPendingFullscreen wrapper (some m)).fullscreenMode z).isSome →
        z = wrapper := by
      intro z hz
      rw [fullscreenMode_setPendingFullscreen] at hz
      by_contra e
      simp [e, hnone hs z] at hz
    rw [heq hx, heq hy]
  · have : (u.setPendingFullscreen wrapper (some m)).fullscreenMode wrapper = none := hall wrapper
    simp [fullscreenMode_setPendingFullscreen] at this

/-- What the depth check of a wrap gives. -/
theorem Inv.deep_of_canWrap (h : Inv c E t) (hw : t.canWrap id = true) (hid : id ∈ t.children p) :
    t.nodeDepth p + 1 ≤ maxTreeDepth ∧
      ∀ m, Below t.children id m → t.nodeDepth m + 1 ≤ maxTreeDepth := by
  obtain ⟨hok, -⟩ := h.exact
  have hw : t.nodeDepth id + t.subtreeHeight id ≤ maxTreeDepth := by simpa [canWrap] using hw
  have hcid := hok.contains_kid hid
  have hbelow : ∀ m, Below t.children id m → t.nodeDepth m + 1 ≤ maxTreeDepth := fun m hm =>
    (hok.nodeDepth_below no_unlinked hcid hm).trans hw
  have := hok.nodeDepth_kid no_unlinked hid
  have := hbelow id (Below.refl id)
  exact ⟨by omega, hbelow⟩

/-- **Wrapping a node.** -/
theorem Inv.wrapNode (h : Inv c ∅ t) (id : NodeId) (layout : Layout) :
    Inv c ∅ (t.wrapNode id layout).1 := by
  unfold TilingTree.wrapNode
  split
  · exact h
  rename_i hgo
  simp only [Bool.or_eq_true, Bool.not_eq_true', not_or, Bool.not_eq_false] at hgo
  simp only
  split
  · exact h
  rename_i index hi
  obtain ⟨hok, -⟩ := h.exact
  obtain ⟨s, hs, hi⟩ := Option.bind_eq_some_iff.mp hi
  have hid := mem_of_idxOf? hi
  have hw := wraps_wrapArena hok hs hi layout
  have hdeep := h.deep_of_canWrap hgo.1 (children_of_splitAt hs ▸ hid)
  have h1 := h.wraps hw (by simp) (by simpa using hid) (fun hsound hf => hsound.set hf index)
    (fun _ => ⟨by simp, rfl, fun _ => Shares.isShares_of_pos_of_sum (by simp) (by simp)⟩)
    (fun _ => by simpa using hdeep)
  rw [Set.empty_sdiff] at h1
  have hcw : (wrapArena t.toArena id ((t.parentOf id).getD t.root) index layout).1.contains
      t.counter = true := (hw.contains _).mpr (.inl rfl)
  have h2 := h1.raiseSplitWrapper id hcw
  split
  · rename_i m hm
    refine h2.moveFullscreen hm ?_
    obtain ⟨l, hl⟩ := raiseSplitWrapper_eq _ id _
    rw [hl]
    exact hcw
  · exact h2

theorem Inv.root_nonempty (h : Inv c E t) (hw : ∃ n, (c.windows n).isSome) :
    t.children t.root ≠ [] := by
  obtain ⟨r, hok, -⟩ := h.ok
  obtain ⟨n, hn⟩ := hw
  have ht := h.windows_isSome.mp hn
  rcases below_iff_kid.mp (hok.below_root (contains_of_isSome_tile ht)) with rfl | ⟨k, hk, -⟩
  · simp [hok.tile_root] at ht
  · exact List.ne_nil_of_mem hk

theorem Inv.nodeDepth_root (h : Inv c E t) : t.nodeDepth t.root = 0 := by
  obtain ⟨hok, -⟩ := h.exact
  rw [(hok.climbs no_unlinked).nodeDepth_eq, hok.root_parent]

theorem Inv.deep_of_canWrapRootChildren (h : Inv c E t) (hw : t.canWrapRootChildren = true)
    (hn : t.contains n = true) : t.nodeDepth n + 1 ≤ maxTreeDepth := by
  obtain ⟨hok, -⟩ := h.exact
  have h0 := h.nodeDepth_root
  have h1 := hok.nodeDepth_below no_unlinked hok.contains_root (hok.below_root hn)
  have h2 : t.subtreeHeight t.root ≤ maxTreeDepth := by simpa [canWrapRootChildren] using hw
  omega

/-- **Wrapping the children of the root.** -/
theorem Inv.wrapRootChildren (h : Inv c ∅ t) (hne : c.full → t.children t.root ≠ [])
    (layout : Layout) :
    Inv c ∅ (t.wrapRootChildren layout).1 ∧
      (t.wrapRootChildren layout).1.contains (t.wrapRootChildren layout).2 = true := by
  obtain ⟨hok, -⟩ := h.exact
  unfold TilingTree.wrapRootChildren
  split
  · exact ⟨h, hok.contains_root⟩
  rename_i hgo
  split
  · rename_i hnone
    obtain ⟨s, hs⟩ := hok.root_split
    rw [hs] at hnone
    cases hnone
  · rename_i s hs
    have hw := wraps_wrapRootArena hok hs layout
    have hdeep : ∀ m, t.contains m = true → t.nodeDepth m + 1 ≤ maxTreeDepth := fun m hm =>
      h.deep_of_canWrapRootChildren (by simpa using hgo) hm
    have h1 := h.wraps hw (fun hg => by rw [← children_of_splitAt hs]; exact hne hg)
      (fun x hx => hx)
      (fun _ _ => ⟨by simp, rfl, fun _ => Shares.isShares_of_pos_of_sum (by simp) (by simp)⟩)
      (fun hsound => ⟨hsound.nodup, hsound.lengths, hsound.shares⟩)
      (fun _ => ⟨hdeep _ (contains_of_splitAt hs), fun x hx m hm =>
        hdeep m (hok.contains_below (hok.contains_kid (children_of_splitAt hs ▸ hx)) hm)⟩)
    rw [Set.empty_sdiff] at h1
    have hcw : (wrapRootArena t.toArena s layout).1.contains t.counter = true :=
      (hw.contains _).mpr (.inl rfl)
    exact ⟨h1.markStale hcw, hcw⟩

/-- Wrapping the root's children takes them over with their shares. -/
theorem Minds.wrapRootChildren (h : Inv c ∅ t) (layout : Layout) :
    Minds t (t.wrapRootChildren layout).1 := by
  obtain ⟨r, hok, -⟩ := h.ok
  unfold TilingTree.wrapRootChildren
  split
  · exact .refl t
  split
  · exact .refl t
  rename_i s hs
  have hw := wraps_wrapRootArena hok hs layout
  refine .inr ⟨rfl, fun n => congrArg (Option.map (·.window)) (hw.tile n), fun {a b x y} hn => ?_⟩
  obtain ⟨p, i, j, hn⟩ := hn
  obtain ⟨ha, hb, s', hs', hi, hj, hij, hx, hy⟩ := neighbourShares_iff.mp hn
  have hlisted : ∀ n, t.parentOf n = some p → (wrapRootArena t.toArena s layout).1.parentOf n =
        if p = t.root then some t.counter else some p := fun n hp => by
    rw [hw.parentOf n, if_neg (hok.ne_counter (contains_of_parentOf hp))]
    by_cases hroot : p = t.root
    · subst hroot
      have := hok.mem_children hp
      rw [children_of_splitAt hs] at this
      rw [if_pos this, if_pos rfl]
    · rw [if_neg hroot, if_neg, hp]
      intro hmem
      rw [← children_of_splitAt hs] at hmem
      rw [hok.kid_parent hmem] at hp
      exact hroot (Option.some.inj hp).symm
  by_cases hroot : p = t.root
  · subst hroot
    rw [hs] at hs'
    cases hs'
    refine ⟨t.counter, i, j, neighbourShares_iff.mpr ⟨?_, ?_, _, (hw.splitAt _).trans (if_pos rfl),
      hi, hj, hij, hx, hy⟩⟩
    · exact (hlisted a ha).trans (if_pos rfl)
    · exact (hlisted b hb).trans (if_pos rfl)
  · refine ⟨p, i, j, neighbourShares_iff.mpr ⟨?_, ?_, s', ?_, hi, hj, hij, hx, hy⟩⟩
    · exact (hlisted a ha).trans (if_neg hroot)
    · exact (hlisted b hb).trans (if_neg hroot)
    · have hne := hok.ne_counter (contains_of_splitAt hs')
      exact (hw.splitAt p).trans ((if_neg hne).trans ((if_neg hroot).trans hs'))

theorem Inv.wrapWorkspaceChildren (h : Inv c ∅ t) : Kept c ∅ t t.wrapWorkspaceChildren := by
  unfold TilingTree.wrapWorkspaceChildren
  refine .ite (fun _ => .same h) fun hne => Kept.requestWindowSizes ⟨?_, .wrapRootChildren h _⟩
  exact (h.wrapRootChildren (fun _ => by simpa using hne) _).1

/-! ## 2. Splitting -/

theorem Inv.setSplitLayout (h : Inv c E t) (id : NodeId) (layout : Layout) :
    Inv c E (t.setSplitLayout id layout) :=
  h.modifySplit fun _ _ hs => ⟨List.Perm.refl _, hs.of_eq rfl rfl⟩

theorem Inv.splitLeaf (h : Inv c ∅ t) (id : NodeId) (layout : Layout) :
    Inv c ∅ (t.splitLeaf id layout) := by
  unfold TilingTree.splitLeaf
  split
  · exact h.setSplitLayout _ _
  · exact h.wrapNode _ _

theorem Inv.splitContainer (h : Inv c ∅ t) (id : NodeId) (layout : Layout) :
    Inv c ∅ (t.splitContainer id layout) := by
  unfold TilingTree.splitContainer
  refine Inv.ite (fun _ => h) fun _ => ?_
  refine Inv.ite (fun _ => h.setSplitLayout _ _) fun _ => ?_
  refine Inv.ite (fun _ => h.wrapNode _ _) fun _ => ?_
  exact Inv.ite (fun _ => h.setSplitLayout _ _) fun _ => h.wrapNode _ _

theorem Inv.splitRoot (h : Inv c ∅ t) (hne : t.children t.root ≠ []) (layout : Layout) :
    Inv c ∅ (t.splitRoot layout) := by
  unfold TilingTree.splitRoot
  refine Inv.ite (fun _ => h) fun _ => ?_
  split
  · exact h
  rename_i old _
  obtain ⟨h1, hcw⟩ := h.wrapRootChildren (fun _ => hne) old
  refine Inv.requestWindowSizes ?_
  refine (h1.setSplitLayout _ layout).setFocusId (fun _ => ?_) fun ha => ?_
  · exact (contains_modifySplit _ _ _ _).trans hcw
  -- a root with children has a leaf below it
  obtain ⟨r, hok, -⟩ := h.ok
  obtain ⟨k, hk⟩ := List.exists_mem_of_ne_nil _ hne
  obtain ⟨m, -, ht⟩ := hok.exists_leaf (c.awake_full ha) (hok.contains_kid hk)
    fun e => hok.root_not_kid _ (e ▸ hk)
  exact ⟨m, h.windows_isSome.mpr ht⟩

theorem Inv.closeSlot (h : Inv c ∅ t) :
    Inv c.calmed ∅ { t with interactiveResize := none, fullscreenTileSlot := false } :=
  h.close.of_core rfl

/-- **Splitting keeps the invariant and closes the resize session.** -/
theorem Inv.split (h : Inv c ∅ t) (id : NodeId) (layout : Layout) :
    Inv c.calmed ∅ (t.split id layout) := by
  have h1 := h.closeSlot
  unfold TilingTree.split
  refine Inv.ite (fun hroot => h1.splitRoot ?_ _) fun _ => ?_
  · exact hroot.1 ▸ hroot.2
  · exact Inv.ite (fun _ => h1.splitLeaf _ _) fun _ => (h1.splitContainer _ _).requestWindowSizes

/-! ## 3. Setting layouts -/

theorem Inv.setSplitLayoutRemembering (h : Inv c E t) (id : NodeId) (layout : Layout) :
    Inv c E { t with toArena := t.modifySplit id (Split.setLayout · layout) } :=
  h.modifySplit fun _ _ hs => ⟨List.Perm.refl _, hs.of_eq rfl rfl⟩

theorem Inv.setLayout (h : Inv c ∅ t) (id : NodeId) (layout : Layout) :
    Inv c.calmed ∅ (t.setLayout id layout) := by
  have h1 := h.closeSlot
  unfold TilingTree.setLayout
  exact Inv.ite (fun _ => (h1.setSplitLayoutRemembering _ _).compactTree.requestWindowSizes)
    fun _ => h1.split _ _

theorem Inv.setLayoutForCommand (h : Inv c ∅ t) (id : NodeId) (layout : Layout) :
    Inv c.calmed ∅ (t.setLayoutForCommand id layout) := by
  have h1 := h.closeSlot
  unfold TilingTree.setLayoutForCommand
  exact Inv.ite (fun _ => (h1.setSplitLayoutRemembering _ _).requestWindowSizes) fun _ => h1

theorem Inv.resetEmptyLayout (h : Inv c ∅ t) : Inv c.calmed ∅ t.resetEmptyLayout :=
  (h.setLayout _ _).of_core rfl

/-! ## 4. Flattening -/

theorem children_of_splitLen {a : Arena I} {g : Prop} {r : NodeId → ℕ} (hok : Ok g ∅ E r a)
    (hp : a.parentOf id = some p) (hlen : a.splitLen p = some 1) : a.children p = [id] := by
  obtain ⟨s, hs, hmem⟩ := hok.split_of_parentOf hp
  rw [children_of_splitAt hs]
  have hlen : s.children.length = 1 := by simpa [splitLen, hs] using hlen
  obtain ⟨x, hx⟩ := List.length_eq_one_iff.mp hlen
  simp_all

/-- **Flattening keeps the invariant and closes the resize session.** -/
theorem Inv.flattenParent (h : Inv c ∅ t) (id : NodeId) :
    Inv c.calmed ∅ (t.flattenParent id).1 := by
  have h1 := h.close
  obtain ⟨r, hok, -⟩ := h1.ok
  unfold TilingTree.flattenParent
  simp only
  split
  · exact h1
  rename_i p hp
  split
  · exact h1
  rename_i hgo
  simp only [not_or, not_not] at hgo
  split
  · exact h1
  rename_i q hq
  split
  · exact h1
  rename_i index hi
  have hk := children_of_splitLen hok hp hgo.2
  have h2 := h1.collapseNode hi hk
  exact h2.requestWindowSizes

/-! ## 5. Commands on the focus -/

theorem contains_of_mem_assign {a : Arena I} {ctx : AssignContext} {fuel : ℕ} {rect : Rect}
    {suppress : Bool} {e : NodeId × Rect} (he : e ∈ a.assign ctx fuel id rect suppress) :
    a.contains e.1 = true := by
  induction fuel generalizing id rect suppress with
  | zero => simp [assign] at he
  | succ fuel ih =>
    unfold assign at he
    split at he
    · simp at he
    · rename_i hg
      cases List.mem_singleton.mp he
      simp [contains, hg]
    · rename_i hg
      rcases List.mem_cons.mp he with rfl | he
      · simp [contains, hg]
      split at he
      · obtain ⟨x, -, hx⟩ := List.mem_flatMap.mp he
        exact ih hx
      · obtain ⟨x, -, hx⟩ := List.mem_flatMap.mp he
        exact ih hx

/-- Only nodes have boxes. -/
theorem contains_of_mem_ipcNodes (hn : n ∈ t.computeGeometry.ipcNodes) : t.contains n = true := by
  simp only [computeGeometry, recordBoxes, assignedBoxes] at hn
  rcases (FinMap.mem_foldl_insert _ _ _ _ _).mp hn with ⟨e, he, rfl⟩ | hn
  · split at he
    · exact contains_of_mem_assign he
    · simp at he
  · rcases (FinMap.mem_foldl_insert _ _ _ _ _).mp hn with ⟨e, he, rfl⟩ | hn
    · exact contains_of_mem_assign he
    · exact absurd hn (by simp)

theorem mem_extendRects {table rects : FinMap NodeId Rect} (hn : n ∈ extendRects table rects) :
    n ∈ rects ∨ n ∈ table := by
  rcases (FinMap.mem_foldl_insert _ _ _ _ _).mp hn with ⟨e, he, rfl⟩ | hn
  · exact .inl (List.mem_map_of_mem he)
  · exact .inr hn

theorem Inv.focusedLayoutTarget (h : Inv c ∅ t) : Kept c ∅ t t.focusedLayoutTarget.1 := by
  unfold TilingTree.focusedLayoutTarget
  split
  · exact .same h
  refine .ite_fst (fun _ => .same h) fun _ => .ite_fst (fun _ => .same h) fun _ => ?_
  split
  · exact .same h
  refine .ite_fst (fun _ => .same h) fun _ => ?_
  split
  · exact .same h
  · rename_i child _
    have h1 : Kept c ∅ t (t.flattenParent child).1 := .closed (h.flattenParent child)
    split <;> rename_i he <;> rw [he] at h1 <;> exact h1

/-- The boxes kept for a wrapper made under fullscreen. -/
theorem Inv.keepRects (h : Inv c E t) {rects : FinMap NodeId Rect} (hw : t.contains p = true)
    (hr : ∀ n, n ∈ rects → t.contains n = true) :
    Inv c E { t with
      fullscreenLayoutWrappers := insert p t.fullscreenLayoutWrappers
      preLayoutIpcRects := extendRects t.preLayoutIpcRects rects } := { h with
  side hs := by
    refine { h.side hs with
      names := fun n hn => (h.side hs).retable hn ⟨rfl, rfl, rfl⟩ (h.side hs).mode (fun hn => ?_)
        fun hn => ?_ }
    · rcases Finset.mem_insert.mp hn with rfl | hn
      · exact hw
      · exact (h.side hs).wrapper hn
    · rcases mem_extendRects hn with hn | hn
      · exact hr n hn
      · exact (h.side hs).rect hn
  modes hs := { h.modes hs with } }

theorem contains_wrapRootChildren (layout : Layout) (hn : t.contains n = true) :
    (t.wrapRootChildren layout).1.contains n = true := by
  unfold wrapRootChildren
  split
  · exact hn
  split
  · exact hn
  · rename_i s hs
    refine (contains_modifySplit _ _ _ _).trans (((sameNodes_adopt _ _).contains n).trans ?_)
    exact (contains_alloc _ n).mpr (.inr hn)

section

variable (h : Inv c ∅ t)
include h

/-- **`layout`, on the focus.** A focused root is wrapped only while it has children. -/
theorem Inv.setFocusedLayout (hfa : c.full → c.awake) (layout : Layout) :
    Kept c ∅ t (t.setFocusedLayout layout).1 := by
  unfold TilingTree.setFocusedLayout
  simp only
  have hroot : t.focus.isSome → c.full → ∃ n, (c.windows n).isSome := fun hf hg =>
    (h.awake (hfa hg)).mp hf
  set u : TilingTree I := if layout ≠ t.rootLayout then
    { t with hasHadTile := true, emptyRepresentationLayout := none } else t with hu
  have hfocus : u.focus = t.focus := by rw [hu]; split <;> rfl
  have h1 : Kept c ∅ t u := by
    rw [hu]
    exact .ite (fun _ => .side (h.of_core rfl) rfl rfl) fun _ => .same h
  have h2 := h1.trans h1.inv.focusedLayoutTarget
  split <;> rename_i v _ _ hv <;> rw [hv] at h2 <;> dsimp only at h2
  · exact .closed (h2.inv.setLayout _ _)
  refine .ite_fst (fun hwraps => .ite_fst (fun _ => h2) fun _ => ?_) fun _ =>
    .closed (h2.inv.setLayoutForCommand _ _)
  have hne : c.full → v.children v.root ≠ [] := fun hg => by
    refine h2.inv.root_nonempty (hroot ?_ hg)
    rw [← hfocus]
    cases hf : u.focus with
    | none => simp [hf] at hwraps
    | some f => rfl
  have h3 : Inv c ∅ { v with fullscreenTileSlot := false } := h2.inv.of_core rfl
  obtain ⟨h4, hw⟩ := h3.wrapRootChildren hne layout
  have h5 := (h2.trans (.side h3 rfl rfl)).trans ⟨h4, .wrapRootChildren h3 layout⟩
  refine Kept.requestWindowSizes ?_
  split
  · rename_i rects hrects
    refine h5.trans (.side (h4.keepRects hw fun n hn => contains_wrapRootChildren _ ?_) rfl rfl)
    split at hrects
    · cases hrects
      exact contains_of_mem_ipcNodes hn
    · cases hrects
  · exact h5

theorem Inv.splitFocused (layout : Layout) : Inv c.calmed ∅ (t.splitFocused layout) := by
  unfold TilingTree.splitFocused
  split
  · exact h.split _ _
  · exact (h.setLayout _ _).of_core rfl

theorem Inv.toggleFocusedTabbed : Kept c ∅ t t.toggleFocusedTabbed := by
  unfold TilingTree.toggleFocusedTabbed
  split
  · exact .same h
  · exact .closed (h.setLayout _ _)

theorem Inv.setFocusedParentLayout (layout : Layout) :
    Kept c ∅ t (t.setFocusedParentLayout layout) := by
  unfold TilingTree.setFocusedParentLayout
  split
  · exact .same h
  · exact .closed (h.setLayout _ _)

theorem Inv.toggleSplit (id : NodeId) : Inv c.calmed ∅ (t.toggleSplit id) :=
  h.split _ _

theorem Inv.toggleFocusedSplit : Inv c.calmed ∅ t.toggleFocusedSplit :=
  h.split _ _

end

/-! ## 6. Toggling and restoring -/

section

variable (h : Inv c ∅ t)
include h

theorem Inv.toggleLayoutSplit (target : NodeId) : Inv c.calmed ∅ (t.toggleLayoutSplit target) :=
  h.setLayoutForCommand _ _

theorem Inv.toggleNodeLayout (target : NodeId) (toggle : LayoutToggle) :
    Kept c ∅ t (t.toggleNodeLayout target toggle).1 := by
  unfold TilingTree.toggleNodeLayout
  split
  · exact .same h
  split
  · exact .closed (h.toggleLayoutSplit _)
  · exact .closed (h.toggleLayoutSplit _)
  · exact .closed (h.setLayoutForCommand _ _)
  split
  · exact .same h
  · exact .closed (h.toggleLayoutSplit _)
  · split
    · exact .same h
    · exact .closed (h.setLayoutForCommand _ _)

theorem Inv.toggleFocusedLayout (toggle : LayoutToggle) :
    Kept c ∅ t (t.toggleFocusedLayout toggle).1 := by
  have h1 := h.focusedLayoutTarget
  unfold TilingTree.toggleFocusedLayout
  split <;> rename_i he <;> rw [he] at h1
  · exact h1.trans (h1.inv.toggleNodeLayout _ _)
  · exact h1

theorem Inv.toggleTargetLayout (id : NodeId) (toggle : LayoutToggle) :
    Kept c ∅ t (t.toggleTargetLayout id toggle).1 := by
  unfold TilingTree.toggleTargetLayout
  split
  · exact h.toggleNodeLayout _ _
  · exact .same h

theorem Inv.toggleFocusedLayoutSplit : Kept c ∅ t t.toggleFocusedLayoutSplit.1 := by
  have h1 := h.focusedLayoutTarget
  unfold TilingTree.toggleFocusedLayoutSplit
  split <;> rename_i he <;> rw [he] at h1
  · exact .closed (h1.inv.toggleLayoutSplit _)
  · exact h1

theorem Inv.restoreNodeLayout (target : NodeId) : Kept c ∅ t (t.restoreNodeLayout target).1 := by
  unfold TilingTree.restoreNodeLayout
  split
  · exact .closed (h.setLayoutForCommand _ _)
  · exact .same h

theorem Inv.restoreFocusedSplitLayout : Kept c ∅ t t.restoreFocusedSplitLayout.1 := by
  have h1 := h.focusedLayoutTarget
  unfold TilingTree.restoreFocusedSplitLayout
  split <;> rename_i he <;> rw [he] at h1
  · exact .ite_fst (fun _ => h1.trans (h1.inv.restoreNodeLayout _)) fun _ => h1
  · exact h1

theorem Inv.restoreTargetLayout (id : NodeId) : Kept c ∅ t (t.restoreTargetLayout id).1 := by
  unfold TilingTree.restoreTargetLayout
  split
  · exact h.restoreNodeLayout _
  · exact .same h

theorem Inv.setTargetLayout (id : NodeId) (layout : Layout) :
    Kept c ∅ t (t.setTargetLayout id layout).1 :=
  .ite_fst (fun _ => .closed (h.setLayoutForCommand _ _)) fun _ => .same h

end

end TilingTree

end Swayward
