/-
  File:      Swayward/Keeps/Navigate.lean
  Subject:   FOCUS COMMANDS KEEP THE INVARIANT.

  A focus command changes the focus and the focus history only. `Inv.setFocusPick` says what the node
  it picks must satisfy; each command is then a fact about where its walk can end.
-/
import Swayward.Keeps.Attach

namespace Swayward

open Arena Forest List

variable {I : Type}

namespace TilingTree

variable {c : Ctx I} {t : TilingTree I} {id n x : NodeId} {o : Option NodeId}

/-! ## 1. Picking a node -/

section

variable (h : Inv c ∅ t)
include h

/-- Every node but the root holds a window. -/
theorem Inv.occupied (hfull : c.full) (hn : t.contains n = true) (hr : n ≠ t.root) :
    ∃ m, (c.windows m).isSome := by
  obtain ⟨r, hok, -⟩ := h.ok
  obtain ⟨m, -, hm⟩ := hok.exists_leaf hfull hn hr
  exact ⟨m, h.windows_isSome.mpr hm⟩

theorem Inv.occupied_kid (hfull : c.full) (hx : x ∈ t.children n) : ∃ m, (c.windows m).isSome := by
  obtain ⟨r, hok, -⟩ := h.ok
  exact h.occupied hfull (hok.contains_kid hx) fun e => hok.root_not_kid n (e ▸ hx)

/-- **A picked node is focused**: it must be there, in a tree with a window, and if none is picked
    there must be no window. -/
theorem Inv.setFocusPick
    (hsome : ∀ x, o = some x →
      (c.side → t.contains x = true) ∧ (c.awake → ∃ m, (c.windows m).isSome))
    (hnone : c.awake → o = none → ∀ m, c.windows m = none) : Kept c ∅ t (t.setFocusId o) := by
  refine .focus (h.setFocusTo (fun hs x hx => (hsome x hx).1 hs) fun ha => ?_)
  cases o with
  | some x => exact iff_of_true rfl ((hsome x rfl).2 ha)
  | none => simp [hnone ha rfl]

/-- A leaf is focused. -/
theorem Inv.setFocusLeaf (hx : (t.tile x).isSome) : Kept c ∅ t (t.setFocusId (some x)) := by
  refine h.setFocusPick (fun y hy => ?_) fun _ hnone => nomatch hnone
  cases hy
  exact ⟨fun _ => contains_of_isSome_tile hx, fun _ => ⟨x, h.windows_isSome.mpr hx⟩⟩

/-- A child is focused. -/
theorem Inv.setFocusKid (hx : x ∈ t.children n) : Kept c ∅ t (t.setFocusId (some x)) := by
  obtain ⟨r, hok, -⟩ := h.ok
  refine h.setFocusPick (fun y hy => ?_) fun _ hnone => nomatch hnone
  cases hy
  exact ⟨fun _ => hok.contains_kid hx, fun ha => h.occupied_kid (c.awake_full ha) hx⟩

/-- A leaf is focused, or the focus is set anew. -/
theorem Inv.setFocusOr (hh : c.side → c.hole = ∅) (ho : ∀ x, o = some x → (t.tile x).isSome) :
    Kept c ∅ t (t.setFocusId (o.or t.focus)) := by
  cases o with
  | some x => exact h.setFocusLeaf (ho x rfl)
  | none =>
    refine h.setFocusPick (fun x hx => ⟨fun hs => focus_contains h hs (hh hs) hx, fun ha => ?_⟩)
      fun ha hnone m => ?_
    · exact (h.awake ha).mp (by simp_all)
    have : ¬ ∃ m, (c.windows m).isSome := fun hm => by
      have := (h.awake ha).mpr hm
      simp_all
    simpa using not_exists.mp this m

end

/-! ## 2. A given node -/

section

variable (h : Inv c ∅ t)
include h

theorem Inv.setFocus (id : NodeId) (hw : c.awake → ∃ m, (c.windows m).isSome) :
    Kept c ∅ t (t.setFocus id) := by
  unfold TilingTree.setFocus
  exact .ite (fun hid => .focus (h.setFocusId (fun _ => hid) hw)) fun _ => .same h

theorem Inv.focusRoot (hw : c.awake → ∃ m, (c.windows m).isSome) : Kept c ∅ t t.focusRoot := by
  obtain ⟨r, hok, -⟩ := h.ok
  exact .focus (h.setFocusId (fun _ => hok.contains_root) hw)

theorem Inv.focusInactiveLeafOf (id : NodeId) : Kept c ∅ t (t.focusInactiveLeafOf id) := by
  unfold TilingTree.focusInactiveLeafOf
  split
  · rename_i leaf hleaf
    exact h.setFocusLeaf (h.focusedLeafIn_some hleaf)
  · exact .same h

theorem Inv.activateWindow [DecidableEq I] (window : I) :
    Kept c ∅ t (t.activateWindow window).1 := by
  unfold TilingTree.activateWindow
  split
  · rename_i leaf hleaf
    obtain ⟨tile, htile, -⟩ := nodeForWindow_some hleaf
    exact h.setFocusLeaf (by simp [htile])
  · exact .same h

theorem Inv.focusFirst : Kept c ∅ t t.focusFirst := by
  obtain ⟨r, hok, -⟩ := h.ok
  refine h.setFocusPick (fun x hx => ?_) fun ha hnone m => ?_
  · have := h.firstLeafIn_some hx
    exact ⟨fun _ => contains_of_isSome_tile this, fun _ => ⟨x, h.windows_isSome.mpr this⟩⟩
  cases e : c.windows m with
  | none => rfl
  | some w =>
    have hm : (t.tile m).isSome := h.windows_isSome.mp (by simp [e])
    have := hok.firstLeafIn_isSome hok.contains_root
      (hok.below_root (contains_of_isSome_tile hm)) hm
    simp only [firstLeaf] at hnone
    simp [hnone] at this

theorem Inv.focusLast : Kept c ∅ t t.focusLast := by
  obtain ⟨r, hok, -⟩ := h.ok
  refine h.setFocusPick (fun x hx => ?_) fun ha hnone m => ?_
  · have : (t.tile x).isSome := (mem_filter.mp (mem_of_getLast? hx)).2
    exact ⟨fun _ => contains_of_isSome_tile this, fun _ => ⟨x, h.windows_isSome.mpr this⟩⟩
  cases e : c.windows m with
  | none => rfl
  | some w =>
    have hm : (t.tile m).isSome := h.windows_isSome.mp (by simp [e])
    have hmem : m ∈ t.depthFirst t.root := (hok.mem_depthFirst hok.contains_root).mpr
      (hok.below_root (contains_of_isSome_tile hm))
    have : m ∈ (t.depthFirst t.root).filter fun id => (t.tile id).isSome :=
      mem_filter.mpr ⟨hmem, hm⟩
    rw [getLast?_eq_none_iff.mp hnone] at this
    cases this

end

theorem isSome_tile_of_mem_collectLeafIds {a : Arena I} (fuel : ℕ) :
    ∀ {n}, x ∈ a.collectLeafIds fuel n → (a.tile x).isSome := by
  induction fuel with
  | zero => exact fun hx => (nomatch hx)
  | succ fuel ih =>
    intro n hx
    rw [collectLeafIds] at hx
    split at hx
    · rwa [mem_singleton.mp hx]
    · obtain ⟨k, -, hk⟩ := mem_flatMap.mp hx
      exact ih hk

theorem Inv.focusWindowInSubtree (h : Inv c ∅ t) (subtree : NodeId) (index : ℕ) :
    Kept c ∅ t (t.focusWindowInSubtree subtree index) := by
  unfold TilingTree.focusWindowInSubtree
  split
  · rename_i leaf hleaf
    exact h.setFocusLeaf (isSome_tile_of_mem_collectLeafIds _ (mem_of_getElem? hleaf))
  · exact .same h

theorem Inv.focusWindowInParent (h : Inv c ∅ t) (index : ℕ) :
    Kept c ∅ t (t.focusWindowInParent index) := by
  unfold TilingTree.focusWindowInParent
  split
  · exact h.focusWindowInSubtree _ _
  · exact .same h

theorem Inv.focusRootChild (h : Inv c ∅ t) (hh : c.side → c.hole = ∅) (index : ℕ) :
    Kept c ∅ t (t.focusRootChild index) := by
  unfold TilingTree.focusRootChild
  split
  · exact h.setFocusOr hh fun x hx => h.firstLeafIn_some hx
  · exact .same h

theorem Inv.focusLastRootChild (h : Inv c ∅ t) (hh : c.side → c.hole = ∅) :
    Kept c ∅ t t.focusLastRootChild :=
  .ite (fun _ => .same h) fun _ => h.focusRootChild hh _

/-! ## 3. Parent, child, output -/

section

variable (h : Inv c ∅ t)
include h

/-- An empty root means no window. -/
theorem Inv.windows_of_empty_root (hnil : t.children t.root = []) (m : NodeId) :
    c.windows m = none := by
  obtain ⟨r, hok, -⟩ := h.ok
  cases e : c.windows m with
  | none => rfl
  | some w =>
    have hm : (t.tile m).isSome := h.windows_isSome.mp (by simp [e])
    rcases below_iff_kid.mp (hok.below_root (contains_of_isSome_tile hm)) with rfl | ⟨k, hk, -⟩
    · rw [hok.tile_root] at hm
      cases hm
    · rw [hnil] at hk
      cases hk

theorem Inv.focusParent : Kept c ∅ t t.focusParent.1 := by
  obtain ⟨r, hok, -⟩ := h.ok
  unfold TilingTree.focusParent
  split
  · exact .same h
  rename_i focus hfocus
  refine .ite_fst (fun _ => .same h) fun _ => ?_
  split
  · exact .same h
  rename_i parent hparent
  obtain ⟨s, hs, -⟩ := hok.split_of_parentOf hparent
  exact .focus (h.setFocusId (fun _ => contains_of_splitAt hs) fun ha =>
    (h.awake ha).mp (by simp [hfocus]))

theorem Inv.focusChild : Kept c ∅ t t.focusChild.1 := by
  unfold TilingTree.focusChild
  split
  · rename_i child hchild
    obtain ⟨focus, -, hchild⟩ := Option.bind_eq_some_iff.mp hchild
    exact h.setFocusKid (mem_children_of_focusedChildIn hchild)
  · exact .same h

/-- The leaf a node's focus is on is focused; without one the tree is empty. -/
theorem Inv.setFocusBind (ho : c.awake → o = none → ∀ m, c.windows m = none)
    (hx : ∀ x, o = some x → c.awake → t.contains x = true) :
    Kept c ∅ t (t.setFocusId (o.bind t.focusedLeafIn)) := by
  refine h.setFocusPick (fun x hx => ?_) fun ha hnone => ?_
  · obtain ⟨y, -, hx⟩ := Option.bind_eq_some_iff.mp hx
    have := h.focusedLeafIn_some hx
    exact ⟨fun _ => contains_of_isSome_tile this, fun _ => ⟨x, h.windows_isSome.mpr this⟩⟩
  · cases o with
    | none => exact ho ha rfl
    | some y => exact h.focusedLeafIn_none (c.awake_full ha) (hx y rfl ha) hnone

theorem Inv.focusFromOutputDirection (dir : Direction) :
    Kept c ∅ t (t.focusFromOutputDirection dir).1 := by
  obtain ⟨r, hok, -⟩ := h.ok
  unfold TilingTree.focusFromOutputDirection outputEntry
  simp only
  split
  · rename_i fullscreen hfs
    refine .focus (h.setFocusLeafIn fun ha => ?_)
    exact (h.side (c.awake_side ha)).contains_fullscreenNode (fullscreenNode_some hfs)
  · by_cases hpar : t.rootLayout.parallel dir.axis = true
    · rw [if_pos hpar]
      refine h.setFocusBind (fun ha hnone => ?_) fun x hx _ => ?_
      · have hnil : t.children t.root = [] := by
          split at hnone
          · exact getLast?_eq_none_iff.mp hnone
          · exact head?_eq_none_iff.mp hnone
        exact h.windows_of_empty_root hnil
      · split at hx
        · exact hok.contains_kid (mem_of_getLast? hx)
        · exact hok.contains_kid (mem_of_head? hx)
    · rw [if_neg hpar]
      exact .focus (h.setFocusLeafIn fun _ => hok.contains_root)

theorem Inv.scrollTabIndicator [DecidableEq I] (window : I) (steps : ℤ) :
    Kept c ∅ t (t.scrollTabIndicator window steps).1 := by
  obtain ⟨r, hok, -⟩ := h.ok
  unfold TilingTree.scrollTabIndicator
  split
  · exact .same h
  rename_i focus hfocus
  -- the tab scrolled to is a child of the strip
  obtain ⟨id, -, hfocus⟩ := Option.bind_eq_some_iff.mp hfocus
  obtain ⟨parent, -, hfocus⟩ := Option.bind_eq_some_iff.mp hfocus
  obtain ⟨active, hactive, hfocus⟩ := Option.bind_eq_some_iff.mp hfocus
  obtain ⟨index, -, rfl⟩ := Option.map_eq_some_iff.mp hfocus
  have hne : 0 < (t.children parent).length :=
    length_pos_of_mem (mem_children_of_focusedChildIn hactive)
  refine h.setFocusBind (fun _ hnone => ?_) fun x hx _ => ?_
  · have := List.getElem?_eq_none_iff.mp hnone
    omega
  · exact hok.contains_kid (mem_of_getElem? hx)

end

/-! ## 4. Siblings -/

theorem mem_of_farEnd {l : List NodeId} {backwards : Bool} (h : farEnd l backwards = some x) :
    x ∈ l := by
  unfold farEnd at h
  split at h
  · exact mem_of_getLast? h
  · exact mem_of_head? h

theorem mem_of_neighbour {l : List NodeId} {i : ℕ} {backwards : Bool}
    (h : neighbour l i backwards = some x) : x ∈ l := by
  obtain ⟨j, -, hj⟩ := neighbour_some h
  exact mem_of_getElem? hj

/-- **The walk for a sibling ends at a child**, or where it was told to wrap. -/
theorem kid_of_siblingTarget (axis : Layout) (backwards : Bool) (fuel : ℕ) {wrap : Option NodeId}
    (hwrap : ∀ x, wrap = some x → ∃ p, x ∈ t.children p)
    (h : t.siblingTarget axis backwards fuel wrap n = some x) : ∃ p, x ∈ t.children p := by
  have hkid : ∀ {q s y}, t.splitAt q = some s → y ∈ s.children → ∃ p, y ∈ t.children p :=
    fun {q _ _} hs hy => ⟨q, by rwa [children_of_splitAt hs]⟩
  fun_induction siblingTarget t axis backwards fuel wrap n with
  | case1 | case2 => exact hwrap x h
  | case5 _ _ _ _ _ s hs _ _ _ target htarget =>
    cases h
    exact hkid hs (mem_of_neighbour htarget)
  | case6 _ _ _ _ _ s hs => exact hkid hs (mem_of_farEnd h)
  | case7 _ _ _ _ _ s hs _ _ _ _ _ _ ih => exact ih (fun y hy => hkid hs (mem_of_farEnd hy)) h
  | case8 _ _ _ _ _ _ _ _ _ _ _ _ ih => exact ih hwrap h
  | case9 _ _ _ _ _ _ _ _ ih => exact ih hwrap h
  | _ => cases h

theorem Inv.focusNextPrevSibling (h : Inv c ∅ t) (next : Bool) :
    Kept c ∅ t (t.focusNextPrevSibling next).1 := by
  unfold TilingTree.focusNextPrevSibling
  split
  · exact .same h
  split
  · exact .same h
  split
  · rename_i target htarget
    obtain ⟨p, hp⟩ := kid_of_siblingTarget _ _ _ (by simp) htarget
    exact h.setFocusKid hp
  · exact .same h

/-! ## 5. Directions -/

theorem Inv.focusDirectionInner (h : Inv c ∅ t) (hh : c.side → c.hole = ∅) (dir : Direction)
    (allowWrap : Bool) : Kept c ∅ t (t.focusDirectionInner dir allowWrap).1 := by
  refine h.setFocusOr hh fun x hx => ?_
  obtain ⟨y, -, hx⟩ := Option.bind_eq_some_iff.mp hx
  exact h.focusedLeafIn_some hx

theorem Inv.focusNextOrPrev (h : Inv c ∅ t) (hh : c.side → c.hole = ∅) (next : Bool) :
    Kept c ∅ t (t.focusNextOrPrev next).1 := by
  unfold TilingTree.focusNextOrPrev
  split
  · exact .same h
  · split
    · exact h.focusDirectionInner hh _ _
    · exact h.focusDirectionInner hh _ _

theorem mem_of_leastLeaf {keyed : List (NodeId × ℚ)} (h : leastLeaf keyed = some x) :
    ∃ e ∈ keyed, e.1 = x := by
  unfold leastLeaf at h
  obtain ⟨e, he, rfl⟩ := Option.map_eq_some_iff.mp h
  refine ⟨e, ?_, rfl⟩
  -- the best so far is an entry already seen
  have key : ∀ (step : Option (NodeId × ℚ) → NodeId × ℚ → Option (NodeId × ℚ)),
      (∀ best a, step best a = some e → best = some e ∨ a = e) →
      ∀ (l : List (NodeId × ℚ)) best, l.foldl step best = some e → best = some e ∨ e ∈ l := by
    intro step hstep l
    induction l with
    | nil => exact fun best hb => .inl hb
    | cons a l ih =>
      intro best hb
      rcases ih _ hb with hb | hb
      · rcases hstep best a hb with hbest | rfl
        · exact .inl hbest
        · exact .inr mem_cons_self
      · exact .inr (mem_cons_of_mem _ hb)
  refine (key _ (fun best a ha => ?_) keyed none he).resolve_left (by simp)
  cases best with
  | none => exact .inr (Option.some.inj ha)
  | some b =>
    simp only at ha
    split at ha
    · exact .inr (Option.some.inj ha)
    · exact .inl ha

theorem isSome_tile_of_mem_collectVisible (fuel : ℕ) :
    ∀ {n}, x ∈ t.collectVisible fuel n → (t.tile x).isSome := by
  induction fuel with
  | zero => exact fun hx => (nomatch hx)
  | succ fuel ih =>
    intro n hx
    rw [collectVisible] at hx
    split at hx
    · cases hx
    · rename_i q tile hget
      rw [mem_singleton.mp hx, tile_of_get hget]
      rfl
    · split at hx
      · obtain ⟨k, -, hk⟩ := mem_flatMap.mp hx
        exact ih hk
      · split at hx
        · exact ih hx
        · cases hx

theorem Inv.focusExtreme (h : Inv c ∅ t) (hh : c.side → c.hole = ∅) (bottom : Bool) :
    Kept c ∅ t (t.focusExtreme bottom) := by
  refine h.setFocusOr hh fun x hx => ?_
  obtain ⟨⟨n, q⟩, he, rfl⟩ := mem_of_leastLeaf hx
  obtain ⟨m, hm, hq⟩ := mem_filterMap.mp he
  obtain ⟨rect, -, e⟩ := Option.map_eq_some_iff.mp hq
  cases e
  have hvis : n ∈ t.visibleLeaves := by simpa using (mem_filter.mp hm).2
  unfold visibleLeaves at hvis
  split at hvis
  · exact isSome_tile_of_mem_collectVisible _ hvis
  · exact isSome_tile_of_mem_collectVisible _ hvis

/-! ## 6. The history -/

theorem Inv.markMoved (h : Inv c ∅ t) (hid : (t.tile id).isSome) (hb : ¬ c.bare) (rect : Rect)
    (hfs : ∃ n, (t.fullscreenMode n).isSome) :
    Inv c ∅ { t with
      mappedUnderFullscreen := t.mappedUnderFullscreen.erase id
      movedUnderFullscreen := t.movedUnderFullscreen.insert id rect } := by
  refine { h with
    side := fun hs => { h.side hs with marked := fun n hn => ?_ }
    modes := fun hs => { h.modes hs with }
    marks := fun hm hall => ?_
    bare := fun hb' => (hb hb').elim }
  · rcases hn with hn | hn
    · exact (h.side hs).marked n (.inl (Finset.mem_of_mem_erase hn))
    · rcases AList.mem_insert _ |>.mp hn with rfl | hn
      · exact hid
      · exact (h.side hs).marked n (.inr hn)
  · obtain ⟨n, hn⟩ := hfs
    have : t.fullscreenMode n = none := hall n
    simp [this] at hn

/-- A leaf is marked as moved while a node is fullscreen. -/
theorem Inv.markMovedUnderFullscreen [DecidableEq I] (h : Inv c ∅ t) (hb : ¬ c.bare) (window : I)
    (sourceRect : Rect) : Kept c ∅ t (t.markMovedUnderFullscreen window sourceRect) := by
  unfold TilingTree.markMovedUnderFullscreen
  split
  · exact .same h
  rename_i fullscreen hfs
  split
  · exact .same h
  rename_i id hid
  obtain ⟨tile, htile, -⟩ := nodeForWindow_some (Option.filter_eq_some_iff.mp hid).1
  have hleaf : (t.tile id).isSome := by simp [htile]
  have h1 := (h.markMoved hleaf hb sourceRect ⟨_, fullscreenNode_some hfs⟩).reinsert
    (fun _ => contains_of_isSome_tile hleaf) 0
  simp only
  split
  · rename_i leaf hl
    exact .side ((h1.reinsert (fun _ => contains_of_isSome_tile (h1.focusedLeafIn_some hl)) 0).of_core
      rfl) rfl rfl
  · exact .side h1 rfl rfl

theorem Inv.sortFocusHistoryByTimestamp (h : Inv c ∅ t) :
    Kept c ∅ t t.sortFocusHistoryByTimestamp := by
  unfold TilingTree.sortFocusHistoryByTimestamp
  refine .side (h.withHistory fun hs => ⟨fun n hn => ?_, ?_⟩) rfl rfl
  · have := (mem_filter.mp (mem_mergeSort.mp hn)).2
    exact contains_of_isSome_tile this
  · exact (mergeSort_perm _ _).nodup_iff.mpr ((h.side hs).history.filter _)

theorem Inv.restoreFocusRank [DecidableEq I] (h : Inv c ∅ t) (window : I) (rank : ℕ) :
    Kept c ∅ t (t.restoreFocusRank window rank) := by
  unfold TilingTree.restoreFocusRank
  refine .side (h.rankWindow window rank) ?_ ?_ <;> split <;> rfl

end TilingTree

end Swayward
