/-
  File:      Swayward/Ipc/OneFocused.lean
  Subject:   ONE FOCUSED NODE in a GET_TREE reply (`ipc/tree/workspaces.rs`).

  Only the active workspace of the active output keeps focused flags. There the flag is in the tiling
  tree, in the tree of a group, on a single floating window or on the workspace itself; `ShowsFocus`
  says when it is in one of these places and is not taken away again. A window that is fullscreen in
  the tiling tree takes it away from the floating layer: activating a floating window does not end
  the fullscreen state.

  * `countP_workspaceFlags`  -- the active workspace has one focused node exactly if `ShowsFocus`;
  * `one_focused`            -- **when the whole reply has one**;
  * `focus_under_fullscreen` -- none under a fullscreen window.
-/
import Swayward.Ipc.UniqueIds
import Swayward.Keeps.Visible

namespace Swayward

open List Option

/-! ## 1. Counting -/

section Counting

variable {α β : Type}

/-- Of distinct keys, one at most is `x`. -/
theorem countP_eq_ite [DecidableEq β] {l : List α} {key : α → β} {p : α → Bool} {x : β}
    (hnodup : (l.map key).Nodup) (hp : ∀ a ∈ l, (p a = true ↔ key a = x)) :
    l.countP p = if x ∈ l.map key then 1 else 0 := by
  rw [← hnodup.count, count_eq_countP, countP_map]
  refine countP_congr fun a ha => ?_
  rw [hp a ha, Function.comp_apply, beq_iff_eq]

theorem exists_filter_eq_singleton {l : List α} {p : α → Bool} (h : l.countP p = 1) :
    ∃ a, l.filter p = [a] := by
  rw [countP_eq_length_filter] at h
  exact length_eq_one_iff.mp h

end Counting

/-! ## 2. The focus of a tree -/

namespace SoundTree

open TilingTree Arena

variable {I : Type} (t : SoundTree I)
variable {entries : List (IpcSplit ⊕ IpcLeaf I)}

/-- **The active window of a tree** is a leaf at or below its focus. -/
theorem exists_activeLeaf {f : NodeId} (h : t.tree.focus = some f) :
    ∃ leaf tile, t.tree.tile leaf = some tile ∧ leaf ∈ t.tree.depthFirst f ∧
      t.tree.activeWindow = some tile.window := by
  obtain ⟨r, hok⟩ := t.exists_ok
  have hf : t.tree.contains f = true := t.wellFormed.tables.focus f h
  cases hleaf : t.tree.focusedLeafIn f with
  | none =>
    -- then there is no window, and the focus is unset
    exfalso
    have hnone : t.tree.windows = [] := by
      refine eq_nil_iff_forall_not_mem.mpr ?_
      rintro ⟨n, w⟩ hw
      have htile := (mem_windows_of_wellFormed t.wellFormed.arena).mp hw
      rw [t.inv.tiles n, t.inv.focusedLeafIn_none trivial hf hleaf n] at htile
      cases htile
    rw [t.wellFormed.tables.focus_none.mpr hnone] at h
    cases h
  | some leaf =>
    obtain ⟨hbelow, htile⟩ := below_focusedLeafIn hok hf hleaf
    obtain ⟨tile, htile⟩ := isSome_iff_exists.mp htile
    refine ⟨leaf, tile, htile, (hok.mem_depthFirst hf).mpr hbelow, ?_⟩
    rw [activeWindow, activeLeaf, h, bind_some, hleaf, bind_some, htile]
    rfl

theorem activeWindow_of_focus_none (h : t.tree.focus = none) : t.tree.activeWindow = none := by
  rw [activeWindow, activeLeaf, h]
  rfl

/-- Part of the copy of a tree has a focused entry exactly if it has the focus. -/
theorem countP_entryFocused (hsub : entries.Sublist t.tree.ipcTree.entries) {f : NodeId}
    (h : t.tree.focus = some f) :
    entries.countP IpcNode.entryFocused =
      if f ∈ entries.map (fun e => (IpcNode.entryNode e).1) then 1 else 0 := by
  refine countP_eq_ite ?_ fun e he => ?_
  · have hall := t.nodup_nodes_ipcTree
    rw [IpcNode.map_fst_nodes] at hall
    exact hall.sublist (hsub.map _)
  · rw [t.entryFocused_of_mem (hsub.subset he), h, beq_iff_eq, some_inj, eq_comm]

theorem countP_entryFocused_none (hsub : entries.Sublist t.tree.ipcTree.entries)
    (h : t.tree.focus = none) :
    entries.countP IpcNode.entryFocused = 0 := by
  refine countP_eq_zero.mpr fun e he => ?_
  rw [t.entryFocused_of_mem (hsub.subset he), h]
  exact Bool.false_ne_true

/-- The focus is at or below the node that is described as the root. -/
def showsFocus : Bool := t.tree.focus.any (· ∈ t.tree.depthFirst t.tree.ipcRoot)

theorem countP_ipcTree_focused :
    t.tree.ipcTree.entries.countP IpcNode.entryFocused = if t.showsFocus then 1 else 0 := by
  unfold showsFocus
  cases h : t.tree.focus with
  | none => exact t.countP_entryFocused_none (Sublist.refl _) h
  | some f =>
    rw [t.countP_entryFocused (Sublist.refl _) h, ← IpcNode.map_fst_nodes,
      t.map_fst_nodes_ipcTree]
    simp only [any_some, decide_eq_true_eq]

end SoundTree

namespace Ipc

theorem countP_mask_false (l : List (ℤ × Bool)) : (mask false l).countP (·.2) = 0 := by
  rw [countP_eq_length_filter, filter_mask_false, length_nil]

theorem countP_mask_zero {l : List (ℤ × Bool)} (h : l.countP (·.2) = 0) (keep : Bool) :
    (mask keep l).countP (·.2) = 0 := by
  cases keep with
  | true => rw [mask_true, h]
  | false => exact countP_mask_false l

theorem countP_map_entryFlag (entries : List (IpcSplit ⊕ IpcLeaf MappedId)) :
    (entries.map entryFlag).countP (·.2) = entries.countP IpcNode.entryFocused := by
  rw [countP_map]
  refine countP_congr fun e _ => ?_
  rcases e with info | info <;> exact Iff.rfl

/-! ## 3. The active workspace -/

/-- The focus of a workspace is where its node shows it. -/
structure ShowsFocus (ws : Swayward.Workspace MappedId) : Prop where
  /-- no fullscreen tile hides an active floating window -/
  floating : ws.floatingIsActive = .yes → ws.activeWindow.isSome = true →
    tilingFullscreen ws = false
  /-- of the groups with the root of the active window's group, one has its focus there or below -/
  group : ws.floatingIsActive = .yes → ∀ window, ws.activeWindow = some window →
    ∀ root, ws.floating.treeRootForWindow window = some root →
      ws.floating.treeEntries.countP (fun entry => entry.root == root && entry.tree.showsFocus) = 1
  /-- a focused container that is shown has an active window that is tiled for IPC too -/
  tiled : ws.floatingIsActive ≠ .yes → ∀ focus, ws.tiling.tree.focus = some focus →
    focus ∈ ws.ipcTilingTree.nodes.map (·.1) → ∀ window, ws.activeWindow = some window →
      ws.isFloatingForIpc window = false

section Workspace

variable {ws : Swayward.Workspace MappedId}
variable {window : MappedId}

/-- The single floating windows: the active one is marked. -/
theorem countP_singles (h : ws.tiling.tree.residentRoot = false) (hnodup : ws.windows.Nodup)
    (hactive : ws.activeWindow = some window) :
    ((floatingTiles ws).map (singleFlag ws true)).countP (·.2) =
      if window ∈ (floatingTiles ws).map (·.window) then 1 else 0 := by
  rw [countP_map]
  refine countP_eq_ite ?_ fun tile _ => ?_
  · have hshown := (shownWindows_perm h).nodup_iff.mpr hnodup
    exact hshown.of_append_right.of_append_right
  · rw [Function.comp_apply, singleFlag, if_pos rfl, hactive, beq_iff_eq, some_inj, eq_comm]

theorem countP_singles_none (focused : Bool) (h : focused = true → ws.activeWindow = none) :
    ((floatingTiles ws).map (singleFlag ws focused)).countP (·.2) = 0 := by
  rw [countP_map]
  refine countP_eq_zero.mpr fun tile _ => ?_
  cases focused with
  | true =>
    simp only [Function.comp_apply, singleFlag, if_true, h rfl]
    exact Bool.false_ne_true
  | false => exact Bool.false_ne_true

/-- No group is marked unless the floating layer is active and its window is in the group. -/
theorem countP_groups_zero (focused : Bool)
    (h : focused = true → ws.floatingIsActive = .yes → ∀ window, ws.activeWindow = some window →
      ws.floating.treeRootForWindow window = none) :
    (ws.floating.treeEntries.flatMap (groupFlags ws focused)).countP (·.2) = 0 := by
  rw [countP_flatMap, sum_eq_zero_iff]
  intro n hn
  obtain ⟨entry, -, rfl⟩ := mem_map.mp hn
  rw [Function.comp_apply, groupFlags]
  have hfalse : (focused && decide (ws.floatingIsActive = .yes) && ws.activeWindow.any fun window =>
      ws.floating.treeRootForWindow window == some entry.root) = false := by
    rw [Bool.eq_false_iff]
    intro hall
    simp only [Bool.and_eq_true, decide_eq_true_eq, Option.any_eq_true, beq_iff_eq] at hall
    obtain ⟨⟨hfocused, hyes⟩, window, hactive, hroot⟩ := hall
    rw [h hfocused hyes window hactive] at hroot
    cases hroot
  rw [hfalse]
  exact countP_mask_false _

/-- Of the groups with the root of the active one, those are marked that show their focus. -/
theorem countP_groups {root : NodeId} (hyes : ws.floatingIsActive = .yes)
    (hactive : ws.activeWindow = some window)
    (hroot : ws.floating.treeRootForWindow window = some root)
    (entries : List (FloatingTreeEntry MappedId)) :
    (entries.flatMap (groupFlags ws true)).countP (·.2) =
      entries.countP fun entry => entry.root == root && entry.tree.showsFocus := by
  induction entries with
  | nil => rfl
  | cons entry rest ih =>
    have hentry : (groupFlags ws true entry).countP (·.2) =
        if entry.root == root && entry.tree.showsFocus then 1 else 0 := by
      rw [groupFlags, hactive, any_some, hroot, hyes, some_beq_some, BEq.comm]
      cases entry.root == root with
      | true =>
        simp only [decide_true, Bool.true_and, Bool.and_true, mask_true]
        rw [countP_map_entryFlag, entry.tree.countP_ipcTree_focused]
      | false =>
        rw [Bool.and_false, countP_mask_false]
        rfl
    rw [flatMap_cons, countP_append, ih, countP_cons, hentry, Nat.add_comm]

/-- Hidden tiled nodes are not marked. -/
theorem tiledFlags_hidden {focused : Bool}
    (h : tiledFlags ws focused = mask false (ws.ipcTilingTree.entries.map entryFlag)) :
    (tiledFlags ws focused).tail.countP (·.2) = 0 ∧
      (tiledFlags ws focused).head?.any (·.2) = false := by
  rw [h]
  constructor
  · refine Nat.le_zero.mp (le_trans (Sublist.countP_le (tail_sublist _)) ?_)
    rw [countP_mask_false]
  · cases ws.ipcTilingTree.entries <;> rfl

/-- A window of the floating layer is in a group or on its own. -/
theorem treeRootForWindow_none (h : ws.floating.treeRootForWindow window = none)
    (hmem : window ∈ ws.floating.windows) :
    window ∈ ws.floating.entries.map (·.tile.window) := by
  refine (mem_append.mp hmem).resolve_right fun hgroup => ?_
  obtain ⟨entry, hentry, hw⟩ := mem_flatMap.mp hgroup
  obtain ⟨idx, hidx⟩ := isSome_iff_exists.mp (FloatingLayout.isSome_treeEntryForWindow hentry hw)
  unfold FloatingLayout.treeRootForWindow FloatingLayout.treeEntryWithWindow at h
  rw [hidx, bind_some] at h
  obtain ⟨hlt, -⟩ := findIdx?_eq_some_iff_getElem.mp hidx
  rw [List.getElem?_eq_getElem hlt] at h
  cases h

theorem mem_groupedWindows_of_treeRoot {root : NodeId}
    (h : ws.floating.treeRootForWindow window = some root) : window ∈ ws.groupedWindows := by
  obtain ⟨entry, hentry, -⟩ := map_eq_some_iff.mp h
  obtain ⟨idx, hidx, hget⟩ := bind_eq_some_iff.mp hentry
  obtain ⟨hlt, hsome, -⟩ := findIdx?_eq_some_iff_getElem.mp hidx
  refine mem_flatMap.mpr ⟨ws.floating.treeEntries[idx], List.getElem_mem hlt, ?_⟩
  by_contra hnot
  rw [SoundTree.nodeForWindow_eq_none _ hnot] at hsome
  exact Bool.false_ne_true hsome

/-- A single floating window is described once. -/
theorem mem_floatingTiles_of_entry (h : window ∈ ws.floating.entries.map (·.tile.window)) :
    window ∈ (floatingTiles ws).map (·.window) := by
  obtain ⟨entry, hentry, rfl⟩ := mem_map.mp h
  refine mem_map.mpr ⟨entry.tile, mem_filter.mpr ⟨?_, ?_⟩, rfl⟩
  · exact mem_append_left _ (mem_map_of_mem hentry)
  · refine Bool.or_eq_true_iff.mpr (Or.inl (FloatingLayout.hasWindow_iff.mpr ?_))
    exact mem_append_left _ h

section

variable (h : ws.tiling.tree.residentRoot = false)
include h

/-- A window of a group is not described on its own. -/
theorem notMem_floatingTiles_of_group
    (hnodup : ws.windows.Nodup) (hw : window ∈ ws.groupedWindows) :
    window ∉ (floatingTiles ws).map (·.window) := by
  have hshown := ((shownWindows_perm h).nodup_iff.mpr hnodup).of_append_right
  exact (nodup_append'.mp hshown).2.2 hw

/-- **The floating layer is active**: its active window is marked, or else the workspace. -/
theorem countP_floating (hnodup : ws.windows.Nodup) (hyes : ws.floatingIsActive = .yes) :
    (workspaceFlags ws true).countP (·.2) = 1 ↔
      (ws.activeWindow.isSome = true → tilingFullscreen ws = false) ∧
      ∀ window, ws.activeWindow = some window →
        ∀ root, ws.floating.treeRootForWindow window = some root → ws.floating.treeEntries.countP
          (fun entry => entry.root == root && entry.tree.showsFocus) = 1 := by
  have htiled : tiledFlags ws true = mask false (ws.ipcTilingTree.entries.map entryFlag) := by
    unfold tiledFlags
    rw [hyes]
    rfl
  obtain ⟨htail, hhead⟩ := tiledFlags_hidden htiled
  unfold workspaceFlags
  rw [countP_cons, countP_append, htail, hhead, Bool.false_or, Bool.true_and, Nat.zero_add]
  cases hactive : ws.activeWindow with
  | none =>
    have hzero : (floatingFlags ws true).countP (·.2) = 0 := by
      unfold floatingFlags
      rw [countP_append, countP_singles_none true fun _ => hactive,
        countP_groups_zero true fun _ _ window h => by rw [hactive] at h; cases h]
    rw [countP_mask_zero hzero]
    exact iff_of_true rfl ⟨nofun, nofun⟩
  | some window =>
    have hfloating : ws.floating.activeWindow = some window := by
      rw [← hactive, Workspace.activeWindow, hyes]
    have hmem : window ∈ ws.floating.windows :=
      contains_iff_mem.mp (filter_eq_some_iff.mp hfloating).2
    cases hfull : tilingFullscreen ws with
    | true =>
      rw [Bool.not_true, countP_mask_false]
      exact iff_of_false nofun fun hshows => Bool.false_ne_true (hshows.1 rfl).symm
    | false =>
      rw [Bool.not_false, mask_true]
      unfold floatingFlags
      rw [countP_append, countP_singles h hnodup hactive]
      cases hroot : ws.floating.treeRootForWindow window with
      | none =>
        have hgroups := @countP_groups_zero ws true fun _ _ other h => by
          rwa [← some.inj (hactive.symm.trans h)]
        rw [hgroups, if_pos (mem_floatingTiles_of_entry (treeRootForWindow_none hroot hmem))]
        refine iff_of_true rfl ⟨fun _ => rfl, fun other hother root hroot' => ?_⟩
        rw [← some.inj hother, hroot] at hroot'
        cases hroot'
      | some root =>
        rw [countP_groups hyes hactive hroot, if_neg (notMem_floatingTiles_of_group h hnodup
          (mem_groupedWindows_of_treeRoot hroot))]
        constructor
        · rintro hone
          refine ⟨fun _ => rfl, fun other hother root' hroot' => ?_⟩
          rw [← some.inj hother, hroot] at hroot'
          rw [← some.inj hroot']
          exact hone
        · exact fun hshows => hshows.2 window rfl root hroot

/-- A tiled node is not shown only if all its windows float for IPC. -/
theorem isFloatingForIpc_of_notMem {focus leaf : NodeId}
    {tile : Tile MappedId} (hfocus : ws.tiling.tree.contains focus = true)
    (hnot : focus ∉ ws.ipcTilingTree.nodes.map (·.1))
    (hleaf : leaf ∈ ws.tiling.tree.depthFirst focus)
    (htile : ws.tiling.tree.tile leaf = some tile) : ws.isFloatingForIpc tile.window = true := by
  obtain ⟨info, children, he⟩ := ws.tiling.exists_ipcTree_eq_split h
  obtain ⟨copy, hcopy, hid, hentries⟩ :=
    ws.tiling.exists_copy (ws.tiling.mem_depthFirst_ipcRoot h hfocus) hfocus
  by_contra hkeep
  rw [Bool.not_eq_true] at hkeep
  have hw : tile.window ∈ copy.windows := by
    refine mem_filterMap.mpr ⟨.inr (ws.tiling.tree.ipcLeaf leaf tile), ?_, rfl⟩
    rw [hentries]
    refine mem_filterMap.mpr ⟨leaf, hleaf, ?_⟩
    rcases TilingTree.exists_ipcEntry (Arena.contains_of_tile htile) with
      ⟨s, hs, -⟩ | ⟨tile', htile', -, hentry⟩
    · rw [Arena.tile_of_splitAt hs] at htile
      cases htile
    · cases htile.symm.trans htile'
      exact hentry
  rw [he] at hcopy
  refine hnot ?_
  rw [Workspace.ipcTilingTree, he, ← hid]
  exact IpcNode.mem_nodes_retainLeaves hcopy (any_eq_true.mpr ⟨_, hw, by rw [hkeep]; rfl⟩)

end

/-- A tiled window that floats for IPC is fullscreen, and hides the tiled nodes. -/
theorem floats_of_tiled (hnodup : ws.windows.Nodup) (hmem : window ∈ ws.tiling.windows)
    (h : ws.isFloatingForIpc window = true) :
    window ∈ (floatingTiles ws).map (·.window) ∧ tilingFullscreen ws = false := by
  have hout : ws.floating.hasWindow window = false := by
    rw [Bool.eq_false_iff]
    intro hin
    exact (nodup_append'.mp hnodup).2.2 hmem (FloatingLayout.hasWindow_iff.mp hin)
  have htiled : ws.tiling.tiles.any (fun tile =>
      tile.window == window && Workspace.restoresToFloating tile) = true := by
    unfold Workspace.isFloatingForIpc at h
    rwa [hout, Bool.false_or] at h
  obtain ⟨tile, htile, hrestores⟩ := any_eq_true.mp htiled
  rw [Bool.and_eq_true, beq_iff_eq] at hrestores
  obtain ⟨rfl, hrestores⟩ := hrestores
  have hin : tile ∈ floatingTiles ws := mem_filter.mpr ⟨mem_append_right _ htile, h⟩
  refine ⟨mem_map_of_mem hin, ?_⟩
  have hfull : floatingFullscreen ws = true := Bool.or_eq_true_iff.mpr (Or.inr (any_eq_true.mpr
      ⟨tile, hin, (Bool.and_eq_true_iff.mp hrestores).2⟩))
  rw [tilingFullscreen, hfull]
  rfl

theorem activeWindow_tiled (hno : ws.floatingIsActive ≠ .yes) :
    ws.activeWindow = ws.tiling.tree.activeWindow := by
  unfold Workspace.activeWindow
  cases hf : ws.floatingIsActive with
  | yes => exact absurd hf hno
  | no | noButRaised => rfl

theorem notMem_floatingTiles (h : ws.isFloatingForIpc window = false) :
    window ∉ (floatingTiles ws).map (·.window) := by
  intro hmem
  obtain ⟨tile, htile, rfl⟩ := mem_map.mp hmem
  exact Bool.false_ne_true (h.symm.trans (mem_filter.mp htile).2)

/-- **The tiling tree is active**: its focus is marked, in the tree or where it is shown instead. -/
theorem countP_tiled (h : ws.tiling.tree.residentRoot = false) (hnodup : ws.windows.Nodup)
    (hno : ws.floatingIsActive ≠ .yes) :
    (workspaceFlags ws true).countP (·.2) = 1 ↔
      ∀ focus, ws.tiling.tree.focus = some focus → focus ∈ ws.ipcTilingTree.nodes.map (·.1) →
        ∀ window, ws.activeWindow = some window → ws.isFloatingForIpc window = false := by
  obtain ⟨info, rest, he⟩ := entries_ipcTilingTree h
  have hsub : ws.ipcTilingTree.entries.Sublist ws.tiling.tree.ipcTree.entries :=
    IpcNode.entries_retainLeaves _
  have hactive := activeWindow_tiled hno
  have htiled : tiledFlags ws true = entryFlag (.inl info) :: rest.map entryFlag := by
    unfold tiledFlags
    rw [decide_eq_false hno, Bool.not_false, Bool.and_true, mask_true, he]
    rfl
  have hcount : ws.ipcTilingTree.entries.countP IpcNode.entryFocused =
      rest.countP IpcNode.entryFocused + if info.focused then 1 else 0 := by
    rw [he, countP_cons]
    rfl
  have hfloating : (floatingFlags ws true).countP (·.2) =
      ((floatingTiles ws).map (singleFlag ws true)).countP (·.2) := by
    unfold floatingFlags
    rw [countP_append, countP_groups_zero true fun _ hyes => absurd hyes hno, Nat.zero_add]
  unfold workspaceFlags
  rw [htiled, head?_cons, tail_cons, countP_cons, countP_append,
    countP_map_entryFlag, any_some, Bool.true_and]
  cases hfocus : ws.tiling.tree.focus with
  | none =>
    -- there is no window, and the workspace is focused
    have hnone : ws.activeWindow = none :=
      hactive.trans (ws.tiling.activeWindow_of_focus_none hfocus)
    have hzero := ws.tiling.countP_entryFocused_none hsub hfocus
    have hmask := countP_mask_zero (hfloating.trans (countP_singles_none true fun _ => hnone))
    rw [hmask, hnone, isNone_none, Bool.or_true, if_pos rfl]
    exact iff_of_true (by omega) nofun
  | some focus =>
    obtain ⟨leaf, tile, htile, hleaf, hwindow⟩ := ws.tiling.exists_activeLeaf hfocus
    rw [← hactive] at hwindow
    have hcontains := ws.tiling.wellFormed.tables.focus focus hfocus
    have hone := ws.tiling.countP_entryFocused hsub hfocus
    have hmem : tile.window ∈ ws.tiling.windows := by
      rw [← ws.tiling.map_window_tiles]
      exact mem_map_of_mem (ws.tiling.mem_tiles htile)
    rw [hwindow, isNone_some, Bool.or_false]
    change rest.countP IpcNode.entryFocused + _ + (if info.focused then 1 else 0) = 1 ↔ _
    rw [← IpcNode.map_fst_nodes] at hone
    cases hfloats : ws.isFloatingForIpc tile.window with
    | true =>
      -- the window is marked where it floats; a focus that is shown in the tree is a second one
      obtain ⟨hshown, hfull⟩ := floats_of_tiled hnodup hmem hfloats
      rw [hfull, Bool.not_false, mask_true, hfloating, countP_singles h hnodup hwindow,
        if_pos hshown]
      by_cases hin : focus ∈ ws.ipcTilingTree.nodes.map (·.1)
      · rw [if_pos hin] at hone
        refine iff_of_false (by omega) fun hshows => ?_
        cases hfloats.symm.trans (hshows focus rfl hin tile.window rfl)
      · rw [if_neg hin] at hone
        refine iff_of_true (by omega) fun other hother hin' => absurd hin' ?_
        rwa [← some.inj hother]
    | false =>
      -- the focus is shown in the tree, as its active window is
      have hin : focus ∈ ws.ipcTilingTree.nodes.map (·.1) := by
        by_contra hnot
        cases hfloats.symm.trans (isFloatingForIpc_of_notMem h hcontains hnot hleaf htile)
      have hsingles : (mask (!tilingFullscreen ws) (floatingFlags ws true)).countP (·.2) = 0 := by
        refine countP_mask_zero ?_ _
        rw [hfloating, countP_singles h hnodup hwindow, if_neg (notMem_floatingTiles hfloats)]
      rw [if_pos hin] at hone
      rw [hsingles]
      refine iff_of_true (by omega) fun _ _ _ window hw => ?_
      rwa [← some.inj hw]

/-- **The active workspace has one focused node** exactly if it shows its focus. -/
theorem countP_workspaceFlags (h : ws.tiling.tree.residentRoot = false)
    (hnodup : ws.windows.Nodup) :
    (workspaceFlags ws true).countP (·.2) = 1 ↔ ShowsFocus ws := by
  by_cases hyes : ws.floatingIsActive = .yes
  · rw [countP_floating h hnodup hyes]
    exact ⟨fun hshows => ⟨fun _ => hshows.1, fun _ => hshows.2, fun hno => absurd hyes hno⟩,
      fun hshows => ⟨hshows.floating hyes, hshows.group hyes⟩⟩
  · rw [countP_tiled h hnodup hyes]
    exact ⟨fun hshows => ⟨fun h => absurd h hyes, fun h => absurd h hyes, fun _ => hshows⟩,
      fun hshows => hshows.tiled hyes⟩

/-- Any other workspace has none. -/
theorem filter_workspaceFlags_false : (workspaceFlags ws false).filter (·.2) = [] := by
  have hzero : (workspaceFlags ws false).countP (·.2) = 0 := by
    obtain ⟨htail, hhead⟩ := @tiledFlags_hidden ws false rfl
    have hfloating : (floatingFlags ws false).countP (·.2) = 0 := by
      unfold floatingFlags
      rw [countP_append, countP_groups_zero false (absurd · Bool.false_ne_true),
        countP_singles_none false (absurd · Bool.false_ne_true)]
    unfold workspaceFlags
    rw [countP_cons, countP_append, htail, countP_mask_zero hfloating, hhead]
    rfl
  rw [countP_eq_length_filter] at hzero
  exact length_eq_zero_iff.mp hzero

end Workspace

/-! ## 4. The whole reply -/

/-- Where all elements but one contribute nothing. -/
theorem filter_flatMap_of_unique {α β : Type} {f : α → List (ℤ × Bool)} {key : α → β} {l : List α}
    {a : α} (ha : a ∈ l) (hnodup : (l.map key).Nodup)
    (hother : ∀ b ∈ l, key b ≠ key a → (f b).filter (·.2) = []) :
    (l.flatMap f).filter (·.2) = (f a).filter (·.2) := by
  obtain ⟨s, t, rfl⟩ := append_of_mem ha
  rw [map_append, map_cons, nodup_middle, nodup_cons, mem_append] at hnodup
  have hnil : ∀ part : List α, (∀ b ∈ part, b ∈ s ++ a :: t ∧ key b ≠ key a) →
      (part.flatMap f).filter (·.2) = [] := by
    intro part hpart
    rw [filter_flatMap, flatMap_eq_nil_iff]
    exact fun b hb => hother b (hpart b hb).1 (hpart b hb).2
  rw [flatMap_append, flatMap_cons, filter_append, filter_append, hnil s, hnil t,
    append_nil, nil_append]
  · exact fun b hb => ⟨mem_append_right _ (mem_cons_of_mem _ hb),
      fun e => hnodup.1 (Or.inr (e ▸ mem_map_of_mem hb))⟩
  · exact fun b hb => ⟨mem_append_left _ hb, fun e => hnodup.1 (Or.inl (e ▸ mem_map_of_mem hb))⟩

section Tree

variable {l : SoundLayout MappedId} {m : Monitor MappedId} {ws : Swayward.Workspace MappedId}

/-- The active workspace is described. -/
theorem exists_mem_describedWorkspaces (hm : m ∈ l.monitors) (hws : m.activeWorkspace = some ws) :
    ∃ index, (index, ws) ∈ describedWorkspaces m := by
  have hperm := m.swayWorkspaces_perm (l.monitors_sound m hm) (l.monitor_workspaces_nodup hm)
  obtain ⟨⟨index, other⟩, he, rfl⟩ := mem_map.mp (hperm.mem_iff.mpr (mem_of_getElem? hws))
  refine ⟨index, mem_filter.mpr ⟨he, ?_⟩⟩
  rw [hws, any_some, beq_self_eq_true, Bool.or_true]

/-- The path from the root: the output, then the workspace. -/
theorem describeWorkspace_mem_preorder (v : Views) (hm : m ∈ l.monitors)
    {e : ℕ × Swayward.Workspace MappedId} (he : e ∈ describedWorkspaces m) :
    describeWorkspace l.toLayoutState v e.2 m.outputName e.1 ∈
      (describeTree l.toLayoutState v).preorder := by
  have hnode : describeWorkspace l.toLayoutState v e.2 m.outputName e.1 ∈
      (describeOutputNode l.toLayoutState v m).nodes := mem_map.mpr ⟨e, he, rfl⟩
  have houtput : describeOutputNode l.toLayoutState v m ∈
      (describeTree l.toLayoutState v).nodes := mem_cons_of_mem _ (mem_map_of_mem hm)
  exact Node.mem_preorder_of_mem_nodes houtput
    (Node.mem_preorder_of_mem_nodes hnode (Node.self_mem_preorder _))

theorem describedWorkspaces_nodup (hm : m ∈ l.monitors) :
    ((describedWorkspaces m).map (·.2.id)).Nodup := by
  have hperm := m.swayWorkspaces_perm (l.monitors_sound m hm) (l.monitor_workspaces_nodup hm)
  have hall : (m.swayWorkspaces.map (·.2.id)).Nodup := by
    have h := (hperm.map (·.id)).nodup_iff.mpr (l.monitor_workspaces_nodup hm)
    rwa [List.map_map] at h
  exact hall.sublist (filter_sublist.map _)

/-- Which workspace is focused. -/
theorem workspaceState_focused (hm : l.activeMonitor = some m) (hws : m.activeWorkspace = some ws)
    (output : Name) (id : WorkspaceId) :
    (workspaceState l.toLayoutState output id).focused =
      (m.outputName == output && ws.id == id) := by
  rw [workspaceState, hm, any_some, onOutput, hws, any_some]

/-- Of all outputs, the active workspace alone has focused nodes. -/
theorem filter_outputFlags (hm : l.activeMonitor = some m) (hmem : m ∈ l.monitors)
    (hws : m.activeWorkspace = some ws) :
    (l.monitors.flatMap (outputFlags l.toLayoutState)).filter (·.2) =
      (workspaceFlags ws true).filter (·.2) := by
  obtain ⟨index, hdescribed⟩ := exists_mem_describedWorkspaces hmem hws
  have hcons : ∀ n : Monitor MappedId, (outputFlags l.toLayoutState n).filter (·.2) =
      ((describedWorkspaces n).flatMap fun e =>
        workspaceFlags e.2 (workspaceState l.toLayoutState n.outputName e.2.id).focused).filter
          (·.2) := fun n => rfl
  rw [filter_flatMap_of_unique hmem l.outputs_nodup, hcons,
    filter_flatMap_of_unique hdescribed (describedWorkspaces_nodup hmem)]
  · rw [workspaceState_focused hm hws, beq_self_eq_true, beq_self_eq_true]
    rfl
  · intro e _ hne
    rw [workspaceState_focused hm hws, beq_eq_false_iff_ne.mpr (Ne.symm hne), Bool.and_false]
    exact filter_workspaceFlags_false
  · intro n _ hne
    rw [hcons, filter_flatMap, flatMap_eq_nil_iff]
    intro e _
    rw [workspaceState_focused hm hws, beq_eq_false_iff_ne.mpr (Ne.symm hne), Bool.false_and]
    exact filter_workspaceFlags_false

/-- The node of the active workspace. -/
theorem filter_describeWorkspace (v : Views) (hm : l.activeMonitor = some m)
    (hws : m.activeWorkspace = some ws) (hall : ws ∈ l.allWorkspaces) (index : ℕ) :
    (describeWorkspace l.toLayoutState v ws m.outputName index).focusedIds.Perm
      (((workspaceFlags ws true).filter (·.2)).map (·.1)) := by
  have hflags := (flags_describeWorkspace l.toLayoutState v (l.tiled ws hall) m.outputName
    index).filter (·.2)
  rw [workspaceState_focused hm hws, beq_self_eq_true, beq_self_eq_true, Bool.true_and] at hflags
  rw [Node.focusedIds_eq_flags]
  exact hflags.map _

/-- The whole reply: the active workspace, and windows that are hidden on their own. -/
theorem filter_describeTree (v : Views) (hm : l.activeMonitor = some m) (hmem : m ∈ l.monitors)
    (hws : m.activeWorkspace = some ws) :
    (describeTree l.toLayoutState v).focusedIds.Perm
      (((((hiddenAlone l.toLayoutState).map fun tile =>
        (windowId tile.window, v.isFocused tile.window)).filter (·.2)).map (·.1)) ++
        ((workspaceFlags ws true).filter (·.2)).map (·.1)) := by
  have hgroups : (l.scratchpadTrees.flatMap hiddenGroupFlags).filter (·.2) = [] := by
    rw [filter_flatMap, flatMap_eq_nil_iff]
    exact fun removed _ => filter_mask_false _
  have hflags := (flags_describeTree v l).filter (·.2)
  rw [filter_cons_of_neg Bool.false_ne_true, filter_cons_of_neg Bool.false_ne_true,
    filter_cons_of_neg Bool.false_ne_true, filter_append, filter_append, hgroups, nil_append,
    filter_outputFlags hm hmem hws] at hflags
  rw [Node.focusedIds_eq_flags, ← map_append]
  exact hflags.map _

/-- **One node is focused, and it is the active workspace or lies below it**, exactly if the
workspace shows its focus and no window that is hidden on its own still has the keyboard focus. -/
theorem one_focused (l : SoundLayout MappedId) (v : Views) (hout : l.monitors ≠ []) :
    (∃ m ws index id, l.activeMonitor = some m ∧ m.activeWorkspace = some ws ∧
      describeWorkspace l.toLayoutState v ws m.outputName index ∈
        (describeTree l.toLayoutState v).preorder ∧
      (describeTree l.toLayoutState v).focusedIds = [id] ∧
      (describeWorkspace l.toLayoutState v ws m.outputName index).focusedIds = [id]) ↔
    (∀ m ws, l.activeMonitor = some m → m.activeWorkspace = some ws → ShowsFocus ws) ∧
      ∀ tile ∈ hiddenAlone l.toLayoutState, v.isFocused tile.window = false := by
  obtain ⟨m, hmem, hm⟩ := l.exists_activeMonitor hout
  obtain ⟨ws, hin, hws⟩ := (l.monitors_sound m hmem).exists_activeWorkspace
  have hall := l.mem_allWorkspaces hmem hin
  have hnodup : ws.windows.Nodup := (nodup_flatMap.mp l.workspace_windows_nodup).1 ws hall
  have hcount := countP_workspaceFlags (l.tiled ws hall) hnodup
  have hnode := filter_describeWorkspace v hm hws hall
  have htree := filter_describeTree v hm hmem hws
  constructor
  · rintro ⟨m', ws', index, id, hm', hws', -, htotal, hone⟩
    obtain rfl : m = m' := some.inj (hm.symm.trans hm')
    obtain rfl : ws = ws' := some.inj (hws.symm.trans hws')
    have hlength := (hnode index).length_eq
    rw [hone, length_map, ← countP_eq_length_filter] at hlength
    refine ⟨fun m' ws' hm' hws' => ?_, fun tile htile => ?_⟩
    · obtain rfl : m = m' := some.inj (hm.symm.trans hm')
      obtain rfl : ws = ws' := some.inj (hws.symm.trans hws')
      exact hcount.mp hlength.symm
    · -- the active workspace has the only focused node already
      have hnone := htree.length_eq
      rw [htotal, length_append, length_map, length_map, ← countP_eq_length_filter,
        ← countP_eq_length_filter, ← hlength] at hnone
      have hzero := countP_eq_zero.mp (Nat.add_eq_right.mp hnone.symm)
      exact Bool.eq_false_iff.mpr (hzero _ (mem_map_of_mem htile))
  · rintro ⟨hshows, hhidden⟩
    obtain ⟨index, hdescribed⟩ := exists_mem_describedWorkspaces hmem hws
    obtain ⟨e, he⟩ := exists_filter_eq_singleton (hcount.mpr (hshows m ws hm hws))
    have hsingles : ((hiddenAlone l.toLayoutState).map fun tile =>
        (windowId tile.window, v.isFocused tile.window)).filter (·.2) = [] := by
      refine filter_eq_nil_iff.mpr fun flag hflag => ?_
      obtain ⟨tile, htile, rfl⟩ := mem_map.mp hflag
      rw [hhidden tile htile]
      exact Bool.false_ne_true
    rw [hsingles, he] at htree
    have hone := hnode index
    rw [he] at hone
    exact ⟨m, ws, index, e.1, hm, hws, describeWorkspace_mem_preorder v hmem hdescribed,
      perm_singleton.mp htree, perm_singleton.mp hone⟩

theorem showsFocus_groupWorkspace : ShowsFocus groupWorkspace := by
  have hactive : groupWorkspace.activeWindow = some 9 := by decide +kernel
  have hroot : groupWorkspace.floating.treeRootForWindow 9 = some 3 := by decide +kernel
  refine ⟨fun _ _ => by decide +kernel, ?_, fun hno => absurd rfl hno⟩
  intro _ window hwindow root hroot'
  obtain rfl : 9 = window := some.inj (hactive.symm.trans hwindow)
  obtain rfl : 3 = root := some.inj (hroot.symm.trans hroot')
  decide +kernel

/-- A group is active, and its second window has the focus. -/
theorem one_focused_group : ∃ id,
    (describeTree groupShown.toLayoutState plainViews).focusedIds = [id] := by
  obtain ⟨m, ws, index, id, -, -, -, h, -⟩ :=
    (one_focused groupShown plainViews (cons_ne_nil _ _)).mpr
      ⟨fun m ws hm hws => activeWorkspace_oneOutput hm hws ▸ showsFocus_groupWorkspace,
        fun _ h => nomatch h⟩
  exact ⟨id, h⟩

/-- A tiled window that was made fullscreen. -/
def fullscreenTree : SoundTree ℕ :=
  SoundTree.ofRun
    [.newTree {}, World.openWindow 0 7, .quiet 0 (.mode (.setFullscreen 7 true))]
    (by decide +kernel) 0

/-- Beside it floats window 8. -/
def besideFullscreen : Swayward.Workspace ℕ where
  id := 1
  originalOutput := []
  tiling := fullscreenTree
  floating := ({} : FloatingLayout ℕ).addTile { window := 8 } false

/-- **No node is focused** after the floating window was activated beside a fullscreen one. -/
theorem focus_under_fullscreen :
    (describeTree (oneOutput besideFullscreen []) plainViews).focusedIds = [400000007] ∧
    (describeTree (oneOutput (besideFullscreen.activateWindow 8).1 []) plainViews).focusedIds =
      [] := by
  decide +kernel

end Tree

end Ipc

end Swayward
