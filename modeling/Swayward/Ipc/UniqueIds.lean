/-
  File:      Swayward/Ipc/UniqueIds.lean
  Subject:   NO IDENTIFIER TWICE in a GET_TREE reply (`ipc/tree.rs`, `ipc/tree/ids.rs`).

  The identifiers of a reply are sorted by what they number: outputs, workspaces, containers,
  windows. Each kind has its range and keeps its numbers apart in it, but for the outputs: their
  numbers are hashes of their names, which can be equal, and which can be negative and meet the
  number of the root.

  * `ids_perm`            -- the identifiers by kind;
  * `ids_unique`          -- **all identifiers are distinct** exactly if the hashes are and none
                             meets the root;
  * `outputs_share_an_id` -- two names with one hash.
-/
import Swayward.Ipc.Describe

namespace Swayward.Ipc

open List

/-! ## 1. Identifiers by kind -/

/-- A list of entries: its containers, then its windows. -/
theorem map_entryFlag_perm (entries : List (IpcSplit ⊕ IpcLeaf MappedId)) :
    (entries.map fun e => (entryFlag e).1).Perm
      ((entries.filterMap IpcNode.entrySplit).map containerId ++
        (entries.filterMap IpcNode.entryWindow).map windowId) := by
  induction entries with
  | nil => exact Perm.refl _
  | cons e entries ih =>
    rcases e with info | info
    · exact ih.cons _
    · exact (ih.cons _).trans perm_middle.symm

/-- Groups: their containers, then their windows. -/
theorem map_fst_groups {α : Type} (groups : List α) (tree : α → SoundTree MappedId)
    {flags : α → List (ℤ × Bool)} (h : ∀ group, (flags group).map (·.1) =
      (tree group).tree.ipcTree.entries.map fun e => (entryFlag e).1) :
    ((groups.flatMap flags).map (·.1)).Perm
      ((groups.flatMap fun group => (tree group).tree.containers).map containerId ++
        (groups.flatMap fun group => (tree group).windows).map windowId) := by
  rw [map_flatMap, map_flatMap, map_flatMap]
  refine Perm.trans ?_ (flatMap_append_perm _ _ _).symm
  refine Perm.flatMap_left _ fun group _ => ?_
  rw [h, ← (tree group).splitIds_ipcTree, ← (tree group).windows_ipcTree]
  exact map_entryFlag_perm _

section Workspace

variable (ws : Swayward.Workspace MappedId)

/-- The containers below the node of a workspace. -/
def shownContainers : List NodeId :=
  ws.ipcTilingTree.entries.tail.filterMap IpcNode.entrySplit ++
    ws.floating.treeEntries.flatMap (·.tree.tree.containers)

/-- The windows below the node of a workspace. -/
def shownWindows : List MappedId :=
  ws.ipcTilingTree.entries.tail.filterMap IpcNode.entryWindow ++
    (ws.groupedWindows ++ (floatingTiles ws).map (·.window))

theorem map_fst_workspaceFlags (focused : Bool) :
    ((workspaceFlags ws focused).map (·.1)).Perm ([workspaceId ws.id] ++
        ((shownContainers ws).map containerId ++ (shownWindows ws).map windowId)) := by
  have htiled : ((tiledFlags ws focused).tail.map (·.1)).Perm
      ((ws.ipcTilingTree.entries.tail.filterMap IpcNode.entrySplit).map containerId ++
        (ws.ipcTilingTree.entries.tail.filterMap IpcNode.entryWindow).map windowId) := by
    unfold tiledFlags
    rw [map_tail, map_fst_mask, map_map, ← map_tail]
    exact map_entryFlag_perm _
  have hgroups : ((ws.floating.treeEntries.flatMap (groupFlags ws focused)).map (·.1)).Perm
      ((ws.floating.treeEntries.flatMap (·.tree.tree.containers)).map containerId ++
        ws.groupedWindows.map windowId) := by
    refine map_fst_groups ws.floating.treeEntries (·.tree) fun entry => ?_
    rw [groupFlags, map_fst_mask, map_map]
    rfl
  have hsingles : ((floatingTiles ws).map (singleFlag ws focused)).map (·.1) =
      ((floatingTiles ws).map (·.window)).map windowId := by
    rw [map_map, map_map]
    rfl
  unfold workspaceFlags floatingFlags shownContainers shownWindows
  rw [map_cons, map_append, map_fst_mask, map_append, hsingles]
  rw [singleton_append]
  refine Perm.cons _ ((htiled.append (hgroups.append_right _)).trans ?_)
  refine perm_iff_count.mpr fun a => ?_
  simp only [map_append, count_append]
  omega

variable {ws}

theorem entries_ipcTilingTree (h : ws.tiling.tree.residentRoot = false) :
    ∃ info rest, ws.ipcTilingTree.entries = .inl info :: rest := by
  obtain ⟨info, children, he⟩ := ws.tiling.exists_ipcTree_eq_split h
  rw [Workspace.ipcTilingTree, he, IpcNode.retainLeaves, IpcNode.entries_split]
  exact ⟨info, _, rfl⟩

/-- **A workspace shows each of its windows once.** -/
theorem shownWindows_perm (h : ws.tiling.tree.residentRoot = false) :
    (shownWindows ws).Perm ws.windows := by
  obtain ⟨info, rest, he⟩ := entries_ipcTilingTree h
  have htail : ws.ipcTilingTree.entries.tail.filterMap IpcNode.entryWindow =
      ws.tiling.windows.filter fun window => !ws.isFloatingForIpc window := by
    rw [← ws.windows_ipcTilingTree h, IpcNode.windows, he]
    rfl
  have hentries : (ws.floating.entries.map (·.tile)).filter
      (fun tile => ws.isFloatingForIpc tile.window) = ws.floating.entries.map (·.tile) := by
    refine filter_eq_self.mpr fun tile htile => ?_
    obtain ⟨entry, hentry, rfl⟩ := mem_map.mp htile
    refine Bool.or_eq_true_iff.mpr (Or.inl (FloatingLayout.hasWindow_iff.mpr ?_))
    exact mem_append_left _ (mem_map.mpr ⟨entry, hentry, rfl⟩)
  have hfloating : (floatingTiles ws).map (·.window) = ws.floating.entries.map (·.tile.window) ++
        ws.tiling.windows.filter fun window => ws.isFloatingForIpc window := by
    unfold floatingTiles Workspace.tilesWithIpcLayouts
    rw [filter_append, hentries, map_append, map_map, ← ws.tiling.map_window_tiles, filter_map]
    rfl
  have hsplit := filter_append_perm (fun window => ws.isFloatingForIpc window) ws.tiling.windows
  unfold shownWindows Workspace.windows FloatingLayout.windows Workspace.groupedWindows
  rw [htail, hfloating]
  refine Perm.trans ?_ (hsplit.append_right _)
  refine perm_iff_count.mpr fun a => ?_
  simp only [count_append]
  omega

/-- The containers shown are nodes of the trees of the workspace. -/
theorem shownContainers_sublist : (shownContainers ws).Sublist
    ((ws.tiling :: ws.floating.treeEntries.map (·.tree)).flatMap fun t =>
      t.tree.depthFirst t.tree.root) := by
  have htiled : (ws.ipcTilingTree.entries.tail.filterMap IpcNode.entrySplit).Sublist
      ws.tiling.tree.containers := by
    rw [← ws.tiling.splitIds_ipcTree]
    exact ((tail_sublist _).trans (IpcNode.entries_retainLeaves _)).filterMap _
  unfold shownContainers
  rw [flatMap_cons, flatMap_map]
  exact (htiled.trans ws.tiling.containers_sublist).append
    (Sublist.flatMap_right _ fun entry _ => entry.tree.containers_sublist)

end Workspace

section Tree

variable (l : SoundLayout MappedId)

/-- The workspaces of the reply. -/
def shownWorkspaces : List (Swayward.Workspace MappedId) :=
  l.monitors.flatMap fun m => (describedWorkspaces m).map (·.2)

/-- They are workspaces of the layout, each once. -/
theorem shownWorkspaces_perm :
    ∃ shown, (shownWorkspaces l).Perm shown ∧ shown.Sublist l.allWorkspaces := by
  refine ⟨l.monitors.flatMap fun m => m.workspaces.filter fun ws =>
    ws.mustBeKept || m.activeWorkspace.any (·.id == ws.id), ?_, ?_⟩
  · refine Perm.flatMap_left _ fun m hm => ?_
    have hperm := (m.swayWorkspaces_perm (l.monitors_sound m hm)
      (l.monitor_workspaces_nodup hm)).filter fun ws => ws.mustBeKept || m.activeWorkspace.any (·.id == ws.id)
    rw [filter_map] at hperm
    exact hperm
  · exact (Sublist.flatMap_right _ fun m _ => filter_sublist).trans l.flatMap_monitors_sublist

/-- The containers of the reply. -/
def containersShown : List NodeId :=
  l.scratchpadTrees.flatMap (·.tree.tree.containers) ++ (shownWorkspaces l).flatMap shownContainers

theorem containersShown_nodup : (containersShown l).Nodup ∧ containersShown l ⊆ l.nodeIds := by
  obtain ⟨shown, hperm, hsub⟩ := shownWorkspaces_perm l
  have hp : (containersShown l).Perm
      (l.scratchpadTrees.flatMap (·.tree.tree.containers) ++ shown.flatMap shownContainers) :=
    (hperm.flatMap_right _).append_left _
  have hs : (l.scratchpadTrees.flatMap (·.tree.tree.containers) ++
      shown.flatMap shownContainers).Sublist l.nodeIds := by
    unfold LayoutState.nodeIds LayoutState.trees
    rw [flatMap_append, flatMap_map, flatMap_assoc]
    refine Sublist.append ?_ ?_
    · exact Sublist.flatMap_right _ fun removed _ => removed.tree.containers_sublist
    · exact (Sublist.flatMap_right _ fun ws _ => shownContainers_sublist).trans (hsub.flatMap _)
  exact ⟨hp.nodup_iff.mpr (l.nodes_nodup.sublist hs), fun n hn => hs.subset (hp.subset hn)⟩

variable (hidden : List (Tile MappedId))

/-- The windows of the reply; `hidden` are the windows in the scratchpad that it lists. -/
def windowsShown : List MappedId :=
  l.scratchpadTrees.flatMap (·.tree.windows) ++ hidden.map (·.window) ++
    (shownWorkspaces l).flatMap shownWindows

theorem windowsShown_nodup {hidden : List (Tile MappedId)} (h : hidden.Sublist l.scratchpad) :
    (windowsShown l hidden).Nodup ∧ windowsShown l hidden ⊆ l.windows := by
  obtain ⟨shown, hperm, hsub⟩ := shownWorkspaces_perm l
  have hp : (windowsShown l hidden).Perm
      (hidden.map (·.window) ++ l.scratchpadTrees.flatMap (·.tree.windows) ++
        shown.flatMap (·.windows)) := by
    refine perm_append_comm.append ((hperm.flatMap_right _).trans ?_)
    exact Perm.flatMap_left _ fun ws hws => shownWindows_perm (l.tiled ws (hsub.subset hws))
  have hs : (hidden.map (·.window) ++ l.scratchpadTrees.flatMap (·.tree.windows) ++
      shown.flatMap (·.windows)).Sublist l.windows := by
    unfold LayoutState.windows LayoutState.scratchpadWindows
    rw [append_assoc (l.interactiveMove.toList.map _)]
    refine Sublist.trans ?_ (sublist_append_right _ _)
    exact ((h.map _).append_right _).append (hsub.flatMap _)
  exact ⟨hp.nodup_iff.mpr (l.windows_nodup.sublist hs), fun w hw => hs.subset (hp.subset hw)⟩

/-- The outputs with their workspaces, by kind. -/
theorem map_fst_outputFlags :
    ((l.monitors.flatMap (outputFlags l.toLayoutState)).map (·.1)).Perm
      (l.monitors.map (fun m => outputId m.outputName) ++
        ((shownWorkspaces l).map (fun ws => workspaceId ws.id) ++
          (((shownWorkspaces l).flatMap shownContainers).map containerId ++
            ((shownWorkspaces l).flatMap shownWindows).map windowId))) := by
  have hworkspaces : (l.monitors.flatMap fun m => (describedWorkspaces m).flatMap fun e =>
      (workspaceFlags e.2 (workspaceState l.toLayoutState m.outputName e.2.id).focused).map
        (·.1)).Perm
      ((shownWorkspaces l).flatMap fun ws => [workspaceId ws.id] ++
        ((shownContainers ws).map containerId ++ (shownWindows ws).map windowId)) := by
    unfold shownWorkspaces
    rw [flatMap_assoc]
    refine Perm.flatMap_left _ fun m _ => ?_
    rw [flatMap_map]
    exact Perm.flatMap_left _ fun e _ => map_fst_workspaceFlags e.2 _
  have hkinds : ((shownWorkspaces l).flatMap fun ws => [workspaceId ws.id] ++
      ((shownContainers ws).map containerId ++ (shownWindows ws).map windowId)).Perm
      ((shownWorkspaces l).map (fun ws => workspaceId ws.id) ++
        (((shownWorkspaces l).flatMap shownContainers).map containerId ++
          ((shownWorkspaces l).flatMap shownWindows).map windowId)) := by
    rw [map_eq_flatMap, map_flatMap, map_flatMap]
    refine (flatMap_append_perm _ _ _).symm.trans ?_
    exact (flatMap_append_perm _ _ _).symm.append_left _
  have houtputs : (l.monitors.flatMap (outputFlags l.toLayoutState)).map (·.1) =
      l.monitors.flatMap fun m => [outputId m.outputName] ++
        ((describedWorkspaces m).flatMap fun e =>
          (workspaceFlags e.2 (workspaceState l.toLayoutState m.outputName e.2.id).focused).map
            (·.1)) := by
    rw [map_flatMap]
    refine flatMap_congr fun m _ => ?_
    rw [outputFlags, map_cons, map_flatMap]
    rfl
  rw [houtputs, map_eq_flatMap]
  refine (flatMap_append_perm _ _ _).symm.trans (Perm.append_left _ ?_)
  exact hworkspaces.trans hkinds

/-- **The identifiers of a reply by kind.** -/
theorem ids_perm (v : Views) :
    ∃ hidden : List (Tile MappedId), hidden.Sublist l.scratchpad ∧
      (describeTree l.toLayoutState v).ids.Perm
        ((rootId :: l.monitors.map fun m => outputId m.outputName) ++
          ((shownWorkspaces l).map (fun ws => workspaceId ws.id) ++
            ((containersShown l).map containerId ++ ((windowsShown l hidden).map windowId ++
                [scratchWorkspaceId, scratchOutputId])))) := by
  have hperm := flags_describeTree v l
  refine ⟨hiddenAlone l.toLayoutState, filter_sublist, ?_⟩
  have hgroups : ((l.scratchpadTrees.flatMap hiddenGroupFlags).map (·.1)).Perm
      ((l.scratchpadTrees.flatMap (·.tree.tree.containers)).map containerId ++
        (l.scratchpadTrees.flatMap (·.tree.windows)).map windowId) := by
    refine map_fst_groups l.scratchpadTrees (·.tree) fun removed => ?_
    rw [hiddenGroupFlags, map_fst_mask, map_map]
    rfl
  have hsingles : ((hiddenAlone l.toLayoutState).map fun tile =>
        (windowId tile.window, v.isFocused tile.window)).map (·.1) =
      ((hiddenAlone l.toLayoutState).map (·.window)).map windowId := by
    rw [map_map, map_map]
    rfl
  rw [Node.ids_eq_flags]
  refine (hperm.map _).trans ?_
  simp only [map_cons, map_append, hsingles, cons_append]
  refine Perm.cons _ ?_
  refine (((hgroups.append_right _).append (map_fst_outputFlags l)).cons _ |>.cons _).trans ?_
  unfold containersShown windowsShown
  refine perm_iff_count.mpr fun a => ?_
  simp only [map_append, count_append, count_cons, count_nil]
  omega

end Tree

/-! ## 2. Distinct identifiers -/

theorem nodup_append_of_lt {a b : List ℤ} {c : ℤ} (ha : a.Nodup) (hlt : ∀ x ∈ a, x < c)
    (hb : b.Nodup ∧ ∀ x ∈ b, c ≤ x) : (a ++ b).Nodup :=
  nodup_append'.mpr ⟨ha, hb.1, fun x hx hx' => absurd (hlt x hx) (not_lt.mpr (hb.2 x hx'))⟩

/-- Numbers of one range before those of higher ones. -/
theorem above_append {a b : List ℤ} {c : ℤ} (ha : a.Nodup)
    (hrange : ∀ x ∈ a, c ≤ x ∧ x < c + 100000000)
    (hb : b.Nodup ∧ ∀ x ∈ b, c + 100000000 ≤ x) : (a ++ b).Nodup ∧ ∀ x ∈ a ++ b, c ≤ x := by
  refine ⟨nodup_append_of_lt ha (fun x hx => (hrange x hx).2) hb, fun x hx => ?_⟩
  rcases mem_append.mp hx with hx | hx
  · exact (hrange x hx).1
  · have := hb.2 x hx
    omega

/-- The numbers of one kind. -/
theorem nodup_map_idFrom {α : Type} {base : ℤ} {f : α → ℕ} {l : List α} (h : (l.map f).Nodup)
    (hlt : ∀ a ∈ l, f a < idNamespaceSize) : (l.map fun a => idFrom base (f a)).Nodup := by
  have hmap : (l.map fun a => idFrom base (f a)) = (l.map f).map (idFrom base) := by
    rw [map_map]
    rfl
  rw [hmap]
  refine Nodup.map_on ?_ h
  intro x hx y hy hxy
  obtain ⟨a, ha, rfl⟩ := mem_map.mp hx
  obtain ⟨b, hb, rfl⟩ := mem_map.mp hy
  exact idFrom_inj (hlt a ha) (hlt b hb) hxy

theorem mem_map_idFrom {α : Type} {base x : ℤ} {f : α → ℕ} {l : List α}
    (h : x ∈ l.map fun a => idFrom base (f a)) : base ≤ x ∧ x < base + 100000000 := by
  obtain ⟨a, -, rfl⟩ := mem_map.mp h
  exact ⟨le_idFrom _ _, idFrom_lt _ _⟩

/-- The root and the outputs have distinct numbers when the hashes of the names are distinct and none
of them is that of the root. -/
theorem nodup_root_outputs (monitors : List (Monitor MappedId)) :
    (rootId :: monitors.map fun m => outputId m.outputName).Nodup ↔
      (monitors.map fun m => stableHash (nameBytes m.outputName)).Nodup ∧
        ∀ m ∈ monitors, stableHash (nameBytes m.outputName) ≠ -99999999 := by
  have hmap : (monitors.map fun m => outputId m.outputName) =
      (monitors.map fun m => stableHash (nameBytes m.outputName)).map (100000000 + ·) := by
    rw [map_map]
    rfl
  have hinj : Function.Injective (100000000 + · : ℤ → ℤ) := fun a b hab => by simpa using hab
  rw [nodup_cons, and_comm, hmap, nodup_map_iff hinj, ← hmap]
  refine and_congr_right fun _ => ?_
  rw [mem_map, not_exists]
  refine forall_congr' fun m => ?_
  rw [not_and]
  refine imp_congr_right fun _ => not_congr ?_
  unfold outputId rootId
  omega

/-- **All identifiers of a reply are distinct exactly if** the names of the outputs have distinct
hashes and none of these meets the number of the root. -/
theorem ids_unique (l : SoundLayout MappedId) (v : Views)
    (hworkspaces : ∀ ws ∈ l.allWorkspaces, ws.id < idNamespaceSize)
    (hnodes : ∀ n ∈ l.nodeIds, n < idNamespaceSize)
    (hwindows : ∀ w ∈ l.windows, w < idNamespaceSize) :
    (describeTree l.toLayoutState v).ids.Nodup ↔
      (l.monitors.map fun m => stableHash (nameBytes m.outputName)).Nodup ∧
        ∀ m ∈ l.monitors, stableHash (nameBytes m.outputName) ≠ -99999999 := by
  obtain ⟨hidden, hsub, hperm⟩ := ids_perm l v
  obtain ⟨shown, hshown, hall⟩ := shownWorkspaces_perm l
  have hws : ((shownWorkspaces l).map (·.id)).Nodup :=
    (hshown.map _).nodup_iff.mpr (l.workspaces_nodup.sublist (hall.map _))
  obtain ⟨hcontainers, hcsub⟩ := containersShown_nodup l
  obtain ⟨hwins, hwsub⟩ := windowsShown_nodup l hsub
  have hscratch : [scratchWorkspaceId, scratchOutputId].Nodup ∧
      ∀ x ∈ [scratchWorkspaceId, scratchOutputId], (400000000 : ℤ) + 100000000 ≤ x := by decide
  rw [hperm.nodup_iff, ← nodup_root_outputs]
  refine ⟨fun h => h.of_append_left, fun houtputs => ?_⟩
  -- the outputs and the root lie below the workspaces
  refine nodup_append_of_lt houtputs ?_ (above_append ?_ (fun x => mem_map_idFrom)
    (above_append ?_ (fun x => mem_map_idFrom) (above_append ?_ (fun x => mem_map_idFrom) hscratch)))
  · intro x hx
    rcases mem_cons.mp hx with rfl | hx
    · decide
    obtain ⟨m, -, rfl⟩ := mem_map.mp hx
    have := stableHash_lt (nameBytes m.outputName)
    unfold outputId
    omega
  · exact nodup_map_idFrom hws fun ws h => hworkspaces ws (hall.subset (hshown.subset h))
  · exact nodup_map_idFrom (by rwa [map_id']) fun n h => hnodes n (hcsub h)
  · exact nodup_map_idFrom (by rwa [map_id']) fun w h => hwindows w (hwsub h)

/-- Windows without titles or marks. -/
def plainViews : Views where
  title := fun _ => none
  appId := fun _ => none
  isFocused := fun _ => false
  isUrgent := fun _ => false
  marks := ∅
  containerMarks := ∅

/-- A tiled window and a group of two on one output. -/
theorem ids_unique_shown : (describeTree groupShown.toLayoutState plainViews).ids.Nodup :=
  (ids_unique groupShown plainViews (by decide +kernel) (by decide +kernel)
    (by decide +kernel)).mpr ⟨by decide +kernel, by decide +kernel⟩

/-- The outputs `Aa` and `BB`, each with an empty workspace. -/
def twoOutputs : SoundLayout ℕ where
  monitorSet := .normal
    [{  output := { handle := 0, connector := ['A', 'a'] }
        workspaces := [{ id := 1, originalOutput := [], tiling := SoundTree.new 0 {} }]
        activeWorkspaceIdx := 0
        swayWorkspaceOrder := [1] },
      { output := { handle := 1, connector := ['B', 'B'] }
        workspaces := [{ id := 2, originalOutput := [], tiling := SoundTree.new 1 {} }]
        activeWorkspaceIdx := 0
        swayWorkspaceOrder := [2] }] 0
  scratchpad := []
  scratchpadTrees := []
  interactiveMove := none
  windows_nodup := by decide +kernel
  nodes_nodup := by decide +kernel
  workspaces_nodup := by decide +kernel
  outputs_nodup := by decide +kernel
  monitors_sound := by
    intro m hm
    rcases List.mem_cons.mp hm with rfl | hm
    · exact ⟨by decide, Perm.refl _⟩
    · rw [List.mem_singleton.mp hm]
      exact ⟨by decide, Perm.refl _⟩
  active := by
    rintro monitors idx ⟨⟩
    decide
  tiled := by decide +kernel
  windowIds := windowIds_nil

/-- **Two outputs share an identifier**: the hashes of `Aa` and `BB` are both 2112. -/
theorem outputs_share_an_id :
    (describeTree twoOutputs.toLayoutState plainViews).ids =
      [1, 2147483647, 2147483646, 100002112, 200000001, 100002112, 200000002] ∧
    ¬ (describeTree twoOutputs.toLayoutState plainViews).ids.Nodup := by
  decide +kernel

end Swayward.Ipc
