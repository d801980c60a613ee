/-
  File:      Swayward/Layout/Monitors.lean
  Subject:   THE WHOLE LAYOUT: outputs with their workspaces, the scratchpad, the window in hand
             (`layout/mod.rs`, `layout/monitor.rs`, `layout/scratchpad.rs`).

  A window is in one of six places: tiled, floating on its own, in a floating group, hidden in the
  scratchpad on its own or with its group, or being moved by the pointer. The layout lists its
  windows in two ways. `windows` goes through all six. `withWindows`, which the protocols use,
  leaves out the groups, both the floating and the hidden ones.

  * `LayoutState.windows_perm`  -- that is the only difference between the two;
  * `SoundLayout`               -- a layout whose identifiers are distinct.
-/
import Swayward.Layout.IpcTree
import Swayward.Layout.Workspace

namespace Swayward

open List

variable {I : Type}

/-! ## 1. Workspaces as IPC sees them -/

namespace Workspace

/-- `tiles_with_ipc_layouts`: single floating windows, then tiled ones; no groups. -/
def tilesWithIpcLayouts (ws : Workspace I) : List (Tile I) :=
  ws.floating.entries.map (·.tile) ++ ws.tiling.tiles

/-- The windows of the floating groups. -/
def groupedWindows (ws : Workspace I) : List I :=
  ws.floating.treeEntries.flatMap (·.tree.windows)

/-- A window is in a group or it is not. -/
theorem windows_perm (ws : Workspace I) :
    ws.windows.Perm (ws.tilesWithIpcLayouts.map (·.window) ++ ws.groupedWindows) := by
  unfold windows FloatingLayout.windows tilesWithIpcLayouts groupedWindows
  rw [map_append, map_map, ws.tiling.map_window_tiles, ← append_assoc]
  exact perm_append_comm.append_right _

section Ipc

variable [DecidableEq I] (ws : Workspace I)

/-- A fullscreen window that floats again when it leaves fullscreen. -/
def restoresToFloating (tile : Tile I) : Bool :=
  tile.restoreToFloating && tile.pendingSizingMode == .fullscreen

/-- `is_floating_for_ipc` -/
def isFloatingForIpc (window : I) : Bool :=
  ws.floating.hasWindow window ||
    ws.tiling.tiles.any fun tile => tile.window == window && restoresToFloating tile

/-- `ipc_tiling_tree` -/
def ipcTilingTree : IpcNode I :=
  ws.tiling.tree.ipcTree.retainLeaves fun window => !ws.isFloatingForIpc window

theorem windows_ipcTilingTree (h : ws.tiling.tree.residentRoot = false) : ws.ipcTilingTree.windows =
      ws.tiling.windows.filter fun window => !ws.isFloatingForIpc window := by
  obtain ⟨info, children, he⟩ := ws.tiling.exists_ipcTree_eq_split h
  rw [ipcTilingTree, he, IpcNode.windows_retainLeaves, ← he, ws.tiling.windows_ipcTree]

/-- `sway_display_name`: the index stands in for an identity that is still missing. -/
def swayDisplayName (index : ℕ) : Name :=
  ws.swayName.getD (Name.numberText (index + 1))

/-- `sway_display_number` -/
def swayDisplayNumber (index : ℕ) : ℤ :=
  match ws.number, ws.name with
  | some number, _ => number
  | none, some name => Name.swayWorkspaceNum name
  | none, none => if index + 1 ≤ Name.maxNumber then (index + 1 : ℕ) else -1

/-- `window_is_sticky` of the floating layer: a group that is one window has the group's flag. -/
def floatingWindowIsSticky (window : I) : Bool :=
  (ws.floating.treeEntryWithWindow window).any fun entry =>
    if entry.tree.tree.nodeForWindow window = some entry.root then
      entry.sticky
    else
      (entry.tree.tiles.find? (·.window == window)).any (·.isSticky)

/-- `is_window_sticky` -/
def isWindowSticky (window : I) : Bool :=
  ws.floatingWindowIsSticky window || (ws.tiles.find? (·.window == window)).any (·.isSticky)

/-- `ipc_floating_trees` -/
def ipcFloatingTrees : List (NodeId × IpcNode I × Bool) :=
  ws.floating.treeEntries.map fun entry => (entry.root, entry.tree.tree.ipcTree, entry.sticky)

end Ipc

end Workspace

/-- `activate_window` of a workspace. -/
def Workspace.activateWindow [DecidableEq I] (ws : Workspace I) (window : I) : Workspace I × Bool :=
  match ws.floating.activateWindow window with
  | (floating, true) => ({ ws with floating := floating, floatingIsActive := .yes }, true)
  | (_, false) =>
    if ws.tiling.windows.contains window then
      ({ ws with
          tiling := ws.tiling.quiet (.focus (.activateWindow window))
          floatingIsActive := .no }, true)
    else
      (ws, false)

/-- A place in the floating layer. -/
inductive StackSlot (I : Type)
  | window (id : I)
  | tree (root : NodeId)
  deriving DecidableEq

/-- `stacking`: the single windows and the groups in one order, top to bottom. Of two, the one with
the later stamp comes first, and the window if the stamps are equal. -/
def stackingOf : List (FloatingEntry I) → List (FloatingTreeEntry I) → List (StackSlot I)
  | [], trees => trees.map (.tree ·.root)
  | window :: windows, trees =>
    (trees.takeWhile (·.stamp > window.stamp)).map (.tree ·.root) ++
      .window window.tile.window :: stackingOf windows
        (trees.dropWhile (·.stamp > window.stamp))

def FloatingLayout.stacking (f : FloatingLayout I) : List (StackSlot I) :=
  stackingOf f.entries f.treeEntries

/-! ## 2. Monitors -/

structure Monitor (I : Type) where
  output : Output
  workspaces : List (Workspace I)
  activeWorkspaceIdx : ℕ
  /-- the workspaces in the order sway lists them -/
  swayWorkspaceOrder : List WorkspaceId
  /-- the workspaces by recency -/
  workspaceFocusHistory : List WorkspaceId := []

namespace Monitor

def outputName (m : Monitor I) : Name := m.output.connector

/-- `active_workspace_ref` -/
def activeWorkspace (m : Monitor I) : Option (Workspace I) := m.workspaces[m.activeWorkspaceIdx]?

def idxOfWs (m : Monitor I) (id : WorkspaceId) : Option ℕ := m.workspaces.findIdx? (·.id == id)

/-- `sway_workspaces` -/
def swayWorkspaces (m : Monitor I) : List (ℕ × Workspace I) :=
  m.swayWorkspaceOrder.filterMap fun id =>
    (m.idxOfWs id).bind fun index => m.workspaces[index]?.map fun ws => (index, ws)

/-- One workspace is active, and the listed ones are the workspaces. -/
structure Sound (m : Monitor I) : Prop where
  active : m.activeWorkspaceIdx < m.workspaces.length
  order : m.swayWorkspaceOrder.Perm (m.workspaces.map (·.id))

theorem Sound.exists_activeWorkspace {m : Monitor I} (h : m.Sound) :
    ∃ ws ∈ m.workspaces, m.activeWorkspace = some ws :=
  ⟨m.workspaces.get ⟨_, h.active⟩, get_mem _ _, List.getElem?_eq_getElem h.active⟩

/-- **Every workspace of the output is listed once.** -/
theorem swayWorkspaces_perm {m : Monitor I} (h : m.Sound)
    (hnodup : (m.workspaces.map (·.id)).Nodup) :
    (m.swayWorkspaces.map (·.2)).Perm m.workspaces := by
  have hfind : ∀ ws ∈ m.workspaces, ((m.idxOfWs ws.id).bind fun index =>
      m.workspaces[index]?.map fun ws => (index, ws)).map (·.2) = some ws := by
    intro ws hws
    have hsome : (m.workspaces.findIdx? (·.id == ws.id)).isSome = true := by
      rw [findIdx?_isSome]
      exact any_eq_true.mpr ⟨ws, hws, beq_self_eq_true ws.id⟩
    obtain ⟨index, hindex⟩ := Option.isSome_iff_exists.mp hsome
    obtain ⟨hlt, hid, -⟩ := findIdx?_eq_some_iff_getElem.mp hindex
    have heq : m.workspaces[index] = ws :=
      inj_on_of_nodup_map hnodup (List.getElem_mem hlt) hws (beq_iff_eq.mp hid)
    rw [idxOfWs, hindex, Option.bind_some, List.getElem?_eq_getElem hlt, heq]
    rfl
  unfold swayWorkspaces
  rw [map_filterMap]
  refine (h.order.filterMap _).trans (Perm.of_eq ?_)
  rw [filterMap_map]
  conv_rhs => rw [← filterMap_some (l := m.workspaces)]
  exact filterMap_congr hfind

end Monitor

inductive MonitorSet (I : Type)
  | normal (monitors : List (Monitor I)) (activeMonitorIdx : ℕ)
  | noOutputs (workspaces : List (Workspace I))

/-! ## 3. The layout -/

/-- `InteractiveMoveState::Moving` -/
structure InteractiveMove (I : Type) where
  tile : Tile I
  output : Output

structure LayoutState (I : Type) where
  monitorSet : MonitorSet I
  scratchpad : List (Tile I) := []
  scratchpadTrees : List (RemovedFloatingTree I) := []
  /-- the windows that belong to the scratchpad, hidden or shown -/
  scratchpadMembers : List I := []
  interactiveMove : Option (InteractiveMove I) := none

namespace LayoutState

variable (l : LayoutState I)

def monitors (l : LayoutState I) : List (Monitor I) :=
  match l.monitorSet with
  | .normal monitors _ => monitors
  | .noOutputs _ => []

/-- `active_monitor_ref` -/
def activeMonitor : Option (Monitor I) :=
  match l.monitorSet with
  | .normal monitors activeMonitorIdx => monitors[activeMonitorIdx]?
  | .noOutputs _ => none

/-- `workspaces`: with the monitor and the index there. -/
def workspaces (l : LayoutState I) : List (Option (Monitor I) × ℕ × Workspace I) :=
  match l.monitorSet with
  | .normal monitors _ =>
    monitors.flatMap fun m => m.workspaces.zipIdx.map fun e => (some m, e.2, e.1)
  | .noOutputs workspaces => workspaces.zipIdx.map fun e => (none, e.2, e.1)

/-- The workspaces without their places. -/
def allWorkspaces : List (Workspace I) :=
  match l.monitorSet with
  | .normal monitors _ => monitors.flatMap (·.workspaces)
  | .noOutputs workspaces => workspaces

theorem map_workspaces : l.workspaces.map (·.2.2) = l.allWorkspaces := by
  have hzip : ∀ (f : Workspace I × ℕ → Option (Monitor I) × ℕ × Workspace I)
      (_ : ∀ e, (f e).2.2 = e.1) (ws : List (Workspace I)),
      (ws.zipIdx.map f).map (·.2.2) = ws := by
    intro f hf ws
    rw [map_map]
    exact (map_congr_left fun e _ => hf e).trans (zipIdx_map_fst 0 ws)
  unfold workspaces allWorkspaces
  cases l.monitorSet with
  | normal monitors activeMonitorIdx =>
    rw [map_flatMap]
    exact flatMap_congr fun m _ => hzip _ (fun _ => rfl) _
  | noOutputs workspaces => exact hzip _ (fun _ => rfl) _

/-- `with_windows`: what the closure is called with, positions apart. -/
def withWindows : List (Tile I × Option Output × Option WorkspaceId) :=
  (l.interactiveMove.toList.map fun move_ => (move_.tile, some move_.output, none)) ++
    (l.scratchpad.map fun tile => (tile, none, none)) ++
    l.workspaces.flatMap fun (mon, _, ws) =>
      ws.tilesWithIpcLayouts.map fun tile => (tile, mon.map (·.output), some ws.id)

/-- `scratchpad_windows` -/
def scratchpadWindows : List I :=
  l.scratchpad.map (·.window) ++ l.scratchpadTrees.flatMap (·.tree.windows)

/-- `scratchpad_tree_nodes`: every node of a hidden group, with the group's first window. -/
def scratchpadTreeNodes : List (NodeId × I) :=
  l.scratchpadTrees.flatMap fun removed =>
    removed.tree.tree.ipcTree.nodes.filterMap fun node =>
      removed.windowIds.head?.map fun window => (node.1, window)

/-- `windows`, as identifiers -/
def windows (l : LayoutState I) : List I :=
  l.interactiveMove.toList.map (·.tile.window) ++ l.scratchpadWindows ++
    l.allWorkspaces.flatMap (·.windows)

/-- The windows of the groups, hidden or floating. -/
def groupedWindows (l : LayoutState I) : List I :=
  l.scratchpadTrees.flatMap (·.tree.windows) ++ l.allWorkspaces.flatMap (·.groupedWindows)

/-- The windows `with_windows` visits. -/
def visited : List I := l.withWindows.map (·.1.window)

theorem visited_eq :
    l.visited = l.interactiveMove.toList.map (·.tile.window) ++ l.scratchpad.map (·.window) ++
      l.allWorkspaces.flatMap fun ws => ws.tilesWithIpcLayouts.map (·.window) := by
  unfold visited withWindows
  rw [← l.map_workspaces]
  simp only [map_append, map_map, map_flatMap, flatMap_map, Function.comp_def]

/-- **`with_windows` visits every window that is in no group.** -/
theorem windows_perm (l : LayoutState I) : l.windows.Perm (l.visited ++ l.groupedWindows) := by
  have hws : (l.allWorkspaces.flatMap (·.windows)).Perm
      (l.allWorkspaces.flatMap (fun ws => ws.tilesWithIpcLayouts.map (·.window)) ++
        l.allWorkspaces.flatMap (·.groupedWindows)) :=
    (Perm.flatMap_left _ fun ws _ => ws.windows_perm).trans (flatMap_append_perm _ _ _).symm
  unfold windows scratchpadWindows groupedWindows
  rw [visited_eq]
  generalize l.allWorkspaces.flatMap (fun ws => ws.tilesWithIpcLayouts.map (·.window)) = plain at *
  generalize l.allWorkspaces.flatMap (·.groupedWindows) = grouped at *
  generalize l.scratchpadTrees.flatMap (·.tree.windows) = hidden
  simp only [append_assoc]
  refine Perm.append_left _ (Perm.append_left _ ?_)
  refine (hws.append_left hidden).trans ?_
  rw [← append_assoc, ← append_assoc]
  exact perm_append_comm.append_right _

/-- Every tree of the layout: tiled ones, groups, hidden groups. -/
def trees : List (SoundTree I) :=
  l.scratchpadTrees.map (·.tree) ++
    l.allWorkspaces.flatMap fun ws => ws.tiling :: ws.floating.treeEntries.map (·.tree)

/-- The nodes of every tree. -/
def nodeIds : List NodeId :=
  l.trees.flatMap fun t => t.tree.depthFirst t.tree.root

/-- The containers on the workspaces, as IPC counts them. -/
def containers (l : LayoutState I) : List (WorkspaceId × NodeId) :=
  l.allWorkspaces.flatMap fun ws =>
    (ws.tiling.tree.containers ++ ws.floating.treeEntries.flatMap (·.tree.tree.containers)).map
      (ws.id, ·)

section Surfaces

variable [DecidableEq I] (l : LayoutState I)

def isScratchpadWindow (window : I) : Bool :=
  l.scratchpadMembers.contains window

end Surfaces

end LayoutState

/-! ## 4. Layouts in order -/

/-- A layout in which no window, no node and no workspace occurs twice, no two outputs share a
name, and an output is active where there is one. Its trees are in order, as those of every run of
tree steps are (`SoundTree.ofRun`); that the layouts the compositor reaches are such a layout is
assumed, not shown. -/
structure SoundLayout (I : Type) extends LayoutState I where
  windows_nodup : toLayoutState.windows.Nodup
  nodes_nodup : toLayoutState.nodeIds.Nodup
  workspaces_nodup : (toLayoutState.allWorkspaces.map (·.id)).Nodup
  outputs_nodup : (toLayoutState.monitors.map (·.outputName)).Nodup
  monitors_sound : ∀ m ∈ toLayoutState.monitors, m.Sound
  active : ∀ monitors idx, monitorSet = .normal monitors idx → idx < monitors.length
  /-- only a group's tree hides its root -/
  tiled : ∀ ws ∈ toLayoutState.allWorkspaces, ws.tiling.tree.residentRoot = false
  /-- a detached group knows its windows -/
  windowIds : ∀ removed ∈ scratchpadTrees, removed.windowIds = removed.tree.windows

namespace SoundLayout

variable (l : SoundLayout I) {ws : Workspace I}

theorem workspace_windows_nodup : (l.allWorkspaces.flatMap (·.windows)).Nodup :=
  l.windows_nodup.of_append_right

theorem mem_windows (hws : ws ∈ l.allWorkspaces) {window : I}
    (h : window ∈ ws.windows) : window ∈ l.windows :=
  mem_append_right _ (mem_flatMap.mpr ⟨ws, hws, h⟩)

theorem flatMap_monitors_sublist : (l.monitors.flatMap (·.workspaces)).Sublist l.allWorkspaces := by
  unfold LayoutState.monitors LayoutState.allWorkspaces
  cases l.monitorSet with
  | normal monitors idx => exact Sublist.refl _
  | noOutputs workspaces => exact nil_sublist _

theorem mem_allWorkspaces {m : Monitor I} (hm : m ∈ l.monitors)
    (hws : ws ∈ m.workspaces) : ws ∈ l.allWorkspaces :=
  l.flatMap_monitors_sublist.subset (mem_flatMap.mpr ⟨m, hm, hws⟩)

theorem mem_workspaces {m : Monitor I} (hm : m ∈ l.monitors) {index : ℕ}
    (h : m.workspaces[index]? = some ws) :
    (some m, index, ws) ∈ l.workspaces := by
  unfold LayoutState.monitors at hm
  unfold LayoutState.workspaces
  cases hset : l.monitorSet with
  | normal monitors idx =>
    rw [hset] at hm
    refine mem_flatMap.mpr ⟨m, hm, mem_map.mpr ⟨(ws, index), ?_, rfl⟩⟩
    exact mk_mem_zipIdx_iff_getElem?.mpr h
  | noOutputs workspaces =>
    rw [hset] at hm
    exact nomatch hm

theorem monitor_workspaces_nodup {m : Monitor I} (hm : m ∈ l.monitors) :
    (m.workspaces.map (·.id)).Nodup := by
  have hsub : m.workspaces.Sublist (l.monitors.flatMap (·.workspaces)) :=
    sublist_flatten_of_mem (mem_map_of_mem hm)
  exact l.workspaces_nodup.sublist ((hsub.trans l.flatMap_monitors_sublist).map _)

theorem exists_activeMonitor (h : l.monitors ≠ []) :
    ∃ m ∈ l.monitors, l.activeMonitor = some m := by
  unfold LayoutState.monitors LayoutState.activeMonitor at *
  cases hset : l.monitorSet with
  | normal monitors idx =>
    have hlt := l.active monitors idx hset
    exact ⟨monitors[idx], List.getElem_mem hlt, List.getElem?_eq_getElem hlt⟩
  | noOutputs workspaces =>
    rw [hset] at h
    exact absurd rfl h

/-- **No container is counted twice.** -/
theorem containers_nodup : (l.containers.map (·.2)).Nodup := by
  refine l.nodes_nodup.sublist ?_
  unfold LayoutState.containers LayoutState.nodeIds LayoutState.trees
  rw [flatMap_append, map_flatMap, flatMap_assoc]
  refine (Sublist.flatMap_right _ fun ws _ => ?_).trans (sublist_append_right _ _)
  rw [map_map, flatMap_cons, flatMap_map]
  have hmap : ((fun e : WorkspaceId × NodeId => e.2) ∘ fun node => (ws.id, node)) = id := rfl
  rw [hmap, map_id]
  exact ws.tiling.containers_sublist.append
    (Sublist.flatMap_right _ fun entry _ => entry.tree.containers_sublist)

end SoundLayout

/-! ## 5. A container that was made to float -/

/-- Two windows open, the second is split and a third one opens in its container. Then the container
leaves the tree. -/
def floatedContainer : List (Step ℕ) :=
  [.newTree {}, World.openWindow 0 7, World.openWindow 0 8,
    .quiet 0 (.layout (.splitFocused .splitV)), World.openWindow 0 9, .detach 0 3, .group 0 {}]

/-- The tree that keeps window 7. -/
def remainingTree : SoundTree ℕ := SoundTree.ofRun floatedContainer (by decide +kernel) 0

/-- The tree of the group, with windows 8 and 9. -/
def floatedGroup : SoundTree ℕ := SoundTree.ofRun floatedContainer (by decide +kernel) 1

/-- One output with one workspace. -/
def oneOutput (ws : Workspace ℕ) (scratchpadTrees : List (RemovedFloatingTree ℕ)) :
    LayoutState ℕ where
  monitorSet := .normal
    [{  output := { handle := 0, connector := ['e', 'D', 'P', '-', '1'] }
        workspaces := [ws]
        activeWorkspaceIdx := 0
        swayWorkspaceOrder := [ws.id] }] 0
  scratchpad := []
  scratchpadTrees := scratchpadTrees
  interactiveMove := none

theorem activeWorkspace_oneOutput {ws other : Workspace ℕ}
    {scratchpadTrees : List (RemovedFloatingTree ℕ)} {m : Monitor ℕ}
    (hm : (oneOutput ws scratchpadTrees).activeMonitor = some m)
    (hother : m.activeWorkspace = some other) : other = ws := by
  cases hm
  cases hother
  rfl

/-- One output with one workspace is in order if the trees are. -/
def soundOneOutput (ws : Workspace ℕ) (scratchpadTrees : List (RemovedFloatingTree ℕ))
    (windows_nodup : (oneOutput ws scratchpadTrees).windows.Nodup)
    (nodes_nodup : (oneOutput ws scratchpadTrees).nodeIds.Nodup)
    (tiled : ws.tiling.tree.residentRoot = false)
    (windowIds : ∀ removed ∈ scratchpadTrees, removed.windowIds = removed.tree.windows) :
    SoundLayout ℕ where
  toLayoutState := oneOutput ws scratchpadTrees
  windows_nodup := windows_nodup
  nodes_nodup := nodes_nodup
  workspaces_nodup := List.nodup_singleton _
  outputs_nodup := List.nodup_singleton _
  monitors_sound := by
    intro m hm
    rw [List.mem_singleton.mp hm]
    exact ⟨Nat.zero_lt_one, Perm.refl _⟩
  active := by
    rintro monitors idx ⟨⟩
    exact Nat.zero_lt_one
  tiled := by
    intro other hother
    rw [List.mem_singleton.mp hother]
    exact tiled
  windowIds := windowIds

/-- The container floats on its workspace and has the focus. -/
def groupWorkspace : Workspace ℕ where
  id := 1
  originalOutput := []
  tiling := remainingTree
  floating :=
    { treeEntries := [{ stamp := 0, tree := floatedGroup, root := 3, sticky := false }]
      activeWindowId := some 9 }
  floatingIsActive := .yes

theorem tiled_remainingTree : remainingTree.tree.residentRoot = false := by decide +kernel

theorem windowIds_nil : ∀ removed ∈ ([] : List (RemovedFloatingTree ℕ)),
    removed.windowIds = removed.tree.windows := by
  intro _ h
  cases h

def groupShown : SoundLayout ℕ :=
  soundOneOutput groupWorkspace [] (by decide +kernel) (by decide +kernel) tiled_remainingTree
    windowIds_nil

/-- The container is hidden in the scratchpad. -/
def groupHidden : SoundLayout ℕ :=
  soundOneOutput { id := 1, originalOutput := [], tiling := remainingTree }
    [{ tree := floatedGroup, root := 3, windowIds := [8, 9], sticky := false }]
    (by decide +kernel) (by decide +kernel) tiled_remainingTree (by
      intro removed h
      rw [List.mem_singleton.mp h]
      decide +kernel)

end Swayward
