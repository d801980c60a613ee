/-
  File:      Swayward/Ipc/Describe.lean
  Subject:   THE TREE OF A GET_TREE REPLY (`ipc/tree.rs`, `ipc/tree/node.rs`, `ipc/tree/outputs.rs`,
             `ipc/tree/workspaces.rs`).

  The reply has the scratchpad as an output of its own, then the outputs with their workspaces. A
  workspace node takes the place of the root of its tiling tree; groups and single floating windows
  are its floating children. The focused flag comes from four places (the tiling tree, the tree of a
  group, a single floating window, the workspace itself) and is cleared again by several rules.

  What the results are about is the list of all identifiers with their focused flags
  (`Node.flags`). Visibility changes neither, and the orders (stacking, focus) only permute it:

  * `describeTiling_spec`      -- a tree keeps its entries and their order;
  * `flags_describeWorkspace`  -- a workspace: what clears which flags;
  * `flags_describeTree`       -- the whole list, read off the layout.

  Left out, besides what nodes leave out: percentages, which are computed from rectangles.
-/
import Mathlib.Data.List.Sort
import Swayward.Command.Marks
import Swayward.Ipc.Ids
import Swayward.Ipc.Node
import Swayward.Layout.Monitors

namespace Swayward.Ipc

open List Ipc.Node

/-! ## 1. Windows and trees -/

/-- What the windows and the mark tables tell. -/
structure Views where
  title : MappedId → Option Text
  appId : MappedId → Option Text
  isFocused : MappedId → Bool
  isUrgent : MappedId → Bool
  /-- `marks_by_window` -/
  marks : MultiMap MappedId Mark
  /-- `marks_by_container` -/
  containerMarks : MultiMap NodeId Mark

/-- `ipc_layout` -/
def ipcLayout : Layout → NodeLayout
  | .splitH => .splitH
  | .splitV => .splitV
  | .tabbed => .tabbed
  | .stacked => .stacked

def orientation : Layout → Orientation
  | .splitH => .horizontal
  | .splitV => .vertical
  | .tabbed => .none
  | .stacked => .none

/-- The number of a fullscreen mode, 0 without one. -/
def modeCode : Option FullscreenMode → ℕ
  | none => 0
  | some .workspace => 1
  | some .global => 2

section Describe

variable (v : Views)

/-- `describe_window` -/
def describeWindow (window : MappedId) (fullscreen : Bool) (nodeType : NodeType)
    (floating : FloatingState) (inScratchpad visible : Bool) : Node :=
  .mk
    { id := windowId window
      nodeType := nodeType
      layout := .none
      orientation := .none
      name := v.title window
      focused := v.isFocused window
      fullscreenMode := if fullscreen then 1 else 0
      floating := some floating
      scratchpadState := some (if inScratchpad then .fresh else .none)
      urgent := v.isUrgent window
      marks := v.marks.get window
      properties := .view
        { visible := visible
          appId := v.appId window
          foreignToplevelIdentifier := some window } } [] []

/-- A leaf of a tree; its tile says whether it is focused, fullscreen and sticky. -/
def describeLeaf (info : IpcLeaf MappedId) : Node :=
  (describeWindow v info.window false .con .autoOff false true).withInfo fun node =>
    { node with
      focused := info.focused
      fullscreenMode := modeCode info.fullscreenMode
      sticky := info.sticky }

/-- A container, with the children that could be described. -/
def describeSplit (info : IpcSplit) (children : List (NodeId × Node)) : Node :=
  .mk
    { id := containerId info.id
      nodeType := .con
      layout := ipcLayout info.layout
      orientation := orientation info.layout
      focus := info.focus.filterMap fun id =>
        (children.find? (·.1 == id)).map fun child => child.2.id
      focused := info.focused
      floating := some .autoOff
      scratchpadState := some .none
      fullscreenMode := modeCode info.fullscreenMode
      sticky := info.sticky
      marks := v.containerMarks.get info.id } (children.map (·.2)) []

variable (known : MappedId → Bool)

mutual

/-- `describe_tiling`: a leaf whose window is not known is left out. -/
def describeTiling : IpcNode MappedId → Option Node
  | .split info children => some (describeSplit v info (describeChildren children))
  | .leaf info => if known info.window then some (describeLeaf v info) else none

def describeChildren : List (IpcNode MappedId) → List (NodeId × Node)
  | [] => []
  | child :: rest =>
    ((describeTiling child).map fun node => (child.id, node)).toList ++ describeChildren rest

end

end Describe

/-- `empty_tiling_node` -/
def emptyTilingNode : Node :=
  .mk { id := 0, nodeType := .con, layout := .splitH, orientation := .horizontal } [] []

/-! ## 2. The representation of a workspace -/

def nullText : Text := ['(', 'n', 'u', 'l', 'l', ')']

def layoutLetter : NodeLayout → Char
  | .splitH => 'H'
  | .splitV => 'V'
  | .tabbed => 'T'
  | .stacked => 'S'
  | _ => 'D'

mutual

/-- A child in the representation of its parent. -/
def childRepresentation : Node → Text
  | .mk info nodes _ =>
    match info.properties with
    | .view properties => properties.appId.getD nullText
    | _ =>
      if nodes.isEmpty then nullText
      else layoutLetter info.layout :: '[' :: (childrenRepresentation nodes ++ [']'])

def childrenRepresentation : List Node → Text
  | [] => []
  | [node] => childRepresentation node
  | node :: rest => childRepresentation node ++ ' ' :: childrenRepresentation rest

end

/-- `tree_representation` -/
def treeRepresentation (layout : NodeLayout) (children : List Node) : Text :=
  layoutLetter layout :: '[' :: (childrenRepresentation children ++ [']'])

/-! ## 3. Workspaces -/

/-- Whether the workspace is the active one on its output, and whether that output has the seat
focus. -/
structure WorkspaceState where
  focused : Bool
  visible : Bool

/-- The active workspace of the monitor is `id`, and the monitor is `output`. -/
def onOutput (output : Name) (id : WorkspaceId) (m : Monitor MappedId) : Bool :=
  m.outputName == output && m.activeWorkspace.any (·.id == id)

def workspaceState (l : LayoutState MappedId) (output : Name) (id : WorkspaceId) :
    WorkspaceState where
  focused := l.activeMonitor.any (onOutput output id)
  visible := l.monitors.any (onOutput output id)

section Workspace

variable (l : LayoutState MappedId) (v : Views) (ws : Swayward.Workspace MappedId)
  (state : WorkspaceState)

/-- `tiled_part`: the root of the tiling tree. -/
def tiledPart : Node :=
  let tiled := (describeTiling v ws.hasWindow ws.ipcTilingTree).getD emptyTilingNode
  if !state.focused || ws.floatingIsActive = .yes then tiled.clearFocused else tiled

/-- Whether a window of the tree is in the scratchpad. -/
def inScratchpad (tree : IpcNode MappedId) : Bool := tree.anyWindow l.isScratchpadWindow

/-- A floating group. -/
def describeGroup (root : NodeId) (tree : IpcNode MappedId) (sticky : Bool) : Option Node :=
  (describeTiling v ws.hasWindow tree).map fun node =>
    let node := node.withInfo fun info =>
      { info with
        nodeType := .floatingCon
        floating := some .userOn
        scratchpadState := some (if inScratchpad l tree then .fresh else .none)
        sticky := sticky }
    let holdsFocus := state.focused &&
      ws.activeWindow.any fun active => ws.floating.treeRootForWindow active == some root
    if !state.focused || ws.floatingIsActive ≠ .yes || !holdsFocus then node.clearFocused else node

/-- `describe_floating_window` -/
def describeFloatingWindow (tile : Tile MappedId) : Node :=
  (describeWindow v tile.window (tile.pendingSizingMode == .fullscreen) .floatingCon .userOn
    (l.isScratchpadWindow tile.window) true).withInfo fun info =>
      { info with sticky := ws.isWindowSticky tile.window }

/-- The tiles that are single floating windows for IPC. -/
def floatingTiles : List (Tile MappedId) :=
  ws.tilesWithIpcLayouts.filter fun tile => ws.isFloatingForIpc tile.window

/-- The floating children before they are ordered. -/
def floatingSlots : List (StackSlot MappedId × Node) :=
  let activeWindow := if state.focused then ws.activeWindow else none
  (ws.ipcFloatingTrees.filterMap fun (root, tree, sticky) =>
    (describeGroup l v ws state root tree sticky).map fun node => (.tree root, node)) ++
  (floatingTiles ws).map fun tile =>
    (.window tile.window, (describeFloatingWindow l v ws tile).withInfo fun info =>
      { info with focused := activeWindow == some tile.window })

/-- How deep a place is in the floating layer; what is not in it is on top. -/
def depth (slot : StackSlot MappedId) : ℕ := (ws.floating.stacking.idxOf? slot).elim 0 (· + 1)

/-- `floating_part`: bottom to top. -/
def floatingPart : List Node :=
  ((floatingSlots l v ws state).insertionSort fun a b => depth ws a.1 ≥ depth ws b.1).map (·.2)

/-- `newest_focus_timestamp` -/
def newestFocusTimestamp (stamps : ℤ → Option ℕ) (node : Node) : Option ℕ :=
  (node.preorder.filterMap fun n => stamps n.id).max?

/-- `order_focus`: by recency, unless the floating layer is active. -/
def orderFocus (focus : List ℤ) (nodes floatingNodes : List Node) : List ℤ :=
  let floatingFocus := floatingNodes.reverse.map (·.id)
  if ws.floatingIsActive = .yes then
    floatingFocus ++ focus
  else
    let focus := focus ++ floatingFocus
    if ws.tiling.tree.ipcFocusFollowsHistory then
      focus
    else
      let staleTiling := (ws.ipcTilingTree.nodes.filter (·.1 ∈ ws.tiling.tree.ipcStaleNodes)).map
        (containerId ·.1)
      let stamps (id : ℤ) := ws.tiles.reverse.findSome? fun tile =>
        if windowId tile.window = id then tile.focusTimestamp else none
      let timestampOf (id : ℤ) := ((nodes ++ floatingNodes).find? (·.id == id)).bind
        (newestFocusTimestamp stamps)
      let lastEntered (id : ℤ) := ws.tiling.tree.lastEnteredBy.entries.findSome? fun e =>
        if containerId e.1 = id then (ws.tiling.tree.tile e.2).bind (·.focusTimestamp) else none
      let effective (id : ℤ) :=
        if nodes.any (·.id == id) then max (timestampOf id) (lastEntered id) else timestampOf id
      let rank (id : ℤ) : ℕ :=
        match staleTiling.contains id, (timestampOf id).isSome with
        | false, true => 2
        | true, _ => 1
        | false, false => 0
      let recency (id : ℤ) : ℕ := (effective id).elim 0 (· + 1)
      focus.insertionSort fun a b => rank b < rank a ∨ rank a = rank b ∧ recency b ≤ recency a

/-- The floating children of a workspace: hidden under a fullscreen node outside them. -/
def floatingVisibility (tilingFullscreen floatingFullscreen visible : Bool) (node : Node) : Node :=
  let shown := !tilingFullscreen && (!floatingFullscreen || node.containsFullscreen)
  let node := node.setWindowsVisible (visible && shown)
  let node :=
    if shown && floatingFullscreen && node.info.fullscreenMode = 0 then
      .mk node.info (Node.applyFullscreenState node.nodes visible).1 node.floatingNodes
    else
      node
  if tilingFullscreen then node.clearFocused else node

/-- `apply_workspace_visibility` -/
def applyWorkspaceVisibility (layout : NodeLayout) (focus : List ℤ) (nodes floatingNodes : List Node)
    (visible : Bool) : List Node × List Node :=
  let floatingFullscreen := floatingNodes.any Node.containsFullscreen
  let (nodes, tilingFullscreen) :=
    if floatingFullscreen then
      (nodes.map (Node.setWindowsVisible false), false)
    else
      Node.applyFullscreenState nodes visible
  let nodes :=
    if !tilingFullscreen && !floatingFullscreen then
      Node.setChildWindowsVisible layout focus nodes visible
    else
      nodes
  (nodes, floatingNodes.map (floatingVisibility tilingFullscreen floatingFullscreen visible))

/-- `describe_workspace_node` -/
def describeWorkspace (output : Name) (index : ℕ) : Node :=
  let state := workspaceState l output ws.id
  let tiled := tiledPart v ws state
  let floatingNodes := floatingPart l v ws state
  let focus := orderFocus ws tiled.info.focus tiled.nodes floatingNodes
  let representation :=
    if ws.tiling.tree.hasHadTile then
      some (treeRepresentation (ipcLayout ws.tiling.tree.representationLayout) tiled.nodes)
    else
      none
  let (nodes, floatingNodes) :=
    applyWorkspaceVisibility tiled.info.layout focus tiled.nodes floatingNodes state.visible
  .mk
    { id := workspaceId ws.id
      nodeType := .workspace
      layout := tiled.info.layout
      orientation := tiled.info.orientation
      name := some (ws.swayDisplayName index)
      focus := focus
      focused := tiled.focused || state.focused && ws.activeWindow.isNone
      fullscreenMode := 1
      urgent := ws.windows.any v.isUrgent
      properties := .workspace
        { num := ws.swayDisplayNumber index
          output := output
          representation := representation } } nodes floatingNodes

end Workspace

/-! ## 4. Outputs and the whole tree -/

section Tree

variable (l : LayoutState MappedId) (v : Views)

/-- The workspaces clients are told about. -/
def describedWorkspaces (m : Monitor MappedId) : List (ℕ × Swayward.Workspace MappedId) :=
  m.swayWorkspaces.filter fun e => e.2.mustBeKept || m.activeWorkspace.any (·.id == e.2.id)

/-- `output_focus` -/
def outputFocus (m : Monitor MappedId) : List ℤ :=
  (m.workspaceFocusHistory.filter fun id => (describedWorkspaces m).any (·.2.id == id)).map
    workspaceId

/-- `describe_output_node` -/
def describeOutputNode (m : Monitor MappedId) : Node :=
  .mk
    { id := outputId m.outputName
      nodeType := .output
      layout := .output
      orientation := .none
      name := some m.outputName
      focus := outputFocus m
      properties := .output }
    ((describedWorkspaces m).map fun (index, ws) => describeWorkspace l v ws m.outputName index) []

/-- A group that is hidden in the scratchpad. -/
def describeHiddenGroup (removed : RemovedFloatingTree MappedId) : Option Node :=
  (describeTiling v l.windows.contains removed.tree.tree.ipcTree).map fun node =>
    ((node.withInfo fun info =>
      { info with
        nodeType := .floatingCon
        floating := some .userOn
        scratchpadState := some .fresh
        sticky := removed.sticky }).setWindowsVisible false).clearFocused

/-- A window that is hidden in the scratchpad on its own. -/
def describeHiddenWindow (tile : Tile MappedId) : Node :=
  (describeWindow v tile.window (tile.pendingSizingMode == .fullscreen) .floatingCon .userOn true
    false).withInfo fun info =>
      { info with sticky := (l.scratchpad.find? (·.window == tile.window)).any (·.isSticky) }

/-- The tiles of the scratchpad, in the order of its windows. -/
def scratchpadTiles : List (Tile MappedId) :=
  l.scratchpad ++ l.scratchpadTrees.flatMap (·.tree.tiles)

/-- The floating children of the scratchpad: groups, then the windows that are in none of them. -/
def hiddenNodes : List Node :=
  let groups := l.scratchpadTrees.filterMap (describeHiddenGroup l v)
  let inTree (tile : Tile MappedId) := groups.any fun node =>
    node.ids.contains (windowId tile.window)
  groups ++ ((scratchpadTiles l).filter fun tile => !inTree tile).map (describeHiddenWindow l v)

/-- `scratch_output` -/
def scratchOutput : Node :=
  let floatingNodes := hiddenNodes l v
  .mk
    { id := scratchOutputId
      nodeType := .output
      layout := .output
      orientation := .horizontal
      name := some ['_', '_', 'i', '3']
      focus := [scratchWorkspaceId] }
    [.mk
      { id := scratchWorkspaceId
        nodeType := .workspace
        layout := .splitH
        orientation := .horizontal
        name := some ['_', '_', 'i', '3', '_', 's', 'c', 'r', 'a', 't', 'c', 'h']
        focus := floatingNodes.reverse.map (·.id)
        fullscreenMode := 1 } [] floatingNodes] []

/-- The outputs by recency, the active one first. -/
def outputsByFocus : List (Monitor MappedId) :=
  let active := l.activeMonitor.map (·.output)
  let stamp (m : Monitor MappedId) : ℕ :=
    ((m.workspaces.flatMap (·.tiles)).filterMap (·.focusTimestamp)).max?.elim 0 (· + 1)
  let other (m : Monitor MappedId) : ℕ := if m.output = active.getD m.output then 0 else 1
  l.monitors.insertionSort fun a b =>
    other a < other b ∨ other a = other b ∧ stamp b ≤ stamp a

/-- `describe_tree` -/
def describeTree : Node :=
  .mk
    { id := rootId
      nodeType := .root
      layout := .splitH
      orientation := .horizontal
      name := some ['r', 'o', 'o', 't']
      focus := (outputsByFocus l).map fun m => outputId m.outputName }
    (scratchOutput l v :: l.monitors.map (describeOutputNode l v)) []

end Tree

/-! ## 5. Identifiers and focused flags -/

/-- What an entry of a tree becomes. -/
def entryFlag : IpcSplit ⊕ IpcLeaf MappedId → ℤ × Bool
  | .inl info => (containerId info.id, info.focused)
  | .inr info => (windowId info.window, info.focused)

def entryFullscreen : IpcSplit ⊕ IpcLeaf MappedId → Bool
  | .inl info => info.fullscreenMode.isSome
  | .inr info => info.fullscreenMode.isSome

/-- Keep the focused flags, or clear them. -/
def mask (keep : Bool) (l : List (ℤ × Bool)) : List (ℤ × Bool) := l.map fun e => (e.1, keep && e.2)

@[simp] theorem mask_true (l : List (ℤ × Bool)) : mask true l = l := map_id' l

theorem map_fst_mask (keep : Bool) (l : List (ℤ × Bool)) :
    (mask keep l).map (·.1) = l.map (·.1) := by
  unfold mask
  rw [map_map]
  rfl

theorem filter_mask_false (l : List (ℤ × Bool)) : (mask false l).filter (·.2) = [] := by
  unfold mask
  rw [filter_map, map_eq_nil_iff, filter_eq_nil_iff]
  intro e _
  exact Bool.false_ne_true

theorem flags_clear (clear : Bool) (n : Node) :
    (if clear then n.clearFocused else n).flags = mask (!clear) n.flags := by
  cases clear with
  | true => exact n.flags_clearFocused
  | false => exact (mask_true _).symm

theorem modeCode_ne_zero (mode : Option FullscreenMode) : (modeCode mode != 0) = mode.isSome := by
  rcases mode with _ | _ | _ <;> rfl

section Tiling

variable (v : Views) (known : MappedId → Bool)

theorem describeChildren_eq (l : List (IpcNode MappedId)) :
    (describeChildren v known l).map (·.2) = l.filterMap (describeTiling v known) := by
  induction l with
  | nil => rfl
  | cons child rest ih =>
    rw [describeChildren, map_append, ih, filterMap_cons]
    cases describeTiling v known child <;> rfl

/-- **A tree as clients see it**: the entries of its copy in the same order, whatever is read off
them. -/
theorem describeTiling_readings {γ : Type} (f : NodeInfo → γ) (g : IpcSplit ⊕ IpcLeaf MappedId → γ)
    (hleaf : ∀ info, f (describeLeaf v info).info = g (.inr info))
    (hsplit : ∀ info children, f (describeSplit v info children).info = g (.inl info))
    (n : IpcNode MappedId) (h : ∀ w ∈ n.windows, known w = true) :
    ∃ node, describeTiling v known n = some node ∧ node.readings f = n.entries.map g ∧
      node.containsFullscreen = n.entries.any entryFullscreen ∧
      node.nodes.any containsFullscreen = n.entries.tail.any entryFullscreen ∧
      node.floatingNodes = [] := by
  induction n using IpcNode.induct with
  | leaf info =>
    have hknown : known info.window = true := h _ (by simp [IpcNode.windows_leaf])
    refine ⟨describeLeaf v info, ?_, ?_, ?_, ?_, rfl⟩
    · rw [describeTiling, if_pos hknown]
    · rw [IpcNode.entries_leaf, readings_eq, hleaf]
      rfl
    · rw [IpcNode.entries_leaf, containsFullscreen_eq]
      change (modeCode info.fullscreenMode != 0 || false) = (info.fullscreenMode.isSome || false)
      rw [modeCode_ne_zero]
    · rw [IpcNode.entries_leaf]
      rfl
  | split info children ih =>
    have hchildren : ∀ child ∈ children, ∃ node, describeTiling v known child = some node ∧
        node.readings f = child.entries.map g ∧
        node.containsFullscreen = child.entries.any entryFullscreen := by
      intro child hc
      obtain ⟨node, hnode, hread, hfull, -⟩ := ih child hc fun w hw =>
        h w (by rw [IpcNode.windows_split]; exact mem_flatMap.mpr ⟨child, hc, hw⟩)
      exact ⟨node, hnode, hread, hfull⟩
    have hfull : ((describeChildren v known children).map (·.2)).any containsFullscreen =
        children.any fun child => child.entries.any entryFullscreen := by
      rw [describeChildren_eq]
      refine Positions.any_filterMap_of_forall fun child hc => ?_
      obtain ⟨node, hnode, -, hf⟩ := hchildren child hc
      exact ⟨node, hnode, hf⟩
    refine ⟨_, rfl, ?_, ?_, ?_, rfl⟩
    · rw [readings_eq, IpcNode.entries_split, map_cons, map_flatMap, hsplit]
      change _ :: (((describeChildren v known children).map (·.2)).flatMap _ ++ []) = _
      rw [describeChildren_eq, append_nil]
      refine congrArg _ (Positions.flatMap_filterMap_of_forall fun child hc => ?_)
      obtain ⟨node, hnode, hread, -⟩ := hchildren child hc
      exact ⟨node, hnode, hread⟩
    · rw [containsFullscreen_eq, IpcNode.entries_split, any_cons, any_flatMap]
      change (modeCode info.fullscreenMode != 0 ||
        ((describeChildren v known children).map (·.2)).any containsFullscreen) = _
      rw [hfull, modeCode_ne_zero]
      rfl
    · rw [IpcNode.entries_split, tail_cons, any_flatMap]
      exact hfull

theorem describeTiling_spec (n : IpcNode MappedId) (h : ∀ w ∈ n.windows, known w = true) :
    ∃ node, describeTiling v known n = some node ∧ node.flags = n.entries.map entryFlag ∧
      node.containsFullscreen = n.entries.any entryFullscreen ∧
      node.nodes.any containsFullscreen = n.entries.tail.any entryFullscreen ∧
      node.floatingNodes = [] :=
  describeTiling_readings v known (fun i => (i.id, i.focused)) entryFlag (fun _ => rfl)
    (fun _ _ => rfl) n h

end Tiling

section WorkspaceFlags

variable (ws : Swayward.Workspace MappedId)

/-- A floating root of the workspace holds a fullscreen node. -/
def floatingFullscreen : Bool :=
  (ws.floating.treeEntries.any fun entry => entry.tree.tree.ipcTree.entries.any entryFullscreen) ||
    (floatingTiles ws).any (·.pendingSizingMode == .fullscreen)

/-- A tiled node is fullscreen and hides the floating layer. -/
def tilingFullscreen : Bool :=
  !floatingFullscreen ws && ws.ipcTilingTree.entries.tail.any entryFullscreen

variable (focused : Bool)

/-- The tiling tree with its root, on a workspace that is focused or not. -/
def tiledFlags : List (ℤ × Bool) :=
  mask (focused && !decide (ws.floatingIsActive = .yes)) (ws.ipcTilingTree.entries.map entryFlag)

def groupFlags (entry : FloatingTreeEntry MappedId) : List (ℤ × Bool) :=
  mask (focused && decide (ws.floatingIsActive = .yes) &&
      ws.activeWindow.any fun active => ws.floating.treeRootForWindow active == some entry.root)
    (entry.tree.tree.ipcTree.entries.map entryFlag)

def singleFlag (tile : Tile MappedId) : ℤ × Bool :=
  (windowId tile.window, (if focused then ws.activeWindow else none) == some tile.window)

def floatingFlags : List (ℤ × Bool) :=
  ws.floating.treeEntries.flatMap (groupFlags ws focused) ++
    (floatingTiles ws).map (singleFlag ws focused)

/-- The workspace node: it is focused where the root of the tiling tree is, or for want of a
window. -/
def workspaceFlags : List (ℤ × Bool) :=
  (workspaceId ws.id, (tiledFlags ws focused).head?.any (·.2) ||
      focused && ws.activeWindow.isNone) ::
    ((tiledFlags ws focused).tail ++ mask (!tilingFullscreen ws) (floatingFlags ws focused))

variable {ws} (l : LayoutState MappedId) (v : Views) (state : WorkspaceState)

theorem hasWindow_ipcTilingTree (h : ws.tiling.tree.residentRoot = false) :
    ∀ w ∈ ws.ipcTilingTree.windows, ws.hasWindow w = true := by
  intro w hw
  rw [ws.windows_ipcTilingTree h] at hw
  exact contains_iff_mem.mpr (mem_append_left _ (mem_of_mem_filter hw))

theorem tiledPart_spec (h : ws.tiling.tree.residentRoot = false) :
    (tiledPart v ws state).flags = tiledFlags ws state.focused ∧
    (tiledPart v ws state).nodes.any containsFullscreen =
      ws.ipcTilingTree.entries.tail.any entryFullscreen ∧
    (tiledPart v ws state).floatingNodes = [] := by
  obtain ⟨node, hnode, hflags, -, hfull, hfloating⟩ :=
    describeTiling_spec v ws.hasWindow ws.ipcTilingTree (hasWindow_ipcTilingTree h)
  unfold tiledPart
  rw [hnode]
  dsimp only [Option.getD_some]
  refine ⟨?_, ?_, ?_⟩
  · rw [flags_clear, hflags]
    unfold tiledFlags
    congr 1
    cases state.focused <;> simp
  · rw [← hfull]
    split
    · rw [nodes_clearFocused, any_map]
      exact congrArg (node.nodes.any ·) (funext fun n => n.containsFullscreen_clearFocused)
    · rfl
  · split
    · rw [floatingNodes_clearFocused, hfloating]
      rfl
    · exact hfloating

/-- A group in the floating layer. -/
theorem describeGroup_spec {entry : FloatingTreeEntry MappedId}
    (h : entry ∈ ws.floating.treeEntries) :
    ∃ node, describeGroup l v ws state entry.root entry.tree.tree.ipcTree entry.sticky = some node ∧
      node.flags = groupFlags ws state.focused entry ∧
      node.containsFullscreen = entry.tree.tree.ipcTree.entries.any entryFullscreen := by
  obtain ⟨node, hnode, hflags, hfull, -⟩ :=
    describeTiling_spec v ws.hasWindow entry.tree.tree.ipcTree (by
      intro w hw
      rw [entry.tree.windows_ipcTree] at hw
      refine contains_iff_mem.mpr (mem_append_right _ (mem_append_right _ ?_))
      exact mem_flatMap.mpr ⟨entry, h, hw⟩)
  unfold describeGroup
  rw [hnode]
  refine ⟨_, rfl, ?_, ?_⟩
  · dsimp only
    rw [flags_clear, flags_withInfo, hflags]
    · unfold groupFlags
      congr 1
      cases state.focused <;> simp
    · rfl
  · dsimp only
    rw [← hfull]
    split
    · rw [containsFullscreen_clearFocused]
      exact containsFullscreen_withInfo _ rfl
    · exact containsFullscreen_withInfo _ rfl

theorem flags_floatingSlots :
    (((floatingSlots l v ws state).map (·.2)).flatMap flags) = floatingFlags ws state.focused := by
  unfold floatingSlots floatingFlags Workspace.ipcFloatingTrees
  dsimp only
  rw [map_append, flatMap_append, map_map, filterMap_map]
  refine congrArg₂ _ ?_ ?_
  · rw [map_filterMap]
    refine Positions.flatMap_filterMap_of_forall fun entry hentry => ?_
    obtain ⟨node, hnode, hflags, -⟩ := describeGroup_spec l v state hentry
    exact ⟨node, by rw [Function.comp_apply, hnode]; rfl, hflags⟩
  · rw [flatMap_map, map_eq_flatMap]
    refine flatMap_congr fun tile _ => ?_
    rw [Function.comp_apply, flags_eq]
    rfl

theorem any_floatingSlots :
    (((floatingSlots l v ws state).map (·.2)).any containsFullscreen) = floatingFullscreen ws := by
  unfold floatingSlots floatingFullscreen Workspace.ipcFloatingTrees
  dsimp only
  rw [map_append, any_append, map_map, filterMap_map, map_filterMap]
  refine congrArg₂ _ ?_ ?_
  · refine Positions.any_filterMap_of_forall fun entry hentry => ?_
    obtain ⟨node, hnode, -, hf⟩ := describeGroup_spec l v state hentry
    exact ⟨node, by rw [Function.comp_apply, hnode]; rfl, hf⟩
  · rw [any_map]
    refine congrArg (any _) (funext fun tile => ?_)
    rw [Function.comp_apply, containsFullscreen_eq]
    change ((if (tile.pendingSizingMode == .fullscreen) = true then 1 else 0) != 0 || false) = _
    cases tile.pendingSizingMode == .fullscreen <;> rfl

theorem floatingPart_perm :
    (floatingPart l v ws state).Perm ((floatingSlots l v ws state).map (·.2)) :=
  (perm_insertionSort _ _).map _

/-- Of a floating node only the views' visibility changes, and its focus under a fullscreen tile. -/
theorem floatingVisibility_eq (tiling floating visible : Bool) (n : Node) :
    ∃ m, m.hidden = n.hidden ∧
      floatingVisibility tiling floating visible n = if tiling then m.clearFocused else m := by
  refine ⟨_, ?_, rfl⟩
  rw [← n.hidden_setWindowsVisible (visible && (!tiling && (!floating || n.containsFullscreen)))]
  split
  · rw [hidden_mk, map_hidden_applyFullscreenState, ← hidden_mk, eta]
  · rfl

/-- **Visibility changes the views' visibility only**, and the focus of the floating nodes under a
    fullscreen tile. -/
theorem applyWorkspaceVisibility_eq (layout : NodeLayout) (focus : List ℤ)
    (nodes floatingNodes : List Node) (visible : Bool) :
    (applyWorkspaceVisibility layout focus nodes floatingNodes visible).1.map Node.hidden =
        nodes.map Node.hidden ∧
      ∃ floating, (applyWorkspaceVisibility layout focus nodes floatingNodes visible).2 =
        floatingNodes.map (floatingVisibility (!floatingNodes.any containsFullscreen &&
          nodes.any containsFullscreen) floating visible) := by
  unfold applyWorkspaceVisibility
  cases floatingNodes.any containsFullscreen with
  | true =>
    refine ⟨?_, true, rfl⟩
    change (nodes.map (setWindowsVisible false)).map Node.hidden = nodes.map Node.hidden
    rw [map_map]
    exact map_congr_left fun n _ => n.hidden_setWindowsVisible false
  | false =>
    simp only [Bool.false_eq_true, if_false, Bool.not_false, Bool.true_and, Bool.and_true]
    unfold applyFullscreenState
    rw [anyFullscreen_eq]
    cases nodes.any containsFullscreen with
    | true => exact ⟨map_hidden_onlyFullscreen visible nodes, false, rfl⟩
    | false => exact ⟨map_hidden_showChildren _ _ nodes, false, rfl⟩

/-- **What visibility changes of a reading** that does not see the views' visibility. -/
theorem readings_applyWorkspaceVisibility {γ : Type} {f : NodeInfo → γ} {g : γ → γ}
    (hf : ∀ i, f (i.setVisible false) = f i) (hg : ∀ i, f { i with focused := false } = g (f i))
    (layout : NodeLayout) (focus : List ℤ) (nodes floatingNodes : List Node) (visible : Bool) :
    (applyWorkspaceVisibility layout focus nodes floatingNodes visible).1.flatMap (readings f) =
      nodes.flatMap (readings f) ∧
    (applyWorkspaceVisibility layout focus nodes floatingNodes visible).2.flatMap (readings f) =
      (floatingNodes.flatMap (readings f)).map
        (if !floatingNodes.any containsFullscreen && nodes.any containsFullscreen then g
        else fun e => e) := by
  obtain ⟨hnodes, floating, hfloating⟩ :=
    applyWorkspaceVisibility_eq layout focus nodes floatingNodes visible
  refine ⟨flatMap_readings_of_hidden hf hnodes, ?_⟩
  rw [hfloating, flatMap_map, map_flatMap]
  refine flatMap_congr fun n _ => ?_
  obtain ⟨m, hm, e⟩ := floatingVisibility_eq _ floating visible n
  rw [e, ← n.readings_hidden hf, ← hm, m.readings_hidden hf]
  split
  · exact readings_mapInfo hg m
  · exact (map_id' _).symm

/-- **The flags of a workspace**, up to the order of its floating nodes. -/
theorem flags_describeWorkspace (h : ws.tiling.tree.residentRoot = false) (output : Name)
    (index : ℕ) :
    (describeWorkspace l v ws output index).flags.Perm
      (workspaceFlags ws (workspaceState l output ws.id).focused) := by
  set state := workspaceState l output ws.id with hstate
  obtain ⟨hflags, hfull, hnone⟩ := tiledPart_spec v state h
  have hperm : (floatingPart l v ws state).Perm _ := floatingPart_perm l v state
  obtain ⟨hnodes, hfloating⟩ := readings_applyWorkspaceVisibility
    (f := fun i => (i.id, i.focused)) (g := fun e => (e.1, false))
    (fun i => by rw [i.id_setVisible, i.focused_setVisible]) (fun _ => rfl)
    (tiledPart v ws state).info.layout (orderFocus ws (tiledPart v ws state).info.focus (tiledPart v ws state).nodes
      (floatingPart l v ws state)) (tiledPart v ws state).nodes (floatingPart l v ws state)
    state.visible
  -- the tiled part: its root, then its nodes
  have hroot : tiledFlags ws state.focused =
      ((tiledPart v ws state).id, (tiledPart v ws state).focused) ::
        (tiledPart v ws state).nodes.flatMap flags := by
    rw [← hflags, flags_eq, hnone, flatMap_nil, append_nil]
  have hany : (floatingPart l v ws state).any containsFullscreen = floatingFullscreen ws := by
    rw [hperm.any_eq, any_floatingSlots]
  have hmask : (!(floatingPart l v ws state).any containsFullscreen &&
      (tiledPart v ws state).nodes.any containsFullscreen) = tilingFullscreen ws := by
    rw [hany, hfull]
    rfl
  have hfloat : ((floatingPart l v ws state).flatMap flags).Perm
      (floatingFlags ws state.focused) := by
    rw [← flags_floatingSlots l v state]
    exact hperm.flatMap_right _
  rw [flags_eq]
  unfold workspaceFlags
  rw [hroot, tail_cons, head?_cons]
  refine Perm.cons _ ?_
  refine (Perm.of_eq (congrArg₂ (· ++ ·) hnodes hfloating)).trans ?_
  rw [hmask]
  refine Perm.append_left _ ?_
  cases tilingFullscreen ws with
  | true => exact hfloat.map _
  | false => exact hfloat.map _

end WorkspaceFlags

section TreeFlags

variable (l : LayoutState MappedId) (v : Views)

def hiddenGroupFlags (removed : RemovedFloatingTree MappedId) : List (ℤ × Bool) :=
  mask false (removed.tree.tree.ipcTree.entries.map entryFlag)

theorem describeHiddenGroup_spec {removed : RemovedFloatingTree MappedId}
    (h : removed ∈ l.scratchpadTrees) :
    ∃ node, describeHiddenGroup l v removed = some node ∧
      node.flags = hiddenGroupFlags removed := by
  obtain ⟨node, hnode, hflags, -⟩ :=
    describeTiling_spec v l.windows.contains removed.tree.tree.ipcTree (by
      intro w hw
      rw [removed.tree.windows_ipcTree] at hw
      refine contains_iff_mem.mpr (mem_append_left _ (mem_append_right _ ?_))
      exact mem_append_right _ (mem_flatMap.mpr ⟨removed, h, hw⟩))
  unfold describeHiddenGroup
  rw [hnode]
  refine ⟨_, rfl, ?_⟩
  rw [flags_clearFocused, flags_setWindowsVisible, flags_withInfo _ rfl, hflags]
  rfl

/-- The windows that are hidden on their own: no node of a hidden group has their id. -/
def hiddenAlone : List (Tile MappedId) :=
  l.scratchpad.filter fun tile =>
    !((l.scratchpadTrees.flatMap hiddenGroupFlags).map (·.1)).contains (windowId tile.window)

/-- **The scratchpad**: the groups, without focus, and windows that are hidden on their own. -/
theorem flags_hiddenNodes :
    (hiddenNodes l v).flatMap flags = l.scratchpadTrees.flatMap hiddenGroupFlags ++
      (hiddenAlone l).map fun tile => (windowId tile.window, v.isFocused tile.window) := by
  set groups := l.scratchpadTrees.filterMap (describeHiddenGroup l v)
  set taken := (l.scratchpadTrees.flatMap hiddenGroupFlags).map (·.1) with htaken
  have hgroups : groups.flatMap flags = l.scratchpadTrees.flatMap hiddenGroupFlags :=
    Positions.flatMap_filterMap_of_forall fun _ hremoved => describeHiddenGroup_spec l v hremoved
  have hinTree : ∀ tile : Tile MappedId, (groups.any fun node =>
      node.ids.contains (windowId tile.window)) = taken.contains (windowId tile.window) := by
    intro tile
    rw [Bool.eq_iff_iff, any_eq_true, contains_iff_mem, htaken, ← hgroups, map_flatMap, mem_flatMap]
    simp only [contains_iff_mem, ids_eq_flags]
  -- a window of a group is found in the description of its group
  have hin : ∀ tile ∈ l.scratchpadTrees.flatMap (·.tree.tiles),
      windowId tile.window ∈ taken := by
    intro tile htile
    obtain ⟨removed, hremoved, ht⟩ := mem_flatMap.mp htile
    have hw : tile.window ∈ removed.tree.tree.ipcTree.windows := by
      rw [removed.tree.windows_ipcTree, ← removed.tree.map_window_tiles]
      exact mem_map_of_mem ht
    obtain ⟨e, he, hwe⟩ := mem_filterMap.mp hw
    rw [htaken, map_flatMap]
    refine mem_flatMap.mpr ⟨removed, hremoved, ?_⟩
    rw [hiddenGroupFlags, map_fst_mask, map_map]
    refine mem_map.mpr ⟨e, he, ?_⟩
    rcases e with info | info
    · cases hwe
    · exact congrArg windowId (Option.some.inj hwe)
  have hsingles : (scratchpadTiles l).filter (fun tile => !groups.any fun node =>
      node.ids.contains (windowId tile.window)) = hiddenAlone l := by
    have hnone : (l.scratchpadTrees.flatMap (·.tree.tiles)).filter
        (fun tile => !taken.contains (windowId tile.window)) = [] := by
      refine filter_eq_nil_iff.mpr fun tile ht => ?_
      rw [contains_iff_mem.mpr (hin tile ht)]
      exact Bool.false_ne_true
    unfold scratchpadTiles hiddenAlone
    simp only [hinTree]
    rw [filter_append, hnone, append_nil]
  change (groups ++ ((scratchpadTiles l).filter _).map (describeHiddenWindow l v)).flatMap flags = _
  rw [hsingles, flatMap_append, hgroups, flatMap_map, map_eq_flatMap]
  refine congrArg _ (flatMap_congr fun tile _ => ?_)
  rw [flags_eq]
  rfl

/-- An output with its workspaces. -/
def outputFlags (m : Monitor MappedId) : List (ℤ × Bool) :=
  (outputId m.outputName, false) :: (describedWorkspaces m).flatMap fun e =>
    workspaceFlags e.2 (workspaceState l m.outputName e.2.id).focused

theorem mem_of_mem_describedWorkspaces {m : Monitor MappedId}
    {e : ℕ × Swayward.Workspace MappedId} (h : e ∈ describedWorkspaces m) :
    m.workspaces[e.1]? = some e.2 := by
  obtain ⟨id, -, he⟩ := mem_filterMap.mp (mem_of_mem_filter h)
  obtain ⟨index, -, hindex⟩ := Option.bind_eq_some_iff.mp he
  obtain ⟨ws, hws, rfl⟩ := Option.map_eq_some_iff.mp hindex
  exact hws

/-- **The flags of the whole reply.** -/
theorem flags_describeTree (l : SoundLayout MappedId) :
    (describeTree l.toLayoutState v).flags.Perm
      ((rootId, false) :: (scratchOutputId, false) :: (scratchWorkspaceId, false) ::
        ((l.scratchpadTrees.flatMap hiddenGroupFlags ++ (hiddenAlone l.toLayoutState).map
          fun tile => (windowId tile.window, v.isFocused tile.window)) ++
        l.monitors.flatMap (outputFlags l.toLayoutState))) := by
  have hscratch : (scratchOutput l.toLayoutState v).flags =
      (scratchOutputId, false) :: (scratchWorkspaceId, false) ::
        (hiddenNodes l.toLayoutState v).flatMap flags := by
    rw [flags_eq]
    change _ :: (flags _ ++ [] ++ []) = _
    rw [flags_eq]
    simp only [append_nil]
    rfl
  have houtput : ∀ m ∈ l.monitors, (describeOutputNode l.toLayoutState v m).flags.Perm
      (outputFlags l.toLayoutState m) := by
    intro m hm
    rw [flags_eq]
    refine Perm.cons _ ?_
    change (flatMap flags ((describedWorkspaces m).map _) ++ []).Perm _
    rw [append_nil, flatMap_map]
    refine Perm.flatMap_left _ fun e he => flags_describeWorkspace _ v (l.tiled _ ?_) _ _
    exact l.mem_allWorkspaces hm (mem_of_getElem? (mem_of_mem_describedWorkspaces he))
  rw [flags_eq]
  refine Perm.cons _ ?_
  change (flatMap flags (scratchOutput l.toLayoutState v :: l.monitors.map _) ++ []).Perm _
  rw [append_nil, flatMap_cons, hscratch, flags_hiddenNodes, flatMap_map]
  refine Perm.cons _ (Perm.cons _ (Perm.append_left _ ?_))
  exact Perm.flatMap_left _ houtput

end TreeFlags

end Swayward.Ipc
