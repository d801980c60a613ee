/-
  File:      Swayward/Tree/Run.lean
  Subject:   RUNS: trees, subtrees in transit, and the steps the compositor takes on them.

  The operations of a tree are sorted by what they are for. A `World` holds the trees of all
  workspaces and floating groups and the subtrees that have left one tree and not yet entered
  another. The node counter is the compositor's, so every tree takes it up where the last one left
  it.
-/
import Swayward.Tree.Navigate

namespace Swayward

variable {I : Type}

/-! ## 1. Operations of one tree -/

/-- Layout commands (`tree_layout.rs`). -/
inductive LayoutOp
  | split (id : NodeId) (layout : Layout)
  | splitFocused (layout : Layout)
  | setLayout (id : NodeId) (layout : Layout)
  | setLayoutForCommand (id : NodeId) (layout : Layout)
  | resetEmptyLayout
  | flattenParent (id : NodeId)
  | wrapWorkspaceChildren
  | setFocusedLayout (layout : Layout)
  | setFocusedParentLayout (layout : Layout)
  | setTargetLayout (id : NodeId) (layout : Layout)
  | toggleSplit (id : NodeId)
  | toggleFocusedSplit
  | toggleFocusedTabbed
  | toggleLayoutSplit (id : NodeId)
  | toggleNodeLayout (id : NodeId) (toggle : LayoutToggle)
  | toggleFocusedLayout (toggle : LayoutToggle)
  | toggleTargetLayout (id : NodeId) (toggle : LayoutToggle)
  | toggleFocusedLayoutSplit
  | restoreNodeLayout (id : NodeId)
  | restoreFocusedSplitLayout
  | restoreTargetLayout (id : NodeId)

/-- Moves inside one tree (`movement.rs`). -/
inductive MoveOp (I : Type)
  | moveDirection (id : NodeId) (direction : Direction)
  | moveNodeDirection (id : NodeId) (direction : Direction)
  | moveSubtreeToIndex (id : NodeId) (index : Option ℕ)
  | moveSubtreeToNode (id destination : NodeId)
  | swapNodes (first second : NodeId)
  | consume (id : NodeId) (right : Bool)
  | expel (id : NodeId) (after : Bool)
  | expelOrConsume (window : Option I) (right : Bool)

/-- Resizing (`resize.rs`). -/
inductive ResizeOp (I : Type)
  | resizeAdjacent (first second : NodeId) (delta : ℚ)
  | resizeAcrossSiblings (parent target : NodeId) (delta : ℚ)
  | resizeNodeDimension (id : NodeId) (width : Bool) (change : SizeChange)
  | resizeNodeEdgeCommand (id : NodeId) (edge : ResizeEdge) (change : SizeChange)
  | setNodeSizeSway (id : NodeId) (width height : Option SizeChange)
  | toggleFullWidth
  | setWindowDimension (window : Option I) (width : Bool) (change : SizeChange)
  | resizeWindowEdge (window : Option I) (edge : ResizeEdge) (change : SizeChange)
  | resetWindowHeight (window : Option I)
  | togglePreset (window : Option I) (width forwards : Bool)
  | interactiveResizeBegin (window : I) (edges : ResizeEdge)
  | interactiveResizeUpdate (window : I) (delta : Point)
  | interactiveResizeEnd (window : Option I)

/-- Fullscreen and maximized modes (`fullscreen.rs`). -/
inductive ModeOp (I : Type)
  | setNodeFullscreen (id : NodeId) (fullscreen : Option FullscreenMode)
  | setFullscreen (window : I) (fullscreen : Bool)
  | setMaximized (window : I) (maximized : Bool)
  | arrangeFullscreenParent
  | markFullscreenArrived
  | markMovedUnderFullscreen (window : I) (sourceRect : Rect)

/-- Focus commands (`focus.rs`). -/
inductive FocusOp (I : Type)
  | setFocus (id : NodeId)
  | focusRoot
  | focusInactiveLeafOf (id : NodeId)
  | activateWindow (window : I)
  | focusFirst
  | focusLast
  | focusWindowInSubtree (subtree : NodeId) (index : ℕ)
  | focusWindowInParent (index : ℕ)
  | focusRootChild (index : ℕ)
  | focusLastRootChild
  | focusParent
  | focusChild
  | focusFromOutputDirection (dir : Direction)
  | scrollTabIndicator (window : I) (steps : ℤ)
  | focusNextPrevSibling (next : Bool)
  | focusDirection (dir : Direction)
  | focusDirectionWithoutWrap (dir : Direction)
  | focusNextOrPrev (next : Bool)
  | focusExtreme (bottom : Bool)
  | restoreFocusRank (window : I) (rank : ℕ)
  | sortFocusHistoryByTimestamp

/-- The operations that are not meant to add or remove a window. -/
inductive QuietOp (I : Type)
  | layout (op : LayoutOp)
  | move (op : MoveOp I)
  | resize (op : ResizeOp I)
  | mode (op : ModeOp I)
  | focus (op : FocusOp I)

/-- The operations that add or remove one (`mutation.rs`). -/
inductive TileOp (I : Type)
  | addTileWithActivation (tile : Tile I) (target : InsertTarget) (activate : Bool)
  | addTileAtDrop (tile : Tile I) (target : NodeId) (edge : ResizeEdge) (activate : Bool)
  | addTileToExistingParent (tile : Tile I) (parent : NodeId) (activate : Bool)
  | removeTileNode (id : NodeId)
  | removeTile (window : I)
  | removeTileForTransfer (window : I)

namespace LayoutOp

def run (t : TilingTree I) : LayoutOp → TilingTree I
  | .split id layout => t.split id layout
  | .splitFocused layout => t.splitFocused layout
  | .setLayout id layout => t.setLayout id layout
  | .setLayoutForCommand id layout => t.setLayoutForCommand id layout
  | .resetEmptyLayout => t.resetEmptyLayout
  | .flattenParent id => (t.flattenParent id).1
  | .wrapWorkspaceChildren => t.wrapWorkspaceChildren
  | .setFocusedLayout layout => (t.setFocusedLayout layout).1
  | .setFocusedParentLayout layout => t.setFocusedParentLayout layout
  | .setTargetLayout id layout => (t.setTargetLayout id layout).1
  | .toggleSplit id => t.toggleSplit id
  | .toggleFocusedSplit => t.toggleFocusedSplit
  | .toggleFocusedTabbed => t.toggleFocusedTabbed
  | .toggleLayoutSplit id => t.toggleLayoutSplit id
  | .toggleNodeLayout id toggle => (t.toggleNodeLayout id toggle).1
  | .toggleFocusedLayout toggle => (t.toggleFocusedLayout toggle).1
  | .toggleTargetLayout id toggle => (t.toggleTargetLayout id toggle).1
  | .toggleFocusedLayoutSplit => t.toggleFocusedLayoutSplit.1
  | .restoreNodeLayout id => (t.restoreNodeLayout id).1
  | .restoreFocusedSplitLayout => t.restoreFocusedSplitLayout.1
  | .restoreTargetLayout id => (t.restoreTargetLayout id).1

end LayoutOp

variable [DecidableEq I]

def MoveOp.run (t : TilingTree I) : MoveOp I → TilingTree I
  | .moveDirection id direction => (t.moveDirection id direction).1
  | .moveNodeDirection id direction => (t.moveNodeDirection id direction).1
  | .moveSubtreeToIndex id index => (t.moveSubtreeToIndex id index).1
  | .moveSubtreeToNode id destination => (t.moveSubtreeToNode id destination).1
  | .swapNodes first second => (t.swapNodes first second).1
  | .consume id right => (t.consume id right).1
  | .expel id after => (t.expel id after).1
  | .expelOrConsume window right => t.expelOrConsume window right

def ResizeOp.run (t : TilingTree I) : ResizeOp I → TilingTree I
  | .resizeAdjacent first second delta => (t.resizeAdjacent first second delta).1
  | .resizeAcrossSiblings parent target delta => (t.resizeAcrossSiblings parent target delta).1
  | .resizeNodeDimension id width change => (t.resizeNodeDimension id width change).1
  | .resizeNodeEdgeCommand id edge change => (t.resizeNodeEdgeCommand id edge change).1
  | .setNodeSizeSway id width height => t.setNodeSizeSway id width height
  | .toggleFullWidth => t.toggleFullWidth
  | .setWindowDimension window width change => (t.setWindowDimension window width change).1
  | .resizeWindowEdge window edge change => (t.resizeWindowEdge window edge change).1
  | .resetWindowHeight window => t.resetWindowHeight window
  | .togglePreset window width forwards => t.togglePreset window width forwards
  | .interactiveResizeBegin window edges => (t.interactiveResizeBegin window edges).1
  | .interactiveResizeUpdate window delta => (t.interactiveResizeUpdate window delta).1
  | .interactiveResizeEnd window => t.interactiveResizeEnd window

def ModeOp.run (t : TilingTree I) : ModeOp I → TilingTree I
  | .setNodeFullscreen id fullscreen => (t.setNodeFullscreen id fullscreen).1
  | .setFullscreen window fullscreen => (t.setFullscreen window fullscreen).1
  | .setMaximized window maximized => (t.setMaximized window maximized).1
  | .arrangeFullscreenParent => t.arrangeFullscreenParent
  | .markFullscreenArrived => t.markFullscreenArrived
  | .markMovedUnderFullscreen window sourceRect => t.markMovedUnderFullscreen window sourceRect

def FocusOp.run (t : TilingTree I) : FocusOp I → TilingTree I
  | .setFocus id => t.setFocus id
  | .focusRoot => t.focusRoot
  | .focusInactiveLeafOf id => t.focusInactiveLeafOf id
  | .activateWindow window => (t.activateWindow window).1
  | .focusFirst => t.focusFirst
  | .focusLast => t.focusLast
  | .focusWindowInSubtree subtree index => t.focusWindowInSubtree subtree index
  | .focusWindowInParent index => t.focusWindowInParent index
  | .focusRootChild index => t.focusRootChild index
  | .focusLastRootChild => t.focusLastRootChild
  | .focusParent => t.focusParent.1
  | .focusChild => t.focusChild.1
  | .focusFromOutputDirection dir => (t.focusFromOutputDirection dir).1
  | .scrollTabIndicator window steps => (t.scrollTabIndicator window steps).1
  | .focusNextPrevSibling next => (t.focusNextPrevSibling next).1
  | .focusDirection dir => (t.focusDirection dir).1
  | .focusDirectionWithoutWrap dir => (t.focusDirectionWithoutWrap dir).1
  | .focusNextOrPrev next => (t.focusNextOrPrev next).1
  | .focusExtreme bottom => t.focusExtreme bottom
  | .restoreFocusRank window rank => t.restoreFocusRank window rank
  | .sortFocusHistoryByTimestamp => t.sortFocusHistoryByTimestamp

def QuietOp.run (t : TilingTree I) : QuietOp I → TilingTree I
  | .layout op => op.run t
  | .move op => op.run t
  | .resize op => op.run t
  | .mode op => op.run t
  | .focus op => op.run t

namespace TileOp

def run (t : TilingTree I) : TileOp I → TilingTree I
  | .addTileWithActivation tile target activate => (t.addTileWithActivation tile target activate).1
  | .addTileAtDrop tile target edge activate => (t.addTileAtDrop tile target edge activate).1
  | .addTileToExistingParent tile parent activate =>
    (t.addTileToExistingParent tile parent activate).1
  | .removeTileNode id => (t.removeTileNode id).1
  | .removeTile window => (t.removeTile window).1
  | .removeTileForTransfer window => (t.removeTileForTransfer window).1

/-- The window that is added. -/
def window : TileOp I → Option I
  | .addTileWithActivation tile _ _ => some tile.window
  | .addTileAtDrop tile _ _ _ => some tile.window
  | .addTileToExistingParent tile _ _ => some tile.window
  | .removeTileNode _ => none
  | .removeTile _ => none
  | .removeTileForTransfer _ => none

end TileOp

/-! ## 2. Swapping between two trees -/

structure SwapRemap where
  first : List (NodeId × NodeId)
  second : List (NodeId × NodeId)

namespace TilingTree

/-- The subtrees at `first` and `second` change places, tree, index and share. -/
def swapNodesBetween (t u : TilingTree I) (first second : NodeId) :
    Except SwapError (TilingTree I × TilingTree I × SwapRemap) :=
  if !t.fitsAt first (u.subtreeHeight second) || !u.fitsAt second (t.subtreeHeight first) then
    .error .tooDeep
  else
    match t.detachSubtreeForSwap first with
    | none => .error .noMatchingNode
    | some (t, firstSubtree, firstSlot) =>
      match u.detachSubtreeForSwap second with
      | none => .error .noMatchingNode
      | some (u, secondSubtree, secondSlot) =>
        let subtrees := firstSubtree.swapFullscreenPosition secondSubtree
        let (t, _, secondRemapped) := t.attachSubtreeForSwap subtrees.2 firstSlot
        let u := { u with counter := t.counter }
        let (u, _, firstRemapped) := u.attachSubtreeForSwap subtrees.1 secondSlot
        let t := t.finishSubtreeDetach none
        let u := u.finishSubtreeDetach none
        .ok (t, u, { first := firstRemapped, second := secondRemapped })

end TilingTree

/-! ## 3. Worlds and steps -/

structure World (I : Type) where
  counter : NodeId
  trees : List (TilingTree I) := []
  /-- subtrees that left a tree and have not entered another one -/
  transit : List (DetachedSubtree I) := []

inductive Step (I : Type)
  /-- a new workspace -/
  | newTree (config : TilingTree.Config)
  | quiet (tree : ℕ) (op : QuietOp I)
  | tile (tree : ℕ) (op : TileOp I)
  /-- `detach_subtree`, then `finish_subtree_detach` -/
  | detach (tree : ℕ) (id : NodeId)
  | attach (tree subtree : ℕ) (target : Option NodeId) (unwrapIntoEmptyRoot : Bool)
  /-- a floating group from a detached subtree -/
  | group (subtree : ℕ) (config : TilingTree.Config)
  | swap (first second : ℕ) (firstNode secondNode : NodeId)

/-- The windows a tree holds, in tree order. -/
def TilingTree.held (t : TilingTree I) : List I := t.windows.map (·.2)

namespace World

/-- All windows, tree by tree. -/
def windows (w : World I) : List I :=
  w.trees.flatMap TilingTree.held ++ w.transit.flatMap (·.windows)

/-- The tree at `i`, with the counter where it stands now. -/
def tree (w : World I) (i : ℕ) : Option (TilingTree I) :=
  w.trees[i]?.map fun t => { t with counter := w.counter }

/-- Note which identifiers a tree has handed out. -/
def tick (w : World I) (t : TilingTree I) : World I := { w with counter := max w.counter t.counter }

/-- Put the tree at `i` back. -/
def put (w : World I) (i : ℕ) (t : TilingTree I) : World I :=
  { w.tick t with trees := w.trees.set i t }

/-- A new tree. -/
def push (w : World I) (t : TilingTree I) : World I := { w.tick t with trees := w.trees ++ [t] }

def step (w : World I) : Step I → World I
  | .newTree config => w.push (TilingTree.new w.counter config)
  | .quiet i op =>
    match w.tree i with
    | some t => w.put i (op.run t)
    | none => w
  | .tile i op =>
    match w.tree i with
    | some t =>
      -- a window is in one place at most
      if op.window.any (w.windows.contains ·) then w else w.put i (op.run t)
    | none => w
  | .detach i id =>
    match (w.tree i).bind (·.detachSubtree id) with
    | some (t, subtree, parent) =>
      { (w.tick t).put i (t.finishSubtreeDetach parent) with
        transit := w.transit ++ [subtree] }
    | none => w
  | .attach i k target unwrap =>
    match w.tree i, w.transit[k]? with
    | some t, some subtree =>
      -- an identifier that was not handed out yet names nothing
      let target := target.filter (· < w.counter)
      { w.put i (t.attachSubtreeWith subtree target unwrap).1 with
        transit := w.transit.eraseIdx k }
    | _, _ => w
  | .group k config =>
    match w.transit[k]? with
    | some subtree =>
      { w.push (TilingTree.fromDetachedSubtree w.counter config subtree).1 with
        transit := w.transit.eraseIdx k }
    | none => w
  | .swap i j first second =>
    if i = j then
      w
    else
      match w.tree i, w.tree j with
      | some t, some u =>
        match t.swapNodesBetween u first second with
        | .ok (t, u, _) => (w.put i t).put j u
        | .error _ => w
      | _, _ => w

/-- A run from the start of the compositor. -/
def run (steps : List (Step I)) : World I := steps.foldl step { counter := 0 }

end World

end Swayward
