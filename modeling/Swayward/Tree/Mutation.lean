/-
  File:      Swayward/Tree/Mutation.lean
  Subject:   ADDING AND REMOVING TILES (`mutation.rs`).
-/
import Swayward.Tree.TreeLayout

namespace Swayward

variable {I : Type}

namespace TilingTree

variable (t : TilingTree I)

/-! ## 1. Adding -/

/-- The split a new leaf goes into, and the sibling it goes after. -/
def insertionSlot (target : InsertTarget) : NodeId × Option NodeId :=
  let beside := fun target : Option NodeId =>
    let parent := (target.bind t.parentOf).getD t.root
    (parent, target.filter fun target => t.parentOf target == some parent)
  match target with
  | .focused => beside t.focus
  | .node id => beside (some id)
  | .moveDestination =>
    match t.focus.filter (t.isSplit ·) with
    | some focus => (focus, none)
    | none => beside t.focus

/-- Whether a leaf added to `parent` takes a share of a split box inside `fullscreen`. -/
def dividesBoxUnderFullscreen (parent fullscreen : NodeId) : Bool :=
  parent != t.root && parent != fullscreen && t.containsNode parent fullscreen &&
    match t.layoutOf parent with
    | some layout => layout.isSplit
    | none => false

/-- Focus a new leaf, or rank it behind the kept focus: second when merely not activated, last when
    a fullscreen container blocks focus. -/
def placeNewLeafInFocusOrder (id : NodeId) (activate focusBlocked : Bool)
    (previousFocus : Option NodeId) : TilingTree I :=
  match previousFocus with
  | some previous =>
    if !activate || focusBlocked then
      let rest := t.focusHistory.filter (· != id)
      { t with
        focusHistory :=
          if focusBlocked then rest ++ [id] else rest.insertIdx (min 1 rest.length) id
        focus := some previous }
    else
      t.setFocusId (some id)
  | none => t.setFocusId (some id)

/-- The layout a new tile added to the root is wrapped in. -/
def WorkspaceLayout.wrapper : WorkspaceLayout → Option Layout
  | .default => none
  | .stacking => some .stacked
  | .tabbed => some .tabbed

/-- The new leaf in its slot: allocated, linked, and wrapped if the workspace layout says so. -/
def insertLeaf (tile : Tile I) (slot : NodeId × Option NodeId) : TilingTree I × NodeId :=
  let (a, id) := t.alloc { parent := none, value := .leaf tile }
  let t := { t with toArena := a.insertChild slot.1 id slot.2 }
  if slot.1 = t.root then
    match WorkspaceLayout.wrapper t.options.workspaceLayout with
    | some layout => ((t.wrapNode id layout).1, id)
    | none => (t, id)
  else
    (t, id)

def addTileWithActivation (tile : Tile I) (target : InsertTarget)
    (activate : Bool) : TilingTree I × NodeId :=
  let t := { t with interactiveResize := none, hasHadTile := true }
  let mode := tile.pendingSizingMode
  let fullscreen := t.fullscreenNode
  let previousFocus := t.focus
  let t := if t.fullscreenLayoutWrappers = ∅ then t else { t with preLayoutIpcRects := ∅ }
  let slot := t.insertionSlot target
  -- a view mapped beside a fullscreen container is never focused
  let focusBlocked := fullscreen.isSome
  let mapped := focusBlocked && slot.1 == t.root
  let t :=
    match fullscreen with
    | some fullscreen =>
      if t.dividesBoxUnderFullscreen slot.1 fullscreen then { t with fullscreenTileSlot := true }
      else t
    | none => t
  let (t, id) := t.insertLeaf tile slot
  let t := t.placeNewLeafInFocusOrder id activate focusBlocked previousFocus
  let t :=
    if mapped && mode != .fullscreen then
      { t with mappedUnderFullscreen := insert id t.mappedUnderFullscreen }
    else
      t
  let t :=
    if mode = .maximized then
      { t with pendingModes := t.pendingModes.insert id { maximized := true } }
    else
      t
  let t := t.compactTree
  let t := if mode = .fullscreen then (t.replaceFullscreenState id (some .workspace)).1 else t
  (t.requestWindowSizes, id)

def addTile (tile : Tile I) (target : InsertTarget) : TilingTree I × NodeId :=
  t.addTileWithActivation tile target true

/-- Trade the places of two children, shares included. -/
def Split.swapEntries (s : Split) (first second : Nat) : Split :=
  match s.children[first]?, s.children[second]?, s.percents[first]?, s.percents[second]? with
  | some c, some d, some x, some y =>
    { s with
      children := (s.children.set first d).set second c
      percents := (s.percents.set first y).set second x }
  | _, _, _, _ => s

/-- The layout in which a drop at `edge` places the two tiles. -/
def dropLayout (edge : ResizeEdge) : Layout := if edge.left || edge.right then .splitH else .splitV

/-- The tree a drop inserts into: the target is split unless its parent has the layout already. -/
def dropSplit (t : TilingTree I) (target : NodeId) (edge : ResizeEdge) : TilingTree I :=
  if t.layoutOf ((t.parentOf target).getD t.root) = some (dropLayout edge) then t
  else t.split target (dropLayout edge)

/-- `add_tile_at_drop`; an error is a panic at one of its `expect` or at its `unreachable!`, with
the tree as it is then. -/
def tryAddTileAtDrop (tile : Tile I) (target : NodeId) (edge : ResizeEdge) (activate : Bool) :
    Except (TilingTree I × NodeId) (TilingTree I × NodeId) :=
  if !t.contains target then
    .ok (t.addTileWithActivation tile .focused activate)
  else
    let (t, id) := (t.dropSplit target edge).addTileWithActivation tile (.node target) activate
    if edge.left || edge.top then
      match t.parentOf id with
      | none => .error (t, id)
      | some parent =>
        match t.childIndex parent target, t.childIndex parent id, t.isSplit parent with
        | some first, some second, true =>
          .ok ({ t with toArena := t.modifySplit parent (Split.swapEntries · first second) }, id)
        | _, _, _ => .error (t, id)
    else
      .ok (t, id)

/-- The tree `add_tile_at_drop` leaves, by returning or by a panic. -/
def addTileAtDrop (tile : Tile I) (target : NodeId) (edge : ResizeEdge)
    (activate : Bool) : TilingTree I × NodeId :=
  match t.tryAddTileAtDrop tile target edge activate with
  | .ok x | .error x => x

def addTileToExistingParent (tile : Tile I) (parent : NodeId)
    (activate : Bool) : TilingTree I × NodeId :=
  let t := { t with interactiveResize := none }
  let (a, id) := t.alloc { parent := some parent, value := .leaf tile }
  let t := { t with toArena := a.insertChild parent id none }
  let t := if activate then t.setFocusId (some id) else t
  (t.requestWindowSizes, id)

/-! ## 2. Removing -/

/-- The focus after a leaf has gone. -/
def refocusAfterRemoval (id : NodeId) : TilingTree I :=
  if t.windows.isEmpty then
    { t with
      emptyRepresentationLayout := some t.rootLayout
      pendingModes := ∅ : TilingTree I }.setFocusId none
  else if t.focus = some id then
    t.setFocusId ((t.fullscreenNode.bind t.focusedLeafIn).or (t.focusedLeafIn t.root))
  else
    t

def removeTileNode (id : NodeId) : TilingTree I × Option (Tile I) :=
  match t.tile id with
  | none => (t, none)
  | some tile =>
    let parent := t.parentOf id
    let removedFullscreen := t.fullscreenNode == some id
    let t := t.removeNode id
    let t :=
      if removedFullscreen then
        { t with mappedUnderFullscreen := ∅, movedUnderFullscreen := ∅ }
      else
        t
    let t := { t with interactiveResize := none }
    let t :=
      match parent with
      | some parent =>
        { t with toArena := t.removeChild parent id : TilingTree I }.reapEmptyFrom parent
      | none => t
    (t.refocusAfterRemoval id, some tile)

variable [DecidableEq I] (t : TilingTree I)

def removeTile (window : I) : TilingTree I × Option (Tile I) :=
  match t.nodeForWindow window with
  | none => (t, none)
  | some id =>
    match t.removeTileNode id with
    | (t, some tile) => (t.requestWindowSizes, some tile)
    | (t, none) => (t, none)

/-- Remove a window that is transferred elsewhere rather than closed. -/
def removeTileForTransfer (window : I) : TilingTree I × Option (Tile I) :=
  match t.nodeForWindow window with
  | none => (t, none)
  | some id =>
    let target :=
      if t.focus = some id ∧ t.fullscreenNode = none then
        t.transferFocusTarget (some id) (t.parentOf id)
      else
        none
    match t.removeTile window with
    | (t, some tile) =>
      (if t.focus.isSome then (t.resolveTransferFocus target).1 else t, some tile)
    | (t, none) => (t, none)

end TilingTree

end Swayward
