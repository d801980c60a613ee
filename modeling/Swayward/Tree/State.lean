/-
  File:      Swayward/Tree/State.lean
  Subject:   THE TILING TREE: the arena together with focus, focus history and the side tables.

  `TilingTree` extends the arena by the tables the source keys by node (`side_tables!`), by the
  focus and by the flags its commands read. `removeNode` is the one way a node leaves the arena: it
  forgets the node in every table. The tables only rendering writes (`tab_indicators`,
  `tab_active`) are left out.
-/
import Mathlib.Data.Finset.Basic
import Mathlib.Data.Finset.Filter
import Swayward.Tree.Arena

namespace Swayward

variable {I : Type}

structure TilingTree (I : Type) extends Arena I where
  focus : Option NodeId := none
  ipcStaleNodes : Finset NodeId := ∅
  /-- The leaf whose focus last raised each container in the focus stack. -/
  lastEnteredBy : FinMap NodeId NodeId := ∅
  hasHadTile : Bool := false
  emptyRepresentationLayout : Option Layout := none
  focusHistory : List NodeId := []
  pendingModes : FinMap NodeId PendingMode := ∅
  mappedUnderFullscreen : Finset NodeId := ∅
  /-- Leaves moved into this tree while it was fullscreen, with their former IPC box. -/
  movedUnderFullscreen : FinMap NodeId Rect := ∅
  ipcFocusFollowsHistory : Bool := false
  fullscreenTileSlot : Bool := false
  fullscreenArrived : Bool := false
  fullscreenLayoutWrappers : Finset NodeId := ∅
  preLayoutIpcRects : FinMap NodeId Rect := ∅
  interactiveResize : Option (InteractiveResize I) := none
  viewSize : Size := {}
  parentArea : Rect := {}
  gapsToEdge : Bool := false
  residentRoot : Bool := false
  scale : ℚ := 1
  titlebarHeight : ℚ := 0
  options : Options := {}
  gaps : ℚ := 0
  preservedAutoLayout : Option Layout := none

/-- The layout a new or emptied workspace root takes. -/
def defaultLayout (orientation : DefaultOrientation) (viewSize : Size) : Layout :=
  match orientation with
  | .horizontal => .splitH
  | .vertical => .splitV
  | .auto => if viewSize.h > viewSize.w then .splitV else .splitH

namespace TilingTree

variable (t : TilingTree I)

/-- What `TilingTree::new` is given besides the counter. -/
structure Config where
  viewSize : Size := {}
  parentArea : Rect := {}
  gapsToEdge : Bool := false
  scale : ℚ := 1
  /-- `titlebar::height` at this scale. -/
  titlebarHeight : ℚ := 0
  options : Options := {}

/-- A tree with an empty root, whose identifier is taken from the counter. -/
def new (counter : NodeId) (c : Config) : TilingTree I where
  nodes := AList.singleton counter
    { parent := none
      value := .split { layout := defaultLayout c.options.defaultOrientation c.viewSize } }
  root := counter
  counter := counter + 1
  viewSize := c.viewSize
  parentArea := c.parentArea
  gapsToEdge := c.gapsToEdge
  scale := c.scale
  titlebarHeight := c.titlebarHeight
  options := c.options
  gaps := c.options.gaps

/-- Take a node out of the arena and forget it in every side table. -/
def removeNode (id : NodeId) : TilingTree I :=
  if t.contains id then
    { t with
      nodes := t.nodes.erase id
      focusHistory := t.focusHistory.filter (· != id)
      ipcStaleNodes := t.ipcStaleNodes.erase id
      -- the values name nodes too: the leaf whose focus raised a container
      lastEnteredBy := FinMap.retain (t.lastEnteredBy.erase id) fun _ leaf => leaf != id
      pendingModes := t.pendingModes.erase id
      mappedUnderFullscreen := t.mappedUnderFullscreen.erase id
      movedUnderFullscreen := t.movedUnderFullscreen.erase id
      fullscreenLayoutWrappers := t.fullscreenLayoutWrappers.erase id
      preLayoutIpcRects := t.preLayoutIpcRects.erase id }
  else
    t

def isEmpty : Bool := t.focus.isNone

/-- The one child of the root of a floating group's tree. -/
def residentRootNode : Option NodeId :=
  if t.residentRoot then
    match t.children t.root with
    | [only] => some only
    | _ => none
  else
    none

def rootLayout : Layout := (t.layoutOf t.root).getD .splitH

def representationLayout : Layout :=
  if t.isEmpty then t.emptyRepresentationLayout.getD t.rootLayout else t.rootLayout

/-! ## Pending modes -/

def fullscreenNode : Option NodeId :=
  (t.pendingModes.entries.find? fun e => e.2.fullscreen.isSome).map (·.1)

def fullscreenMode (id : NodeId) : Option FullscreenMode :=
  (t.pendingModes.lookup id).bind (·.fullscreen)

/-- Set `id`'s pending fullscreen mode, creating its entry only when there is a mode to record. -/
def setPendingFullscreen (id : NodeId) (fullscreen : Option FullscreenMode) : TilingTree I :=
  match t.pendingModes.lookup id with
  | some mode =>
    { t with pendingModes := t.pendingModes.insert id { mode with fullscreen := fullscreen } }
  | none =>
    if fullscreen.isSome then
      { t with pendingModes := t.pendingModes.insert id { fullscreen := fullscreen } }
    else
      t

end TilingTree

end Swayward
