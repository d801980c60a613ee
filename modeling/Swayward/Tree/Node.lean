/-
  File:      Swayward/Tree/Node.lean
  Subject:   THE DATA OF THE TILING TREE: layouts, tiles, arena nodes, detached subtrees.

  A tiling tree keeps its nodes in an arena keyed by `NodeId`. A node is a split (a container with
  a layout, its children and one share per child) or a leaf (a tile, which holds one window).
  Windows are known by their identifier only, whose type `I` stays abstract. Shares, sizes and
  coordinates are exact rationals.

  Left out: what only rendering and animation read (titlebars, tab indicators' contents, closing
  windows, clocks).
-/
import Mathlib.Data.Rat.Defs
import Swayward.Library.FinMap

namespace Swayward

/-- The identifier of an arena node, handed out by the global counter. -/
abbrev NodeId := Nat

/-! ## 1. Enumerations -/

inductive Layout
  | splitH | splitV | tabbed | stacked
  deriving DecidableEq, Repr

inductive Direction
  | left | right | up | down
  deriving DecidableEq, Repr

namespace Direction

/-- The split layout whose children are ordered along this direction. -/
def axis : Direction → Layout
  | .left | .right => .splitH
  | .up | .down => .splitV

/-- Whether this direction points toward lower child indices. -/
def isBackwards : Direction → Bool
  | .left | .up => true
  | .right | .down => false

end Direction

namespace Layout

/-- `SplitH` or `SplitV`, as opposed to a layout that shows one child at a time. -/
def isSplit : Layout → Bool
  | .splitH | .splitV => true
  | .tabbed | .stacked => false

/-- Tabbed lays out like SplitH and stacked like SplitV (`layouts_parallel`). -/
def parallel : Layout → Layout → Bool
  | .splitH, .splitH | .splitH, .tabbed | .tabbed, .splitH | .tabbed, .tabbed => true
  | .splitV, .splitV | .splitV, .stacked | .stacked, .splitV | .stacked, .stacked => true
  | _, _ => false

end Layout

inductive InsertTarget
  | focused
  | node (id : NodeId)
  | moveDestination
  deriving DecidableEq, Repr

inductive FullscreenMode
  | workspace | global
  deriving DecidableEq, Repr

structure PendingMode where
  fullscreen : Option FullscreenMode := none
  maximized : Bool := false
  deriving DecidableEq, Repr

/-- The sizing mode a window was last asked for. -/
inductive SizingMode
  | normal | maximized | fullscreen
  deriving DecidableEq, Repr

inductive FocusWrapping
  | yes | no | force | workspace
  deriving DecidableEq, Repr

inductive WorkspaceLayout
  | default | stacking | tabbed
  deriving DecidableEq, Repr

inductive DefaultOrientation
  | horizontal | vertical | auto
  deriving DecidableEq, Repr

/-- The bit flags of a resize edge. -/
structure ResizeEdge where
  top : Bool := false
  bottom : Bool := false
  left : Bool := false
  right : Bool := false
  deriving DecidableEq, Repr

inductive SizeChange
  | setFixed (value : Int)
  | setProportion (value : ℚ)
  | adjustFixed (value : Int)
  | adjustProportion (value : ℚ)
  deriving DecidableEq

inductive PresetSize
  | fixed (value : Int)
  | proportion (value : ℚ)
  deriving DecidableEq

/-- The layout named in a `layout toggle` command. -/
inductive CommandLayout
  | splitH | splitV | tabbed | stacked | toggleSplit
  deriving DecidableEq, Repr

inductive LayoutToggleEntry
  | split
  | layout (layout : CommandLayout)
  deriving DecidableEq, Repr

inductive LayoutToggle
  | default | split | all
  | cycle (entries : List LayoutToggleEntry)
  deriving DecidableEq, Repr

/-! ## 2. Rectangles -/

structure Point where
  x : ℚ := 0
  y : ℚ := 0
  deriving DecidableEq

structure Size where
  w : ℚ := 0
  h : ℚ := 0
  deriving DecidableEq

structure Rect where
  loc : Point := {}
  size : Size := {}
  deriving DecidableEq

structure Struts where
  left : ℚ := 0
  right : ℚ := 0
  top : ℚ := 0
  bottom : ℚ := 0
  deriving DecidableEq

/-! ## 3. Tiles and nodes -/

/-- A tile and the window it holds, as far as the layout reads them. -/
structure Tile (I : Type) where
  window : I
  pendingSizingMode : SizingMode := .normal
  focusTimestamp : Option Nat := none
  /-- the window this one is a dialog of -/
  parent : Option I := none
  isSticky : Bool := false
  /-- whether the window floats again when it leaves fullscreen -/
  restoreToFloating : Bool := false
  /-- the place in the focus history, and the split, it had when it was last tiled -/
  tilingFocusRank : Option Nat := none
  tilingParent : Option NodeId := none
  deriving DecidableEq

/-- Per-container state that belongs to a split and travels with it. -/
structure SplitMeta where
  previousLayout : Option Layout := none
  titleFormat : Option String := none
  sticky : Bool := false
  deriving DecidableEq, Repr

/-- The fields of `TreeNode::Split`: `percents` holds one share per child, in child order. -/
structure Split where
  layout : Layout
  children : List NodeId := []
  percents : List ℚ := []
  info : SplitMeta := {}
  deriving DecidableEq

inductive TreeNode (I : Type)
  | split (s : Split)
  | leaf (tile : Tile I)
  deriving DecidableEq

structure Node (I : Type) where
  parent : Option NodeId
  value : TreeNode I
  deriving DecidableEq

/-! ## 4. Detached subtrees -/

/-- A subtree taken out of its arena. -/
inductive DetachedNode (I : Type)
  | split (oldId : NodeId) (layout : Layout) (children : List (DetachedNode I))
      (percents : List ℚ) (info : SplitMeta) (pendingMode : Option PendingMode)
  | leaf (oldId : NodeId) (tile : Tile I) (pendingMode : Option PendingMode)
      (mappedUnderFullscreen : Bool)

structure DetachedSubtree (I : Type) where
  node : DetachedNode I
  focusHistory : List I
  rootFocused : Bool
  wrappedWorkspace : Bool

/-- The place a node leaves behind when it is swapped with a node of another tree. -/
structure DetachedSlot where
  parent : NodeId
  index : Nat
  percent : ℚ
  focusRank : Nat
  focused : Bool
  deriving DecidableEq

/-! ## 5. Interactive resizing -/

/-- One sibling boundary of a running interactive resize. -/
structure ResizeAxis where
  horizontal : Bool
  first : NodeId
  second : NodeId
  initialFirst : ℚ
  initialSecond : ℚ
  axisSize : ℚ
  sign : ℚ
  deriving DecidableEq

structure InteractiveResize (I : Type) where
  window : I
  target : NodeId
  axes : List ResizeAxis
  edges : ResizeEdge
  deriving DecidableEq

/-! ## 6. Options -/

/-- The part of the layout configuration the tree reads. -/
structure Options where
  focusWrapping : FocusWrapping := .yes
  workspaceLayout : WorkspaceLayout := .default
  defaultOrientation : DefaultOrientation := .auto
  struts : Struts := {}
  gaps : ℚ := 0
  outerGapsConfigured : Bool := false
  presetColumnWidths : List PresetSize := []
  presetWindowHeights : List PresetSize := []
  deriving DecidableEq

end Swayward
