/-
  File:      Swayward/Tree/Configure.lean
  Subject:   GEOMETRY AND SIZES: which leaves are visible, the boxes of all nodes, size requests.

  `computeGeometry` assigns every node its box: a linear split divides its box by the shares of its
  children, a tabbed or stacked split gives every child the box below its strip. A fullscreen node
  is laid out a second time over the whole view. Decorations (borders, titlebars, corners) are left
  out: no modelled function reads them.
-/
import Mathlib.Data.Finset.Dedup
import Mathlib.Data.Finset.Option
import Mathlib.Data.Rat.Floor
import Swayward.Tree.Focus

namespace Swayward

variable {I : Type}

/-! ## 1. Boxes -/

def minSaneW : ℚ := 100
def minSaneH : ℚ := 60

/-- The inner gap between a split's children, shrunk so that every child keeps
    `minimumChildExtent`. -/
def splitGap (requested extent : ℚ) (children : Nat) (minimumChildExtent : ℚ) : ℚ :=
  let separators := children - 1
  if separators = 0 then
    0
  else
    let total := min (requested * separators) (max (extent - minimumChildExtent * children) 0)
    ⌊total / separators⌋

/-- Each child's share of a linear split: excluded children get none, the others are renormalized
    over the included ones. -/
def visibleShares (excluded : Finset NodeId) (children : List NodeId) (percents : List ℚ) :
    List ℚ :=
  if excluded = ∅ then
    percents
  else
    let visibleTotal :=
      (((children.zip percents).filter fun e => decide (e.1 ∉ excluded)).map (·.2)).sum
    List.zipWith (fun child percent => if child ∈ excluded then 0 else percent / visibleTotal)
      children percents

/-- The boxes of a linear split's children, from `cursor` on. -/
def linearBoxes (horizontal : Bool) (rect : Rect) (gap available : ℚ) : ℚ → List ℚ → List Rect
  | _, [] => []
  | cursor, percent :: percents =>
    let extent := max available 0 * percent
    let box : Rect :=
      if horizontal then
        { loc := { x := cursor, y := rect.loc.y }, size := { w := extent, h := rect.size.h } }
      else
        { loc := { x := rect.loc.x, y := cursor }, size := { w := rect.size.w, h := extent } }
    box :: linearBoxes horizontal rect gap available (cursor + extent + gap) percents

def applyStruts (parentArea : Rect) (scale : ℚ) (struts : Struts) : Rect :=
  let w := max (parentArea.size.w - struts.left - struts.right) 0
  let h := max (parentArea.size.h - struts.top - struts.bottom) 0
  let x := parentArea.loc.x + struts.left
  let y := parentArea.loc.y + struts.top
  -- the location is rounded up to whole physical pixels, the size shrinks by what that adds
  let x' := (⌈x * scale⌉ : ℚ) / scale
  let y' := (⌈y * scale⌉ : ℚ) / scale
  { loc := { x := x', y := y' }
    size :=
      { w := max (w - min w (max (x' - x) 0)) 0
        h := max (h - min h (max (y' - y) 0)) 0 } }

/-- What one geometry pass reads besides the nodes. -/
structure AssignContext where
  gaps : ℚ
  titlebarHeight : ℚ
  excluded : Finset NodeId

/-- The boxes of `id` and everything below it, in the order they are assigned. -/
def Arena.assign (a : Arena I) (c : AssignContext) : Nat → NodeId → Rect → Bool →
    List (NodeId × Rect)
  | 0, _, _, _ => []
  | fuel + 1, id, rect, suppressGaps =>
    match a.get id with
    | none => []
    | some { value := .leaf _, .. } => [(id, rect)]
    | some { value := .split s, .. } =>
      (id, rect) ::
        if s.layout.isSplit then
          let horizontal := s.layout == .splitH
          let extent := if horizontal then rect.size.w else rect.size.h
          let gap :=
            if suppressGaps then 0
            else splitGap c.gaps extent s.children.length
              (if horizontal then minSaneW else minSaneH)
          let available := extent - gap * (s.children.length - 1 : Nat)
          let cursor := if horizontal then rect.loc.x else rect.loc.y
          let shares := visibleShares c.excluded s.children s.percents
          (s.children.zip (linearBoxes horizontal rect gap available cursor shares)).flatMap
            fun e => a.assign c fuel e.1 e.2 suppressGaps
        else
          let strip :=
            if s.layout = .stacked then c.titlebarHeight * s.children.length
            else c.titlebarHeight
          let content : Rect :=
            { loc := { rect.loc with y := rect.loc.y + strip }
              size := { rect.size with h := max (rect.size.h - strip) 0 } }
          s.children.flatMap fun child => a.assign c fuel child content true

structure Geometry where
  leafBoxes : FinMap NodeId Rect
  ipcNodes : FinMap NodeId Rect
  tiledIpcNodes : FinMap NodeId Rect

/-- Record assigned boxes, later ones over earlier ones. -/
def recordBoxes (boxes : List (NodeId × Rect)) (table : FinMap NodeId Rect) : FinMap NodeId Rect :=
  boxes.foldl (fun table e => table.insert e.1 e.2) table

/-- Add all of `rects` to `table`. -/
def extendRects (table rects : FinMap NodeId Rect) : FinMap NodeId Rect :=
  rects.entries.foldl (fun (table : FinMap NodeId Rect) e => table.insert e.1 e.2) table

namespace TilingTree

variable (t : TilingTree I)

/-! ## 2. Visible leaves -/

def collectVisible (t : TilingTree I) : Nat → NodeId → List NodeId
  | 0, _ => []
  | fuel + 1, id =>
    match t.get id with
    | none => []
    | some { value := .leaf _, .. } => [id]
    | some { value := .split s, .. } =>
      if s.layout.isSplit then
        s.children.flatMap (t.collectVisible fuel)
      else
        match t.shownChildIn id with
        | some child => t.collectVisible fuel child
        | none => []

def visibleLeaves : List NodeId :=
  match t.fullscreenNode with
  | some fullscreen => t.collectVisible t.size fullscreen
  | none => t.collectVisible t.size t.root

/-! ## 3. The geometry of the tree -/

/-- Nodes left out of their parent's split. -/
def splitExcluded : Finset NodeId :=
  let arrived := if t.fullscreenArrived then t.fullscreenNode.toFinset else ∅
  t.mappedUnderFullscreen ∪ arrived ∪ t.movedUnderFullscreen.keys.toFinset

/-- The tiled area: the parent area less struts, inset by the gap unless outer gaps were
    configured. -/
def workspaceArea (gaps : ℚ) : Rect :=
  let area := applyStruts t.parentArea t.scale (if t.residentRoot then {} else t.options.struts)
  if t.options.outerGapsConfigured || t.residentRoot then
    area
  else
    { loc := { x := area.loc.x + gaps, y := area.loc.y + gaps }
      size := { w := max (area.size.w - gaps * 2) 0, h := max (area.size.h - gaps * 2) 0 } }

/-- The boxes of the tiled pass and of the fullscreen pass. -/
def assignedBoxes : List (NodeId × Rect) × List (NodeId × Rect) :=
  let gaps := max t.gaps 0
  let context : AssignContext :=
    { gaps := gaps, titlebarHeight := t.titlebarHeight, excluded := t.splitExcluded }
  let tiled := t.assign context t.size t.root (t.workspaceArea gaps) false
  let covering :=
    match t.fullscreenNode with
    | some fullscreen => t.assign context t.size fullscreen { size := t.viewSize } false
    | none => []
  (tiled, covering)

def computeGeometry : Geometry :=
  let (tiled, covering) := t.assignedBoxes
  let tiledNodes := recordBoxes tiled ∅
  let isLeaf := fun e : NodeId × Rect => (t.tile e.1).isSome
  { leafBoxes := recordBoxes ((tiled ++ covering).filter isLeaf) ∅
    ipcNodes := recordBoxes covering tiledNodes
    tiledIpcNodes := tiledNodes }

/-! ## 4. Size requests -/

/-- The sizing mode a leaf's pending mode asks its window for. -/
def requestedSizing (id : NodeId) : SizingMode :=
  let mode := (t.pendingModes.lookup id).getD {}
  if mode.fullscreen.isSome then .fullscreen
  else if mode.maximized then .maximized
  else .normal

/-- Ask the window of every leaf that has a box for its size. -/
def requestWindowSizes : TilingTree I :=
  let geometry := t.computeGeometry
  { t with
    nodes := FinMap.mapVals t.nodes fun id node =>
      match node.value with
      | .split _ => node
      | .leaf tile =>
        if (geometry.leafBoxes.lookup id).isSome then
          { node with value := .leaf { tile with pendingSizingMode := t.requestedSizing id } }
        else
          node }

/-! ## 5. Interactive resizes and marks -/

def siblingPercents (first second : NodeId) : Option (ℚ × ℚ) :=
  match t.parentOf first with
  | none => none
  | some parent =>
    if t.parentOf second = some parent then
      match t.splitAt parent with
      | none => none
      | some s =>
        match (s.children.idxOf? first).bind (s.percents[·]?),
            (s.children.idxOf? second).bind (s.percents[·]?) with
        | some x, some y => some (x, y)
        | _, _ => none
    else
      none

/-- Close a resize session that involves `id`. -/
def cancelResizeFor (id : NodeId) : TilingTree I :=
  match t.interactiveResize with
  | some resize =>
    if resize.target = id || resize.axes.any (fun axis => axis.first == id || axis.second == id)
    then { t with interactiveResize := none }
    else t
  | none => t

/-- Record that `window` was moved into this tree while it was fullscreen. -/
def markMovedUnderFullscreen [DecidableEq I] (t : TilingTree I) (window : I) (sourceRect : Rect) :
    TilingTree I :=
  match t.fullscreenNode with
  | none => t
  | some fullscreen =>
    match (t.nodeForWindow window).filter fun id =>
        id != fullscreen && !t.containsNode fullscreen id with
    | none => t
    | some id =>
      let t := { t with
        mappedUnderFullscreen := t.mappedUnderFullscreen.erase id
        movedUnderFullscreen := t.movedUnderFullscreen.insert id sourceRect }
      let t := t.rankInHistory id 0
      -- the fullscreen view is raised back above the moved one
      match t.focusedLeafIn fullscreen with
      | some leaf => { t.rankInHistory leaf 0 with ipcFocusFollowsHistory := true }
      | none => t

end TilingTree

end Swayward
