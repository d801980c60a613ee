/-
  File:      Swayward/Tree/Resize.lean
  Subject:   RESIZING: shares traded between siblings, by command or by a resize session.

  The functions of `resize.rs`. A resize session (`InteractiveResize`) remembers, for each resized
  axis, two neighbouring siblings and the shares they had when the session began.
-/
import Swayward.Tree.Movement

namespace Swayward

variable {I : Type}

/-- Rounding toward zero, as `f64::trunc`. -/
def truncate (x : ℚ) : Int := if 0 ≤ x then ⌊x⌋ else ⌈x⌉

namespace ResizeEdge

def leftRight (e : ResizeEdge) : Bool := e.left || e.right

def topBottom (e : ResizeEdge) : Bool := e.top || e.bottom

end ResizeEdge

/-- Move `delta` from the share at `second` to the share at `first`. -/
def Split.transfer (s : Split) (first second : Nat) (x y delta : ℚ) : Split :=
  { s with percents := (s.percents.set first (x + delta)).set second (y - delta) }

namespace TilingTree

variable (t : TilingTree I)

/-! ## 1. Two neighbours -/

/-- The split two nodes share, their positions in it and their shares, if they are neighbours. -/
def neighbourShares (first second : NodeId) : Option (NodeId × Nat × Nat × ℚ × ℚ) :=
  match t.parentOf first with
  | none => none
  | some parent =>
    if t.parentOf second = some parent then
      match t.splitAt parent with
      | none => none
      | some s =>
        match s.children.idxOf? first, s.children.idxOf? second with
        | some i, some j =>
          if i + 1 = j ∨ j + 1 = i then
            match s.percents[i]?, s.percents[j]? with
            | some x, some y => some (parent, i, j, x, y)
            | _, _ => none
          else
            none
        | _, _ => none
    else
      none

def resizeAdjacentInner (first second : NodeId) (delta : ℚ) : TilingTree I × Bool :=
  match t.neighbourShares first second with
  | none => (t, false)
  | some (parent, i, j, x, y) =>
    if x + delta ≤ 0 ∨ y - delta ≤ 0 then
      (t, false)
    else
      let t := { t with toArena := t.modifySplit parent (Split.transfer · i j x y delta) }
      (t.requestWindowSizes, true)

def resizeAdjacent (first second : NodeId) (delta : ℚ) : TilingTree I × Bool :=
  match t.resizeAdjacentInner first second delta with
  | (t, true) => ({ t with interactiveResize := none }, true)
  | (t, false) => (t, false)

/-! ## 2. All siblings -/

/-- Give `delta` to the share at `target`, taken evenly from the others; refused if a share would
    not stay positive. -/
def acrossSiblings (percents : List ℚ) (siblings target : Nat) (delta : ℚ) : Option (List ℚ) :=
  match percents[target]? with
  | none => none
  | some x =>
    let compensation := delta / (siblings : ℚ)
    if x + delta ≤ 0 ∨ (percents.eraseIdx target).any fun y => y - compensation ≤ 0 then
      none
    else
      some ((percents.map (· - compensation)).set target (x + delta))

def resizeAcrossSiblings (parent target : NodeId) (delta : ℚ) : TilingTree I × Bool :=
  match t.splitAt parent with
  | none => (t, false)
  | some s =>
    match s.children.idxOf? target with
    | none => (t, false)
    | some index =>
      if s.children.length ≤ 1 then
        (t, false)
      else
        match acrossSiblings s.percents (s.children.length - 1) index delta with
        | none => (t, false)
        | some percents =>
          let t := { t with
            interactiveResize := none
            toArena := t.modifySplit parent fun s => { s with percents := percents } }
          (t.requestWindowSizes, true)

/-- The nearest split above `branch` with layout `wanted` and more than one child, and the child of
    it that the walk came from. -/
def nearestAlong (t : TilingTree I) (wanted : Layout) : Nat → NodeId → Option (NodeId × NodeId)
  | 0, _ => none
  | fuel + 1, branch =>
    match t.parentOf branch with
    | none => none
    | some parent =>
      match t.splitAt parent with
      | none => none
      | some s =>
        if s.layout = wanted ∧ s.children.length > 1 then some (parent, branch)
        else t.nearestAlong wanted fuel parent

def axisLayout (width : Bool) : Layout := if width then .splitH else .splitV

def extentOf (width : Bool) (rect : Rect) : ℚ := if width then rect.size.w else rect.size.h

/-- The change of share that a change of size asks for. -/
def shareDelta (change : SizeChange) (parentExtent current available : ℚ) : ℚ :=
  match change with
  | .adjustFixed value => value / available
  | .adjustProportion value => parentExtent * value / 100 / available
  | .setFixed value => (value - current) / available
  | .setProportion value => (truncate (parentExtent * value / 100) - current) / available

def resizeNodeDimension (id : NodeId) (width : Bool) (change : SizeChange) : TilingTree I × Bool :=
  match t.nearestAlong (axisLayout width) t.size id with
  | none => (t, false)
  | some (parent, branch) =>
    let boxes := t.computeGeometry.ipcNodes
    match boxes.lookup parent, boxes.lookup branch with
    | some parentBox, some box =>
      let available := max 1
        (((t.children parent).filterMap fun c => (boxes.lookup c).map (extentOf width)).sum)
      let delta := shareDelta change (extentOf width parentBox) (extentOf width box) available
      let (t, changed) := t.resizeAcrossSiblings parent branch delta
      (t, changed && branch == id)
    | _, _ => (t, false)

/-! ## 3. The boundary toward a neighbour -/

/-- Two neighbouring siblings, their shares, the extent they divide and the drag direction. -/
structure Boundary where
  first : NodeId
  second : NodeId
  firstShare : ℚ
  secondShare : ℚ
  axisSize : ℚ
  sign : ℚ

/-- The boundary of `s` on the given side of its entry at `index`. -/
def boundaryAt (boxes : FinMap NodeId Rect) (parent : NodeId) (s : Split)
    (index : Nat) (branch : NodeId) (layout : Layout) (towardBefore : Bool) :
    Option (Option Boundary) :=
  match neighbour s.children index towardBefore with
  | none => some none
  | some second =>
    match boxes.lookup parent, s.percents[index]?,
        (s.children.idxOf? second).bind (s.percents[·]?) with
    | some box, some x, some y =>
      some (some
        { first := branch
          second := second
          firstShare := x
          secondShare := y
          axisSize := extentOf (layout == .splitH) box -
            t.gaps * ((s.children.length - 1 : Nat) : ℚ)
          sign := if towardBefore then -1 else 1 })
    | _, _, _ => none

def resizeBoundary (t : TilingTree I) (boxes : FinMap NodeId Rect) (layout : Layout)
    (towardBefore : Bool) : Nat → NodeId → Option Boundary
  | 0, _ => none
  | fuel + 1, branch =>
    match t.parentOf branch with
    | none => none
    | some parent =>
      match t.splitAt parent with
      | none => none
      | some s =>
        -- tabs and stacks share one box, so their siblings are not neighbours
        if s.layout = layout then
          match s.children.idxOf? branch with
          | none => none
          | some index =>
            match t.boundaryAt boxes parent s index branch layout towardBefore with
            | none => none
            | some (some boundary) => some boundary
            | some none => t.resizeBoundary boxes layout towardBefore fuel parent
        else
          t.resizeBoundary boxes layout towardBefore fuel parent

def resizeNodeEdgeCommand (id : NodeId) (edge : ResizeEdge)
    (change : SizeChange) : TilingTree I × Bool :=
  let horizontal := edge.leftRight
  let boxes := t.computeGeometry.ipcNodes
  match t.resizeBoundary boxes (axisLayout horizontal) (edge.left || edge.top) t.size id with
  | none => (t, false)
  | some b =>
    let delta :=
      match change with
      | .adjustFixed value => some ((value : ℚ) / max b.axisSize 1)
      | .adjustProportion value =>
        let parentExtent :=
          match (t.parentOf b.first).bind (boxes.lookup ·) with
          | some box => extentOf horizontal box
          | none => b.axisSize
        some (parentExtent * value / 100 / max b.axisSize 1)
      | .setFixed _ | .setProportion _ => none
    match delta with
    | none => (t, false)
    | some delta =>
      let (t, changed) := t.resizeAdjacent b.first b.second delta
      (t, changed && b.first == id)

def setNodeSizeSway (id : NodeId) (width height : Option SizeChange) : TilingTree I :=
  let t :=
    match width with
    | some change => (t.resizeNodeDimension id true change).1
    | none => t
  match height with
  | some change => (t.resizeNodeDimension id false change).1
  | none => t

def toggleFullWidth : TilingTree I :=
  match t.focus with
  | none => t
  | some id =>
    match t.computeGeometry.leafBoxes.lookup id with
    | none => t
    | some box =>
      (t.resizeNodeDimension id true (.adjustFixed (truncate (t.viewSize.w - box.size.w)))).1

/-! ## 4. Commands on a window -/

variable [DecidableEq I] (t : TilingTree I)

def resolveNode (window : Option I) : Option NodeId :=
  (window.bind t.nodeForWindow).or t.focus

def setWindowDimension (window : Option I) (width : Bool)
    (change : SizeChange) : TilingTree I × Bool :=
  match t.resolveNode window with
  | some id => t.resizeNodeDimension id width change
  | none => (t, false)

def setWindowWidth (window : Option I) (change : SizeChange) : TilingTree I × Bool :=
  t.setWindowDimension window true change

def setWindowHeight (window : Option I) (change : SizeChange) : TilingTree I × Bool :=
  t.setWindowDimension window false change

def resizeWindowEdge (window : Option I) (edge : ResizeEdge)
    (change : SizeChange) : TilingTree I × Bool :=
  match t.resolveNode window with
  | some id => t.resizeNodeEdgeCommand id edge change
  | none => (t, false)

def resetWindowHeight (window : Option I) : TilingTree I :=
  match (t.resolveNode window).bind t.parentOf with
  | none => t
  | some parent =>
    if t.layoutOf parent = some .splitV then
      let t := { t with
        interactiveResize := none
        toArena := t.modifySplit parent fun s =>
          { s with percents := s.percents.map fun _ => 1 / (s.children.length : ℚ) } }
      t.requestWindowSizes
    else
      t

/-- The extents of `id`'s branch in the nearest split along the axis, and of that split. -/
def presetExtents (id : NodeId) (width : Bool) : Option (ℚ × ℚ) :=
  (t.nearestAlong (axisLayout width) t.size id).bind fun (parent, branch) =>
    let boxes := t.computeGeometry.ipcNodes
    match boxes.lookup branch, boxes.lookup parent with
    | some current, some available => some (extentOf width current, extentOf width available)
    | _, _ => none

/-- The preset that follows (or precedes) the current extent. -/
def nextPreset (presets : List PresetSize) (current available : ℚ) (forwards : Bool) :
    Option PresetSize :=
  let resolved : PresetSize → ℚ
    | .fixed value => value
    | .proportion value => truncate (available * value)
  let index :=
    if forwards then
      (presets.findIdx? fun preset => current + 1 < resolved preset).getD 0
    else
      match presets.reverse.findIdx? fun preset => resolved preset + 1 < current with
      | some index => presets.length - 1 - index
      | none => presets.length - 1
  presets[index]?

def togglePreset (window : Option I) (width forwards : Bool) : TilingTree I :=
  let presets := if width then t.options.presetColumnWidths else t.options.presetWindowHeights
  match (t.resolveNode window).bind (t.presetExtents · width) with
  | none => t
  | some (current, available) =>
    match nextPreset presets current available forwards with
    | none => t
    | some (.fixed value) => (t.setWindowDimension window width (.setFixed value)).1
    | some (.proportion value) =>
      (t.setWindowDimension window width (.setProportion (value * 100))).1

def toggleWindowWidth (window : Option I) (forwards : Bool) : TilingTree I :=
  t.togglePreset window true forwards

def toggleWindowHeight (window : Option I) (forwards : Bool) : TilingTree I :=
  t.togglePreset window false forwards

/-! ## 5. Resize sessions -/

/-- The resize axis for one direction, if `id` has a boundary there. -/
def resizeAxis (boxes : FinMap NodeId Rect) (id : NodeId)
    (horizontal towardBefore : Bool) : Option ResizeAxis :=
  (t.resizeBoundary boxes (axisLayout horizontal) towardBefore t.size id).map fun b =>
    { horizontal := horizontal
      first := b.first
      second := b.second
      initialFirst := b.firstShare
      initialSecond := b.secondShare
      axisSize := b.axisSize
      sign := b.sign }

def interactiveResizeBegin (window : I) (edges : ResizeEdge) : TilingTree I × Bool :=
  if t.interactiveResize.isSome then
    (t, false)
  else
    match t.nodeForWindow window with
    | none => (t, false)
    | some id =>
      let mode := (t.pendingModes.lookup id).getD {}
      if mode.fullscreen.isSome || mode.maximized then
        (t, false)
      else
        let boxes := t.computeGeometry.ipcNodes
        let horizontal := if edges.leftRight then (t.resizeAxis boxes id true edges.left) else none
        let vertical := if edges.topBottom then (t.resizeAxis boxes id false edges.top) else none
        let axes := horizontal.toList ++ vertical.toList
        if axes.isEmpty then
          (t, false)
        else
          ({ t with
            interactiveResize := some { window := window, target := id, axes := axes, edges := edges } },
            true)

/-- Bring one axis of the session to `initial + amount`. -/
def updateAxis (axis : ResizeAxis) (delta : Point) : TilingTree I × Bool :=
  let moved := if axis.horizontal then delta.x else delta.y
  let amount := moved * axis.sign / max axis.axisSize 1
  match t.siblingPercents axis.first axis.second with
  | none => (t, false)
  | some (currentFirst, _) =>
    let targetFirst := axis.initialFirst + amount
    let targetSecond := axis.initialSecond - amount
    if targetFirst ≤ 0 ∨ targetSecond ≤ 0 then
      (t, false)
    else
      t.resizeAdjacentInner axis.first axis.second (targetFirst - currentFirst)

def interactiveResizeUpdate (window : I) (delta : Point) : TilingTree I × Bool :=
  match t.interactiveResize with
  | none => (t, false)
  | some resize =>
    if resize.window = window then
      resize.axes.foldl (fun (t, changed) axis =>
        let (t, moved) := t.updateAxis axis delta
        (t, changed || moved)) (t, false)
    else
      (t, false)

def interactiveResizeEnd (window : Option I) : TilingTree I :=
  let closes :=
    match window with
    | none => true
    | some window =>
      match t.interactiveResize with
      | some resize => decide (resize.window = window)
      | none => false
  if closes then { t with interactiveResize := none } else t

end TilingTree

end Swayward
