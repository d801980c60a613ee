/-
  File:      Swayward/Tree/TreeLayout.lean
  Subject:   SPLITTING, WRAPPING AND LAYOUT COMMANDS (`tree_layout.rs`).
-/
import Swayward.Tree.Fullscreen

namespace Swayward

variable {I : Type}

namespace TilingTree

variable (t : TilingTree I)

/-- Give a split a layout. -/
def setSplitLayout (id : NodeId) (layout : Layout) : TilingTree I :=
  { t with toArena := t.modifySplit id fun s => { s with layout := layout } }

/-! ## 1. Wrapping -/

/-- The arena in which a new split holding only `id` takes the place of `id`. -/
def wrapArena (a : Arena I) (id parent : NodeId) (index : Nat) (layout : Layout) :
    Arena I × NodeId :=
  let (a, wrapper) := a.alloc
    { parent := some parent, value := .split { layout, children := [id], percents := [1] } }
  let a := a.modifySplit parent fun s => { s with children := s.children.set index wrapper }
  (a.setParent id (some wrapper), wrapper)

/-- Wrap `id` in a new container, or return `id` when that would exceed the depth bound. A
    fullscreen mode moves up to the wrapper. -/
def wrapNode (id : NodeId) (layout : Layout) : TilingTree I × NodeId :=
  if !t.canWrap id || !t.contains id then
    (t, id)
  else
    let parent := (t.parentOf id).getD t.root
    match t.childIndex parent id with
    | none => (t, id)
    | some index =>
      let (a, wrapper) := wrapArena t.toArena id parent index layout
      let t := { t with toArena := a }
      let t := t.raiseSplitWrapper id wrapper
      match t.fullscreenMode id with
      | some fullscreen =>
        let t := { t with
          pendingModes := FinMap.modify t.pendingModes id fun mode =>
            { mode with fullscreen := none } }
        (t.setPendingFullscreen wrapper (some fullscreen), wrapper)
      | none => (t, wrapper)

/-- The arena in which a new split holds all children of the root. -/
def wrapRootArena (a : Arena I) (s : Split) (layout : Layout) : Arena I × NodeId :=
  let (a, wrapper) := a.alloc
    { parent := some a.root
      value := .split
        { layout, children := s.children, percents := s.percents
          info := { previousLayout := if s.layout.isSplit then some s.layout else none } } }
  let a := adopt a s.children wrapper
  (a.modifySplit a.root fun s => { s with children := [wrapper], percents := [1] }, wrapper)

/-- Move the root's children into a new container, or return the root when that would exceed the
    depth bound. -/
def wrapRootChildren (layout : Layout) : TilingTree I × NodeId :=
  if !t.canWrapRootChildren then
    (t, t.root)
  else
    match t.splitAt t.root with
    | none => (t, t.root)
    | some s =>
      let (a, wrapper) := wrapRootArena t.toArena s layout
      ({ t with toArena := a, ipcStaleNodes := insert wrapper t.ipcStaleNodes }, wrapper)

def wrapWorkspaceChildren : TilingTree I :=
  if (t.children t.root).isEmpty then t
  else (t.wrapRootChildren t.representationLayout).1.requestWindowSizes

/-! ## 2. Splitting -/

/-- Whether `id` is the only child of a SplitH or SplitV. -/
def singletonSplitParent (id : NodeId) : Option NodeId :=
  (t.parentOf id).filter fun parent =>
    match t.splitAt parent with
    | some s => s.layout.isSplit && s.children.length == 1
    | none => false

def splitLeaf (id : NodeId) (layout : Layout) : TilingTree I :=
  match t.singletonSplitParent id with
  | some parent => t.setSplitLayout parent layout
  | none => (t.wrapNode id layout).1

def splitContainer (id : NodeId) (layout : Layout) : TilingTree I :=
  if !t.contains id then
    t
  else
    let parent := (t.parentOf id).getD t.root
    let siblings := (t.splitLen parent).getD 0
    if id = t.root then t.setSplitLayout id layout
    else if siblings ≤ 1 ∧ parent ≠ t.root then (t.wrapNode id layout).1
    else if siblings ≤ 1 then t.setSplitLayout parent layout
    else (t.wrapNode id layout).1

/-- The branch of `split` for a root with children: they move into a wrapper that takes over the
    root's layout. -/
def splitRoot (layout : Layout) : TilingTree I :=
  if !t.canWrapRootChildren then
    t
  else
    match t.layoutOf t.root with
    | none => t
    | some oldLayout =>
      let (t, wrapper) := t.wrapRootChildren oldLayout
      ((t.setSplitLayout t.root layout).setFocusId (some wrapper)).requestWindowSizes

def split (id : NodeId) (layout : Layout) : TilingTree I :=
  let t := { t with interactiveResize := none, fullscreenTileSlot := false }
  if id = t.root ∧ t.children id ≠ [] then
    t.splitRoot layout
  else if (t.tile id).isSome then
    t.splitLeaf id layout
  else
    (t.splitContainer id layout).requestWindowSizes

/-! ## 3. Setting layouts -/

/-- Set a layout, remembering the SplitH or SplitV it replaces. -/
def Split.setLayout (s : Split) (layout : Layout) : Split :=
  { s with
    layout := layout
    info :=
      if s.layout.isSplit && s.layout != layout then
        { s.info with previousLayout := some s.layout }
      else
        s.info }

def setLayout (t : TilingTree I) (id : NodeId) (layout : Layout) : TilingTree I :=
  let t := { t with interactiveResize := none, fullscreenTileSlot := false }
  if t.isSplit id then
    let t := { t with toArena := t.modifySplit id (Split.setLayout · layout) }
    t.compactTree.requestWindowSizes
  else
    t.split id layout

/-- The `layout` command leaves the tree uncompacted. -/
def setLayoutForCommand (id : NodeId) (layout : Layout) : TilingTree I :=
  let t := { t with interactiveResize := none, fullscreenTileSlot := false }
  if t.isSplit id then
    { t with toArena := t.modifySplit id (Split.setLayout · layout) : TilingTree I }.requestWindowSizes
  else
    t

def resetEmptyLayout : TilingTree I :=
  let layout := t.preservedAutoLayout.getD
    (defaultLayout t.options.defaultOrientation t.viewSize)
  { t.setLayout t.root layout with emptyRepresentationLayout := some layout }

/-! ## 4. Flattening -/

/-- Put `id` in the place of its parent, whose only child it is. -/
def flattenArena (a : Arena I) (id grandparent : NodeId) (index : Nat) : Arena I :=
  (a.modifySplit grandparent fun s => { s with children := s.children.set index id }).setParent
    id (some grandparent)

def flattenParent (id : NodeId) : TilingTree I × Option (NodeId × NodeId) :=
  let t := { t with interactiveResize := none }
  match t.parentOf id with
  | none => (t, none)
  | some parent =>
    if parent = t.root ∨ t.splitLen parent ≠ some 1 then
      (t, none)
    else
      match t.parentOf parent with
      | none => (t, none)
      | some grandparent =>
        match t.childIndex grandparent parent with
        | none => (t, none)
        | some index =>
          let t := { t with toArena := flattenArena t.toArena id grandparent index }
          let t :=
            match t.fullscreenMode parent with
            | some fullscreen => t.setPendingFullscreen id (some fullscreen)
            | none => t
          let t := if t.focus = some parent then t.setFocusId (some id) else t
          ((t.removeNode parent).requestWindowSizes, some (parent, id))

/-! ## 5. Commands on the focus -/

/-- The split a layout command on the focus works on. A singleton parent with a singleton
    grandparent below the root is flattened once first. -/
def focusedLayoutTarget : TilingTree I × Option NodeId × List (NodeId × NodeId) :=
  match t.focus with
  | none => (t, none, [])
  | some focus =>
    if focus ≠ t.root ∧ t.contains focus = false then
      (t, none, [])
    else
      let target :=
        if focus = t.root then t.residentRootNode.getD t.root
        else (t.parentOf focus).getD t.root
      if target = t.root ∨ t.splitLen target ≠ some 1 ∨ t.residentRootNode = some target then
        (t, some target, [])
      else
        match t.parentOf target with
        | none => (t, some target, [])
        | some grandparent =>
          if grandparent = t.root ∨ t.splitLen grandparent ≠ some 1 then
            (t, some target, [])
          else
            match (t.children target).head? with
            | none => (t, some target, [])
            | some child =>
              match t.flattenParent child with
              | (t, some remapped) => (t, some grandparent, [remapped])
              | (t, none) => (t, some target, [])

def setFocusedLayout (layout : Layout) : TilingTree I × List (NodeId × NodeId) :=
  let rootLayout := t.rootLayout
  let t :=
    if layout ≠ rootLayout then
      { t with hasHadTile := true, emptyRepresentationLayout := none }
    else
      t
  let focus := t.focus
  match t.focusedLayoutTarget with
  | (t, none, remapped) => (t.setLayout t.root layout, remapped)
  | (t, some target, remapped) =>
    let wraps :=
      target == t.root && layout != rootLayout &&
        match focus with
        | some focus => (t.tile focus).isSome || !rootLayout.isSplit
        | none => false
    if wraps then
      if !t.canWrapRootChildren then
        (t, remapped)
      else
        let rects : Option (FinMap NodeId Rect) :=
          if t.fullscreenNode.isSome then some t.computeGeometry.ipcNodes else none
        let (t, wrapper) := { t with fullscreenTileSlot := false : TilingTree I }.wrapRootChildren
          layout
        let t :=
          match rects with
          | some rects =>
            { t with
              fullscreenLayoutWrappers := insert wrapper t.fullscreenLayoutWrappers
              preLayoutIpcRects := extendRects t.preLayoutIpcRects rects }
          | none => t
        (t.requestWindowSizes, remapped)
    else
      (t.setLayoutForCommand target layout, remapped)

def splitFocused (layout : Layout) : TilingTree I :=
  match t.focus with
  | some focus => t.split focus layout
  | none =>
    { t.setLayout t.root layout with
      emptyRepresentationLayout := some t.representationLayout }

def toggleFocusedTabbed : TilingTree I :=
  match t.focus.bind t.parentOf with
  | none => t
  | some parent =>
    t.setLayout parent (if t.layoutOf parent = some .tabbed then .splitH else .tabbed)

def setFocusedParentLayout (layout : Layout) : TilingTree I :=
  match t.focus.bind t.parentOf with
  | none => t
  | some parent => t.setLayout parent layout

def toggleSplit (id : NodeId) : TilingTree I :=
  t.split id (if (t.parentOf id).bind t.layoutOf = some .splitV then .splitH else .splitV)

def toggleFocusedSplit : TilingTree I :=
  let focus := t.focus.getD t.root
  t.split focus (if t.layoutOf focus = some .splitH then .splitV else .splitH)

/-! ## 6. Toggling -/

def previousLayout (t : TilingTree I) (id : NodeId) : Option Layout :=
  (t.splitAt id).bind (·.info.previousLayout)

/-- The layout `layout toggle split` gives `target`. -/
def splitToggled (target : NodeId) : Layout :=
  match t.layoutOf target with
  | some .splitH => .splitV
  | some .splitV => .splitH
  | _ => (t.previousLayout target).getD .splitH

def toggleLayoutSplit (target : NodeId) : TilingTree I :=
  t.setLayoutForCommand target (t.splitToggled target)

def CommandLayout.treeLayout : CommandLayout → Option Layout
  | .splitH => some .splitH
  | .splitV => some .splitV
  | .tabbed => some .tabbed
  | .stacked => some .stacked
  | .toggleSplit => none

/-- Whether an entry of a toggle cycle names the current layout. -/
def LayoutToggleEntry.names (current : Layout) : LayoutToggleEntry → Bool
  | .split => current.isSplit
  | .layout layout => CommandLayout.treeLayout layout == some current

/-- The entry after the current one, else the first that names a layout. -/
def nextInCycle (current : Layout) (entries : List LayoutToggleEntry) : Option LayoutToggleEntry :=
  ((entries.findIdx? (LayoutToggleEntry.names current)).bind fun index =>
    entries[(index + 1) % entries.length]?).or
    (entries.find? fun
      | .split => false
      | .layout _ => true)

def toggleNodeLayout (target : NodeId) (toggle : LayoutToggle) : TilingTree I × Bool :=
  match t.layoutOf target with
  | none => (t, false)
  | some current =>
    match toggle with
    | .default | .split => (t.toggleLayoutSplit target, true)
    | .all =>
      let next : Layout :=
        match current with
        | .splitH => .splitV
        | .splitV => .stacked
        | .stacked => .tabbed
        | .tabbed => .splitH
      (t.setLayoutForCommand target next, true)
    | .cycle entries =>
      match nextInCycle current entries with
      | none => (t, false)
      | some .split => (t.toggleLayoutSplit target, true)
      | some (.layout layout) =>
        match CommandLayout.treeLayout layout with
        | none => (t, false)
        | some next => (t.setLayoutForCommand target next, true)

def toggleFocusedLayout (toggle : LayoutToggle) : TilingTree I × List (NodeId × NodeId) :=
  match t.focusedLayoutTarget with
  | (t, some target, remapped) => ((t.toggleNodeLayout target toggle).1, remapped)
  | (t, none, remapped) => (t, remapped)

def toggleTargetLayout (id : NodeId) (toggle : LayoutToggle) : TilingTree I × Bool :=
  match t.parentOf id with
  | some target => t.toggleNodeLayout target toggle
  | none => (t, false)

def toggleFocusedLayoutSplit : TilingTree I × List (NodeId × NodeId) :=
  match t.focusedLayoutTarget with
  | (t, some target, remapped) => (t.toggleLayoutSplit target, remapped)
  | (t, none, remapped) => (t, remapped)

/-! ## 7. Restoring and targeting -/

def restoreNodeLayout (target : NodeId) : TilingTree I × Bool :=
  match t.previousLayout target with
  | some layout => (t.setLayoutForCommand target layout, true)
  | none => (t, t.contains target)

def restoreFocusedSplitLayout : TilingTree I × Option (List (NodeId × NodeId)) :=
  match t.focusedLayoutTarget with
  | (t, some target, remapped) =>
    if (t.previousLayout target).isSome then ((t.restoreNodeLayout target).1, some remapped)
    else (t, none)
  | (t, none, _) => (t, none)

def restoreTargetLayout (id : NodeId) : TilingTree I × Bool :=
  match t.parentOf id with
  | some target => t.restoreNodeLayout target
  | none => (t, false)

def setTargetLayout (id : NodeId) (layout : Layout) : TilingTree I × Bool :=
  if t.contains id then
    (t.setLayoutForCommand ((t.parentOf id).getD t.root) layout, true)
  else
    (t, false)

end TilingTree

end Swayward
