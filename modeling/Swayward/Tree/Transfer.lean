/-
  File:      Swayward/Tree/Transfer.lean
  Subject:   TRANSFERS: taking a subtree out of one tree and putting it into another.

  The functions of `transfer.rs` and the operations on detached subtrees. A node that is taken out
  keeps its identifier and gets it back when it is put in, unless that is in use there. The root
  itself stays; its contents leave as a new split.
-/
import Swayward.Tree.Resize

namespace Swayward

variable {I : Type}

/-! ## 1. Detached subtrees -/

namespace DetachedNode

def pendingMode : DetachedNode I → Option PendingMode
  | .split _ _ _ _ _ mode => mode
  | .leaf _ _ mode _ => mode

def setPendingMode (mode : Option PendingMode) : DetachedNode I → DetachedNode I
  | .split oldId layout children percents info _ => .split oldId layout children percents info mode
  | .leaf oldId tile _ mapped => .leaf oldId tile mode mapped

def fullscreen (node : DetachedNode I) : Option FullscreenMode :=
  node.pendingMode.bind (·.fullscreen)

mutual

def hasFullscreen : DetachedNode I → Bool
  | .split _ _ children _ _ mode => (mode.bind (·.fullscreen)).isSome || anyFullscreen children
  | .leaf _ _ mode _ => (mode.bind (·.fullscreen)).isSome

def anyFullscreen : List (DetachedNode I) → Bool
  | [] => false
  | node :: nodes => node.hasFullscreen || anyFullscreen nodes

end

mutual

/-- The windows of a detached subtree, in order. -/
def windows : DetachedNode I → List I
  | .split _ _ children _ _ _ => windowsOf children
  | .leaf _ tile _ _ => [tile.window]

def windowsOf : List (DetachedNode I) → List I
  | [] => []
  | node :: nodes => node.windows ++ windowsOf nodes

end

mutual

/-- Levels of containers in a detached subtree. -/
def height : DetachedNode I → Nat
  | .split _ _ children _ _ _ => 1 + heightOf children
  | .leaf _ _ _ _ => 1

def heightOf : List (DetachedNode I) → Nat
  | [] => 0
  | node :: nodes => max node.height (heightOf nodes)

end

def withoutFullscreen (mode : Option PendingMode) : Option PendingMode :=
  mode.map fun mode => { mode with fullscreen := none }

mutual

def clearFullscreen : DetachedNode I → DetachedNode I
  | .split oldId layout children percents info mode =>
    .split oldId layout (clearFullscreens children) percents info (withoutFullscreen mode)
  | .leaf oldId tile mode mapped => .leaf oldId tile (withoutFullscreen mode) mapped

def clearFullscreens : List (DetachedNode I) → List (DetachedNode I)
  | [] => []
  | node :: nodes => node.clearFullscreen :: clearFullscreens nodes

end

/-- Clear fullscreen everywhere below, and set it on the node itself. -/
def placeFullscreen (node : DetachedNode I) (mode : Option FullscreenMode) : DetachedNode I :=
  let cleared := node.clearFullscreen
  cleared.setPendingMode (some { cleared.pendingMode.getD {} with fullscreen := mode })

end DetachedNode

namespace DetachedSubtree

def hasFullscreen (s : DetachedSubtree I) : Bool := s.node.hasFullscreen

def windows (s : DetachedSubtree I) : List I := s.node.windows

def height (s : DetachedSubtree I) : Nat := s.node.height

/-- Swap which subtree root holds fullscreen, clearing it everywhere below the roots. -/
def swapFullscreenPosition (first second : DetachedSubtree I) :
    DetachedSubtree I × DetachedSubtree I :=
  ({ first with node := first.node.placeFullscreen second.node.fullscreen },
   { second with node := second.node.placeFullscreen first.node.fullscreen })

end DetachedSubtree

namespace TilingTree

/-! ## 2. Taking out -/

/-- Take out several nodes in turn. -/
def takeEach (take : TilingTree I → NodeId → Option (TilingTree I × DetachedNode I)) :
    TilingTree I → List NodeId → Option (TilingTree I × List (DetachedNode I))
  | t, [] => some (t, [])
  | t, id :: ids =>
    match take t id with
    | none => none
    | some (t, node) => (takeEach take t ids).map fun (t, nodes) => (t, node :: nodes)

def takeDetachedNode : Nat → TilingTree I → NodeId → Option (TilingTree I × DetachedNode I)
  | 0, _, _ => none
  | fuel + 1, t, id =>
    match t.get id with
    | none => none
    | some node =>
      let mode := t.pendingModes.lookup id
      let mapped := decide (id ∈ t.mappedUnderFullscreen)
      let t := t.removeNode id
      match node.value with
      | .leaf tile => some (t, .leaf id tile mode mapped)
      | .split s =>
        (takeEach (takeDetachedNode fuel) t s.children).map fun (t, nodes) =>
          (t, .split id s.layout nodes s.percents s.info mode)

/-- Detach the root's contents as a new split, leaving an empty root behind. -/
def takeRootAsDetached (t : TilingTree I) : Option (TilingTree I × DetachedNode I) :=
  match t.splitAt t.root with
  | none => none
  | some s =>
    let size := t.size
    let t := { t with
      toArena := t.modifySplit t.root fun _ => { layout := .splitH }
      emptyRepresentationLayout := some .splitH }
    (takeEach (takeDetachedNode size) t s.children).map fun (t, nodes) =>
      ({ t with counter := t.counter + 1, pendingModes := t.pendingModes.erase t.root },
        .split t.counter s.layout nodes s.percents s.info (t.pendingModes.lookup t.root))

/-- Unlink `id` if it is not the root, then take it out. -/
def takeSubtree (t : TilingTree I) (id : NodeId) :
    Option (TilingTree I × DetachedNode I × Option NodeId) :=
  if id = t.root then
    t.takeRootAsDetached.map fun (t, node) => (t, node, none)
  else
    match t.detachSubtreeOnly id with
    | none => none
    | some (a, parent) =>
      (takeDetachedNode t.size { t with toArena := a } id).map fun (t, node) =>
        (t, node, some parent)

def detachSubtree (t : TilingTree I) (id : NodeId) :
    Option (TilingTree I × DetachedSubtree I × Option NodeId) :=
  if !t.contains id then
    none
  else
    let t := { t with interactiveResize := none }
    let leaves := t.leafIdsIn id
    let history := (t.focusHistory.filter (leaves.contains ·)).filterMap fun leaf =>
      (t.tile leaf).map (·.window)
    let rootFocused := decide (t.focus = some id)
    let movedFullscreen := t.fullscreenNode == some id
    let wrapped := decide (id = t.root)
    match t.takeSubtree id with
    | none => none
    | some (t, node, parent) =>
      let t := { t with fullscreenTileSlot := false }
      let t :=
        if movedFullscreen then
          { t with
            mappedUnderFullscreen := ∅
            movedUnderFullscreen := ∅
            fullscreenLayoutWrappers := ∅
            preLayoutIpcRects := ∅ }
        else
          t
      let t := { t with focus := t.focusedLeafIn t.root }
      some (t.requestWindowSizes,
        { node := node, focusHistory := history, rootFocused := rootFocused,
          wrappedWorkspace := wrapped },
        parent)

def finishSubtreeDetach (t : TilingTree I) (oldParent : Option NodeId) : TilingTree I :=
  let target := oldParent.bind fun _ => t.transferFocusTarget none oldParent
  let t :=
    match oldParent with
    | some parent => t.reapEmptyFrom parent
    | none => t
  let t := t.compactTree
  let t :=
    match t.resolveTransferFocus target with
    | (t, true) => t
    | (t, false) => { t with focus := t.focusedLeafIn t.root }
  t.requestWindowSizes

/-! ## 3. Putting in -/

mutual

/-- Put a detached node into the arena with the given parent link; it is not listed there yet. -/
def insertDetachedNode (t : TilingTree I) (parent : Option NodeId)
    (remapped : List (NodeId × NodeId)) :
    DetachedNode I → TilingTree I × NodeId × List (NodeId × NodeId)
  | .leaf oldId tile mode mapped =>
    let (a, id) := t.insertWithId oldId { parent := parent, value := .leaf tile }
    let t := { t with
      toArena := a
      pendingModes :=
        match mode with
        | some mode => t.pendingModes.insert id mode
        | none => t.pendingModes
      mappedUnderFullscreen :=
        if mapped then insert id t.mappedUnderFullscreen else t.mappedUnderFullscreen }
    (t, id, if id = oldId then remapped else remapped ++ [(oldId, id)])
  | .split oldId layout children percents info mode =>
    let (a, id) := t.insertWithId oldId
      { parent := parent, value := .split { layout, children := [], percents, info } }
    let remapped := if id = oldId then remapped else remapped ++ [(oldId, id)]
    let (t, ids, remapped) :=
      insertDetachedNodes { t with toArena := a } (some id) remapped children
    let t := { t with
      toArena := t.modifySplit id fun s => { s with children := ids }
      pendingModes :=
        match mode with
        | some mode => t.pendingModes.insert id mode
        | none => t.pendingModes }
    (t, id, remapped)

def insertDetachedNodes (t : TilingTree I) (parent : Option NodeId)
    (remapped : List (NodeId × NodeId)) :
    List (DetachedNode I) → TilingTree I × List NodeId × List (NodeId × NodeId)
  | [] => (t, [], remapped)
  | node :: nodes =>
    let (t, id, remapped) := insertDetachedNode t parent remapped node
    let (t, ids, remapped) := insertDetachedNodes t parent remapped nodes
    (t, id :: ids, remapped)

end

/-- Where an attached subtree goes: after a target leaf, inside a target split, else at the end of
    the root. -/
def attachSlot (t : TilingTree I) (target : Option NodeId) : NodeId × Option NodeId :=
  match target.bind fun target => (t.get target).map fun node => (target, node) with
  | some (target, { parent := some parent, value := .leaf _ }) => (parent, some target)
  | some (target, { value := .split _, .. }) => (target, none)
  | _ => (t.root, none)

variable [DecidableEq I] (t : TilingTree I)

def restoreTransferredFocus (history : List I) : TilingTree I :=
  let t := t.reinsertFocusHistory history (if t.focus.isSome then 1 else 0)
  if t.focus.isNone then t.setFocusId (t.focusedLeafIn t.root) else t

/-- The root keeps any metadata the detached split does not set. -/
def SplitMeta.mergedWith (info detached : SplitMeta) : SplitMeta where
  previousLayout := detached.previousLayout.or info.previousLayout
  titleFormat := detached.titleFormat.or info.titleFormat
  sticky := info.sticky || detached.sticky

/-- Unwrap a detached split into the empty root. -/
def attachSplitToEmptyRoot (oldId : NodeId) (layout : Layout)
    (children : List (DetachedNode I)) (percents : List ℚ) (info : SplitMeta)
    (mode : Option PendingMode) (history : List I) : TilingTree I × List (NodeId × NodeId) :=
  let remapped := if oldId = t.root then [] else [(oldId, t.root)]
  let t := { t with
    toArena := t.modifySplit t.root fun s =>
      { s with layout := layout, info := SplitMeta.mergedWith s.info info }
    pendingModes :=
      match mode with
      | some mode => t.pendingModes.insert t.root mode
      | none => t.pendingModes }
  let (t, ids, remapped) := insertDetachedNodes t (some t.root) remapped children
  let t := { t with
    toArena := t.modifySplit t.root fun s => { s with children := ids, percents := percents }
    hasHadTile := true }
  ((t.restoreTransferredFocus history).requestWindowSizes, remapped)

/-- Put a detached node in beside or below the target. -/
def attachNode (node : DetachedNode I) (history : List I) (wrapped : Bool)
    (target : Option NodeId) : TilingTree I × NodeId × List (NodeId × NodeId) :=
  let (t, id, remapped) := insertDetachedNode t none [] node
  let slot := t.attachSlot target
  let slot := if t.fitsBelow slot.1 node.height then slot else (t.root, none)
  let t := { t with toArena := t.insertChild slot.1 id slot.2 }
  let t :=
    match t.fullscreenNode with
    | some fullscreen =>
      if t.containsNode id fullscreen then { t with fullscreenArrived := true } else t
    | none => t
  let t := if wrapped then { t with ipcStaleNodes := insert id t.ipcStaleNodes } else t
  let t := t.restoreTransferredFocus history
  let t := if t.focus.isNone then t.setFocusId (t.focusedLeafIn id) else t
  (t.requestWindowSizes, id, remapped)

def attachSubtreeWith (subtree : DetachedSubtree I) (target : Option NodeId)
    (unwrapIntoEmptyRoot : Bool) : TilingTree I × NodeId × List (NodeId × NodeId) :=
  let t :=
    if subtree.hasFullscreen then
      match t.fullscreenNode with
      | some current => (t.replaceFullscreenState current none).1
      | none => t
    else
      t
  let history := subtree.focusHistory
  match subtree.node with
  | .split oldId layout children percents info mode =>
    if t.isEmpty && unwrapIntoEmptyRoot then
      let (t, remapped) :=
        t.attachSplitToEmptyRoot oldId layout children percents info mode history
      (t, t.root, remapped)
    else
      t.attachNode subtree.node history subtree.wrappedWorkspace target
  | .leaf .. => t.attachNode subtree.node history subtree.wrappedWorkspace target

def attachSubtreeAt (subtree : DetachedSubtree I) (target : Option NodeId) :
    TilingTree I × NodeId × List (NodeId × NodeId) :=
  t.attachSubtreeWith subtree target true

def attachSubtree (subtree : DetachedSubtree I) : TilingTree I × NodeId × List (NodeId × NodeId) :=
  t.attachSubtreeAt subtree t.focus

/-- A group that returns to tiling stays a split, also on an empty workspace. -/
def attachUnfloatedSubtree (subtree : DetachedSubtree I) :
    TilingTree I × NodeId × List (NodeId × NodeId) :=
  t.attachSubtreeWith subtree t.focus false

/-- The tree of a floating group: a resident root around the detached subtree. -/
def fromDetachedSubtree (counter : NodeId) (c : Config) (subtree : DetachedSubtree I) :
    TilingTree I × NodeId × List (NodeId × NodeId) :=
  let t : TilingTree I := { new counter { c with gapsToEdge := false } with residentRoot := true }
  let (t, id, remapped) := insertDetachedNode t none [] subtree.node
  let t := { t with toArena := t.insertChild t.root id none }
  let t := t.restoreTransferredFocus subtree.focusHistory
  let t := if subtree.rootFocused && t.contains id then t.setFocusId (some id) else t
  ({ t with hasHadTile := true : TilingTree I }.requestWindowSizes, id, remapped)

/-! ## 4. Swapping between trees -/

def detachSubtreeForSwap (id : NodeId) : Option (TilingTree I × DetachedSubtree I × DetachedSlot) :=
  if id = t.root then
    none
  else
    match t.parentOf id with
    | none => none
    | some parent =>
      match t.childIndex parent id with
      | none => none
      | some index =>
        match ((t.splitAt parent).bind (·.percents[index]?)) with
        | none => none
        | some percent =>
          let rank := (t.focusHistory.findIdx? fun c => t.containsNode id c).getD
            t.focusHistory.length
          let focused :=
            match t.focus with
            | some focus => t.containsNode id focus
            | none => false
          (t.detachSubtree id).map fun (t, subtree, _) =>
            (t, subtree,
              { parent := parent, index := index, percent := percent, focusRank := rank,
                focused := focused })

def attachSubtreeForSwap (subtree : DetachedSubtree I) (slot : DetachedSlot) :
    TilingTree I × NodeId × List (NodeId × NodeId) :=
  if !t.isSplit slot.parent then
    t.attachSubtreeAt subtree none
  else
    let (t, id, remapped) := insertDetachedNode t none [] subtree.node
    let a := t.modifySplit slot.parent fun s =>
      { s with
        children := s.children.insertIdx (min slot.index s.children.length) id
        percents := Shares.insertShare s.percents (min slot.index s.children.length) slot.percent }
    let t := { t with toArena := a.setParent id (some slot.parent) }
    let t := t.reinsertFocusHistory subtree.focusHistory slot.focusRank
    let t := if slot.focused || t.focus.isNone then t.setFocusId (t.focusedLeafIn id) else t
    (t.requestWindowSizes, id, remapped)

end TilingTree

end Swayward
