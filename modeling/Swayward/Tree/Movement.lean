/-
  File:      Swayward/Tree/Movement.lean
  Subject:   MOVING AND SWAPPING NODES (`movement.rs`).

  `move_direction_inner` walks up from the moved node until it finds out what to do. The walk is a
  function of its own here (`moveWalk`) that answers with the action; `moveDirectionInner` carries
  the action out. In the same way `directionalDestination` is the descent of
  `move_into_directional_destination` to the split the node ends up under.
-/
import Swayward.Tree.Mutation

namespace Swayward

variable {I : Type}

namespace TilingTree

variable (t : TilingTree I)

/-! ## 1. Swapping -/

inductive SwapError
  | noMatchingNode | sameContainer | ancestorAndDescendant | tooDeep | notAContainer
  deriving DecidableEq, Repr

def SwapError.message : SwapError → String
  | .noMatchingNode => "No matching node."
  | .sameContainer => "Cannot swap a container with itself"
  | .ancestorAndDescendant => "Cannot swap ancestor and descendant"
  | .tooDeep => "Container nesting is too deep"
  | .notAContainer => "Can only swap with containers and views"

def checkSwappable (first second : NodeId) : Except SwapError Unit :=
  if !t.contains first || !t.contains second then .error .noMatchingNode
  else if first = second then .error .sameContainer
  else if t.containsNode first second || t.containsNode second first then
    .error .ancestorAndDescendant
  else if !t.fitsAt first (t.subtreeHeight second) || !t.fitsAt second (t.subtreeHeight first) then
    .error .tooDeep
  else .ok ()

/-- A focused node that moves into a tabbed or stacked parent hands the focus to its
    counterpart. -/
def focusAfterSwap (first firstParent second secondParent : NodeId) : Option NodeId :=
  let parentIsTabbed : NodeId → Bool := fun parent =>
    match t.layoutOf parent with
    | some layout => !layout.isSplit
    | none => false
  if t.focus = some first ∧ parentIsTabbed secondParent then some second
  else if t.focus = some second ∧ parentIsTabbed firstParent then some first
  else t.focus

def replaceChild (a : Arena I) (parent : NodeId) (index : Nat) (child : NodeId) : Arena I :=
  a.modifySplit parent fun s => { s with children := s.children.set index child }

def swapArena (a : Arena I) (first firstParent : NodeId) (firstIndex : Nat)
    (second secondParent : NodeId) (secondIndex : Nat) : Arena I :=
  let a := replaceChild a firstParent firstIndex second
  let a := replaceChild a secondParent secondIndex first
  (a.setParent first (some secondParent)).setParent second (some firstParent)

def swapFullscreenModes (first second : NodeId) : TilingTree I :=
  let firstFullscreen := t.fullscreenMode first
  let secondFullscreen := t.fullscreenMode second
  (t.setPendingFullscreen first secondFullscreen).setPendingFullscreen second firstFullscreen

def swapNodes (first second : NodeId) : TilingTree I × Except SwapError Unit :=
  match t.checkSwappable first second with
  | .error e => (t, .error e)
  | .ok () =>
    match t.parentOf first, t.parentOf second with
    | some firstParent, some secondParent =>
      match t.childIndex firstParent first, t.childIndex secondParent second with
      | some firstIndex, some secondIndex =>
        let focus := t.focusAfterSwap first firstParent second secondParent
        let t := { t with
          toArena := swapArena t.toArena first firstParent firstIndex second secondParent
            secondIndex }
        let t := t.swapFullscreenModes first second
        let t := if t.focus = focus then t else t.setFocusId focus
        (t.requestWindowSizes, .ok ())
      | _, _ => (t, .error .noMatchingNode)
    | _, _ => (t, .error .notAContainer)

/-! ## 2. Moving onto a node -/

/-- Move the leaves of `windows` to rank `rank` of the history, keeping their order. -/
def reinsertFocusHistory [DecidableEq I] (t : TilingTree I) (windows : List I) (rank : Nat) :
    TilingTree I :=
  windows.foldr (fun window t =>
    match t.nodeForWindow window with
    | some leaf => t.rankInHistory leaf rank
    | none => t) t

/-- Unlink `id` and link it again under `parent`, after `after` or at the end. -/
def relinkAfter (a : Arena I) (id parent : NodeId) (after : Option NodeId) :
    Option (Arena I × NodeId) :=
  (a.detachSubtreeOnly id).map fun (a, oldParent) => (a.insertChild parent id after, oldParent)

/-- Where `move_subtree_to_node` puts a node: after a leaf, or at the end of a split. -/
def nodeDestination (destination : NodeId) : Option (NodeId × Option NodeId) :=
  match t.get destination with
  | some { parent := some parent, value := .leaf _ } => some (parent, some destination)
  | some { value := .split _, .. } => some (destination, none)
  | _ => none

def moveSubtreeToNode [DecidableEq I] (t : TilingTree I) (id destination : NodeId) :
    TilingTree I × Bool :=
  if id = t.root ∨ id = destination ∨ !t.contains id ∨ !t.contains destination ∨
      t.containsNode id destination then
    (t, false)
  else
    let moved := (t.leafIdsIn id).filterMap fun leaf => (t.tile leaf).map (·.window)
    match t.nodeDestination destination with
    | none => (t, false)
    | some (parent, after) =>
      if !t.fitsBelow parent (t.subtreeHeight id) then
        (t, false)
      else
        let alreadyThere := t.parentOf id == some parent &&
          t.childIndex parent id == (after.bind (t.childIndex parent ·)).map (· + 1)
        let focusInside :=
          match t.focus with
          | some focus => t.containsNode id focus
          | none => false
        if alreadyThere && focusInside then
          (t, true)
        else
          match relinkAfter t.toArena id parent after with
          | none => (t, false)
          | some (a, oldParent) =>
            let t := { t with toArena := a }
            let t := (t.reapEmptyFrom oldParent).compactTree
            let t := t.reinsertFocusHistory moved (if t.focus.isSome then 1 else 0)
            (t.requestWindowSizes, true)

/-! ## 3. Reordering among siblings -/

/-- A directional move keeps a focused node focused; otherwise the first leaf of the moved node is
    focused. -/
def finishDirectionalMove (id : NodeId) : TilingTree I :=
  if t.focus = some id then
    { t with ipcFocusFollowsHistory := false : TilingTree I }.requestWindowSizes
  else
    (t.setFocusId ((t.firstLeafIn id).or t.focus)).requestWindowSizes

/-- Move the entry at `oldIndex` to `newIndex`, share included. -/
def Split.moveEntry (s : Split) (oldIndex newIndex : Nat) : Split :=
  match s.children[oldIndex]?, s.percents[oldIndex]? with
  | some child, some percent =>
    { s with
      children := (s.children.eraseIdx oldIndex).insertIdx newIndex child
      percents := (s.percents.eraseIdx oldIndex).insertIdx newIndex percent }
  | _, _ => s

/-- `index = none` stands for the source's `usize::MAX`. -/
def moveSubtreeToIndex (id : NodeId) (index : Option Nat) : TilingTree I × Bool :=
  let t := { t with interactiveResize := none }
  match t.parentOf id with
  | none => (t, false)
  | some parent =>
    match t.splitAt parent with
    | none => (t, false)
    | some s =>
      match s.children.idxOf? id with
      | none => (t, false)
      | some oldIndex =>
        let newIndex :=
          match index with
          | some index => min index (s.children.length - 1)
          | none => s.children.length - 1
        if oldIndex = newIndex then
          (t, false)
        else
          let t := { t with
            toArena := t.modifySplit parent (Split.moveEntry · oldIndex newIndex) }
          (t.finishDirectionalMove id, true)

/-! ## 4. Directional moves: what to do -/

/-- What the walk of `move_direction_inner` decides. -/
inductive MoveAction
  /-- nothing moves -/
  | stay
  /-- trade places with the neighbouring leaf: go to this index -/
  | toIndex (index : Nat)
  /-- go into the neighbouring node -/
  | into (destination : NodeId)
  /-- go to the outer end of this ancestor -/
  | promote (boundary : NodeId)
  /-- wrap the root's children and go beside them -/
  | wrapRoot
  deriving DecidableEq, Repr

/-- The neighbour of the entry at `index` in the direction of the move. -/
def neighbour (children : List NodeId) (index : Nat) (backwards : Bool) : Option NodeId :=
  if backwards then
    if index = 0 then none else children[index - 1]?
  else
    children[index + 1]?

def moveWalk (t : TilingTree I) (id : NodeId) (direction : Direction) (boundaryRoot : NodeId) :
    Nat → NodeId → MoveAction
  | 0, _ => .stay
  | fuel + 1, branch =>
    match t.parentOf branch with
    | none => if boundaryRoot ≠ t.root ∨ !t.canWrapRootChildren then .stay else .wrapRoot
    | some parent =>
      match t.splitAt parent with
      | none => .stay
      | some s =>
        let climb : Unit → MoveAction := fun _ =>
          if parent = boundaryRoot ∧ boundaryRoot ≠ t.root then .stay
          else t.moveWalk id direction boundaryRoot fuel parent
        if s.layout.parallel direction.axis then
          match s.children.idxOf? branch with
          | none => .stay
          | some index =>
            match neighbour s.children index direction.isBackwards with
            | some destination =>
              if branch = id ∧ (t.tile destination).isSome then
                .toIndex (if direction.isBackwards then index - 1 else index + 1)
              else
                .into destination
            | none =>
              if parent = boundaryRoot ∨ branch ≠ id then
                if branch = id then .stay
                -- a window in a singleton workspace child counts as workspace level
                else if parent = t.root ∧ t.parentOf id = some branch ∧
                    t.splitLen branch = some 1 then .stay
                else .promote parent
              else
                climb ()
        else
          climb ()

/-- The split, and the index in it, that a node moving into `destination` goes to. -/
def directionalDestination (t : TilingTree I) (direction : Direction) :
    Nat → NodeId → Option (NodeId × Nat)
  | 0, _ => none
  | fuel + 1, destination =>
    match t.get destination with
    | none => none
    | some { value := .leaf _, .. } =>
      match t.parentOf destination with
      | none => none
      | some parent =>
        (t.childIndex parent destination).map fun index =>
          (parent, if direction.isBackwards then index + 1 else index)
    | some { value := .split s, .. } =>
      if s.layout.parallel direction.axis then
        if s.children.isEmpty then none
        else some (destination, if direction.isBackwards then s.children.length else 0)
      else
        (t.focusedChildIn destination).bind (t.directionalDestination direction fuel)

/-! ## 5. Directional moves: doing it -/

/-- Unlink `id` and link it again under `parent` at `index`. -/
def relinkAt (a : Arena I) (id parent : NodeId) (index : Nat) : Option (Arena I × NodeId) :=
  (a.detachSubtreeOnly id).map fun (a, oldParent) => (a.insertChildAt parent id index, oldParent)

def moveIntoDirectionalDestination (id destination : NodeId)
    (direction : Direction) : TilingTree I × Bool :=
  match t.directionalDestination direction t.size destination with
  | none => (t, false)
  | some (parent, index) =>
    match relinkAt t.toArena id parent index with
    | none => (t, false)
    | some (a, oldParent) =>
      let t := { t with toArena := a : TilingTree I }.reapEmptyFrom oldParent
      ((t.squashForMove none).finishDirectionalMove id, true)

/-- The share a promoted node keeps: its own, if its old parent is a split along the move. -/
def keptShare (id : NodeId) (wanted : Layout) : Option ℚ :=
  ((t.parentOf id).bind t.splitAt).bind fun s =>
    if s.layout = wanted then (s.children.idxOf? id).bind (s.percents[·]?) else none

/-- Unlink `id` and link it again at the end of `boundaryRoot`, beside `boundary`. -/
def promoteArena (a : Arena I) (id boundaryRoot boundary : NodeId) (index : Nat)
    (share : Option ℚ) : Option (Arena I × NodeId) :=
  (a.detachSubtreeOnly id).map fun (a, oldParent) =>
    let a := a.insertExistingChild boundaryRoot id index boundary
    match share with
    | some share =>
      ((a.setChildPercent boundaryRoot id share).shareAsFresh boundaryRoot [boundary], oldParent)
    | none => (a.shareAsFresh boundaryRoot [id, boundary], oldParent)

def promoteToBoundary (id boundaryRoot : NodeId) (direction : Direction) : TilingTree I × Bool :=
  let children := t.children boundaryRoot
  let backwards := direction.isBackwards
  match children[if backwards then 0 else children.length - 1]? with
  | none => (t, false)
  | some boundary =>
    let index := if backwards then 0 else children.length
    match promoteArena t.toArena id boundaryRoot boundary index
        (t.keptShare id direction.axis) with
    | none => (t, false)
    | some (a, oldParent) =>
      let t := { t with toArena := a : TilingTree I }.reapEmptyFrom oldParent
      (t.compactTree.finishDirectionalMove id, true)

/-- The root's children move into a new split; `id` becomes its sibling along the direction. -/
def wrapRootForDirectionArena (a : Arena I) (s : Split) (id : NodeId) (direction : Direction) :
    Arena I × NodeId :=
  let (a, old) := a.alloc { parent := some a.root, value := .split { s with info := {} } }
  let a := (adopt a s.children old).setParent id (some a.root)
  (a.modifySplit a.root fun s =>
    { layout := direction.axis
      children := if direction.isBackwards then [id, old] else [old, id]
      percents := [1 / 2, 1 / 2]
      -- the root's metadata belongs to the workspace and stays with it
      info := s.info }, old)

def wrapRootForDirection (id : NodeId) (direction : Direction) : TilingTree I :=
  match t.splitAt t.root with
  | none => t
  | some s =>
    let (a, old) := wrapRootForDirectionArena t.toArena s id direction
    { t with toArena := a, ipcStaleNodes := insert old t.ipcStaleNodes }

def promoteByWrappingRoot (id : NodeId) (direction : Direction) : TilingTree I × Bool :=
  match t.detachSubtreeOnly id with
  | none => (t, false)
  | some (a, oldParent) =>
    let t := { t with toArena := a : TilingTree I }.wrapRootForDirection id direction
    let t := (t.reapEmptyFrom oldParent).squashForMove (some id)
    (t.finishDirectionalMove id, true)

/-! ## 6. Moving the only window -/

/-- Whether the walk from `id` reaches the root without finding a parallel parent. -/
def walkReachesUnparallelRoot (t : TilingTree I) (id : NodeId) (wanted : Layout) :
    Nat → NodeId → Bool
  | 0, _ => false
  | fuel + 1, current =>
    match t.parentOf current with
    | none => current == t.root && !t.rootLayout.parallel wanted
    | some parent =>
      match t.layoutOf parent with
      | none => false
      | some layout =>
        if layout.parallel wanted && current != id then false
        else t.walkReachesUnparallelRoot id wanted fuel parent

/-- The ancestor of the only window `leaf` that it is promoted beside. -/
def onlyWindowAncestor (t : TilingTree I) (leaf : NodeId) (wanted : Layout) :
    Nat → NodeId → Option NodeId
  | 0, _ => none
  | fuel + 1, current =>
    match t.parentOf current with
    | none => none
    | some parent =>
      match t.layoutOf parent with
      | none => none
      | some layout =>
        if !layout.parallel wanted || current == leaf then
          if parent = t.root then none else t.onlyWindowAncestor leaf wanted fuel parent
        else
          some current

/-- Unlink the window and put it first in the reoriented root. -/
def moveToReorientedRoot (id : NodeId) (wanted : Layout) : TilingTree I :=
  let t := t.setLayout t.root wanted
  -- `setLayout` compacts: a moved split may be gone, then the one window goes on
  match if t.contains id then some id else t.windows.head?.map (·.1) with
  | none => t
  | some id =>
    match (t.parentOf id).filter (· != t.root) with
    | none => t
    | some parent =>
      match relinkAt t.toArena id t.root 0 with
      | none => t
      | some (a, _) =>
        ({ t with toArena := a : TilingTree I }.reapEmptyFrom parent).finishDirectionalMove id

/-- Promote the only window beside `ancestor`. -/
def promoteOnlyWindow (leaf ancestor : NodeId) (direction : Direction) : TilingTree I :=
  match t.parentOf ancestor with
  | none => t
  | some destination =>
    match t.childIndex destination ancestor with
    | none => t
    | some index =>
      match relinkAt t.toArena leaf destination
          (if direction.isBackwards then index else index + 1) with
      | none => t
      | some (a, oldParent) =>
        let t := { t with toArena := a : TilingTree I }.reapEmptyFrom oldParent
        t.compactTree.finishDirectionalMove leaf

def moveOnlyWindow (id : NodeId) (direction : Direction) : TilingTree I :=
  let wanted := direction.axis
  if t.walkReachesUnparallelRoot id wanted t.size id then
    t.moveToReorientedRoot id wanted
  else
    match t.windows.head?.map (·.1) with
    | none => t
    | some leaf =>
      match t.parentOf leaf with
      | none => t
      | some oldParent =>
        if oldParent = t.root then
          t
        else
          match t.onlyWindowAncestor leaf wanted t.size leaf with
          | none => t
          | some ancestor =>
            if t.parentOf oldParent = some t.root ∧ t.splitLen oldParent = some 1 then t
            else t.promoteOnlyWindow leaf ancestor direction

/-! ## 7. Directional moves -/

def moveDirectionInner (id : NodeId) (direction : Direction) : TilingTree I × Bool :=
  if !t.contains id ∨ id = t.root then
    (t, false)
  else if (match t.fullscreenNode with
      | some fullscreen => t.containsNode fullscreen id
      | none => false) then
    (t, false)
  else
    let t := { t with interactiveResize := none }
    let boundaryRoot := t.residentRootNode.getD t.root
    if t.windows.length ≤ 1 then
      (if boundaryRoot = t.root then t.moveOnlyWindow id direction else t, false)
    else if t.splitLen t.root = some 1 ∧ t.rootBranch id = some id then
      (t.setLayout t.root direction.axis, false)
    else
      match t.moveWalk id direction boundaryRoot t.size id with
      | .stay => (t, false)
      | .toIndex index => t.moveSubtreeToIndex id (some index)
      | .into destination => t.moveIntoDirectionalDestination id destination direction
      | .promote boundary => t.promoteToBoundary id boundary direction
      | .wrapRoot => t.promoteByWrappingRoot id direction

def moveDirection (id : NodeId) (direction : Direction) : TilingTree I × Bool :=
  match t.moveDirectionInner id direction with
  | (t, true) => (t.compactTree, true)
  | (t, false) => (t, false)

/-- Move `id`, keeping the focus and the order of the windows in the history. -/
def moveNodeDirection [DecidableEq I] (t : TilingTree I) (id : NodeId) (direction : Direction) :
    TilingTree I × Bool :=
  let focus := t.focus
  let history := t.windowFocusHistory
  let movedFocus :=
    match focus with
    | some focus => t.containsNode id focus
    | none => false
  let containersBefore := t.focusHistory.filter (t.isSplit ·)
  let (t, changed) := t.moveDirection id direction
  let t :=
    if changed then
      let t := t.restoreWindowFocusHistory history
      -- surviving containers stay in the history, after the windows
      { t with
        focusHistory := containersBefore.foldl (fun history node =>
          if t.contains node && !history.contains node then history ++ [node] else history)
          t.focusHistory }
    else
      t
  let survives :=
    match focus with
    | some focus => t.contains focus
    | none => false
  (if !movedFocus && survives then { t with focus := focus } else t, changed)

/-! ## 8. Consuming and expelling -/

/-- Replace `sibling` by a new SplitV holding `sibling` and the unlinked `id`. -/
def wrapPairArena (a : Arena I) (parent sibling id : NodeId) (index : Nat) (right : Bool) :
    Arena I :=
  let (a, wrapper) := a.alloc
    { parent := some parent
      value := .split
        { layout := .splitV
          children := if right then [sibling, id] else [id, sibling]
          percents := [1 / 2, 1 / 2] } }
  let a := a.modifySplit parent fun s => { s with children := s.children.set index wrapper }
  (a.setParent sibling (some wrapper)).setParent id (some wrapper)

def consume (id : NodeId) (right : Bool) : TilingTree I × Bool :=
  match t.parentOf id with
  | none => (t, false)
  | some parent =>
    match t.childIndex parent id with
    | none => (t, false)
    | some index =>
      match neighbour (t.children parent) index (!right) with
      | none => (t, false)
      | some sibling =>
        if !t.canWrap id || !t.canWrap sibling then
          (t, false)
        else
          let t := { t with
            interactiveResize := none
            toArena := t.removeChild parent id }
          match t.childIndex parent sibling with
          | none => (t, false)
          | some index =>
            let t := { t with
              toArena := wrapPairArena t.toArena parent sibling id index right }
            (t.compactTree.requestWindowSizes, true)

def expel (id : NodeId) (after : Bool) : TilingTree I × Bool :=
  match t.parentOf id with
  | none => (t, false)
  | some parent =>
    match t.parentOf parent with
    | none => (t, false)
    | some grandparent =>
      let t := { t with interactiveResize := none }
      match t.childIndex grandparent parent with
      | none => (t, false)
      | some parentIndex =>
        let a := t.removeChild parent id
        let index := if after then parentIndex + 1 else parentIndex
        let t := { t with toArena := a.insertExistingChild grandparent id index parent }
        (((t.collapseFrom parent).compactTree).requestWindowSizes, true)

def expelOrConsume [DecidableEq I] (t : TilingTree I) (window : Option I) (right : Bool) :
    TilingTree I :=
  match (window.bind t.nodeForWindow).or t.focus with
  | none => t
  | some id =>
    let t := t.setFocusId (some id)
    match t.expel id right with
    | (t, true) => t
    | (t, false) => (t.consume id right).1

end TilingTree

end Swayward
