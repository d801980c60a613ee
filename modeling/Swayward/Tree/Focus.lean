/-
  File:      Swayward/Tree/Focus.lean
  Subject:   FOCUS AND ITS HISTORY: setting the focus, what a container shows, refocusing.

  The focus history lists nodes, most recently focused first. Focusing a node raises its ancestors
  below the root as well. Which leaf of a container is active is the most recent leaf entry of the
  history inside it; which child a tabbed or stacked container shows is the branch of its most
  recent entry of any kind.
-/
import Swayward.Tree.State

namespace Swayward

variable {I : Type}

namespace TilingTree

variable (t : TilingTree I)

/-! ## 1. Setting the focus -/

/-- The ancestors of `id` below the root, nearest first. -/
def raisedAncestors (id : NodeId) : List NodeId :=
  (t.ancestors id).takeWhile (· != t.root)

def setFocusId (focus : Option NodeId) : TilingTree I :=
  match focus with
  | none => { t with focus := none, ipcFocusFollowsHistory := false }
  | some id =>
    let raised := t.raisedAncestors id
    { t with
      focus := some id
      ipcFocusFollowsHistory := false
      -- every ancestor is put in front in turn, so the outermost ends up first
      focusHistory := id :: (raised.reverse ++
        t.focusHistory.filter fun c => c != id && !raised.contains c)
      lastEnteredBy :=
        if (t.tile id).isSome then
          raised.foldl (fun table c => table.insert c id) t.lastEnteredBy
        else
          t.lastEnteredBy
      ipcStaleNodes := t.ipcStaleNodes.filter fun c => !t.containsNode c id }

/-! ## 2. What a container shows -/

def focusedChildIn (parent : NodeId) : Option NodeId :=
  match t.splitAt parent with
  | none => none
  | some s =>
    (t.focusHistory.findSome? fun focused =>
      s.children.find? fun child => t.containsNode child focused).or s.children.head?

/-- The child a tabbed or stacked `parent` shows: the one holding focus, else the one its focus
    last visited. -/
def shownChildIn (parent : NodeId) : Option NodeId :=
  match t.splitAt parent with
  | none => none
  | some s =>
    (t.focus.bind fun focus => s.children.find? fun child => t.containsNode child focus).or
      (t.focusedChildIn parent)

def focusedLeafIn (id : NodeId) : Option NodeId :=
  (t.focusHistory.find? fun c => (t.tile c).isSome && t.containsNode id c).or (t.firstLeafIn id)

/-- The leaf whose window is active: keyboard focus goes to it. -/
def activeLeaf : Option NodeId := t.focus.bind t.focusedLeafIn

def activeWindow : Option I :=
  (t.activeLeaf.bind t.tile).map (·.window)

/-! ## 3. Reordering the history -/

/-- Move `id` to position `rank` of the history. -/
def rankInHistory (id : NodeId) (rank : Nat) : TilingTree I :=
  let rest := t.focusHistory.filter (· != id)
  { t with focusHistory := rest.insertIdx (min rank rest.length) id }

def restoreFocusRank [DecidableEq I] (t : TilingTree I) (window : I) (rank : Nat) : TilingTree I :=
  match t.nodeForWindow window with
  | some node => t.rankInHistory node rank
  | none => t

/-- A split's new wrapper is raised just below its focused child. -/
def raiseSplitWrapper (child wrapper : NodeId) : TilingTree I :=
  if t.focus = some child then
    let rest := t.focusHistory.filter (· != wrapper)
    let index :=
      match rest.idxOf? child with
      | some index => index + 1
      | none => 0
    { t with focusHistory := rest.insertIdx index wrapper }
  else
    t

/-- The windows of the leaves in the history, in order. -/
def windowFocusHistory : List I :=
  t.focusHistory.filterMap fun node => (t.tile node).map (·.window)

def restoreWindowFocusHistory [DecidableEq I] (t : TilingTree I) (history : List I) :
    TilingTree I :=
  { t with focusHistory := history.filterMap t.nodeForWindow }

/-! ## 4. Refocusing after a transfer -/

/-- The most recent entry strictly inside `node`, ignoring `excluded` and everything inside it. -/
def focusInactiveInExcluding (node excluded : NodeId) : Option NodeId :=
  t.focusHistory.find? fun c =>
    c != node && t.contains c && t.containsNode node c && !t.containsNode excluded c

/-- The source passes `node` itself as excluded here. -/
def focusInactiveIn (node : NodeId) : Option NodeId :=
  t.focusInactiveInExcluding node node

/-- The refocus target for a container leaving `oldParent`, with the target's ancestors. -/
def transferFocusTarget (moved oldParent : Option NodeId) : Option (NodeId × List NodeId) :=
  let search := fun node =>
    match moved with
    | some moved => t.focusInactiveInExcluding node moved
    | none => t.focusInactiveIn node
  let underParent := (oldParent.filter (· != t.root)).bind search
  (underParent.or (search t.root)).map fun target => (target, t.ancestors target)

/-- The node `resolveTransferFocus` focuses: the target, or the active leaf under its nearest
    surviving ancestor. -/
def transferFocus (target : Option (NodeId × List NodeId)) : Option NodeId :=
  target.bind fun (target, ancestors) =>
    if t.contains target then
      some target
    else
      (ancestors.find? fun c => t.contains c).bind t.focusedLeafIn

def resolveTransferFocus (target : Option (NodeId × List NodeId)) : TilingTree I × Bool :=
  match t.transferFocus target with
  | some focus => (t.setFocusId (some focus), true)
  | none => (t, false)

end TilingTree

end Swayward
