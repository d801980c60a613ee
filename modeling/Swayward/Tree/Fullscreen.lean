/-
  File:      Swayward/Tree/Fullscreen.lean
  Subject:   FULLSCREEN AND MAXIMIZED MODES (`fullscreen.rs`).
-/
import Swayward.Tree.Normalize

namespace Swayward

variable {I : Type}

namespace TilingTree

variable (t : TilingTree I)

/-- End the fullscreen mode of `current` and forget what was recorded while it was on. -/
def endFullscreen (current : NodeId) : TilingTree I :=
  { t with
    pendingModes := FinMap.modify t.pendingModes current fun mode => { mode with fullscreen := none }
    mappedUnderFullscreen := ∅
    movedUnderFullscreen := ∅
    fullscreenLayoutWrappers := ∅
    preLayoutIpcRects := ∅ }

/-- Record the mode of `id` and bring the focus inside. -/
def beginFullscreen (id : NodeId) (mode : FullscreenMode) : TilingTree I :=
  let t := t.setPendingFullscreen id (some mode)
  if t.focus = some id then t else t.setFocusId (t.focusedLeafIn id)

def replaceFullscreenState (id : NodeId) (fullscreen : Option FullscreenMode) :
    TilingTree I × Bool :=
  if !t.contains id then
    (t, false)
  else
    let current := t.fullscreenNode
    if (fullscreen.isNone && current != some id) ||
        (current == some id && t.fullscreenMode id == fullscreen) then
      (t, false)
    else
      let t := { t with fullscreenTileSlot := false, fullscreenArrived := false }
      let t :=
        match current with
        | some current => t.endFullscreen current
        | none => t
      let t :=
        match fullscreen with
        | some mode => t.beginFullscreen id mode
        | none => t
      (t.cancelResizeFor id, true)

def setNodeFullscreen (id : NodeId) (fullscreen : Option FullscreenMode) : TilingTree I × Bool :=
  match t.replaceFullscreenState id fullscreen with
  | (t, true) => (t.requestWindowSizes, true)
  | (t, false) => (t, false)

/-- Let the fullscreen node report its tiled slot. -/
def arrangeFullscreenParent : TilingTree I :=
  match t.fullscreenNode with
  | none => t
  | some fullscreen =>
    let focusedInside :=
      match t.focus with
      | some focus => t.containsNode fullscreen focus
      | none => false
    let dividesBox :=
      match t.parentOf fullscreen with
      | some parent =>
        parent != t.root && (t.layoutOf parent == some .splitH || t.layoutOf parent == some .splitV)
      | none => false
    if focusedInside && dividesBox then { t with fullscreenTileSlot := true } else t

def markFullscreenArrived : TilingTree I :=
  if t.fullscreenNode.isSome then { t with fullscreenArrived := true } else t

variable [DecidableEq I] (t : TilingTree I)

def setFullscreen (window : I) (fullscreen : Bool) : TilingTree I × Bool :=
  match t.nodeForWindow window with
  | some id => t.setNodeFullscreen id (if fullscreen then some .workspace else none)
  | none => (t, false)

def setMaximized (window : I) (maximized : Bool) : TilingTree I × Bool :=
  match t.nodeForWindow window with
  | none => (t, false)
  | some id =>
    let mode := (t.pendingModes.lookup id).getD {}
    if mode.maximized = maximized then
      -- the entry is created even when nothing changes
      ({ t with pendingModes := t.pendingModes.insert id mode }, false)
    else
      let t := { t with
        pendingModes := t.pendingModes.insert id { mode with maximized := maximized } }
      ((t.cancelResizeFor id).requestWindowSizes, true)

end TilingTree

end Swayward
