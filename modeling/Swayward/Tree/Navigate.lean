/-
  File:      Swayward/Tree/Navigate.lean
  Subject:   FOCUS COMMANDS (`focus.rs`): parent, child, sibling, direction, first, last, extreme.

  Every command picks a node and focuses it; the picking is a function of its own where it walks.
-/
import Swayward.Tree.Transfer

namespace Swayward

variable {I : Type}

namespace TilingTree

variable (t : TilingTree I)

/-! ## 1. A given node -/

def focusRoot : TilingTree I := t.setFocusId (some t.root)

def setFocus (id : NodeId) : TilingTree I :=
  if t.contains id then t.setFocusId (some id) else t

def focusInactiveLeafOf (id : NodeId) : TilingTree I :=
  match t.focusedLeafIn id with
  | some leaf => t.setFocusId (some leaf)
  | none => t

def activateWindow [DecidableEq I] (t : TilingTree I) (window : I) : TilingTree I × Bool :=
  match t.nodeForWindow window with
  | some id => (t.setFocusId (some id), true)
  | none => (t, false)

def focusFirst : TilingTree I := t.setFocusId t.firstLeaf

def focusLast : TilingTree I :=
  t.setFocusId (((t.depthFirst t.root).filter fun id => (t.tile id).isSome).getLast?)

def focusWindowInSubtree (subtree : NodeId) (index : Nat) : TilingTree I :=
  match (t.leafIdsIn subtree)[index]? with
  | some leaf => t.setFocusId (some leaf)
  | none => t

def focusWindowInParent (index : Nat) : TilingTree I :=
  match t.focus.bind t.parentOf with
  | some subtree => t.focusWindowInSubtree subtree index
  | none => t

def focusRootChild (index : Nat) : TilingTree I :=
  match (t.children t.root)[index]? with
  | some branch => t.setFocusId ((t.firstLeafIn branch).or t.focus)
  | none => t

def focusLastRootChild : TilingTree I :=
  if (t.children t.root).isEmpty then t else t.focusRootChild ((t.children t.root).length - 1)

/-! ## 2. Parent, child, output -/

def focusParent : TilingTree I × Bool :=
  match t.focus with
  | none => (t, false)
  | some focus =>
    if t.fullscreenNode = some focus then
      (t, false)
    else
      match t.parentOf focus with
      | none => (t, false)
      | some parent => (t.setFocusId (some parent), true)

def focusChild : TilingTree I × Bool :=
  match t.focus.bind t.focusedChildIn with
  | some child => (t.setFocusId (some child), true)
  | none => (t, false)

/-- The leaf that focus coming from another output lands on. -/
def outputEntry (dir : Direction) : Option NodeId :=
  match t.fullscreenNode with
  | some fullscreen => t.focusedLeafIn fullscreen
  | none =>
    if t.rootLayout.parallel dir.axis then
      (if dir.isBackwards then (t.children t.root).getLast?
        else (t.children t.root).head?).bind t.focusedLeafIn
    else
      t.focusedLeafIn t.root

def focusFromOutputDirection (dir : Direction) : TilingTree I × Bool :=
  let target := t.outputEntry dir
  (t.setFocusId target, target.isSome)

/-- The nearest tabbed or stacked split above `child`. -/
def nearestStrip (t : TilingTree I) : Nat → NodeId → Option NodeId
  | 0, _ => none
  | fuel + 1, child =>
    match t.parentOf child with
    | none => none
    | some parent =>
      match t.layoutOf parent with
      | none => none
      | some layout => if layout.isSplit then t.nearestStrip fuel parent else some parent

/-- The leaf that scrolling `steps` tabs from the shown one lands on; `none` inside if the tab has
    no leaf. -/
def scrolledTab (id : NodeId) (steps : Int) : Option (Option NodeId) :=
  (t.nearestStrip t.size id).bind fun parent =>
    (t.focusedChildIn parent).bind fun active =>
      ((t.children parent).idxOf? active).map fun index =>
        let last := (t.children parent).length - 1
        let desired := (max 0 (min ((index : Int) + steps) last)).toNat
        ((t.children parent)[desired]?).bind t.focusedLeafIn

def scrollTabIndicator [DecidableEq I] (t : TilingTree I) (window : I) (steps : Int) :
    TilingTree I × Option I :=
  match (t.nodeForWindow window).bind fun id => t.scrolledTab id steps with
  | none => (t, none)
  | some focus => (t.setFocusId focus, (focus.bind t.tile).map (·.window))

/-! ## 3. Siblings -/

/-- The far end of a list, seen from the end a walk has reached. -/
def farEnd (children : List NodeId) (backwards : Bool) : Option NodeId :=
  if backwards then children.getLast? else children.head?

/-- The node `focus next|prev sibling` lands on. -/
def siblingTarget (t : TilingTree I) (axis : Layout) (backwards : Bool) :
    Nat → Option NodeId → NodeId → Option NodeId
  | 0, wrap, _ => wrap
  | fuel + 1, wrap, current =>
    match t.parentOf current with
    | none => wrap
    | some parent =>
      match t.splitAt parent with
      | none => none
      | some s =>
        if s.layout.parallel axis then
          match s.children.idxOf? current with
          | none => none
          | some index =>
            match neighbour s.children index backwards with
            | some target => some target
            | none =>
              if t.options.focusWrapping ≠ .no ∧ s.children.length > 1 ∧ wrap = none then
                if t.options.focusWrapping = .force then farEnd s.children backwards
                else t.siblingTarget axis backwards fuel (farEnd s.children backwards) parent
              else
                t.siblingTarget axis backwards fuel wrap parent
        else
          t.siblingTarget axis backwards fuel wrap parent

/-- SplitH for a split along the horizontal axis, SplitV otherwise. -/
def Layout.axis : Layout → Layout
  | .splitH | .tabbed => .splitH
  | .splitV | .stacked => .splitV

def focusNextPrevSibling (next : Bool) : TilingTree I × Bool :=
  match t.focus with
  | none => (t, false)
  | some focus =>
    match (t.parentOf focus).bind t.layoutOf with
    | none => (t, false)
    | some layout =>
      match t.siblingTarget (Layout.axis layout) (!next) t.size none focus with
      | some target => (t.setFocusId (some target), true)
      | none => (t, false)

/-! ## 4. Directions -/

/-- The node `focus <direction>` descends from: the neighbour in the nearest ancestor along that
    axis, or with wrapping the far end of that ancestor. A fullscreen node is not left. -/
def directionalTarget (t : TilingTree I) (dir : Direction) (allowWrap : Bool)
    (barrier : Option NodeId) : Nat → Option NodeId → NodeId → Option NodeId
  | 0, wrap, _ => wrap
  | fuel + 1, wrap, current =>
    match t.parentOf current with
    | none => wrap
    | some parent =>
      if barrier = some current then
        wrap
      else
        match t.splitAt parent with
        | none => none
        | some s =>
          let climb : Option NodeId → Option NodeId := fun wrap =>
            if barrier = some parent then wrap
            else t.directionalTarget dir allowWrap barrier fuel wrap parent
          if s.layout.parallel dir.axis then
            match s.children.idxOf? current with
            | none => none
            | some index =>
              match neighbour s.children index dir.isBackwards with
              | some target => some target
              | none =>
                if allowWrap = true ∧ t.options.focusWrapping ≠ .no ∧
                    s.children.length > 1 then
                  if t.options.focusWrapping = .force then
                    farEnd s.children dir.isBackwards
                  else
                    climb (wrap.or (farEnd s.children dir.isBackwards))
                else
                  climb wrap
          else
            climb wrap

def directionalFocusTarget (dir : Direction) (allowWrap : Bool) : Option NodeId :=
  (t.focus.bind fun focus =>
    t.directionalTarget dir allowWrap t.fullscreenNode t.size none focus).bind t.focusedLeafIn

def focusDirectionInner (dir : Direction) (allowWrap : Bool) : TilingTree I × Bool :=
  let next := t.directionalFocusTarget dir allowWrap
  (t.setFocusId (next.or t.focus), next.isSome)

def focusDirection (dir : Direction) : TilingTree I × Bool :=
  t.focusDirectionInner dir true

def focusDirectionWithoutWrap (dir : Direction) : TilingTree I × Bool :=
  t.focusDirectionInner dir false

def focusNextOrPrev (next : Bool) : TilingTree I × Bool :=
  match (t.focus.bind t.parentOf).bind t.layoutOf with
  | none => (t, false)
  | some layout =>
    match Layout.axis layout with
    | .splitH => t.focusDirection (if next then .right else .left)
    | _ => t.focusDirection (if next then .down else .up)

/-! ## 5. The topmost and bottommost leaf -/

/-- The first of the leaves with the smallest key. -/
def leastLeaf (keyed : List (NodeId × ℚ)) : Option NodeId :=
  (keyed.foldl (fun (best : Option (NodeId × ℚ)) e =>
    match best with
    | none => some e
    | some b => if e.2 < b.2 then some e else some b) none).map (·.1)

def extremeLeaf (bottom : Bool) : Option NodeId :=
  let boxes := t.computeGeometry.leafBoxes
  let visible := t.visibleLeaves
  let edge := fun rect : Rect => if bottom then -(rect.loc.y + rect.size.h) else rect.loc.y
  leastLeaf (((t.depthFirst t.root).filter (visible.contains ·)).filterMap fun id =>
    (boxes.lookup id).map fun rect => (id, edge rect))

def focusExtreme (bottom : Bool) : TilingTree I :=
  t.setFocusId ((t.extremeLeaf bottom).or t.focus)

/-! ## 6. Sorting the history -/

/-- Keep the leaves of the history only, most recently focused window first. -/
def sortFocusHistoryByTimestamp : TilingTree I :=
  let key := fun node => (t.tile node).bind (·.focusTimestamp)
  -- a window never focused has no timestamp and sorts last
  let newer : NodeId → NodeId → Bool := fun a b =>
    match key a, key b with
    | some x, some y => decide (y ≤ x)
    | some _, none => true
    | none, some _ => false
    | none, none => true
  { t with
    focusHistory := (t.focusHistory.filter fun id => (t.tile id).isSome).mergeSort newer }

end TilingTree

end Swayward
