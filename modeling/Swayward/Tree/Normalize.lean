/-
  File:      Swayward/Tree/Normalize.lean
  Subject:   NORMALIZING: reaping empty splits, collapsing single children, squashing split pairs.

  The functions of `normalize.rs`. Each loop of the source removes at least one node per round, so
  the number of nodes is enough fuel.
-/
import Swayward.Tree.Configure

namespace Swayward

variable {I : Type}

namespace TilingTree

variable (t : TilingTree I)

/-! ## 1. Reaping -/

/-- The most recent view under `parent`, or under its nearest ancestor that has one. -/
def viewAfterReap (parent : NodeId) : Option NodeId :=
  (parent :: t.ancestors parent).findSome? fun p =>
    t.focusHistory.find? fun c => (t.tile c).isSome && t.containsNode p c

/-- Raise that view into the history, below the current focus. -/
def raiseViewAfterReap (parent : NodeId) : TilingTree I :=
  match t.viewAfterReap parent with
  | none => t
  | some view =>
    if t.focus = some view then
      t
    else
      let rest := t.focusHistory.filter (· != view)
      let index := if t.focus.isSome && rest.head? == t.focus then 1 else 0
      { t with focusHistory := rest.insertIdx (min index rest.length) view }

/-- One round of `reap_empty_from`: the empty split `id` below `parent` goes. -/
def reapNode (id parent : NodeId) : TilingTree I :=
  let t := if t.focus = some id then t.setFocusId (some parent) else t
  let t := t.removeNode id
  let t := { t with toArena := t.removeChild parent id }
  t.raiseViewAfterReap parent

def reapFrom : Nat → TilingTree I → NodeId → TilingTree I
  | 0, t, _ => t
  | fuel + 1, t, id =>
    match t.splitAt id, t.parentOf id with
    | some s, some parent =>
      if id = t.root || !s.children.isEmpty then t
      else reapFrom fuel (t.reapNode id parent) parent
    | _, _ => t

def reapEmptyFrom (id : NodeId) : TilingTree I := reapFrom t.size t id

/-! ## 2. Collapsing -/

/-- Put `child` in the place of its parent `id`, which goes; its fullscreen mode and the focus move
    down to the child. -/
def collapseNode (id parent child : NodeId) (index : Nat) : TilingTree I :=
  let a := t.modifySplit parent fun s => { s with children := s.children.set index child }
  let t := { t with toArena := a.setParent child (some parent) }
  let t :=
    match t.fullscreenMode id with
    | some fullscreen => t.setPendingFullscreen child (some fullscreen)
    | none => t
  let t := if t.focus = some id then t.setFocusId (some child) else t
  t.removeNode id

/-- The branch of `collapse_from` for an empty split: as reaping, without raising a view. -/
def dropEmpty (id parent : NodeId) : TilingTree I :=
  let t := if t.focus = some id then t.setFocusId (some parent) else t
  let t := t.removeNode id
  { t with toArena := t.removeChild parent id }

def collapseUp : Nat → TilingTree I → NodeId → TilingTree I
  | 0, t, _ => t
  | fuel + 1, t, id =>
    match t.splitAt id, t.parentOf id with
    | some s, some parent =>
      if id = t.root then
        t
      else
        match s.children with
        | [] => collapseUp fuel (t.dropEmpty id parent) parent
        | [child] =>
          match t.childIndex parent id with
          | some index => collapseUp fuel (t.collapseNode id parent child index) parent
          | none => t
        | _ => t
    | _, _ => t

def collapseFrom (id : NodeId) : TilingTree I := collapseUp t.size t id

/-! ## 3. Squashing -/

/-- A split holding a single split child of the perpendicular orientation, whose own parent runs
    parallel to that child, is redundant. -/
def isSquashable (id child : NodeId) : Bool :=
  match t.parentOf id with
  | none => false
  | some parent =>
    if t.residentRoot && parent == t.root then
      false
    else
      match t.splitAt parent, t.splitAt id, t.splitAt child with
      | some ps, some s, some cs =>
        s.children.length == 1 && s.layout.isSplit && cs.layout.isSplit &&
          !s.layout.parallel cs.layout && ps.layout.parallel cs.layout
      | _, _, _ => false

def squashableChild (id : NodeId) : Option NodeId :=
  match t.children id with
  | [child] => if t.isSquashable id child then some child else none
  | _ => none

/-- Replace the entry at `index` by several, each with its share. -/
def spliceAt (s : Split) (index : Nat) (kids : List NodeId) (shares : List ℚ) : Split :=
  { s with
    children := s.children.take index ++ kids ++ s.children.drop (index + 1)
    percents := s.percents.take index ++ shares ++ s.percents.drop (index + 1) }

/-- Make `parent` the parent of all of `ids`. -/
def adopt (a : Arena I) (ids : List NodeId) (parent : NodeId) : Arena I :=
  ids.foldl (fun a id => a.setParent id (some parent)) a

/-- The grandchildren take the place of the squashed pair, each with its part of the pair's
    share. -/
def squash (id : NodeId) : TilingTree I :=
  match t.parentOf id, t.squashableChild id with
  | some parent, some child =>
    match t.splitAt child, t.childIndex parent id with
    | some cs, some index =>
      let a := t.modifySplit parent fun s =>
        spliceAt s index cs.children (cs.percents.map ((s.percents[index]?.getD 0) * ·))
      let t := { t with toArena := adopt a cs.children parent }
      let t :=
        match (t.fullscreenMode id).or (t.fullscreenMode child) with
        | some fullscreen => t.setPendingFullscreen parent (some fullscreen)
        | none => t
      let t :=
        if t.focus = some id ∨ t.focus = some child then
          t.setFocusId (some (cs.children.head?.getD parent))
        else
          t
      (t.removeNode id).removeNode child
    | _, _ => t
  | _, _ => t

def compactFrom : Nat → TilingTree I → TilingTree I
  | 0, t => t
  | fuel + 1, t =>
    match (t.depthFirst t.root).find? fun id => (t.squashableChild id).isSome with
    | none => t
    | some id => compactFrom fuel (t.squash id)

def compactTree : TilingTree I := compactFrom t.size t

/-! ## 4. Squashing after a directional move -/

/-- Squash the pair at `id` as a move does: the grandchildren come in reversed with their own
    fractions, which are then normalized. The number of grandchildren is returned. A fullscreen
    mode of the pair is not moved on. -/
def squashPairForMove (id : NodeId) : Option (TilingTree I × Nat) :=
  match t.squashableChild id, t.parentOf id with
  | some child, some parent =>
    match t.splitAt child, t.childIndex parent id with
    | some cs, some index =>
      let a := t.modifySplit parent fun s =>
        let s := spliceAt s index cs.children.reverse cs.percents.reverse
        { s with percents := Shares.normalize s.percents }
      let t := { t with toArena := adopt a cs.children parent }
      let t :=
        if t.focus = some id ∨ t.focus = some child then
          t.setFocusId (some (cs.children.getLast?.getD parent))
        else
          t
      some ((t.removeNode id).removeNode child, cs.children.length)
    | _, _ => some (t, 1)
  | _, _ => none

/-- One top-down pass over the children of `id` from `index` on. -/
def squashWalk : Nat → TilingTree I → NodeId → Nat → TilingTree I
  | 0, t, _, _ => t
  | fuel + 1, t, id, index =>
    match t.childAt id index with
    | none => t
    | some child =>
      match t.squashPairForMove child with
      | some (t, moved) => squashWalk fuel t id (index + moved - 1 + 1)
      | none => squashWalk fuel (squashWalk fuel t child 0) id (index + 1)

/-- The share of a node whose fraction was zeroed becomes the average of its siblings'. -/
def averageShare (s : Split) (fresh : NodeId) : Split :=
  match s.children.idxOf? fresh with
  | none => s
  | some index =>
    if s.children.length < 2 then
      s
    else
      let average := (s.percents.eraseIdx index).sum / ((s.children.length - 1 : Nat) : ℚ)
      { s with percents := Shares.normalize (s.percents.set index average) }

/-- A chain of calls meets every node at most twice, as a child and as the end of a list: the fuel
    is enough. -/
def squashForMove (fresh : Option NodeId) : TilingTree I :=
  let t := squashWalk (2 * t.size + 1) t t.root 0
  match fresh with
  | none => t
  | some fresh =>
    match t.parentOf fresh with
    | none => t
    | some parent => { t with toArena := t.modifySplit parent (averageShare · fresh) }

end TilingTree

end Swayward
