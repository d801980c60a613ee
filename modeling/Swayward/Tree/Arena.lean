/-
  File:      Swayward/Tree/Arena.lean
  Subject:   THE ARENA: nodes under their identifiers, parent links, child lists, shares.

  The functions of `arena.rs` and `depth.rs` that touch the nodes only. What the source keeps in
  one global counter (`NODE_ID_COUNTER`) is a field here: the next identifier to hand out.

  The source's walks along parent or child links are unbounded loops. Here they carry fuel, the
  number of nodes; on a tree that is always enough.
-/
import Mathlib.Algebra.Field.Rat
import Mathlib.Algebra.Order.Ring.Rat
import Swayward.Library.Forest
import Swayward.Library.Shares
import Swayward.Tree.Node

namespace Swayward

structure Arena (I : Type) where
  nodes : FinMap NodeId (Node I)
  root : NodeId
  /-- The next value of the global identifier counter. -/
  counter : NodeId

namespace Arena

variable {I : Type} (a : Arena I)

/-! ## 1. Reading nodes -/

def get (id : NodeId) : Option (Node I) := a.nodes.lookup id

def contains (id : NodeId) : Bool := (a.get id).isSome

def parentOf (id : NodeId) : Option NodeId := (a.get id).bind (·.parent)

/-- The split stored under `id`, if it is one. -/
def splitAt (id : NodeId) : Option Split :=
  (a.get id).bind fun node =>
    match node.value with
    | .split s => some s
    | .leaf _ => none

def tile (a : Arena I) (id : NodeId) : Option (Tile I) :=
  (a.get id).bind fun node =>
    match node.value with
    | .split _ => none
    | .leaf tile => some tile

/-- The children listed under `id`; none for a leaf. -/
def children (a : Arena I) (id : NodeId) : List NodeId :=
  match a.splitAt id with
  | some s => s.children
  | none => []

def isSplit (id : NodeId) : Bool := (a.splitAt id).isSome

def layoutOf (id : NodeId) : Option Layout := (a.splitAt id).map (·.layout)

def childIndex (parent child : NodeId) : Option Nat :=
  (a.splitAt parent).bind fun s => s.children.idxOf? child

def childAt (parent : NodeId) (index : Nat) : Option NodeId :=
  (a.splitAt parent).bind fun s => s.children[index]?

def splitLen (id : NodeId) : Option Nat :=
  (a.splitAt id).map (·.children.length)

/-! ## 2. Writing nodes -/

def modify (a : Arena I) (id : NodeId) (f : Node I → Node I) : Arena I :=
  { a with nodes := a.nodes.modify id f }

def setParent (id : NodeId) (parent : Option NodeId) : Arena I :=
  a.modify id fun node => { node with parent := parent }

/-- Change the split stored under `id`; a leaf or a missing node stays as it is. -/
def modifySplit (id : NodeId) (f : Split → Split) : Arena I :=
  a.modify id fun node =>
    match node.value with
    | .split s => { node with value := .split (f s) }
    | .leaf _ => node

/-- The arena with `node` under `id`. -/
def put (id : NodeId) (node : Node I) : Arena I :=
  { a with nodes := a.nodes.insert id node }

def alloc (node : Node I) : Arena I × NodeId :=
  ({ a.put a.counter node with counter := a.counter + 1 }, a.counter)

def insertWithId (oldId : NodeId) (node : Node I) : Arena I × NodeId :=
  if a.contains oldId then
    a.alloc node
  else
    (a.put oldId node, oldId)

/-! ## 3. Child lists and shares -/

def insertChildAt (parent child : NodeId) (index : Nat) : Arena I :=
  if a.contains child && a.isSplit parent then
    (a.modifySplit parent fun s =>
      { s with
        children := s.children.insertIdx (min index s.children.length) child
        percents := Shares.insertShare s.percents (min index s.percents.length)
          (1 / ((s.children.length + 1 : Nat) : ℚ)) }).setParent child (some parent)
  else
    a

def insertChild (parent child : NodeId) (after : Option NodeId) : Arena I :=
  match a.splitAt parent with
  | none => a
  | some s =>
    let index :=
      match after.bind s.children.idxOf? with
      | some index => index + 1
      | none => s.children.length
    a.insertChildAt parent child index

/-- Give each of `fresh` the average share of the other children, then normalize. -/
def shareAsFresh (parent : NodeId) (fresh : List NodeId) : Arena I :=
  a.modifySplit parent fun s =>
    { s with percents := Shares.refresh (fresh.contains ·) s.children s.percents }

def setChildPercent (parent child : NodeId) (percent : ℚ) : Arena I :=
  a.modifySplit parent fun s =>
    match s.children.idxOf? child with
    | some index => { s with percents := s.percents.set index percent }
    | none => s

/-- Insert `child` at `index`, taking half of the share of `splitShareOf`. -/
def insertExistingChild (parent child : NodeId) (index : Nat) (splitShareOf : NodeId) : Arena I :=
  match a.splitAt parent with
  | none => a
  | some s =>
    match s.children.idxOf? splitShareOf with
    | none => a
    | some target =>
      match s.percents[target]? with
      | none => a
      | some x =>
        if a.contains child then
          let index := min index s.children.length
          (a.modifySplit parent fun s =>
            { s with
              children := s.children.insertIdx index child
              percents := Shares.halve s.percents target index x }).setParent
            child (some parent)
        else
          a

/-- Drop `child` from `parent`'s list; the remaining shares are rescaled to one. -/
def removeChild (parent child : NodeId) : Arena I :=
  a.modifySplit parent fun s =>
    match s.children.idxOf? child with
    | some index =>
      { s with
        children := s.children.eraseIdx index
        percents := Shares.rescale (s.percents.eraseIdx index) }
    | none => s

/-- Unlink `id` from its parent; the old parent is returned. -/
def detachSubtreeOnly (id : NodeId) : Option (Arena I × NodeId) :=
  (a.parentOf id).map fun parent => ((a.removeChild parent id).setParent id none, parent)

/-! ## 4. Walks -/

def size : Nat := a.nodes.entries.length

/-- The nodes on the way up from `id`, nearest first, `id` left out. -/
def ancestors (id : NodeId) : List NodeId := Forest.climb a.parentOf a.size id

/-- Whether `id` lies in the subtree of `ancestor`. -/
def containsNode (ancestor id : NodeId) : Bool :=
  id == ancestor || (a.ancestors id).contains ancestor

/-- The child of the root whose subtree holds `id`. -/
def rootBranch (id : NodeId) : Option NodeId :=
  (id :: a.ancestors id).find? fun n => a.parentOf n == some a.root

def collectDepthFirst (a : Arena I) : Nat → NodeId → List NodeId
  | 0, _ => []
  | fuel + 1, id =>
    if a.contains id then
      id :: (a.children id).flatMap (a.collectDepthFirst fuel)
    else
      []

/-- The nodes of the subtree at `id`, parents before children. -/
def depthFirst (id : NodeId) : List NodeId := a.collectDepthFirst a.size id

def collectLeafIds (a : Arena I) : Nat → NodeId → List NodeId
  | 0, _ => []
  | fuel + 1, id =>
    if (a.tile id).isSome then
      [id]
    else
      (a.children id).flatMap (a.collectLeafIds fuel)

def leafIdsIn (id : NodeId) : List NodeId := a.collectLeafIds a.size id

def firstLeafFrom (a : Arena I) : Nat → NodeId → Option NodeId
  | 0, _ => none
  | fuel + 1, id =>
    if (a.tile id).isSome then
      some id
    else
      (a.children id).findSome? (a.firstLeafFrom fuel)

def firstLeafIn (id : NodeId) : Option NodeId := a.firstLeafFrom a.size id

def firstLeaf : Option NodeId := a.firstLeafIn a.root

/-- The leaves with their windows, in tree order. -/
def windows : List (NodeId × I) :=
  (a.depthFirst a.root).filterMap fun id => (a.tile id).map fun tile => (id, tile.window)

def nodeForWindow [DecidableEq I] (a : Arena I) (window : I) : Option NodeId :=
  (a.windows.find? fun e => e.2 == window).map (·.1)

/-! ## 5. Depth -/

/-- Deepest nesting below a workspace root, counted in edges from the root. -/
def maxTreeDepth : Nat := 64

/-- Number of edges between `id` and the root. -/
def nodeDepth (id : NodeId) : Nat := (a.ancestors id).length

def heightFrom (a : Arena I) : Nat → NodeId → Nat
  | 0, _ => 1
  | fuel + 1, id => 1 + ((a.children id).map (a.heightFrom fuel)).foldr max 0

/-- Levels of containers at and below `id`. -/
def subtreeHeight (id : NodeId) : Nat := a.heightFrom a.size id

def canWrap (id : NodeId) : Bool :=
  a.nodeDepth id + a.subtreeHeight id ≤ maxTreeDepth

def canWrapRootChildren : Bool :=
  a.subtreeHeight a.root ≤ maxTreeDepth

/-- Whether a subtree of `height` levels fits below `parent`. -/
def fitsBelow (parent : NodeId) (height : Nat) : Bool :=
  a.nodeDepth parent + height ≤ maxTreeDepth

/-- Whether a subtree of `height` levels can replace `id` in place. -/
def fitsAt (id : NodeId) (height : Nat) : Bool :=
  a.nodeDepth id + height ≤ maxTreeDepth + 1

/-! ## 6. What the writing functions do to a reading one

Every writing function is described by what `contains`, `parentOf`, `splitAt` and `tile` answer
afterwards; `children` follows from `splitAt`. -/

section Readings

variable (a : Arena I) (id n : NodeId)

theorem get_modify (f : Node I → Node I) :
    (a.modify id f).get n = if n = id then (a.get id).map f else a.get n :=
  FinMap.lookup_modify a.nodes id n f

theorem contains_eq_true : a.contains n = true ↔ ∃ node, a.get n = some node := by
  simp [contains, Option.isSome_iff_exists]

theorem contains_of_parentOf {a : Arena I} {n p : NodeId} (h : a.parentOf n = some p) :
    a.contains n = true := by
  unfold parentOf at h
  cases e : a.get n with
  | none => simp [e] at h
  | some node => simp [contains, e]

theorem contains_of_splitAt {a : Arena I} {n : NodeId} {s : Split} (h : a.splitAt n = some s) :
    a.contains n = true := by
  unfold splitAt at h
  cases e : a.get n with
  | none => simp [e] at h
  | some node => simp [contains, e]

theorem contains_of_tile {a : Arena I} {n : NodeId} {tile : Tile I} (h : a.tile n = some tile) :
    a.contains n = true := by
  unfold Arena.tile at h
  cases e : a.get n with
  | none => simp [e] at h
  | some node => simp [contains, e]

theorem contains_iff : a.contains n = true ↔
    (∃ s, a.splitAt n = some s) ∨ ∃ tile, a.tile n = some tile := by
  constructor
  · intro h
    obtain ⟨⟨p, v⟩, e⟩ := (a.contains_eq_true n).mp h
    cases v with
    | split s => exact .inl ⟨s, by simp [splitAt, e]⟩
    | leaf tile => exact .inr ⟨tile, by simp [Arena.tile, e]⟩
  · rintro (⟨s, h⟩ | ⟨tile, h⟩)
    · exact contains_of_splitAt h
    · exact contains_of_tile h

theorem tile_of_splitAt {a : Arena I} {n : NodeId} {s : Split} (h : a.splitAt n = some s) :
    a.tile n = none := by
  unfold splitAt at h
  unfold Arena.tile
  cases e : a.get n with
  | none => simp [e] at h
  | some node =>
    obtain ⟨p, v⟩ := node
    cases v with
    | split s => simp
    | leaf tile => simp [e] at h

theorem children_of_splitAt {a : Arena I} {n : NodeId} {s : Split} (h : a.splitAt n = some s) :
    a.children n = s.children := by
  simp [children, h]

theorem ne_of_splitAt {a : Arena I} {n p : NodeId} {s : Split} (hn : a.splitAt n = none)
    (hs : a.splitAt p = some s) : n ≠ p := by
  rintro rfl
  rw [hs] at hn
  cases hn

theorem splitAt_of_mem_children {a : Arena I} {n c : NodeId} (h : c ∈ a.children n) :
    ∃ s, a.splitAt n = some s ∧ c ∈ s.children := by
  unfold children at h
  cases e : a.splitAt n with
  | none => simp [e] at h
  | some s => exact ⟨s, rfl, by simpa [e] using h⟩

theorem isSplit_eq_true : a.isSplit n = true ↔ ∃ s, a.splitAt n = some s := by
  simp [isSplit, Option.isSome_iff_exists]

/-! ### `setParent` -/

section

variable (p : Option NodeId)

theorem get_setParent :
    (a.setParent id p).get n =
      if n = id then (a.get id).map fun node => { node with parent := p } else a.get n :=
  a.get_modify id n _

@[simp] theorem contains_setParent : (a.setParent id p).contains n = a.contains n := by
  by_cases h : n = id
  · subst h; simp [contains, get_setParent]
  · simp [contains, get_setParent, h]

@[simp] theorem splitAt_setParent : (a.setParent id p).splitAt n = a.splitAt n := by
  by_cases h : n = id
  · subst h; cases e : a.get n <;> simp [splitAt, get_setParent, e]
  · simp [splitAt, get_setParent, h]

@[simp] theorem tile_setParent : (a.setParent id p).tile n = a.tile n := by
  by_cases h : n = id
  · subst h; cases e : a.get n <;> simp [Arena.tile, get_setParent, e]
  · simp [Arena.tile, get_setParent, h]

@[simp] theorem children_setParent : (a.setParent id p).children n = a.children n := by
  simp [children]

theorem parentOf_setParent :
    (a.setParent id p).parentOf n = if n = id ∧ a.contains id = true then p else a.parentOf n := by
  by_cases h : n = id
  · subst h; cases e : a.get n <;> simp [parentOf, get_setParent, contains, e]
  · simp [parentOf, get_setParent, h]

@[simp] theorem root_setParent : (a.setParent id p).root = a.root := rfl

@[simp] theorem counter_setParent : (a.setParent id p).counter = a.counter := rfl

end

/-! ### `modifySplit` -/

section

variable (f : Split → Split)

theorem splitAt_modifySplit :
    (a.modifySplit id f).splitAt n = if n = id then (a.splitAt id).map f else a.splitAt n := by
  by_cases h : n = id
  · subst h
    cases e : a.get n with
    | none => simp [splitAt, modifySplit, get_modify, e]
    | some node =>
      obtain ⟨p, v⟩ := node
      cases v <;> simp [splitAt, modifySplit, get_modify, e]
  · simp [splitAt, modifySplit, get_modify, h]

theorem bind_modifySplit {β : Type} (read : Node I → Option β)
    (h : ∀ p s, read ⟨p, .split (f s)⟩ = read ⟨p, .split s⟩) :
    ((a.modifySplit id f).get n).bind read = (a.get n).bind read := by
  by_cases hn : n = id
  · subst hn
    cases e : a.get n with
    | none => simp [modifySplit, get_modify, e]
    | some node =>
      obtain ⟨p, v⟩ := node
      cases v <;> simp [modifySplit, get_modify, e, h]
  · simp [modifySplit, get_modify, hn]

@[simp] theorem parentOf_modifySplit : (a.modifySplit id f).parentOf n = a.parentOf n :=
  a.bind_modifySplit _ _ f _ fun _ _ => rfl

@[simp] theorem tile_modifySplit : (a.modifySplit id f).tile n = a.tile n :=
  a.bind_modifySplit _ _ f _ fun _ _ => rfl

@[simp] theorem contains_modifySplit : (a.modifySplit id f).contains n = a.contains n := by
  by_cases h : n = id
  · subst h; simp [contains, modifySplit, get_modify]
  · simp [contains, modifySplit, get_modify, h]

@[simp] theorem root_modifySplit : (a.modifySplit id f).root = a.root := rfl

@[simp] theorem counter_modifySplit : (a.modifySplit id f).counter = a.counter := rfl

end

/-! ### Inserting under an identifier -/

theorem get_put (node : Node I) : (a.put id node).get n = if n = id then some node else a.get n :=
  FinMap.lookup_insert_eq a.nodes id n node

end Readings

end Arena

end Swayward
