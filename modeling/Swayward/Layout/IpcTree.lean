/-
  File:      Swayward/Layout/IpcTree.lean
  Subject:   A TREE AS IPC IS TOLD ABOUT IT (`IpcNode` in `tiling_tree/mod.rs`, `IpcSnapshot` in
             `tiling_tree/introspection.rs`, `workspace/ipc.rs`).

  `ipcTree` copies a tiling tree out of its arena. A floating group's tree hides its own root, so
  the copy starts at the group's container. `retainLeaves` drops windows from the copy and the
  containers that are empty then.

  * `TilingTree.entries_ipcNode` -- the copy has the nodes of a depth-first walk, in that order;
  * `SoundTree.windows_ipcTree`  -- and all windows of the tree;
  * `IpcNode.splitIds_retainLeaves`, `IpcNode.windows_retainLeaves` -- what dropping leaves takes.

  Left out: rectangles, percentages, titles and borders.
-/
import Mathlib.Data.List.Flatten
import Swayward.Layout.SoundTree

namespace Swayward

open List

variable {I : Type} {n : NodeId}

/-! ## 1. Copies of trees -/

/-- The fields of `IpcNode::Split` other than its children. -/
structure IpcSplit where
  id : NodeId
  layout : Layout := .splitH
  focus : List NodeId := []
  focused : Bool := false
  fullscreenMode : Option FullscreenMode := none
  sticky : Bool := false
  deriving DecidableEq

/-- The fields of `IpcNode::Leaf`. -/
structure IpcLeaf (I : Type) where
  id : NodeId
  window : I
  focused : Bool
  fullscreenMode : Option FullscreenMode
  sticky : Bool
  deriving DecidableEq

inductive IpcNode (I : Type)
  | split (info : IpcSplit) (children : List (IpcNode I))
  | leaf (info : IpcLeaf I)

inductive IpcNodeKind
  | split | leaf
  deriving DecidableEq, Repr

namespace IpcNode

variable (n : IpcNode I)

/-- A property of a node that holds when it holds of its children holds of every node. -/
@[elab_as_elim]
theorem induct {motive : IpcNode I → Prop}
    (split : ∀ info children, (∀ n ∈ children, motive n) → motive (.split info children))
    (leaf : ∀ info, motive (.leaf info)) (n : IpcNode I) : motive n :=
  n.rec (motive_2 := fun l => ∀ n ∈ l, motive n) split leaf (fun _ h => nomatch h)
    (fun _ _ h hs n hn => by
      rcases mem_cons.mp hn with rfl | hn
      · exact h
      · exact hs n hn)

def id : IpcNode I → NodeId
  | split info _ => info.id
  | leaf info => info.id

def isSplit : IpcNode I → Bool
  | split _ _ => true
  | leaf _ => false

def children : IpcNode I → List (IpcNode I)
  | split _ children => children
  | leaf _ => []

mutual

/-- The nodes of a copy, parents before children. -/
def entries : IpcNode I → List (IpcSplit ⊕ IpcLeaf I)
  | split info children => .inl info :: entriesAll children
  | leaf info => [.inr info]

def entriesAll : List (IpcNode I) → List (IpcSplit ⊕ IpcLeaf I)
  | [] => []
  | n :: ns => n.entries ++ entriesAll ns

end

theorem entriesAll_eq (l : List (IpcNode I)) : entriesAll l = l.flatMap entries := by
  induction l with
  | nil => rfl
  | cons n ns ih => rw [entriesAll, flatMap_cons, ih]

theorem entries_split (info : IpcSplit) (children : List (IpcNode I)) :
    (split info children).entries = .inl info :: children.flatMap entries := by
  rw [entries, entriesAll_eq]

theorem entries_leaf (info : IpcLeaf I) : (leaf info).entries = [.inr info] := by
  rw [entries]

/-- The identifier and the kind of a node. -/
def entryNode : IpcSplit ⊕ IpcLeaf I → NodeId × IpcNodeKind
  | .inl info => (info.id, .split)
  | .inr info => (info.id, .leaf)

def entryWindow : IpcSplit ⊕ IpcLeaf I → Option I
  | .inl _ => none
  | .inr info => some info.window

def entrySplit : IpcSplit ⊕ IpcLeaf I → Option NodeId
  | .inl info => some info.id
  | .inr _ => none

def entryFocused : IpcSplit ⊕ IpcLeaf I → Bool
  | .inl info => info.focused
  | .inr info => info.focused

/-- `nodes` -/
def nodes : List (NodeId × IpcNodeKind) := n.entries.map entryNode

theorem map_fst_nodes : n.nodes.map (·.1) = n.entries.map fun e => (entryNode e).1 := by
  unfold nodes
  rw [map_map]
  rfl

/-- The windows of the leaves, in order. -/
def windows : List I := n.entries.filterMap entryWindow

/-- The containers, in order. -/
def splitIds : List NodeId := n.entries.filterMap entrySplit

mutual

/-- `window_for_node` -/
def windowForNode (wanted : NodeId) : IpcNode I → Option I
  | leaf info => if info.id = wanted then some info.window else none
  | split _ children => windowInNodes wanted children

def windowInNodes (wanted : NodeId) : List (IpcNode I) → Option I
  | [] => none
  | n :: ns => (n.windowForNode wanted).or (windowInNodes wanted ns)

end

/-- `any_window` -/
def anyWindow (f : I → Bool) (n : IpcNode I) : Bool := n.windows.any f

theorem windows_split (info : IpcSplit) (children : List (IpcNode I)) :
    (split info children).windows = children.flatMap windows := by
  rw [windows, entries_split, filterMap_cons]
  exact filterMap_flatMap

theorem windows_leaf (info : IpcLeaf I) : (leaf info).windows = [info.window] := by
  rw [windows, entries_leaf]
  rfl

theorem splitIds_split (info : IpcSplit) (children : List (IpcNode I)) :
    (split info children).splitIds = info.id :: children.flatMap splitIds := by
  rw [splitIds, entries_split, filterMap_cons]
  exact congrArg (info.id :: ·) filterMap_flatMap

theorem splitIds_leaf (info : IpcLeaf I) : (leaf info).splitIds = [] := by
  rw [splitIds, entries_leaf]
  rfl

theorem nodes_split (info : IpcSplit) (children : List (IpcNode I)) :
    (split info children).nodes = (info.id, .split) :: children.flatMap nodes := by
  rw [nodes, entries_split, map_cons, map_flatMap]
  rfl

theorem nodes_leaf (info : IpcLeaf I) : (leaf info).nodes = [(info.id, .leaf)] := by
  rw [nodes, entries_leaf]
  rfl

/-- The leaves of a copy with their windows. -/
def leaves : List (NodeId × I) :=
  n.entries.filterMap fun
    | .inl _ => none
    | .inr info => some (info.id, info.window)

theorem leaves_split (info : IpcSplit) (children : List (IpcNode I)) :
    (split info children).leaves = children.flatMap leaves := by
  rw [leaves, entries_split, filterMap_cons]
  exact filterMap_flatMap

theorem windowInNodes_eq (wanted : NodeId) (l : List (IpcNode I)) :
    windowInNodes wanted l = l.findSome? (windowForNode wanted) := by
  induction l with
  | nil => rfl
  | cons n ns ih =>
    rw [windowInNodes, ih, findSome?_cons]
    cases n.windowForNode wanted <;> rfl

/-- The window of a node is that of the first leaf with its identifier. -/
theorem windowForNode_eq (wanted : NodeId) (n : IpcNode I) :
    n.windowForNode wanted = (n.leaves.find? fun e => e.1 == wanted).map (·.2) := by
  induction n using induct with
  | leaf info =>
    rw [windowForNode, leaves, entries_leaf]
    by_cases h : info.id = wanted <;> simp [h]
  | split info children ih =>
    rw [windowForNode, windowInNodes_eq, leaves_split]
    induction children with
    | nil => rfl
    | cons n ns hns =>
      rw [findSome?_cons, flatMap_cons, find?_append, ih n mem_cons_self,
        hns fun m hm => ih m (mem_cons_of_mem _ hm)]
      cases n.leaves.find? fun e => e.1 == wanted <;> rfl

theorem map_fst_leaves_sublist : (n.leaves.map (·.1)).Sublist (n.nodes.map (·.1)) := by
  unfold leaves nodes
  induction n.entries with
  | nil => exact Sublist.refl _
  | cons e es ih =>
    cases e with
    | inl info => exact ih.cons _
    | inr info => exact ih.cons_cons _

/-- A leaf's window is found under its identifier, if that is not taken twice. -/
theorem windowForNode_of_mem {n : IpcNode I} (h : (n.nodes.map (·.1)).Nodup) {info : IpcLeaf I}
    (hinfo : .inr info ∈ n.entries) : n.windowForNode info.id = some info.window := by
  have hmem : (info.id, info.window) ∈ n.leaves := mem_filterMap.mpr ⟨_, hinfo, rfl⟩
  have hnodup := h.sublist n.map_fst_leaves_sublist
  rw [windowForNode_eq]
  cases hfind : n.leaves.find? fun e => e.1 == info.id with
  | none => exact absurd (beq_self_eq_true info.id) (find?_eq_none.mp hfind _ hmem)
  | some e =>
    have he := inj_on_of_nodup_map hnodup (mem_of_find?_eq_some hfind) hmem
      (beq_iff_eq.mp (find?_some hfind :))
    rw [he]
    rfl

/-! ## 2. Dropping leaves -/

mutual

/-- What is left of a child: a leaf that is kept, or a container with something in it. -/
def retained (keep : I → Bool) : IpcNode I → Option (IpcNode I)
  | leaf info => if keep info.window then some (leaf info) else none
  | split info children =>
    match retainedAll keep children with
    | [] => none
    | kept => some (split info kept)

def retainedAll (keep : I → Bool) : List (IpcNode I) → List (IpcNode I)
  | [] => []
  | n :: ns => (n.retained keep).toList ++ retainedAll keep ns

end

/-- `retain_leaves`; the node itself stays. -/
def retainLeaves (keep : I → Bool) : IpcNode I → IpcNode I
  | split info children => split info (retainedAll keep children)
  | leaf info => leaf info

theorem retainedAll_eq (keep : I → Bool) (l : List (IpcNode I)) :
    retainedAll keep l = l.flatMap fun n => (n.retained keep).toList := by
  induction l with
  | nil => rfl
  | cons n ns ih => rw [retainedAll, flatMap_cons, ih]

theorem retained_split (keep : I → Bool) (info : IpcSplit) (children : List (IpcNode I)) :
    ((split info children).retained keep).toList = if retainedAll keep children = [] then []
      else [split info (retainedAll keep children)] := by
  rw [retained]
  cases retainedAll keep children <;> rfl

theorem length_eq_of_flatMap {α β γ : Type} {f : α → List β} {g : α → List γ} {l : List α}
    (hle : ∀ x ∈ l, (f x).length ≤ (g x).length)
    (h : (l.flatMap f).length = (l.flatMap g).length) :
    ∀ x ∈ l, (f x).length = (g x).length := by
  induction l with
  | nil => exact nofun
  | cons y l ih =>
    have hy := hle y mem_cons_self
    have hl : (l.flatMap f).length ≤ (l.flatMap g).length := by
      rw [length_flatMap, length_flatMap]
      exact sum_le_sum fun x hx => hle x (mem_cons_of_mem _ hx)
    rw [flatMap_cons, flatMap_cons, length_append, length_append] at h
    intro x hx
    rcases mem_cons.mp hx with rfl | hx
    · omega
    · exact ih (fun x hx => hle x (mem_cons_of_mem _ hx)) (by omega) x hx

section Retain

variable {keep : I → Bool}

/-- A reading of nodes that goes through the children of a container. -/
theorem flatMap_retainedAll {β : Type} (f : IpcNode I → List β) (children : List (IpcNode I)) :
    (retainedAll keep children).flatMap f =
      children.flatMap fun n => ((n.retained keep).toList).flatMap f := by
  rw [retainedAll_eq, flatMap_assoc]

theorem windows_retained : ((n.retained keep).toList).flatMap windows = n.windows.filter keep := by
  induction n using induct with
  | leaf info =>
    rw [retained, windows_leaf]
    by_cases h : keep info.window = true
    · simp [h, windows_leaf]
    · simp [h]
  | split info children ih =>
    have hall : (retainedAll keep children).flatMap windows =
        (children.flatMap windows).filter keep := by
      rw [flatMap_retainedAll, filter_flatMap]
      exact flatMap_congr ih
    rw [retained_split, windows_split, ← hall]
    split_ifs with hnil
    · rw [hnil]
    · rw [flatMap_singleton, windows_split]

/-- **Of the windows, those that are kept stay.** -/
theorem windows_retainLeaves (info : IpcSplit) (children : List (IpcNode I)) :
    ((split info children).retainLeaves keep).windows =
      (split info children).windows.filter keep := by
  rw [retainLeaves, windows_split, windows_split, flatMap_retainedAll, filter_flatMap]
  exact flatMap_congr fun n _ => windows_retained n

theorem entries_retained : (((n.retained keep).toList).flatMap entries).Sublist n.entries := by
  induction n using induct with
  | leaf info =>
    rw [retained]
    split
    · rw [Option.toList_some, flatMap_singleton]
    · exact nil_sublist _
  | split info children ih =>
    rw [retained_split]
    split
    · exact nil_sublist _
    · rw [flatMap_singleton, entries_split, entries_split, flatMap_retainedAll]
      exact (Sublist.flatMap_right _ ih).cons_cons _

/-- Nothing is added and nothing changes its place. -/
theorem entries_retainLeaves : (n.retainLeaves keep).entries.Sublist n.entries := by
  cases n with
  | leaf info => exact Sublist.refl _
  | split info children =>
    rw [retainLeaves, entries_split, entries_split, flatMap_retainedAll]
    exact (Sublist.flatMap_right _ fun n _ => entries_retained n).cons_cons _

mutual

/-- The nodes of a copy, with what is below each. -/
def subtrees : IpcNode I → List (IpcNode I)
  | split info children => split info children :: subtreesAll children
  | leaf info => [leaf info]

def subtreesAll : List (IpcNode I) → List (IpcNode I)
  | [] => []
  | n :: ns => n.subtrees ++ subtreesAll ns

end

theorem subtreesAll_eq (l : List (IpcNode I)) : subtreesAll l = l.flatMap subtrees := by
  induction l with
  | nil => rfl
  | cons n ns ih => rw [subtreesAll, flatMap_cons, ih]

theorem subtrees_split (info : IpcSplit) (children : List (IpcNode I)) :
    (split info children).subtrees = split info children :: children.flatMap subtrees := by
  rw [subtrees, subtreesAll_eq]

theorem subtrees_leaf (info : IpcLeaf I) : (leaf info).subtrees = [leaf info] := by
  rw [subtrees]

/-- A node with a window that is kept is kept. -/
theorem mem_nodes_retained {m : IpcNode I} (hm : m ∈ n.subtrees) (h : m.windows.any keep = true) :
    ∃ k, n.retained keep = some k ∧ m.id ∈ k.nodes.map (·.1) := by
  induction n using induct generalizing m with
  | leaf info =>
    rw [subtrees_leaf, mem_singleton] at hm
    subst hm
    have hkeep : keep info.window = true := by
      simpa [windows_leaf] using h
    exact ⟨leaf info, by rw [retained, if_pos hkeep], by simp [nodes_leaf, id]⟩
  | split info children ih =>
    -- a child is kept, so this node is, with what is kept of the child
    have hchild : ∀ child ∈ children, ∀ k, child.retained keep = some k →
        ∀ x ∈ info.id :: k.nodes.map (·.1), ∃ k', (split info children).retained keep = some k' ∧
          x ∈ k'.nodes.map (·.1) := by
      intro child hc k hk x hx
      have hin : k ∈ retainedAll keep children := by
        rw [retainedAll_eq]
        exact mem_flatMap.mpr ⟨child, hc, by rw [hk]; exact mem_singleton_self k⟩
      refine ⟨split info (retainedAll keep children), ?_, ?_⟩
      · rw [retained]
        cases hall : retainedAll keep children with
        | nil => exact absurd hall (ne_nil_of_mem hin)
        | cons _ _ => rfl
      · rw [nodes_split, map_cons]
        rcases mem_cons.mp hx with rfl | hx
        · exact mem_cons_self
        · refine mem_cons_of_mem _ ?_
          rw [map_flatMap]
          exact mem_flatMap.mpr ⟨k, hin, hx⟩
    rw [subtrees_split, mem_cons] at hm
    rcases hm with rfl | hm
    · rw [windows_split, any_flatMap] at h
      obtain ⟨child, hc, hw⟩ := any_eq_true.mp h
      have hself : child ∈ child.subtrees := by
        cases child <;> simp [subtrees_split, subtrees_leaf]
      obtain ⟨k, hk, -⟩ := ih child hc hself hw
      exact hchild child hc k hk _ mem_cons_self
    · obtain ⟨child, hc, hmc⟩ := mem_flatMap.mp hm
      obtain ⟨k, hk, hid⟩ := ih child hc hmc h
      exact hchild child hc k hk _ (mem_cons_of_mem _ hid)

theorem mem_nodes_retainLeaves {info : IpcSplit} {children : List (IpcNode I)} {m : IpcNode I}
    (hm : m ∈ (split info children).subtrees) (h : m.windows.any keep = true) :
    m.id ∈ ((split info children).retainLeaves keep).nodes.map (·.1) := by
  rw [retainLeaves, nodes_split, map_cons]
  rw [subtrees_split, mem_cons] at hm
  rcases hm with rfl | hm
  · exact mem_cons_self
  obtain ⟨child, hc, hmc⟩ := mem_flatMap.mp hm
  obtain ⟨k, hk, hid⟩ := mem_nodes_retained child hmc h
  refine mem_cons_of_mem _ ?_
  rw [map_flatMap, retainedAll_eq]
  refine mem_flatMap.mpr ⟨k, mem_flatMap.mpr ⟨child, hc, ?_⟩, hid⟩
  rw [hk]
  exact mem_singleton_self k

/-- Every container below this node has a window that is kept. -/
def KeepsContainers (keep : I → Bool) (n : IpcNode I) : Prop :=
  ∀ m ∈ n.children.flatMap subtrees, m.isSplit = true → m.windows.any keep = true

instance (keep : I → Bool) (n : IpcNode I) : Decidable (KeepsContainers keep n) :=
  inferInstanceAs (Decidable (∀ m ∈ n.children.flatMap subtrees, _))

theorem splitIds_retained (h : ∀ m ∈ n.subtrees, m.isSplit = true → m.windows.any keep = true) :
    ((n.retained keep).toList).flatMap splitIds = n.splitIds := by
  induction n using induct with
  | leaf info =>
    rw [retained, splitIds_leaf]
    split
    · rw [Option.toList_some, flatMap_singleton, splitIds_leaf]
    · rfl
  | split info children ih =>
    rw [subtrees, subtreesAll_eq] at h
    have hall : (retainedAll keep children).flatMap splitIds = children.flatMap splitIds := by
      rw [flatMap_retainedAll]
      refine flatMap_congr fun n hn => ih n hn fun m hm => h m ?_
      exact mem_cons_of_mem _ (mem_flatMap.mpr ⟨n, hn, hm⟩)
    rw [retained_split]
    split
    · -- nothing is left below, though a window is kept
      rename_i hnil
      have hkept := h _ mem_cons_self rfl
      have hwindows : (((split info children).retained keep).toList).flatMap windows =
          (split info children).windows.filter keep := windows_retained _
      rw [retained_split, if_pos hnil, flatMap_nil] at hwindows
      obtain ⟨w, hw, hk⟩ := any_eq_true.mp hkept
      exact absurd (mem_filter.mpr ⟨hw, hk⟩) (hwindows ▸ not_mem_nil)
    · rw [flatMap_singleton, splitIds_split, splitIds_split, hall]

theorem length_splitIds_retained_le :
    (((n.retained keep).toList).flatMap splitIds).length ≤ n.splitIds.length := by
  have hentries : (((n.retained keep).toList).flatMap entries).Sublist n.entries :=
    entries_retained n
  have h := (hentries.filterMap fun
    | .inl info => some info.id
    | .inr _ => none).length_le
  rwa [filterMap_flatMap] at h

/-- What is kept of a node has a window. -/
theorem any_windows_of_retained {k : IpcNode I} (h : n.retained keep = some k) :
    n.windows.any keep = true := by
  induction n using induct generalizing k with
  | leaf info =>
    obtain ⟨hkeep, -⟩ := Option.ite_none_right_eq_some.mp h
    simpa [windows_leaf] using hkeep
  | split info children ih =>
    have hlist := retained_split keep info children
    rw [h] at hlist
    cases hall : retainedAll keep children with
    | nil =>
      rw [if_pos hall] at hlist
      cases hlist
    | cons kept rest =>
      have hin : kept ∈ retainedAll keep children := hall ▸ mem_cons_self
      rw [retainedAll_eq] at hin
      obtain ⟨child, hchild, hkept⟩ := mem_flatMap.mp hin
      rw [windows_split, any_flatMap]
      exact any_eq_true.mpr ⟨child, hchild, ih child hchild (Option.mem_toList.mp hkept)⟩

/-- If no container is lost, each keeps a window. -/
theorem any_windows_of_splitIds
    (h : (((n.retained keep).toList).flatMap splitIds).length = n.splitIds.length) :
    ∀ m ∈ n.subtrees, m.isSplit = true → m.windows.any keep = true := by
  induction n using induct with
  | leaf info =>
    intro m hm hsplit
    rw [subtrees_leaf, mem_singleton] at hm
    rw [hm] at hsplit
    cases hsplit
  | split info children ih =>
    have hne : retainedAll keep children ≠ [] := by
      intro hnil
      rw [retained_split, if_pos hnil, splitIds_split] at h
      cases h
    have hkept : (split info children).retained keep =
        some (split info (retainedAll keep children)) := by
      have hlist := retained_split keep info children
      rw [if_neg hne] at hlist
      exact Option.mem_toList.mp (hlist ▸ mem_singleton_self _)
    rw [hkept, Option.toList_some, flatMap_singleton, splitIds_split, splitIds_split, length_cons,
      length_cons, flatMap_retainedAll] at h
    have heach := length_eq_of_flatMap (fun n _ => length_splitIds_retained_le n) (Nat.succ.inj h)
    intro m hm hsplit
    rw [subtrees_split, mem_cons] at hm
    rcases hm with rfl | hm
    · exact any_windows_of_retained _ hkept
    · obtain ⟨child, hchild, hm⟩ := mem_flatMap.mp hm
      exact ih child hchild (heach child hchild) m hm hsplit

/-- **No container is lost exactly if each keeps a window.** -/
theorem length_splitIds_retainLeaves {n : IpcNode I} :
    (n.retainLeaves keep).splitIds.length = n.splitIds.length ↔ n.KeepsContainers keep := by
  cases n with
  | leaf info => exact iff_of_true rfl nofun
  | split info children =>
    rw [retainLeaves, splitIds_split, splitIds_split, flatMap_retainedAll, length_cons, length_cons,
      Nat.succ_inj]
    constructor
    · intro h m hm
      obtain ⟨n, hn, hm⟩ := mem_flatMap.mp hm
      have heach := length_eq_of_flatMap (fun n _ => length_splitIds_retained_le n) h
      exact any_windows_of_splitIds n (heach n hn) m hm
    · intro h
      refine congrArg length (flatMap_congr fun n hn => splitIds_retained n fun m hm => h m ?_)
      exact mem_flatMap.mpr ⟨n, hn, hm⟩

theorem splitIds_retainLeaves_sublist :
    (n.retainLeaves keep).splitIds.Sublist n.splitIds :=
  (entries_retainLeaves n).filterMap _

end Retain

end IpcNode

/-! ## 3. The copy of a tiling tree -/

namespace TilingTree

variable (t : TilingTree I)

/-- `focus_order`: the children by recency, then those that never had the focus. -/
def focusOrder (children : List NodeId) : List NodeId :=
  (((t.focusHistory.filter fun focused => focused ∉ t.ipcStaleNodes).filterMap fun focused =>
      children.find? fun child => t.containsNode child focused) ++ children).foldl
    (fun focus child => if child ∈ focus then focus else focus ++ [child]) []

def ipcSplit (id : NodeId) (s : Split) : IpcSplit where
  id := id
  layout := s.layout
  focus := t.focusOrder s.children
  focused := t.focus == some id
  fullscreenMode := t.fullscreenMode id
  sticky := s.info.sticky

def ipcLeaf (id : NodeId) (tile : Tile I) : IpcLeaf I where
  id := id
  window := tile.window
  focused := t.focus == some id
  fullscreenMode := t.fullscreenMode id
  sticky := tile.isSticky

def ipcEntry (id : NodeId) : Option (IpcSplit ⊕ IpcLeaf I) :=
  match t.splitAt id, t.tile id with
  | some s, _ => some (.inl (t.ipcSplit id s))
  | none, some tile => some (.inr (t.ipcLeaf id tile))
  | none, none => none

def ipcNodeFrom (t : TilingTree I) : ℕ → NodeId → Option (IpcNode I)
  | 0, _ => none
  | fuel + 1, id =>
    match t.ipcEntry id with
    | some (.inl info) =>
      some (.split info ((t.children id).filterMap (t.ipcNodeFrom fuel)))
    | some (.inr info) => some (.leaf info)
    | none => none

/-- `IpcSnapshot::node` -/
def ipcNode (id : NodeId) : Option (IpcNode I) := t.ipcNodeFrom t.size id

/-- The node the copy starts at. -/
def ipcRoot : NodeId := t.residentRootNode.getD t.root

/-- `ipc_tree` -/
def ipcTree : IpcNode I :=
  (t.ipcNode t.ipcRoot).getD (.split { id := t.ipcRoot } [])

/-- The containers of a tree, as IPC counts them. -/
def containers : List NodeId := (t.depthFirst t.ipcRoot).filter t.isSplit

section Copy

open Arena Forest

variable {g : Prop} {D E : Set NodeId} {r : NodeId → ℕ} {t : TilingTree I}

theorem ipcNodeFrom_eq_fold (t : TilingTree I) (fuel : ℕ) (n : NodeId) :
    t.ipcNodeFrom fuel n = fold t.children (fun n l => match t.ipcEntry n with
        | some (.inl info) => some (.split info (l.filterMap id))
        | some (.inr info) => some (.leaf info) | none => none) none fuel n := by
  induction fuel generalizing n with
  | zero => rfl
  | succ fuel ih => simp only [ipcNodeFrom, fold, funext ih, filterMap_map, Function.id_comp]

theorem ipcNode_eq (h : Ok g D E r t.toArena) (hn : t.contains n = true) :
    t.ipcNode n = match t.ipcEntry n with
      | some (.inl info) => some (.split info ((t.children n).filterMap t.ipcNode))
      | some (.inr info) => some (.leaf info) | none => none := by
  have hf : t.ipcNode = fold t.children (fun n l =>
        match t.ipcEntry n with
        | some (.inl info) => some (.split info (l.filterMap id))
        | some (.inr info) => some (.leaf info)
        | none => none) none t.size :=
    funext (t.ipcNodeFrom_eq_fold t.size)
  rw [hf, fold_unfold h.ranked _ _ (h.covered hn) length_keys.le]
  simp only [filterMap_map, Function.id_comp]

theorem exists_ipcEntry (hn : t.contains n = true) :
    (∃ s, t.splitAt n = some s ∧ t.ipcEntry n = some (.inl (t.ipcSplit n s))) ∨
      ∃ tile, t.tile n = some tile ∧ t.splitAt n = none ∧
        t.ipcEntry n = some (.inr (t.ipcLeaf n tile)) := by
  cases hs : t.splitAt n with
  | some s => exact .inl ⟨s, rfl, by rw [ipcEntry, hs]⟩
  | none =>
    rcases (t.contains_iff n).mp hn with ⟨s, hs'⟩ | ⟨tile, ht⟩
    · rw [hs] at hs'
      cases hs'
    · exact .inr ⟨tile, ht, rfl, by rw [ipcEntry, hs, ht]⟩

/-- What is below a node is below its copy. -/
theorem exists_mem_subtrees (h : Ok g D E r t.toArena) (hn : t.contains n = true) :
    ∃ node, t.ipcNode n = some node ∧ node.id = n ∧
      ∀ m ∈ t.depthFirst n, ∃ copy ∈ node.subtrees, t.ipcNode m = some copy := by
  refine subtree_induction (P := fun n => t.contains n = true → ∃ node, t.ipcNode n = some node ∧
    node.id = n ∧ ∀ m ∈ t.depthFirst n, ∃ copy ∈ node.subtrees, t.ipcNode m = some copy)
    h.ranked (h.covered hn) (fun n ih hn => ?_) hn
  have heq := ipcNode_eq h hn
  rw [h.depthFirst_eq hn]
  rcases exists_ipcEntry hn with ⟨s, -, he⟩ | ⟨tile, ht, -, he⟩
  · rw [he] at heq
    refine ⟨_, heq, rfl, fun m hm => ?_⟩
    rw [IpcNode.subtrees_split]
    rcases mem_cons.mp hm with rfl | hm
    · exact ⟨_, mem_cons_self, heq⟩
    obtain ⟨child, hc, hmc⟩ := mem_flatMap.mp hm
    obtain ⟨node, hnode, -, hcopies⟩ := ih child hc (h.contains_kid hc)
    obtain ⟨copy, hcopy, hm⟩ := hcopies m hmc
    refine ⟨copy, mem_cons_of_mem _ (mem_flatMap.mpr ⟨node, ?_, hcopy⟩), hm⟩
    exact mem_filterMap.mpr ⟨child, hc, hnode⟩
  · rw [he] at heq
    refine ⟨_, heq, rfl, fun m hm => ?_⟩
    rw [children_of_tile ht, flatMap_nil, mem_singleton] at hm
    subst hm
    exact ⟨_, by rw [IpcNode.subtrees_leaf]; exact mem_singleton_self _, heq⟩

/-- **The copy of a subtree has its nodes, in the order of a depth-first walk.** -/
theorem entries_ipcNode (h : Ok g D E r t.toArena) (hn : t.contains n = true) :
    ∃ node, t.ipcNode n = some node ∧ node.entries = (t.depthFirst n).filterMap t.ipcEntry := by
  refine subtree_induction (P := fun n => t.contains n = true → ∃ node, t.ipcNode n = some node ∧
    node.entries = (t.depthFirst n).filterMap t.ipcEntry) h.ranked (h.covered hn)
    (fun n ih hn => ?_) hn
  rw [ipcNode_eq h hn, h.depthFirst_eq hn, filterMap_cons]
  rcases exists_ipcEntry hn with ⟨s, hs, he⟩ | ⟨tile, ht, -, he⟩
  · rw [he]
    refine ⟨_, rfl, ?_⟩
    rw [IpcNode.entries_split]
    refine congrArg _ ?_
    rw [filterMap_flatMap]
    exact Positions.flatMap_filterMap_of_forall fun c hc => ih c hc (h.contains_kid hc)
  · rw [he]
    refine ⟨_, rfl, ?_⟩
    rw [IpcNode.entries_leaf, children_of_tile ht]
    rfl

end Copy

end TilingTree

namespace SoundTree

open TilingTree Arena

variable (t : SoundTree I)

theorem exists_ok : ∃ r, Ok True ∅ ∅ r t.tree.toArena := t.wellFormed.arena.ok

/-- A group's tree is its root and the container below it. -/
theorem ipcRoot_cases : t.tree.ipcRoot = t.tree.root ∨
    t.tree.children t.tree.root = [t.tree.ipcRoot] := by
  unfold ipcRoot residentRootNode
  split
  · split
    · rename_i only hkids
      exact .inr hkids
    · exact .inl rfl
  · exact .inl rfl

theorem depthFirst_root : t.tree.depthFirst t.tree.root = t.tree.depthFirst t.tree.ipcRoot ∨
    t.tree.depthFirst t.tree.root = t.tree.root :: t.tree.depthFirst t.tree.ipcRoot := by
  obtain ⟨r, hok⟩ := t.exists_ok
  rcases t.ipcRoot_cases with e | hkids
  · exact .inl (by rw [e])
  · refine .inr ?_
    rw [hok.depthFirst_eq hok.contains_root, hkids, flatMap_singleton]

theorem contains_ipcRoot : t.tree.contains t.tree.ipcRoot = true := by
  obtain ⟨r, hok⟩ := t.exists_ok
  rcases t.ipcRoot_cases with e | hkids
  · rw [e]
    exact hok.contains_root
  · exact hok.contains_kid (hkids ▸ mem_singleton_self _)

/-- **The copy of a tree in order.** -/
theorem entries_ipcTree :
    t.tree.ipcTree.entries = (t.tree.depthFirst t.tree.ipcRoot).filterMap t.tree.ipcEntry := by
  obtain ⟨r, hok⟩ := t.exists_ok
  obtain ⟨node, hnode, hentries⟩ := entries_ipcNode hok t.contains_ipcRoot
  rw [ipcTree, hnode, Option.getD_some, hentries]

/-- A node below the root has its copy in the copy of the tree. -/
theorem exists_copy (h : n ∈ t.tree.depthFirst t.tree.ipcRoot) (hn : t.tree.contains n = true) :
    ∃ copy ∈ t.tree.ipcTree.subtrees, copy.id = n ∧
      copy.entries = (t.tree.depthFirst n).filterMap t.tree.ipcEntry := by
  obtain ⟨r, hok⟩ := t.exists_ok
  obtain ⟨root, hroot, -, hcopies⟩ := exists_mem_subtrees hok t.contains_ipcRoot
  obtain ⟨copy, hcopy, hm⟩ := hcopies n h
  obtain ⟨node, hnode, hentries⟩ := entries_ipcNode hok hn
  obtain ⟨node', hnode', hid, -⟩ := exists_mem_subtrees hok hn
  cases hm.symm.trans hnode
  cases hm.symm.trans hnode'
  refine ⟨copy, ?_, hid, hentries⟩
  rw [ipcTree, hroot, Option.getD_some]
  exact hcopy

theorem contains_of_mem_depthFirst
    (h : n ∈ t.tree.depthFirst t.tree.ipcRoot) : t.tree.contains n = true := by
  refine (t.wellFormed.arena.walk.2 n).mp ?_
  rcases t.depthFirst_root with e | e
  · rw [e]
    exact h
  · rw [e]
    exact mem_cons_of_mem _ h

theorem splitIds_ipcTree : t.tree.ipcTree.splitIds = t.tree.containers := by
  unfold IpcNode.splitIds containers
  rw [t.entries_ipcTree, filterMap_filterMap, ← filterMap_eq_filter]
  refine filterMap_congr fun n hn => ?_
  rcases exists_ipcEntry (t.contains_of_mem_depthFirst hn) with ⟨s, hs, he⟩ | ⟨tile, _, hs, he⟩
  · rw [he]
    simp [IpcNode.entrySplit, ipcSplit, isSplit, hs, Option.guard]
  · rw [he]
    simp [IpcNode.entrySplit, isSplit, hs, Option.guard]

theorem containers_sublist : t.tree.containers.Sublist (t.tree.depthFirst t.tree.root) := by
  refine filter_sublist.trans ?_
  rcases t.depthFirst_root with e | e
  · rw [e]
  · rw [e]
    exact sublist_cons_self _ _

/-- **The copy has all windows of the tree, in tree order.** -/
theorem windows_ipcTree : t.tree.ipcTree.windows = t.windows := by
  obtain ⟨r, hok⟩ := t.exists_ok
  have hroot := hok.tile_root
  have hwalk : (t.tree.depthFirst t.tree.root).filterMap t.tree.tile =
      (t.tree.depthFirst t.tree.ipcRoot).filterMap t.tree.tile := by
    rcases t.depthFirst_root with e | e
    · rw [e]
    · rw [e, filterMap_cons, hroot]
  rw [← t.map_window_tiles]
  unfold tiles TilingTree.tiles IpcNode.windows
  rw [hwalk, t.entries_ipcTree, filterMap_filterMap, map_filterMap]
  refine filterMap_congr fun n hn => ?_
  rcases exists_ipcEntry (t.contains_of_mem_depthFirst hn) with ⟨s, hs, he⟩ | ⟨tile, ht, _, he⟩
  · rw [he, tile_of_splitAt hs]
    rfl
  · rw [he, ht]
    rfl

/-- The entry that is marked focused is the one of the focus. -/
theorem entryFocused_of_mem {e : IpcSplit ⊕ IpcLeaf I} (h : e ∈ t.tree.ipcTree.entries) :
    IpcNode.entryFocused e = (t.tree.focus == some (IpcNode.entryNode e).1) := by
  rw [t.entries_ipcTree] at h
  obtain ⟨n, hn, he⟩ := mem_filterMap.mp h
  rcases exists_ipcEntry (t.contains_of_mem_depthFirst hn) with ⟨s, _, he'⟩ | ⟨tile, _, _, he'⟩
  · cases he.symm.trans he'
    rfl
  · cases he.symm.trans he'
    rfl

theorem ipcRoot_eq_root (h : t.tree.residentRoot = false) : t.tree.ipcRoot = t.tree.root := by
  unfold ipcRoot residentRootNode
  rw [h]
  rfl

theorem mem_depthFirst_ipcRoot (h : t.tree.residentRoot = false)
    (hn : t.tree.contains n = true) : n ∈ t.tree.depthFirst t.tree.ipcRoot := by
  rw [t.ipcRoot_eq_root h]
  exact (t.wellFormed.arena.walk.2 n).mpr hn

/-- The copy of a tiled tree starts at a container. -/
theorem exists_ipcTree_eq_split (h : t.tree.residentRoot = false) :
    ∃ info children, t.tree.ipcTree = .split info children := by
  obtain ⟨r, hok⟩ := t.exists_ok
  obtain ⟨s, hs⟩ := t.wellFormed.arena.root_split
  have hroot := t.ipcRoot_eq_root h
  have hentry : t.tree.ipcEntry t.tree.root = some (.inl (t.tree.ipcSplit t.tree.root s)) := by
    rw [ipcEntry, hs]
  refine ⟨t.tree.ipcSplit t.tree.root s, (t.tree.children t.tree.root).filterMap t.tree.ipcNode, ?_⟩
  rw [ipcTree, hroot, ipcNode_eq hok hok.contains_root, hentry]
  rfl

theorem map_fst_nodes_ipcTree :
    t.tree.ipcTree.nodes.map (·.1) = t.tree.depthFirst t.tree.ipcRoot := by
  unfold IpcNode.nodes
  rw [t.entries_ipcTree, map_map, map_filterMap]
  conv_rhs => rw [← filterMap_some (l := t.tree.depthFirst t.tree.ipcRoot)]
  refine filterMap_congr fun n hn => ?_
  rcases exists_ipcEntry (t.contains_of_mem_depthFirst hn) with ⟨s, _, he⟩ | ⟨tile, _, _, he⟩
  · rw [he]
    rfl
  · rw [he]
    rfl

/-- No node is copied twice. -/
theorem nodup_nodes_ipcTree : (t.tree.ipcTree.nodes.map (·.1)).Nodup := by
  rw [t.map_fst_nodes_ipcTree]
  obtain ⟨r, hok⟩ := t.exists_ok
  exact hok.nodup_depthFirst t.contains_ipcRoot

end SoundTree

end Swayward
