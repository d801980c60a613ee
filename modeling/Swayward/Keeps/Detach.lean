/-
  File:      Swayward/Keeps/Detach.lean
  Subject:   TAKING A SUBTREE OUT: what leaves, and what stays.

  `takeDetachedNode` walks down a subtree and removes as it goes. What leaves is read off the tree
  before the walk (`snapshot`), and what stays is that tree with the nodes of the subtree removed
  (`takeDetachedNode_eq`); so everything about a detached node is a fact about the tree it came
  from, and everything about the rest is a fact about removing a list of nodes.
-/
import Swayward.Keeps.Directional

namespace Swayward

open Arena Forest Positions List

variable {I : Type}

/-! ## 1. Parts of a detached node -/

namespace DetachedNode

mutual

/-- The node and everything in it, parents first. -/
def subnodes : DetachedNode I → List (DetachedNode I)
  | .split oldId layout children percents info mode =>
    .split oldId layout children percents info mode :: subnodesOf children
  | .leaf oldId tile mode mapped => [.leaf oldId tile mode mapped]

def subnodesOf : List (DetachedNode I) → List (DetachedNode I)
  | [] => []
  | node :: nodes => node.subnodes ++ subnodesOf nodes

end

theorem subnodesOf_eq (nodes : List (DetachedNode I)) :
    subnodesOf nodes = nodes.flatMap subnodes := by
  induction nodes with
  | nil => rfl
  | cons node nodes ih => rw [subnodesOf, ih, flatMap_cons]

def oldId : DetachedNode I → NodeId
  | .split oldId .. => oldId
  | .leaf oldId .. => oldId

def tile : DetachedNode I → Option (Tile I)
  | .split .. => none
  | .leaf _ tile _ _ => some tile

/-- The mark a leaf carries along. -/
def mapped : DetachedNode I → Bool
  | .split .. => false
  | .leaf _ _ _ mapped => mapped

end DetachedNode

namespace TilingTree

variable {c : Ctx I} {D E : Set NodeId} {t : TilingTree I} {id n : NodeId} {g : Prop}
  {r : NodeId → ℕ}

/-! ## 2. Reading a subtree -/

/-- One node in detached form, given its children in detached form. -/
def detachedAs (t : TilingTree I) (n : NodeId) (nodes : List (DetachedNode I)) : DetachedNode I :=
  match t.tile n with
  | some tile => .leaf n tile (t.pendingModes.lookup n) (decide (n ∈ t.mappedUnderFullscreen))
  | none =>
    match t.splitAt n with
    | some s => .split n s.layout nodes s.percents s.info (t.pendingModes.lookup n)
    | none => .split n .splitH [] [] {} none

/-- The subtree of `n` in detached form. -/
def snapshot (t : TilingTree I) (n : NodeId) : DetachedNode I :=
  fold t.children t.detachedAs (.split 0 .splitH [] [] {} none) t.size n

section

variable (h : Ok g D E r t.toArena)
include h

theorem snapshot_eq (hn : t.contains n = true) :
    t.snapshot n = t.detachedAs n ((t.children n).map t.snapshot) :=
  fold_unfold h.ranked _ _ (h.covered hn) length_keys.le

theorem snapshot_leaf {tile : Tile I} (ht : t.tile n = some tile) :
    t.snapshot n =
      .leaf n tile (t.pendingModes.lookup n) (decide (n ∈ t.mappedUnderFullscreen)) := by
  rw [snapshot_eq h (contains_of_tile ht), detachedAs, ht]

theorem snapshot_split {s : Split} (hs : t.splitAt n = some s) :
    t.snapshot n = .split n s.layout (s.children.map t.snapshot) s.percents s.info
      (t.pendingModes.lookup n) := by
  rw [snapshot_eq h (contains_of_splitAt hs), detachedAs, tile_of_splitAt hs, hs,
    children_of_splitAt hs]

/-- The parts of a snapshot are the snapshots of the nodes below. -/
theorem subnodes_snapshot (hn : t.contains n = true) :
    (t.snapshot n).subnodes = (t.depthFirst n).map t.snapshot := by
  refine subtree_induction (P := fun n => t.contains n = true →
    (t.snapshot n).subnodes = (t.depthFirst n).map t.snapshot) h.ranked (h.covered hn)
    (fun n ih hn => ?_) hn
  rw [h.depthFirst_eq hn]
  rcases (t.contains_iff n).mp hn with ⟨s, hs⟩ | ⟨tile, ht⟩
  · rw [map_cons, snapshot_split h hs, DetachedNode.subnodes, DetachedNode.subnodesOf_eq,
      flatMap_map, children_of_splitAt hs, map_flatMap]
    congr 1
    refine flatMap_congr fun c hc => ?_
    have hc := children_of_splitAt hs ▸ hc
    exact ih c hc (h.contains_kid hc)
  · rw [snapshot_leaf h ht, children_of_tile ht, DetachedNode.subnodes]
    simp [snapshot_leaf h ht]

theorem oldId_snapshot (hn : t.contains n = true) : (t.snapshot n).oldId = n := by
  rcases (t.contains_iff n).mp hn with ⟨s, hs⟩ | ⟨tile, ht⟩
  · rw [snapshot_split h hs]
    rfl
  · rw [snapshot_leaf h ht]
    rfl

end

/-! ## 3. The walk -/

theorem lookup_pendingModes_foldl (N : List NodeId) (t : TilingTree I) (hn : n ∉ N) :
    (N.foldl removeNode t).pendingModes.lookup n = t.pendingModes.lookup n := by
  induction N generalizing t with
  | nil => rfl
  | cons x N ih =>
    obtain ⟨hx, hN⟩ := not_or.mp (fun h => hn (mem_cons.mpr h))
    rw [foldl_cons, ih _ hN]
    by_cases hc : t.contains x = true
    · rw [lookup_pendingModes_removeNode hc, if_neg hx]
    · simp [removeNode, hc]

theorem mem_mapped_foldl (N : List NodeId) (t : TilingTree I) (hn : n ∉ N) :
    n ∈ (N.foldl removeNode t).mappedUnderFullscreen ↔ n ∈ t.mappedUnderFullscreen := by
  induction N generalizing t with
  | nil => rfl
  | cons x N ih =>
    obtain ⟨hx, hN⟩ := not_or.mp (fun h => hn (mem_cons.mpr h))
    rw [foldl_cons, ih _ hN]
    unfold removeNode
    split
    · simp [hx]
    · rfl

/-- Taking several subtrees in turn, if each is taken in full whatever else is gone. -/
theorem takeEach_eq {take : TilingTree I → NodeId → Option (TilingTree I × DetachedNode I)}
    {ids : List NodeId}
    (ih : ∀ c ∈ ids, ∀ l, (∀ n ∈ l, ¬ Below t.children c n) → take (l.foldl removeNode t) c =
      some ((l ++ t.depthFirst c).foldl removeNode t, t.snapshot c))
    (hdepth : ∀ c ∈ ids, ∀ n ∈ t.depthFirst c, Below t.children c n)
    (hapart : ids.Pairwise fun c d => ∀ n, Below t.children c n → ¬ Below t.children d n)
    {l : List NodeId} (hl : ∀ c ∈ ids, ∀ n ∈ l, ¬ Below t.children c n) :
    takeEach take (l.foldl removeNode t) ids =
      some ((l ++ ids.flatMap t.depthFirst).foldl removeNode t, ids.map t.snapshot) := by
  induction ids generalizing l with
  | nil => simp [takeEach]
  | cons c ids ihs =>
    obtain ⟨hc, hapart⟩ := pairwise_cons.mp hapart
    rw [takeEach, ih c (by simp) l (hl c (by simp))]
    simp only
    rw [ihs (fun d hd => ih d (by simp [hd])) (fun d hd => hdepth d (by simp [hd])) hapart ?_]
    · simp
    intro d hd n hn
    rcases mem_append.mp hn with hn | hn
    · exact hl d (by simp [hd]) n hn
    · exact hc d hd n (hdepth c (by simp) n hn)

/-- **What `takeDetachedNode` returns**: the snapshot of the subtree, and the tree without it. -/
theorem takeDetachedNode_eq (h : Ok g D E r t.toArena) :
    ∀ (fuel : ℕ) (id : NodeId) (L l : List NodeId), CoveredBy t.children id L →
      L.length ≤ fuel → t.contains id = true → (∀ n ∈ l, ¬ Below t.children id n) →
      takeDetachedNode fuel (l.foldl removeNode t) id =
        some ((l ++ t.depthFirst id).foldl removeNode t, t.snapshot id)
  | 0, id, L, l, hL, hlen, _, _ => by
      have := hL.length_erase
      omega
  | fuel + 1, id, L, l, hL, hlen, hid, hl => by
      have hidl : id ∉ l := fun hmem => hl id hmem (Below.refl id)
      have hget : (l.foldl removeNode t).get id = t.get id := by
        rw [(erases_foldl_removeNode l t).get, if_neg hidl]
      have hstep : (l.foldl removeNode t).removeNode id = (l ++ [id]).foldl removeNode t := by
        simp
      rw [takeDetachedNode, hget, hstep, lookup_pendingModes_foldl l t hidl,
        decide_eq_decide.mpr (mem_mapped_foldl l t hidl)]
      rcases (t.contains_iff id).mp hid with ⟨s, hs⟩ | ⟨tile, ht⟩
      · obtain ⟨node, hnode, hvalue⟩ := Option.bind_eq_some_iff.mp hs
        have hvalue : node.value = .split s := by
          split at hvalue
          · cases hvalue
            assumption
          · cases hvalue
        have hk := children_of_splitAt hs
        have hkid : ∀ c ∈ s.children, c ∈ t.children id := fun c hc => hk ▸ hc
        have hlen' := hL.length_erase
        rw [hnode]
        simp only [hvalue]
        rw [takeEach_eq (fun c hc l hl =>
            takeDetachedNode_eq h fuel c (L.erase id) l (hL.kid h.ranked (hkid c hc)) (by omega)
              (h.contains_kid (hkid c hc)) hl)
          (fun c hc n hn => (h.mem_depthFirst (h.contains_kid (hkid c hc))).mp hn)
          ((h.sound hs).nodup.imp_of_mem fun hc hd hne n hn =>
            h.siblings_apart (hkid _ hc) (hkid _ hd) hne hn) (fun c hc n hn => ?_)]
        · rw [snapshot_split h hs, h.depthFirst_eq hid, hk]
          simp
        rcases mem_append.mp hn with hn | hn
        · exact fun hb => hl n hn ((Below.of_kid (hkid c hc)).trans hb)
        · rw [mem_singleton.mp hn]
          exact h.ranked.not_below_kid (hkid c hc)
      · obtain ⟨node, hnode, hvalue⟩ := Option.bind_eq_some_iff.mp ht
        have hvalue : node.value = .leaf tile := by
          split at hvalue
          · cases hvalue
          · cases hvalue
            assumption
        rw [hnode]
        simp only [hvalue]
        rw [snapshot_leaf h ht, h.depthFirst_eq hid, children_of_tile ht]
        rfl

/-! ## 4. What stays -/

/-- Removing nodes does not look at the focus, nor at what `core` forgets. -/
theorem foldl_removeNode_update (N : List NodeId) (t : TilingTree I) (focus : Option NodeId)
    (slot : Bool) (resize : Option (InteractiveResize I)) (layout : Option Layout) :
    N.foldl removeNode { t with
        focus := focus, fullscreenTileSlot := slot, interactiveResize := resize
        emptyRepresentationLayout := layout } =
      { N.foldl removeNode t with
        focus := focus, fullscreenTileSlot := slot, interactiveResize := resize
        emptyRepresentationLayout := layout } := by
  induction N generalizing t with
  | nil => rfl
  | cons x N ih =>
    rw [foldl_cons, foldl_cons, ← ih]
    congr 1
    unfold removeNode
    by_cases hc : t.contains x = true
    · rw [if_pos hc, if_pos (by exact hc)]
    · rw [if_neg hc, if_neg (by exact hc)]

end TilingTree

namespace Ctx

/-- The context whose windows are those of `u`. -/
def on (c : Ctx I) (u : TilingTree I) : Ctx I :=
  { c with windows := fun n => (u.tile n).map (·.window) }

/-- The context without a word on marks. -/
def unmarked (c : Ctx I) : Ctx I :=
  { c with marks := False, marks_full := c.full_of_false, marks_side := c.side_of_false }

end Ctx

namespace TilingTree

variable {c : Ctx I} {E : Set NodeId} {t : TilingTree I} {id p n : NodeId} {g : Prop}
  {r : NodeId → ℕ}

/-- The tree whose links have become those of `a`, without the nodes `N`. -/
def pruned (t : TilingTree I) (a : Arena I) (N : List NodeId) : TilingTree I :=
  N.foldl removeNode { t with toArena := a, focus := none, interactiveResize := none }

section Pruned

variable {a : Arena I} {N : List NodeId}

theorem erases_pruned : Erases N a (t.pruned a N).toArena :=
  erases_foldl_removeNode N { t with toArena := a, focus := none, interactiveResize := none }

/-- What the other parts of the tree are after nodes have gone. -/
theorem pruned_parts (hsame : SameNodes t.toArena a) (hN : ∀ n ∈ N, t.contains n = true)
    (hnodup : N.Nodup) :
    (t.pruned a N).focus = none ∧ (t.pruned a N).interactiveResize = none ∧
      (∀ n, (t.pruned a N).fullscreenMode n = if n ∈ N then none else t.fullscreenMode n) ∧
      (∀ n, (t.pruned a N).Marked n → t.Marked n) ∧
      (∀ H, t.Side H → (t.pruned a N).Side ∅) ∧ (t.Modes ∅ → (t.pruned a N).Modes ∅) := by
  have hparts := foldl_removeNode (t := { t with
    toArena := a, focus := none, interactiveResize := none }) (M := ∅) (H := ∅)
    (fun n hn => (hsame.contains n).trans (hN n hn)) hnodup (fun n _ => by simp)
  obtain ⟨-, hfocus, hresize, hmode, hmarked, hside, hmodes⟩ := hparts
  refine ⟨hfocus, hresize, hmode, hmarked, fun H h => hside ?_, fun h => hmodes ?_⟩
  · exact { h.over hsame.tile fun n hn => (hsame.contains n).trans hn with
      focus := fun f hf => (nomatch hf) }
  · exact { h.over hsame.tile with
      one := fun m n _ _ => h.one m n (Set.notMem_empty m) (Set.notMem_empty n) }

/-- **The tree without a subtree.** -/
theorem Inv.pruned (h : Inv c ∅ t) (hsame : SameNodes t.toArena a)
    (hN : ∀ n ∈ N, t.contains n = true) (hnodup : N.Nodup)
    (hok : Ok c.full ∅ E t.nodeDepth (t.pruned a N).toArena) :
    Inv (c.on (t.pruned a N)).asleep.unmarked.calmed E (t.pruned a N) := by
  obtain ⟨hfocus, hresize, -, hmarked, hside, hmodes⟩ := pruned_parts hsame hN hnodup
  refine ⟨⟨_, hok, fun hd n hn => h.exact.2 hd n ?_⟩, fun _ => rfl, fun hs => ?_,
    fun hs => hmodes (h.modes hs), False.elim, False.elim,
    fun hb n hn => h.bare hb n (hmarked n hn), fun _ => hresize⟩
  · rw [← hsame.contains]
    exact ((erases_pruned.contains n).mp hn).1
  · have := hside _ (h.side hs)
    exact ⟨fun f hf => (this.focus f hf).imp_right False.elim, this.names, this.marked,
      this.history⟩

end Pruned

/-! ## 5. The subtree of a node -/

/-- The tree `u` is `t` without the subtree of `id`, except that the root stays. -/
structure Detaches (t : TilingTree I) (id : NodeId) (u : TilingTree I) : Prop where
  window : ∀ n, (u.tile n).map (·.window) =
    if n ∈ t.depthFirst id then none else (t.tile n).map (·.window)
  contains : ∀ n, u.contains n = true ↔
    t.contains n = true ∧ (n = t.root ∨ n ∉ t.depthFirst id)
  mode : ∀ n, u.fullscreenMode n = if n ∈ t.depthFirst id then none else t.fullscreenMode n
  marked : ∀ n, u.Marked n → t.Marked n
  below : ∀ n m, n ∉ t.depthFirst id →
    (Below u.children n m ↔ Below t.children n m ∧ m ∉ t.depthFirst id)
  root : u.root = t.root
  counter : u.counter = if id = t.root then t.counter + 1 else t.counter
  parentOf : ∀ n, n ∉ t.depthFirst id → u.parentOf n = t.parentOf n
  splitAt : ∀ q, t.parentOf id = some q → ∀ n, n ∉ t.depthFirst id →
    u.splitAt n = (t.removeChild q id).splitAt n

/-- Below a node that stays. -/
theorem below_pruned {u : Arena I} {m : NodeId}
    (h : Ok g ∅ E r t.toArena) (hid : t.contains id = true)
    (hk : ∀ x y, y ∈ u.children x ↔ y ∈ t.children x ∧ x ∉ t.depthFirst id ∧ y ∉ t.depthFirst id)
    (hn : n ∉ t.depthFirst id) :
    Below u.children n m ↔ Below t.children n m ∧ m ∉ t.depthFirst id := by
  constructor
  · intro hm
    refine ⟨hm.mono fun x y hy => ((hk x y).mp hy).1, ?_⟩
    rcases Relation.ReflTransGen.cases_tail hm with rfl | ⟨x, -, hx⟩
    · exact hn
    · exact ((hk x m).mp hx).2.2
  · rintro ⟨hm, hmN⟩
    induction hm with
    | refl => exact Below.refl n
    | tail hb hy ih =>
      rename_i x y
      have hx : x ∉ t.depthFirst id := fun hx =>
        hmN ((h.mem_depthFirst hid).mpr (((h.mem_depthFirst hid).mp hx).step hy))
      exact (ih hx).step ((hk x y).mpr ⟨hy, hx, hmN⟩)

/-- Reading a subtree depends on its nodes only. -/
theorem snapshot_congr {u : TilingTree I} (hsize : u.size = t.size)
    (hsplit : ∀ m, Below t.children id m → u.splitAt m = t.splitAt m)
    (htile : ∀ m, Below t.children id m → u.tile m = t.tile m)
    (hmodes : u.pendingModes = t.pendingModes)
    (hmapped : u.mappedUnderFullscreen = t.mappedUnderFullscreen) :
    u.snapshot id = t.snapshot id := by
  unfold snapshot
  rw [hsize]
  refine fold_congr (fun m hm => ?_) fun m hm => ?_
  · simp only [Arena.children, hsplit m hm]
  · funext nodes
    simp only [detachedAs, htile m hm, hsplit m hm, hmodes, hmapped]

theorem depthFirst_congr {a : Arena I} (hsize : a.size = t.size)
    (hsplit : ∀ m, Below t.children id m → a.splitAt m = t.splitAt m)
    (hcon : ∀ m, a.contains m = t.contains m) : a.depthFirst id = t.depthFirst id := by
  unfold depthFirst
  rw [hsize, collectDepthFirst_eq_fold, collectDepthFirst_eq_fold]
  refine fold_congr (fun m hm => ?_) fun m hm => ?_
  · simp only [Arena.children, hsplit m hm]
  · simp only [hcon m]

theorem size_eq_of_sameNodes {a b : Arena I} (h : SameNodes a b) : b.size = a.size :=
  (size_le_of_contains fun n hn => (h.contains n).symm.trans hn).antisymm
    (size_le_of_contains fun n hn => (h.contains n).trans hn)

/-- **Taking out a subtree below the root.** -/
theorem Inv.takeSubtree (h : Inv c ∅ t) (hid : t.contains id = true) (hroot : id ≠ t.root) :
    ∃ q a, t.parentOf id = some q ∧
      t.takeSubtree id = some ((t.depthFirst id).foldl removeNode { t with toArena := a },
        t.snapshot id, some q) ∧
      t.Detaches id (t.pruned a (t.depthFirst id)) ∧
      Inv (c.on (t.pruned a (t.depthFirst id))).asleep.unmarked.calmed {x | some q = some x}
        (t.pruned a (t.depthFirst id)) := by
  obtain ⟨hok, -⟩ := h.exact
  obtain ⟨q, hq⟩ := hok.home hid hroot (Set.notMem_empty id)
  have hidq := hq
  have hq := hok.kid_parent hq
  obtain ⟨s, hs, hids⟩ := splitAt_of_mem_children hidq
  obtain ⟨i, hi⟩ := exists_idxOf? hids
  set a := (t.removeChild q id).setParent id none with ha
  have hdet : t.detachSubtreeOnly id = some (a, q) := by
    simp [detachSubtreeOnly, hq, ha]
  have hu := hok.unlinked_detachSubtreeOnly hdet
  have hmem := fun n => hok.mem_depthFirst (n := id) (m := n) hid
  have hN : ∀ n ∈ t.depthFirst id, t.contains n = true := fun n hn =>
    hok.contains_below hid ((hmem n).mp hn)
  have hrootN : t.root ∉ t.depthFirst id := fun hr => by
    by_cases e : t.root = id
    · exact hroot e.symm
    · obtain ⟨x, -, hx⟩ := ((hmem _).mp hr).parent e
      exact hok.root_not_kid x hx
  -- the parent is not below, so nothing has changed there
  have hsplit : ∀ m, Below t.children id m → a.splitAt m = t.splitAt m := by
    intro m hm
    have hne : m ≠ q := by
      rintro rfl
      exact hok.ranked.not_below_kid hidq hm
    rw [ha, splitAt_setParent, splitAt_removeChild hs hi, if_neg hne]
  have hcongr := depthFirst_congr (size_eq_of_sameNodes hu.same) hsplit hu.same.contains
  have hkids : ∀ x y, y ∈ (t.pruned a (t.depthFirst id)).children x ↔
      y ∈ t.children x ∧ x ∉ t.depthFirst id ∧ y ∉ t.depthFirst id := by
    intro x y
    unfold Arena.children
    rw [erases_pruned.splitAt]
    by_cases hx : x ∈ t.depthFirst id
    · simp [hx]
    rw [if_neg hx]
    have := hu.mem x y
    unfold Arena.children at this
    rw [this]
    refine ⟨fun hy => ⟨hy.1, hx, fun hyN => ?_⟩, fun hy => ⟨hy.1, fun e => ?_⟩⟩
    · obtain ⟨z, hz, hyz⟩ := ((hmem y).mp hyN).parent hy.2
      rw [hok.uniqueParent _ _ _ hyz hy.1] at hz
      exact hx ((hmem x).mpr hz)
    · exact hy.2.2 (e ▸ (hmem id).mpr (Below.refl id))
  have hokP : Ok c.full ∅ {x | some q = some x} t.nodeDepth
      (t.pruned a (t.depthFirst id)).toArena := by
    have := hu.ok.prune (erases_pruned (t := t)) (by rw [hu.same.root]; exact hrootN) (fun n hn x hx => ?_)
      fun x y hy hyN => ?_
    · have hD : (insert id ∅ : Set NodeId) \ {x | x ∈ t.depthFirst id} = ∅ := by
        ext x
        simp only [Set.mem_sdiff, Set.mem_insert_iff, Set.mem_empty_iff_false, or_false,
          Set.mem_ofPred_eq, iff_false, not_and, not_not]
        rintro rfl
        exact (hmem x).mpr (Below.refl x)
      have hE : (insert q ∅ : Set NodeId) = {x | some q = some x} := by
        ext x
        simp [eq_comm]
      rwa [hD, hE] at this
    · exact (hmem x).mpr (((hmem n).mp hn).step ((hu.mem n x).mp hx).1)
    · obtain ⟨hy, hne⟩ := (hu.mem x y).mp hy
      obtain ⟨z, hz, hyz⟩ := ((hmem y).mp hyN).parent hne
      rw [hok.uniqueParent _ _ _ hyz hy] at hz
      exact (hmem x).mpr hz
  obtain ⟨-, -, hmode, hmarked, -, -⟩ := pruned_parts hu.same hN (hok.nodup_depthFirst hid)
  refine ⟨q, a, hq, ?_, ?_, h.pruned hu.same hN (hok.nodup_depthFirst hid) hokP⟩
  · have htake := takeDetachedNode_eq (t := { t with toArena := a }) hu.ok t.size id
      a.nodes.keys [] (hu.ok.covered ((hu.same.contains id).trans hid))
      (length_keys.le.trans (size_eq_of_sameNodes hu.same).le) ((hu.same.contains id).trans hid)
      (by simp)
    rw [TilingTree.takeSubtree, if_neg hroot, hdet]
    simp only [foldl_nil, nil_append] at htake
    simp only [htake, Option.map_some]
    rw [snapshot_congr (t := t) (u := { t with toArena := a }) (size_eq_of_sameNodes hu.same) hsplit
      (fun m _ => hu.same.tile m) rfl rfl]
    rw [show ({ t with toArena := a } : TilingTree I).depthFirst id = t.depthFirst id from hcongr]
  · refine ⟨fun n => ?_, fun n => ?_, hmode, hmarked, fun n m hn => below_pruned hok hid hkids hn,
      ?_, ?_, fun n hn => ?_, fun q' hq' n hn => ?_⟩
    · rw [erases_pruned.tile, hu.same.tile]
      split <;> rfl
    · rw [erases_pruned.contains, hu.same.contains]
      refine and_congr_right fun _ => ⟨.inr, fun hn => ?_⟩
      rcases hn with rfl | hn
      · exact hrootN
      · exact hn
    · rw [erases_pruned.root, hu.same.root]
    · rw [erases_pruned.counter, hu.same.counter, if_neg hroot]
    · rw [erases_pruned.parentOf hn, hu.parentOf n]
      rintro rfl
      exact hn ((hmem n).mpr (Below.refl n))
    · rw [hq] at hq'
      cases hq'
      rw [erases_pruned.splitAt, if_neg hn, ha, splitAt_setParent]

/-- The root forgets its mode, and an identifier is spent on the split that leaves. -/
def spent (t : TilingTree I) : TilingTree I :=
  { t with counter := t.counter + 1, pendingModes := t.pendingModes.erase t.root }

theorem Inv.leaveRoot (h : Inv c E t) (hmarks : ¬ c.marks) : Inv c E t.spent := by
  obtain ⟨r, hok, hdeep⟩ := h.ok
  have hmode : ∀ n, t.spent.fullscreenMode n =
      if n = t.root then none else t.fullscreenMode n := by
    intro n
    unfold fullscreenMode spent
    rw [FinMap.lookup_erase_eq]
    split <;> rfl
  refine { h with
    ok := ⟨r, hok.congr (fun _ => rfl) (fun _ => rfl) (fun _ => rfl) rfl (Nat.le_succ _), hdeep⟩
    side := fun hs => { (h.side hs).withModes fun n hn =>
      (h.side hs).mode (AList.mem_erase.mp hn).2 with }
    modes := fun hs => ⟨fun m n hm hn hm' hn' => ?_, fun n mode hn hmax => ?_⟩
    marks := fun hm => absurd hm hmarks }
  · rw [hmode] at hm' hn'
    split at hm'
    · cases hm'
    · split at hn'
      · cases hn'
      · exact (h.modes hs).one m n hm hn hm' hn'
  · rw [spent, FinMap.lookup_erase_eq] at hn
    split at hn
    · cases hn
    · exact (h.modes hs).leaf n mode hn hmax

/-- The tree whose root has let its contents go. -/
def prunedRoot (t : TilingTree I) (a : Arena I) (N : List NodeId) : TilingTree I :=
  { t.pruned a N with
    counter := (t.pruned a N).counter + 1
    pendingModes := (t.pruned a N).pendingModes.erase (t.pruned a N).root }

/-- The tree whose root has let its children go. -/
def hollowed (t : TilingTree I) : TilingTree I :=
  { t with
    toArena := t.modifySplit t.root fun _ => { layout := .splitH }
    emptyRepresentationLayout := some .splitH }

theorem children_hollowed {s : Split} (hs : t.splitAt t.root = some s) (x : NodeId) :
    t.hollowed.children x = if x = t.root then [] else t.children x :=
  children_of_splitAt_eq (fun q => splitAt_modifySplit_of hs q) x

section Root

variable {s : Split} (hok : Ok g ∅ E r t.toArena) (hs : t.splitAt t.root = some s)
include hok hs

/-- The nodes below the root are those of the children's subtrees. -/
theorem depthFirst_root : t.depthFirst t.root = t.root :: s.children.flatMap t.depthFirst ∧
    (t.root :: s.children.flatMap t.depthFirst).Nodup ∧
    ∀ n, n ∈ t.root :: s.children.flatMap t.depthFirst ↔ t.contains n = true := by
  have hroot := contains_of_splitAt hs
  have hdf := hok.depthFirst_eq hroot
  rw [children_of_splitAt hs] at hdf
  rw [← hdf]
  exact ⟨rfl, hok.nodup_depthFirst hroot, fun n => (hok.mem_depthFirst hroot).trans
    ⟨hok.contains_below hroot, hok.below_root⟩⟩

/-- What leaves is read off the tree before. -/
theorem takeSubtree_root : t.takeSubtree t.root = some (
    ((s.children.flatMap t.depthFirst).foldl removeNode t.hollowed).spent,
    .split t.counter s.layout (s.children.map t.snapshot) s.percents s.info
      (t.pendingModes.lookup t.root), none) := by
  have hk := children_of_splitAt hs
  have hkid : ∀ x ∈ s.children, x ∈ t.children t.root := fun x hx => hk ▸ hx
  have hsame : SameNodes t.toArena t.hollowed.toArena := sameNodes_modifySplit _ _
  have hsize := size_eq_of_sameNodes hsame
  have hokA : Ok g _ E r t.hollowed.toArena := hok.emptyRoot hs .splitH
  have hcon : ∀ x ∈ s.children, t.hollowed.contains x = true := fun x hx =>
    (hsame.contains x).trans (hok.contains_kid (hkid x hx))
  have hsplit : ∀ x ∈ s.children, ∀ m, Below t.children x m →
      t.hollowed.splitAt m = t.splitAt m := by
    intro x hx m hm
    refine (splitAt_modifySplit_of hs m).trans (if_neg ?_)
    rintro rfl
    exact hok.ranked.not_below_kid (hkid x hx) hm
  have hkidsA : ∀ x y, y ∈ t.hollowed.children x → y ∈ t.children x := by
    intro x y hy
    rw [children_hollowed hs] at hy
    split at hy
    · cases hy
    · exact hy
  have htake := takeEach_eq (t := t.hollowed)
    (fun x hx l hl => takeDetachedNode_eq hokA t.size x t.hollowed.nodes.keys l
      (hokA.covered (hcon x hx)) (length_keys.le.trans hsize.le) (hcon x hx) hl)
    (fun x hx n hn => (hokA.mem_depthFirst (hcon x hx)).mp hn)
    ((hok.sound hs).nodup.imp_of_mem fun hx hy hne n hn hn' =>
      hok.siblings_apart (hkid _ hx) (hkid _ hy) hne (hn.mono hkidsA) (hn'.mono hkidsA))
    (l := []) (by simp)
  have hflat : s.children.flatMap t.hollowed.depthFirst = s.children.flatMap t.depthFirst :=
    flatMap_congr fun x hx => depthFirst_congr hsize (hsplit x hx) hsame.contains
  have hsnap : s.children.map t.hollowed.snapshot = s.children.map t.snapshot :=
    map_congr_left fun x hx =>
      snapshot_congr hsize (hsplit x hx) (fun m _ => hsame.tile m) rfl rfl
  simp only [foldl_nil, nil_append, hsnap, hflat] at htake
  have he := erases_foldl_removeNode (s.children.flatMap t.depthFirst) t.hollowed
  have hlookup := lookup_pendingModes_foldl (n := t.root) (s.children.flatMap t.depthFirst)
    t.hollowed (nodup_cons.mp (depthFirst_root hok hs).2.1).1
  rw [TilingTree.takeSubtree, if_pos rfl, takeRootAsDetached, hs]
  change ((takeEach _ t.hollowed _).map _).map _ = _
  rw [htake]
  simp only [Option.map_some, Option.some.injEq, Prod.mk.injEq, and_true, DetachedNode.split.injEq,
    true_and]
  exact ⟨rfl, he.counter, by rw [he.root]; exact hlookup⟩

end Root

/-- **Taking out the contents of the root.** -/
theorem Inv.takeRoot (h : Inv c ∅ t) {s : Split} (hs : t.splitAt t.root = some s) {a : Arena I}
    {N : List NodeId} (ha : a = t.hollowed.toArena) (hN : N = s.children.flatMap t.depthFirst) :
    t.Detaches t.root (t.prunedRoot a N) ∧
      Inv (c.on (t.prunedRoot a N)).asleep.unmarked.calmed ∅ (t.prunedRoot a N) := by
  obtain ⟨hok, -⟩ := h.exact
  obtain ⟨hdf, hnodup, hall⟩ := depthFirst_root hok hs
  rw [← hN] at hdf hnodup hall
  obtain ⟨hrootN, hnodup⟩ := nodup_cons.mp hnodup
  have hmem : ∀ n ∈ N, t.contains n = true := fun n hn => (hall n).mp (mem_cons_of_mem _ hn)
  have hinner : ∀ n, t.contains n = true → n ≠ t.root → n ∈ N := fun n hn =>
    (mem_cons.mp ((hall n).mpr hn)).resolve_left
  have hsame : SameNodes t.toArena a := ha ▸ sameNodes_modifySplit _ _
  have he : Erases N a (t.pruned a N).toArena := erases_pruned
  have hkidsA : ∀ {x y}, y ∈ a.children x → x ≠ t.root ∧ y ∈ t.children x := by
    intro x y hy
    rw [ha, children_hollowed hs] at hy
    split at hy
    · cases hy
    · exact ⟨‹_›, hy⟩
  have hparent : ∀ {x y}, y ∈ t.children x → t.contains x = true := fun hy =>
    contains_of_splitAt (splitAt_of_mem_children hy).choose_spec.1
  have hkid : ∀ {x y}, y ∈ t.children x → y ∈ N := fun hy =>
    hinner _ (hok.contains_kid hy) fun e => hok.root_not_kid _ (e ▸ hy)
  have hokP : Ok c.full ∅ ∅ t.nodeDepth (t.pruned a N).toArena := by
    have hokA : Ok c.full {x | x ∈ s.children} ∅ t.nodeDepth a := ha ▸ hok.emptyRoot hs .splitH
    have := hokA.prune he (hsame.root ▸ hrootN) (fun n _ x hx => hkid (hkidsA hx).2)
      fun x y hy _ => hinner x (hparent (hkidsA hy).2) (hkidsA hy).1
    have hD : {x | x ∈ s.children} \ {x | x ∈ N} = ∅ := by
      refine Set.sdiff_eq_empty.mpr fun x hx => hkid (x := t.root) ?_
      rw [children_of_splitAt hs]
      exact hx
    rwa [hD] at this
  obtain ⟨-, -, hmode, hmarked, -, -⟩ := pruned_parts hsame hmem hnodup
  have hrootP : (t.pruned a N).root = t.root := by rw [he.root, hsame.root]
  refine ⟨?_, (h.pruned hsame hmem hnodup hokP).leaveRoot fun hm => hm⟩
  -- nothing else is left
  have hgone : ∀ n, n ∉ t.root :: N → t.get n = none ∧ (t.prunedRoot a N).get n = none := by
    intro n hn
    have hc : ¬ t.contains n = true := mt (hall n).mpr hn
    have hc' : ¬ (t.prunedRoot a N).contains n = true := fun hc' =>
      hc ((hsame.contains n).symm.trans ((he.contains n).mp hc').1)
    exact ⟨by simpa [Arena.contains] using hc, by simpa [Arena.contains] using hc'⟩
  refine ⟨fun n => ?_, fun n => ?_, fun n => ?_, hmarked, fun n m hn => ?_, hrootP, ?_,
    fun n hn => ?_, fun q hq => ?_⟩
  · rw [show (t.prunedRoot a N).tile n = (t.pruned a N).tile n from rfl, he.tile, hsame.tile, hdf]
    by_cases e : n = t.root
    · simp [e, tile_of_splitAt hs]
    · by_cases e' : n ∈ N <;> simp [e, e']
  · refine (he.contains n).trans ?_
    rw [hsame.contains, hdf, mem_cons, not_or]
    by_cases e : n = t.root
    · simp [e, hrootN]
    · simp [e]
  · have := hmode n
    unfold fullscreenMode at this
    unfold fullscreenMode prunedRoot
    rw [FinMap.lookup_erase_eq, hrootP, hdf]
    by_cases e : n = t.root
    · simp [e]
    · simp [e, this]
  · rw [hdf] at hn
    obtain ⟨e, e'⟩ := hgone n hn
    rw [hdf, below_iff_kid, below_iff_kid]
    simp only [Arena.children, Arena.splitAt, e, e', Option.bind_none, not_mem_nil, false_and,
      exists_false, or_false]
    exact ⟨fun e => ⟨e, e ▸ hn⟩, fun e => e.1⟩
  · rw [if_pos rfl]
    exact congrArg (· + 1) (he.counter.trans hsame.counter)
  · obtain ⟨e, e'⟩ := hgone n (hdf ▸ hn)
    rw [Arena.parentOf, Arena.parentOf, e, e']
  · rw [hok.root_parent] at hq
    cases hq

/-! ## 6. Detaching -/

/-- What `detachSubtree` hands out: the subtree, or the contents of the root as a new split. -/
def detachment (t : TilingTree I) (id : NodeId) : DetachedNode I :=
  if id = t.root then
    match t.splitAt t.root with
    | some s => .split t.counter s.layout (s.children.map t.snapshot) s.percents s.info
        (t.pendingModes.lookup t.root)
    | none => .split t.counter .splitH [] [] {} none
  else
    t.snapshot id

/-- Clear the marks, if the fullscreen node has left. -/
def clearMarks (t : TilingTree I) (moved : Bool) : TilingTree I :=
  if moved then
    { t with
      mappedUnderFullscreen := ∅
      movedUnderFullscreen := ∅
      fullscreenLayoutWrappers := ∅
      preLayoutIpcRects := ∅ }
  else
    t

theorem marked_clearMarks {moved : Bool} (hn : (t.clearMarks moved).Marked n) :
    moved = false ∧ t.Marked n := by
  unfold clearMarks at hn
  cases moved with
  | false => exact ⟨rfl, hn⟩
  | true =>
    rcases hn with hn | hn
    · cases hn
    · exact absurd hn (by simp)

theorem toArena_clearMarks {moved : Bool} : (t.clearMarks moved).toArena = t.toArena := by
  unfold clearMarks
  split <;> rfl

theorem fullscreenMode_clearMarks {moved : Bool} :
    (t.clearMarks moved).fullscreenMode n = t.fullscreenMode n := by
  unfold clearMarks
  split <;> rfl

theorem Inv.clearMarks (h : Inv c E t) (moved : Bool) : Inv c E (t.clearMarks moved) := by
  unfold TilingTree.clearMarks
  cases moved with
  | false => exact h
  | true =>
    refine { h with
      side := fun hs => { h.side hs with
        names := fun n hn => (h.side hs).retable hn ⟨rfl, rfl, rfl⟩ (h.side hs).mode (by simp) (by simp)
        marked := fun n hn => ?_ }
      modes := fun hs => { h.modes hs with }
      marks := fun hm hnone n hn => ?_
      bare := fun hb n hn => ?_ }
    all_goals exact absurd (marked_clearMarks (t := t) hn).1 (by simp)

/-- The root has an active leaf exactly if the tree holds a window. -/
theorem Inv.focusedLeafIn_root (h : Inv c E t) :
    (t.focusedLeafIn t.root).isSome ↔ ∃ n, (c.windows n).isSome := by
  obtain ⟨r, hok, -⟩ := h.ok
  refine ⟨fun hf => ?_, fun ⟨n, hn⟩ => ?_⟩
  · obtain ⟨f, hf⟩ := Option.isSome_iff_exists.mp hf
    exact ⟨f, h.windows_isSome.mpr (h.focusedLeafIn_some hf)⟩
  have ht : (t.tile n).isSome := h.windows_isSome.mp hn
  have := hok.firstLeafIn_isSome hok.contains_root
    (hok.below_root (contains_of_isSome_tile ht)) ht
  simp [focusedLeafIn, this]

/-- The active leaf takes the focus. -/
theorem Inv.focusActive (h : Inv c.asleep E t) :
    Inv c E { t with focus := t.focusedLeafIn t.root } :=
  { h with
    side := fun hs => { h.side hs with
      focus := fun _ hf => .inl (contains_of_isSome_tile (h.focusedLeafIn_some hf)) }
    modes := fun hs => { h.modes hs with }
    awake := fun _ => h.focusedLeafIn_root }

theorem interactiveResize_foldl (N : List NodeId) (t : TilingTree I) :
    (N.foldl removeNode t).interactiveResize = t.interactiveResize := by
  induction N generalizing t with
  | nil => rfl
  | cons x N ih => exact (ih _).trans interactiveResize_removeNode

theorem Inv.onSelf (h : Inv c E t) : Inv (c.on t) E t := by
  refine ⟨h.ok, fun _ => rfl, h.side, h.modes, fun ha => ?_, h.marks, h.bare, h.calm⟩
  rw [h.awake ha]
  exact exists_congr fun n => by rw [← h.tiles n]; rfl

/-- The end of a detachment: marks, focus and sizes. -/
def afterTake (w : TilingTree I) (moved : Bool) : TilingTree I :=
  let t := { w with fullscreenTileSlot := false }.clearMarks moved
  { t with focus := t.focusedLeafIn t.root : TilingTree I }.requestWindowSizes

theorem Inv.afterTake {w : TilingTree I} {slot : Bool} {layout : Option Layout} (moved : Bool)
    (hw : w.interactiveResize = none)
    (h : Inv c.asleep E { w with
      focus := none, fullscreenTileSlot := slot, interactiveResize := none
      emptyRepresentationLayout := layout }) :
    Inv c E (w.afterTake moved) := by
  have h1 : Inv c.asleep E { w with fullscreenTileSlot := false, focus := none } :=
    h.of_core (by simp only [core, hw])
  have h2 := (h1.clearMarks moved).focusActive.requestWindowSizes
  unfold TilingTree.afterTake
  cases moved <;> exact h2

theorem Detaches.of_close {u : TilingTree I}
    (h : ({ t with interactiveResize := none } : TilingTree I).Detaches id u) : t.Detaches id u :=
  ⟨h.window, h.contains, h.mode, h.marked, h.below, h.root, h.counter, h.parentOf, h.splitAt⟩

theorem Detaches.afterTake {w : TilingTree I} {slot : Bool} {layout : Option Layout}
    (moved : Bool) (h : t.Detaches id { w with
      focus := none, fullscreenTileSlot := slot, interactiveResize := none
      emptyRepresentationLayout := layout }) :
    t.Detaches id (w.afterTake moved) := by
  set u := { w with fullscreenTileSlot := false }.clearMarks moved with hu
  have harena : u.toArena = w.toArena := toArena_clearMarks
  have hv : w.afterTake moved =
      { u with focus := u.focusedLeafIn u.root : TilingTree I }.requestWindowSizes := rfl
  have hsplit : ∀ n, (w.afterTake moved).splitAt n = w.splitAt n := fun n => by
    rw [hv, splitAt_requestWindowSizes]
    exact congrArg (fun a : Arena I => a.splitAt n) harena
  have hkids : (w.afterTake moved).children = w.children := by
    funext n
    simp only [Arena.children, hsplit]
  refine ⟨fun n => ?_, fun n => ?_, fun n => ?_, fun n hn => ?_, fun n m hn => ?_, ?_, ?_,
    fun n hn => ?_, fun q hq n hn => (hsplit n).trans (h.splitAt q hq n hn)⟩
  · rw [hv, window_requestWindowSizes]
    exact (congrArg (fun a : Arena I => (a.tile n).map (·.window)) harena).trans (h.window n)
  · rw [hv, contains_requestWindowSizes, ← h.contains n]
    exact iff_of_eq (congrArg (fun a : Arena I => a.contains n = true) harena)
  · exact (fullscreenMode_clearMarks (t := { w with fullscreenTileSlot := false })).trans (h.mode n)
  · exact h.marked n (marked_clearMarks (t := { w with fullscreenTileSlot := false }) hn).2
  · rw [hkids]
    exact h.below n m hn
  · exact (congrArg Arena.root harena).trans h.root
  · exact (congrArg Arena.counter harena).trans h.counter
  · rw [hv, parentOf_requestWindowSizes]
    exact (congrArg (fun a : Arena I => a.parentOf n) harena).trans (h.parentOf n hn)

/-- **What `detachSubtree` returns.** -/
theorem Inv.detachSubtree (h : Inv c ∅ t) (hid : t.contains id = true) :
    ∃ v, t.detachSubtree id = some (v,
        { node := t.detachment id
          focusHistory := (t.focusHistory.filter ((t.leafIdsIn id).contains ·)).filterMap
            fun leaf => (t.tile leaf).map (·.window)
          rootFocused := decide (t.focus = some id)
          wrappedWorkspace := decide (id = t.root) }, t.parentOf id) ∧
      t.Detaches id v ∧ Inv (c.on v).unmarked.calmed {x | t.parentOf id = some x} v ∧
      (∀ n, v.Marked n → t.fullscreenNode ≠ some id) := by
  set t0 : TilingTree I := { t with interactiveResize := none } with ht0
  have h0 : Inv c.calmed ∅ t0 := h.close
  have hcode : t.detachSubtree id = (t0.takeSubtree id).map fun x =>
      (x.1.afterTake (t.fullscreenNode == some id),
        { node := x.2.1
          focusHistory := (t.focusHistory.filter ((t.leafIdsIn id).contains ·)).filterMap
            fun leaf => (t.tile leaf).map (·.window)
          rootFocused := decide (t.focus = some id)
          wrappedWorkspace := decide (id = t.root) }, x.2.2) := by
    unfold TilingTree.detachSubtree
    rw [hid]
    simp only [Bool.not_true, Bool.false_eq_true, if_false]
    cases e : t0.takeSubtree id with
    | none => rfl
    | some x => rfl
  have hclear : ∀ w : TilingTree I, ∀ n,
      (w.afterTake (t.fullscreenNode == some id)).Marked n → t.fullscreenNode ≠ some id := by
    intro w n hn e
    have := (marked_clearMarks (t := { w with fullscreenTileSlot := false }) hn).1
    simp [e] at this
  by_cases hroot : id = t.root
  · subst hroot
    obtain ⟨hok, -⟩ := h0.exact
    obtain ⟨s, hs⟩ := hok.root_split
    obtain ⟨hdet, hinv⟩ := h0.takeRoot hs rfl rfl
    set N := s.children.flatMap t0.depthFirst
    set w := N.foldl removeNode t0.hollowed
    have hP : t0.prunedRoot t0.hollowed.toArena N = { w.spent with
        focus := none, fullscreenTileSlot := t.fullscreenTileSlot, interactiveResize := none
        emptyRepresentationLayout := t.emptyRepresentationLayout } :=
      congrArg spent (foldl_removeNode_update N t0.hollowed none t.fullscreenTileSlot none
        t.emptyRepresentationLayout)
    rw [hP] at hdet hinv
    have hpar : t.parentOf t.root = none := hok.root_parent
    refine ⟨_, ?_, hdet.of_close.afterTake (w := w.spent) (t.fullscreenNode == some t.root), ?_,
      hclear _⟩
    · rw [hcode, hpar, show t0.takeSubtree t.root = _ from takeSubtree_root hok hs,
        Option.map_some, detachment, if_pos rfl, show t.splitAt t.root = some s from hs]
      rfl
    · have hinv := Inv.afterTake (c := (c.on _).unmarked.calmed) (w := w.spent)
        (t.fullscreenNode == some t.root) (by exact interactiveResize_foldl N _) hinv
      rw [hpar, show {x | (none : Option NodeId) = some x} = ∅ by ext; simp]
      exact hinv.onSelf
  · obtain ⟨q, a, hq, htake, hdet, hinv⟩ := h0.takeSubtree hid hroot
    set w := (t.depthFirst id).foldl removeNode { t0 with toArena := a } with hw
    have hP : t0.pruned a (t.depthFirst id) = { w with
        focus := none, fullscreenTileSlot := t.fullscreenTileSlot, interactiveResize := none
        emptyRepresentationLayout := t.emptyRepresentationLayout } :=
      foldl_removeNode_update _ { t0 with toArena := a } none t.fullscreenTileSlot none
        t.emptyRepresentationLayout
    rw [show t0.pruned a (t0.depthFirst id) = _ from hP] at hdet hinv
    have hq : t.parentOf id = some q := hq
    refine ⟨_, ?_, hdet.of_close.afterTake (t.fullscreenNode == some id), ?_, hclear _⟩
    · rw [hcode, htake, hq, Option.map_some, detachment, if_neg hroot]
      rfl
    have hinv := Inv.afterTake (c := (c.on _).unmarked.calmed) (t.fullscreenNode == some id)
      (by exact interactiveResize_foldl _ _) hinv
    rw [hq]
    exact hinv.onSelf

/-! ## 7. Finishing -/

theorem focusInactiveIn_eq_none (node : NodeId) : t.focusInactiveIn node = none := by
  unfold focusInactiveIn focusInactiveInExcluding
  rw [find?_eq_none]
  intro x _
  cases t.containsNode node x <;> simp

theorem transferFocusTarget_none (q : Option NodeId) : t.transferFocusTarget none q = none := by
  unfold transferFocusTarget
  cases q.filter (· != t.root) <;> simp [focusInactiveIn_eq_none]

/-- **Finishing a detachment** restores the invariant of a whole tree. -/
theorem Inv.finishSubtreeDetach {q : Option NodeId} (h : Inv c {x | q = some x} t)
    (hheld : c.marks → t.Held) : Inv c ∅ (t.finishSubtreeDetach q) := by
  have hfin : ∀ u : TilingTree I, Inv c ∅ u → Inv c ∅ ({ u.compactTree with
      focus := u.compactTree.focusedLeafIn u.compactTree.root } : TilingTree I).requestWindowSizes :=
    fun u hu => hu.compactTree.sleep.focusActive.requestWindowSizes
  unfold TilingTree.finishSubtreeDetach
  cases q with
  | none =>
    rw [show {x | (none : Option NodeId) = some x} = ∅ by ext; simp] at h
    exact hfin t h
  | some p =>
    rw [show {x | some p = some x} = {p} by ext; simp [eq_comm]] at h
    simp only [Option.bind_some, transferFocusTarget_none]
    exact hfin _ (h.reapEmptyFrom hheld)

section Marks

variable {v : TilingTree I}

/-- Marks stay only where a fullscreen node stays. -/
theorem Detaches.marks (h : t.Detaches id v) (hmarks : t.Marks)
    (hgone : ∀ f ∈ t.depthFirst id, (t.fullscreenMode f).isSome → ∀ n, ¬ v.Marked n) :
    v.Marks := by
  intro hnone n hn
  refine hmarks (fun f => ?_) n (h.marked n hn)
  by_contra hf
  have hf : (t.fullscreenMode f).isSome := Option.isSome_iff_ne_none.mpr hf
  have hv := hnone f
  rw [h.mode] at hv
  split at hv
  · exact hgone f ‹_› hf n hn
  · simp [hv] at hf

theorem Detaches.held (h : t.Detaches id v) (hkeep : ∀ f, (t.fullscreenMode f).isSome →
    f ∉ t.depthFirst id → f = t.root ∨
      ∃ m, Below t.children f m ∧ (t.tile m).isSome ∧ m ∉ t.depthFirst id) : v.Held := by
  intro f hf
  rw [h.mode] at hf
  split at hf
  · cases hf
  rename_i hfN
  rcases hkeep f hf hfN with e | ⟨m, hb, ht, hm⟩
  · exact .inl (h.root ▸ e)
  refine .inr ⟨m, (h.below f m hfN).mpr ⟨hb, hm⟩, ?_⟩
  have := h.window m
  rw [if_neg hm] at this
  simpa using (congrArg Option.isSome this).trans (by simpa using ht)

end Marks

/-- What must hold of `id` for the marks to stay in order: all marked leaves leave with it, or the
    fullscreen node is `id` itself, or it stays and keeps a leaf. -/
def LeavesHeld (t : TilingTree I) (id : NodeId) : Prop :=
  (∀ n, t.Marked n → n ∈ t.depthFirst id) ∨
    ∀ f, (t.fullscreenMode f).isSome → f = id ∨ (f ∉ t.depthFirst id ∧ (f = t.root ∨
      ∃ m, Below t.children f m ∧ (t.tile m).isSome ∧ m ∉ t.depthFirst id))

/-- **Detaching a subtree and finishing keeps the invariant.** -/
theorem Inv.detachFinish (h : Inv c ∅ t) (hid : t.contains id = true)
    (hmarks : c.marks → t.LeavesHeld id) {v : TilingTree I} {sub : DetachedSubtree I}
    {q : Option NodeId} (hv : t.detachSubtree id = some (v, sub, q)) :
    Inv (c.on (v.finishSubtreeDetach q)).calmed ∅ (v.finishSubtreeDetach q) := by
  obtain ⟨v', e, hdet, hinv, hclear⟩ := h.detachSubtree hid
  rw [hv] at e
  cases e
  by_cases hm : c.marks
  · have hs := c.marks_side hm
    rcases hmarks hm with hall | hheld
    · -- no mark is left
      have hbare : ∀ n, ¬ v.Marked n := fun n hn => by
        have ht := (hinv.side hs).marked n hn
        have := hdet.window n
        rw [if_pos (hall n (hdet.marked n hn)), Option.map_eq_none_iff] at this
        simp [this] at ht
      have hinv' : Inv { (c.on v).unmarked.calmed with bare := True } {x | t.parentOf id = some x} v :=
        { hinv with bare := fun _ => hbare }
      have hfin := hinv'.finishSubtreeDetach False.elim
      have hnone := hfin.bare trivial
      exact { hfin.onSelf with marks := fun _ _ n hn => hnone n hn, bare := fun _ n hn => hnone n hn }
    · have hfirst : id ∈ t.depthFirst id := (h.exact.1.mem_depthFirst hid).mpr (Below.refl id)
      have hmarks' : v.Marks := hdet.marks (h.marks hm) fun f hf hmode n hn => by
        rcases hheld f hmode with rfl | ⟨hfN, -⟩
        · exact hclear n hn ((h.modes hs).eq_fullscreenNode hmode)
        · exact hfN hf
      have hheld' : v.Held := hdet.held fun f hf hfN => by
        rcases hheld f hf with rfl | ⟨-, hkeep⟩
        · exact absurd hfirst hfN
        · exact hkeep
      have hinv' : Inv (c.on v).calmed {x | t.parentOf id = some x} v :=
        { hinv with marks := fun _ => hmarks' }
      exact (hinv'.finishSubtreeDetach fun _ => hheld').onSelf
  · have hfin := (hinv.finishSubtreeDetach (q := t.parentOf id) False.elim).onSelf
    exact { hfin with marks := fun hm' => absurd hm' hm }

end TilingTree

end Swayward
