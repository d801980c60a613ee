/-
  File:      Swayward/Keeps/Swap.lean
  Subject:   SWAPPING BETWEEN TREES: two subtrees change places.

  Each subtree leaves an empty place behind and the other one is planted there with the share the
  place had. Before that the fullscreen mode changes hands: each root takes the mode of the other,
  and nothing below it is fullscreen (`placeFullscreen`).
-/
import Swayward.Keeps.Windows

namespace Swayward

open Arena Forest Shares List

variable {I : Type} {k : NodeId}

/-! ## 1. The fullscreen mode changes hands -/

namespace DetachedNode

variable {g : Prop}
variable {node : DetachedNode I}

section

variable (node : DetachedNode I)

@[simp] theorem oldId_clearFullscreen :
    node.clearFullscreen.oldId = node.oldId := by cases node <;> rfl

@[simp] theorem tile_clearFullscreen :
    node.clearFullscreen.tile = node.tile := by cases node <;> rfl

@[simp] theorem mapped_clearFullscreen :
    node.clearFullscreen.mapped = node.mapped := by cases node <;> rfl

theorem pendingMode_clearFullscreen :
    node.clearFullscreen.pendingMode = withoutFullscreen node.pendingMode := by cases node <;> rfl

@[simp] theorem fullscreen_clearFullscreen : node.clearFullscreen.fullscreen = none := by
  unfold fullscreen
  rw [pendingMode_clearFullscreen, withoutFullscreen]
  cases node.pendingMode <;> rfl

end

theorem clearFullscreens_eq (nodes : List (DetachedNode I)) :
    clearFullscreens nodes = nodes.map clearFullscreen := by
  induction nodes with
  | nil => rfl
  | cons node nodes ih => rw [clearFullscreens, ih, map_cons]

mutual

theorem subnodes_clearFullscreen (node : DetachedNode I) :
    node.clearFullscreen.subnodes = node.subnodes.map clearFullscreen := by
  match node with
  | .leaf oldId tile mode mapped => rfl
  | .split oldId layout children percents info mode =>
    rw [clearFullscreen, subnodes, subnodes, subnodesOf_clearFullscreens children]
    rfl

theorem subnodesOf_clearFullscreens (nodes : List (DetachedNode I)) :
    subnodesOf (clearFullscreens nodes) = (subnodesOf nodes).map clearFullscreen := by
  match nodes with
  | [] => rfl
  | node :: nodes =>
    rw [clearFullscreens, subnodesOf, subnodesOf, subnodes_clearFullscreen node,
      subnodesOf_clearFullscreens nodes, map_append]

end

mutual

theorem height_clearFullscreen (node : DetachedNode I) :
    node.clearFullscreen.height = node.height := by
  match node with
  | .leaf oldId tile mode mapped => rfl
  | .split oldId layout children percents info mode =>
    rw [clearFullscreen, height, height, heightOf_clearFullscreens children]

theorem heightOf_clearFullscreens (nodes : List (DetachedNode I)) :
    heightOf (clearFullscreens nodes) = heightOf nodes := by
  match nodes with
  | [] => rfl
  | node :: nodes =>
    rw [clearFullscreens, heightOf, heightOf, height_clearFullscreen node,
      heightOf_clearFullscreens nodes]

end

theorem Proper.clearFullscreen (h : node.Proper g) : node.clearFullscreen.Proper g := by
  match node with
  | .leaf .. => trivial
  | .split oldId layout children percents info mode =>
    rw [DetachedNode.clearFullscreen, clearFullscreens_eq]
    refine ⟨h.1.trans (length_map _).symm, fun hg => ⟨(h.2 hg).1, ?_⟩⟩
    rw [Ne, map_eq_nil_iff]
    exact (h.2 hg).2

/-- The nodes strictly inside. -/
def inner : DetachedNode I → List (DetachedNode I)
  | .split _ _ children _ _ _ => subnodesOf children
  | .leaf .. => []

section

variable (node : DetachedNode I)

theorem subnodes_eq_cons : node.subnodes = node :: node.inner := by
  cases node <;> rfl

theorem inner_placeFullscreen (mode : Option FullscreenMode) :
    (node.placeFullscreen mode).inner = node.inner.map clearFullscreen := by
  cases node with
  | leaf oldId tile m mapped => rfl
  | split oldId layout children percents info m => exact subnodesOf_clearFullscreens children

@[simp] theorem oldId_placeFullscreen (mode : Option FullscreenMode) :
    (node.placeFullscreen mode).oldId = node.oldId := by cases node <;> rfl

@[simp] theorem tile_placeFullscreen (mode : Option FullscreenMode) :
    (node.placeFullscreen mode).tile = node.tile := by cases node <;> rfl

@[simp] theorem mapped_placeFullscreen (mode : Option FullscreenMode) :
    (node.placeFullscreen mode).mapped = node.mapped := by cases node <;> rfl

@[simp] theorem fullscreen_placeFullscreen (mode : Option FullscreenMode) :
    (node.placeFullscreen mode).fullscreen = mode := by cases node <;> rfl

theorem height_placeFullscreen (mode : Option FullscreenMode) :
    (node.placeFullscreen mode).height = node.height := by
  rw [← height_clearFullscreen node]
  cases node <;> rfl

theorem maximized_placeFullscreen (mode : Option FullscreenMode) {m : PendingMode}
    (hm : (node.placeFullscreen mode).pendingMode = some m) (hmax : m.maximized = true) :
    ∃ m', node.pendingMode = some m' ∧ m'.maximized = true := by
  have : (node.placeFullscreen mode).pendingMode =
      some { (withoutFullscreen node.pendingMode).getD {} with fullscreen := mode } := by
    cases node <;> rfl
  rw [this] at hm
  cases hm
  cases e : node.pendingMode with
  | none =>
    rw [e] at hmax
    cases hmax
  | some m' =>
    rw [e] at hmax
    exact ⟨m', rfl, hmax⟩

theorem maximized_clearFullscreen {m : PendingMode} (hm : node.clearFullscreen.pendingMode = some m)
    (hmax : m.maximized = true) :
    ∃ m', node.pendingMode = some m' ∧ m'.maximized = true := by
  rw [pendingMode_clearFullscreen] at hm
  obtain ⟨m', hm', rfl⟩ := Option.map_eq_some_iff.mp hm
  exact ⟨m', hm', hmax⟩

end

/-- What is said of the nodes of a subtree without regard to fullscreen is said of those of the
    subtree with another mode at its root. -/
theorem forall_placeFullscreen {P : DetachedNode I → Prop} {mode : Option FullscreenMode}
    (htop : P node → P (node.placeFullscreen mode))
    (hclear : ∀ m ∈ node.inner, P m → P m.clearFullscreen) (h : ∀ m ∈ node.subnodes, P m) :
    ∀ m ∈ (node.placeFullscreen mode).subnodes, P m := by
  intro m hm
  rw [subnodes_eq_cons, inner_placeFullscreen] at hm
  rw [subnodes_eq_cons] at h
  rcases mem_cons.mp hm with rfl | hm
  · exact htop (h node mem_cons_self)
  · obtain ⟨x, hx, rfl⟩ := mem_map.mp hm
    exact hclear x hx (h x (mem_cons_of_mem _ hx))

theorem windows_placeFullscreen (node : DetachedNode I) (mode : Option FullscreenMode) :
    (node.placeFullscreen mode).windows = node.windows := by
  rw [windows_eq, windows_eq, subnodes_eq_cons, subnodes_eq_cons, inner_placeFullscreen,
    filterMap_cons, filterMap_cons, tile_placeFullscreen, filterMap_map]
  have : (fun m : DetachedNode I => m.tile.map (·.window)) ∘ clearFullscreen =
      fun m => m.tile.map (·.window) := by
    funext m
    simp
  rw [this]

theorem hasFullscreen_placeFullscreen (node : DetachedNode I) (mode : Option FullscreenMode) :
    (node.placeFullscreen mode).hasFullscreen = mode.isSome := by
  rw [Bool.eq_iff_iff, hasFullscreen_iff, subnodes_eq_cons, inner_placeFullscreen]
  simp

theorem hasMapped_placeFullscreen (node : DetachedNode I) (mode : Option FullscreenMode) :
    (node.placeFullscreen mode).hasMapped = node.hasMapped := by
  unfold hasMapped
  rw [subnodes_eq_cons, subnodes_eq_cons node, inner_placeFullscreen]
  simp [Function.comp_def]

/-- **A subtree fits as well with another mode at its root.** -/
theorem Fit.placeFullscreen {c : Ctx I} (h : node.Fit c k)
    (mode : Option FullscreenMode) : (node.placeFullscreen mode).Fit c k where
  old := forall_placeFullscreen (by simp) (by simp) h.old
  loose := by
    match node, h.loose with
    | .leaf .., _ => trivial
    | .split oldId layout children percents info m, hl =>
      refine ⟨?_, hl.2.1, fun x hx => ?_⟩
      · rw [clearFullscreens_eq, length_map]
        exact hl.1
      · rw [subnodesOf_clearFullscreens] at hx
        obtain ⟨y, hy, rfl⟩ := mem_map.mp hx
        exact (hl.2.2 y hy).clearFullscreen
  one hs := by
    rw [subnodes_eq_cons, inner_placeFullscreen, pairwise_cons, pairwise_map]
    refine ⟨fun m hm => ?_, pairwise_of_forall fun x y => by simp⟩
    obtain ⟨x, -, rfl⟩ := mem_map.mp hm
    simp
  leaf hs := by
    refine forall_placeFullscreen (P := fun m => ∀ mode, m.pendingMode = some mode →
      mode.maximized = true → m.tile.isSome) (fun hm m' hm' hmax => ?_)
      (fun x _ hx m' hm' hmax => ?_) (h.leaf hs)
    · obtain ⟨m'', e, hmax⟩ := node.maximized_placeFullscreen mode hm' hmax
      rw [tile_placeFullscreen]
      exact hm m'' e hmax
    · obtain ⟨m'', e, hmax⟩ := x.maximized_clearFullscreen hm' hmax
      rw [tile_clearFullscreen]
      exact hx m'' e hmax
  bare hb := forall_placeFullscreen (by simp) (by simp) (h.bare hb)

/-- The parts in force and the counter are all that counts. -/
theorem Fit.congr {c d : Ctx I} {k l : NodeId} (h : node.Fit d k) (hfull : c.full = d.full)
    (hside : c.side = d.side) (hbare : c.bare = d.bare) (hk : k ≤ l) :
    node.Fit c l :=
  ⟨fun m hm => (h.old m hm).trans_le hk, hfull ▸ h.loose, hside ▸ h.one, hside ▸ h.leaf,
    hbare ▸ h.bare⟩

end DetachedNode

namespace TilingTree

variable {c d : Ctx I} {t u v : TilingTree I} {id p n : NodeId} {sub : DetachedSubtree I}
  {slot : DetachedSlot} {r : NodeId → ℕ} {g : Prop}

/-! ## 2. A place left behind -/

/-- **What `detachSubtreeForSwap` returns**: the subtree and its place. -/
theorem Inv.detachSubtreeForSwap (h : Inv c ∅ t)
    (e : t.detachSubtreeForSwap id = some (v, sub, slot)) :
    ∃ s, (t.contains id = true ∧ id ≠ t.root) ∧ t.parentOf id = some slot.parent ∧
      t.splitAt slot.parent = some s ∧ s.children.idxOf? id = some slot.index ∧
      s.percents[slot.index]? = some slot.percent ∧ sub.node = t.snapshot id ∧
      t.Detaches id v ∧ Inv (c.on v).unmarked.calmed {x | x = slot.parent} v ∧
      ∀ n, v.Marked n → t.fullscreenNode ≠ some id := by
  unfold TilingTree.detachSubtreeForSwap at e
  split at e
  · cases e
  rename_i hroot
  split at e
  · cases e
  rename_i parent hparent
  split at e
  · cases e
  rename_i index hindex
  split at e
  · cases e
  rename_i percent hpercent
  obtain ⟨⟨v', sub', q⟩, he, e⟩ := Option.map_eq_some_iff.mp e
  cases e
  have hid := contains_of_parentOf hparent
  obtain ⟨v', e', hdet, hinv, hclear⟩ := h.detachSubtree hid
  rw [he] at e'
  cases e'
  obtain ⟨s, hs, hx⟩ := Option.bind_eq_some_iff.mp hpercent
  refine ⟨s, ⟨hid, hroot⟩, hparent, hs, ?_, hx, ?_, hdet, ?_, hclear⟩
  · unfold childIndex at hindex
    rw [hs] at hindex
    exact hindex
  · exact if_neg hroot
  · rw [hparent] at hinv
    rwa [show {x | some parent = some x} = {x | x = parent} by ext x; simp [eq_comm]] at hinv

/-- A removed child and its share. -/
theorem Inv.splitAt_removed (h : Inv c ∅ t) {s : Split} {i : ℕ} (hdet : t.Detaches id v)
    (hp : t.parentOf id = some p) (hs : t.splitAt p = some s)
    (hi : s.children.idxOf? id = some i) :
    v.splitAt p = some { s with
      children := s.children.eraseIdx i
      percents := rescale (s.percents.eraseIdx i) } := by
  obtain ⟨r, hok, -⟩ := h.ok
  have hn : p ∉ t.depthFirst id := fun hm =>
    hok.ranked.not_below_kid (hok.mem_children hp)
      ((hok.mem_depthFirst (contains_of_parentOf hp)).mp hm)
  rw [hdet.splitAt p hp p hn, splitAt_removeChild hs hi, if_pos rfl]

/-- The place left behind has a proper share. -/
theorem removed_share {s : Split} {i : ℕ} {x : ℚ} (hs : s.Sound g)
    (hx : s.percents[i]? = some x) (hg : g) :
    0 < x ∧ (rescale (s.percents.eraseIdx i) ≠ [] → x < 1) ∧
      (rescale (s.percents.eraseIdx i) = [] → x = 1) := by
  obtain ⟨A, B, e, rfl⟩ := Positions.exists_around hx
  have hsh := hs.shares hg
  rw [e, Positions.eraseIdx_around]
  rw [e] at hsh
  have hlen : ∀ l : List ℚ, rescale l = [] ↔ l = [] := fun l => by
    rw [← length_eq_zero_iff, length_rescale, length_eq_zero_iff]
  have hsum : (A ++ B).sum = 1 - x := by
    have := hsh.2 (by simp)
    simp only [sum_append, sum_cons] at this ⊢
    linarith
  refine ⟨hsh.1 x (by simp), fun hne => ?_, fun e => ?_⟩
  · have hpos := sum_pos (A ++ B) (fun y hy => hsh.1 y (by
      rcases mem_append.mp hy with hy | hy <;> simp [hy])) (fun e => hne ((hlen _).mpr e))
    linarith
  · rw [(hlen _).mp e] at hsum
    simp only [sum_nil] at hsum
    linarith

/-- A detached subtree is as high as it was. -/
theorem height_snapshot {D E : Set NodeId}
    (h : Ok g D E r t.toArena) (hn : t.contains n = true) :
    (t.snapshot n).height = t.subtreeHeight n := by
  refine subtree_induction (P := fun n => t.contains n = true →
    (t.snapshot n).height = t.subtreeHeight n) h.ranked (h.covered hn) (fun n ih hn => ?_) hn
  rw [h.subtreeHeight_eq hn]
  rcases (t.contains_iff n).mp hn with ⟨s, hs⟩ | ⟨tile, ht⟩
  · rw [snapshot_split h hs, DetachedNode.height, children_of_splitAt hs]
    congr 1
    have hkids : ∀ x ∈ s.children, (t.snapshot x).height = t.subtreeHeight x := fun x hx =>
      ih x (children_of_splitAt hs ▸ hx) (h.contains_kid (children_of_splitAt hs ▸ hx))
    generalize s.children = l at hkids
    induction l with
    | nil => rfl
    | cons x l ihl =>
      rw [map_cons, DetachedNode.heightOf, map_cons, foldr_cons,
        hkids x mem_cons_self, ihl fun y hy => hkids y (mem_cons_of_mem _ hy)]
  · rw [snapshot_leaf h ht, DetachedNode.height, children_of_tile ht]
    rfl

/-! ## 3. Filling a place -/

/-- What must hold of a place for the marks to stay in order: no fullscreen node leaves from inside
    the subtree while marks stay, and marks come only where a fullscreen node is or comes. -/
def swapHolds (t : TilingTree I) (id : NodeId) (node : DetachedNode I) : Prop :=
  (∀ f ∈ t.depthFirst id, (t.fullscreenMode f).isSome → f = id ∨
      ∀ n, t.Marked n → n ∈ t.depthFirst id) ∧
    (node.hasMapped = true →
      ∃ f, (t.fullscreenMode f).isSome ∧ (f = id ∨ f ∉ t.depthFirst id))

/-- The counter may have moved on. -/
theorem Inv.advance {E : Set NodeId} (h : Inv c E t) (hk : t.counter ≤ k) :
    Inv c E { t with counter := k } := by
  obtain ⟨r, hok, hdeep⟩ := h.ok
  exact { h with
    ok := ⟨r, hok.congr (fun _ => rfl) (fun _ => rfl) (fun _ => rfl) rfl hk, hdeep⟩
    side := fun hs => { h.side hs with }
    modes := fun hs => { h.modes hs with } }

/-- **A subtree goes to the place another one has left.** -/
theorem Inv.fillPlace [DecidableEq I] (h : Inv c ∅ t)
    (e : t.detachSubtreeForSwap id = some (v, sub, slot))
    (hk : v.counter ≤ k) (incoming : DetachedSubtree I) (hfit : incoming.node.Fit c k)
    (hwin : c.full → incoming.windows ≠ []) (hfits : t.fitsAt id incoming.height = true)
    (hfull : incoming.hasFullscreen = (t.fullscreenMode id).isSome)
    (hmarks : c.marks → t.swapHolds id incoming.node) :
    Inv (c.on (({ v with counter := k } : TilingTree I).attachSubtreeForSwap incoming slot).1) ∅
      (({ v with counter := k } : TilingTree I).attachSubtreeForSwap incoming slot).1 := by
  obtain ⟨s, ⟨hid, hroot⟩, hp, hs, hi, hx, -, hdet, hinv, hclear⟩ := h.detachSubtreeForSwap e
  obtain ⟨hok, -⟩ := h.exact
  have hpkid : id ∈ t.children slot.parent := hok.mem_children hp
  have hidN : id ∈ t.depthFirst id := (hok.mem_depthFirst hid).mpr (Below.refl id)
  -- the marks are in order before the subtree comes
  have hinv' : Inv (c.on v) {x | x = slot.parent} v := by
    refine ⟨hinv.ok, hinv.tiles, hinv.side, hinv.modes, hinv.awake, fun hm => ?_, hinv.bare, fun hc =>
      hinv.calm trivial⟩
    refine hdet.marks (h.marks hm) fun f hf hfs n hn => ?_
    rcases (hmarks hm).1 f hf hfs with rfl | hall
    · exact hclear n hn ((h.modes (c.marks_side hm)).eq_fullscreenNode hfs)
    have hcon := contains_of_isSome_tile ((hinv.side (c.marks_side hm)).marked n hn)
    have hnN := hall n (hdet.marked n hn)
    rcases (hdet.contains n).mp hcon with ⟨-, e | hn'⟩
    · subst e
      exact ne_root_of_below hok hroot ((hok.mem_depthFirst hid).mp hnN) rfl
    · exact hn' hnN
  have hsv := h.splitAt_removed hdet hp hs hi
  have hmode : ∀ n, v.fullscreenMode n = if n ∈ t.depthFirst id then none else t.fullscreenMode n :=
    hdet.mode
  have key := Inv.attachSubtreeForSwap (c := c.on v) incoming slot (hinv'.advance hk)
    ⟨⟨hfit.old, hfit.loose, hfit.one, hfit.leaf, hfit.bare⟩, hwin, fun hside hf n => ?_,
      fun hm hmapped => ?_⟩ hsv (fun hg => removed_share (hok.sound hs) hx hg) fun hd => ?_
  · exact key
  · have hf := hfull.symm.trans hf
    refine (hmode n).trans ?_
    split
    · rfl
    rename_i hn
    by_contra hne
    have := (h.modes hside).eq (Option.isSome_iff_ne_none.mpr hne) hf
    exact hn (this ▸ hidN)
  · obtain ⟨f, hf, rfl | hfN⟩ := (hmarks hm).2 hmapped
    · exact .inr (hfull.trans hf)
    · refine .inl ⟨f, ?_⟩
      have : v.fullscreenMode f = t.fullscreenMode f := (hmode f).trans (if_neg hfN)
      exact (congrArg Option.isSome this).trans hf
  · have hdepth : t.nodeDepth slot.parent = v.nodeDepth slot.parent := by
      obtain ⟨r, hcl⟩ := hinv.climbs
      refine nodeDepth_congr hcl (hok.climbs no_unlinked) (fun n hn => ?_) _ (contains_of_splitAt hsv)
      refine (hdet.parentOf n ?_).symm
      rcases (hdet.contains n).mp hn with ⟨-, e | hn⟩
      · rw [e]
        exact fun hm => ne_root_of_below hok hroot ((hok.mem_depthFirst hid).mp hm) rfl
      · exact hn
    have hkid := hok.nodeDepth_kid no_unlinked hpkid
    have hfits : t.nodeDepth id + incoming.height ≤ maxTreeDepth + 1 := of_decide_eq_true hfits
    change v.nodeDepth slot.parent + _ ≤ _
    omega

section Pair

variable [DecidableEq I]
variable {first second : NodeId}

/-- What the tree holds afterwards, and how far the counter went. -/
theorem grows_attachSubtreeForSwap (hb : ∀ n, t.contains n = true → n < t.counter)
    (subtree : DetachedSubtree I) (slot : DetachedSlot) (hs : t.isSplit slot.parent = true)
    (hold : ∀ m ∈ subtree.node.subnodes, m.oldId < t.counter) :
    (∃ leaves, Grows t leaves (t.attachSubtreeForSwap subtree slot).1 ∧
      leaves.map (·.2) = subtree.windows) ∧
      t.counter ≤ (t.attachSubtreeForSwap subtree slot).1.counter := by
  obtain ⟨news, hnews, -, hpl, -⟩ := grown_insertDetachedNode subtree.node t none [] hb hold rfl
  obtain ⟨hrests, -⟩ := rests_attachSubtreeForSwap subtree hs
  refine ⟨⟨newLeaves news, hpl.grows.of_window fun n => (hrests.window n).trans ?_, ?_⟩,
    hpl.counter.trans_eq hrests.counter.symm⟩
  · rw [plugIn, tile_setParent, tile_modifySplit]
  · rw [newLeaves_windows, hnews]
    exact subtree.node.windows_eq.symm

omit [DecidableEq I] in
/-- A subtree below the root holds a window. -/
theorem windows_snapshot_ne_nil {D : Set NodeId}
    (h : Ok g D ∅ r t.toArena) (hg : g) (hn : t.contains n = true) (hr : n ≠ t.root) :
    (t.snapshot n).windows ≠ [] := by
  obtain ⟨m, hm, ht⟩ := h.exists_leaf hg hn hr
  obtain ⟨tile, ht⟩ := Option.isSome_iff_exists.mp ht
  rw [windows_snapshot h hn]
  refine ne_nil_of_mem (a := tile.window) (mem_filterMap.mpr ⟨m, (h.mem_depthFirst hn).mpr hm, ?_⟩)
  rw [ht]
  rfl

/-- **One half of a swap**: the subtree at `second` goes to the place of `first`. -/
theorem Inv.halfSwap (h : Inv c ∅ t) (h' : Inv d ∅ u) (hfull : c.full = d.full)
    (hside : c.side = d.side) (hbare : c.bare = d.bare)
    (e : t.detachSubtreeForSwap first = some (v, sub, slot))
    (hid : u.contains second = true) (hroot : second ≠ u.root) (hk : v.counter ≤ k)
    (hku : u.counter ≤ k) (incoming : DetachedSubtree I)
    (hin : incoming.node = (u.snapshot second).placeFullscreen (t.fullscreenMode first))
    (hfits : t.fitsAt first (u.subtreeHeight second) = true)
    (hholds : c.marks → t.swapHolds first (u.snapshot second)) {w w' : TilingTree I}
    (hw : (({ v with counter := k } : TilingTree I).attachSubtreeForSwap incoming slot).1 = w)
    (hw' : w.finishSubtreeDetach none = w') :
    Inv (c.on w) ∅ w ∧ Inv (c.on w') ∅ w' ∧ w'.held.Perm (v.held ++ (u.snapshot second).windows) ∧
      k ≤ w.counter := by
  obtain ⟨r, hok, -⟩ := h'.ok
  obtain ⟨s, -, hp, hs, hi, -, -, hdet, hinv, -⟩ := h.detachSubtreeForSwap e
  have hsnap : u.detachment second = u.snapshot second := if_neg hroot
  have hfit : incoming.node.Fit c k := by
    rw [hin]
    have := h'.fit_detachment hid
    rw [hsnap, if_neg hroot] at this
    exact (this.congr hfull hside hbare hku).placeFullscreen _
  have hwin : incoming.windows = (u.snapshot second).windows := by
    unfold DetachedSubtree.windows
    rw [hin, DetachedNode.windows_placeFullscreen]
  have hfill := h.fillPlace e hk incoming hfit (fun hg => ?_) ?_ ?_ fun hm => ?_
  · rw [hw] at hfill
    have hfin : Inv (c.on w) ∅ w' := by
      rw [← hw']
      refine Inv.finishSubtreeDetach (q := none) ?_ fun hm => ?_
      · rwa [show {x | (none : Option NodeId) = some x} = ∅ by ext; simp]
      obtain ⟨r, hokw, -⟩ := hfill.ok
      exact fun n hn => Classical.or_iff_not_imp_left.mpr fun hne =>
        hokw.exists_leaf (c.marks_full hm)
          ((hfill.side (c.marks_side hm)).contains_fullscreenNode hn) hne
    have hsv := h.splitAt_removed hdet hp hs hi
    obtain ⟨rv, hokv, -⟩ := (hinv.advance hk).ok
    obtain ⟨⟨leaves, hg, hl⟩, hcount⟩ := grows_attachSubtreeForSwap
      (t := { v with counter := k }) (fun n hn => hokv.fresh hn) incoming slot
      ((isSplit_eq_true _ _).mpr ⟨_, hsv⟩) hfit.old
    rw [hw] at hg hcount
    refine ⟨hfill, hfin.onSelf, (hfin.held_perm hfill).trans ?_, hcount⟩
    have := hg.held (hinv.advance hk) hfill
    rw [hl, hwin] at this
    exact this.trans (((hinv.advance hk).held_perm hinv).append_right _)
  · rw [hwin]
    exact windows_snapshot_ne_nil hok (hfull ▸ hg) hid hroot
  · unfold DetachedSubtree.height
    rw [hin, DetachedNode.height_placeFullscreen, height_snapshot hok hid]
    exact hfits
  · unfold DetachedSubtree.hasFullscreen
    rw [hin, DetachedNode.hasFullscreen_placeFullscreen]
  · refine ⟨(hholds hm).1, ?_⟩
    rw [hin, DetachedNode.hasMapped_placeFullscreen]
    exact (hholds hm).2

omit [DecidableEq I] in
/-- The mode a detached subtree carries at its root. -/
theorem fullscreen_snapshot {D E : Set NodeId}
    (h : Ok g D E r t.toArena) (hn : t.contains n = true) :
    (t.snapshot n).fullscreen = t.fullscreenMode n := by
  unfold DetachedNode.fullscreen fullscreenMode
  rw [pendingMode_snapshot h hn]

/-- **What a successful swap has done**: both subtrees left their places, each went to the place of
    the other, and both trees were compacted. -/
theorem swapNodesBetween_ok {t' u' : TilingTree I} {remap : SwapRemap}
    (e : t.swapNodesBetween u first second = .ok (t', u', remap)) :
    ∃ t1 sub1 slot1 u1 sub2 slot2, t.fitsAt first (u.subtreeHeight second) = true ∧
      u.fitsAt second (t.subtreeHeight first) = true ∧
      t.detachSubtreeForSwap first = some (t1, sub1, slot1) ∧
      u.detachSubtreeForSwap second = some (u1, sub2, slot2) ∧
      let x := t1.attachSubtreeForSwap (sub1.swapFullscreenPosition sub2).2 slot1
      let y := ({ u1 with counter := x.1.counter } : TilingTree I).attachSubtreeForSwap
        (sub1.swapFullscreenPosition sub2).1 slot2
      t' = x.1.finishSubtreeDetach none ∧ u' = y.1.finishSubtreeDetach none ∧
        remap = { first := y.2.2, second := x.2.2 } := by
  unfold TilingTree.swapNodesBetween at e
  split at e
  · cases e
  rename_i hfits
  simp only [Bool.not_eq_true', Bool.or_eq_true, not_or, Bool.not_eq_false] at hfits
  split at e
  · cases e
  rename_i t1 sub1 slot1 e1
  split at e
  · cases e
  rename_i u1 sub2 slot2 e2
  cases e
  exact ⟨t1, sub1, slot1, u1, sub2, slot2, hfits.1, hfits.2, e1, e2, rfl, rfl, rfl⟩

/-- **Swapping between two trees** keeps the invariant of both, and together they hold the same
    windows. -/
theorem Inv.swapNodesBetween (h : Inv c ∅ t) (h' : Inv d ∅ u) (hcount : t.counter = u.counter)
    (hfull : c.full = d.full) (hside : c.side = d.side) (hbare : c.bare = d.bare)
    (hholds : c.marks → t.swapHolds first (u.snapshot second))
    (hholds' : d.marks → u.swapHolds second (t.snapshot first)) {t' u' : TilingTree I}
    {remap : SwapRemap} (e : t.swapNodesBetween u first second = .ok (t', u', remap)) :
    Inv (c.on t') ∅ t' ∧ Inv (d.on u') ∅ u' ∧ (t'.held ++ u'.held).Perm (t.held ++ u.held) := by
  obtain ⟨t1, sub1, slot1, u1, sub2, slot2, hfits, hfits', e1, e2, e⟩ := swapNodesBetween_ok e
  obtain ⟨s, ⟨hid, hroot⟩, hp, hs, hi, hx, hnode, hdet, hinv, -⟩ := h.detachSubtreeForSwap e1
  obtain ⟨s', ⟨hid', hroot'⟩, hp', hs', hi', hx', hnode', hdet', hinv', -⟩ :=
    h'.detachSubtreeForSwap e2
  obtain ⟨r, hok, -⟩ := h.ok
  obtain ⟨r', hok', -⟩ := h'.ok
  have hc1 : t1.counter = t.counter := hdet.counter.trans (if_neg hroot)
  have hc2 : u1.counter = u.counter := hdet'.counter.trans (if_neg hroot')
  simp only [DetachedSubtree.swapFullscreenPosition, hnode, hnode', fullscreen_snapshot hok hid,
    fullscreen_snapshot hok' hid'] at e
  obtain ⟨rfl, rfl, -⟩ := e
  obtain ⟨-, hT, hTheld, hTc⟩ := h.halfSwap h' hfull hside hbare e1 hid' hroot' (k := t1.counter) le_rfl
    (hc1 ▸ hcount ▸ le_rfl) { sub2 with
      node := (u.snapshot second).placeFullscreen (t.fullscreenMode first) }
    rfl hfits hholds rfl rfl
  obtain ⟨-, hU, hUheld, -⟩ := h'.halfSwap h hfull.symm hside.symm hbare.symm e2 hid hroot
    (k := _) ((hc2.trans (hcount.symm.trans hc1.symm)).le.trans hTc) (hc1.symm.le.trans hTc)
    { sub1 with node := (t.snapshot first).placeFullscreen (u.fullscreenMode second) }
    rfl hfits' hholds' rfl rfl
  refine ⟨hT, hU, ?_⟩
  have h1 := h.held_detached hid hdet hinv
  have h2 := h'.held_detached hid' hdet' hinv'
  rw [detachment, if_neg hroot] at h1
  rw [detachment, if_neg hroot'] at h2
  refine (hTheld.append hUheld).trans (Perm.trans ?_ (h1.append h2).symm)
  rw [append_assoc, append_assoc]
  refine Perm.append_left _ ?_
  exact (perm_append_comm_assoc _ _ _).trans
    ((perm_append_comm.append_left _).trans (perm_append_comm_assoc _ _ _))

end Pair

end TilingTree

end Swayward
