/-
  File:      Swayward/Keeps/Windows.lean
  Subject:   THE WINDOWS OF A TREE, and what a transfer moves.

  The invariant fixes the leaves and their windows by a function on identifiers. Here that function
  is turned into the list of windows a tree holds, up to order: `Inv.windows_perm` for operations
  that move none, `Grows` for those that put some in, `windows_detachFinish` for those that take some
  out.
-/
import Swayward.Keeps.Ops

namespace Swayward

open Arena Forest List
open Prod (fst snd)

variable {I : Type} {F : Set NodeId}

namespace TilingTree

variable {c : Ctx I} {t u v : TilingTree I} {n : NodeId}
variable {E : Set NodeId}

/-! ## 1. The windows of a tree -/

theorem Inv.nodup_windows (h : Inv c E t) : (t.windows.map (·.1)).Nodup := by
  obtain ⟨r, hok, -⟩ := h.ok
  refine (hok.nodup_depthFirst hok.contains_root).sublist ?_
  have := Positions.map_filterMap_sublist (k := fun n => n) (g := fst)
    (f := fun n => (t.tile n).map fun tile => (n, tile.window)) (fun n e he => ?_)
    (t.depthFirst t.root)
  · rwa [map_id'] at this
  · obtain ⟨tile, -, rfl⟩ := Option.map_eq_some_iff.mp he
    rfl

/-- **A list of leaves with their windows**: all of them, each once. -/
theorem Inv.windows_perm_of (h : Inv c E t) {l : List (NodeId × I)} (hl : (l.map (·.1)).Nodup)
    (hmem : ∀ n w, (n, w) ∈ l ↔ c.windows n = some w) :
    t.windows.Perm l := by
  refine (perm_ext_iff_of_nodup (h.nodup_windows.of_map _) (hl.of_map _)).mpr ?_
  rintro ⟨n, w⟩
  rw [h.mem_windows, hmem]

/-- **Trees with the same leaves hold the same windows.** -/
theorem Inv.held_perm (h : Inv c E t) (h' : Inv c F u) : t.held.Perm u.held :=
  (h.windows_perm_of h'.nodup_windows fun _ _ => h'.mem_windows).map _

/-- Distinct windows, seen by the context. -/
theorem Inv.distinct (h : Inv c E t) (hn : t.held.Nodup) : c.Distinct := by
  intro m n w hm hn'
  have hm := h.mem_windows.mpr hm
  have hn' := h.mem_windows.mpr hn'
  have := inj_on_of_nodup_map hn hm hn' rfl
  exact congrArg fst this

/-! ## 2. Trees that gain leaves -/

/-- `u` has the leaves of `t` and `leaves`. -/
structure Grows (t : TilingTree I) (leaves : List (NodeId × I)) (u : TilingTree I) : Prop where
  nodup : (leaves.map (·.1)).Nodup
  fresh : ∀ e ∈ leaves, t.tile e.1 = none
  old : ∀ n, n ∉ leaves.map (·.1) → (u.tile n).map (·.window) = (t.tile n).map (·.window)
  new : ∀ e ∈ leaves, (u.tile e.1).map (·.window) = some e.2

theorem Grows.held {leaves : List (NodeId × I)} (hg : Grows t leaves u) {d : Ctx I}
    (h : Inv c E t) (h' : Inv d F u) :
    u.held.Perm (t.held ++ leaves.map (·.2)) := by
  have key : u.windows.Perm (t.windows ++ leaves) := by
    refine h'.windows_perm_of ?_ fun n w => ?_
    · rw [map_append, nodup_append']
      refine ⟨h.nodup_windows, hg.nodup, fun x hx hx' => ?_⟩
      obtain ⟨⟨m, w⟩, hm, rfl⟩ := mem_map.mp hx
      obtain ⟨e, he, e'⟩ := mem_map.mp hx'
      have hw := h.mem_windows.mp hm
      have e' : e.1 = m := e'
      rw [← h.tiles, ← e', hg.fresh e he] at hw
      cases hw
    · rw [mem_append, h.mem_windows, ← h.tiles, ← h'.tiles]
      by_cases hn : n ∈ leaves.map (·.1)
      · obtain ⟨⟨m, w'⟩, he, rfl⟩ := mem_map.mp hn
        rw [hg.new _ he, hg.fresh _ he]
        refine ⟨fun hw => ?_, fun hw => .inr ?_⟩
        · rcases hw with hw | hw
          · cases hw
          · exact congrArg some (congrArg snd (inj_on_of_nodup_map hg.nodup he hw rfl))
        · cases hw
          exact he
      · rw [hg.old n hn]
        refine ⟨fun hw => hw.resolve_right fun he => hn (mem_map_of_mem he), .inl⟩
  have := key.map snd
  rwa [map_append] at this

/-- What only touches the rest of the tree. -/
theorem Grows.of_window {leaves : List (NodeId × I)} (hg : Grows t leaves u)
    (hv : ∀ n, (v.tile n).map (·.window) = (u.tile n).map (·.window)) : Grows t leaves v :=
  ⟨hg.nodup, hg.fresh, fun n hn => (hv n).trans (hg.old n hn), fun e he => (hv _).trans (hg.new e he)⟩

end TilingTree

namespace DetachedNode

mutual

/-- The windows of a detached node are those of its leaves. -/
theorem windows_eq (node : DetachedNode I) :
    node.windows = node.subnodes.filterMap fun m => m.tile.map (·.window) := by
  match node with
  | .leaf oldId tile mode mapped => rfl
  | .split oldId layout children percents info mode =>
    rw [windows, subnodes, windowsOf_eq children]
    rfl

theorem windowsOf_eq (nodes : List (DetachedNode I)) :
    windowsOf nodes = (subnodesOf nodes).filterMap fun m => m.tile.map (·.window) := by
  match nodes with
  | [] => rfl
  | node :: nodes =>
    rw [windowsOf, subnodesOf, windows_eq node, windowsOf_eq nodes, filterMap_append]

end

end DetachedNode

namespace TilingTree

variable {c : Ctx I} {t u v : TilingTree I} {id n : NodeId} {news : List (NodeId × DetachedNode I)}
variable {E : Set NodeId}

/-- The leaves among new nodes. -/
def newLeaves (news : List (NodeId × DetachedNode I)) : List (NodeId × I) :=
  news.filterMap fun e => e.2.tile.map fun tile => (e.1, tile.window)

theorem newLeaves_windows (news : List (NodeId × DetachedNode I)) :
    (newLeaves news).map (·.2) = (news.map snd).filterMap fun m => m.tile.map (·.window) := by
  unfold newLeaves
  rw [map_filterMap, filterMap_map]
  refine filterMap_congr fun e _ => ?_
  cases h : e.2.tile <;> simp [h]

theorem Planted.grows (h : Planted t news u) : Grows t (newLeaves news) u where
  nodup := by
    refine h.nodup.sublist (Positions.map_filterMap_sublist (fun e x hx => ?_) news)
    obtain ⟨tile, -, rfl⟩ := Option.map_eq_some_iff.mp hx
    rfl
  fresh e he := by
    obtain ⟨x, hx, hm⟩ := mem_filterMap.mp he
    obtain ⟨tile, -, rfl⟩ := Option.map_eq_some_iff.mp hm
    have := h.fresh x hx
    cases e : t.tile x.1 with
    | none => rfl
    | some tile =>
      rw [contains_of_tile e] at this
      cases this
  old n hn := by
    by_cases hnew : n ∈ news.map fst
    · obtain ⟨e, he, rfl⟩ := mem_map.mp hnew
      have hnone : e.2.tile = none := by
        cases ht : e.2.tile with
        | none => rfl
        | some tile =>
          refine absurd (mem_map.mpr ⟨(e.1, tile.window), ?_, rfl⟩) hn
          exact mem_filterMap.mpr ⟨e, he, by rw [ht]; rfl⟩
      have hf := h.fresh e he
      rw [(h.node e he).2, hnone]
      cases e' : t.tile e.1 with
      | none => rfl
      | some tile =>
        rw [contains_of_tile e'] at hf
        cases hf
    · rw [(h.reads hnew).2.2.2]
  new e he := by
    obtain ⟨x, hx, hm⟩ := mem_filterMap.mp he
    obtain ⟨tile, ht, rfl⟩ := Option.map_eq_some_iff.mp hm
    rw [(h.node x hx).2, ht]
    rfl

/-! ## 3. Attaching -/

section Attach

variable [DecidableEq I]

omit [DecidableEq I] in
theorem tile_insertChild {a : Arena I} (p id : NodeId) (after : Option NodeId) (n : NodeId) :
    (a.insertChild p id after).tile n = a.tile n := by
  unfold insertChild
  split
  · rfl
  simp only [insertChildAt]
  split
  · rw [tile_setParent, tile_modifySplit]
  · rfl

theorem grows_attachNode (hb : ∀ n, t.contains n = true → n < t.counter) (node : DetachedNode I)
    (hold : ∀ m ∈ node.subnodes, m.oldId < t.counter) (history : List I) (wrapped : Bool)
    (target : Option NodeId) :
    ∃ leaves, Grows t leaves (t.attachNode node history wrapped target).1 ∧
      leaves.map (·.2) = node.windows := by
  obtain ⟨news, hnews, -, hpl, -⟩ := grown_insertDetachedNode node t none [] hb hold rfl
  refine ⟨newLeaves news, hpl.grows.of_window fun n => ?_, ?_⟩
  · exact ((rests_settleAttached history wrapped).window n).trans (by rw [tile_insertChild])
  · rw [newLeaves_windows, hnews, node.windows_eq]

theorem grows_attachSplitToEmptyRoot (hb : ∀ n, t.contains n = true → n < t.counter)
    (oldId : NodeId) (layout : Layout) (children : List (DetachedNode I)) (percents : List ℚ)
    (info : SplitMeta) (mode : Option PendingMode)
    (hold : ∀ m ∈ DetachedNode.subnodesOf children, m.oldId < t.counter) (history : List I) :
    ∃ leaves, Grows t leaves
        (t.attachSplitToEmptyRoot oldId layout children percents info mode history).1 ∧
      leaves.map (·.2) = DetachedNode.windowsOf children := by
  obtain ⟨remapped, e⟩ := attachSplitToEmptyRoot_eq t oldId layout children percents info mode
    history
  rw [e]
  set t1 := t.openRoot layout info mode with ht1
  have htile : ∀ n, t1.tile n = t.tile n := fun n => by
    rw [ht1]
    unfold openRoot withRootMode
    split <;> exact tile_modifySplit ..
  have hcon : ∀ n, t1.contains n = t.contains n := fun n => by
    rw [ht1]
    unfold openRoot withRootMode
    split <;> exact contains_modifySplit ..
  obtain ⟨news, hnews, -, hpl, -⟩ := grown_insertDetachedNodes children t1 (some t.root) remapped
    (fun x hx => hb x (hcon x ▸ hx)) hold rfl
  have hg := hpl.grows
  refine ⟨newLeaves news, ⟨hg.nodup, fun e he => (htile _).symm.trans (hg.fresh e he), fun n hn => ?_,
    fun e he => ?_⟩, ?_⟩
  · rw [window_requestWindowSizes, toArena_restoreTransferredFocus, ← htile]
    unfold fillRoot
    exact (congrArg _ (tile_modifySplit ..)).trans (hg.old n hn)
  · rw [window_requestWindowSizes, toArena_restoreTransferredFocus]
    unfold fillRoot
    exact (congrArg _ (tile_modifySplit ..)).trans (hg.new e he)
  · rw [newLeaves_windows, hnews, DetachedNode.windowsOf_eq]

/-- **An attached subtree brings its windows.** -/
theorem Inv.grows_attachSubtreeWith (h : Inv c ∅ t) (subtree : DetachedSubtree I)
    (hold : ∀ m ∈ subtree.node.subnodes, m.oldId < t.counter)
    (target : Option NodeId) (unwrapIntoEmptyRoot : Bool) :
    ∃ leaves, Grows t leaves (t.attachSubtreeWith subtree target unwrapIntoEmptyRoot).1 ∧
      leaves.map (·.2) = subtree.windows := by
  have hut := (h.makeWay subtree).2.1
  rw [attachSubtreeWith_eq]
  generalize t.makeWay subtree = u at hut ⊢
  have hof : ∀ {leaves v}, Grows u leaves v → Grows t leaves v := fun hg =>
    ⟨hg.nodup, fun e he => by rw [← hut]; exact hg.fresh e he,
      fun n hn => by rw [← hut]; exact hg.old n hn, hg.new⟩
  have hbu : ∀ n, u.contains n = true → n < u.counter := by
    obtain ⟨r, hok, -⟩ := h.ok
    rw [hut]
    exact fun n hn => hok.fresh hn
  have hnode := grows_attachNode hbu subtree.node (by rw [hut]; exact hold) subtree.focusHistory
    subtree.wrappedWorkspace target
  simp only
  split
  · rename_i oldId layout children percents info mode hsplit
    by_cases hempty : (u.isEmpty && unwrapIntoEmptyRoot) = true
    · rw [if_pos hempty]
      obtain ⟨leaves, hg, hl⟩ := grows_attachSplitToEmptyRoot hbu oldId layout children percents
        info mode (fun m hm => by
          rw [hut]
          refine hold m ?_
          rw [hsplit, DetachedNode.subnodes]
          exact mem_cons_of_mem _ hm) subtree.focusHistory
      refine ⟨leaves, hof hg, hl.trans ?_⟩
      unfold DetachedSubtree.windows
      rw [hsplit, DetachedNode.windows]
    · rw [if_neg hempty]
      obtain ⟨leaves, hg, hl⟩ := hnode
      exact ⟨leaves, hof hg, hl⟩
  · obtain ⟨leaves, hg, hl⟩ := hnode
    exact ⟨leaves, hof hg, hl⟩

/-- **The tree of a floating group holds the windows of its subtree.** -/
theorem grows_fromDetachedSubtree (counter : NodeId) (config : Config) (subtree : DetachedSubtree I)
    (hold : ∀ m ∈ subtree.node.subnodes, m.oldId < counter + 1) :
    ∃ leaves, Grows (new counter config : TilingTree I) leaves
        (fromDetachedSubtree counter config subtree).1 ∧ leaves.map (·.2) = subtree.windows := by
  set t : TilingTree I :=
    { new counter { config with gapsToEdge := false } with residentRoot := true } with ht
  have hget : ∀ n, t.get n = (new counter config : TilingTree I).get n := fun n => rfl
  have hb : ∀ n, t.contains n = true → n < t.counter := fun n hn => by
    unfold Arena.contains at hn
    rw [hget, get_new] at hn
    by_cases e : n = counter
    · rw [e]
      exact Nat.lt_succ_self counter
    · simp [e] at hn
  obtain ⟨news, hnews, -, hpl, -⟩ := grown_insertDetachedNode subtree.node t none [] hb hold rfl
  refine ⟨newLeaves news, ?_, ?_⟩
  · have hg : Grows (new counter config : TilingTree I) (newLeaves news) _ :=
      ⟨hpl.grows.nodup, hpl.grows.fresh, hpl.grows.old, hpl.grows.new⟩
    refine hg.of_window fun n => ?_
    unfold fromDetachedSubtree
    rw [← ht]
    simp only
    rw [window_requestWindowSizes]
    split
    · rw [toArena_setFocusId, toArena_restoreTransferredFocus, tile_insertChild]
    · rw [toArena_restoreTransferredFocus, tile_insertChild]
  · rw [newLeaves_windows, hnews]
    exact subtree.node.windows_eq.symm

end Attach

/-! ## 4. Detaching -/

/-- The windows of a snapshot are those of the leaves below. -/
theorem windows_snapshot {g : Prop} {D : Set NodeId} {r : NodeId → ℕ} (h : Ok g D E r t.toArena)
    (hn : t.contains n = true) :
    (t.snapshot n).windows = (t.depthFirst n).filterMap fun m => (t.tile m).map (·.window) := by
  rw [DetachedNode.windows_eq, subnodes_snapshot h hn, filterMap_map]
  refine filterMap_congr fun m hm => ?_
  have hm := h.contains_below hn ((h.mem_depthFirst hn).mp hm)
  rcases (t.contains_iff m).mp hm with ⟨s, hs⟩ | ⟨tile, ht⟩
  · simp [snapshot_split h hs, tile_of_splitAt hs, DetachedNode.tile]
  · simp [snapshot_leaf h ht, ht, DetachedNode.tile]

theorem windows_detachment {g : Prop} {D : Set NodeId} {r : NodeId → ℕ} (h : Ok g D E r t.toArena)
    (hid : t.contains id = true) :
    (t.detachment id).windows = (t.depthFirst id).filterMap fun m => (t.tile m).map (·.window) := by
  unfold detachment
  split_ifs with e
  · obtain ⟨s, hs⟩ := h.root_split
    rw [hs, e, h.depthFirst_eq (contains_of_splitAt hs), filterMap_cons, tile_of_splitAt hs]
    simp only [Option.map_none, DetachedNode.windows, DetachedNode.windowsOf_eq,
      DetachedNode.subnodesOf_eq, flatMap_map, children_of_splitAt hs, filterMap_flatMap]
    refine flatMap_congr fun x hx => ?_
    rw [← DetachedNode.windows_eq]
    exact windows_snapshot h (h.contains_kid (children_of_splitAt hs ▸ hx))
  · exact windows_snapshot h hid

/-- **What leaves and what stays make up the windows.** -/
theorem Inv.held_detached (h : Inv c ∅ t) (hid : t.contains id = true) (hdet : t.Detaches id v)
    {d : Ctx I} (hv : Inv d E v) :
    t.held.Perm (v.held ++ (t.detachment id).windows) := by
  obtain ⟨r, hok, -⟩ := h.ok
  set leaves := (t.depthFirst id).filterMap fun m => (t.tile m).map fun tile => (m, tile.window)
    with hleaves
  have hfst : ∀ n, n ∈ leaves.map fst → n ∈ t.depthFirst id := fun n hn => by
    obtain ⟨e, he, rfl⟩ := mem_map.mp hn
    obtain ⟨m, hm, he⟩ := mem_filterMap.mp he
    obtain ⟨tile, -, rfl⟩ := Option.map_eq_some_iff.mp he
    exact hm
  have hg : Grows v leaves t := by
    refine ⟨?_, fun e he => ?_, fun n hn => ?_, fun e he => ?_⟩
    · refine (hok.nodup_depthFirst hid).sublist ?_
      have := Positions.map_filterMap_sublist (k := fun n => n) (g := fst)
        (f := fun n => (t.tile n).map fun tile => (n, tile.window)) (fun n e he => ?_)
        (t.depthFirst id)
      · rwa [map_id'] at this
      · obtain ⟨tile, -, rfl⟩ := Option.map_eq_some_iff.mp he
        rfl
    · have := hdet.window e.1
      rw [if_pos (hfst _ (mem_map_of_mem he))] at this
      exact Option.map_eq_none_iff.mp this
    · rw [hdet.window]
      split_ifs with hm
      · cases ht : t.tile n with
        | none => rfl
        | some tile =>
          refine absurd (mem_map.mpr ⟨(n, tile.window), ?_, rfl⟩) hn
          exact mem_filterMap.mpr ⟨n, hm, by rw [ht]; rfl⟩
      · rfl
    · obtain ⟨m, -, he⟩ := mem_filterMap.mp he
      obtain ⟨tile, ht, rfl⟩ := Option.map_eq_some_iff.mp he
      simp [ht]
  have hl : leaves.map snd = (t.detachment id).windows := by
    rw [windows_detachment hok hid, hleaves, map_filterMap]
    refine filterMap_congr fun m _ => ?_
    cases t.tile m <;> rfl
  have := hg.held hv h
  rwa [hl] at this

theorem Inv.held_detachFinish (h : Inv c ∅ t) (hid : t.contains id = true) {sub : DetachedSubtree I}
    {q : Option NodeId} (hv : t.detachSubtree id = some (v, sub, q)) :
    t.held.Perm ((v.finishSubtreeDetach q).held ++ sub.windows) := by
  obtain ⟨v', e, hdet, hinv, -⟩ := h.detachSubtree hid
  rw [hv] at e
  cases e
  have hfin := hinv.finishSubtreeDetach (q := t.parentOf id) False.elim
  exact (h.held_detached hid hdet hinv).trans ((hinv.held_perm hfin).append_right _)

/-! ## 5. One leaf -/

theorem Inv.grows_learn (h : Inv c E t) {w : I} (hid : c.windows id = none)
    (h' : Inv (c.learn id w) F u) : Grows t [(id, w)] u where
  nodup := nodup_singleton id
  fresh e he := by
    cases mem_singleton.mp he
    exact Option.map_eq_none_iff.mp ((h.tiles id).trans hid)
  old n hn := by
    rw [h'.tiles, h.tiles]
    exact if_neg (by simpa using hn)
  new e he := by
    cases mem_singleton.mp he
    rw [h'.tiles]
    exact if_pos rfl

theorem Inv.grows_without (h : Inv c E t) {w : I} (hid : c.windows id = some w)
    (h' : Inv (c.without id) F u) : Grows u [(id, w)] t where
  nodup := nodup_singleton id
  fresh e he := by
    cases mem_singleton.mp he
    exact Option.map_eq_none_iff.mp ((h'.tiles id).trans (if_pos rfl))
  old n hn := by
    rw [h'.tiles, h.tiles]
    exact (if_neg (by simpa using hn)).symm
  new e he := by
    cases mem_singleton.mp he
    rw [h.tiles, hid]

end TilingTree

/-- The windows an operation takes away. -/
def TileOp.taken [DecidableEq I] (t : TilingTree I) : TileOp I → List I
  | .removeTileNode id => ((t.tile id).map (·.window)).toList
  | .removeTile window => ((t.nodeForWindow window).map fun _ => window).toList
  | .removeTileForTransfer window => ((t.nodeForWindow window).map fun _ => window).toList
  | _ => []

namespace TilingTree

variable [DecidableEq I] {c : Ctx I} {t : TilingTree I}
variable {u : TilingTree I} {id : NodeId}

omit [DecidableEq I] in
theorem Inv.after_learn (h : Inv c ∅ t) {w : I} (hid : c.windows id = none)
    (h' : Inv (c.learn id w).calmed ∅ u) :
    Inv (c.on u) ∅ u ∧ (t.held ++ [w]).Perm (u.held ++ []) := by
  have hg := h.grows_learn hid h'.uncalm
  rw [append_nil]
  exact ⟨h'.uncalm.onSelf, (hg.held h h').symm⟩

omit [DecidableEq I] in
theorem Inv.after_without (h : Inv c ∅ t) {w : I} (hid : c.windows id = some w)
    (h' : Inv (c.without id).calmed ∅ u) :
    Inv (c.on u) ∅ u ∧ (t.held ++ []).Perm (u.held ++ [w]) := by
  have hg := h.grows_without hid h'.uncalm
  rw [append_nil]
  exact ⟨h'.uncalm.onSelf, hg.held h' h⟩

theorem Inv.window_nodeForWindow (h : Inv c ∅ t) {window : I}
    (e : t.nodeForWindow window = some id) : c.windows id = some window := by
  obtain ⟨tile, ht, rfl⟩ := nodeForWindow_some e
  rw [← h.tiles, ht]
  rfl

omit [DecidableEq I] in
/-- A removal needs no condition for the marks in a tree without any. -/
theorem Inv.without_unmarked {P : Prop} (h : Inv c ∅ t) (hP : c.marks → t.Unmarked ∨ P)
    (hf : ∀ c' : Ctx I, Inv c' ∅ t → (c'.marks → P) → Inv (c'.without id).calmed ∅ u) :
    Inv (c.without id).calmed ∅ u := by
  by_cases hm : c.marks → P
  · exact hf c h hm
  · rw [Classical.not_imp] at hm
    have h' := hf c.barren (h.barren ((hP hm.1).resolve_right hm.2)) False.elim
    exact Inv.of_barren (c := (c.without id).calmed) h'

/-- **Adding or removing one window keeps the invariant**, and moves that window only. -/
theorem Inv.runTile (h : Inv c ∅ t) (hb : ¬ c.bare) (op : TileOp I)
    (hp : op.promised t = true) (hfull : c.deep → c.full) (hholds : c.marks → op.holds t) :
    Inv (c.on (op.run t)) ∅ (op.run t) ∧
      (t.held ++ op.window.toList).Perm ((op.run t).held ++ op.taken t) := by
  cases op with
  | addTileWithActivation tile target activate =>
    obtain ⟨s, hs⟩ := h.splitAt_insertionSlot target
    exact h.after_learn h.windows_counter (h.addTileWithActivation tile target activate hb
      fun hd => h.deep_split (hfull hd) hs hd).1
  | addTileAtDrop tile target edge activate =>
    obtain ⟨h1, hid⟩ := h.addTileAtDrop tile target edge activate hb
    exact h.after_learn hid h1
  | addTileToExistingParent tile parent activate =>
    obtain ⟨hsplit, hroot⟩ := Bool.and_eq_true_iff.mp hp
    obtain ⟨s, hs⟩ := (t.isSplit_eq_true parent).mp hsplit
    exact h.after_learn h.windows_counter (h.addTileToExistingParent tile hs (by simpa using hroot)
      activate fun hd => h.deep_split (hfull hd) hs hd)
  | removeTileNode id =>
    cases ht : t.tile id with
    | none =>
      simp only [TileOp.run, TileOp.taken, TileOp.window, TilingTree.removeTileNode, ht]
      exact ⟨h.onSelf, Perm.refl _⟩
    | some tile =>
      have h1 := h.without_unmarked hholds fun c' h' hP => h'.removeTileNode ht hP
      have hid : c.windows id = some tile.window := by rw [← h.tiles, ht]; rfl
      simp only [TileOp.taken, ht]
      exact h.after_without hid h1
  | removeTile window =>
    cases e : t.nodeForWindow window with
    | none =>
      simp only [TileOp.run, TileOp.taken, TileOp.window, TilingTree.removeTile, e]
      exact ⟨h.onSelf, Perm.refl _⟩
    | some id =>
      have h1 := h.without_unmarked hholds fun c' h' hP => (h'.removeTile window hP).2 id e
      simp only [TileOp.taken, e]
      exact h.after_without (h.window_nodeForWindow e) h1
  | removeTileForTransfer window =>
    cases e : t.nodeForWindow window with
    | none =>
      simp only [TileOp.run, TileOp.taken, TileOp.window, TilingTree.removeTileForTransfer, e]
      exact ⟨h.onSelf, Perm.refl _⟩
    | some id =>
      have h1 := h.without_unmarked hholds fun c' h' hP =>
        (h'.removeTileForTransfer window hP).2 id e
      simp only [TileOp.taken, e]
      exact h.after_without (h.window_nodeForWindow e) h1

end TilingTree

end Swayward
