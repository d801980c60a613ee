/-
  File:      Swayward/Keeps/RoundTrip.lean
  Subject:   A SUBTREE GOES TO ANOTHER TREE AND IS TAKEN OUT AGAIN: nothing about it has changed.

  Two things are shown on the way. Identifiers that are free in the destination are kept
  (`Planted.keeps`), and the leaves come back in the order in which they had the focus
  (`focusHistory_reinsertFocusHistory`). What the nodes carry is the subject of `Carries.snapshot`.
-/
import Swayward.Keeps.Carry
import Swayward.Keeps.Safety

namespace Swayward

open Arena Forest Shares Positions List
open Prod (fst snd)

variable {I : Type} {D E : Set NodeId} {B : List NodeId} {g : Prop}

/-! ## 1. Identifiers that are free are kept -/

namespace TilingTree

variable {t u : TilingTree I} {news : List (NodeId × DetachedNode I)}

/-- **A subtree whose identifiers are free keeps them.** -/
theorem Planted.keeps (hpl : Planted t news u)
    (hold : ∀ e ∈ news, e.2.oldId < t.counter) (hfree : ∀ e ∈ news, t.contains e.2.oldId = false)
    (hnodup : (news.map fun e => e.2.oldId).Nodup)
    (htaken : ∀ e ∈ news, u.contains e.2.oldId = true) : ∀ e ∈ news, e.1 = e.2.oldId := by
  intro e he
  -- the node that has the identifier did not get it from the counter
  rcases (hpl.contains _).mp (htaken e he) with hc | hc
  · rw [hfree e he] at hc
    cases hc
  obtain ⟨f, hf, hfe⟩ := mem_map.mp hc
  rcases hpl.origin f hf with ho | ho
  · rw [← inj_on_of_nodup_map hnodup hf he (ho.symm.trans hfe)]
    exact ho
  · exact absurd (hold e he) (hfe ▸ ho).not_gt

end TilingTree

namespace DetachedNode

mutual

theorem oldIds_renamed (f : NodeId → NodeId) (node : DetachedNode I) :
    (node.renamed f).subnodes.map oldId = (node.subnodes.map oldId).map f :=
  match node with
  | .leaf oldId tile mode mapped => rfl
  | .split oldId layout children percents info mode => by
      rw [renamed, subnodes, subnodes, map_cons, map_cons, map_cons, oldIds_renamedOf f children]
      rfl

theorem oldIds_renamedOf (f : NodeId → NodeId) (nodes : List (DetachedNode I)) :
    (subnodesOf (renamedOf f nodes)).map oldId = ((subnodesOf nodes).map oldId).map f :=
  match nodes with
  | [] => rfl
  | node :: nodes => by
      rw [renamedOf, subnodesOf, subnodesOf, map_append, map_append, map_append,
        oldIds_renamed f node, oldIds_renamedOf f nodes]

end

end DetachedNode

/-! ## 2. The order of focus -/

namespace TilingTree

variable [DecidableEq I] {c : Ctx I} {t u v w : TilingTree I} {id p n : NodeId} {E : Set NodeId}
  {news : List (NodeId × DetachedNode I)}

/-- Windows that are distinct are found at their leaf. -/
theorem Inv.nodeForWindow_eq (h : Inv c E t) (hd : c.Distinct) {x : I}
    (hn : c.windows n = some x) : t.nodeForWindow x = some n := by
  have hmem := h.mem_windows.mpr hn
  cases e : t.nodeForWindow x with
  | none =>
    unfold nodeForWindow at e
    rw [Option.map_eq_none_iff, find?_eq_none] at e
    have := e _ hmem
    simp at this
  | some m =>
    obtain ⟨tile, ht, hx⟩ := nodeForWindow_some e
    refine congrArg some (hd m n x ?_ hn)
    rw [← h.tiles, ht, ← hx]
    rfl

/-- **Leaves put back behind the first entry of the history keep their order.** -/
theorem focusHistory_reinsertFocusHistory {b : NodeId}
    (hB : t.focusHistory = b :: B) (l : List (NodeId × I))
    (hl : ∀ e ∈ l, t.nodeForWindow e.2 = some e.1) (hnodup : (l.map fst).Nodup)
    (hnew : ∀ e ∈ l, e.1 ∉ t.focusHistory) :
    (t.reinsertFocusHistory (l.map snd) 1).focusHistory = b :: (l.map fst ++ B) := by
  induction l with
  | nil => exact hB
  | cons e l ih =>
    rw [map_cons, nodup_cons] at hnodup
    have ih := ih (fun e he => hl e (mem_cons_of_mem _ he)) hnodup.2
      fun e he => hnew e (mem_cons_of_mem _ he)
    have harena := (focus_reinsertFocusHistory (t := t) (l.map snd) 1).2
    have hstep : t.reinsertFocusHistory ((e :: l).map snd) 1 =
        (t.reinsertFocusHistory (l.map snd) 1).rankInHistory e.1 1 := by
      have hfind : (t.reinsertFocusHistory (l.map snd) 1).nodeForWindow e.2 = some e.1 := by
        rw [harena]
        exact hl e mem_cons_self
      unfold reinsertFocusHistory at hfind ⊢
      rw [map_cons, foldr_cons, hfind]
    have hfresh : e.1 ∉ b :: (l.map fst ++ B) := by
      have := hnew e mem_cons_self
      rw [hB] at this
      simp only [mem_cons, mem_append, not_or] at this ⊢
      exact ⟨this.1, hnodup.1, this.2⟩
    rw [hstep]
    unfold rankInHistory
    simp only
    rw [ih, filter_eq_self.mpr fun x hx => ?_]
    · simp
    · have hne : x ≠ e.1 := fun e' => hfresh (e' ▸ hx)
      simpa using hne

/-- Attaching to a tree that has a focus puts the leaves behind the focused one. -/
theorem focusHistory_settleAttached (hfocus : t.focus.isSome) {b : NodeId}
    (hB : t.focusHistory = b :: B) (l : List (NodeId × I))
    (hl : ∀ e ∈ l, t.nodeForWindow e.2 = some e.1) (hnodup : (l.map fst).Nodup)
    (hnew : ∀ e ∈ l, e.1 ∉ t.focusHistory) (wrapped : Bool) :
    (t.settleAttached id (l.map snd) wrapped).focusHistory = b :: (l.map fst ++ B) := by
  obtain ⟨v, w, ⟨harena, hfoc, hhistory⟩, -, -, rfl, e⟩ :=
    settleAttached_eq t id (l.map snd) wrapped
  rw [e]
  have hkept := (focus_reinsertFocusHistory (t := v) (l.map snd) 1).1
  have hsome : ¬ (v.reinsertFocusHistory (l.map snd) 1).focus.isNone = true := by
    rw [hkept, hfoc]
    simpa using Option.isSome_iff_ne_none.mp hfocus
  have hrestore : v.restoreTransferredFocus (l.map snd) =
      v.reinsertFocusHistory (l.map snd) 1 := by
    unfold restoreTransferredFocus
    rw [hfoc, if_pos hfocus]
    exact if_neg hsome
  rw [hrestore, if_neg hsome]
  refine focusHistory_reinsertFocusHistory (hhistory.trans hB) l (fun e he => ?_) hnodup
    fun e he => hhistory ▸ hnew e he
  rw [harena]
  exact hl e he

/-! ## 3. There -/

omit [DecidableEq I] in
theorem focusHistory_makeWay (sub : DetachedSubtree I) :
    (t.makeWay sub).focusHistory = t.focusHistory := by
  unfold makeWay replaceFullscreenState
  split
  · split
    · rename_i current hcur
      rw [hcur]
      simp only
      split
      · rfl
      split
      · rfl
      · obtain ⟨session, hcancel⟩ := cancelResizeFor_eq _ current
        rw [hcancel]
        rfl
    · rfl
  · rfl

/-- `z` is `u` with the subtree planted under its own identifiers and linked. -/
structure Lands (u : TilingTree I) (node : DetachedNode I) (news : List (NodeId × DetachedNode I))
    (z : TilingTree I) : Prop where
  nodes : news.map Prod.snd = node.subnodes
  top : (node.oldId, node) ∈ news
  kept : ∀ e ∈ news, e.1 = e.2.oldId
  carries : Carries news z
  root : z.root = u.root

omit [DecidableEq I] in
theorem Lands.rests {node : DetachedNode I} (h : Lands t node news u) (hr : Rests u v) :
    Lands t node news v :=
  ⟨h.nodes, h.top, h.kept, h.carries.rests hr, hr.root.trans h.root⟩

omit [DecidableEq I] in
/-- Linking a planted subtree into a list of the old tree. -/
theorem Planted.lands (hpl : Planted t news u) (hshape : Shaped u news) {H : Set NodeId}
    (hside : t.Side H) {node : DetachedNode I} (hnodes : news.map snd = node.subnodes)
    (htop : (node.oldId, node) ∈ news) (hkept : ∀ e ∈ news, e.1 = e.2.oldId) {s s' : Split}
    (hs : t.splitAt p = some s) {a : Arena I} (hputs : Puts u.toArena p id s s' a) :
    Lands t node news { u with toArena := a } :=
  ⟨hnodes, htop, hkept, hpl.carries_puts hshape hside hs hputs, hputs.root.trans hpl.root⟩

/-- **A subtree whose identifiers are free in a tree with a focus**: where it lands, and what
    `attachSubtreeAt` returns. -/
theorem Inv.attachSubtreeAt_lands (h : Inv c ∅ t) (hside : c.side) (hdeep : ¬ c.deep)
    (hmarks : ¬ c.marks) (hfocus : t.focus.isSome) (sub : DetachedSubtree I)
    (hfit : sub.node.Fit c t.counter) (hwin : sub.windows ≠ [])
    (hfree : ∀ m ∈ sub.node.subnodes, t.contains m.oldId = false)
    (hnodup : (sub.node.subnodes.map DetachedNode.oldId).Nodup) (target : Option NodeId)
    (htarget : ∀ x, target = some x → x ∉ sub.node.subnodes.map DetachedNode.oldId) :
    ∃ news z, Lands t sub.node news z ∧ Inv (c.on z).asleep ∅ z ∧ z.focus = t.focus ∧
      z.focusHistory = t.focusHistory ∧ t.attachSubtreeAt sub target =
        (z.settleAttached sub.node.oldId sub.focusHistory sub.wrappedWorkspace, sub.node.oldId,
          []) ∧ Inv (c.on (t.attachSubtreeAt sub target).1) ∅ (t.attachSubtreeAt sub target).1 := by
  obtain ⟨hw, harena, hwfocus, hnone, -⟩ := h.makeWay sub
  have hcode : t.attachSubtreeAt sub target = (t.makeWay sub).attachNode sub.node sub.focusHistory
      sub.wrappedWorkspace target := by
    have hempty : (t.makeWay sub).isEmpty = false := by
      unfold isEmpty
      rw [hwfocus]
      simpa using hfocus
    unfold attachSubtreeAt
    rw [attachSubtreeWith_eq]
    split
    · rw [hempty]
      rfl
    · rfl
  have hhistory := focusHistory_makeWay (t := t) sub
  rw [hcode]
  generalize t.makeWay sub = u at hw harena hwfocus hnone hhistory ⊢
  rw [← harena] at hfit hfree
  obtain ⟨r, hok, -⟩ := hw.ok
  obtain ⟨news, hnews, hmem, hpl, -, hshape, hremap, htaken⟩ := grown_insertDetachedNode sub.node u
    none [] (fun x hx => hok.fresh hx) hfit.old rfl
  have hsub : ∀ e ∈ news, e.2 ∈ sub.node.subnodes := fun e he => hnews ▸ mem_map_of_mem he
  have hids : (news.map fun e => e.2.oldId) = sub.node.subnodes.map DetachedNode.oldId := by
    rw [← hnews, map_map]
    rfl
  have hkept := hpl.keeps (fun e he => hfit.old _ (hsub e he)) (fun e he => hfree _ (hsub e he))
    (hids ▸ hnodup) fun e he => htaken _ (hsub e he)
  have hkeeps : (insertDetachedNode u none [] sub.node).2.2 = [] := by
    rw [hremap, nil_append]
    exact filterMap_eq_nil_iff.mpr fun e he => if_pos (hkept e he)
  have hid := hkept _ hmem
  have hfreeTarget : ∀ x, target = some x → u.contains x = true ∨
      (insertDetachedNode u none [] sub.node).1.contains x = false := by
    intro x hx
    refine or_iff_not_imp_left.mpr fun hold => ?_
    rw [← Bool.not_eq_true, hpl.contains, not_or]
    refine ⟨hold, fun hx' => htarget x hx ?_⟩
    rwa [map_congr_left hkept, hids] at hx'
  have hadm : Admits c u sub.node := ⟨hfit, fun _ => hwin, hnone, fun hm => absurd hm hmarks⟩
  obtain ⟨p, after, s, hs, -, e⟩ := hw.attachNode_eq hadm sub.focusHistory sub.wrappedWorkspace rfl
    hfreeTarget
  have hinv := hw.attachNode hadm sub.focusHistory sub.wrappedWorkspace hfreeTarget fun hd =>
    absurd hd hdeep
  set y := insertDetachedNode u none [] sub.node with hy
  obtain ⟨hz, -⟩ := hw.plantAt hadm hs after (fun hd => absurd hd hdeep)
    (show y = (y.1, y.2.1, y.2.2) from rfl)
  have hsy : y.1.splitAt p = some s := (hpl.reads (hpl.not_new (contains_of_splitAt hs))).1.trans hs
  obtain ⟨i, hputs⟩ := puts_insertChild hsy (hpl.node _ hmem).1 after
  have hlands := hpl.lands hshape (hw.side hside) hnews (hid ▸ hmem) hkept hs hputs
  have hyfocus : y.1.focus = u.focus := by rw [hpl.others]
  have hyhistory : y.1.focusHistory = u.focusHistory := by rw [hpl.others]
  refine ⟨news, _, ⟨hlands.nodes, hlands.top, hlands.kept, hlands.carries, ?_⟩, hz,
    hyfocus.trans hwfocus, hyhistory.trans hhistory, ?_, hinv⟩
  · exact hlands.root.trans (congrArg Arena.root harena)
  · rw [e, hkeeps]
    rw [show y.2.1 = sub.node.oldId from hid]

/-! ## 4. And back -/

/-- The leaves below `id` with their windows, the last focused first. -/
def focusedLeaves (t : TilingTree I) (id : NodeId) : List (NodeId × I) :=
  (t.focusHistory.filter ((t.leafIdsIn id).contains ·)).filterMap fun leaf =>
    (t.tile leaf).map fun tile => (leaf, tile.window)

omit [DecidableEq I] in
theorem snd_focusedLeaves (id : NodeId) : (t.focusedLeaves id).map snd =
    (t.focusHistory.filter ((t.leafIdsIn id).contains ·)).filterMap fun leaf =>
      (t.tile leaf).map (·.window) := by
  unfold focusedLeaves
  rw [map_filterMap]
  refine filterMap_congr fun leaf _ => ?_
  cases t.tile leaf <;> rfl

omit [DecidableEq I] in
theorem fst_focusedLeaves {r : NodeId → ℕ} (h : Ok g D E r t.toArena) (hid : t.contains id = true) :
    (t.focusedLeaves id).map fst = t.focusHistory.filter ((t.leafIdsIn id).contains ·) := by
  unfold focusedLeaves
  rw [map_filterMap]
  refine (filterMap_congr fun leaf hleaf => ?_).trans filterMap_some
  have hmem : leaf ∈ t.leafIdsIn id := by simpa using (mem_filter.mp hleaf).2
  obtain ⟨tile, ht⟩ := Option.isSome_iff_exists.mp ((h.mem_leafIdsIn hid).mp hmem).2
  rw [ht]
  rfl

end TilingTree

/-- A detached subtree without the sizes its windows were asked for. -/
def DetachedNode.plain (node : DetachedNode I) : DetachedNode I := node.renamed fun n => n

namespace TilingTree

variable [DecidableEq I] {t u z : TilingTree I} {id n : NodeId}
  {news : List (NodeId × DetachedNode I)}

omit [DecidableEq I] in
/-- A subtree that lands brings its nodes and their windows. -/
theorem Lands.window {r : NodeId → ℕ} (h : Ok g D E r t.toArena)
    (hid : t.contains id = true) (hl : Lands u (t.snapshot id) news z) (hn : n ∈ t.depthFirst id) :
    (z.tile n).map (·.window) = (t.tile n).map (·.window) := by
  have hnc := h.contains_below hid ((h.mem_depthFirst hid).mp hn)
  have hmem : t.snapshot n ∈ news.map snd := by
    rw [hl.nodes, subnodes_snapshot h hid]
    exact mem_map_of_mem hn
  obtain ⟨e, he, hsnd⟩ := mem_map.mp hmem
  have hfst : e.1 = n := by rw [hl.kept e he, hsnd, oldId_snapshot h hnc]
  have := Tile.window_of_plain (hl.carries.tile e he)
  rwa [hsnd, hfst, tile_snapshot h hnc] at this

omit [DecidableEq I] in
/-- What has landed below `id` are the nodes that were there before. -/
theorem Lands.depthFirst {r r' : NodeId → ℕ} (h : Ok g D E r t.toArena) (hid : t.contains id = true)
    (hl : Lands u (t.snapshot id) news z) (hz : Ok g D E r' z.toArena) :
    (z.snapshot id).plain = (t.snapshot id).plain ∧ z.depthFirst id = t.depthFirst id := by
  have hold : (t.snapshot id).oldId = id := oldId_snapshot h hid
  have hzid : z.contains id = true := by
    have := hl.carries.contains hl.top
    rwa [hold] at this
  have hsnap := hl.carries.snapshot hz (f := fun n => n) (fun e he => (hl.kept e he).symm) hl.top
  rw [hold] at hsnap
  refine ⟨hsnap, ?_⟩
  have := congrArg (fun node => node.subnodes.map DetachedNode.oldId) hsnap
  simp only [DetachedNode.oldIds_renamed, map_id', oldIds_snapshot h hid,
    oldIds_snapshot hz hzid] at this
  exact this

omit [DecidableEq I] in
/-- The focus order below `id`, read off a tree in which the leaves came behind the first entry. -/
theorem Lands.focusOrder {r r' : NodeId → ℕ} (h : Ok g D E r t.toArena) (hid : t.contains id = true)
    (hl : Lands u (t.snapshot id) news z) (hz : Ok g D E r' z.toArena) {b : NodeId}
    (hhistory : z.focusHistory = b :: ((t.focusedLeaves id).map fst ++ B))
    (hB : ∀ n ∈ b :: B, t.contains n = false) :
    (z.focusedLeaves id).map snd = (t.focusedLeaves id).map snd := by
  have hzid : z.contains id = true := by
    have := hl.carries.contains hl.top
    rwa [oldId_snapshot h hid] at this
  obtain ⟨-, hdf⟩ := hl.depthFirst h hid hz
  have hleaf : ∀ n, n ∈ z.leafIdsIn id ↔ n ∈ t.leafIdsIn id := fun n => by
    rw [hz.mem_leafIdsIn hzid, h.mem_leafIdsIn hid, ← hz.mem_depthFirst hzid, hdf,
      ← h.mem_depthFirst hid]
    refine and_congr_right fun hn => ?_
    rw [← Option.isSome_map (f := (·.window)), hl.window h hid hn, Option.isSome_map]
  have hout : ∀ n ∈ b :: B, n ∉ z.leafIdsIn id := fun n hn hmem => by
    have hbelow := ((h.mem_leafIdsIn hid).mp ((hleaf n).mp hmem)).1
    have := hB n hn
    rw [h.contains_below hid hbelow] at this
    cases this
  have hin : ∀ n ∈ (t.focusedLeaves id).map fst, (z.leafIdsIn id).contains n = true := by
    intro n hn
    rw [fst_focusedLeaves h hid] at hn
    rw [contains_iff_mem, hleaf]
    simpa using (mem_filter.mp hn).2
  have hfilter : z.focusHistory.filter ((z.leafIdsIn id).contains ·) =
      t.focusHistory.filter ((t.leafIdsIn id).contains ·) := by
    rw [hhistory, filter_cons_of_neg (by simpa using hout b mem_cons_self),
      filter_append, filter_eq_self.mpr hin,
      filter_eq_nil_iff.mpr fun n hn => by simpa using hout n (mem_cons_of_mem _ hn),
      append_nil, fst_focusedLeaves h hid]
  rw [snd_focusedLeaves, snd_focusedLeaves, hfilter]
  refine filterMap_congr fun n hn => hl.window h hid ?_
  have hmem : n ∈ t.leafIdsIn id := by simpa using (mem_filter.mp hn).2
  exact (h.mem_depthFirst hid).mpr ((h.mem_leafIdsIn hid).mp hmem).1

/-- **There and back**: a subtree that is taken out of a tree, put into another one under free
    identifiers and taken out again is what it was, down to the order in which its windows had the
    focus; it keeps its identifiers, and no window is lost or doubled. -/
theorem detach_attach_detach (ht : t.WellFormed) (hu : u.WellFormed)
    (hcount : t.counter = u.counter) (hdisjoint : ∀ n, t.contains n = true → u.contains n = false)
    (hdistinct : (t.held ++ u.held).Nodup) (hid : t.contains id = true) (hroot : id ≠ t.root)
    (hne : u.windows ≠ []) (hhistory : u.focusHistory ≠ []) {target : Option NodeId}
    (htarget : ∀ x, target = some x → x ∉ t.depthFirst id) :
    ∃ t' sub parent u' u'' sub' parent', t.detachSubtree id = some (t', sub, parent) ∧
      u.attachSubtreeAt sub target = (u', id, []) ∧
      u'.detachSubtree id = some (u'', sub', parent') ∧
      sub'.node.plain = sub.node.plain ∧ sub'.focusHistory = sub.focusHistory ∧
      (t'.held ++ u'.held).Perm (t.held ++ u.held) ∧ (t'.held ++ u'.held).Nodup := by
  have hti := ht.inv
  have hui := hu.inv
  obtain ⟨r, hok, -⟩ := hti.ok
  obtain ⟨t', e, hdet, ht', -⟩ := hti.detachSubtree hid
  have hnode : t.detachment id = t.snapshot id := if_neg hroot
  have hfit : (t.detachment id).Fit (World.ctx False False u) u.counter := by
    refine (hti.fit_detachment hid).congr rfl rfl rfl ?_
    rw [if_neg hroot, hcount]
  have hheld := hti.held_detached hid hdet ht'
  rw [hnode] at e hfit hheld
  have hids := oldIds_snapshot hok hid
  have hid' : (t.snapshot id).oldId = id := oldId_snapshot hok hid
  have hwin : (t.snapshot id).windows ≠ [] := windows_snapshot_ne_nil hok trivial hid hroot
  set sub : DetachedSubtree I :=
    { node := t.snapshot id
      focusHistory := (t.focusHistory.filter ((t.leafIdsIn id).contains ·)).filterMap
        fun leaf => (t.tile leaf).map (·.window)
      rootFocused := decide (t.focus = some id)
      wrappedWorkspace := decide (id = t.root) } with hsub
  have hfocus : u.focus.isSome := by
    rw [Option.isSome_iff_ne_none]
    exact fun hnone => hne (hu.tables.focus_none.mp hnone)
  have hfree : ∀ m ∈ (t.snapshot id).subnodes, u.contains m.oldId = false := fun m hm => by
    have := mem_map_of_mem (f := DetachedNode.oldId) hm
    rw [hids] at this
    exact hdisjoint _ (hok.contains_below hid ((hok.mem_depthFirst hid).mp this))
  obtain ⟨news, z, hl, hz, hzfocus, hzhistory, e', hu'⟩ := hui.attachSubtreeAt_lands trivial
    not_false not_false hfocus sub hfit hwin hfree (hids.symm ▸ hok.nodup_depthFirst hid)
    target fun x hx => hids.symm ▸ htarget x hx
  obtain ⟨leaves, hg, hleaves⟩ := hui.grows_attachSubtreeWith sub hfit.old target true
  rw [show u.attachSubtreeWith sub target true = u.attachSubtreeAt sub target from rfl] at hg
  rw [e'] at hu' hg
  set x := z.settleAttached sub.node.oldId sub.focusHistory sub.wrappedWorkspace with hx
  have hrests : Rests z x := rests_settleAttached _ _
  -- no window is lost or doubled
  have hperm : (t'.held ++ x.held).Perm (t.held ++ u.held) := by
    have hxheld := hg.held hui hu'
    rw [hleaves] at hxheld
    refine (hxheld.append_left _).trans ((perm_append_comm.append_left _).trans ?_)
    rw [← append_assoc]
    exact hheld.symm.append_right _
  have hnodup := hperm.nodup_iff.mpr hdistinct
  -- the nodes
  have hlx : Lands u (t.snapshot id) news x := hl.rests hrests
  obtain ⟨rx, hokx, -⟩ := hu'.ok
  obtain ⟨hsnap, hdf⟩ := hlx.depthFirst hok hid hokx
  have hxid : x.contains id = true := by
    have := hlx.carries.contains hlx.top
    rwa [hid'] at this
  have hxroot : id ≠ x.root := fun e => by
    obtain ⟨ru, hoku, -⟩ := hui.ok
    have := hdisjoint id hid
    rw [e, hlx.root, hoku.contains_root] at this
    cases this
  obtain ⟨u'', e'', -⟩ := hu'.detachSubtree hxid
  refine ⟨t', sub, _, x, u'', _, _, e, e'.trans (by rw [hid']), e'', ?_, ?_, hperm, hnodup⟩
  · unfold detachment
    rw [if_neg hxroot]
    exact hsnap
  · obtain ⟨b, B, hB⟩ := exists_cons_of_ne_nil hhistory
    have hzB : z.focusHistory = b :: B := hzhistory.trans hB
    have hold : ∀ n ∈ u.focusHistory, t.contains n = false := fun n hn => by
      by_contra hc
      have hun := hu.tables.names n (.inl hn)
      rw [hdisjoint n (by simpa using hc)] at hun
      cases hun
    have hzdist : (World.ctx False False u |>.on z).Distinct := by
      refine hz.distinct ?_
      have hzx : z.held.Perm x.held := by
        have hon : Inv ((World.ctx False False u).on z) ∅ x := by
          have : (World.ctx False False u).on z = (World.ctx False False u).on x := by
            unfold Ctx.on
            congr 1
            exact funext fun n => (hrests.window n).symm
          rwa [this]
        exact (hz.held_perm hon.sleep)
      exact hzx.nodup_iff.mpr (nodup_append'.mp hnodup).2.1
    have hxB : x.focusHistory = b :: ((t.focusedLeaves id).map Prod.fst ++ B) := by
      have hsnd : sub.focusHistory = (t.focusedLeaves id).map Prod.snd := (snd_focusedLeaves id).symm
      rw [hx, hsnd]
      refine focusHistory_settleAttached (hzfocus ▸ hfocus) hzB _ (fun l hl' => ?_) ?_
        (fun l hl' => ?_) _
      · obtain ⟨n, hn, hl'⟩ := mem_filterMap.mp hl'
        obtain ⟨tile, htile, rfl⟩ := Option.map_eq_some_iff.mp hl'
        have hmem : n ∈ t.leafIdsIn id := by simpa using (mem_filter.mp hn).2
        refine hz.nodeForWindow_eq hzdist ((hl.window hok hid ?_).trans (by rw [htile]; rfl))
        exact (hok.mem_depthFirst hid).mpr ((hok.mem_leafIdsIn hid).mp hmem).1
      · rw [fst_focusedLeaves hok hid]
        exact ht.tables.history.filter _
      · rw [hzhistory]
        intro hmem
        have := hold _ hmem
        obtain ⟨n, hn, hl'⟩ := mem_filterMap.mp hl'
        obtain ⟨tile, htile, rfl⟩ := Option.map_eq_some_iff.mp hl'
        rw [contains_of_tile htile] at this
        cases this
    have horder := hlx.focusOrder hok hid hokx hxB (hB ▸ hold)
    rwa [snd_focusedLeaves, snd_focusedLeaves] at horder

/-! ## 5. Two workspaces -/

/-- Windows `7`, and `8` over `9` in a container, on one workspace; window `10` on another one. -/
def twoWorkspaces : World ℕ :=
  World.run [.newTree {}, .newTree {}, World.openWindow 0 7, World.openWindow 0 8,
    .quiet 0 (.layout (.splitFocused .splitV)), World.openWindow 0 9, World.openWindow 1 10]

/-- The tree of the workspace at `i`. -/
def workspaceTree (i : ℕ) : TilingTree ℕ := (twoWorkspaces.tree i).getD (new 0 {})

theorem wellFormed_workspaceTree {i : ℕ} (hi : (twoWorkspaces.tree i).isSome) :
    (workspaceTree i).WellFormed := by
  have h : World.Good False False twoWorkspaces := World.good_of_sane (by decide +kernel)
  obtain ⟨t, ht⟩ := Option.isSome_iff_exists.mp hi
  unfold workspaceTree
  rw [ht]
  exact (h.tree ht).1.wellFormed rfl trivial trivial rfl

theorem detach_attach_detach_container :
    ∃ t' sub parent u' u'' sub' parent',
      (workspaceTree 0).detachSubtree 4 = some (t', sub, parent) ∧
      (workspaceTree 1).attachSubtreeAt sub (some 6) = (u', 4, []) ∧
      u'.detachSubtree 4 = some (u'', sub', parent') ∧
      sub'.node.plain = sub.node.plain ∧ sub'.focusHistory = sub.focusHistory ∧
      (t'.held ++ u'.held).Perm ((workspaceTree 0).held ++ (workspaceTree 1).held) ∧
      (t'.held ++ u'.held).Nodup := by
  refine detach_attach_detach (wellFormed_workspaceTree (by decide +kernel))
    (wellFormed_workspaceTree (by decide +kernel)) (by decide +kernel) (fun n hn => ?_)
    (by decide +kernel) (by decide +kernel) (by decide +kernel) (by decide +kernel)
    (by decide +kernel) fun x hx => ?_
  · have hkeys : ∀ n ∈ (workspaceTree 0).nodes.keys, (workspaceTree 1).contains n = false := by
      decide +kernel
    exact hkeys n (mem_keys_of_contains hn)
  · cases hx
    decide +kernel

/-- The tree of the second workspace, as if no node had been focused yet. -/
def unfocusedTree : TilingTree ℕ := { workspaceTree 1 with focusHistory := [] }

theorem wellFormed_unfocusedTree : unfocusedTree.WellFormed := by
  have h := wellFormed_workspaceTree (i := 1) (by decide +kernel)
  refine ⟨h.arena, ⟨h.tables.focus_none, h.tables.focus, nodup_nil, fun n hn => ?_,
    h.tables.marked⟩, ⟨h.modes.one, h.modes.leaf⟩⟩
  rcases hn with hn | hn
  · cases hn
  · exact h.tables.names n (.inr hn)

/-- **A target inside the subtree loses it**, and without a focus history its focus order is not
    kept: all trees are well formed. -/
theorem attach_inside_loses_windows :
    ((workspaceTree 0).WellFormed ∧ (workspaceTree 1).WellFormed ∧ unfocusedTree.WellFormed) ∧
    ((workspaceTree 0).detachSubtree 4).map (fun x =>
      ((workspaceTree 1).attachSubtreeAt x.2.1 (some 4)).1.held) = some [10] ∧
    ((workspaceTree 0).detachSubtree 4).map (fun x => (x.2.1.focusHistory,
      ((unfocusedTree.attachSubtreeAt x.2.1 none).1.detachSubtree 4).map
        (·.2.1.focusHistory))) = some ([9, 8], some [8, 9]) :=
  ⟨⟨wellFormed_workspaceTree (by decide +kernel), wellFormed_workspaceTree (by decide +kernel),
    wellFormed_unfocusedTree⟩, by decide +kernel, by decide +kernel⟩

end TilingTree

end Swayward
