/-
  File:      Swayward/Keeps/Attach.lean
  Subject:   PUTTING A SUBTREE IN: beside a node, into an empty root, as a tree of its own.

  A subtree that was planted is linked at its slot, gets its focus history back and, if the tree had
  no focus, the focus. Into an empty root its top split is unwrapped. The results are one lemma per
  operation of `transfer.rs` (`Inv.attachSubtreeWith`, `Inv.fromDetachedSubtree`,
  `Inv.attachSubtreeForSwap`).
-/
import Swayward.Keeps.Plant

namespace Swayward

open Arena Forest Positions Shares List

variable {I : Type}

namespace TilingTree

variable {c : Ctx I} {t u v : TilingTree I} {id p n : NodeId} {r : NodeId → ℕ}
  {news : List (NodeId × DetachedNode I)} {a : Arena I} {target : Option NodeId} {s : Split}

/-! ## 1. Changes that leave the nodes alone -/

/-- `u` is `t` but for the focus and the sizes windows were asked for. -/
structure Rests (t u : TilingTree I) : Prop where
  root : u.root = t.root
  counter : u.counter = t.counter
  parentOf : ∀ n, u.parentOf n = t.parentOf n
  splitAt : ∀ n, u.splitAt n = t.splitAt n
  tile : ∀ n, (u.tile n).map Tile.plain = (t.tile n).map Tile.plain
  modes : u.pendingModes = t.pendingModes
  mapped : u.mappedUnderFullscreen = t.mappedUnderFullscreen

theorem Rests.of_arena (h : u.toArena = t.toArena) (hmodes : u.pendingModes = t.pendingModes)
    (hmapped : u.mappedUnderFullscreen = t.mappedUnderFullscreen) : Rests t u := by
  refine ⟨?_, ?_, ?_, ?_, ?_, hmodes, hmapped⟩ <;> simp only [h, implies_true]

theorem Rests.refl (t : TilingTree I) : Rests t t := .of_arena rfl rfl rfl

theorem Rests.trans (h : Rests t u) (h' : Rests u v) : Rests t v :=
  ⟨h'.root.trans h.root, h'.counter.trans h.counter, fun n => (h'.parentOf n).trans (h.parentOf n),
    fun n => (h'.splitAt n).trans (h.splitAt n), fun n => (h'.tile n).trans (h.tile n),
    h'.modes.trans h.modes, h'.mapped.trans h.mapped⟩

theorem rests_setFocusId (o : Option NodeId) : Rests t (t.setFocusId o) := by
  cases o <;> exact .of_arena rfl rfl rfl

theorem rests_reinsertFocusHistory [DecidableEq I] (windows : List I) (rank : ℕ) :
    Rests t (t.reinsertFocusHistory windows rank) := by
  unfold reinsertFocusHistory
  induction windows with
  | nil => exact Rests.refl t
  | cons window windows ih =>
    rw [foldr_cons]
    split
    · exact ih.trans (.of_arena rfl rfl rfl)
    · exact ih

theorem rests_requestWindowSizes : Rests t t.requestWindowSizes :=
  ⟨rfl, rfl, parentOf_requestWindowSizes, splitAt_requestWindowSizes, plain_requestWindowSizes, rfl, rfl⟩

theorem Rests.window (h : Rests t u) (n : NodeId) :
    (u.tile n).map (·.window) = (t.tile n).map (·.window) := Tile.window_of_plain (h.tile n)

/-! ## 2. At a slot -/

/-- Depth is read off the nodes above. -/
theorem nodeDepth_congr {b : Arena I} {r' : NodeId → ℕ} (ha : Climbs r a) (hb : Climbs r' b)
    (hpar : ∀ n, a.contains n = true → b.parentOf n = a.parentOf n) (n : NodeId)
    (hn : a.contains n = true) : b.nodeDepth n = a.nodeDepth n := by
  induction hk : r n using Nat.strong_induction_on generalizing n with
  | h k ih =>
    rw [ha.nodeDepth_eq, hb.nodeDepth_eq, hpar n hn]
    cases e : a.parentOf n with
    | none => rfl
    | some q => simp only [ih (r q) (hk ▸ ha.rank n q e) q (ha.node e) rfl]

/-- Whether `x` names nothing in the subtree to be attached to `t`. -/
def outside (t : TilingTree I) (node : DetachedNode I) (x : NodeId) : Bool :=
  t.contains x || (x < t.counter && !(node.subnodes.map (·.oldId)).contains x)

theorem Planted.outside_free (hpl : Planted t news u) {node : DetachedNode I}
    (hnews : news.map Prod.snd = node.subnodes) {x : NodeId} (hx : t.outside node x = true) :
    t.contains x = true ∨ u.contains x = false := by
  unfold outside at hx
  rcases Bool.or_eq_true_iff.mp hx with hx | hx
  · exact .inl hx
  refine or_iff_not_imp_left.mpr fun hold => ?_
  rw [← Bool.not_eq_true, hpl.contains, not_or]
  refine ⟨hold, fun hmem => ?_⟩
  obtain ⟨e, he, rfl⟩ := mem_map.mp hmem
  simp only [Bool.and_eq_true, decide_eq_true_eq, Bool.not_eq_true',
    contains_eq_mem, decide_eq_false_iff_not, ← hnews, map_map] at hx
  rcases hpl.origin e he with ho | ho
  · exact hx.2 (mem_map.mpr ⟨e, he, ho.symm⟩)
  · exact absurd hx.1 (not_lt.mpr ho)

/-- An attached node goes to a split that was there before. -/
theorem Inv.attachSlot_planted (h : Inv c ∅ t) (hpl : Planted t news u)
    (htarget : ∀ x, target = some x → x ∉ news.map Prod.fst) :
    ∃ s, t.splitAt (u.attachSlot target).1 = some s := by
  obtain ⟨r, hok, -⟩ := h.ok
  have hroot : ∃ s, t.splitAt u.root = some s := hpl.root ▸ hok.root_split
  unfold attachSlot
  split
  · rename_i x q tile hx
    obtain ⟨y, hy, hget⟩ := Option.bind_eq_some_iff.mp hx
    obtain ⟨node, hnode, e⟩ := Option.map_eq_some_iff.mp hget
    cases e
    rw [hpl.old _ (htarget _ hy)] at hnode
    obtain ⟨s, hs, -⟩ := hok.split_of_parentOf (parentOf_of_get hnode)
    exact ⟨s, hs⟩
  · rename_i x q s hx
    obtain ⟨y, hy, hget⟩ := Option.bind_eq_some_iff.mp hx
    obtain ⟨node, hnode, e⟩ := Option.map_eq_some_iff.mp hget
    cases e
    rw [hpl.old _ (htarget _ hy)] at hnode
    exact ⟨_, splitAt_of_get hnode⟩
  · exact hroot

section Attach

variable [DecidableEq I]
variable {node : DetachedNode I} {remapped : List (NodeId × NodeId)}

theorem focus_reinsertFocusHistory (windows : List I) (rank : ℕ) :
    (t.reinsertFocusHistory windows rank).focus = t.focus ∧
      (t.reinsertFocusHistory windows rank).toArena = t.toArena := by
  unfold reinsertFocusHistory
  induction windows with
  | nil => exact ⟨rfl, rfl⟩
  | cons w windows ih =>
    rw [foldr_cons]
    split
    · exact ih
    · exact ih

/-- The focus history of the subtree, and a focus if there was none. -/
theorem Inv.restoreTransferredFocus (h : Inv c.asleep ∅ t)
    (hw : c.awake → t.focus.isSome → ∃ n, (c.windows n).isSome) (history : List I) :
    Inv c ∅ (t.restoreTransferredFocus history) := by
  unfold TilingTree.restoreTransferredFocus
  have h1 := h.reinsertFocusHistory history (if t.focus.isSome then 1 else 0)
  have hfocus := (focus_reinsertFocusHistory (t := t) history (if t.focus.isSome then 1 else 0)).1
  simp only
  refine Inv.ite (fun _ => ?_) fun hsome => ?_
  · refine (h1.setFocusTo (fun _ x hx => contains_of_isSome_tile (h1.focusedLeafIn_some hx))
      False.elim).wake fun _ => ?_
    rw [focus_setFocusId]
    exact h1.focusedLeafIn_root
  · refine h1.wake fun ha => ?_
    rw [hfocus] at hsome ⊢
    have hsome : t.focus.isSome := Option.isSome_iff_ne_none.mpr (by simpa using hsome)
    exact iff_of_true hsome (hw ha hsome)

omit [DecidableEq I] in
/-- A fullscreen node that came along is noted. -/
def noteArrival (t : TilingTree I) (id : NodeId) : TilingTree I :=
  match t.fullscreenNode with
  | some fullscreen =>
    if t.containsNode id fullscreen then { t with fullscreenArrived := true } else t
  | none => t

theorem rests_restoreTransferredFocus (history : List I) :
    Rests t (t.restoreTransferredFocus history) := by
  unfold restoreTransferredFocus
  generalize (if t.focus.isSome then 1 else 0) = rank
  have h := rests_reinsertFocusHistory (t := t) history rank
  simp only
  split
  · exact h.trans (rests_setFocusId _)
  · exact h

/-- The end of an attachment: notes, focus and sizes. -/
def settleAttached (t : TilingTree I) (id : NodeId) (history : List I) (wrapped : Bool) :
    TilingTree I :=
  let t := t.noteArrival id
  let t := if wrapped then { t with ipcStaleNodes := insert id t.ipcStaleNodes } else t
  let t := t.restoreTransferredFocus history
  let t := if t.focus.isNone then t.setFocusId (t.focusedLeafIn id) else t
  t.requestWindowSizes

theorem toArena_restoreTransferredFocus (history : List I) :
    (t.restoreTransferredFocus history).toArena = t.toArena := by
  unfold restoreTransferredFocus
  generalize (if t.focus.isSome then 1 else 0) = rank
  have h := (focus_reinsertFocusHistory (t := t) history rank).2
  simp only
  split
  · rw [toArena_setFocusId, h]
  · exact h

/-- The notes do not matter for what follows. -/
theorem settleAttached_eq (t : TilingTree I) (id : NodeId) (history : List I) (wrapped : Bool) :
    ∃ v w, (v.toArena = t.toArena ∧ v.focus = t.focus ∧ v.focusHistory = t.focusHistory) ∧
      Rests t v ∧ (∀ {c}, Inv c ∅ t → t.contains id = true → Inv c ∅ v) ∧
      w = v.restoreTransferredFocus history ∧ t.settleAttached id history wrapped =
        (if w.focus.isNone then w.setFocusId (w.focusedLeafIn id) else w).requestWindowSizes := by
  unfold settleAttached
  have hnote : ∃ b, t.noteArrival id = { t with fullscreenArrived := b } := by
    unfold noteArrival
    split
    · split <;> exact ⟨_, rfl⟩
    · exact ⟨_, rfl⟩
  obtain ⟨b, e⟩ := hnote
  rw [e]
  refine ⟨_, _, ?_, ?_, fun h hid => ?_, rfl, rfl⟩
  · cases wrapped <;> exact ⟨rfl, rfl, rfl⟩
  · cases wrapped <;> exact .of_arena rfl rfl rfl
  · cases wrapped with
    | true => exact (h.markStale hid).of_core rfl
    | false => exact h.of_core rfl

theorem rests_settleAttached (history : List I) (wrapped : Bool) :
    Rests t (t.settleAttached id history wrapped) := by
  obtain ⟨v, w, -, hv, -, rfl, e⟩ := settleAttached_eq t id history wrapped
  rw [e]
  refine Rests.trans ?_ rests_requestWindowSizes
  have h := hv.trans (rests_restoreTransferredFocus history)
  split
  · exact h.trans (rests_setFocusId _)
  · exact h

theorem Inv.settleAttached (h : Inv c.asleep ∅ t) (hid : t.contains id = true)
    (hw : c.awake → t.focus.isSome → ∃ n, (c.windows n).isSome) (history : List I)
    (wrapped : Bool) : Inv c ∅ (t.settleAttached id history wrapped) := by
  obtain ⟨v, w, ⟨harena, hfocus, -⟩, -, hv, rfl, e⟩ := settleAttached_eq t id history wrapped
  rw [e]
  have h1 := (hv h hid).restoreTransferredFocus (fun ha hsome => hw ha (hfocus ▸ hsome)) history
  refine Inv.requestWindowSizes (Inv.ite (fun _ => h1.setFocusLeafIn fun _ => ?_) fun _ => h1)
  rw [toArena_restoreTransferredFocus, harena]
  exact hid

omit [DecidableEq I] in
/-- **A detached node is planted and put into the list of the split `p`**, and the old leaves
    stay. -/
theorem Inv.plantPut {E : Set NodeId} (h : Inv c E t) (hadm : Admits c t node)
    (hs : t.splitAt p = some s) (hdeep : c.deep → t.nodeDepth p + node.height ≤ maxTreeDepth)
    (hy : insertDetachedNode t none [] node = (u, id, remapped))
    (hputs : u.splitAt p = some s → u.contains id = true → ∃ z, Puts u.toArena p id s z a ∧
      (s.Sound c.full → id ∉ s.children → z.Sound c.full)) :
    Inv (c.on { u with toArena := a }).asleep (E \ {p}) { u with toArena := a } ∧
      (a.contains id = true ∧ ¬ t.contains id = true) ∧
      u.focus = t.focus ∧ (u.root = t.root ∧ a.root = t.root) ∧
      ∀ n, (t.tile n).isSome → a.tile n = t.tile n := by
  obtain ⟨hok, -⟩ := h.exact
  obtain ⟨news, hnews, hid, hpl, -⟩ := grown_insertDetachedNode node t none []
    (fun x hx => hok.fresh hx) hadm.fit.old hy
  have hsy : u.splitAt p = some s := (hpl.reads (hpl.not_new (contains_of_splitAt hs))).1.trans hs
  obtain ⟨z, hputs, hsound⟩ := hputs hsy (hpl.node _ hid).1
  refine ⟨h.plantUnder hadm (contains_of_splitAt hs) hy hputs hsound hdeep, ⟨(hputs.contains _).trans (hpl.node _ hid).1, fun hc => hpl.not_new hc ?_⟩, ?_,
    ⟨hpl.root, hputs.root.trans hpl.root⟩, fun n hn => ?_⟩
  · exact mem_map_of_mem hid
  · have : u = _ := hpl.others
    rw [this]
  exact (hputs.tile n).trans (hpl.reads (hpl.not_new (contains_of_isSome_tile hn))).2.2.2

omit [DecidableEq I] in
/-- The same with the share of a fresh child. -/
theorem Inv.plantAt (h : Inv c ∅ t) (hadm : Admits c t node) (hs : t.splitAt p = some s)
    (after : Option NodeId) (hdeep : c.deep → t.nodeDepth p + node.height ≤ maxTreeDepth)
    (hy : insertDetachedNode t none [] node = (u, id, remapped)) :
    Inv (c.on { u with toArena := u.insertChild p id after }).asleep ∅
        { u with toArena := u.insertChild p id after } ∧
      ((u.insertChild p id after).contains id = true ∧ ¬ t.contains id = true) ∧
      u.focus = t.focus ∧ (u.root = t.root ∧ (u.insertChild p id after).root = t.root) ∧
      ∀ n, (t.tile n).isSome → (u.insertChild p id after).tile n = t.tile n := by
  have key := h.plantPut (a := u.insertChild p id after) hadm hs hdeep hy
    fun hsu hid => by
      obtain ⟨i, hputs⟩ := puts_insertChild hsu hid after
      exact ⟨_, hputs, fun hsound hc => hsound.insertAt hc i⟩
  rwa [Set.empty_sdiff] at key

/-- Where `attachNode` links the planted node: at a split of the old tree, deep enough in it. -/
theorem Inv.attachNode_eq (h : Inv c ∅ t) (hadm : Admits c t node) (history : List I)
    (wrapped : Bool) (hy : insertDetachedNode t none [] node = (u, id, remapped))
    (htarget : ∀ x, target = some x → t.contains x = true ∨ u.contains x = false) :
    ∃ p after s, t.splitAt p = some s ∧
      (node.height ≤ maxTreeDepth → t.nodeDepth p + node.height ≤ maxTreeDepth) ∧
      t.attachNode node history wrapped target =
        (({ u with toArena := u.insertChild p id after } : TilingTree I).settleAttached id history
          wrapped, id, remapped) := by
  obtain ⟨hok, -⟩ := h.exact
  obtain ⟨news, hnews, -, hpl, hhung, hshape, -⟩ := grown_insertDetachedNode node t none []
    (fun x hx => hok.fresh hx) hadm.fit.old hy
  have hmem := mem_subnodes_of_news hnews
  obtain ⟨r', -, hok', -⟩ := hpl.ok hok hhung hshape
    (fun e he => hadm.fit.loose.proper hadm.windows e.2 (hmem e he))
    (fun e he => node.height_subnodes e.2 (hmem e he)) 0
  unfold TilingTree.attachNode
  rw [hy]
  simp only
  generalize hslot : (if u.fitsBelow (u.attachSlot target).1 node.height = true then
    u.attachSlot target else (u.root, none)) = slot
  have hdepth : ∀ n, t.contains n = true → u.nodeDepth n = t.nodeDepth n :=
    nodeDepth_congr (hok.climbs no_unlinked)
      (hok'.climbs fun n hn => (hhung.top n hn).2) fun n hn => (hpl.reads (hpl.not_new hn)).2.1
  have hnot : ∀ x, target = some x → x ∉ news.map Prod.fst := fun x hx hmem => by
    rcases htarget x hx with hc | hc
    · exact hpl.not_new hc hmem
    · rw [(hpl.contains x).mpr (.inr hmem)] at hc
      cases hc
  obtain ⟨s, hs⟩ := h.attachSlot_planted hpl hnot
  split_ifs at hslot with hfit'
  · subst hslot
    refine ⟨_, _, s, hs, fun _ => ?_, rfl⟩
    rw [← hdepth _ (contains_of_splitAt hs)]
    simpa [fitsBelow] using hfit'
  · subst hslot
    obtain ⟨s', hs'⟩ := hok.root_split
    refine ⟨u.root, none, s', hpl.root ▸ hs', fun hd => ?_, rfl⟩
    rw [hpl.root, h.nodeDepth_root, Nat.zero_add]
    exact hd

/-- **Putting a detached node in beside or below a node of the tree.** -/
theorem Inv.attachNode (h : Inv c ∅ t) (hadm : Admits c t node) (history : List I) (wrapped : Bool)
    (htarget : ∀ x, target = some x →
      t.contains x = true ∨ (insertDetachedNode t none [] node).1.contains x = false)
    (hdeep : c.deep → node.height ≤ maxTreeDepth) :
    Inv (c.on (t.attachNode node history wrapped target).1) ∅
      (t.attachNode node history wrapped target).1 := by
  obtain ⟨p, after, s, hs, hdepth, e⟩ := h.attachNode_eq hadm history wrapped rfl htarget
  rw [e]
  obtain ⟨h1, ⟨hvid, -⟩, hvfocus, -, hold⟩ := h.plantAt hadm hs after (fun hd => hdepth (hdeep hd)) rfl
  refine Inv.onSelf (c := c.on _) (h1.settleAttached hvid (fun ha hsome => ?_) history wrapped)
  obtain ⟨n, hn⟩ := (h.awake ha).mp (hvfocus ▸ hsome)
  refine ⟨n, ?_⟩
  have hn := h.windows_isSome.mp hn
  simpa [Ctx.on, hold n hn] using hn

/-- The root takes over the mode of the split that is unwrapped into it. -/
def withRootMode (t : TilingTree I) (mode : Option PendingMode) : TilingTree I :=
  { t with
    pendingModes :=
      match mode with
      | some mode => t.pendingModes.insert t.root mode
      | none => t.pendingModes }

omit [DecidableEq I] in
theorem fullscreenMode_withRootMode (mode : Option PendingMode) (n : NodeId) :
    (t.withRootMode mode).fullscreenMode n =
      if n = t.root ∧ mode.isSome then mode.bind (·.fullscreen) else t.fullscreenMode n := by
  unfold withRootMode fullscreenMode
  cases mode with
  | none => simp
  | some mode =>
    simp only [FinMap.lookup_insert_eq, Option.isSome_some, and_true]
    split <;> rfl

omit [DecidableEq I] in
/-- A mode for the root of a tree without leaves. -/
theorem Inv.withRootMode (h : Inv c ∅ t) (hempty : t.children t.root = [])
    {mode : Option PendingMode} (hmax : c.side → ∀ m, mode = some m → m.maximized = false)
    (hfs : c.side → (mode.bind (·.fullscreen)).isSome → ∀ n, t.fullscreenMode n = none) :
    Inv c ∅ (t.withRootMode mode) := by
  unfold TilingTree.withRootMode
  cases mode with
  | none => exact h
  | some mode =>
    obtain ⟨r, hok, -⟩ := h.ok
    have hroot := hok.contains_root
    have hnoleaf : ∀ n, ¬ (t.tile n).isSome := fun n hn => by
      rcases below_iff_kid.mp (hok.below_root (contains_of_isSome_tile hn)) with rfl | ⟨k, hk, -⟩
      · simp [hok.tile_root] at hn
      · simp [hempty] at hk
    have hmode : ∀ n, ({ t with
        pendingModes := t.pendingModes.insert t.root mode } : TilingTree I).fullscreenMode n =
        if n = t.root then mode.fullscreen else t.fullscreenMode n := fun n => by
      unfold fullscreenMode
      rw [FinMap.lookup_insert_eq]
      split <;> rfl
    refine h.withModes (fun hs n hn => ?_) (fun hs => ⟨fun m n hm' hn' hm hn => ?_,
      fun n m hn hmax' => ?_⟩) fun hm _ n hn => ?_
    · rcases AList.mem_insert _ |>.mp hn with rfl | hn
      · exact hroot
      · exact (h.side hs).mode hn
    · rw [hmode] at hm hn
      by_cases em : m = t.root <;> by_cases en : n = t.root
      · exact em.trans en.symm
      · rw [if_pos em] at hm
        rw [if_neg en, hfs hs hm n] at hn
        cases hn
      · rw [if_pos en] at hn
        rw [if_neg em, hfs hs hn m] at hm
        cases hm
      · rw [if_neg em] at hm
        rw [if_neg en] at hn
        exact (h.modes hs).one m n hm' hn' hm hn
    · rw [FinMap.lookup_insert_eq] at hn
      split at hn
      · cases hn
        rw [hmax hs _ rfl] at hmax'
        cases hmax'
      · exact (h.modes hs).leaf n m hn hmax'
    · exact hnoleaf n ((h.side (c.marks_side hm)).marked n hn)

/-- The root takes over what else belongs to the split. -/
def openRoot (t : TilingTree I) (layout : Layout) (info : SplitMeta) (mode : Option PendingMode) :
    TilingTree I :=
  ({ t with
    toArena := t.modifySplit t.root fun s =>
      { s with layout := layout, info := SplitMeta.mergedWith s.info info } } :
    TilingTree I).withRootMode mode

/-- The root lists the planted children. -/
def fillRoot (t : TilingTree I) (ids : List NodeId) (percents : List ℚ) : TilingTree I :=
  { t with
    toArena := t.modifySplit t.root fun s => { s with children := ids, percents := percents } }

theorem attachSplitToEmptyRoot_eq (t : TilingTree I) (oldId : NodeId) (layout : Layout)
    (children : List (DetachedNode I)) (percents : List ℚ) (info : SplitMeta)
    (mode : Option PendingMode) (history : List I) : ∃ remapped,
    (t.attachSplitToEmptyRoot oldId layout children percents info mode history).1 =
      (({ (insertDetachedNodes (t.openRoot layout info mode) (some t.root) remapped
          children).1.fillRoot (insertDetachedNodes (t.openRoot layout info mode) (some t.root)
          remapped children).2.1 percents with hasHadTile := true } :
        TilingTree I).restoreTransferredFocus history).requestWindowSizes :=
  ⟨_, rfl⟩

/-- **Unwrapping a detached split into the root of a tree without windows.** -/
theorem Inv.attachSplitToEmptyRoot (h : Inv c ∅ t) (hempty : t.children t.root = [])
    {oldId : NodeId} {layout : Layout} {children : List (DetachedNode I)} {percents : List ℚ}
    {info : SplitMeta} {mode : Option PendingMode} (history : List I)
    (hfit : (DetachedNode.split oldId layout children percents info mode).Fit c t.counter)
    (hdeep : c.deep → DetachedNode.heightOf children ≤ maxTreeDepth)
    (hfs : c.side → (DetachedNode.split oldId layout children percents info mode).hasFullscreen =
      true → ∀ n, t.fullscreenMode n = none) (hmarks : c.marks →
      (DetachedNode.split oldId layout children percents info mode).hasMapped = true →
      (mode = none ∧ ∃ n, (t.fullscreenMode n).isSome) ∨
        (DetachedNode.split oldId layout children percents info mode).hasFullscreen = true) :
    Inv (c.on (t.attachSplitToEmptyRoot oldId layout children percents info mode history).1) ∅
      (t.attachSplitToEmptyRoot oldId layout children percents info mode history).1 := by
  set node := DetachedNode.split oldId layout children percents info mode with hnode
  have hsub : node.subnodes = node :: DetachedNode.subnodesOf children := by
    rw [hnode, DetachedNode.subnodes]
  have hself : node ∈ node.subnodes := DetachedNode.mem_subnodes_self node
  have hinner : ∀ m ∈ DetachedNode.subnodesOf children, m ∈ node.subnodes := fun m hm => by
    rw [hsub]
    exact mem_cons_of_mem _ hm
  obtain ⟨hlen, hshares, hproper⟩ := hfit.loose
  obtain ⟨remapped, e⟩ := attachSplitToEmptyRoot_eq t oldId layout children percents info mode history
  rw [e]
  set t1 := t.openRoot layout info mode with ht1
  have hmode1 : ∀ n, t1.fullscreenMode n =
      if n = t.root ∧ mode.isSome then node.fullscreen else t.fullscreenMode n :=
    fullscreenMode_withRootMode mode
  have hempty1 : t1.children t.root = [] := by
    obtain ⟨r, hok, -⟩ := h.ok
    obtain ⟨s, hs⟩ := hok.root_split
    refine (children_of_splitAt_eq (fun q => splitAt_modifySplit_of hs q) t.root).trans ?_
    simpa [children_of_splitAt hs] using hempty
  have h1 : Inv c ∅ t1 := by
    have h0 : Inv c ∅ { t with toArena := t.modifySplit t.root fun s =>
        { s with layout := layout, info := SplitMeta.mergedWith s.info info } } :=
      h.modifySplit fun _ _ hs => ⟨Perm.refl _, hs.of_eq rfl rfl⟩
    refine h0.withRootMode hempty1 (fun hs m hm => ?_) fun hs hf => ?_
    · by_contra hmax
      rw [Bool.not_eq_false] at hmax
      have := hfit.leaf hs node hself m hm hmax
      cases this
    · exact hfs hs (node.hasFullscreen_iff.mpr ⟨node, hself, hf⟩)
  obtain ⟨hok, hbound⟩ := h1.exact
  obtain ⟨news, hnews, hids, hpl, hhung, hshape, -⟩ := grown_insertDetachedNodes children t1
    (some t.root) remapped (fun x hx => hok.fresh hx) (fun m hm => hfit.old m (hinner m hm)) rfl
  have hsubs := mem_subnodes_of_news hnews
  obtain ⟨r', hagree, hok', hrank⟩ := hpl.ok hok hhung hshape (fun e he => hproper e.2 (hsubs e he))
    (fun e he => DetachedNode.height_subnodesOf children e.2 (hsubs e he)) 1
  set y := insertDetachedNodes t1 (some t.root) remapped children with hy
  have hroot1 : y.1.root = t.root := hpl.root
  obtain ⟨s, hs1⟩ := hok.root_split
  have hrootc : t1.contains t.root = true := hok.contains_root
  have hs : y.1.splitAt t.root = some s := (hpl.reads (hpl.not_new hrootc)).1.trans hs1
  have hs0 : s.children = [] := (children_of_splitAt hs1).symm.trans hempty1
  have hrr : r' t.root = 0 := by
    rw [hagree _ hrootc]
    exact h1.nodeDepth_root
  set a := y.1.modifySplit y.1.root fun s => { s with children := y.2.1, percents := percents } with ha
  have hsplit : ∀ q, a.splitAt q =
      if q = t.root then some { s with children := y.2.1, percents := percents }
      else y.1.splitAt q := fun q => by
    rw [ha, hroot1]
    exact splitAt_modifySplit_of hs q
  have hranked : Ranked a.children r' := by
    intro q x hx
    rw [children_of_splitAt_eq hsplit] at hx
    split_ifs at hx with e
    · obtain ⟨f, hf, rfl⟩ := mem_map.mp (hhung.top x hx).1
      rw [e, hrr]
      exact (hrank f hf).1
    · exact hok'.ranked q x hx
  have hokA : Ok c.full ∅ ∅ r' a := by
    have := hok'.link (b := a) (L := y.2.1) (F := ∅) hs
      (fun x hx => ⟨hx, (hpl.contains x).mpr (.inr (hhung.top x hx).1)⟩)
      (z := { s with children := y.2.1, percents := percents }) (fun x => by simp [hs0])
      ⟨hhung.nodup, hlen.trans hids.length_eq, hshares⟩ hsplit (fun n => ?_) (fun n => ?_) rfl rfl hranked
      fun q hq => hq.elim
    · rwa [show {x | x ∈ y.2.1} \ {x | x ∈ y.2.1} = (∅ : Set NodeId) by simp] at this
    · rw [ha, parentOf_modifySplit]
      by_cases hn : n ∈ y.2.1
      · rw [if_pos hn, (hhung.top n hn).2]
      · rw [if_neg hn]
    · rw [ha, contains_modifySplit]
  have hmem : ∀ e ∈ news, e.2 ∈ node.subnodes := fun e he =>
    hinner e.2 (hsubs e he)
  have h2 := h1.planted hpl (fun hs e he => hfit.leaf hs e.2 (hmem e he))
    (fun hb e he => hfit.bare hb e.2 (hmem e he)) (fun hs => ?_) (fun hs he n => ?_)
    (fun hm he => ?_) (sameNodes_modifySplit (a := y.1.toArena) y.1.root fun s =>
      { s with children := y.2.1, percents := percents }) ⟨r', hokA, fun hd n hn => ?_⟩
  · have h3 : Inv (c.on { y.1 with toArena := a }).asleep ∅
        { y.1.fillRoot y.2.1 percents with hasHadTile := true } := h2.of_core rfl
    have hfocus : y.1.focus = t.focus := by
      rw [hpl.others]
      rfl
    refine (h3.restoreTransferredFocus (fun haw hsome => ?_) history).requestWindowSizes.onSelf
    -- a focus means windows, and this tree has none
    have hsome : t.focus.isSome := hfocus ▸ hsome
    exact absurd hempty (h.root_nonempty ((h.awake haw).mp hsome))
  · have := hfit.one hs
    rw [hsub] at this
    have := (pairwise_cons.mp this).2
    rwa [← hnews, pairwise_map] at this
  · obtain ⟨e, he, hef⟩ := he
    have hall := hfs hs (node.hasFullscreen_iff.mpr ⟨e.2, hmem e he, hef⟩) n
    have hhead := hfit.one hs
    rw [hsub] at hhead
    have hself' := (pairwise_cons.mp hhead).1 e.2 (hsubs e he)
    rw [hmode1]
    split
    · by_contra hne
      exact hself' ⟨Option.isSome_iff_ne_none.mpr hne, hef⟩
    · exact hall
  · obtain ⟨e, he, hmapped⟩ := he
    have hsome : node.hasMapped = true := any_eq_true.mpr ⟨e.2, hmem e he, hmapped⟩
    rcases hmarks hm hsome with ⟨hnone, m, hm'⟩ | hf
    · refine .inl ⟨m, ?_⟩
      rw [hmode1, if_neg (by simp [hnone])]
      exact hm'
    · obtain ⟨m, hm', hmf⟩ := node.hasFullscreen_iff.mp hf
      rw [hsub] at hm'
      rcases mem_cons.mp hm' with rfl | hm'
      · refine .inl ⟨t.root, ?_⟩
        have hmode : mode.isSome := by
          by_contra hne
          rw [Option.not_isSome_iff_eq_none] at hne
          simp [hnode, DetachedNode.fullscreen, DetachedNode.pendingMode, hne] at hmf
        rw [hmode1, if_pos ⟨rfl, hmode⟩]
        exact hmf
      · exact .inr ((exists_news (P := fun m => m.fullscreen.isSome = true) hnews).mp ⟨m, hm', hmf⟩)
  · rw [contains_modifySplit] at hn
    rcases (hpl.contains n).mp hn with hc | hn
    · rw [hagree n hc]
      exact hbound hd n hc
    · obtain ⟨e, he, rfl⟩ := mem_map.mp hn
      have := hrank e he
      have := hdeep hd
      omega

omit [DecidableEq I] in
/-- The tree makes way for a fullscreen node that arrives. -/
theorem Inv.replaceFullscreen_none (h : Inv c ∅ t) {current : NodeId}
    (hcur : t.fullscreenNode = some current) :
    Inv c ∅ (t.replaceFullscreenState current none).1 ∧
      (t.replaceFullscreenState current none).1.toArena = t.toArena ∧
      (t.replaceFullscreenState current none).1.focus = t.focus ∧
      (c.side → ∀ n, (t.replaceFullscreenState current none).1.fullscreenMode n = none) := by
  refine ⟨(h.replaceFullscreenState _ _).inv, ?_⟩
  have hsome := fullscreenNode_some hcur
  unfold TilingTree.replaceFullscreenState
  by_cases hc : t.contains current = true
  · have hguard : ((none : Option FullscreenMode).isNone && some current != some current ||
        some current == some current && t.fullscreenMode current == none) = false := by
      cases hm : t.fullscreenMode current with
      | none => simp [hm] at hsome
      | some mode => simp
    simp only [hc, Bool.not_true, Bool.false_eq_true, if_false, hcur, hguard]
    obtain ⟨session, hcancel⟩ := cancelResizeFor_eq _ current
    rw [hcancel]
    refine ⟨rfl, rfl, fun hs n => ?_⟩
    refine (fullscreenMode_endFullscreen n).trans ?_
    split
    · rfl
    rename_i hne
    by_contra hn
    exact hne ((h.modes hs).eq (Option.isSome_iff_ne_none.mpr hn) hsome)
  · rw [if_pos (by simpa using hc)]
    refine ⟨rfl, rfl, fun hs => ?_⟩
    exact absurd ((h.side hs).contains_fullscreenNode hsome) hc

omit [DecidableEq I] in
/-- A tree without focus has an empty root. -/
theorem Inv.children_root_of_focus_none (h : Inv c ∅ t) (haw : c.awake) (hf : t.focus = none) :
    t.children t.root = [] := by
  obtain ⟨r, hok, -⟩ := h.ok
  by_contra hne
  obtain ⟨x, hx⟩ := exists_mem_of_ne_nil _ hne
  obtain ⟨m, -, hm⟩ := hok.exists_leaf (c.awake_full haw) (hok.contains_kid hx)
    fun e => hok.root_not_kid _ (e ▸ hx)
  have := (h.awake haw).mpr ⟨m, h.windows_isSome.mpr hm⟩
  simp [hf] at this

end Attach

/-- The tree makes way for the fullscreen node of a subtree. -/
def makeWay (t : TilingTree I) (subtree : DetachedSubtree I) : TilingTree I :=
  if subtree.hasFullscreen then
    match t.fullscreenNode with
    | some current => (t.replaceFullscreenState current none).1
    | none => t
  else
    t

theorem Inv.makeWay (h : Inv c ∅ t) (subtree : DetachedSubtree I) :
    Inv c ∅ (t.makeWay subtree) ∧ (t.makeWay subtree).toArena = t.toArena ∧
      (t.makeWay subtree).focus = t.focus ∧
      (c.side → subtree.hasFullscreen = true → ∀ n, (t.makeWay subtree).fullscreenMode n = none) ∧
      (subtree.hasFullscreen = false → t.makeWay subtree = t) := by
  unfold TilingTree.makeWay
  by_cases hf : subtree.hasFullscreen = true
  · rw [if_pos hf]
    cases e : t.fullscreenNode with
    | none =>
      exact ⟨h, rfl, rfl, fun _ _ n => fullscreenNode_none.mp e n, fun hf' => by simp [hf] at hf'⟩
    | some current =>
      obtain ⟨hinv, harena, hfocus, hnone⟩ := h.replaceFullscreen_none e
      exact ⟨hinv, harena, hfocus, fun hs _ => hnone hs, fun hf' => by simp [hf] at hf'⟩
  · rw [if_neg hf]
    exact ⟨h, rfl, rfl, fun _ hf' => absurd hf' hf, fun _ => rfl⟩

theorem attachSubtreeWith_eq [DecidableEq I] (t : TilingTree I) (subtree : DetachedSubtree I)
    (target : Option NodeId) (unwrapIntoEmptyRoot : Bool) :
    t.attachSubtreeWith subtree target unwrapIntoEmptyRoot = match subtree.node with
      | .split oldId layout children percents info mode =>
        if (t.makeWay subtree).isEmpty && unwrapIntoEmptyRoot then
          let x := (t.makeWay subtree).attachSplitToEmptyRoot oldId layout children percents info
            mode subtree.focusHistory
          (x.1, x.1.root, x.2)
        else
          (t.makeWay subtree).attachNode subtree.node subtree.focusHistory
            subtree.wrappedWorkspace target
      | .leaf .. => (t.makeWay subtree).attachNode subtree.node subtree.focusHistory
          subtree.wrappedWorkspace target :=
  rfl

/-- Whether an attached subtree is unwrapped into the root. -/
def unwraps (t : TilingTree I) (subtree : DetachedSubtree I) (unwrapIntoEmptyRoot : Bool) : Bool :=
  t.isEmpty && unwrapIntoEmptyRoot && subtree.node.tile.isNone

/-- Whether the marks a subtree carries along fall under a fullscreen node after it is attached:
    its own, or the one of the tree, unless the root's mode is overwritten. -/
def attachHolds (t : TilingTree I) (subtree : DetachedSubtree I) (unwrapIntoEmptyRoot : Bool) :
    Bool :=
  !subtree.node.hasMapped || subtree.hasFullscreen ||
    (t.fullscreenNode.isSome &&
      !(t.unwraps subtree unwrapIntoEmptyRoot && subtree.node.pendingMode.isSome))

/-- **Attaching a subtree keeps the invariant**, provided that it holds a window or is unwrapped into
    an empty root, fits, and its marks stay under a fullscreen node. -/
theorem Inv.attachSubtreeWith [DecidableEq I] (h : Inv c ∅ t) (haw : c.awake)
    (subtree : DetachedSubtree I) (hfit : subtree.node.Fit c t.counter)
    (htarget : ∀ x, target = some x → t.outside subtree.node x = true) (unwrapIntoEmptyRoot : Bool)
    (hwin : t.unwraps subtree unwrapIntoEmptyRoot = true ∨ subtree.windows ≠ [])
    (hdeep : c.deep → subtree.height ≤ maxTreeDepth ∨
      (t.unwraps subtree unwrapIntoEmptyRoot = true ∧ subtree.height ≤ maxTreeDepth + 1))
    (hmarks : c.marks → t.attachHolds subtree unwrapIntoEmptyRoot = true) :
    Inv (c.on (t.attachSubtreeWith subtree target unwrapIntoEmptyRoot).1) ∅
      (t.attachSubtreeWith subtree target unwrapIntoEmptyRoot).1 := by
  -- the tree makes way first
  obtain ⟨hinv, harena, hfocus, hnone, hsame⟩ := h.makeWay subtree
  rw [attachSubtreeWith_eq]
  generalize t.makeWay subtree = u at hinv harena hfocus hnone hsame ⊢
  have hfit' : subtree.node.Fit c u.counter := by
    rw [harena]
    exact hfit
  have htarget' : ∀ x, target = some x → u.outside subtree.node x = true := fun x hx => by
    have := htarget x hx
    unfold outside at this ⊢
    rwa [harena]
  have hisEmpty : u.isEmpty = t.isEmpty := by
    unfold isEmpty
    rw [hfocus]
  -- beside or below a node
  have hnode : t.unwraps subtree unwrapIntoEmptyRoot = false →
      Inv (c.on (u.attachNode subtree.node subtree.focusHistory subtree.wrappedWorkspace target).1) ∅
        (u.attachNode subtree.node subtree.focusHistory subtree.wrappedWorkspace target).1 := by
    intro hunw
    obtain ⟨r, hok, -⟩ := hinv.ok
    obtain ⟨news, hnews, -, hpl, -⟩ := grown_insertDetachedNode subtree.node u none []
      (fun x hx => hok.fresh hx) hfit'.old rfl
    refine hinv.attachNode ⟨hfit', fun _ => hwin.resolve_left (by simp [hunw]), hnone,
      fun hm hmapped => ?_⟩ _ _ (fun x hx => hpl.outside_free hnews (htarget' x hx))
      fun hd => (hdeep hd).resolve_right (by simp [hunw])
    have := hmarks hm
    unfold attachHolds at this
    simp only [hmapped, Bool.not_true, Bool.false_or, hunw, Bool.false_and, Bool.not_false,
      Bool.and_true, Bool.or_eq_true] at this
    rcases this with hf | hf
    · exact .inr hf
    by_cases hfs : subtree.hasFullscreen = true
    · exact .inr hfs
    · rw [hsame (by simpa using hfs)]
      obtain ⟨n, hn⟩ := Option.isSome_iff_exists.mp hf
      exact .inl ⟨n, fullscreenNode_some hn⟩
  simp only
  split
  · rename_i oldId layout children percents info mode hsplit
    by_cases hempty : (u.isEmpty && unwrapIntoEmptyRoot) = true
    · rw [if_pos hempty]
      have hfnone : u.focus = none := by
        have := (Bool.and_eq_true_iff.mp hempty).1
        simpa [isEmpty] using this
      have hunw : t.unwraps subtree unwrapIntoEmptyRoot = true := by
        unfold unwraps
        rw [← hisEmpty, hempty, hsplit]
        rfl
      refine hinv.attachSplitToEmptyRoot (hinv.children_root_of_focus_none haw hfnone) _
        (hsplit ▸ hfit') (fun hd => ?_) (fun hs hf => hnone hs ?_) fun hm hmapped => ?_
      · have hh : subtree.height = 1 + DetachedNode.heightOf children := by
          unfold DetachedSubtree.height
          rw [hsplit, DetachedNode.height]
        rcases hdeep hd with hd | ⟨-, hd⟩ <;> omega
      · unfold DetachedSubtree.hasFullscreen
        rwa [hsplit]
      · have := hmarks hm
        unfold attachHolds at this
        rw [hsplit, hmapped] at this
        simp only [Bool.not_true, Bool.false_or, hunw, Bool.true_and, Bool.or_eq_true,
          Bool.and_eq_true, Bool.not_eq_true', Option.isSome_eq_false_iff,
          Option.isNone_iff_eq_none] at this
        rcases this with hf | ⟨hf, hmode⟩
        · refine .inr ?_
          unfold DetachedSubtree.hasFullscreen at hf
          rwa [hsplit] at hf
        · by_cases hfs : subtree.hasFullscreen = true
          · refine .inr ?_
            unfold DetachedSubtree.hasFullscreen at hfs
            rwa [hsplit] at hfs
          · rw [hsame (by simpa using hfs)]
            obtain ⟨n, hn⟩ := Option.isSome_iff_exists.mp hf
            exact .inl ⟨hmode, n, fullscreenNode_some hn⟩
    · rw [if_neg hempty]
      refine hnode ?_
      unfold unwraps
      rw [← hisEmpty]
      simp [hempty]
  · rename_i oldId tile mode mapped hleaf
    refine hnode ?_
    unfold unwraps
    rw [hleaf]
    simp [DetachedNode.tile]

/-! ## 3. New trees -/

theorem get_new (counter : NodeId) (config : Config) (n : NodeId) :
    (new counter config : TilingTree I).get n = if n = counter then some ⟨none, .split
        { layout := defaultLayout config.options.defaultOrientation config.viewSize }⟩
      else none := by
  unfold Arena.get new
  by_cases e : n = counter
  · subst e
    rw [if_pos rfl]
    exact AList.mem_lookup_iff.mpr (mem_singleton_self _)
  · rw [if_neg e, AList.lookup_eq_none, AList.mem_keys, AList.keys_singleton]
    exact fun h => e (mem_singleton.mp h)

/-- **A new tree satisfies the invariant.** -/
theorem inv_new (counter : NodeId) (config : Config) (hwin : ∀ n, c.windows n = none) :
    Inv c ∅ (new counter config : TilingTree I) := by
  set t : TilingTree I := new counter config with ht
  have hget := get_new (I := I) counter config
  rw [← ht] at hget
  have hsplit : ∀ n, t.splitAt n = if n = counter then
      some { layout := defaultLayout config.options.defaultOrientation config.viewSize }
      else none := fun n => by
    unfold Arena.splitAt
    rw [hget]
    split <;> rfl
  have hparts : ∀ n, t.children n = [] ∧ t.tile n = none ∧ t.parentOf n = none ∧
      (t.contains n = true ↔ n = counter) := fun n => by
    simp only [Arena.children, hsplit, Arena.tile, Arena.parentOf, Arena.contains, hget]
    by_cases e : n = counter <;> simp [e]
  have hnames : ∀ n, ¬ t.Names n := by
    rintro n (hn | hn | hn | ⟨k, hn⟩ | hn | hn | hn)
    all_goals exact absurd hn (by simp [ht, new])
  have hmarked : ∀ n, ¬ t.Marked n := by
    rintro n (hn | hn)
    all_goals exact absurd hn (by simp [ht, new])
  have hmode : ∀ n, t.fullscreenMode n = none := fun n => rfl
  refine ⟨⟨fun _ => 0, ⟨⟨_, by rw [show t.root = counter from rfl, hsplit, if_pos rfl]⟩, (hparts _).2.2.1,
    Set.notMem_empty _, fun {p x} hx => ?_, fun {n} hn hr => ?_, fun p x hx => ?_, fun {p s} hs => ?_,
    fun {n} hn => ?_, fun _ p s hs hr => ?_⟩, fun _ _ _ => Nat.zero_le _⟩, fun n => ?_,
    fun _ => ⟨fun f hf => (by cases hf), fun n hn => absurd hn (hnames n),
      fun n hn => absurd hn (hmarked n), nodup_nil⟩,
    fun _ => ⟨fun m n _ _ hm => by simp [hmode] at hm, fun n mode hn => (by cases hn)⟩, fun _ => ?_,
    fun _ _ n => hmarked n, fun _ n => hmarked n, fun _ => rfl⟩
  · rw [(hparts p).1] at hx
    cases hx
  · exact absurd ((hparts n).2.2.2.mp hn) hr
  · rw [(hparts p).1] at hx
    cases hx
  · rw [hsplit] at hs
    split at hs
    · cases hs
      exact ⟨nodup_nil, rfl, fun _ => isShares_nil⟩
    · cases hs
  · rw [(hparts n).2.2.2.mp hn]
    exact Nat.lt_succ_self counter
  · rw [hsplit, if_neg (show p ≠ counter from hr)] at hs
    cases hs
  · rw [(hparts n).2.1, hwin]
    rfl
  · have : t.focus = none := rfl
    simp [this, hwin]

/-- **The tree of a floating group satisfies the invariant.** -/
theorem Inv.fromDetachedSubtree [DecidableEq I] (counter : NodeId) (config : Config)
    (subtree : DetachedSubtree I) (hfit : subtree.node.Fit c (counter + 1))
    (hwin : c.full → subtree.windows ≠ []) (hdeep : c.deep → subtree.height ≤ maxTreeDepth)
    (hmarks : c.marks → subtree.node.hasMapped = true → subtree.hasFullscreen = true) :
    Inv (c.on (TilingTree.fromDetachedSubtree counter config subtree).1) ∅
      (TilingTree.fromDetachedSubtree counter config subtree).1 := by
  set t : TilingTree I :=
    { new counter { config with gapsToEdge := false } with residentRoot := true } with ht
  have h : Inv { c with windows := fun _ => none } ∅ t :=
    (inv_new counter { config with gapsToEdge := false } fun _ => rfl).of_core rfl
  obtain ⟨r, hok, -⟩ := h.ok
  obtain ⟨s, hs⟩ := hok.root_split
  unfold TilingTree.fromDetachedSubtree
  rw [← ht]
  set y := insertDetachedNode t none [] subtree.node with hy
  have hfit' : subtree.node.Fit { c with windows := fun _ => none } t.counter :=
    ⟨hfit.old, hfit.loose, hfit.one, hfit.leaf, hfit.bare⟩
  obtain ⟨h1, ⟨hvid, hnew⟩, hvfocus, ⟨hroot, hroot'⟩, -⟩ := h.plantAt
    ⟨hfit', hwin, fun _ _ n => rfl, fun hm hmapped => .inr (hmarks hm hmapped)⟩ hs none
    (fun hd => by rw [h.nodeDepth_root, Nat.zero_add]; exact hdeep hd)
    (show y = (y.1, y.2.1, y.2.2) from rfl)
  simp only
  rw [hroot]
  set v : TilingTree I := { y.1 with toArena := y.1.insertChild t.root y.2.1 none } with hv
  have h2 : Inv (c.on v) ∅ (v.restoreTransferredFocus subtree.focusHistory) :=
    Inv.restoreTransferredFocus (c := c.on v) h1
      (fun _ hsome => by simp [hv, hvfocus, ht, new] at hsome) _
  set w := v.restoreTransferredFocus subtree.focusHistory with hw
  have h3 : Inv (c.on v) ∅ (if (subtree.rootFocused && w.contains y.2.1) = true then
      w.setFocusId (some y.2.1) else w) := by
    refine Inv.ite (fun hc => h2.setFocusTo (fun _ x hx => ?_) fun _ => ?_) fun _ => h2
    · cases hx
      exact (Bool.and_eq_true_iff.mp hc).2
    -- the new node holds a window
    obtain ⟨r', hok', -⟩ := h1.ok
    have hne : y.2.1 ≠ v.root := fun e => hnew <| by
      rw [e.trans hroot']
      exact contains_of_splitAt hs
    obtain ⟨m, -, hm⟩ := hok'.exists_leaf (c.awake_full ‹_›) hvid hne
    exact iff_of_true rfl ⟨m, h1.windows_isSome.mpr hm⟩
  refine Inv.onSelf (c := c.on v) (Inv.requestWindowSizes ?_)
  exact Inv.of_core (t := if (subtree.rootFocused && w.contains y.2.1) = true then
      w.setFocusId (some y.2.1) else w) h3 rfl

/-! ## 4. In the place of another -/

/-- The focus goes into a node that is there. -/
theorem Inv.wakeLeafIn (h : Inv c.asleep ∅ t) (hn : c.awake → t.contains n = true) :
    Inv c ∅ (t.setFocusId (t.focusedLeafIn n)) := by
  refine (h.setFocusTo (fun _ x hx => contains_of_isSome_tile (h.focusedLeafIn_some hx))
    False.elim).wake fun ha => ?_
  rw [focus_setFocusId]
  cases e : t.focusedLeafIn n with
  | some x => simpa using ⟨x, h.windows_isSome.mpr (h.focusedLeafIn_some e)⟩
  | none =>
    have : ∀ m, c.windows m = none := h.focusedLeafIn_none (c.awake_full ha) (hn ha) e
    simp [this]

/-- A new child with a share of its own. -/
abbrev plugged (s : Split) (i : ℕ) (id : NodeId) (x : ℚ) : Split :=
  { s with
    children := s.children.insertIdx (min i s.children.length) id
    percents := insertShare s.percents (min i s.children.length) x }

theorem sound_plugged {g : Prop} (h : s.Sound g) (hid : id ∉ s.children) (i : ℕ)
    {x : ℚ} (hx : g → 0 < x ∧ (s.percents ≠ [] → x < 1) ∧ (s.percents = [] → x = 1)) :
    (plugged s i id x).Sound g where
  nodup := Split.Sound.nodup_insertIdx h.nodup hid (Nat.min_le_right _ _)
  lengths := by
    have hle : min i s.children.length ≤ s.percents.length := h.lengths ▸ Nat.min_le_right _ _
    rw [length_insertShare hle, length_insertIdx_of_le_length (Nat.min_le_right _ _), h.lengths]
  shares hg := insertShare_isShares (h.shares hg) (h.lengths ▸ Nat.min_le_right _ _) (hx hg).1
    (hx hg).2.1 (hx hg).2.2

/-- The planted node in the gap. -/
def plugIn (t : TilingTree I) (slot : DetachedSlot) (id : NodeId) : TilingTree I :=
  { t with
    toArena := (t.modifySplit slot.parent (plugged · slot.index id slot.percent)).setParent id
      (some slot.parent) }

theorem rests_attachSubtreeForSwap [DecidableEq I] (subtree : DetachedSubtree I)
    {slot : DetachedSlot} (hs : t.isSplit slot.parent = true) :
    Rests ((insertDetachedNode t none [] subtree.node).1.plugIn slot
        (insertDetachedNode t none [] subtree.node).2.1) (t.attachSubtreeForSwap subtree slot).1 ∧
      (t.attachSubtreeForSwap subtree slot).2 = (insertDetachedNode t none [] subtree.node).2 := by
  unfold TilingTree.attachSubtreeForSwap
  rw [hs]
  refine ⟨Rests.trans ?_ rests_requestWindowSizes, rfl⟩
  dsimp only
  split
  · exact (rests_reinsertFocusHistory _ _).trans (rests_setFocusId _)
  · exact rests_reinsertFocusHistory _ _

/-- **Attaching a subtree in the place another one left**, with its share. -/
theorem Inv.attachSubtreeForSwap [DecidableEq I] (subtree : DetachedSubtree I) (slot : DetachedSlot)
    (h : Inv c {x | x = slot.parent} t) (hadm : Admits c t subtree.node)
    (hs : t.splitAt slot.parent = some s)
    (hshare : c.full → 0 < slot.percent ∧ (s.percents ≠ [] → slot.percent < 1) ∧
      (s.percents = [] → slot.percent = 1))
    (hdeep : c.deep → t.nodeDepth slot.parent + subtree.height ≤ maxTreeDepth) :
    Inv (c.on (t.attachSubtreeForSwap subtree slot).1) ∅ (t.attachSubtreeForSwap subtree slot).1 := by
  have hsplit : t.isSplit slot.parent = true := (t.isSplit_eq_true _).mpr ⟨s, hs⟩
  unfold TilingTree.attachSubtreeForSwap
  rw [hsplit]
  set y := insertDetachedNode t none [] subtree.node with hy
  simp only [Bool.not_true, Bool.false_eq_true, if_false]
  set a := (y.1.modifySplit slot.parent (plugged · slot.index y.2.1 slot.percent)).setParent y.2.1
    (some slot.parent) with ha
  obtain ⟨h1, ⟨hvid, -⟩, hvfocus, -, hold⟩ := h.plantPut (a := a) hadm hs hdeep
    (show y = (y.1, y.2.1, y.2.2) from rfl) fun hsu hid =>
      ⟨_, puts_modifySplit hsu hid fun x => mem_insertIdx_min slot.index x,
        fun hsound hc => sound_plugged hsound hc slot.index hshare⟩
  rw [show ({x | x = slot.parent} : Set NodeId) \ {slot.parent} = ∅ by ext x; simp] at h1
  set v : TilingTree I := { y.1 with toArena := a } with hv
  have h2 := h1.reinsertFocusHistory subtree.focusHistory slot.focusRank
  obtain ⟨hfocus, harena⟩ := focus_reinsertFocusHistory (t := v) subtree.focusHistory slot.focusRank
  set w := v.reinsertFocusHistory subtree.focusHistory slot.focusRank with hw
  have h3 : Inv (c.on v) ∅ (if (slot.focused || w.focus.isNone) = true then
      w.setFocusId (w.focusedLeafIn y.2.1) else w) := by
    refine Inv.ite (fun _ => Inv.wakeLeafIn (c := c.on v) h2 fun _ => ?_) fun hsome => ?_
    · rw [harena]
      exact hvid
    -- the tree had a window, and has it still
    refine Inv.wake (c := c.on v) h2 fun haw => ?_
    have hsome : t.focus.isSome := by
      rw [hfocus, hv] at hsome
      simp only [hvfocus, Bool.or_eq_true, not_or] at hsome
      exact Option.isSome_iff_ne_none.mpr (by simpa using hsome.2)
    obtain ⟨n, hn⟩ := (h.awake haw).mp hsome
    have hn := h.windows_isSome.mp hn
    rw [hfocus, hv]
    simp only [hvfocus]
    exact iff_of_true hsome ⟨n, by simpa [Ctx.on, hold n hn] using hn⟩
  exact Inv.onSelf (c := c.on v) h3.requestWindowSizes

end TilingTree

end Swayward
