/-
  File:      Swayward/Keeps/Mutation.lean
  Subject:   ADDING AND REMOVING TILES KEEPS THE INVARIANT, with one window more or less.
-/
import Swayward.Keeps.Layout

namespace Swayward

variable {I : Type}

open Forest Arena Positions List

namespace Ctx

/-- The context with the focus left open. -/
def asleep (c : Ctx I) : Ctx I :=
  { c with awake := False, awake_full := c.full_of_false, awake_side := c.side_of_false }

/-- The context after the leaf `id` with window `w` has come. -/
def learn (c : Ctx I) (id : NodeId) (w : I) : Ctx I :=
  { c with windows := fun n => if n = id then some w else c.windows n }

/-- The context after the leaf `id` has gone. -/
def without (c : Ctx I) (id : NodeId) : Ctx I :=
  { c with windows := fun n => if n = id then none else c.windows n }

/-- The context while the leaf `id` goes: the focus may still be on it. -/
def leaving (c : Ctx I) (id : NodeId) : Ctx I :=
  { (c.without id).asleep with hole := insert id c.hole }

end Ctx

namespace TilingTree

variable {c : Ctx I} {E : Set NodeId} {t : TilingTree I} {id p n : NodeId} {s : Split}

theorem Inv.sleep (h : Inv c E t) : Inv c.asleep E t :=
  ⟨h.ok, h.tiles, h.side, h.modes, False.elim, h.marks, h.bare, h.calm⟩

theorem Inv.wake (h : Inv c.asleep E t)
    (hw : c.awake → (t.focus.isSome ↔ ∃ n, (c.windows n).isSome)) : Inv c E t :=
  ⟨h.ok, h.tiles, h.side, h.modes, hw, h.marks, h.bare, h.calm⟩

/-! ## 1. A new leaf in the arena -/

theorem tile_alloc_leaf {a : Arena I} (q : Option NodeId) (tile : Tile I) (n : NodeId) :
    (a.alloc ⟨q, .leaf tile⟩).1.tile n = if n = a.counter then some tile else a.tile n := by
  unfold Arena.tile
  rw [get_alloc]
  by_cases e : n = a.counter <;> simp [e]

theorem splitAt_alloc_leaf {a : Arena I} (q : Option NodeId) (tile : Tile I) (n : NodeId) :
    (a.alloc ⟨q, .leaf tile⟩).1.splitAt n = if n = a.counter then none else a.splitAt n := by
  unfold Arena.splitAt
  rw [get_alloc]
  by_cases e : n = a.counter <;> simp [e]

/-- The rank of a new leaf is one more than that of its parent. -/
theorem Ok.addLeaf {g : Prop} {r : NodeId → ℕ} {a : Arena I} (h : Ok g ∅ E r a)
    (hs : a.splitAt p = some s) (q : Option NodeId) (tile : Tile I) (after : Option NodeId) :
    Ok g ∅ E (Function.update r a.counter (r p + 1))
        ((a.alloc ⟨q, .leaf tile⟩).1.insertChild p a.counter after) ∧
      (∀ n, ((a.alloc ⟨q, .leaf tile⟩).1.insertChild p a.counter after).contains n = true ↔
        n = a.counter ∨ a.contains n = true) ∧
      ∀ n, ((a.alloc ⟨q, .leaf tile⟩).1.insertChild p a.counter after).tile n =
        if n = a.counter then some tile else a.tile n := by
  set b := (a.alloc ⟨q, .leaf tile⟩).1 with hb
  have hfresh := h.counter_fresh
  have hpw := h.ne_counter (contains_of_splitAt hs)
  have hput : Ok g (insert a.counter ∅) (insert a.counter E) r b :=
    h.put hfresh (Nat.lt_succ_self _) (Nat.le_succ _) rfl
      (fun x hx => by rw [hb, splitAt_alloc_leaf, if_neg hx])
      (fun s' hs' => by rw [hb, splitAt_alloc_leaf, if_pos rfl] at hs'; cases hs')
      (fun x hx => by rw [hb, parentOf_alloc, if_neg hx]) fun x => contains_alloc _ x
  have hsb : b.splitAt p = some s := by rw [hb, splitAt_alloc_leaf, if_neg hpw, hs]
  obtain ⟨i, hp⟩ := puts_insertChild hsb ((contains_alloc _ a.counter).mpr (.inl rfl)) after
  have hkids : ∀ x, b.children x = a.children x := by
    intro x
    have hx : b.splitAt x = a.splitAt x := by
      rw [hb, splitAt_alloc_leaf]
      split_ifs with e
      · cases hx : a.splitAt x with
        | none => rfl
        | some s' => exact absurd e (h.ne_counter (contains_of_splitAt hx))
      · rfl
    simp [Arena.children, hx]
  have hranked : Ranked (b.insertChild p a.counter after).children
      (Function.update r a.counter (r p + 1)) := by
    intro x y hy
    rcases (hp.mem_children x y).mp hy with hy | ⟨rfl, rfl⟩
    · rw [hkids] at hy
      obtain ⟨s', hs', -⟩ := splitAt_of_mem_children hy
      have hxw := h.ne_counter (contains_of_splitAt hs')
      have hyw := h.ne_counter (h.contains_kid hy)
      simpa [hxw, hyw] using h.ranked x y hy
    · simp [hpw]
  have hok := hput.puts hp (Set.mem_insert _ _) (fun hsound hc => hsound.insertAt hc i) hranked
  have hD : (insert a.counter ∅ : Set NodeId) \ {a.counter} = ∅ := by simp
  rw [hD] at hok
  refine ⟨{ hok with full := fun hg x s' hx hr hE => ?_ }, fun n => ?_, fun n => ?_⟩
  · refine hok.full hg hx hr fun hE' => ?_
    rcases hE'.1 with rfl | hE'
    · -- the new node is not a split
      rw [hp.splitAt, if_neg hpw.symm, hb, splitAt_alloc_leaf, if_pos rfl] at hx
      cases hx
    · exact hE hE'
  · rw [hp.contains, contains_alloc]
  · rw [hp.tile, hb, tile_alloc_leaf]

/-- **A new leaf.** -/
theorem Inv.addLeaf (h : Inv c ∅ t) (hs : t.splitAt p = some s) (q : Option NodeId)
    (tile : Tile I) (after : Option NodeId)
    (hdeep : c.deep → t.nodeDepth p + 1 ≤ maxTreeDepth) :
    Inv (c.learn t.counter tile.window).asleep ∅ { t with
      toArena := (t.alloc ⟨q, .leaf tile⟩).1.insertChild p t.counter after } := by
  obtain ⟨hok, hbound⟩ := h.exact
  obtain ⟨hok', hcon, htile⟩ := Ok.addLeaf hok hs q tile after
  have hmono : ∀ n, (t.tile n).isSome →
      (((t.alloc ⟨q, .leaf tile⟩).1.insertChild p t.counter after).tile n).isSome := by
    intro n hn
    rw [htile]
    split
    · rfl
    · exact hn
  refine ⟨⟨_, hok', fun hd n hn => ?_⟩, fun n => ?_, fun hs => ?_, fun hs => ?_, False.elim,
    h.marks, h.bare, h.calm⟩
  · by_cases e : n = t.counter
    · subst e
      simpa using hdeep hd
    · simpa [e] using hbound hd n (((hcon n).mp hn).resolve_left e)
  · refine (congrArg (Option.map (·.window)) (htile n)).trans ?_
    by_cases e : n = t.counter
    · simp [Ctx.learn, Ctx.asleep, e]
    · simpa [Ctx.learn, Ctx.asleep, e] using h.tiles n
  · have hside := h.side hs
    exact ⟨fun f hf => (hside.focus f hf).imp_left fun hc => (hcon f).mpr (.inr hc),
      fun n hn => (hcon n).mpr (.inr (hside.names n hn)), fun n hn => hmono n (hside.marked n hn),
      hside.history⟩
  · exact ⟨(h.modes hs).one, fun n mode hn hmax => hmono n ((h.modes hs).leaf n mode hn hmax)⟩

/-! ## 2. Adding -/

/-- A leaf is always added to a split. -/
theorem Inv.splitAt_insertionSlot (h : Inv c E t) (target : InsertTarget) :
    ∃ s, t.splitAt (t.insertionSlot target).1 = some s := by
  obtain ⟨r, hok, -⟩ := h.ok
  have hbeside : ∀ x : Option NodeId, ∃ s, t.splitAt ((x.bind t.parentOf).getD t.root) = some s := by
    intro x
    cases hx : x.bind t.parentOf with
    | none => exact hok.root_split
    | some q =>
      obtain ⟨y, -, hy⟩ := Option.bind_eq_some_iff.mp hx
      obtain ⟨s, hs, -⟩ := hok.split_of_parentOf hy
      exact ⟨s, hs⟩
  cases target with
  | focused => exact hbeside _
  | node x => exact hbeside (some x)
  | moveDestination =>
    unfold insertionSlot
    simp only
    split
    · rename_i f hf
      exact (t.isSplit_eq_true f).mp (Option.filter_eq_some_iff.mp hf).2
    · exact hbeside _

theorem focus_wrapNode (id : NodeId) (layout : Layout) :
    (t.wrapNode id layout).1.focus = t.focus := by
  unfold wrapNode
  split
  · rfl
  simp only
  split
  · rfl
  obtain ⟨l, hl⟩ := raiseSplitWrapper_eq _ id _
  rw [hl]
  split
  · exact focus_setPendingFullscreen _
  · rfl

/-- Only a fullscreen node hands its mode to a wrapper. -/
theorem pendingModes_wrapNode (layout : Layout) (hid : t.fullscreenMode id = none) :
    (t.wrapNode id layout).1.pendingModes = t.pendingModes := by
  unfold wrapNode
  split
  · rfl
  simp only
  split
  · rfl
  obtain ⟨l, hl⟩ := raiseSplitWrapper_eq _ id _
  rw [hl]
  split
  · rename_i m hm
    exact nomatch hid.symm.trans hm
  · rfl

/-- The node a new leaf gets has no mode yet. -/
theorem Inv.fullscreenMode_counter (h : Inv c E t) (hs : c.side) :
    t.fullscreenMode t.counter = none := by
  obtain ⟨r, hok, -⟩ := h.ok
  have : t.pendingModes.lookup t.counter = none := by
    by_contra hne
    obtain ⟨mode, hmode⟩ := Option.ne_none_iff_exists'.mp hne
    exact hok.ne_counter ((h.side hs).mode (FinMap.mem_iff_lookup.mpr ⟨mode, hmode⟩)) rfl
  simp [fullscreenMode, this]

/-- The new leaf is put into its slot, and then perhaps wrapped. -/
theorem insertLeaf_cases (tile : Tile I) (slot : NodeId × Option NodeId) :
    t.insertLeaf tile slot = ({ t with
      toArena := (t.alloc ⟨none, .leaf tile⟩).1.insertChild slot.1 t.counter slot.2 }, t.counter) ∨
    ∃ layout, t.insertLeaf tile slot = ((wrapNode { t with
      toArena := (t.alloc ⟨none, .leaf tile⟩).1.insertChild slot.1 t.counter slot.2 } t.counter
        layout).1, t.counter) := by
  refine (ite_eq_or_eq _ _ _).elim (fun e => ?_) fun e => .inl e
  cases hw : WorkspaceLayout.wrapper t.options.workspaceLayout with
  | none => exact .inl (e.trans (by rw [hw]; rfl))
  | some layout => exact .inr ⟨layout, e.trans (by rw [hw]; rfl)⟩

theorem Inv.insertLeaf (h : Inv c ∅ t) (tile : Tile I) (slot : NodeId × Option NodeId)
    (hs : t.splitAt slot.1 = some s) (hdeep : c.deep → t.nodeDepth slot.1 + 1 ≤ maxTreeDepth) :
    Inv (c.learn t.counter tile.window).asleep ∅ (t.insertLeaf tile slot).1 ∧
      (t.insertLeaf tile slot).2 = t.counter ∧
      (c.side → (t.insertLeaf tile slot).1.pendingModes = t.pendingModes) ∧
      (t.insertLeaf tile slot).1.focus = t.focus := by
  have h1 := h.addLeaf hs none tile slot.2 hdeep
  rcases insertLeaf_cases (t := t) tile slot with e | ⟨layout, e⟩
  · rw [e]
    exact ⟨h1, rfl, fun _ => rfl, rfl⟩
  · rw [e]
    exact ⟨h1.wrapNode _ _, rfl, fun hside => pendingModes_wrapNode _ (h.fullscreenMode_counter hside),
      focus_wrapNode _ _⟩

theorem Inv.placeNewLeafInFocusOrder (h : Inv c.asleep E t) (hid : (c.windows id).isSome)
    (activate focusBlocked : Bool) {previousFocus : Option NodeId} (hf : t.focus = previousFocus) :
    Inv c E (t.placeNewLeafInFocusOrder id activate focusBlocked previousFocus) := by
  have hcid : t.contains id = true := contains_of_isSome_tile (h.windows_isSome.mp hid)
  have hfocus : Inv c E (t.setFocusId (some id)) :=
    (h.setFocusId (fun _ => hcid) False.elim).wake fun _ => iff_of_true rfl ⟨id, hid⟩
  unfold TilingTree.placeNewLeafInFocusOrder
  split
  · rename_i _ previous
    have hlater : ∀ l, (c.side → (∀ n ∈ l, t.contains n = true) ∧ l.Nodup) →
        Inv c E { t with focusHistory := l, focus := some previous } := by
      intro l hl
      rw [← hf]
      exact (h.withHistory hl).wake fun _ => iff_of_true (by rw [hf]; rfl) ⟨id, hid⟩
    refine Inv.ite (fun _ => hlater _ fun hs => ?_) fun _ => hfocus
    have hside := h.side hs
    split
    · refine ⟨fun n hn => ?_, ?_⟩
      · rcases mem_append.mp hn with hn | hn
        · exact hside.names n (.inl (mem_filter.mp hn).1)
        · exact mem_singleton.mp hn ▸ hcid
      · refine Nodup.append (hside.history.filter _) (nodup_singleton id) ?_
        simp [disjoint_singleton]
    · refine ⟨fun n hn => ?_, nodup_reinsert hside.history _ _⟩
      rcases mem_reinsert hn with rfl | hn
      · exact hcid
      · exact hside.names n (.inl hn)
  · exact hfocus

/-- Marking a leaf as mapped while a node is fullscreen. -/
theorem Inv.markMapped (h : Inv c E t) (hid : (t.tile id).isSome) (hb : ¬ c.bare)
    (hfs : c.marks → ∃ n, (t.fullscreenMode n).isSome) :
    Inv c E { t with mappedUnderFullscreen := insert id t.mappedUnderFullscreen } := by
  refine { h with
    side := fun hs => { h.side hs with marked := fun n hn => ?_ }
    modes := fun hs => { h.modes hs with }
    marks := fun hm hall => ?_
    bare := fun hb' => (hb hb').elim }
  · rcases hn with hn | hn
    · rcases Finset.mem_insert.mp hn with rfl | hn
      · exact hid
      · exact (h.side hs).marked n (.inl hn)
    · exact (h.side hs).marked n (.inr hn)
  · obtain ⟨n, hn⟩ := hfs hm
    have : t.fullscreenMode n = none := hall n
    simp [this] at hn

theorem Inv.dropRects (h : Inv c E t) : Inv c E { t with preLayoutIpcRects := ∅ } := { h with
  side hs := { h.side hs with
    names := fun n hn => (h.side hs).retable hn ⟨rfl, rfl, rfl⟩ (h.side hs).mode (h.side hs).wrapper
      (by simp) }
  modes hs := { h.modes hs with } }

/-- What `addTileWithActivation` does first. -/
def clearForLeaf (t : TilingTree I) : TilingTree I :=
  let t := { t with interactiveResize := none, hasHadTile := true }
  if t.fullscreenLayoutWrappers = ∅ then t else { t with preLayoutIpcRects := ∅ }

/-- What `addTileWithActivation` does next, when the slot for the leaf is known. -/
def openForLeaf (t : TilingTree I) (slot : NodeId) (fullscreen : Option NodeId) : TilingTree I :=
  match fullscreen with
  | some fullscreen =>
    if t.dividesBoxUnderFullscreen slot fullscreen then { t with fullscreenTileSlot := true }
    else t
  | none => t

/-- What `addTileWithActivation` does once the leaf is there. -/
def settleLeaf (t : TilingTree I) (id : NodeId) (mode : SizingMode) (activate focusBlocked : Bool)
    (mapped : Bool) (previousFocus : Option NodeId) : TilingTree I :=
  let t := t.placeNewLeafInFocusOrder id activate focusBlocked previousFocus
  let t :=
    if mapped && mode != .fullscreen then
      { t with mappedUnderFullscreen := insert id t.mappedUnderFullscreen }
    else
      t
  let t :=
    if mode = .maximized then
      { t with pendingModes := t.pendingModes.insert id { maximized := true } }
    else
      t
  let t := t.compactTree
  let t := if mode = .fullscreen then (t.replaceFullscreenState id (some .workspace)).1 else t
  t.requestWindowSizes

theorem addTileWithActivation_eq (tile : Tile I) (target : InsertTarget) (activate : Bool) :
    t.addTileWithActivation tile target activate =
      let slot := t.clearForLeaf.insertionSlot target
      let x := (t.clearForLeaf.openForLeaf slot.1 t.fullscreenNode).insertLeaf tile slot
      (x.1.settleLeaf x.2 tile.pendingSizingMode activate t.fullscreenNode.isSome
        (t.fullscreenNode.isSome && slot.1 == t.clearForLeaf.root) t.focus, x.2) := rfl

theorem Inv.clearForLeaf (h : Inv c E t) : Inv c.calmed E t.clearForLeaf := by
  have h1 : Inv c.calmed E { t with interactiveResize := none, hasHadTile := true } :=
    h.close.of_core rfl
  exact Inv.ite (fun _ => h1) fun _ => h1.dropRects

theorem Inv.openForLeaf (h : Inv c E t) (slot : NodeId) (fullscreen : Option NodeId) :
    Inv c E (t.openForLeaf slot fullscreen) := by
  unfold TilingTree.openForLeaf
  split
  · exact Inv.ite (fun _ => h.of_core rfl) fun _ => h
  · exact h

theorem Inv.settleLeaf (h : Inv c.asleep ∅ t) (hid : (c.windows id).isSome) (mode : SizingMode)
    (activate focusBlocked mapped : Bool) {previousFocus : Option NodeId}
    (hf : t.focus = previousFocus) (hnone : c.side → t.fullscreenMode id = none) (hb : ¬ c.bare)
    (hfs : c.marks → mapped = true → ∃ n, (t.fullscreenMode n).isSome) :
    Inv c ∅ (t.settleLeaf id mode activate focusBlocked mapped previousFocus) := by
  have h1 := h.placeNewLeafInFocusOrder hid activate focusBlocked hf
  have hmodes : (t.placeNewLeafInFocusOrder id activate focusBlocked previousFocus).pendingModes =
      t.pendingModes := by
    unfold TilingTree.placeNewLeafInFocusOrder
    split
    · split <;> rfl
    · rfl
  set u := t.placeNewLeafInFocusOrder id activate focusBlocked previousFocus with hu
  have hfsu : ∀ n, u.fullscreenMode n = t.fullscreenMode n := fun n => by
    unfold TilingTree.fullscreenMode
    rw [hmodes]
  have hleaf : ∀ {v : TilingTree I}, Inv c ∅ v → (v.tile id).isSome := fun h =>
    h.windows_isSome.mp hid
  unfold TilingTree.settleLeaf
  rw [← hu]
  have h2 : Inv c ∅ (if mapped && mode != .fullscreen then
      { u with mappedUnderFullscreen := insert id u.mappedUnderFullscreen } else u) := by
    refine Inv.ite (fun hmap => h1.markMapped (hleaf h1) hb fun hm => ?_) fun _ => h1
    simp only [Bool.and_eq_true] at hmap
    obtain ⟨n, hn⟩ := hfs hm hmap.1
    exact ⟨n, by rw [hfsu]; exact hn⟩
  set v : TilingTree I := if mapped && mode != .fullscreen then
      { u with mappedUnderFullscreen := insert id u.mappedUnderFullscreen } else u with hv
  have hmodev : v.pendingModes = u.pendingModes := by rw [hv]; split <;> rfl
  have h3 : Inv c ∅ (if mode = .maximized then
      { v with pendingModes := v.pendingModes.insert id { maximized := true } } else v) := by
    refine Inv.ite (fun _ => h2.insertMode (hleaf h2) fun hs => ?_) fun _ => h2
    have := hnone hs
    unfold TilingTree.fullscreenMode at this ⊢
    rw [hmodev, hmodes, this]
  refine Inv.requestWindowSizes ?_
  exact Inv.ite (fun _ => (h3.compactTree.replaceFullscreenState _ _).inv) fun _ => h3.compactTree

/-- A leaf that goes beside a node is no deeper than that node. -/
theorem Inv.deep_beside (h : Inv c E t) (x : Option NodeId) (hd : c.deep) :
    t.nodeDepth ((x.bind t.parentOf).getD t.root) + 1 ≤ maxTreeDepth := by
  obtain ⟨hok, hbound⟩ := h.exact
  cases hx : x.bind t.parentOf with
  | none => simp [h.nodeDepth_root, maxTreeDepth]
  | some q =>
    obtain ⟨y, -, hy⟩ := Option.bind_eq_some_iff.mp hx
    have hkid := hok.mem_children hy
    rw [Option.getD_some, ← hok.nodeDepth_kid no_unlinked hkid]
    exact hbound hd y (hok.contains_kid hkid)

/-- A split is above the deepest level: it is the root, or something is below it already. -/
theorem Inv.deep_split (h : Inv c ∅ t) (hfull : c.full) (hs : t.splitAt p = some s) (hd : c.deep) :
    t.nodeDepth p + 1 ≤ maxTreeDepth := by
  obtain ⟨hok, hbound⟩ := h.exact
  by_cases hroot : p = t.root
  · rw [hroot, h.nodeDepth_root]
    decide
  obtain ⟨child, hchild⟩ := List.exists_mem_of_ne_nil _ (hok.full hfull hs hroot (Set.notMem_empty p))
  rw [← children_of_splitAt hs] at hchild
  rw [← hok.nodeDepth_kid no_unlinked hchild]
  exact hbound hd child (hok.contains_kid hchild)

theorem insertionSlot_clearForLeaf (target : InsertTarget) :
    t.clearForLeaf.insertionSlot target = t.insertionSlot target := by
  unfold clearForLeaf
  simp only
  split <;> rfl

theorem toArena_openForLeaf (slot : NodeId) (fullscreen : Option NodeId) :
    (t.openForLeaf slot fullscreen).toArena = t.toArena ∧
      (t.openForLeaf slot fullscreen).pendingModes = t.pendingModes ∧
      (t.openForLeaf slot fullscreen).focus = t.focus := by
  unfold openForLeaf
  split
  · split <;> exact ⟨rfl, rfl, rfl⟩
  · exact ⟨rfl, rfl, rfl⟩

theorem toArena_clearForLeaf :
    t.clearForLeaf.toArena = t.toArena ∧ t.clearForLeaf.pendingModes = t.pendingModes ∧
      t.clearForLeaf.focus = t.focus := by
  unfold clearForLeaf
  simp only
  split <;> exact ⟨rfl, rfl, rfl⟩

/-- **Adding a tile keeps the invariant**, with one window more. -/
theorem Inv.addTileWithActivation (h : Inv c ∅ t) (tile : Tile I) (target : InsertTarget)
    (activate : Bool) (hb : ¬ c.bare)
    (hdeep : c.deep → t.nodeDepth (t.insertionSlot target).1 + 1 ≤ maxTreeDepth) :
    Inv (c.learn t.counter tile.window).calmed ∅ (t.addTileWithActivation tile target activate).1 ∧
      (t.addTileWithActivation tile target activate).2 = t.counter := by
  rw [addTileWithActivation_eq]
  simp only [insertionSlot_clearForLeaf]
  set slot := t.insertionSlot target with hslot
  set u := t.clearForLeaf.openForLeaf slot.1 t.fullscreenNode with hu
  have h1 : Inv c.calmed ∅ u := h.clearForLeaf.openForLeaf _ _
  have ⟨ha, hm, hf⟩ : u.toArena = t.toArena ∧ u.pendingModes = t.pendingModes ∧
      u.focus = t.focus := by
    obtain ⟨ha, hm, hf⟩ := toArena_openForLeaf (t := t.clearForLeaf) slot.1 t.fullscreenNode
    obtain ⟨ha', hm', hf'⟩ := toArena_clearForLeaf (t := t)
    exact ⟨ha.trans ha', hm.trans hm', hf.trans hf'⟩
  obtain ⟨s, hs⟩ := h.splitAt_insertionSlot target
  obtain ⟨h2, hid, hmodes, hfocus⟩ := h1.insertLeaf tile slot (s := s)
    (by rw [ha]; exact hs) (by rw [ha]; exact hdeep)
  rw [hid, ha]
  refine ⟨?_, rfl⟩
  rw [ha] at h2
  refine Inv.settleLeaf (c := (c.learn t.counter tile.window).calmed) h2
    (by simp [Ctx.calmed, Ctx.learn]) _ _ _ _ (hfocus.trans hf) (fun hside => ?_) hb fun hmarks hmap => ?_
  · unfold TilingTree.fullscreenMode
    rw [hmodes hside, hm]
    exact h.fullscreenMode_counter hside
  · simp only [Bool.and_eq_true] at hmap
    obtain ⟨f, hf⟩ := Option.isSome_iff_exists.mp hmap.1
    refine ⟨f, ?_⟩
    unfold TilingTree.fullscreenMode
    rw [hmodes (c.marks_side hmarks), hm]
    exact fullscreenNode_some hf

theorem Inv.addTileBeside (h : Inv c ∅ t) (tile : Tile I) (x : NodeId) (activate : Bool)
    (hb : ¬ c.bare) :
    Inv (c.learn t.counter tile.window).calmed ∅ (t.addTileWithActivation tile (.node x) activate).1 ∧
      (t.addTileWithActivation tile (.node x) activate).2 = t.counter :=
  h.addTileWithActivation tile _ activate hb (h.deep_beside (some x))

theorem Inv.addTileFocused (h : Inv c ∅ t) (tile : Tile I) (activate : Bool) (hb : ¬ c.bare) :
    Inv (c.learn t.counter tile.window).calmed ∅ (t.addTileWithActivation tile .focused activate).1 ∧
      (t.addTileWithActivation tile .focused activate).2 = t.counter :=
  h.addTileWithActivation tile _ activate hb (h.deep_beside t.focus)

theorem Sound.swapEntries {g : Prop} (h : s.Sound g) (i j : ℕ) :
    (Split.swapEntries s i j).children.Perm s.children ∧ (Split.swapEntries s i j).Sound g := by
  unfold Split.swapEntries
  split
  · rename_i x y u v hx hy hu hv
    obtain ⟨hi, rfl⟩ := List.getElem?_eq_some_iff.mp hx
    obtain ⟨hj, rfl⟩ := List.getElem?_eq_some_iff.mp hy
    obtain ⟨hi', rfl⟩ := List.getElem?_eq_some_iff.mp hu
    obtain ⟨hj', rfl⟩ := List.getElem?_eq_some_iff.mp hv
    have hp : ((s.children.set i s.children[j]).set j s.children[i]).Perm s.children :=
      set_set_perm hi hj
    have hp' : ((s.percents.set i s.percents[j]).set j s.percents[i]).Perm s.percents :=
      set_set_perm hi' hj'
    exact ⟨hp, hp.nodup_iff.mpr h.nodup, by simpa using h.lengths, fun hg => (h.shares hg).perm hp'⟩
  · exact ⟨Perm.refl _, h⟩

/-- The next identifier is not that of a leaf. -/
theorem Inv.windows_counter (h : Inv c E t) : c.windows t.counter = none := by
  obtain ⟨r, hok, -⟩ := h.ok
  cases e : c.windows t.counter with
  | none => rfl
  | some w =>
    have hsome : (c.windows t.counter).isSome := by simp [e]
    have := contains_of_isSome_tile (h.windows_isSome.mp hsome)
    exact absurd (hok.fresh this) (lt_irrefl _)

/-- **Dropping a tile at an edge of a node.** -/
theorem Inv.addTileAtDrop (h : Inv c ∅ t) (tile : Tile I) (target : NodeId) (edge : ResizeEdge)
    (activate : Bool) (hb : ¬ c.bare) :
    Inv (c.learn (t.addTileAtDrop tile target edge activate).2 tile.window).calmed ∅
        (t.addTileAtDrop tile target edge activate).1 ∧
      c.windows (t.addTileAtDrop tile target edge activate).2 = none := by
  unfold TilingTree.addTileAtDrop tryAddTileAtDrop
  cases t.contains target with
  | false =>
    obtain ⟨h1, e⟩ := h.addTileFocused tile activate hb
    simp only [Bool.not_false, if_true]
    rw [e]
    exact ⟨h1, h.windows_counter⟩
  | true =>
    have h1 : Inv c ∅ (t.dropSplit target edge) :=
      Inv.ite (fun _ => h) fun _ => (h.split _ _).uncalm
    obtain ⟨h2, e⟩ := h1.addTileBeside tile target activate hb
    have hnew : c.windows ((t.dropSplit target edge).addTileWithActivation tile (.node target)
        activate).2 = none := e ▸ h1.windows_counter
    rw [← e] at h2
    simp only [Bool.not_true, Bool.false_eq_true, if_false]
    generalize (t.dropSplit target edge).addTileWithActivation tile (.node target) activate = x at *
    cases edge.left || edge.top with
    | false => exact ⟨h2, hnew⟩
    | true =>
      simp only [if_true]
      cases x.1.parentOf x.2 with
      | none => exact ⟨h2, hnew⟩
      | some parent =>
        dsimp only
        cases x.1.childIndex parent target with
        | none => exact ⟨h2, hnew⟩
        | some first =>
          cases x.1.childIndex parent x.2 with
          | none => exact ⟨h2, hnew⟩
          | some second =>
            cases x.1.isSplit parent with
            | false => exact ⟨h2, hnew⟩
            | true =>
              exact ⟨h2.modifySplit fun s hs hsound => Sound.swapEntries hsound _ _, hnew⟩

/-- **Back into a split below the root.** Such a split holds a window already. -/
theorem Inv.addTileToExistingParent (h : Inv c ∅ t) (tile : Tile I)
    (hs : t.splitAt p = some s) (hp : p ≠ t.root) (activate : Bool)
    (hdeep : c.deep → t.nodeDepth p + 1 ≤ maxTreeDepth) :
    Inv (c.learn t.counter tile.window).calmed ∅ (t.addTileToExistingParent tile p activate).1 := by
  have h1 : Inv c.calmed ∅ { t with interactiveResize := none } := h.close
  have h2 := h1.addLeaf hs (some p) tile none hdeep
  have hid : ((c.learn t.counter tile.window).calmed.windows t.counter).isSome := by
    simp [Ctx.calmed, Ctx.learn]
  refine Inv.requestWindowSizes (Inv.wake (Inv.ite (fun _ => h2.setFocusId (fun _ => ?_) False.elim)
    fun _ => h2) fun ha => ?_)
  · exact contains_of_isSome_tile (h2.windows_isSome.mp hid)
  refine iff_of_true ?_ ⟨t.counter, hid⟩
  split
  · rfl
  · obtain ⟨r, hok, -⟩ := h.ok
    obtain ⟨m, -, hm⟩ := hok.exists_leaf (c.awake_full ha) (contains_of_splitAt hs) hp
    exact (h.awake ha).mpr ⟨m, h.windows_isSome.mpr hm⟩

/-! ## 3. Removing -/

/-- Every fullscreen node but the root and `id` holds a leaf besides `id`. -/
def HeldBut (t : TilingTree I) (id : NodeId) : Prop :=
  ∀ n, (t.fullscreenMode n).isSome → n = t.root ∨ n = id ∨
    ∃ m, m ≠ id ∧ Below t.children n m ∧ (t.tile m).isSome

/-- `removeTileNode` up to the reaping. -/
def takeLeaf (t : TilingTree I) (id p : NodeId) : TilingTree I :=
  let u := t.removeNode id
  let u :=
    if t.fullscreenNode == some id then
      { u with mappedUnderFullscreen := ∅, movedUnderFullscreen := ∅ }
    else
      u
  let u := { u with interactiveResize := none }
  { u with toArena := u.removeChild p id }

theorem removeTileNode_eq {tile : Tile I} (ht : t.tile id = some tile)
    (hp : t.parentOf id = some p) :
    t.removeTileNode id = (((t.takeLeaf id p).reapEmptyFrom p).refocusAfterRemoval id, some tile) := by
  unfold removeTileNode
  rw [ht, hp]
  rfl

theorem focus_takeLeaf : (t.takeLeaf id p).focus = t.focus := by
  unfold takeLeaf
  simp only
  split <;> exact focus_removeNode

/-- Clearing the marks when the fullscreen node goes. -/
theorem takeLeaf_eq (t : TilingTree I) (id p : NodeId) : ∃ mapped moved,
    t.takeLeaf id p = { t.removeNode id with
      toArena := (t.removeNode id).removeChild p id
      mappedUnderFullscreen := mapped
      movedUnderFullscreen := moved
      interactiveResize := none } ∧
    ((t.fullscreenNode = some id ∧ mapped = ∅ ∧ moved = ∅) ∨
      (t.fullscreenNode ≠ some id ∧ mapped = (t.removeNode id).mappedUnderFullscreen ∧
        moved = (t.removeNode id).movedUnderFullscreen)) := by
  by_cases hf : t.fullscreenNode = some id
  · refine ⟨∅, ∅, ?_, .inl ⟨hf, rfl, rfl⟩⟩
    simp [takeLeaf, hf]
  · refine ⟨_, _, ?_, .inr ⟨hf, rfl, rfl⟩⟩
    simp [takeLeaf, hf]

theorem Inv.takeLeaf (h : Inv c ∅ t) {tile : Tile I} (ht : t.tile id = some tile)
    (hp : t.parentOf id = some p) (hheld : c.marks → t.HeldBut id) :
    Inv (c.leaving id).calmed {p} (t.takeLeaf id p) ∧ (c.marks → (t.takeLeaf id p).Held) := by
  obtain ⟨r, hok, -⟩ := h.ok
  have hid : t.contains id = true := contains_of_parentOf hp
  have hk : t.children id = [] := children_of_tile ht
  have h0 : Inv { c with
      hole := insert id c.hole, marks := False, marks_full := False.elim,
      marks_side := False.elim } ∅ t := { h with
    side hs := { h.side hs with
      focus := fun f hf => ((h.side hs).focus f hf).imp_right (Set.mem_insert_of_mem id) }
    marks := False.elim }
  have h1 := h0.dropChild hp hk (fun _ => Set.mem_insert _ _) False.elim
  have hE : insert p ((∅ : Set NodeId) \ {id}) = {p} := by simp
  rw [hE] at h1
  obtain ⟨mapped, moved, e, hmarks⟩ := takeLeaf_eq t id p
  have hmark : ∀ n, (t.takeLeaf id p).Marked n → (t.removeNode id).Marked n := by
    rw [e]
    rcases hmarks with ⟨-, rfl, rfl⟩ | ⟨-, rfl, rfl⟩
    · rintro n (hn | hn)
      · cases hn
      · exact absurd hn (by simp)
    · exact fun n hn => hn
  have hmode : ∀ n, (t.takeLeaf id p).fullscreenMode n =
      if n = id then none else t.fullscreenMode n := by
    intro n
    rw [e]
    exact fullscreenMode_removeNode hid n
  rw [e] at hmark hmode ⊢
  refine ⟨{ h1 with
    side := fun hs => { h1.side hs with
      marked := fun n hn => (h1.side hs).marked n (hmark n hn) }
    modes := fun hs => { h1.modes hs with }
    awake := False.elim
    marks := fun hm hall n hn => ?_
    bare := fun hb n hn => h1.bare hb n (hmark n hn)
    calm := fun _ => rfl }, fun hm => ?_⟩
  · -- the marks go with the fullscreen leaf, else the fullscreen node is another one
    rcases hmarks with ⟨-, rfl, rfl⟩ | ⟨hne, -, -⟩
    · rcases hn with hn | hn
      · cases hn
      · exact absurd hn (by simp)
    · refine h.marks hm (fun m => ?_) n (marked_removeNode hid (hmark n hn)).1
      have := hall m
      rw [hmode] at this
      by_cases em : m = id
      · subst em
        by_contra hsome
        exact hne ((h.modes (c.marks_side hm)).eq_fullscreenNode
          (Option.ne_none_iff_isSome.mp hsome))
      · simpa [em] using this
  · refine held_dropChild (t := t) (fun n hn => ?_) (erases_removeNode t id).root hk
      (mem_children_dropChild hok hp hk (erases_removeNode t id)) fun n hn => ?_
    · rw [hmode] at hn
      by_cases en : n = id
      · simp [en] at hn
      · rw [if_neg en] at hn
        exact (hheld hm n hn).imp_right fun hx => hx.resolve_left en
    · refine (tile_modifySplit _ _ _ _).trans ?_
      rw [(erases_removeNode t id).tile]
      simp [hn]

/-- The windows are those of the leaves. -/
theorem Inv.mem_windows (h : Inv c E t) {w : I} : (n, w) ∈ t.windows ↔ c.windows n = some w := by
  obtain ⟨r, hok, -⟩ := h.ok
  rw [← h.tiles n]
  simp only [Arena.windows, mem_filterMap, Option.map_eq_some_iff, Prod.mk.injEq]
  constructor
  · rintro ⟨m, -, tile, ht, rfl, rfl⟩
    exact ⟨tile, ht, rfl⟩
  rintro ⟨tile, ht, rfl⟩
  refine ⟨n, ?_, tile, ht, rfl, rfl⟩
  rw [hok.mem_depthFirst hok.contains_root]
  exact hok.below_root (contains_of_isSome_tile (by simp [ht]))

theorem Inv.windows_isEmpty (h : Inv c E t) :
    t.windows.isEmpty = true ↔ ¬ ∃ n, (c.windows n).isSome := by
  rw [List.isEmpty_iff, eq_nil_iff_forall_not_mem]
  constructor
  · rintro hnone ⟨n, hn⟩
    obtain ⟨w, hw⟩ := Option.isSome_iff_exists.mp hn
    exact hnone (n, w) (h.mem_windows.mpr hw)
  · rintro hnone ⟨n, w⟩ hw
    exact hnone ⟨n, by simp [h.mem_windows.mp hw]⟩

/-- The focus is on a node again. -/
theorem Inv.settled (h : Inv { c.asleep with hole := insert id c.hole } ∅ t)
    (hfocus : c.side → ∀ f, t.focus = some f → t.contains f = true ∨ f ∈ c.hole)
    (hawake : c.awake → (t.focus.isSome ↔ ∃ n, (c.windows n).isSome)) : Inv c ∅ t := { h with
  side hs := { h.side hs with focus := hfocus hs }
  awake := hawake }

/-- **The focus is settled after a removal.** -/
theorem Inv.refocusAfterRemoval (h : Inv { c.asleep with hole := insert id c.hole } ∅ t)
    (hf : c.awake → t.focus.isSome) : Inv c ∅ (t.refocusAfterRemoval id) := by
  unfold TilingTree.refocusAfterRemoval
  by_cases hw : t.windows.isEmpty = true
  · rw [if_pos hw]
    have hnone := h.windows_isEmpty.mp hw
    have h1 : Inv { c.asleep with hole := insert id c.hole } ∅ { t with
        emptyRepresentationLayout := some t.rootLayout, pendingModes := ∅ } := by
      refine Inv.of_core (h.withModes (fun _ n hn => absurd hn (by simp))
        (fun _ => ⟨fun x y _ _ hx => absurd hx (by simp [fullscreenMode]), fun x m hm => by
          simp at hm⟩) ?_) rfl
      -- a mark would be on a leaf
      exact fun hm _ n hn =>
        hnone ⟨n, h.windows_isSome.mpr ((h.side (c.marks_side hm)).marked n hn)⟩
    exact (h1.setFocusTo (o := none) (fun _ x hx => by cases hx) False.elim).settled
      (fun _ f hf => by cases hf) fun _ => iff_of_false (by simp) hnone
  · rw [if_neg hw]
    have hsome : ∃ n, (c.windows n).isSome := by
      by_contra hnone
      exact hw (h.windows_isEmpty.mpr hnone)
    by_cases hid : t.focus = some id
    · rw [if_pos hid]
      have hleaf : ∀ x, (t.fullscreenNode.bind t.focusedLeafIn).or (t.focusedLeafIn t.root) = some x →
          t.contains x = true := by
        intro x hx
        refine contains_of_isSome_tile ?_
        rcases Option.or_eq_some_iff.mp hx with hx | ⟨-, hx⟩
        · obtain ⟨f, -, hx⟩ := Option.bind_eq_some_iff.mp hx
          exact h.focusedLeafIn_some hx
        · exact h.focusedLeafIn_some hx
      refine (h.setFocusTo (fun _ => hleaf) False.elim).settled (fun _ f hf => .inl ?_)
        fun ha => iff_of_true ?_ hsome
      · rw [toArena_setFocusId]
        exact hleaf f (by rwa [focus_setFocusId] at hf)
      rw [focus_setFocusId, Option.isSome_or, Bool.or_eq_true]
      refine .inr ?_
      by_contra hnone
      obtain ⟨r, hok, -⟩ := h.ok
      have := h.focusedLeafIn_none (c.awake_full ha) hok.contains_root
        (by simpa using hnone)
      obtain ⟨n, hn⟩ := hsome
      have hn' : c.windows n = none := this n
      simp [hn'] at hn
    · rw [if_neg hid]
      refine h.settled (fun hs f hf => ?_) fun ha => iff_of_true (hf ha) hsome
      refine ((h.side hs).focus f hf).imp_right fun hx => hx.resolve_left ?_
      rintro rfl
      exact hid hf

/-- **Removing a tile keeps the invariant**, with one window less. -/
theorem Inv.removeTileNode (h : Inv c ∅ t) {tile : Tile I} (ht : t.tile id = some tile)
    (hheld : c.marks → t.HeldBut id) :
    Inv (c.without id).calmed ∅ (t.removeTileNode id).1 := by
  obtain ⟨r, hok, -⟩ := h.ok
  have hid : t.contains id = true := contains_of_isSome_tile (by simp [ht])
  have hroot : id ≠ t.root := by
    rintro rfl
    rw [hok.tile_root] at ht
    cases ht
  obtain ⟨p, hp⟩ := hok.home hid hroot (Set.notMem_empty id)
  have hp := hok.kid_parent hp
  rw [removeTileNode_eq ht hp]
  obtain ⟨h1, hheld1⟩ := h.takeLeaf ht hp hheld
  have h2 := h1.reapEmptyFrom hheld1
  refine Inv.refocusAfterRemoval (c := (c.without id).calmed) h2 fun ha => ?_
  refine (isSome_focus_reapFrom _ _).trans ?_
  rw [focus_takeLeaf]
  exact (h.awake ha).mpr ⟨id, h.windows_isSome.mpr (by simp [ht])⟩

/-! ## 4. Removing by window -/

theorem Inv.resolveTransferFocus (h : Inv c E t) (hw : c.awake → ∃ n, (c.windows n).isSome)
    (target : Option (NodeId × List NodeId)) : Inv c E (t.resolveTransferFocus target).1 := by
  unfold TilingTree.resolveTransferFocus
  split
  · rename_i f hf
    refine h.setFocusId (fun _ => ?_) hw
    obtain ⟨⟨x, ancestors⟩, -, hx⟩ := Option.bind_eq_some_iff.mp hf
    simp only at hx
    split at hx
    · cases hx
      assumption
    · obtain ⟨y, -, hy⟩ := Option.bind_eq_some_iff.mp hx
      exact contains_of_isSome_tile (h.focusedLeafIn_some hy)
  · exact h

section Windows

variable [DecidableEq I]

theorem Inv.removeTile (h : Inv c ∅ t) (window : I)
    (hheld : c.marks → ∀ id, t.nodeForWindow window = some id → t.HeldBut id) :
    (t.nodeForWindow window = none → Inv c ∅ (t.removeTile window).1) ∧
      ∀ id, t.nodeForWindow window = some id →
        Inv (c.without id).calmed ∅ (t.removeTile window).1 := by
  unfold TilingTree.removeTile
  refine ⟨fun e => ?_, fun id e => ?_⟩
  · rw [e]
    exact h
  rw [e]
  obtain ⟨tile, ht, -⟩ := nodeForWindow_some e
  have h1 := h.removeTileNode ht fun hm => hheld hm id e
  simp only
  split <;> rename_i he <;> rw [he] at h1
  · exact h1.requestWindowSizes
  · exact h1

theorem Inv.removeTileForTransfer (h : Inv c ∅ t) (window : I)
    (hheld : c.marks → ∀ id, t.nodeForWindow window = some id → t.HeldBut id) :
    (t.nodeForWindow window = none → Inv c ∅ (t.removeTileForTransfer window).1) ∧
      ∀ id, t.nodeForWindow window = some id →
        Inv (c.without id).calmed ∅ (t.removeTileForTransfer window).1 := by
  unfold TilingTree.removeTileForTransfer
  refine ⟨fun e => ?_, fun id e => ?_⟩
  · rw [e]
    exact h
  rw [e]
  have h1 := (h.removeTile window hheld).2 id e
  simp only
  split <;> rename_i u _ he <;> rw [he] at h1
  · refine Inv.ite (fun hf => h1.resolveTransferFocus (fun ha => ?_) _) fun _ => h1
    exact (h1.awake ha).mp hf
  · exact h1

end Windows

end TilingTree

end Swayward
