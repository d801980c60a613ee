/-
  File:      Swayward/Keeps/Drop.lean
  Subject:   DROPPING A TILE AT AN EDGE: where the new leaf lands.

  `add_tile_at_drop` splits the target if it has to, inserts the new leaf after it, compacts the
  tree and, at a left or top edge, trades the two slots. The trade looks the target up among the
  children of the new leaf's parent. `Placed` says where the two are: side by side, or the new leaf
  alone in a container beside the target, which is what a workspace layout of stacking or tabbed
  makes of a leaf added to the root. Compaction moves both together. The lookup fails exactly on the
  lone leaf, so a drop left of, or above, a window that is a child of the root must not wrap.
-/
import Swayward.Keeps.SwapNodes

namespace Swayward

variable {I : Type}

open Forest Arena Positions List

/-! ## 1. Neighbours in the order of the leaves -/

namespace Arena

variable {a : Arena I} {g : Prop} {D E : Set NodeId} {r : NodeId → ℕ} {n m p : NodeId}

theorem Ok.leafIdsIn_eq (h : Ok g D E r a) (hn : a.contains n = true) :
    a.leafIdsIn n = if (a.tile n).isSome then [n] else (a.children n).flatMap a.leafIdsIn := by
  have hf : a.leafIdsIn = fold a.children
      (fun n l => if (a.tile n).isSome then [n] else l.flatten) [] a.size :=
    funext (collectLeafIds_eq_fold a.size)
  rw [hf, fold_unfold h.ranked _ _ (h.covered hn) length_keys.le, flatMap_def]

/-- The leaves below neighbouring children are neighbours. -/
theorem Ok.leafIdsIn_kids (h : Ok g D E r a) {l : List NodeId} (hl : l <:+: a.children p) :
    l.flatMap a.leafIdsIn <:+: a.leafIdsIn p := by
  cases hs : a.splitAt p with
  | none =>
    have hnil : a.children p = [] := by simp [children, hs]
    rw [hnil, infix_nil] at hl
    rw [hl]
    exact nil_infix
  | some s =>
    rw [h.leafIdsIn_eq (contains_of_splitAt hs), tile_of_splitAt hs]
    exact hl.flatMap _

theorem Ok.leafIdsIn_below (h : Ok g D E r a) (hm : Below a.children n m) :
    a.leafIdsIn m <:+: a.leafIdsIn n := by
  induction hm with
  | refl => exact infix_rfl
  | tail _ hc ih =>
    obtain ⟨s, hs, -⟩ := splitAt_of_mem_children hc
    refine List.IsInfix.trans ?_ ih
    rw [h.leafIdsIn_eq (contains_of_splitAt hs), tile_of_splitAt hs]
    exact infix_flatMap_of_mem hc _

end Arena

namespace TilingTree

variable {c : Ctx I} {t u : TilingTree I} {id p child target new next : NodeId} {g : Prop}
variable {E : Set NodeId} {r : NodeId → ℕ}

/-- The leaf `new` comes right after the leaf `target`: next to it, or alone in the container next
    to it, which is neither a SplitH nor a SplitV. -/
structure Placed (t : TilingTree I) (target new next : NodeId) : Prop where
  beside : ∃ p, [target, next] <:+: t.children p
  target_leaf : t.splitAt target = none
  new_leaf : t.splitAt new = none
  next_eq : next = new ∨
    ∃ s, t.splitAt next = some s ∧ s.layout.isSplit = false ∧ s.children = [new]

theorem Placed.congr (h : t.Placed target new next) (hs : ∀ n, u.splitAt n = t.splitAt n) :
    u.Placed target new next := by
  have hk : u.children = t.children := funext fun n => by simp only [children, hs]
  exact ⟨hk ▸ h.beside, (hs _).trans h.target_leaf, (hs _).trans h.new_leaf,
    by rw [hs]; exact h.next_eq⟩

/-- **The two leaves are neighbours in depth-first order.** -/
theorem Placed.infix_leafIdsIn (h : t.Placed target new next) (hok : t.toArena.Ok g ∅ E r)
    (htarget : (t.tile target).isSome) (hnew : (t.tile new).isSome) :
    [target, new] <:+: t.leafIdsIn t.root := by
  have hleaf : ∀ {x}, (t.tile x).isSome → t.leafIdsIn x = [x] := fun hx => by
    rw [hok.leafIdsIn_eq (contains_of_isSome_tile hx), if_pos hx]
  have hnext : t.leafIdsIn next = [new] := by
    rcases h.next_eq with rfl | ⟨s, hs, -, hk⟩
    · exact hleaf hnew
    · rw [hok.leafIdsIn_eq (contains_of_splitAt hs), tile_of_splitAt hs, children_of_splitAt hs, hk]
      simpa using hleaf hnew
  obtain ⟨p, hp⟩ := h.beside
  obtain ⟨s, hs, -⟩ := splitAt_of_mem_children (hp.subset mem_cons_self)
  have hkids := hok.leafIdsIn_kids hp
  simp only [flatMap_cons, flatMap_nil, hleaf htarget, hnext] at hkids
  exact hkids.trans (hok.leafIdsIn_below (hok.below_root (contains_of_splitAt hs)))

/-! ## 2. Compaction moves neighbours together -/

/-- The splits after squashing the pair at `id`. -/
theorem splitAt_squash (hok : t.toArena.Ok g ∅ E r) (hk : t.squashableChild id = some child) :
    ∃ p ps s cs i, t.Squashable id child p ps s cs ∧ ps.children.idxOf? id = some i ∧
      ∀ n, (t.squash id).splitAt n = if n ∈ [id, child] then none else if n = p then
          some (spliceAt ps i cs.children (cs.percents.map ((ps.percents[i]?.getD 0) * ·)))
        else t.splitAt n := by
  obtain ⟨p, ps, s, cs, hsq⟩ := squashable_iff.mp hk
  obtain ⟨i, hi⟩ := exists_idxOf? (l := ps.children) (c := id)
    (children_of_splitAt hsq.outer ▸ hok.mem_children hsq.parent)
  refine ⟨p, ps, s, cs, i, hsq, hi, fun n => ?_⟩
  have hi' : t.childIndex p id = some i := by simp [childIndex, hsq.outer, hi]
  rw [squash_eq hsq.parent hk hsq.inner hi']
  unfold retire
  rw [(erases_foldl_removeNode _ _).splitAt, toArena_passFocus, handFullscreen_eq, splitAt_adopt,
    splitAt_modifySplit_of hsq.outer]

/-- Neighbours stay neighbours when the entries around them are replaced. -/
theorem infix_splice {x y z : NodeId} {A B : List NodeId} (K : List NodeId)
    (h : [x, y] <:+: A ++ z :: B) (hx : x ≠ z) (hy : y ≠ z) : [x, y] <:+: A ++ K ++ B := by
  rcases infix_append_iff.mp h with h | h | ⟨l1, l2, e, h1, h2⟩
  · exact h.trans ⟨[], K ++ B, by simp⟩
  · rcases infix_cons_iff.mp h with h | h
    · simp [hx] at h
    · exact h.trans ⟨A ++ K, [], by simp⟩
  · cases l2 with
    | nil =>
      rw [append_nil] at e
      exact (e ▸ h1.isInfix).trans ⟨[], K ++ B, by simp⟩
    | cons w l2 =>
      -- the entry after the cut is `z`, one of the two neighbours
      obtain ⟨rfl, -⟩ := cons_prefix_cons.mp h2
      have : w ∈ [x, y] := by rw [e]; simp
      simp only [mem_cons, not_mem_nil, or_false] at this
      rcases this with rfl | rfl
      · exact absurd rfl hx
      · exact absurd rfl hy

/-- **Squashing a pair leaves the two where they are, or moves them up together.** -/
theorem Placed.squash (h : t.Placed target new next) (hok : t.toArena.Ok g ∅ E r) (id : NodeId) :
    (t.squash id).Placed target new next := by
  cases hk : t.squashableChild id with
  | none =>
    refine h.congr fun n => ?_
    unfold TilingTree.squash
    rw [hk]
    cases t.parentOf id <;> rfl
  | some child =>
    obtain ⟨p, ps, s, cs, i, hsq, hi, hsplit⟩ := splitAt_squash hok hk
    obtain ⟨A, B, hAB, rfl⟩ := exists_around_idxOf? hi
    have hidp : id ∈ t.children p := children_of_splitAt hsq.outer ▸ mem_of_idxOf? hi
    have hchild : t.children id = [child] := (children_of_splitAt hsq.split).trans hsq.only
    have hp : p ∉ [id, child] := by
      have hr := hok.ranked p id hidp
      have hr' := hok.ranked id child (by simp [hchild])
      simpa using ⟨fun e => hr.ne (congrArg r e), fun e => (hr.trans hr').ne (congrArg r e)⟩
    have hkids : (t.squash id).children p = A ++ cs.children ++ B := by
      rw [children_of_splitAt (by rw [hsplit, if_neg hp, if_pos rfl])]
      simp only [spliceAt, hAB, take_around, drop_around]
    -- a node that is no SplitH or SplitV is not of the pair
    have hfirm : ∀ {x}, (∀ s, t.splitAt x = some s → s.layout.isSplit = false) →
        x ≠ id ∧ x ≠ child := fun hx =>
      ⟨fun e => by simpa [hx _ (e ▸ hsq.split)] using hsq.isSplit,
        fun e => by simpa [hx _ (e ▸ hsq.inner)] using hsq.isSplit'⟩
    have hleaf : ∀ {x}, t.splitAt x = none → (t.squash id).splitAt x = none := fun hx => by
      rw [hsplit, if_neg (ne_of_splitAt hx hsq.outer), hx, ite_self]
    have hnext := hfirm (x := next) (by
      rcases h.next_eq with rfl | ⟨s, hs, hl, -⟩
      · simp [h.new_leaf]
      · intro s' hs'
        rwa [Option.some.inj (hs'.symm.trans hs)])
    have htarget := hfirm (x := target) (by simp [h.target_leaf])
    refine ⟨?_, hleaf h.target_leaf, hleaf h.new_leaf, h.next_eq.imp_right ?_⟩
    · obtain ⟨q, hq⟩ := h.beside
      by_cases e : q = id
      · rw [e, hchild] at hq
        simpa using hq.length_le
      by_cases e' : q = child
      · rw [e', children_of_splitAt hsq.inner] at hq
        exact ⟨p, hkids ▸ hq.trans ⟨A, B, rfl⟩⟩
      by_cases e'' : q = p
      · rw [e'', children_of_splitAt hsq.outer, hAB] at hq
        exact ⟨p, hkids ▸ infix_splice cs.children hq htarget.1 hnext.1⟩
      refine ⟨q, ?_⟩
      unfold children
      rw [hsplit, if_neg (by simpa using ⟨e, e'⟩), if_neg e'']
      exact hq
    · rintro ⟨s', hs', hl, hk'⟩
      have hnew := h.new_leaf
      refine ⟨s', ?_, hl, hk'⟩
      have hnp : next ≠ p := by
        rintro rfl
        rw [children_of_splitAt hs', hk', mem_singleton] at hidp
        rw [← hidp, hsq.split] at hnew
        cases hnew
      rw [hsplit, if_neg (by simpa using hnext), if_neg hnp, hs']

/-- A tree with nothing assumed of it but its arena. -/
theorem Inv.of_ok (hok : t.toArena.Ok g ∅ E r) :
    Inv ⟨g, False, False, False, False, False, False, fun n => (t.tile n).map (·.window), ∅,
      False.elim, False.elim, False.elim, False.elim⟩ E t :=
  ⟨⟨r, hok, False.elim⟩, fun _ => rfl, False.elim, False.elim, False.elim, False.elim, False.elim,
    False.elim⟩

theorem Placed.compactFrom (h : t.Placed target new next) (hinv : Inv c ∅ t) (fuel : ℕ) :
    (compactFrom fuel t).Placed target new next := by
  fun_induction TilingTree.compactFrom fuel t with
  | case3 _ _ _ _ ih =>
    obtain ⟨r, hok, -⟩ := hinv.ok
    exact ih (h.squash hok _) (hinv.squash _)
  | _ => exact h

theorem toArena_replaceFullscreenState (id : NodeId) (mode : Option FullscreenMode) :
    (t.replaceFullscreenState id mode).1.toArena = t.toArena := by
  have hbegin : ∀ (u : TilingTree I) m, (u.beginFullscreen id m).toArena = u.toArena := by
    intro u m
    unfold beginFullscreen
    simp only
    split
    · rw [setPendingFullscreen_eq]
    · rw [toArena_setFocusId, setPendingFullscreen_eq]
  unfold replaceFullscreenState
  simp only
  split
  · rfl
  split
  · rfl
  obtain ⟨session, hcancel⟩ := cancelResizeFor_eq _ id
  rw [hcancel]
  cases mode with
  | none => cases t.fullscreenNode <;> rfl
  | some m =>
    refine (hbegin _ m).trans ?_
    cases t.fullscreenNode <;> rfl

/-- What follows the insertion of a leaf leaves the two together. -/
theorem Placed.settleLeaf (h : t.Placed target new next) (hok : t.toArena.Ok g ∅ ∅ r)
    (mode : SizingMode) (activate focusBlocked mapped : Bool) (previousFocus : Option NodeId) :
    (t.settleLeaf new mode activate focusBlocked mapped previousFocus).Placed target new next := by
  have hplace : ∀ (u : TilingTree I), u.toArena = t.toArena →
      (if mode = .fullscreen then (u.compactTree.replaceFullscreenState new (some .workspace)).1
        else u.compactTree).requestWindowSizes.Placed target new next := by
    intro u hu
    have hl : u.compactTree.Placed target new next :=
      (h.congr fun n => by rw [hu]).compactFrom (Inv.of_ok (hu ▸ hok)) _
    refine hl.congr fun n => ?_
    rw [splitAt_requestWindowSizes]
    split
    · rw [toArena_replaceFullscreenState]
    · rfl
  refine hplace _ ?_
  have hfocus : (t.placeNewLeafInFocusOrder new activate focusBlocked previousFocus).toArena =
      t.toArena := by
    unfold placeNewLeafInFocusOrder
    split
    · split
      · rfl
      · exact toArena_setFocusId _
    · exact toArena_setFocusId _
  rw [← hfocus]
  split <;> split <;> rfl

/-! ## 3. The slot of the new leaf -/

/-- Wrapping a child edits the arena, unless that is refused, and leaves the options. -/
theorem wrapNode_child {i : ℕ} (hp : t.parentOf id = some p) (hi : t.childIndex p id = some i)
    (layout : Layout) :
    (t.wrapNode id layout).1.toArena =
        (if t.canWrap id then (wrapArena t.toArena id p i layout).1 else t.toArena) ∧
      (t.wrapNode id layout).1.options = t.options := by
  unfold wrapNode
  rw [contains_of_parentOf hp]
  cases t.canWrap id with
  | false => exact ⟨rfl, rfl⟩
  | true =>
    simp only [hp, Option.getD_some, hi, Bool.not_true, Bool.or_self, Bool.false_eq_true, if_false,
      if_true]
    obtain ⟨l, hl⟩ := raiseSplitWrapper_eq _ id _
    rw [hl]
    split
    · rw [setPendingFullscreen_eq]
      exact ⟨rfl, rfl⟩
    · exact ⟨rfl, rfl⟩

theorem idxOf?_around {x : NodeId} {A : List NodeId} (h : x ∉ A) (B : List NodeId) :
    (A ++ x :: B).idxOf? x = some A.length := by
  rw [idxOf?_eq_some_iff]
  refine ⟨by simp, by simp, fun k hk e => h ?_⟩
  rw [getElem_append_left hk] at e
  exact e ▸ List.getElem_mem _

/-- Where two leaves next to each other are listed. -/
theorem Placed.place (h : t.Placed target new new) (hok : t.toArena.Ok g ∅ E r) :
    ∃ p s A B, t.splitAt p = some s ∧ s.children = A ++ target :: new :: B ∧
      t.parentOf new = some p ∧ t.childIndex p target = some A.length ∧
      t.childIndex p new = some (A.length + 1) := by
  obtain ⟨p, A, B, e⟩ := h.beside
  obtain ⟨s, hs, -⟩ := splitAt_of_mem_children (n := p) (c := new) (by rw [← e]; simp)
  rw [children_of_splitAt hs, append_assoc] at e
  have e : s.children = A ++ target :: new :: B := e.symm
  have hnodup := (hok.sound hs).nodup
  rw [e, nodup_append] at hnodup
  obtain ⟨-, hnodup, hapart⟩ := hnodup
  have htarget : target ∉ A := fun hx => hapart _ hx target (by simp) rfl
  have hnew : new ∉ A ++ [target] := by
    have hne := (nodup_cons.mp hnodup).1
    simp only [mem_append, mem_singleton, not_or]
    refine ⟨fun hx => hapart _ hx new (by simp) rfl, ?_⟩
    rintro rfl
    simp at hne
  have hi := idxOf?_around hnew B
  simp only [append_assoc, cons_append, nil_append, length_append, length_singleton] at hi
  refine ⟨p, s, A, B, hs, e, hok.kid_parent (by rw [children_of_splitAt hs, e]; simp), ?_, ?_⟩
  · rw [childIndex, hs, Option.bind_some, e]
    exact idxOf?_around htarget _
  · rw [childIndex, hs, Option.bind_some, e, hi]

/-- A leaf among the children of the root can be wrapped. -/
theorem canWrap_leaf (hok : t.toArena.Ok g ∅ E r) (hid : id ∈ t.children t.root)
    (hleaf : t.children id = []) : t.canWrap id = true := by
  have hdepth := hok.nodeDepth_kid no_unlinked hid
  have hheight := hok.subtreeHeight_eq (hok.contains_kid hid)
  have hroot : t.nodeDepth t.root = 0 := by
    rw [(hok.climbs no_unlinked).nodeDepth_eq, hok.root_parent]
  rw [hleaf] at hheight
  refine decide_eq_true ?_
  simp [hdepth, hheight, hroot, maxTreeDepth]

theorem children_of_splitAt_none (h : t.splitAt id = none) : t.children id = [] := by
  simp [children, h]

/-- The new leaf in a container of its own. -/
theorem Placed.wrapNode (h : t.Placed target new new) (hok : t.toArena.Ok g ∅ ∅ r)
    (hroot : new ∈ t.children t.root) {layout : Layout} (hlayout : layout.isSplit = false) :
    (t.wrapNode new layout).1.Placed target new t.counter := by
  obtain ⟨p, s, A, B, hs, e, hp, -, hi⟩ := h.place hok
  obtain ⟨harena, -⟩ := wrapNode_child hp hi layout
  rw [if_pos (canWrap_leaf hok hroot (children_of_splitAt_none h.new_leaf))] at harena
  have hwraps := wraps_wrapArena hok hs (by simpa [childIndex, hs] using hi) layout
  have hsplit := hwraps.splitAt
  rw [← harena] at hsplit
  have hleaf : ∀ {x}, x ∈ s.children → t.splitAt x = none →
      (t.wrapNode new layout).1.splitAt x = none := fun hx hnone => by
    rw [hsplit, if_neg (hok.ne_counter (hok.contains_kid (children_of_splitAt hs ▸ hx))),
      if_neg (ne_of_splitAt hnone hs), hnone]
  refine ⟨⟨p, ?_⟩, hleaf (by simp [e]) h.target_leaf, hleaf (by simp [e]) h.new_leaf,
    .inr ⟨_, (hsplit _).trans (if_pos rfl), hlayout, rfl⟩⟩
  rw [children_of_splitAt ((hsplit p).trans
    ((if_neg (hok.ne_counter (contains_of_splitAt hs))).trans (if_pos rfl)))]
  refine ⟨A, B, ?_⟩
  simp [e]

theorem isSplit_wrapper {w : WorkspaceLayout} {layout : Layout}
    (h : WorkspaceLayout.wrapper w = some layout) : layout.isSplit = false := by
  cases w <;> cases h <;> rfl

/-- **The new leaf lands beside the target**, in a container of its own if it is wrapped. -/
theorem placed_insertLeaf (hok : t.toArena.Ok g ∅ ∅ r) (htarget : t.splitAt target = none)
    (hp : t.parentOf target = some p) (tile : Tile I) :
    ∃ next, (t.insertLeaf tile (p, some target)).1.Placed target t.counter next ∧
      (next ≠ t.counter ↔
        p = t.root ∧ WorkspaceLayout.wrapper t.options.workspaceLayout ≠ none) := by
  obtain ⟨s, hs, hmem⟩ := hok.split_of_parentOf hp
  obtain ⟨i, hi⟩ := exists_idxOf? hmem
  obtain ⟨A, B, hAB, rfl⟩ := exists_around_idxOf? hi
  set b := (t.alloc ⟨none, .leaf tile⟩).1 with hb
  set a := b.insertChild p t.counter (some target) with ha
  set u : TilingTree I := { t with toArena := a } with hu
  have hsb : b.splitAt p = some s := by
    rw [hb, splitAt_alloc_leaf, if_neg (hok.ne_counter (contains_of_splitAt hs)), hs]
  have hput : Puts b p t.counter s (insertedAt s t.counter (A.length + 1)) a := by
    rw [ha]
    unfold insertChild
    simp only [hsb, Option.bind_some, hi]
    exact puts_insertChildAt hsb ((contains_alloc _ _).mpr (.inl rfl)) _
  have hl : u.Placed target t.counter t.counter := by
    have hnone : ∀ {x}, t.splitAt x = none → u.splitAt x = none := fun hx => by
      rw [hput.splitAt, if_neg (ne_of_splitAt hx hs), hb, splitAt_alloc_leaf, hx, ite_self]
    refine ⟨⟨p, A, B, ?_⟩, hnone htarget, hnone ?_, .inl rfl⟩
    · have := insertIdx_around (A ++ [target]) B t.counter
      rw [children_of_splitAt ((hput.splitAt p).trans (if_pos rfl))]
      simpa [insertedAt, hAB] using this.symm
    · cases e : t.splitAt t.counter with
      | none => rfl
      | some s' => exact absurd rfl (hok.ne_counter (contains_of_splitAt e))
  have hins : t.insertLeaf tile (p, some target) = if p = u.root then
      (WorkspaceLayout.wrapper t.options.workspaceLayout).elim (u, t.counter) fun layout =>
        ((u.wrapNode t.counter layout).1, t.counter)
    else (u, t.counter) := by
    refine if_congr Iff.rfl ?_ rfl
    cases WorkspaceLayout.wrapper t.options.workspaceLayout <;> rfl
  rw [hins]
  split_ifs with hroot
  · have hroot : p = t.root := hroot.trans hput.root
    cases hlayout : WorkspaceLayout.wrapper t.options.workspaceLayout with
    | none => exact ⟨_, hl, iff_of_false (fun hne => hne rfl) fun hw => hw.2 rfl⟩
    | some layout =>
      have hok' := (Ok.addLeaf hok hs none tile (some target)).1
      obtain ⟨q, -, -, -, -, -, hq, -⟩ := hl.place hok'
      have hqr : q = u.root := by
        rw [show u.root = t.root from hput.root, ← hroot]
        refine Option.some.inj (hq.symm.trans ?_)
        rw [hput.parentOf, if_pos rfl]
      have hkid : t.counter ∈ u.children u.root := hqr ▸ hok'.mem_children hq
      refine ⟨_, hl.wrapNode hok' hkid (isSplit_wrapper hlayout), iff_of_true ?_ ⟨hroot, nofun⟩⟩
      exact (hok'.ne_counter (hok'.contains_kid hkid)).symm
  · exact ⟨_, hl, iff_of_false (fun hne => hne rfl) fun hw => hroot (hw.1.trans hput.root.symm)⟩

/-- **Adding a tile at a leaf lands it beside that leaf.** -/
theorem placed_addTile (h : Inv c ∅ t) (ht : (t.tile target).isSome)
    (hp : t.parentOf target = some p) (tile : Tile I) (activate : Bool) :
    ∃ next, (t.addTileWithActivation tile (.node target) activate).1.Placed target t.counter next ∧
      (next ≠ t.counter ↔
        p = t.root ∧ WorkspaceLayout.wrapper t.options.workspaceLayout ≠ none) := by
  have hslot : t.insertionSlot (.node target) = (p, some target) := by
    simp [insertionSlot, hp]
  have hleaf : t.splitAt target = none := by
    cases e : t.splitAt target with
    | none => rfl
    | some s => simp [tile_of_splitAt e] at ht
  rw [addTileWithActivation_eq]
  simp only [insertionSlot_clearForLeaf, hslot]
  set u := t.clearForLeaf.openForLeaf p t.fullscreenNode with hu
  have ha : u.toArena = t.toArena :=
    (toArena_openForLeaf (t := t.clearForLeaf) _ _).1.trans (toArena_clearForLeaf (t := t)).1
  have hopt : u.options = t.options := by
    have hclear : t.clearForLeaf.options = t.options := by
      unfold TilingTree.clearForLeaf
      simp only
      split <;> rfl
    rw [hu]
    unfold openForLeaf
    split
    · split <;> exact hclear
    · exact hclear
  have h1 : Inv c.calmed ∅ u := h.clearForLeaf.openForLeaf _ _
  obtain ⟨r, hok, -⟩ := h1.ok
  obtain ⟨next, hl, hnext⟩ := placed_insertLeaf hok (ha ▸ hleaf) (ha ▸ hp) tile
  obtain ⟨s, hs, -⟩ := hok.split_of_parentOf (ha ▸ hp)
  obtain ⟨h2, hid, -⟩ := h1.insertLeaf tile (p, some target) hs fun hd => by
    simpa [ha, hp] using h.deep_beside (some target) hd
  obtain ⟨r', hok', -⟩ := h2.ok
  rw [hid]
  rw [ha, hopt] at hnext
  rw [ha] at hl ⊢
  exact ⟨next, hl.settleLeaf hok' _ _ _ _ _, hnext⟩

/-! ## 4. The drop -/

/-- Whether an `expect` or `unreachable!` of `add_tile_at_drop` is reached. -/
def dropFails (t : TilingTree I) (tile : Tile I) (target : NodeId) (edge : ResizeEdge)
    (activate : Bool) : Bool :=
  !(t.tryAddTileAtDrop tile target edge activate).isOk

/-- Whether a drop that trades slots adds its leaf to the root, where the workspace layout wraps
    it: the target is a child of the root, and stays one. -/
def dropWraps (t : TilingTree I) (target : NodeId) (edge : ResizeEdge) : Bool :=
  (edge.left || edge.top) && (WorkspaceLayout.wrapper t.options.workspaceLayout).isSome &&
    t.parentOf target == some t.root &&
    (t.layoutOf t.root == some (dropLayout edge) || t.singletonSplitParent target == some t.root)

theorem Inv.exists_parentOf (h : Inv c ∅ t) (ht : (t.tile target).isSome) :
    ∃ p, t.parentOf target = some p := by
  obtain ⟨r, hok, -⟩ := h.ok
  obtain ⟨p, hp⟩ := hok.home (contains_of_isSome_tile ht) (by
    rintro rfl
    simp [hok.tile_root] at ht) (Set.notMem_empty target)
  exact ⟨p, hok.kid_parent hp⟩

/-- A target that is a child of the root after the split was one before, and was not wrapped. -/
theorem dropSplit_root (h : Inv c ∅ t) (ht : (t.tile target).isSome) (edge : ResizeEdge) :
    (t.dropSplit target edge).options = t.options ∧ (t.dropSplit target edge).root = t.root ∧
      ((t.dropSplit target edge).parentOf target = some t.root ↔ t.parentOf target = some t.root ∧
        (t.layoutOf t.root = some (dropLayout edge) ∨
          t.singletonSplitParent target = some t.root)) := by
  obtain ⟨hok, -⟩ := h.exact
  obtain ⟨p, hp⟩ := h.exists_parentOf ht
  unfold dropSplit
  rw [hp, Option.getD_some]
  split
  · rename_i hl
    refine ⟨rfl, rfl, fun hr => ?_, fun hr => hp.trans hr.1⟩
    cases hp.symm.trans hr
    exact ⟨rfl, .inl hl⟩
  rename_i hl
  have hroot := hok.ne_root_of_parentOf hp
  set u : TilingTree I := { t with interactiveResize := none, fullscreenTileSlot := false } with hu
  have hsplit : t.split target (dropLayout edge) = u.splitLeaf target (dropLayout edge) := by
    unfold TilingTree.split
    rw [if_neg fun hx => hroot hx.1]
    exact if_pos ht
  rw [hsplit]
  unfold splitLeaf
  cases hone : t.singletonSplitParent target with
  | some q =>
    have e : u.singletonSplitParent target = some q := hone
    have hq : q = p := Option.some.inj ((Option.filter_eq_some_iff.mp hone).1.symm.trans hp)
    rw [e]
    refine ⟨rfl, rfl, fun hr => ?_, fun hr => (parentOf_modifySplit _ _ _ _).trans
      (hp.trans hr.1)⟩
    have hr : t.parentOf target = some t.root := (parentOf_modifySplit _ _ _ _).symm.trans hr
    cases hp.symm.trans hr
    exact ⟨rfl, .inr (congrArg some hq)⟩
  | none =>
    have e : u.singletonSplitParent target = none := hone
    rw [e]
    obtain ⟨s, hs, hmem⟩ := hok.split_of_parentOf hp
    obtain ⟨i, hi⟩ := exists_idxOf? hmem
    have hi' : u.childIndex p target = some i := by simp [childIndex, hu, hs, hi]
    obtain ⟨harena, hopt⟩ := wrapNode_child (t := u) hp hi' (dropLayout edge)
    have hw := wraps_wrapArena hok hs hi (dropLayout edge)
    refine ⟨hopt, ?_, iff_of_false (fun hr => ?_) ?_⟩
    · rw [harena]
      split
      · exact hw.root
      · rfl
    · rw [harena] at hr
      split at hr
      · -- the parent is the new container
        have hpar := (hw.parentOf target).symm.trans hr
        rw [if_neg (hok.ne_counter (contains_of_parentOf hp)), if_pos (by simp)] at hpar
        exact hok.ne_counter hok.contains_root (Option.some.inj hpar).symm
      · rename_i hno
        cases hp.symm.trans hr
        obtain ⟨tile, htile⟩ := Option.isSome_iff_exists.mp ht
        exact hno (canWrap_leaf hok (children_of_splitAt hs ▸ hmem) (children_of_tile htile))
    · rintro ⟨hr, hlayout | hsingle⟩
      · exact hl (Option.some.inj hr ▸ hlayout)
      · cases hsingle

variable {s : Split} {A B : List NodeId}

/-- Two neighbours trade places. -/
theorem children_swapEntries {x y : NodeId} (hl : s.percents.length = s.children.length)
    (e : s.children = A ++ x :: y :: B) :
    (Split.swapEntries s A.length (A.length + 1)).children = A ++ y :: x :: B := by
  have hfirst : s.children[A.length]? = some x := by simp [e]
  have hsecond : s.children[A.length + 1]? = some y := by simp [e]
  have hlen : A.length + 1 < s.percents.length := by
    rw [hl, e]
    simp
  unfold Split.swapEntries
  rw [hfirst, hsecond, List.getElem?_eq_getElem (Nat.lt_of_succ_lt hlen),
    List.getElem?_eq_getElem hlen]
  simp [e]

/-- The two leaves trade their slots. -/
theorem Placed.trade (h : t.Placed target new new) (hok : t.toArena.Ok g ∅ E r)
    (hs : t.splitAt p = some s) (e : s.children = A ++ target :: new :: B) :
    ({ t with toArena := t.modifySplit p (Split.swapEntries · A.length (A.length + 1)) } :
      TilingTree I).Placed new target target := by
  have hsplit := splitAt_modifySplit_of (f := (Split.swapEntries · A.length (A.length + 1))) hs
  refine ⟨⟨p, A, B, ?_⟩, ?_, ?_, .inl rfl⟩
  · rw [children_of_splitAt ((hsplit p).trans (if_pos rfl)),
      children_swapEntries (hok.sound hs).lengths e]
    simp
  · exact (hsplit _).trans ((if_neg (ne_of_splitAt h.new_leaf hs)).trans h.new_leaf)
  · exact (hsplit _).trans ((if_neg (ne_of_splitAt h.target_leaf hs)).trans h.target_leaf)

section Drop

variable {tile : Tile I} {edge : ResizeEdge} {activate : Bool} (hc : t.contains target = true)
include hc

variable (tile activate) in
theorem tryAddTileAtDrop_after (he : (edge.left || edge.top) = false) :
    t.tryAddTileAtDrop tile target edge activate =
      .ok ((t.dropSplit target edge).addTileWithActivation tile (.node target) activate) := by
  unfold tryAddTileAtDrop
  simp only [hc, he, Bool.not_true, Bool.false_eq_true, if_false]

variable (he : (edge.left || edge.top) = true)
  (hu : (t.dropSplit target edge).addTileWithActivation tile (.node target) activate = (u, new))
  (hp : u.parentOf new = some p)
include he hu hp

theorem tryAddTileAtDrop_before {i j : ℕ} (hi : u.childIndex p target = some i)
    (hj : u.childIndex p new = some j) (hs : u.isSplit p = true) :
    t.tryAddTileAtDrop tile target edge activate =
      .ok ({ u with toArena := u.modifySplit p (Split.swapEntries · i j) }, new) := by
  unfold tryAddTileAtDrop
  simp only [hc, hu, hp, hi, hj, hs, he, Bool.not_true, Bool.false_eq_true, if_false, if_true]

theorem tryAddTileAtDrop_error (hi : u.childIndex p target = none) :
    t.tryAddTileAtDrop tile target edge activate = .error (u, new) := by
  unfold tryAddTileAtDrop
  simp only [hc, hu, hp, hi, he, Bool.not_true, Bool.false_eq_true, if_false, if_true]

end Drop

/-- A lone leaf is not beside the target. -/
theorem Placed.lone (h : t.Placed target new next) (hok : t.toArena.Ok g ∅ E r)
    (hnext : next ≠ new) (hne : target ≠ new) :
    t.parentOf new = some next ∧ t.childIndex next target = none := by
  obtain ⟨s, hs, -, hk⟩ := h.next_eq.resolve_left hnext
  refine ⟨hok.kid_parent (by simp [children_of_splitAt hs, hk]), ?_⟩
  rw [childIndex, hs, Option.bind_some, hk]
  simpa [idxOf?_eq_none_iff] using hne.symm

/-- The new leaf is in a container of its own exactly if the drop wraps it. -/
theorem dropWraps_iff (h : Inv c ∅ t) (ht : (t.tile target).isSome) {edge : ResizeEdge}
    (he : (edge.left || edge.top) = true)
    (hp : (t.dropSplit target edge).parentOf target = some p) :
    t.dropWraps target edge = true ↔ p = (t.dropSplit target edge).root ∧
      WorkspaceLayout.wrapper (t.dropSplit target edge).options.workspaceLayout ≠ none := by
  obtain ⟨hopt, hroot, hback⟩ := dropSplit_root h ht edge
  rw [hp, Option.some.injEq] at hback
  rw [hroot, hopt, hback]
  simp only [dropWraps, he, Bool.true_and, Bool.and_eq_true, Bool.or_eq_true, beq_iff_eq,
    Option.isSome_iff_ne_none]
  rw [and_assoc, and_comm]

/-- **A drop finds the slots it trades exactly if it is not wrapped away**; the tree then stays well
    formed, has one window more, and the new leaf comes right before the target at a left or top
    edge, right after it at another one. -/
theorem addTileAtDrop_places (t : TilingTree I) (h : t.WellFormed) (tile : Tile I)
    (target : NodeId) (ht : (t.tile target).isSome) (edge : ResizeEdge) (activate : Bool) :
    (t.dropFails tile target edge activate = false ∧
      let x := t.addTileAtDrop tile target edge activate
      x.1.WellFormed ∧ x.1.held.Perm (tile.window :: t.held) ∧
        (if edge.left || edge.top then [x.2, target] else [target, x.2]) <:+:
          x.1.leafIdsIn x.1.root) ↔
      t.dropWraps target edge = false := by
  have hinv := h.inv
  have hc := contains_of_isSome_tile ht
  set u := t.dropSplit target edge with hu
  have hinvu : Inv (World.ctx False False t) ∅ u :=
    Inv.ite (fun _ => hinv) fun _ => (hinv.split _ _).uncalm
  have htu : (u.tile target).isSome := hinvu.windows_isSome.mp (hinv.windows_isSome.mpr ht)
  obtain ⟨p, hp⟩ := hinvu.exists_parentOf htu
  obtain ⟨next, hl, hnext⟩ := placed_addTile hinvu htu hp tile activate
  obtain ⟨hinvv, hid⟩ := hinvu.addTileBeside tile target activate not_false
  set v := (u.addTileWithActivation tile (.node target) activate).1 with hv
  have hadd : u.addTileWithActivation tile (.node target) activate = (v, u.counter) :=
    Prod.ext rfl hid
  obtain ⟨r, hok, -⟩ := hinvv.ok
  have htarget : (v.tile target).isSome := hinvv.windows_isSome.mp (by
    simp only [Ctx.calmed, Ctx.learn]
    split
    · rfl
    · exact hinvu.windows_isSome.mpr htu)
  have hnew : (v.tile u.counter).isSome := hinvv.windows_isSome.mp (by simp [Ctx.calmed, Ctx.learn])
  obtain ⟨hx, hfree⟩ := hinv.addTileAtDrop tile target edge activate not_false
  have hwf := hx.wellFormed rfl trivial trivial rfl
  have hperm := (hinv.after_learn hfree hx).2
  rw [append_nil] at hperm
  have hheld := hperm.symm.trans (perm_append_singleton _ _)
  cases he : edge.left || edge.top with
  | false =>
    have htry := tryAddTileAtDrop_after tile activate hc he
    refine iff_of_true ?_ (by simp [dropWraps, he])
    unfold addTileAtDrop dropFails at *
    rw [htry, ← hu, hadd] at hwf hheld ⊢
    exact ⟨rfl, hwf, hheld, hl.infix_leafIdsIn hok htarget hnew⟩
  | true =>
    have hwraps : t.dropWraps target edge = true ↔ next ≠ u.counter :=
      (dropWraps_iff hinv ht he hp).trans hnext.symm
    by_cases hlone : next = u.counter
    · refine iff_of_true ?_ (Bool.eq_false_iff.mpr fun hw => hwraps.mp hw hlone)
      rw [hlone] at hl
      obtain ⟨q, s, A, B, hs, e, hq, hi, hj⟩ := hl.place hok
      have htry := tryAddTileAtDrop_before hc he hadd hq hi hj (by simp [Arena.isSplit, hs])
      unfold addTileAtDrop dropFails at *
      rw [htry] at hwf hheld ⊢
      refine ⟨rfl, hwf, hheld, ?_⟩
      obtain ⟨r', hok'⟩ := hwf.arena.ok
      exact (hl.trade hok hs e).infix_leafIdsIn hok' (by simpa using hnew) (by simpa using htarget)
    · refine iff_of_false (fun hplaces => ?_) (by rw [hwraps.mpr hlone]; exact Bool.noConfusion)
      obtain ⟨_, huok, -⟩ := hinvu.ok
      have hne := huok.ne_counter (contains_of_isSome_tile htu)
      obtain ⟨hparent, hnone⟩ := hl.lone hok hlone hne
      have hfails := hplaces.1
      unfold dropFails at hfails
      rw [tryAddTileAtDrop_error hc he hadd hparent hnone] at hfails
      cases hfails

theorem addTileAtDrop_places_left :
    (workspaceTree 0).dropFails { window := 11 } 2 { left := true } true = false ∧
      let x := (workspaceTree 0).addTileAtDrop { window := 11 } 2 { left := true } true
      x.1.WellFormed ∧ x.1.held.Perm (11 :: (workspaceTree 0).held) ∧
        [x.2, 2] <:+: x.1.leafIdsIn x.1.root :=
  (addTileAtDrop_places (workspaceTree 0) (wellFormed_workspaceTree (by decide +kernel))
    { window := 11 } 2 (by decide +kernel) { left := true } true).mpr (by decide +kernel)

/-- A workspace whose layout is set to tabbed while windows are open. -/
def tabbedTree : TilingTree ℕ :=
  { workspaceTree 0 with options := { (workspaceTree 0).options with workspaceLayout := .tabbed } }

/-- A drop on the left half of a window at the root: the new leaf goes into a tabbed container, and
    the window is not found beside it. -/
theorem tabbedTree_drop_fails : tabbedTree.WellFormed ∧ (tabbedTree.tile 2).isSome ∧
    tabbedTree.dropFails { window := 11 } 2 { left := true } true = true := by
  have h := wellFormed_workspaceTree (i := 0) (by decide +kernel)
  refine ⟨⟨h.arena, ⟨h.tables.focus_none, h.tables.focus, h.tables.history, h.tables.names,
    h.tables.marked⟩, ⟨h.modes.one, h.modes.leaf⟩⟩, by decide +kernel, by decide +kernel⟩

end TilingTree

end Swayward
