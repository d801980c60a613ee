/-
  File:      Swayward/Tree/Invariant.lean
  Subject:   THE INVARIANT OF A TILING TREE, in parts that can be in force or not.

  `Inv c E t` says what holds of the tree `t` between two steps of an operation:

  * the arena is a tree (`Arena.Ok`), of bounded depth;
  * the leaves are exactly those that `c.windows` lists, with their windows;
  * `Side` -- every identifier in a side table names a node;
  * `Modes` -- at most one node is fullscreen, only leaves are maximized;
  * the focus is set exactly when there is a window;
  * `Marks` -- leaves are marked as mapped or moved under fullscreen only while a node is;
  * no resize session is open.

  The context `c` says which of the parts are in force. One operation of the code can break the
  first, and in the middle of an operation others are suspended. A lemma that holds for every `c`
  serves them all.
-/
import Swayward.Tree.Walks

namespace Swayward

variable {I : Type}

open Forest Arena List
open FinMap (mem_iff_lookup lookup_erase_eq)

/-- Which parts of the invariant are in force. -/
structure Ctx (I : Type) where
  /-- no empty split besides the root, proper shares -/
  full : Prop
  /-- side tables and modes -/
  side : Prop
  /-- the depth bound -/
  deep : Prop
  /-- focus exactly when there is a window -/
  awake : Prop
  /-- marks only under fullscreen -/
  marks : Prop
  /-- no marks at all -/
  bare : Prop
  /-- no resize session -/
  calm : Prop
  /-- the leaves and their windows -/
  windows : NodeId → Option I
  /-- nodes the focus may still name although they are gone -/
  hole : Set NodeId
  awake_full : awake → full
  awake_side : awake → side
  marks_full : marks → full
  marks_side : marks → side

theorem Ctx.full_of_false (c : Ctx I) : False → c.full := False.elim

theorem Ctx.side_of_false (c : Ctx I) : False → c.side := False.elim

/-- A tile without what the last size request has written into it. -/
def Tile.plain (tile : Tile I) : Tile I := { tile with pendingSizingMode := .normal }

theorem Tile.window_of_plain {o o' : Option (Tile I)} (h : o.map plain = o'.map plain) :
    o.map (·.window) = o'.map (·.window) := by
  have := congrArg (Option.map (·.window)) h
  simpa only [Option.map_map, Function.comp_def, plain] using this

namespace TilingTree

variable (t : TilingTree I)

/-! ## 1. The parts -/

/-- The identifiers in the side tables, leaf marks apart. -/
def Names (n : NodeId) : Prop :=
  n ∈ t.focusHistory ∨ n ∈ t.ipcStaleNodes ∨ n ∈ t.lastEnteredBy ∨
    (∃ k, t.lastEnteredBy.lookup k = some n) ∨ n ∈ t.pendingModes ∨
    n ∈ t.fullscreenLayoutWrappers ∨ n ∈ t.preLayoutIpcRects

/-- The leaves marked as mapped or moved while a node was fullscreen. -/
def Marked (n : NodeId) : Prop :=
  n ∈ t.mappedUnderFullscreen ∨ n ∈ t.movedUnderFullscreen

structure Side (H : Set NodeId) (t : TilingTree I) : Prop where
  focus : ∀ f, t.focus = some f → t.contains f = true ∨ f ∈ H
  names : ∀ n, t.Names n → t.contains n = true
  marked : ∀ n, t.Marked n → (t.tile n).isSome
  history : t.focusHistory.Nodup

/-- At most one node outside `N` is fullscreen, and only leaves are maximized. -/
structure Modes (N : Set NodeId) (t : TilingTree I) : Prop where
  one : ∀ m n, m ∉ N → n ∉ N → (t.fullscreenMode m).isSome → (t.fullscreenMode n).isSome → m = n
  leaf : ∀ n mode, t.pendingModes.lookup n = some mode → mode.maximized = true →
    (t.tile n).isSome

/-- While no node is fullscreen there are no marks. -/
def Marks : Prop :=
  (∀ n, t.fullscreenMode n = none) → ∀ n, ¬ t.Marked n

/-- Every fullscreen node but the root holds a leaf. -/
def Held : Prop :=
  ∀ n, (t.fullscreenMode n).isSome → n = t.root ∨
    ∃ m, Below t.children n m ∧ (t.tile m).isSome

structure Inv (c : Ctx I) (E : Set NodeId) (t : TilingTree I) : Prop where
  ok : ∃ r, t.toArena.Ok c.full ∅ E r ∧ (c.deep → ∀ n, t.contains n = true → r n ≤ maxTreeDepth)
  tiles : ∀ n, (t.tile n).map (·.window) = c.windows n
  side : c.side → t.Side c.hole
  modes : c.side → t.Modes ∅
  awake : c.awake → (t.focus.isSome ↔ ∃ n, (c.windows n).isSome)
  marks : c.marks → t.Marks
  bare : c.bare → ∀ n, ¬ t.Marked n
  calm : c.calm → t.interactiveResize = none

variable {c : Ctx I} {E : Set NodeId} {t : TilingTree I} {H N : Set NodeId} {id : NodeId}
variable {n : NodeId} {E' : Set NodeId} {l : List NodeId}

theorem no_unlinked (n : NodeId) (hn : n ∈ (∅ : Set NodeId)) : t.parentOf n = none := hn.elim

theorem Side.mode (h : t.Side H) (hn : n ∈ t.pendingModes) : t.contains n = true :=
  h.names n (.inr (.inr (.inr (.inr (.inl hn)))))

theorem Side.wrapper (h : t.Side H) (hn : n ∈ t.fullscreenLayoutWrappers) : t.contains n = true :=
  h.names n (.inr (.inr (.inr (.inr (.inr (.inl hn))))))

theorem Side.rect (h : t.Side H) (hn : n ∈ t.preLayoutIpcRects) : t.contains n = true :=
  h.names n (.inr (.inr (.inr (.inr (.inr (.inr hn))))))

/-- Other modes, wrappers and boxes. -/
theorem Side.retable {u : TilingTree I} (h : t.Side H) (hn : u.Names n)
    (e : u.focusHistory = t.focusHistory ∧ u.ipcStaleNodes = t.ipcStaleNodes ∧
      u.lastEnteredBy = t.lastEnteredBy)
    (hmode : n ∈ u.pendingModes → t.contains n = true)
    (hwrapper : n ∈ u.fullscreenLayoutWrappers → t.contains n = true)
    (hrect : n ∈ u.preLayoutIpcRects → t.contains n = true) : t.contains n = true := by
  obtain ⟨hhistory, hstale, hentered⟩ := e
  rcases hn with hn | hn | hn | hn | hn | hn | hn
  · exact h.names n (.inl (hhistory ▸ hn))
  · exact h.names n (.inr (.inl (hstale ▸ hn)))
  · exact h.names n (.inr (.inr (.inl (hentered ▸ hn))))
  · exact h.names n (.inr (.inr (.inr (.inl (hentered ▸ hn)))))
  · exact hmode hn
  · exact hwrapper hn
  · exact hrect hn

section

variable {a' : Arena I} (htile : ∀ n, a'.tile n = t.tile n)
include htile

theorem Side.over (h : t.Side H) (hcon : ∀ n, t.contains n = true → a'.contains n = true) :
    ({ t with toArena := a' } : TilingTree I).Side H :=
  ⟨fun f hf => (h.focus f hf).imp_left (hcon f), fun n hn => hcon n (h.names n hn),
    fun n hn => (congrArg Option.isSome (htile n)).trans (h.marked n hn), h.history⟩

theorem Modes.over (h : t.Modes N) : ({ t with toArena := a' } : TilingTree I).Modes N :=
  ⟨h.one, fun n mode hn hmax =>
    (congrArg Option.isSome (htile n)).trans (h.leaf n mode hn hmax)⟩

end

/-! ## 2. Setting the focus -/

@[simp] theorem focus_setFocusId (o : Option NodeId) : (t.setFocusId o).focus = o := by
  cases o <;> rfl

@[simp] theorem toArena_setFocusId (o : Option NodeId) : (t.setFocusId o).toArena = t.toArena := by
  cases o <;> rfl

/-- The history after focusing `id`. -/
theorem mem_focusHistory_setFocusId (n : NodeId) :
    n ∈ (t.setFocusId (some id)).focusHistory ↔
      n = id ∨ n ∈ t.raisedAncestors id ∨ n ∈ t.focusHistory := by
  simp only [setFocusId, mem_cons, mem_append, mem_reverse, mem_filter,
    Bool.and_eq_true, bne_iff_ne, Bool.not_eq_true', contains_eq_mem, decide_eq_false_iff_not]
  tauto

theorem nodup_focusHistory_setFocusId {r : NodeId → ℕ} (hc : Climbs r t.toArena)
    (h : t.focusHistory.Nodup) : (t.setFocusId (some id)).focusHistory.Nodup := by
  have hsub : (t.raisedAncestors id).Sublist (t.ancestors id) := takeWhile_sublist _
  have hraised : (t.raisedAncestors id).Nodup := (hc.nodup_ancestors id).sublist hsub
  have hid : id ∉ t.raisedAncestors id := fun hm =>
    lt_irrefl _ (hc.rank_ancestors (hsub.subset hm))
  simp only [setFocusId, nodup_cons, nodup_append', mem_append, mem_reverse,
    mem_filter, Bool.and_eq_true, bne_iff_ne]
  refine ⟨?_, nodup_reverse.mpr hraised, h.filter _, ?_⟩
  · rintro (hm | ⟨-, hne, -⟩)
    · exact hid hm
    · exact hne rfl
  · intro x hx hx'
    simp only [mem_reverse, mem_filter, Bool.and_eq_true, Bool.not_eq_true',
      contains_eq_mem, decide_eq_false_iff_not] at hx hx'
    exact hx'.2.2 hx

/-- What the side tables name after focusing `id`. -/
theorem names_setFocusId (h : (t.setFocusId (some id)).Names n) :
    n = id ∨ n ∈ t.raisedAncestors id ∨ t.Names n := by
  rcases h with h | h | h | ⟨k, h⟩ | h
  · rcases (mem_focusHistory_setFocusId n).mp h with h | h | h
    · exact .inl h
    · exact .inr (.inl h)
    · exact .inr (.inr (.inl h))
  · exact .inr (.inr (.inr (.inl (Finset.mem_filter.mp h).1)))
  · rw [mem_iff_lookup] at h
    obtain ⟨v, h⟩ := h
    simp only [setFocusId] at h
    split at h
    · rw [FinMap.lookup_foldl_insert] at h
      split at h
      · exact .inr (.inl (by assumption))
      · exact .inr (.inr (.inr (.inr (.inl (mem_iff_lookup.mpr ⟨v, h⟩)))))
    · exact .inr (.inr (.inr (.inr (.inl (mem_iff_lookup.mpr ⟨v, h⟩)))))
  · simp only [setFocusId] at h
    split at h
    · rw [FinMap.lookup_foldl_insert] at h
      split at h
      · exact .inl (Option.some.inj h).symm
      · exact .inr (.inr (.inr (.inr (.inr (.inl ⟨k, h⟩)))))
    · exact .inr (.inr (.inr (.inr (.inr (.inl ⟨k, h⟩)))))
  · exact .inr (.inr (.inr (.inr (.inr (.inr h)))))

theorem Side.setFocusId {r : NodeId → ℕ} (h : t.Side H) (hc : Climbs r t.toArena)
    (hid : t.contains id = true) : (t.setFocusId (some id)).Side ∅ where
  focus f hf := by
    cases hf
    exact .inl hid
  names n hn := by
    rcases names_setFocusId hn with rfl | hn | hn
    · exact hid
    · exact hc.contains_ancestors ((takeWhile_sublist _).subset hn)
    · exact h.names n hn
  marked := h.marked
  history := nodup_focusHistory_setFocusId hc h.history

/-! ## 3. Removing a node -/

theorem erases_removeNode (t : TilingTree I) (id : NodeId) :
    Erases [id] t.toArena (t.removeNode id).toArena := by
  unfold removeNode
  by_cases hc : t.contains id = true
  · simp only [hc, if_true]
    refine ⟨fun n => ?_, rfl, rfl⟩
    simpa [Arena.get] using lookup_erase_eq t.nodes id n
  · simp only [hc, if_false, Bool.false_eq_true]
    refine ⟨fun n => ?_, rfl, rfl⟩
    by_cases e : n = id
    · subst e
      simpa [Arena.contains] using hc
    · simp [e]

@[simp] theorem focus_removeNode : (t.removeNode id).focus = t.focus := by
  unfold removeNode
  split <;> rfl

@[simp] theorem interactiveResize_removeNode :
    (t.removeNode id).interactiveResize = t.interactiveResize := by
  unfold removeNode
  split <;> rfl

section

variable (hid : t.contains id = true)
include hid

theorem lookup_pendingModes_removeNode (n : NodeId) :
    (t.removeNode id).pendingModes.lookup n =
      if n = id then none else t.pendingModes.lookup n := by
  simp only [removeNode, hid, if_true]
  exact lookup_erase_eq _ _ _

theorem fullscreenMode_removeNode (n : NodeId) :
    (t.removeNode id).fullscreenMode n = if n = id then none else t.fullscreenMode n := by
  unfold fullscreenMode
  rw [lookup_pendingModes_removeNode hid]
  by_cases e : n = id <;> simp [e]

/-- The tables forget the node. -/
theorem names_removeNode (h : (t.removeNode id).Names n) : t.Names n ∧ n ≠ id := by
  simp only [removeNode, hid, if_true, Names, mem_filter, bne_iff_ne, Finset.mem_erase,
    AList.mem_erase, FinMap.lookup_retain, lookup_erase_eq] at h
  rcases h with h | h | h | ⟨k, h⟩ | h | h | h
  · exact ⟨.inl h.1, h.2⟩
  · exact ⟨.inr (.inl h.2), h.1⟩
  · have := AList.mem_erase.mp (FinMap.mem_of_mem_retain h)
    exact ⟨.inr (.inr (.inl this.2)), this.1⟩
  · obtain ⟨hk, hne⟩ := Option.filter_eq_some_iff.mp h
    split at hk
    · cases hk
    · exact ⟨.inr (.inr (.inr (.inl ⟨k, hk⟩))), by simpa using hne⟩
  · exact ⟨.inr (.inr (.inr (.inr (.inl h.2)))), h.1⟩
  · exact ⟨.inr (.inr (.inr (.inr (.inr (.inl h.2))))), h.1⟩
  · exact ⟨.inr (.inr (.inr (.inr (.inr (.inr h.2))))), h.1⟩

theorem marked_removeNode (h : (t.removeNode id).Marked n) : t.Marked n ∧ n ≠ id := by
  simp only [removeNode, hid, if_true, Marked, Finset.mem_erase, AList.mem_erase] at h
  rcases h with h | h
  · exact ⟨.inl h.2, h.1⟩
  · exact ⟨.inr h.2, h.1⟩

end

theorem Side.removeNode (h : t.Side H) (hid : t.contains id = true)
    (hf : t.focus = some id → id ∈ H) : (t.removeNode id).Side H where
  focus f hf' := by
    rw [focus_removeNode] at hf'
    by_cases e : f = id
    · exact .inr (e ▸ hf (e ▸ hf'))
    · exact (h.focus f hf').imp_left fun hc =>
        ((erases_removeNode t id).contains f).mpr ⟨hc, by simpa using e⟩
  names n hn := by
    obtain ⟨hn, hne⟩ := names_removeNode hid hn
    exact ((erases_removeNode t id).contains n).mpr ⟨h.names n hn, by simpa using hne⟩
  marked n hn := by
    obtain ⟨hn, hne⟩ := marked_removeNode hid hn
    rw [(erases_removeNode t id).tile]
    simpa [hne] using h.marked n hn
  history := by
    simp only [TilingTree.removeNode, hid, if_true]
    exact h.history.filter _

theorem Modes.removeNode (h : t.Modes (insert id N)) (hid : t.contains id = true) :
    (t.removeNode id).Modes N where
  one m n hm hn hm' hn' := by
    rw [fullscreenMode_removeNode hid] at hm' hn'
    by_cases em : m = id
    · simp [em] at hm'
    by_cases en : n = id
    · simp [en] at hn'
    · refine h.one m n (by simp [em, hm]) (by simp [en, hn]) ?_ ?_
      · simpa [em] using hm'
      · simpa [en] using hn'
  leaf n mode hn hmax := by
    rw [lookup_pendingModes_removeNode hid] at hn
    by_cases e : n = id
    · simp [e] at hn
    · rw [(erases_removeNode t id).tile]
      simpa [e] using h.leaf n mode (by simpa [e] using hn) hmax

/-- There is one fullscreen node. -/
theorem Modes.eq {m : NodeId} (h : t.Modes ∅) (hm : (t.fullscreenMode m).isSome)
    (hn : (t.fullscreenMode n).isSome) : m = n :=
  h.one m n (Set.notMem_empty m) (Set.notMem_empty n) hm hn

theorem Modes.mono {M : Set NodeId} (h : t.Modes N) (hM : N ⊆ M) : t.Modes M :=
  { h with one := fun m n hm hn => h.one m n (fun hx => hm (hM hx)) fun hx => hn (hM hx) }

/-! ## 4. Pending modes -/

theorem lookup_setPendingFullscreen (m : Option FullscreenMode) (n : NodeId) :
    (t.setPendingFullscreen id m).pendingModes.lookup n =
      if n = id ∧ (m.isSome ∨ id ∈ t.pendingModes) then
        some { (t.pendingModes.lookup id).getD {} with fullscreen := m }
      else t.pendingModes.lookup n := by
  unfold setPendingFullscreen
  cases e : t.pendingModes.lookup id with
  | some mode =>
    have : id ∈ t.pendingModes := mem_iff_lookup.mpr ⟨mode, e⟩
    simp only [FinMap.lookup_insert_eq, this, or_true, and_true, Option.getD_some]
  | none =>
    have : id ∉ t.pendingModes := fun h => by
      obtain ⟨v, hv⟩ := mem_iff_lookup.mp h
      rw [e] at hv
      cases hv
    cases m with
    | none => simp [this]
    | some m => simp [FinMap.lookup_insert_eq]

/-- **What `setPendingFullscreen` sets.** -/
theorem fullscreenMode_setPendingFullscreen (m : Option FullscreenMode) (n : NodeId) :
    (t.setPendingFullscreen id m).fullscreenMode n =
      if n = id then m else t.fullscreenMode n := by
  unfold fullscreenMode
  rw [lookup_setPendingFullscreen]
  by_cases e : n = id
  · subst e
    by_cases hm : m.isSome ∨ n ∈ t.pendingModes
    · simp [hm]
    rw [not_or, mem_iff_lookup] at hm
    have hnone : t.pendingModes.lookup n = none := by
      cases e : t.pendingModes.lookup n with
      | none => rfl
      | some v => exact absurd ⟨v, e⟩ hm.2
    have hm' : m = none := by simpa using hm.1
    simp [hnone, hm']
  · simp [e]

theorem mem_pendingModes_setPendingFullscreen {m : Option FullscreenMode}
    (h : n ∈ (t.setPendingFullscreen id m).pendingModes) : n = id ∨ n ∈ t.pendingModes := by
  rw [mem_iff_lookup, lookup_setPendingFullscreen] at h
  obtain ⟨v, h⟩ := h
  split at h
  · exact .inl (by simp_all)
  · exact .inr (mem_iff_lookup.mpr ⟨v, h⟩)

/-- Everything but the pending modes stays. -/
theorem setPendingFullscreen_eq (m : Option FullscreenMode) :
    t.setPendingFullscreen id m =
      { t with pendingModes := (t.setPendingFullscreen id m).pendingModes } := by
  unfold setPendingFullscreen
  split
  · rfl
  · split <;> rfl

/-- Other modes whose maximized entries are old ones. -/
theorem Side.withModes {modes : FinMap NodeId PendingMode} (h : t.Side H)
    (hm : ∀ n, n ∈ modes → t.contains n = true) :
    ({ t with pendingModes := modes } : TilingTree I).Side H where
  focus := h.focus
  names n hn := h.retable hn ⟨rfl, rfl, rfl⟩ (hm n) h.wrapper h.rect
  marked := h.marked
  history := h.history

theorem Side.setPendingFullscreen (h : t.Side H) (hid : t.contains id = true)
    (m : Option FullscreenMode) : (t.setPendingFullscreen id m).Side H := by
  rw [setPendingFullscreen_eq]
  refine h.withModes fun n hn => ?_
  rcases mem_pendingModes_setPendingFullscreen hn with rfl | hn
  · exact hid
  · exact h.mode hn

/-- The maximized flags are not touched. -/
theorem leaf_setPendingFullscreen (h : t.Modes N) (m : Option FullscreenMode) (n : NodeId)
    (mode : PendingMode) (hn : (t.setPendingFullscreen id m).pendingModes.lookup n = some mode)
    (hmax : mode.maximized = true) : (t.tile n).isSome := by
  rw [lookup_setPendingFullscreen] at hn
  split_ifs at hn with hc
  · cases hn
    cases e : t.pendingModes.lookup id with
    | none => simp [e] at hmax
    | some old => exact h.leaf n old (by rw [hc.1, e]) (by simpa [e] using hmax)
  · exact h.leaf n mode hn hmax

/-! ## 5. What the invariant does not read -/

/-- The tree with everything reset that the invariant does not read. -/
def core (t : TilingTree I) : TilingTree I :=
  { t with
    hasHadTile := false
    emptyRepresentationLayout := none
    ipcFocusFollowsHistory := false
    fullscreenTileSlot := false
    fullscreenArrived := false
    viewSize := {}
    parentArea := {}
    gapsToEdge := false
    residentRoot := false
    scale := 1
    titlebarHeight := 0
    options := {}
    gaps := 0
    preservedAutoLayout := none }

theorem inv_core : Inv c E t.core ↔ Inv c E t :=
  ⟨fun h => { h with side := fun hs => { h.side hs with }, modes := fun hs => { h.modes hs with } },
    fun h => { h with side := fun hs => { h.side hs with }, modes := fun hs => { h.modes hs with } }⟩

/-- Changing what is not read keeps the invariant. -/
theorem Inv.of_core {t' : TilingTree I} (h : Inv c E t) (e : t'.core = t.core) : Inv c E t' := by
  rw [← inv_core, e, inv_core]
  exact h

theorem Inv.ite {P : Prop} [Decidable P] {u v : TilingTree I} (hu : P → Inv c E u)
    (hv : ¬ P → Inv c E v) : Inv c E (if P then u else v) := by
  split
  · exact hu (by assumption)
  · exact hv (by assumption)

/-- The same for an operation that also returns a value. -/
theorem Inv.ite_fst {α : Type*} {P : Prop} [Decidable P] {x y : TilingTree I × α}
    (hx : P → Inv c E x.1) (hy : ¬ P → Inv c E y.1) : Inv c E (if P then x else y).1 := by
  split
  · exact hx ‹_›
  · exact hy ‹_›

/-! ## 6. The primitive steps keep the invariant -/

section

variable (h : Inv c E t)
include h

theorem Inv.climbs : ∃ r, Climbs r t.toArena := by
  obtain ⟨r, hok, -⟩ := h.ok
  exact ⟨r, hok.climbs no_unlinked⟩

theorem Inv.mono (hE : E ⊆ E') : Inv c E' t := by
  obtain ⟨r, hok, hdeep⟩ := h.ok
  exact { h with ok := ⟨r, hok.mono hE, hdeep⟩ }

/-- The depths themselves can serve as ranks. -/
theorem Inv.exact : t.toArena.Ok c.full ∅ E t.nodeDepth ∧
    (c.deep → ∀ n, t.contains n = true → t.nodeDepth n ≤ maxTreeDepth) := by
  obtain ⟨r, hok, hdeep⟩ := h.ok
  exact ⟨hok.exact no_unlinked, fun hd n hn =>
    ((hok.climbs no_unlinked).nodeDepth_le n).trans (hdeep hd n hn)⟩

/-- **An edit of the arena that keeps the tiles and loses no node.** -/
theorem Inv.edit {a' : Arena I}
    (hok : ∃ r, Ok c.full ∅ E' r a' ∧ (c.deep → ∀ n, a'.contains n = true → r n ≤ maxTreeDepth))
    (htile : ∀ n, a'.tile n = t.tile n) (hcon : ∀ n, t.contains n = true → a'.contains n = true) :
    Inv c E' { t with toArena := a' } := { h with
  ok := hok
  tiles n := (congrArg (Option.map (·.window)) (htile n)).trans (h.tiles n)
  side hs := (h.side hs).over htile hcon
  modes hs := (h.modes hs).over htile }

/-- An edit of one split that keeps its members. -/
theorem Inv.modifySplit {p : NodeId} {f : Split → Split}
    (hf : ∀ s, t.splitAt p = some s → s.Sound c.full →
      (f s).children.Perm s.children ∧ (f s).Sound c.full) :
    Inv c E { t with toArena := t.modifySplit p f } := by
  obtain ⟨r, hok, hdeep⟩ := h.ok
  refine h.edit ⟨r, hok.rearrange fun s hs => hf s hs (hok.sound hs), fun hd n hn => ?_⟩
    (tile_modifySplit _ _ · _) (fun n hn => (contains_modifySplit _ _ _ _).trans hn)
  exact hdeep hd n ((contains_modifySplit _ _ _ _).symm.trans hn)

/-- **Focusing a node.** -/
theorem Inv.setFocusId (hid : c.side → t.contains id = true)
    (hw : c.awake → ∃ n, (c.windows n).isSome) : Inv c E (t.setFocusId (some id)) := { h with
  side hs := by
    obtain ⟨r, hc⟩ := h.climbs
    have hside := (h.side hs).setFocusId hc (hid hs)
    exact { hside with focus := fun f hf => .inl ((hside.focus f hf).resolve_right (Set.notMem_empty f)) }
  modes hs := { h.modes hs with }
  awake ha := by simpa [TilingTree.setFocusId] using hw ha }

/-- Another order of the history. -/
theorem Inv.withHistory (hl : c.side → (∀ n ∈ l, t.contains n = true) ∧ l.Nodup) :
    Inv c E { t with focusHistory := l } := { h with
  side hs := by
    have hside := h.side hs
    refine ⟨hside.focus, fun n hn => ?_, hside.marked, (hl hs).2⟩
    rcases hn with hn | hn
    · exact (hl hs).1 n hn
    · exact hside.names n (.inr hn)
  modes hs := { h.modes hs with } }

/-- A focus that the history does not record. -/
theorem Inv.putFocus (hid : t.contains id = true) (hw : c.awake → ∃ n, (c.windows n).isSome) :
    Inv c E { t with focus := some id } := { h with
  side hs := { h.side hs with focus := fun _ hf => .inl (Option.some.inj hf ▸ hid) }
  modes hs := { h.modes hs with }
  awake ha := iff_of_true rfl (hw ha) }

/-- One more stale node. -/
theorem Inv.markStale (hid : t.contains id = true) :
    Inv c E { t with ipcStaleNodes := insert id t.ipcStaleNodes } := { h with
  side hs := by
    have hside := h.side hs
    refine ⟨hside.focus, fun n hn => ?_, hside.marked, hside.history⟩
    rcases hn with hn | hn | hn
    · exact hside.names n (.inl hn)
    · rcases Finset.mem_insert.mp hn with rfl | hn
      · exact hid
      · exact hside.names n (.inr (.inl hn))
    · exact hside.names n (.inr (.inr hn))
  modes hs := { h.modes hs with } }

/-- Another resize session. -/
theorem Inv.withSession {session : Option (InteractiveResize I)} (hcalm : c.calm → session = none) :
    Inv c E { t with interactiveResize := session } := { h with
  side hs := { h.side hs with }
  modes hs := { h.modes hs with }
  calm := hcalm }

theorem Inv.focus_some {f : NodeId} (hf : t.focus = some f) :
    c.awake → ∃ n, (c.windows n).isSome := fun ha => (h.awake ha).mp (by simp [hf])

/-- Splits that turn out not to be empty need not be allowed to be. -/
theorem Inv.shrink
    (hE : c.full → ∀ p ∈ E, p ∉ E' → ∀ s, t.splitAt p = some s → p ≠ t.root → s.children ≠ []) :
    Inv c E' t := by
  obtain ⟨r, hok, hdeep⟩ := h.ok
  refine { h with ok := ⟨r, { hok with full := fun hg p s hs hr hp => ?_ }, hdeep⟩ }
  by_cases hpE : p ∈ E
  · exact hE hg p hpE hp s hs hr
  · exact hok.full hg hs hr hpE

end

theorem mem_reinsert {x : NodeId} {i : ℕ}
    (h : n ∈ (l.filter (· != x)).insertIdx (min i (l.filter (· != x)).length) x) :
    n = x ∨ n ∈ l := by
  rcases (mem_insertIdx_min i n).mp h with h | h
  · exact .inr (mem_filter.mp h).1
  · exact .inl h

theorem nodup_reinsert (h : l.Nodup) (x : NodeId) (i : ℕ) :
    ((l.filter (· != x)).insertIdx (min i (l.filter (· != x)).length) x).Nodup :=
  Split.Sound.nodup_insertIdx (h.filter _) (by simp) (min_le_right _ _)

/-- Moving one node to another place in the history. -/
theorem Inv.reinsert (h : Inv c E t) {x : NodeId} (hx : c.side → t.contains x = true) (i : ℕ) :
    Inv c E { t with
      focusHistory := (t.focusHistory.filter (· != x)).insertIdx
        (min i (t.focusHistory.filter (· != x)).length) x } := by
  refine h.withHistory fun hs => ⟨fun n hn => ?_, nodup_reinsert (h.side hs).history x i⟩
  rcases mem_reinsert hn with rfl | hn
  · exact hx hs
  · exact (h.side hs).names n (.inl hn)

/-! ## 7. Size requests -/

theorem get_requestWindowSizes (n : NodeId) :
    t.requestWindowSizes.get n = (t.get n).map fun node =>
      match node.value with
      | .split _ => node
      | .leaf tile =>
        if (t.computeGeometry.leafBoxes.lookup n).isSome then
          { node with value := .leaf { tile with pendingSizingMode := t.requestedSizing n } }
        else
          node :=
  FinMap.lookup_mapVals t.nodes _ n

theorem contains_requestWindowSizes (n : NodeId) :
    t.requestWindowSizes.contains n = t.contains n := by
  unfold Arena.contains
  rw [get_requestWindowSizes]
  simp

theorem parentOf_requestWindowSizes (n : NodeId) :
    t.requestWindowSizes.parentOf n = t.parentOf n := by
  unfold Arena.parentOf
  rw [get_requestWindowSizes]
  cases t.get n with
  | none => rfl
  | some node =>
    simp only [Option.map_some, Option.bind_some]
    split
    · rfl
    · split <;> rfl

theorem splitAt_requestWindowSizes (n : NodeId) : t.requestWindowSizes.splitAt n = t.splitAt n := by
  unfold Arena.splitAt
  rw [get_requestWindowSizes]
  cases t.get n with
  | none => rfl
  | some node =>
    obtain ⟨p, v⟩ := node
    cases v with
    | split s => rfl
    | leaf tile => cases (t.computeGeometry.leafBoxes.lookup n).isSome <;> simp

theorem plain_requestWindowSizes (n : NodeId) :
    (t.requestWindowSizes.tile n).map Tile.plain = (t.tile n).map Tile.plain := by
  unfold Arena.tile
  rw [get_requestWindowSizes]
  cases t.get n with
  | none => rfl
  | some node =>
    obtain ⟨p, v⟩ := node
    cases v with
    | split s => rfl
    | leaf tile => cases (t.computeGeometry.leafBoxes.lookup n).isSome <;> simp [Tile.plain]

theorem window_requestWindowSizes (n : NodeId) :
    (t.requestWindowSizes.tile n).map (·.window) = (t.tile n).map (·.window) :=
  Tile.window_of_plain (plain_requestWindowSizes n)

theorem isSome_tile_requestWindowSizes (n : NodeId) :
    (t.requestWindowSizes.tile n).isSome = (t.tile n).isSome := by
  have := congrArg Option.isSome (window_requestWindowSizes (t := t) n)
  simpa using this

theorem Inv.requestWindowSizes (h : Inv c E t) : Inv c E t.requestWindowSizes := { h with
  ok := by
    obtain ⟨r, hok, hdeep⟩ := h.ok
    refine ⟨r, hok.congr contains_requestWindowSizes parentOf_requestWindowSizes
      splitAt_requestWindowSizes rfl le_rfl, fun hd n hn => hdeep hd n ?_⟩
    rwa [contains_requestWindowSizes] at hn
  tiles n := (window_requestWindowSizes n).trans (h.tiles n)
  side hs := by
    have hside := h.side hs
    refine ⟨fun f hf => ?_, fun n hn => ?_, fun n hn => ?_, hside.history⟩
    · rw [contains_requestWindowSizes]
      exact hside.focus f hf
    · rw [contains_requestWindowSizes]
      exact hside.names n hn
    · rw [isSome_tile_requestWindowSizes]
      exact hside.marked n hn
  modes hs := by
    refine ⟨(h.modes hs).one, fun n mode hn hmax => ?_⟩
    rw [isSome_tile_requestWindowSizes]
    exact (h.modes hs).leaf n mode hn hmax }

end TilingTree

end Swayward
