/-
  File:      Swayward/Keeps/Fullscreen.lean
  Subject:   FOCUS TARGETS AND MODES KEEP THE INVARIANT.

  Focusing the active leaf of a node, and the functions that set and end fullscreen and maximized
  modes.
-/
import Swayward.Keeps.Kept
import Swayward.Keeps.SquashForMove

namespace Swayward

variable {I : Type}

open Forest Arena Positions List

namespace TilingTree

variable {c : Ctx I} {E : Set NodeId} {t : TilingTree I} {id n : NodeId} {a : Arena I}

/-! ## 1. Focusing what may not be there -/

/-- **Setting or clearing the focus.** -/
theorem Inv.setFocusTo (h : Inv c E t) {o : Option NodeId}
    (hside : c.side → ∀ x, o = some x → t.contains x = true)
    (hawake : c.awake → (o.isSome ↔ ∃ n, (c.windows n).isSome)) :
    Inv c E (t.setFocusId o) := by
  cases o with
  | some x => exact h.setFocusId (fun hs => hside hs x rfl) fun ha => (hawake ha).mp rfl
  | none =>
    exact { h with
      side := fun hs => { h.side hs with focus := fun f hf => (nomatch hf) }
      modes := fun hs => { h.modes hs with }
      awake := hawake }

theorem Inv.windows_isSome (h : Inv c E t) : (c.windows n).isSome ↔ (t.tile n).isSome := by
  rw [← h.tiles n, Option.isSome_map]

/-- A missing node has no first leaf. -/
theorem firstLeafIn_of_not_contains (hn : a.contains n = false) : a.firstLeafIn n = none := by
  have ht : a.tile n = none := by
    cases e : a.tile n with
    | none => rfl
    | some tile => rw [contains_of_tile e] at hn; cases hn
  have hk : a.children n = [] := by
    cases e : a.splitAt n with
    | none => simp [Arena.children, e]
    | some s => rw [contains_of_splitAt e] at hn; cases hn
  unfold firstLeafIn
  cases a.size with
  | zero => rfl
  | succ fuel => simp [firstLeafFrom, ht, hk]

theorem Inv.firstLeafIn_some (h : Inv c E t) {x : NodeId} (hx : t.firstLeafIn n = some x) :
    (t.tile x).isSome := by
  obtain ⟨r, hok, -⟩ := h.ok
  cases hn : t.contains n with
  | true => exact (hok.firstLeafIn_some hn hx).2
  | false => rw [firstLeafIn_of_not_contains hn] at hx; cases hx

/-- The active leaf of a node is a leaf. -/
theorem Inv.focusedLeafIn_some (h : Inv c E t) {x : NodeId} (hx : t.focusedLeafIn n = some x) :
    (t.tile x).isSome := by
  unfold focusedLeafIn at hx
  rcases Option.or_eq_some_iff.mp hx with hx | ⟨-, hx⟩
  · have := find?_some hx
    simp only [Bool.and_eq_true] at this
    exact this.1
  · exact h.firstLeafIn_some hx

theorem contains_of_isSome_tile (h : (a.tile n).isSome) : a.contains n = true := by
  obtain ⟨tile, ht⟩ := Option.isSome_iff_exists.mp h
  exact contains_of_tile ht

/-- A node without an active leaf is the root of a tree without windows. -/
theorem Inv.focusedLeafIn_none (h : Inv c ∅ t) (hfull : c.full) (hn : t.contains n = true)
    (hnone : t.focusedLeafIn n = none) (m : NodeId) : c.windows m = none := by
  obtain ⟨r, hok, -⟩ := h.ok
  have hfirst : t.firstLeafIn n = none := (Option.or_eq_none_iff.mp hnone).2
  have hleaf : ∀ x, Below t.children n x → ¬ (t.tile x).isSome := by
    intro x hx ht
    have := hok.firstLeafIn_isSome hn hx ht
    simp [hfirst] at this
  by_cases e : n = t.root
  · cases hw : c.windows m with
    | none => rfl
    | some w =>
      have hm : (t.tile m).isSome := h.windows_isSome.mp (by simp [hw])
      exact absurd hm (hleaf m (e ▸ hok.below_root (contains_of_isSome_tile hm)))
  · obtain ⟨x, hx, ht⟩ := hok.exists_leaf hfull hn e
    exact absurd ht (hleaf x hx)

/-- **Focusing the active leaf of a node.** -/
theorem Inv.setFocusLeafIn (h : Inv c ∅ t) (hn : c.awake → t.contains n = true) :
    Inv c ∅ (t.setFocusId (t.focusedLeafIn n)) := by
  refine h.setFocusTo (fun _ x hx => contains_of_isSome_tile (h.focusedLeafIn_some hx)) fun ha => ?_
  cases e : t.focusedLeafIn n with
  | some x => simpa using ⟨x, h.windows_isSome.mpr (h.focusedLeafIn_some e)⟩
  | none =>
    have := h.focusedLeafIn_none (c.awake_full ha) (hn ha) e
    simp [this]

/-! ## 2. Fullscreen -/

theorem fullscreenNode_some (h : t.fullscreenNode = some n) : (t.fullscreenMode n).isSome := by
  unfold fullscreenNode at h
  obtain ⟨⟨k, mode⟩, he, rfl⟩ := Option.map_eq_some_iff.mp h
  have hmem := mem_of_find?_eq_some he
  have hmode := find?_some he
  have hl : t.pendingModes.lookup k = some mode := AList.mem_lookup_iff.mpr hmem
  simpa [fullscreenMode, hl] using hmode

theorem fullscreenNode_none : t.fullscreenNode = none ↔ ∀ n, t.fullscreenMode n = none := by
  constructor
  · intro h n
    unfold fullscreenNode at h
    rw [Option.map_eq_none_iff, find?_eq_none] at h
    unfold fullscreenMode
    cases hl : t.pendingModes.lookup n with
    | none => rfl
    | some mode =>
      have := h ⟨n, mode⟩ (AList.mem_lookup_iff.mp hl)
      simpa using this
  · intro h
    cases e : t.fullscreenNode with
    | none => rfl
    | some n => simpa [h n] using fullscreenNode_some e

/-- The fullscreen node, if there is one, is the only one. -/
theorem Modes.eq_fullscreenNode (h : t.Modes ∅) (hn : (t.fullscreenMode n).isSome) :
    t.fullscreenNode = some n := by
  cases e : t.fullscreenNode with
  | none => simp [fullscreenNode_none.mp e n] at hn
  | some m =>
    rw [h.eq (fullscreenNode_some e) hn]

theorem Side.contains_fullscreenNode {H : Set NodeId} (h : t.Side H)
    (hn : (t.fullscreenMode n).isSome) : t.contains n = true := by
  unfold fullscreenMode at hn
  obtain ⟨m, hm⟩ := Option.isSome_iff_exists.mp hn
  obtain ⟨mode, hmode, -⟩ := Option.bind_eq_some_iff.mp hm
  exact h.mode (FinMap.mem_iff_lookup.mpr ⟨mode, hmode⟩)

/-- Other modes. -/
theorem Inv.withModes {modes : FinMap NodeId PendingMode} (h : Inv c E t)
    (hmem : c.side → ∀ n ∈ modes, t.contains n = true)
    (hmodes : c.side → ({ t with pendingModes := modes } : TilingTree I).Modes ∅)
    (hmarks : c.marks → ({ t with pendingModes := modes } : TilingTree I).Marks) :
    Inv c E { t with pendingModes := modes } := { h with
  side hs := (h.side hs).withModes (hmem hs)
  modes := hmodes
  marks := hmarks }

/-- A mode for a node of a tree without fullscreen. -/
theorem Inv.setPendingFullscreen (h : Inv c E t) (hid : c.side → t.contains id = true)
    (hnone : c.side → ∀ n, t.fullscreenMode n = none) (m : FullscreenMode) :
    Inv c E (t.setPendingFullscreen id (some m)) := by
  rw [setPendingFullscreen_eq]
  have hmode : ∀ n, (t.setPendingFullscreen id (some m)).fullscreenMode n =
      if n = id then some m else t.fullscreenMode n := fullscreenMode_setPendingFullscreen (some m)
  refine h.withModes (fun hs n hn => ?_) (fun hs => ⟨fun x y _ _ hx hy => ?_, fun n mode hn hmax =>
    leaf_setPendingFullscreen (h.modes hs) _ n mode hn hmax⟩) fun hm hall => ?_
  · rcases mem_pendingModes_setPendingFullscreen hn with rfl | hn
    · exact hid hs
    · exact (h.side hs).mode hn
  · have hx : ((t.setPendingFullscreen id (some m)).fullscreenMode x).isSome := hx
    have hy : ((t.setPendingFullscreen id (some m)).fullscreenMode y).isSome := hy
    rw [hmode] at hx hy
    have heq : ∀ {z}, (if z = id then some m else t.fullscreenMode z).isSome → z = id := by
      intro z hz
      by_contra e
      simp [e, hnone hs z] at hz
    rw [heq hx, heq hy]
  · have := hall id
    have : (t.setPendingFullscreen id (some m)).fullscreenMode id = none := this
    simp [hmode] at this

theorem fullscreenMode_endFullscreen (n : NodeId) :
    (t.endFullscreen id).fullscreenMode n = if n = id then none else t.fullscreenMode n := by
  unfold fullscreenMode endFullscreen
  simp only [FinMap.lookup_modify]
  by_cases e : n = id
  · subst e
    cases t.pendingModes.lookup n <;> simp
  · simp [e]

theorem not_marked_endFullscreen (n : NodeId) : ¬ (t.endFullscreen id).Marked n := by
  rintro (hn | hn) <;> simp [endFullscreen] at hn

theorem Inv.endFullscreen (h : Inv c E t) : Inv c E (t.endFullscreen id) := { h with
  side hs := by
    have hside := h.side hs
    refine ⟨hside.focus, fun n hn => ?_, fun n hn => ?_, hside.history⟩
    · exact hside.retable hn ⟨rfl, rfl, rfl⟩ (fun hn => hside.mode ((FinMap.mem_modify _ _ _ _).mp hn))
        (by simp [TilingTree.endFullscreen]) (by simp [TilingTree.endFullscreen])
    · exact (not_marked_endFullscreen n hn).elim
  modes hs := by
    refine ⟨fun x y hx hy hx' hy' => ?_, fun n mode hn hmax => ?_⟩
    · rw [fullscreenMode_endFullscreen] at hx' hy'
      split at hx'
      · cases hx'
      · split at hy'
        · cases hy'
        · exact (h.modes hs).one x y hx hy hx' hy'
    · simp only [TilingTree.endFullscreen, FinMap.lookup_modify] at hn
      split_ifs at hn with e
      · obtain ⟨old, hold, rfl⟩ := Option.map_eq_some_iff.mp hn
        exact (h.modes hs).leaf n old (e ▸ hold) hmax
      · exact (h.modes hs).leaf n mode hn hmax
  marks _ _ n := not_marked_endFullscreen n
  bare _ n := not_marked_endFullscreen n }

theorem cancelResizeFor_eq (t : TilingTree I) (id : NodeId) :
    ∃ session, t.cancelResizeFor id = { t with interactiveResize := session } := by
  unfold TilingTree.cancelResizeFor
  split
  · split
    · exact ⟨_, rfl⟩
    · exact ⟨_, rfl⟩
  · exact ⟨_, rfl⟩

theorem Inv.cancelResizeFor (h : Inv c E t) : Kept c E t (t.cancelResizeFor id) := by
  unfold TilingTree.cancelResizeFor
  split
  · exact .ite (fun _ => .closed h.close) fun _ => .same h
  · exact .same h

theorem Inv.beginFullscreen (h : Inv c ∅ t) (hid : t.contains id = true)
    (hnone : c.side → ∀ n, t.fullscreenMode n = none) (m : FullscreenMode) :
    Kept c ∅ t (t.beginFullscreen id m) := by
  unfold TilingTree.beginFullscreen
  have h' := h.setPendingFullscreen (fun _ => hid) hnone m
  rw [setPendingFullscreen_eq] at h' ⊢
  have h1 := Kept.side h' (t := t) rfl rfl
  simp only
  split
  · exact h1
  · exact h1.trans (.focus (h'.setFocusLeafIn fun _ => hid))

/-- **Setting, moving and ending fullscreen keep the invariant.** -/
theorem Inv.replaceFullscreenState (h : Inv c ∅ t) (id : NodeId)
    (fullscreen : Option FullscreenMode) :
    Kept c ∅ t (t.replaceFullscreenState id fullscreen).1 := by
  unfold TilingTree.replaceFullscreenState
  split
  · exact .same h
  rename_i hid
  simp only [Bool.not_eq_true', Bool.not_eq_false] at hid
  simp only
  split
  · exact .same h
  set base : TilingTree I := { t with fullscreenTileSlot := false, fullscreenArrived := false }
  have h1 : Inv c ∅ base := h.of_core rfl
  have hbegin : ∀ {u : TilingTree I}, Kept c ∅ t u → u.contains id = true →
      (c.side → ∀ n, u.fullscreenMode n = none) →
      Kept c ∅ t ((fullscreen.elim u (u.beginFullscreen id)).cancelResizeFor id) := by
    intro u hu hid hnone
    cases fullscreen with
    | none => exact hu.trans hu.inv.cancelResizeFor
    | some mode =>
      have hset := hu.trans (hu.inv.beginFullscreen hid hnone mode)
      exact hset.trans hset.inv.cancelResizeFor
  cases e : t.fullscreenNode with
  | none =>
    have hset := hbegin (.side h1 rfl rfl) hid fun _ n => fullscreenNode_none.mp e n
    cases fullscreen <;> exact hset
  | some current =>
    have hnone : c.side → ∀ n, (base.endFullscreen current).fullscreenMode n = none := by
      intro hs n
      rw [fullscreenMode_endFullscreen]
      split
      · rfl
      rename_i hne
      by_contra hn
      have hn : (t.fullscreenMode n).isSome := Option.ne_none_iff_isSome.mp hn
      rw [(h.modes hs).eq_fullscreenNode hn] at e
      exact hne (Option.some.inj e)
    have hset := hbegin (.side h1.endFullscreen rfl rfl) hid hnone
    cases fullscreen <;> exact hset

theorem Inv.setNodeFullscreen (h : Inv c ∅ t) (id : NodeId) (fullscreen : Option FullscreenMode) :
    Kept c ∅ t (t.setNodeFullscreen id fullscreen).1 := by
  have h' := h.replaceFullscreenState id fullscreen
  unfold TilingTree.setNodeFullscreen
  split
  · rename_i e
    rw [e] at h'
    exact h'.requestWindowSizes
  · rename_i e
    rw [e] at h'
    exact h'

theorem Inv.arrangeFullscreenParent (h : Inv c E t) : Kept c E t t.arrangeFullscreenParent := by
  unfold TilingTree.arrangeFullscreenParent
  split
  · exact .same h
  · exact .ite (fun _ => .side (h.of_core rfl) rfl rfl) fun _ => .same h

theorem Inv.markFullscreenArrived (h : Inv c E t) : Kept c E t t.markFullscreenArrived := by
  unfold TilingTree.markFullscreenArrived
  split
  · exact .side (h.of_core rfl) rfl rfl
  · exact .same h

theorem fullscreen_getD (n : NodeId) :
    ((t.pendingModes.lookup n).getD {}).fullscreen = t.fullscreenMode n := by
  unfold fullscreenMode
  cases t.pendingModes.lookup n <;> rfl

/-! ## 3. Windows -/

/-- `nodeForWindow` finds a leaf with that window. -/
theorem nodeForWindow_some [DecidableEq I] {window : I}
    (h : a.nodeForWindow window = some n) : ∃ tile, a.tile n = some tile ∧ tile.window = window := by
  unfold nodeForWindow at h
  obtain ⟨⟨m, w⟩, he, rfl⟩ := Option.map_eq_some_iff.mp h
  have hw : w = window := by simpa using find?_some he
  have hmem := mem_of_find?_eq_some he
  unfold Arena.windows at hmem
  obtain ⟨k, -, hk⟩ := mem_filterMap.mp hmem
  obtain ⟨tile, ht, e⟩ := Option.map_eq_some_iff.mp hk
  cases e
  exact ⟨tile, ht, hw⟩

theorem contains_nodeForWindow [DecidableEq I] {window : I}
    (h : a.nodeForWindow window = some n) : a.contains n = true := by
  obtain ⟨tile, ht, -⟩ := nodeForWindow_some h
  exact contains_of_tile ht

/-- A new entry for a leaf that keeps its fullscreen mode. -/
theorem Inv.insertMode (h : Inv c E t) (hid : (t.tile id).isSome) {mode : PendingMode}
    (hmode : c.side → mode.fullscreen = t.fullscreenMode id) :
    Inv c E { t with pendingModes := t.pendingModes.insert id mode } := by
  have hfs : c.side → ∀ n, ({ t with pendingModes := t.pendingModes.insert id mode } :
      TilingTree I).fullscreenMode n = t.fullscreenMode n := by
    intro hs n
    by_cases e : n = id
    · subst e
      simpa [fullscreenMode, FinMap.lookup_insert_eq] using hmode hs
    · simp [fullscreenMode, e]
  refine h.withModes (fun hs n hn => ?_) (fun hs => ⟨fun x y hx hy hx' hy' => ?_,
    fun n m hn hmax => ?_⟩) fun hm hall => h.marks hm fun n =>
      (hfs (c.marks_side hm) n).symm.trans (hall n)
  · rcases (AList.mem_insert _).mp hn with rfl | hn
    · exact contains_of_isSome_tile hid
    · exact (h.side hs).mode hn
  · rw [hfs hs] at hx' hy'
    exact (h.modes hs).one x y hx hy hx' hy'
  · simp only [FinMap.lookup_insert_eq] at hn
    split_ifs at hn with e
    · exact e ▸ hid
    · exact (h.modes hs).leaf n m hn hmax

variable [DecidableEq I]

theorem Inv.setFullscreen (h : Inv c ∅ t) (window : I) (fullscreen : Bool) :
    Kept c ∅ t (t.setFullscreen window fullscreen).1 := by
  unfold TilingTree.setFullscreen
  split
  · exact h.setNodeFullscreen _ _
  · exact .same h

theorem Inv.setMaximized (h : Inv c E t) (window : I) (maximized : Bool) :
    Kept c E t (t.setMaximized window maximized).1 := by
  unfold TilingTree.setMaximized
  split
  · exact .same h
  rename_i id hid
  obtain ⟨tile, ht, -⟩ := nodeForWindow_some hid
  have hleaf : (t.tile id).isSome := by simp [ht]
  have hmode : ∀ mode : PendingMode, mode.fullscreen = ((t.pendingModes.lookup id).getD {}).fullscreen →
      Kept c E t { t with pendingModes := t.pendingModes.insert id mode } := fun mode e =>
    .side (h.insertMode hleaf fun _ => e.trans (fullscreen_getD id)) rfl rfl
  refine .ite_fst (fun _ => hmode _ rfl) fun _ => ?_
  have h1 := hmode { (t.pendingModes.lookup id).getD {} with maximized := maximized } rfl
  exact (h1.trans h1.inv.cancelResizeFor).requestWindowSizes

end TilingTree

end Swayward
