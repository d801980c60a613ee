/-
  File:      Swayward/Keeps/Resize.lean
  Subject:   RESIZING KEEPS THE INVARIANT: shares change hands, nothing else does.

  Every resize command ends in one of three changes of a split's shares: two neighbours trade
  (`Inv.resizeAdjacentInner`), one child trades with all its siblings
  (`Inv.resizeAcrossSiblings`), or all children get the same (`Inv.resetWindowHeight`).
-/
import Swayward.Keeps.Movement

namespace Swayward

open Arena Shares

variable {I : Type} {c : Ctx I} {E : Set NodeId} {t : TilingTree I} {id p : NodeId}

namespace TilingTree

/-! ## 1. Trading shares -/

theorem Inv.resizeAdjacentInner (h : Inv c E t) (first second : NodeId) (delta : ℚ) :
    Inv c E (t.resizeAdjacentInner first second delta).1 := by
  unfold TilingTree.resizeAdjacentInner
  split
  · exact h
  rename_i p i j x y hn
  refine Inv.ite_fst (fun _ => h) fun hpos => ?_
  push Not at hpos
  obtain ⟨-, -, s, hs, -, -, hij, hx, hy⟩ := neighbourShares_iff.mp hn
  have h1 : Inv c E { t with toArena := t.modifySplit p (Split.transfer · i j x y delta) } := by
    refine h.modifySplit fun s' hs' hsound => ⟨List.Perm.refl _, hsound.nodup, ?_, fun hf => ?_⟩
    · simpa [Split.transfer] using hsound.lengths
    · rw [hs] at hs'
      cases hs'
      exact transfer_isShares (hsound.shares hf) (by omega) hx hy hpos.1 hpos.2
  exact h1.requestWindowSizes

theorem Inv.resizeAdjacent (h : Inv c E t) (first second : NodeId) (delta : ℚ) :
    Kept c E t (t.resizeAdjacent first second delta).1 := by
  have h1 := h.resizeAdjacentInner first second delta
  unfold TilingTree.resizeAdjacent
  split <;> rename_i e
  · rw [e] at h1
    exact .closed h1.close
  -- refused: the tree is the old one
  unfold TilingTree.resizeAdjacentInner at e
  split at e
  · cases e
    exact .same h
  split at e
  · cases e
    exact .same h
  · cases e

/-- What `acrossSiblings` makes of a list of shares. -/
theorem acrossSiblings_isShares {l l' : List ℚ} {n i : ℕ} {delta : ℚ}
    (h : acrossSiblings l n i delta = some l') (hn : n = l.length - 1) (hpos : n ≠ 0) :
    l'.length = l.length ∧ (IsShares l → IsShares l') := by
  unfold acrossSiblings at h
  split at h
  · cases h
  rename_i x hx
  simp only at h
  split at h
  · cases h
  rename_i hok
  cases h
  rw [not_or, not_le] at hok
  refine ⟨by simp, fun hl => spread_isShares hl hx ?_ hok.1 fun y hy => ?_⟩
  · rw [← hn, mul_div_cancel₀]
    exact_mod_cast hpos
  · simpa using fun hle => hok.2 (List.any_eq_true.mpr ⟨y, hy, decide_eq_true hle⟩)

theorem Inv.resizeAcrossSiblings (h : Inv c E t) (parent target : NodeId) (delta : ℚ) :
    Kept c E t (t.resizeAcrossSiblings parent target delta).1 := by
  unfold TilingTree.resizeAcrossSiblings
  split
  · exact .same h
  rename_i s hs
  split
  · exact .same h
  refine .ite_fst (fun _ => .same h) fun hlen => ?_
  split
  · exact .same h
  rename_i percents hacross
  obtain ⟨r, hok, -⟩ := h.ok
  have hlens := (hok.sound hs).lengths
  obtain ⟨hl, hshares⟩ := acrossSiblings_isShares hacross (by omega) (by omega)
  refine .closed (h.close.modifySplit fun s' hs' hsound => ?_).requestWindowSizes
  rw [show t.splitAt parent = some s' from hs'] at hs
  cases hs
  exact ⟨List.Perm.refl _, hsound.nodup, hl.trans hlens, fun hf => hshares (hsound.shares hf)⟩

/-! ## 2. Resizing a node -/

theorem Inv.resizeNodeDimension (h : Inv c E t) (id : NodeId) (width : Bool) (change : SizeChange) :
    Kept c E t (t.resizeNodeDimension id width change).1 := by
  unfold TilingTree.resizeNodeDimension
  split
  · exact .same h
  simp only
  split
  · exact h.resizeAcrossSiblings _ _ _
  · exact .same h

theorem Inv.resizeNodeEdgeCommand (h : Inv c E t) (id : NodeId) (edge : ResizeEdge)
    (change : SizeChange) : Kept c E t (t.resizeNodeEdgeCommand id edge change).1 := by
  unfold TilingTree.resizeNodeEdgeCommand
  simp only
  split
  · exact .same h
  · split
    · exact .same h
    · exact h.resizeAdjacent _ _ _

theorem Inv.setNodeSizeSway (h : Inv c E t) (id : NodeId) (width height : Option SizeChange) :
    Kept c E t (t.setNodeSizeSway id width height) := by
  unfold TilingTree.setNodeSizeSway
  cases width <;> cases height
  · exact .same h
  · exact h.resizeNodeDimension _ _ _
  · exact h.resizeNodeDimension _ _ _
  · rename_i w _
    have h1 := h.resizeNodeDimension id true w
    exact h1.trans (h1.inv.resizeNodeDimension _ _ _)

theorem Inv.toggleFullWidth (h : Inv c E t) : Kept c E t t.toggleFullWidth := by
  unfold TilingTree.toggleFullWidth
  split
  · exact .same h
  · split
    · exact .same h
    · exact h.resizeNodeDimension _ _ _

theorem Inv.updateAxis (h : Inv c E t) (axis : ResizeAxis) (delta : Point) :
    Inv c E (t.updateAxis axis delta).1 := by
  unfold TilingTree.updateAxis
  simp only
  split
  · exact h
  · exact Inv.ite_fst (fun _ => h) fun _ => h.resizeAdjacentInner _ _ _

/-- The axes of a session are brought up to date one by one. -/
theorem Inv.foldl_updateAxis (axes : List ResizeAxis) (delta : Point) {x : TilingTree I × Bool}
    (h : Inv c E x.1) :
    Inv c E (axes.foldl (fun (t, changed) axis => let (t, moved) := t.updateAxis axis delta
      (t, changed || moved)) x).1 := by
  induction axes generalizing x with
  | nil => exact h
  | cons axis axes ih => exact ih (h.updateAxis axis delta)

/-! ## 3. Commands on a window -/

variable [DecidableEq I]

theorem Inv.setWindowDimension (h : Inv c E t) (window : Option I) (width : Bool)
    (change : SizeChange) : Kept c E t (t.setWindowDimension window width change).1 := by
  unfold TilingTree.setWindowDimension
  split
  · exact h.resizeNodeDimension _ _ _
  · exact .same h

theorem Inv.resizeWindowEdge (h : Inv c E t) (window : Option I) (edge : ResizeEdge)
    (change : SizeChange) : Kept c E t (t.resizeWindowEdge window edge change).1 := by
  unfold TilingTree.resizeWindowEdge
  split
  · exact h.resizeNodeEdgeCommand _ _ _
  · exact .same h

theorem Inv.resetWindowHeight (h : Inv c E t) (window : Option I) :
    Kept c E t (t.resetWindowHeight window) := by
  unfold TilingTree.resetWindowHeight
  split
  · exact .same h
  refine .ite (fun _ => ?_) fun _ => .same h
  refine .closed (h.close.modifySplit fun s _ hsound => ?_).requestWindowSizes
  refine ⟨List.Perm.refl _, hsound.nodup, by simpa using hsound.lengths, fun _ => ?_⟩
  rw [← hsound.lengths]
  exact equal_isShares s.percents

theorem Inv.togglePreset (h : Inv c E t) (window : Option I) (width forwards : Bool) :
    Kept c E t (t.togglePreset window width forwards) := by
  unfold TilingTree.togglePreset
  simp only
  split
  · exact .same h
  split
  · exact .same h
  · exact h.setWindowDimension _ _ _
  · exact h.setWindowDimension _ _ _

/-! ## 4. Sessions -/

/-- Opening a session. -/
theorem Inv.interactiveResizeBegin (h : Inv c E t) (window : I) (edges : ResizeEdge)
    (hcalm : ¬ c.calm) : Inv c E (t.interactiveResizeBegin window edges).1 := by
  unfold TilingTree.interactiveResizeBegin
  refine Inv.ite_fst (fun _ => h) fun _ => ?_
  split
  · exact h
  · refine Inv.ite_fst (fun _ => h) fun _ => Inv.ite_fst (fun _ => h) fun _ => ?_
    exact h.withSession fun hc => absurd hc hcalm

theorem Inv.interactiveResizeUpdate (h : Inv c E t) (window : I) (delta : Point) :
    Inv c E (t.interactiveResizeUpdate window delta).1 := by
  unfold TilingTree.interactiveResizeUpdate
  split
  · exact h
  · exact Inv.ite_fst (fun _ => Inv.foldl_updateAxis _ _ h) fun _ => h

theorem Inv.interactiveResizeEnd (h : Inv c E t) (window : Option I) :
    Kept c E t (t.interactiveResizeEnd window) := by
  unfold TilingTree.interactiveResizeEnd
  exact .ite (fun _ => .closed h.close) fun _ => .same h

end TilingTree

end Swayward
