/-
  File:      Swayward/Keeps/Ops.lean
  Subject:   EVERY OPERATION KEEPS THE INVARIANT, family by family.

  The conditions an operation needs are stated on the tree before it. Two of them are about parts of
  the invariant that the code can break (`MoveOp.fits` for the depth, `MoveOp.holds` for the marks);
  they are asked for only where that part is in force.
-/
import Swayward.Keeps.Navigate
import Swayward.Keeps.Resize
import Swayward.Tree.Run

namespace Swayward

open Arena Forest TilingTree

variable {I : Type} {c : Ctx I} {t : TilingTree I}

/-! ## 1. Conditions -/

/-- The tree has no marks. -/
def TilingTree.Unmarked (t : TilingTree I) : Prop := ∀ n, ¬ t.Marked n

/-- What a directional move must satisfy for the depth bound to survive. -/
def MoveOp.fits (t : TilingTree I) : MoveOp I → Bool
  | .moveDirection id direction => t.moveFits id direction
  | .moveNodeDirection id direction => t.moveFits id direction
  | _ => true

/-- What a move must satisfy for the marks to stay under a fullscreen node. -/
def MoveOp.holds [DecidableEq I] (t : TilingTree I) : MoveOp I → Prop
  | .moveDirection id direction => t.moveHolds id direction = true
  | .moveNodeDirection id direction => t.moveHolds id direction = true
  | .moveSubtreeToNode id destination =>
    ∀ p after, t.nodeDestination destination = some (p, after) → t.Keeps id p
  | .expel id _ => ∀ q p, t.parentOf id = some q → t.parentOf q = some p → t.Keeps id p
  | .expelOrConsume window _ =>
    ∀ id q p, (window.bind t.nodeForWindow).or t.focus = some id →
      t.parentOf id = some q → t.parentOf q = some p → t.Keeps id p
  | .moveSubtreeToIndex .. => True
  | .swapNodes .. => True
  | .consume .. => True

/-- `set_focus` and `focus_root` are for trees that hold a window. -/
def FocusOp.promised (t : TilingTree I) : FocusOp I → Bool
  | .setFocus _ => !t.isEmpty
  | .focusRoot => !t.isEmpty
  | _ => true

def QuietOp.promised (t : TilingTree I) : QuietOp I → Bool
  | .focus op => op.promised t
  | _ => true

def QuietOp.fits (t : TilingTree I) : QuietOp I → Bool
  | .move op => op.fits t
  | _ => true

def QuietOp.holds [DecidableEq I] (t : TilingTree I) : QuietOp I → Prop
  | .move op => t.Unmarked ∨ op.holds t
  | _ => True

/-- A leaf goes below a split other than the root. -/
def TileOp.promised (t : TilingTree I) : TileOp I → Bool
  | .addTileToExistingParent _ parent _ => t.isSplit parent && parent != t.root
  | _ => true

/-- A removed leaf is not the last one of a fullscreen split. -/
def TileOp.holds [DecidableEq I] (t : TilingTree I) : TileOp I → Prop
  | .removeTileNode id => t.Unmarked ∨ t.HeldBut id
  | .removeTile window =>
    t.Unmarked ∨ ∀ id, t.nodeForWindow window = some id → t.HeldBut id
  | .removeTileForTransfer window =>
    t.Unmarked ∨ ∀ id, t.nodeForWindow window = some id → t.HeldBut id
  | _ => True

/-! ## 2. Trees without marks -/

/-- The context in which there are no marks at all. -/
def Ctx.barren (c : Ctx I) : Ctx I :=
  { c with
    marks := False, bare := True, marks_full := c.full_of_false, marks_side := c.side_of_false }

namespace TilingTree

theorem Inv.barren {E : Set NodeId} (h : Inv c E t) (hn : t.Unmarked) : Inv c.barren E t :=
  ⟨h.ok, h.tiles, h.side, h.modes, h.awake, False.elim, fun _ => hn, h.calm⟩

theorem Inv.of_barren {E : Set NodeId} (h : Inv c.barren E t) : Inv c E t :=
  ⟨h.ok, h.tiles, h.side, h.modes, h.awake, fun _ _ => h.bare trivial, fun _ => h.bare trivial,
    h.calm⟩

/-- **An operation that keeps trees without marks so** needs no condition for the marks there. -/
theorem Inv.unmarked_or {f : TilingTree I → TilingTree I} {P : Prop} (h : Inv c ∅ t)
    (hP : c.marks → t.Unmarked ∨ P)
    (hf : ∀ c', c'.full = c.full → c'.awake = c.awake → c'.side = c.side → c'.deep = c.deep →
      c'.hole = c.hole → c'.windows = c.windows → c'.calm = c.calm → Inv c' ∅ t →
      (c'.marks → P) → Inv c' ∅ (f t)) : Inv c ∅ (f t) := by
  by_cases hm : c.marks → P
  · exact hf c rfl rfl rfl rfl rfl rfl rfl h hm
  · rw [Classical.not_imp] at hm
    have hn := (hP hm.1).resolve_right hm.2
    exact (hf c.barren rfl rfl rfl rfl rfl rfl rfl (h.barren hn) False.elim).of_barren

/-! ## 3. Families -/

theorem Inv.runLayout (h : Inv c ∅ t) (hfa : c.full → c.awake) (op : LayoutOp) :
    Kept c ∅ t (op.run t) := by
  cases op with
  | split id layout => exact .closed (h.split id layout)
  | splitFocused layout => exact .closed (h.splitFocused layout)
  | setLayout id layout => exact .closed (h.setLayout id layout)
  | setLayoutForCommand id layout => exact .closed (h.setLayoutForCommand id layout)
  | resetEmptyLayout => exact .closed h.resetEmptyLayout
  | flattenParent id => exact .closed (h.flattenParent id)
  | wrapWorkspaceChildren => exact h.wrapWorkspaceChildren
  | setFocusedLayout layout => exact h.setFocusedLayout hfa layout
  | setFocusedParentLayout layout => exact h.setFocusedParentLayout layout
  | setTargetLayout id layout => exact h.setTargetLayout id layout
  | toggleSplit id => exact .closed (h.toggleSplit id)
  | toggleFocusedSplit => exact .closed h.toggleFocusedSplit
  | toggleFocusedTabbed => exact h.toggleFocusedTabbed
  | toggleLayoutSplit id => exact .closed (h.toggleLayoutSplit id)
  | toggleNodeLayout id toggle => exact h.toggleNodeLayout id toggle
  | toggleFocusedLayout toggle => exact h.toggleFocusedLayout toggle
  | toggleTargetLayout id toggle => exact h.toggleTargetLayout id toggle
  | toggleFocusedLayoutSplit => exact h.toggleFocusedLayoutSplit
  | restoreNodeLayout id => exact h.restoreNodeLayout id
  | restoreFocusedSplitLayout => exact h.restoreFocusedSplitLayout
  | restoreTargetLayout id => exact h.restoreTargetLayout id

variable [DecidableEq I]

theorem Inv.runMove (h : Inv c ∅ t) (hh : c.side → c.hole = ∅) (hd : c.side → c.Distinct)
    (op : MoveOp I) (hfits : c.deep → op.fits t = true) (hholds : c.marks → op.holds t) :
    Inv c ∅ (op.run t) := by
  cases op with
  | moveDirection id direction => exact (h.moveDirection hh id direction hfits hholds).inv
  | moveNodeDirection id direction => exact (h.moveNodeDirection hh hd id direction hfits hholds).inv
  | moveSubtreeToIndex id index => exact (h.moveSubtreeToIndex hh id index).uncalm
  | moveSubtreeToNode id destination => exact h.moveSubtreeToNode id destination hholds
  | swapNodes first second => exact h.swapNodes first second
  | consume id right => exact (h.consume id right).inv
  | expel id after => exact (h.expel id after hholds).inv
  | expelOrConsume window right => exact (h.expelOrConsume hh window right hholds).inv

theorem Inv.runResize (h : Inv c ∅ t) (hcalm : ¬ c.calm) (op : ResizeOp I) :
    Inv c ∅ (op.run t) := by
  cases op with
  | resizeAdjacent first second delta => exact (h.resizeAdjacent first second delta).inv
  | resizeAcrossSiblings parent target delta => exact (h.resizeAcrossSiblings parent target delta).inv
  | resizeNodeDimension id width change => exact (h.resizeNodeDimension id width change).inv
  | resizeNodeEdgeCommand id edge change => exact (h.resizeNodeEdgeCommand id edge change).inv
  | setNodeSizeSway id width height => exact (h.setNodeSizeSway id width height).inv
  | toggleFullWidth => exact h.toggleFullWidth.inv
  | setWindowDimension window width change => exact (h.setWindowDimension window width change).inv
  | resizeWindowEdge window edge change => exact (h.resizeWindowEdge window edge change).inv
  | resetWindowHeight window => exact (h.resetWindowHeight window).inv
  | togglePreset window width forwards => exact (h.togglePreset window width forwards).inv
  | interactiveResizeBegin window edges => exact h.interactiveResizeBegin window edges hcalm
  | interactiveResizeUpdate window delta => exact h.interactiveResizeUpdate window delta
  | interactiveResizeEnd window => exact (h.interactiveResizeEnd window).inv

theorem Inv.runMode (h : Inv c ∅ t) (hb : ¬ c.bare) (op : ModeOp I) : Kept c ∅ t (op.run t) := by
  cases op with
  | setNodeFullscreen id fullscreen => exact h.setNodeFullscreen id fullscreen
  | setFullscreen window fullscreen => exact h.setFullscreen window fullscreen
  | setMaximized window maximized => exact h.setMaximized window maximized
  | arrangeFullscreenParent => exact h.arrangeFullscreenParent
  | markFullscreenArrived => exact h.markFullscreenArrived
  | markMovedUnderFullscreen window rect => exact h.markMovedUnderFullscreen hb window rect

theorem Inv.runFocus (h : Inv c ∅ t) (hh : c.side → c.hole = ∅) (op : FocusOp I)
    (hp : c.awake → op.promised t = true) : Kept c ∅ t (op.run t) := by
  have hw : (c.awake → (!t.isEmpty) = true) → c.awake → ∃ m, (c.windows m).isSome := fun hp ha =>
    (h.awake ha).mp (by simpa [isEmpty, Option.isSome_iff_ne_none] using hp ha)
  cases op with
  | setFocus id => exact h.setFocus id (hw hp)
  | focusRoot => exact h.focusRoot (hw hp)
  | focusInactiveLeafOf id => exact h.focusInactiveLeafOf id
  | activateWindow window => exact h.activateWindow window
  | focusFirst => exact h.focusFirst
  | focusLast => exact h.focusLast
  | focusWindowInSubtree subtree index => exact h.focusWindowInSubtree subtree index
  | focusWindowInParent index => exact h.focusWindowInParent index
  | focusRootChild index => exact h.focusRootChild hh index
  | focusLastRootChild => exact h.focusLastRootChild hh
  | focusParent => exact h.focusParent
  | focusChild => exact h.focusChild
  | focusFromOutputDirection dir => exact h.focusFromOutputDirection dir
  | scrollTabIndicator window steps => exact h.scrollTabIndicator window steps
  | focusNextPrevSibling next => exact h.focusNextPrevSibling next
  | focusDirection dir => exact h.focusDirectionInner hh dir true
  | focusDirectionWithoutWrap dir => exact h.focusDirectionInner hh dir false
  | focusNextOrPrev next => exact h.focusNextOrPrev hh next
  | focusExtreme bottom => exact h.focusExtreme hh bottom
  | restoreFocusRank window rank => exact h.restoreFocusRank window rank
  | sortFocusHistoryByTimestamp => exact h.sortFocusHistoryByTimestamp

/-- **Every quiet operation keeps the invariant and the windows.** -/
theorem Inv.runQuiet (h : Inv c ∅ t) (hfa : c.full → c.awake) (hh : c.side → c.hole = ∅)
    (hd : c.side → c.Distinct) (hcalm : ¬ c.calm) (hb : ¬ c.bare) (op : QuietOp I)
    (hp : c.awake → op.promised t = true) (hfits : c.deep → op.fits t = true)
    (hholds : c.marks → op.holds t) : Inv c ∅ (op.run t) := by
  cases op with
  | layout op => exact (h.runLayout hfa op).inv
  | move op =>
    refine h.unmarked_or (f := op.run) hholds fun c' _ _ es ed eh ew _ h' hP => ?_
    refine h'.runMove ?_ ?_ op ?_ hP
    · rw [es, eh]
      exact hh
    · unfold Ctx.Distinct
      rw [es, ew]
      exact hd
    · rw [ed]
      exact hfits
  | resize op => exact h.runResize hcalm op
  | mode op => exact (h.runMode hb op).inv
  | focus op => exact (h.runFocus hh op hp).inv

end TilingTree

end Swayward
