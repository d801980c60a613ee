/-
  File:      Swayward/Keeps/Conservation.lean
  Subject:   NO OPERATION OF A TREE LOSES A WINDOW.

  The results here ask only for a well-formed arena: the side tables, the focus and the modes may be
  in any state. So the context of the invariant has nothing in force but the shape of the tree.
-/
import Swayward.Keeps.Windows
import Swayward.Tree.WellFormed

namespace Swayward

open Arena Forest TilingTree

variable {I : Type}

/-- Nothing but the shape. -/
def Ctx.shape (t : TilingTree I) : Ctx I where
  full := False
  side := False
  deep := False
  awake := False
  marks := False
  bare := False
  calm := False
  windows n := (t.tile n).map (·.window)
  hole := ∅
  awake_full := False.elim
  awake_side := False.elim
  marks_full := False.elim
  marks_side := False.elim

namespace TilingTree

variable {t : TilingTree I}

theorem inv_of_wellFormed (h : t.toArena.WellFormed) : Inv (Ctx.shape t) ∅ t := by
  obtain ⟨r, hok⟩ := h.ok
  refine ⟨⟨r, ?_, False.elim⟩, fun _ => rfl, False.elim, False.elim, False.elim, False.elim,
    False.elim, False.elim⟩
  exact { hok with
    sound := fun hs => ⟨(hok.sound hs).nodup, (hok.sound hs).lengths, False.elim⟩
    full := False.elim }

variable [DecidableEq I]

/-- **Windows are conserved**: an operation that is not meant to add or remove a window leaves the
    multiset of windows as it is, whatever its arguments; removing a leaf takes away its window and
    hands it out, removing anything else does nothing; adding a tile adds its window. -/
theorem held_run (h : t.toArena.WellFormed) :
    (∀ op : QuietOp I, (op.run t).held.Perm t.held) ∧ (∀ id tile, t.tile id = some tile →
        t.held.Perm (tile.window :: (t.removeTileNode id).1.held)) ∧
      (∀ id, t.tile id = none → (t.removeTileNode id).1 = t) ∧
      ∀ tile target activate, (t.addTileWithActivation tile target activate).1.held.Perm
        (tile.window :: t.held) := by
  have hinv := inv_of_wellFormed h
  refine ⟨fun op => ?_, fun n tile htile => ?_, fun n hnone => ?_, fun tile target activate => ?_⟩
  · exact (hinv.runQuiet False.elim False.elim False.elim id id op False.elim False.elim
      False.elim).held_perm hinv
  · have := (hinv.runTile id (.removeTileNode n) rfl False.elim False.elim).2
    simp only [TileOp.window, TileOp.taken, htile, Option.toList_none, List.append_nil] at this
    exact this.trans List.perm_append_comm
  · simp only [TilingTree.removeTileNode, hnone]
  · have := (hinv.runTile id (.addTileWithActivation tile target activate) rfl False.elim
      False.elim).2
    simp only [TileOp.window, TileOp.taken, Option.toList_some, List.append_nil] at this
    exact this.symm.trans List.perm_append_comm

/-- Windows `7` and `8`, one after the other. -/
def twoWindows : TilingTree ℕ :=
  (((new 0 {} : TilingTree ℕ).addTile { window := 7 } .focused).1.addTile { window := 8 }
    .focused).1

theorem wellFormed_twoWindows : twoWindows.toArena.WellFormed := by
  let c : Ctx ℕ := { Ctx.shape (new 0 {} : TilingTree ℕ) with
    full := True
    windows := fun _ => none
    awake_full := False.elim
    marks_full := False.elim }
  have h0 : Inv c ∅ (new 0 {}) := inv_new 0 {} fun _ => rfl
  have h1 := (h0.runTile id (.addTileWithActivation { window := 7 } .focused true) rfl False.elim
    False.elim).1
  have h2 := (h1.runTile id (.addTileWithActivation { window := 8 } .focused true) rfl False.elim
    False.elim).1
  obtain ⟨r, hok, -⟩ := h2.ok
  exact hok.wellFormed

theorem held_run_twoWindows :
    (∀ op : QuietOp ℕ, (op.run twoWindows).held.Perm twoWindows.held) ∧
      (∀ id tile, twoWindows.tile id = some tile →
        twoWindows.held.Perm (tile.window :: (twoWindows.removeTileNode id).1.held)) ∧
      (∀ id, twoWindows.tile id = none → (twoWindows.removeTileNode id).1 = twoWindows) ∧
      ∀ tile target activate, (twoWindows.addTileWithActivation tile target activate).1.held.Perm
        (tile.window :: twoWindows.held) :=
  held_run wellFormed_twoWindows

end TilingTree

end Swayward
