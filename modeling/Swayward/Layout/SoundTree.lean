/-
  File:      Swayward/Layout/SoundTree.lean
  Subject:   TREES THAT ARE IN ORDER, and the operations that keep their windows.

  A workspace keeps its tiled windows in a tree and each floating group in another. The layout never
  looks below the surface of a tree, so here a tree comes with the proof that it is well formed and
  that no window is in it twice, and every operation returns such a tree again.
-/
import Swayward.Keeps.RoundTrip

namespace Swayward

open Arena TilingTree List

variable {I : Type}

/-- The tiles of a tree, in tree order. -/
def TilingTree.tiles (t : TilingTree I) : List (Tile I) := (t.depthFirst t.root).filterMap t.tile

theorem TilingTree.map_window_tiles (t : TilingTree I) : t.tiles.map (·.window) = t.held := by
  unfold TilingTree.tiles TilingTree.held Arena.windows
  rw [map_filterMap, map_filterMap]
  congr 1
  funext id
  cases t.tile id <;> rfl

/-- A well-formed tree of distinct windows. -/
structure SoundTree (I : Type) where
  tree : TilingTree I
  wellFormed : tree.WellFormed
  distinct : tree.held.Nodup

namespace SoundTree

variable (t : SoundTree I)

/-- The windows of the tree, in tree order. -/
def windows : List I := t.tree.held

def tiles : List (Tile I) := t.tree.tiles

theorem map_window_tiles (t : SoundTree I) : t.tiles.map (·.window) = t.windows :=
  t.tree.map_window_tiles

theorem mem_tiles {n : NodeId} {tile : Tile I} (h : t.tree.tile n = some tile) : tile ∈ t.tiles :=
  mem_filterMap.mpr ⟨n, (t.wellFormed.arena.walk.2 n).mpr (Arena.contains_of_tile h), h⟩

theorem inv : Inv (World.ctx False False t.tree) ∅ t.tree := t.wellFormed.inv

/-- A tree that keeps the invariant, with windows that are known. -/
def ofInv (u : TilingTree I) (h : Inv (World.ctx False False u) ∅ u) (hd : u.held.Nodup) :
    SoundTree I where
  tree := u
  wellFormed := h.wellFormed rfl trivial trivial rfl
  distinct := hd

/-! ## 1. A new tree -/

def new (counter : NodeId) (config : Config) : SoundTree I :=
  ofInv (TilingTree.new counter config)
    (Inv.onSelf (c := { World.ctx False False (TilingTree.new counter config : TilingTree I) with
      windows := fun _ => none }) (inv_new counter config fun _ => rfl))
    (by rw [World.held_new]; exact nodup_nil)

variable [DecidableEq I] (t : SoundTree I)

/-! ## 2. Operations that keep the windows -/

theorem inv_runQuiet {op : QuietOp I} (h : op.promised t.tree = true) :
    Inv (World.ctx False False t.tree) ∅ (op.run t.tree) :=
  t.inv.runQuiet (fun _ => trivial) (fun _ => rfl) (fun _ => t.inv.distinct t.distinct) id id op
    (fun _ => h) False.elim False.elim

def quiet (op : QuietOp I) : SoundTree I :=
  if h : op.promised t.tree = true then
    ofInv (op.run t.tree) (t.inv_runQuiet h).onSelf
      (((t.inv_runQuiet h).held_perm t.inv).nodup_iff.mpr t.distinct)
  else
    t

/-! ## 3. Finding a window -/

theorem exists_nodeForWindow {window : I} (h : window ∈ t.windows) :
    ∃ id, t.tree.nodeForWindow window = some id := by
  obtain ⟨⟨id, w⟩, hmem, rfl⟩ := mem_map.mp h
  exact ⟨id, t.inv.nodeForWindow_eq (t.inv.distinct t.distinct) (t.inv.mem_windows.mp hmem)⟩

theorem nodeForWindow_eq_none {window : I} (h : window ∉ t.windows) :
    t.tree.nodeForWindow window = none := by
  cases e : t.tree.nodeForWindow window with
  | none => rfl
  | some id => exact absurd (mem_map_of_mem (f := (·.2))
      (t.inv.mem_windows.mpr (t.inv.window_nodeForWindow e))) h

/-! ## 4. Trees that come about -/

/-- The tree at `i` after a run of sane steps. -/
def ofRun (steps : List (Step I))
    (h : World.Along (fun w step => step.sane w = true) { counter := 0 } steps) (i : ℕ) :
    SoundTree I :=
  have hgood := World.good_of_sane h
  { tree := ((World.run steps).tree i).getD (TilingTree.new 0 {})
    wellFormed := by
      cases ht : (World.run steps).tree i with
      | none => exact (new 0 {} : SoundTree I).wellFormed
      | some t => exact (hgood.tree ht).1.wellFormed rfl trivial trivial rfl
    distinct := by
      cases ht : (World.run steps).tree i with
      | none => exact (new 0 {} : SoundTree I).distinct
      | some t => exact ((hgood.tree ht).2.2.1.nodup_iff.mp hgood.distinct).of_append_left }

end SoundTree

end Swayward
