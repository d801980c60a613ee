/-
  File:      Swayward/Layout/Floating.lean
  Subject:   THE FLOATING LAYER of a workspace (`floating_tree.rs`).

  A floating root is a single window (`entries`) or a container with its own tree (`treeEntries`).
  Both lists are kept top to bottom; `stamp` says when a root last reached the top. Positions, sizes
  and the interactive resize of floating windows are left out.
-/
import Swayward.Layout.SoundTree

namespace Swayward

open List

variable {I : Type}

/-- A single-window floating root. -/
structure FloatingEntry (I : Type) where
  tile : Tile I
  stamp : ℕ

/-- A nested container root. -/
structure FloatingTreeEntry (I : Type) where
  stamp : ℕ
  tree : SoundTree I
  root : NodeId
  sticky : Bool

/-- A nested root detached for the scratchpad or another workspace. -/
structure RemovedFloatingTree (I : Type) where
  tree : SoundTree I
  root : NodeId
  windowIds : List I
  sticky : Bool

structure FloatingLayout (I : Type) where
  entries : List (FloatingEntry I) := []
  treeEntries : List (FloatingTreeEntry I) := []
  nextStamp : ℕ := 0
  activeWindowId : Option I := none

/-- `is_child_of`. -/
def Tile.isChildOf [DecidableEq I] (tile parent : Tile I) : Bool := tile.parent == some parent.window

namespace FloatingLayout

variable (f : FloatingLayout I)

/-! ## 1. Queries -/

def tiles (f : FloatingLayout I) : List (Tile I) :=
  f.entries.map (·.tile) ++ f.treeEntries.flatMap (·.tree.tiles)

/-- The windows of the layer: single ones first, then group by group. -/
def windows (f : FloatingLayout I) : List I :=
  f.entries.map (·.tile.window) ++ f.treeEntries.flatMap (·.tree.windows)

section Windows

variable [DecidableEq I] (f : FloatingLayout I)

def idxOf (window : I) : Option ℕ :=
  f.entries.findIdx? fun entry => entry.tile.window == window

/-- The index of the nested tree that holds `window`. -/
def treeEntryForWindow (window : I) : Option ℕ :=
  f.treeEntries.findIdx? fun entry => (entry.tree.tree.nodeForWindow window).isSome

/-- The nested tree that holds `window`. -/
def treeEntryWithWindow (window : I) : Option (FloatingTreeEntry I) :=
  (f.treeEntryForWindow window).bind (f.treeEntries[·]?)

def windowIsFloatingRoot (window : I) : Bool :=
  f.entries.any fun entry => entry.tile.window == window

def hasWindow (window : I) : Bool :=
  f.windowIsFloatingRoot window || (f.treeEntryForWindow window).isSome

def treeRootForWindow (window : I) : Option NodeId :=
  (f.treeEntryWithWindow window).map (·.root)

def activeWindow : Option I :=
  f.activeWindowId.filter f.windows.contains

end Windows

/-! ## 2. The stack of single windows -/

/-- The stamp of a root that is put at `idx`: the one above it, or a new one on top. -/
def stampAt (f : FloatingLayout I) (idx : ℕ) : FloatingLayout I × ℕ :=
  match (if idx = 0 then none else f.entries[idx - 1]?) with
  | some above => (f, above.stamp)
  | none => ({ f with nextStamp := f.nextStamp + 1 }, f.nextStamp + 1)

/-- `insert_entry`, after the stamp is chosen. -/
def insertTile (f : FloatingLayout I) (idx : ℕ) (tile : Tile I) : FloatingLayout I :=
  let (f, stamp) := f.stampAt idx
  { f with entries := f.entries.insertIdx idx { tile := tile, stamp := stamp } }

/-- A window is only ever raised. -/
def raiseWindow (f : FloatingLayout I) (fromIdx toIdx : ℕ) : FloatingLayout I :=
  match f.entries[fromIdx]? with
  | some entry =>
    if toIdx ≤ fromIdx then
      { f with entries := f.entries.eraseIdx fromIdx }.insertTile toIdx entry.tile
    else
      f
  | none => f

section Stack

variable [DecidableEq I] (f : FloatingLayout I)

/-- The dialogs below the window at `idx`, back to front. -/
def descendantsOf (idx : ℕ) : List ℕ :=
  let isChild (below above : ℕ) : Bool :=
    match f.entries[below]?, f.entries[above]? with
    | some b, some a => b.tile.isChildOf a.tile
    | _, _ => false
  (range' (idx + 1) (f.entries.length - (idx + 1))).reverse.foldl
    (fun found i => if isChild i idx || found.any (isChild i ·) then found ++ [i] else found) []

/-- Put the dialogs of the window at `idx` above it. -/
def bringUpDescendantsOf (idx : ℕ) : FloatingLayout I :=
  (f.descendantsOf idx).reverse.zipIdx.foldl
    (fun f d => f.raiseWindow d.1 (idx + d.2)) f

/-- `add_tile_at`: a tile does not go below its parent. -/
def addTileAt (idx : ℕ) (tile : Tile I) (activate : Bool) : FloatingLayout I :=
  let f := if activate || f.entries.isEmpty then { f with activeWindowId := some tile.window } else f
  let idx := ((f.entries.take idx).findIdx? fun above => tile.isChildOf above.tile).getD idx
  -- a floating window is neither fullscreen nor maximized
  (f.insertTile idx { tile with pendingSizingMode := .normal }).bringUpDescendantsOf idx

def addTile (tile : Tile I) (activate : Bool) : FloatingLayout I :=
  f.addTileAt 0 tile activate

/-! ## 3. Activating a window -/

def activateWindow (f : FloatingLayout I) (window : I) : FloatingLayout I × Bool :=
  match f.idxOf window, f.treeEntryForWindow window with
  | some idx, _ =>
    (({ f.raiseWindow idx 0 with activeWindowId := some window }).bringUpDescendantsOf 0, true)
  | none, some idx =>
    match f.treeEntries[idx]? with
    | some entry =>
      let entry :=
        { entry with
          stamp := f.nextStamp + 1
          tree := entry.tree.quiet (.focus (.activateWindow window)) }
      ({ f with
          nextStamp := f.nextStamp + 1
          treeEntries := entry :: f.treeEntries.eraseIdx idx
          activeWindowId := some window }, true)
    | none => (f, false)
  | none, none => (f, false)

end Stack

/-! ## 4. Finding a window -/

section Laws

variable [DecidableEq I]
variable {f : FloatingLayout I} {window : I}

theorem mem_of_treeEntryForWindow {idx : ℕ} (h : f.treeEntryForWindow window = some idx) :
    ∃ entry, f.treeEntries[idx]? = some entry ∧ window ∈ entry.tree.windows := by
  obtain ⟨hlt, hfound, -⟩ := findIdx?_eq_some_iff_getElem.mp h
  refine ⟨_, getElem?_eq_getElem hlt, ?_⟩
  by_contra hnot
  rw [SoundTree.nodeForWindow_eq_none _ hnot] at hfound
  cases hfound

theorem isSome_treeEntryForWindow {entry : FloatingTreeEntry I} (he : entry ∈ f.treeEntries)
    (hmem : window ∈ entry.tree.windows) :
    (f.treeEntryForWindow window).isSome = true := by
  unfold treeEntryForWindow
  rw [findIdx?_isSome, any_eq_true]
  obtain ⟨id, hid⟩ := entry.tree.exists_nodeForWindow hmem
  exact ⟨entry, he, by rw [hid]; rfl⟩

theorem windowIsFloatingRoot_iff :
    f.windowIsFloatingRoot window = true ↔ window ∈ f.entries.map (·.tile.window) := by
  simp [windowIsFloatingRoot]

/-- **`has_window` finds the windows of the layer.** -/
theorem hasWindow_iff : f.hasWindow window = true ↔ window ∈ f.windows := by
  unfold hasWindow windows
  rw [Bool.or_eq_true, windowIsFloatingRoot_iff, mem_append]
  refine or_congr_right ⟨fun h => ?_, fun h => ?_⟩
  · obtain ⟨idx, hidx⟩ := Option.isSome_iff_exists.mp h
    obtain ⟨entry, hentry, hmem⟩ := mem_of_treeEntryForWindow hidx
    exact mem_flatMap.mpr ⟨entry, mem_of_getElem? hentry, hmem⟩
  · obtain ⟨entry, he, hmem⟩ := mem_flatMap.mp h
    exact isSome_treeEntryForWindow he hmem

end Laws

end FloatingLayout

end Swayward
